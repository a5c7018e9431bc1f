import AnnotatedApi.Disk.Basic
import AnnotatedApi.Yaml.Reader

/-! Reading and writing files: annotated sources, settings, and the document. -/
namespace AnnotatedApi

namespace Disk

def readText (d : Disk) (path : String) : Except Error String :=
  match d.find? path with
  | none => .error (.missingFiles [path])
  | some (.directory _) => .error (.unreadableFile path .directory)
  | some (.file bytes) =>
    match String.fromUTF8? bytes with
    | some text => .ok text
    | none => .error (.unreadableFile path .notText)

/-- The texts of files with a line end between them. All files that are missing are reported before any is
read. -/
def readAll (d : Disk) (paths : List String) : Except Error String :=
  let missing := paths.filter fun p => (d.find? p).isNone
  if missing.isEmpty then do return "\n".intercalate (← paths.mapM d.readText)
  else .error (.missingFiles missing)

/-- Writes a text to a file, and makes the directories above it. -/
def writeText (d : Disk) (path text : String) : Except Failure Disk := do
  let d ← match Path.parent? path with
    | none => pure d
    | some above =>
      match d.makeDirectories? above with
      | some d => pure d
      | none => .error (.noDirectory above)
  match d.write? path text.toUTF8 with
  | some d => return d
  | none => .error (.notWritten path)

end Disk

def Document.buildFiles (settings : Settings) (d : Disk) (paths : List String) :
    Except Error (Document × List Warning) := do
  build settings (← d.readAll paths)

namespace Settings

def ofText? (text : String) : Format → Option Settings
  | .json => (Json.read? text).bind decode
  | .yaml => (Yaml.read? text).bind decode

def formatOf (path : String) : Format :=
  match Path.extension? path with
  | some "yaml" => .yaml
  | some "yml" => .yaml
  | _ => .json

def load (d : Disk) (path : String) : Except Failure Settings :=
  match d.readText path with
  | .error _ => .error (.unreadableSettings path)
  | .ok text =>
    match ofText? text (formatOf path) with
    | some settings => .ok settings
    | none => .error (.invalidSettings (formatOf path) path)

end Settings

end AnnotatedApi
