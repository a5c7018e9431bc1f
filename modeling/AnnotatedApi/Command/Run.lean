import AnnotatedApi.Command.Arguments
import AnnotatedApi.Disk.Files
import AnnotatedApi.Disk.Scan

/-! What the command does, as a function of its arguments, the disk and the input. -/
namespace AnnotatedApi.Command.Arguments

def check (a : Arguments) (d : Disk) : Except Failure Unit :=
  match a.config with
  | some path => if d.isFile path then .ok () else .error (.missingSettings path)
  | none => .ok ()

/-- The settings of the file with those of the arguments: servers are added, the rest is replaced. -/
def settings (a : Arguments) (d : Disk) : Except Failure Settings := do
  let s ← match a.config with
    | some path => Settings.load d path
    | none => pure {}
  let added : List Server := a.servers.map fun url => { url, description := none }
  return { s with
    config := { s.config with
      title := a.title <|> s.config.title
      version := a.apiVersion <|> s.config.version
      servers := if added.isEmpty then s.config.servers else some (s.config.servers.getD [] ++ added) } }

def filesOf (a : Arguments) (d : Disk) (input : String) : Except Failure (List String) :=
  if d.isDirectory input then
    d.scan (if a.extensions.isEmpty then Scan.defaultExtensions else a.extensions) input
  else .ok [input]

def files (a : Arguments) (d : Disk) : Except Failure (List String) := do
  return (← a.inputs.mapM (a.filesOf d)).flatten

/-- The document of the inputs, or of the standard input if there are none. -/
def document (a : Arguments) (d : Disk) (input : ByteArray) :
    Except Failure (Document × List Warning) := do
  let settings ← a.settings d
  if a.inputs.isEmpty then
    match String.fromUTF8? input with
    | none => .error .unreadableInput
    | some text => (Document.build settings text).mapError .document
  else
    let files ← a.files d
    if files.isEmpty then .error .noSources
    else (Document.buildFiles settings d files).mapError .document

structure Outcome where
  printed : String
  disk : Disk
  warnings : List Warning

/-- Writes the document to the output file, or prints it with a line end. -/
def run (a : Arguments) (d : Disk) (input : ByteArray) : Except Failure Outcome := do
  a.check d
  let (document, warnings) ← a.document d input
  let text := document.render (a.format.getD .yaml)
  match a.output with
  | some path => return { printed := "", disk := ← d.writeText path text, warnings }
  | none => return { printed := text ++ "\n", disk := d, warnings }

end AnnotatedApi.Command.Arguments
