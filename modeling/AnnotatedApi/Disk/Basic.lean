import AnnotatedApi.Build
import AnnotatedApi.Disk.Path

/-! A disk as a value: a tree of directories and files, and the directory where relative paths start; and
why a run on a disk fails. -/
namespace AnnotatedApi

inductive Entry where
  | file (bytes : ByteArray)
  | directory (entries : List (String × Entry))

namespace Entry

def isDirectory : Entry → Bool
  | directory _ => true
  | file _ => false

def get? : Entry → List String → Option Entry
  | e, [] => some e
  | directory es, name :: names => (Entries.lookup name es).bind (·.get? names)
  | file _, _ :: _ => none

/-- Puts an entry where the names lead to. Directories on the way are made, files on the way stay. -/
def put (new : Entry) : Entry → List String → Entry
  | _, [] => new
  | directory es, name :: names =>
    directory (Entries.insert name (put new ((Entries.lookup name es).getD (directory [])) names) es)
  | file bytes, _ :: _ => file bytes

end Entry

structure Disk where
  root : Entry := .directory []
  /-- The names that lead from the root to where relative paths start. -/
  here : List String := []

namespace Disk

def isDirectoryAt (d : Disk) (names : List String) : Bool := (d.root.get? names).any Entry.isDirectory

/-- Where the segments lead from the directory `place`. Only a directory can be left. -/
def follow? (d : Disk) : (place segments : List String) → Option (List String)
  | place, [] => some place
  | place, s :: rest =>
    if d.isDirectoryAt place then
      if Path.isVoid s then follow? d place rest
      else if s = ".." then follow? d place.dropLast rest
      else follow? d (place ++ [s]) rest
    else none

def start (d : Disk) (path : String) : List String := if Path.isAbsolute path then [] else d.here

/-- The place that a path names; nothing has to be there. -/
def place? (d : Disk) (path : String) : Option (List String) :=
  if path = "" then none else d.follow? (d.start path) (Path.segments path)

def find? (d : Disk) (path : String) : Option Entry := (d.place? path).bind d.root.get?

def isFile (d : Disk) (path : String) : Bool :=
  match d.find? path with
  | some (.file _) => true
  | _ => false

def isDirectory (d : Disk) (path : String) : Bool := (d.find? path).any Entry.isDirectory

def makeAlong? (d : Disk) : (place segments : List String) → Option Disk
  | _, [] => some d
  | place, s :: rest =>
    if Path.isVoid s then makeAlong? d place rest
    else if s = ".." then makeAlong? d place.dropLast rest
    else
      match d.root.get? (place ++ [s]) with
      | some (.directory _) => makeAlong? d (place ++ [s]) rest
      | some (.file _) => none
      | none =>
        if Path.isName s then
          makeAlong? { d with root := Entry.put (.directory []) d.root (place ++ [s]) } (place ++ [s])
            rest
        else none

def makeDirectories? (d : Disk) (path : String) : Option Disk :=
  d.makeAlong? (d.start path) (Path.segments path)

/-- Writes a file in a directory that is there. -/
def write? (d : Disk) (path : String) (bytes : ByteArray) : Option Disk := do
  let place ← d.place? path
  let name ← place.getLast?
  if d.isDirectoryAt place || !Path.isName name then none
  else some { d with root := Entry.put (.file bytes) d.root place }

end Disk

inductive Failure where
  /-- No document can be made. -/
  | document (error : Error)
  | inaccessible (path : String)
  | notDirectory (path : String)
  | unreadableSettings (path : String)
  | invalidSettings (format : Format) (path : String)
  | missingSettings (path : String)
  | noSources
  | unreadableInput
  | noDirectory (path : String)
  | notWritten (path : String)

def Failure.message : Failure → String
  | document error => error.message
  | inaccessible path => "Cannot access " ++ path
  | notDirectory path => path ++ " is not a directory"
  | unreadableSettings path => "Failed to read settings file: " ++ path
  | invalidSettings format path => "Invalid " ++ format.display ++ " settings in " ++ path
  | missingSettings path => "Settings file does not exist: " ++ path
  | noSources => "No annotated source files found in the given inputs"
  | unreadableInput => "Failed to read annotations from stdin"
  | noDirectory path => "Failed to create directory: " ++ path
  | notWritten path => "Failed to write to file: " ++ path

end AnnotatedApi
