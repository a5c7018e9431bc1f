/-! Texts that name places on a disk: names with slashes between them. -/
namespace AnnotatedApi.Path

def segments (path : String) : List String := (path.toList.splitOn '/').map String.ofList

def isAbsolute (path : String) : Bool := path.toList.head? = some '/'

/-- A segment that leads nowhere: nothing, or a dot. -/
def isVoid (segment : String) : Bool := segment = "" || segment = "."

/-- Drops void segments, but not the last one of the list. -/
def dropVoid : List String → List String
  | [] => []
  | [s] => [s]
  | s :: rest => if isVoid s then dropVoid rest else s :: rest

/-- The path without its last name; none for an empty path and for the root. -/
def parent? (path : String) : Option String :=
  match dropVoid (segments path).reverse with
  | [] => none
  | [s] => if s = "" then none else some ""
  | _ :: rest =>
    match dropVoid rest with
    | [""] => some "/"
    | above => some ("/".intercalate above.reverse)

/-- The last name, unless the path ends by going up. -/
def name? (path : String) : Option String :=
  ((segments path).filter (!isVoid ·)).getLast?.filter (· ≠ "..")

/-- What follows the last dot of a name, unless that dot comes first. -/
def nameExtension? (name : String) : Option String :=
  let cs := name.toList.reverse
  match cs.dropWhile (· ≠ '.') with
  | _ :: _ :: _ => some (String.ofList (cs.takeWhile (· ≠ '.')).reverse)
  | _ => none

def extension? (path : String) : Option String := (name? path).bind nameExtension?

def join (root : String) (names : List String) : String :=
  let below := "/".intercalate names
  if root.toList.getLast? = some '/' then root ++ below else root ++ "/" ++ below

def isName (s : String) : Bool := s.utf8ByteSize ≤ 255 && '\x00' ∉ s.toList

end AnnotatedApi.Path
