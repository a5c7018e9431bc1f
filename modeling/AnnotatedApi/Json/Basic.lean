import AnnotatedApi.Number.Basic

/-! JSON values and their text. -/
namespace AnnotatedApi

/-- A JSON value; the members of an object stand in order. -/
inductive Json where
  | null
  | bool (b : Bool)
  | num (n : Number)
  | str (s : String)
  | arr (elements : List Json)
  | obj (members : List (String × Json))

namespace Json

instance : Inhabited Json := ⟨null⟩

def ofMembers (members : List (String × Option Json)) : Json :=
  .obj (members.filterMap fun m => m.2.map (m.1, ·))

def hexDigit (n : Nat) : Char := Nat.digitChar n

def escape (c : Char) : List Char :=
  if c = '"' then ['\\', '"']
  else if c = '\\' then ['\\', '\\']
  else if c = '\n' then ['\\', 'n']
  else if c = '\r' then ['\\', 'r']
  else if c = '\t' then ['\\', 't']
  else if c = '\x08' then ['\\', 'b']
  else if c = '\x0c' then ['\\', 'f']
  else if c.toNat < 0x20 then
    ['\\', 'u', '0', '0', hexDigit (c.toNat / 16), hexDigit (c.toNat % 16)]
  else [c]

def quote (s : String) : List Char := '"' :: s.toList.flatMap escape ++ ['"']

structure Layout where
  /-- What stands before an element at this depth. -/
  newline : Nat → List Char
  colon : List Char

def compact : Layout := ⟨fun _ => [], [':']⟩

/-- One element on each line, two spaces deeper than its container. -/
def pretty : Layout := ⟨fun depth => '\n' :: List.replicate (2 * depth) ' ', [':', ' ']⟩

mutual

def print (layout : Layout) (depth : Nat) : Json → List Char
  | null => ['n', 'u', 'l', 'l']
  | bool true => ['t', 'r', 'u', 'e']
  | bool false => ['f', 'a', 'l', 's', 'e']
  | num n => (n.toText Number.jsonLayout).toList
  | str s => quote s
  | arr [] => ['[', ']']
  | arr (x :: xs) =>
    '[' :: layout.newline (depth + 1) ++ print layout (depth + 1) x
      ++ printElements layout (depth + 1) xs ++ layout.newline depth ++ [']']
  | obj [] => ['{', '}']
  | obj ((k, v) :: rest) =>
    '{' :: layout.newline (depth + 1) ++ quote k ++ layout.colon ++ print layout (depth + 1) v
      ++ printMembers layout (depth + 1) rest ++ layout.newline depth ++ ['}']

def printElements (layout : Layout) (depth : Nat) : List Json → List Char
  | [] => []
  | x :: xs =>
    ',' :: layout.newline depth ++ print layout depth x ++ printElements layout depth xs

def printMembers (layout : Layout) (depth : Nat) : List (String × Json) → List Char
  | [] => []
  | (k, v) :: rest =>
    ',' :: layout.newline depth ++ quote k ++ layout.colon ++ print layout depth v
      ++ printMembers layout depth rest

end

def render (layout : Layout) (v : Json) : String := String.ofList (print layout 0 v)

end Json

end AnnotatedApi
