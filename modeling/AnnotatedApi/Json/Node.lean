import AnnotatedApi.Json.Basic

/-! A JSON text that has been read. What is well formed but has no value (a number out of range, a half
of a surrogate pair, nesting past the limit) is marked, because it may stand where nobody asks for it. -/
namespace AnnotatedApi.Json

inductive Node where
  | null
  | bool (b : Bool)
  | num (n : Number)
  | str (s : String)
  | arr (elements : List Node)
  /-- The members as written, repeated names included. -/
  | obj (members : List (String × Node))
  /-- Well formed, without a value. -/
  | unreadable

namespace Node

instance : Inhabited Node := ⟨null⟩

mutual

/-- The value that was written, unless a part of it has none. -/
def value? : Node → Option Json
  | null => some .null
  | bool b => some (.bool b)
  | num n => some (.num n)
  | str s => some (.str s)
  | arr xs => (elementValues? xs).map .arr
  | obj members => (memberValues? members).map .obj
  | unreadable => none

def elementValues? : List Node → Option (List Json)
  | [] => some []
  | x :: xs => do return (← value? x) :: (← elementValues? xs)

def memberValues? : List (String × Node) → Option (List (String × Json))
  | [] => some []
  | (k, v) :: rest => do return (k, ← value? v) :: (← memberValues? rest)

end

/-- The value of the first member called `name`. -/
def member? (name : String) : Node → Option Node
  | obj members => (members.find? (·.1 = name)).map Prod.snd
  | _ => none

end Node

end AnnotatedApi.Json
