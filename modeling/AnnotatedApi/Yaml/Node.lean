import AnnotatedApi.Source
import AnnotatedApi.Yaml.Scalar

/-! A YAML text that has been read. Scalars keep their text: what a plain one stands for depends on what is
wanted of it. -/
namespace AnnotatedApi.Yaml

inductive Node where
  /-- A scalar without quotes. -/
  | plain (s : String)
  /-- A scalar between quotes, or in a block of its own: it stands for its text. -/
  | text (s : String)
  | list (xs : List Node)
  | map (entries : List (Node × Node))
  /-- Nested too deeply to be taken apart. -/
  | unreadable

namespace Node

def empty : Node := plain ""

def scalar? : Node → Option String
  | plain s => some s
  | text s => some s
  | _ => none

def isEmpty : Node → Bool
  | plain s => s.isEmpty
  | _ => false

mutual

/-- The value without any expectation. -/
def value? : Node → Option Json
  | plain s => (resolve s).value? s
  | text s => some (.str s)
  | list xs => (values? xs).map .arr
  | map es => (members? es).map .obj
  | unreadable => none

def values? : List Node → Option (List Json)
  | [] => some []
  | x :: xs => do return (← value? x) :: (← values? xs)

def members? : List (Node × Node) → Option (List (String × Json))
  | [] => some []
  | (k, v) :: es => do return (← scalar? k, ← value? v) :: (← members? es)

end

def depthLimit : Nat := 128

mutual

/-- The value as far as it is nested in at most `depth` collections. -/
def within : (depth : Nat) → Node → Node
  | 0, list _ => unreadable
  | depth + 1, list xs => list (allWithin depth xs)
  | 0, map _ => unreadable
  | depth + 1, map es => map (entriesWithin depth es)
  | _, x => x

def allWithin : (depth : Nat) → List Node → List Node
  | _, [] => []
  | depth, x :: xs => within depth x :: allWithin depth xs

def entriesWithin : (depth : Nat) → List (Node × Node) → List (Node × Node)
  | _, [] => []
  | depth, (k, v) :: es => (within depth k, within depth v) :: entriesWithin depth es

end

/-- The entries of a map whose keys are scalars. Nothing stands for a map without entries. -/
def entries? : Node → Option (List (String × Node))
  | map es => es.mapM fun (k, v) => do return (← scalar? k, v)
  | x => if x.isEmpty then some [] else none

def elements? : Node → Option (List Node)
  | list xs => some xs
  | x => if x.isEmpty then some [] else none

end Node

instance : Source Node where
  text? := Node.scalar?
  flag?
    | .plain s => match resolve s with
      | .bool b => some b
      | _ => none
    | _ => none
  isAbsent
    | .plain s => s ∈ nullWords
    | _ => false
  elements? := Node.elements?
  record? x := x.entries?.map .named
  entries? := Node.entries?
  value? := Node.value?

end AnnotatedApi.Yaml
