import AnnotatedApi.Json.Node

/-! Decoding: what may be asked of a text that has been read, whatever its format, and how the fields
of a record are found. -/
namespace AnnotatedApi

/-- The fields of a record: by name as written, or all of them in order. -/
inductive Record (σ : Type) where
  | named (fields : List (String × σ))
  | positional (values : List σ)

class Source (σ : Type) where
  /-- The text, where one is wanted. -/
  text? : σ → Option String
  flag? : σ → Option Bool
  /-- Stands for the absence of an optional value. -/
  isAbsent : σ → Bool
  elements? : σ → Option (List σ)
  record? : σ → Option (Record σ)
  /-- Names and values, where any name may stand. -/
  entries? : σ → Option (List (String × σ))
  /-- The value without any expectation. -/
  value? : σ → Option Json

instance : Source Json.Node where
  text?
    | .str s => some s
    | _ => none
  flag?
    | .bool b => some b
    | _ => none
  isAbsent
    | .null => true
    | _ => false
  elements?
    | .arr xs => some xs
    | _ => none
  record?
    | .obj ms => some (.named ms)
    | .arr xs => some (.positional xs)
    | _ => none
  entries?
    | .obj ms => some ms
    | _ => none
  value? := Json.Node.value?

namespace Source

variable {σ α : Type} [Source σ]

def optional? (decode : σ → Option α) (v : σ) : Option (Option α) :=
  if isAbsent v then some none else (decode v).map some

def list? (decode : σ → Option α) (v : σ) : Option (List α) :=
  (elements? v).bind (·.mapM decode)

def texts? (v : σ) : Option (List String) := list? text? v

end Source

namespace Record

variable {σ α : Type}

/-- A field by its place and name, if it is there. A name that is written twice is refused. -/
def field? (r : Record σ) (place : Nat) (name : String) : Option (Option σ) :=
  match r with
  | named fields =>
    match fields.filter (·.1 = name) with
    | [] => some none
    | [(_, v)] => some (some v)
    | _ => none
  | positional values => some values[place]?

def atMost (r : Record σ) (n : Nat) : Option Unit :=
  match r with
  | named _ => some ()
  | positional values => if values.length ≤ n then some () else none

def required (r : Record σ) (place : Nat) (name : String) (decode : σ → Option α) : Option α := do
  decode (← (← r.field? place name))

/-- A field that may be missing, and then has the value `default`. -/
def orElse (r : Record σ) (place : Nat) (name : String) (default : α) (decode : σ → Option α) :
    Option α := do
  match ← r.field? place name with
  | some v => decode v
  | none => some default

/-- A field that may be missing by name, but not in a record in order. -/
def optional [Source σ] (r : Record σ) (place : Nat) (name : String) (decode : σ → Option α) :
    Option (Option α) :=
  match r with
  | named _ => r.orElse place name none (Source.optional? decode)
  | positional _ => r.required place name (Source.optional? decode)

end Record

end AnnotatedApi
