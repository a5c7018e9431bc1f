import AnnotatedApi.Json.Basic

/-! What a plain scalar of YAML stands for: null, a boolean, an integer, a float, or its own text. -/
namespace AnnotatedApi.Yaml

inductive Plain where
  | null
  | bool (b : Bool)
  /-- An integer of at most 128 bits. -/
  | int (z : Int)
  | double (d : Number.Double)
  /-- An infinity, or no number. -/
  | nonfinite
  | text

def digitValue? (c : Char) : Option Nat :=
  if '0' ≤ c ∧ c ≤ '9' then some (c.toNat - '0'.toNat)
  else if 'a' ≤ c ∧ c ≤ 'f' then some (c.toNat - 'a'.toNat + 10)
  else if 'A' ≤ c ∧ c ≤ 'F' then some (c.toNat - 'A'.toNat + 10)
  else none

/-- The number that a text of digits stands for; there has to be one digit. -/
def ofDigits? (base : Nat) (cs : List Char) : Option Nat := do
  let digits ← cs.mapM fun c => (digitValue? c).filter (· < base)
  if digits.isEmpty then none else some (digits.foldl (base * · + ·) 0)

def sign : List Char → Bool × List Char
  | '-' :: cs => (true, cs)
  | '+' :: cs => (false, cs)
  | cs => (false, cs)

/-- Digits behind a leading zero, with an optional sign: these are no number. -/
def isPadded (cs : List Char) : Bool :=
  match (sign cs).2 with
  | '0' :: d :: ds => (d :: ds).all Char.isDigit
  | _ => false

/-- A magnitude in decimal, or in base 16, 8 or 2 behind `0x`, `0o`, `0b`. -/
def magnitude? : List Char → Option Nat
  | '0' :: 'x' :: cs => ofDigits? 16 cs
  | '0' :: 'o' :: cs => ofDigits? 8 cs
  | '0' :: 'b' :: cs => ofDigits? 2 cs
  | cs => ofDigits? 10 cs

def int? (cs : List Char) : Option Int := do
  let (negative, body) := sign cs
  if isPadded cs then none
  let n ← magnitude? body
  if negative then
    if n ≤ Nat.pow 2 127 then some (-n) else none
  else if n < Nat.pow 2 128 then some n else none

/-- A decimal: digits with an optional point among them, at least one, and an optional exponent. -/
def decimal? (cs : List Char) : Option Number.Decimal := do
  let whole := cs.takeWhile Char.isDigit
  let rest := cs.dropWhile Char.isDigit
  let (fraction, rest) := match rest with
    | '.' :: r => (r.takeWhile Char.isDigit, r.dropWhile Char.isDigit)
    | r => ([], r)
  let digits ← ofDigits? 10 (whole ++ fraction)
  let exponent : Int ← match rest with
    | [] => some 0
    | c :: r =>
      if c = 'e' ∨ c = 'E' then
        let (negative, ds) := sign r
        (ofDigits? 10 ds).map fun n => if negative then -(n : Int) else n
      else none
  return ⟨digits, exponent - fraction.length⟩

def infinities : List String := [".inf", ".Inf", ".INF"]

def notNumbers : List String := [".nan", ".NaN", ".NAN"]

def float? (s : String) : Option Plain :=
  let cs := s.toList
  let (negative, body) := sign cs
  if String.ofList body ∈ infinities then some .nonfinite
  else if s ∈ notNumbers then some .nonfinite
  else do
    let d ← Number.Double.ofDecimal? (← decimal? body)
    return .double (if negative then d.neg else d)

def nullWords : List String := ["", "null", "Null", "NULL", "~"]

def resolve (s : String) : Plain :=
  if s ∈ nullWords then .null
  else if s ∈ ["true", "True", "TRUE"] then .bool true
  else if s ∈ ["false", "False", "FALSE"] then .bool false
  else match int? s.toList with
    | some z => .int z
    | none => if isPadded s.toList then .text else (float? s).getD .text

/-- The value of a plain scalar. An integer past 64 bits has none, and what is not finite is null. -/
def Plain.value? (s : String) : Plain → Option Json
  | null => some .null
  | bool b => some (.bool b)
  | int z => (Word.ofInt? z).map fun w => .num (.word w)
  | double d => some (.num (.double d))
  | nonfinite => some .null
  | text => some (.str s)

end AnnotatedApi.Yaml
