import AnnotatedApi.Json.Basic

/-! Numerals of JSON: their shape and the number each stands for. -/
namespace AnnotatedApi.Json

structure Numeral where
  negative : Bool
  whole : List Nat
  fraction : List Nat
  /-- The exponent, if one is written. -/
  exponent : Option Int
  /-- A fraction or an exponent is written. -/
  isDecimal : Bool

def ofDigits (digits : List Nat) : Nat := digits.foldl (10 * · + ·) 0

/-- Appends digits to `n` as long as it fits 64 bits; the second part holds the digits left over. -/
def absorb (n : Nat) : List Nat → Nat × List Nat
  | [] => (n, [])
  | d :: ds => if 10 * n + d < 0x10000000000000000 then absorb (10 * n + d) ds else (n, d :: ds)

namespace Numeral

/-- A double is computed from the first digits that fit 64 bits; a digit past them only counts as a
place. -/
def double? (n : Numeral) : Option Number.Double :=
  let (high, lost) := absorb 0 n.whole
  let (digits, unused) := absorb high n.fraction
  let exponent := (lost.length : Int) - (n.fraction.length - unused.length : Nat) + n.exponent.getD 0
  (Number.Double.ofParts? ⟨digits, exponent⟩).map fun d => if n.negative then d.neg else d

/-- An integer of 64 bits stays one, except for a negative zero. -/
def number? (n : Numeral) : Option Number :=
  let magnitude := ofDigits n.whole
  if n.isDecimal then n.double?.map .double
  else if n.negative ∧ magnitude = 0 then some (.double (Number.Double.neg ⟨0⟩))
  else match Word.ofInt? (if n.negative then -magnitude else magnitude) with
    | some w => some (.word w)
    | none => n.double?.map .double

end Numeral

def digit? (c : Char) : Option Nat :=
  if '0' ≤ c ∧ c ≤ '9' then some (c.toNat - '0'.toNat) else none

def digits : List Char → List Nat × List Char
  | [] => ([], [])
  | c :: cs =>
    match digit? c with
    | some d => let (ds, rest) := digits cs; (d :: ds, rest)
    | none => ([], c :: cs)

private theorem length_digits (cs : List Char) :
    (digits cs).1.length + (digits cs).2.length = cs.length := by
  induction cs with
  | nil => rfl
  | cons c cs ih =>
    unfold digits
    split
    · simp only [List.length_cons]; omega
    · simp

def someDigits? (cs : List Char) : Option (List Nat × List Char) :=
  if (digits cs).1.isEmpty then none else some (digits cs)

theorem length_someDigits? {cs rest : List Char} {ds : List Nat}
    (h : someDigits? cs = some (ds, rest)) : rest.length < cs.length := by
  unfold someDigits? at h
  split at h
  · cases h
  next hd =>
    have := length_digits cs
    rw [Option.some.inj h] at this hd
    cases ds with
    | nil => simp at hd
    | cons => simp only [List.length_cons] at this; omega

def minus : List Char → Bool × List Char
  | '-' :: rest => (true, rest)
  | rest => (false, rest)

def sign : List Char → Bool × List Char
  | '+' :: rest => (false, rest)
  | rest => minus rest

def fraction? : List Char → Option (List Nat × List Char)
  | '.' :: rest => someDigits? rest
  | rest => some ([], rest)

def exponent? : List Char → Option (Option Int × List Char)
  | c :: rest =>
    if c = 'e' ∨ c = 'E' then
      (someDigits? (sign rest).2).map fun (ds, rest') =>
        (some (if (sign rest).1 then -(ofDigits ds) else ofDigits ds), rest')
    else some (none, c :: rest)
  | [] => some (none, [])

theorem length_minus (cs : List Char) : (minus cs).2.length ≤ cs.length := by
  unfold minus; split <;> simp

private theorem length_sign (cs : List Char) : (sign cs).2.length ≤ cs.length := by
  unfold sign
  split
  · simp
  · exact length_minus _

theorem length_fraction? {cs rest : List Char} {ds : List Nat}
    (h : fraction? cs = some (ds, rest)) : rest.length ≤ cs.length := by
  unfold fraction? at h
  split at h
  · have := length_someDigits? h
    simp only [List.length_cons]; omega
  · cases h; exact Nat.le_refl _

theorem length_exponent? {cs rest : List Char} {e : Option Int}
    (h : exponent? cs = some (e, rest)) : rest.length ≤ cs.length := by
  unfold exponent? at h
  split at h
  next c r =>
    split at h
    · obtain ⟨⟨ds, r'⟩, hd, hr⟩ := Option.map_eq_some_iff.1 h
      obtain ⟨_, rfl⟩ := Prod.mk.inj hr
      have := length_someDigits? hd
      have := length_sign r
      simp only [List.length_cons]; omega
    · cases h; exact Nat.le_refl _
  · cases h; exact Nat.le_refl _

/-- The whole part has a digit, and no zero in front of others. -/
def whole? (cs : List Char) : Option (List Nat × List Char) :=
  (someDigits? cs).filter fun (ds, _) => ds.head? != some 0 || ds.length == 1

def numeral? (cs : List Char) : Option (Numeral × List Char) := do
  let (whole, afterWhole) ← whole? (minus cs).2
  let (fraction, afterFraction) ← fraction? afterWhole
  let (exponent, rest) ← exponent? afterFraction
  return (⟨(minus cs).1, whole, fraction, exponent, !fraction.isEmpty || exponent.isSome⟩, rest)

theorem length_numeral? {cs rest : List Char} {n : Numeral} (h : numeral? cs = some (n, rest)) :
    rest.length < cs.length := by
  simp only [numeral?, Option.bind_eq_bind, Option.bind_eq_some_iff, Option.pure_def] at h
  obtain ⟨⟨whole, r1⟩, h1, ⟨fraction, r2⟩, h2, ⟨exponent, r3⟩, h3, h⟩ := h
  obtain ⟨_, rfl⟩ := Prod.mk.inj (Option.some.inj h)
  dsimp only at h2 h3 ⊢
  have l1 := length_someDigits? (Option.filter_eq_some_iff.1 h1).1
  have l2 := length_fraction? h2
  have l3 := length_exponent? h3
  have := length_minus cs
  omega

end AnnotatedApi.Json
