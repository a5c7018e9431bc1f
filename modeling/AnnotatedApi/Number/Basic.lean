import AnnotatedApi.Number.Shortest

/-! The numbers of a JSON text: integers of 64 bits, signed or not, and double-precision numbers, read and
written in decimal. -/
namespace AnnotatedApi

namespace Number

/-- A finite number of 64 bits: sign, exponent, fraction. -/
structure Double where
  bits : UInt64
deriving DecidableEq, Repr

namespace Double

def isNegative (d : Double) : Bool := d.bits >>> 63 = 1

def isZero (d : Double) : Bool := d.bits <<< 1 = 0

def neg (d : Double) : Double := ⟨d.bits ^^^ 0x8000000000000000⟩

def ofFinite? (x : Float) : Option Double := if x.isFinite then some ⟨x.toBits⟩ else none

/-- The double nearest to `digits * 10 ^ exponent`, unless that is too large. Exponents that decide
the result alone are not computed with. -/
def ofDecimal? (d : Decimal) : Option Double :=
  let size := (Nat.toDigits 10 d.digits).length + d.exponent
  if d.digits = 0 ∨ size < -400 then some ⟨0⟩
  else if size > 400 then none
  else ofFinite? (.ofScientific d.digits (d.exponent < 0) d.exponent.natAbs)

/-- Divides by 10 ^ 308 as long as `k` exceeds the largest power of ten that is a double. -/
def divideByPower : (steps : Nat) → Float → (k : Nat) → Float
  | 0, x, _ => x
  | steps + 1, x, k =>
    if k ≤ 308 then x / .ofScientific 1 false k
    else if x == 0 then x
    else divideByPower steps (x / 1e308) (k - 308)

/-- The product of the digits, rounded to a double, and a power of ten, rounded again. This is not
always the double nearest to the product, so a decimal of many digits may come out one place off. -/
def ofParts? (d : Decimal) : Option Double :=
  let x := Float.ofNat d.digits
  if d.exponent < 0 then ofFinite? (divideByPower 8 x d.exponent.natAbs)
  else if d.exponent ≤ 308 then ofFinite? (x * .ofScientific 1 false d.exponent.toNat)
  else if d.digits = 0 then some ⟨0⟩
  else none

/-- How a double is written: an exponent follows `mark`, and a positive one `mark ++ plus`. -/
structure Layout where
  mark : String
  plus : String

/-- Positional from 10 ^ -5 up to 10 ^ 16, always with a fraction; otherwise with an exponent. -/
def layOut (layout : Layout) (d : Decimal) : String :=
  let digits := Nat.toDigits 10 d.digits
  let point : Int := digits.length + d.exponent
  if 0 < point ∧ point ≤ 16 then
    let whole := digits.take point.toNat ++ List.replicate (point.toNat - digits.length) '0'
    let fraction := digits.drop point.toNat
    String.ofList (whole ++ '.' :: if fraction.isEmpty then ['0'] else fraction)
  else if -5 < point ∧ point ≤ 0 then
    String.ofList ('0' :: '.' :: List.replicate (-point).toNat '0' ++ digits)
  else
    let exponent := point - 1
    let head := match digits with
      | [c] => [c]
      | c :: rest => c :: '.' :: rest
      | [] => []
    String.ofList head ++ layout.mark ++ (if exponent < 0 then "-" else layout.plus)
      ++ String.ofList (Nat.toDigits 10 exponent.natAbs)

def toText (layout : Layout) (d : Double) : String :=
  (if d.isNegative then "-" else "") ++
    if d.isZero then "0.0" else layOut layout (Binary.ofBits d.bits).shortest

end Double

end Number

structure Word where
  val : Int
  inRange : -0x8000000000000000 ≤ val ∧ val < 0x10000000000000000
deriving DecidableEq

def Word.ofInt? (z : Int) : Option Word :=
  if h : -0x8000000000000000 ≤ z ∧ z < 0x10000000000000000 then some ⟨z, h⟩ else none

inductive Number where
  | word (w : Word)
  | double (d : Number.Double)
deriving DecidableEq

namespace Number

/-- A double in JSON: `1e+21`. -/
def jsonLayout : Double.Layout := ⟨"e", "+"⟩

/-- A double in YAML: `1e21`. -/
def yamlLayout : Double.Layout := ⟨"e", ""⟩

def toText (layout : Double.Layout) : Number → String
  | word w => (if w.val < 0 then "-" else "") ++ String.ofList (Nat.toDigits 10 w.val.natAbs)
  | double d => d.toText layout

theorem eq_zero_of_head?_toDigits {n : Nat} (h : (Nat.toDigits 10 n).head? = some '0') : n = 0 := by
  induction n using Nat.strongRecOn with
  | ind n ih =>
    by_cases hn : n < 10
    · simpa [Nat.toDigits_of_lt_base hn] using h
    · obtain ⟨c, cs, hcs⟩ := List.exists_cons_of_ne_nil (Nat.toDigits_ne_nil (n := n / 10) (b := 10))
      have hlead := ih (n / 10) (by omega)
      rw [Nat.toDigits_of_base_le (by decide) (by omega), hcs] at h
      rw [hcs] at hlead
      have := hlead h
      omega

theorem isDigit_of_mem_toDigits {n : Nat} {c : Char} (h : c ∈ Nat.toDigits 10 n) : c.isDigit :=
  Nat.isDigit_of_mem_toDigits (by decide) (by decide) h

theorem exists_toDigits_eq_cons (n : Nat) : ∃ c cs, Nat.toDigits 10 n = c :: cs ∧ c.isDigit := by
  obtain ⟨c, cs, h⟩ := List.exists_cons_of_ne_nil (Nat.toDigits_ne_nil (n := n) (b := 10))
  exact ⟨c, cs, h, isDigit_of_mem_toDigits (n := n) (by simp [h])⟩

theorem toList_toText_word (layout : Double.Layout) (w : Word) :
    ((word w).toText layout).toList =
      (if w.val < 0 then ['-'] else []) ++ Nat.toDigits 10 w.val.natAbs := by
  rw [toText, String.toList_append, String.toList_ofList]
  split <;> rfl

theorem Word.ofInt?_val (w : Word) : Word.ofInt? w.val = some w := by
  rw [Word.ofInt?, dif_pos w.inRange]

end Number

end AnnotatedApi
