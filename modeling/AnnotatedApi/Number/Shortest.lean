/-! The shortest decimal that reads back as a given binary number, by exact arithmetic: among the
decimals with the fewest digits the nearest one, and of two equally near the even one. -/
namespace AnnotatedApi.Number

/-- The number `mantissa * 2 ^ exponent`. -/
structure Binary where
  mantissa : Nat
  exponent : Int
  /-- The gap to the next smaller number is half the gap to the next larger one. -/
  narrowBelow : Bool

/-- The number `digits * 10 ^ exponent`. -/
structure Decimal where
  digits : Nat
  exponent : Int

def Binary.ofBits (bits : UInt64) : Binary :=
  let e := ((bits >>> 52) &&& 0x7FF).toNat
  let f := (bits &&& 0xFFFFFFFFFFFFF).toNat
  if e = 0 then ⟨f, -1074, false⟩ else ⟨0x10000000000000 + f, (e : Int) - 1075, f = 0 && e > 1⟩

/-- Compares `a * 10 ^ i` with `n * 2 ^ j`. -/
def compareScaled (a : Nat) (i : Int) (n : Nat) (j : Int) : Ordering :=
  compare (a * Nat.pow 10 i.toNat * Nat.pow 2 (-j).toNat) (n * Nat.pow 2 j.toNat * Nat.pow 10 (-i).toNat)

/-- `d` lies among the reals that round to `x`; the ends of that interval belong to it when the
mantissa is even. -/
def Binary.readsBack (x : Binary) (d : Decimal) : Bool :=
  let low := if x.narrowBelow then 4 * x.mantissa - 1 else 4 * x.mantissa - 2
  let below := compareScaled d.digits d.exponent low (x.exponent - 2)
  let above := compareScaled d.digits d.exponent (4 * x.mantissa + 2) (x.exponent - 2)
  let ends := x.mantissa % 2 = 0
  (below = .gt || ends && below = .eq) && (above = .lt || ends && above = .eq)

/-- The largest multiple of `10 ^ p` that is not above `x`, in units of `10 ^ p`. -/
def Binary.floorOn (x : Binary) (p : Int) : Nat :=
  x.mantissa * Nat.pow 2 x.exponent.toNat * Nat.pow 10 (-p).toNat /
    (Nat.pow 2 (-x.exponent).toNat * Nat.pow 10 p.toNat)

/-- The least `k` with `x < 10 ^ k`, for a nonzero `x`. -/
def Binary.scale (x : Binary) : Int :=
  let whole := x.floorOn 0
  if whole = 0 then
    ((List.range 330).find? fun (j : Nat) => x.floorOn (-j) ≠ 0).elim 0 fun j => 1 - (j : Int)
  else (Nat.toDigits 10 whole).length

/-- The better neighbour of `x` among the multiples of `10 ^ p`, if one of the two reads back. -/
def Binary.nearestOn? (x : Binary) (p : Int) : Option Decimal :=
  let floor := x.floorOn p
  let lower : Decimal := ⟨floor, p⟩
  let upper : Decimal := ⟨floor + 1, p⟩
  match x.readsBack lower, x.readsBack upper with
  | false, false => none
  | true, false => some lower
  | false, true => some upper
  | true, true =>
    match compareScaled (2 * floor + 1) p (2 * x.mantissa) x.exponent with
    | .lt => some upper
    | .gt => some lower
    | .eq => some (if floor % 2 = 0 then lower else upper)

def Decimal.strip (d : Decimal) : Decimal :=
  let text := Nat.toDigits 10 d.digits
  let zeros := (text.reverse.takeWhile (· = '0')).length
  if d.digits = 0 then d else ⟨d.digits / Nat.pow 10 zeros, d.exponent + zeros⟩

/-- The shortest decimal for a nonzero number. Seventeen digits always suffice. -/
def Binary.shortest (x : Binary) : Decimal :=
  let k := x.scale
  ((List.range 18).findSome? fun n => x.nearestOn? (k - (n + 1 : Nat))).elim ⟨0, 0⟩ Decimal.strip

end AnnotatedApi.Number
