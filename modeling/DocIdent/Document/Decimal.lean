import DocIdent.Text.Digits

/-!
# Decimal numbers

A number that a text writes with a fraction or an exponent is kept as it is written: a sign, a
significand and a power of ten (`Decimal`). Its value is needed for one question only, whether it
lies beyond the range of double-precision numbers. There are two answers. `Decimal.exceeds` rounds
the number once, correctly. `Decimal.overflows` multiplies the rounded significand by the rounded
power of ten, after cutting the significand to the digits that fit into 64 bits; near the end of the
range the two may differ.
-/

namespace DocIdent

/-- A number in decimal notation: the significand times a power of ten, or the opposite. -/
structure Decimal where
  /-- The number has a minus sign. -/
  negative : Bool
  /-- The digits of the number. -/
  significand : Nat
  /-- The power of ten. -/
  exponent : Int
  deriving DecidableEq, Inhabited

namespace Decimal

/-- The least number that rounds beyond the largest double-precision number. -/
def beyondDouble : Nat := Nat.pow 2 1024 - Nat.pow 2 970

/-- A number rounded to 53 binary digits, a tie to the even neighbour. -/
def round53 (n : Nat) : Nat :=
  let ulp := Nat.pow 2 (n.log2 - 52)
  let q := n / ulp
  let r := n % ulp
  let up := 2 * r > ulp || (2 * r = ulp && q % 2 = 1)
  if up then (q + 1) * ulp else q * ulp

/-- The leading digits of a run of digits as far as their number fits into 64 bits, and the count
of the digits left over, after the digits that were read before. -/
def leading64 (value : Nat) : List Char → Nat × Nat
  | [] => (value, 0)
  | c :: cs =>
    let next := 10 * value + (c.toNat - '0'.toNat)
    if next < Nat.pow 2 64 then leading64 next cs else (value, cs.length + 1)

/-- The power of ten to which a significand reaches. -/
def reach (d : Decimal) : Int :=
  (Text.decimal d.significand).length + d.exponent

/-- The number, apart from its sign, rounds beyond the largest double-precision number. -/
def exceeds (d : Decimal) : Bool :=
  if d.significand = 0 ∨ d.reach < 309 then false
  else if 310 < d.reach then true
  else if 0 ≤ d.exponent then beyondDouble ≤ d.significand * Nat.pow 10 d.exponent.toNat
  else beyondDouble * Nat.pow 10 (-d.exponent).toNat ≤ d.significand

/-- The number, apart from its sign, leaves the range of double-precision numbers when its leading
digits and its power of ten are rounded first and then multiplied. -/
def overflows (d : Decimal) : Bool :=
  let (value, dropped) := leading64 0 (Text.decimal d.significand)
  let exponent := d.exponent + dropped
  if value = 0 ∨ exponent < 0 then false
  else if 308 < exponent then true
  else beyondDouble ≤ round53 value * round53 (Nat.pow 10 exponent.toNat)

end Decimal

end DocIdent
