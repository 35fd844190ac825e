/-!
# Finite 64-bit floats

A finite 64-bit float is a sign, a significand below `2 ^ 53` and a scale: its value is
`significand * 2 ^ scale` units of `2 ^ -1074`, the least positive float. Either the significand
has all its 53 bits or the scale is `0`, so the fields of a float are determined by its value and
the sign of a zero. Every comparison of values is a comparison of integers (`units`), and every
operation rounds an exact quotient once (`nearest?`), to the nearest float, a half to the even
significand.
-/

namespace StrategyForm.Decimal

/-- A finite 64-bit float. -/
structure Binary64 where
  negative : Bool
  significand : Nat
  scale : Nat
  significand_lt : significand < 0x20000000000000
  normal : 0x10000000000000 ≤ significand ∨ scale = 0
  scale_le : scale ≤ 2045
deriving DecidableEq, Repr

/-- The quotient `num / den` to the nearest integer, a half to the even neighbour. -/
def roundDiv (num den : Nat) : Nat :=
  let quotient := num / den
  let twice := 2 * (num % den)
  if twice < den then quotient
  else if twice = den then quotient + quotient % 2
  else quotient + 1

namespace Binary64

/-- Units of `2 ^ -1074` in `1`. -/
def one : Nat := Nat.pow 2 1074

/-- The absolute value, in units of `2 ^ -1074`. -/
def magnitude (x : Binary64) : Nat := x.significand * Nat.pow 2 x.scale

/-- The value, in units of `2 ^ -1074`. -/
def units (x : Binary64) : Int := if x.negative then -(x.magnitude : Int) else x.magnitude

/-- A zero of either sign. -/
def zero (negative : Bool) : Binary64 where
  negative := negative
  significand := 0
  scale := 0
  significand_lt := by decide
  normal := .inr rfl
  scale_le := by decide

/-- The largest finite float of a sign. -/
def largest (negative : Bool) : Binary64 where
  negative := negative
  significand := 0x1FFFFFFFFFFFFF
  scale := 2045
  significand_lt := by decide
  normal := .inl (by decide)
  scale_le := by decide

instance : Inhabited Binary64 := ⟨zero false⟩

/-- The float with these fields, if there is one. -/
def ofFields? (negative : Bool) (significand scale : Nat) : Option Binary64 :=
  if h : significand < 0x20000000000000 ∧ (0x10000000000000 ≤ significand ∨ scale = 0) ∧
      scale ≤ 2045 then
    some ⟨negative, significand, scale, h.1, h.2.1, h.2.2⟩
  else none

/-- The float nearest to `num / den` units of `2 ^ -1074`; none when that is beyond the largest
float. The scale leaves 53 bits of the quotient; rounding may carry into a 54th. -/
def nearest? (negative : Bool) (num den : Nat) : Option Binary64 :=
  let scale := (num / den).log2 - 52
  let significand := roundDiv num (den * Nat.pow 2 scale)
  if significand = 0x20000000000000 then ofFields? negative 0x10000000000000 (scale + 1)
  else ofFields? negative significand scale

/-- The float nearest to the fraction `num / den`. -/
def ofRatio? (negative : Bool) (num den : Nat) : Option Binary64 :=
  nearest? negative (num * one) den

/-- The float nearest to an integer; integers beyond the largest float become that float. -/
def ofInt (i : Int) : Binary64 :=
  (ofRatio? (i < 0) i.natAbs 1).getD (largest (i < 0))

/-- The float nearest to `digits * 10 ^ exponent`. -/
def ofScientific? (negative : Bool) (digits : Nat) (exponent : Int) : Option Binary64 :=
  if 0 ≤ exponent then ofRatio? negative (digits * Nat.pow 10 exponent.toNat) 1
  else ofRatio? negative digits (Nat.pow 10 (-exponent).toNat)

/-- The product, rounded; none when it is beyond the largest float. -/
def mul? (x y : Binary64) : Option Binary64 :=
  nearest? (x.negative != y.negative) (x.magnitude * y.magnitude) one

/-- The quotient by a float that is not zero, rounded; none when it is beyond the largest float. -/
def div? (x y : Binary64) : Option Binary64 :=
  nearest? (x.negative != y.negative) (x.magnitude * one) y.magnitude

def neg (x : Binary64) : Binary64 := { x with negative := !x.negative }

/-- Equality of values: the two zeros are equal. -/
def sameValue (x y : Binary64) : Bool := x.units == y.units

instance : LT Binary64 := ⟨fun x y => x.units < y.units⟩
instance : LE Binary64 := ⟨fun x y => x.units ≤ y.units⟩
instance (x y : Binary64) : Decidable (x < y) := inferInstanceAs (Decidable (x.units < y.units))
instance (x y : Binary64) : Decidable (x ≤ y) := inferInstanceAs (Decidable (x.units ≤ y.units))

theorem lt_iff (x y : Binary64) : x < y ↔ x.units < y.units := Iff.rfl

theorem le_iff (x y : Binary64) : x ≤ y ↔ x.units ≤ y.units := Iff.rfl

/-- The value has no fractional part. -/
def isWhole (x : Binary64) : Bool := x.magnitude % one == 0

/-- The value to the nearest integer, a half away from zero. -/
def round (x : Binary64) : Int :=
  let whole : Int := ((2 * x.magnitude + one) / (2 * one) : Nat)
  if x.negative then -whole else whole

end Binary64

end StrategyForm.Decimal
