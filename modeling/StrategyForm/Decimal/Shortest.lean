import StrategyForm.Decimal.Binary64

/-!
# The shortest decimal of a float

Of all decimals `digits * 10 ^ exponent` that read back as a given float, `shortest` takes one with
the fewest digits, and among those the one nearest to the float. On the grid of multiples of a power
of ten only the float's two neighbours need a look: if any point of the grid reads back, one of
these does. Seventeen digits always read back.
-/

namespace StrategyForm.Decimal

/-- A decimal `digits * 10 ^ exponent`. -/
structure Scientific where
  digits : Nat
  exponent : Int
deriving DecidableEq, Repr

namespace Binary64

/-- Half the distance to the neighbours of a float, below and above, in quarters of its unit: the
neighbour below a power of two is nearer. -/
def gaps (x : Binary64) : Nat × Nat :=
  (if x.significand = 0x10000000000000 ∧ 0 < x.scale then 1 else 2, 2)

/-- The decimal `k * 10 ^ e` reads back as the positive float `x`. All lengths are taken in quarters
of `2 ^ -1074`, times `10 ^ (-e)` when `e` is negative; the ends of the interval belong to an even
significand. -/
def readsBack (x : Binary64) (k : Nat) (e : Int) : Bool :=
  let up := Nat.pow 10 e.toNat
  let down := Nat.pow 10 (-e).toNat
  let point := 4 * one * k * up
  let centre := 4 * x.magnitude * down
  let below := x.gaps.1 * Nat.pow 2 x.scale * down
  let above := x.gaps.2 * Nat.pow 2 x.scale * down
  if x.significand % 2 = 0 then centre ≤ point + below && point ≤ centre + above
  else centre < point + below && point < centre + above

/-- The nearest multiple of `10 ^ e` that reads back as the positive float `x`, if one does. Of two
at the same distance the even one is taken. -/
def onGrid? (x : Binary64) (e : Int) : Option Nat :=
  let num := x.magnitude * Nat.pow 10 (-e).toNat
  let den := one * Nat.pow 10 e.toNat
  let low := num / den
  let rest := 2 * (num % den)
  let near := if rest < den then low else if rest = den then low + low % 2 else low + 1
  let far := if near = low then low + 1 else low
  if readsBack x near e then some near
  else if readsBack x far e then some far
  else none

/-- The decimal exponent of a positive float: the `e` with `10 ^ e ≤ x < 10 ^ (e + 1)`. The search
goes up from an estimate that is at most one too low. -/
def decimalExponent (x : Binary64) : Int :=
  let bits : Int := (x.magnitude.log2 : Int) - 1074
  let estimate := (bits * 30103).fdiv 100000 - 1
  let reaches (e : Int) : Bool :=
    one * Nat.pow 10 e.toNat ≤ x.magnitude * Nat.pow 10 (-e).toNat
  if reaches (estimate + 2) then estimate + 2
  else if reaches (estimate + 1) then estimate + 1
  else estimate

/-- Tries `n` grids, from coarse to fine. -/
def finestOf (x : Binary64) : Nat → Int → Scientific
  | 0, e => ⟨roundDiv (x.magnitude * Nat.pow 10 (-e).toNat) (one * Nat.pow 10 e.toNat), e⟩
  | n + 1, e =>
    match x.onGrid? e with
    | some k => ⟨k, e⟩
    | none => x.finestOf n (e - 1)

/-- Drops trailing zeros of the digits into the exponent. -/
def stripZeros : Nat → Scientific → Scientific
  | 0, s => s
  | fuel + 1, s =>
    if s.digits % 10 = 0 ∧ s.digits ≠ 0 then stripZeros fuel ⟨s.digits / 10, s.exponent + 1⟩ else s

/-- The shortest decimal that reads back as the absolute value of `x`, without trailing zeros. -/
def shortest (x : Binary64) : Scientific :=
  if x.significand = 0 then ⟨0, 0⟩
  else stripZeros 20 (x.finestOf 17 x.decimalExponent)

end Binary64

end StrategyForm.Decimal
