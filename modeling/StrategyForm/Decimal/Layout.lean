import StrategyForm.Decimal.Shortest

/-!
# Decimal texts of floats

Two layouts of the same shortest digits: `Layout.json` changes to an exponent outside a range of
magnitudes and keeps a fraction digit, `Layout.plain` never does either.
-/

namespace StrategyForm.Decimal

/-- The decisions of a float text that are not in its digits. -/
structure Layout where
  /-- Least decimal exponent written without an exponent mark; none for no limit. -/
  least : Option Int
  /-- Greatest decimal exponent written without an exponent mark; none for no limit. -/
  greatest : Option Int
  /-- What follows a whole number. -/
  wholeEnding : String

namespace Layout

/-- Floats in JSON: positional from `1e-5` to below `1e16`, with a fraction digit. -/
def json : Layout := ⟨some (-5), some 15, ".0"⟩

/-- Floats in reports and tables: always positional, a whole number without a point. -/
def plain : Layout := ⟨none, none, ""⟩

/-- The digits `ds` with the decimal point after the first `1 + exponent` of them. -/
def positional (ending : String) (ds : List Char) (exponent : Int) : String :=
  if exponent < 0 then
    "0." ++ String.ofList (List.replicate (-exponent - 1).toNat '0' ++ ds)
  else
    let whole := exponent.toNat + 1
    if ds.length ≤ whole then String.ofList (ds ++ List.replicate (whole - ds.length) '0') ++ ending
    else String.ofList (ds.take whole) ++ "." ++ String.ofList (ds.drop whole)

/-- The digits `ds` with a point after the first and an exponent mark with its sign. -/
def exponential (ds : List Char) (exponent : Int) : String :=
  let mantissa := match ds with
    | d :: [] => String.ofList [d]
    | d :: rest => String.ofList (d :: '.' :: rest)
    | [] => ""
  mantissa ++ (if exponent < 0 then "e-" else "e+") ++ toString exponent.natAbs

/-- The text of a float in a layout. -/
def render (layout : Layout) (x : Binary64) : String :=
  let s := x.shortest
  let ds := Nat.toDigits 10 s.digits
  let exponent : Int := s.exponent + (ds.length - 1 : Nat)
  let low := match layout.least with | some l => decide (exponent < l) | none => false
  let high := match layout.greatest with | some g => decide (g < exponent) | none => false
  let body := if low || high then exponential ds exponent
    else positional layout.wholeEnding ds exponent
  if x.negative then "-" ++ body else body

end Layout

end StrategyForm.Decimal
