import StrategyForm.Decimal.Layout
import StrategyForm.Text.Hex

/-!
# 64-bit floats with infinities

All 64-bit floats: the finite ones, the two infinities, and the value that is no number. They are
read from decimal texts, rounded to the nearest, and can be rounded further to an unsigned integer
of 64 bits, the nearest one that there is.
-/

namespace StrategyForm.Decimal

inductive Extended where
  | finite (value : Binary64)
  | infinite (negative : Bool)
  | nan
deriving DecidableEq, Repr, Inhabited

namespace Extended

/-- The float nearest to `digits * 10 ^ exponent`. A magnitude far outside the range is settled by
the number of digits alone. -/
def ofScientific (negative : Bool) (digits : Nat) (exponent : Int) : Extended :=
  let size : Int := (Nat.toDigits 10 digits).length + exponent
  if digits = 0 || size < -400 then finite (.zero negative)
  else if 400 < size then infinite negative
  else (Binary64.ofScientific? negative digits exponent).elim (infinite negative) finite

/-- The number that decimal digits stand for. -/
def value (ds : List Char) : Nat := (Text.number? 10 ds).getD 0

/-- The exponent after its mark: a sign or none, and digits. -/
def exponent? (cs : List Char) : Option Int :=
  let (negative, ds) := match cs with
    | '-' :: rest => (true, rest)
    | '+' :: rest => (false, rest)
    | _ => (false, cs)
  if ds.isEmpty || !ds.all Char.isDigit then none
  else some (if negative then -(value ds : Int) else value ds)

/-- A number without its sign: digits with at most one point among or around them, and an exponent
or none. -/
def unsigned? (negative : Bool) (cs : List Char) : Option Extended := do
  let (whole, rest) := cs.span Char.isDigit
  let (fraction, rest) := match rest with
    | '.' :: rest => rest.span Char.isDigit
    | _ => ([], rest)
  let exponent ← match rest with
    | [] => some 0
    | c :: rest => if c = 'e' || c = 'E' then exponent? rest else none
  if whole.isEmpty && fraction.isEmpty then none
  else some (ofScientific negative (value (whole ++ fraction)) (exponent - fraction.length))

/-- Reads a text: a sign or none, and a number or the name of one that is not finite, in any letter
case. -/
def ofText? (s : String) : Option Extended :=
  let (negative, cs) := match s.toList with
    | '-' :: rest => (true, rest)
    | '+' :: rest => (false, rest)
    | cs => (false, cs)
  let word := String.ofList (cs.map Char.toLower)
  if word = "inf" || word = "infinity" then some (infinite negative)
  else if word = "nan" then some nan
  else unsigned? negative cs

def render : Extended → String
  | finite x => Layout.plain.render x
  | infinite negative => if negative then "-inf" else "inf"
  | nan => "NaN"

/-- The nearest integer, a half away from zero, and of those below `2 ^ 64` the nearest one to it.
No number counts as zero. -/
def toNat64 : Extended → Nat
  | finite x => min x.round.toNat 0xFFFFFFFFFFFFFFFF
  | infinite negative => if negative then 0 else 0xFFFFFFFFFFFFFFFF
  | nan => 0

end Extended

end StrategyForm.Decimal
