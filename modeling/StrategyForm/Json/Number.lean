import StrategyForm.Decimal.Layout

/-!
# JSON numbers

A number is a 64-bit integer, signed or unsigned, or a finite 64-bit float. `Literal` is a number as
it is spelled; `Literal.toNumber?` reads it. A spelling with a fraction or an exponent, an integer
outside 64 bits and `-0` are floats. Floats are read by the quick rule: the digits are gathered as
long as they fit in 64 bits, the rest only counts, and the significand is multiplied or divided by
one power of ten, so that two roundings happen.
-/

namespace StrategyForm.Json
open Decimal

/-- The integers that a number can hold: those of the signed and of the unsigned 64-bit range. -/
def InWords (i : Int) : Prop := -0x8000000000000000 ≤ i ∧ i < 0x10000000000000000

instance (i : Int) : Decidable (InWords i) := inferInstanceAs (Decidable (_ ∧ _))

inductive Number where
  | int (value : Int) (inWords : InWords value)
  | float (value : Binary64)
deriving DecidableEq, Repr

namespace Number

/-- The integer, or the float nearest to it when it is too wide. -/
def ofInt (i : Int) : Number := if h : InWords i then .int i h else .float (.ofInt i)

/-- The number as a float; an integer is rounded. -/
def toBinary64 : Number → Binary64
  | .int i _ => .ofInt i
  | .float x => x

def render : Number → String
  | .int i _ => toString i
  | .float x => Layout.json.render x

end Number

/-- A number as it is spelled: the digits before the point, those after it (`none` without a point),
and the exponent's sign and digits. -/
structure Literal where
  negative : Bool
  whole : List Nat
  fraction : Option (List Nat)
  exponent : Option (Bool × List Nat)
deriving DecidableEq, Repr

namespace Literal

/-- Digits gathered while the significand fits in 64 bits: the significand and the digits left. -/
def gather (significand : Nat) : List Nat → Nat × List Nat
  | [] => (significand, [])
  | d :: rest =>
    if significand * 10 + d < 0x10000000000000000 then gather (significand * 10 + d) rest
    else (significand, d :: rest)

/-- The power of ten as a float, for exponents up to 308. -/
def powerOfTen (e : Nat) : Binary64 :=
  (Binary64.ofRatio? false (Nat.pow 10 e) 1).getD (.largest false)

/-- `x` divided `n` times by `10 ^ 308`, stopping at zero. -/
def lower? (x : Binary64) : Nat → Option Binary64
  | 0 => some x
  | n + 1 => if x.significand = 0 then some x else (x.div? (powerOfTen 308)).bind (lower? · n)

/-- `x` times `10 ^ exponent`; none when it is beyond the largest float. An exponent under `-308` is
applied in steps of 308. -/
def scale? (x : Binary64) (exponent : Int) : Option Binary64 :=
  if x.significand = 0 then some x
  else if 308 < exponent then none
  else if 0 ≤ exponent then x.mul? (powerOfTen exponent.toNat)
  else
    let steps := ((-exponent).toNat - 1) / 308
    match lower? x steps with
    | none => none
    | some y => if y.significand = 0 then some y
      else y.div? (powerOfTen ((-exponent).toNat - 308 * steps))

/-- The value of a list of digits. -/
def value (ds : List Nat) : Nat := ds.foldl (fun n d => n * 10 + d) 0

/-- The greatest exponent that is told apart from a greater one. -/
def exponentLimit : Nat := 0x7FFFFFFF

/-- The float of a significand, with the exponent that the gathered digits leave and the exponent
that is spelled. A spelled exponent beyond the limit decides by its sign alone. -/
def float? (significand : Nat) (left : Int) (exponent : Option (Bool × List Nat)) :
    Option Binary64 :=
  let start := Binary64.ofInt significand
  match exponent with
  | none => scale? start left
  | some (negative, ds) =>
    let e := value ds
    if exponentLimit < e then
      if significand = 0 || negative then some (.zero false) else none
    else scale? start (if negative then left - e else left + e)

/-- The number that is spelled; none when it is beyond the largest float. -/
def toNumber? (l : Literal) : Option Number :=
  let (significand, dropped) := gather 0 l.whole
  let signed (x : Binary64) : Number := .float (if l.negative then x.neg else x)
  match l.fraction with
  | some ds =>
    let (all, rest) := gather significand ds
    let left : Int := (dropped.length : Int) - ((ds.length : Int) - rest.length)
    (float? all left l.exponent).map signed
  | none =>
    if dropped.isEmpty && l.exponent.isNone then
      if l.negative then
        if h : significand ≠ 0 ∧ InWords (-significand) then some (.int (-significand) h.2)
        else some (.float (Binary64.ofInt significand).neg)
      else if h : InWords significand then some (.int significand h)
      else some (.float (.ofInt significand))
    else (float? significand dropped.length l.exponent).map signed

end Literal

end StrategyForm.Json
