import StrategyForm.SettingTree

/-!
# TOML scalars

Bare values: truth values, numbers, dates and times. A value is first cut out as a word and then
read. Digits may be parted by single underscores. Dates and times are checked and kept as text in
one spelling.
-/

namespace StrategyForm.Toml
open Decimal

/-- The digits without the underscores, each of which must stand between two digits. -/
def parted? (isDigit : Char → Bool) : List Char → Option (List Char)
  | [] => none
  | [c] => if isDigit c then some [c] else none
  | c :: '_' :: rest => if isDigit c then (parted? isDigit rest).map (c :: ·) else none
  | c :: rest => if isDigit c then (parted? isDigit rest).map (c :: ·) else none

def isHexDigit (c : Char) : Bool := (Text.hexValue? c).isSome

/-- A sign or none, and what follows it. -/
def signed (cs : List Char) : Bool × List Char :=
  match cs with
  | '-' :: rest => (true, rest)
  | '+' :: rest => (false, rest)
  | _ => (false, cs)

/-- Decimal digits without a leading zero. -/
def decimal? (cs : List Char) : Option Nat := do
  let ds ← parted? Char.isDigit cs
  if ds.length > 1 && ds.head? = some '0' then none else some (Extended.value ds)

/-- An integer, in base 16, 8 or 2 after a mark, and else in base 10 with a sign or none. -/
def integer? (cs : List Char) : Option Int :=
  let based (base : Nat) (ds : List Char) : Option Int := do
    let ds ← parted? isHexDigit ds
    let n ← Text.number? base ds
    some n
  match cs with
  | '0' :: 'x' :: ds => based 16 ds
  | '0' :: 'o' :: ds => based 8 ds
  | '0' :: 'b' :: ds => based 2 ds
  | _ =>
    let (negative, ds) := signed cs
    (decimal? ds).map fun n => if negative then -(n : Int) else n

def isExponentMark (c : Char) : Bool := c = 'e' || c = 'E'

/-- A float with a fraction or an exponent, or the name of one that is not finite. A number that is
too great to be finite is refused, one that is too small is not. -/
def real? (cs : List Char) : Option Extended := do
  let (negative, body) := signed cs
  if body = ['i', 'n', 'f'] then some (.infinite negative)
  else if body = ['n', 'a', 'n'] then some .nan
  else
    let (mantissa, mark) := body.span (!isExponentMark ·)
    let (whole, point) := mantissa.span (· ≠ '.')
    if mark.isEmpty && point.isEmpty then none
    else
      let _ ← decimal? whole
      let whole ← parted? Char.isDigit whole
      let fraction ← match point with
        | [] => some []
        | _ :: ds => parted? Char.isDigit ds
      let exponent : Int ← match mark with
        | [] => some 0
        | _ :: rest =>
          let (below, ds) := signed rest
          (parted? Char.isDigit ds).map fun ds =>
            if below then -(Extended.value ds : Int) else Extended.value ds
      let x := Extended.ofScientific negative (Extended.value (whole ++ fraction))
        (exponent - fraction.length)
      if x = .infinite false then none else some x

/-! ### Dates and times -/

/-- A number of exactly this many digits. -/
def fixed? (width : Nat) (cs : List Char) : Option Nat :=
  if cs.length = width && cs.all Char.isDigit then some (Extended.value cs) else none

def daysIn (year month : Nat) : Nat :=
  if month = 2 then
    if year % 4 = 0 && (year % 100 ≠ 0 || year % 400 = 0) then 29 else 28
  else if [4, 6, 9, 11].contains month then 30
  else 31

/-- A date such as `2024-02-29`. -/
def isDate (cs : List Char) : Bool :=
  match cs.splitOn '-' with
  | [y, m, d] =>
    match fixed? 4 y, fixed? 2 m, fixed? 2 d with
    | some year, some month, some day =>
      1 ≤ month && month ≤ 12 && 1 ≤ day && day ≤ daysIn year month
    | _, _, _ => false
  | _ => false

/-- A time of day such as `07:32:00.5`, with the end of its fraction cut off after nine digits and
at zeros. -/
def time? (cs : List Char) : Option (List Char) := do
  let (clock, fraction) := cs.span (· ≠ '.')
  let within := match clock.splitOn ':' with
    | [h, m, s] =>
      match fixed? 2 h, fixed? 2 m, fixed? 2 s with
      | some hour, some minute, some second => hour ≤ 23 && minute ≤ 59 && second ≤ 60
      | _, _, _ => false
    | _ => false
  if !within then none
  else
    match fraction with
    | [] => some clock
    | _ :: ds =>
      if ds.isEmpty || !ds.all Char.isDigit then none
      else
        let kept := ((ds.take 9).reverse.dropWhile (· = '0')).reverse
        some (if kept.isEmpty then clock else clock ++ '.' :: kept)

/-- The distance from universal time, which may be missing. -/
def offset? (cs : List Char) : Option (List Char) :=
  match cs with
  | [] => some []
  | ['Z'] | ['z'] => some ['Z']
  | sign :: rest =>
    match rest.splitOn ':' with
    | [h, m] =>
      match fixed? 2 h, fixed? 2 m with
      | some hour, some minute =>
        if (sign = '+' || sign = '-') && hour ≤ 23 && minute ≤ 59 then
          some ((if hour = 0 && minute = 0 then '+' else sign) :: rest)
        else none
      | _, _ => none
    | _ => none

/-- A date, a time, or both with an offset or none, in one spelling. -/
def moment? (cs : List Char) : Option String :=
  if isDate (cs.take 10) then
    match cs.drop 10 with
    | [] => some (String.ofList cs)
    | mark :: rest =>
      if mark = 'T' || mark = 't' || mark = ' ' then do
        let (clock, offset) := rest.span fun c => c.isDigit || c = ':' || c = '.'
        let clock ← time? clock
        let offset ← offset? offset
        some (String.ofList (cs.take 10 ++ 'T' :: clock ++ offset))
      else none
  else (time? cs).map String.ofList

/-- Reads a word. -/
def scalar? (cs : List Char) : Option SettingTree :=
  if cs = ['t', 'r', 'u', 'e'] then some (.flag true)
  else if cs = ['f', 'a', 'l', 's', 'e'] then some (.flag false)
  else
    match integer? cs with
    | some i =>
      if -0x8000000000000000 ≤ i ∧ i < 0x8000000000000000 then some (.whole i) else none
    | none =>
      match real? cs with
      | some x => some (.real x)
      | none => (moment? cs).map .text

/-- A character of a word. -/
def isWordChar (c : Char) : Bool :=
  c.isAlphanum || c = '+' || c = '-' || c = '_' || c = '.' || c = ':'

/-- The word at the front. A space belongs to it between a date and a time. -/
def word (cs : List Char) : List Char × List Char :=
  let (first, rest) := cs.span isWordChar
  match rest with
  | ' ' :: d :: more =>
    if isDate first && d.isDigit then
      let (second, rest) := (d :: more).span isWordChar
      (first ++ ' ' :: second, rest)
    else (first, rest)
  | _ => (first, rest)

end StrategyForm.Toml
