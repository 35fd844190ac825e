/-!
# Punycode

A label with characters beyond ASCII is written in ASCII: first its ASCII characters, then, after a
hyphen, the other ones as numbers that say how far each lies from the one before it, in order of
code point and then of place. The numbers are written in base 36 with a threshold for each digit,
which adapts to the numbers seen so far.
-/

namespace StrategyForm.Web.Punycode

/-- The character of a digit: the letters, then the ten digits. -/
def digit (d : Nat) : Char := Char.ofNat (if d < 26 then 'a'.toNat + d else '0'.toNat + (d - 26))

/-- The value of a digit. -/
def value? (c : Char) : Option Nat :=
  if c.isAlpha then some (c.toLower.toNat - 'a'.toNat)
  else if c.isDigit then some (c.toNat - '0'.toNat + 26)
  else none

/-- The threshold of the digit at a weight. -/
def threshold (bias weight : Nat) : Nat := max 1 (min 26 (weight - bias))

theorem one_le_threshold (bias weight : Nat) : 1 ≤ threshold bias weight := by
  unfold threshold; omega

theorem threshold_le (bias weight : Nat) : threshold bias weight ≤ 26 := by
  unfold threshold; omega

/-- Divides a distance until it is small, counting in steps of 36. -/
def settle (weight distance : Nat) : Nat × Nat :=
  if h : distance ≤ 455 then (weight, distance) else settle (weight + 36) (distance / 35)
termination_by distance
decreasing_by omega

/-- The next bias, after a distance that was the first or not, with this many characters placed. -/
def adapt (distance placed : Nat) (first : Bool) : Nat :=
  let d := if first then distance / 700 else distance / 2
  let (weight, d) := settle 0 (d + d / placed)
  weight + 36 * d / (d + 38)

/-- The digits of a number, the least first. -/
def number (bias weight n : Nat) : List Char :=
  let t := threshold bias weight
  if h : n < t then [digit n]
  else digit (t + (n - t) % (36 - t)) :: number bias (weight + 36) ((n - t) / (36 - t))
termination_by n
decreasing_by
  have h₁ := one_le_threshold bias weight
  have h₂ := threshold_le bias weight
  have := Nat.div_le_self (n - threshold bias weight) (36 - threshold bias weight)
  omega

/-- What is carried along while the characters beyond ASCII are written. -/
structure Progress where
  written : List Char
  distance : Nat := 0
  bias : Nat := 72
  placed : Nat

/-- Passes a character of the label on the way to those with code point `point`. -/
def pass (ascii point : Nat) (p : Progress) (c : Char) : Progress :=
  if c.toNat < point then { p with distance := p.distance + 1 }
  else if c.toNat = point then
    { written := p.written ++ number p.bias 36 p.distance
      distance := 0
      bias := adapt p.distance (p.placed + 1) (p.placed = ascii)
      placed := p.placed + 1 }
  else p

/-- Writes the characters of each of the code points, the least first. -/
def writePoints (label : List Char) (ascii : Nat) : Nat → List Nat → Progress → Progress
  | _, [], p => p
  | reached, point :: rest, p =>
    let p := { p with distance := p.distance + (point - reached) * (p.placed + 1) }
    let p := label.foldl (pass ascii point) p
    writePoints label ascii (point + 1) rest { p with distance := p.distance + 1 }

/-- The form of a label, without a mark that it is in this form. -/
def encode (label : List Char) : List Char :=
  let ascii := label.filter fun c => c.toNat < 0x80
  let points := ((label.map Char.toNat).filter (0x80 ≤ ·)).mergeSort.eraseDups
  let start := if ascii.isEmpty then [] else ascii ++ ['-']
  (writePoints label ascii.length 0x80 points { written := start, placed := ascii.length }).written

/-- Reads a number, from a digit of this weight and factor on. -/
def readNumber? (bias : Nat) : Nat → Nat → List Char → Option (Nat × List Char)
  | _, _, [] => none
  | weight, factor, c :: rest => do
    let d ← value? c
    let t := threshold bias weight
    if d < t then some (d * factor, rest)
    else
      let (n, rest) ← readNumber? bias (weight + 36) (factor * (36 - t)) rest
      some (d * factor + n, rest)

/-- Places the characters of the numbers that are left; each takes at least one digit, which bounds
their number. -/
def place? (bound point index bias : Nat) (label : List Char) : List Char → Option (List Char)
  | [] => some label
  | cs@(_ :: _) =>
    match bound with
    | 0 => none
    | bound + 1 => do
      let (distance, rest) ← readNumber? bias 36 1 cs
      let size := label.length + 1
      let next := point + (index + distance) / size
      let spot := (index + distance) % size
      if next.isValidChar then
        place? bound next (spot + 1) (adapt distance size (index = 0))
          (label.insertIdx spot (Char.ofNat next)) rest
      else none

/-- The label that a form stands for. -/
def decode? (form : List Char) : Option (List Char) :=
  let (after, before) := form.reverse.span (· ≠ '-')
  place? form.length 0x80 0 72 (before.drop 1).reverse after.reverse

end StrategyForm.Web.Punycode
