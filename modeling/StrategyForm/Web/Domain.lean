import StrategyForm.Text.Blank
import StrategyForm.Web.Percent
import StrategyForm.Web.Punycode

/-!
# Domain names

A domain name is brought into one form in ASCII: percent escapes are resolved, capitals become
small, a few characters are dropped or stand for others, and each label that still has characters
beyond ASCII is written in Punycode after `xn--`.

Only part of the mapping for international names is here. Of the capitals beyond ASCII, those of the Latin,
Greek and Cyrillic blocks with a small letter at a fixed distance are known; other characters that stand for
one or more different ones are kept as they are, composed and decomposed forms are not brought together, and
of the characters that are not allowed only `isDenied` are refused. Names in ASCII are not concerned.
-/

namespace StrategyForm.Web.Domain

/-- Characters that no domain name holds. -/
def isDenied (c : Char) : Bool :=
  c.toNat ≤ 0x20 || (0x7F ≤ c.toNat && c.toNat < 0xA0) ||
    ['%', '#', '/', ':', '<', '>', '?', '@', '[', '\\', ']', '^', '|'].contains c ||
    Text.isBlank c || (0xE000 ≤ c.toNat && c.toNat < 0xF900) || c = '\uFFFD'

/-- Characters that are dropped from a name: marks without width. -/
def isDropped (c : Char) : Bool :=
  c = '\u00AD' || c = '\u200B' || c = '\u2060' || c = '\uFEFF' ||
    (0xFE00 ≤ c.toNat && c.toNat ≤ 0xFE0F)

/-- The small letter of a capital, and the plain form of a wide character or of a foreign stop: the part of
the mapping that is known here. -/
def foldChar (c : Char) : Char :=
  let n := c.toNat
  let shifted (d : Nat) := Char.ofNat (n + d)
  if n < 0x80 then c.toLower
  else if (0xC0 ≤ n && n ≤ 0xDE && n ≠ 0xD7) || (0x391 ≤ n && n ≤ 0x3A9) ||
      (0x410 ≤ n && n ≤ 0x42F) then
    shifted 0x20
  else if 0x400 ≤ n && n ≤ 0x40F then shifted 0x50
  else if (0x100 ≤ n && n ≤ 0x137 && n ≠ 0x130 && n ≠ 0x131) || (0x14A ≤ n && n ≤ 0x177) then
    if n % 2 = 0 then shifted 1 else c
  else if n = 0x3002 || n = 0xFF0E || n = 0xFF61 then '.'
  else if 0xFF01 ≤ n && n ≤ 0xFF5E then (Char.ofNat (n - 0xFEE0)).toLower
  else if n = 0x212A then 'k'
  else if n = 0x212B then 'å'
  else c

def isAscii (cs : List Char) : Bool := cs.all (·.toNat < 0x80)

/-- The mark of a label in Punycode. -/
def mark : List Char := ['x', 'n', '-', '-']

/-- The ASCII form of a folded label. A label that is marked must be the form of a folded label that
needs one. -/
def label? (cs : List Char) : Option (List Char) :=
  if !isAscii cs then some (mark ++ Punycode.encode cs)
  else if mark.isPrefixOf cs then
    match Punycode.decode? (cs.drop mark.length) with
    | some meant =>
      if isAscii meant || meant.any fun c => isDenied c || isDropped c || foldChar c != c then none
      else some cs
    | none => none
  else some cs

/-- The labels of a name, between its stops. -/
def labels (cs : List Char) : List (List Char) := cs.splitOn '.'

/-- The form of a name in ASCII, if it has one. -/
def toAscii? (cs : List Char) : Option (List Char) := do
  let name ← Percent.decodeText? cs
  let folded := (name.toList.filter (!isDropped ·)).map foldChar
  if folded.any isDenied then none
  else
    let done ← (labels folded).mapM label?
    some (['.'].intercalate done)

end StrategyForm.Web.Domain
