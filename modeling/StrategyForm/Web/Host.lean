import StrategyForm.Web.Domain

/-!
# Hosts

The host of an address is a domain name, or a number of 32 or of 128 bits. A name whose last label
is a number must be a whole number of 32 bits, given in one to four parts of which the last fills
the bytes that are left. A number of 128 bits stands in brackets as eight pieces, of which one run
of zeros may be left out.
-/

namespace StrategyForm.Web

inductive Host where
  | domain (name : String)
  | ipv4 (address : Nat)
  | ipv6 (pieces : List Nat)
deriving DecidableEq, Repr, Inhabited

/-- How an address fails to be one. -/
inductive UrlFlaw where
  | relative
  | emptyHost
  | invalidPort
  | invalidIpv4
  | invalidIpv6
  | invalidName
  | invalidCharacter
deriving DecidableEq, Repr

def UrlFlaw.message : UrlFlaw → String
  | .relative => "relative URL without a base"
  | .emptyHost => "empty host"
  | .invalidPort => "invalid port number"
  | .invalidIpv4 => "invalid IPv4 address"
  | .invalidIpv6 => "invalid IPv6 address"
  | .invalidName => "invalid international domain name"
  | .invalidCharacter => "invalid domain character"

namespace Host
open Text (number? hexText)

/-! ### Numbers of 32 bits -/

/-- A part of a number, in base 16 after `0x`, in base 8 after `0`, or else in base 10. -/
def ipv4Part? : List Char → Option Nat
  | [] => none
  | '0' :: 'x' :: rest => number? 16 rest
  | '0' :: 'X' :: rest => number? 16 rest
  | '0' :: d :: rest => number? 8 (d :: rest)
  | cs => number? 10 cs

/-- The parts of a name; a stop at its end counts for nothing. -/
def parts (name : List Char) : List (List Char) :=
  let found := Domain.labels name
  if found.length > 1 && found.getLast? = some [] then found.dropLast else found

/-- The last part of a name is a number. -/
def endsInNumber (name : List Char) : Bool :=
  match (parts name).getLast? with
  | some last => (!last.isEmpty && last.all Char.isDigit) || (ipv4Part? last).isSome
  | none => false

/-- The number of 32 bits that a name stands for. -/
def ipv4? (name : List Char) : Option Nat := do
  let numbers ← (parts name).mapM ipv4Part?
  let last ← numbers.getLast?
  let first := numbers.dropLast
  if first.length > 3 || first.any (255 < ·) || Nat.pow 256 (4 - first.length) ≤ last then none
  else some (first.zipIdx.foldl (fun sum (n, i) => sum + n * Nat.pow 256 (3 - i)) last)

/-! ### Numbers of 128 bits -/

/-- A part of the plain form of four decimal bytes. -/
def byte? (cs : List Char) : Option Nat := do
  let n ← number? 10 cs
  if cs.isEmpty || n > 255 || (cs.length > 1 && cs.head? = some '0') then none else some n

/-- The pieces of a group between colons; four decimal bytes are two of them, and stand last. -/
def group? (isLast : Bool) (cs : List Char) : Option (List Nat) :=
  if isLast && cs.contains '.' then
    match (cs.splitOn '.').mapM byte? with
    | some [a, b, c, d] => some [a * 256 + b, c * 256 + d]
    | _ => none
  else if cs.isEmpty || cs.length > 4 then none
  else (number? 16 cs).map ([·])

/-- The pieces of groups with a colon between two of them; no groups are no pieces. -/
def groups? (isLast : Bool) (cs : List Char) : Option (List Nat) :=
  if cs.isEmpty then some []
  else
    let found := cs.splitOn ':'
    (found.zipIdx.mapM fun (g, i) => group? (isLast && i + 1 == found.length) g).map List.flatten

/-- The text before the first two colons in a row, and the text after them. -/
def atGap : List Char → Option (List Char × List Char)
  | ':' :: ':' :: rest => some ([], rest)
  | c :: rest => (atGap rest).map fun (before, after) => (c :: before, after)
  | [] => none

/-- The eight pieces that the text between the brackets stands for. -/
def ipv6? (cs : List Char) : Option (List Nat) := do
  match atGap cs with
  | some (before, after) =>
    let left ← groups? false before
    let right ← groups? true after
    if left.length + right.length > 7 then none
    else some (left ++ List.replicate (8 - left.length - right.length) 0 ++ right)
  | none =>
    let pieces ← groups? true cs
    if pieces.length = 8 then some pieces else none

/-- The number of zeros at the front. -/
def zeros (pieces : List Nat) : Nat := (pieces.takeWhile (· = 0)).length

/-- The place of the longest run of zeros, the first of several, and its length. -/
def longestZeros (pieces : List Nat) : Nat × Nat :=
  (List.range pieces.length).foldl
    (fun best i => if best.2 < zeros (pieces.drop i) then (i, zeros (pieces.drop i)) else best)
    (0, 0)

def colonized (pieces : List Nat) : String := ":".intercalate (pieces.map hexText)

def renderIpv6 (pieces : List Nat) : String :=
  let (i, n) := longestZeros pieces
  if n < 2 then colonized pieces
  else colonized (pieces.take i) ++ "::" ++ colonized (pieces.drop (i + n))

def renderIpv4 (address : Nat) : String :=
  ".".intercalate ([3, 2, 1, 0].map fun i => toString (address / Nat.pow 256 i % 256))

def render : Host → String
  | domain name => name
  | ipv4 address => renderIpv4 address
  | ipv6 pieces => "[" ++ renderIpv6 pieces ++ "]"

/-! ### Reading -/

/-- A host in brackets. -/
def bracketed (cs : List Char) : Except UrlFlaw Host :=
  if cs.getLast? = some ']' then
    match ipv6? (cs.drop 1).dropLast with
    | some pieces => .ok (ipv6 pieces)
    | none => .error .invalidIpv6
  else .error .invalidIpv6

/-- The host of an address with a common scheme. -/
def common (cs : List Char) : Except UrlFlaw Host :=
  if cs.head? = some '[' then bracketed cs
  else
    match Domain.toAscii? cs with
    | none => .error .invalidName
    | some [] => .error .emptyHost
    | some name =>
      if endsInNumber name then
        match ipv4? name with
        | some address => .ok (ipv4 address)
        | none => .error .invalidIpv4
      else .ok (domain (String.ofList name))

/-- Characters that may not stand in the host of an address with another scheme. -/
def isForbidden (c : Char) : Bool :=
  [ '\x00', '\t', '\n', '\r', ' ', '#', '/', ':', '<', '>', '?', '@', '[', '\\', ']', '^',
    '|' ].contains c

/-- The host of an address with another scheme: any text, which may be empty. -/
def uncommon (cs : List Char) : Except UrlFlaw Host :=
  if cs.head? = some '[' then bracketed cs
  else if cs.any isForbidden then .error .invalidCharacter
  else .ok (domain (String.ofList (Percent.encode Percent.control cs)))

end Host

end StrategyForm.Web
