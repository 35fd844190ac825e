import StrategyForm.Json.Document
import StrategyForm.Text.Hex

/-!
# Reading documents

`Doc.read` turns a text into a document. Each reader takes the characters that are left and gives
what it found with the characters after it, or no rest when the text stops being JSON there. The
recursion is bounded by the number of characters: every bracket, item and member takes at least one.
-/

namespace StrategyForm.Json

/-- What was found, and the characters after it unless the text stops being JSON. -/
abbrev Read (α : Type) := α × Option (List Char)

def isSpace (c : Char) : Bool := c = ' ' || c = '\n' || c = '\t' || c = '\r'

def skipSpace (cs : List Char) : List Char := cs.dropWhile isSpace

/-- A flaw that is the same for who keeps and who skips the value. -/
def Doc.broken (f : Flaw) : Doc := .flaw f f

namespace Reader
open Doc (broken)
open Text (hexValue?)

/-- The rest of a literal word. -/
def word (expected : List Char) (found : Doc) : List Char → Read Doc := go expected
where
  go : List Char → List Char → Read Doc
    | [], cs => (found, some cs)
    | _ :: _, [] => (.brokenWord (found matches .null) .truncated, none)
    | e :: es, c :: cs =>
      if c = e then go es cs else (.brokenWord (found matches .null) .malformed, none)

/-- Four hexadecimal digits. When fewer than four bytes are left, the text stops too early even if
they are no digits. -/
def fourHex (cs : List Char) : Except Flaw (Nat × List Char) :=
  match cs with
  | a :: b :: c :: d :: rest =>
    match hexValue? a, hexValue? b, hexValue? c, hexValue? d with
    | some a, some b, some c, some d => .ok (((a * 16 + b) * 16 + c) * 16 + d, rest)
    | _, _, _, _ => .error .malformed
  | _ => if (String.ofList cs).utf8ByteSize < 4 then .error .truncated else .error .malformed

def isLeading (n : Nat) : Bool := 0xD800 ≤ n && n ≤ 0xDBFF

def isTrailing (n : Nat) : Bool := 0xDC00 ≤ n && n ≤ 0xDFFF

/-- The character of an escape of one letter. -/
def letterEscape? (c : Char) : Option Char :=
  if c = '"' || c = '\\' || c = '/' then some c
  else if c = 'b' then some '\x08'
  else if c = 'f' then some '\x0c'
  else if c = 'n' then some '\n'
  else if c = 'r' then some '\r'
  else if c = 't' then some '\t'
  else none

/-- A quoted text after its opening quote. `whole` tells that no half of a surrogate pair has been
met so far; from the first one on nothing is gathered. -/
def text : Nat → Bool → List Char → List Char → Read Doc
  | 0, _, _, _ => (broken .truncated, none)
  | fuel + 1, whole, gathered, cs =>
    let stop (f : Flaw) : Read Doc := (.flaw (if whole then f else .malformed) f, none)
    match cs with
    | [] => stop .truncated
    | '"' :: rest =>
      (.string (if whole then some (String.ofList gathered.reverse) else none), some rest)
    | '\\' :: [] => stop .truncated
    | '\\' :: 'u' :: rest =>
      match fourHex rest with
      | .error f => stop f
      | .ok (n, after) =>
        if isTrailing n then text fuel false gathered after
        else if isLeading n then
          match after with
          | [] => stop .truncated
          | '\\' :: [] => stop .truncated
          | '\\' :: 'u' :: low =>
            match fourHex low with
            | .error f => stop f
            | .ok (m, beyond) =>
              if isTrailing m then
                let c := Char.ofNat ((n - 0xD800) * 0x400 + (m - 0xDC00) + 0x10000)
                text fuel whole (c :: gathered) beyond
              else text fuel false gathered after
          | _ => text fuel false gathered after
        else text fuel whole (Char.ofNat n :: gathered) after
    | '\\' :: c :: rest =>
      match letterEscape? c with
      | some d => text fuel whole (d :: gathered) rest
      | none => stop .malformed
    | c :: rest => if c.toNat < 0x20 then stop .malformed else text fuel whole (c :: gathered) rest

/-- The digits at the front. -/
def digits (cs : List Char) : List Nat × List Char :=
  let (ds, rest) := cs.span Char.isDigit
  (ds.map fun c => c.toNat - '0'.toNat, rest)

/-- At least one digit. -/
def digits1 (cs : List Char) : Except Flaw (List Nat × List Char) :=
  match digits cs with
  | ([], []) => .error .truncated
  | ([], _ :: _) => .error .malformed
  | found => .ok found

/-- The digits before the point: a zero alone, or digits that do not begin with one. -/
def wholePart (cs : List Char) : Except Flaw (List Nat × List Char) :=
  match cs with
  | '0' :: rest =>
    match rest with
    | c :: _ => if c.isDigit then .error .malformed else .ok ([0], rest)
    | [] => .ok ([0], rest)
  | _ => digits1 cs

/-- The digits after the point, if there is one. -/
def fractionPart (cs : List Char) : Except Flaw (Option (List Nat) × List Char) :=
  match cs with
  | '.' :: after => (digits1 after).map fun x => (some x.1, x.2)
  | _ => .ok (none, cs)

/-- The sign of an exponent. -/
def exponentSign (cs : List Char) : Bool × List Char :=
  match cs with
  | '-' :: more => (true, more)
  | '+' :: more => (false, more)
  | _ => (false, cs)

/-- The sign and the digits after the mark of the exponent, if there is one. -/
def exponentPart (cs : List Char) : Except Flaw (Option (Bool × List Nat) × List Char) :=
  match cs with
  | c :: after =>
    if c = 'e' || c = 'E' then
      let (minus, after) := exponentSign after
      (digits1 after).map fun x => (some (minus, x.1), x.2)
    else .ok (none, cs)
  | [] => .ok (none, cs)

/-- A number after its sign. -/
def unsigned (negative : Bool) (cs : List Char) : Except Flaw (Literal × List Char) := do
  let (whole, rest) ← wholePart cs
  let (fraction, rest) ← fractionPart rest
  let (exponent, rest) ← exponentPart rest
  pure (⟨negative, whole, fraction, exponent⟩, rest)

def number (cs : List Char) : Read Doc :=
  let found := match cs with
    | '-' :: rest => unsigned true rest
    | _ => unsigned false cs
  match found with
  | .ok (l, rest) => (.number l, some rest)
  | .error f => (.brokenNumber f, none)

mutual
/-- A value, after blanks. -/
def value : Nat → List Char → Read Doc
  | 0, _ => (broken .truncated, none)
  | fuel + 1, cs =>
    match skipSpace cs with
    | [] => (broken .truncated, none)
    | 'n' :: rest => word ['u', 'l', 'l'] .null rest
    | 't' :: rest => word ['r', 'u', 'e'] (.bool true) rest
    | 'f' :: rest => word ['a', 'l', 's', 'e'] (.bool false) rest
    | '"' :: rest => text (rest.length + 1) true [] rest
    | '[' :: rest =>
      match skipSpace rest with
      | [] => (.array [] (some .truncated), none)
      | ']' :: after => (.array [] none, some after)
      | _ =>
        let ((found, ending), after) := items fuel rest
        (.array found ending, after)
    | '{' :: rest =>
      match skipSpace rest with
      | [] => (.object [] (.unclosed .truncated), none)
      | '}' :: after => (.object [] .closed, some after)
      | _ =>
        let ((found, ending), after) := members fuel rest
        (.object found ending, after)
    | c :: rest =>
      if c = '-' || c.isDigit then number (c :: rest) else (broken .malformed, none)

/-- One or more items, up to the bracket. -/
def items : Nat → List Char → Read (List Doc × Option Flaw)
  | 0, _ => (([], some .truncated), none)
  | fuel + 1, cs =>
    match value fuel cs with
    | (d, none) => (([d], none), none)
    | (d, some rest) =>
      match skipSpace rest with
      | [] => (([d], some .truncated), none)
      | ']' :: after => (([d], none), some after)
      | ',' :: after =>
        let ((ds, ending), beyond) := items fuel after
        ((d :: ds, ending), beyond)
      | _ => (([d], some .malformed), none)

/-- One or more members, up to the bracket. -/
def members : Nat → List Char → Read (List (Option String × Doc) × Ending)
  | 0, _ => (([], .unclosed .truncated), none)
  | fuel + 1, cs =>
    match skipSpace cs with
    | [] => (([], .keyless .truncated .truncated .truncated), none)
    | '"' :: rest =>
      match text (rest.length + 1) true [] rest with
      | (.string key, some after) =>
        match skipSpace after with
        | [] => (([(key, broken .truncated)], .closed), none)
        | ':' :: there =>
          match value fuel there with
          | (d, none) => (([(key, d)], .closed), none)
          | (d, some beyond) =>
            match skipSpace beyond with
            | [] => (([(key, d)], .unclosed .truncated), none)
            | '}' :: last => (([(key, d)], .closed), some last)
            | ',' :: more =>
              let ((ds, ending), last) := members fuel more
              (((key, d) :: ds, ending), last)
            | _ => (([(key, d)], .unclosed .malformed), none)
        | _ => (([(key, broken .malformed)], .closed), none)
      | (.flaw kept skipped, _) => (([], .keyless kept skipped (.flawed kept)), none)
      | _ => (([], .keyless .malformed .malformed .malformed), none)
    | other => (([], .keyless .malformed .malformed (value fuel other).1.mismatch), none)
end

end Reader

/-- A document, and whether something besides blanks follows it. -/
structure Whole where
  doc : Doc
  trailing : Bool

/-- Reads a text. -/
def Doc.read (s : String) : Whole :=
  let cs := s.toList
  match Reader.value (2 * cs.length + 2) cs with
  | (doc, none) => ⟨doc, false⟩
  | (doc, some rest) => ⟨doc, !(skipSpace rest).isEmpty⟩

end StrategyForm.Json
