import StrategyForm.Text.Hex

/-!
# TOML texts

A text stands in double quotes, where a backslash begins an escape, or in single quotes, where
every character is itself. Between three quotes of either kind it may run over several lines; a
line break right after the opening quotes is left out, and up to two quotes may stand before the
closing ones. A backslash at the end of a line takes the blanks and line breaks after it away.
-/

namespace StrategyForm.Toml

def isBlank (c : Char) : Bool := c = ' ' || c = '\t'

def skipBlanks (cs : List Char) : List Char := cs.dropWhile isBlank

/-- The text after a line break. -/
def afterBreak? : List Char → Option (List Char)
  | '\n' :: rest => some rest
  | '\r' :: '\n' :: rest => some rest
  | _ => none

/-- A character that may stand as itself in a text. -/
def isPlain (c : Char) : Bool := c = '\t' || (0x20 ≤ c.toNat && c.toNat ≠ 0x7F)

/-- The character of an escape of one letter. -/
def letterEscape? (c : Char) : Option Char :=
  if c = 'b' then some '\x08'
  else if c = 't' then some '\t'
  else if c = 'n' then some '\n'
  else if c = 'f' then some '\x0c'
  else if c = 'r' then some '\r'
  else if c = '"' then some '"'
  else if c = '\\' then some '\\'
  else none

/-- The character of a code point in hexadecimal digits. -/
def codePoint? (ds : List Char) : Option Char :=
  (Text.number? 16 ds).bind fun n => if n.isValidChar then some (Char.ofNat n) else none

/-- The character of an escape after its backslash. -/
def escape? : List Char → Option (Char × List Char)
  | 'u' :: rest =>
    if (rest.take 4).length = 4 then (codePoint? (rest.take 4)).map (·, rest.drop 4) else none
  | 'U' :: rest =>
    if (rest.take 8).length = 8 then (codePoint? (rest.take 8)).map (·, rest.drop 8) else none
  | c :: rest => (letterEscape? c).map (·, rest)
  | [] => none

/-- A text on one line, after its opening quote. -/
def line? (quote : Char) (gathered : List Char) : Nat → List Char → Option (String × List Char)
  | 0, _ | _, [] => none
  | fuel + 1, c :: rest =>
    if c = quote then some (String.ofList gathered.reverse, rest)
    else if c = '\\' && quote = '"' then do
      let (d, rest) ← escape? rest
      line? quote (d :: gathered) fuel rest
    else if isPlain c then line? quote (c :: gathered) fuel rest
    else none

/-- The text without blanks and line breaks at its front. -/
def skipSpace (cs : List Char) : List Char :=
  cs.dropWhile fun c => isBlank c || c = '\n' || c = '\r'

/-- A text on several lines, after its opening quotes. -/
def lines? (quote : Char) (gathered : List Char) : Nat → List Char → Option (String × List Char)
  | 0, _ | _, [] => none
  | fuel + 1, c :: rest =>
    if c = quote then
      let quotes := (c :: rest).takeWhile (· = quote)
      if quotes.length < 3 then lines? quote (c :: gathered) fuel rest
      else
        let kept := min (quotes.length - 3) 2
        some (String.ofList (List.replicate kept quote ++ gathered).reverse,
          (c :: rest).drop (3 + kept))
    else if c = '\\' && quote = '"' then
      match afterBreak? (skipBlanks rest) with
      | some more => lines? quote gathered fuel (skipSpace more)
      | none => do
        let (d, rest) ← escape? rest
        lines? quote (d :: gathered) fuel rest
    else
      match afterBreak? (c :: rest) with
      | some more => lines? quote ('\n' :: gathered) fuel more
      | none => if isPlain c then lines? quote (c :: gathered) fuel rest else none

/-- A text of any kind. -/
def text? (quote : Char) (cs : List Char) : Option (String × List Char) :=
  match cs with
  | a :: b :: c :: rest =>
    if a = quote && b = quote && c = quote then
      lines? quote [] (rest.length + 1) ((afterBreak? rest).getD rest)
    else if a = quote then line? quote [] cs.length (b :: c :: rest)
    else none
  | a :: rest => if a = quote then line? quote [] cs.length rest else none
  | [] => none

end StrategyForm.Toml
