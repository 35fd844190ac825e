import StrategyForm.Settings.Environment
import StrategyForm.Text.Alphanumeric
import StrategyForm.Text.Blank

/-!
# Files of variables

A text gives variables, one a line as `NAME=value`. A quoted value may go on over several lines; in
single quotes everything stands for itself, elsewhere a backslash keeps a character from its
meaning and a dollar sign puts in the value of another variable. The lines are read one after the
other up to the first that makes no sense, and a variable that is set already keeps its value.
-/

namespace StrategyForm.Dotenv

/-! ### Lines -/

/-- Where a reader of a line stands. -/
inductive Spot where
  | plain
  | escaped
  /-- After a blank, where a comment may begin. -/
  | blank
  | weak (escaped : Bool)
  | strong (escaped : Bool)
deriving DecidableEq, Repr

namespace Spot

/-- The spot after a character that stands outside of quotes. -/
def outside (blank : Bool) (c : Char) : Spot :=
  if c = '\\' then escaped
  else if c = '"' then weak false
  else if c = '\'' then strong false
  else if blank && Text.isBlank c && c ≠ '\n' && c ≠ '\r' then .blank
  else plain

/-- The spot after a character; none where a comment begins. A blank right after a blank is as good
as any other character. -/
def next : Spot → Char → Option Spot
  | plain, c => some (outside true c)
  | blank, c => if c = '#' then none else some (outside false c)
  | escaped, _ => some plain
  | weak true, _ => some (weak false)
  | weak false, c =>
    some (if c = '\\' then weak true else if c = '"' then plain else weak false)
  | strong true, _ => some (strong false)
  | strong false, c =>
    some (if c = '\\' then strong true else if c = '\'' then plain else strong false)

/-- Walks along characters up to the first comment. Gives the spot, none after a comment, and the
characters before the comment. -/
def walk : Spot → List Char → Option Spot × List Char
  | spot, [] => (some spot, [])
  | spot, c :: rest =>
    match spot.next c with
    | none => (none, [])
    | some after =>
      let (final, kept) := walk after rest
      (final, c :: kept)

end Spot

/-- The parts of a text that end with a line feed, and the rest if there is one. -/
def feeds : List Char → List (List Char)
  | [] => []
  | c :: rest =>
    if c = '\n' then ['\n'] :: feeds rest
    else
      match feeds rest with
      | [] => [[c]]
      | line :: lines => (c :: line) :: lines

/-- The line without the mark of its end. -/
def withoutFeed (line : List Char) : List Char :=
  match line.reverse with
  | '\n' :: '\r' :: rest | '\n' :: rest => rest.reverse
  | _ => line

/-- The lines that are complete. `before` is the line so far, which ended at a spot that asks for
more. -/
def linesAfter (before : List Char) (spot : Spot) : List (List Char) → List (List Char)
  | [] => []
  | line :: rest =>
    let whole := before ++ line
    if (whole.dropWhile Text.isBlank).head? = some '#' then linesAfter [] .plain rest
    else
      match spot.walk line with
      | (none, kept) => (before ++ kept) :: linesAfter [] .plain rest
      | (some .plain, _) => withoutFeed whole :: linesAfter [] .plain rest
      | (some spot, _) => linesAfter whole spot rest

/-- The lines of a text. What follows the last complete one is left out. -/
def lines (text : List Char) : List (List Char) := linesAfter [] .plain (feeds text)

/-! ### Values -/

inductive Quote where
  | none
  | weak
  | strong
deriving DecidableEq, Repr

/-- What the reader of a value is about. -/
inductive Mode where
  | literal
  | escape
  /-- In the name of a variable, in braces or not. -/
  | name (braced : Bool) (letters : List Char)
  /-- After the value. -/
  | done
  | comment
deriving DecidableEq, Repr

/-- A value as far as it is read. -/
structure Reading where
  quote : Quote := .none
  mode : Mode := .literal
  value : List Char := []
deriving DecidableEq, Repr

namespace Reading

def put (p : Reading) (cs : List Char) : Reading :=
  { p with mode := .literal, value := p.value ++ cs }

/-- Puts in the value of a variable, nothing if it has none. -/
def putVariable (p : Reading) (env : Environment) (letters : List Char) : Reading :=
  p.put ((env.get? (String.ofList letters)).getD "").toList

/-- What a character after a backslash stands for. -/
def escape? (c : Char) : Option Char :=
  if c = 'n' then some '\n'
  else if c = '\\' || c = '\'' || c = '"' || c = '$' || c = ' ' then some c
  else none

/-- Takes a character that means what it means outside of names and after no backslash. -/
def takeLiteral (p : Reading) (c : Char) : Reading :=
  match p.quote with
  | .strong => if c = '\'' then { p with quote := .none } else p.put [c]
  | .weak =>
    if c = '$' then { p with mode := .name false [] }
    else if c = '"' then { p with quote := .none }
    else if c = '\\' then { p with mode := .escape }
    else p.put [c]
  | .none =>
    if c = '$' then { p with mode := .name false [] }
    else if c = '\'' then { p with quote := .strong }
    else if c = '"' then { p with quote := .weak }
    else if c = '\\' then { p with mode := .escape }
    else if c = ' ' || c = '\t' then { p with mode := .done }
    else p.put [c]

/-- Takes a character. The one that ends a name without braces stands for itself, even a quote, but
for a dollar sign, which begins another name. -/
def take (env : Environment) (p : Reading) (c : Char) : Option Reading :=
  match p.mode with
  | .literal => some (p.takeLiteral c)
  | .escape => (escape? c).map fun c => p.put [c]
  | .name false letters =>
    if Text.isAlphanumeric c then some { p with mode := .name false (letters ++ [c]) }
    else if c = '{' && letters.isEmpty then some { p with mode := .name true [] }
    else
      let p := p.putVariable env letters
      some (if c = '$' then { p with mode := .name false [] } else p.put [c])
  | .name true letters =>
    some (if c = '}' then p.putVariable env letters
      else { p with mode := .name true (letters ++ [c]) })
  | .done =>
    if c = ' ' || c = '\t' then some p
    else if c = '#' then some { p with mode := .comment }
    else none
  | .comment => some p

/-- The value, if nothing of it is missing. -/
def finish? (env : Environment) (p : Reading) : Option (List Char) :=
  match p.quote, p.mode with
  | .none, .name true _ => none
  | .none, .name false letters => some (p.putVariable env letters).value
  | .none, _ => some p.value
  | _, _ => none

end Reading

/-- The value that a text means. -/
def value? (env : Environment) (cs : List Char) : Option (List Char) :=
  (cs.foldlM (Reading.take env) {}).bind (Reading.finish? env)

/-! ### Entries -/

/-- A name at the front of a line, and the rest without blanks at its front. -/
def name? (cs : List Char) : Option (List Char × List Char) :=
  match cs with
  | [] => none
  | c :: _ =>
    if c.isAlpha || c = '_' then
      let (name, rest) := cs.span fun c => c.isAlphanum || c = '_' || c = '.'
      some (name, rest.dropWhile Text.isBlank)
    else none

/-- A name and what follows the equals sign. A name may have `export` before it. -/
def assignment? (cs : List Char) : Option (List Char × List Char) := do
  match ← name? cs with
  | (name, '=' :: rest) => some (name, rest)
  | (word, rest) =>
    if word = "export".toList then
      match ← name? rest with
      | (name, '=' :: rest) => some (name, rest)
      | _ => none
    else none

/-- What a line gives: nothing for one without content, none for one that makes no sense. -/
def entry? (env : Environment) (line : List Char) : Option (Option (String × String)) :=
  let content := Text.trimChars line
  if content.isEmpty || content.head? = some '#' then some none
  else do
    let (name, rest) ← assignment? content
    let rest := rest.dropWhile Text.isBlank
    let value ← if rest.isEmpty || rest.head? = some '#' then some [] else value? env rest
    some (some (String.ofList name, String.ofList value))

/-- The variables with those of the lines, up to the first line that makes no sense. -/
def applyLines (env : Environment) : List (List Char) → Environment
  | [] => env
  | line :: rest =>
    match entry? env line with
    | none => env
    | some none => applyLines env rest
    | some (some (name, value)) =>
      applyLines (if (env.get? name).isSome then env else env ++ [(name, value)]) rest

/-- The variables with those of a text. A mark of byte order at its front does not matter. -/
def apply (env : Environment) (text : String) : Environment :=
  let cs := text.toList
  applyLines env (lines (if cs.head? = some '\uFEFF' then cs.tail else cs))

end StrategyForm.Dotenv
