import StrategyForm.Log
import StrategyForm.Text.Alphanumeric
import StrategyForm.Text.Blank

/-!
# Log filters

A filter is a list of directives with commas between them. A directive is a level, or it names a
target, a span in square brackets that may have a field in braces, or both, with a level after an
equals sign. A filter is accepted as a whole or not at all.
-/

namespace StrategyForm
namespace LogFilter

/-- Why a filter is refused. -/
inductive Flaw where
  | directive
  | level
deriving DecidableEq, Repr

def Flaw.message : Flaw → String
  | .directive => "invalid filter directive"
  | .level => "error parsing level filter: expected one of \"off\", \"error\", \"warn\", " ++
      "\"info\", \"debug\", \"trace\", or a number 0-5"

/-! ### Levels -/

/-- The words for levels, from the one that lets nothing through. -/
def levelWords : List String := ["off", "error", "warn", "info", "debug", "trace"]

/-- The number of a level: digits, perhaps after a plus sign. -/
def isLevelNumber (cs : List Char) : Bool :=
  let digits := match cs with
    | '+' :: rest => rest
    | cs => cs
  !digits.isEmpty && digits.all Char.isDigit && Nat.ofDigitChars 10 digits 0 < levelWords.length

/-- A level: its word in any letter case, its number, or nothing, which is a level too. -/
def isLevel (cs : List Char) : Bool :=
  cs.isEmpty || isLevelNumber cs || levelWords.contains (String.ofList (cs.map Char.toLower))

/-! ### Directives

Each reader takes what is left of a directive and gives the text of the level, if one follows. -/

abbrev Found := Except Flaw (Option (List Char))

def afterTarget : List Char → Found
  | [] => .ok none
  | '=' :: level => .ok (some level)
  | _ => .error .directive

/-- Inside of the braces, which must not be empty; the square bracket closes right after them. -/
def inField (empty : Bool) : List Char → Found
  | '}' :: ']' :: rest => if empty then .error .directive else afterTarget rest
  | '}' :: _ | [] => .error .directive
  | _ :: rest => inField false rest

def inSpan : List Char → Found
  | ']' :: rest => afterTarget rest
  | '{' :: rest => inField true rest
  | _ :: rest => inSpan rest
  | [] => .error .directive

def inTarget : List Char → Found
  | '=' :: level => .ok (some level)
  | '[' :: rest => inSpan rest
  | _ :: rest => inTarget rest
  | [] => .ok none

/-- A directive without blanks at its ends. -/
def readDirective : List Char → Found
  | '[' :: rest => inSpan rest
  | c :: rest =>
    if Text.isAlphanumeric c || c = '-' || c = ':' || c = '_' then inTarget rest
    else .error .directive
  | [] => .error .directive

/-- Blanks at the ends of a directive do not matter, unless a level follows an equals sign: then
they count as part of it, and no level has any. -/
def checkDirective (cs : List Char) : Except Flaw Unit := do
  match ← readDirective (Text.trimChars cs) with
  | none => pure ()
  | some level => if Text.trimChars cs = cs && isLevel level then pure () else throw .level

/-! ### Filters -/

/-- Whether a filter is accepted. Nothing between two commas is no directive. -/
def check (s : String) : Except Flaw Unit :=
  ((s.toList.splitOn ',').filter (· ≠ [])).forM checkDirective

end LogFilter

/-- The filter in force: that of a variable if it is accepted, else the one of the settings. -/
def LogConfig.filter (c : LogConfig) (fromVariable : Option String) :
    Except LogFilter.Flaw String :=
  match fromVariable.filter fun s => (LogFilter.check s).isOk with
  | some s => .ok s
  | none => (LogFilter.check c.level).map fun _ => c.level

end StrategyForm
