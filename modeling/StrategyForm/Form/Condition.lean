import StrategyForm.Field
import StrategyForm.Json.Decoder
import StrategyForm.Text.Blank

/-!
# Conditions

A condition names another field and a literal: `name == literal` or `name != literal`. The literal
is JSON, or else a text, with or without single quotes around it. A field whose condition does not
have this form is always shown. Two numbers are compared as floats. Other values are compared part
by part, and inside them an integer is never equal to a float.
-/

namespace StrategyForm

/-- The values entered in a form, by field name. -/
abbrev FormValues := Keyed Json

/-- How a condition compares. -/
inductive Comparison where
  | equal
  | unequal
deriving DecidableEq, Repr

structure Condition where
  field : String
  comparison : Comparison
  expected : Json
deriving DecidableEq, Repr

namespace Condition

/-- The characters before and after the first pair `a` `=`. -/
def splitAt? (a : Char) : List Char → Option (List Char × List Char)
  | [] => none
  | [_] => none
  | c :: d :: rest =>
    if c = a ∧ d = '=' then some ([], rest)
    else (splitAt? a (d :: rest)).map fun (before, after) => (c :: before, after)

/-- The text without the single quotes at both ends. -/
def unquote (cs : List Char) : List Char :=
  ((cs.dropWhile (· = '\'')).reverse.dropWhile (· = '\'')).reverse

/-- The value that a literal stands for. -/
def literal (cs : List Char) : Json :=
  match Json.Decoder.decode Json.Decoder.json (String.ofList cs) with
  | .ok j => j
  | .error _ => .string (String.ofList (unquote cs))

/-- The condition that a text states. `==` is looked for first, wherever it stands. -/
def parse? (s : String) : Option Condition :=
  let make (comparison : Comparison) (sides : List Char × List Char) : Option Condition :=
    let field := Text.trimChars sides.1
    let right := Text.trimChars sides.2
    if field.isEmpty || right.isEmpty then none
    else some ⟨String.ofList field, comparison, literal right⟩
  match splitAt? '=' s.toList with
  | some sides => make .equal sides
  | none =>
    match splitAt? '!' s.toList with
    | some sides => make .unequal sides
    | none => none

/-- Equality of numbers inside arrays and objects. -/
def sameNumber : Json.Number → Json.Number → Bool
  | .int i _, .int j _ => i = j
  | .float x, .float y => x.sameValue y
  | _, _ => false

mutual
/-- Equality part by part. -/
def sameParts : Json → Json → Bool
  | .null, .null => true
  | .bool a, .bool b => a = b
  | .number m, .number n => sameNumber m n
  | .string a, .string b => a = b
  | .array a, .array b => sameItems a b
  | .object a, .object b => sameMembers a b
  | _, _ => false

def sameItems : List Json → List Json → Bool
  | [], [] => true
  | a :: as, b :: bs => sameParts a b && sameItems as bs
  | _, _ => false

def sameMembers : List (String × Json) → List (String × Json) → Bool
  | [], [] => true
  | (j, a) :: as, (k, b) :: bs => j = k && sameParts a b && sameMembers as bs
  | _, _ => false
end

/-- Equality of values: two numbers by value as floats, anything else part by part. -/
def sameValue (a b : Json) : Bool :=
  match a.asBinary64?, b.asBinary64? with
  | some x, some y => x.sameValue y
  | _, _ => sameParts a b

/-- The condition holds for the values; a field that was not entered is `null`. -/
def holds (c : Condition) (values : FormValues) : Bool :=
  let equal := sameValue ((values.get? c.field).getD .null) c.expected
  match c.comparison with
  | .equal => equal
  | .unequal => !equal

end Condition

/-- The field is shown for these values. -/
def Field.isVisible (f : Field) (values : FormValues) : Bool :=
  match f.condition.bind Condition.parse? with
  | some c => c.holds values
  | none => true

end StrategyForm
