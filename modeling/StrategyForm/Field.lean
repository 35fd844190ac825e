import StrategyForm.Json.Value

/-!
# Fields

A field of a settings form: its name and kind, how it is shown, and the constraints on its value.
-/

namespace StrategyForm
open Decimal

/-- The kinds of values a field can hold. -/
inductive FieldKind where
  | integer
  | number
  | boolean
  | string
  | select
  | multiSelect
  | symbol
  | symbols
deriving DecidableEq, Repr

namespace FieldKind

def all : List FieldKind :=
  [.integer, .number, .boolean, .string, .select, .multiSelect, .symbol, .symbols]

/-- The word for a kind, as it is written in schemas and tables. -/
def word : FieldKind → String
  | .integer => "integer"
  | .number => "number"
  | .boolean => "boolean"
  | .string => "string"
  | .select => "select"
  | .multiSelect => "multiselect"
  | .symbol => "symbol"
  | .symbols => "symbols"

/-- The name of a kind in reports. -/
def label : FieldKind → String
  | .integer => "Integer"
  | .number => "Number"
  | .boolean => "Boolean"
  | .string => "String"
  | .select => "Select"
  | .multiSelect => "MultiSelect"
  | .symbol => "Symbol"
  | .symbols => "Symbols"

/-- The kind a word stands for; the multiple choice has two spellings. -/
def ofWord? (s : String) : Option FieldKind :=
  if s = "multi_select" then some .multiSelect else all.find? (·.word = s)

@[simp] theorem ofWord?_word (k : FieldKind) : ofWord? k.word = some k := by cases k <;> decide

end FieldKind

/-- A field of a form. -/
structure Field where
  name : String := ""
  kind : FieldKind := .string
  label : String := ""
  description : Option String := none
  /-- The value a form starts with; `null` is a value. -/
  default : Option Json := none
  min : Option Binary64 := none
  max : Option Binary64 := none
  /-- The choices of a selection; any text may be chosen when there are none. -/
  options : List String := []
  /-- When the field is shown, such as `enabled == true`. -/
  condition : Option String := none
  required : Bool := false
deriving DecidableEq, Repr, Inhabited

end StrategyForm
