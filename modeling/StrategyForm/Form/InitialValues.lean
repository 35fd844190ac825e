import StrategyForm.Form.Condition
import StrategyForm.Schema

/-!
# Initial values

A form starts with the defaults of its fields, in the order of the sections; the schema's own
defaults override those.
-/

namespace StrategyForm

/-- The defaults of the fields, in order. -/
def fieldDefaults (sections : List Section) : List (String × Json) :=
  (sections.flatMap (·.fields)).filterMap fun f => f.default.map (f.name, ·)

/-- The values a form starts with. -/
def initialValues (schema : Schema) (sections : List Section) : FormValues :=
  (Keyed.ofList (fieldDefaults sections)).override (schema.defaults.getD .empty)

end StrategyForm
