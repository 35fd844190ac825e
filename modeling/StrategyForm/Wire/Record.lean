import StrategyForm.Json.Decoder

/-!
# Records on the wire

Helpers to write the members of a record: one that is always there, one that is left out when there
is no value, and one that is left out when a list is empty.
-/

namespace StrategyForm.Wire

abbrev Members := List (String × Json)

def always (key : String) (value : Json) : Members := [(key, value)]

def present (key : String) (value : Option Json) : Members :=
  match value with
  | some v => [(key, v)]
  | none => []

def nonempty (key : String) (texts : List String) : Members :=
  if texts.isEmpty then [] else [(key, .ofStrings texts)]

end StrategyForm.Wire
