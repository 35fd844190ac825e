import StrategyForm.Field
import StrategyForm.Text.Fold

/-!
# Fragments

A fragment is a block of fields that several schemas share; a schema refers to it by its id.
-/

namespace StrategyForm

/-- What a fragment is about. -/
inductive Category where
  | indicator
  | filter
  | riskManagement
  | positionSizing
  | timing
  | asset
deriving DecidableEq, Repr

namespace Category

def all : List Category := [.indicator, .filter, .riskManagement, .positionSizing, .timing, .asset]

/-- The word for a category, as it is written in fragments, tables and addresses. -/
def word : Category → String
  | .indicator => "indicator"
  | .filter => "filter"
  | .riskManagement => "risk_management"
  | .positionSizing => "position_sizing"
  | .timing => "timing"
  | .asset => "asset"

/-- The name of a category in capitals and without a mark between words, which servers also send. -/
def label : Category → String
  | .indicator => "Indicator"
  | .filter => "Filter"
  | .riskManagement => "RiskManagement"
  | .positionSizing => "PositionSizing"
  | .timing => "Timing"
  | .asset => "Asset"

/-- The word without a mark between its parts. -/
def joined : Category → String
  | .riskManagement => "riskmanagement"
  | .positionSizing => "positionsizing"
  | c => c.word

/-- The category that one of its three spellings stands for. -/
def ofWord? (s : String) : Option Category :=
  all.find? fun c => c.word = s || c.label = s || c.joined = s

@[simp] theorem ofWord?_word (c : Category) : ofWord? c.word = some c := by cases c <;> decide

/-- The category a person names, in any letter case. -/
def parse? (s : String) : Option Category :=
  all.find? fun c => c.word = Text.fold s || c.joined = Text.fold s

/-- What is said to who names no category. -/
def unknownMessage (s : String) : String :=
  "Invalid category: " ++ s ++ ". Supported: " ++ ", ".intercalate (all.map word)

end Category

/-- A block of fields. -/
structure Fragment where
  id : String
  name : String
  description : Option String := none
  category : Option Category := none
  /-- The place of its section; without one the schema decides. -/
  order : Option Int64 := none
  fields : List Field := []
  /-- The ids of fragments that this one needs. -/
  dependencies : List String := []
deriving DecidableEq, Repr, Inhabited

/-- A schema's reference to a fragment. -/
structure FragmentRef where
  id : String
  required : Bool := false
  order : Option Int64 := none
deriving DecidableEq, Repr, Inhabited

namespace FragmentRef

/-- A reference to a fragment whose section must be filled in. -/
def mandatory (id : String) : FragmentRef := { id, required := true }

/-- A reference to a fragment whose section may be folded away. -/
def voluntary (id : String) : FragmentRef := { id }

end FragmentRef

end StrategyForm
