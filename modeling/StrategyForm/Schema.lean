import StrategyForm.Fragment

/-!
# Schemas and sections

A schema describes the settings form of one strategy: the fragments it refers to and fields of its
own. A section is a block of the form as it is shown, made from a fragment or from those own fields.
-/

namespace StrategyForm

/-- The description of a strategy's settings form. -/
structure Schema where
  id : String
  name : String
  description : Option String := none
  category : String := ""
  fragments : List FragmentRef := []
  /-- Fields that only this strategy has. -/
  customFields : List Field := []
  /-- Values that a form starts with, whatever the fields say. -/
  defaults : Option (Keyed Json) := none
deriving DecidableEq, Repr, Inhabited

/-- The ids of the fragments a schema refers to, in its order, repetitions included. -/
def Schema.fragmentIds (s : Schema) : List String := s.fragments.map (·.id)

/-- A block of a form. -/
structure Section where
  id : String
  name : String
  description : Option String := none
  required : Bool
  collapsible : Bool
  fields : List Field
  order : Int64
deriving DecidableEq, Repr, Inhabited

namespace Section

/-- The id of the section of a schema's own fields. -/
def customId : String := "custom"

/-- The section of a fragment. One that is not required may be folded away. -/
def ofFragment (f : Fragment) (required : Bool) (order : Int64) : Section where
  id := f.id
  name := f.name
  description := f.description
  required := required
  collapsible := !required
  fields := f.fields
  order := order

/-- The section of a schema's own fields, which is always required. -/
def custom (s : Schema) (order : Int64) : Section where
  id := customId
  name := s.name ++ " 설정"
  description := some "전략별 고유 설정"
  required := true
  collapsible := false
  fields := s.customFields
  order := order

/-- The section has the id of a schema's own fields. -/
def isCustom (s : Section) : Bool := s.id == customId

end Section

/-- An entry of the list of strategies. -/
structure StrategyEntry where
  id : String
  aliases : List String := []
  name : String
  description : String := ""
  defaultTimeframe : Option String := none
  secondaryTimeframes : List String := []
  isMultiTimeframe : Bool := false
  category : Option String := none
  supportedMarkets : List String := []
deriving DecidableEq, Repr, Inhabited

end StrategyForm
