import StrategyForm.Schema
import StrategyForm.Fault

/-!
# Assembling sections

The sections of a form are those of the fragments that were obtained, in the order of the schema's
references, and after them the section of the schema's own fields, sorted by order; equal orders
keep this order. A fragment's order is its own, else that of the reference, else the reference's
place.
-/

namespace StrategyForm

/-- What became of a fragment that a schema refers to. -/
inductive Outcome where
  | resolved (fragment : Fragment)
  | notFound
  | failed (fault : Fault)
deriving DecidableEq, Repr, Inhabited

namespace Outcome

def ofResult : Except Fault Fragment → Outcome
  | .ok f => .resolved f
  | .error e => if e.isNotFound then .notFound else .failed e

def isResolved : Outcome → Bool
  | .resolved _ => true
  | _ => false

end Outcome

/-- The outcome for each fragment id. -/
abbrev Outcomes := Keyed Outcome

namespace Assembly

/-- The order after another; the greatest has none after it. -/
def next (order : Int64) : Int64 := if order = Int64.maxValue then order else order + 1

/-- The section of the reference at a place, if its fragment was obtained. -/
def sectionOf? (outcomes : Outcomes) (ref : FragmentRef) (place : Nat) : Option Section :=
  match outcomes.get? ref.id with
  | some (.resolved f) =>
    some (.ofFragment f ref.required ((f.order.or ref.order).getD (Int64.ofNat place)))
  | _ => none

/-- The sections of the fragments, in the schema's order. -/
def fragmentSections (schema : Schema) (outcomes : Outcomes) : List Section :=
  schema.fragments.zipIdx.filterMap fun (ref, place) => sectionOf? outcomes ref place

def maxOrder (a b : Int64) : Int64 := if a ≤ b then b else a

/-- An order after those of all sections and not below the number of references. -/
def customOrder (schema : Schema) (sections : List Section) : Int64 :=
  (sections.map (next ·.order)).foldl maxOrder (Int64.ofNat schema.fragments.length)

end Assembly

open Assembly in
/-- The sections of a schema's form. -/
def assembleSections (schema : Schema) (outcomes : Outcomes) : List Section :=
  let sections := fragmentSections schema outcomes
  let custom := if schema.customFields.isEmpty then []
    else [Section.custom schema (customOrder schema sections)]
  (sections ++ custom).mergeSort fun a b => a.order ≤ b.order

/-- A schema with the sections of its form. -/
structure Resolution where
  schema : Schema
  sections : List Section
  /-- The schema was at hand and not asked for. -/
  fromCache : Bool
deriving DecidableEq, Repr

end StrategyForm
