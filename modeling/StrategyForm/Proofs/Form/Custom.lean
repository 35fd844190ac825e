import StrategyForm.Proofs.Form.Sections

/-!
# Sections with the reserved id

A schema's own fields make the section with the id `custom`, and `Section.isCustom` looks at that id
alone. The section of a fragment has the id that the fragment itself bears, whatever the reference
says, so every reference to a fragment with the reserved id adds one such section to the form.

Main statement (`custom_sections_counted`): how many there are, that the schema's own section is the
only one exactly when no fragment that is referred to has the reserved id, in which case `isCustom`
tells this section from the others. Sorting matters for none of this: a form is a
permutation of the sections that are sorted (`assembleSections_perm`).
-/

namespace StrategyForm
namespace Assembly

/-- The section of the schema's own fields, behind those of its fragments. -/
def ownSections (schema : Schema) (outcomes : Outcomes) : List Section :=
  if schema.customFields.isEmpty then []
  else [Section.custom schema (customOrder schema (listed outcomes 0 schema.fragments))]

theorem assembleSections_perm (schema : Schema) (outcomes : Outcomes) :
    (assembleSections schema outcomes).Perm
      (listed outcomes 0 schema.fragments ++ ownSections schema outcomes) := by
  have sorted := (StablySorts.mergeSort
    (listed outcomes 0 schema.fragments ++ ownSections schema outcomes)).perm
  simpa only [assembleSections, fragmentSections_eq, ownSections] using sorted

theorem countP_ownSections (schema : Schema) (outcomes : Outcomes) :
    (ownSections schema outcomes).countP (·.isCustom) =
      if schema.customFields = [] then 0 else 1 := by
  unfold ownSections
  cases schema.customFields with
  | nil => rfl
  | cons f rest => rfl

/-- The fragment that a reference obtained has the reserved id. -/
def obtainsCustom (outcomes : Outcomes) (ref : FragmentRef) : Bool :=
  match outcomes.get? ref.id with
  | some (.resolved f) => f.id == Section.customId
  | _ => false

theorem obtainsCustom_eq_false_iff (outcomes : Outcomes) (ref : FragmentRef) :
    obtainsCustom outcomes ref = false ↔
      ∀ f, outcomes.get? ref.id = some (.resolved f) → f.id ≠ Section.customId := by
  unfold obtainsCustom
  cases outcomes.get? ref.id with
  | none => simp
  | some outcome => cases outcome <;> simp

theorem countP_listed (outcomes : Outcomes) (place : Nat) (refs : List FragmentRef) :
    (listed outcomes place refs).countP (·.isCustom) = refs.countP (obtainsCustom outcomes) := by
  induction refs generalizing place with
  | nil => rfl
  | cons ref refs ih =>
    have rest := ih (place + 1)
    rw [listed, List.countP_cons]
    cases found : outcomes.get? ref.id with
    | none => simpa [obtainsCustom, found] using rest
    | some outcome =>
      cases outcome with
      | resolved f => simp [obtainsCustom, found, List.countP_cons, Section.isCustom, ← rest]
      | notFound => simpa [obtainsCustom, found] using rest
      | failed e => simpa [obtainsCustom, found] using rest

theorem countP_assembled (schema : Schema) (outcomes : Outcomes) :
    (assembleSections schema outcomes).countP (·.isCustom) =
      schema.fragments.countP (obtainsCustom outcomes) +
        if schema.customFields = [] then 0 else 1 := by
  rw [(assembleSections_perm schema outcomes).countP_eq, List.countP_append, countP_listed,
    countP_ownSections]

end Assembly

open Assembly in
/-- The reserved id is borne by the schema's own section, if there is one, and by one section more for
each reference to a fragment with that id. Without such fragments it marks the schema's own section. -/
theorem custom_sections_counted (schema : Schema) (outcomes : Outcomes) :
    let sections := assembleSections schema outcomes
    let own := if schema.customFields = [] then 0 else 1
    let unmistakable := ∀ ref ∈ schema.fragments, ∀ f,
      outcomes.get? ref.id = some (.resolved f) → f.id ≠ "custom"
    sections.countP (·.isCustom) = schema.fragments.countP (obtainsCustom outcomes) + own ∧
    (sections.countP (·.isCustom) = own ↔ unmistakable) ∧
    (unmistakable → ∀ s ∈ sections, s.isCustom = true ↔
      schema.customFields ≠ [] ∧ s = Section.custom schema s.order) := by
  intro sections own unmistakable
  have count : sections.countP (·.isCustom) =
      schema.fragments.countP (obtainsCustom outcomes) + own := countP_assembled schema outcomes
  have none : schema.fragments.countP (obtainsCustom outcomes) = 0 ↔ unmistakable := by
    rw [List.countP_eq_zero]
    refine forall₂_congr fun ref _ => ?_
    rw [Bool.not_eq_true, obtainsCustom_eq_false_iff]
    rfl
  refine ⟨count, by rw [← none, count]; omega, fun clear s hs => ⟨fun custom => ?_, fun own => ?_⟩⟩
  · have mem := (assembleSections_perm schema outcomes).mem_iff.1 hs
    rcases List.mem_append.1 mem with fragment | own
    · have zero := (countP_listed outcomes 0 schema.fragments).trans (none.2 clear)
      exact absurd custom (List.countP_eq_zero.1 zero s fragment)
    · unfold ownSections at own
      split at own
      · cases own
      · rename_i fields
        rw [List.mem_singleton.1 own]
        exact ⟨by simpa using fields, rfl⟩
  · rw [own.2]
    rfl

/-- A form whose fragment has another id: its own section is the one that `isCustom` finds. -/
theorem custom_sections_counted_of_base :
    let schema : Schema :=
      { id := "grid", name := "Grid", customFields := [{ name := "spacing" }],
        fragments := [.mandatory "base"] }
    let outcomes : Outcomes := .ofList [("base", .resolved { id := "base", name := "Base" })]
    (∀ ref ∈ schema.fragments, ∀ f,
      outcomes.get? ref.id = some (.resolved f) → f.id ≠ "custom") ∧
    (assembleSections schema outcomes).countP (·.isCustom) = 1 ∧
    ∀ s ∈ assembleSections schema outcomes, s.isCustom = true ↔
      schema.customFields ≠ [] ∧ s = Section.custom schema s.order := by
  intro schema outcomes
  have clear : ∀ ref ∈ schema.fragments, ∀ f,
      outcomes.get? ref.id = some (.resolved f) → f.id ≠ "custom" := by
    intro ref mem f found
    rw [List.mem_singleton.1 mem] at found
    obtain rfl : { id := "base", name := "Base" } = f := by
      simpa [outcomes, FragmentRef.mandatory, Keyed.ofList, Keyed.insertAll] using found
    decide
  obtain ⟨-, one, marked⟩ := custom_sections_counted schema outcomes
  exact ⟨clear, one.2 clear, marked clear⟩

/-- A fragment that bears the reserved id is taken for the schema's own section. -/
theorem two_custom_sections :
    ¬ ∀ (schema : Schema) (outcomes : Outcomes),
      (assembleSections schema outcomes).countP (·.isCustom) =
        if schema.customFields = [] then 0 else 1 := by
  intro all
  let schema : Schema :=
    { id := "grid", name := "Grid", customFields := [{ name := "spacing" }],
      fragments := [.mandatory "base"] }
  let outcomes : Outcomes := .ofList [("base", .resolved { id := "custom", name := "Base" })]
  have two : (assembleSections schema outcomes).countP (·.isCustom) = 2 :=
    Assembly.countP_assembled schema outcomes
  have one : (assembleSections schema outcomes).countP (·.isCustom) = 1 := all schema outcomes
  rw [two] at one
  contradiction

end StrategyForm
