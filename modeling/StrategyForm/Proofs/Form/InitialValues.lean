import StrategyForm.Form.InitialValues
import StrategyForm.Proofs.Keyed

/-!
# The values a form starts with

Main statement (`initial_values_by_name`): a form starts with a value for each field that has a default and
for each key of the schema's own defaults. A key of those has its value there, `null` included; any other
name has the default of the last field that carries one under this name.

Maps are equal when their look-ups are (`Keyed.ext`). Of several entries of a key the last one stays
(`Keyed.get?_insertAll_reverse`), and entries with a key each may come in any order
(`Keyed.insertAll_perm`): that is why the order of the schema's defaults does not matter, and why that of the
fields matters only where two of them share a name.
-/

namespace StrategyForm

/-- The default of the last field of a name that has one. -/
def lastDefault? (sections : List Section) (name : String) : Option Json :=
  ((sections.flatMap (·.fields)).reverse.find? fun f => f.name = name ∧ f.default.isSome).bind (·.default)

theorem find_defaults (name : String) (fields : List Field) :
    Keyed.find name (fields.filterMap fun f => f.default.map (f.name, ·)) =
      (fields.find? fun f => f.name = name ∧ f.default.isSome).bind (·.default) := by
  induction fields with
  | nil => rfl
  | cons f rest ih =>
    cases given : f.default with
    | none => simpa [given] using ih
    | some value => by_cases same : f.name = name <;> simp [given, same, Keyed.find, ih]

theorem get?_initialValues (schema : Schema) (sections : List Section) (name : String) :
    (initialValues schema sections).get? name =
      (schema.defaults.bind (·.get? name)).or (lastDefault? sections name) := by
  have last : (Keyed.ofList (fieldDefaults sections)).get? name = lastDefault? sections name := by
    rw [Keyed.ofList, Keyed.get?_insertAll_reverse, fieldDefaults, ← List.filterMap_reverse, find_defaults]
    exact Option.or_none
  rw [initialValues, Keyed.get?_override, last]
  cases schema.defaults <;> rfl

/-! ### By names -/

section
variable {schema : Schema} {sections sections' : List Section}

theorem lastDefault?_isSome_iff {name : String} : (lastDefault? sections name).isSome ↔
    ∃ f ∈ sections.flatMap (·.fields), f.name = name ∧ f.default.isSome := by
  rw [lastDefault?]
  constructor
  · intro found
    obtain ⟨value, given⟩ := Option.isSome_iff_exists.1 found
    obtain ⟨f, here, -⟩ := Option.bind_eq_some_iff.1 given
    have carries : f.name = name ∧ f.default.isSome := by simpa using List.find?_some here
    exact ⟨f, List.mem_reverse.1 (List.mem_of_find?_eq_some here), carries⟩
  · rintro ⟨f, mem, carries⟩
    have some : ((sections.flatMap (·.fields)).reverse.find?
        fun f => f.name = name ∧ f.default.isSome).isSome := by
      rw [List.find?_isSome]
      exact ⟨f, List.mem_reverse.2 mem, by simpa using carries⟩
    obtain ⟨g, here⟩ := Option.isSome_iff_exists.1 some
    have found : g.name = name ∧ g.default.isSome := by simpa using List.find?_some here
    rw [here, Option.bind_some]
    exact found.2

/-- A later field of the name that has no default takes nothing away. -/
theorem lastDefault?_of_last {before after : List Field} {f : Field}
    (split : sections.flatMap (·.fields) = before ++ f :: after) (carries : f.default.isSome)
    (last : ∀ g ∈ after, g.name = f.name → g.default = none) :
    lastDefault? sections f.name = f.default := by
  have behind : after.reverse.find? (fun g => g.name = f.name ∧ g.default.isSome) = none := by
    refine List.find?_eq_none.2 fun g mem => ?_
    have none := last g (List.mem_reverse.1 mem)
    simp only [decide_eq_true_eq, not_and]
    intro same
    rw [none same]
    decide
  rw [lastDefault?, split, List.reverse_append, List.reverse_cons, List.append_assoc,
    List.find?_append, behind, Option.none_or, List.singleton_append, List.find?_cons_of_pos (by simpa)]
  rfl

theorem mem_keys_initialValues {name : String} : name ∈ (initialValues schema sections).keys ↔
    (∃ f ∈ sections.flatMap (·.fields), f.name = name ∧ f.default.isSome) ∨
      name ∈ (schema.defaults.getD .empty).keys := by
  rw [Keyed.mem_keys_iff, Keyed.mem_keys_iff, Keyed.contains, Keyed.contains, get?_initialValues,
    Option.isSome_or, Bool.or_eq_true, lastDefault?_isSome_iff, or_comm]
  cases schema.defaults <;> rfl

/-- Fields with names of their own may stand in any order. -/
theorem fieldDefaults_perm (own : ((sections.flatMap (·.fields)).map (·.name)).Nodup)
    (perm : (sections'.flatMap (·.fields)).Perm (sections.flatMap (·.fields))) :
    Keyed.ofList (fieldDefaults sections') = Keyed.ofList (fieldDefaults sections) := by
  have names : ((fieldDefaults sections).map (·.1)).Sublist
      ((sections.flatMap (·.fields)).map (·.name)) := by
    rw [fieldDefaults]
    induction sections.flatMap (·.fields) with
    | nil => exact .slnil
    | cons f rest ih =>
      cases given : f.default with
      | none => simpa [given] using ih.cons f.name
      | some value => simpa [given] using ih.cons_cons f.name
  exact (Keyed.insertAll_perm (perm.filterMap _).symm (own.sublist names) .empty).symm

end

/-- What a form starts with. The order of the schema's own defaults does not matter, and neither does that
of sections and fields if no two fields share a name. -/
theorem initial_values_by_name (schema : Schema) (sections : List Section) :
    let fields := sections.flatMap (·.fields)
    let own := schema.defaults.getD .empty
    let values := initialValues schema sections
    (∀ name, name ∈ values.keys ↔
      (∃ f ∈ fields, f.name = name ∧ f.default.isSome) ∨ name ∈ own.keys) ∧
    (∀ name ∈ own.keys, values.get? name = own.get? name) ∧
    (∀ before f after, fields = before ++ f :: after → f.default.isSome →
      (∀ g ∈ after, g.name = f.name → g.default = none) → f.name ∉ own.keys →
        values.get? f.name = f.default) ∧
    (∀ order, order.Perm own.entries →
      (Keyed.ofList (fieldDefaults sections)).insertAll order = values) ∧
    ∀ sections', (fields.map (·.name)).Nodup → (sections'.flatMap (·.fields)).Perm fields →
      initialValues schema sections' = values := by
  intro fields own values
  have layered (name : String) : values.get? name = (own.get? name).or (lastDefault? sections name) := by
    show (initialValues schema sections).get? name =
      ((schema.defaults.getD .empty).get? name).or (lastDefault? sections name)
    rw [get?_initialValues]
    cases schema.defaults <;> rfl
  refine ⟨fun name => mem_keys_initialValues, fun name mem => ?_,
    fun before f after split carries last none => ?_, fun order perm => ?_, fun sections' names perm => ?_⟩
  · obtain ⟨value, found⟩ := Option.isSome_iff_exists.1 ((Keyed.mem_keys_iff own name).1 mem)
    rw [layered, found]
    rfl
  · have absent : own.get? f.name = Option.none := by
      rw [Keyed.mem_keys_iff, Keyed.contains, Option.not_isSome_iff_eq_none] at none
      exact none
    rw [layered, absent, Option.none_or, lastDefault?_of_last split carries last]
  · have keys : (own.entries.map (·.1)).Nodup := own.nodup_keys
    have keys : (order.map (·.1)).Nodup := (perm.map _).nodup_iff.2 keys
    exact Keyed.insertAll_perm perm keys _
  · show (Keyed.ofList (fieldDefaults sections')).override own = _
    rw [fieldDefaults_perm names perm]
    rfl

/-- Two fields share a name and the later one has no default, the schema has `null` under another name; and
sections whose fields have names of their own stand the other way round. -/
theorem initial_values_by_name_of_repeated :
    let level : Field := { name := "level", default := some (.bool true) }
    let mode : Field := { name := "mode", default := some (.string "grid") }
    let bare : Field := { name := "level" }
    let part (fields : List Field) : Section := ⟨"s", "S", none, true, false, fields, 0⟩
    let schema : Schema :=
      { id := "grid", name := "Grid", defaults := some ⟨[("mode", .null), ("size", .null)], by decide⟩ }
    (initialValues schema [part [level, mode], part [bare]]).get? "level" = some (.bool true) ∧
    (initialValues schema [part [level, mode], part [bare]]).get? "mode" = some .null ∧
    initialValues schema [part [mode], part [level]] = initialValues schema [part [level, mode]] := by
  intro level mode bare part schema
  obtain ⟨-, own, last, -, -⟩ := initial_values_by_name schema [part [level, mode], part [bare]]
  obtain ⟨-, -, -, -, order⟩ := initial_values_by_name schema [part [level, mode]]
  refine ⟨last [] level [mode, bare] rfl rfl ?_ (by decide), own "mode" (by decide), order _ (by decide) ?_⟩
  · intro g mem same
    rcases List.mem_cons.1 mem with rfl | mem
    · exact absurd same (by decide)
    · rw [List.mem_singleton.1 mem]
  · exact .swap level mode []

end StrategyForm
