import StrategyForm.Proofs.Form.Custom

/-!
# Fragments that are lost

Main statement (`failed_fragments_isolated`): when some fragments are not obtained any more, their
sections disappear from the form, and every other section stays what it is and where it is among the
rest. In particular the order of a section that has none of its own is the place of its reference among
all references, not among those that are left. What stands in the place of a lost fragment, and what
the outcomes say of ids that the schema does not refer to, makes no difference.

To tell which section goes, each is kept with the reference that it was made for (`Traced`). The sections
that stay are a filter of those there were, and a stable sort of a filtered list is the filter of the
sorted list (`filter_mergeSort`).
-/

namespace StrategyForm

/-! ### Sorting what is left -/

section Sorting
variable {α : Type} {le : α → α → Bool} (trans : ∀ a b c, le a b = true → le b c = true → le a c = true)
  (total : ∀ a b, (le a b || le b a) = true)
include trans total

/-- A sorted list takes an element in before all that are not less. -/
theorem mergeSort_cons_eq (a : α) (l : List α) : (a :: l).mergeSort le =
    (l.mergeSort le).filter (fun b => !le a b) ++ a :: (l.mergeSort le).filter (le a) := by
  obtain ⟨front, back, sorted, rest, less⟩ := List.mergeSort_cons trans total a l
  have ascending := List.pairwise_mergeSort trans total (a :: l)
  rw [sorted] at ascending
  have notLess : ∀ b ∈ back, le a b = true :=
    (List.pairwise_cons.1 (List.pairwise_append.1 ascending).2.1).1
  have front_all : front.filter (fun b => !le a b) = front := List.filter_eq_self.2 less
  have front_none : front.filter (le a) = [] := by
    refine List.filter_eq_nil_iff.2 fun b hb => ?_
    simpa using less b hb
  have back_all : back.filter (le a) = back := List.filter_eq_self.2 notLess
  have back_none : back.filter (fun b => !le a b) = [] := by
    refine List.filter_eq_nil_iff.2 fun b hb => ?_
    simp [notLess b hb]
  rw [sorted, rest, List.filter_append, List.filter_append, front_all, front_none, back_all, back_none,
    List.append_nil, List.nil_append]

theorem filter_mergeSort (p : α → Bool) (l : List α) :
    (l.mergeSort le).filter p = (l.filter p).mergeSort le := by
  induction l with
  | nil => simp
  | cons a l ih =>
    cases keep : p a with
    | false =>
      obtain ⟨front, back, sorted, rest, -⟩ := List.mergeSort_cons trans total a l
      have gone : ¬ p a = true := by simp [keep]
      rw [sorted, List.filter_append, List.filter_cons_of_neg gone, ← List.filter_append, ← rest, ih,
        List.filter_cons_of_neg gone]
    | true =>
      have swap (q : α → Bool) : ((l.mergeSort le).filter q).filter p =
          ((l.filter p).mergeSort le).filter q := by
        rw [← ih, List.filter_filter, List.filter_filter]
        simp only [Bool.and_comm]
      rw [List.filter_cons_of_pos keep, mergeSort_cons_eq trans total, mergeSort_cons_eq trans total,
        List.filter_append, List.filter_cons_of_pos keep, swap, swap]

end Sorting

namespace Assembly

/-! ### Sections and their references -/

/-- A section with the reference that it was made for and the place of that reference. -/
structure Traced where
  ref : FragmentRef
  place : Nat
  shown : Section

/-- The section of the reference at a place, traced. -/
def trace? (outcomes : Outcomes) (ref : FragmentRef) (place : Nat) : Option Traced :=
  (sectionOf? outcomes ref place).map (⟨ref, place, ·⟩)

/-- The sections of the fragments in the order of the form, traced. -/
def traced (schema : Schema) (outcomes : Outcomes) : List Traced :=
  (schema.fragments.zipIdx.filterMap fun (ref, place) => trace? outcomes ref place).mergeSort
    fun x y => x.shown.order ≤ y.shown.order

variable {schema : Schema} {o o' : Outcomes}

theorem order_trans (x y z : Traced) (xy : decide (x.shown.order ≤ y.shown.order) = true)
    (yz : decide (y.shown.order ≤ z.shown.order) = true) :
    decide (x.shown.order ≤ z.shown.order) = true := by
  rw [decide_eq_true_eq] at *
  exact Int64.le_trans xy yz

theorem order_total (x y : Traced) :
    (decide (x.shown.order ≤ y.shown.order) || decide (y.shown.order ≤ x.shown.order)) = true := by
  simpa using Int64.le_total x.shown.order y.shown.order

theorem trace?_eq_some {ref : FragmentRef} {place : Nat} {x : Traced} :
    trace? o ref place = some x ↔ x.ref = ref ∧ x.place = place ∧
      ∃ f, o.get? ref.id = some (.resolved f) ∧
        x.shown = .ofFragment f ref.required (orderAt f ref place) := by
  obtain ⟨r, i, s⟩ := x
  unfold trace? sectionOf?
  cases o.get? ref.id with
  | none => simp
  | some outcome =>
    cases outcome with
    | notFound => simp
    | failed e => simp
    | resolved f =>
      simp only [getD_or_eq, Option.map_some, Option.some.injEq, Traced.mk.injEq,
        Outcome.resolved.injEq, exists_eq_left', eq_comm]

/-- Every reference to a fragment that was obtained has its section, and no other has one. -/
theorem mem_traced {x : Traced} : x ∈ traced schema o ↔ schema.fragments[x.place]? = some x.ref ∧
    ∃ f, o.get? x.ref.id = some (.resolved f) ∧
      x.shown = .ofFragment f x.ref.required (orderAt f x.ref x.place) := by
  rw [traced, List.mem_mergeSort, List.mem_filterMap]
  constructor
  · rintro ⟨⟨ref, place⟩, mem, found⟩
    obtain ⟨rfl, rfl, obtained⟩ := trace?_eq_some.1 found
    exact ⟨List.mem_zipIdx_iff_getElem?.1 mem, obtained⟩
  · rintro ⟨at_, obtained⟩
    exact ⟨(x.ref, x.place), List.mem_zipIdx_iff_getElem?.2 at_, trace?_eq_some.2 ⟨rfl, rfl, obtained⟩⟩

theorem places_nodup (schema : Schema) (o : Outcomes) : ((traced schema o).map (·.place)).Nodup := by
  have distinct : (schema.fragments.zipIdx.filterMap fun (ref, place) => trace? o ref place).Pairwise
      (·.place ≠ ·.place) := by
    have places : (schema.fragments.zipIdx.map Prod.snd).Nodup := by
      rw [List.zipIdx_map_snd]
      exact List.nodup_range'
    refine List.pairwise_filterMap.2 ((List.pairwise_map.1 places).imp ?_)
    rintro ⟨ref, i⟩ ⟨ref', j⟩ ne x hx y hy
    obtain ⟨-, hx, -⟩ := trace?_eq_some.1 hx
    obtain ⟨-, hy, -⟩ := trace?_eq_some.1 hy
    rwa [hx, hy]
  exact ((List.mergeSort_perm ..).map _).nodup_iff.2 (List.pairwise_map.2 distinct)

/-- Without the references, these are the sections of the fragments. -/
theorem map_shown_traced (schema : Schema) (o : Outcomes) : (traced schema o).map (·.shown) =
    (fragmentSections schema o).mergeSort fun a b => a.order ≤ b.order := by
  have shown (ref : FragmentRef) (place : Nat) :
      (trace? o ref place).map (·.shown) = sectionOf? o ref place := by
    rw [trace?, Option.map_map]
    exact Option.map_id'
  rw [traced, List.map_mergeSort (s := fun a b : Section => decide (a.order ≤ b.order))
    fun _ _ _ _ => rfl, List.map_filterMap, fragmentSections]
  simp only [shown]

/-- The section of a schema's own fields stands behind those of the fragments. -/
theorem assembleSections_eq (schema : Schema) (o : Outcomes) :
    assembleSections schema o = (traced schema o).map (·.shown) ++ ownSections schema o := by
  rw [map_shown_traced, assembleSections, ownSections, fragmentSections_eq]
  split
  · rw [List.append_nil, List.append_nil]
  · have upper := (customOrder_spec schema (listed o 0 schema.fragments)).2.1
    refine (StablySorts.mergeSort _).unique ((StablySorts.mergeSort _).append_last _ fun s hs => ?_)
    exact Int64.le_trans (le_next s.order) (upper s hs)

/-! ### Losing fragments -/

/-- The fragments with some ids are not obtained any more, whatever is said of them instead; of all
other ids the same is said as before. -/
structure Loses (lost : String → Bool) (o o' : Outcomes) : Prop where
  gone : ∀ id, lost id = true → ∀ f, o'.get? id ≠ some (.resolved f)
  kept : ∀ id, lost id = false → o'.get? id = o.get? id

theorem sectionOf?_eq_none {ref : FragmentRef} (none : ∀ f, o.get? ref.id ≠ some (.resolved f))
    (place : Nat) : sectionOf? o ref place = Option.none := by
  unfold sectionOf?
  split
  · rename_i f found
    exact absurd found (none f)
  · rfl

/-- Only what was obtained matters. -/
theorem sectionOf?_congr {ref : FragmentRef}
    (same : ∀ f, o.get? ref.id = some (.resolved f) ↔ o'.get? ref.id = some (.resolved f))
    (place : Nat) : sectionOf? o ref place = sectionOf? o' ref place := by
  by_cases obtained : ∃ f, o.get? ref.id = some (.resolved f)
  · obtain ⟨f, found⟩ := obtained
    simp only [sectionOf?, found, (same f).1 found]
  · have none (f : Fragment) : o.get? ref.id ≠ some (.resolved f) := fun found => obtained ⟨f, found⟩
    rw [sectionOf?_eq_none none, sectionOf?_eq_none fun f found => none f ((same f).2 found)]

theorem trace?_of_loses {lost : String → Bool} (h : Loses lost o o') (ref : FragmentRef) (place : Nat) :
    trace? o' ref place = (trace? o ref place).filter (!lost ·.ref.id) := by
  cases state : lost ref.id with
  | true =>
    have gone : trace? o' ref place = none := by
      rw [trace?, sectionOf?_eq_none (h.gone ref.id state), Option.map_none]
    rw [gone, eq_comm, Option.filter_eq_none_iff]
    intro x hx
    rw [(trace?_eq_some.1 hx).1, state]
    decide
  | false =>
    have same : trace? o' ref place = trace? o ref place := by
      simp only [trace?, sectionOf?, h.kept ref.id state]
    rw [same]
    cases found : trace? o ref place with
    | none => rfl
    | some x =>
      have own : x.ref = ref := (trace?_eq_some.1 found).1
      rw [Option.filter_some, own, state]
      rfl

theorem traced_of_loses {lost : String → Bool} (h : Loses lost o o') (schema : Schema) :
    traced schema o' = (traced schema o).filter (!lost ·.ref.id) := by
  rw [traced, traced, filter_mergeSort order_trans order_total, List.filter_filterMap]
  simp only [trace?_of_loses h]

end Assembly

open Assembly

/-- When fragments are lost, the form keeps all sections but those of the references to them, with the
same contents and orders and in the same order, and behind them the section of the schema's own fields.
Two outcomes under which the same fragments are obtained, among those that the schema refers to, make
the same form. -/
theorem failed_fragments_isolated (schema : Schema) :
    (∀ (o o' : Outcomes) (lost : String → Bool), Loses lost o o' →
      ∃ form : List Traced,
        (form.map (·.place)).Nodup ∧
        (∀ x, x ∈ form ↔ schema.fragments[x.place]? = some x.ref ∧
          ∃ f, o.get? x.ref.id = some (.resolved f) ∧
            x.shown = .ofFragment f x.ref.required (orderAt f x.ref x.place)) ∧
        assembleSections schema o = form.map (·.shown) ++ ownSections schema o ∧
        assembleSections schema o' =
          (form.filter (!lost ·.ref.id)).map (·.shown) ++ ownSections schema o') ∧
    ∀ o o' : Outcomes, (∀ ref ∈ schema.fragments, ∀ f,
        o.get? ref.id = some (.resolved f) ↔ o'.get? ref.id = some (.resolved f)) →
      assembleSections schema o = assembleSections schema o' := by
  refine ⟨fun o o' lost h => ?_, fun o o' same => ?_⟩
  · refine ⟨traced schema o, places_nodup schema o, fun x => mem_traced,
      assembleSections_eq schema o, ?_⟩
    rw [assembleSections_eq, traced_of_loses h]
  · have sections : fragmentSections schema o = fragmentSections schema o' := by
      refine List.filterMap_congr fun ⟨ref, place⟩ mem => ?_
      exact sectionOf?_congr (same ref (List.fst_mem_of_mem_zipIdx mem)) place
    rw [assembleSections, assembleSections, sections]

/-- Of three fragments, one of which is referred to twice, one fails and one is missing. -/
theorem failed_fragments_isolated_of_three :
    let schema : Schema :=
      { id := "grid", name := "Grid", customFields := [{ name := "spacing" }],
        fragments := [.mandatory "base", .voluntary "rsi", { id := "volume", order := some (-1) },
          .voluntary "rsi"] }
    let rsi : Outcome := .resolved { id := "rsi", name := "RSI" }
    let o : Outcomes := .ofList [("base", .resolved { id := "base", name := "Base" }), ("rsi", rsi),
      ("volume", .resolved { id := "other", name := "Volume" })]
    let o' : Outcomes := .ofList [("rsi", rsi), ("volume", .failed (.network "reset"))]
    let o'' : Outcomes := .ofList [("base", .notFound), ("rsi", rsi),
      ("dca", .resolved { id := "dca", name := "DCA" })]
    let lost (id : String) : Bool := id = "base" || id = "volume"
    Loses lost o o' ∧
    (∀ ref ∈ schema.fragments, ∀ f,
      o'.get? ref.id = some (.resolved f) ↔ o''.get? ref.id = some (.resolved f)) ∧
    (∃ form : List Traced, (form.map (·.place)).Nodup ∧
      assembleSections schema o = form.map (·.shown) ++ ownSections schema o ∧
      assembleSections schema o' =
        (form.filter (!lost ·.ref.id)).map (·.shown) ++ ownSections schema o') ∧
    assembleSections schema o' = assembleSections schema o'' := by
  intro schema rsi o o' o'' lost
  have loses : Loses lost o o' := by
    refine ⟨fun id state => ?_, fun id state => ?_⟩
    · rcases (by simpa [lost] using state : id = "base" ∨ id = "volume") with rfl | rfl
      · simp [o', Keyed.ofList, Keyed.insertAll]
      · simp [o', Keyed.ofList, Keyed.insertAll]
    · obtain ⟨base, volume⟩ : id ≠ "base" ∧ id ≠ "volume" := by simpa [lost] using state
      simp [o, o', Keyed.ofList, Keyed.insertAll, base.symm, volume.symm]
  have same : ∀ ref ∈ schema.fragments, ∀ f,
      o'.get? ref.id = some (.resolved f) ↔ o''.get? ref.id = some (.resolved f) := by
    simp [schema, o', o'', FragmentRef.mandatory, FragmentRef.voluntary, Keyed.ofList,
      Keyed.insertAll]
  obtain ⟨isolated, interchangeable⟩ := failed_fragments_isolated schema
  obtain ⟨form, places, -, before, after⟩ := isolated o o' lost loses
  exact ⟨loses, same, ⟨form, places, before, after⟩, interchangeable o' o'' same⟩

end StrategyForm
