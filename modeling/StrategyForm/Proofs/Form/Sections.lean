import Mathlib.Algebra.Group.Nat.Defs
import Mathlib.Data.List.Basic
import StrategyForm.Form.Assembly

/-!
# The sections of a form

Main statement (`assembled_sections`): the sections of a form are the stable sort by order of the
sections of the fragments that were obtained, in the order of the schema's references (`listed`), and
behind these the section of the schema's own fields, if it has any. That section is the last one: no
other order is above its own, and among equal orders the list decides.

A list and its blocks of equal orders determine its stable sort (`StablySorts.unique`), so a sorted
list with one more section behind it that is nowhere too early is the stable sort of the longer list.
-/

namespace StrategyForm

/-! ### Stable sorts -/

/-- `sorted` has the sections of `list`, in ascending order, those of equal orders as in `list`. -/
structure StablySorts (list sorted : List Section) : Prop where
  ascending : sorted.Pairwise (·.order ≤ ·.order)
  stable : ∀ order, sorted.filter (·.order = order) = list.filter (·.order = order)
  perm : sorted.Perm list

namespace StablySorts
variable {list sorted sorted' : List Section}

/-- Two ascending lists whose blocks of equal orders agree have the same first section, because
each first order is the least of both. -/
theorem unique (h : StablySorts list sorted) (h' : StablySorts list sorted') : sorted = sorted' := by
  have blocks : ∀ order, sorted.filter (·.order = order) = sorted'.filter (·.order = order) :=
    fun order => (h.stable order).trans (h'.stable order).symm
  have asc := h.ascending
  have asc' := h'.ascending
  clear h h'
  induction sorted generalizing sorted' with
  | nil =>
    cases sorted' with
    | nil => rfl
    | cons b rest' => simpa using blocks b.order
  | cons a rest ih =>
    cases sorted' with
    | nil => simpa using blocks a.order
    | cons b rest' =>
      have mem {x : Section} : x ∈ a :: rest ↔ x ∈ b :: rest' := by
        have := congrArg (x ∈ ·) (blocks x.order)
        simpa using this
      obtain ⟨le_a, tail⟩ := List.pairwise_cons.1 asc
      obtain ⟨le_b, tail'⟩ := List.pairwise_cons.1 asc'
      have ab : a.order ≤ b.order := by
        rcases List.mem_cons.1 (mem.2 List.mem_cons_self) with e | hb
        · rw [e]; exact Int64.le_refl _
        · exact le_a b hb
      have ba : b.order ≤ a.order := by
        rcases List.mem_cons.1 (mem.1 List.mem_cons_self) with e | ha
        · rw [e]; exact Int64.le_refl _
        · exact le_b a ha
      have same : b.order = a.order := Int64.le_antisymm ba ab
      have first := blocks a.order
      simp only [List.filter_cons, same, decide_true, ↓reduceIte, List.cons.injEq] at first
      obtain ⟨rfl, first⟩ := first
      refine congrArg (a :: ·) (ih (fun order => ?_) tail tail')
      by_cases e : a.order = order
      · rw [← e]; exact first
      · simpa [List.filter_cons, e] using blocks order

theorem mergeSort (list : List Section) :
    StablySorts list (list.mergeSort fun a b => a.order ≤ b.order) := by
  have trans (a b c : Section) (ab : decide (a.order ≤ b.order) = true)
      (bc : decide (b.order ≤ c.order) = true) : decide (a.order ≤ c.order) = true := by
    rw [decide_eq_true_eq] at *
    exact Int64.le_trans ab bc
  have total (a b : Section) : (decide (a.order ≤ b.order) || decide (b.order ≤ a.order)) = true := by
    simpa using Int64.le_total a.order b.order
  have perm := List.mergeSort_perm list fun a b => decide (a.order ≤ b.order)
  refine ⟨by simpa using List.pairwise_mergeSort trans total list, fun order => ?_, perm⟩
  -- a block of equal orders is ascending as it stands, so sorting keeps it as a sublist
  have block : (list.filter (·.order = order)).Pairwise
      fun a b => decide (a.order ≤ b.order) = true := by
    refine List.pairwise_of_forall_mem_list fun a ha b hb => ?_
    have ha := (List.mem_filter.1 ha).2
    have hb := (List.mem_filter.1 hb).2
    rw [decide_eq_true_eq] at *
    rw [ha, hb]
    exact Int64.le_refl _
  have sub := (List.sublist_mergeSort trans total block List.filter_sublist).filter (·.order = order)
  rw [List.filter_filter] at sub
  simp only [Bool.and_self] at sub
  exact (sub.eq_of_length (perm.filter _).length_eq.symm).symm

/-- A section that is nowhere too early behind a list is the last of the sorted list. -/
theorem append_last (h : StablySorts list sorted) (last : Section)
    (le : ∀ s ∈ list, s.order ≤ last.order) : StablySorts (list ++ [last]) (sorted ++ [last]) := by
  refine ⟨?_, fun order => ?_, h.perm.append_right _⟩
  · refine List.pairwise_append.2 ⟨h.ascending, List.pairwise_singleton .., fun s hs x hx => ?_⟩
    rw [List.mem_singleton.1 hx]
    exact le s (h.perm.mem_iff.1 hs)
  · rw [List.filter_append, List.filter_append, h.stable]

end StablySorts

namespace Assembly

/-! ### Orders -/

theorem lt_next {order : Int64} (h : order ≠ Int64.maxValue) : order < next order := by
  have upper : order.toInt ≤ 2 ^ 63 - 1 := Int64.toInt_maxValue ▸ Int64.toInt_le order
  have ne : order.toInt ≠ 2 ^ 63 - 1 := fun e =>
    h (Int64.toInt_inj.1 (e.trans Int64.toInt_maxValue.symm))
  have lower := Int64.le_toInt order
  rw [next, if_neg h, Int64.lt_iff_toInt_lt, Int64.toInt_add, Int64.toInt_one]
  rw [Int.bmod_eq_of_le] <;> omega

theorem le_next (order : Int64) : order ≤ next order := by
  by_cases h : order = Int64.maxValue
  · rw [next, if_pos h, h]
    exact Int64.le_refl _
  · exact Int64.le_of_lt (lt_next h)

theorem le_maxOrder_left (a b : Int64) : a ≤ maxOrder a b := by
  unfold maxOrder
  split
  · assumption
  · exact Int64.le_refl _

theorem le_maxOrder_right (a b : Int64) : b ≤ maxOrder a b := by
  unfold maxOrder
  split
  · exact Int64.le_refl _
  · rename_i h
    exact (Int64.le_total a b).resolve_left h

/-- The greatest of several orders is one of them and below none. -/
theorem foldl_maxOrder (orders : List Int64) (start : Int64) :
    orders.foldl maxOrder start ∈ start :: orders ∧
      ∀ o ∈ start :: orders, o ≤ orders.foldl maxOrder start := by
  induction orders generalizing start with
  | nil => simp
  | cons first rest ih =>
    obtain ⟨mem, upper⟩ := ih (maxOrder start first)
    have start_le := upper _ List.mem_cons_self
    refine ⟨?_, fun o ho => ?_⟩
    · rcases List.mem_cons.1 mem with e | mem
      · rw [List.foldl_cons, e]
        unfold maxOrder
        split <;> simp
      · exact List.mem_cons_of_mem _ (List.mem_cons_of_mem _ mem)
    · rcases List.mem_cons.1 ho with rfl | ho
      · exact Int64.le_trans (le_maxOrder_left ..) start_le
      · rcases List.mem_cons.1 ho with rfl | ho
        · exact Int64.le_trans (le_maxOrder_right ..) start_le
        · exact upper o (List.mem_cons_of_mem _ ho)

/-- The order of a schema's own section: not below the number of references, above every other order
that has one above it, and no greater than that takes. -/
theorem customOrder_spec (schema : Schema) (sections : List Section) :
    Int64.ofNat schema.fragments.length ≤ customOrder schema sections ∧
      (∀ s ∈ sections, next s.order ≤ customOrder schema sections) ∧
      (customOrder schema sections = Int64.ofNat schema.fragments.length ∨
        ∃ s ∈ sections, customOrder schema sections = next s.order) := by
  obtain ⟨mem, upper⟩ := foldl_maxOrder (sections.map (next ·.order))
    (Int64.ofNat schema.fragments.length)
  refine ⟨upper _ List.mem_cons_self, fun s hs => ?_, ?_⟩
  · exact upper _ (List.mem_cons_of_mem _ (List.mem_map_of_mem hs))
  · rcases List.mem_cons.1 mem with e | mem
    · exact .inl e
    · obtain ⟨s, hs, e⟩ := List.mem_map.1 mem
      exact .inr ⟨s, hs, e.symm⟩

/-! ### The sections of the fragments -/

/-- The order of a fragment's section: its own, else that of the reference, else the place. -/
def orderAt (f : Fragment) (ref : FragmentRef) (place : Nat) : Int64 :=
  match f.order, ref.order with
  | some order, _ => order
  | none, some order => order
  | none, none => Int64.ofNat place

theorem getD_or_eq (f : Fragment) (ref : FragmentRef) (place : Nat) :
    (f.order.or ref.order).getD (Int64.ofNat place) = orderAt f ref place := by
  unfold orderAt
  cases f.order with
  | some order => rfl
  | none => cases ref.order <;> rfl

/-- One section for each reference whose fragment was obtained, the first reference standing at the
given place. -/
def listed (outcomes : Outcomes) : Nat → List FragmentRef → List Section
  | _, [] => []
  | place, ref :: refs =>
    match outcomes.get? ref.id with
    | some (.resolved f) =>
      { id := f.id, name := f.name, description := f.description, required := ref.required,
        collapsible := !ref.required, fields := f.fields,
        order := orderAt f ref place } :: listed outcomes (place + 1) refs
    | _ => listed outcomes (place + 1) refs

theorem filterMap_sectionOf? (outcomes : Outcomes) (refs : List FragmentRef) (place : Nat) :
    ((refs.zipIdx place).filterMap fun (ref, i) => sectionOf? outcomes ref i) =
      listed outcomes place refs := by
  induction refs generalizing place with
  | nil => rfl
  | cons ref refs ih =>
    rw [List.zipIdx_cons, List.filterMap_cons, ih, listed]
    simp only [sectionOf?, getD_or_eq]
    cases outcomes.get? ref.id with
    | none => rfl
    | some outcome =>
      cases outcome with
      | resolved f => rfl
      | notFound => rfl
      | failed e => rfl

theorem fragmentSections_eq (schema : Schema) (outcomes : Outcomes) :
    fragmentSections schema outcomes = listed outcomes 0 schema.fragments :=
  filterMap_sectionOf? outcomes schema.fragments 0

end Assembly

/-! ### The whole form -/

open Assembly in
/-- Without fields of its own a schema's form is the stable sort of the sections of its fragments. With
such fields their section comes last, and its order is the least that keeps it there: not below the
number of references, and above every other order but the greatest there is. -/
theorem assembled_sections (schema : Schema) (outcomes : Outcomes) :
    let fragments := listed outcomes 0 schema.fragments
    let sections := assembleSections schema outcomes
    (schema.customFields = [] → StablySorts fragments sections) ∧
    (schema.customFields ≠ [] → ∃ front order,
      let custom : Section :=
        { id := "custom", name := schema.name ++ " 설정", description := some "전략별 고유 설정",
          required := true, collapsible := false, fields := schema.customFields, order }
      sections = front ++ [custom] ∧
      StablySorts fragments front ∧ StablySorts (fragments ++ [custom]) sections ∧
      Int64.ofNat schema.fragments.length ≤ order ∧
      (schema.fragments.length < 2 ^ 63 → (schema.fragments.length : Int) ≤ order.toInt) ∧
      (∀ s ∈ fragments, s.order < order ∨ s.order = Int64.maxValue) ∧
      (order = Int64.ofNat schema.fragments.length ∨ ∃ s ∈ fragments, order = next s.order)) := by
  intro fragments sections
  have unfolded : sections = (fragments ++ if schema.customFields.isEmpty then []
      else [Section.custom schema (customOrder schema fragments)]).mergeSort
        fun a b => a.order ≤ b.order := by
    show assembleSections schema outcomes = _
    simp only [assembleSections, fragmentSections_eq]
    rfl
  refine ⟨fun none => ?_, fun some => ?_⟩
  · rw [none, List.isEmpty_nil, if_pos rfl, List.append_nil] at unfolded
    rw [unfolded]
    exact .mergeSort fragments
  · rw [List.isEmpty_eq_false_iff.2 some, if_neg Bool.false_ne_true] at unfolded
    obtain ⟨count, above, least⟩ := customOrder_spec schema fragments
    generalize customOrder schema fragments = order at *
    have sorted : StablySorts (fragments ++ [Section.custom schema order]) sections := by
      rw [unfolded]
      exact .mergeSort _
    have front := StablySorts.mergeSort fragments
    have last := front.append_last (Section.custom schema order) fun s hs =>
      Int64.le_trans (le_next s.order) (above s hs)
    refine ⟨_, order, sorted.unique last, front, sorted, count, fun small => ?_, fun s hs => ?_, least⟩
    · rw [← Int64.toInt_ofNat_of_lt small]
      exact Int64.le_iff_toInt_le.1 count
    · by_cases greatest : s.order = Int64.maxValue
      · exact .inr greatest
      · exact .inl (Int64.lt_of_lt_of_le (lt_next greatest) (above s hs))

/-- A fragment that is referred to twice and asks for the greatest order, and one that asks for the least:
the schema's own section still comes last, and nothing is lost. -/
theorem assembled_sections_behind_greatest :
    let schema : Schema :=
      { id := "grid", name := "Grid", customFields := [{ name := "spacing" }],
        fragments := [.mandatory "rsi", { id := "base", order := some Int64.minValue },
          .voluntary "volume", .voluntary "rsi"] }
    let outcomes : Outcomes :=
      .ofList [("rsi", .resolved { id := "other", name := "RSI", order := some Int64.maxValue }),
        ("base", .resolved { id := "base", name := "Base" }), ("volume", .notFound)]
    schema.customFields ≠ [] ∧ schema.fragments.length < 2 ^ 63 ∧
      ∃ front order, assembleSections schema outcomes = front ++ [Section.custom schema order] ∧
        front.length = 3 ∧ 4 ≤ order.toInt := by
  intro schema outcomes
  have own : schema.customFields ≠ [] := by simp [schema]
  have small : schema.fragments.length < 2 ^ 63 := by decide
  obtain ⟨front, order, e, sorts, -, -, count, -⟩ := (assembled_sections schema outcomes).2 own
  refine ⟨own, small, front, order, e, ?_, count small⟩
  rw [sorts.perm.length_eq]
  decide

end StrategyForm
