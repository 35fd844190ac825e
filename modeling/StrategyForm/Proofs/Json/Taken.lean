import Mathlib.Data.List.Nodup
import Mathlib.Data.List.Perm.Basic
import StrategyForm.Proofs.Json.Restored

/-!
# What a record takes of an object

A record goes through the members of an object one by one. `Taken` says what that comes to: unknown members
are skipped, each of the others gives a change of the record, and no slot gives two (`record_iff`). Changes
of different slots do not get in each other's way, so that their order is of no matter (`applied_perm`).
-/

namespace StrategyForm.Json

/-- The members of an object, as far as the text is read. -/
abbrev DocMembers := List (Option String × Doc)

namespace Decoder
variable {ρ : Type} {slots : List (Slot ρ)} {levels : Nat} {members rest : DocMembers}
  {changes changes' : List (Nat × (ρ → ρ))} {filled : List Nat} {r r' v : ρ} {i : Nat} {name : String}

/-- The place of the slot that a name belongs to. -/
def place? (slots : List (Slot ρ)) (name : String) : Option Nat :=
  slots.findIdx? (·.names.contains name)

/-- Each name belongs to the slot that it stands in. -/
def DistinctNames (slots : List (Slot ρ)) : Prop :=
  ∀ i, ∀ h : i < slots.length, ∀ name ∈ slots[i].names, place? slots name = some i

instance (slots : List (Slot ρ)) : Decidable (DistinctNames slots) :=
  inferInstanceAs (Decidable (∀ i, ∀ _ : i < slots.length, ∀ name ∈ _, _ = _))

theorem DistinctNames.place (distinct : DistinctNames slots) {slot : Slot ρ} (mem : slot ∈ slots) :
    ∃ i, slots[i]? = some slot ∧ ∀ name ∈ slot.names, place? slots name = some i := by
  obtain ⟨i, lt, rfl⟩ := List.getElem_of_mem mem
  exact ⟨i, List.getElem?_eq_getElem lt, distinct i lt⟩

theorem place?_eq_none (foreign : ∀ slot ∈ slots, name ∉ slot.names) : place? slots name = none := by
  refine List.findIdx?_eq_none_iff.2 fun slot mem => ?_
  rw [List.contains_eq_mem, decide_eq_false_iff_not]
  exact foreign slot mem

/-- The changes that members make, each with the place of its slot. -/
inductive Taken (slots : List (Slot ρ)) (levels : Nat) :
    DocMembers → List (Nat × (ρ → ρ)) → Prop
  | nil : Taken slots levels [] []
  | skip {name : String} {doc : Doc} {rest : DocMembers} {changes : List (Nat × (ρ → ρ))}
      (foreign : place? slots name = none) (flawless : doc.flaw? = none)
      (tail : Taken slots levels rest changes) : Taken slots levels ((some name, doc) :: rest) changes
  | take {name : String} {doc : Doc} {rest : DocMembers} {changes : List (Nat × (ρ → ρ))}
      {i : Nat} {slot : Slot ρ} {change : ρ → ρ} (found : place? slots name = some i)
      (here : slots[i]? = some slot) (set : slot.set levels doc = .ok change)
      (tail : Taken slots levels rest changes) :
      Taken slots levels ((some name, doc) :: rest) ((i, change) :: changes)

/-- All changes, one after the other. -/
def applied (changes : List (Nat × (ρ → ρ))) (r : ρ) : ρ := changes.foldl (fun r c => c.2 r) r

/-- No slot gives two changes, and none that was filled before gives one. -/
def Fresh (filled : List Nat) (changes : List (Nat × (ρ → ρ))) : Prop :=
  (changes.map (·.1)).Nodup ∧ ∀ i ∈ changes.map (·.1), i ∉ filled

theorem fresh_cons {c : Nat × (ρ → ρ)} :
    Fresh filled (c :: changes) ↔ c.1 ∉ filled ∧ Fresh (c.1 :: filled) changes := by
  simp only [Fresh, List.map_cons, List.nodup_cons, List.mem_cons, forall_eq_or_imp, not_or]
  constructor
  · rintro ⟨⟨other, distinct⟩, free, others⟩
    exact ⟨free, distinct, fun i mem => ⟨fun same => other (same ▸ mem), others i mem⟩⟩
  · rintro ⟨free, distinct, others⟩
    exact ⟨⟨fun mem => (others _ mem).1 rfl, distinct⟩, free, fun i mem => (others i mem).2⟩

/-! ### Members one by one -/

theorem fill_skip {doc : Doc} (foreign : place? slots name = none) (flawless : doc.flaw? = none) :
    fill slots levels (r, filled) ((some name, doc) :: rest) = fill slots levels (r, filled) rest := by
  rw [place?] at foreign
  rw [fill]
  simp only [key, foreign, skip, flawless, bind, Except.bind]

theorem fill_take {doc : Doc} {slot : Slot ρ} (found : place? slots name = some i)
    (here : slots[i]? = some slot) (free : i ∉ filled) :
    fill slots levels (r, filled) ((some name, doc) :: rest) =
      (slot.set levels doc).bind fun change => fill slots levels (change r, i :: filled) rest := by
  rw [place?] at found
  rw [fill]
  have free' : filled.contains i = false := by
    rwa [List.contains_eq_mem, decide_eq_false_iff_not]
  simp only [key, found, free', here, bind, Except.bind, Bool.false_eq_true, if_false]

theorem fill_again {doc : Doc} (found : place? slots name = some i) (taken : i ∈ filled) :
    fill slots levels (r, filled) ((some name, doc) :: rest) = .error .misshapen := by
  rw [place?] at found
  rw [fill]
  have taken' : filled.contains i = true := by rwa [List.contains_eq_mem, decide_eq_true_iff]
  simp only [key, found, taken', bind, Except.bind, if_true]

theorem fill_of_taken (taken : Taken slots levels members changes) (fresh : Fresh filled changes)
    (after : DocMembers) : fill slots levels (r, filled) (members ++ after) =
      fill slots levels (applied changes r, (changes.map (·.1)).reverse ++ filled) after := by
  induction taken generalizing r filled with
  | nil => rfl
  | skip foreign flawless _ ih => rw [List.cons_append, fill_skip foreign flawless, ih fresh]
  | take found here set _ ih =>
    obtain ⟨free, fresh⟩ := fresh_cons.1 fresh
    rw [List.cons_append, fill_take found here free, set]
    refine (ih fresh).trans ?_
    simp only [applied, List.foldl_cons, List.map_cons, List.reverse_cons, List.append_assoc,
      List.singleton_append]

theorem taken_of_fill {state : ρ × List Nat} (h : fill slots levels (r, filled) members = .ok state) :
    ∃ changes, Taken slots levels members changes ∧ Fresh filled changes ∧
      state = (applied changes r, (changes.map (·.1)).reverse ++ filled) := by
  induction members generalizing r filled with
  | nil =>
    obtain rfl := Except.ok.inj h
    exact ⟨[], .nil, ⟨.nil, nofun⟩, rfl⟩
  | cons member rest ih =>
    obtain ⟨key?, doc⟩ := member
    cases key? with
    | none => rw [fill] at h; cases h
    | some name =>
      cases found : place? slots name with
      | none =>
        cases flaw : doc.flaw? with
        | some f =>
          rw [place?] at found
          rw [fill] at h
          simp only [key, found, skip, flaw, bind, Except.bind] at h
          cases h
        | none =>
          rw [fill_skip found flaw] at h
          obtain ⟨changes, taken, fresh, eq⟩ := ih h
          exact ⟨changes, .skip found flaw taken, fresh, eq⟩
      | some i =>
        by_cases free : i ∈ filled
        · rw [fill_again found free] at h
          cases h
        · obtain ⟨lt, -⟩ := List.findIdx?_eq_some_iff_getElem.1 found
          have here := List.getElem?_eq_getElem lt
          rw [fill_take found here free] at h
          obtain ⟨change, set, h⟩ := bind_ok h
          obtain ⟨changes, taken, fresh, eq⟩ := ih h
          refine ⟨(i, change) :: changes, .take found here set taken, fresh_cons.2 ⟨free, fresh⟩, ?_⟩
          rw [eq]
          simp only [applied, List.foldl_cons, List.map_cons, List.reverse_cons, List.append_assoc,
            List.singleton_append]

/-! ### Whole records -/

theorem complete_iff : complete slots filled = true ↔
    ∀ i slot, slots[i]? = some slot → slot.required = true → i ∈ filled := by
  simp only [complete, List.all_eq_true, Prod.forall, List.mem_zipIdx_iff_getElem?, Bool.or_eq_true,
    Bool.not_eq_true', List.contains_eq_mem, decide_eq_true_eq]
  constructor
  · intro h i slot here required
    rcases h slot i here with voluntary | mem
    · rw [required] at voluntary; cases voluntary
    · exact mem
  · intro h slot i here
    cases required : slot.required with
    | false => exact .inl rfl
    | true => exact .inr (h i slot here required)

/-- A record is what its changes make of the blank one, all slots that must be filled being among theirs. -/
theorem record_iff {blank : ρ} : record slots blank (levels + 1) (.object members .closed) = .ok v ↔
    ∃ changes, Taken slots levels members changes ∧ (changes.map (·.1)).Nodup ∧
      complete slots (changes.map (·.1)) = true ∧ v = applied changes blank := by
  have whole : ∀ changes : List (Nat × (ρ → ρ)),
      complete slots ((changes.map (·.1)).reverse ++ []) = complete slots (changes.map (·.1)) := by
    intro changes
    rw [Bool.eq_iff_iff, complete_iff, complete_iff]
    simp
  constructor
  · intro h
    rw [record] at h
    obtain ⟨state, filled, h⟩ := bind_ok h
    obtain ⟨changes, taken, fresh, rfl⟩ := taken_of_fill filled
    simp only [objectEnd, bind, Except.bind, whole] at h
    cases done : complete slots (changes.map (·.1)) with
    | false => rw [done] at h; cases h
    | true =>
      rw [done] at h
      exact ⟨changes, taken, fresh.1, done, (Except.ok.inj h).symm⟩
  · rintro ⟨changes, taken, distinct, done, rfl⟩
    have filled := fill_of_taken (r := blank) taken ⟨distinct, fun _ _ => List.not_mem_nil⟩ []
    rw [List.append_nil] at filled
    rw [record, filled]
    simp only [fill, objectEnd, bind, Except.bind, whole, done, if_true]
    rfl

/-! ### The order of members -/

theorem Taken.perm {members' : DocMembers} (perm : members.Perm members')
    (taken : Taken slots levels members changes) :
    ∃ changes', changes.Perm changes' ∧ Taken slots levels members' changes' := by
  induction perm generalizing changes with
  | nil => exact ⟨changes, .refl _, taken⟩
  | cons member _ ih =>
    cases taken with
    | skip foreign flawless tail =>
      obtain ⟨changes', perm, taken⟩ := ih tail
      exact ⟨changes', perm, .skip foreign flawless taken⟩
    | take found here set tail =>
      obtain ⟨changes', perm, taken⟩ := ih tail
      exact ⟨_, perm.cons _, .take found here set taken⟩
  | swap first second rest =>
    cases taken with
    | skip foreign flawless tail =>
      cases tail with
      | skip foreign' flawless' tail => exact ⟨_, .refl _, .skip foreign' flawless' (.skip foreign flawless tail)⟩
      | take found here set tail => exact ⟨_, .refl _, .take found here set (.skip foreign flawless tail)⟩
    | take found here set tail =>
      cases tail with
      | skip foreign flawless tail => exact ⟨_, .refl _, .skip foreign flawless (.take found here set tail)⟩
      | take found' here' set' tail =>
        exact ⟨_, .swap _ _ _, .take found' here' set' (.take found here set tail)⟩
  | trans _ _ ih ih' =>
    obtain ⟨middle, perm, taken⟩ := ih taken
    obtain ⟨last, perm', taken⟩ := ih' taken
    exact ⟨last, perm.trans perm', taken⟩

theorem Taken.append {before after : DocMembers}
    (taken : Taken slots levels (before ++ after) changes) : ∃ first later,
      changes = first ++ later ∧ Taken slots levels before first ∧ Taken slots levels after later := by
  induction before generalizing changes with
  | nil => exact ⟨[], changes, rfl, .nil, taken⟩
  | cons member before ih =>
    cases taken with
    | skip foreign flawless tail =>
      obtain ⟨first, later, rfl, taken, taken'⟩ := ih tail
      exact ⟨first, later, rfl, .skip foreign flawless taken, taken'⟩
    | take found here set tail =>
      obtain ⟨first, later, rfl, taken, taken'⟩ := ih tail
      exact ⟨_ :: first, later, rfl, .take found here set taken, taken'⟩

theorem Taken.mem {c : Nat × (ρ → ρ)} (taken : Taken slots levels members changes) (mem : c ∈ changes) :
    ∃ slot doc, slots[c.1]? = some slot ∧ slot.set levels doc = .ok c.2 := by
  induction taken with
  | nil => cases mem
  | skip _ _ _ ih => exact ih mem
  | take _ here set _ ih =>
    rcases List.mem_cons.1 mem with rfl | mem
    · exact ⟨_, _, here, set⟩
    · exact ih mem

theorem Taken.mem_of_member {doc : Doc} (taken : Taken slots levels members changes)
    (mem : (some name, doc) ∈ members) (found : place? slots name = some i) : i ∈ changes.map (·.1) := by
  induction taken with
  | nil => cases mem
  | skip foreign _ _ ih =>
    rcases List.mem_cons.1 mem with same | mem
    · cases same
      rw [foreign] at found
      cases found
    · exact ih mem
  | take found' _ _ _ ih =>
    rcases List.mem_cons.1 mem with same | mem
    · cases same
      rw [found'] at found
      obtain rfl := Option.some.inj found
      exact List.mem_cons_self
    · exact List.mem_cons_of_mem _ (ih mem)

theorem Taken.member_of_mem (taken : Taken slots levels members changes) (mem : i ∈ changes.map (·.1)) :
    ∃ name doc slot, (some name, doc) ∈ members ∧ slots[i]? = some slot ∧ name ∈ slot.names := by
  induction taken with
  | nil => cases mem
  | skip _ _ _ ih =>
    obtain ⟨name, doc, slot, there, named⟩ := ih mem
    exact ⟨name, doc, slot, List.mem_cons_of_mem _ there, named⟩
  | @take name doc _ _ _ _ _ found _ _ _ ih =>
    rcases List.mem_cons.1 mem with rfl | mem
    · obtain ⟨lt, named, -⟩ := List.findIdx?_eq_some_iff_getElem.1 found
      rw [List.contains_eq_mem, decide_eq_true_iff] at named
      exact ⟨name, doc, _, List.mem_cons_self, List.getElem?_eq_getElem lt, named⟩
    · obtain ⟨name, doc, slot, there, named⟩ := ih mem
      exact ⟨name, doc, slot, List.mem_cons_of_mem _ there, named⟩

/-- Two slots change different parts of a record. -/
def Apart (slot slot' : Slot ρ) : Prop :=
  ∀ levels doc doc' change change', slot.set levels doc = .ok change → slot'.set levels doc' = .ok change' →
    ∀ r, change (change' r) = change' (change r)

theorem applied_perm (apart : slots.Pairwise Apart) (taken : Taken slots levels members changes)
    (distinct : (changes.map (·.1)).Nodup) (perm : changes.Perm changes') (r : ρ) :
    applied changes r = applied changes' r := by
  refine perm.foldl_eq' (fun c mem c' mem' r => ?_) r
  obtain ⟨slot, doc, here, set⟩ := taken.mem mem
  obtain ⟨slot', doc', here', set'⟩ := taken.mem mem'
  obtain ⟨lt, rfl⟩ := List.getElem?_eq_some_iff.1 here
  obtain ⟨lt', rfl⟩ := List.getElem?_eq_some_iff.1 here'
  rcases Nat.lt_trichotomy c.1 c'.1 with less | same | more
  · exact (List.pairwise_iff_getElem.1 apart _ _ lt lt' less _ _ _ _ _ set set' r).symm
  · rw [List.inj_on_of_nodup_map distinct mem mem' same]
  · exact List.pairwise_iff_getElem.1 apart _ _ lt' lt more _ _ _ _ _ set' set r

end Decoder
end StrategyForm.Json
