import StrategyForm.Wire.Record
import StrategyForm.Proofs.Json.Restored

/-!
# Records that were written are decoded again

A record is written slot by slot, and a slot that may be absent can be left out. `Rows` goes along with
that from the blank record to the written one: a member sets its field, a slot that is left out has its
field as it should be already. `record_rows`: the record is decoded from such members.

What is known of a decoded record is what every slot keeps (`record_induction`), whether it was decoded
from an object or from an array.
-/

namespace StrategyForm.Json.Decoder
open Wire
variable {α ρ : Type} {levels : Nat} {slots : List (Slot ρ)} {blank r v : ρ} {members : Members}

/-- The name under which a slot is written. -/
def Slot.name (slot : Slot ρ) : String := slot.names.headD ""

/-- Each slot is found under the name under which it is written. -/
def OwnNames (slots : List (Slot ρ)) : Prop :=
  ∀ i, ∀ h : i < slots.length, slots.findIdx? (·.names.contains slots[i].name) = some i

instance (slots : List (Slot ρ)) : Decidable (OwnNames slots) :=
  inferInstanceAs (Decidable (∀ i, ∀ _ : i < slots.length, _ = _))

/-- The members, in the order of the slots, make `v` of the record `r`. -/
inductive Rows (levels : Nat) : List (Slot ρ) → ρ → Members → ρ → Prop
  | done (v : ρ) : Rows levels [] v [] v
  | written {slot : Slot ρ} {slots : List (Slot ρ)} {r v : ρ} {j : Json} {members : Members}
      {change : ρ → ρ} (set : AllReadBack j.floats → slot.set levels j.doc = .ok change)
      (rest : Rows levels slots (change r) members v) :
      Rows levels (slot :: slots) r ((slot.name, j) :: members) v
  | absent {slot : Slot ρ} {slots : List (Slot ρ)} {r v : ρ} {members : Members}
      (voluntary : slot.required = false) (rest : Rows levels slots r members v) :
      Rows levels (slot :: slots) r members v

namespace Rows
variable {d : Decoder α} {put : α → ρ → ρ} {a : α} {name : String} {names : List String}
  {required : Bool} {j : Json}

/-- A slot whose field is always written. -/
theorem always (set : AllReadBack j.floats → d levels j.doc = .ok a)
    (rest : Rows levels slots (put a r) members v) :
    Rows levels (⟨name :: names, required, fun levels doc => (d levels doc).map put⟩ :: slots) r
      (Wire.always name j ++ members) v := by
  refine .written (fun reads => ?_) rest
  show (d levels j.doc).map put = .ok (put a)
  rw [set reads]
  rfl

/-- A slot whose field is written if it has a value. -/
theorem present {put : Option α → ρ → ρ} {o : Option α} {write : α → Json} {w : Option Json}
    (whole : o.map write = w)
    (set : ∀ a, o = some a → AllReadBack (write a).floats → d levels (write a).doc = .ok a)
    (nonnull : ∀ a, o = some a → write a ≠ .null) (blank : put none r = r)
    (rest : Rows levels slots (put o r) members v) :
    Rows levels (allow name (optional d) put :: slots) r (Wire.present name w ++ members) v := by
  subst whole
  cases o with
  | none =>
    rw [blank] at rest
    exact .absent rfl rest
  | some a =>
    have here (reads : AllReadBack (write a).floats) := optional_doc (nonnull a rfl) (set a rfl reads)
    exact always here rest

/-- Nothing is written behind the last slot. -/
theorem last (rows : Rows levels slots r (members ++ []) v) : Rows levels slots r members v := by
  rwa [List.append_nil] at rows

/-- A slot whose list is written unless it is empty. -/
theorem nonempty {put : List String → ρ → ρ} {texts : List String}
    (set : AllReadBack (ofStrings texts).floats → list text levels (ofStrings texts).doc = .ok texts)
    (blank : put [] r = r) (rest : Rows levels slots (put texts r) members v) :
    Rows levels (allow name (list text) put :: slots) r (Wire.nonempty name texts ++ members) v := by
  cases texts with
  | nil =>
    rw [blank] at rest
    exact .absent rfl rest
  | cons first more => exact always set rest

end Rows

/-- Of the first `n` slots those are filled that must be, and no later ones. -/
structure Filled (all : List (Slot ρ)) (n : Nat) (filled : List Nat) : Prop where
  lt : ∀ i ∈ filled, i < n
  mem : ∀ i < n, ∀ slot, all[i]? = some slot → slot.required = true → i ∈ filled

namespace Filled
variable {all : List (Slot ρ)} {n : Nat} {filled : List Nat}

theorem none : Filled all 0 [] := ⟨by simp, by simp⟩

theorem free (h : Filled all n filled) : filled.contains n = false := by
  rw [List.contains_eq_mem, decide_eq_false_iff_not]
  intro mem
  exact Nat.lt_irrefl n (h.lt n mem)

theorem put (h : Filled all n filled) : Filled all (n + 1) (n :: filled) := by
  refine ⟨fun i mem => ?_, fun i lt slot here required => ?_⟩
  · rcases List.mem_cons.1 mem with rfl | mem
    · exact Nat.lt_succ_self i
    · exact Nat.lt_succ_of_lt (h.lt i mem)
  · rcases Nat.lt_succ_iff_lt_or_eq.1 lt with lt | rfl
    · exact List.mem_cons_of_mem n (h.mem i lt slot here required)
    · exact List.mem_cons_self

theorem leave (h : Filled all n filled) {slot : Slot ρ} (last : all[n]? = some slot)
    (voluntary : slot.required = false) : Filled all (n + 1) filled := by
  refine ⟨fun i mem => Nat.lt_succ_of_lt (h.lt i mem), fun i lt slot' here required => ?_⟩
  rcases Nat.lt_succ_iff_lt_or_eq.1 lt with lt | rfl
  · exact h.mem i lt slot' here required
  · rw [last] at here
    cases here
    rw [voluntary] at required
    cases required

theorem complete (h : Filled all all.length filled) : complete all filled = true := by
  refine List.all_eq_true.2 fun (slot, i) mem => ?_
  have here := List.mem_zipIdx_iff_getElem?.1 mem
  obtain ⟨lt, -⟩ := List.getElem?_eq_some_iff.1 here
  cases required : slot.required with
  | false => simp [required]
  | true => simpa [required] using h.mem i lt slot here required

end Filled

/-- Behind the members of the first slots, those of the other slots are each taken by its own slot, and no
slot that must be filled is missing in the end. -/
theorem fill_rows {all : List (Slot ρ)} (own : OwnNames all) (rows : Rows levels slots r members v)
    (before : List (Slot ρ)) (split : all = before ++ slots) (filled : List Nat)
    (h : Filled all before.length filled) (reads : AllReadBack (floatsOfMembers members)) :
    ∃ filled', fill all levels (r, filled) (memberDocs members) = .ok (v, filled') ∧
      complete all filled' = true := by
  -- `before` are the slots that were gone through, and `Filled` is what is known of them
  induction rows generalizing before filled with
  | done v =>
    rw [List.append_nil] at split
    subst split
    exact ⟨filled, rfl, h.complete⟩
  | @written slot slots r v j members change set rest ih =>
    obtain ⟨first, others⟩ := AllReadBack.append.1 reads
    have here : all[before.length]? = some slot := by simp [split]
    obtain ⟨lt, there⟩ := List.getElem?_eq_some_iff.1 here
    have found := own before.length lt
    rw [there] at found
    have next : Filled all (before ++ [slot]).length (before.length :: filled) := by
      rw [List.length_append]
      exact h.put
    obtain ⟨filled', goes, whole⟩ := ih (before ++ [slot]) (by simp [split]) _ next others
    refine ⟨filled', ?_, whole⟩
    rw [memberDocs, fill]
    simp only [key, found, h.free, here, set first, bind, Except.bind]
    exact goes
  | @absent slot slots r v members voluntary rest ih =>
    have here : all[before.length]? = some slot := by simp [split]
    have next : Filled all (before ++ [slot]).length filled := by
      rw [List.length_append]
      exact h.leave here voluntary
    exact ih (before ++ [slot]) (by simp [split]) filled next reads

/-- The record is decoded from the members that make it of the blank record. -/
theorem record_rows (own : OwnNames slots) (rows : Rows levels slots blank members v)
    (reads : AllReadBack (Json.object members).floats) :
    record slots blank (levels + 1) (Json.object members).doc = .ok v := by
  obtain ⟨filled, goes, whole⟩ := fill_rows own rows [] rfl [] .none reads
  rw [doc, record, goes]
  simp only [objectEnd, bind, Except.bind, whole, if_true]
  rfl

/-! ### What every slot keeps -/

section
variable {P : ρ → Prop}
  (step : ∀ slot ∈ slots, ∀ doc change, slot.set levels doc = .ok change → ∀ r, P r → P (change r))
include step

theorem fill_induction {state state' : ρ × List Nat} {docs : List (Option String × Doc)} (h : P state.1)
    (found : fill slots levels state docs = .ok state') : P state'.1 := by
  induction docs generalizing state with
  | nil =>
    cases found
    exact h
  | cons member rest ih =>
    rw [fill] at found
    obtain ⟨name, -, found⟩ := bind_ok found
    split at found
    · obtain ⟨_, -, found⟩ := bind_ok found
      exact ih h found
    · split at found
      · cases found
      · split at found
        · exact ih h found
        · rename_i slot here
          obtain ⟨change, set, found⟩ := bind_ok found
          exact ih (step slot (List.mem_of_getElem? here) member.2 change set state.1 h) found

theorem fillInOrder_induction {ending : Option Flaw} {docs : List Doc} (h : P r)
    (found : fillInOrder levels ending r slots docs = .ok v) : P v := by
  induction slots generalizing r docs with
  | nil =>
    cases docs with
    | nil =>
      obtain ⟨_, _, found⟩ := bind_ok found
      cases found
      exact h
    | cons => cases found
  | cons slot slots ih =>
    cases docs with
    | nil =>
      obtain ⟨_, -, found⟩ := bind_ok found
      split at found <;> cases found
      exact h
    | cons doc rest =>
      obtain ⟨change, set, found⟩ := bind_ok found
      have next := step slot List.mem_cons_self doc change set r h
      exact ih (fun slot mem => step slot (List.mem_cons_of_mem _ mem)) next found

/-- What is true of the blank record, and what every slot keeps, is true of a decoded record. -/
theorem record_induction {doc : Doc} (h : P blank) (found : record slots blank (levels + 1) doc = .ok v) :
    P v := by
  cases doc with
  | array items ending => exact fillInOrder_induction step h found
  | object members ending =>
    obtain ⟨state, filled, found⟩ := bind_ok found
    obtain ⟨_, -, found⟩ := bind_ok found
    have first : P ((blank, []) : ρ × List Nat).1 := h
    have kept := fill_induction step first filled
    split at found <;> cases found
    exact kept
  | null | bool | number | string | flaw | brokenWord | brokenNumber => cases found

end

end StrategyForm.Json.Decoder
