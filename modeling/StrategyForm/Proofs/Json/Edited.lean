import Mathlib.Logic.Relation
import StrategyForm.Proofs.Json.Rows
import StrategyForm.Proofs.Json.Taken

/-!
# Objects that stand for one record

A record does not see how its object is written: the order of the members, members that it does not know,
which of a slot's names is used, values that say what the slot is without them. `Shape.Edit` is one such
change, also of the objects in a member's value, and `Lawful.edited` says that any number of them leaves the
record. What a record does see is a slot that is given twice (`Shape.Twice`, `Lawful.doubledIn`).
-/

namespace StrategyForm.Json

/-- What is known of the values of a slot. -/
structure Leeway where
  /-- The second value is another spelling of the first one. -/
  Respelt : Doc → Doc → Prop := fun _ _ => False
  /-- A value that says what the slot is without it. -/
  Spare : Doc → Prop := fun _ => False
  /-- A record in the first value is given a slot twice in the second one, and the mistake that is met within a
  number of levels. -/
  Doubled : Nat → Doc → Doc → Mistake → Prop := fun _ _ _ _ => False

/-- What is known is true of a slot. -/
structure Leeway.Holds {ρ : Type} (w : Leeway) (slot : Decoder.Slot ρ) (blank : ρ) : Prop where
  respelt : ∀ {levels doc doc' change}, w.Respelt doc doc' →
    slot.set levels doc = .ok change → slot.set levels doc' = .ok change
  voluntary : ∀ {doc}, w.Spare doc → slot.required = false
  spare : ∀ {levels doc change}, w.Spare doc → slot.set levels doc = .ok change → change blank = blank
  null : w.Spare .null → ∀ levels, ∃ change, slot.set levels .null = .ok change
  doubled : ∀ {levels doc doc' mistake change}, w.Doubled levels doc doc' mistake →
    slot.set levels doc = .ok change → slot.set levels doc' = .error mistake

/-- A record on the wire, with what is known of its slots by their names. -/
structure Shape (ρ : Type) where
  slots : List (Decoder.Slot ρ)
  blank : ρ
  leeway : String → Leeway

namespace Shape
open Decoder
variable {ρ : Type} (s : Shape ρ)

def decoder : Decoder ρ := record s.slots s.blank

/-- One change of an object's members that leaves the record. -/
inductive Edit : DocMembers → DocMembers → Prop
  | reorder {members members' : DocMembers} (perm : members.Perm members') : Edit members members'
  | addUnknown {name : String} {doc : Doc} {members : DocMembers} (unknown : ∀ slot ∈ s.slots, name ∉ slot.names)
      (flawless : doc.flaw? = none) : Edit members ((some name, doc) :: members)
  | rename {slot : Slot ρ} {name name' : String} {doc : Doc} {rest : DocMembers}
      (mem : slot ∈ s.slots) (own : name ∈ slot.names) (own' : name' ∈ slot.names) :
      Edit ((some name, doc) :: rest) ((some name', doc) :: rest)
  | respell {slot : Slot ρ} {name : String} {doc doc' : Doc} {rest : DocMembers}
      (mem : slot ∈ s.slots) (own : name ∈ slot.names) (respelt : (s.leeway slot.name).Respelt doc doc') :
      Edit ((some name, doc) :: rest) ((some name, doc') :: rest)
  | addNull {slot : Slot ρ} {name : String} {members : DocMembers} (mem : slot ∈ s.slots)
      (own : name ∈ slot.names) (spare : (s.leeway slot.name).Spare .null)
      (absent : ∀ member ∈ members, ∀ name ∈ slot.names, member.1 ≠ some name) :
      Edit members ((some name, .null) :: members)
  | dropSpare {slot : Slot ρ} {name : String} {doc : Doc} {rest : DocMembers}
      (mem : slot ∈ s.slots) (own : name ∈ slot.names) (spare : (s.leeway slot.name).Spare doc) :
      Edit ((some name, doc) :: rest) rest

/-- Any number of changes of an object. -/
inductive Edited : Doc → Doc → Prop
  | object {members members' : DocMembers} (edits : Relation.ReflTransGen s.Edit members members') :
      Edited (.object members .closed) (.object members' .closed)
  | same (doc : Doc) : Edited doc doc

/-- What comes of a value that is read ahead of another one for the same slot. -/
def aheadMistake {α : Type} : Except Mistake α → Mistake
  | .ok _ => .misshapen
  | .error mistake => mistake

/-- An object's members with one slot given twice, also in the value of a member, and the mistake that is met:
the second value is not looked at. -/
inductive Twice : Nat → DocMembers → DocMembers → Mistake → Prop
  | behind {levels : Nat} {slot : Slot ρ} {name name' : String} {doc doc' : Doc}
      {before after : DocMembers} (mem : slot ∈ s.slots) (own : name ∈ slot.names)
      (own' : name' ∈ slot.names) (first : (some name, doc) ∈ before) :
      Twice levels (before ++ after) (before ++ (some name', doc') :: after) .misshapen
  | ahead {levels : Nat} {slot : Slot ρ} {name name' : String} {doc doc' : Doc}
      {before after : DocMembers} (mem : slot ∈ s.slots) (own : name ∈ slot.names)
      (own' : name' ∈ slot.names) (second : (some name', doc') ∈ after) :
      Twice levels (before ++ after) (before ++ (some name, doc) :: after) (aheadMistake (slot.set levels doc))
  | inside {levels : Nat} {slot : Slot ρ} {name : String} {doc doc' : Doc} {mistake : Mistake}
      {before after : DocMembers} (mem : slot ∈ s.slots) (own : name ∈ slot.names)
      (doubled : (s.leeway slot.name).Doubled levels doc doc' mistake) :
      Twice levels (before ++ (some name, doc) :: after) (before ++ (some name, doc') :: after) mistake

inductive DoubledIn : Nat → Doc → Doc → Mistake → Prop
  | object {levels : Nat} {members members' : DocMembers} {mistake : Mistake}
      (twice : s.Twice levels members members' mistake) :
      DoubledIn (levels + 1) (.object members .closed) (.object members' .closed) mistake

/-- Each slot keeps to itself, and what is said of its values is true. -/
structure Lawful : Prop where
  distinct : DistinctNames s.slots
  apart : s.slots.Pairwise Apart
  holds : ∀ slot ∈ s.slots, (s.leeway slot.name).Holds slot s.blank

variable {s} {levels : Nat} {v : ρ} {members members' : DocMembers} {doc doc' : Doc}
  {mistake : Mistake}

theorem Lawful.edit (lawful : s.Lawful) (edit : s.Edit members members')
    (h : s.decoder (levels + 1) (.object members .closed) = .ok v) :
    s.decoder (levels + 1) (.object members' .closed) = .ok v := by
  obtain ⟨changes, taken, distinct, done, rfl⟩ := record_iff.1 h
  refine record_iff.2 ?_
  cases edit with
  | reorder perm =>
    obtain ⟨changes', perm', taken'⟩ := taken.perm perm
    have places := perm'.map (·.1)
    refine ⟨changes', taken', places.nodup_iff.1 distinct, ?_, applied_perm lawful.apart taken distinct perm' s.blank⟩
    rw [complete_iff] at done ⊢
    exact fun i slot here required => places.mem_iff.1 (done i slot here required)
  | addUnknown unknown flawless =>
    exact ⟨changes, .skip (place?_eq_none unknown) flawless taken, distinct, done, rfl⟩
  | rename mem own own' =>
    obtain ⟨i, here, names⟩ := lawful.distinct.place mem
    cases taken with
    | skip foreign => exact absurd ((names _ own).symm.trans foreign) (Option.some_ne_none i)
    | take found here' set tail =>
      obtain rfl := Option.some.inj ((names _ own).symm.trans found)
      exact ⟨_, .take (names _ own') here' set tail, distinct, done, rfl⟩
  | respell mem own respelt =>
    obtain ⟨i, here, names⟩ := lawful.distinct.place mem
    cases taken with
    | skip foreign => exact absurd ((names _ own).symm.trans foreign) (Option.some_ne_none i)
    | take found here' set tail =>
      obtain rfl := Option.some.inj ((names _ own).symm.trans found)
      obtain rfl := Option.some.inj (here.symm.trans here')
      exact ⟨_, .take found here ((lawful.holds _ mem).respelt respelt set) tail, distinct, done, rfl⟩
  | addNull mem own spare absent =>
    obtain ⟨i, here, names⟩ := lawful.distinct.place mem
    obtain ⟨change, set⟩ := (lawful.holds _ mem).null spare levels
    have void := (lawful.holds _ mem).spare spare set
    have free : i ∉ changes.map (·.1) := by
      intro filled
      obtain ⟨name, doc, slot, member, here', named⟩ := taken.member_of_mem filled
      obtain rfl := Option.some.inj (here.symm.trans here')
      exact absent _ member name named rfl
    refine ⟨(i, change) :: changes, .take (names _ own) here set taken, List.nodup_cons.2 ⟨free, distinct⟩, ?_, ?_⟩
    · rw [complete_iff] at done ⊢
      exact fun i slot here required => List.mem_cons_of_mem _ (done i slot here required)
    · show applied changes s.blank = applied changes (change s.blank)
      rw [void]
  | dropSpare mem own spare =>
    obtain ⟨i, here, names⟩ := lawful.distinct.place mem
    have voluntary := (lawful.holds _ mem).voluntary spare
    cases taken with
    | skip foreign => exact absurd ((names _ own).symm.trans foreign) (Option.some_ne_none i)
    | @take _ _ _ changes _ _ change found here' set tail =>
      obtain rfl := Option.some.inj ((names _ own).symm.trans found)
      obtain rfl := Option.some.inj (here.symm.trans here')
      refine ⟨changes, tail, (List.nodup_cons.1 distinct).2, ?_, ?_⟩
      · rw [complete_iff] at done ⊢
        intro j slot' there required
        rcases List.mem_cons.1 (done j slot' there required) with rfl | filled
        · obtain rfl := Option.some.inj (here.symm.trans there)
          rw [voluntary] at required
          cases required
        · exact filled
      · show applied changes (change s.blank) = applied changes s.blank
        rw [(lawful.holds _ mem).spare spare set]

theorem Lawful.edited (lawful : s.Lawful) (edited : s.Edited doc doc') (h : s.decoder levels doc = .ok v) :
    s.decoder levels doc' = .ok v := by
  cases edited with
  | same => exact h
  | object edits =>
    cases levels with
    | zero => cases h
    | succ levels =>
      induction edits with
      | refl => exact h
      | tail _ edit ih => exact lawful.edit edit ih

/-! ### A slot given twice -/

theorem Lawful.twice (lawful : s.Lawful) (twice : s.Twice levels members members' mistake)
    (h : s.decoder (levels + 1) (.object members .closed) = .ok v) :
    s.decoder (levels + 1) (.object members' .closed) = .error mistake := by
  obtain ⟨changes, taken, distinct, -, -⟩ := record_iff.1 h
  suffices met : fill s.slots levels (s.blank, []) members' = .error mistake by
    rw [decoder, record, met]
    rfl
  cases twice with
  | behind mem own own' first =>
    obtain ⟨i, -, names⟩ := lawful.distinct.place mem
    obtain ⟨earlier, later, rfl, front, -⟩ := taken.append
    rw [List.map_append] at distinct
    rw [fill_of_taken front ⟨distinct.of_append_left, fun _ _ => List.not_mem_nil⟩]
    refine fill_again (names _ own') ?_
    rw [List.append_nil, List.mem_reverse]
    exact front.mem_of_member first (names _ own)
  | @ahead slot name name' doc doc' before after mem own own' second =>
    obtain ⟨i, here, names⟩ := lawful.distinct.place mem
    obtain ⟨between, behind, rfl⟩ := List.append_of_mem second
    obtain ⟨earlier, later, rfl, front, back⟩ := taken.append
    obtain ⟨next, last, rfl, middle, back⟩ := back.append
    have given := back.mem_of_member List.mem_cons_self (names _ own')
    simp only [List.map_append, List.nodup_append, List.mem_append] at distinct
    obtain ⟨distinct₁, ⟨distinct₂, -, apart₂⟩, apart₁⟩ := distinct
    have free : i ∉ (earlier.map (·.1)).reverse ++ [] := by
      rw [List.append_nil, List.mem_reverse]
      exact fun mem => apart₁ i mem i (.inr given) rfl
    rw [fill_of_taken front ⟨distinct₁, fun _ _ => List.not_mem_nil⟩, fill_take (names _ own) here free]
    cases set : slot.set levels doc with
    | error mistake => rfl
    | ok change =>
      -- the members in between are taken as before, up to the other one of this slot
      have fresh : Fresh (i :: ((earlier.map (·.1)).reverse ++ [])) next := by
        refine ⟨distinct₂, fun j mem filled => ?_⟩
        rcases List.mem_cons.1 filled with rfl | filled
        · exact apart₂ j mem j given rfl
        · rw [List.append_nil, List.mem_reverse] at filled
          exact apart₁ j filled j (.inl mem) rfl
      refine (fill_of_taken middle fresh _).trans (fill_again (names _ own') ?_)
      exact List.mem_append_right _ List.mem_cons_self
  | inside mem own doubled =>
    obtain ⟨i, here, names⟩ := lawful.distinct.place mem
    obtain ⟨earlier, later, rfl, front, back⟩ := taken.append
    rw [List.map_append] at distinct
    obtain ⟨distinct₁, -, apart⟩ := List.nodup_append.1 distinct
    cases back with
    | skip foreign => exact absurd ((names _ own).symm.trans foreign) (Option.some_ne_none i)
    | take found here' set tail =>
      obtain rfl := Option.some.inj ((names _ own).symm.trans found)
      obtain rfl := Option.some.inj (here.symm.trans here')
      have free : i ∉ (earlier.map (·.1)).reverse ++ [] := by
        rw [List.append_nil, List.mem_reverse]
        exact fun mem => apart i mem i List.mem_cons_self rfl
      rw [fill_of_taken front ⟨distinct₁, fun _ _ => List.not_mem_nil⟩, fill_take (names _ own) here free,
        (lawful.holds _ mem).doubled doubled set]
      rfl

theorem Lawful.doubledIn (lawful : s.Lawful) (doubled : s.DoubledIn levels doc doc' mistake)
    (h : s.decoder levels doc = .ok v) : s.decoder levels doc' = .error mistake := by
  cases doubled with
  | object twice => exact lawful.twice twice h

end Shape

/-! ### Lists of records -/

/-- The items of two arrays are alike one by one. -/
inductive ItemsEdited (R : Doc → Doc → Prop) : Doc → Doc → Prop
  | array {items items' : List Doc} {ending : Option Flaw} (alike : List.Forall₂ R items items') :
      ItemsEdited R (.array items ending) (.array items' ending)

/-- One item of two arrays differs. -/
inductive ItemDoubled (R : Nat → Doc → Doc → Mistake → Prop) : Nat → Doc → Doc → Mistake → Prop
  | array {levels : Nat} {doc doc' : Doc} {before after : List Doc} {ending : Option Flaw} {mistake : Mistake}
      (item : R levels doc doc' mistake) :
      ItemDoubled R (levels + 1) (.array (before ++ doc :: after) ending) (.array (before ++ doc' :: after) ending)
        mistake

namespace Decoder
variable {α : Type} {d : Decoder α} {levels : Nat} {doc doc' : Doc} {as : List α}

theorem mapM_edited {R : Doc → Doc → Prop}
    (keeps : ∀ {doc doc' a}, R doc doc' → d levels doc = .ok a → d levels doc' = .ok a) {items items' : List Doc}
    (alike : List.Forall₂ R items items') (h : items.mapM (d levels) = .ok as) :
    items'.mapM (d levels) = .ok as := by
  induction alike generalizing as with
  | nil => exact h
  | cons first _ ih =>
    rw [List.mapM_cons] at h ⊢
    obtain ⟨a, found, h⟩ := bind_ok h
    obtain ⟨rest, others, h⟩ := bind_ok h
    rw [keeps first found, ih others]
    exact h

theorem list_edited {R : Doc → Doc → Prop}
    (keeps : ∀ {levels doc doc' a}, R doc doc' → d levels doc = .ok a → d levels doc' = .ok a)
    (edited : ItemsEdited R doc doc') (h : list d levels doc = .ok as) : list d levels doc' = .ok as := by
  cases edited with
  | array alike =>
    cases levels with
    | zero => cases h
    | succ levels =>
      rw [list] at h ⊢
      obtain ⟨found, items, h⟩ := bind_ok h
      rw [mapM_edited keeps alike items]
      exact h

theorem list_nil (h : list d levels (.array [] none) = .ok as) : as = [] := by
  cases levels with
  | zero => cases h
  | succ levels => exact (Except.ok.inj h).symm

theorem list_doubled {R : Nat → Doc → Doc → Mistake → Prop} {mistake : Mistake}
    (refuses : ∀ {levels doc doc' mistake a}, R levels doc doc' mistake → d levels doc = .ok a →
      d levels doc' = .error mistake)
    (doubled : ItemDoubled R levels doc doc' mistake) (h : list d levels doc = .ok as) :
    list d levels doc' = .error mistake := by
  cases doubled with
  | array item =>
    rw [list] at h ⊢
    obtain ⟨found, items, -⟩ := bind_ok h
    rw [List.mapM_append] at items ⊢
    obtain ⟨first, front, items⟩ := bind_ok items
    obtain ⟨back, items, -⟩ := bind_ok items
    rw [List.mapM_cons] at items ⊢
    obtain ⟨a, here, -⟩ := bind_ok items
    rw [front, refuses item here]
    rfl

/-- Words of one group stand for the same. -/
inductive Reworded (groups : List (List String)) : Doc → Doc → Prop
  | word {group : List String} {w w' : String} (mem : group ∈ groups) (here : w ∈ group) (there : w' ∈ group) :
      Reworded groups (.string (some w)) (.string (some w'))
  | key {group : List String} {w w' : String} (mem : group ∈ groups) (here : w ∈ group) (there : w' ∈ group) :
      Reworded groups (.object [(some w, .null)] .closed) (.object [(some w', .null)] .closed)

theorem oneOf_reworded {choose : String → Option α} {groups : List (List String)} {a : α}
    (agree : ∀ group ∈ groups, ∀ w ∈ group, ∀ w' ∈ group, choose w = choose w')
    (reworded : Reworded groups doc doc') (h : oneOf choose levels doc = .ok a) :
    oneOf choose levels doc' = .ok a := by
  have same : ∀ group ∈ groups, ∀ w ∈ group, ∀ w' ∈ group, oneOf.pick choose w = oneOf.pick choose w' :=
    fun group mem w here w' there => by rw [oneOf.pick, oneOf.pick, agree group mem w here w' there]
  cases reworded with
  | word mem here there =>
    rw [oneOf] at h ⊢
    rwa [← same _ mem _ here _ there]
  | key mem here there =>
    cases levels with
    | zero => cases h
    | succ levels =>
      simp only [oneOf, key, bind, Except.bind, same _ mem _ here _ there] at h ⊢
      exact h

theorem optional_reworded {groups : List (List String)} {o : Option α}
    (keeps : ∀ {a}, Reworded groups doc doc' → d levels doc = .ok a → d levels doc' = .ok a)
    (reworded : Reworded groups doc doc') (h : optional d levels doc = .ok o) : optional d levels doc' = .ok o := by
  have kept : ∀ {o}, (d levels doc).map some = .ok o → (d levels doc').map some = .ok o := by
    intro o h
    obtain ⟨a, found, rfl⟩ := map_ok h
    exact congrArg (Except.map some) (keeps reworded found)
  cases reworded with
  | word => exact kept h
  | key => exact kept h

end Decoder

/-! ### Slots and what is known of them -/

namespace Leeway
open Decoder
variable {ρ α : Type} {d : Decoder α} {put : α → ρ → ρ} {names : List String} {name : String} {required : Bool}
  {slot : Slot ρ} {blank : ρ} {doc : Doc}

theorem Holds.plain : ({} : Leeway).Holds slot blank := ⟨nofun, nofun, nofun, nofun, nofun⟩

/-- What is true of the values of a slot is true of the changes that they make. -/
theorem Holds.of {w : Leeway}
    (respelt : ∀ {levels doc doc' a}, w.Respelt doc doc' → d levels doc = .ok a → d levels doc' = .ok a)
    (voluntary : ∀ {doc}, w.Spare doc → required = false)
    (spare : ∀ {levels doc a}, w.Spare doc → d levels doc = .ok a → put a blank = blank)
    (null : w.Spare .null → ∀ levels, ∃ a, d levels .null = .ok a)
    (doubled : ∀ {levels doc doc' mistake a}, w.Doubled levels doc doc' mistake → d levels doc = .ok a →
      d levels doc' = .error mistake) :
    w.Holds ⟨names, required, fun levels doc => (d levels doc).map put⟩ blank where
  respelt alike set := by
    obtain ⟨a, found, rfl⟩ := map_ok set
    exact congrArg (Except.map put) (respelt alike found)
  voluntary := voluntary
  spare void set := by
    obtain ⟨a, found, rfl⟩ := map_ok set
    exact spare void found
  null void levels := by
    obtain ⟨a, found⟩ := null void levels
    exact ⟨put a, congrArg (Except.map put) found⟩
  doubled twice set := by
    obtain ⟨a, found, -⟩ := map_ok set
    exact congrArg (Except.map put) (doubled twice found)

theorem Holds.spare_only (read : ∀ {levels a}, d levels doc = .ok a → put a blank = blank) (nonnull : doc ≠ .null) :
    ({ Spare := (· = doc) } : Leeway).Holds (allow name d put) blank :=
  .of nofun (fun _ => rfl) (fun void found => read (void ▸ found)) (fun void => absurd void.symm nonnull) nofun

theorem Holds.nullable {put : Option α → ρ → ρ} (void : put none blank = blank) :
    ({ Spare := (· = .null) } : Leeway).Holds (allow name (optional d) put) blank := by
  refine .of nofun (fun _ => rfl) (fun null found => ?_) (fun _ _ => ⟨none, rfl⟩) nofun
  subst null
  obtain rfl := Except.ok.inj found
  exact void

/-- A list of records, each of which may be changed. -/
def records {σ : Type} (t : Shape σ) : Leeway where
  Respelt := ItemsEdited t.Edited
  Doubled := ItemDoubled t.DoubledIn

section
variable {σ : Type} {t : Shape σ} {put : List σ → ρ → ρ} (lawful : t.Lawful)
include lawful

theorem Holds.records : (records t).Holds (need names (list t.decoder) put) blank :=
  .of (list_edited lawful.edited) nofun nofun nofun (list_doubled lawful.doubledIn)

theorem Holds.records_or_none (void : put [] blank = blank) :
    ({ Leeway.records t with Spare := (· = .array [] none) } : Leeway).Holds (allow name (list t.decoder) put)
      blank := by
  refine .of (list_edited lawful.edited) (fun _ => rfl) (fun empty found => ?_) nofun (list_doubled lawful.doubledIn)
  subst empty
  rw [list_nil found, void]

end

end Leeway

theorem Decoder.apart_of {ρ α β : Type} {d : Decoder α} {d' : Decoder β} {put : α → ρ → ρ} {put' : β → ρ → ρ}
    {names names' : List String} {required required' : Bool}
    (h : ∀ a b r, put a (put' b r) = put' b (put a r)) :
    Apart ⟨names, required, fun levels doc => (d levels doc).map put⟩
      ⟨names', required', fun levels doc => (d' levels doc).map put'⟩ := by
  intro levels doc doc' change change' set set' r
  obtain ⟨a, -, rfl⟩ := map_ok set
  obtain ⟨b, -, rfl⟩ := map_ok set'
  exact h a b r

end StrategyForm.Json
