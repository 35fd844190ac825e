import Mathlib.Data.List.Basic
import StrategyForm.Settings.Load

/-!
# Records of settings, field by field

Main statements (`asRecord?_taken`, `Taken.member`): in a record that is read from a tree each field is what its own
member of the tree is read as, or the default, whatever the other members are.
-/

namespace StrategyForm.SettingTree
open Keyed (find)

variable {ρ α β : Type}

/-- A value is read from what is given for it; without anything given it is the default. -/
def Taken (read : SettingTree → Option α) (default : α) : Option SettingTree → α → Prop
  | none, v => v = default
  | some t, v => read t = some v

theorem Taken.map {read : SettingTree → Option α} {default v : α} {given : Option SettingTree}
    (h : Taken read default given v) (f : α → β) :
    Taken (fun t => (read t).map f) (f default) given (f v) := by
  cases given with
  | none => exact congrArg f h
  | some t => exact (congrArg (Option.map f) h : _)

/-- A field leaves a part of a record alone. -/
def Leaves (get : ρ → β) (s : SettingSlot ρ) : Prop :=
  ∀ t change, s.set t = some change → ∀ r, get (change r) = get r

variable {get : ρ → β} {name : String} {read : SettingTree → Option β} {put : β → ρ → ρ}
  {slots before after : List (SettingSlot ρ)} {entries : List (String × SettingTree)}
  {items : List SettingTree} {r r' : ρ}

theorem slot_leaves {read : SettingTree → Option α} {put : α → ρ → ρ}
    (h : ∀ v r, get (put v r) = get r) : Leaves get (slot name read put) := by
  rintro t change set r
  obtain ⟨v, -, rfl⟩ := Option.map_eq_some_iff.1 set
  exact h v r

theorem fill_cons (s : SettingSlot ρ) (slots : List (SettingSlot ρ)) (entries : List (String × SettingTree))
    (r : ρ) : fill (s :: slots) entries r =
      (match find s.name entries with
        | none => some r
        | some t => (s.set t).map fun change : ρ → ρ => change r).bind (fill slots entries) := rfl

theorem fillInOrder_cons (s : SettingSlot ρ) (slots : List (SettingSlot ρ)) (t : SettingTree)
    (items : List SettingTree) (r : ρ) :
    fillInOrder (s :: slots) (t :: items) r =
      ((s.set t).map fun change : ρ → ρ => change r).bind (fillInOrder slots items) := rfl

theorem fill_append (entries : List (String × SettingTree)) (r : ρ) :
    fill (before ++ after) entries r = (fill before entries r).bind (fill after entries) :=
  List.foldlM_append

theorem fill_leaves (h : slots.Forall (Leaves get)) (filled : fill slots entries r = some r') :
    get r' = get r := by
  induction slots generalizing r with
  | nil => obtain rfl := Option.some.inj filled; rfl
  | cons s slots ih =>
    obtain ⟨here, rest⟩ := (List.forall_cons _ _ _).1 h
    rw [fill_cons] at filled
    obtain ⟨r₁, first, filled⟩ := Option.bind_eq_some_iff.1 filled
    rw [ih rest filled]
    split at first
    · obtain rfl := Option.some.inj first; rfl
    · obtain ⟨change, set, rfl⟩ := Option.map_eq_some_iff.1 first
      exact here _ change set r

theorem fillInOrder_leaves (h : slots.Forall (Leaves get)) (filled : fillInOrder slots items r = some r') :
    get r' = get r := by
  induction slots generalizing items r with
  | nil => obtain rfl := Option.some.inj filled; rfl
  | cons s slots ih =>
    cases items with
    | nil => obtain rfl := Option.some.inj filled; rfl
    | cons t items =>
      obtain ⟨here, rest⟩ := (List.forall_cons _ _ _).1 h
      rw [fillInOrder_cons] at filled
      obtain ⟨r₁, first, filled⟩ := Option.bind_eq_some_iff.1 filled
      obtain ⟨change, set, rfl⟩ := Option.map_eq_some_iff.1 first
      rw [ih rest filled, here t change set]

theorem fill_taken (get : ρ → β) (before after : List (SettingSlot ρ))
    (filled : fill (before ++ slot name read put :: after) entries r = some r')
    (own : ∀ v r, get (put v r) = v) (others : before.Forall (Leaves get))
    (others' : after.Forall (Leaves get)) :
    Taken read (get r) (find name entries) (get r') := by
  rw [fill_append] at filled
  obtain ⟨r₁, first, filled⟩ := Option.bind_eq_some_iff.1 filled
  rw [fill_cons] at filled
  obtain ⟨r₂, here, filled⟩ := Option.bind_eq_some_iff.1 filled
  rw [fill_leaves others' filled, ← fill_leaves others first]
  show Taken read (get r₁) (find (slot name read put).name entries) (get r₂)
  cases given : find (slot name read put).name entries with
  | none => rw [given] at here; obtain rfl := Option.some.inj here; rfl
  | some t =>
    rw [given] at here
    obtain ⟨change, set, rfl⟩ := Option.map_eq_some_iff.1 here
    obtain ⟨v, reads, rfl⟩ := Option.map_eq_some_iff.1 set
    show read t = some (get (put v r₁))
    rw [own, reads]

theorem fillInOrder_taken (get : ρ → β) (before after : List (SettingSlot ρ))
    (filled : fillInOrder (before ++ slot name read put :: after) items r = some r')
    (own : ∀ v r, get (put v r) = v) (others : before.Forall (Leaves get))
    (others' : after.Forall (Leaves get)) :
    Taken read (get r) items[before.length]? (get r') := by
  induction before generalizing items r with
  | nil =>
    cases items with
    | nil => obtain rfl := Option.some.inj filled; rfl
    | cons t items =>
      rw [List.nil_append, fillInOrder_cons] at filled
      obtain ⟨r₁, first, filled⟩ := Option.bind_eq_some_iff.1 filled
      obtain ⟨change, set, rfl⟩ := Option.map_eq_some_iff.1 first
      obtain ⟨v, reads, rfl⟩ := Option.map_eq_some_iff.1 set
      show read t = some (get r')
      rw [fillInOrder_leaves others' filled, own, reads]
  | cons s before ih =>
    cases items with
    | nil => obtain rfl := Option.some.inj filled; rfl
    | cons t items =>
      obtain ⟨here, rest⟩ := (List.forall_cons _ _ _).1 others
      rw [List.cons_append, fillInOrder_cons] at filled
      obtain ⟨r₁, first, filled⟩ := Option.bind_eq_some_iff.1 filled
      obtain ⟨change, set, rfl⟩ := Option.map_eq_some_iff.1 first
      have later := ih filled rest
      rw [here t change set] at later
      exact later

/-- The member of a table, or of a list by its place. -/
def member? (name : String) (place : Nat) : SettingTree → Option SettingTree
  | list items => items[place]?
  | t => t.child? name

theorem asRecord?_taken (get : ρ → β) (before after : List (SettingSlot ρ)) {blank : ρ} {t : SettingTree}
    (h : asRecord? (before ++ slot name read put :: after) blank t = some r)
    (own : ∀ v r, get (put v r) = v) (others : before.Forall (Leaves get))
    (others' : after.Forall (Leaves get)) :
    Taken read (get blank) (t.member? name before.length) (get r) := by
  cases t with
  | table entries => exact fill_taken get before after h own others others'
  | list items => exact fillInOrder_taken get before after h own others others'
  | _ => cases h

/-- The same of a record that is a field itself. -/
theorem Taken.member (get : ρ → β) (before after : List (SettingSlot ρ)) {blank : ρ}
    {given : Option SettingTree}
    (h : Taken (asRecord? (before ++ slot name read put :: after) blank) blank given r)
    (own : ∀ v r, get (put v r) = v) (others : before.Forall (Leaves get))
    (others' : after.Forall (Leaves get)) :
    Taken read (get blank) (given.bind (·.member? name before.length)) (get r) := by
  cases given with
  | none => exact congrArg get h
  | some t => exact asRecord?_taken get before after h own others others'

end StrategyForm.SettingTree
