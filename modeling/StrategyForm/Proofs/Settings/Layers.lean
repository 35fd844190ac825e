import StrategyForm.Settings.Load

/-!
# Layers of settings

What laying a source over a tree does to the entry under one key (`child?_overlay`), so that each table of
settings can be looked at for itself.

Main statement (`Covers.overlaid`): laid over built-in leaves, a source leaves the same entries as laid over
nothing, but for built-in leaves of which the source has nothing. An empty table in the place of such a leaf
is as good as nothing.
-/

namespace StrategyForm

theorem Keyed.find_eq_none_of_notMem {β : Type} {key : String} {entries : List (String × β)}
    (h : key ∉ entries.map (·.1)) : find key entries = none := by
  induction entries with
  | nil => rfl
  | cons e rest ih =>
    obtain ⟨other, others⟩ := not_or.1 (mt List.mem_cons.2 h)
    rw [find, if_neg (Ne.symm other), ih others]

namespace SettingTree
open Keyed (find put find_put)

variable {root root' value : SettingTree} {key : String}

/-! ### What is written depends on the entries alone -/

theorem child?_of_entries (h : root.entries = root'.entries) (key : String) :
    root.child? key = root'.child? key := by
  rw [child?, child?, h]

theorem set_of_entries (h : root.entries = root'.entries) (key : String) (value : SettingTree) :
    set key root value = set key root' value := by
  cases value with
  | table incoming => rw [set, set, child?_of_entries h, h]
  | _ => simp only [set, h]

theorem merge_of_entries (h : root.entries = root'.entries) {incoming : List (String × SettingTree)}
    (some : incoming ≠ []) : merge root incoming = merge root' incoming := by
  cases incoming with
  | nil => exact absurd rfl some
  | cons e rest => rw [merge, merge, set_of_entries h]

theorem setAt_of_entries (h : root.entries = root'.entries) (value : SettingTree) (name : String)
    (rest : List String) : setAt value (name :: rest) root = setAt value (name :: rest) root' := by
  cases rest with
  | nil => exact set_of_entries h name value
  | cons next rest => simp only [setAt, child?_of_entries h, h]

/-! ### One entry -/

/-- What a value makes of the entry under the first name of a path, by the rest of the path. -/
def written (value : SettingTree) : List String → Option SettingTree → SettingTree
  | [], before =>
    match value with
    | table incoming => merge (before.getD (table [])) incoming
    | leaf => leaf
  | next :: rest, before => setAt value (next :: rest) (before.getD nothing)

theorem setAt_cons (value : SettingTree) (name : String) (rest : List String) (root : SettingTree) :
    setAt value (name :: rest) root =
      table (put name (written value rest (root.child? name)) root.entries) := by
  cases rest with
  | nil => cases value <;> rfl
  | cons next rest => rfl

theorem child?_setAt (value : SettingTree) (name : String) (rest : List String) (root : SettingTree)
    (key : String) : (setAt value (name :: rest) root).child? key =
      if name = key then some (written value rest (root.child? name)) else root.child? key := by
  rw [setAt_cons, child?, entries, find_put]
  rfl

theorem merge_cons (t : SettingTree) (e : String × SettingTree) (rest : List (String × SettingTree)) :
    merge t (e :: rest) = merge (setAt e.2 [e.1] t) rest := rfl

/-- Nothing is as good as an empty table. -/
theorem written_getD (value : SettingTree) (rest : List String) (before : Option SettingTree) :
    written value rest (some (before.getD (table []))) = written value rest before := by
  cases before with
  | some t => rfl
  | none =>
    cases rest with
    | nil => rfl
    | cons next rest =>
      have bare : (table []).entries = nothing.entries := rfl
      exact setAt_of_entries bare value next rest

/-- What a source makes of the entry under a key. -/
def overlaid (key : String) (source : List (String × SettingTree)) (before : Option SettingTree) :
    Option SettingTree :=
  source.foldl
    (fun before e =>
      match path e.1 with
      | [] => before
      | name :: rest => if name = key then some (written e.2 rest before) else before)
    before

theorem child?_overlay (root : SettingTree) (source : List (String × SettingTree)) (key : String) :
    (root.overlay source).child? key = overlaid key source (root.child? key) := by
  unfold overlay overlaid
  induction source generalizing root with
  | nil => rfl
  | cons e rest ih =>
    rw [List.foldl_cons, List.foldl_cons, ih]
    congr 1
    obtain ⟨spelt, value⟩ := e
    show (setAt value (path spelt) root).child? key = _
    cases path spelt with
    | nil => rfl
    | cons name names =>
      refine (child?_setAt value name names root key).trans ?_
      by_cases same : name = key
      · simp only [same]
      · simp only [if_neg same]

/-! ### Sources with one entry to a key -/

theorem overlaid_untouched (source : List (String × SettingTree))
    (others : ∀ e ∈ source, (path e.1).head? ≠ some key) (before : Option SettingTree) :
    overlaid key source before = before := by
  unfold overlaid
  induction source generalizing before with
  | nil => rfl
  | cons e rest ih =>
    have other := others e List.mem_cons_self
    rw [List.foldl_cons, ih fun e member => others e (List.mem_cons_of_mem _ member)]
    split
    · rfl
    · rename_i name names spelt
      rw [spelt] at other
      exact if_neg fun same => other (congrArg some same)

theorem overlaid_of_plain {source : List (String × SettingTree)} (distinct : (source.map (·.1)).Nodup)
    (plain : ∀ e ∈ source, (path e.1).head? = some key → e.1 = key) (single : path key = [key]) :
    overlaid key source none = (find key source).map fun value => written value [] none := by
  induction source with
  | nil => rfl
  | cons e rest ih =>
    obtain ⟨fresh, distinct⟩ := List.nodup_cons.1 distinct
    have plain' := fun e member => plain e (List.mem_cons_of_mem _ member)
    rw [find]
    by_cases same : e.1 = key
    · rw [if_pos same, Option.map_some]
      have others : ∀ e ∈ rest, (path e.1).head? ≠ some key := by
        intro e' member touches
        have again : e'.1 = e.1 := (plain' e' member touches).trans same.symm
        exact fresh (List.mem_map.2 ⟨e', member, again⟩)
      rw [overlaid, List.foldl_cons, same, single]
      simp only [if_pos]
      exact overlaid_untouched rest others _
    · rw [if_neg same, ← ih distinct plain']
      have other := overlaid_untouched [e] (fun e' member touches =>
        same (plain e List.mem_cons_self (List.mem_singleton.1 member ▸ touches))) none
      rw [overlaid, List.foldl_cons]
      exact congrArg (overlaid key rest) other

theorem child?_merge {members : List (String × SettingTree)} (distinct : (members.map (·.1)).Nodup)
    (t : SettingTree) (key : String) : (merge t members).child? key =
      match find key members with
      | none => t.child? key
      | some value => some (written value [] (t.child? key)) := by
  induction members generalizing t with
  | nil => rw [merge, find]
  | cons e rest ih =>
    obtain ⟨fresh, distinct⟩ := List.nodup_cons.1 distinct
    rw [merge_cons, ih distinct, child?_setAt, find]
    by_cases same : e.1 = key
    · subst same
      rw [Keyed.find_eq_none_of_notMem fresh, if_pos rfl, if_pos rfl]
    · rw [if_neg same, if_neg same]

theorem merge_table (entries members : List (String × SettingTree)) :
    ∃ entries', merge (table entries) members = table entries' := by
  induction members generalizing entries with
  | nil => exact ⟨entries, rfl⟩
  | cons e rest ih =>
    rw [merge_cons, setAt_cons]
    exact ih _

/-! ### Over built-in leaves and over nothing -/

/-- `laid` and `alone` are what a source leaves of a built-in entry and of nothing: the same, or the source
has nothing to put in the place of the built-in leaf. -/
def Beside (builtIn laid alone : Option SettingTree) : Prop :=
  laid = alone ∨
    ∃ leaf, builtIn = some leaf ∧ leaf.entries = [] ∧ laid = some leaf ∧ alone.getD (table []) = table []

theorem Beside.written {builtIn laid alone : Option SettingTree} (h : Beside builtIn laid alone)
    (value : SettingTree) (rest : List String) :
    Beside builtIn (some (written value rest laid)) (some (written value rest alone)) := by
  rcases h with rfl | ⟨leaf, given, bare, rfl, empty⟩
  · exact .inl rfl
  · rw [← written_getD value rest alone, empty]
    cases rest with
    | cons next rest => exact .inl (congrArg some (setAt_of_entries bare value next rest))
    | nil =>
      cases value with
      | table incoming =>
        -- an empty table leaves the leaf on one side and is all there is on the other
        cases incoming with
        | nil => exact .inr ⟨leaf, given, bare, rfl, rfl⟩
        | cons e rest => exact .inl (congrArg some (merge_of_entries bare (List.cons_ne_nil e rest)))
      | _ => exact .inl rfl

/-- The same of a whole table, `base` being the built-in one. -/
def Covers (base laid alone : Option SettingTree) : Prop :=
  laid = alone ∨
    ∃ t t', laid = some (table t) ∧ alone.getD (table []) = table t' ∧
      ∀ key, Beside (base.bind (·.child? key)) (find key t) (find key t')

namespace Covers
variable {base laid alone : Option SettingTree}

theorem setAt (t t' : SettingTree)
    (h : ∀ key, Beside (base.bind (·.child? key)) (t.child? key) (t'.child? key)) (value : SettingTree)
    (name : String) (rest : List String) (key : String) :
    Beside (base.bind (·.child? key)) ((setAt value (name :: rest) t).child? key)
      ((SettingTree.setAt value (name :: rest) t').child? key) := by
  rw [child?_setAt, child?_setAt]
  by_cases same : name = key
  · subst same
    rw [if_pos rfl, if_pos rfl]
    exact (h name).written value rest
  · rw [if_neg same, if_neg same]
    exact h key

theorem merge {t t' : List (String × SettingTree)}
    (h : ∀ key, Beside (base.bind (·.child? key)) (find key t) (find key t'))
    (incoming : List (String × SettingTree)) :
    Covers base (some (merge (table t) incoming)) (some (SettingTree.merge (table t') incoming)) := by
  induction incoming generalizing t t' with
  | nil => exact .inr ⟨t, t', rfl, rfl, h⟩
  | cons e rest ih =>
    have next := setAt (table t) (table t') h e.2 e.1 []
    rw [setAt_cons, setAt_cons] at next
    rw [merge_cons, merge_cons, setAt_cons, setAt_cons]
    exact ih next

theorem written (h : Covers base laid alone) (value : SettingTree) (rest : List String) :
    Covers base (some (written value rest laid)) (some (written value rest alone)) := by
  rcases h with rfl | ⟨t, t', rfl, table', beside⟩
  · exact .inl rfl
  · rw [← written_getD value rest alone, table']
    cases rest with
    | cons next rest =>
      have after := setAt (table t) (table t') beside value next rest
      refine .inr ⟨_, _, congrArg some (setAt_cons value next rest (table t)),
        setAt_cons value next rest (table t'), ?_⟩
      rw [setAt_cons, setAt_cons] at after
      exact after
    | nil =>
      cases value with
      | table incoming => exact merge beside incoming
      | _ => exact .inl rfl

theorem overlaid (h : Covers base laid alone) (key : String) (source : List (String × SettingTree)) :
    Covers base (overlaid key source laid) (overlaid key source alone) := by
  unfold SettingTree.overlaid
  induction source generalizing laid alone with
  | nil => exact h
  | cons e rest ih =>
    rw [List.foldl_cons, List.foldl_cons]
    apply ih
    cases path e.1 with
    | nil => exact h
    | cons name names =>
      by_cases same : name = key
      · simp only [if_pos same]
        exact h.written e.2 names
      · simp only [if_neg same]
        exact h

/-- Before anything is laid over them, built-in leaves stand for what nothing else says. -/
theorem ofLeaves {base : List (String × SettingTree)} (leaves : ∀ e ∈ base, e.2.entries = []) :
    Covers (some (table base)) (some (table base)) none := by
  refine .inr ⟨base, [], rfl, rfl, fun key => ?_⟩
  show Beside (find key base) (find key base) none
  induction base with
  | nil => exact .inl rfl
  | cons e rest ih =>
    rw [find]
    by_cases same : e.1 = key
    · rw [if_pos same]
      exact .inr ⟨e.2, rfl, leaves e List.mem_cons_self, rfl, rfl⟩
    · rw [if_neg same]
      exact ih fun e member => leaves e (List.mem_cons_of_mem _ member)

end Covers

end SettingTree
end StrategyForm
