import StrategyForm.Proofs.Settings.ByLeaf

/-!
# What is given for a setting

Main statement (`taken_given`): whatever the variables are, also such as name a whole table or something below a
setting, a loaded setting is what its effective source has for it (`Setting.given?`). That source is the last
variable that concerns the setting; without any it is the file.

A variable for the whole table takes away what there was for its settings. One below a setting puts a table in the
setting's place, which no setting is read from.
-/

namespace StrategyForm
open Keyed (find)

namespace SettingTree

/-- No table and no list. -/
structure IsLeaf (t : SettingTree) : Prop where
  ne_table : ∀ entries, t ≠ table entries
  ne_list : ∀ items, t ≠ list items

theorem IsLeaf.entries {t : SettingTree} (h : t.IsLeaf) : t.entries = [] := by
  cases t with
  | table entries => exact absurd rfl (h.ne_table entries)
  | _ => rfl

theorem IsLeaf.written {t : SettingTree} (h : t.IsLeaf) (before : Option SettingTree) : written t [] before = t := by
  cases t with
  | table entries => exact absurd rfl (h.ne_table entries)
  | _ => rfl

theorem leaf_isLeaf (s : String) : (Environment.leaf s).IsLeaf := by
  refine ⟨Setting.leaf_ne_table s, fun items => ?_⟩
  unfold Environment.leaf
  grind

/-- What the last entry of a source makes of an entry. -/
theorem overlaid_last (key : String) (source : List (String × SettingTree)) (e : String × SettingTree)
    (before : Option SettingTree) : overlaid key (source ++ [e]) before =
      if (path e.1).head? = some key then some (written e.2 (path e.1).tail (overlaid key source before))
      else overlaid key source before := by
  rw [overlaid, List.foldl_concat]
  cases path e.1 with
  | nil => rfl
  | cons name rest => simp only [List.head?_cons, Option.some.injEq, List.tail_cons, overlaid]

end SettingTree
open SettingTree

namespace Setting

/-! ### The source that decides -/

/-- A path leads to the setting, to its table or to something below it. -/
def concerns (x : Setting) : List String → Bool
  | [] => false
  | [table] => table = x.table
  | table :: name :: _ => table = x.table && name = x.name

/-- The last entry of a source that concerns the setting. -/
def decisive? (source : List (String × SettingTree)) (x : Setting) : Option (String × SettingTree) :=
  source.reverse.find? fun e => x.concerns (path e.1)

/-- Some entry of a source sets a member of the setting's table. -/
def membersSet (source : List (String × SettingTree)) (x : Setting) : Bool :=
  source.any fun e =>
    match path e.1 with
    | table :: _ :: _ => table = x.table
    | _ => false

/-- The tree that a file has for the setting; an empty table is none. -/
def onFile? (file : List (String × SettingTree)) (oneByOne : Bool) (x : Setting) : Option SettingTree :=
  ((((SettingTree.table []).overlay file).child? x.table).bind (x.look oneByOne)).filter (!isEmptyTable ·)

/-- The tree that the effective source has for the setting. -/
def given? (file : List (String × SettingTree)) (env : Environment) (x : Setting) : Option SettingTree :=
  match x.decisive? env.settings with
  | some e => if path e.1 = [x.table, x.name] then some e.2 else none
  | none => x.onFile? file (x.membersSet env.settings)

/-- What an entry leaves under the setting's name that is the last one to concern the setting. -/
def Effect (x : Setting) (before after : Option SettingTree) : Option (String × SettingTree) → Prop
  | none => after = before
  | some e =>
    match path e.1 with
    | [_, _] => path e.1 = [x.table, x.name] ∧ after = some e.2
    | _ :: _ :: _ => ∃ entries, after = some (.table entries)
    | _ => after = none

theorem decisive?_concat (source : List (String × SettingTree)) (e : String × SettingTree) (x : Setting) :
    x.decisive? (source ++ [e]) = if x.concerns (path e.1) then some e else x.decisive? source := by
  rw [decisive?, List.reverse_append, List.reverse_singleton, List.singleton_append, List.find?_cons]
  split <;> simp_all [decisive?]

section
variable {source : List (String × SettingTree)} (leaves : ∀ e ∈ source, e.2.IsLeaf)
include leaves

theorem effect_overlaid (x : Setting) (before : Option SettingTree) :
    x.Effect ((before.getD .nothing).child? x.name)
      (((overlaid x.table source before).getD .nothing).child? x.name) (x.decisive? source) := by
  -- from the end of the source, as the last entry is the one that decides
  induction source using List.reverseRecOn with
  | nil => rfl
  | append_singleton source e ih =>
    have earlier := ih fun e member => leaves e (List.mem_append_left _ member)
    have leaf := leaves e (List.mem_append_right _ (List.mem_singleton_self e))
    rw [overlaid_last, decisive?_concat]
    match spelt : path e.1 with
    | [] => exact earlier
    | [table] =>
      rw [List.head?_cons, List.tail_cons]
      by_cases same : table = x.table
      · have decides : x.concerns [table] = true := decide_eq_true same
        rw [if_pos (congrArg some same), decides, if_pos rfl, Effect, spelt]
        show (written e.2 [] _).child? x.name = none
        rw [leaf.written, child?, leaf.entries, find]
      · have decides : x.concerns [table] = false := decide_eq_false same
        rw [if_neg fun head => same (Option.some.inj head), decides, if_neg Bool.false_ne_true]
        exact earlier
    | table :: name :: rest =>
      rw [List.head?_cons, List.tail_cons]
      by_cases same : table = x.table
      · have after : (written e.2 (name :: rest) (overlaid x.table source before)).child? x.name =
            if name = x.name then
              some (written e.2 rest (((overlaid x.table source before).getD .nothing).child? name))
            else ((overlaid x.table source before).getD .nothing).child? x.name := child?_setAt ..
        rw [if_pos (congrArg some same), Option.getD_some, after]
        by_cases own : name = x.name
        · have decides : x.concerns (table :: name :: rest) = true := by simp [concerns, same, own]
          rw [decides, if_pos rfl, if_pos own, Effect, spelt]
          cases rest with
          | nil => exact ⟨by rw [same, own], congrArg some (leaf.written _)⟩
          | cons next rest => exact ⟨_, congrArg some (setAt_cons ..)⟩
        · have decides : x.concerns (table :: name :: rest) = false := by simp [concerns, own]
          rw [decides, if_neg Bool.false_ne_true, if_neg own]
          exact earlier
      · have decides : x.concerns (table :: name :: rest) = false := by simp [concerns, same]
        rw [if_neg fun head => same (Option.some.inj head), decides, if_neg Bool.false_ne_true]
        exact earlier

/-- A table that a source writes to or over is no list after that. -/
theorem overlaid_ne_list {table : String} (touched : ∃ e ∈ source, (path e.1).head? = some table)
    (before : Option SettingTree) :
    ∃ t, overlaid table source before = some t ∧ ∀ items, t ≠ .list items := by
  induction source using List.reverseRecOn with
  | nil => simp at touched
  | append_singleton source e ih =>
    have leaf := leaves e (List.mem_append_right _ (List.mem_singleton_self e))
    rw [overlaid_last]
    by_cases head : (path e.1).head? = some table
    · rw [if_pos head]
      refine ⟨_, rfl, fun items => ?_⟩
      cases (path e.1).tail with
      | nil =>
        rw [leaf.written]
        exact leaf.ne_list items
      | cons name rest =>
        show setAt e.2 (name :: rest) _ ≠ _
        rw [setAt_cons]
        exact nofun
    · rw [if_neg head]
      refine ih (fun e member => leaves e (List.mem_append_left _ member)) ?_
      obtain ⟨e', member, head'⟩ := touched
      rcases List.mem_append.1 member with earlier | last
      · exact ⟨e', earlier, head'⟩
      · exact absurd (List.mem_singleton.1 last ▸ head') head

end

/-! ### What a setting is read from -/

theorem head?_of_concerns {x : Setting} {p : List String} (h : x.concerns p) : p.head? = some x.table := by
  match p with
  | [table] => exact congrArg some (of_decide_eq_true h)
  | table :: name :: _ => exact congrArg some (of_decide_eq_true (Bool.and_eq_true_iff.1 h).1)

theorem member?_of_ne_list {t : SettingTree} (h : ∀ items, t ≠ .list items) (name : String) (place : Nat) :
    t.member? name place = t.child? name := by
  cases t with
  | list items => exact absurd rfl (h items)
  | _ => rfl

theorem settings_leaves (env : Environment) : ∀ e ∈ env.settings, e.2.IsLeaf := by
  intro e member
  obtain ⟨v, -, given⟩ := List.mem_filterMap.1 member
  obtain ⟨key, -, rfl⟩ := Option.map_eq_some_iff.1 given
  exact leaf_isLeaf v.2

/-- An entry for the setting's table that does not concern the setting sets another member of the table. -/
theorem membersSet_of_undecided {source : List (String × SettingTree)} {x : Setting}
    (undecided : x.decisive? source = none) :
    x.membersSet source = true ↔ ∃ e ∈ source, (path e.1).head? = some x.table := by
  rw [membersSet, List.any_eq_true]
  refine exists_congr fun e => and_congr_right fun member => ?_
  have apart := List.find?_eq_none.1 undecided e (List.mem_reverse.2 member)
  match path e.1, apart with
  | [], _ => simp
  | [table], apart => simpa [concerns] using apart
  | table :: name :: rest, _ => simp

theorem read_table (x : Setting) (entries : List (String × SettingTree)) : x.read (.table entries) = none := by
  cases x <;> rfl

/-- A loaded setting is what its effective source has for it, whatever the variables are. -/
theorem taken_given {file : List (String × SettingTree)} {env : Environment} {s : Settings}
    (h : Settings.ofLayers? file env = some s) (x : Setting) :
    Taken x.read (x.value {}) (x.given? file env) (x.value s) := by
  obtain ⟨entries, layered⟩ : ∃ entries, Settings.layered file env = .table entries := by
    rw [Settings.layered, builtIn_eq]
    obtain ⟨entries, eq⟩ := overlay_table _ file
    rw [eq]
    exact overlay_table entries env.settings
  have covers := (covers_builtIn x).overlaid x.table file
  have taken := taken_of_ofTree? x ((congrArg Settings.ofTree? layered).symm.trans h)
  have entry : find x.table entries =
      overlaid x.table env.settings (overlaid x.table file (Settings.builtIn.child? x.table)) := by
    rw [← child?_overlay, ← child?_overlay]
    exact (congrArg (child? · x.table) layered).symm
  rw [entry] at taken
  generalize overlaid x.table file (Settings.builtIn.child? x.table) = before at covers taken
  have onFile (oneByOne : Bool) (taken : Taken x.read (x.value {}) (before.bind (x.look oneByOne)) (x.value s)) :
      Taken x.read (x.value {}) (x.onFile? file oneByOne) (x.value s) := by
    rw [onFile?, child?_overlay]
    exact taken_alone oneByOne covers taken
  by_cases touched : ∃ e ∈ env.settings, (path e.1).head? = some x.table
  · obtain ⟨t, after, noList⟩ := overlaid_ne_list (settings_leaves env) touched before
    have effect := effect_overlaid (settings_leaves env) x before
    rw [after, Option.getD_some, ← member?_of_ne_list noList x.name x.place] at effect
    rw [after, Option.bind_some] at taken
    cases decides : x.decisive? env.settings with
    | none =>
      rw [decides] at effect
      have left : before.bind (x.look true) = t.member? x.name x.place := by
        refine Eq.trans ?_ effect.symm
        cases before <;> rfl
      rw [given?, decides, (membersSet_of_undecided decides).2 touched]
      exact onFile true (left ▸ taken)
    | some e =>
      rw [decides, Effect] at effect
      rw [given?, decides]
      dsimp only
      split at effect
      · obtain ⟨own, given⟩ := effect
        rw [if_pos own, ← given]
        exact taken
      · obtain ⟨entries, given⟩ := effect
        rw [given] at taken
        cases (read_table x entries).symm.trans taken
      · rename_i short _
        rw [if_neg (short x.table x.name), ← effect]
        exact taken
  · have untouched : ∀ e ∈ env.settings, (path e.1).head? ≠ some x.table :=
      fun e member head => touched ⟨e, member, head⟩
    have undecided : x.decisive? env.settings = none :=
      List.find?_eq_none.2 fun e member concerns =>
        untouched e (List.mem_reverse.1 member) (head?_of_concerns concerns)
    have unset : x.membersSet env.settings = false :=
      Bool.eq_false_iff.2 (mt (membersSet_of_undecided undecided).1 touched)
    rw [overlaid_untouched _ untouched] at taken
    rw [given?, undecided, unset]
    exact onFile false taken

end Setting
end StrategyForm
