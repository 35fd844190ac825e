import Mathlib.Data.List.Nodup
import StrategyForm.Keyed

/-!
# Maps gathered from entries

Of several entries of a key the last one stays (`get?_insertAll_reverse`). Entries with a key each may be
gathered in any order (`insertAll_perm`), since inserting under two different keys commutes; so the entries
of a map make that map in whatever order they are written (`ofList_perm`).
-/

namespace StrategyForm

namespace Keyed
variable {β : Type}

theorem find_append (key : String) (l l' : List (String × β)) :
    find key (l ++ l') = (find key l).or (find key l') := by
  induction l with
  | nil => rfl
  | cons e rest ih =>
    simp only [List.cons_append, find]
    split
    · rfl
    · exact ih

theorem find_of_mem {entries : List (String × β)} (own : (entries.map (·.1)).Nodup) {e : String × β}
    (mem : e ∈ entries) : find e.1 entries = some e.2 := by
  induction entries with
  | nil => cases mem
  | cons a rest ih =>
    obtain ⟨other, own⟩ := List.nodup_cons.1 own
    rcases List.mem_cons.1 mem with rfl | mem
    · rw [find, if_pos rfl]
    · have differ : a.1 ≠ e.1 := fun same => other (List.mem_map.2 ⟨e, mem, same.symm⟩)
      rw [find, if_neg differ]
      exact ih own mem

/-- The last entry of a key is the one that stays. -/
theorem get?_insertAll_reverse (m : Keyed β) (entries : List (String × β)) (key : String) :
    (m.insertAll entries).get? key = (find key entries.reverse).or (m.get? key) := by
  induction entries generalizing m with
  | nil => rfl
  | cons e rest ih =>
    show ((m.insert e.1 e.2).insertAll rest).get? key = _
    rw [ih, get?_insert, List.reverse_cons, find_append, Option.or_assoc]
    congr 1
    simp only [find]
    split <;> rfl

theorem get?_override (m n : Keyed β) (key : String) :
    (m.override n).get? key = (n.get? key).or (m.get? key) :=
  get?_insertAll n.sorted m key

theorem insert_comm (m : Keyed β) {e e' : String × β} (h : e.1 = e'.1 → e = e') :
    (m.insert e.1 e.2).insert e'.1 e'.2 = (m.insert e'.1 e'.2).insert e.1 e.2 := by
  by_cases same : e.1 = e'.1
  · rw [h same]
  · refine ext fun key => ?_
    simp only [get?_insert]
    by_cases here : e'.1 = key
    · rw [if_pos here, if_neg fun there => same (there.trans here.symm), if_pos here]
    · rw [if_neg here, if_neg here]

/-- Entries with a key each may come in any order. -/
theorem insertAll_perm {entries entries' : List (String × β)} (perm : entries.Perm entries')
    (own : (entries.map (·.1)).Nodup) (m : Keyed β) : m.insertAll entries = m.insertAll entries' :=
  perm.foldl_eq' (fun _ mem _ mem' m =>
    insert_comm m fun same => List.inj_on_of_nodup_map own mem mem' same) m

/-- The entries of a map make that map, in whatever order they come. -/
theorem ofList_perm {m : Keyed β} {entries : List (String × β)} (perm : entries.Perm m.entries) :
    ofList entries = m := by
  have own : (entries.map (·.1)).Nodup := (perm.map Prod.fst).nodup_iff.2 m.nodup_keys
  calc
    ofList entries = ofList m.entries := insertAll_perm perm own _
    _ = m := ofList_entries m

end Keyed

end StrategyForm
