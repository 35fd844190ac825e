import Mathlib.Data.List.Induction
import StrategyForm.Proofs.Cache.LookUp

/-!
# Dividing ids into cached and missing ones

Main statement (`partition_partitions`): every id of a list is either cached or missing and no other id is, the
cached ones have a valid entry and come with what it holds, the missing ones stand in the order in which they
first occur, and each id that is divided counts as one look-up, however often it occurs.

That an id is divided once is `partition_spec`. The order is an invariant of the loop: what is missing so far
stands in the order of first occurrence in the part of the list that was read.
-/

namespace StrategyForm.Cache

variable (c : Cache) (now : Nat)

/-- There is an entry with this fragment, younger than the time to live. -/
def HasValid (id : String) (f : Fragment) : Prop :=
  ∃ e, c.fragments.entries.get? id = some e ∧ e.value = f ∧ now - e.storedAt < c.ttl

theorem fragment?_eq_some_iff (id : String) (f : Fragment) :
    c.fragment? now id = some f ↔ c.HasValid now id f := by
  constructor
  · intro found
    obtain ⟨e, there, young, holds⟩ := Store.get?_eq_some found
    exact ⟨e, there, holds, young⟩
  · rintro ⟨e, there, rfl, young⟩
    rw [fragment?, Store.get?, there]
    simp [Store.isFresh, Option.filter, young]

/-- A list of ids told apart: those with a valid fragment, with it, and those without any. -/
structure Partitions (ids : List String) (p : Partition) : Prop where
  covers : ∀ id, id ∈ ids ↔ id ∈ p.cached.keys ∨ id ∈ p.missing
  disjoint : ∀ id ∈ p.cached.keys, id ∉ p.missing
  cached : ∀ id f, p.cached.get? id = some f ↔ id ∈ ids ∧ c.HasValid now id f
  missing : ∀ id, id ∈ p.missing ↔ id ∈ ids ∧ ∀ f, ¬ c.HasValid now id f
  nodup : p.missing.Nodup
  /-- Of two missing ids the one that occurs first in the list stands first. -/
  ordered : p.missing.Pairwise fun a b => ids.idxOf a < ids.idxOf b

variable {c now} {ids : List String} {x : Cache × Partition}

namespace Divided

theorem mem_keys_iff (h : Divided c now ids x) (id : String) :
    id ∈ x.2.cached.keys ↔ id ∈ ids ∧ (c.fragment? now id).isSome := by
  rw [Keyed.mem_keys_iff, Keyed.contains, h.cached]
  split <;> simp [*]

theorem size_cached (h : Divided c now ids x) :
    x.2.cached.size = ids.dedup.countP (c.fragment? now · |>.isSome) := by
  rw [← Keyed.length_keys, List.countP_eq_length_filter]
  refine List.Perm.length_eq ?_
  refine (List.perm_ext_iff_of_nodup x.2.cached.nodup_keys ((List.nodup_dedup ids).filter _)).2 fun id => ?_
  rw [h.mem_keys_iff, List.mem_filter, List.mem_dedup]

theorem length_missing (h : Divided c now ids x) :
    x.2.missing.length = ids.dedup.countP (c.fragment? now · |>.isNone) := by
  rw [List.countP_eq_length_filter]
  refine List.Perm.length_eq ?_
  refine (List.perm_ext_iff_of_nodup h.nodup ((List.nodup_dedup ids).filter _)).2 fun id => ?_
  rw [h.missing, List.mem_filter, List.mem_dedup, Option.isNone_iff_eq_none]

/-- The look-ups that were answered are those of the cached ids, the others those of the missing ones. -/
theorem counted_parts (h : Divided c now ids x) : x.1 = { c with
    hits := c.hits + x.2.cached.size
    misses := c.misses + x.2.missing.length } := by
  rw [h.size_cached, h.length_missing]
  exact h.counted

end Divided

theorem partition_concat (c : Cache) (now : Nat) (ids : List String) (id : String) :
    c.partition now (ids ++ [id]) = divide now (c.partition now ids) id :=
  List.foldl_concat ..

/-- Nothing is missing that was not, but perhaps the id that is read, at the end and if it is new. -/
theorem divide_missing (h : Divided c now ids x) (id : String) :
    (divide now x id).2.missing = x.2.missing ∨
      id ∉ ids ∧ (divide now x id).2.missing = x.2.missing ++ [id] := by
  have known := h.known_iff id
  simp only [divide]
  split
  · exact .inl rfl
  · rename_i unseen
    have fresh : id ∉ ids := fun mem => unseen (known.2 mem)
    split
    · exact .inl rfl
    · exact .inr ⟨fresh, rfl⟩

theorem missing_ordered (c : Cache) (now : Nat) (ids : List String) :
    (c.partition now ids).2.missing.Pairwise fun a b => ids.idxOf a < ids.idxOf b := by
  -- from the end of the list, as the part that was read decides what is first
  induction ids using List.reverseRecOn with
  | nil => exact .nil
  | append_singleton ids id ih =>
    have divided := partition_spec c now ids
    have read : ∀ k ∈ (c.partition now ids).2.missing, k ∈ ids := fun k mem => ((divided.missing k).1 mem).1
    have kept : (c.partition now ids).2.missing.Pairwise
        fun a b => (ids ++ [id]).idxOf a < (ids ++ [id]).idxOf b := by
      refine ih.imp_of_mem fun {a b} ha hb before => ?_
      rwa [List.idxOf_append_of_mem (read a ha), List.idxOf_append_of_mem (read b hb)]
    rw [partition_concat]
    rcases divide_missing divided id with same | ⟨fresh, more⟩
    · rwa [same]
    · rw [more]
      refine List.pairwise_append.2 ⟨kept, List.pairwise_singleton .., fun a ha b hb => ?_⟩
      obtain rfl := List.mem_singleton.1 hb
      rw [List.idxOf_append_of_mem (read a ha), List.idxOf_append_of_notMem fresh]
      exact Nat.lt_add_right _ (List.idxOf_lt_length_iff.2 (read a ha))

/-- Dividing a list of ids is a partition of it, and counts one look-up for each id in it. -/
theorem partition_partitions (c : Cache) (now : Nat) (ids : List String) :
    Partitions c now ids (c.partition now ids).2 ∧
    (c.partition now ids).1 = { c with
      hits := c.hits + (c.partition now ids).2.cached.size
      misses := c.misses + (c.partition now ids).2.missing.length } := by
  have divided := partition_spec c now ids
  have invalid (id : String) : c.fragment? now id = none ↔ ∀ f, ¬ c.HasValid now id f := by
    simp only [Option.eq_none_iff_forall_ne_some, ne_eq, fragment?_eq_some_iff]
  refine ⟨?_, divided.counted_parts⟩
  exact {
    covers := fun id => by
      rw [divided.mem_keys_iff, divided.missing, ← and_or_left]
      cases c.fragment? now id <;> simp
    disjoint := fun id cached missing => by
      have valid := ((divided.mem_keys_iff id).1 cached).2
      rw [((divided.missing id).1 missing).2] at valid
      cases valid
    cached := fun id f => by
      rw [divided.cached, ← fragment?_eq_some_iff]
      by_cases mem : id ∈ ids <;> simp [mem]
    missing := fun id => by rw [divided.missing, invalid]
    nodup := divided.nodup
    ordered := missing_ordered c now ids }

end StrategyForm.Cache
