import Mathlib.Data.List.Dedup
import StrategyForm.Cache

/-!
# Looking things up in the cache

A look-up changes nothing but the two counters. Dividing a list of fragment ids
(`Cache.partition_spec`) puts every id of the list among the missing ones or, with its valid
fragment, among the cached ones. What all entries satisfy (`Cache.All`) every operation preserves,
if what is put in the cache satisfies it.
-/

namespace StrategyForm

/-- A value that is looked up stands in the store and is younger than the time to live. -/
theorem Store.get?_eq_some {α : Type} {s : Store α} {ttl now : Nat} {id : String} {value : α}
    (h : s.get? ttl now id = some value) :
    ∃ e, s.entries.get? id = some e ∧ now - e.storedAt < ttl ∧ e.value = value := by
  obtain ⟨e, he, rfl⟩ := Option.map_eq_some_iff.1 h
  obtain ⟨he, fresh⟩ := Option.filter_eq_some_iff.1 he
  exact ⟨e, he, by simpa [isFresh] using fresh, rfl⟩

namespace Cache

variable (c : Cache) (now : Nat)

theorem count_eq (hit : Bool) : ∃ hits misses, c.count hit = { c with hits, misses } := by
  cases hit
  · exact ⟨c.hits, c.misses + 1, rfl⟩
  · exact ⟨c.hits + 1, c.misses, rfl⟩

theorem getSchema_eq (id : String) : ∃ hits misses, (c.getSchema now id).1 = { c with hits, misses } :=
  count_eq c _

@[simp] theorem getSchema_schemas (id : String) : (c.getSchema now id).1.schemas = c.schemas := by
  obtain ⟨_, _, h⟩ := getSchema_eq c now id
  rw [h]

@[simp] theorem getSchema_fragments (id : String) : (c.getSchema now id).1.fragments = c.fragments := by
  obtain ⟨_, _, h⟩ := getSchema_eq c now id
  rw [h]

theorem getFragment_eq (id : String) : ∃ hits misses, (c.getFragment now id).1 = { c with hits, misses } :=
  count_eq c _

@[simp] theorem getFragment_schemas (id : String) : (c.getFragment now id).1.schemas = c.schemas := by
  obtain ⟨_, _, h⟩ := getFragment_eq c now id
  rw [h]

@[simp] theorem getFragment_fragments (id : String) :
    (c.getFragment now id).1.fragments = c.fragments := by
  obtain ⟨_, _, h⟩ := getFragment_eq c now id
  rw [h]

/-! ### Dividing a list of ids -/

/-- What a list of ids has been divided into: each id was looked up once, and nothing but the counters
of the cache changed. -/
structure Divided (ids : List String) (x : Cache × Partition) : Prop where
  counted : x.1 = { c with
    hits := c.hits + ids.dedup.countP (c.fragment? now · |>.isSome)
    misses := c.misses + ids.dedup.countP (c.fragment? now · |>.isNone) }
  cached : ∀ id, x.2.cached.get? id = if id ∈ ids then c.fragment? now id else none
  missing : ∀ id, id ∈ x.2.missing ↔ id ∈ ids ∧ c.fragment? now id = none
  nodup : x.2.missing.Nodup

namespace Divided
variable {c now} {ids : List String} {x : Cache × Partition}

theorem valid (h : Divided c now ids x) {id : String} {f : Fragment}
    (cached : x.2.cached.get? id = some f) : c.fragment? now id = some f := by
  rw [h.cached] at cached
  split at cached
  · exact cached
  · cases cached

theorem covered (h : Divided c now ids x) {id : String} (mem : id ∈ ids) :
    (∃ f, x.2.cached.get? id = some f) ∨ id ∈ x.2.missing := by
  cases found : c.fragment? now id with
  | some f => exact .inl ⟨f, by rw [h.cached, if_pos mem, found]⟩
  | none => exact .inr ((h.missing id).2 ⟨mem, found⟩)

theorem known_iff (h : Divided c now ids x) (id : String) :
    (x.2.cached.contains id || x.2.missing.contains id) = true ↔ id ∈ ids := by
  simp only [Bool.or_eq_true, Keyed.contains, List.contains_iff_mem, Option.isSome_iff_exists]
  constructor
  · rintro (⟨f, hf⟩ | hm)
    · rw [h.cached] at hf
      by_contra no
      rw [if_neg no] at hf
      cases hf
    · exact ((h.missing id).1 hm).1
  · exact h.covered

theorem empty : Divided c now [] (c, {}) := ⟨rfl, fun _ => rfl, by simp, .nil⟩

theorem divide (h : Divided c now ids x) (id : String) : Divided c now (id :: ids) (divide now x id) := by
  have same : x.1.fragment? now id = c.fragment? now id := by rw [h.counted]; rfl
  have known := h.known_iff id
  simp only [Cache.divide, getFragment, same]
  split
  · rename_i seen
    have mem := known.1 seen
    refine ⟨?_, fun k => ?_, fun k => ?_, h.nodup⟩
    · rw [List.dedup_cons_of_mem mem]
      exact h.counted
    · rw [h.cached]
      by_cases e : k = id
      · rw [e, if_pos mem, if_pos List.mem_cons_self]
      · simp only [List.mem_cons, e, false_or]
    · rw [h.missing, List.mem_cons]
      constructor
      · exact fun ⟨hk, free⟩ => ⟨.inr hk, free⟩
      · rintro ⟨rfl | hk, free⟩
        · exact ⟨mem, free⟩
        · exact ⟨hk, free⟩
  · rename_i unseen
    have fresh : id ∉ ids := fun mem => unseen (known.2 mem)
    have dedup := List.dedup_cons_of_notMem fresh
    cases found : c.fragment? now id with
    | some f =>
      refine ⟨?_, fun k => ?_, fun k => ?_, h.nodup⟩
      · simp [count, h.counted, dedup, found, Nat.add_assoc]
      · rw [Keyed.get?_insert, h.cached]
        by_cases e : id = k
        · rw [if_pos e, ← e, if_pos List.mem_cons_self, found]
        · simp [e, Ne.symm e]
      · rw [h.missing, List.mem_cons]
        constructor
        · exact fun ⟨hk, free⟩ => ⟨.inr hk, free⟩
        · rintro ⟨rfl | hk, free⟩
          · rw [found] at free
            cases free
          · exact ⟨hk, free⟩
    | none =>
      refine ⟨?_, fun k => ?_, fun k => ?_, ?_⟩
      · simp [count, h.counted, dedup, found, Nat.add_assoc]
      · rw [h.cached]
        by_cases e : k = id
        · rw [e, if_neg fresh, if_pos List.mem_cons_self, found]
        · simp [e]
      · rw [List.mem_append, h.missing, List.mem_singleton, List.mem_cons]
        constructor
        · rintro (⟨hk, free⟩ | rfl)
          · exact ⟨.inr hk, free⟩
          · exact ⟨.inl rfl, found⟩
        · rintro ⟨rfl | hk, free⟩
          · exact .inr rfl
          · exact .inl ⟨hk, free⟩
      · refine List.nodup_append.2 ⟨h.nodup, List.nodup_singleton id, fun k hk k' hk' e => ?_⟩
        rw [e, List.mem_singleton.1 hk'] at hk
        exact fresh ((h.missing id).1 hk).1

theorem foldl (h : Divided c now ids x) (more : List String) :
    Divided c now (more.reverse ++ ids) (more.foldl (Cache.divide now) x) := by
  induction more generalizing ids x with
  | nil => exact h
  | cons id rest ih => simpa using ih (h.divide id)

theorem perm (h : Divided c now ids x) {ids' : List String} (p : ids.Perm ids') :
    Divided c now ids' x := by
  refine ⟨?_, fun id => ?_, fun id => ?_, h.nodup⟩
  · rw [← p.dedup.countP_eq, ← p.dedup.countP_eq]
    exact h.counted
  · rw [h.cached]
    simp only [p.mem_iff]
  · rw [h.missing, p.mem_iff]

end Divided

/-- Every id of the list is missing or cached, and the cached ones come with their valid fragment. -/
theorem partition_spec (ids : List String) : Divided c now ids (c.partition now ids) := by
  refine (Divided.empty.foldl ids).perm ?_
  rw [List.append_nil]
  exact List.reverse_perm ids

@[simp] theorem partition_schemas (ids : List String) : (c.partition now ids).1.schemas = c.schemas := by
  rw [(partition_spec c now ids).counted]

@[simp] theorem partition_fragments (ids : List String) :
    (c.partition now ids).1.fragments = c.fragments := by
  rw [(partition_spec c now ids).counted]

end Cache

/-! ### What all entries satisfy -/

/-- Every entry satisfies a property together with its id. -/
def Store.All {α : Type} (P : String → Entry α → Prop) (s : Store α) : Prop :=
  ∀ id e, s.entries.get? id = some e → P id e

namespace Store.All
variable {α : Type} {P Q : String → Entry α → Prop} {s : Store α}

theorem empty (P : String → Entry α → Prop) : All P {} := fun _ _ h => nomatch h

theorem mono (h : s.All P) (imp : ∀ id e, P id e → Q id e) : s.All Q :=
  fun id e he => imp id e (h id e he)

theorem put (h : s.All P) {now : Nat} {id : String} {value : α} (new : P id ⟨value, now⟩) :
    (s.put now id value).All P := by
  intro k e he
  simp only [Store.put, Keyed.get?_insert] at he
  split at he
  · rename_i eq
    cases he
    rwa [← eq]
  · exact h k e he

theorem remove (h : s.All P) (id : String) : (s.remove id).All P := by
  intro k e he
  simp only [Store.remove, Keyed.get?_erase] at he
  split at he
  · cases he
  · exact h k e he

theorem get? (h : s.All P) {ttl now : Nat} {id : String} {value : α}
    (found : s.get? ttl now id = some value) : ∃ time, P id ⟨value, time⟩ := by
  obtain ⟨e, he, -, rfl⟩ := get?_eq_some found
  exact ⟨e.storedAt, h id e he⟩

end Store.All

namespace Cache

/-- Every schema of the cache satisfies `P`, and every fragment `Q`. -/
structure All (P : String → Entry Schema → Prop) (Q : String → Entry Fragment → Prop) (c : Cache) :
    Prop where
  schemas : c.schemas.All P
  fragments : c.fragments.All Q

namespace All
variable {P P' : String → Entry Schema → Prop} {Q Q' : String → Entry Fragment → Prop} {c d : Cache}
  {now : Nat}

theorem empty (ttl : Nat) : All P Q { ttl } := ⟨.empty P, .empty Q⟩

theorem mono (h : c.All P Q) (schemas : ∀ id e, P id e → P' id e)
    (fragments : ∀ id e, Q id e → Q' id e) : c.All P' Q' :=
  ⟨h.schemas.mono schemas, h.fragments.mono fragments⟩

theorem of_eq (h : c.All P Q) (schemas : d.schemas = c.schemas) (fragments : d.fragments = c.fragments) :
    d.All P Q :=
  ⟨by rw [schemas]; exact h.schemas, by rw [fragments]; exact h.fragments⟩

theorem getSchema (h : c.All P Q) (id : String) : (c.getSchema now id).1.All P Q :=
  h.of_eq (getSchema_schemas ..) (getSchema_fragments ..)

theorem partition (h : c.All P Q) (now : Nat) (ids : List String) : (c.partition now ids).1.All P Q :=
  h.of_eq (partition_schemas ..) (partition_fragments ..)

theorem putSchema (h : c.All P Q) {schema : Schema} (new : P schema.id ⟨schema, now⟩) :
    (c.putSchema now schema).All P Q :=
  ⟨h.schemas.put new, h.fragments⟩

theorem putFragment (h : c.All P Q) {id : String} {f : Fragment} (new : Q id ⟨f, now⟩) :
    (c.putFragment now id f).All P Q :=
  ⟨h.schemas, h.fragments.put new⟩

theorem invalidateSchema (h : c.All P Q) (id : String) : (c.invalidateSchema id).All P Q :=
  ⟨h.schemas.remove id, h.fragments⟩

theorem apply (h : c.All P Q) (operation : Operation)
    (putSchema : ∀ schema, operation = .putSchema schema → P schema.id ⟨schema, now⟩)
    (putFragment : ∀ id f, operation = .putFragment id f → Q id ⟨f, now⟩) :
    (c.apply now operation).1.All P Q := by
  cases operation with
  | getSchema id => exact h.getSchema id
  | getFragment id => exact h.of_eq (getFragment_schemas ..) (getFragment_fragments ..)
  | partition ids => exact h.partition now ids
  | putSchema schema => exact h.putSchema (putSchema schema rfl)
  | putFragment id f => exact h.putFragment (putFragment id f rfl)
  | invalidateSchema id => exact h.invalidateSchema id
  | invalidateFragment id => exact ⟨h.schemas, h.fragments.remove id⟩
  | clear => exact ⟨.empty P, .empty Q⟩
  | isSchemaValid | isFragmentValid | stats | resetStats => exact h.of_eq rfl rfl

end All

end Cache

end StrategyForm
