import StrategyForm.Proofs.Cache.LookUp

/-!
# The cache and its past

Main statement (`refines_past`): whatever was asked of a cache and however time passed, what it answers
is determined by the operations so far. A value is at hand under an id if the last operation on that id
put it there, less than the time to live ago; the entries counted are those whose last operation was a
put, dead or not; the counters are the numbers of answered and unanswered look-ups since they were
reset.

The invariant (`Life.Kept`) holds what is stored against the past; each operation keeps it, because it
changes one id of a store in the way `schemaWrite?` and `fragmentWrite?` say.
-/

namespace StrategyForm.Cache

/-! ### The past -/

/-- What an operation leaves under an id of a store, if it touches that id: a value, or nothing. -/
def Operation.schemaWrite? (id : String) : Operation → Option (Option Schema)
  | .putSchema schema => if schema.id = id then some (some schema) else none
  | .invalidateSchema k => if k = id then some none else none
  | .clear => some none
  | _ => none

def Operation.fragmentWrite? (id : String) : Operation → Option (Option Fragment)
  | .putFragment k fragment => if k = id then some (some fragment) else none
  | .invalidateFragment k => if k = id then some none else none
  | .clear => some none
  | _ => none

/-- The entry under an id after it was written at a time, or left as it was. -/
def rewritten {α : Type} (time : Nat) (old : Option (Entry α)) : Option (Option α) → Option (Entry α)
  | some written => written.map (⟨·, time⟩)
  | none => old

/-- What the last operation that wrote something has put, if it was a put. The past is a list of
operations with their times, the latest first. -/
def lastPut? {α : Type} (write? : Operation → Option (Option α)) :
    List (Nat × Operation) → Option (Entry α)
  | [] => none
  | (time, operation) :: past => rewritten time (lastPut? write? past) (write? operation)

/-- There is such a put, and less than the time to live has passed since. -/
def isAtHand {α : Type} (write? : Operation → Option (Option α)) (ttl now : Nat)
    (past : List (Nat × Operation)) : Bool :=
  (lastPut? write? past).any fun e => now - e.storedAt < ttl

/-- The look-ups an operation makes, each answered or not; of a list of ids each distinct one is
looked up. -/
def Operation.lookUps (ttl now : Nat) (past : List (Nat × Operation)) : Operation → List Bool
  | .getSchema id => [isAtHand (·.schemaWrite? id) ttl now past]
  | .getFragment id => [isAtHand (·.fragmentWrite? id) ttl now past]
  | .partition ids => ids.dedup.map fun id => isAtHand (·.fragmentWrite? id) ttl now past
  | _ => []

/-- The look-ups since the counters were last reset. -/
def lookUps (ttl : Nat) : List (Nat × Operation) → List Bool
  | [] => []
  | (_, .resetStats) :: _ => []
  | (time, operation) :: past => operation.lookUps ttl time past ++ lookUps ttl past

theorem lookUps_cons {operation : Operation} (keeps : operation ≠ .resetStats) (ttl time : Nat)
    (past : List (Nat × Operation)) :
    lookUps ttl ((time, operation) :: past) = operation.lookUps ttl time past ++ lookUps ttl past := by
  rw [lookUps]
  exact keeps

/-- The operations that look something up to answer with it, and the one that resets the counters. -/
def Operation.touchesStats : Operation → Bool
  | .getSchema _ | .getFragment _ | .partition _ | .resetStats => true
  | _ => false

inductive Happening where
  | pass (ms : Nat)
  | ask (operation : Operation)

structure Life where
  cache : Cache
  now : Nat := 0
  past : List (Nat × Operation) := []

def Life.next (l : Life) : Happening → Life
  | .pass ms => { l with now := l.now + ms }
  | .ask operation =>
    { l with
      cache := (l.cache.apply l.now operation).1
      past := (l.now, operation) :: l.past }

def life (ttl : Nat) (happenings : List Happening) : Life :=
  happenings.foldl Life.next { cache := { ttl } }

/-! ### What one operation does -/

section
variable (c : Cache) (now : Nat) (operation : Operation)

@[simp] theorem apply_ttl : (c.apply now operation).1.ttl = c.ttl := by
  cases operation with
  | getSchema id => obtain ⟨_, _, h⟩ := getSchema_eq c now id; simp [apply, h]
  | getFragment id => obtain ⟨_, _, h⟩ := getFragment_eq c now id; simp [apply, h]
  | partition ids => simp [apply, (partition_spec c now ids).counted]
  | putSchema | putFragment | isSchemaValid | isFragmentValid | invalidateSchema
  | invalidateFragment | clear | stats | resetStats => rfl

theorem apply_schemas (id : String) :
    (c.apply now operation).1.schemas.entries.get? id =
      rewritten now (c.schemas.entries.get? id) (operation.schemaWrite? id) := by
  cases operation with
  | putSchema schema =>
    by_cases e : schema.id = id <;> simp [apply, putSchema, Store.put, Operation.schemaWrite?, rewritten, e]
  | invalidateSchema k =>
    by_cases e : k = id <;>
      simp [apply, invalidateSchema, Store.remove, Operation.schemaWrite?, rewritten, e]
  | getSchema | getFragment | partition => simp [apply, Operation.schemaWrite?, rewritten]
  | putFragment | isSchemaValid | isFragmentValid | invalidateFragment | clear | stats
  | resetStats => rfl

theorem apply_fragments (id : String) :
    (c.apply now operation).1.fragments.entries.get? id =
      rewritten now (c.fragments.entries.get? id) (operation.fragmentWrite? id) := by
  cases operation with
  | putFragment k fragment =>
    by_cases e : k = id <;> simp [apply, putFragment, Store.put, Operation.fragmentWrite?, rewritten, e]
  | invalidateFragment k =>
    by_cases e : k = id <;>
      simp [apply, invalidateFragment, Store.remove, Operation.fragmentWrite?, rewritten, e]
  | getSchema | getFragment | partition => simp [apply, Operation.fragmentWrite?, rewritten]
  | putSchema | isSchemaValid | isFragmentValid | invalidateSchema | clear | stats
  | resetStats => rfl

theorem apply_schemas_of_untouched (h : ∀ id, operation.schemaWrite? id = none) :
    (c.apply now operation).1.schemas = c.schemas := by
  refine congrArg Store.mk (Keyed.ext fun id => ?_)
  rw [apply_schemas, h id, rewritten]

theorem apply_fragments_of_untouched (h : ∀ id, operation.fragmentWrite? id = none) :
    (c.apply now operation).1.fragments = c.fragments := by
  refine congrArg Store.mk (Keyed.ext fun id => ?_)
  rw [apply_fragments, h id, rewritten]

theorem apply_stats_of_silent (h : operation.touchesStats = false) :
    (c.apply now operation).1.stats = c.stats := by
  cases operation with
  | getSchema | getFragment | partition | resetStats => cases h
  | putSchema | putFragment | isSchemaValid | isFragmentValid | invalidateSchema
  | invalidateFragment | clear | stats => rfl

end

/-! ### The invariant -/

namespace Life

/-- What is stored is what the past has put last, and the counters count its look-ups. -/
structure Kept (ttl : Nat) (l : Life) : Prop where
  ttl_eq : l.cache.ttl = ttl
  schemas : ∀ id, l.cache.schemas.entries.get? id = lastPut? (·.schemaWrite? id) l.past
  fragments : ∀ id, l.cache.fragments.entries.get? id = lastPut? (·.fragmentWrite? id) l.past
  hits : l.cache.hits = (Cache.lookUps ttl l.past).count true
  misses : l.cache.misses = (Cache.lookUps ttl l.past).count false
  times : ∀ x ∈ l.past, x.1 ≤ l.now

variable {ttl : Nat} {l : Life}

theorem isSome_get?_eq {α : Type} {s : Store α} {write? : Operation → Option (Option α)} {id : String}
    (now : Nat) {past : List (Nat × Operation)} (h : s.entries.get? id = lastPut? write? past) :
    (s.get? ttl now id).isSome = isAtHand write? ttl now past := by
  rw [Store.get?, h, isAtHand]
  cases lastPut? write? past with
  | none => rfl
  | some e => by_cases fresh : now - e.storedAt < ttl <;> simp [Store.isFresh, Option.filter, fresh]

namespace Kept

theorem fresh (ttl : Nat) : Kept ttl { cache := { ttl } } :=
  ⟨rfl, fun _ => rfl, fun _ => rfl, rfl, rfl, by simp⟩

theorem schema_isSome (h : l.Kept ttl) (id : String) :
    (l.cache.schema? l.now id).isSome = isAtHand (·.schemaWrite? id) ttl l.now l.past := by
  rw [schema?, h.ttl_eq]
  exact isSome_get?_eq l.now (h.schemas id)

theorem fragment_isSome (h : l.Kept ttl) (id : String) :
    (l.cache.fragment? l.now id).isSome = isAtHand (·.fragmentWrite? id) ttl l.now l.past := by
  rw [fragment?, h.ttl_eq]
  exact isSome_get?_eq l.now (h.fragments id)

theorem counters (h : l.Kept ttl) (operation : Operation) (keeps : operation ≠ .resetStats) :
    (l.cache.apply l.now operation).1.stats =
      ⟨l.cache.hits + (operation.lookUps ttl l.now l.past).count true,
        l.cache.misses + (operation.lookUps ttl l.now l.past).count false⟩ := by
  cases operation with
  | getSchema id =>
    have found := h.schema_isSome id
    simp only [apply, Cache.getSchema, Operation.lookUps, found]
    cases isAtHand (·.schemaWrite? id) ttl l.now l.past <;> rfl
  | getFragment id =>
    have found := h.fragment_isSome id
    simp only [apply, Cache.getFragment, Operation.lookUps, found]
    cases isAtHand (·.fragmentWrite? id) ttl l.now l.past <;> rfl
  | partition ids =>
    have found (id : String) : (l.cache.fragment? l.now id).isNone =
        !isAtHand (·.fragmentWrite? id) ttl l.now l.past := by
      rw [← h.fragment_isSome id, Option.not_isSome]
    simp only [apply, stats, (partition_spec l.cache l.now ids).counted, Operation.lookUps, List.count,
      List.countP_map, h.fragment_isSome, found]
    congr 3
    · funext id
      simp
    · funext id
      simp
  | resetStats => exact absurd rfl keeps
  | putSchema | putFragment | isSchemaValid | isFragmentValid | invalidateSchema
  | invalidateFragment | clear | stats => rfl

theorem ask (h : l.Kept ttl) (operation : Operation) : (l.next (.ask operation)).Kept ttl := by
  refine ⟨?_, fun id => ?_, fun id => ?_, ?_, ?_, fun x hx => ?_⟩
  · exact (apply_ttl ..).trans h.ttl_eq
  · refine (apply_schemas ..).trans ?_
    rw [h.schemas id]
    rfl
  · refine (apply_fragments ..).trans ?_
    rw [h.fragments id]
    rfl
  · by_cases reset : operation = .resetStats
    · rw [reset]
      rfl
    · refine (congrArg CacheStats.hits (h.counters operation reset)).trans ?_
      simp only [Life.next, lookUps_cons reset, List.count_append, h.hits, Nat.add_comm]
  · by_cases reset : operation = .resetStats
    · rw [reset]
      rfl
    · refine (congrArg CacheStats.misses (h.counters operation reset)).trans ?_
      simp only [Life.next, lookUps_cons reset, List.count_append, h.misses, Nat.add_comm]
  · rcases List.mem_cons.1 hx with rfl | hx
    · exact Nat.le_refl _
    · exact h.times x hx

theorem next (h : l.Kept ttl) (happening : Happening) : (l.next happening).Kept ttl := by
  cases happening with
  | pass ms =>
    exact ⟨h.ttl_eq, h.schemas, h.fragments, h.hits, h.misses,
      fun x hx => Nat.le_trans (h.times x hx) (Nat.le_add_right ..)⟩
  | ask operation => exact h.ask operation

theorem foldl (h : l.Kept ttl) (happenings : List Happening) :
    (happenings.foldl Life.next l).Kept ttl := by
  induction happenings generalizing l with
  | nil => exact h
  | cons happening rest ih => exact ih (h.next happening)

end Kept

end Life

theorem life_kept (ttl : Nat) (happenings : List Happening) : (life ttl happenings).Kept ttl :=
  (Life.Kept.fresh ttl).foldl happenings

/-! ### What a cache answers -/

/-- The last operation that wrote something put this value, less than the time to live ago. -/
def Held {α : Type} (write? : Operation → Option (Option α)) (ttl now : Nat)
    (past : List (Nat × Operation)) (value : α) : Prop :=
  ∃ time ≤ now, lastPut? write? past = some ⟨value, time⟩ ∧ now - time < ttl

section
variable {α : Type} {write? : Operation → Option (Option α)} {past : List (Nat × Operation)}

theorem lastPut?_le {now : Nat} {e : Entry α} (times : ∀ x ∈ past, x.1 ≤ now)
    (h : lastPut? write? past = some e) : e.storedAt ≤ now := by
  induction past with
  | nil => cases h
  | cons x past ih =>
    obtain ⟨time, operation⟩ := x
    rw [lastPut?] at h
    cases w : write? operation with
    | none =>
      rw [w] at h
      exact ih (fun x hx => times x (List.mem_cons_of_mem _ hx)) h
    | some written =>
      rw [w] at h
      obtain ⟨_, -, rfl⟩ := Option.map_eq_some_iff.1 h
      exact times _ List.mem_cons_self

variable {s : Store α} {id : String}

theorem get?_eq_some_iff (kept : s.entries.get? id = lastPut? write? past) (ttl : Nat) {now : Nat}
    (times : ∀ x ∈ past, x.1 ≤ now) (value : α) :
    s.get? ttl now id = some value ↔ Held write? ttl now past value := by
  constructor
  · intro h
    obtain ⟨⟨_, time⟩, he, young, rfl⟩ := Store.get?_eq_some h
    rw [kept] at he
    exact ⟨time, lastPut?_le times he, he, young⟩
  · rintro ⟨time, -, he, young⟩
    rw [Store.get?, kept, he]
    simp [Store.isFresh, Option.filter, young]

theorem isSome_get?_iff (kept : s.entries.get? id = lastPut? write? past) (ttl : Nat) {now : Nat}
    (times : ∀ x ∈ past, x.1 ≤ now) :
    (s.get? ttl now id).isSome = true ↔ ∃ value, Held write? ttl now past value := by
  simp only [Option.isSome_iff_exists, get?_eq_some_iff kept ttl times]

theorem holds_eq (kept : s.entries.get? id = lastPut? write? past) :
    s.holds id = (lastPut? write? past).isSome := by
  rw [Store.holds, Keyed.contains, kept]

theorem size_spec {write? : String → Operation → Option (Option α)}
    (kept : ∀ id, s.entries.get? id = lastPut? (write? id) past) :
    ∃ ids : List String, ids.Nodup ∧ ids.length = s.size ∧
      ∀ id, id ∈ ids ↔ (lastPut? (write? id) past).isSome = true := by
  refine ⟨s.entries.keys, s.entries.nodup_keys, s.entries.length_keys, fun id => ?_⟩
  rw [Keyed.mem_keys_iff, Keyed.contains, kept]

end

/-- What a cache answers, and what it keeps, as its past tells it. -/
structure Refines (ttl now : Nat) (past : List (Nat × Operation)) (c : Cache) : Prop where
  schema : ∀ id, ∃ found, (c.apply now (.getSchema id)).2 = .schema found ∧
    ∀ value, found = some value ↔ Held (·.schemaWrite? id) ttl now past value
  fragment : ∀ id, ∃ found, (c.apply now (.getFragment id)).2 = .fragment found ∧
    ∀ value, found = some value ↔ Held (·.fragmentWrite? id) ttl now past value
  schemaValid : ∀ id, ∃ valid, (c.apply now (.isSchemaValid id)).2 = .flag valid ∧
    (valid = true ↔ ∃ value, Held (·.schemaWrite? id) ttl now past value)
  fragmentValid : ∀ id, ∃ valid, (c.apply now (.isFragmentValid id)).2 = .flag valid ∧
    (valid = true ↔ ∃ value, Held (·.fragmentWrite? id) ttl now past value)
  partition : ∀ ids, ∃ p, (c.apply now (.partition ids)).2 = .partition p ∧ p.missing.Nodup ∧
    ∀ id,
      (∀ value, p.cached.get? id = some value ↔
        id ∈ ids ∧ Held (·.fragmentWrite? id) ttl now past value) ∧
      (id ∈ p.missing ↔ id ∈ ids ∧ ¬ ∃ value, Held (·.fragmentWrite? id) ttl now past value)
  /-- The ids that are counted are those with a last put, dead or not. -/
  schemaSize : ∃ ids : List String, ids.Nodup ∧ ids.length = c.schemas.size ∧
    ∀ id, id ∈ ids ↔ (lastPut? (·.schemaWrite? id) past).isSome = true
  fragmentSize : ∃ ids : List String, ids.Nodup ∧ ids.length = c.fragments.size ∧
    ∀ id, id ∈ ids ↔ (lastPut? (·.fragmentWrite? id) past).isSome = true
  schemaRemoved : ∀ id, (c.apply now (.invalidateSchema id)).2 =
    .flag (lastPut? (·.schemaWrite? id) past).isSome
  fragmentRemoved : ∀ id, (c.apply now (.invalidateFragment id)).2 =
    .flag (lastPut? (·.fragmentWrite? id) past).isSome
  counted : (c.apply now .stats).2 =
    .stats ⟨(lookUps ttl past).count true, (lookUps ttl past).count false⟩
  silent : ∀ operation, operation.touchesStats = false → (c.apply now operation).1.stats = c.stats
  /-- An operation that touches no schema leaves the schemas as they are, stored values and times. -/
  schemasApart : ∀ operation, (∀ id, operation.schemaWrite? id = none) →
    (c.apply now operation).1.schemas = c.schemas
  fragmentsApart : ∀ operation, (∀ id, operation.fragmentWrite? id = none) →
    (c.apply now operation).1.fragments = c.fragments

/-- A cache refines its past, whatever the operations were and however time passed. -/
theorem refines_past (ttl : Nat) (happenings : List Happening) :
    let l := life ttl happenings
    Refines ttl l.now l.past l.cache := by
  intro l
  have h : l.Kept ttl := life_kept ttl happenings
  have same := h.ttl_eq
  have found (id : String) (value : Fragment) : l.cache.fragment? l.now id = some value ↔
      Held (·.fragmentWrite? id) ttl l.now l.past value := by
    rw [fragment?, same]
    exact get?_eq_some_iff (h.fragments id) ttl h.times value
  exact {
    schema := fun id => ⟨_, rfl, fun value => by
      rw [schema?, same]
      exact get?_eq_some_iff (h.schemas id) ttl h.times value⟩
    fragment := fun id => ⟨_, rfl, found id⟩
    schemaValid := fun id => ⟨_, rfl, by
      rw [schema?, same]
      exact isSome_get?_iff (h.schemas id) ttl h.times⟩
    fragmentValid := fun id => ⟨_, rfl, by
      rw [fragment?, same]
      exact isSome_get?_iff (h.fragments id) ttl h.times⟩
    partition := fun ids => by
      have divided := partition_spec l.cache l.now ids
      refine ⟨(l.cache.partition l.now ids).2, rfl, divided.nodup, fun id => ⟨fun value => ?_, ?_⟩⟩
      · rw [divided.cached, ← found]
        by_cases mem : id ∈ ids <;> simp [mem]
      · rw [divided.missing, Option.eq_none_iff_forall_ne_some]
        simp only [ne_eq, found, not_exists]
    schemaSize := size_spec h.schemas
    fragmentSize := size_spec h.fragments
    schemaRemoved := fun id => congrArg Answer.flag (holds_eq (h.schemas id))
    fragmentRemoved := fun id => congrArg Answer.flag (holds_eq (h.fragments id))
    counted := by rw [← h.hits, ← h.misses]; rfl
    silent := apply_stats_of_silent l.cache l.now
    schemasApart := apply_schemas_of_untouched l.cache l.now
    fragmentsApart := apply_fragments_of_untouched l.cache l.now }

end StrategyForm.Cache
