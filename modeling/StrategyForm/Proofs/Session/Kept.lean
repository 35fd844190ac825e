import StrategyForm.Proofs.Session.Orderly

/-!
# What arrived stays

As long as a fragment is not stored anew, and no step makes the cache forget it, the cache holds it
as it did, with the time at which it arrived (`keeps_steps`). This does not depend on what becomes of
the run that had asked for it.
-/

namespace StrategyForm.Session

/-- When the deed put something in the cache for a call. -/
def Deed.storedAt? (call : Call) : Deed → Option Nat
  | .stored _ call' time => if call' = call then some time else none
  | _ => none

/-- When something was last put in the cache for a call. -/
def lastStored (call : Call) (history : List Deed) : Option Nat :=
  (history.filterMap (Deed.storedAt? call)).getLast?

theorem lastStored_append (call : Call) (h more : List Deed) :
    lastStored call (h ++ more) = (lastStored call more).or (lastStored call h) := by
  rw [lastStored, List.filterMap_append, List.getLast?_append]
  rfl

namespace Supply

/-- Either the fragment was put in the cache anew, and is there with the time of the last such deed,
or the cache holds what it held. -/
def Keeps (id : String) (u v : Supply) : Prop :=
  ∃ more, v.history = u.history ++ more ∧
    (lastStored (.fragment id) more = none →
      v.cache.fragments.entries.get? id = u.cache.fragments.entries.get? id) ∧
    ∀ time, lastStored (.fragment id) more = some time →
      ∃ e, v.cache.fragments.entries.get? id = some e ∧ e.storedAt = time

variable {id : String} {a : Agent} {u v w : Supply} {g : Gathering}

namespace Keeps

theorem of_eq (history : v.history = u.history) (same : v.cache.fragments = u.cache.fragments) :
    Keeps id u v :=
  ⟨[], by simpa using history, fun _ => by rw [same], fun _ h => nomatch h⟩

theorem refl (id : String) (u : Supply) : Keeps id u u := of_eq rfl rfl

theorem trans (h₁ : Keeps id u v) (h₂ : Keeps id v w) : Keeps id u w := by
  obtain ⟨m₁, e₁, old₁, new₁⟩ := h₁
  obtain ⟨m₂, e₂, old₂, new₂⟩ := h₂
  refine ⟨m₁ ++ m₂, by rw [e₂, e₁, List.append_assoc], fun none => ?_, fun time h => ?_⟩
  · rw [lastStored_append, Option.or_eq_none_iff] at none
    exact (old₂ none.1).trans (old₁ none.2)
  · rw [lastStored_append] at h
    cases last : lastStored (.fragment id) m₂ with
    | some time' =>
      rw [last] at h
      cases h
      exact new₂ time last
    | none =>
      rw [last] at h
      rw [old₂ last]
      exact new₁ time h

/-- Another deed is recorded. -/
theorem record (d : Deed) (other : d.storedAt? (.fragment id) = none)
    (history : v.history = u.history ++ [d]) (same : v.cache.fragments = u.cache.fragments) :
    Keeps id u v := by
  have none : lastStored (.fragment id) [d] = none := by simp [lastStored, other]
  exact ⟨[d], history, fun _ => by rw [same], fun time h => by rw [none] at h; cases h⟩

end Keeps

theorem putFragment_keeps (id' : String) (f : Fragment) :
    Keeps id u ({ u with cache := u.cache.putFragment u.now id' f }.record
      (.stored a (.fragment id') u.now)) := by
  refine ⟨[.stored a (.fragment id') u.now], rfl, ?_, ?_⟩
  all_goals
    simp only [lastStored, List.filterMap_cons, List.filterMap_nil, Deed.storedAt?,
      Call.fragment.injEq, record_cache, Cache.putFragment, Store.put, Keyed.get?_insert]
    split <;> simp_all

theorem receiveFragment_keeps (id' : String) (result : Except Fault Fragment) :
    Keeps id u (u.receiveFragment a g id' result).1 := by
  cases result with
  | error e => exact .refl id u
  | ok f => exact putFragment_keeps id' f

theorem askFragment_keeps (id' : String) : Keeps id u (askFragment a (u, g) id').1 := by
  have asked : Keeps id u (u.record (.called a (.fragment id') (u.now + (u.source.fragment id').delay))) :=
    .record _ rfl rfl rfl
  simp only [askFragment]
  split
  · exact asked.trans (receiveFragment_keeps ..)
  · exact asked

theorem gather_keeps (schema : Schema) : Keeps id u (u.gather a schema).1 := by
  refine gather_induction (P := fun x => Keeps id u x.1) schema (fun c p h => ?_) ?_
  · refine .of_eq rfl ?_
    rw [← Cache.partition_fragments u.cache u.now schema.fragmentIds, h]
  · exact fun _ id' _ h => h.trans (askFragment_keeps id')

theorem arrive_keeps : Keeps id u (u.arrive a g).1 :=
  arrive_induction (P := fun x => Keeps id u x.1) (.refl id u)
    fun _ _ _ _ _ h => h.trans (receiveFragment_keeps ..)

theorem lookUpSchema_keeps (id' : String) : Keeps id u (u.lookUpSchema a id').1 :=
  .record _ rfl rfl (Cache.getSchema_fragments ..)

theorem receiveSchema_keeps (id' : String) (result : Except Fault Schema) :
    Keeps id u (u.receiveSchema a id' result).1 := by
  cases result with
  | error e => exact .refl id u
  | ok schema => exact .record _ (by simp [Deed.storedAt?]) rfl rfl

end Supply

open Supply (Keeps)

variable {id : String} {s t : Session}

theorem publish_keeps (b g : Nat) (update : State → State) :
    Keeps id s.toSupply (s.publish b g update).toSupply := by
  cases h : (s.binding b).isCurrent g with
  | true =>
    rw [publish_of_current _ _ _ _ h]
    exact .record _ rfl rfl rfl
  | false =>
    rw [publish_of_not_current _ _ _ _ h]
    exact .refl id _

theorem Run.Leaves.keeps {r : Run} {u v : Supply} (h : r.Leaves u v) : Keeps id u v := by
  cases h with
  | silent => exact .refl ..
  | store => exact Supply.receiveSchema_keeps ..
  | ask => exact (Supply.receiveSchema_keeps ..).trans (Supply.gather_keeps _)
  | arrive => exact Supply.arrive_keeps

theorem Move.keeps (m : Move s t) : Keeps id s.toSupply t.toSupply := by
  cases m with
  | pass | forget => exact .of_eq rfl rfl
  | clear | refuse | finish => exact publish_keeps ..
  | skip | lookUp => exact Supply.lookUpSchema_keeps ..
  | slip | hit => exact (Supply.lookUpSchema_keeps ..).trans (Supply.gather_keeps _)
  | leave _ _ last => exact last.keeps
  | @miss l rest id' =>
    have look : Keeps id s.toSupply (s.toSupply.lookUpSchema l.agent id').1 :=
      Supply.lookUpSchema_keeps ..
    have shown : Keeps id _ _ := publish_keeps (s := { s with launches := rest }.look l.agent id')
      l.binding l.generation (·.toLoading id')
    exact (look.trans shown).trans (.record _ rfl rfl rfl)
  | @obtain front r back due schema =>
    exact (Supply.receiveSchema_keeps r.strategy (.ok schema)).trans (Supply.gather_keeps _)
  | arrive | take => exact Supply.arrive_keeps
  | call id' => exact .record _ rfl rfl rfl
  | receive => exact Supply.receiveSchema_keeps ..
  | gather schema => exact Supply.gather_keeps schema

theorem Moves.keeps (m : Moves s t) : Keeps id s.toSupply t.toSupply :=
  m.induction (I := fun t => Keeps id s.toSupply t.toSupply) (fun m h => h.trans m.keeps) (.refl id _)

end StrategyForm.Session
