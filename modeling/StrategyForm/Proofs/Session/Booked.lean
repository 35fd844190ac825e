import StrategyForm.Proofs.Session.History

/-!
# The history accounts for the cache

Whoever put an entry in the cache did so at the entry's time, and what a run put there came from a
call of its own whose reply was due at just that time (`booked_steps`). The invariant behind it is
that no run waits for something that was due earlier (`Run.Booked.punctual`), because the clock never
passes over anything that is due.
-/

namespace StrategyForm.Session

namespace Supply

/-- Whatever stands in the cache was put there by someone, at the time that its entry tells. -/
abbrev Accounts (history : List Deed) (c : Cache) : Prop :=
  c.All (fun id e => ∃ a, .stored a (.schema id) e.storedAt ∈ history)
    fun id e => ∃ a, .stored a (.fragment id) e.storedAt ∈ history

/-- The history accounts for the cache, and what a run put there had been called for by it and was
due then. -/
structure Booked (u : Supply) : Prop where
  cache : Accounts u.history u.cache
  stored : ∀ b g call time, .stored (.run b g) call time ∈ u.history →
    .called (.run b g) call time ∈ u.history

variable {a : Agent} {u v : Supply} {g : Gathering}

/-- If the agent is a run, it has made a call whose reply is due at a time. -/
def Called (u : Supply) (a : Agent) (call : Call) (due : Nat) : Prop :=
  a = .foreground ∨ .called a call due ∈ u.history

theorem Called.mono {call : Call} {due : Nat} {P : Deed → Prop} (h : u.Called a call due)
    (grows : Grows P u.history v.history) : v.Called a call due :=
  h.imp_right grows.mem

theorem Accounts.of_subset {c : Cache} {h₁ h₂ : List Deed} (h : Accounts h₁ c) (sub : h₁ ⊆ h₂) :
    Accounts h₂ c :=
  h.mono (fun _ _ ⟨a, ha⟩ => ⟨a, sub ha⟩) fun _ _ ⟨a, ha⟩ => ⟨a, sub ha⟩

/-- Nothing was stored, and what the cache holds was accounted for. -/
theorem Booked.of_grows (h : u.Booked) (cache : Accounts u.history v.cache)
    (grows : Grows (fun d => ∀ a call time, d ≠ .stored a call time) u.history v.history) :
    v.Booked := by
  refine ⟨cache.of_subset fun _ => grows.mem, fun b g call time hd => ?_⟩
  rcases grows.mem_cases hd with hd | new
  · exact grows.mem (h.stored b g call time hd)
  · exact absurd rfl (new _ call time)

theorem Booked.lookUpSchema (h : u.Booked) (a : Agent) (id : String) :
    (u.lookUpSchema a id).1.Booked :=
  h.of_grows (h.cache.getSchema id) (.single (by simp))

theorem Booked.record (h : u.Booked) (a : Agent) (call : Call) (due : Nat) :
    (u.record (.called a call due)).Booked :=
  h.of_grows h.cache (.single (by simp))

/-- Something is put in the cache, and the history tells. -/
theorem Booked.put (h : u.Booked) {call : Call} {c : Cache} (called : u.Called a call u.now)
    (cache : Accounts (u.history ++ [.stored a call u.now]) c) :
    ({ u with cache := c }.record (.stored a call u.now)).Booked := by
  refine ⟨cache, fun b g call time hd => ?_⟩
  rcases List.mem_append.1 hd with hd | hd
  · exact List.mem_append_left _ (h.stored b g call time hd)
  · cases List.mem_singleton.1 hd
    exact List.mem_append_left _ (called.resolve_left (by simp))

theorem Booked.putSchema (h : u.Booked) {id : String} {schema : Schema} (own : schema.id = id)
    (called : u.Called a (.schema id) u.now) :
    ({ u with cache := u.cache.putSchema u.now schema }.record (.stored a (.schema id) u.now)).Booked :=
  h.put called ((h.cache.of_subset (List.subset_append_left ..)).putSchema ⟨a, by simp [own]⟩)

theorem Booked.putFragment (h : u.Booked) {id : String} (f : Fragment)
    (called : u.Called a (.fragment id) u.now) :
    ({ u with cache := u.cache.putFragment u.now id f }.record
      (.stored a (.fragment id) u.now)).Booked :=
  h.put called ((h.cache.of_subset (List.subset_append_left ..)).putFragment ⟨a, by simp⟩)

theorem Booked.receiveSchema (h : u.Booked) {id : String} {result : Except Fault Schema}
    (called : u.Called a (.schema id) u.now) : (u.receiveSchema a id result).1.Booked := by
  cases result with
  | ok schema => exact h.putSchema rfl called
  | error e => exact h

theorem Booked.receiveFragment (h : u.Booked) {id : String} {result : Except Fault Fragment}
    (called : u.Called a (.fragment id) u.now) : (u.receiveFragment a g id result).1.Booked := by
  cases result with
  | ok f => exact h.putFragment f called
  | error e => exact h

/-- What a gathering waits for has been called for. -/
def Awaits (u : Supply) (a : Agent) (g : Gathering) : Prop :=
  ∀ x ∈ g.arrivals, .called a (.fragment x.id) x.due ∈ u.history

theorem Booked.gather (h : u.Booked) (a : Agent) (schema : Schema) :
    (u.gather a schema).1.Booked ∧ (u.gather a schema).1.Awaits a (u.gather a schema).2 := by
  refine gather_induction (P := fun x => x.1.Booked ∧ x.1.Awaits a x.2) schema ?_ ?_
  · intro c p hp
    have divided := h.cache.partition u.now schema.fragmentIds
    rw [hp] at divided
    exact ⟨h.of_grows divided (.refl ..), by simp [Awaits]⟩
  · rintro ⟨v, g⟩ id - ⟨hv, hg⟩
    have recorded := hv.record a (.fragment id) (v.now + (v.source.fragment id).delay)
    have old : Awaits (v.record (.called a (.fragment id) (v.now + (v.source.fragment id).delay))) a g :=
      fun x hx => List.mem_append_left _ (hg x hx)
    simp only [askFragment]
    split
    · rename_i soon
      refine ⟨recorded.receiveFragment (.inr ?_), fun x hx => ?_⟩
      · exact List.mem_append_right _ (by simp [soon])
      · exact (receiveFragment_work ..).history.mem (old x hx)
    · refine ⟨recorded, fun x hx => ?_⟩
      rcases List.mem_append.1 hx with hx | hx
      · exact old x hx
      · rw [List.mem_singleton.1 hx]
        simp

theorem Booked.arrive (h : u.Booked) (called : ∀ x ∈ g.arrivals, x.due ≤ u.now →
    u.Called a (.fragment x.id) u.now) : (u.arrive a g).1.Booked := by
  refine (arrive_induction (P := fun x => x.1.Booked ∧ u.Work a x.1) ⟨h, .refl ..⟩ ?_).1
  rintro v g x hx due ⟨hv, w⟩
  refine ⟨hv.receiveFragment ?_, w.trans (receiveFragment_work ..)⟩
  rw [w.now]
  exact (called x hx due).mono w.history

/-- The foreground does something with the cache, and the history tells. -/
theorem Booked.apply (h : u.Booked) (operation : Cache.Operation) :
    Booked { u with cache := (u.cache.apply u.now operation).1,
                    history := u.history ++ written u.now operation } := by
  have grows : Grows (·.agent = .foreground) u.history (u.history ++ written u.now operation) :=
    ⟨_, rfl, written_foreground _ operation⟩
  refine ⟨(h.cache.of_subset fun _ => grows.mem).apply operation ?_ ?_, fun b g call time hd => ?_⟩
  · rintro schema rfl
    exact ⟨.foreground, List.mem_append_right _ (List.mem_singleton_self _)⟩
  · rintro id f rfl
    exact ⟨.foreground, List.mem_append_right _ (List.mem_singleton_self _)⟩
  · rcases grows.mem_cases hd with hd | mine
    · exact grows.mem (h.stored b g call time hd)
    · cases mine

end Supply

/-- What a run waits for has been called for by it, and was not due earlier. -/
structure Run.Booked (r : Run) (u : Supply) : Prop where
  schema : ∀ due result, r.stage = .schema due result →
    .called r.agent (.schema r.strategy) due ∈ u.history
  fragments : ∀ g, r.stage = .fragments g → u.Awaits r.agent g
  punctual : ∀ d ∈ r.dues, u.now ≤ d

structure Booked (s : Session) : Prop where
  supply : s.toSupply.Booked
  runs : ∀ r ∈ s.runs, r.Booked s.toSupply

variable {s t : Session}

theorem Run.Booked.mono {r : Run} {u v : Supply} (h : r.Booked u) (now : v.now = u.now)
    (sub : u.history ⊆ v.history) : r.Booked v :=
  ⟨fun due result e => sub (h.schema due result e),
    fun g e x hx => sub (h.fragments g e x hx), fun d hd => now ▸ h.punctual d hd⟩

/-- It is due by now and was not due before, so it is due just now. -/
theorem Run.Booked.calledSchema {r : Run} {u : Supply} (h : r.Booked u) {due : Nat}
    {result : Except Fault Schema} (stage : r.stage = .schema due result) (here : due ≤ u.now) :
    u.Called r.agent (.schema r.strategy) u.now := by
  have later := h.punctual due (by simp [Run.dues, stage])
  exact .inr (Nat.le_antisymm here later ▸ h.schema due _ stage)

theorem Run.Booked.calledFragment {r : Run} {u : Supply} (h : r.Booked u) {g : Gathering}
    (stage : r.stage = .fragments g) (x : Arrival) (hx : x ∈ g.arrivals) (here : x.due ≤ u.now) :
    u.Called r.agent (.fragment x.id) u.now := by
  have later := h.punctual x.due (by rw [Run.dues, stage]; exact List.mem_map_of_mem hx)
  exact .inr (Nat.le_antisymm here later ▸ h.fragments g stage x hx)

theorem Booked.leaves (h : s.Booked) {r : Run} (hr : r ∈ s.runs) {u : Supply}
    (last : r.Leaves s.toSupply u) : u.Booked := by
  have hr := h.runs r hr
  cases last with
  | silent => exact h.supply
  | store stage here => exact h.supply.receiveSchema (hr.calledSchema stage here)
  | ask stage here => exact ((h.supply.receiveSchema (hr.calledSchema stage here)).gather r.agent _).1
  | arrive stage => exact h.supply.arrive (hr.calledFragment stage)

/-- An agent has worked. -/
theorem Booked.work (h : s.Booked) {a : Agent} {supply : Supply} (booked : supply.Booked)
    (work : s.toSupply.Work a supply) (launches : List Launch) :
    Booked { s with launches, toSupply := supply } :=
  ⟨booked, fun r hr => (h.runs r hr).mono work.now fun _ => work.history.mem⟩

theorem Booked.lookUp (h : s.Booked) (a : Agent) (id : String) (launches : List Launch) :
    Booked { s with launches, toSupply := (s.toSupply.lookUpSchema a id).1 } :=
  ⟨h.supply.lookUpSchema a id, fun r hr =>
    (h.runs r hr).mono rfl (List.subset_append_left ..)⟩

/-- Some runs have ended. -/
theorem Booked.fewer (h : s.Booked) {runs : List Run} (fewer : ∀ r ∈ runs, r ∈ s.runs) :
    Booked { s with runs } :=
  ⟨h.supply, fun r hr => h.runs r (fewer r hr)⟩

/-- A publication is no matter of the cache. -/
theorem Booked.publish (h : s.Booked) (b g : Nat) (update : State → State) :
    (s.publish b g update).Booked := by
  have grows : Grows (fun d => ∀ a call time, d ≠ .stored a call time) s.history
      (s.publish b g update).history := by
    rw [publish_history]
    split
    · exact .single (by simp)
    · rw [List.append_nil]
      exact .refl ..
  exact ⟨h.supply.of_grows (by rw [publish_cache]; exact h.supply.cache) grows, fun r hr =>
    (h.runs r (by simpa using hr)).mono (publish_now ..) fun _ => grows.mem⟩

/-- A run begins to wait. -/
theorem Booked.wait (h : s.Booked) {r : Run} (hr : r.Booked s.toSupply) : (s.wait r).Booked :=
  ⟨h.supply, fun x hx => (mem_wait hx).elim (h.runs x) fun e => e ▸ hr⟩

theorem Booked.await (h : s.Booked) (r : Run) (schema : Schema) : (s.await r schema).Booked := by
  obtain ⟨supply, awaits⟩ := h.supply.gather r.agent schema
  have work : s.toSupply.Work r.agent (s.toSupply.gather r.agent schema).1 := Supply.gather_work schema
  refine (h.work supply work s.launches).wait
    ⟨fun due result e => (by cases e), fun g e => ?_, fun d hd => ?_⟩
  · cases e; exact awaits
  · obtain ⟨x, hx, rfl⟩ := List.mem_map.1 hd
    have := Supply.gather_due schema x hx
    show (s.toSupply.gather r.agent schema).1.now ≤ x.due
    rw [work.now]
    omega

/-- A run finds no schema and waits for the reply to its call. -/
theorem Booked.ask (h : s.Booked) {l : Launch} {id : String} {r : Run} (r_agent : r.agent = l.agent)
    (strategy : r.strategy = id)
    (stage : r.stage = .schema (s.now + (s.source.schema id).delay) (s.source.schema id).result) :
    ((s.call l id).wait r).Booked := by
  have shown := h.publish l.binding l.generation (·.toLoading id)
  have called : (s.call l id).Booked :=
    shown.work (shown.supply.record ..) (Supply.askSchema_work id) _
  refine called.wait ⟨fun due result e => ?_, fun g e => ?_, fun d hd => ?_⟩
  · rw [stage] at e
    cases e
    simp [call, Supply.askSchema, r_agent, strategy]
  · rw [stage] at e
    cases e
  · rw [Run.dues, stage, List.mem_singleton] at hd
    show (s.call l id).now ≤ d
    rw [call_now]
    omega

theorem Booked.move (h : s.Booked) (m : Move s t) : t.Booked := by
  have without {front back : List Run} {r : Run} (place : s.runs = front ++ r :: back) :
      Booked { s with runs := front ++ back } :=
    h.fewer fun x hx => mem_of_mem_others place hx
  cases m with
  | pass later due =>
    exact ⟨⟨h.supply.1, h.supply.2⟩, fun r hr =>
      ⟨(h.runs r hr).schema, (h.runs r hr).fragments, due r hr⟩⟩
  | @clear l rest => exact (h.work h.supply (.refl .foreground _) rest).publish ..
  | @skip l rest id => exact h.lookUp l.agent id rest
  | @slip l rest id schema =>
    have looked := h.lookUp l.agent id rest
    exact looked.work (looked.supply.gather l.agent schema).1 (Supply.gather_work schema) _
  | leave place _ last =>
    exact (without place).work (h.leaves (mem_of_place place) last) last.work s.launches
  | @hit l rest id => exact (h.lookUp l.agent id rest).await ..
  | @miss l rest id => exact (h.lookUp l.agent id rest).ask rfl rfl rfl
  | refuse place | finish place => exact (without place).publish ..
  | @obtain front r back due schema place _ stage here =>
    exact ((without place).work
      (h.supply.receiveSchema ((h.runs r (mem_of_place place)).calledSchema stage here))
      (Supply.receiveSchema_work r.strategy (.ok schema)) s.launches).await ..
  | @arrive front r back g place _ stage =>
    have hr := h.runs r (mem_of_place place)
    have work : s.toSupply.Work r.agent (s.toSupply.arrive r.agent g).1 := Supply.arrive_work
    refine ⟨h.supply.arrive (hr.calledFragment stage), fun x hx => ?_⟩
    rcases mem_or_eq_of_place place hx with hx | rfl
    · exact (h.runs x hx).mono work.now fun _ => work.history.mem
    · refine ⟨fun due result e => (by cases e), fun g' e y hy => ?_, fun d hd => ?_⟩
      · cases e
        rw [Supply.arrive_arrivals] at hy
        exact work.history.mem (hr.fragments g stage y (List.mem_filter.1 hy).1)
      · obtain ⟨y, hy, rfl⟩ := List.mem_map.1 hd
        rw [Supply.arrive_arrivals] at hy
        have := (List.mem_filter.1 hy).2
        show (s.toSupply.arrive r.agent g).1.now ≤ y.due
        rw [work.now]
        exact Nat.le_of_lt (by simpa using this)
  | lookUp id => exact h.lookUp .foreground id s.launches
  | forget id =>
    exact ⟨h.supply.of_grows (h.supply.cache.invalidateSchema id) (.refl ..), fun r hr =>
      (h.runs r hr).mono rfl fun _ hd => hd⟩
  | call id => exact h.work (h.supply.record ..) (Supply.askSchema_work id) s.launches
  | receive => exact h.work (h.supply.receiveSchema (.inl rfl)) (Supply.receiveSchema_work _ _) s.launches
  | gather schema => exact h.work (h.supply.gather _ schema).1 (Supply.gather_work schema) s.launches
  | take => exact h.work (h.supply.arrive fun _ _ _ => .inl rfl) Supply.arrive_work s.launches

theorem Booked.step (h : s.Booked) (x : Step) : (s.step x).1.Booked :=
  step_induction x (fun m h => h.move m)
    (fun _ h => ⟨⟨h.supply.1, h.supply.2⟩, fun r hr => (h.runs r hr).mono rfl fun _ hd => hd⟩)
    (fun op h => ⟨h.supply.apply op, fun r hr =>
      (h.runs r hr).mono rfl (List.subset_append_left ..)⟩)
    (fun _ _ h => ⟨h.supply, h.runs⟩) (fun _ _ h => ⟨h.supply, h.runs⟩) h

theorem Booked.start (ttl : Nat) (source : Source) (n : Nat) (luck : Luck) :
    (start { ttl } source n luck).Booked := by
  exact ⟨⟨.empty ttl, by simp [Session.start]⟩, by simp [Session.start]⟩

/-- In every session the history accounts for the cache. -/
theorem booked_steps (ttl : Nat) (source : Source) (n : Nat) (luck : Luck) (list : List Step) :
    ((start { ttl } source n luck).steps list).Booked :=
  steps_induction (fun x h => h.step x) (.start ttl source n luck) list

end StrategyForm.Session
