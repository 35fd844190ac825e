import StrategyForm.Proofs.Session.Orderly

/-!
# What a binding shows is coherent

Main statement: after every step of every session, what a binding shows is not torn (`State.Sound`:
an error stands alone, the sections are those of the schema that is shown, a settled state shows the
schema it was asked for) and not stale (`Binding.Coherent`: it is no newer than the latest run, and
if it is that run's, it is about the requested strategy).

The invariant (`Coherent`) says besides that the cache keeps every schema under its own id, and that
launches and waiting runs are for the requested strategy as long as they are the latest.
-/

namespace StrategyForm.Session

/-- The parts of a state agree with each other. -/
structure State.Sound (st : State) : Prop where
  failed : st.error ≠ none → st.schema = none ∧ st.sections = [] ∧ st.loading = false
  blank : st.schema = none → st.sections = []
  assembled : ∀ schema, st.schema = some schema →
    ∃ outcomes, st.sections = assembleSections schema outcomes
  resolved : st.loading = false → ∀ schema, st.schema = some schema →
    st.strategyId = some schema.id ∧ st.error = none
  loading : st.loading = true → st.strategyId ≠ none ∧ st.error = none
  answered : st.loading = false → 0 < st.generation → st.strategyId ≠ none →
    (st.schema ≠ none ∧ st.error = none) ∨ (st.schema = none ∧ st.error ≠ none)
  cleared : st.loading = false → 0 < st.generation → st.strategyId = none →
    st.schema = none ∧ st.error = none

/-- What a binding shows is sound, no newer than its latest run, and about the requested strategy
if that run published it. -/
structure Binding.Coherent (b : Binding) : Prop where
  sound : b.state.Sound
  generation_le : b.state.generation ≤ b.generation
  requested : b.state.generation = b.generation → 0 < b.generation →
    b.state.strategyId = b.requested

/-- The cache keeps every schema under its own id. -/
def KeepsIds (c : Cache) : Prop := c.schemas.All fun id e => e.value.id = id

structure Coherent (s : Session) : Prop where
  cache : KeepsIds s.cache
  bindings : ∀ b, (s.binding b).Coherent
  launches : ∀ l ∈ s.launches, l.generation = (s.binding l.binding).generation →
    l.strategy = (s.binding l.binding).requested
  runs : ∀ r ∈ s.runs, r.generation = (s.binding r.binding).generation →
    (s.binding r.binding).requested = some r.strategy
  gatherings : ∀ r ∈ s.runs, ∀ g, r.stage = .fragments g → g.schema.id = r.strategy

variable {s t : Session}

/-! ### The four kinds of states -/

namespace State
variable {st : State} {g : Nat}

theorem Sound.toCleared : Sound { st.toCleared with generation := g } := by
  constructor <;> simp [State.toCleared]

theorem Sound.toFailed (id : String) (e : Fault) : Sound { st.toFailed id e with generation := g } := by
  constructor <;> simp [State.toFailed]

theorem Sound.toLoading (h : st.Sound) (id : String) :
    Sound { st.toLoading id with generation := g } := by
  constructor
  case blank => exact h.blank
  case assembled => exact h.assembled
  all_goals simp [State.toLoading]

theorem Sound.toResolved {id : String} {schema : Schema} (own : schema.id = id) (outcomes : Outcomes) :
    Sound { st.toResolved id schema (assembleSections schema outcomes) with generation := g } := by
  constructor
  case assembled => rintro _ ⟨⟩; exact ⟨outcomes, rfl⟩
  case resolved => rintro - _ ⟨⟩; simp [State.toResolved, own]
  all_goals simp [State.toResolved]

end State

theorem Binding.Coherent.fresh : Coherent {} := by
  constructor
  case sound => constructor <;> simp
  all_goals simp

/-! ### The cache -/

theorem KeepsIds.of_eq {c d : Cache} (h : KeepsIds c) (e : d.schemas = c.schemas) : KeepsIds d := by
  rw [KeepsIds, e]
  exact h

theorem KeepsIds.apply {c : Cache} (h : KeepsIds c) (now : Nat) (operation : Cache.Operation) :
    KeepsIds (c.apply now operation).1 :=
  (Cache.All.apply (Q := fun _ _ => True) ⟨h, fun _ _ _ => trivial⟩ operation (fun _ _ => rfl)
    fun _ _ _ => trivial).schemas

theorem KeepsIds.receiveSchema {u : Supply} (h : KeepsIds u.cache) (a : Agent) (id : String)
    (result : Except Fault Schema) : KeepsIds (u.receiveSchema a id result).1.cache := by
  cases result with
  | ok schema => exact Store.All.put h (show ({ schema with id } : Schema).id = id from rfl)
  | error e => exact h

theorem KeepsIds.leaves {r : Run} {u v : Supply} (h : KeepsIds u.cache) (last : r.Leaves u v) :
    KeepsIds v.cache := by
  cases last with
  | silent => exact h
  | store => exact h.receiveSchema r.agent r.strategy (.ok _)
  | ask => exact (h.receiveSchema r.agent r.strategy (.ok _)).of_eq (Supply.gather_schemas _)
  | arrive => exact h.of_eq Supply.arrive_schemas

theorem KeepsIds.id_eq {c : Cache} (h : KeepsIds c) {now : Nat} {id : String} {schema : Schema}
    (found : c.schema? now id = some schema) : schema.id = id :=
  (h.get? found).choose_spec

/-! ### Moves -/

/-- A run publishes a sound state about the strategy that is requested. -/
theorem Coherent.publish (h : s.Coherent) {b g : Nat} {update : State → State}
    (current : (s.binding b).isCurrent g = true → (s.shown b g update).Sound ∧
      (s.shown b g update).strategyId = (s.binding b).requested) :
    (s.publish b g update).Coherent := by
  refine ⟨by simpa using h.cache, fun b' => ?_, by simpa using h.launches, by simpa using h.runs,
    by simpa using h.gatherings⟩
  rw [publish_binding]
  split
  · rename_i now
    obtain ⟨rfl, -, now⟩ := now
    obtain ⟨sound, strategy⟩ := current now
    have latest := (Binding.isCurrent_iff.1 now).2
    exact ⟨sound, Nat.le_of_eq latest.symm, fun _ _ => strategy⟩
  · exact h.bindings b'

/-- Nothing but the cache and the lists of runs matters besides the bindings. -/
theorem Coherent.of_bindings (h : s.Coherent) (bindings : t.bindings = s.bindings)
    (cache : KeepsIds t.cache) (launches : ∀ l ∈ t.launches, l ∈ s.launches)
    (runs : ∀ r ∈ t.runs, (r.generation = (s.binding r.binding).generation →
        (s.binding r.binding).requested = some r.strategy) ∧
      ∀ g, r.stage = .fragments g → g.schema.id = r.strategy) : t.Coherent := by
  have same := binding_congr bindings
  refine ⟨cache, fun b => ?_, fun l hl => ?_, fun r hr => ?_, fun r hr => (runs r hr).2⟩
  · rw [same]; exact h.bindings b
  · rw [same]; exact h.launches l (launches l hl)
  · rw [same]; exact (runs r hr).1

theorem Coherent.of_supply (h : s.Coherent) {supply : Supply} (cache : KeepsIds supply.cache) :
    Coherent { s with toSupply := supply } :=
  h.of_bindings rfl cache (fun _ hl => hl) fun r hr => ⟨h.runs r hr, h.gatherings r hr⟩

/-- A run that has its schema waits for the fragments of that schema. -/
theorem Coherent.await (h : s.Coherent) {r : Run} {schema : Schema}
    (requested : r.generation = (s.binding r.binding).generation →
      (s.binding r.binding).requested = some r.strategy) (own : schema.id = r.strategy) :
    (s.await r schema).Coherent := by
  have keeps : KeepsIds (s.toSupply.gather r.agent schema).1.cache :=
    h.cache.of_eq (Supply.gather_schemas schema)
  refine (h.of_supply keeps).of_bindings rfl keeps (fun _ hl => hl) fun x hx => ?_
  rcases mem_wait hx with hx | rfl
  · exact ⟨h.runs x hx, h.gatherings x hx⟩
  · refine ⟨requested, fun g hg => ?_⟩
    cases hg
    rw [Supply.gather_schema]
    exact own

theorem Coherent.started (h : s.Coherent) {l : Launch} {rest : List Launch}
    (first : s.launches = l :: rest) {supply : Supply} (cache : KeepsIds supply.cache) :
    Coherent { s with launches := rest, toSupply := supply } :=
  h.of_bindings rfl cache (fun _ => mem_of_mem_rest first)
    fun r hr => ⟨h.runs r hr, h.gatherings r hr⟩

theorem Coherent.without (h : s.Coherent) {front back : List Run} {r : Run}
    (place : s.runs = front ++ r :: back) : Coherent { s with runs := front ++ back } :=
  h.of_bindings rfl h.cache (fun _ hl => hl) fun x hx =>
    ⟨h.runs x (mem_of_mem_others place hx), h.gatherings x (mem_of_mem_others place hx)⟩

theorem Coherent.requested (h : s.Coherent) {l : Launch} {rest : List Launch}
    (first : s.launches = l :: rest)
    (current : (s.binding l.binding).isCurrent l.generation = true) :
    (s.binding l.binding).requested = l.strategy :=
  (h.launches l (by simp [first]) (Binding.isCurrent_iff.1 current).2.symm).symm

theorem Coherent.move (h : s.Coherent) (m : Move s t) : t.Coherent := by
  have look (a : Agent) (id : String) : KeepsIds (s.toSupply.lookUpSchema a id).1.cache :=
    h.cache.of_eq (Cache.getSchema_schemas ..)
  have latest {front back : List Run} {r : Run} (place : s.runs = front ++ r :: back)
      (current : (s.binding r.binding).isCurrent r.generation = true) :
      (s.binding r.binding).requested = some r.strategy :=
    h.runs r (mem_of_place place) (Binding.isCurrent_iff.1 current).2.symm
  cases m with
  | pass => exact h.of_supply h.cache
  | clear first none =>
    refine (h.started first h.cache).publish fun current => ⟨.toCleared, ?_⟩
    exact ((h.requested first current).trans none).symm
  | skip first => exact h.started first (look _ _)
  | slip first => exact h.started first ((look _ _).of_eq (Supply.gather_schemas _))
  | leave place _ last => exact (h.without place).of_supply (h.cache.leaves last)
  | hit first strategy current found =>
    exact (h.started first (look _ _)).await (fun _ => (h.requested first current).trans strategy)
      (h.cache.id_eq found)
  | @miss l rest id first strategy current =>
    have start := h.started first (look l.agent id)
    have shown : (({ s with launches := rest }.look l.agent id).publish l.binding l.generation
        (·.toLoading id)).Coherent := start.publish fun _ =>
      ⟨(h.bindings _).sound.toLoading id, ((h.requested first current).trans strategy).symm⟩
    refine shown.of_bindings rfl ?_ (fun _ hl => hl) fun x hx => ?_
    · exact shown.cache
    · rcases mem_wait hx with hx | rfl
      · exact ⟨shown.runs x hx, shown.gatherings x hx⟩
      · refine ⟨fun _ => ?_, fun g hg => by cases hg⟩
        rw [publish_requested]
        exact (h.requested first current).trans strategy
  | @refuse front r back due e place current =>
    refine (h.without place).publish fun _ => ⟨.toFailed r.strategy e, ?_⟩
    exact (latest place current).symm
  | @obtain front r back due schema place =>
    have received := (h.without place).of_supply (h.cache.receiveSchema r.agent r.strategy (.ok schema))
    exact received.await (h.runs r (mem_of_place place)) rfl
  | @arrive front r back g place _ stage =>
    have keeps : KeepsIds (s.toSupply.arrive r.agent g).1.cache := h.cache.of_eq Supply.arrive_schemas
    have hr := mem_of_place place
    refine (h.of_supply keeps).of_bindings rfl keeps (fun _ hl => hl) fun x hx => ?_
    rcases mem_or_eq_of_place place hx with hx | rfl
    · exact ⟨h.runs x hx, h.gatherings x hx⟩
    · refine ⟨h.runs r hr, fun g' hg => ?_⟩
      cases hg
      rw [Supply.arrive_schema]
      exact h.gatherings r hr g stage
  | @finish front r back g place current stage =>
    have hr := mem_of_place place
    refine (h.without place).publish fun _ => ⟨.toResolved (h.gatherings r hr g stage) g.outcomes, ?_⟩
    exact (latest place current).symm
  | lookUp id => exact h.of_supply (look _ _)
  | forget id => exact h.of_supply (h.cache.remove id)
  | call id => exact h.of_supply h.cache
  | receive => exact h.of_supply (h.cache.receiveSchema _ _ _)
  | gather schema => exact h.of_supply (h.cache.of_eq (Supply.gather_schemas schema))
  | take => exact h.of_supply (h.cache.of_eq Supply.arrive_schemas)

/-! ### Commands -/

/-- The new run is the latest, so nothing that was shown before it counts as its own. -/
theorem Coherent.startRun (h : s.Coherent) (o : s.Orderly) (b : Nat) (requested : Option String) :
    (s.startRun b requested).Coherent := by
  refine ⟨h.cache, fun b' => ?_, fun l hl latest => ?_, fun r hr latest => ?_, h.gatherings⟩
  · rw [startRun_binding]
    split
    · have := (h.bindings b).generation_le
      refine ⟨(h.bindings b).sound, Nat.le_succ_of_le this, fun e => ?_⟩
      have e : (s.binding b).state.generation = (s.binding b).generation + 1 := e
      omega
    · exact h.bindings b'
  · rw [startRun_binding] at latest ⊢
    rcases List.mem_append.1 hl with hl | hl
    · split
      · -- an earlier launch of the binding has a smaller number than the new run
        rename_i e
        rw [if_pos e] at latest
        have old := o.launched l.key (mem_pending_of_launch hl)
          (show l.binding < _ from e.1 ▸ e.2)
        have old : l.generation ≤ (s.binding l.binding).generation := old
        rw [← e.1] at old
        have latest : l.generation = (s.binding b).generation + 1 := latest
        omega
      · rename_i e
        rw [if_neg e] at latest
        exact h.launches l hl latest
    · rw [List.mem_singleton.1 hl] at latest ⊢
      rcases Nat.lt_or_ge b s.bindings.length with hb | hb
      · rw [if_pos ⟨rfl, hb⟩]
      · rw [if_neg fun e => Nat.not_lt.2 hb e.2] at latest
        have latest : (s.binding b).generation + 1 = (s.binding b).generation := latest
        omega
  · rw [startRun_binding] at latest ⊢
    split
    · -- a run that waits has a smaller number than the new one
      rename_i e
      rw [if_pos e, e.1] at latest
      have old := o.generation_le hr
      have latest : r.generation = (s.binding r.binding).generation + 1 := latest
      omega
    · rename_i e
      rw [if_neg e] at latest
      exact h.runs r hr latest

theorem Coherent.close (h : s.Coherent) (b : Nat) (isDropped : Bool) :
    (s.close b isDropped).Coherent := by
  refine ⟨h.cache, fun b' => ?_, fun l hl latest => ?_, fun r hr latest => ?_, h.gatherings⟩
  · rw [close_binding]
    split
    · exact ⟨(h.bindings b).sound, (h.bindings b).generation_le, (h.bindings b).requested⟩
    · exact h.bindings b'
  · rw [close_binding] at latest ⊢
    split
    · rename_i e
      rw [if_pos e] at latest
      rw [e.1] at latest ⊢
      exact h.launches l hl latest
    · rename_i e
      rw [if_neg e] at latest
      exact h.launches l hl latest
  · rw [close_binding] at latest ⊢
    split
    · rename_i e
      rw [if_pos e] at latest
      rw [e.1] at latest ⊢
      exact h.runs r hr latest
    · rename_i e
      rw [if_neg e] at latest
      exact h.runs r hr latest

theorem Coherent.step (h : s.Coherent) (o : s.Orderly) (x : Step) : (s.step x).1.Coherent :=
  o.step_induction x (fun _ m h => h.move m) (fun _ h => h.of_supply h.cache)
    (fun op h => h.of_supply (h.cache.apply _ op)) (fun b r o h => h.startRun o b r)
    (fun b d h => h.close b d) h

theorem Coherent.start (ttl : Nat) (source : Source) (n : Nat) (luck : Luck) :
    (start { ttl } source n luck).Coherent := by
  refine ⟨?_, fun b => ?_, ?_, ?_, ?_⟩
  · exact .empty _
  · have fresh : (Session.start { ttl } source n luck).binding b = {} := by
      simp only [binding, Session.start, List.getD_eq_getElem?_getD, List.getElem?_replicate]
      split <;> rfl
    rw [fresh]
    exact .fresh
  all_goals simp [Session.start]

theorem coherent_steps (ttl : Nat) (source : Source) (n : Nat) (luck : Luck) (list : List Step) :
    ((start { ttl } source n luck).steps list).Coherent :=
  orderly_induction (fun x o h => h.step o x) (.start ttl source n luck) list

/-- Whatever is done with a session, no binding ever shows a torn or a stale state. -/
theorem shown_coherent (ttl : Nat) (source : Source) (n : Nat) (luck : Luck) (list : List Step) (b : Nat) :
    (((start { ttl } source n luck).steps list).binding b).Coherent :=
  (coherent_steps ttl source n luck list).bindings b

end StrategyForm.Session
