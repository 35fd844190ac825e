import StrategyForm.Proofs.Session.Publication
import StrategyForm.Proofs.Session.Truth

/-!
# The cache and the history are invisible

Main statement (`form_unchanged`): as long as the source is not changed and nothing is put in the
cache by hand, every answer is the one of a fresh session with that source, and every settled state
of a binding shows the same form, or the same fault. The time to live, the delays and all that was
done before make no difference.

The invariant (`Faithful`) says that the cache holds what the source gives, that what a run waits
for comes from the source and misses no fragment, and that the states published so far are true.
-/

namespace StrategyForm

/-- A resolution without the remark where the schema came from. -/
def Resolution.content (r : Resolution) : Schema × List Section := (r.schema, r.sections)

namespace Session

/-- A state shows a form, or why there is none. -/
def State.Shows (st : State) : Except Fault (Schema × List Section) → Prop
  | .ok (schema, sections) => st.schema = some schema ∧ st.sections = sections ∧ st.error = none
  | .error e => st.schema = none ∧ st.sections = [] ∧ st.error = some e.message

/-- If the state is settled and is about a strategy, it shows that strategy's form. -/
def State.IsTrue (st : State) (form : String → Except Fault (Schema × List Section)) : Prop :=
  ∀ id, st.loading = false → 0 < st.generation → st.strategyId = some id → st.Shows (form id)

/-- What a run waits for comes from the source. -/
structure Run.Faithful (r : Run) (source : Source) : Prop where
  schema : ∀ due result, r.stage = .schema due result → result = (source.schema r.strategy).result
  fragments : ∀ g, r.stage = .fragments g →
    source.truth r.strategy = .ok g.schema ∧ g.Gathers source g.schema

structure Faithful (s : Session) : Prop where
  supply : s.toSupply.Faithful
  runs : ∀ r ∈ s.runs, r.Faithful s.source
  published : ∀ b st, .published b st ∈ s.history → st.IsTrue s.source.form

variable {s t : Session} {b g : Nat}

/-! ### Moves -/

namespace Faithful

theorem of_supply (h : s.Faithful) {supply : Supply} (faithful : supply.Faithful)
    (source : supply.source = s.source)
    (silent : Grows Deed.IsSilent s.history supply.history)
    (launches : List Launch) : Faithful { s with launches, toSupply := supply } := by
  refine ⟨faithful, fun r hr => ?_, fun b st hd => ?_⟩
  · show r.Faithful supply.source
    rw [source]
    exact h.runs r hr
  · show st.IsTrue supply.source.form
    rw [source]
    rcases silent.mem_cases hd with hd | none
    · exact h.published b st hd
    · exact absurd (none b) (by simp [Deed.shown?])

theorem work (h : s.Faithful) {a : Agent} {supply : Supply} (faithful : supply.Faithful)
    (work : s.toSupply.Work a supply) (launches : List Launch) :
    Faithful { s with launches, toSupply := supply } :=
  h.of_supply faithful work.source work.silent launches

theorem look (h : s.Faithful) (a : Agent) (id : String) (launches : List Launch) :
    (look { s with launches } a id).Faithful :=
  h.of_supply (h.supply.lookUpSchema a id) rfl (lookUpSchema_silent ..) launches

theorem ask (h : s.Faithful) (a : Agent) (id : String) : (s.fetch (·.askSchema a id)).1.Faithful := by
  have faithful : (s.toSupply.askSchema a id).1.Faithful := h.supply
  exact h.work faithful (Supply.askSchema_work id) s.launches

theorem fewer (h : s.Faithful) {runs : List Run} (fewer : ∀ r ∈ runs, r ∈ s.runs) :
    Faithful { s with runs } :=
  ⟨h.supply, fun r hr => h.runs r (fewer r hr), h.published⟩

theorem publish (h : s.Faithful) {update : State → State}
    (new : (s.shown b g update).IsTrue s.source.form) : (s.publish b g update).Faithful := by
  refine ⟨?_, ?_, fun b' st hd => ?_⟩
  · show (s.publish b g update).cache.All _ _
    rw [publish_cache, publish_source]
    exact h.supply
  · rw [publish_runs, publish_source]
    exact h.runs
  · rw [publish_source]
    rw [publish_history] at hd
    rcases List.mem_append.1 hd with hd | hd
    · exact h.published b' st hd
    · split at hd
      · cases List.mem_singleton.1 hd
        exact new
      · cases hd

theorem wait (h : s.Faithful) {r : Run} (hr : r.Faithful s.source) : (s.wait r).Faithful :=
  ⟨h.supply, fun x hx => (mem_wait hx).elim (h.runs x) fun e => e ▸ hr, h.published⟩

theorem await (h : s.Faithful) {r : Run} {schema : Schema}
    (given : s.source.truth r.strategy = .ok schema) : (s.await r schema).Faithful := by
  have work : s.toSupply.Work r.agent (s.toSupply.gather r.agent schema).1 := Supply.gather_work schema
  refine (h.work (h.supply.gather r.agent schema) work s.launches).wait ⟨?_, ?_⟩
  · rintro due result ⟨⟩
  · rintro g ⟨⟩
    show (s.toSupply.gather r.agent schema).1.source.truth _ = _ ∧
      Gathering.Gathers _ (s.toSupply.gather r.agent schema).1.source _
    rw [work.source, Supply.gather_schema]
    exact ⟨given, h.supply.gathers r.agent schema⟩

/-- A run that is cancelled puts in the cache what it waited for, and asks the source for the rest. -/
theorem leaves (h : s.Faithful) {r : Run} (hr : r ∈ s.runs) {u : Supply} (last : r.Leaves s.toSupply u) :
    u.Faithful := by
  have hr := h.runs r hr
  cases last with
  | silent => exact h.supply
  | store stage => exact h.supply.receiveSchema (hr.schema _ _ stage) r.agent
  | ask stage => exact (h.supply.receiveSchema (hr.schema _ _ stage) r.agent).gather r.agent _
  | arrive stage => exact h.supply.arrive (hr.fragments _ stage).2.arrivals r.agent

end Faithful

theorem isTrue_toResolved {st : State} {id : String} {schema : Schema} {source : Source}
    (given : source.truth id = .ok schema) {sections : List Section}
    (assembled : sections = assembleSections schema (source.outcomes schema)) :
    State.IsTrue { st.toResolved id schema sections with generation := g } source.form := by
  rintro id' - - ⟨⟩
  rw [Source.form, given, assembled]
  exact ⟨rfl, rfl, rfl⟩

theorem isTrue_toFailed {st : State} {id : String} {e : Fault} {source : Source}
    (given : source.truth id = .error e) :
    State.IsTrue { st.toFailed id e with generation := g } source.form := by
  rintro id' - - ⟨⟩
  rw [Source.form, given]
  exact ⟨rfl, rfl, rfl⟩

theorem Faithful.move (h : s.Faithful) (m : Move s t) : t.Faithful := by
  have without {front back : List Run} {r : Run} (place : s.runs = front ++ r :: back) :
      Faithful { s with runs := front ++ back } :=
    h.fewer fun x hx => mem_of_mem_others place hx
  cases m with
  | pass => exact ⟨h.supply, h.runs, h.published⟩
  | forget id => exact ⟨Cache.All.invalidateSchema h.supply id, h.runs, h.published⟩
  | @clear l rest =>
    refine (h.of_supply h.supply rfl (.refl ..) rest).publish ?_
    rintro id - - ⟨⟩
  | skip | lookUp => exact h.look ..
  | @slip l rest id schema =>
    exact (h.look l.agent id rest).work ((h.look l.agent id rest).supply.gather l.agent schema)
      (Supply.gather_work schema) rest
  | leave place _ last =>
    exact (without place).work (h.leaves (mem_of_place place) last) last.work s.launches
  | @hit l rest id stage schema first strategy current found =>
    exact (h.look l.agent id rest).await (h.supply.schemas.get? found).choose_spec
  | @miss l rest id =>
    have shown : (({ s with launches := rest }.look l.agent id).publish l.binding l.generation
        (·.toLoading id)).Faithful :=
      (h.look l.agent id rest).publish fun _ loading => nomatch loading
    refine (shown.ask l.agent id).wait ⟨?_, fun _ e => nomatch e⟩
    rintro due result ⟨⟩
    show _ = ((Session.publish _ _ _ _).source.schema id).result
    rw [publish_source]
    rfl
  | @refuse front r back due e place _ stage =>
    have hr := h.runs r (mem_of_place place)
    exact (without place).publish (isTrue_toFailed (Source.truth_of_error (hr.schema due _ stage).symm))
  | @obtain front r back due schema place _ stage =>
    have hr := h.runs r (mem_of_place place)
    have reply := hr.schema due _ stage
    exact ((without place).work (h.supply.receiveSchema reply r.agent)
      (Supply.receiveSchema_work r.strategy (.ok schema)) s.launches).await (Source.truth_of_ok reply.symm)
  | @arrive front r back g place _ stage =>
    have hr := mem_of_place place
    obtain ⟨given, gathers⟩ := (h.runs r hr).fragments g stage
    have arrived := h.work (h.supply.arrive gathers.arrivals r.agent) Supply.arrive_work s.launches
    refine ⟨arrived.supply, fun x hx => ?_, arrived.published⟩
    rcases mem_or_eq_of_place place hx with hx | rfl
    · exact arrived.runs x hx
    · refine ⟨fun due result e => (by cases e), ?_⟩
      rintro _ ⟨⟩
      show (s.toSupply.arrive r.agent g).1.source.truth r.strategy = .ok _ ∧
        Gathering.Gathers _ (s.toSupply.arrive r.agent g).1.source _
      rw [Supply.arrive_work.source, Supply.arrive_schema]
      exact ⟨given, Supply.arrive_gathers gathers⟩
  | @finish front r back g place _ stage complete =>
    obtain ⟨given, gathers⟩ := (h.runs r (mem_of_place place)).fragments g stage
    exact (without place).publish (isTrue_toResolved given
      (gathers.sections_eq (List.isEmpty_iff.1 complete)))
  | call id => exact h.ask .foreground id
  | receive reply => exact h.work (h.supply.receiveSchema reply _) (Supply.receiveSchema_work ..) s.launches
  | gather schema => exact h.work (h.supply.gather _ schema) (Supply.gather_work schema) s.launches
  | take reply => exact h.work (h.supply.arrive reply _) Supply.arrive_work s.launches

theorem Moves.faithful (m : Moves s t) (h : s.Faithful) : t.Faithful :=
  m.induction (fun m h => h.move m) h

/-! ### Steps -/

/-- The step leaves the source as it is and puts nothing in the cache by hand. -/
def Step.isHonest : Step → Bool
  | .setSource .. | .cache (.putSchema _) | .cache (.putFragment ..) => false
  | _ => true

theorem Faithful.startRun (h : s.Faithful) (b : Nat) (requested : Option String) :
    (s.startRun b requested).Faithful :=
  ⟨h.supply, h.runs, h.published⟩

theorem Faithful.close (h : s.Faithful) (b : Nat) (isDropped : Bool) : (s.close b isDropped).Faithful :=
  ⟨h.supply, h.runs, h.published⟩

theorem Faithful.operate (h : s.Faithful) {operation : Cache.Operation}
    (honest : (Step.cache operation).isHonest = true) : (s.operate operation).Faithful := by
  refine ⟨Cache.All.apply h.supply operation ?_ ?_, h.runs, fun b st hd => ?_⟩
  · rintro schema rfl
    cases honest
  · rintro id f rfl
    cases honest
  · rcases List.mem_append.1 hd with hd | hd
    · exact h.published b st hd
    · exact absurd (written_silent _ _ _ hd b) (by simp [Deed.shown?])

theorem Faithful.step (h : s.Faithful) {x : Step} (honest : x.isHonest = true) :
    (s.step x).1.Faithful ∧ (s.step x).1.source = s.source := by
  cases x with
  | tick | fetchFragments | buildSections | fetchSchema | resolve | refresh | invalidateCache | wait =>
    exact ⟨(step_moves (by trivial) s).faithful h, (step_moves (by trivial) s).source⟩
  | setSource => cases honest
  | cache operation => exact ⟨h.operate honest, rfl⟩
  | setStrategy b requested =>
    show (s.setStrategy b requested).1.Faithful ∧ (s.setStrategy b requested).1.source = s.source
    cases changed : (s.setStrategy b requested).2 with
    | true => rw [setStrategy_of_changed changed]; exact ⟨h.startRun b requested, rfl⟩
    | false => rw [(setStrategy_of_unchanged changed).1]; exact ⟨h, rfl⟩
  | refetch b =>
    have moves := invalidateCache_moves s b
    exact ⟨(moves.faithful h).startRun b _, moves.source⟩
  | shutdown b => exact ⟨h.close b _, rfl⟩
  | drop b => exact ⟨h.close b true, rfl⟩

theorem Faithful.steps (list : List Step) (h : s.Faithful) (honest : ∀ x ∈ list, x.isHonest = true) :
    (s.steps list).Faithful ∧ (s.steps list).source = s.source := by
  induction list generalizing s with
  | nil => exact ⟨h, rfl⟩
  | cons x rest ih =>
    rw [List.forall_mem_cons] at honest
    obtain ⟨h, source⟩ := h.step honest.1
    obtain ⟨h, source'⟩ := ih h honest.2
    exact ⟨h, source'.trans source⟩

theorem Faithful.start (ttl : Nat) (source : Source) (n : Nat) (luck : Luck) :
    (start { ttl } source n luck).Faithful :=
  ⟨.empty ttl, by simp [Session.start], by simp [Session.start]⟩

/-! ### Answers -/

/-- The sections of a schema are the ones that the source gives. -/
theorem Faithful.fetchFragments (h : s.Faithful) (schema : Schema) :
    (s.fetchFragments schema).2.sections = assembleSections schema (s.source.outcomes schema) := by
  obtain ⟨⟨-, gathers⟩, complete⟩ := fetchFragments_induction s schema
    (P := fun t g => t.source = s.source ∧ g.Gathers s.source schema)
    (fun t g due ⟨source, gathers⟩ => by
      have same : (t.passUntil due).source = s.source := (passUntil_moves t due).source.trans source
      rw [← same] at gathers ⊢
      exact ⟨Supply.arrive_work.source, Supply.arrive_gathers gathers⟩)
    ⟨(Supply.gather_work schema).source, h.supply.gathers .foreground schema⟩
  exact gathers.sections_eq complete

theorem fetchSchema_snd (s : Session) (id : String) : (s.fetchSchema id).2 = s.source.truth id := by
  simp only [fetchSchema]
  rw [fetch_snd, Supply.receiveSchema_snd]
  rfl

/-- The answer is the form of the strategy, whatever the cache holds. -/
theorem Faithful.resolve (h : s.Faithful) (id : String) :
    (s.resolve id).2.map Resolution.content = s.source.form id := by
  have look : Move s (s.look .foreground id) := .lookUp id
  cases found : s.cache.schema? s.now id with
  | some schema =>
    have given : s.source.truth id = .ok schema := (h.supply.schemas.get? found).choose_spec
    rw [resolve_of_found found, Source.form, given]
    show Except.ok (schema, _) = Except.ok (schema, _)
    rw [(h.move look).fetchFragments schema]
    rfl
  | none =>
    rw [resolve_of_missing found]
    have moves := fetchSchema_moves (s.look .foreground id) id
    have given : ((s.look .foreground id).fetchSchema id).2 = s.source.truth id := fetchSchema_snd ..
    have source : ((s.look .foreground id).fetchSchema id).1.source = s.source :=
      moves.source.trans look.source
    have h := moves.faithful (h.move look)
    generalize (s.look .foreground id).fetchSchema id = x at *
    obtain ⟨t, result⟩ := x
    cases result with
    | error e =>
      rw [Source.form, ← given]
      rfl
    | ok schema =>
      rw [Source.form, ← given]
      show Except.ok (schema, _) = Except.ok (schema, _)
      rw [h.fetchFragments schema, source]

theorem Faithful.refresh (h : s.Faithful) (id : String) :
    (s.refresh id).2.map Resolution.content = s.source.form id :=
  (h.move (.forget id)).resolve id

/-- As long as the source is not changed and nothing is put in the cache by hand, what is resolved or
refreshed is what a session with an empty cache resolves, and so is whatever a binding publishes and
shows when it has settled. -/
theorem form_unchanged (ttl fresh : Nat) (source : Source) (n : Nat) (luck : Luck) (list : List Step)
    (honest : ∀ x ∈ list, x.isHonest = true) :
    let s := (start { ttl } source n luck).steps list
    let form (id : String) := ((start { ttl := fresh } source 0).resolve id).2.map Resolution.content
    (∀ id, (s.resolve id).2.map Resolution.content = form id ∧
      (s.refresh id).2.map Resolution.content = form id) ∧
    ∀ (b : Fin n) (st : State), st = (s.binding b).state ∨ st ∈ s.published b → st.IsTrue form := by
  intro s form
  obtain ⟨h, kept⟩ : s.Faithful ∧ s.source = source := (Faithful.start ttl source n luck).steps list honest
  have given : form = s.source.form := by
    funext id
    exact ((Faithful.start fresh source 0 _).resolve id).trans (by rw [kept]; rfl)
  rw [given]
  refine ⟨fun id => ⟨h.resolve id, h.refresh id⟩, fun b st shown => ?_⟩
  have published : ∀ st ∈ s.published b, st.IsTrue s.source.form := fun st hst =>
    h.published b st (mem_published.1 hst)
  rcases shown with rfl | hst
  · rw [(disciplined_steps _ source n luck list).shows b (lt_steps_length _ source luck b list)]
    cases last : (s.published b).getLast? with
    | none => exact fun _ _ pos => absurd pos (Nat.lt_irrefl 0)
    | some st => exact published st (List.mem_of_getLast? last)
  · exact published st hst

/-- A strategy that is shown, forgotten and shown again has the form of a fresh session. -/
theorem form_unchanged_by_refetch :
    let grid : Schema := { id := "", name := "Grid", fragments := [.mandatory "rsi"] }
    let source : Source :=
      { schema? := fun _ => some { delay := 10, result := .ok grid },
        fragment? := fun id => some { delay := 3, result := .ok { id, name := "RSI" } } }
    let list : List Step := [.setStrategy 0 (some "grid"), .tick 20, .refetch 0, .tick 20]
    let st := (((start { ttl := 5 } source 1).steps list).binding 0).state
    (∀ x ∈ list, x.isHonest = true) ∧ st.generation = 2 ∧
      st.Shows (((start { ttl := 1000 } source 0).resolve "grid").2.map Resolution.content) :=
  ⟨by decide, by decide, (form_unchanged 5 1000 _ 1 _ _ (by decide)).2 0 _ (.inl rfl) "grid" (by decide)
    (by decide) (by decide)⟩

end Session

end StrategyForm
