import StrategyForm.Proofs.Session.Faithful
import StrategyForm.Proofs.Session.Foreground

/-!
# Where a schema comes from

An `Origin` says, for the schema of one strategy that the cache was made to forget, which schemas may be
met afterwards: what the source has given since to a call (`Gives`), and what a run was waiting for when
it was forgotten. It singles out the runs that were started later, and says which of the schemas under
way these may use.

The invariant (`Origin.Fresh`) keeps to this in the cache, in the runs that wait, and in the states that
the later runs publish. A move keeps it if what the source is called for in it counts as given
(`Fresh.move`); a step adds to what is given only what the source gives, and only if it is called in the
step (`Fresh.steps`).
-/

namespace StrategyForm.Session

/-- In one of the steps the source was called for the schema of a strategy, and this is what it gave. -/
def Gives (id : String) (schema : Schema) (s : Session) (list : List Step) : Prop :=
  ∃ before x after, list = before ++ x :: after ∧
    Adds (Deed.IsCall id) (s.steps before).history ((s.steps before).step x).1.history ∧
    (s.steps before).source.truth id = .ok schema

namespace Gives
variable {id : String} {schema : Schema} {s : Session} {list : List Step}

theorem head {x : Step} (adds : Adds (Deed.IsCall id) s.history (s.step x).1.history)
    (truth : s.source.truth id = .ok schema) : Gives id schema s (x :: list) :=
  ⟨[], x, list, rfl, adds, truth⟩

theorem tail (x : Step) (h : Gives id schema (s.step x).1 list) : Gives id schema s (x :: list) := by
  obtain ⟨before, y, after, rfl, adds, truth⟩ := h
  exact ⟨x :: before, y, after, rfl, adds, truth⟩

theorem append (h : Gives id schema s list) (more : List Step) : Gives id schema s (list ++ more) := by
  obtain ⟨before, x, after, rfl, adds, truth⟩ := h
  exact ⟨before, x, after ++ more, List.append_assoc .., adds, truth⟩

end Gives

/-- The run waits for this schema, which arrives at a time. -/
def Run.Expects (r : Run) (id : String) (schema : Schema) (due : Nat) : Prop :=
  r.strategy = id ∧ ∃ reply, r.stage = .schema due (.ok reply) ∧ schema = { reply with id }

/-- The run may still receive what is due at a time: it is the latest of its binding, or that time has
come. -/
def MayReceive (s : Session) (r : Run) (due : Nat) : Prop :=
  (s.binding r.binding).isCurrent r.generation = true ∨ due ≤ s.now

/-- The schema that a run has, or that is on its way to it. -/
def Run.schema? (r : Run) : Option Schema :=
  match r.stage with
  | .schema _ (.ok schema) => some { schema with id := r.strategy }
  | .schema _ (.error _) => none
  | .fragments g => some g.schema

theorem Run.expects_of_schema? {r : Run} {due : Nat} {result : Except Fault Schema} {schema : Schema}
    (stage : r.stage = .schema due result) (h : r.schema? = some schema) :
    r.Expects r.strategy schema due := by
  cases result with
  | ok reply =>
    simp only [Run.schema?, stage, Option.some.injEq] at h
    exact ⟨rfl, reply, stage, h.symm⟩
  | error e => simp [Run.schema?, stage] at h

theorem Moves.grows {s t : Session} (m : Moves s t) : Grows (fun _ => True) s.history t.history :=
  let ⟨more, e, _⟩ := m.loads
  ⟨more, e, fun _ _ => trivial⟩

/-- Where the schema of a strategy may come from after it was forgotten: the source has given it since,
or a run was waiting for it. Of what was on its way the later runs may use what is due at some times. -/
structure Origin where
  id : String
  given : Schema → Prop
  flight : Nat → Schema → Prop
  opens : Nat → Prop
  late : Nat × Nat → Option String → Prop

namespace Origin
variable {o : Origin} {s t : Session}

def Allows (o : Origin) (schema : Schema) : Prop :=
  o.given schema ∨ ∃ due, o.opens due ∧ o.flight due schema

/-- An entry of the cache, if it is one for the strategy, was given or has arrived by now. -/
def Explains (o : Origin) (now : Nat) (k : String) (e : Entry Schema) : Prop :=
  k = o.id → o.given e.value ∨ ∃ due ≤ now, o.flight due e.value

structure Fresh (o : Origin) (s : Session) : Prop where
  cached : s.cache.schemas.All (o.Explains s.now)
  expected : ∀ r ∈ s.runs, ∀ schema due, r.Expects o.id schema due → s.MayReceive r due →
    o.given schema ∨ o.flight due schema
  launched : ∀ l ∈ s.launches, o.late l.key l.strategy →
    l.strategy = some o.id ∧ ∀ due ≤ s.now, o.opens due
  running : ∀ r ∈ s.runs, o.late r.key (some r.strategy) →
    r.strategy = o.id ∧ ∀ schema, r.schema? = some schema → o.Allows schema
  published : ∀ b st, .published b st ∈ s.history → o.late (b, st.generation) st.strategyId →
    st.loading = false → ∀ schema, st.schema = some schema → o.Allows schema

namespace Fresh

/-- What a run finds in the cache it may use. -/
theorem found (h : o.Fresh s) {schema : Schema} (found : s.cache.schema? s.now o.id = some schema) :
    o.given schema ∨ ∃ due ≤ s.now, o.flight due schema := by
  obtain ⟨e, he, -, rfl⟩ := Store.get?_eq_some found
  exact h.cached o.id e he rfl

/-- The supply did something, and put no schema in the cache. -/
theorem of_supply (h : o.Fresh s) {supply : Supply} (now : supply.now = s.now)
    (cached : supply.cache.schemas = s.cache.schemas)
    (silent : Grows Deed.IsSilent s.history supply.history) {launches : List Launch}
    (launched : ∀ l ∈ launches, l ∈ s.launches) :
    o.Fresh { s with launches, toSupply := supply } := by
  refine ⟨?_, fun r hr schema due expects may => ?_, fun l hl => ?_, h.running, fun b st hd => ?_⟩
  · show supply.cache.schemas.All (o.Explains supply.now)
    rw [cached, now]
    exact h.cached
  · exact h.expected r hr schema due expects (may.imp_right fun here => Nat.le_trans here (Nat.le_of_eq now))
  · show o.late l.key l.strategy → l.strategy = some o.id ∧ ∀ due ≤ supply.now, o.opens due
    rw [now]
    exact h.launched l (launched l hl)
  · rcases silent.mem_cases hd with hd | none
    · exact h.published b st hd
    · exact absurd (none b) (by simp [Deed.shown?])

theorem work (h : o.Fresh s) {a : Agent} {supply : Supply} (work : s.toSupply.Work a supply)
    (cached : supply.cache.schemas = s.cache.schemas) : o.Fresh { s with toSupply := supply } :=
  h.of_supply work.now cached work.silent fun _ hl => hl

theorem look (h : o.Fresh s) (a : Agent) (id : String) {launches : List Launch}
    (launched : ∀ l ∈ launches, l ∈ s.launches) : o.Fresh (look { s with launches } a id) := by
  have same : (s.toSupply.lookUpSchema a id).1.cache.schemas = s.cache.schemas :=
    Cache.getSchema_schemas ..
  exact h.of_supply (by rfl) same (lookUpSchema_silent ..) launched

theorem ask (h : o.Fresh s) (a : Agent) (id : String) : o.Fresh (s.fetch (·.askSchema a id)).1 :=
  h.work (Supply.askSchema_work (a := a) id) rfl

theorem fewer (h : o.Fresh s) {runs : List Run} (fewer : ∀ r ∈ runs, r ∈ s.runs) :
    o.Fresh { s with runs } :=
  ⟨h.cached, fun r hr => h.expected r (fewer r hr), h.launched, fun r hr => h.running r (fewer r hr),
    h.published⟩

theorem publish (h : o.Fresh s) {b g : Nat} {update : State → State}
    (new : o.late (b, g) (s.shown b g update).strategyId → (s.shown b g update).loading = false →
      ∀ schema, (s.shown b g update).schema = some schema → o.Allows schema) :
    o.Fresh (s.publish b g update) := by
  refine ⟨?_, ?_, ?_, ?_, fun b' st hd => ?_⟩
  · rw [publish_cache, publish_now]
    exact h.cached
  · simp only [publish_runs, MayReceive, publish_isCurrent, publish_now]
    exact h.expected
  · rw [publish_launches, publish_now]
    exact h.launched
  · rw [publish_runs]
    exact h.running
  · rw [publish_history] at hd
    rcases List.mem_append.1 hd with hd | hd
    · exact h.published b' st hd
    · split at hd
      · cases List.mem_singleton.1 hd
        exact new
      · cases hd

theorem wait (h : o.Fresh s) {r : Run}
    (expected : ∀ schema due, r.Expects o.id schema due → o.given schema ∨ o.flight due schema)
    (running : o.late r.key (some r.strategy) →
      r.strategy = o.id ∧ ∀ schema, r.schema? = some schema → o.Allows schema) :
    o.Fresh (s.wait r) := by
  refine ⟨h.cached, fun x hx => ?_, h.launched, fun x hx => ?_, h.published⟩
  · rcases mem_wait hx with hx | rfl
    · exact h.expected x hx
    · exact fun schema due expects _ => expected schema due expects
  · rcases mem_wait hx with hx | rfl
    · exact h.running x hx
    · exact running

/-- A run goes on with a schema that it may use. -/
theorem await (h : o.Fresh s) {r : Run} {schema : Schema}
    (running : o.late r.key (some r.strategy) → r.strategy = o.id ∧ o.Allows schema) :
    o.Fresh (s.await r schema) := by
  have gathered := h.work (Supply.gather_work (a := r.agent) schema) (Supply.gather_schemas schema)
  refine gathered.wait (fun _ _ expects => ?_) fun late => ?_
  · obtain ⟨-, _, stage, -⟩ := expects
    cases stage
  · obtain ⟨same, allowed⟩ := running late
    refine ⟨same, fun schema' e => ?_⟩
    cases e
    rw [Supply.gather_schema]
    exact allowed

theorem receive (h : o.Fresh s) (a : Agent) {id : String} {result : Except Fault Schema}
    (new : ∀ schema, id = o.id → result = .ok schema →
      o.given { schema with id } ∨ ∃ due ≤ s.now, o.flight due { schema with id }) :
    o.Fresh (s.fetch (·.receiveSchema a id result)).1 := by
  have work : s.toSupply.Work a (s.toSupply.receiveSchema a id result).1 :=
    Supply.receiveSchema_work id result
  cases result with
  | error e => exact h
  | ok schema =>
    refine ⟨h.cached.put fun same => new schema same rfl, h.expected, h.launched, h.running,
      fun b st hd => ?_⟩
    rcases work.silent.mem_cases hd with hd | none
    · exact h.published b st hd
    · exact absurd (none b) (by simp [Deed.shown?])

/-- A run that is cancelled puts in the cache what it waited for if that is there by now. -/
theorem leave (h : o.Fresh s) {front back : List Run} {r : Run} (place : s.runs = front ++ r :: back)
    {u : Supply} (last : r.Leaves s.toSupply u) : o.Fresh { s with runs := front ++ back, toSupply := u } := by
  have others : o.Fresh { s with runs := front ++ back } := h.fewer fun x hx => mem_of_mem_others place hx
  have arrived {due : Nat} {schema : Schema} (stage : r.stage = .schema due (.ok schema)) (here : due ≤ s.now) :
      o.Fresh ({ s with runs := front ++ back }.fetch
        (·.receiveSchema r.agent r.strategy (.ok schema))).1 := by
    refine others.receive r.agent ?_
    rintro _ same ⟨⟩
    have expects : r.Expects o.id { schema with id := r.strategy } due := ⟨same, schema, stage, by rw [same]⟩
    exact (h.expected r (mem_of_place place) _ due expects (.inr here)).imp_right
      fun flight => ⟨due, here, flight⟩
  cases last with
  | silent => exact others
  | store stage here => exact arrived stage here
  | ask stage here =>
    exact (arrived stage here).work (Supply.gather_work (a := r.agent) _) (Supply.gather_schemas _)
  | arrive => exact others.work Supply.arrive_work Supply.arrive_schemas

/-- Time passes where nobody is to start and no run is cancelled. -/
theorem pass (h : o.Fresh s) {time : Nat} (later : s.now ≤ time) (idle : s.launches = [])
    (live : ∀ r ∈ s.runs, (s.binding r.binding).isCurrent r.generation = true) :
    o.Fresh { s with now := time } := by
  refine ⟨h.cached.mono fun k e old same => ?_, fun r hr schema due expects _ => ?_, ?_, h.running,
    h.published⟩
  · exact (old same).imp_right fun ⟨due, le, flight⟩ => ⟨due, Nat.le_trans le later, flight⟩
  · exact h.expected r hr schema due expects (.inl (live r hr))
  · intro l hl
    rw [show s.launches = [] from idle] at hl
    cases hl

/-- A run starts and waits for what the source gives to the call that it makes. -/
theorem miss (h : o.Fresh s) {l : Launch} {rest : List Launch} {id : String}
    (first : s.launches = l :: rest) (strategy : l.strategy = some id)
    (gives : id = o.id → ∀ schema, s.source.truth id = .ok schema → o.given schema) :
    o.Fresh ((({ s with launches := rest }.look l.agent id).call l id).wait (s.caller l id)) := by
  have look := h.look l.agent id fun _ => mem_of_mem_rest first
  have shown : o.Fresh (({ s with launches := rest }.look l.agent id).publish l.binding l.generation
      (·.toLoading id)) :=
    look.publish fun _ loading => nomatch loading
  have given (schema : Schema) (due : Nat) (expects : (s.caller l id).Expects o.id schema due) :
      o.given schema := by
    obtain ⟨same, reply, stage, rfl⟩ := expects
    obtain rfl : id = o.id := same
    exact gives rfl _ (Source.truth_of_ok (Stage.schema.inj stage).2)
  refine (shown.ask l.agent id).wait (fun schema due expects => .inl (given schema due expects)) ?_
  intro late
  have late : o.late l.key l.strategy := by rw [strategy]; exact late
  obtain ⟨same, -⟩ := h.launched l (mem_of_first first) late
  obtain rfl : id = o.id := Option.some.inj (strategy.symm.trans same)
  exact ⟨rfl, fun schema e => .inl (given schema _ (Run.expects_of_schema? rfl e))⟩

/-- A run that has its schema waits for fewer fragments. -/
theorem arrive (h : o.Fresh s) {front back : List Run} {r : Run} {g : Gathering}
    (place : s.runs = front ++ r :: back) (stage : r.stage = .fragments g) :
    o.Fresh { (s.fetch (·.arrive r.agent g)).1 with
      runs := front ++ { r with stage := .fragments (s.toSupply.arrive r.agent g).2 } :: back } := by
  have arrived := h.work (Supply.arrive_work (a := r.agent) (g := g)) Supply.arrive_schemas
  refine ⟨arrived.cached, fun x hx => ?_, arrived.launched, fun x hx => ?_, arrived.published⟩
  · rcases mem_or_eq_of_place place hx with hx | rfl
    · exact arrived.expected x hx
    · rintro schema due ⟨-, _, stage, -⟩
      cases stage
  · rcases mem_or_eq_of_place place hx with hx | rfl
    · exact h.running x hx
    · intro late
      obtain ⟨same, allowed⟩ := h.running r (mem_of_place place) late
      refine ⟨same, fun schema e => allowed schema ?_⟩
      simp only [Run.schema?, Supply.arrive_schema] at e
      simpa only [Run.schema?, stage] using e

theorem move (h : o.Fresh s) (m : Move s t)
    (gives : Adds (fun d => d.IsCall o.id ∨ d.IsDeposit o.id) s.history t.history →
      ∀ schema, s.source.truth o.id = .ok schema → o.given schema) : o.Fresh t := by
  have without {front back : List Run} {r : Run} (place : s.runs = front ++ r :: back) :
      o.Fresh { s with runs := front ++ back } :=
    h.fewer fun x hx => mem_of_mem_others place hx
  cases m with
  | pass later _ idle live => exact h.pass later idle live
  | forget id => exact ⟨h.cached.remove id, h.expected, h.launched, h.running, h.published⟩
  | @clear l rest first =>
    refine Fresh.publish ?_ fun _ _ _ none => nomatch none
    exact h.of_supply rfl rfl (.refl ..) fun _ => mem_of_mem_rest first
  | skip first => exact h.look _ _ fun _ => mem_of_mem_rest first
  | @slip l rest id schema first =>
    exact (h.look l.agent id fun _ => mem_of_mem_rest first).work (Supply.gather_work (a := l.agent) schema)
      (Supply.gather_schemas schema)
  | leave place _ last => exact h.leave place last
  | @hit l rest id stage schema first strategy current found =>
    refine (h.look l.agent id fun _ => mem_of_mem_rest first).await fun late => ?_
    have late : o.late l.key l.strategy := by rw [strategy]; exact late
    obtain ⟨same, opens⟩ := h.launched l (mem_of_first first) late
    obtain rfl : id = o.id := Option.some.inj (strategy.symm.trans same)
    refine ⟨rfl, (h.found found).imp_right ?_⟩
    rintro ⟨due, le, flight⟩
    exact ⟨due, opens due le, flight⟩
  | @miss l rest id first strategy =>
    refine h.miss first strategy fun same schema given => ?_
    subst same
    refine gives ?_ _ given
    have grows : Grows (fun _ => True) s.history
        (({ s with launches := rest }.look l.agent o.id).publish l.binding l.generation
          (·.toLoading o.id)).history :=
      .trans (.single trivial) ((publish_byRuns ..).mono fun _ _ => trivial)
    exact .last grows (.inl ⟨_, _, rfl⟩)
  | refuse place => exact (without place).publish fun _ _ _ none => nomatch none
  | @obtain front r back due schema place _ stage here =>
    have hr := mem_of_place place
    refine ((h.leave place (.store stage here))).await fun late => ?_
    · obtain ⟨same, allowed⟩ := h.running r hr late
      exact ⟨same, allowed _ (by simp only [Run.schema?, stage])⟩
  | arrive place _ stage => exact h.arrive place stage
  | @finish front r back g place _ stage =>
    refine (without place).publish fun late _ schema e => ?_
    cases e
    exact (h.running r (mem_of_place place) late).2 _ (by simp only [Run.schema?, stage])
  | lookUp id => exact h.look _ id fun _ hl => hl
  | call id => exact h.ask _ id
  | @receive id result reply =>
    refine h.receive .foreground fun schema same ok => .inl ?_
    subst same
    refine gives ?_ _ (Source.truth_of_ok (reply.symm.trans ok))
    rw [ok]
    exact .last (.refl (fun _ => True) _) (.inr ⟨_, rfl⟩)
  | gather schema => exact h.work (Supply.gather_work schema) (Supply.gather_schemas schema)
  | take => exact h.work Supply.arrive_work Supply.arrive_schemas

theorem mono (h : o.Fresh s) {given : Schema → Prop} (imp : ∀ schema, o.given schema → given schema) :
    Fresh { o with given } s := by
  have allows (schema : Schema) (allowed : o.Allows schema) : Allows { o with given } schema :=
    allowed.imp_left (imp schema)
  refine ⟨h.cached.mono fun k e old same => (old same).imp_left (imp _),
    fun r hr schema due expects may => ?_, h.launched, fun r hr late => ?_,
    fun b st hd late settled schema e => ?_⟩
  · exact (h.expected r hr schema due expects may).imp_left (imp _)
  · obtain ⟨same, allowed⟩ := h.running r hr late
    exact ⟨same, fun schema e => allows schema (allowed schema e)⟩
  · exact allows schema (h.published b st hd late settled schema e)

/-! ### Steps -/

theorem moves (h : o.Fresh s) (m : Moves s t)
    (gives : Adds (fun d => d.IsCall o.id ∨ d.IsDeposit o.id) s.history t.history →
      ∀ schema, s.source.truth o.id = .ok schema → o.given schema) : o.Fresh t := by
  induction m with
  | refl => exact h
  | @tail u t m last ih =>
    have before := ih fun adds => gives (adds.behind (Moves.grows (.single last)))
    refine before.move last fun adds schema given => gives (adds.before (Moves.grows m)) schema ?_
    rwa [← Moves.source m]

theorem startRun (h : o.Fresh s) (orderly : s.Orderly) {b : Nat} {requested : Option String}
    (new : o.late (b, (s.binding b).generation + 1) requested →
      requested = some o.id ∧ ∀ due ≤ s.now, o.opens due) : o.Fresh (s.startRun b requested) := by
  refine ⟨h.cached, fun r hr schema due expects may => ?_, fun l hl => ?_, h.running, h.published⟩
  · refine h.expected r hr schema due expects (may.imp_left fun current => ?_)
    rw [startRun_binding] at current
    split at current
    · -- the new run is the latest now, so this one is not
      rename_i e
      have latest : (s.binding b).generation + 1 = r.generation := (Binding.isCurrent_iff.1 current).2
      have old := orderly.generation_le hr
      rw [← e.1] at old
      omega
    · exact current
  · rcases List.mem_append.1 hl with hl | hl
    · exact h.launched l hl
    · rw [List.mem_singleton.1 hl]
      exact new

theorem close (h : o.Fresh s) (b : Nat) (isDropped : Bool) : o.Fresh (s.close b isDropped) := by
  refine ⟨h.cached, fun r hr schema due expects may => ?_, h.launched, h.running, h.published⟩
  refine h.expected r hr schema due expects (may.imp_left fun current => ?_)
  rw [close_binding] at current
  split at current
  · cases (Binding.isCurrent_iff.1 current).1
  · exact current

theorem operate (h : o.Fresh s) {operation : Cache.Operation}
    (free : (Step.cache operation).puts o.id = false) : o.Fresh (s.operate operation) := by
  have cache : s.cache.All (o.Explains s.now) fun _ _ => True := ⟨h.cached, fun _ _ _ => trivial⟩
  have applied : (s.cache.apply s.now operation).1.All (o.Explains s.now) fun _ _ => True := by
    refine cache.apply operation ?_ fun _ _ _ => trivial
    rintro schema rfl same
    exact absurd same (of_decide_eq_false free)
  refine ⟨applied.schemas, h.expected, h.launched, h.running, fun b st hd => ?_⟩
  rcases List.mem_append.1 hd with hd | hd
  · exact h.published b st hd
  · exact absurd (written_silent _ _ _ hd b) (by simp [Deed.shown?])

theorem step (h : o.Fresh s) (orderly : s.Orderly) {x : Step} (free : x.puts o.id = false)
    (new : ∀ b requested, o.late (b, (s.binding b).generation + 1) requested →
      requested = some o.id ∧ ∀ due ≤ s.now, o.opens due)
    (gives : Adds (Deed.IsCall o.id) s.history (s.step x).1.history →
      ∀ schema, s.source.truth o.id = .ok schema → o.given schema) : o.Fresh (s.step x).1 := by
  have gives (adds : Adds (fun d => d.IsCall o.id ∨ d.IsDeposit o.id) s.history (s.step x).1.history) :
      ∀ schema, s.source.truth o.id = .ok schema → o.given schema := by
    obtain ⟨more, e, first⟩ := step_asksFirst free s
    obtain ⟨more', e', d, hd, call | deposit⟩ := adds
    · exact gives ⟨more', e', d, hd, call⟩
    · obtain rfl : more = more' := List.append_cancel_left (e.symm.trans e')
      exact gives ⟨more, e, first ⟨d, hd, deposit⟩⟩
  cases x with
  | tick | fetchFragments | buildSections | fetchSchema | resolve | refresh | invalidateCache | wait =>
    exact h.moves (step_moves (by trivial) s) gives
  | setSource => exact ⟨h.cached, h.expected, h.launched, h.running, h.published⟩
  | cache operation => exact h.operate free
  | setStrategy b requested =>
    show o.Fresh (s.setStrategy b requested).1
    cases changed : (s.setStrategy b requested).2 with
    | true =>
      rw [setStrategy_of_changed changed]
      exact h.startRun orderly (new b requested)
    | false =>
      rw [(setStrategy_of_unchanged changed).1]
      exact h
  | refetch b =>
    have forgotten : o.Fresh (s.invalidateCache b) := h.moves (invalidateCache_moves s b) gives
    have orderly := (invalidateCache_moves s b).induction (fun m o => o.move m) orderly
    refine forgotten.startRun orderly fun late => ?_
    rw [(invalidateCache_moves s b).control.generation] at late
    rw [invalidateCache_now]
    exact new b _ late
  | shutdown b => exact h.close b _
  | drop b => exact h.close b true

end Fresh

theorem Fresh.steps (list : List Step) (h : o.Fresh s) (orderly : s.Orderly) (free : ∀ x ∈ list, x.puts o.id = false)
    (new : ∀ t, Lasts s t → ∀ b requested, o.late (b, (t.binding b).generation + 1) requested →
      requested = some o.id ∧ ∀ due ≤ t.now, o.opens due) :
    Fresh { o with given := fun schema => o.given schema ∨ Gives o.id schema s list } (s.steps list) := by
  induction list generalizing o s with
  | nil => exact h.mono fun _ => .inl
  | cons x rest ih =>
    rw [List.forall_mem_cons] at free
    let given (schema : Schema) : Prop := o.given schema ∨
      Adds (Deed.IsCall o.id) s.history (s.step x).1.history ∧ s.source.truth o.id = .ok schema
    have first : Fresh { o with given } (s.step x).1 :=
      Fresh.step (o := { o with given }) (h.mono fun _ => .inl) orderly free.1 (new s (.refl s))
        fun adds schema truth => .inr ⟨adds, truth⟩
    have rest := ih first (orderly.step x) free.2 fun t lasts => new t ((lasts_step s x).trans lasts)
    refine rest.mono fun schema h => ?_
    rcases h with (old | ⟨adds, truth⟩) | later
    · exact .inl old
    · exact .inr (.head adds truth)
    · exact .inr (later.tail x)

end Origin

end StrategyForm.Session
