import StrategyForm.Proofs.Session.Orderly

/-!
# The history

A run that is not the latest of its binding, or whose binding is shut down, publishes nothing and calls for
no schema (`Deed.IsParting`): whatever else a run does in a step, it is the latest of its binding, and the
binding is not shut down, from the beginning of the step to its end (`step_history`).
-/

namespace StrategyForm.Session

def Deed.IsLookUp : Deed → Prop
  | .lookedUp .. => True
  | _ => False

/-- A fragment was asked for or arrived. -/
def Deed.IsOfFragment : Deed → Prop
  | .called _ (.fragment _) _ | .stored _ (.fragment _) _ => True
  | _ => False

/-- A fragment that a schema refers to was asked for or arrived. -/
def Deed.IsFor (schema : Schema) : Deed → Prop
  | .called _ (.fragment id) _ | .stored _ (.fragment id) _ => id ∈ schema.fragmentIds
  | _ => False

/-- What a run may do that is cancelled: look something up, put something in the cache, and call for
fragments. -/
def Deed.IsParting : Deed → Prop
  | .lookedUp .. | .stored .. | .called _ (.fragment _) _ => True
  | .called _ (.schema _) _ | .published .. => False

/-- Of the runs only the latest of a binding that is not shut down does more than look up. -/
def Deed.IsOfLatest (s : Session) (d : Deed) : Prop :=
  ∀ b g, d.agent = .run b g → d.IsLookUp ∨ (s.binding b).isCurrent g = true

/-- Of the runs only the latest of a binding that is not shut down publishes, or calls for a schema. -/
def Deed.IsAllowed (s : Session) (d : Deed) : Prop :=
  ∀ b g, d.agent = .run b g → d.IsParting ∨ (s.binding b).isCurrent g = true

variable {s t : Session}

theorem Deed.IsLookUp.parting {d : Deed} (h : d.IsLookUp) : d.IsParting := by
  cases d with
  | lookedUp => trivial
  | called | stored | published => exact h.elim

theorem Deed.IsOfLatest.allowed {d : Deed} (h : d.IsOfLatest s) : d.IsAllowed s :=
  fun b g mine => (h b g mine).imp_left Deed.IsLookUp.parting

theorem Deed.IsOfFragment.parting {d : Deed} (h : d.IsOfFragment) : d.IsParting := by
  cases d with
  | called _ call => cases call <;> exact h
  | stored => trivial
  | lookedUp | published => exact h.elim

theorem Deed.IsFor.ofFragment {schema : Schema} {d : Deed} (h : d.IsFor schema) : d.IsOfFragment := by
  cases d with
  | called _ call | stored _ call => cases call with
    | fragment => trivial
    | schema => exact h.elim
  | lookedUp | published => exact h.elim

/-! ### Fragments -/

namespace Supply
variable {u : Supply} {a : Agent} {g : Gathering}

theorem receiveFragment_for {schema : Schema} {id : String} (mem : id ∈ schema.fragmentIds)
    (result : Except Fault Fragment) :
    Grows (·.IsFor schema) u.history (u.receiveFragment a g id result).1.history := by
  cases result with
  | ok f => exact .single mem
  | error e => exact .refl ..

theorem askFragment_for {schema : Schema} {id : String} (mem : id ∈ schema.fragmentIds) :
    Grows (·.IsFor schema) u.history (askFragment a (u, g) id).1.history := by
  have called : Grows (·.IsFor schema) u.history
      (u.record (.called a (.fragment id) (u.now + (u.source.fragment id).delay))).history :=
    .single mem
  simp only [askFragment]
  split
  · exact called.trans (receiveFragment_for mem _)
  · exact called

theorem gather_for (schema : Schema) :
    Grows (·.IsFor schema) u.history (u.gather a schema).1.history :=
  gather_induction (P := fun x => Grows (·.IsFor schema) u.history x.1.history) schema
    (fun _ _ _ => .refl ..) fun _ _ mem h => h.trans (askFragment_for mem)

theorem gather_ofFragment (schema : Schema) :
    Grows Deed.IsOfFragment u.history (u.gather a schema).1.history :=
  (gather_for schema).mono fun _ h => h.ofFragment

/-- What arrives puts the fragments that were due in the cache, and does nothing else. -/
theorem arrive_stored : Grows (fun d => ∃ x ∈ g.arrivals, x.due ≤ u.now ∧ d = .stored a (.fragment x.id) u.now)
    u.history (u.arrive a g).1.history := by
  refine (arrive_induction (P := fun x => x.1.now = u.now ∧ Grows _ u.history x.1.history)
    ⟨rfl, .refl ..⟩ ?_).2
  rintro v h x hx due ⟨now, grows⟩
  refine ⟨(receiveFragment_work ..).now.trans now, grows.trans ?_⟩
  cases x.result with
  | ok f => exact .single ⟨x, hx, due, by rw [now]⟩
  | error e => exact .refl ..

theorem arrive_ofFragment : Grows Deed.IsOfFragment u.history (u.arrive a g).1.history :=
  arrive_stored.mono <| by
    rintro _ ⟨x, -, -, rfl⟩
    trivial

end Supply

theorem Run.Leaves.parting {r : Run} {u v : Supply} (h : r.Leaves u v) :
    Grows Deed.IsParting u.history v.history := by
  cases h with
  | silent => exact .refl ..
  | store => exact .single trivial
  | @ask due schema =>
    have stored : Grows Deed.IsParting u.history
        (u.receiveSchema r.agent r.strategy (.ok schema)).1.history := .single trivial
    exact stored.trans ((Supply.gather_ofFragment _).mono fun _ h => h.parting)
  | arrive => exact Supply.arrive_ofFragment.mono fun _ h => h.parting

/-! ### Moves -/

theorem Deed.IsWorkOf.agent_eq {a : Agent} {d : Deed} (h : d.IsWorkOf a) : d.agent = a := by
  cases d <;> first | exact h | exact h.elim

theorem Deed.IsWorkOf.latest_foreground {d : Deed} (h : d.IsWorkOf .foreground) : d.IsOfLatest s := by
  intro b g e
  rw [h.agent_eq] at e
  cases e

theorem Deed.IsWorkOf.latest_run {d : Deed} {b g : Nat} (h : d.IsWorkOf (.run b g))
    (current : (s.binding b).isCurrent g = true) : d.IsOfLatest s := by
  intro b' g' e
  rw [h.agent_eq] at e
  cases e
  exact .inr current

theorem Supply.Work.latest_foreground {u v : Supply} (h : u.Work .foreground v) :
    Grows (·.IsOfLatest s) u.history v.history :=
  h.history.mono fun _ w => w.latest_foreground

theorem Supply.Work.latest_run {u v : Supply} {b g : Nat} (h : u.Work (.run b g) v)
    (current : (s.binding b).isCurrent g = true) : Grows (·.IsOfLatest s) u.history v.history :=
  h.history.mono fun _ w => w.latest_run current

theorem publish_latest (t : Session) {b g : Nat} (update : State → State)
    (same : (t.binding b).isCurrent g = (s.binding b).isCurrent g) :
    Grows (·.IsOfLatest s) t.history (t.publish b g update).history := by
  rw [publish_history]
  split
  · rename_i current
    refine .single fun b' g' e => .inr ?_
    cases e
    exact same.symm.trans current
  · rw [List.append_nil]
    exact .refl ..

/-- Whoever acts in a move is the latest run of its binding, or looks up only, unless the move is one of a
run that is cancelled: one that waited, or one that starts and finds its schema in the cache. -/
theorem Move.history_cases (m : Move s t) : Grows (·.IsOfLatest s) s.history t.history ∨
    (∃ r ∈ s.runs, r.Leaves s.toSupply t.toSupply) ∨
    ∃ l ∈ s.launches, ∃ id schema, s.cache.schema? s.now id = some schema ∧
      t.toSupply = ((s.toSupply.lookUpSchema l.agent id).1.gather l.agent schema).1 := by
  have look (a : Agent) (id : String) :
      Grows (·.IsOfLatest s) s.history (s.toSupply.lookUpSchema a id).1.history :=
    .single fun _ _ _ => .inl trivial
  cases m with
  | leave place _ last => exact .inr (.inl ⟨_, mem_of_place place, last⟩)
  | @slip l rest id schema first _ _ found =>
    exact .inr (.inr ⟨l, by simp [first], id, schema, found, rfl⟩)
  | pass | forget => exact .inl (.refl ..)
  | clear | refuse | finish => exact .inl (publish_latest _ _ rfl)
  | skip => exact .inl (look _ _)
  | hit _ _ current => exact .inl ((look _ _).trans ((Supply.gather_work _).latest_run current))
  | @miss l rest id _ _ current =>
    refine .inl (((look l.agent id).trans (publish_latest _ _ rfl)).trans (.single fun b g e => .inr ?_))
    cases e
    exact current
  | @obtain front r back due schema _ current =>
    exact .inl (((Supply.receiveSchema_work r.strategy (.ok schema)).latest_run current).trans
      ((Supply.gather_work _).latest_run current))
  | arrive _ current => exact .inl (Supply.arrive_work.latest_run current)
  | lookUp id => exact .inl (look _ _)
  | call id => exact .inl (.single fun b g e => nomatch e)
  | receive => exact .inl (Supply.receiveSchema_work _ _).latest_foreground
  | gather => exact .inl (Supply.gather_work _).latest_foreground
  | take => exact .inl Supply.arrive_work.latest_foreground

/-- Whoever acts in a move is allowed to. -/
theorem Move.history (m : Move s t) : Grows (·.IsAllowed s) s.history t.history := by
  rcases m.history_cases with latest | ⟨r, -, last⟩ | ⟨l, -, id, schema, -, e⟩
  · exact latest.mono fun _ h => h.allowed
  · exact last.parting.mono fun _ h _ _ _ => .inl h
  · have looked : Grows Deed.IsParting s.history (s.toSupply.lookUpSchema l.agent id).1.history :=
      .single trivial
    rw [e]
    exact (looked.trans ((Supply.gather_ofFragment schema).mono fun _ h => h.parting)).mono
      fun _ h _ _ _ => .inl h

theorem SameControl.allowed (c : SameControl s t) {d : Deed} : d.IsAllowed t ↔ d.IsAllowed s := by
  simp [Deed.IsAllowed, c.isCurrent]

theorem Moves.history (m : Moves s t) : Grows (·.IsAllowed s) s.history t.history := by
  have both : SameControl s t ∧ Grows (·.IsAllowed s) s.history t.history :=
    m.induction (I := fun t => SameControl s t ∧ Grows (·.IsAllowed s) s.history t.history)
      (fun m h => ⟨h.1.trans m.control, h.2.trans (m.history.mono fun _ => h.1.allowed.1)⟩)
      ⟨.of_bindings rfl, .refl ..⟩
  exact both.2

/-! ### Steps -/

@[simp] theorem invalidateCache_history (s : Session) (b : Nat) :
    (s.invalidateCache b).history = s.history := by
  unfold invalidateCache
  split <;> rfl

@[simp] theorem invalidateCache_now (s : Session) (b : Nat) : (s.invalidateCache b).now = s.now := by
  unfold invalidateCache
  split <;> rfl

theorem written_foreground (now : Nat) (operation : Cache.Operation) :
    ∀ d ∈ written now operation, d.agent = .foreground := by
  cases operation <;> simp [written, Deed.agent]

/-- What is done in a step is done by the foreground, or by a run that is the latest of its binding
before and after the step, or a cancelled run may do it. -/
theorem step_history (s : Session) (x : Step) :
    Grows (fun d => d.IsAllowed s ∧ d.IsAllowed (s.step x).1) s.history (s.step x).1.history := by
  have work (h : x.IsWork) :
      Grows (fun d => d.IsAllowed s ∧ d.IsAllowed (s.step x).1) s.history (s.step x).1.history :=
    (step_moves h s).history.mono fun _ a => ⟨a, (step_moves h s).control.allowed.2 a⟩
  cases x with
  | tick | fetchFragments | buildSections | fetchSchema | resolve | refresh | invalidateCache | wait =>
    exact work trivial
  | cache operation =>
    have mine (t : Session) : ∀ d ∈ written s.now operation, d.IsAllowed t := fun d hd b g e => by
      rw [written_foreground _ _ d hd] at e
      cases e
    exact ⟨_, rfl, fun d hd => ⟨mine s d hd, mine _ d hd⟩⟩
  | setStrategy b requested =>
    simp only [step, setStrategy]
    split <;> exact .refl ..
  | refetch b =>
    show Grows _ _ (s.invalidateCache b).history
    rw [invalidateCache_history]
    exact .refl ..
  | setSource | shutdown | drop => exact .refl ..

/-! ### When it was done -/

/-- After how many milliseconds the source replies. -/
def Call.delay (source : Source) : Call → Nat
  | .schema id => (source.schema id).delay
  | .fragment id => (source.fragment id).delay

/-- The deed was done at a time: the reply to a call is due when the source has had its delay, and what is
put in the cache has that time. -/
def Deed.IsTimely (now : Nat) (source : Source) : Deed → Prop
  | .called _ call due => due = now + call.delay source
  | .stored _ _ time => time = now
  | .lookedUp .. | .published .. => True

section Timely
variable {u : Supply} {a : Agent} {now : Nat} {source : Source}

theorem Supply.receiveSchema_timely (id : String) (result : Except Fault Schema) :
    Grows (·.IsTimely u.now source) u.history (u.receiveSchema a id result).1.history := by
  cases result with
  | ok schema => exact .single rfl
  | error e => exact .refl ..

theorem Supply.receiveFragment_timely (g : Gathering) (id : String) (result : Except Fault Fragment) :
    Grows (·.IsTimely u.now source) u.history (u.receiveFragment a g id result).1.history := by
  cases result with
  | ok f => exact .single rfl
  | error e => exact .refl ..

theorem Supply.arrive_timely (g : Gathering) :
    Grows (·.IsTimely u.now source) u.history (u.arrive a g).1.history :=
  arrive_stored.mono <| by
    rintro _ ⟨x, -, -, rfl⟩
    rfl

theorem Supply.gather_timely (schema : Schema) :
    Grows (·.IsTimely u.now u.source) u.history (u.gather a schema).1.history := by
  refine (gather_induction (P := fun x => u.Work a x.1 ∧ Grows _ u.history x.1.history) schema ?_ ?_).2
  · exact fun _ _ _ => ⟨⟨rfl, rfl, .refl ..⟩, .refl ..⟩
  · rintro ⟨v, g⟩ id - ⟨work, grows⟩
    refine ⟨work.trans (askFragment_work id), grows.trans ?_⟩
    rw [← work.now, ← work.source]
    have called : Grows (·.IsTimely v.now v.source) v.history
        (v.record (.called a (.fragment id) (v.now + (v.source.fragment id).delay))).history :=
      .single rfl
    simp only [askFragment]
    split
    · exact called.trans (receiveFragment_timely ..)
    · exact called

theorem publish_timely (s : Session) (b g : Nat) (update : State → State) :
    Grows (·.IsTimely now source) s.history (s.publish b g update).history := by
  rw [publish_history]
  split
  · exact .single trivial
  · rw [List.append_nil]
    exact .refl ..

/-- A schema arrives, and fragments are asked for at once. -/
theorem Supply.receiveSchema_gather_timely (id : String) (result : Except Fault Schema) (schema : Schema) :
    Grows (·.IsTimely u.now u.source) u.history
      ((u.receiveSchema a id result).1.gather a schema).1.history := by
  have work : u.Work a _ := receiveSchema_work id result
  have gathered := gather_timely (a := a) (u := (u.receiveSchema a id result).1) schema
  rw [work.now, work.source] at gathered
  exact (receiveSchema_timely id result).trans gathered

theorem Run.Leaves.timely {r : Run} {v : Supply} (h : r.Leaves u v) :
    Grows (·.IsTimely u.now u.source) u.history v.history := by
  cases h with
  | silent => exact .refl ..
  | store => exact Supply.receiveSchema_timely ..
  | ask => exact Supply.receiveSchema_gather_timely ..
  | arrive => exact Supply.arrive_timely _

end Timely

theorem Move.timely (m : Move s t) : Grows (·.IsTimely s.now s.source) s.history t.history := by
  have looked (a : Agent) (id : String) :
      Grows (·.IsTimely s.now s.source) s.history (s.toSupply.lookUpSchema a id).1.history :=
    .single trivial
  cases m with
  | pass | forget => exact .refl ..
  | clear | refuse | finish => exact publish_timely ..
  | skip | lookUp => exact looked ..
  | slip | hit => exact (looked ..).trans (Supply.gather_timely ..)
  | leave _ _ last => exact last.timely
  | @miss l rest id =>
    refine ((looked l.agent id).trans (publish_timely _ l.binding l.generation (·.toLoading id))).trans
      (.single ?_)
    rw [publish_now, publish_source]
    rfl
  | @obtain _ r _ _ schema =>
    exact Supply.receiveSchema_gather_timely (u := s.toSupply) (a := r.agent) r.strategy (.ok schema) _
  | arrive | take => exact Supply.arrive_timely _
  | call => exact .single rfl
  | receive => exact Supply.receiveSchema_timely ..
  | gather => exact Supply.gather_timely _

end StrategyForm.Session
