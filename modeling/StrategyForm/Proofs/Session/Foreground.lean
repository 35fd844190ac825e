import StrategyForm.Proofs.Session.History

/-!
# What the foreground does

While the foreground waits only runs act (`passUntil_byRuns`), and to gather fragments touches no
schema. So a schema that the foreground puts in the cache, unless it was given it by hand, it has
called for in the same step (`step_asksFirst`).
-/

namespace StrategyForm.Session

def Deed.IsByRun (d : Deed) : Prop := d.agent ≠ .foreground

/-- Someone called the source for the schema of a strategy. -/
def Deed.IsCall (id : String) (d : Deed) : Prop := ∃ a due, d = .called a (.schema id) due

/-- The foreground put the schema of a strategy in the cache. -/
def Deed.IsDeposit (id : String) (d : Deed) : Prop := ∃ time, d = .stored .foreground (.schema id) time

/-- The step puts the schema of a strategy in the cache by hand. -/
def Step.puts (id : String) : Step → Bool
  | .cache (.putSchema schema) => schema.id = id
  | _ => false

variable {s t : Session} {id : String} {d : Deed}

theorem Deed.IsByRun.not_deposit (h : d.IsByRun) (id : String) : ¬ d.IsDeposit id := by
  rintro ⟨time, rfl⟩
  exact h rfl

theorem Deed.IsOfFragment.not_deposit (h : d.IsOfFragment) (id : String) : ¬ d.IsDeposit id := by
  rintro ⟨time, rfl⟩
  exact h

/-! ### Runs -/

theorem Supply.Work.byRuns {u v : Supply} {b g : Nat} (w : u.Work (.run b g) v) :
    Grows Deed.IsByRun u.history v.history :=
  w.history.mono fun d hd => by
    rw [Deed.IsByRun, hd.agent_eq]
    exact Agent.noConfusion

theorem publish_byRuns (s : Session) (b g : Nat) (update : State → State) :
    Grows Deed.IsByRun s.history (s.publish b g update).history := by
  rw [publish_history]
  split
  · exact .single Agent.noConfusion
  · rw [List.append_nil]
    exact .refl ..

theorem runWith_byRuns (r : Run) (schema : Schema) :
    Grows Deed.IsByRun s.history (s.runWith r schema).history := by
  have gathered : Grows Deed.IsByRun s.history (s.toSupply.gather r.agent schema).1.history :=
    (Supply.gather_work schema).byRuns
  rw [runWith_eq]
  split
  · exact gathered.trans (publish_byRuns ..)
  · exact gathered

theorem runReceive_byRuns (r : Run) (result : Except Fault Schema) :
    Grows Deed.IsByRun s.history (s.runReceive r result).history := by
  have received : Grows Deed.IsByRun s.history
      (s.toSupply.receiveSchema r.agent r.strategy result).1.history :=
    (Supply.receiveSchema_work r.strategy result).byRuns
  cases result with
  | ok schema => exact received.trans (runWith_byRuns r _)
  | error e => exact received.trans (publish_byRuns ..)

theorem resume_byRuns (list : List Run) (s : Session) :
    Grows Deed.IsByRun s.history (s.resume list).history := by
  induction list generalizing s with
  | nil => exact .refl ..
  | cons r rest ih =>
    simp only [resume]
    split
    · cases r.stage with
      | schema due result =>
        dsimp only
        split
        · exact (runReceive_byRuns r result).trans (ih _)
        · exact ih s
      | fragments g =>
        have arrived : Grows Deed.IsByRun s.history (s.toSupply.arrive r.agent g).1.history :=
          Supply.arrive_work.byRuns
        dsimp only
        split
        · split
          · exact (arrived.trans (publish_byRuns ..)).trans (ih _)
          · exact arrived.trans (ih (s.fetch (·.arrive r.agent g)).1)
        · exact ih s
    · obtain ⟨u, last, e⟩ := abandon_leaves s r
      have left : Grows Deed.IsByRun s.history u.history := last.work.byRuns
      rw [e]
      exact left.trans (ih { s with toSupply := u })

theorem glance_byRuns (b g : Nat) (schema : Schema) :
    Grows Deed.IsByRun s.history (s.glance (.run b g) schema).history := by
  unfold glance
  split
  · exact (Supply.gather_work schema).byRuns
  · exact .refl ..

theorem launch_byRuns (l : Launch) : Grows Deed.IsByRun s.history (s.launch l).history := by
  cases strategy : l.strategy with
  | none =>
    simp only [launch, strategy]
    exact publish_byRuns ..
  | some id =>
    have look : Grows Deed.IsByRun s.history (s.look l.agent id).history := .single Agent.noConfusion
    cases current : (s.binding l.binding).isCurrent l.generation with
    | false =>
      cases found : s.cache.schema? s.now id with
      | some schema =>
        rw [launch_of_overtaken_found strategy current found]
        exact look.trans (glance_byRuns ..)
      | none =>
        rw [launch_of_overtaken strategy current found]
        exact look
    | true =>
      cases found : s.cache.schema? s.now id with
      | some schema =>
        rw [launch_of_found strategy current found]
        exact look.trans (runWith_byRuns ..)
      | none =>
        have called : Grows Deed.IsByRun s.history ((s.look l.agent id).call l id).history :=
          (look.trans (publish_byRuns ..)).trans (.single Agent.noConfusion)
        rw [launch_of_missing strategy current found]
        dsimp only
        split
        · exact called.trans (runReceive_byRuns ..)
        · exact called

theorem launches_byRuns (list : List Launch) (s : Session) :
    Grows Deed.IsByRun s.history (list.foldl launch s).history := by
  induction list generalizing s with
  | nil => exact .refl ..
  | cons l rest ih => exact (launch_byRuns l).trans (ih _)

theorem instant_byRuns (s : Session) : Grows Deed.IsByRun s.history s.instant.history := by
  have resumed := resume_byRuns s.runs { s with runs := [] }
  exact resumed.trans (launches_byRuns ..)

theorem runUntil_byRuns (time stops : Nat) (s : Session) :
    Grows Deed.IsByRun s.history (runUntil time stops s).history := by
  induction stops generalizing s with
  | zero => exact .refl ..
  | succ stops ih =>
    simp only [runUntil]
    split
    · split
      · rename_i due _ _
        exact (instant_byRuns { s with now := max due s.now }).trans (ih _)
      · exact .refl ..
    · exact .refl ..

theorem passUntil_byRuns (s : Session) (time : Nat) :
    Grows Deed.IsByRun s.history (s.passUntil time).history :=
  (instant_byRuns s).trans (runUntil_byRuns ..)

theorem passRun_byRuns (s : Session) (b : Nat) : Grows Deed.IsByRun s.history (s.passRun b).history := by
  unfold passRun
  split
  · exact (passUntil_byRuns ..).trans (instant_byRuns _)
  · exact .refl ..

theorem waitSettled_byRuns (s : Session) (b : Nat) :
    Grows Deed.IsByRun s.history (s.waitSettled b).history :=
  (instant_byRuns s).trans ((passRun_byRuns ..).trans (passRun_byRuns ..))

/-! ### Steps -/

/-- The history grew by a deed of a kind, among others. -/
def Adds (P : Deed → Prop) (old new : List Deed) : Prop := ∃ more, new = old ++ more ∧ ∃ d ∈ more, P d

namespace Adds
variable {P Q : Deed → Prop} {h₁ h₂ h₃ : List Deed}

theorem last {d : Deed} (grows : Grows Q h₁ h₂) (p : P d) : Adds P h₁ (h₂ ++ [d]) := by
  obtain ⟨more, rfl, -⟩ := grows
  exact ⟨more ++ [d], List.append_assoc .., d, by simp, p⟩

theorem before (grows : Grows Q h₁ h₂) (adds : Adds P h₂ h₃) : Adds P h₁ h₃ := by
  obtain ⟨m₁, rfl, -⟩ := grows
  obtain ⟨m₂, rfl, d, hd, p⟩ := adds
  exact ⟨m₁ ++ m₂, List.append_assoc .., d, List.mem_append_right _ hd, p⟩

theorem behind (adds : Adds P h₁ h₂) (grows : Grows Q h₂ h₃) : Adds P h₁ h₃ := by
  obtain ⟨m₁, rfl, d, hd, p⟩ := adds
  obtain ⟨m₂, rfl, -⟩ := grows
  exact ⟨m₁ ++ m₂, List.append_assoc .., d, List.mem_append_left _ hd, p⟩

end Adds

/-- Between two histories: if the foreground put the schema of a strategy in the cache, someone called
the source for it. -/
def AsksFirst (id : String) (old new : List Deed) : Prop :=
  ∃ more, new = old ++ more ∧ ((∃ d ∈ more, d.IsDeposit id) → ∃ d ∈ more, d.IsCall id)

namespace AsksFirst
variable {P : Deed → Prop} {h₁ h₂ h₃ : List Deed}

theorem of_grows (grows : Grows P h₁ h₂) (none : ∀ d, P d → ¬ d.IsDeposit id) : AsksFirst id h₁ h₂ := by
  obtain ⟨more, e, p⟩ := grows
  exact ⟨more, e, fun ⟨d, hd, deposit⟩ => (none d (p d hd) deposit).elim⟩

theorem refl (id : String) (h : List Deed) : AsksFirst id h h :=
  of_grows (.refl (fun _ => False) h) fun _ h => h.elim

theorem trans (a : AsksFirst id h₁ h₂) (b : AsksFirst id h₂ h₃) : AsksFirst id h₁ h₃ := by
  obtain ⟨m₁, rfl, p₁⟩ := a
  obtain ⟨m₂, rfl, p₂⟩ := b
  refine ⟨m₁ ++ m₂, List.append_assoc .., ?_⟩
  rintro ⟨d, hd, deposit⟩
  rcases List.mem_append.1 hd with hd | hd
  · obtain ⟨c, hc, call⟩ := p₁ ⟨d, hd, deposit⟩
    exact ⟨c, List.mem_append_left _ hc, call⟩
  · obtain ⟨c, hc, call⟩ := p₂ ⟨d, hd, deposit⟩
    exact ⟨c, List.mem_append_right _ hc, call⟩

theorem of_call (a : Agent) (due : Nat) (grows : Grows P (h₁ ++ [.called a (.schema id) due]) h₂) :
    AsksFirst id h₁ h₂ := by
  obtain ⟨more, rfl, -⟩ := grows
  exact ⟨_ :: more, List.append_assoc .., fun _ => ⟨_, List.mem_cons_self, a, due, rfl⟩⟩

theorem byRuns (h : Grows Deed.IsByRun h₁ h₂) : AsksFirst id h₁ h₂ :=
  of_grows h fun _ mine => mine.not_deposit id

theorem ofFragment (h : Grows Deed.IsOfFragment h₁ h₂) : AsksFirst id h₁ h₂ :=
  of_grows h fun _ mine => mine.not_deposit id

end AsksFirst

theorem look_asksFirst (a : Agent) (id' : String) : AsksFirst id s.history (s.look a id').history := by
  refine .of_grows (.single (P := fun d => ∃ found, d = .lookedUp a id' found) ⟨_, rfl⟩) ?_
  rintro _ ⟨found, rfl⟩ ⟨time, e⟩
  cases e

theorem gatherAll_asksFirst (stops : Nat) (s : Session) (g : Gathering) :
    AsksFirst id s.history (gatherAll stops s g).1.history := by
  induction stops generalizing s g with
  | zero => exact .refl ..
  | succ stops ih =>
    simp only [gatherAll]
    split
    · exact .refl ..
    · exact (AsksFirst.byRuns (passUntil_byRuns ..)).trans
        ((AsksFirst.ofFragment Supply.arrive_ofFragment).trans (ih _ _))

theorem fetchFragments_asksFirst (s : Session) (schema : Schema) :
    AsksFirst id s.history (s.fetchFragments schema).1.history :=
  (AsksFirst.ofFragment (Supply.gather_ofFragment schema)).trans (gatherAll_asksFirst ..)

/-- To fetch a schema is to call for it, to let runs act, and to put it in the cache. -/
theorem fetchSchema_history (s : Session) (id : String) : ∃ due time between,
    Grows Deed.IsByRun (s.history ++ [.called .foreground (.schema id) due]) between ∧
      Grows (· = .stored .foreground (.schema id) time) between (s.fetchSchema id).1.history := by
  let u := (s.fetch (·.askSchema .foreground id)).1
  let reply := s.source.schema id
  let v := if reply.delay = 0 then u else u.passUntil (u.now + reply.delay)
  have waited : Grows Deed.IsByRun u.history v.history := by
    show Grows Deed.IsByRun u.history (if reply.delay = 0 then u else _).history
    split
    · exact .refl ..
    · exact passUntil_byRuns ..
  have received : Grows (· = .stored .foreground (.schema id) v.now) v.history
      (v.toSupply.receiveSchema .foreground id reply.result).1.history := by
    cases reply.result with
    | ok schema => exact .single rfl
    | error e => exact .refl ..
  exact ⟨s.now + reply.delay, v.now, v.history, waited, received⟩

theorem fetchSchema_asksFirst (s : Session) (id' : String) :
    AsksFirst id s.history (s.fetchSchema id').1.history := by
  obtain ⟨due, time, between, waited, received⟩ := fetchSchema_history s id'
  by_cases same : id' = id
  · subst same
    exact .of_call _ _ ((waited.mono fun _ _ => trivial).trans (received.mono fun _ _ => trivial))
  · have called : AsksFirst id s.history (s.history ++ [.called .foreground (.schema id') due]) := by
      refine .of_grows (.single (P := (· = .called .foreground (.schema id') due)) rfl) ?_
      rintro _ rfl ⟨time, e⟩
      cases e
    refine called.trans ((AsksFirst.byRuns waited).trans (.of_grows received ?_))
    rintro _ rfl ⟨time, e⟩
    cases e
    exact same rfl

theorem fetchSchema_adds (s : Session) (id : String) :
    Adds (Deed.IsCall id) s.history (s.fetchSchema id).1.history := by
  obtain ⟨due, time, between, waited, received⟩ := fetchSchema_history s id
  have called : Adds (Deed.IsCall id) s.history (s.history ++ [.called .foreground (.schema id) due]) :=
    .last (.refl (fun _ => True) _) ⟨_, _, rfl⟩
  exact (called.behind waited).behind received

theorem resolve_asksFirst (s : Session) (id' : String) :
    AsksFirst id s.history (s.resolve id').1.history := by
  have look : AsksFirst id s.history (s.look .foreground id').history := look_asksFirst ..
  cases found : s.cache.schema? s.now id' with
  | some schema =>
    rw [resolve_of_found found]
    exact look.trans (fetchFragments_asksFirst ..)
  | none =>
    rw [resolve_of_missing found]
    have ask : AsksFirst id s.history ((s.look .foreground id').fetchSchema id').1.history :=
      look.trans (fetchSchema_asksFirst ..)
    split <;> rename_i e <;> rw [e] at ask
    · exact ask.trans (fetchFragments_asksFirst ..)
    · exact ask

/-- A schema that the foreground puts in the cache in a step, and not by hand, was called for in it. -/
theorem step_asksFirst {x : Step} (h : x.puts id = false) (s : Session) :
    AsksFirst id s.history (s.step x).1.history := by
  cases x with
  | tick ms => exact .byRuns ((passUntil_byRuns ..).trans (instant_byRuns _))
  | wait b => exact .byRuns (waitSettled_byRuns s b)
  | fetchFragments schema => exact fetchFragments_asksFirst s schema
  | buildSections schema => exact fetchFragments_asksFirst s schema
  | fetchSchema id' => exact fetchSchema_asksFirst s id'
  | resolve id' => exact resolve_asksFirst s id'
  | refresh id' => exact resolve_asksFirst { s with cache := s.cache.invalidateSchema id' } id'
  | cache operation =>
    refine ⟨_, rfl, ?_⟩
    rintro ⟨d, hd, time, rfl⟩
    cases operation with
    | putSchema schema =>
      cases List.mem_singleton.1 hd
      exact absurd rfl (of_decide_eq_false h)
    | putFragment id' f => cases List.mem_singleton.1 hd
    | _ => cases hd
  | setStrategy b requested =>
    simp only [step, setStrategy]
    split <;> exact .refl ..
  | refetch b =>
    show AsksFirst id s.history (s.invalidateCache b).history
    rw [invalidateCache_history]
    exact .refl ..
  | invalidateCache b =>
    show AsksFirst id s.history (s.invalidateCache b).history
    rw [invalidateCache_history]
    exact .refl ..
  | setSource | shutdown | drop => exact .refl ..

end StrategyForm.Session
