import StrategyForm.Proofs.Session.Move

/-!
# The clock

After an instant every run waits for something later than now, and none of those that wait is cancelled
(`instant_ahead`). So the clock never jumps over anything that is due: each stop of `runUntil` is later
than the one before, the stops suffice, and what is left is due at the given time or later. Letting time
go by is a sequence of moves (`passUntil_moves`).
-/

namespace StrategyForm.Session

/-- All that a run waits for is later than a time. -/
def Run.IsAfter (r : Run) (time : Nat) : Prop := ∀ d ∈ r.dues, time < d

/-- Nothing is due now, and no run that waits is cancelled. -/
def Ahead (s : Session) : Prop :=
  ∀ r ∈ s.runs, r.IsAfter s.now ∧ (s.binding r.binding).isCurrent r.generation = true

variable {s : Session} {r : Run}

/-! ### Instants -/

@[simp] theorem runWith_now (r : Run) (schema : Schema) : (s.runWith r schema).now = s.now := by
  rw [runWith_eq]
  split
  · simp [runResolved]
  · simp [wait]

@[simp] theorem runReceive_now (r : Run) (result : Except Fault Schema) :
    (s.runReceive r result).now = s.now := by
  cases result with
  | ok schema => exact runWith_now ..
  | error e => exact publish_now ..

/-- A run that waits waited before, or it is this one and waits for something later. -/
theorem runWith_runs (schema : Schema) :
    ∀ x ∈ (s.runWith r schema).runs, x ∈ s.runs ∨ x.IsAfter s.now ∧ x.agent = r.agent := by
  intro x hx
  rw [runWith_eq] at hx
  split at hx
  · simp only [runResolved, publish_runs] at hx
    exact .inl hx
  · rcases List.mem_append.1 hx with hx | hx
    · exact .inl hx
    · rw [List.mem_singleton.1 hx]
      refine .inr ⟨fun d hd => ?_, rfl⟩
      obtain ⟨y, hy, rfl⟩ := List.mem_map.1 hd
      exact Supply.gather_due schema y hy

theorem runReceive_runs (result : Except Fault Schema) :
    ∀ x ∈ (s.runReceive r result).runs, x ∈ s.runs ∨ x.IsAfter s.now ∧ x.agent = r.agent := by
  cases result with
  | ok schema => exact runWith_runs _
  | error e => exact fun x hx => .inl (by simpa [runReceive, fetch, Supply.receiveSchema] using hx)

@[simp] theorem glance_now (a : Agent) (schema : Schema) : (s.glance a schema).now = s.now := by
  unfold glance
  split
  · exact Supply.gather_now schema
  · rfl

@[simp] theorem abandon_now (s : Session) (r : Run) : (s.abandon r).now = s.now := by
  obtain ⟨u, last, e⟩ := abandon_leaves s r
  rw [e]
  exact last.work.now

theorem resume_now (list : List Run) (s : Session) : (s.resume list).now = s.now := by
  induction list generalizing s with
  | nil => rfl
  | cons r rest ih =>
    simp only [resume]
    split
    · split
      · split <;> simp [ih]
      · split
        · split <;> simp [ih, runResolved]
        · simp [ih]
    · simp [ih]

/-- The runs that were there, and one more that is not cancelled and waits for something later. -/
theorem Ahead.of_runs {t : Session} (h : s.Ahead) (c : SameControl s t) (now : t.now = s.now)
    (current : (s.binding r.binding).isCurrent r.generation = true)
    (runs : ∀ x ∈ t.runs, x ∈ s.runs ∨ x.IsAfter s.now ∧ x.agent = r.agent) : t.Ahead := by
  intro x hx
  rw [now, c.isCurrent]
  rcases runs x hx with hx | ⟨later, same⟩
  · exact h x hx
  · obtain ⟨binding, generation⟩ := Agent.run.inj same
    rw [binding, generation]
    exact ⟨later, current⟩

theorem runWith_control (s : Session) (r : Run) (schema : Schema) :
    SameControl s (s.runWith r schema) := by
  have gathered : SameControl s (s.fetch (·.gather r.agent schema)).1 := .of_bindings rfl
  rw [runWith_eq]
  split
  · exact gathered.trans (.publish ..)
  · exact .of_bindings rfl

theorem runReceive_control (s : Session) (r : Run) (result : Except Fault Schema) :
    SameControl s (s.runReceive r result) := by
  cases result with
  | ok schema =>
    have received : SameControl s (s.fetch (·.receiveSchema r.agent r.strategy (.ok schema))).1 :=
      .of_bindings rfl
    exact received.trans (runWith_control ..)
  | error e => exact .publish s r.binding r.generation (·.toFailed r.strategy e)

theorem resume_ahead (list : List Run) (s : Session) (h : s.Ahead) : (s.resume list).Ahead := by
  induction list generalizing s with
  | nil => exact h
  | cons r rest ih =>
    have keep (s : Session) (r : Run) (h : s.Ahead) (hr : r.IsAfter s.now)
        (current : (s.binding r.binding).isCurrent r.generation = true) :
        Ahead { s.resume rest with runs := r :: (s.resume rest).runs } := by
      intro x hx
      rcases List.mem_cons.1 hx with rfl | hx
      · show x.IsAfter (s.resume rest).now ∧ ((s.resume rest).binding x.binding).isCurrent x.generation = true
        rw [resume_now, (resume_control rest s).isCurrent]
        exact ⟨hr, current⟩
      · exact ih s h x hx
    cases current : (s.binding r.binding).isCurrent r.generation with
    | false =>
      obtain ⟨u, last, e⟩ := abandon_leaves s r
      simp only [resume, current, Bool.false_eq_true, ↓reduceIte, e]
      refine ih _ fun x hx => ?_
      show x.IsAfter u.now ∧ _
      rw [last.work.now]
      exact h x hx
    | true =>
      cases stage : r.stage with
      | schema due result =>
        simp only [resume, current, ↓reduceIte, stage]
        split
        · exact ih _ (h.of_runs (runReceive_control ..) (runReceive_now ..) current (runReceive_runs result))
        · rename_i later
          refine keep s r h (fun d hd => ?_) current
          simp only [Run.dues, stage, List.mem_singleton] at hd
          omega
      | fragments g =>
        simp only [resume, current, ↓reduceIte, stage]
        split
        · have ahead : Ahead (s.fetch (·.arrive r.agent g)).1 := fun x hx => by
            show x.IsAfter (s.toSupply.arrive r.agent g).1.now ∧ _
            rw [Supply.arrive_now]
            exact h x hx
          split
          · refine ih _ (ahead.of_runs (.publish ..) (publish_now ..) current fun x hx => ?_)
            exact .inl (by simpa [runResolved] using hx)
          · refine keep _ _ ahead (fun d hd => ?_) current
            simp only [Run.dues, fetch_snd, Supply.arrive_arrivals] at hd
            obtain ⟨y, hy, rfl⟩ := List.mem_map.1 hd
            simpa using (List.mem_filter.1 hy).2
        · rename_i none
          refine keep s r h (fun d hd => ?_) current
          simp only [Run.dues, stage] at hd
          obtain ⟨y, hy, rfl⟩ := List.mem_map.1 hd
          simp only [List.any_eq_true, not_exists, not_and, decide_eq_true_eq] at none
          have := none y hy
          omega

@[simp] theorem launch_now (l : Launch) : (s.launch l).now = s.now := by
  cases strategy : l.strategy with
  | none => simp [launch, strategy]
  | some id =>
    cases current : (s.binding l.binding).isCurrent l.generation with
    | false =>
      cases found : s.cache.schema? s.now id with
      | some schema => rw [launch_of_overtaken_found strategy current found, glance_now]; rfl
      | none => rw [launch_of_overtaken strategy current found]; rfl
    | true =>
      cases found : s.cache.schema? s.now id with
      | some schema => rw [launch_of_found strategy current found, runWith_now]; rfl
      | none =>
        rw [launch_of_missing strategy current found]
        dsimp only
        split
        · rw [runReceive_now, call_now]; rfl
        · exact call_now ..

theorem launch_control (s : Session) (l : Launch) : SameControl s (s.launch l) := by
  cases strategy : l.strategy with
  | none =>
    simp only [launch, strategy]
    exact .publish ..
  | some id =>
    have look : SameControl s (s.look l.agent id) := .of_bindings rfl
    cases current : (s.binding l.binding).isCurrent l.generation with
    | false =>
      cases found : s.cache.schema? s.now id with
      | some schema =>
        rw [launch_of_overtaken_found strategy current found]
        exact look.trans (.of_bindings (glance_bindings ..))
      | none =>
        rw [launch_of_overtaken strategy current found]
        exact look
    | true =>
      cases found : s.cache.schema? s.now id with
      | some schema =>
        rw [launch_of_found strategy current found]
        exact look.trans (runWith_control ..)
      | none =>
        have called : SameControl s ((s.look l.agent id).call l id) :=
          (look.trans (.publish _ l.binding l.generation (·.toLoading id))).trans (.of_bindings rfl)
        rw [launch_of_missing strategy current found]
        dsimp only
        split
        · exact called.trans (runReceive_control ..)
        · exact called.trans (.of_bindings rfl)

/-- A run that waits after a launch waited before, or it is the one that was launched. -/
theorem launch_runs (l : Launch) :
    (∀ x ∈ (s.launch l).runs, x ∈ s.runs) ∨
      (s.binding l.binding).isCurrent l.generation = true ∧
        ∀ x ∈ (s.launch l).runs, x ∈ s.runs ∨ x.IsAfter s.now ∧ x.agent = l.agent := by
  cases strategy : l.strategy with
  | none => exact .inl fun x hx => by simpa [launch, strategy] using hx
  | some id =>
    cases current : (s.binding l.binding).isCurrent l.generation with
    | false =>
      refine .inl fun x hx => ?_
      cases found : s.cache.schema? s.now id with
      | some schema =>
        rw [launch_of_overtaken_found strategy current found, glance_runs] at hx
        exact hx
      | none =>
        rw [launch_of_overtaken strategy current found] at hx
        exact hx
    | true =>
      refine .inr ⟨rfl, fun x hx => ?_⟩
      cases found : s.cache.schema? s.now id with
      | some schema =>
        rw [launch_of_found strategy current found] at hx
        exact runWith_runs _ x hx
      | none =>
        rw [launch_of_missing strategy current found] at hx
        dsimp only at hx
        split at hx
        · simpa [caller, Launch.run, Run.agent, Launch.agent] using runReceive_runs _ x hx
        · rename_i delay
          rcases List.mem_append.1 hx with hx | hx
          · exact .inl (by simpa using hx)
          · rw [List.mem_singleton.1 hx]
            refine .inr ⟨fun d hd => ?_, rfl⟩
            rw [List.mem_singleton.1 hd]
            omega

theorem launch_ahead (l : Launch) (h : s.Ahead) : (s.launch l).Ahead := by
  rcases launch_runs (s := s) l with old | ⟨current, runs⟩
  · intro x hx
    rw [launch_now, (launch_control s l).isCurrent]
    exact h x (old x hx)
  · exact h.of_runs (r := l.run "" (.schema 0 default)) (launch_control s l) (launch_now l) current runs

theorem launches_ahead (list : List Launch) (h : s.Ahead) : (list.foldl launch s).Ahead :=
  List.foldlRecOn _ _ h fun _ h l _ => launch_ahead l h

theorem launches_now (list : List Launch) (s : Session) : (list.foldl launch s).now = s.now := by
  induction list generalizing s with
  | nil => rfl
  | cons l rest ih => exact (ih _).trans (launch_now l)

@[simp] theorem instant_now (s : Session) : s.instant.now = s.now :=
  (launches_now ..).trans (resume_now ..)

/-- Whatever was due now has happened. -/
theorem instant_ahead (s : Session) : s.instant.Ahead :=
  launches_ahead _ (resume_ahead s.runs { s with runs := [] } (by simp [Ahead]))

/-! ### Letting time go by -/

theorem Run.next?_eq (r : Run) : r.next? = r.dues.min? := by
  unfold next? dues
  cases r.stage <;> rfl

theorem le_of_next? {due : Nat} (h : s.next? = some due) : ∀ r ∈ s.runs, ∀ d ∈ r.dues, due ≤ d := by
  intro r hr d hd
  obtain ⟨e, he⟩ : ∃ e, r.next? = some e := by
    rw [Run.next?_eq]
    exact Option.ne_none_iff_exists'.1 fun none => by
      rw [List.min?_eq_none_iff] at none; simp [none] at hd
  have hd : e ≤ d := by
    rw [Run.next?_eq] at he
    exact (List.min?_eq_some_iff.1 he).2 d hd
  have he : due ≤ e := (List.min?_eq_some_iff.1 h).2 e (List.mem_filterMap.2 ⟨r, hr, he⟩)
  omega

theorem exists_of_next? {due : Nat} (h : s.next? = some due) : ∃ r ∈ s.runs, due ∈ r.dues := by
  obtain ⟨r, hr, e⟩ := List.mem_filterMap.1 (List.min?_eq_some_iff.1 h).1
  rw [Run.next?_eq] at e
  exact ⟨r, hr, (List.min?_eq_some_iff.1 e).1⟩

theorem of_next?_eq_none (h : s.next? = none) : ∀ r ∈ s.runs, ∀ d ∈ r.dues, False := by
  intro r hr d hd
  rw [next?, List.min?_eq_none_iff, List.filterMap_eq_nil_iff] at h
  have := h r hr
  rw [Run.next?_eq, List.min?_eq_none_iff] at this
  simp [this] at hd

/-- The stops are moves, no run is left that has not started or is cancelled, and if there are enough of
them what is left is due after the given time. -/
theorem runUntil_spec (time stops : Nat) (s : Session) (h : s.Ahead) (idle : s.launches = []) :
    Moves s (runUntil time stops s) ∧ s.now ≤ (runUntil time stops s).now ∧
      (runUntil time stops s).launches = [] ∧ (runUntil time stops s).Ahead ∧
      (time ≤ s.now + stops → ∀ r ∈ (runUntil time stops s).runs, ∀ d ∈ r.dues, time < d) := by
  induction stops generalizing s with
  | zero =>
    refine ⟨.refl, Nat.le_refl _, idle, h, fun enough r hr d hd => ?_⟩
    have := (h r hr).1 d hd
    omega
  | succ stops ih =>
    cases next : s.next? with
    | none =>
      simp only [runUntil, next]
      exact ⟨.refl, Nat.le_refl _, idle, h, fun _ r hr d hd => (of_next?_eq_none next r hr d hd).elim⟩
    | some due =>
      obtain ⟨r, hr, hd⟩ := exists_of_next? next
      -- nothing is due now, so each stop is later than the one before and one of the stops is spent
      have later := (h r hr).1 due hd
      simp only [runUntil, next]
      split
      · obtain ⟨moves, now, idle', ahead, rest⟩ :=
          ih _ (instant_ahead { s with now := max due s.now }) (instant_launches _)
        have pass : Move s { s with now := max due s.now } := by
          refine .pass (by omega) (fun r hr d hd => ?_) idle fun r hr => (h r hr).2
          have := le_of_next? next r hr d hd
          omega
        rw [instant_now] at now rest
        refine ⟨.head pass ((instant_moves _).trans moves), ?_, idle', ahead, fun enough => rest ?_⟩
        · exact Nat.le_trans (Nat.le_max_right ..) now
        · show _ ≤ max due s.now + stops
          omega
      · refine ⟨.refl, Nat.le_refl _, idle, h, fun _ r hr d hd => ?_⟩
        have := le_of_next? next r hr d hd
        omega

theorem passUntil_moves (s : Session) (time : Nat) : Moves s (s.passUntil time) := by
  obtain ⟨moves, now, idle, ahead, rest⟩ := runUntil_spec (time - 1) (time - s.now) s.instant
    (instant_ahead s) (instant_launches s)
  refine (instant_moves s).trans (moves.tail
    (.pass (Nat.le_max_right ..) (fun r hr d hd => ?_) idle fun r hr => (ahead r hr).2))
  have due := rest (by rw [instant_now]; omega) r hr d hd
  have later := (ahead r hr).1 d hd
  omega

theorem le_passUntil_now (s : Session) (time : Nat) : time ≤ (s.passUntil time).now :=
  Nat.le_max_left ..

/-! ### Sessions in which nothing waits -/

/-- No run waits, and none is to start. -/
structure Quiet (s : Session) : Prop where
  launches : s.launches = []
  runs : s.runs = []

namespace Quiet
variable {t : Session}

theorem instant (q : s.Quiet) : s.instant = s := by
  obtain ⟨supply, bindings, launches, runs⟩ := s
  obtain ⟨rfl, rfl⟩ := q
  rfl

/-- Nothing happens when time passes. -/
theorem passUntil (q : s.Quiet) (time : Nat) : s.passUntil time = { s with now := max time s.now } := by
  have stays (stops : Nat) : runUntil (time - 1) stops s = s := by
    cases stops with
    | zero => rfl
    | succ stops =>
      have next : s.next? = none := by simp [next?, q.runs]
      simp only [runUntil, next]
  simp only [Session.passUntil, q.instant, stays]

theorem move (q : s.Quiet) (m : Move s t) : t.Quiet := by
  cases m with
  | pass | lookUp | forget | call | receive | gather | take => exact ⟨q.launches, q.runs⟩
  | clear first | skip first | slip first | hit first | miss first => simp [q.launches] at first
  | refuse place | obtain place | arrive place | finish place | leave place => simp [q.runs] at place

theorem moves (q : s.Quiet) (m : Moves s t) : t.Quiet := m.induction (fun m q => q.move m) q

end Quiet

end StrategyForm.Session
