import StrategyForm.Proofs.Session.Turn

/-!
# Runs that wait, wait for something

Between steps something is on its way to every run that waits (`busy_steps`). Moves do not keep this:
the run whose last fragment has arrived still waits for an empty rest until it publishes, which is a move
of its own. So the invariant goes by the operations that `Session.instant` and the steps are made of.
-/

namespace StrategyForm.Session

/-- Something is on its way to each run that waits. -/
def Busy (s : Session) : Prop := ∀ r ∈ s.runs, r.dues ≠ []

variable {s : Session} {r : Run}

/-! ### What happens at one instant -/

theorem Busy.publish (h : s.Busy) (b g : Nat) (update : State → State) :
    (s.publish b g update).Busy := by
  intro x hx
  rw [publish_runs] at hx
  exact h x hx

theorem Busy.wait (h : s.Busy) (hr : r.dues ≠ []) : (s.wait r).Busy := by
  intro x hx
  rcases mem_wait hx with hx | rfl
  · exact h x hx
  · exact hr

theorem dues_ne_nil_of_not_complete {g : Gathering} (stage : r.stage = .fragments g)
    (rest : ¬ g.isComplete = true) : r.dues ≠ [] := by
  intro none
  rw [Run.dues, stage, List.map_eq_nil_iff] at none
  simp [Gathering.isComplete, none] at rest

theorem Busy.runWith (h : s.Busy) (r : Run) (schema : Schema) : (s.runWith r schema).Busy := by
  have gathered : Busy (s.fetch (·.gather r.agent schema)).1 := h
  rw [runWith_eq]
  split
  · exact gathered.publish _ _ _
  · rename_i rest
    exact gathered.wait (dues_ne_nil_of_not_complete rfl rest)

theorem Busy.runReceive (h : s.Busy) (r : Run) (result : Except Fault Schema) :
    (s.runReceive r result).Busy := by
  cases result with
  | error e => exact h.publish _ _ _
  | ok schema =>
    have received : Busy (s.fetch (·.receiveSchema r.agent r.strategy (.ok schema))).1 := h
    exact received.runWith _ _

theorem Busy.resume (list : List Run) (busy : ∀ r ∈ list, r.dues ≠ []) (h : s.Busy) :
    (s.resume list).Busy := by
  induction list generalizing s with
  | nil => exact h
  | cons r rest ih =>
    have others : ∀ x ∈ rest, x.dues ≠ [] := fun x hx => busy x (List.mem_cons_of_mem _ hx)
    have keep {s : Session} {r : Run} (h : s.Busy) (hr : r.dues ≠ []) :
        Busy { s.resume rest with runs := r :: (s.resume rest).runs } := by
      intro x hx
      rcases List.mem_cons.1 hx with rfl | hx
      · exact hr
      · exact ih others h x hx
    have hr := busy r List.mem_cons_self
    simp only [Session.resume]
    split
    · cases r.stage with
      | schema due result =>
        dsimp only
        split
        · exact ih others (h.runReceive r result)
        · exact keep h hr
      | fragments g =>
        have arrived : Busy (s.fetch (·.arrive r.agent g)).1 := h
        dsimp only
        split
        · split
          · exact ih others (arrived.publish _ _ _)
          · rename_i rest
            exact keep arrived (dues_ne_nil_of_not_complete rfl rest)
        · exact keep h hr
    · obtain ⟨u, -, e⟩ := abandon_leaves s r
      have left : Busy { s with toSupply := u } := h
      rw [e]
      exact ih others left

theorem Busy.launch (h : s.Busy) (l : Launch) : (s.launch l).Busy := by
  cases strategy : l.strategy with
  | none =>
    simp only [Session.launch, strategy]
    exact h.publish _ _ _
  | some id =>
    have looked : (s.look l.agent id).Busy := h
    cases current : (s.binding l.binding).isCurrent l.generation with
    | false =>
      cases found : s.cache.schema? s.now id with
      | some schema =>
        rw [launch_of_overtaken_found strategy current found, Busy, glance_runs]
        exact looked
      | none =>
        rw [launch_of_overtaken strategy current found]
        exact looked
    | true =>
      cases found : s.cache.schema? s.now id with
      | some schema =>
        rw [launch_of_found strategy current found]
        exact looked.runWith _ _
      | none =>
        have called : ((s.look l.agent id).call l id).Busy :=
          looked.publish l.binding l.generation (·.toLoading id)
        rw [launch_of_missing strategy current found]
        dsimp only
        split
        · exact called.runReceive _ _
        · exact called.wait (List.cons_ne_nil _ _)

theorem Busy.instant (h : s.Busy) : s.instant.Busy := by
  have none : Busy { s with runs := [] } := by
    intro x hx
    cases hx
  have resumed := none.resume s.runs h
  have idle : Busy { Session.resume { s with runs := [] } s.runs with launches := [] } := resumed
  exact List.foldlRecOn _ _ idle fun _ h l _ => h.launch l

/-! ### Time and steps -/

theorem Busy.runUntil (time stops : Nat) (h : s.Busy) : (Session.runUntil time stops s).Busy := by
  induction stops generalizing s with
  | zero => exact h
  | succ stops ih =>
    simp only [Session.runUntil]
    split
    · rename_i due next
      split
      · have later : Busy { s with now := max due s.now } := h
        exact ih later.instant
      · exact h
    · exact h

theorem Busy.passUntil (h : s.Busy) (time : Nat) : (s.passUntil time).Busy :=
  h.instant.runUntil (time - 1) (time - s.now)

theorem Busy.passRun (h : s.Busy) (b : Nat) : (s.passRun b).Busy := by
  unfold Session.passRun
  split
  · exact (h.passUntil _).instant
  · exact h

theorem Busy.fetchFragments (h : s.Busy) (schema : Schema) : (s.fetchFragments schema).1.Busy :=
  (fetchFragments_induction s schema (P := fun t _ => t.Busy) (fun _ _ due h => h.passUntil due) h).1

theorem Busy.fetchSchema (h : s.Busy) (id : String) : (s.fetchSchema id).1.Busy := by
  have asked : Busy (s.fetch (·.askSchema .foreground id)).1 := h
  simp only [Session.fetchSchema]
  split
  · exact asked
  · exact asked.passUntil _

theorem Busy.resolve (h : s.Busy) (id : String) : (s.resolve id).1.Busy := by
  have looked : (s.look .foreground id).Busy := h
  cases found : s.cache.schema? s.now id with
  | some schema =>
    rw [resolve_of_found found]
    exact looked.fetchFragments schema
  | none =>
    have fetched := looked.fetchSchema id
    rw [resolve_of_missing found]
    split <;> rename_i e <;> rw [e] at fetched
    · exact fetched.fetchFragments _
    · exact fetched

theorem Busy.startRun (h : s.Busy) (b : Nat) (requested : Option String) :
    (s.startRun b requested).Busy := h

theorem Busy.step (h : s.Busy) (x : Step) : (s.step x).1.Busy := by
  cases x with
  | setSource | cache => exact h
  | tick ms => exact (h.passUntil _).instant
  | fetchFragments schema | buildSections schema => exact h.fetchFragments schema
  | fetchSchema id => exact h.fetchSchema id
  | resolve id => exact h.resolve id
  | refresh id =>
    have forgotten : Busy { s with cache := s.cache.invalidateSchema id } := h
    exact forgotten.resolve id
  | setStrategy b requested =>
    show (s.setStrategy b requested).1.Busy
    unfold Session.setStrategy
    dsimp only
    split
    · exact h
    · exact h.startRun b requested
  | refetch b =>
    have forgotten : (s.invalidateCache b).Busy := by
      unfold Session.invalidateCache
      split <;> exact h
    exact forgotten.startRun b _
  | invalidateCache b =>
    show (s.invalidateCache b).Busy
    unfold Session.invalidateCache
    split <;> exact h
  | shutdown b | drop b => exact h
  | wait b => exact (h.instant.passRun b).passRun b

theorem busy_steps (cache : Cache) (source : Source) (n : Nat) (luck : Luck) (list : List Step) :
    ((start cache source n luck).steps list).Busy := by
  refine steps_induction (fun x h => h.step x) ?_ list
  intro r hr
  cases hr

end StrategyForm.Session
