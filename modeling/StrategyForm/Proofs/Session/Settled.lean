import StrategyForm.Proofs.Session.Attended
import StrategyForm.Proofs.Session.Booked
import StrategyForm.Proofs.Session.Busy
import StrategyForm.Proofs.Session.Cancelled
import StrategyForm.Proofs.Session.Coherent
import StrategyForm.Proofs.Session.Fresh
import StrategyForm.Proofs.Session.Publication

/-!
# Waiting for a binding

Main statement (`wait_answers`): to wait for a binding that is not shut down ends with the answer of its
latest run, and the clock goes on by no more than what is left of the run's call for its schema and of
one of its calls for fragments. To wait for one that is shut down does nothing for it.

A run that waits for its schema waits for fragments when the schema has arrived, if for anything
(`passed_stage`), and a run that waits for fragments waits for nothing when the last has arrived. So after
both the latest run is not pending, and has answered.
-/

namespace StrategyForm.Session

variable {s t : Session}

/-! ### What a run waits for only shrinks -/

/-- No run with these numbers is to start, and one that waits is at a stage of a kind. -/
structure Tracks (key : Nat × Nat) (P : Stage → Prop) (s : Session) : Prop where
  launches : ∀ l ∈ s.launches, l.key ≠ key
  runs : ∀ r ∈ s.runs, r.key = key → P r.stage

section Tracks
variable {key : Nat × Nat} {P : Stage → Prop}

theorem Tracks.move
    (obtain_ : ∀ due schema g, P (.schema due (.ok schema)) → P (.fragments g))
    (arrive_ : ∀ (g g' : Gathering), (∀ x ∈ g'.arrivals, x ∈ g.arrivals) →
      P (.fragments g) → P (.fragments g'))
    (m : Move s t) (h : s.Tracks key P) : t.Tracks key P := by
  have launches := fun l hl => h.launches l (m.launches l hl)
  refine ⟨launches, fun x hx same => ?_⟩
  have started {l : Launch} {rest : List Launch} (first : s.launches = l :: rest) : l.key ≠ key :=
    h.launches l (mem_of_first first)
  cases m with
  | pass | lookUp | forget | call | receive | gather | take | skip | slip => exact h.runs x hx same
  | leave place => exact h.runs x (mem_of_mem_others place hx) same
  | clear => exact h.runs x (by simpa using hx) same
  | hit first =>
    rcases mem_wait hx with hx | rfl
    · exact h.runs x hx same
    · exact absurd same (started first)
  | miss first =>
    rcases mem_wait hx with hx | rfl
    · exact h.runs x (by simpa using hx) same
    · exact absurd same (started first)
  | refuse place | finish place =>
    simp only [runResolved, publish_runs] at hx
    exact h.runs x (mem_of_mem_others place hx) same
  | @obtain front r back due schema place _ stage =>
    rcases mem_wait hx with hx | rfl
    · exact h.runs x (mem_of_mem_others place hx) same
    · have before := h.runs r (mem_of_place place) same
      rw [stage] at before
      exact obtain_ _ _ _ before
  | @arrive front r back g place _ stage =>
    rcases mem_or_eq_of_place place hx with hx | rfl
    · exact h.runs x hx same
    · have before := h.runs r (mem_of_place place) same
      rw [stage] at before
      refine arrive_ _ _ (fun y hy => ?_) before
      rw [Supply.arrive_arrivals] at hy
      exact (List.mem_filter.1 hy).1

theorem Moves.tracks
    (obtain_ : ∀ due schema g, P (.schema due (.ok schema)) → P (.fragments g))
    (arrive_ : ∀ (g g' : Gathering), (∀ x ∈ g'.arrivals, x ∈ g.arrivals) →
      P (.fragments g) → P (.fragments g'))
    (m : Moves s t) (h : s.Tracks key P) : t.Tracks key P :=
  m.induction (fun m h => h.move obtain_ arrive_ m) h

end Tracks

theorem Orderly.key_inj (o : s.Orderly) {r x : Run} (hr : r ∈ s.runs) (hx : x ∈ s.runs)
    (same : x.key = r.key) : x = r := by
  obtain ⟨front, back, place⟩ := List.append_of_mem hr
  have alone := (o.run_alone place (o.inside r hr)).2
  rw [place] at hx
  rcases List.mem_append.1 hx with hx | hx
  · exact absurd same (alone x (List.mem_append_left _ hx))
  rcases List.mem_cons.1 hx with rfl | hx
  · rfl
  · exact absurd same (alone x (List.mem_append_right _ hx))

/-! ### Waiting for a run -/

theorem runUntil_now_le (time stops : Nat) (s : Session) :
    (runUntil time stops s).now ≤ max time s.now := by
  induction stops generalizing s with
  | zero => exact Nat.le_max_right ..
  | succ stops ih =>
    simp only [runUntil]
    split
    · rename_i due next
      split
      · have later := ih (instant { s with now := max due s.now })
        rw [instant_now] at later
        have later : _ ≤ max time (max due s.now) := later
        omega
      · exact Nat.le_max_right ..
    · exact Nat.le_max_right ..

theorem passUntil_now (s : Session) (time : Nat) : (s.passUntil time).now = max time s.now := by
  have least := (passUntil_moves s time).now_le
  have most := runUntil_now_le (time - 1) (time - s.now) s.instant
  rw [instant_now] at most
  have passed : (s.passUntil time).now =
      max time (runUntil (time - 1) (time - s.now) s.instant).now := rfl
  omega

theorem Run.last?_eq (r : Run) : r.last? = r.dues.max? := by
  unfold last? dues
  cases r.stage <;> rfl

/-- When everything has arrived that a run waits for, it may wait for fragments if that was the schema,
and does not wait otherwise. -/
theorem passed_stage (o : s.Orderly) (busy : s.Busy) (idle : s.launches = []) {r x : Run}
    (hr : r ∈ s.runs) {due : Nat} (last : r.last? = some due)
    (hx : x ∈ (s.passUntil due).instant.runs) (same : x.key = r.key) :
    (∃ g, x.stage = .fragments g) ∧ ∃ result, r.stage = .schema due result := by
  have moves : Moves s (s.passUntil due).instant := (passUntil_moves ..).trans (instant_moves _)
  have ahead := (instant_ahead (s.passUntil due) x hx).1
  rw [instant_now, passUntil_now] at ahead
  have tracked {P : Stage → Prop} (now : P r.stage) : s.Tracks r.key P := by
    refine ⟨fun l hl => ?_, fun y hy e => ?_⟩
    · rw [idle] at hl
      cases hl
    · rw [o.key_inj hr hy e]
      exact now
  cases stage : r.stage with
  | schema time result =>
    have e : time = due := by simpa [Run.last?, stage] using last
    subst e
    have after := (moves.tracks (P := fun p => p = r.stage ∨ ∃ g, p = .fragments g)
      (fun _ _ g _ => .inr ⟨g, rfl⟩) (fun _ g' _ _ => .inr ⟨g', rfl⟩) (tracked (.inl rfl))).runs x hx same
    rcases after with waits | fragments
    · -- it would still wait for the schema, which has arrived
      have later := ahead time (by rw [Run.dues, waits, stage]; exact List.mem_singleton_self _)
      omega
    · exact ⟨fragments, result, rfl⟩
  | fragments g =>
    exfalso
    have after := (moves.tracks
      (P := fun p => ∃ g', p = .fragments g' ∧ ∀ y ∈ g'.arrivals, y ∈ g.arrivals)
      (by
        rintro _ _ _ ⟨_, e, _⟩
        cases e)
      (by
        rintro _ g' fewer ⟨_, e, sub⟩
        cases e
        exact ⟨g', rfl, fun y hy => sub y (fewer y hy)⟩)
      (tracked ⟨g, stage, fun _ hy => hy⟩)).runs x hx same
    obtain ⟨g', waits, sub⟩ := after
    obtain ⟨time, left⟩ := List.exists_mem_of_ne_nil _ ((busy.passUntil due).instant x hx)
    have later : max due s.now < time := ahead time left
    rw [Run.dues, waits] at left
    obtain ⟨y, hy, rfl⟩ := List.mem_map.1 left
    have most : y.due ≤ due := by
      rw [Run.last?_eq] at last
      refine (List.max?_eq_some_iff.1 last).2 _ ?_
      rw [Run.dues, stage]
      exact List.mem_map_of_mem (sub y hy)
    omega

theorem passRun_of_idle {b : Nat} (none : ∀ r ∈ s.runs, r.binding ≠ b) : s.passRun b = s := by
  have found : s.runs.find? (·.binding == b) = .none := by
    refine List.find?_eq_none.2 fun r hr => ?_
    simpa using none r hr
  simp only [passRun, found, Option.bind_none]

/-- Either the binding has no run that waits, and nothing is done, or its run is given the time to
receive what it waits for. -/
theorem passRun_cases (o : s.Orderly) (busy : s.Busy) (idle : s.launches = []) (ahead : s.Ahead)
    (b : Nat) :
    ((∀ r ∈ s.runs, r.binding ≠ b) ∧ s.passRun b = s) ∨
      ∃ r ∈ s.runs, r.binding = b ∧ ∃ due ∈ r.dues, (s.passRun b).now = max due s.now ∧
        ∀ x ∈ (s.passRun b).runs, x.binding = b →
          (∃ g, x.stage = .fragments g) ∧ ∃ result, r.stage = .schema due result := by
  cases found : s.runs.find? (·.binding == b) with
  | none =>
    have none : ∀ r ∈ s.runs, r.binding ≠ b := by
      intro r hr e
      have other := List.find?_eq_none.1 found r hr
      simp [e] at other
    exact .inl ⟨none, passRun_of_idle none⟩
  | some r =>
    have hr := List.mem_of_find?_eq_some found
    have mine : r.binding = b := by simpa using List.find?_some found
    cases last : r.last? with
    | none =>
      rw [Run.last?_eq, List.max?_eq_none_iff] at last
      exact absurd last (busy r hr)
    | some due =>
      have passed : s.passRun b = (s.passUntil due).instant := by
        simp only [passRun, found, Option.bind_some, last]
      refine .inr ⟨r, hr, mine, due, ?_, ?_, fun x hx other => ?_⟩
      · rw [Run.last?_eq] at last
        exact (List.max?_eq_some_iff.1 last).1
      · rw [passed, instant_now, passUntil_now]
      · rw [passed] at hx
        have moves : Moves s (s.passUntil due).instant := (passUntil_moves ..).trans (instant_moves _)
        have current := (instant_ahead _ x hx).2
        -- both are the latest run of the binding
        have same : x.key = r.key := by
          have latest := (Binding.isCurrent_iff.1 (ahead r hr).2).2
          rw [moves.control.isCurrent] at current
          have latest' := (Binding.isCurrent_iff.1 current).2
          rw [Run.key, Run.key, ← latest, ← latest', other, mine]
        exact passed_stage o busy idle hr last hx same

theorem passRun_launches (idle : s.launches = []) (b : Nat) : (s.passRun b).launches = [] := by
  unfold passRun
  split
  · exact instant_launches _
  · exact idle

theorem passRun_ahead (ahead : s.Ahead) (b : Nat) : (s.passRun b).Ahead := by
  unfold passRun
  split
  · exact instant_ahead _
  · exact ahead

/-- No run of the binding is pending when the wait is over. -/
theorem waitSettled_idle (o : s.Orderly) (busy : s.Busy) (b : Nat) :
    (s.waitSettled b).launches = [] ∧ ∀ r ∈ (s.waitSettled b).runs, r.binding ≠ b := by
  have first := (instant_moves s).induction (fun m o => o.move m) o
  have second := (passRun_moves s.instant b).induction (fun m o => o.move m) first
  have idle := passRun_launches (instant_launches s) b
  refine ⟨passRun_launches idle b, fun x hx mine => ?_⟩
  rcases passRun_cases second (busy.instant.passRun b) idle (passRun_ahead (instant_ahead s) b) b with ⟨none, same⟩ | ⟨r, hr, own, _, _, _, stages⟩
  · rw [waitSettled, same] at hx
    exact none x hx mine
  · obtain ⟨-, result, stage⟩ := stages x hx mine
    rcases passRun_cases first busy.instant (instant_launches s) (instant_ahead s) b with ⟨none, same⟩ | ⟨_, _, _, _, _, _, before⟩
    · rw [same] at hr
      exact none r hr own
    · obtain ⟨⟨g, e⟩, -⟩ := before r hr own
      rw [e] at stage
      cases stage

/-! ### How long a call takes -/

/-- A reply to a call that was made meanwhile is due no later than the source's delay from now on. -/
theorem Moves.due_le (m : Moves s t) {a : Agent} {call : Call} {due : Nat}
    (called : .called a call due ∈ t.history) :
    .called a call due ∈ s.history ∨ due ≤ t.now + call.delay s.source := by
  have all := m.induction (I := fun t => t.source = s.source ∧ (.called a call due ∈ t.history →
    .called a call due ∈ s.history ∨ due ≤ t.now + call.delay s.source)) ?_ ⟨rfl, .inl⟩
  · exact all.2 called
  · rintro t u m ⟨source, before⟩
    refine ⟨m.source.trans source, fun called => ?_⟩
    have later := m.now_le
    rcases m.timely.mem_cases called with old | new
    · exact (before old).imp_right fun le => by omega
    · have new : due = t.now + call.delay t.source := new
      rw [source] at new
      omega

/-- By the end the agent has made the call, and from the beginning on the reply takes this long: what is
left of it if the call was made before, and the source's delay otherwise. -/
def Takes (s t : Session) (a : Agent) (call : Call) (ms : Nat) : Prop :=
  ∃ due, .called a call due ∈ t.history ∧
    ms = if .called a call due ∈ s.history then due - s.now else call.delay s.source

theorem exists_takes {u : Session} (m : Moves s u) (m' : Moves u t) {a : Agent} {call : Call} {due : Nat}
    (called : .called a call due ∈ u.history) : ∃ ms, s.Takes t a call ms ∧ due ≤ u.now + ms := by
  refine ⟨_, ⟨due, m'.grows.mem called, rfl⟩, ?_⟩
  have later := m.now_le
  rcases m.due_le called with old | new
  · rw [if_pos old]
    omega
  · split
    · omega
    · exact new

/-! ### The clock -/

/-- What a run waits for it has called for: its schema, or a fragment. -/
theorem Booked.called (h : s.Booked) {r : Run} (hr : r ∈ s.runs) {due : Nat} (mem : due ∈ r.dues) :
    (∃ result, r.stage = .schema due result) ∧
        .called r.agent (.schema r.strategy) due ∈ s.history ∨
      (∃ g, r.stage = .fragments g) ∧ ∃ id, .called r.agent (.fragment id) due ∈ s.history := by
  rw [Run.dues] at mem
  cases stage : r.stage with
  | schema time result =>
    simp only [stage, List.mem_singleton] at mem
    subst mem
    exact .inl ⟨⟨result, rfl⟩, (h.runs r hr).schema due result stage⟩
  | fragments g =>
    simp only [stage] at mem
    obtain ⟨x, hx, rfl⟩ := List.mem_map.1 mem
    exact .inr ⟨⟨g, rfl⟩, x.id, (h.runs r hr).fragments g stage x hx⟩

theorem waitSettled_now (o : s.Orderly) (busy : s.Busy) (booked : s.Booked) (coherent : s.Coherent)
    (b : Nat) :
    let t := s.waitSettled b
    let run := Agent.run b (s.binding b).generation
    ∃ rest most, t.now ≤ s.now + rest + most ∧
      (rest = 0 ∨ ∃ id, (s.binding b).requested = some id ∧ s.Takes t run (.schema id) rest) ∧
      (most = 0 ∨ ∃ id, s.Takes t run (.fragment id) most) := by
  intro t run
  let u := s.instant
  let v := u.passRun b
  have start : Moves s u := instant_moves s
  have first : Moves u v := passRun_moves u b
  have second : Moves v t := passRun_moves v b
  have both : Moves s v := start.trans first
  have orderly {w : Session} (m : Moves s w) : w.Orderly := m.induction (fun m o => o.move m) o
  have latest {w : Session} (m : Moves s w) (ahead : w.Ahead) {r : Run} (hr : r ∈ w.runs)
      (mine : r.binding = b) : r.generation = (s.binding b).generation := by
    have latest := (Binding.isCurrent_iff.1 (ahead r hr).2).2
    rw [m.control.generation, mine] at latest
    exact latest.symm
  have own {w : Session} (m : Moves s w) (ahead : w.Ahead) {r : Run} (hr : r ∈ w.runs)
      (mine : r.binding = b) : r.agent = run := by
    rw [Run.agent, mine, latest m ahead hr mine]
  have ahead : u.Ahead := instant_ahead s
  have ahead' : v.Ahead := passRun_ahead ahead b
  have now : u.now = s.now := instant_now s
  have idle : v.launches = [] := passRun_launches (instant_launches s) b
  rcases passRun_cases (orderly start) busy.instant (instant_launches s) ahead b with
    ⟨none, same⟩ | ⟨r, hr, mine, due, mem, passed, stages⟩
  · refine ⟨0, 0, ?_, .inl rfl, .inl rfl⟩
    show (v.passRun b).now ≤ _
    rw [show v = u from same, show u.passRun b = u from same, now]
    exact Nat.le_refl _
  have passed : v.now = max due u.now := passed
  rcases (Booked.called (start.induction (fun m h => h.move m) booked) hr mem) with
    ⟨-, called⟩ | ⟨⟨g, stage⟩, id, called⟩
  · obtain ⟨rest, takes, le⟩ := exists_takes start (first.trans second) called
    rw [own start ahead hr mine] at takes
    have requested : (s.binding b).requested = some r.strategy := by
      have asked := (start.induction (fun m h => h.move m) coherent).runs r hr
      rw [start.control.requested, start.control.generation, mine] at asked
      exact asked (latest start ahead hr mine)
    rcases passRun_cases (orderly both) (busy.instant.passRun b) idle ahead' b with
      ⟨none, same⟩ | ⟨x, hx, mine', due', mem', passed', -⟩
    · refine ⟨rest, 0, ?_, .inr ⟨_, requested, takes⟩, .inl rfl⟩
      rw [show t = v from same, passed]
      omega
    · have passed' : t.now = max due' v.now := passed'
      have waits := (stages x hx mine').1
      rcases (Booked.called (both.induction (fun m h => h.move m) booked) hx mem') with
        ⟨⟨result, stage⟩, -⟩ | ⟨-, id, called'⟩
      · rw [stage] at waits
        obtain ⟨g, e⟩ := waits
        cases e
      · obtain ⟨most, takes', le'⟩ := exists_takes both second called'
        rw [own both ahead' hx mine'] at takes'
        refine ⟨rest, most, ?_, .inr ⟨_, requested, takes⟩, .inr ⟨id, takes'⟩⟩
        omega
  · obtain ⟨most, takes, le⟩ := exists_takes start (first.trans second) called
    rw [own start ahead hr mine] at takes
    have done : ∀ x ∈ v.runs, x.binding ≠ b := by
      intro x hx mine'
      obtain ⟨-, result, e⟩ := stages x hx mine'
      rw [stage] at e
      cases e
    rcases passRun_cases (orderly both) (busy.instant.passRun b) idle ahead' b with
      ⟨-, same⟩ | ⟨x, hx, mine', -⟩
    · refine ⟨0, most, ?_, .inl rfl, .inr ⟨id, takes⟩⟩
      rw [show t = v from same, passed]
      omega
    · exact absurd mine' (done x hx)

theorem Moves.state_of_shutdown (m : Moves s t) {b : Nat} (down : (s.binding b).isShutdown = true) :
    (t.binding b).state = (s.binding b).state := by
  have both := m.induction (I := fun t => (t.binding b).isShutdown = true ∧
    (t.binding b).state = (s.binding b).state) ?_ ⟨down, rfl⟩
  · exact both.2
  · rintro t u m ⟨down, same⟩
    exact ⟨(m.control.isShutdown b).trans down, (m.state_of_shutdown down).trans same⟩

theorem waitSettled_now_of_shutdown {b : Nat} (down : (s.binding b).isShutdown = true) :
    (s.waitSettled b).now = s.now := by
  have none : ∀ r ∈ s.instant.runs, r.binding ≠ b := by
    rintro r hr rfl
    have current := (instant_ahead s r hr).2
    rw [(instant_moves s).control.isCurrent, Binding.isCurrent_iff, down] at current
    cases current.1
  rw [waitSettled, passRun_of_idle none, passRun_of_idle none, instant_now]

/-! ### The whole of it -/

/-- To wait for a binding that is neither shut down nor dropped answers a settled state of the latest
run, about the strategy that was requested last. The clock goes on by no more than what the run's call
for its schema takes from now on, and one of its calls for fragments. If the binding is shut down, the
answer is what it shows, and the clock stands still. -/
theorem wait_answers (ttl : Nat) (source : Source) (n : Nat) (luck : Luck) (list : List Step)
    (b : Fin n) :
    let s := (start { ttl } source n luck).steps list
    let run := Agent.run b (s.binding b).generation
    ∃ t st, s.step (.wait b) = (t, .state st) ∧
      (list.any (·.closes b) = false →
        st.loading = false ∧ st.generation = (s.binding b).generation ∧
        (t.binding b).generation = (s.binding b).generation ∧
        (0 < st.generation → st.strategyId = lastRequest b list) ∧
        ∃ rest most, t.now ≤ s.now + rest + most ∧
          (rest = 0 ∨ ∃ id, lastRequest b list = some id ∧ s.Takes t run (.schema id) rest) ∧
          (most = 0 ∨ ∃ id, s.Takes t run (.fragment id) most)) ∧
      (list.any (·.closes b) = true → st = (s.binding b).state ∧ t.now = s.now) := by
  intro s run
  have o : s.Orderly := orderly_steps ..
  have busy : s.Busy := busy_steps _ _ _ _ _
  have coherent : s.Coherent := coherent_steps ..
  have requested : (s.binding b).requested = lastRequest b list := requested_steps ..
  have moves := waitSettled_moves s b
  refine ⟨s.waitSettled b, _, rfl, fun up => ?_, fun down => ?_⟩
  · rw [← isShutdown_steps { ttl } source luck b list] at up
    have attended : (s.waitSettled b).Attended := by
      have both := moves.induction (I := fun t => t.Orderly ∧ t.Attended)
        (fun m h => ⟨h.1.move m, h.2.move h.1 m⟩) ⟨o, attended_steps _ _ _ _ _⟩
      exact both.2
    have answered : ((s.waitSettled b).binding b).IsAnswered := by
      rcases attended b ((moves.control.isShutdown b).trans up) with answered | pending
      · exact answered
      · obtain ⟨launches, runs⟩ := waitSettled_idle o busy b
        rw [Session.pending, launches, List.map_nil, List.nil_append] at pending
        obtain ⟨r, hr, key⟩ := List.mem_map.1 pending
        exact absurd (congrArg Prod.fst key) (runs r hr)
    have generation := moves.control.generation b
    refine ⟨answered.loading, answered.generation.trans generation, generation, fun pos => ?_, ?_⟩
    · have about := (moves.induction (fun m h => h.move m) coherent).bindings b
      rw [about.requested answered.generation (answered.generation ▸ pos), moves.control.requested,
        requested]
    · rw [← requested]
      exact waitSettled_now o busy (booked_steps ..) coherent b
  · rw [← isShutdown_steps { ttl } source luck b list] at down
    exact ⟨moves.state_of_shutdown down, waitSettled_now_of_shutdown down⟩

theorem wait_answers_when_superseded :
    let source : Source :=
      { schema? := fun id => some { delay := 10, result := .ok { id, name := "Grid" } } }
    let list : List Step := [.setStrategy 0 (some "grid"), .tick 4, .setStrategy 0 (some "dca"), .refetch 0]
    let s := (start { ttl := 1000 } source 1).steps list
    list.any (·.closes 0) = false ∧ ∃ t st, s.step (.wait 0) = (t, .state st) ∧
      st.loading = false ∧ st.generation = 3 ∧ st.strategyId = some "dca" := by
  intro source list s
  have up : list.any (·.closes 0) = false := by decide
  have latest : (s.binding 0).generation = 3 := by decide +kernel
  obtain ⟨t, st, e, answers, -⟩ := wait_answers 1000 source 1 _ list 0
  obtain ⟨settled, number, -, about, -⟩ := answers up
  have number : st.generation = 3 := number.trans latest
  refine ⟨up, t, st, e, settled, number, ?_⟩
  exact about (by omega)

end StrategyForm.Session
