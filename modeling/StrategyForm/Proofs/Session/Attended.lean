import Mathlib.Data.List.Induction
import StrategyForm.Proofs.Session.Orderly

/-!
# Latest runs that are pending or have answered

Of a binding that is not shut down the latest run is pending, or the binding shows what became of it
(`attended_steps`). The invariant is kept with a list of the runs that still owe an answer (`Owes`): a
move that takes a run off the list publishes for it, or finds that it is not the latest any more.

What the latest run was asked for and whether the binding is shut down can be read off the steps.
-/

namespace StrategyForm.Session

/-- The binding shows what became of its latest run. -/
structure Binding.IsAnswered (b : Binding) : Prop where
  generation : b.state.generation = b.generation
  loading : b.state.loading = false

/-- Each binding that is not shut down shows what became of its latest run, unless that is one of
these. -/
def Owes (s : Session) (keys : List (Nat × Nat)) : Prop :=
  ∀ b, (s.binding b).isShutdown = false →
    (s.binding b).IsAnswered ∨ (b, (s.binding b).generation) ∈ keys

def Attended (s : Session) : Prop := s.Owes s.pending

variable {s t : Session} {keys : List (Nat × Nat)} {b g : Nat}

namespace Owes

theorem mono {more : List (Nat × Nat)} (h : s.Owes keys) (sub : ∀ k ∈ keys, k ∈ more) :
    s.Owes more :=
  fun b up => (h b up).imp_right (sub _)

theorem congr (h : s.Owes keys) (same : t.bindings = s.bindings) : t.Owes keys := by
  intro b
  rw [binding_congr same]
  exact h b

/-- A run settles what its binding shows, or is not the latest any more. -/
theorem settle (h : s.Owes ((b, g) :: keys)) (pos : 0 < g) (update : State → State)
    (settles : ∀ st, (update st).loading = false) : (s.publish b g update).Owes keys := by
  intro b' up
  rw [publish_isShutdown] at up
  rw [publish_binding]
  split
  · rename_i e
    obtain ⟨rfl, -, current⟩ := e
    exact .inl ⟨(Binding.isCurrent_iff.1 current).2.symm, settles _⟩
  · rename_i other
    rcases h b' up with answered | mem
    · exact .inl answered
    rcases List.mem_cons.1 mem with e | mem
    · -- it is the latest run, so it would have published
      obtain ⟨rfl, latest⟩ := Prod.mk.inj e
      have current : (s.binding b').isCurrent g = true := Binding.isCurrent_iff.2 ⟨up, latest⟩
      exact absurd ⟨rfl, lt_length_of_current pos current, current⟩ other
    · exact .inr mem

/-- A run that goes on may publish. -/
theorem publish (h : s.Owes keys) (mem : (b, g) ∈ keys) (update : State → State) :
    (s.publish b g update).Owes keys := by
  intro b' up
  rw [publish_isShutdown] at up
  rw [publish_generation, publish_binding]
  split
  · rename_i e
    obtain ⟨rfl, -, current⟩ := e
    obtain rfl := (Binding.isCurrent_iff.1 current).2
    exact .inr mem
  · exact h b' up

/-- A run that is not the latest owes nothing. -/
theorem overtaken (h : s.Owes ((b, g) :: keys)) (old : (s.binding b).isCurrent g = false) :
    s.Owes keys := by
  intro b' up
  rcases h b' up with answered | mem
  · exact .inl answered
  rcases List.mem_cons.1 mem with e | mem
  · cases e
    rw [Binding.isCurrent_iff.2 ⟨up, rfl⟩] at old
    cases old
  · exact .inr mem

end Owes

/-! ### Moves and commands -/

theorem Attended.move (h : s.Attended) (o : s.Orderly) (m : Move s t) : t.Attended := by
  have started {l : Launch} {rest : List Launch} (first : s.launches = l :: rest) :
      s.Owes (l.key :: pending { s with launches := rest }) := by
    have same : s.pending = l.key :: pending { s with launches := rest } := by
      simp only [pending, first, List.map_cons, List.cons_append]
    rw [← same]
    exact h
  have ended {front back : List Run} {r : Run} (place : s.runs = front ++ r :: back) :
      s.Owes (r.key :: pending { s with runs := front ++ back }) := by
    refine h.mono fun k hk => ?_
    simp only [pending, place, List.map_append, List.map_cons, List.mem_append, List.mem_cons] at hk ⊢
    grind
  have positive {r : Run} {front back : List Run} (place : s.runs = front ++ r :: back) :
      0 < r.generation :=
    o.positive _ (mem_pending_of_run (mem_of_place place))
  cases m with
  | pass | lookUp | forget | call | receive | gather | take => exact h
  | @clear l rest first =>
    have pos : 0 < l.generation := o.positive _ (mem_pending_of_launch (by simp [first]))
    have taken : Owes { s with launches := rest } _ := (started first).congr rfl
    have settled := taken.settle pos (·.toCleared) fun _ => rfl
    simpa only [Attended, pending, publish_launches, publish_runs] using settled
  | skip first _ overtaken | slip first _ overtaken => exact ((started first).overtaken overtaken).congr rfl
  | leave place cancelled => exact ((ended place).overtaken cancelled).congr rfl
  | @hit l rest id stage schema first =>
    refine Owes.mono ((started first).congr rfl) fun k hk => ?_
    show k ∈ rest.map Launch.key ++ (s.runs ++ [_]).map Run.key
    rw [List.map_append]
    show k ∈ rest.map Launch.key ++ (s.runs.map Run.key ++ [l.key])
    simp only [pending, List.mem_cons, List.mem_append] at hk ⊢
    grind
  | @miss l rest id first =>
    have looked : Owes ({ s with launches := rest }.look l.agent id) _ := (started first).congr rfl
    have loading := looked.publish List.mem_cons_self (·.toLoading id)
    refine Owes.mono (loading.congr rfl) fun k hk => ?_
    simp only [pending, wait, call_launches, call_runs]
    rw [List.map_append]
    show k ∈ rest.map Launch.key ++ (s.runs.map Run.key ++ [l.key])
    simp only [pending, List.mem_cons, List.mem_append] at hk ⊢
    grind
  | @refuse front r back due e place =>
    have taken : Owes { s with runs := front ++ back } _ := (ended place).congr rfl
    have settled := taken.settle (positive place) (·.toFailed r.strategy e) fun _ => rfl
    simpa only [Attended, pending, publish_launches, publish_runs] using settled
  | @finish front r back g place =>
    have taken : Owes { s with runs := front ++ back } _ := (ended place).congr rfl
    have settled := taken.settle (positive place)
      (·.toResolved r.strategy g.schema g.sections) fun _ => rfl
    simpa only [Attended, pending, runResolved, publish_launches, publish_runs] using settled
  | @obtain front r back due schema place =>
    refine Owes.mono ((ended place).congr rfl) fun k hk => ?_
    show k ∈ s.launches.map Launch.key ++ ((front ++ back) ++ [_]).map Run.key
    rw [List.map_append]
    show k ∈ s.launches.map Launch.key ++ ((front ++ back).map Run.key ++ [r.key])
    simp only [pending, List.mem_cons, List.mem_append] at hk ⊢
    grind
  | @arrive front r back g place =>
    refine Owes.mono (Owes.congr h rfl) fun k hk => ?_
    show k ∈ s.launches.map Launch.key ++ (front ++ _ :: back).map Run.key
    rw [List.map_append]
    show k ∈ s.launches.map Launch.key ++ (front.map Run.key ++ r.key :: back.map Run.key)
    simpa only [pending, place, List.map_append, List.map_cons] using hk

theorem Attended.startRun (h : s.Attended) (b : Nat) (requested : Option String) :
    (s.startRun b requested).Attended := by
  intro b'
  rw [startRun_binding]
  split
  · rename_i e
    obtain ⟨rfl, -⟩ := e
    intro _
    refine .inr (mem_pending_of_launch (l := ⟨b, _, requested⟩) ?_)
    exact List.mem_append_right _ List.mem_cons_self
  · intro up
    refine (h b' up).imp_right fun mem => ?_
    rcases List.mem_append.1 mem with mem | mem
    · obtain ⟨l, hl, key⟩ := List.mem_map.1 mem
      exact key ▸ mem_pending_of_launch (List.mem_append_left _ hl)
    · exact List.mem_append_right _ mem

theorem Attended.close (h : s.Attended) (b : Nat) (isDropped : Bool) :
    (s.close b isDropped).Attended := by
  intro b'
  rw [close_binding]
  split
  · intro up
    cases up
  · exact h b'

theorem attended_steps (cache : Cache) (source : Source) (n : Nat) (luck : Luck) (list : List Step) :
    ((start cache source n luck).steps list).Attended := by
  refine orderly_induction (fun x o h => ?_) (fun b _ => ?_) list
  · exact o.step_induction x (fun o m h => h.move o m) (fun _ h => h) (fun _ h => h)
      (fun b requested _ h => h.startRun b requested) (fun b d h => h.close b d) h
  · have fresh : (Session.start cache source n luck).binding b = {} := by
      simp only [binding, Session.start, List.getD_eq_getElem?_getD, List.getElem?_replicate]
      split <;> rfl
    rw [fresh]
    exact .inl ⟨rfl, rfl⟩

/-! ### Requests -/

/-- What the step asks of the binding. -/
def Step.request? (b : Nat) : Step → Option (Option String)
  | .setStrategy b' requested => if b' = b then some requested else none
  | _ => none

/-- The strategy that the binding was asked for last, if it was for any. -/
def lastRequest (b : Nat) (list : List Step) : Option String :=
  (list.filterMap (·.request? b)).getLast?.join

theorem lastRequest_append (b : Nat) (list : List Step) (x : Step) :
    lastRequest b (list ++ [x]) = (x.request? b).getD (lastRequest b list) := by
  rw [lastRequest, List.filterMap_append]
  cases e : x.request? b with
  | none => simp [e, lastRequest]
  | some requested => simp [e]

theorem close_requested (s : Session) (b : Nat) (isDropped : Bool) (b' : Nat) :
    ((s.close b isDropped).binding b').requested = (s.binding b').requested := by
  rw [close_binding]
  split
  · rename_i e
    rw [e.1]
  · rfl

theorem step_requested (x : Step) (hb : b < s.bindings.length) :
    ((s.step x).1.binding b).requested = (x.request? b).getD (s.binding b).requested := by
  cases x with
  | tick | fetchFragments | buildSections | fetchSchema | resolve | refresh | invalidateCache | wait =>
    exact (step_moves (by trivial) s).control.requested b
  | setSource | cache => rfl
  | shutdown | drop => exact close_requested ..
  | setStrategy b' requested =>
    show ((s.setStrategy b' requested).1.binding b).requested = _
    cases changed : (s.setStrategy b' requested).2 with
    | true =>
      rw [setStrategy_of_changed changed, startRun_binding]
      by_cases e : b' = b
      · subst e
        simp [Step.request?, hb]
      · simp [Step.request?, e]
    | false =>
      obtain ⟨same, -, already⟩ := setStrategy_of_unchanged changed
      rw [same]
      by_cases e : b' = b
      · subst e
        simp [Step.request?, already]
      · simp [Step.request?, e]
  | refetch b' =>
    have same := (invalidateCache_moves s b').control
    show (((s.invalidateCache b').startRun b' (s.binding b').requested).binding b).requested = _
    rw [startRun_binding]
    split
    · rename_i e
      rw [e.1]
      rfl
    · exact same.requested b

theorem requested_steps (cache : Cache) (source : Source) {n : Nat} (luck : Luck) (b : Fin n)
    (list : List Step) :
    (((start cache source n luck).steps list).binding b).requested = lastRequest b list := by
  induction list using List.reverseRecOn with
  | nil => simp [steps, lastRequest, start, binding]
  | append_singleton list x ih =>
    rw [steps_append, lastRequest_append, ← ih]
    exact step_requested x (lt_steps_length cache source luck b list)

/-- The step shuts the binding down, or it was before. -/
theorem step_isShutdown (x : Step) (hb : b < s.bindings.length) :
    ((s.step x).1.binding b).isShutdown = ((s.binding b).isShutdown || x.closes b) := by
  have started (t : Session) (same : SameControl s t) (b' : Nat) (requested : Option String) :
      ((t.startRun b' requested).binding b).isShutdown = (s.binding b).isShutdown := by
    rw [startRun_binding]
    split
    · rename_i e
      rw [e.1]
      exact same.isShutdown b
    · exact same.isShutdown b
  have closed (b' : Nat) (d : Bool) : ((s.close b' d).binding b).isShutdown =
      ((s.binding b).isShutdown || decide (b' = b)) := by
    rw [close_binding]
    by_cases e : b' = b
    · simp [e, hb]
    · simp [e]
  cases x with
  | tick | fetchFragments | buildSections | fetchSchema | resolve | refresh | invalidateCache | wait =>
    exact ((step_moves (by trivial) s).control.isShutdown b).trans (Bool.or_false _).symm
  | setSource | cache => exact (Bool.or_false _).symm
  | shutdown | drop => exact closed _ _
  | setStrategy b' requested =>
    show ((s.setStrategy b' requested).1.binding b).isShutdown = (_ || false)
    rw [Bool.or_false]
    cases changed : (s.setStrategy b' requested).2 with
    | true =>
      rw [setStrategy_of_changed changed]
      exact started s (.of_bindings rfl) b' requested
    | false => rw [(setStrategy_of_unchanged changed).1]
  | refetch b' =>
    refine .trans ?_ (Bool.or_false _).symm
    exact started _ (invalidateCache_moves s b').control b' _

theorem isShutdown_steps (cache : Cache) (source : Source) {n : Nat} (luck : Luck) (b : Fin n)
    (list : List Step) :
    (((start cache source n luck).steps list).binding b).isShutdown = list.any (·.closes b) := by
  induction list using List.reverseRecOn with
  | nil => simp [steps, start, binding]
  | append_singleton list x ih =>
    rw [steps_append, List.any_append, ← ih, List.any_cons, List.any_nil, Bool.or_false]
    exact step_isShutdown x (lt_steps_length cache source luck b list)

end StrategyForm.Session
