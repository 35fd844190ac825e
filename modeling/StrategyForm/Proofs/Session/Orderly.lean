import StrategyForm.Proofs.Session.Turn

/-!
# Order among runs

Every run has a number of its own, given by its binding, and a run that waits belongs to a binding that
exists (`Orderly`). A move starts no run twice, and a command launches at most one run, with a new
number, so all sessions are orderly (`orderly_steps`). Between instants a run may wait that is not the
latest of its binding any more; when time passes there is none (`Move.pass`).
-/

namespace StrategyForm.Session

def Launch.key (l : Launch) : Nat × Nat := (l.binding, l.generation)

def Run.key (r : Run) : Nat × Nat := (r.binding, r.generation)

/-- The runs that have not ended: binding and number. -/
def pending (s : Session) : List (Nat × Nat) := s.launches.map Launch.key ++ s.runs.map Run.key

theorem mem_pending_of_launch {s : Session} {l : Launch} (h : l ∈ s.launches) : l.key ∈ s.pending :=
  List.mem_append_left _ (List.mem_map_of_mem h)

theorem mem_pending_of_run {s : Session} {r : Run} (h : r ∈ s.runs) : r.key ∈ s.pending :=
  List.mem_append_right _ (List.mem_map_of_mem h)

structure Orderly (s : Session) : Prop where
  positive : ∀ k ∈ s.pending, 0 < k.2
  launched : ∀ k ∈ s.pending, k.1 < s.bindings.length → k.2 ≤ (s.binding k.1).generation
  single : ∀ k : Nat × Nat, k.1 < s.bindings.length → s.pending.count k ≤ 1
  inside : ∀ r ∈ s.runs, r.binding < s.bindings.length

variable {s t : Session}

/-- A run that is the latest of its binding has a number, so the binding exists. -/
theorem lt_length_of_current {b g : Nat} (pos : 0 < g) (h : (s.binding b).isCurrent g = true) :
    b < s.bindings.length := by
  rcases Nat.lt_or_ge b s.bindings.length with hb | hb
  · exact hb
  · rw [binding_of_length_le s b hb] at h
    have : 0 = g := by simpa [Binding.isCurrent] using h
    omega

/-- A run that waits is no later than the latest of its binding. -/
theorem Orderly.generation_le (o : s.Orderly) {r : Run} (hr : r ∈ s.runs) :
    r.generation ≤ (s.binding r.binding).generation :=
  o.launched r.key (mem_pending_of_run hr) (o.inside r hr)

/-! ### Moves -/

/-- A move starts no run that was not pending, and none twice. -/
theorem Move.pending (h : Move s t) (k : Nat × Nat) : t.pending.count k ≤ s.pending.count k := by
  cases h with
  | pass | lookUp | forget | call | receive | gather | take => exact Nat.le_refl _
  | clear first | skip first => simp [Session.pending, first, List.count_cons]
  | slip first =>
    simp only [Session.pending, first, List.map_cons, List.count_append, List.count_cons]
    exact Nat.add_le_add_right (Nat.le_add_right ..) _
  | @hit l rest id stage schema first =>
    show (rest.map Launch.key ++ (s.runs ++ [_]).map Run.key).count k ≤ _
    rw [List.map_append]
    show (rest.map Launch.key ++ (s.runs.map Run.key ++ [l.key])).count k ≤ _
    simp only [Session.pending, first, List.map_cons, List.count_append, List.count_cons, List.count_nil]
    omega
  | @miss l rest id first =>
    simp only [Session.pending, wait, call_launches, call_runs]
    rw [List.map_append]
    show (rest.map Launch.key ++ (s.runs.map Run.key ++ [l.key])).count k ≤ _
    simp only [first, List.map_cons, List.count_append, List.count_cons, List.count_nil]
    omega
  | refuse place | finish place =>
    simp only [Session.pending, place, publish_launches, publish_runs, runResolved, List.map_append,
      List.map_cons, List.count_append, List.count_cons]
    omega
  | leave place =>
    simp only [Session.pending, place, List.map_append, List.map_cons, List.count_append, List.count_cons]
    omega
  | @obtain front r back due schema place =>
    show (s.launches.map Launch.key ++ ((front ++ back) ++ [_]).map Run.key).count k ≤ _
    rw [List.map_append]
    show (s.launches.map Launch.key ++ ((front ++ back).map Run.key ++ [r.key])).count k ≤ _
    simp only [Session.pending, place, List.map_append, List.map_cons, List.count_append,
      List.count_cons, List.count_nil]
    omega
  | @arrive front r back g place =>
    show (s.launches.map Launch.key ++ (front ++ _ :: back).map Run.key).count k ≤ _
    rw [List.map_append]
    show (s.launches.map Launch.key ++ (front.map Run.key ++ r.key :: back.map Run.key)).count k ≤ _
    simp [Session.pending, place]

theorem Move.mem_pending (h : Move s t) {k : Nat × Nat} (hk : k ∈ t.pending) : k ∈ s.pending :=
  List.count_pos_iff.1 (Nat.lt_of_lt_of_le (List.count_pos_iff.2 hk) (h.pending k))

/-- A run that waits after a move waited before it, or it is the latest of its binding. -/
theorem Move.waiting (h : Move s t) : ∀ r ∈ t.runs,
    r ∈ s.runs ∨ (s.binding r.binding).isCurrent r.generation = true := by
  intro r hr
  cases h with
  | pass | lookUp | forget | call | receive | gather | take | skip | slip => exact .inl hr
  | leave place => exact .inl (mem_of_mem_others place hr)
  | clear => exact .inl (by simpa using hr)
  | hit _ _ current =>
    rcases mem_wait hr with hr | rfl
    · exact .inl hr
    · exact .inr current
  | miss _ _ current =>
    rcases mem_wait hr with hr | rfl
    · exact .inl (by simpa using hr)
    · exact .inr current
  | refuse place | finish place =>
    simp only [runResolved, publish_runs] at hr
    exact .inl (mem_of_mem_others place hr)
  | obtain place current =>
    rcases mem_wait hr with hr | rfl
    · exact .inl (mem_of_mem_others place hr)
    · exact .inr current
  | arrive place current =>
    rcases mem_or_eq_of_place place hr with hr | rfl
    · exact .inl hr
    · exact .inr current

theorem Orderly.move (o : s.Orderly) (h : Move s t) : t.Orderly := by
  have c := h.control
  refine ⟨fun k hk => o.positive k (h.mem_pending hk), fun k hk hb => ?_, fun k hb => ?_, fun r hr => ?_⟩
  · rw [c.generation]
    exact o.launched k (h.mem_pending hk) (by rwa [c.length] at hb)
  · exact Nat.le_trans (h.pending k) (o.single k (by rwa [c.length] at hb))
  · rw [c.length]
    rcases h.waiting r hr with hr | current
    · exact o.inside r hr
    · exact lt_length_of_current (o.positive _ (h.mem_pending (mem_pending_of_run hr))) current

/-! ### Commands -/

theorem startRun_pending (s : Session) (b : Nat) (requested : Option String) (k : Nat × Nat) :
    (s.startRun b requested).pending.count k =
      s.pending.count k + if (b, (s.binding b).generation + 1) = k then 1 else 0 := by
  have eq : (s.startRun b requested).pending =
      (s.launches.map Launch.key ++ [(b, (s.binding b).generation + 1)]) ++ s.runs.map Run.key := by
    simp only [pending, startRun, setBinding, List.map_append]
    rfl
  rw [eq]
  simp only [pending, List.count_append, List.count_cons, List.count_nil, beq_iff_eq]
  omega

theorem startRun_binding (s : Session) (b : Nat) (requested : Option String) (b' : Nat) :
    (s.startRun b requested).binding b' =
      if b = b' ∧ b < s.bindings.length then
        { s.binding b with generation := (s.binding b).generation + 1, requested }
      else s.binding b' :=
  binding_setBinding s b _ b'

theorem close_binding (s : Session) (b : Nat) (isDropped : Bool) (b' : Nat) :
    (s.close b isDropped).binding b' =
      if b = b' ∧ b < s.bindings.length then { s.binding b with isShutdown := true, isDropped }
      else s.binding b' :=
  binding_setBinding s b _ b'

theorem startRun_length (s : Session) (b : Nat) (requested : Option String) :
    (s.startRun b requested).bindings.length = s.bindings.length := by
  simp [startRun, setBinding]

theorem close_length (s : Session) (b : Nat) (isDropped : Bool) :
    (s.close b isDropped).bindings.length = s.bindings.length := by
  simp [close, setBinding]

theorem startRun_state (s : Session) (b : Nat) (requested : Option String) (b' : Nat) :
    ((s.startRun b requested).binding b').state = (s.binding b').state := by
  rw [startRun_binding]
  split
  · rename_i e; rw [e.1]
  · rfl

theorem close_state (s : Session) (b : Nat) (isDropped : Bool) (b' : Nat) :
    ((s.close b isDropped).binding b').state = (s.binding b').state := by
  rw [close_binding]
  split
  · rename_i e; rw [e.1]
  · rfl

theorem Orderly.startRun (b : Nat) (requested : Option String) (o : s.Orderly) :
    (s.startRun b requested).Orderly := by
  have mem {k : Nat × Nat} (hk : k ∈ (s.startRun b requested).pending) :
      k ∈ s.pending ∨ k = (b, (s.binding b).generation + 1) := by
    have := startRun_pending s b requested k
    have pos := List.count_pos_iff.2 hk
    split at this
    · rename_i e; exact .inr e.symm
    · exact .inl (List.count_pos_iff.1 (by omega))
  refine ⟨fun k hk => ?_, fun k hk hb => ?_, fun k hb => ?_, fun r hr => ?_⟩
  · rcases mem hk with hk | rfl
    · exact o.positive k hk
    · exact Nat.succ_pos _
  · rw [startRun_length] at hb
    rw [startRun_binding]
    rcases mem hk with hk | rfl
    · have := o.launched k hk hb
      split
      · rename_i e; rw [← e.1] at this; exact Nat.le_succ_of_le this
      · exact this
    · exact Nat.le_of_eq (by rw [if_pos ⟨rfl, hb⟩])
  · rw [startRun_length] at hb
    have count := startRun_pending s b requested k
    have single := o.single k hb
    split at count
    · rename_i e
      subst e
      -- the number is new, so no run has it yet
      have none : (b, (s.binding b).generation + 1) ∉ s.pending := fun hk =>
        Nat.not_succ_le_self _ (o.launched _ hk hb)
      rw [List.count_eq_zero_of_not_mem none] at count
      omega
    · omega
  · rw [startRun_length]
    exact o.inside r hr

theorem Orderly.close (b : Nat) (isDropped : Bool) (o : s.Orderly) : (s.close b isDropped).Orderly := by
  refine ⟨o.positive, fun k hk hb => ?_, fun k hb => ?_, fun r hr => ?_⟩
  · rw [close_length] at hb
    have := o.launched k hk hb
    rw [close_binding]
    split
    · rename_i e; rw [← e.1] at this; exact this
    · exact this
  · exact o.single k (by rwa [close_length] at hb)
  · rw [close_length]
    exact o.inside r hr

theorem Orderly.step (x : Step) (o : s.Orderly) : (s.step x).1.Orderly :=
  step_induction x (fun m o => o.move m) (fun _ o => ⟨o.1, o.2, o.3, o.4⟩)
    (fun _ o => ⟨o.1, o.2, o.3, o.4⟩) (fun b r o => o.startRun b r) (fun b d o => o.close b d) o

theorem Orderly.start (cache : Cache) (source : Source) (n : Nat) (luck : Luck) :
    (start cache source n luck).Orderly := by
  refine ⟨?_, ?_, ?_, ?_⟩ <;> simp [pending, Session.start]

/-- Every session is orderly. -/
theorem orderly_steps (cache : Cache) (source : Source) (n : Nat) (luck : Luck) (list : List Step) :
    ((start cache source n luck).steps list).Orderly :=
  steps_induction (fun x o => o.step x) (.start cache source n luck) list

/-- What moves of orderly sessions preserve, and each command, is preserved by every step. -/
theorem Orderly.step_induction {I : Session → Prop} (x : Step)
    (move : ∀ {s t}, s.Orderly → Move s t → I s → I t)
    (setSource : ∀ {s} source, I s → I { s with source })
    (operate : ∀ {s} operation, I s → I (s.operate operation))
    (startRun : ∀ {s} b requested, s.Orderly → I s → I (s.startRun b requested))
    (close : ∀ {s} b isDropped, I s → I (s.close b isDropped)) (o : s.Orderly) (h : I s) :
    I (s.step x).1 := by
  have both : (s.step x).1.Orderly ∧ I (s.step x).1 :=
    Session.step_induction (I := fun s => s.Orderly ∧ I s) x
      (fun m h => ⟨h.1.move m, move h.1 m h.2⟩)
      (fun source h => ⟨⟨h.1.1, h.1.2, h.1.3, h.1.4⟩, setSource source h.2⟩)
      (fun op h => ⟨⟨h.1.1, h.1.2, h.1.3, h.1.4⟩, operate op h.2⟩)
      (fun b r h => ⟨h.1.startRun b r, startRun b r h.1 h.2⟩)
      (fun b d h => ⟨h.1.close b d, close b d h.2⟩) ⟨o, h⟩
  exact both.2

/-- The same for every session. -/
theorem orderly_induction {I : Session → Prop} {cache : Cache} {source : Source} {n : Nat} {luck : Luck}
    (step : ∀ {s} x, s.Orderly → I s → I (s.step x).1) (h : I (start cache source n luck))
    (list : List Step) : I ((start cache source n luck).steps list) := by
  have both : ((start cache source n luck).steps list).Orderly ∧
      I ((start cache source n luck).steps list) :=
    steps_induction (I := fun s => s.Orderly ∧ I s) (fun x h => ⟨h.1.step x, step x h.1 h.2⟩)
      ⟨.start cache source n luck, h⟩ list
  exact both.2

/-! ### Bindings over time -/

/-- The numbers of runs only grow, and what is shut down stays so. -/
structure Lasts (s t : Session) : Prop where
  length : t.bindings.length = s.bindings.length
  generation_le : ∀ b, (s.binding b).generation ≤ (t.binding b).generation
  isShutdown : ∀ b, (s.binding b).isShutdown = true → (t.binding b).isShutdown = true

namespace Lasts

theorem refl (s : Session) : Lasts s s := ⟨rfl, fun _ => Nat.le_refl _, fun _ h => h⟩

theorem trans {u : Session} (h₁ : Lasts s t) (h₂ : Lasts t u) : Lasts s u :=
  ⟨h₂.length.trans h₁.length, fun b => Nat.le_trans (h₁.generation_le b) (h₂.generation_le b),
    fun b h => h₂.isShutdown b (h₁.isShutdown b h)⟩

end Lasts

theorem SameControl.lasts (c : SameControl s t) : Lasts s t :=
  ⟨c.length, fun b => Nat.le_of_eq (c.generation b).symm, fun b h => (c.isShutdown b).trans h⟩

theorem startRun_lasts (s : Session) (b : Nat) (requested : Option String) :
    Lasts s (s.startRun b requested) := by
  refine ⟨startRun_length .., fun b' => ?_, fun b' h => ?_⟩ <;> rw [startRun_binding] <;> split
  · rename_i e; rw [e.1]; exact Nat.le_succ _
  · exact Nat.le_refl _
  · rename_i e; rw [e.1]; exact h
  · exact h

theorem close_lasts (s : Session) (b : Nat) (isDropped : Bool) : Lasts s (s.close b isDropped) := by
  refine ⟨close_length .., fun b' => ?_, fun b' h => ?_⟩ <;> rw [close_binding] <;> split
  · rename_i e; exact Nat.le_of_eq (by rw [e.1])
  · exact Nat.le_refl _
  · rfl
  · exact h

theorem lasts_step (s : Session) (x : Step) : Lasts s (s.step x).1 :=
  step_induction (I := Lasts s) x (fun m h => h.trans m.control.lasts)
    (fun _ h => h.trans (SameControl.lasts (.of_bindings (by rfl))))
    (fun _ h => h.trans (SameControl.lasts (.of_bindings (by rfl))))
    (fun b r h => h.trans (startRun_lasts _ b r)) (fun b d h => h.trans (close_lasts _ b d)) (.refl s)

theorem step_length (s : Session) (x : Step) : (s.step x).1.bindings.length = s.bindings.length :=
  (lasts_step s x).length

theorem steps_length (s : Session) (list : List Step) :
    (s.steps list).bindings.length = s.bindings.length :=
  steps_induction (I := fun t => t.bindings.length = s.bindings.length)
    (fun x h => (step_length _ x).trans h) rfl list

theorem lt_steps_length (cache : Cache) (source : Source) {n : Nat} (luck : Luck) (b : Fin n)
    (list : List Step) : b < ((start cache source n luck).steps list).bindings.length := by
  rw [steps_length]
  simp [start]

/-- The latest run of a binding is numbered by the steps that launched one. -/
theorem step_generation (x : Step) {b : Nat} (hb : b < s.bindings.length) :
    ((s.step x).1.binding b).generation =
      (s.binding b).generation + if x.starts b s then 1 else 0 := by
  have started (t : Session) (same : SameControl s t) (b' : Nat) (requested : Option String) :
      ((t.startRun b' requested).binding b).generation =
        (s.binding b).generation + if b' = b then 1 else 0 := by
    rw [startRun_binding]
    split
    · rename_i e
      rw [if_pos e.1, e.1, ← same.generation]
    · rename_i e
      rw [if_neg fun eq => e ⟨eq, by rwa [eq, same.length]⟩]
      exact same.generation b
  have closed (b' : Nat) (d : Bool) :
      ((s.close b' d).binding b).generation = (s.binding b).generation := by
    rw [close_binding]
    split
    · rename_i e; rw [e.1]
    · rfl
  cases x with
  | tick | fetchFragments | buildSections | fetchSchema | resolve | refresh | invalidateCache | wait =>
    exact (step_moves (by trivial) s).control.generation b
  | setSource | cache => rfl
  | setStrategy b' requested =>
    show ((s.setStrategy b' requested).1.binding b).generation = _
    cases changed : (s.setStrategy b' requested).2 with
    | true =>
      rw [setStrategy_of_changed changed, started s (.of_bindings rfl)]
      simp [Step.starts, changed]
    | false =>
      rw [(setStrategy_of_unchanged changed).1]
      simp [Step.starts, changed]
  | refetch b' =>
    show (((s.invalidateCache b').startRun b' (s.binding b').requested).binding b).generation = _
    rw [started _ (invalidateCache_moves s b').control]
    simp [Step.starts]
  | shutdown b' => exact closed b' _
  | drop b' => exact closed b' true

end StrategyForm.Session
