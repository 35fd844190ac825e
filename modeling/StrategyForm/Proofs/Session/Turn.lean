import StrategyForm.Proofs.Session.Clock

/-!
# What a step can do

A step is a sequence of moves (`step_moves`), or it commands: it gives another source, does
something with the cache, launches a run, or closes a binding. `step_induction` turns this into a
rule: an invariant is shown for one move and for the four commands.
-/

namespace StrategyForm.Session

variable {s t : Session}

/-! ### Steps that are moves -/

theorem tick_moves (s : Session) (ms : Nat) : Moves s (s.tick ms) :=
  (passUntil_moves ..).trans (instant_moves _)

theorem passRun_moves (s : Session) (b : Nat) : Moves s (s.passRun b) := by
  unfold passRun
  split
  · exact (passUntil_moves ..).trans (instant_moves _)
  · exact .refl

theorem waitSettled_moves (s : Session) (b : Nat) : Moves s (s.waitSettled b) :=
  (instant_moves s).trans ((passRun_moves ..).trans (passRun_moves ..))

theorem invalidateCache_moves (s : Session) (b : Nat) : Moves s (s.invalidateCache b) := by
  unfold invalidateCache
  split
  · exact .single (.forget _)
  · exact .refl

theorem gatherAll_moves (stops : Nat) (s : Session) (g : Gathering) (h : g.IsFrom s.source) :
    Moves s (gatherAll stops s g).1 := by
  induction stops generalizing s g with
  | zero => exact .refl
  | succ stops ih =>
    simp only [gatherAll]
    split
    · exact .refl
    · rename_i due _
      have pass := passUntil_moves s due
      have h : g.IsFrom (s.passUntil due).source := by rwa [pass.source]
      have take : Move (s.passUntil due) _ := .take h
      exact (pass.tail take).trans (ih _ _ (by rw [take.source]; exact Supply.arrive_isFrom h))

theorem fetchFragments_moves (s : Session) (schema : Schema) :
    Moves s (s.fetchFragments schema).1 := by
  have begin_ : Move s _ := .gather schema
  exact .head begin_ (gatherAll_moves _ _ _ (by rw [begin_.source]; exact Supply.gather_isFrom schema))

theorem fetchSchema_moves (s : Session) (id : String) : Moves s (s.fetchSchema id).1 := by
  have call : Moves s (s.fetch (·.askSchema .foreground id)).1 := .single (.call id)
  simp only [fetchSchema]
  split
  · exact call.tail (.receive rfl)
  · have pass := passUntil_moves (s.fetch (·.askSchema .foreground id)).1
      ((s.fetch (·.askSchema .foreground id)).1.now + (s.source.schema id).delay)
    refine (call.trans pass).tail (.receive ?_)
    rw [Moves.source (call.trans pass)]
    rfl

theorem resolve_of_found {id : String} {schema : Schema}
    (found : s.cache.schema? s.now id = some schema) :
    s.resolve id =
      let x := (s.look .foreground id).fetchFragments schema
      (x.1, .ok ⟨schema, x.2.sections, true⟩) := by
  simp only [resolve, fetch_lookUpSchema found]
  rfl

theorem resolve_of_missing {id : String} (missing : s.cache.schema? s.now id = none) :
    s.resolve id =
      match (s.look .foreground id).fetchSchema id with
      | (t, .ok schema) =>
        let x := t.fetchFragments schema
        (x.1, .ok ⟨schema, x.2.sections, false⟩)
      | (t, .error e) => (t, .error e) := by
  simp only [resolve, fetch_lookUpSchema missing]
  generalize fetchSchema _ id = x
  obtain ⟨t, result⟩ := x
  cases result <;> rfl

theorem resolve_moves (s : Session) (id : String) : Moves s (s.resolve id).1 := by
  have look : Move s (s.look .foreground id) := .lookUp id
  cases found : s.cache.schema? s.now id with
  | some schema =>
    rw [resolve_of_found found]
    exact .head look (fetchFragments_moves ..)
  | none =>
    rw [resolve_of_missing found]
    have ask := fetchSchema_moves (s.look .foreground id) id
    split <;> rename_i h <;> rw [h] at ask
    · exact .head look (ask.trans (fetchFragments_moves ..))
    · exact .head look ask

/-! ### Gathering in the foreground -/

/-- What holds when gathering has begun and is kept by each stop holds at the end, and nothing is on
its way then. -/
theorem gatherAll_induction {P : Session → Gathering → Prop}
    (stop : ∀ s g due, g.next? = some due → P s g → P ((s.passUntil due).fetch (·.arrive .foreground g)).1
      ((s.passUntil due).toSupply.arrive .foreground g).2)
    (stops : Nat) (s : Session) (g : Gathering) (enough : g.arrivals.length ≤ stops) (h : P s g) :
    P (gatherAll stops s g).1 (gatherAll stops s g).2 ∧ (gatherAll stops s g).2.arrivals = [] := by
  induction stops generalizing s g with
  | zero => exact ⟨h, List.eq_nil_of_length_eq_zero (Nat.le_zero.1 enough)⟩
  | succ stops ih =>
    simp only [gatherAll]
    cases next : g.next? with
    | none =>
      rw [Gathering.next?, List.min?_eq_none_iff, List.map_eq_nil_iff] at next
      exact ⟨h, next⟩
    | some due =>
      refine ih _ _ ?_ (stop s g due next h)
      obtain ⟨x, hx, rfl⟩ := List.mem_map.1 (List.min?_eq_some_iff.1 next).1
      have now := le_passUntil_now s x.due
      have : (g.arrivals.filter ((s.passUntil x.due).now < ·.due)).length < g.arrivals.length :=
        List.length_filter_lt_length_iff_exists.2 ⟨x, hx, by simpa using now⟩
      rw [fetch_snd, Supply.arrive_arrivals]
      omega

theorem fetchFragments_induction (s : Session) (schema : Schema) {P : Session → Gathering → Prop}
    (stop : ∀ s g due, P s g → P ((s.passUntil due).fetch (·.arrive .foreground g)).1
      ((s.passUntil due).toSupply.arrive .foreground g).2)
    (begun : P (s.fetch (·.gather .foreground schema)).1 (s.toSupply.gather .foreground schema).2) :
    P (s.fetchFragments schema).1 (s.fetchFragments schema).2 ∧
      (s.fetchFragments schema).2.arrivals = [] :=
  gatherAll_induction (fun s g due _ => stop s g due) _ _ _ (Nat.le_refl _) begun

theorem le_of_next?_arrivals {g : Gathering} {due : Nat} (next : g.next? = some due) :
    (∃ x ∈ g.arrivals, x.due = due) ∧ ∀ x ∈ g.arrivals, due ≤ x.due := by
  obtain ⟨mem, least⟩ := List.min?_eq_some_iff.1 next
  exact ⟨List.mem_map.1 mem, fun x hx => least _ (List.mem_map_of_mem hx)⟩

/-- When no run is under way, only the foreground changes anything, and the clock stops exactly at what is
due next. -/
theorem Quiet.fetchFragments_induction (q : s.Quiet) (schema : Schema) {P : Supply → Gathering → Prop}
    (begun : P (s.toSupply.gather .foreground schema).1 (s.toSupply.gather .foreground schema).2)
    (stop : ∀ (u : Supply) (g : Gathering) (due : Nat), g.next? = some due → u.now < due → P u g →
      P ({ u with now := due }.arrive .foreground g).1 ({ u with now := due }.arrive .foreground g).2) :
    P (s.fetchFragments schema).1.toSupply (s.fetchFragments schema).2 ∧
      (s.fetchFragments schema).2.arrivals = [] := by
  let I (t : Session) (g : Gathering) : Prop :=
    t.Quiet ∧ (∀ x ∈ g.arrivals, t.now < x.due) ∧ P t.toSupply g
  have first : I (s.fetch (·.gather .foreground schema)).1 (s.toSupply.gather .foreground schema).2 := by
    refine ⟨⟨q.launches, q.runs⟩, fun x hx => ?_, begun⟩
    show (s.toSupply.gather .foreground schema).1.now < x.due
    rw [Supply.gather_now]
    exact Supply.gather_due schema x hx
  have next (t : Session) (g : Gathering) (due : Nat) (next : g.next? = some due) (h : I t g) :
      I ((t.passUntil due).fetch (·.arrive .foreground g)).1
        ((t.passUntil due).toSupply.arrive .foreground g).2 := by
    obtain ⟨q, later, holds⟩ := h
    obtain ⟨⟨y, hy, e⟩, -⟩ := le_of_next?_arrivals next
    have waits : t.now < due := e ▸ later y hy
    rw [q.passUntil, Nat.max_eq_left (Nat.le_of_lt waits)]
    refine ⟨⟨q.launches, q.runs⟩, fun x hx => ?_, stop t.toSupply g due next waits holds⟩
    show (Supply.arrive { t.toSupply with now := due } .foreground g).1.now < x.due
    rw [Supply.arrive_now]
    rw [Supply.arrive_arrivals] at hx
    exact of_decide_eq_true (List.mem_filter.1 hx).2
  obtain ⟨⟨-, -, holds⟩, complete⟩ := gatherAll_induction next _ _ _ (Nat.le_refl _) first
  exact ⟨holds, complete⟩

/-! ### All steps -/

/-- The step commands nothing: it lets time go by or uses the source. -/
def Step.IsWork : Step → Prop
  | .tick _ | .fetchFragments _ | .buildSections _ | .fetchSchema _ | .resolve _ | .refresh _
  | .invalidateCache _ | .wait _ => True
  | .setSource .. | .cache _ | .setStrategy .. | .refetch _ | .shutdown _ | .drop _ => False

theorem step_moves {x : Step} (h : x.IsWork) (s : Session) : Moves s (s.step x).1 := by
  cases x with
  | tick ms => exact tick_moves s ms
  | fetchFragments schema => exact fetchFragments_moves s schema
  | buildSections schema => exact fetchFragments_moves s schema
  | fetchSchema id => exact fetchSchema_moves s id
  | resolve id => exact resolve_moves s id
  | refresh id => exact .head (.forget id) (resolve_moves _ id)
  | invalidateCache b => exact invalidateCache_moves s b
  | wait b => exact waitSettled_moves s b
  | setSource | cache | setStrategy | refetch | shutdown | drop => exact h.elim

theorem setStrategy_of_changed {b : Nat} {requested : Option String}
    (h : (s.setStrategy b requested).2 = true) : (s.setStrategy b requested).1 = s.startRun b requested := by
  unfold setStrategy at h ⊢
  dsimp only at h ⊢
  split at h
  · cases h
  · rename_i other
    rw [if_neg other]

theorem setStrategy_of_unchanged {b : Nat} {requested : Option String}
    (h : (s.setStrategy b requested).2 = false) : (s.setStrategy b requested).1 = s ∧
      0 < (s.binding b).generation ∧ (s.binding b).requested = requested := by
  unfold setStrategy at h ⊢
  dsimp only at h ⊢
  split at h
  · rename_i same
    rw [if_pos same]
    exact ⟨rfl, same⟩
  · cases h

/-- The step launches a run of the binding. -/
def Step.starts (b : Nat) (s : Session) : Step → Bool
  | .setStrategy b' requested => b' = b && (s.setStrategy b' requested).2
  | .refetch b' => b' = b
  | _ => false

/-- The step shuts the binding down. -/
def Step.closes (b : Nat) : Step → Bool
  | .shutdown b' | .drop b' => b' = b
  | _ => false

/-- Does something with the cache. -/
def operate (s : Session) (operation : Cache.Operation) : Session :=
  { s with cache := (s.cache.apply s.now operation).1,
           history := s.history ++ written s.now operation }

/-- Closes a binding: its runs are cancelled, and it publishes nothing any more. -/
def close (s : Session) (b : Nat) (isDropped : Bool) : Session :=
  s.setBinding b { s.binding b with isShutdown := true, isDropped }

/-- What moves preserve, and each of the four commands, is preserved by every step. -/
theorem step_induction {I : Session → Prop} (x : Step)
    (move : ∀ {s t}, Move s t → I s → I t)
    (setSource : ∀ {s} source, I s → I { s with source })
    (operate : ∀ {s} operation, I s → I (s.operate operation))
    (startRun : ∀ {s} b requested, I s → I (s.startRun b requested))
    (close : ∀ {s} b isDropped, I s → I (s.close b isDropped)) (h : I s) : I (s.step x).1 := by
  cases x with
  | tick | fetchFragments | buildSections | fetchSchema | resolve | refresh | invalidateCache | wait =>
    exact (step_moves (by trivial) s).induction move h
  | setSource schemas fragments => exact setSource _ h
  | cache operation => exact operate operation h
  | setStrategy b requested =>
    show I (s.setStrategy b requested).1
    cases changed : (s.setStrategy b requested).2 with
    | true => rw [setStrategy_of_changed changed]; exact startRun b requested h
    | false => rw [(setStrategy_of_unchanged changed).1]; exact h
  | refetch b => exact startRun b _ (Moves.induction move (invalidateCache_moves s b) h)
  | shutdown b => exact close b (s.binding b).isDropped h
  | drop b => exact close b true h

/-- The same for a list of steps. -/
theorem steps_induction {I : Session → Prop} (step : ∀ {s} x, I s → I (s.step x).1) (h : I s)
    (list : List Step) : I (s.steps list) :=
  List.foldlRecOn _ _ h fun _ h x _ => step x h

/-- What a step does to the supply is done by moves, or the step operates the cache, or it changes
the source. -/
theorem step_supply (s : Session) (x : Step) :
    (∃ t, Moves s t ∧ (s.step x).1.toSupply = t.toSupply) ∨
      (∃ operation, x = .cache operation ∧ (s.step x).1 = s.operate operation) ∨
      ∃ source, (s.step x).1 = { s with source } := by
  cases x with
  | tick | fetchFragments | buildSections | fetchSchema | resolve | refresh | invalidateCache | wait =>
    exact .inl ⟨_, step_moves (by trivial) s, rfl⟩
  | setSource => exact .inr (.inr ⟨_, rfl⟩)
  | cache operation => exact .inr (.inl ⟨operation, rfl, rfl⟩)
  | setStrategy b requested =>
    refine .inl ⟨s, .refl, ?_⟩
    show (s.setStrategy b requested).1.toSupply = _
    cases changed : (s.setStrategy b requested).2 with
    | true => rw [setStrategy_of_changed changed]; rfl
    | false => rw [(setStrategy_of_unchanged changed).1]
  | refetch b => exact .inl ⟨_, invalidateCache_moves s b, rfl⟩
  | shutdown | drop => exact .inl ⟨s, .refl, rfl⟩

theorem steps_append (s : Session) (before : List Step) (x : Step) (after : List Step) :
    s.steps (before ++ x :: after) = ((s.steps before).step x).1.steps after := by
  simp [steps]

end StrategyForm.Session
