import Mathlib.Logic.Relation
import StrategyForm.Proofs.Session.Supply

/-!
# Moves of a session

`Move` lists, once, everything that happens to a session by itself or by fetching: what a run does
between two points at which it can be overtaken, what the foreground does with the supply, and time
that passes. `step_moves` says that every step which does not command a binding, the source or
the cache is a sequence of moves, so that an invariant needs one case for each move.
-/

namespace StrategyForm.Session

/-- When the things arrive that a run waits for. -/
def Run.dues (r : Run) : List Nat :=
  match r.stage with
  | .schema due _ => [due]
  | .fragments g => g.arrivals.map (·.due)

/-- The run that a launch starts. -/
def Launch.run (l : Launch) (id : String) (stage : Stage) : Run := ⟨l.binding, l.generation, id, stage⟩

/-- Someone looks a schema up. -/
def look (s : Session) (a : Agent) (id : String) : Session :=
  { s with toSupply := (s.toSupply.lookUpSchema a id).1 }

/-- A run has its schema: it asks for the fragments and waits for them. -/
def await (s : Session) (r : Run) (schema : Schema) : Session :=
  (s.fetch (·.gather r.agent schema)).1.wait
    { r with stage := .fragments (s.toSupply.gather r.agent schema).2 }

/-- A run finds no schema: it publishes a loading state and calls the source. -/
def call (s : Session) (l : Launch) (id : String) : Session :=
  ((s.publish l.binding l.generation (·.toLoading id)).fetch (·.askSchema l.agent id)).1

/-- The run that waits for the reply to that call. -/
def caller (s : Session) (l : Launch) (id : String) : Run :=
  l.run id (.schema (s.now + (s.source.schema id).delay) (s.source.schema id).result)

/-- What a run that waits and is cancelled does before it is gone: nothing, or something with what is
there at that moment. -/
inductive Run.Leaves (r : Run) (u : Supply) : Supply → Prop
  | silent : r.Leaves u u
  | store {due schema} (stage : r.stage = .schema due (.ok schema)) (here : due ≤ u.now) :
    r.Leaves u (u.receiveSchema r.agent r.strategy (.ok schema)).1
  | ask {due schema} (stage : r.stage = .schema due (.ok schema)) (here : due ≤ u.now) :
    r.Leaves u ((u.receiveSchema r.agent r.strategy (.ok schema)).1.gather r.agent
      { schema with id := r.strategy }).1
  | arrive {g} (stage : r.stage = .fragments g) (here : ∃ x ∈ g.arrivals, x.due ≤ u.now) :
    r.Leaves u (u.arrive r.agent g).1

namespace Run.Leaves
variable {r : Run} {u v : Supply}

theorem work (h : r.Leaves u v) : u.Work r.agent v := by
  cases h with
  | silent => exact .refl ..
  | store => exact Supply.receiveSchema_work ..
  | ask => exact (Supply.receiveSchema_work ..).trans (Supply.gather_work _)
  | arrive => exact Supply.arrive_work

theorem ttl (h : r.Leaves u v) : v.cache.ttl = u.cache.ttl := by
  cases h with
  | silent => rfl
  | store => exact Supply.receiveSchema_ttl ..
  | ask => exact (Supply.gather_ttl _).trans (Supply.receiveSchema_ttl ..)
  | arrive => exact Supply.arrive_ttl

end Run.Leaves

/-- One thing that happens to a session. The runs before and behind the one that moves stay in
their places. -/
inductive Move : Session → Session → Prop
  /-- Time passes, up to what is due next; every run has started before, and none is cancelled. -/
  | pass {s time} (later : s.now ≤ time) (due : ∀ r ∈ s.runs, ∀ d ∈ r.dues, time ≤ d)
      (idle : s.launches = [])
      (live : ∀ r ∈ s.runs, (s.binding r.binding).isCurrent r.generation = true) :
    Move s { s with now := time }
  /-- A run starts that was asked for no strategy. -/
  | clear {s l rest} (first : s.launches = l :: rest) (none : l.strategy = none) :
    Move s ({ s with launches := rest }.publish l.binding l.generation (·.toCleared))
  /-- A run starts that has been overtaken. -/
  | skip {s l rest id} (first : s.launches = l :: rest) (strategy : l.strategy = some id)
      (overtaken : (s.binding l.binding).isCurrent l.generation = false) :
    Move s ({ s with launches := rest }.look l.agent id)
  /-- A run starts that has been overtaken, finds its schema in the cache, and asks for the fragments,
  for which it does not wait. -/
  | slip {s l rest id schema} (first : s.launches = l :: rest) (strategy : l.strategy = some id)
      (overtaken : (s.binding l.binding).isCurrent l.generation = false)
      (found : s.cache.schema? s.now id = some schema) :
    Move s (({ s with launches := rest }.look l.agent id).fetch (·.gather l.agent schema)).1
  /-- A run starts and finds its schema in the cache. -/
  | hit {s l rest id stage schema} (first : s.launches = l :: rest)
      (strategy : l.strategy = some id)
      (current : (s.binding l.binding).isCurrent l.generation = true)
      (found : s.cache.schema? s.now id = some schema) :
    Move s (({ s with launches := rest }.look l.agent id).await (l.run id stage) schema)
  /-- A run starts and does not find its schema in the cache. -/
  | miss {s l rest id} (first : s.launches = l :: rest) (strategy : l.strategy = some id)
      (current : (s.binding l.binding).isCurrent l.generation = true)
      (missing : s.cache.schema? s.now id = none) :
    Move s ((({ s with launches := rest }.look l.agent id).call l id).wait (s.caller l id))
  /-- A run's schema cannot be had. -/
  | refuse {s front r back due e} (place : s.runs = front ++ r :: back)
      (current : (s.binding r.binding).isCurrent r.generation = true)
      (stage : r.stage = .schema due (.error e)) (here : due ≤ s.now) :
    Move s ({ s with runs := front ++ back }.publish r.binding r.generation
      (·.toFailed r.strategy e))
  /-- A run's schema arrives. -/
  | obtain {s front r back due schema} (place : s.runs = front ++ r :: back)
      (current : (s.binding r.binding).isCurrent r.generation = true)
      (stage : r.stage = .schema due (.ok schema)) (here : due ≤ s.now) :
    Move s (({ s with runs := front ++ back }.fetch
        (·.receiveSchema r.agent r.strategy (.ok schema))).1.await r { schema with id := r.strategy })
  /-- Fragments of a run arrive. -/
  | arrive {s front r back g} (place : s.runs = front ++ r :: back)
      (current : (s.binding r.binding).isCurrent r.generation = true)
      (stage : r.stage = .fragments g) :
    Move s { (s.fetch (·.arrive r.agent g)).1 with
      runs := front ++ { r with stage := .fragments (s.toSupply.arrive r.agent g).2 } :: back }
  /-- A run has all its fragments. -/
  | finish {s front r back g} (place : s.runs = front ++ r :: back)
      (current : (s.binding r.binding).isCurrent r.generation = true)
      (stage : r.stage = .fragments g) (complete : g.isComplete = true) :
    Move s ({ s with runs := front ++ back }.runResolved r g)
  /-- A run that waits is cancelled, and is gone. -/
  | leave {s front r back u} (place : s.runs = front ++ r :: back)
      (cancelled : (s.binding r.binding).isCurrent r.generation = false)
      (last : r.Leaves s.toSupply u) :
    Move s { s with runs := front ++ back, toSupply := u }
  /-- The foreground looks a schema up. -/
  | lookUp {s} (id : String) : Move s (s.look .foreground id)
  /-- The foreground makes the cache forget a schema. -/
  | forget {s} (id : String) : Move s { s with cache := s.cache.invalidateSchema id }
  /-- The foreground calls for a schema. -/
  | call {s} (id : String) : Move s (s.fetch (·.askSchema .foreground id)).1
  /-- The foreground receives what it called for. -/
  | receive {s id result} (reply : result = (s.source.schema id).result) :
    Move s (s.fetch (·.receiveSchema .foreground id result)).1
  /-- The foreground begins to gather fragments. -/
  | gather {s} (schema : Schema) : Move s (s.fetch (·.gather .foreground schema)).1
  /-- Fragments of the foreground arrive. -/
  | take {s g} (reply : ∀ x ∈ g.arrivals, x.result = (s.source.fragment x.id).result) :
    Move s (s.fetch (·.arrive .foreground g)).1

/-- Any number of moves. -/
abbrev Moves : Session → Session → Prop := Relation.ReflTransGen Move

/-- What every move preserves is preserved by any number of them. -/
theorem Moves.induction {I : Session → Prop} (move : ∀ {s t}, Move s t → I s → I t)
    {s t : Session} (h : Moves s t) (hs : I s) : I t := by
  induction h with
  | refl => exact hs
  | tail _ h ih => exact move h ih

variable {s : Session} {r : Run}

/-! ### The place of a run -/

section Place
variable {front back : List Run} {x y : Run}

theorem mem_of_place (place : s.runs = front ++ r :: back) : r ∈ s.runs := by simp [place]

theorem mem_of_mem_others (place : s.runs = front ++ r :: back) (h : x ∈ front ++ back) : x ∈ s.runs := by
  rw [place]; grind

theorem mem_of_first {l : Launch} {rest : List Launch} (first : s.launches = l :: rest) : l ∈ s.launches := by
  simp [first]

theorem mem_of_mem_rest {l l' : Launch} {rest : List Launch} (first : s.launches = l :: rest)
    (h : l' ∈ rest) : l' ∈ s.launches := by
  simp [first, h]

theorem mem_or_eq_of_place (place : s.runs = front ++ r :: back) (h : x ∈ front ++ y :: back) :
    x ∈ s.runs ∨ x = y := by
  rw [place]; grind

end Place

/-! ### Runs -/

theorem runWith_moves (schema : Schema)
    (current : (s.binding r.binding).isCurrent r.generation = true) :
    Moves (s.await r schema) (s.runWith r schema) := by
  rw [runWith_eq]
  split
  · rename_i complete
    have place : (s.await r schema).runs =
        s.runs ++ { r with stage := .fragments (s.toSupply.gather r.agent schema).2 } :: [] := rfl
    have h := Move.finish place current rfl complete
    rw [List.append_nil] at h
    exact .single h
  · exact .refl

theorem runReceive_moves {front back : List Run} {due : Nat} {result : Except Fault Schema}
    (place : s.runs = front ++ r :: back)
    (current : (s.binding r.binding).isCurrent r.generation = true)
    (stage : r.stage = .schema due result) (here : due ≤ s.now) :
    Moves s ({ s with runs := front ++ back }.runReceive r result) := by
  cases result with
  | error e => exact .single (.refuse place current stage here)
  | ok schema => exact .head (.obtain place current stage here) (runWith_moves _ current)

/-- A run whose reply is there at once need not wait for it. -/
theorem wait_moves {due : Nat} {result : Except Fault Schema}
    (current : (s.binding r.binding).isCurrent r.generation = true)
    (stage : r.stage = .schema due result) (here : due ≤ s.now) :
    Moves (s.wait r) (s.runReceive r result) := by
  have place : (s.wait r).runs = s.runs ++ r :: [] := rfl
  have h := runReceive_moves place current stage here
  rwa [List.append_nil] at h

/-- What a run that is cancelled does concerns the supply only. -/
theorem abandon_leaves (s : Session) (r : Run) :
    ∃ u, r.Leaves s.toSupply u ∧ s.abandon r = { s with toSupply := u } := by
  unfold abandon
  cases stage : r.stage with
  | schema due result =>
    dsimp only
    split
    · rename_i h
      cases result with
      | error e => exact ⟨_, .silent, rfl⟩
      | ok schema =>
        show ∃ u, _ ∧ glance _ _ { schema with id := r.strategy } = _
        unfold glance
        split
        · exact ⟨_, .ask stage h.1, rfl⟩
        · exact ⟨_, .store stage h.1, rfl⟩
    · exact ⟨_, .silent, rfl⟩
  | fragments g =>
    dsimp only
    split
    · by_cases here : ∃ x ∈ g.arrivals, x.due ≤ s.now
      · exact ⟨_, .arrive stage here, rfl⟩
      · have none : g.arrivals.filter (·.due ≤ s.now) = [] :=
          List.filter_eq_nil_iff.2 fun x hx le => here ⟨x, hx, of_decide_eq_true le⟩
        refine ⟨_, .silent, ?_⟩
        rw [fetch_fst, Supply.arrive, none]
        rfl
    · exact ⟨_, .silent, rfl⟩

/-- Of the runs that wait, those for which something is due go on, those that are cancelled are gone,
and the others stay in their places. -/
theorem resume_moves (list : List Run) (s : Session) (front : List Run) :
    Moves (s.behind (front ++ list)) ((s.resume list).behind front) := by
  induction list generalizing s front with
  | nil => simpa [resume] using .refl
  | cons r rest ih =>
    -- a run that stays joins those in front, so that the rest goes on behind it
    have keep (s : Session) (r : Run) : Moves (s.behind (front ++ r :: rest))
        ({ s.resume rest with runs := r :: (s.resume rest).runs }.behind front) := by
      simpa [behind] using ih s (front ++ [r])
    have place (s : Session) (r : Run) :
        (s.behind (front ++ r :: rest)).runs = front ++ r :: (rest ++ s.runs) := by simp
    cases current : (s.binding r.binding).isCurrent r.generation with
    | false =>
      obtain ⟨u, last, e⟩ := abandon_leaves s r
      simp only [resume, current, Bool.false_eq_true, ↓reduceIte, e]
      refine .trans (.single ?_) (ih { s with toSupply := u } front)
      have h := Move.leave (place s r) current last
      rwa [← List.append_assoc] at h
    | true =>
      cases stage : r.stage with
      | schema due result =>
        simp only [resume, current, ↓reduceIte, stage]
        split
        · rename_i here
          refine .trans ?_ (ih (s.runReceive r result) front)
          rw [behind_runReceive]
          simpa [behind] using runReceive_moves (place s r) current stage here
        · exact keep s r
      | fragments g =>
        simp only [resume, current, ↓reduceIte, stage]
        split
        · have h : Moves (s.behind (front ++ r :: rest))
              ((s.fetch (·.arrive r.agent g)).1.behind
                (front ++ { r with stage := .fragments (s.toSupply.arrive r.agent g).2 } :: rest)) := by
            have h := Move.arrive (place s r) current stage
            rw [← List.cons_append, ← List.append_assoc] at h
            exact .single h
          split
          · rename_i complete
            refine h.trans (.trans ?_ (ih _ front))
            have h := Move.finish (place (s.fetch (·.arrive r.agent g)).1
              { r with stage := .fragments (s.toSupply.arrive r.agent g).2 }) current rfl complete
            rw [← List.append_assoc] at h
            rw [runResolved, behind_publish]
            exact .single h
          · exact h.trans (keep _ _)
        · exact keep s r

/-! ### Launches -/

@[simp] theorem look_now (a : Agent) (id : String) : (s.look a id).now = s.now := rfl

@[simp] theorem look_launches (a : Agent) (id : String) : (s.look a id).launches = s.launches := rfl

@[simp] theorem look_runs (a : Agent) (id : String) : (s.look a id).runs = s.runs := rfl

/-- The look-up of a schema, when it is known what is found. -/
theorem fetch_lookUpSchema {a : Agent} {id : String} {found : Option Schema}
    (h : s.cache.schema? s.now id = found) :
    s.fetch (·.lookUpSchema a id) = (s.look a id, found) := by
  subst h; rfl

theorem launch_of_overtaken {l : Launch} {id : String} (strategy : l.strategy = some id)
    (overtaken : (s.binding l.binding).isCurrent l.generation = false)
    (missing : s.cache.schema? s.now id = none) : s.launch l = s.look l.agent id := by
  simp only [launch, strategy, fetch_lookUpSchema missing, overtaken]
  rfl

theorem launch_of_overtaken_found {l : Launch} {id : String} {schema : Schema}
    (strategy : l.strategy = some id)
    (overtaken : (s.binding l.binding).isCurrent l.generation = false)
    (found : s.cache.schema? s.now id = some schema) :
    s.launch l = (s.look l.agent id).glance l.agent schema := by
  simp only [launch, strategy, fetch_lookUpSchema found, overtaken]
  rfl

theorem launch_of_found {l : Launch} {id : String} {schema : Schema}
    (strategy : l.strategy = some id)
    (current : (s.binding l.binding).isCurrent l.generation = true)
    (found : s.cache.schema? s.now id = some schema) :
    s.launch l = (s.look l.agent id).runWith (l.run id (.fragments { schema })) schema := by
  simp only [launch, strategy, fetch_lookUpSchema found, current]
  rfl

theorem launch_of_missing {l : Launch} {id : String} (strategy : l.strategy = some id)
    (current : (s.binding l.binding).isCurrent l.generation = true)
    (missing : s.cache.schema? s.now id = none) :
    s.launch l =
      let t := (s.look l.agent id).call l id
      if (s.source.schema id).delay = 0 then t.runReceive (s.caller l id) (s.source.schema id).result
      else t.wait (s.caller l id) := by
  simp only [launch, strategy, fetch_lookUpSchema missing, current, ↓reduceIte]
  simp only [fetch, Supply.askSchema, Supply.record, publish_source, publish_now, call, caller]
  rfl

@[simp] theorem call_now (l : Launch) (id : String) : (s.call l id).now = s.now :=
  publish_now ..

@[simp] theorem call_launches (l : Launch) (id : String) : (s.call l id).launches = s.launches :=
  publish_launches ..

@[simp] theorem call_runs (l : Launch) (id : String) : (s.call l id).runs = s.runs :=
  publish_runs ..

@[simp] theorem call_isCurrent (l : Launch) (id : String) (b g : Nat) :
    ((s.call l id).binding b).isCurrent g = (s.binding b).isCurrent g :=
  publish_isCurrent ..

theorem before_call (l : Launch) (id : String) (later : List Launch) :
    (s.call l id).before later = (s.before later).call l id := by
  simp only [call, ← before_publish]
  rfl

theorem launch_moves {l : Launch} {rest : List Launch} (none : s.launches = []) :
    Moves (s.before (l :: rest)) ((s.launch l).before rest) := by
  have first : (s.before (l :: rest)).launches = l :: rest := by simp [before, none]
  have same : { s.before (l :: rest) with launches := rest } = s.before rest := by simp [before, none]
  cases strategy : l.strategy with
  | none =>
    have h := Move.clear first strategy
    rw [same] at h
    simp only [launch, strategy]
    rw [before_publish]
    exact .single h
  | some id =>
    have same : { s.before (l :: rest) with launches := rest }.look l.agent id =
        (s.look l.agent id).before rest := by simp [before, look, none]
    cases current : (s.binding l.binding).isCurrent l.generation with
    | false =>
      have skip := Move.skip first strategy current
      rw [same] at skip
      cases found : s.cache.schema? s.now id with
      | none =>
        rw [launch_of_overtaken strategy current found]
        exact .single skip
      | some schema =>
        have slip := Move.slip first strategy current found
        rw [same] at slip
        rw [launch_of_overtaken_found strategy current found, before_glance]
        unfold glance
        split
        · exact .single slip
        · exact .single skip
    | true =>
      cases found : s.cache.schema? s.now id with
      | some schema =>
        have h : Move _ (Session.await _ (l.run id (.fragments { schema })) schema) :=
          Move.hit first strategy current found
        rw [same] at h
        rw [launch_of_found strategy current found, before_runWith]
        exact .head h (runWith_moves _ current)
      | none =>
        have h := Move.miss first strategy current found
        rw [same, ← before_call] at h
        rw [launch_of_missing strategy current found]
        dsimp only
        split
        · -- without delay the run is received at once instead of waiting; the end is the same
          rename_i soon
          refine .head h ?_
          rw [before_runReceive]
          refine wait_moves ?_ rfl (Nat.le_of_eq ?_)
          · show (((look _ l.agent id).call l id).binding l.binding).isCurrent l.generation = true
            rw [call_isCurrent]
            exact current
          show s.now + (s.source.schema id).delay = (call _ l id).now
          rw [soon, call_now]
          rfl
        · exact .single h

@[simp] theorem launch_launches (l : Launch) : (s.launch l).launches = s.launches := by
  cases strategy : l.strategy with
  | none => simp [launch, strategy]
  | some id =>
    cases current : (s.binding l.binding).isCurrent l.generation with
    | false =>
      cases found : s.cache.schema? s.now id with
      | some schema =>
        rw [launch_of_overtaken_found strategy current found, glance_launches, look_launches]
      | none => rw [launch_of_overtaken strategy current found, look_launches]
    | true =>
      cases found : s.cache.schema? s.now id with
      | some schema => rw [launch_of_found strategy current found, runWith_launches, look_launches]
      | none =>
        rw [launch_of_missing strategy current found]
        dsimp only
        split
        · rw [runReceive_launches, call_launches, look_launches]
        · exact call_launches ..

/-! ### Instants -/

theorem launches_moves (list : List Launch) {s : Session} (none : s.launches = []) :
    Moves (s.before list) (list.foldl launch s) := by
  induction list generalizing s with
  | nil => simpa [before] using .refl
  | cons l rest ih => exact (launch_moves none).trans (ih (by rw [launch_launches, none]))

theorem launches_launches (list : List Launch) (s : Session) :
    (list.foldl launch s).launches = s.launches := by
  induction list generalizing s with
  | nil => rfl
  | cons l rest ih => exact (ih _).trans (launch_launches l)

@[simp] theorem instant_launches (s : Session) : s.instant.launches = [] :=
  launches_launches ..

theorem instant_moves (s : Session) : Moves s s.instant := by
  have first := resume_moves s.runs { s with runs := [] } []
  have second := launches_moves (resume { s with runs := [] } s.runs).launches
    (s := { resume { s with runs := [] } s.runs with launches := [] }) rfl
  simp only [behind, before, List.nil_append, List.append_nil] at first second
  exact first.trans second

variable {t : Session}

/-! ### What moves leave alone -/

theorem Move.source (h : Move s t) : t.source = s.source := by
  cases h with
  | pass | skip | forget | lookUp | call => rfl
  | clear | refuse | finish => simp [runResolved]
  | slip | hit => exact (Supply.gather_work _).source
  | leave _ _ last => exact last.work.source
  | miss => exact publish_source ..
  | @obtain _ r _ _ schema =>
    exact (Supply.gather_work _).source.trans
      (Supply.receiveSchema_work (a := r.agent) r.strategy (.ok schema)).source
  | arrive | take => exact Supply.arrive_work.source
  | receive => exact (Supply.receiveSchema_work _ _).source
  | gather => exact (Supply.gather_work _).source

theorem Moves.source (h : Moves s t) : t.source = s.source :=
  h.induction (I := fun t => t.source = s.source) (fun m e => m.source.trans e) rfl

theorem Move.ttl (h : Move s t) : t.cache.ttl = s.cache.ttl := by
  cases h with
  | pass | forget | call => rfl
  | clear | refuse | finish => simp [runResolved]
  | skip | lookUp => exact Supply.lookUpSchema_ttl
  | slip | hit => exact (Supply.gather_ttl _).trans Supply.lookUpSchema_ttl
  | leave _ _ last => exact last.ttl
  | @miss l rest id =>
    have looked : ({ s with launches := rest }.look l.agent id).cache.ttl = s.cache.ttl :=
      Supply.lookUpSchema_ttl
    exact (congrArg Cache.ttl (publish_cache ..)).trans looked
  | @obtain _ r _ _ schema =>
    have received : (s.toSupply.receiveSchema r.agent r.strategy (.ok schema)).1.cache.ttl = s.cache.ttl :=
      Supply.receiveSchema_ttl ..
    exact (Supply.gather_ttl _).trans received
  | arrive | take => exact Supply.arrive_ttl
  | receive => exact Supply.receiveSchema_ttl ..
  | gather => exact Supply.gather_ttl _

theorem Moves.ttl (h : Moves s t) : t.cache.ttl = s.cache.ttl :=
  h.induction (I := fun t => t.cache.ttl = s.cache.ttl) (fun m e => m.ttl.trans e) rfl

/-- The clock stands still, or time passes, and then every run has started and none is cancelled. -/
theorem Move.now_cases (h : Move s t) : t.now = s.now ∨ s.now ≤ t.now ∧ s.launches = [] ∧
    ∀ r ∈ s.runs, (s.binding r.binding).isCurrent r.generation = true := by
  cases h with
  | pass later _ idle live => exact .inr ⟨later, idle, live⟩
  | clear | refuse | finish => exact .inl (by simp [runResolved])
  | skip | lookUp | forget | call => exact .inl rfl
  | miss => exact .inl (by simp [wait])
  | hit => exact .inl (by simp [await, wait])
  | slip | gather => exact .inl (Supply.gather_now _)
  | leave _ _ last => exact .inl last.work.now
  | @obtain _ r _ _ schema =>
    have received : (s.toSupply.receiveSchema r.agent r.strategy (.ok schema)).1.now = s.now :=
      (Supply.receiveSchema_work ..).now
    exact .inl ((Supply.gather_now _).trans received)
  | arrive | take => exact .inl Supply.arrive_now
  | receive => exact .inl (Supply.receiveSchema_work ..).now

/-- The clock never goes back. -/
theorem Move.now_le (h : Move s t) : s.now ≤ t.now :=
  h.now_cases.elim (fun same => Nat.le_of_eq same.symm) fun passed => passed.1

theorem Moves.now_le (h : Moves s t) : s.now ≤ t.now :=
  h.induction (I := fun t => s.now ≤ t.now) (fun m le => Nat.le_trans le m.now_le) (Nat.le_refl _)

/-- Moves change what a binding shows and nothing else of it. -/
structure SameControl (s t : Session) : Prop where
  length : t.bindings.length = s.bindings.length
  generation : ∀ b, (t.binding b).generation = (s.binding b).generation
  requested : ∀ b, (t.binding b).requested = (s.binding b).requested
  isShutdown : ∀ b, (t.binding b).isShutdown = (s.binding b).isShutdown

theorem SameControl.isCurrent (h : SameControl s t) (b g : Nat) :
    (t.binding b).isCurrent g = (s.binding b).isCurrent g := by
  simp [Binding.isCurrent, h.generation, h.isShutdown]

theorem SameControl.of_bindings (h : t.bindings = s.bindings) : SameControl s t := by
  refine ⟨by rw [h], ?_, ?_, ?_⟩ <;> simp [binding_congr h]

theorem SameControl.publish (s : Session) (b g : Nat) (update : State → State) :
    SameControl s (s.publish b g update) := by
  refine ⟨?_, ?_, ?_, ?_⟩ <;> simp

theorem SameControl.trans {u : Session} (h₁ : SameControl s t) (h₂ : SameControl t u) :
    SameControl s u :=
  ⟨h₂.length.trans h₁.length, fun b => (h₂.generation b).trans (h₁.generation b),
    fun b => (h₂.requested b).trans (h₁.requested b), fun b => (h₂.isShutdown b).trans (h₁.isShutdown b)⟩

theorem Move.control (h : Move s t) : SameControl s t := by
  cases h with
  | pass | skip | slip | hit | obtain | arrive | leave | lookUp | forget | call | receive | gather | take =>
    exact .of_bindings rfl
  | clear | refuse | finish =>
    refine .trans (.of_bindings ?_) (.publish ..)
    rfl
  | @miss l rest id =>
    have look : SameControl s ({ s with launches := rest }.look l.agent id) := .of_bindings rfl
    exact (look.trans (.publish _ l.binding l.generation (·.toLoading id))).trans (.of_bindings rfl)

theorem Moves.control (h : Moves s t) : SameControl s t :=
  h.induction (I := SameControl s) (fun m c => c.trans m.control) (.of_bindings rfl)

theorem resume_control (list : List Run) (s : Session) : SameControl s (s.resume list) := by
  have c := (resume_moves list s []).control
  exact ⟨c.length, c.generation, c.requested, c.isShutdown⟩

end StrategyForm.Session
