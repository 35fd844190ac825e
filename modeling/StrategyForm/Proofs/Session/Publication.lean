import StrategyForm.Proofs.Session.History

/-!
# The discipline of publication

Main statement (`published_disciplined`): the states that a binding publishes are ordered by their
runs, and each run publishes at most a loading state and after it a settled one. A run publishes
while it is the latest of its binding and the binding is not shut down; it publishes a loading state
exactly when it finds no valid schema in the cache. Runs are numbered by the steps that start one.

The invariant (`Disciplined`) says besides that a run that has not started has published nothing,
and one that waits nothing settled. That no two runs have the same number (`Orderly.single`) makes
the numbers tell whose state is whose.
-/

namespace StrategyForm.Session

/-- The first state is of an earlier run, or it is the loading state of the same run, which the
second one settles. -/
def State.Precedes (x y : State) : Prop :=
  x.generation < y.generation ∨
    (x.generation = y.generation ∧ x.loading = true ∧ y.loading = false)

/-- What a deed shows at a binding. -/
def Deed.shown? (b : Nat) : Deed → Option State
  | .published b' st => if b' = b then some st else none
  | _ => none

/-- The deed shows nothing. -/
def Deed.IsSilent (d : Deed) : Prop := ∀ b, d.shown? b = none

structure Disciplined (s : Session) : Prop where
  ordered : ∀ b, (s.published b).Pairwise State.Precedes
  generation_le : ∀ b, ∀ x ∈ s.published b, x.generation ≤ (s.binding b).generation
  shows : ∀ b < s.bindings.length, (s.binding b).state = (s.published b).getLast?.getD {}
  launches : ∀ l ∈ s.launches, ∀ x ∈ s.published l.binding, x.generation ≠ l.generation
  runs : ∀ r ∈ s.runs, ∀ x ∈ s.published r.binding, x.generation = r.generation → x.loading = true

variable {s t : Session} {b g : Nat}

/-! ### Published states -/

theorem published_eq (s : Session) (b : Nat) :
    s.published b = s.history.filterMap (Deed.shown? b) := by
  rw [published, log, List.filterMap_filterMap]
  congr 1
  funext d
  cases d <;> rfl

theorem mem_published {st : State} : st ∈ s.published b ↔ .published b st ∈ s.history := by
  rw [published_eq, List.mem_filterMap]
  refine ⟨?_, fun h => ⟨_, h, if_pos rfl⟩⟩
  rintro ⟨d, hd, e⟩
  cases d with
  | published b' st' =>
    simp only [Deed.shown?] at e
    split at e
    · rename_i eq
      cases e
      rwa [eq] at hd
    · cases e
  | _ => cases e

theorem published_publish (s : Session) (b g : Nat) (update : State → State) (b' : Nat) :
    (s.publish b g update).published b' = s.published b' ++
      if b = b' ∧ (s.binding b).isCurrent g then [s.shown b g update] else [] := by
  rw [published_eq, published_eq, publish_history, List.filterMap_append]
  cases current : (s.binding b).isCurrent g with
  | true => by_cases e : b = b' <;> simp [e, Deed.shown?]
  | false => simp

theorem mem_published_publish {update : State → State} {b' : Nat} {x : State}
    (h : x ∈ (s.publish b g update).published b') :
    x ∈ s.published b' ∨ b = b' ∧ x = s.shown b g update := by
  rw [published_publish] at h
  refine (List.mem_append.1 h).imp_right fun h => ?_
  split at h
  · rename_i e; exact ⟨e.1, List.mem_singleton.1 h⟩
  · cases h

/-- Deeds that show nothing leave what was published as it was. -/
theorem published_of_grows (grows : Grows Deed.IsSilent s.history t.history) (b : Nat) :
    t.published b = s.published b := by
  obtain ⟨more, e, silent⟩ := grows
  rw [published_eq, published_eq, e, List.filterMap_append,
    (List.filterMap_eq_nil_iff (l := more)).2 fun d hd => silent d hd b, List.append_nil]

theorem Deed.IsWorkOf.silent {a : Agent} {d : Deed} (h : d.IsWorkOf a) : d.IsSilent := by
  intro b
  cases d <;> first | rfl | exact h.elim

theorem Supply.Work.silent {a : Agent} {u v : Supply} (w : u.Work a v) :
    Grows Deed.IsSilent u.history v.history :=
  w.history.mono fun _ h => h.silent

theorem lookUpSchema_silent (u : Supply) (a : Agent) (id : String) :
    Grows Deed.IsSilent u.history (u.lookUpSchema a id).1.history :=
  .single fun _ => rfl

/-! ### Runs that are alone with their number -/

theorem Orderly.launch_alone (o : s.Orderly) {l : Launch} {rest : List Launch}
    (first : s.launches = l :: rest) (hb : l.binding < s.bindings.length) :
    (∀ l' ∈ rest, l'.key ≠ l.key) ∧ ∀ r ∈ s.runs, r.key ≠ l.key := by
  have count := o.single l.key hb
  rw [pending, first, List.map_cons, List.cons_append, List.count_cons_self] at count
  have none : l.key ∉ rest.map Launch.key ++ s.runs.map Run.key :=
    List.count_eq_zero.1 (by omega)
  rw [List.mem_append, not_or] at none
  exact ⟨fun l' hl e => none.1 (e ▸ List.mem_map_of_mem hl),
    fun r hr e => none.2 (e ▸ List.mem_map_of_mem hr)⟩

theorem Orderly.run_alone (o : s.Orderly) {front back : List Run} {r : Run}
    (place : s.runs = front ++ r :: back) (hb : r.binding < s.bindings.length) :
    (∀ l ∈ s.launches, l.key ≠ r.key) ∧ ∀ r' ∈ front ++ back, r'.key ≠ r.key := by
  have count := o.single r.key hb
  simp only [pending, place, List.map_append, List.map_cons, List.count_append,
    List.count_cons_self] at count
  have none : r.key ∉ s.launches.map Launch.key ++ (front ++ back).map Run.key :=
    List.count_eq_zero.1 (by rw [List.count_append, List.map_append, List.count_append]; omega)
  rw [List.mem_append, not_or] at none
  exact ⟨fun l hl e => none.1 (e ▸ List.mem_map_of_mem hl),
    fun r' hr e => none.2 (e ▸ List.mem_map_of_mem hr)⟩

/-! ### Moves -/

namespace Disciplined

/-- Nothing was published, no run was launched, and none waits that was not pending. -/
theorem of_silent (h : s.Disciplined) (published : ∀ b, t.published b = s.published b)
    (bindings : t.bindings = s.bindings) (launches : ∀ l ∈ t.launches, l ∈ s.launches)
    (runs : ∀ r ∈ t.runs, r.key ∈ s.pending) : t.Disciplined := by
  have same := binding_congr bindings
  refine ⟨fun b => ?_, fun b => ?_, fun b hb => ?_, fun l hl => ?_, fun r hr x hx e => ?_⟩
  · rw [published]; exact h.ordered b
  · rw [published, same]; exact h.generation_le b
  · rw [published, same]; exact h.shows b (by rwa [← bindings])
  · rw [published]; exact h.launches l (launches l hl)
  · rw [published] at hx
    -- a run that was launched before the move had published nothing
    rcases List.mem_append.1 (runs r hr) with hk | hk
    · obtain ⟨l, hl, key⟩ := List.mem_map.1 hk
      rw [Launch.key, Run.key, Prod.mk.injEq] at key
      exact absurd (e.trans key.2.symm) (h.launches l hl x (by rwa [key.1]))
    · obtain ⟨r', hr', key⟩ := List.mem_map.1 hk
      rw [Run.key, Run.key, Prod.mk.injEq] at key
      exact h.runs r' hr' x (by rwa [key.1]) (e.trans key.2.symm)

/-- A run publishes that was pending and is not any more. -/
theorem publish (h : s.Disciplined) (pos : 0 < g) {update : State → State}
    (fresh : ∀ x ∈ s.published b, x.generation = g →
      x.loading = true ∧ (s.shown b g update).loading = false)
    (alone : b < s.bindings.length →
      (∀ l ∈ s.launches, l.key ≠ (b, g)) ∧ ∀ r ∈ s.runs, r.key ≠ (b, g)) :
    (s.publish b g update).Disciplined := by
  cases current : (s.binding b).isCurrent g with
  | false => rwa [publish_of_not_current _ _ _ _ current]
  | true =>
    have hb := lt_length_of_current pos current
    have latest := (Binding.isCurrent_iff.1 current).2
    refine ⟨fun b' => ?_, fun b' x hx => ?_, fun b' hb' => ?_, fun l hl x hx => ?_,
      fun r hr x hx e => ?_⟩
    · rw [published_publish]
      split
      · -- the new state is the last of its binding, and its run the latest
        rename_i e
        obtain ⟨rfl, -⟩ := e
        refine List.pairwise_append.2 ⟨h.ordered b, List.pairwise_singleton .., fun x hx y hy => ?_⟩
        rw [List.mem_singleton.1 hy]
        have le : x.generation ≤ g := latest ▸ h.generation_le b x hx
        rcases Nat.lt_or_eq_of_le le with lt | eq
        · exact .inl lt
        · exact .inr ⟨eq, fresh x hx eq⟩
      · rw [List.append_nil]; exact h.ordered b'
    · rw [publish_generation]
      rcases mem_published_publish hx with hx | ⟨rfl, rfl⟩
      · exact h.generation_le b' x hx
      · exact Nat.le_of_eq latest.symm
    · rw [publish_length] at hb'
      rw [publish_binding, published_publish]
      by_cases e : b = b'
      · simp [e, e ▸ hb, e ▸ current]
      · simpa [e] using h.shows b' hb'
    · rw [publish_launches] at hl
      rcases mem_published_publish hx with hx | ⟨e, rfl⟩
      · exact h.launches l hl x hx
      · exact fun e' => (alone hb).1 l hl (by rw [Launch.key, ← e, ← e']; rfl)
    · rw [publish_runs] at hr
      rcases mem_published_publish hx with hx | ⟨e', rfl⟩
      · exact h.runs r hr x hx e
      · exact absurd (by rw [Run.key, ← e', ← e]; rfl) ((alone hb).2 r hr)

/-- A run begins to wait that has settled nothing. -/
theorem wait (h : s.Disciplined) {r : Run}
    (loading : ∀ x ∈ s.published r.binding, x.generation = r.generation → x.loading = true) :
    (s.wait r).Disciplined := by
  refine ⟨h.ordered, h.generation_le, h.shows, h.launches, fun r' hr => ?_⟩
  rcases mem_wait hr with hr | rfl
  · exact h.runs r' hr
  · exact loading

end Disciplined

theorem Move.launches (m : Move s t) : ∀ l ∈ t.launches, l ∈ s.launches := by
  intro l hl
  cases m with
  | pass | obtain | arrive | leave | lookUp | forget | call | receive | gather | take => exact hl
  | clear first => exact mem_of_mem_rest first (by simpa using hl)
  | skip first | slip first | hit first => exact mem_of_mem_rest first hl
  | miss first => exact mem_of_mem_rest first (by simpa [Session.wait] using hl)
  | refuse => simpa using hl
  | finish => simpa [runResolved] using hl

theorem Disciplined.move (h : s.Disciplined) (o : s.Orderly) (m : Move s t) : t.Disciplined := by
  have launches := m.launches
  have runs : ∀ r ∈ t.runs, r.key ∈ s.pending := fun r hr =>
    m.mem_pending (mem_pending_of_run hr)
  have silent (grows : Grows Deed.IsSilent s.history t.history) (same : t.bindings = s.bindings) :
      t.Disciplined :=
    h.of_silent (published_of_grows grows) same launches runs
  have started {l : Launch} {rest : List Launch} (first : s.launches = l :: rest) (supply : Supply)
      (grows : Grows Deed.IsSilent s.history supply.history) :
      Disciplined { s with launches := rest, toSupply := supply } :=
    h.of_silent (published_of_grows grows) rfl
      (fun _ => mem_of_mem_rest first) fun r hr => mem_pending_of_run hr
  have without {front back : List Run} {r : Run} (place : s.runs = front ++ r :: back) :
      Disciplined { s with runs := front ++ back } :=
    h.of_silent (fun _ => rfl) rfl (fun _ hl => hl) fun r' hr =>
      mem_pending_of_run (mem_of_mem_others place hr)
  cases m with
  | pass | forget => exact silent (.refl ..) rfl
  | skip | lookUp => exact silent (lookUpSchema_silent ..) rfl
  | call id => exact silent (Supply.askSchema_work id).silent rfl
  | slip | hit => exact silent ((lookUpSchema_silent ..).trans (Supply.gather_work _).silent) rfl
  | leave _ _ last => exact silent last.work.silent rfl
  | @obtain front r back due schema =>
    have received : s.toSupply.Work r.agent _ := Supply.receiveSchema_work r.strategy (.ok schema)
    exact silent (received.silent.trans (Supply.gather_work _).silent) rfl
  | arrive | take => exact silent Supply.arrive_work.silent rfl
  | receive => exact silent (Supply.receiveSchema_work ..).silent rfl
  | gather => exact silent (Supply.gather_work _).silent rfl
  | @clear l rest first none =>
    have hl : l ∈ s.launches := by simp [first]
    exact (started first s.toSupply (.refl ..)).publish
      (o.positive _ (mem_pending_of_launch hl))
      (fun x hx e => absurd e (h.launches l hl x hx)) (o.launch_alone first)
  | @miss l rest id first =>
    have hl : l ∈ s.launches := by simp [first]
    have look := lookUpSchema_silent s.toSupply l.agent id
    have none : ∀ x ∈ ({ s with launches := rest }.look l.agent id).published l.binding,
        x.generation ≠ l.generation := by
      rw [published_of_grows look]
      exact h.launches l hl
    have shown : (({ s with launches := rest }.look l.agent id).publish l.binding l.generation
        (·.toLoading id)).Disciplined :=
      (started first _ look).publish
        (o.positive _ (mem_pending_of_launch hl))
        (fun x hx e => absurd e (none x hx)) (o.launch_alone first)
    have called : (({ s with launches := rest }.look l.agent id).call l id).Disciplined :=
      shown.of_silent (published_of_grows (Supply.askSchema_work id).silent) rfl
        (fun _ hl => hl) fun r hr => mem_pending_of_run hr
    refine called.wait fun x hx e => ?_
    -- of what this run has published there is the loading state and nothing else
    rw [published_of_grows (Supply.askSchema_work id).silent] at hx
    rcases mem_published_publish hx with hx | ⟨-, rfl⟩
    · exact absurd e (none x hx)
    · rfl
  | @refuse front r back due e place =>
    have hr := mem_of_place place
    exact (without place).publish (o.positive _ (mem_pending_of_run hr))
      (fun x hx e => ⟨h.runs r hr x hx e, rfl⟩) (o.run_alone place)
  | @finish front r back g place =>
    have hr := mem_of_place place
    exact (without place).publish (o.positive _ (mem_pending_of_run hr))
      (fun x hx e => ⟨h.runs r hr x hx e, rfl⟩) (o.run_alone place)

/-! ### Steps -/

theorem Disciplined.startRun (h : s.Disciplined) (b : Nat) (requested : Option String) :
    (s.startRun b requested).Disciplined := by
  have lasts := startRun_lasts s b requested
  refine ⟨h.ordered, fun b' x hx => ?_, fun b' hb => ?_, fun l hl x hx => ?_, h.runs⟩
  · exact Nat.le_trans (h.generation_le b' x hx) (lasts.generation_le b')
  · rw [startRun_state]
    exact h.shows b' (by rwa [startRun_length] at hb)
  · rcases List.mem_append.1 hl with hl | hl
    · exact h.launches l hl x hx
    · rw [List.mem_singleton.1 hl] at hx ⊢
      have := h.generation_le b x hx
      show x.generation ≠ (s.binding b).generation + 1
      omega

theorem Disciplined.close (h : s.Disciplined) (b : Nat) (isDropped : Bool) :
    (s.close b isDropped).Disciplined := by
  have lasts := close_lasts s b isDropped
  refine ⟨h.ordered, fun b' x hx => ?_, fun b' hb => ?_, h.launches, h.runs⟩
  · exact Nat.le_trans (h.generation_le b' x hx) (lasts.generation_le b')
  · rw [close_state]
    exact h.shows b' (by rwa [close_length] at hb)

theorem written_silent (now : Nat) (operation : Cache.Operation) :
    ∀ d ∈ written now operation, d.IsSilent := by
  cases operation <;> simp [written, Deed.IsSilent, Deed.shown?]

theorem Disciplined.step (h : s.Disciplined) (o : s.Orderly) (x : Step) : (s.step x).1.Disciplined :=
  o.step_induction x (fun o m h => h.move o m) (fun _ h => ⟨h.1, h.2, h.3, h.4, h.5⟩)
    (fun op h => h.of_silent (published_of_grows ⟨_, rfl, written_silent _ op⟩) rfl
      (fun _ hl => hl) fun _ hr => mem_pending_of_run hr)
    (fun b r _ h => h.startRun b r) (fun b d h => h.close b d) h

theorem Disciplined.start (cache : Cache) (source : Source) (n : Nat) (luck : Luck) :
    (start cache source n luck).Disciplined := by
  have none (b : Nat) : (Session.start cache source n luck).published b = [] := rfl
  refine ⟨fun b => ?_, fun b => ?_, fun b hb => ?_, ?_, ?_⟩
  · rw [none]; exact .nil
  · simp [none]
  · rw [none]
    have hb : b < n := by simpa [Session.start] using hb
    simp [binding, Session.start, hb]
  · simp [Session.start]
  · simp [Session.start]

theorem disciplined_steps (cache : Cache) (source : Source) (n : Nat) (luck : Luck) (list : List Step) :
    ((start cache source n luck).steps list).Disciplined :=
  orderly_induction (fun x o h => h.step o x) (.start cache source n luck) list

/-! ### Loading states -/

/-- The run publishes a loading state. -/
def Deed.IsLoading (b g : Nat) : Deed → Prop
  | .published b' st => b' = b ∧ st.generation = g ∧ st.loading = true
  | _ => False

/-- The run looks its schema up and finds none that is valid. -/
def Deed.IsMiss (b g : Nat) : Deed → Prop
  | .lookedUp a _ found => a = .run b g ∧ found = false
  | _ => False

theorem Deed.IsLoading.agent_eq {d : Deed} (h : d.IsLoading b g) : d.agent = .run b g := by
  cases d with
  | published b' st => rw [Deed.agent, h.1, h.2.1]
  | _ => exact h.elim

theorem Deed.IsMiss.agent_eq {d : Deed} (h : d.IsMiss b g) : d.agent = .run b g := by
  cases d with
  | lookedUp a id found => exact h.1
  | _ => exact h.elim

theorem exists_isLoading {deeds : List Deed} : (∃ d ∈ deeds, d.IsLoading b g) ↔
    ∃ st, .published b st ∈ deeds ∧ st.generation = g ∧ st.loading = true := by
  constructor
  · rintro ⟨d, hd, loading⟩
    cases d with
    | published b' st => exact ⟨st, loading.1 ▸ hd, loading.2⟩
    | _ => exact loading.elim
  · rintro ⟨st, hd, loading⟩
    exact ⟨_, hd, rfl, loading⟩

theorem exists_isMiss {deeds : List Deed} :
    (∃ d ∈ deeds, d.IsMiss b g) ↔ ∃ id, .lookedUp (.run b g) id false ∈ deeds := by
  constructor
  · rintro ⟨d, hd, miss⟩
    cases d with
    | lookedUp a id found => exact ⟨id, by rwa [← miss.1, ← miss.2]⟩
    | _ => exact miss.elim
  · rintro ⟨id, hd⟩
    exact ⟨_, hd, rfl, rfl⟩

/-- The history grew by deeds among which those who publish a loading state are those who find no
valid schema and are the latest of their bindings. -/
def Loads (s : Session) (old new : List Deed) : Prop :=
  ∃ more, new = old ++ more ∧ ∀ b g, (∃ d ∈ more, d.IsLoading b g) ↔
    (∃ d ∈ more, d.IsMiss b g) ∧ (s.binding b).isCurrent g = true

namespace Loads
variable {h₁ h₂ h₃ : List Deed}

/-- Deeds of neither kind. -/
theorem of_grows {P : Deed → Prop} (grows : Grows P h₁ h₂)
    (neither : ∀ d, P d → ∀ b g, ¬ d.IsLoading b g ∧ ¬ d.IsMiss b g) : s.Loads h₁ h₂ := by
  obtain ⟨more, e, p⟩ := grows
  refine ⟨more, e, fun b g => ⟨?_, ?_⟩⟩
  · rintro ⟨d, hd, loading⟩
    exact ((neither d (p d hd) b g).1 loading).elim
  · rintro ⟨⟨d, hd, miss⟩, -⟩
    exact ((neither d (p d hd) b g).2 miss).elim

theorem refl (s : Session) (h : List Deed) : s.Loads h h := of_grows (.refl (fun _ => False) h) (by simp)

theorem trans (a : s.Loads h₁ h₂) (b : s.Loads h₂ h₃) : s.Loads h₁ h₃ := by
  obtain ⟨m₁, rfl, p₁⟩ := a
  obtain ⟨m₂, rfl, p₂⟩ := b
  refine ⟨m₁ ++ m₂, List.append_assoc .., fun b g => ?_⟩
  simp only [List.mem_append, or_and_right, exists_or]
  exact or_congr (p₁ b g) (p₂ b g)

theorem of_control (c : SameControl s t) (h : t.Loads h₁ h₂) : s.Loads h₁ h₂ := by
  obtain ⟨more, e, p⟩ := h
  refine ⟨more, e, fun b g => ?_⟩
  rw [← c.isCurrent]
  exact p b g

theorem work {a : Agent} {u v : Supply} (w : u.Work a v) : s.Loads u.history v.history :=
  of_grows w.history fun d hd _ _ => by
    cases d <;> first | exact ⟨id, id⟩ | exact hd.elim

theorem foreground (grows : Grows (·.agent = .foreground) h₁ h₂) : s.Loads h₁ h₂ :=
  of_grows grows fun _ mine _ _ => ⟨fun h => (nomatch mine.symm.trans h.agent_eq),
    fun h => (nomatch mine.symm.trans h.agent_eq)⟩

theorem settled (t : Session) (b g : Nat) {update : State → State}
    (settled : ∀ st, (update st).loading = false) :
    s.Loads t.history (t.publish b g update).history := by
  rw [publish_history]
  split
  · refine of_grows (.single (P := fun d => d = .published b (t.shown b g update)) rfl) ?_
    rintro _ rfl b' g'
    refine ⟨fun h => ?_, id⟩
    have loading : (update (t.binding b).state).loading = true := h.2.2
    rw [settled] at loading
    cases loading
  · rw [List.append_nil]
    exact refl s _

end Loads

theorem Move.loads (m : Move s t) : s.Loads s.history t.history := by
  cases m with
  | pass | forget => exact .refl ..
  | clear | refuse | finish => exact .settled _ _ _ fun _ => rfl
  | leave _ _ last => exact .work last.work
  | @skip l rest id _ _ overtaken =>
    refine ⟨_, rfl, fun b g => ⟨?_, ?_⟩⟩
    · rintro ⟨d, hd, loading⟩
      rw [List.mem_singleton.1 hd] at loading
      exact loading.elim
    · rintro ⟨⟨d, hd, miss⟩, current⟩
      rw [List.mem_singleton.1 hd] at miss
      cases miss.1
      rw [overtaken] at current
      cases current
  | @slip l rest id schema _ _ _ found | @hit l rest id _ schema _ _ _ found =>
    refine .trans ?_ (.work (Supply.gather_work schema))
    refine .of_grows (.single (P := fun d => d = .lookedUp l.agent id true) ?_) ?_
    · show Deed.lookedUp l.agent id (s.cache.schema? s.now id).isSome = _
      rw [found]; rfl
    · rintro _ rfl b g
      exact ⟨fun h => h, fun h => Bool.noConfusion h.2⟩
  | @miss l rest id _ _ current missing =>
    refine .trans ?_ (.work (Supply.askSchema_work id))
    let u := { s with launches := rest }.look l.agent id
    let st := u.shown l.binding l.generation (·.toLoading id)
    refine ⟨[.lookedUp l.agent id false, .published l.binding st], ?_, fun b g => ?_⟩
    · show (u.publish l.binding l.generation (·.toLoading id)).history = _
      have history : u.history = s.history ++ [.lookedUp l.agent id false] := by
        show s.history ++ [.lookedUp l.agent id (s.cache.schema? s.now id).isSome] = _
        rw [missing]; rfl
      have current : (u.binding l.binding).isCurrent l.generation = true := current
      rw [publish_history, history, if_pos current, List.append_assoc]
      rfl
    · simp only [List.mem_cons, List.not_mem_nil, or_false, exists_eq_or_imp, exists_eq_left]
      constructor
      · rintro (h | ⟨rfl, rfl, -⟩)
        · exact h.elim
        · exact ⟨.inl ⟨rfl, rfl⟩, current⟩
      · rintro ⟨⟨mine, -⟩ | h, -⟩
        · cases mine
          exact .inr ⟨rfl, rfl, rfl⟩
        · exact h.elim
  | lookUp id => exact .foreground (.single rfl)
  | call id => exact .work (Supply.askSchema_work id)
  | receive => exact .work (Supply.receiveSchema_work ..)
  | gather => exact .work (Supply.gather_work _)
  | arrive | take => exact .work Supply.arrive_work
  | @obtain front r back due schema =>
    exact .trans (.work (Supply.receiveSchema_work (a := r.agent) r.strategy (.ok schema)))
      (.work (Supply.gather_work _))

theorem Moves.loads (m : Moves s t) : s.Loads s.history t.history := by
  have both : SameControl s t ∧ s.Loads s.history t.history :=
    m.induction (I := fun t => SameControl s t ∧ s.Loads s.history t.history)
      (fun m h => ⟨h.1.trans m.control, h.2.trans (m.loads.of_control h.1)⟩)
      ⟨.of_bindings rfl, .refl ..⟩
  exact both.2

theorem step_loads (s : Session) (x : Step) : s.Loads s.history (s.step x).1.history := by
  rcases step_supply s x with ⟨t, moves, e⟩ | ⟨operation, rfl, e⟩ | ⟨source, e⟩ <;> rw [e]
  · exact moves.loads
  · exact .foreground ⟨_, rfl, written_foreground _ operation⟩
  · exact .refl ..

/-! ### The whole of it -/

/-- How many of the steps start a run of the binding. -/
def started (b : Nat) : Session → List Step → Nat
  | _, [] => 0
  | s, x :: rest => (if x.starts b s then 1 else 0) + started b (s.step x).1 rest

theorem steps_generation (list : List Step) (hb : b < s.bindings.length) :
    ((s.steps list).binding b).generation = (s.binding b).generation + started b s list := by
  induction list generalizing s with
  | nil => rfl
  | cons x rest ih =>
    show (((s.step x).1.steps rest).binding b).generation = _
    rw [ih (by rwa [step_length]), step_generation x hb, started, Nat.add_assoc]

/-- The states that a binding publishes are those of its runs in their order; each run publishes at
most a loading state and, after it, a settled one; the last state is what the binding shows. The
latest run is numbered by the steps that started one. In each step a run publishes only while it is
the latest of its binding, which is not shut down, and it publishes a loading state exactly when it
finds no valid schema in the cache. To ask for the same strategy again changes nothing. -/
theorem published_disciplined (ttl : Nat) (source : Source) (n : Nat) (luck : Luck) (list : List Step)
    (b : Fin n) :
    let s := (start { ttl } source n luck).steps list
    (s.published b).Pairwise State.Precedes ∧
    (s.binding b).state = (s.published b).getLast?.getD {} ∧
    (s.binding b).generation = started b (start { ttl } source n luck) list ∧
    (∀ x, ∃ more, (s.step x).1.history = s.history ++ more ∧
      (∀ st, .published b st ∈ more → (s.binding b).isCurrent st.generation = true ∧
        ((s.step x).1.binding b).isCurrent st.generation = true) ∧
      ∀ g, (∃ st, .published b st ∈ more ∧ st.generation = g ∧ st.loading = true) ↔
        (∃ id, .lookedUp (.run b g) id false ∈ more) ∧ (s.binding b).isCurrent g = true) ∧
    ∀ requested, ((s.setStrategy b requested).2 = false ↔
        0 < (s.binding b).generation ∧ (s.binding b).requested = requested) ∧
      ((s.setStrategy b requested).2 = false → (s.step (.setStrategy b requested)).1 = s) := by
  intro s
  have d : s.Disciplined := disciplined_steps _ source n luck list
  have first : (b : Nat) < (start { ttl } source n luck).bindings.length := lt_steps_length _ source luck b []
  refine ⟨d.ordered b, d.shows b (lt_steps_length _ source luck b list), ?_, fun x => ?_, fun requested =>
    ⟨⟨fun h => (setStrategy_of_unchanged h).2, fun h => ?_⟩, fun h => (setStrategy_of_unchanged h).1⟩⟩
  · rw [steps_generation list first]
    simp [start, binding]
  · obtain ⟨more, e, loads⟩ := step_loads s x
    obtain ⟨more', e', allowed⟩ := step_history s x
    obtain rfl : more = more' := List.append_cancel_left (e.symm.trans e')
    refine ⟨more, e, fun st hd => ?_, fun g => ?_⟩
    · obtain ⟨before, after⟩ := allowed _ hd
      exact ⟨(before b _ rfl).resolve_left (fun h => h), (after b _ rfl).resolve_left (fun h => h)⟩
    · have loads := loads b g
      rw [← exists_isLoading, ← exists_isMiss]
      exact loads
  · unfold setStrategy
    simp [h]

end StrategyForm.Session
