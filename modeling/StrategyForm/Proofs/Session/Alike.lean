import StrategyForm.Proofs.Session.Move

/-!
# What happens does not depend on the past

Two sessions are alike when they differ in their histories and in the counters of their caches only.
Nothing reads either, so whatever happens to one happens to the other, and they stay alike
(`Alike.passUntil`). This tells what waiting for a reply does apart from what the reply does.
-/

namespace StrategyForm

/-- The caches differ in their counters only. -/
structure Cache.Alike (c d : Cache) : Prop where
  ttl : d.ttl = c.ttl
  schemas : d.schemas = c.schemas
  fragments : d.fragments = c.fragments

namespace Cache.Alike
variable {c d : Cache}

theorem refl (c : Cache) : Alike c c := ⟨rfl, rfl, rfl⟩

theorem trans {e : Cache} (h : c.Alike d) (h' : d.Alike e) : c.Alike e :=
  ⟨h'.ttl.trans h.ttl, h'.schemas.trans h.schemas, h'.fragments.trans h.fragments⟩

theorem symm (h : c.Alike d) : d.Alike c := ⟨h.ttl.symm, h.schemas.symm, h.fragments.symm⟩

theorem count (c : Cache) (hit : Bool) : c.Alike (c.count hit) := by cases hit <;> exact ⟨rfl, rfl, rfl⟩

theorem schema? (h : c.Alike d) (now : Nat) (id : String) : d.schema? now id = c.schema? now id := by
  simp only [Cache.schema?, h.ttl, h.schemas]

theorem fragment? (h : c.Alike d) (now : Nat) (id : String) :
    d.fragment? now id = c.fragment? now id := by
  simp only [Cache.fragment?, h.ttl, h.fragments]

theorem divide {x y : Cache × Partition} (h : x.1.Alike y.1) (same : y.2 = x.2) (now : Nat)
    (id : String) : (Cache.divide now x id).1.Alike (Cache.divide now y id).1 ∧
      (Cache.divide now y id).2 = (Cache.divide now x id).2 := by
  obtain ⟨c, p⟩ := x
  obtain ⟨d, q⟩ := y
  have same : q = p := same
  subst same
  have h : c.Alike d := h
  have counted (hit : Bool) : (c.count hit).Alike (d.count hit) :=
    ((count c hit).symm.trans h).trans (count d hit)
  simp only [Cache.divide, getFragment, h.fragment?]
  split
  · exact ⟨h, rfl⟩
  · cases c.fragment? now id with
    | none => exact ⟨counted false, rfl⟩
    | some f => exact ⟨counted true, rfl⟩

theorem partition (h : c.Alike d) (now : Nat) (ids : List String) :
    (c.partition now ids).1.Alike (d.partition now ids).1 ∧
      (d.partition now ids).2 = (c.partition now ids).2 := by
  have fold (ids : List String) (x y : Cache × Partition) (h : x.1.Alike y.1) (same : y.2 = x.2) :
      (ids.foldl (Cache.divide now) x).1.Alike (ids.foldl (Cache.divide now) y).1 ∧
        (ids.foldl (Cache.divide now) y).2 = (ids.foldl (Cache.divide now) x).2 := by
    induction ids generalizing x y with
    | nil => exact ⟨h, same⟩
    | cons id rest ih =>
      obtain ⟨h', same'⟩ := h.divide same now id
      exact ih _ _ h' same'
  exact fold ids (c, {}) (d, {}) h rfl

end Cache.Alike

namespace Session

/-- The supplies differ in their histories and in the counters of their caches only. -/
structure Supply.Alike (u v : Supply) : Prop where
  now : v.now = u.now
  source : v.source = u.source
  cache : u.cache.Alike v.cache

namespace Supply.Alike
variable {u v w : Supply} {a a' : Agent} {g : Gathering}

theorem refl (u : Supply) : Alike u u := ⟨rfl, rfl, .refl _⟩

theorem trans (h : u.Alike v) (h' : v.Alike w) : u.Alike w :=
  ⟨h'.now.trans h.now, h'.source.trans h.source, h.cache.trans h'.cache⟩

theorem symm (h : u.Alike v) : v.Alike u := ⟨h.now.symm, h.source.symm, h.cache.symm⟩

theorem record (u : Supply) (d : Deed) : u.Alike (u.record d) := ⟨rfl, rfl, .refl _⟩

theorem lookUpSchema (u : Supply) (a : Agent) (id : String) : u.Alike (u.lookUpSchema a id).1 :=
  ⟨rfl, rfl, .count ..⟩

theorem both (h : u.Alike v) {u' v' : Supply} (hu : u.Alike u') (hv : v.Alike v') : u'.Alike v' :=
  (hu.symm.trans h).trans hv

theorem receiveSchema (h : u.Alike v) (id : String) (result : Except Fault Schema) :
    (u.receiveSchema a id result).1.Alike (v.receiveSchema a' id result).1 := by
  cases result with
  | error e => exact h
  | ok schema =>
    have put : (u.cache.putSchema u.now { schema with id }).Alike
        (v.cache.putSchema v.now { schema with id }) := by
      refine ⟨h.cache.ttl, ?_, h.cache.fragments⟩
      simp only [Cache.putSchema, h.cache.schemas, h.now]
    exact ⟨h.now, h.source, put⟩

theorem receiveFragment (h : u.Alike v) (id : String) (result : Except Fault Fragment) :
    (u.receiveFragment a g id result).1.Alike (v.receiveFragment a' g id result).1 ∧
      (v.receiveFragment a' g id result).2 = (u.receiveFragment a g id result).2 := by
  refine ⟨?_, rfl⟩
  cases result with
  | error e => exact h
  | ok f =>
    have put : (u.cache.putFragment u.now id f).Alike (v.cache.putFragment v.now id f) := by
      refine ⟨h.cache.ttl, h.cache.schemas, ?_⟩
      simp only [Cache.putFragment, h.cache.fragments, h.now]
    exact ⟨h.now, h.source, put⟩

theorem askFragment {x y : Supply × Gathering} (h : x.1.Alike y.1) (same : y.2 = x.2) (id : String) :
    (Supply.askFragment a x id).1.Alike (Supply.askFragment a y id).1 ∧
      (Supply.askFragment a y id).2 = (Supply.askFragment a x id).2 := by
  obtain ⟨u, g⟩ := x
  obtain ⟨v, g'⟩ := y
  have same : g' = g := same
  subst same
  have h : u.Alike v := h
  have called : (u.record (.called a (.fragment id) (u.now + (u.source.fragment id).delay))).Alike
      (v.record (.called a (.fragment id) (v.now + (v.source.fragment id).delay))) :=
    h.both (.record ..) (.record ..)
  simp only [Supply.askFragment, h.source, h.now] at called ⊢
  split
  · exact called.receiveFragment id _
  · refine ⟨called, ?_⟩
    simp only [record_now, h.now]

theorem gather (h : u.Alike v) (a : Agent) (schema : Schema) :
    (u.gather a schema).1.Alike (v.gather a schema).1 ∧
      (v.gather a schema).2 = (u.gather a schema).2 := by
  have fold (ids : List String) (x y : Supply × Gathering) (h : x.1.Alike y.1) (same : y.2 = x.2) :
      (ids.foldl (Supply.askFragment a) x).1.Alike (ids.foldl (Supply.askFragment a) y).1 ∧
        (ids.foldl (Supply.askFragment a) y).2 = (ids.foldl (Supply.askFragment a) x).2 := by
    induction ids generalizing x y with
    | nil => exact ⟨h, same⟩
    | cons id rest ih =>
      obtain ⟨h', same'⟩ := h.askFragment same id
      exact ih _ _ h' same'
  obtain ⟨cache, parts⟩ := h.cache.partition u.now schema.fragmentIds
  simp only [Supply.gather, h.now, parts]
  exact fold _ _ _ ⟨rfl, h.source, cache⟩ rfl

theorem arrive (h : u.Alike v) (a : Agent) (g : Gathering) :
    (u.arrive a g).1.Alike (v.arrive a g).1 ∧ (v.arrive a g).2 = (u.arrive a g).2 := by
  have fold (list : List Arrival) (x y : Supply × Gathering) (h : x.1.Alike y.1) (same : y.2 = x.2) :
      (list.foldl (fun p z => p.1.receiveFragment a p.2 z.id z.result) x).1.Alike
        (list.foldl (fun p z => p.1.receiveFragment a p.2 z.id z.result) y).1 ∧
      (list.foldl (fun p z => p.1.receiveFragment a p.2 z.id z.result) y).2 =
        (list.foldl (fun p z => p.1.receiveFragment a p.2 z.id z.result) x).2 := by
    induction list generalizing x y with
    | nil => exact ⟨h, same⟩
    | cons z rest ih =>
      obtain ⟨u, g⟩ := x
      obtain ⟨v, g'⟩ := y
      have same : g' = g := same
      subst same
      exact ih _ _ (h.receiveFragment z.id z.result).1 rfl
  simp only [Supply.arrive, h.now]
  exact fold _ _ _ h rfl

end Supply.Alike

/-- The sessions differ in their histories and in the counters of their caches only. -/
structure Alike (s t : Session) : Prop where
  supply : s.toSupply.Alike t.toSupply
  bindings : t.bindings = s.bindings
  launches : t.launches = s.launches
  runs : t.runs = s.runs
  luck : t.luck = s.luck

namespace Alike
variable {s t : Session}

theorem refl (s : Session) : Alike s s := ⟨.refl _, rfl, rfl, rfl, rfl⟩

theorem trans {u : Session} (h : s.Alike t) (h' : t.Alike u) : s.Alike u :=
  ⟨h.supply.trans h'.supply, h'.bindings.trans h.bindings, h'.launches.trans h.launches,
    h'.runs.trans h.runs, h'.luck.trans h.luck⟩

theorem isCurrent (h : s.Alike t) (b g : Nat) :
    (t.binding b).isCurrent g = (s.binding b).isCurrent g := by
  rw [binding_congr h.bindings]

theorem of_supply (h : s.Alike t) {u v : Supply} (alike : u.Alike v) :
    Alike { s with toSupply := u } { t with toSupply := v } :=
  ⟨alike, h.bindings, h.launches, h.runs, h.luck⟩

theorem publish (h : s.Alike t) (b g : Nat) (update : State → State) :
    (s.publish b g update).Alike (t.publish b g update) := by
  have same : t.binding b = s.binding b := binding_congr h.bindings b
  cases current : (s.binding b).isCurrent g with
  | false => rwa [publish_of_not_current _ _ _ _ current, publish_of_not_current _ _ _ _ (same ▸ current)]
  | true =>
    rw [publish_of_current _ _ _ _ current, publish_of_current _ _ _ _ (same ▸ current)]
    have shown : t.shown b g update = s.shown b g update := by simp only [Session.shown, same]
    have bindings : t.bindings.set b { t.binding b with state := t.shown b g update } =
        s.bindings.set b { s.binding b with state := s.shown b g update } := by
      rw [h.bindings, same, shown]
    exact ⟨⟨h.supply.now, h.supply.source, h.supply.cache⟩, bindings, h.launches, h.runs, h.luck⟩

theorem wait (h : s.Alike t) (r : Run) : (s.wait r).Alike (t.wait r) := by
  have runs : t.runs ++ [r] = s.runs ++ [r] := by rw [h.runs]
  exact ⟨h.supply, h.bindings, h.launches, runs, h.luck⟩

theorem look (s : Session) (a : Agent) (id : String) : s.Alike (s.look a id) :=
  ⟨.lookUpSchema .., rfl, rfl, rfl, rfl⟩

theorem schema? (h : s.Alike t) (id : String) :
    t.cache.schema? t.now id = s.cache.schema? s.now id := by
  rw [h.supply.now, h.supply.cache.schema?]

theorem runWith (h : s.Alike t) (r : Run) (schema : Schema) :
    (s.runWith r schema).Alike (t.runWith r schema) := by
  obtain ⟨gathered, same⟩ := h.supply.gather r.agent schema
  have gathered := h.of_supply gathered
  rw [runWith_eq, runWith_eq, same]
  split
  · exact gathered.publish ..
  · exact gathered.wait _

theorem runReceive (h : s.Alike t) (r : Run) (result : Except Fault Schema) :
    (s.runReceive r result).Alike (t.runReceive r result) := by
  cases result with
  | error e => exact h.publish r.binding r.generation (·.toFailed r.strategy e)
  | ok schema =>
    have received : (s.toSupply.receiveSchema r.agent r.strategy (.ok schema)).1.Alike
        (t.toSupply.receiveSchema r.agent r.strategy (.ok schema)).1 :=
      h.supply.receiveSchema r.strategy (.ok schema)
    exact (h.of_supply received).runWith ..

theorem glance (h : s.Alike t) (a : Agent) (schema : Schema) :
    (s.glance a schema).Alike (t.glance a schema) := by
  simp only [Session.glance, h.luck]
  split
  · exact h.of_supply (h.supply.gather a schema).1
  · exact h

theorem abandon (h : s.Alike t) (r : Run) : (s.abandon r).Alike (t.abandon r) := by
  unfold Session.abandon
  cases r.stage with
  | schema due result =>
    simp only [h.luck, h.supply.now]
    split
    · cases result with
      | error e => exact h
      | ok schema => exact (h.of_supply (h.supply.receiveSchema r.strategy (.ok schema))).glance ..
    · exact h
  | fragments g =>
    simp only [h.luck]
    split
    · exact h.of_supply (h.supply.arrive r.agent g).1
    · exact h

theorem launch (h : s.Alike t) (l : Launch) : (s.launch l).Alike (t.launch l) := by
  cases strategy : l.strategy with
  | none =>
    simp only [Session.launch, strategy]
    exact h.publish ..
  | some id =>
    have looked : (s.look l.agent id).Alike (t.look l.agent id) :=
      h.of_supply (h.supply.both (.lookUpSchema ..) (.lookUpSchema ..))
    cases current : (s.binding l.binding).isCurrent l.generation with
    | false =>
      have current' := (h.isCurrent l.binding l.generation).trans current
      cases found : s.cache.schema? s.now id with
      | some schema =>
        rw [launch_of_overtaken_found strategy current found,
          launch_of_overtaken_found strategy current' ((h.schema? id).trans found)]
        exact looked.glance ..
      | none =>
        rw [launch_of_overtaken strategy current found,
          launch_of_overtaken strategy current' ((h.schema? id).trans found)]
        exact looked
    | true =>
      have current' := (h.isCurrent l.binding l.generation).trans current
      cases found : s.cache.schema? s.now id with
      | some schema =>
        rw [launch_of_found strategy current found,
          launch_of_found strategy current' ((h.schema? id).trans found)]
        exact looked.runWith ..
      | none =>
        rw [launch_of_missing strategy current found,
          launch_of_missing strategy current' ((h.schema? id).trans found)]
        have shown := looked.publish l.binding l.generation (·.toLoading id)
        have called : ((s.look l.agent id).call l id).Alike ((t.look l.agent id).call l id) :=
          shown.of_supply (shown.supply.both (.record ..) (.record ..))
        have caller : t.caller l id = s.caller l id := by
          simp only [Session.caller, h.supply.now, h.supply.source]
        simp only [h.supply.source, caller]
        split
        · exact called.runReceive ..
        · exact called.wait _

theorem resume (h : s.Alike t) (list : List Run) : (s.resume list).Alike (t.resume list) := by
  induction list generalizing s t with
  | nil => exact h
  | cons r rest ih =>
    have keep {s t : Session} (h : s.Alike t) (r : Run) :
        Alike { s.resume rest with runs := r :: (s.resume rest).runs }
          { t.resume rest with runs := r :: (t.resume rest).runs } := by
      have rest := ih h
      exact ⟨rest.supply, rest.bindings, rest.launches, congrArg (r :: ·) rest.runs, rest.luck⟩
    simp only [Session.resume, h.isCurrent]
    split
    · cases r.stage with
      | schema due result =>
        simp only [h.supply.now]
        split
        · exact ih (h.runReceive r result)
        · exact keep h r
      | fragments g =>
        obtain ⟨arrived, same⟩ := h.supply.arrive r.agent g
        have arrived : (s.fetch (·.arrive r.agent g)).1.Alike (t.fetch (·.arrive r.agent g)).1 :=
          h.of_supply arrived
        have same : (t.fetch (·.arrive r.agent g)).2 = (s.fetch (·.arrive r.agent g)).2 := same
        simp only [h.supply.now, same]
        split
        · split
          · exact ih (arrived.publish r.binding r.generation _)
          · exact keep arrived _
        · exact keep h r
    · exact ih (h.abandon r)

theorem instant (h : s.Alike t) : s.instant.Alike t.instant := by
  have fold (list : List Launch) {s t : Session} (h : s.Alike t) :
      (list.foldl Session.launch s).Alike (list.foldl Session.launch t) := by
    induction list generalizing s t with
    | nil => exact h
    | cons l rest ih => exact ih (h.launch l)
  have cleared : Alike { s with runs := [] } { t with runs := [] } :=
    ⟨h.supply, h.bindings, h.launches, rfl, h.luck⟩
  have resumed := cleared.resume s.runs
  have idle : Alike { Session.resume { s with runs := [] } s.runs with launches := [] }
      { Session.resume { t with runs := [] } s.runs with launches := [] } :=
    ⟨resumed.supply, resumed.bindings, rfl, resumed.runs, resumed.luck⟩
  simp only [Session.instant, h.runs, resumed.launches]
  exact fold _ idle

theorem runUntil (h : s.Alike t) (time stops : Nat) :
    (s.runUntil time stops).Alike (t.runUntil time stops) := by
  induction stops generalizing s t with
  | zero => exact h
  | succ stops ih =>
    have next : t.next? = s.next? := by simp only [Session.next?, h.runs]
    simp only [Session.runUntil, next]
    split
    · split
      · rename_i due _ _
        rw [h.supply.now]
        exact ih (instant ⟨⟨rfl, h.supply.source, h.supply.cache⟩, h.bindings, h.launches, h.runs, h.luck⟩)
      · exact h
    · exact h

/-- Waiting does the same to both. -/
theorem passUntil (h : s.Alike t) (time : Nat) : (s.passUntil time).Alike (t.passUntil time) := by
  have run := h.instant.runUntil (time - 1) (time - s.now)
  simp only [Session.passUntil, h.supply.now, run.supply.now]
  exact ⟨⟨rfl, run.supply.source, run.supply.cache⟩, run.bindings, run.launches, run.runs, run.luck⟩

end Alike

end Session

end StrategyForm
