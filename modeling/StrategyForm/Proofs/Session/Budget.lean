import StrategyForm.Proofs.Cache.Past
import StrategyForm.Proofs.Session.Asked
import StrategyForm.Proofs.Session.OwnId
import StrategyForm.Proofs.Session.Truth

/-!
# What a resolution costs

Main statement (`calls_of_resolution`): to resolve a strategy costs a call for its schema unless the
cache has a valid one, and a call for each distinct fragment that is missing when the schema is at
hand. In a session without bindings, after a resolution that has asked for everything and was given
everything, to resolve the same strategy costs nothing until the schema's entry is as old as the time
to live.

The invariant behind the last part (`Stocked`) holds from that resolution on: as long as the schema's
entry is valid it stands in the cache, and so does a fragment entry that is no older for each of its
fragments. A resolution in between finds those valid, so it neither asks for them nor replaces them.
-/

namespace StrategyForm.Session

variable {s t : Session}

/-! ### Steps without bindings -/

/-- The step is none of a binding. -/
def Step.isUnbound : Step → Bool
  | .setStrategy .. | .refetch _ | .invalidateCache _ | .shutdown _ | .wait _ | .drop _ => false
  | _ => true

/-- The step resolves a strategy, lets time pass, or gives another source. -/
def Step.isResolution : Step → Bool
  | .resolve _ | .tick _ | .setSource .. => true
  | _ => false

theorem Quiet.step {x : Step} (unbound : x.isUnbound = true) (q : s.Quiet) : (s.step x).1.Quiet := by
  cases x with
  | tick | fetchFragments | buildSections | fetchSchema | resolve | refresh =>
    exact q.moves (step_moves (by trivial) s)
  | setSource | cache => exact ⟨q.launches, q.runs⟩
  | setStrategy | refetch | invalidateCache | shutdown | wait | drop => cases unbound

theorem Quiet.steps (list : List Step) (unbound : ∀ x ∈ list, x.isUnbound = true) (q : s.Quiet) :
    (s.steps list).Quiet := by
  induction list generalizing s with
  | nil => exact q
  | cons x rest ih =>
    have first := q.step (unbound x List.mem_cons_self)
    exact ih (fun y hy => unbound y (List.mem_cons_of_mem _ hy)) first

theorem Quiet.start (cache : Cache) (source : Source) (luck : Luck) :
    (start cache source 0 luck).Quiet := ⟨rfl, rfl⟩

theorem Quiet.tick (q : s.Quiet) (ms : Nat) : s.tick ms = { s with now := s.now + ms } := by
  have later : Quiet { s with now := max (s.now + ms) s.now } := ⟨q.launches, q.runs⟩
  rw [Session.tick, q.passUntil, later.instant, Nat.max_eq_left (Nat.le_add_right ..)]

theorem steps_ttl (list : List Step) (s : Session) : (s.steps list).cache.ttl = s.cache.ttl := by
  refine steps_induction (I := fun t => t.cache.ttl = s.cache.ttl) (fun {t} x h => ?_) rfl list
  exact step_induction (I := fun t => t.cache.ttl = s.cache.ttl) x (fun m h => m.ttl.trans h)
    (fun _ h => h) (fun _ h => (Cache.apply_ttl ..).trans h) (fun _ _ h => h) (fun _ _ h => h) h

/-! ### What gathering leaves alone -/

theorem fetchFragments_schema (s : Session) (schema : Schema) :
    (s.fetchFragments schema).2.schema = schema := by
  have h := fetchFragments_induction s schema (P := fun _ g => g.schema = schema)
    (fun _ _ _ same => Supply.arrive_schema.trans same) (Supply.gather_schema schema)
  exact h.1

theorem fetchFragments_schemas (q : s.Quiet) (schema : Schema) :
    (s.fetchFragments schema).1.cache.schemas = s.cache.schemas := by
  have h := q.fetchFragments_induction schema (P := fun u _ => u.cache.schemas = s.cache.schemas)
    (Supply.gather_schemas schema) fun _ _ _ _ _ same => Supply.arrive_schemas.trans same
  exact h.1

/-! ### Fragments that are not asked for -/

namespace Supply
variable {u : Supply} {a : Agent} {g : Gathering} {k : String}

theorem receiveFragment_other {id : String} (other : id ≠ k) (result : Except Fault Fragment) :
    (u.receiveFragment a g id result).1.cache.fragments.entries.get? k =
      u.cache.fragments.entries.get? k := by
  cases result with
  | error e => rfl
  | ok f => simp [receiveFragment, Cache.putFragment, Store.put, other]

theorem arrive_other (other : ∀ x ∈ g.arrivals, x.id ≠ k) :
    (u.arrive a g).1.cache.fragments.entries.get? k = u.cache.fragments.entries.get? k :=
  arrive_induction (P := fun x => x.1.cache.fragments.entries.get? k =
    u.cache.fragments.entries.get? k) rfl
    fun _ _ x hx _ h => (receiveFragment_other (other x hx) _).trans h

/-- A fragment that has a valid entry is not asked for. -/
theorem gather_other (valid : u.cache.fragments.Valid u.cache.ttl u.now k) (schema : Schema) :
    (u.gather a schema).1.cache.fragments.entries.get? k = u.cache.fragments.entries.get? k ∧
      ∀ x ∈ (u.gather a schema).2.arrivals, x.id ≠ k := by
  have parts := Cache.partition_spec u.cache u.now schema.fragmentIds
  have others : ∀ id ∈ (u.cache.partition u.now schema.fragmentIds).2.missing, id ≠ k := by
    rintro id mem rfl
    exact Store.not_valid_iff.2 ((parts.missing id).1 mem).2 valid
  unfold gather
  refine List.foldlRecOn (motive := fun x : Supply × Gathering =>
    x.1.cache.fragments.entries.get? k = u.cache.fragments.entries.get? k ∧
      ∀ y ∈ x.2.arrivals, y.id ≠ k) _ _ ?_ ?_
  · refine ⟨?_, by simp⟩
    show (u.cache.partition u.now schema.fragmentIds).1.fragments.entries.get? k = _
    rw [Cache.partition_fragments]
  · rintro ⟨v, g⟩ ⟨same, away⟩ id mem
    simp only [askFragment]
    split
    · exact ⟨(receiveFragment_other (others id mem) _).trans same, away⟩
    · refine ⟨same, fun y hy => ?_⟩
      rcases List.mem_append.1 hy with hy | hy
      · exact away y hy
      · rw [List.mem_singleton.1 hy]
        exact others id mem

end Supply

theorem fetchFragments_other (q : s.Quiet) {k : String}
    (valid : s.cache.fragments.Valid s.cache.ttl s.now k) (schema : Schema) :
    (s.fetchFragments schema).1.cache.fragments.entries.get? k =
      s.cache.fragments.entries.get? k := by
  have h := q.fetchFragments_induction schema
    (P := fun u g => u.cache.fragments.entries.get? k = s.cache.fragments.entries.get? k ∧
      ∀ x ∈ g.arrivals, x.id ≠ k) (Supply.gather_other valid schema) ?_
  · exact h.1.1
  · rintro u g due - - ⟨same, away⟩
    refine ⟨(Supply.arrive_other away).trans same, fun x hx => ?_⟩
    rw [Supply.arrive_arrivals] at hx
    exact away x (List.mem_filter.1 hx).1

/-! ### Fragments that are given -/

/-- As far as a fragment is known, it is the one that the source gives, and it has been stored since a
time. -/
structure Delivers (k : String) (f : Fragment) (since : Nat) (u : Supply) (g : Gathering) : Prop where
  given : (u.source.fragment k).result = .ok f
  later : since ≤ u.now
  known : ∀ o, g.outcomes.get? k = some o → o = .resolved f ∧
    ∃ time, since ≤ time ∧ u.cache.fragments.entries.get? k = some ⟨f, time⟩

namespace Delivers
variable {k : String} {f : Fragment} {since : Nat} {u : Supply} {a : Agent} {g : Gathering}

theorem receive (h : Delivers k f since u g) {id : String} {result : Except Fault Fragment}
    (reply : result = (u.source.fragment id).result) :
    Delivers k f since (u.receiveFragment a g id result).1 (u.receiveFragment a g id result).2 := by
  have work := Supply.receiveFragment_work (s := u) (a := a) (g := g) id result
  refine ⟨by rw [work.source]; exact h.given, by rw [work.now]; exact h.later, fun o ho => ?_⟩
  have ho : (g.outcomes.insert id (.ofResult result)).get? k = some o := ho
  rw [Keyed.get?_insert] at ho
  by_cases same : id = k
  · subst same
    rw [if_pos rfl, reply, h.given] at ho
    rw [reply, h.given]
    cases ho
    refine ⟨rfl, u.now, h.later, ?_⟩
    show (u.cache.fragments.put u.now id f).entries.get? id = _
    rw [Store.put, Keyed.get?_insert, if_pos rfl]
  · rw [if_neg same] at ho
    rw [Supply.receiveFragment_other same]
    exact h.known o ho

theorem gather (given : (u.source.fragment k).result = .ok f) (a : Agent) (schema : Schema)
    (missing : ¬ u.cache.fragments.Valid u.cache.ttl u.now k) :
    Delivers k f u.now (u.gather a schema).1 (u.gather a schema).2 := by
  refine Supply.gather_induction (P := fun x => Delivers k f u.now x.1 x.2) schema ?_ ?_
  · intro c p hp
    refine ⟨given, Nat.le_refl _, fun o ho => ?_⟩
    have parts := Cache.partition_spec u.cache u.now schema.fragmentIds
    rw [hp] at parts
    have unknown : p.cached.get? k = none := by
      have free : u.cache.fragment? u.now k = none := Store.not_valid_iff.1 missing
      rw [show p = (c, p).2 from rfl, parts.cached, free, ite_self]
    have ho : (p.cached.map Outcome.resolved).get? k = some o := ho
    rw [Keyed.get?_map, unknown] at ho
    cases ho
  · rintro ⟨v, g⟩ id - h
    have recorded : Delivers k f u.now (v.record (.called a (.fragment id)
        (v.now + (v.source.fragment id).delay))) g := ⟨h.given, h.later, h.known⟩
    simp only [Supply.askFragment]
    split
    · exact recorded.receive rfl
    · exact ⟨recorded.given, recorded.later, recorded.known⟩

theorem arrive (h : Delivers k f since u g) (reply : g.IsFrom u.source) (a : Agent) :
    Delivers k f since (u.arrive a g).1 (u.arrive a g).2 := by
  have both := Supply.arrive_induction (s := u) (a := a) (g := g)
    (P := fun x => x.1.source = u.source ∧ Delivers k f since x.1 x.2) ?_ ?_
  · exact both.2
  · exact ⟨rfl, h.given, h.later, h.known⟩
  · rintro v g' x hx - ⟨source, hv⟩
    refine ⟨(Supply.receiveFragment_work ..).source.trans source, hv.receive ?_⟩
    rw [source]
    exact reply x hx

end Delivers

/-- A fragment that is missing and that the source gives is known in the end, and stored. -/
theorem fetchFragments_given (q : s.Quiet) {schema : Schema} {k : String} {f : Fragment}
    (mem : k ∈ schema.fragmentIds) (given : (s.source.fragment k).result = .ok f)
    (missing : ¬ s.cache.fragments.Valid s.cache.ttl s.now k) :
    (s.fetchFragments schema).2.outcomes.get? k = some (.resolved f) ∧
      ∃ time, s.now ≤ time ∧
        (s.fetchFragments schema).1.cache.fragments.entries.get? k = some ⟨f, time⟩ := by
  have h := q.fetchFragments_induction schema
    (P := fun u g => g.IsFrom u.source ∧ g.Has k ∧ Delivers k f s.now u g) ?_ ?_
  · obtain ⟨⟨-, has, delivers⟩, complete⟩ := h
    rcases has with ⟨o, ho⟩ | ⟨x, hx, -⟩
    · obtain ⟨rfl, stored⟩ := delivers.known o ho
      exact ⟨ho, stored⟩
    · rw [complete] at hx
      cases hx
  · have source : (s.toSupply.gather .foreground schema).1.source = s.source :=
      (Supply.gather_work schema).source
    refine ⟨?_, Supply.gather_has schema k mem, Delivers.gather given .foreground schema missing⟩
    rw [source]
    exact Supply.gather_isFrom schema
  · rintro u g due - waits ⟨reply, has, delivers⟩
    have later : Delivers k f s.now { u with now := due } g :=
      ⟨delivers.given, Nat.le_trans delivers.later (Nat.le_of_lt waits), delivers.known⟩
    have source : (Supply.arrive { u with now := due } .foreground g).1.source = u.source :=
      Supply.arrive_work.source
    refine ⟨?_, Supply.arrive_has has, later.arrive reply .foreground⟩
    rw [source]
    exact Supply.arrive_isFrom reply

/-! ### Resolutions that repeat one -/

/-- The source has given a schema at a time and all its fragments since, and nothing of it is replaced
as long as the schema's entry is valid. -/
structure Stocked (source : Source) (schema : Schema) (since : Nat) (s : Session) : Prop where
  quiet : s.Quiet
  kept : s.now - since < s.cache.ttl →
    s.cache.schemas.entries.get? schema.id = some ⟨schema, since⟩ ∧
    ∀ k ∈ schema.fragmentIds, ∃ f time, (source.fragment k).result = .ok f ∧ since ≤ time ∧
      s.cache.fragments.entries.get? k = some ⟨f, time⟩

namespace Stocked
variable {source : Source} {schema : Schema} {since : Nat}

theorem valid (h : s.Stocked source schema since) (young : s.now - since < s.cache.ttl) {k : String}
    (mem : k ∈ schema.fragmentIds) : s.cache.fragments.Valid s.cache.ttl s.now k := by
  obtain ⟨f, time, -, later, stored⟩ := (h.kept young).2 k mem
  refine ⟨_, stored, ?_⟩
  show s.now - time < s.cache.ttl
  omega

theorem found (h : s.Stocked source schema since) (young : s.now - since < s.cache.ttl) :
    s.cache.schema? s.now schema.id = some schema := by
  simp [Cache.schema?, Store.get?, (h.kept young).1, Option.filter, Store.isFresh, young]

/-- To fetch fragments replaces none that is valid. -/
theorem fetchFragments (h : s.Stocked source schema since) (other : Schema) :
    (s.fetchFragments other).1.Stocked source schema since := by
  have moves := fetchFragments_moves s other
  refine ⟨h.quiet.moves moves, fun young => ?_⟩
  have young : s.now - since < s.cache.ttl := by
    have := moves.now_le
    rw [moves.ttl] at young
    omega
  obtain ⟨stored, fragments⟩ := h.kept young
  rw [fetchFragments_schemas h.quiet]
  refine ⟨stored, fun k mem => ?_⟩
  rw [fetchFragments_other h.quiet (h.valid young mem)]
  exact fragments k mem

theorem look (h : s.Stocked source schema since) (a : Agent) (id : String) :
    (s.look a id).Stocked source schema since := by
  refine ⟨⟨h.quiet.launches, h.quiet.runs⟩, fun young => ?_⟩
  rw [show (s.look a id).cache.ttl = s.cache.ttl from Supply.lookUpSchema_ttl] at young
  obtain ⟨stored, fragments⟩ := h.kept young
  rw [show (s.look a id).cache.schemas = s.cache.schemas from Cache.getSchema_schemas ..,
    show (s.look a id).cache.fragments = s.cache.fragments from Cache.getSchema_fragments ..]
  exact ⟨stored, fragments⟩

/-- To fetch another schema replaces nothing. -/
theorem fetchSchema (h : s.Stocked source schema since) {id : String} (other : id ≠ schema.id) :
    (s.fetchSchema id).1.Stocked source schema since := by
  have moves := fetchSchema_moves s id
  refine ⟨h.quiet.moves moves, fun young => ?_⟩
  have young : s.now - since < s.cache.ttl := by
    have := moves.now_le
    rw [moves.ttl] at young
    omega
  obtain ⟨stored, fragments⟩ := h.kept young
  have waited : (s.awhile (s.source.schema id).delay).cache = s.cache := by
    rw [awhile]
    split
    · rfl
    · rw [h.quiet.passUntil]
  have fetched := fetchSchema_waited (.refl s) id
  generalize s.fetchSchema id = x at fetched
  obtain ⟨t, result⟩ := x
  cases result with
  | error e =>
    obtain ⟨schemas, same⟩ := fetched
    rw [schemas, same, waited]
    exact ⟨stored, fragments⟩
  | ok found =>
    obtain ⟨-, same, schemas⟩ := fetched
    rw [schemas, if_neg (Ne.symm other), same, waited]
    exact ⟨stored, fragments⟩

/-- Once the schema's entry is too old there is nothing left to keep. -/
theorem of_old (h : s.Stocked source schema since) (moves : Moves s t)
    (old : ¬ s.now - since < s.cache.ttl) : t.Stocked source schema since := by
  refine ⟨h.quiet.moves moves, fun young => absurd young ?_⟩
  have := moves.now_le
  rw [moves.ttl]
  omega

theorem obtain (h : s.Stocked source schema since) (young : s.now - since < s.cache.ttl) (id : String) :
    (s.obtain id).1.Stocked source schema since := by
  cases found : s.cache.schema? s.now id with
  | some schema =>
    rw [obtain_of_found found]
    exact h.look .foreground id
  | none =>
    have other : id ≠ schema.id := by
      rintro rfl
      rw [h.found young] at found
      cases found
    rw [obtain_of_missing found]
    exact (h.look .foreground id).fetchSchema other

theorem resolve (h : s.Stocked source schema since) (id : String) :
    (s.resolve id).1.Stocked source schema since := by
  by_cases young : s.now - since < s.cache.ttl
  · have obtained := h.obtain young id
    rw [resolve_eq]
    generalize s.obtain id = x at obtained
    obtain ⟨t, result⟩ := x
    cases result with
    | error e => exact obtained
    | ok schema => exact obtained.fetchFragments schema
  · exact h.of_old (resolve_moves s id) young

theorem step (h : s.Stocked source schema since) {x : Step} (resolution : x.isResolution = true) :
    (s.step x).1.Stocked source schema since := by
  cases x with
  | resolve id => exact h.resolve id
  | setSource => exact ⟨⟨h.quiet.launches, h.quiet.runs⟩, h.kept⟩
  | tick ms =>
    show (s.tick ms).Stocked source schema since
    rw [h.quiet.tick]
    refine ⟨⟨h.quiet.launches, h.quiet.runs⟩, fun young => h.kept ?_⟩
    have young : s.now + ms - since < s.cache.ttl := young
    omega
  | _ => cases resolution

theorem steps (list : List Step) (resolutions : ∀ x ∈ list, x.isResolution = true)
    (h : s.Stocked source schema since) : (s.steps list).Stocked source schema since := by
  induction list generalizing s with
  | nil => exact h
  | cons x rest ih =>
    have first := h.step (resolutions x List.mem_cons_self)
    exact ih (fun y hy => resolutions y (List.mem_cons_of_mem _ hy)) first

/-- Nothing is missing, so nothing is asked for. -/
theorem gather_nothing (h : s.Stocked source schema since) (young : s.now - since < s.cache.ttl) :
    (s.toSupply.gather .foreground schema).1.history = s.history ∧
      (s.toSupply.gather .foreground schema).2.arrivals = [] ∧
      ∀ k ∈ schema.fragmentIds,
        (s.toSupply.gather .foreground schema).2.outcomes.get? k = some (source.outcome k) := by
  have parts := Cache.partition_spec s.cache s.now schema.fragmentIds
  have none : (s.cache.partition s.now schema.fragmentIds).2.missing = [] := by
    refine List.eq_nil_iff_forall_not_mem.2 fun k hk => ?_
    obtain ⟨mem, free⟩ := (parts.missing k).1 hk
    exact Store.not_valid_iff.2 free (h.valid young mem)
  simp only [Supply.gather, none, List.foldl_nil, true_and]
  intro k mem
  obtain ⟨f, time, given, later, stored⟩ := (h.kept young).2 k mem
  have fresh : s.now - time < s.cache.ttl := by omega
  have found : s.cache.fragment? s.now k = some f := by
    simp [Cache.fragment?, Store.get?, stored, Option.filter, Store.isFresh, fresh]
  rw [Keyed.get?_map, parts.cached, if_pos mem, found, Source.outcome, given]
  rfl

/-- To resolve the strategy again costs nothing and gives the same. -/
theorem again (h : s.Stocked source schema since) (young : s.now - since < s.cache.ttl) :
    (s.resolve schema.id).2 =
        .ok ⟨schema, assembleSections schema (source.outcomes schema), true⟩ ∧
      ∀ call, (s.resolve schema.id).1.calls call = s.calls call := by
  have looked := h.look .foreground schema.id
  have young' : (s.look .foreground schema.id).now - since <
      (s.look .foreground schema.id).cache.ttl := by
    rw [show (s.look .foreground schema.id).cache.ttl = s.cache.ttl from Supply.lookUpSchema_ttl]
    exact young
  obtain ⟨history, none, known⟩ := looked.gather_nothing young'
  have done : (s.look .foreground schema.id).fetchFragments schema =
      (s.look .foreground schema.id).fetch (·.gather .foreground schema) := by
    simp only [Session.fetchFragments, fetch_snd, none, List.length_nil, gatherAll]
    rfl
  rw [resolve_of_found (h.found young), done]
  constructor
  · have sections : ((s.look .foreground schema.id).toSupply.gather .foreground schema).2.sections =
        assembleSections schema (source.outcomes schema) := by
      rw [Gathering.sections, Supply.gather_schema]
      refine assembleSections_congr fun k mem => ?_
      rw [known k mem, source.outcomes_get? schema mem]
    exact congrArg (fun sections => Except.ok (Resolution.mk schema sections true)) sections
  · intro call
    have log : ((s.look .foreground schema.id).fetch (·.gather .foreground schema)).1.log = s.log := by
      show ((s.look .foreground schema.id).toSupply.gather .foreground schema).1.history.filterMap _ = _
      rw [history]
      show (s.history ++ [_]).filterMap _ = _
      rw [List.filterMap_append]
      exact List.append_nil _
    simp only [calls, log]

end Stocked

/-- After a resolution that has asked for the schema and all its fragments and was given all of them. -/
theorem stocked_of_given (q : s.Quiet) {id : String} {r : Resolution} (h : (s.resolve id).2 = .ok r)
    (asked : r.fromCache = false)
    (given : ∀ k ∈ r.schema.fragmentIds, s.asked (.fragment k) < (s.resolve id).1.asked (.fragment k) ∧
      ∃ f, (s.source.fragment k).result = .ok f) :
    r.schema.id = id ∧ r.sections = assembleSections r.schema (s.source.outcomes r.schema) ∧
      ∃ since, (s.resolve id).1.cache.schemas.entries.get? id = some ⟨r.schema, since⟩ ∧
        (s.resolve id).1.Stocked s.source r.schema since := by
  have missing : s.cache.schema? s.now id = none := by
    have stale : ¬ s.cache.schemas.Valid s.cache.ttl s.now id := fun valid => by
      rw [(resolve_fromCache h).2 valid] at asked
      cases asked
    exact Store.not_valid_iff.1 stale
  have missed (k : String) (mem : k ∈ r.schema.fragmentIds) : 0 < fragmentCost k (s.obtain id) := by
    have more := (given k mem).1
    rw [resolve_asked_fragment] at more
    omega
  have gives (k : String) (mem : k ∈ r.schema.fragmentIds) := (given k mem).2
  have fetched := fetchSchema_waited (.look s .foreground id) id
  have moves : Moves s ((s.look .foreground id).fetchSchema id).1 :=
    .head (.lookUp id) (fetchSchema_moves ..)
  clear given
  rw [resolve_eq] at h ⊢
  rw [obtain_of_missing missing] at h missed ⊢
  generalize (s.look .foreground id).fetchSchema id = x at *
  obtain ⟨u, result⟩ := x
  cases result with
  | error e => cases h
  | ok schema =>
    cases h
    have moves : Moves s u := moves
    obtain ⟨own, -, entries⟩ := fetched
    have quiet : u.Quiet := q.moves moves
    have delivered (k : String) (mem : k ∈ schema.fragmentIds) :
        ∃ f, (s.source.fragment k).result = .ok f ∧
          (u.fetchFragments schema).2.outcomes.get? k = some (.resolved f) ∧
          ∃ time, u.now ≤ time ∧
            (u.fetchFragments schema).1.cache.fragments.entries.get? k = some ⟨f, time⟩ := by
      obtain ⟨f, gives⟩ := gives k mem
      have stale : ¬ u.cache.fragments.Valid u.cache.ttl u.now k := by
        intro valid
        have missed := missed k mem
        simp [fragmentCost, valid] at missed
      have given : (u.source.fragment k).result = .ok f := by rw [moves.source, gives]
      obtain ⟨known, stored⟩ := fetchFragments_given quiet mem given stale
      exact ⟨f, gives, known, stored⟩
    have stored : (u.fetchFragments schema).1.cache.schemas.entries.get? id = some ⟨schema, u.now⟩ := by
      rw [fetchFragments_schemas quiet, entries, if_pos rfl]
    refine ⟨own, ?_, u.now, stored, quiet.moves (fetchFragments_moves u schema),
      fun _ => ⟨own.symm ▸ stored, fun k mem => ?_⟩⟩
    · show assembleSections (u.fetchFragments schema).2.schema (u.fetchFragments schema).2.outcomes = _
      rw [fetchFragments_schema]
      refine assembleSections_congr fun k mem => ?_
      obtain ⟨f, gives, known, -⟩ := delivered k mem
      rw [known, s.source.outcomes_get? schema mem, Source.outcome, gives]
      rfl
    · obtain ⟨f, gives, -, time, late, stored⟩ := delivered k mem
      exact ⟨f, time, gives, late, stored⟩

/-! ### The whole of it -/

/-- To resolve a strategy costs a call for its schema if the cache has no valid one, and, once a schema
is at hand, a call for each of its fragments that has no valid entry then. To refresh it always costs
the call for the schema. In a session without bindings, after a resolution that has asked for the
schema and all its fragments and was given all of them, resolving again costs nothing and gives the
same form until the schema's entry is as old as the time to live, whatever is resolved in between. -/
theorem calls_of_resolution (ttl : Nat) (source : Source) (n : Nat) (luck : Luck) (list : List Step) :
    let s := (start { ttl } source n luck).steps list
    (∀ id k, (s.resolve id).1.asked (.schema k) =
      s.asked (.schema k) + if k = id ∧ ¬ s.cache.schemas.Valid ttl s.now id then 1 else 0) ∧
    (∀ id, (s.resolve id).2.map (·.schema) = (s.obtain id).2 ∧
      ∀ k, (s.resolve id).1.asked (.fragment k) = s.asked (.fragment k) +
        match s.obtain id with
        | (u, .ok schema) =>
          if k ∈ schema.fragmentIds ∧ ¬ u.cache.fragments.Valid ttl u.now k then 1 else 0
        | (_, .error _) => 0) ∧
    (∀ id, (∀ k, (s.refresh id).1.asked (.schema k) =
        s.asked (.schema k) + if k = id then 1 else 0) ∧
      ∀ r, (s.refresh id).2 = .ok r → r.fromCache = false) ∧
    (n = 0 → (∀ x ∈ list, x.isUnbound = true) → ∀ id r, (s.resolve id).2 = .ok r →
      r.fromCache = false →
      (∀ k ∈ r.schema.fragmentIds, s.asked (.fragment k) < (s.resolve id).1.asked (.fragment k) ∧
        ∃ f, (s.source.fragment k).result = .ok f) →
      ∃ e, (s.resolve id).1.cache.schemas.entries.get? id = some e ∧
        ∀ between : List Step, (∀ x ∈ between, x.isResolution = true) →
          let u := (s.resolve id).1.steps between
          u.now - e.storedAt < ttl →
            (u.resolve id).2 = .ok ⟨r.schema, r.sections, true⟩ ∧
            ∀ call, (u.resolve id).1.calls call = u.calls call) := by
  intro s
  have alive : s.cache.ttl = ttl := steps_ttl ..
  refine ⟨fun id k => ?_, fun id => ⟨?_, fun k => ?_⟩, fun id => ⟨fun k => ?_, fun r => ?_⟩, ?_⟩
  · have cost := resolve_asked_schema s id k
    rwa [alive] at cost
  · rw [resolve_eq]
    generalize s.obtain id = x
    obtain ⟨t, result⟩ := x
    cases result <;> rfl
  · rw [resolve_asked_fragment]
    have alive : (s.obtain id).1.cache.ttl = ttl := (obtain_moves s id).ttl.trans alive
    generalize s.obtain id = x at alive
    obtain ⟨u, result⟩ := x
    cases result with
    | error e => rfl
    | ok schema =>
      have alive : u.cache.ttl = ttl := alive
      subst alive
      rfl
  · exact refresh_asked_schema s id k
  · exact refresh_fromCache
  · rintro rfl unbound id r h asked given
    have quiet : s.Quiet := (Quiet.start { ttl } source luck).steps list unbound
    obtain ⟨own, sections, since, stored, stocked⟩ := stocked_of_given quiet h asked given
    refine ⟨_, stored, ?_⟩
    intro between resolutions u young
    have ttl : u.cache.ttl = ttl :=
      (steps_ttl between _).trans ((resolve_moves s id).ttl.trans alive)
    have again := (stocked.steps between resolutions).again (by rw [ttl]; exact young)
    rw [own, ← sections] at again
    exact again

theorem calls_of_resolution_behind_shared :
    let source : Source :=
      { schema? := fun id => some
          { delay := 10, result := .ok { id, name := "", fragments := [.mandatory "rsi"] } },
        fragment? := fun id => some { delay := 3, result := .ok { id, name := "RSI" } } }
    let s := (start { ttl := 50 } source 0).steps [.resolve "dca", .tick 40]
    let t := (s.resolve "grid").1
    let u := t.steps [.resolve "dca", .tick 20]
    (∀ x ∈ [Step.resolve "dca", .tick 40], x.isUnbound = true) ∧
      (∀ x ∈ [Step.resolve "dca", .tick 20], x.isResolution = true) ∧
      ∃ r, (s.resolve "grid").2 = .ok r ∧ r.fromCache = false ∧
        (u.resolve "grid").2 = .ok ⟨r.schema, r.sections, true⟩ ∧
        ∀ call, (u.resolve "grid").1.calls call = u.calls call := by
  intro source s t u
  have unbound : ∀ x ∈ [Step.resolve "dca", .tick 40], x.isUnbound = true := by decide
  have resolutions : ∀ x ∈ [Step.resolve "dca", .tick 20], x.isResolution = true := by decide
  have given : (s.resolve "grid").2.toOption.any (fun r => r.fromCache = false ∧
      r.schema.fragmentIds = ["rsi"]) = true := by decide +kernel
  have asked : s.asked (.fragment "rsi") < t.asked (.fragment "rsi") := by decide +kernel
  have rsi : ∃ f, (s.source.fragment "rsi").result = .ok f := by
    have : (s.source.fragment "rsi").result.isOk = true := by decide +kernel
    cases h : (s.source.fragment "rsi").result with
    | error e => simp [h, Except.isOk, Except.toBool] at this
    | ok f => exact ⟨f, rfl⟩
  have young : ∀ e, t.cache.schemas.entries.get? "grid" = some e → u.now - e.storedAt < 50 := by
    have : (t.cache.schemas.entries.get? "grid").all (fun e => u.now - e.storedAt < 50) = true := by
      decide +kernel
    intro e h
    simpa [h] using this
  have repeated := (calls_of_resolution 50 source 0 (fun _ _ => true) [.resolve "dca", .tick 40]).2.2.2 rfl unbound
  rw [show (start { ttl := 50 } source 0).steps [.resolve "dca", .tick 40] = s from rfl] at repeated
  clear_value s
  refine ⟨unbound, resolutions, ?_⟩
  cases h : (s.resolve "grid").2 with
  | error e =>
    rw [h] at given
    cases given
  | ok r =>
    rw [h] at given
    obtain ⟨called, ids⟩ : r.fromCache = false ∧ r.schema.fragmentIds = ["rsi"] := by
      simpa [Except.toOption] using given
    have gives : ∀ k ∈ r.schema.fragmentIds, s.asked (.fragment k) < t.asked (.fragment k) ∧
        ∃ f, (s.source.fragment k).result = .ok f := by
      intro k mem
      rw [ids, List.mem_singleton] at mem
      subst mem
      exact ⟨asked, rsi⟩
    obtain ⟨e, stored, again⟩ := repeated "grid" r h called gives
    exact ⟨r, rfl, called, again _ resolutions (young e stored)⟩

end StrategyForm.Session
