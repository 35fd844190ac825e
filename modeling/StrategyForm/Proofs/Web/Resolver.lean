import StrategyForm.Web.Resolver
import StrategyForm.Proofs.Keyed
import StrategyForm.Proofs.Session.Asked

/-!
# A resolution over the network is one of a session

A session resolves from a source, which has a reply for each id; a resolver asks a network, where what a
call gets depends on what was asked before. Main statement (`resolve_in_session`): what the calls of one
resolution get, each in its turn, taken as a source that replies at once (`Resolver.source`), makes a session
with the same cache and clock give the same answer and leave the same cache.

The source stands still while the traffic grows, so the two agree as long as no fragment is asked for twice.
What is carried through the calls is `Mirrors`: the same cache, the same outcomes, nothing on its way.
-/

namespace StrategyForm.Web.Resolver
open Session

variable {r : Resolver} {now : Nat} {id : String}

/-! ### One resolution as a source -/

/-- What the calls for fragments get, one after the other. -/
def replies (c : Client) (net : Network) : List Traffic → List String → List (String × Except Fault Fragment)
  | _, [] => []
  | log, id :: rest =>
    let (log, result) := c.fetchFragment net id log
    (id, result) :: replies c net log rest

theorem replies_ids (c : Client) (net : Network) (log : List Traffic) (ids : List String) :
    (replies c net log ids).map (·.1) = ids := by
  induction ids generalizing log with
  | nil => rfl
  | cons id rest ih => rw [replies, List.map_cons, ih]

/-- The schema of a strategy, from the cache if it can. -/
def obtain (r : Resolver) (now : Nat) (id : String) : Resolver × Except Fault Schema :=
  let looked := { r with cache := (r.cache.getSchema now id).1 }
  match r.cache.schema? now id with
  | some schema => (looked, .ok schema)
  | none => looked.fetchSchema now id

/-- What the calls for the fragments of a schema get, if there is a schema. -/
def fragmentReplies (now : Nat) : Resolver × Except Fault Schema → List (String × Except Fault Fragment)
  | (r, .ok schema) => replies r.client r.network r.traffic (r.cache.partition now schema.fragmentIds).2.missing
  | (_, .error _) => []

/-- The source that the network is for one resolution: each reply is what the call gets in its turn. -/
def source (r : Resolver) (now : Nat) (id : String) : Source where
  schema? _ := some { result := (r.client.fetchSchema r.network id r.traffic).2 }
  fragment? k := (Keyed.find k (fragmentReplies now (r.obtain now id))).map fun result => { result }

theorem fragmentReplies_own (x : Resolver × Except Fault Schema) : ((fragmentReplies now x).map (·.1)).Nodup := by
  obtain ⟨r, schema | e⟩ := x
  · exact .nil
  · rw [fragmentReplies, replies_ids]
    exact (Cache.partition_spec ..).nodup

theorem source_fragment {e : String × Except Fault Fragment}
    (mem : e ∈ fragmentReplies now (r.obtain now id)) :
    (r.source now id).fragment e.1 = { result := e.2 } := by
  have found : (r.source now id).fragment? e.1 = some { result := e.2 } :=
    congrArg (Option.map _) (Keyed.find_of_mem (fragmentReplies_own _) mem)
  rw [Source.fragment, found]
  rfl

theorem resolve_eq (r : Resolver) (now : Nat) (id : String) : r.resolve now id =
    match r.obtain now id with
    | (r', .ok schema) => ((r'.fetchFragments now schema).1,
        .ok ⟨schema, assembleSections schema (r'.fetchFragments now schema).2, (r.cache.schema? now id).isSome⟩)
    | (r', .error e) => (r', .error e) := by
  unfold resolve obtain Cache.getSchema
  cases found : r.cache.schema? now id with
  | some schema => rfl
  | none =>
    dsimp only
    generalize fetchSchema _ now id = x
    obtain ⟨r', e | schema⟩ := x <;> rfl

/-! ### Fragments -/

/-- A resolver that has asked for some fragments, and a session that has: nothing is on its way. -/
structure Mirrors (x : Resolver × Outcomes) (v : Supply) (g : Gathering) : Prop where
  cache : v.cache = x.1.cache
  outcomes : g.outcomes = x.2
  arrived : g.arrivals = []

namespace Mirrors
variable {x : Resolver × Outcomes} {v : Supply} {g : Gathering} {a : Agent}

theorem ask (h : Mirrors x v g) (time : v.now = now) (id : String) (reply : v.source.fragment id =
    { result := (x.1.client.fetchFragment x.1.network id x.1.traffic).2 }) :
    Mirrors (fetchFragment now x id) (Supply.askFragment a (v, g) id).1 (Supply.askFragment a (v, g) id).2 := by
  obtain ⟨r, outcomes⟩ := x
  obtain ⟨cache, rfl, arrived⟩ := h
  subst time
  simp only [Supply.askFragment, reply, if_true, fetchFragment, Supply.receiveFragment]
  refine ⟨?_, rfl, arrived⟩
  cases (r.client.fetchFragment r.network id r.traffic).2 with
  | ok f => exact congrArg (·.putFragment v.now id f) cache
  | error e => exact cache

theorem askAll (h : Mirrors x v g) (time : v.now = now) (ids : List String)
    (agree : ∀ e ∈ replies x.1.client x.1.network x.1.traffic ids, v.source.fragment e.1 = { result := e.2 }) :
    Mirrors (ids.foldl (fetchFragment now) x) (ids.foldl (Supply.askFragment a) (v, g)).1
      (ids.foldl (Supply.askFragment a) (v, g)).2 := by
  induction ids generalizing x v g with
  | nil => exact h
  | cons id rest ih =>
    have work : Supply.Work a v (Supply.askFragment a (v, g) id).1 := Supply.askFragment_work id
    have asked := h.ask (a := a) time id (agree _ List.mem_cons_self)
    exact ih asked (work.now.trans time) fun e mem =>
      (congrArg (·.fragment e.1) work.source).trans (agree e (List.mem_cons_of_mem _ mem))

end Mirrors

theorem fetchFragments_in_session {s : Session} {schema : Schema} (time : s.now = now) (cache : s.cache = r.cache)
    (agree : ∀ e ∈ fragmentReplies now (r, .ok schema), s.source.fragment e.1 = { result := e.2 }) :
    (s.fetchFragments schema).1.cache = (r.fetchFragments now schema).1.cache ∧
      (s.fetchFragments schema).2.sections = assembleSections schema (r.fetchFragments now schema).2 := by
  subst time
  obtain ⟨cache, outcomes, arrived⟩ : Mirrors (r.fetchFragments s.now schema)
      (s.toSupply.gather .foreground schema).1 (s.toSupply.gather .foreground schema).2 := by
    unfold Supply.gather fetchFragments
    rw [cache]
    have parted : Mirrors
        ({ r with cache := (r.cache.partition s.now schema.fragmentIds).1 },
          (r.cache.partition s.now schema.fragmentIds).2.cached.map .resolved)
        { s.toSupply with cache := (r.cache.partition s.now schema.fragmentIds).1 }
        { schema, outcomes := (r.cache.partition s.now schema.fragmentIds).2.cached.map .resolved } :=
      ⟨rfl, rfl, rfl⟩
    exact parted.askAll rfl _ agree
  unfold Session.fetchFragments
  simp only [fetch_fst, fetch_snd, arrived]
  refine ⟨cache, ?_⟩
  show assembleSections (s.toSupply.gather .foreground schema).2.schema
    (s.toSupply.gather .foreground schema).2.outcomes = _
  rw [Supply.gather_schema, outcomes]

/-! ### Schemas -/

/-- After a step that both took: the same cache, and the session is as before otherwise. -/
structure Follows (r : Resolver) (s t : Session) : Prop where
  cache : t.cache = r.cache
  time : t.now = s.now
  source : t.source = s.source

theorem fetchSchema_in_session {s : Session} (time : s.now = now) (cache : s.cache = r.cache)
    (reply : s.source.schema id = { result := (r.client.fetchSchema r.network id r.traffic).2 }) :
    (s.fetchSchema id).2 = (r.fetchSchema now id).2 ∧ Follows (r.fetchSchema now id).1 s (s.fetchSchema id).1 := by
  subst time
  simp only [Session.fetchSchema, Supply.askSchema, fetch_fst, fetch_snd, reply, if_true, fetchSchema]
  generalize r.client.fetchSchema r.network id r.traffic = x
  obtain ⟨traffic, e | schema⟩ := x
  · exact ⟨rfl, cache, rfl, rfl⟩
  · exact ⟨rfl, congrArg (·.putSchema s.now { schema with id }) cache, rfl, rfl⟩

theorem obtain_in_session {s : Session} (time : s.now = now) (cache : s.cache = r.cache)
    (reply : s.source.schema id = { result := (r.client.fetchSchema r.network id r.traffic).2 }) :
    (s.obtain id).2 = (r.obtain now id).2 ∧ Follows (r.obtain now id).1 s (s.obtain id).1 := by
  have looked : (s.look .foreground id).cache = (r.cache.getSchema now id).1 := by
    rw [← time, ← cache]
    rfl
  unfold obtain
  cases found : r.cache.schema? now id with
  | some schema =>
    rw [obtain_of_found (by rw [cache, time, found])]
    exact ⟨rfl, looked, rfl, rfl⟩
  | none =>
    rw [obtain_of_missing (by rw [cache, time, found])]
    have fetched := fetchSchema_in_session (r := { r with cache := (r.cache.getSchema now id).1 })
      (s := s.look .foreground id) time looked reply
    exact ⟨fetched.1, fetched.2.cache, fetched.2.time, fetched.2.source⟩

/-! ### Resolutions -/

/-- What the calls of one resolution get, taken as a source that replies at once, makes a session with the
same cache and clock give the same answer and leave the same cache. -/
theorem resolve_in_session (r : Resolver) (now : Nat) (id : String) (s : Session) (time : s.now = now)
    (cache : s.cache = r.cache) (same : s.source = r.source now id) :
    (s.resolve id).2 = (r.resolve now id).2 ∧ (s.resolve id).1.cache = (r.resolve now id).1.cache := by
  have reply : s.source.schema id = { result := (r.client.fetchSchema r.network id r.traffic).2 } := by
    rw [same]
    rfl
  obtain ⟨result, obtained⟩ := obtain_in_session time cache reply
  rw [Session.resolve_eq, resolve_eq]
  generalize s.obtain id = x at result obtained
  generalize found : r.obtain now id = y at result obtained
  obtain ⟨t, got⟩ := x
  obtain ⟨r', got'⟩ := y
  obtain rfl : got = got' := result
  cases got with
  | error e => exact ⟨rfl, obtained.cache⟩
  | ok schema =>
    have agree : ∀ e ∈ fragmentReplies now (r', .ok schema), t.source.fragment e.1 = { result := e.2 } := by
      intro e mem
      rw [obtained.source, same]
      exact source_fragment (found ▸ mem)
    obtain ⟨left, sections⟩ := fetchFragments_in_session (obtained.time.trans time) obtained.cache agree
    refine ⟨?_, left⟩
    dsimp only
    rw [sections, cache, time]

theorem refresh_in_session (r : Resolver) (now : Nat) (id : String) (s : Session) (time : s.now = now)
    (cache : s.cache = r.cache)
    (same : s.source = source { r with cache := r.cache.invalidateSchema id } now id) :
    (s.refresh id).2 = (r.refresh now id).2 ∧ (s.refresh id).1.cache = (r.refresh now id).1.cache :=
  resolve_in_session { r with cache := r.cache.invalidateSchema id } now id
    { s with cache := s.cache.invalidateSchema id } time (congrArg (·.invalidateSchema id) cache) same

end StrategyForm.Web.Resolver
