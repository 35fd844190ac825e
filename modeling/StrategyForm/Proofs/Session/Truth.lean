import Mathlib.Data.List.Basic
import StrategyForm.Proofs.Session.Supply

/-!
# What a source gives

`Source.form` is the form of a strategy as the source alone gives it: without a cache, a clock or a
history. A supply is faithful when its cache holds nothing else than what its source gives, a
gathering when what it knows and what is on its way comes from the source and every fragment of its
schema is one or the other. Looking up, asking and receiving keep both, and the sections of a
faithful gathering that is complete are those of the form (`Gathering.Gathers.sections_eq`).
-/

namespace StrategyForm

/-- The sections of a form depend on what became of the fragments that the schema refers to. -/
theorem assembleSections_congr {schema : Schema} {o o' : Outcomes}
    (h : ∀ id ∈ schema.fragmentIds, o.get? id = o'.get? id) :
    assembleSections schema o = assembleSections schema o' := by
  have same : Assembly.fragmentSections schema o = Assembly.fragmentSections schema o' := by
    refine List.filterMap_congr fun ⟨ref, place⟩ mem => ?_
    have mem : ref.id ∈ schema.fragmentIds := List.mem_map_of_mem (List.fst_mem_of_mem_zipIdx mem)
    simp only [Assembly.sectionOf?, h ref.id mem]
  simp only [assembleSections, same]

namespace Source

/-- The schema of a strategy, under the strategy's own id. -/
def truth (source : Source) (id : String) : Except Fault Schema :=
  (source.schema id).result.map ({ · with id })

/-- What becomes of a fragment that is asked for. -/
def outcome (source : Source) (id : String) : Outcome := .ofResult (source.fragment id).result

/-- What becomes of the fragments of a schema. -/
def outcomes (source : Source) (schema : Schema) : Outcomes :=
  schema.fragmentIds.foldl (fun o id => o.insert id (source.outcome id)) .empty

/-- The form of a strategy: its schema and its sections. -/
def form (source : Source) (id : String) : Except Fault (Schema × List Section) :=
  (source.truth id).map fun schema => (schema, assembleSections schema (source.outcomes schema))

theorem truth_of_ok {source : Source} {id : String} {schema : Schema}
    (h : (source.schema id).result = .ok schema) : source.truth id = .ok { schema with id } := by
  rw [truth, h]; rfl

theorem truth_of_error {source : Source} {id : String} {e : Fault}
    (h : (source.schema id).result = .error e) : source.truth id = .error e := by
  rw [truth, h]; rfl

theorem outcomes_get? (source : Source) (schema : Schema) {id : String}
    (h : id ∈ schema.fragmentIds) : (source.outcomes schema).get? id = some (source.outcome id) := by
  have known (ids : List String) (o : Outcomes)
      (ho : id ∈ ids ∨ o.get? id = some (source.outcome id)) :
      (ids.foldl (fun o id => o.insert id (source.outcome id)) o).get? id = some (source.outcome id) := by
    induction ids generalizing o with
    | nil => exact ho.resolve_left List.not_mem_nil
    | cons k rest ih =>
      refine ih _ ?_
      rw [Keyed.get?_insert]
      by_cases e : k = id
      · exact .inr (by rw [if_pos e, e])
      · rw [if_neg e]
        exact ho.imp_left fun mem => (List.mem_cons.1 mem).resolve_left (Ne.symm e)
  exact known _ _ (.inl h)

end Source

namespace Session

/-- A fragment is known, or on its way. -/
def Gathering.Has (g : Gathering) (id : String) : Prop :=
  (∃ o, g.outcomes.get? id = some o) ∨ ∃ x ∈ g.arrivals, x.id = id

structure Gathering.Faithful (g : Gathering) (source : Source) : Prop where
  outcomes : ∀ id o, g.outcomes.get? id = some o → o = source.outcome id
  arrivals : g.IsFrom source

/-- A faithful gathering of the fragments of a schema, none of which is lost. -/
structure Gathering.Gathers (g : Gathering) (source : Source) (schema : Schema) : Prop
    extends g.Faithful source where
  own : g.schema = schema
  has : ∀ id ∈ schema.fragmentIds, g.Has id

namespace Gathering
variable {g : Gathering} {source : Source}

theorem Gathers.sections_eq {schema : Schema} (h : g.Gathers source schema) (complete : g.arrivals = []) :
    g.sections = assembleSections schema (source.outcomes schema) := by
  rw [sections, h.own]
  refine assembleSections_congr fun id mem => ?_
  rcases h.has id mem with ⟨o, ho⟩ | ⟨x, hx, -⟩
  · rw [ho, h.outcomes id o ho, source.outcomes_get? schema mem]
  · rw [complete] at hx
    cases hx

/-- A fragment arrives. -/
theorem Faithful.insert (h : g.Faithful source) (id : String) :
    Faithful { g with outcomes := g.outcomes.insert id (source.outcome id) } source := by
  refine ⟨fun k o ho => ?_, h.arrivals⟩
  rw [Keyed.get?_insert] at ho
  split at ho
  · rename_i e
    cases ho
    rw [e]
  · exact h.outcomes k o ho

theorem Has.insert {k : String} (h : g.Has k) (id : String) (o : Outcome) :
    Has { g with outcomes := g.outcomes.insert id o } k := by
  refine h.imp_left fun ⟨o', ho⟩ => ?_
  rw [Keyed.get?_insert]
  split
  · exact ⟨o, rfl⟩
  · exact ⟨o', ho⟩

end Gathering

namespace Supply

/-- The cache holds what the source gives. -/
def Faithful (u : Supply) : Prop :=
  u.cache.All (fun id e => u.source.truth id = .ok e.value)
    fun id e => (u.source.fragment id).result = .ok e.value

variable {a : Agent} {u v : Supply} {g : Gathering}

theorem Faithful.lookUpSchema (h : u.Faithful) (a : Agent) (id : String) :
    (u.lookUpSchema a id).1.Faithful :=
  Cache.All.getSchema h id

theorem receiveSchema_snd (u : Supply) (a : Agent) (id : String) (result : Except Fault Schema) :
    (u.receiveSchema a id result).2 = result.map ({ · with id }) := by
  cases result <;> rfl

theorem Faithful.receiveSchema (h : u.Faithful) {id : String} {result : Except Fault Schema}
    (reply : result = (u.source.schema id).result) (a : Agent) :
    (u.receiveSchema a id result).1.Faithful := by
  cases result with
  | ok schema => exact Cache.All.putSchema h (Source.truth_of_ok reply.symm)
  | error e => exact h

theorem Faithful.receiveFragment (h : u.Faithful) {id : String} {result : Except Fault Fragment}
    (reply : result = (u.source.fragment id).result) : (u.receiveFragment a g id result).1.Faithful := by
  cases result with
  | ok f => exact Cache.All.putFragment h reply.symm
  | error e => exact h

theorem receiveFragment_faithful {source : Source} (hg : g.Faithful source) {id : String}
    {result : Except Fault Fragment} (reply : result = (source.fragment id).result) :
    (u.receiveFragment a g id result).2.Faithful source := by
  subst reply
  exact hg.insert id

theorem Faithful.askFragment (h : u.Faithful) (id : String) : (askFragment a (u, g) id).1.Faithful := by
  simp only [Supply.askFragment]
  split
  · refine receiveFragment ?_ rfl
    exact h
  · exact h

theorem askFragment_faithful (hg : g.Faithful u.source) (id : String) :
    (askFragment a (u, g) id).2.Faithful u.source := by
  refine ⟨?_, askFragment_isFrom hg.arrivals id⟩
  simp only [askFragment]
  split
  · exact (hg.insert id).outcomes
  · exact hg.outcomes

theorem Faithful.gather (h : u.Faithful) (a : Agent) (schema : Schema) :
    (u.gather a schema).1.Faithful := by
  refine gather_induction (P := fun x => x.1.Faithful) schema (fun c p hp => ?_) ?_
  · have divided := Cache.All.partition h u.now schema.fragmentIds
    rwa [hp] at divided
  · exact fun x id _ hx => hx.askFragment id

theorem Faithful.gather_faithful (h : u.Faithful) (a : Agent) (schema : Schema) :
    (u.gather a schema).2.Faithful u.source := by
  have both : (u.gather a schema).1.source = u.source ∧ (u.gather a schema).2.Faithful u.source := by
    refine gather_induction (P := fun x => x.1.source = u.source ∧ x.2.Faithful u.source) schema
      (fun c p hp => ⟨rfl, fun id o ho => ?_, by simp [Gathering.IsFrom]⟩) ?_
    · have divided := Cache.partition_spec u.cache u.now schema.fragmentIds
      rw [hp] at divided
      simp only [Keyed.get?_map, Option.map_eq_some_iff] at ho
      obtain ⟨f, hf, rfl⟩ := ho
      obtain ⟨_, given⟩ := h.fragments.get? (divided.valid hf)
      rw [Source.outcome, given]
      rfl
    · rintro ⟨v, g⟩ id - ⟨(source : v.source = u.source), hg⟩
      rw [← source] at hg ⊢
      exact ⟨(askFragment_work id).source, askFragment_faithful hg id⟩
  exact both.2

theorem Faithful.arrive (h : u.Faithful) (hg : g.IsFrom u.source) (a : Agent) :
    (u.arrive a g).1.Faithful := by
  have both : (u.arrive a g).1.source = u.source ∧ (u.arrive a g).1.Faithful := by
    refine arrive_induction (P := fun x => x.1.source = u.source ∧ x.1.Faithful) ⟨rfl, h⟩ ?_
    rintro v g' x hx - ⟨source, hv⟩
    exact ⟨(receiveFragment_work ..).source.trans source,
      hv.receiveFragment (by rw [source]; exact hg x hx)⟩
  exact both.2

theorem arrive_faithful {source : Source} (hg : g.Faithful source) : (u.arrive a g).2.Faithful source :=
  arrive_induction (P := fun x => x.2.Faithful source)
    ⟨hg.outcomes, fun x hx => hg.arrivals x (List.mem_filter.1 hx).1⟩
    fun _ _ x hx _ hg' => receiveFragment_faithful hg' (hg.arrivals x hx)

/-! ### No fragment is lost -/

theorem askFragment_has {k : String} (x : Supply × Gathering) (id : String) (h : k = id ∨ x.2.Has k) :
    (Supply.askFragment a x id).2.Has k := by
  simp only [Supply.askFragment]
  split
  · rcases h with rfl | h
    · exact .inl ⟨_, (Keyed.get?_insert ..).trans (if_pos rfl)⟩
    · exact h.insert id _
  · rcases h with rfl | ⟨o, ho⟩ | ⟨x, hx, e⟩
    · exact .inr ⟨_, List.mem_append_right _ (List.mem_singleton_self _), rfl⟩
    · exact .inl ⟨o, ho⟩
    · exact .inr ⟨x, List.mem_append_left _ hx, e⟩

theorem askFragments_has {k : String} (ids : List String) (x : Supply × Gathering)
    (h : k ∈ ids ∨ x.2.Has k) : (ids.foldl (Supply.askFragment a) x).2.Has k := by
  induction ids generalizing x with
  | nil => exact h.resolve_left List.not_mem_nil
  | cons id rest ih =>
    refine ih _ ?_
    rcases h with h | h
    · rcases List.mem_cons.1 h with h | h
      · exact .inr (askFragment_has x id (.inl h))
      · exact .inl h
    · exact .inr (askFragment_has x id (.inr h))

/-- Every fragment of the schema is known or on its way. -/
theorem gather_has (schema : Schema) : ∀ id ∈ schema.fragmentIds, (u.gather a schema).2.Has id := by
  intro id mem
  refine askFragments_has _ _ ?_
  rcases (Cache.partition_spec u.cache u.now schema.fragmentIds).covered mem with ⟨f, hf⟩ | missing
  · exact .inr (.inl ⟨.resolved f, (Keyed.get?_map ..).trans (congrArg _ hf)⟩)
  · exact .inl missing

theorem receiveFragments_has {k : String} (list : List Arrival) (x : Supply × Gathering)
    (h : (∃ y ∈ list, y.id = k) ∨ x.2.Has k) :
    (list.foldl (fun (s, g) y => s.receiveFragment a g y.id y.result) x).2.Has k := by
  induction list generalizing x with
  | nil => exact h.resolve_left (by simp)
  | cons y rest ih =>
    refine ih _ ?_
    rcases h with ⟨z, hz, e⟩ | h
    · rcases List.mem_cons.1 hz with rfl | hz
      · exact .inr (.inl ⟨_, (Keyed.get?_insert ..).trans (if_pos e)⟩)
      · exact .inl ⟨z, hz, e⟩
    · exact .inr (h.insert y.id _)

theorem arrive_has {k : String} (h : g.Has k) : (u.arrive a g).2.Has k := by
  refine receiveFragments_has _ _ ?_
  rcases h with known | ⟨x, hx, e⟩
  · exact .inr (.inl known)
  · by_cases due : x.due ≤ u.now
    · exact .inl ⟨x, List.mem_filter.2 ⟨hx, by simpa using due⟩, e⟩
    · exact .inr (.inr ⟨x, List.mem_filter.2 ⟨hx, by simpa using due⟩, e⟩)

theorem Faithful.gathers (h : u.Faithful) (a : Agent) (schema : Schema) :
    (u.gather a schema).2.Gathers u.source schema :=
  ⟨h.gather_faithful a schema, gather_schema schema, gather_has schema⟩

theorem arrive_gathers {source : Source} {schema : Schema} (hg : g.Gathers source schema) :
    (u.arrive a g).2.Gathers source schema :=
  ⟨arrive_faithful hg.toFaithful, arrive_schema.trans hg.own, fun id mem => arrive_has (hg.has id mem)⟩

end Supply

end Session

end StrategyForm
