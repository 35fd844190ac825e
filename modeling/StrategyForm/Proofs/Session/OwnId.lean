import StrategyForm.Proofs.Session.Alike
import StrategyForm.Proofs.Session.Coherent
import StrategyForm.Proofs.Session.Foreground

/-!
# Schemas stand under the id they were asked for

Main statement (`schemas_under_requested_id`): in every session each stored schema carries the id it
is stored under; to fetch a schema changes the entry of the requested id and no other, whatever id the
reply carries, and a refusal changes nothing.

A fetch of the foreground takes time, in which runs may act. So what it does is told by comparison
with the session that waits as long and asks for nothing (`awhile`); the two are alike up to the moment
at which the reply is there (`fetchSchema_waited`).
-/

namespace StrategyForm.Session

/-- The session after it has waited for a reply. A reply without delay is there at once. -/
def awhile (s : Session) (delay : Nat) : Session :=
  if delay = 0 then s else s.passUntil (s.now + delay)

variable {s t : Session}

theorem Alike.awhile (h : s.Alike t) (delay : Nat) : (s.awhile delay).Alike (t.awhile delay) := by
  simp only [Session.awhile, h.supply.now]
  split
  · exact h
  · exact h.passUntil _

/-- The session that has called for a schema and waited for the reply. -/
def called (s : Session) (id : String) : Session :=
  (s.fetch (·.askSchema .foreground id)).1.awhile (s.source.schema id).delay

theorem fetchSchema_eq (s : Session) (id : String) : s.fetchSchema id =
    (s.called id).fetch (·.receiveSchema .foreground id (s.source.schema id).result) := rfl

theorem called_alike (h : s.Alike t) (id : String) :
    (s.awhile (s.source.schema id).delay).Alike (t.called id) := by
  have asked : s.Alike (t.fetch (·.askSchema .foreground id)).1 :=
    h.trans ⟨.record .., rfl, rfl, rfl, rfl⟩
  rw [called, h.supply.source]
  exact asked.awhile _

/-! ### Fetching -/

/-- What to fetch a schema makes of the stores, compared with a session `w` that waited as long. -/
def Fetched (w : Session) (id : String) : Session × Except Fault Schema → Prop
  | (t, .ok schema) => schema.id = id ∧ t.cache.fragments = w.cache.fragments ∧
      ∀ k, t.cache.schemas.entries.get? k =
        if k = id then some ⟨schema, t.now⟩ else w.cache.schemas.entries.get? k
  | (t, .error _) => t.cache.schemas = w.cache.schemas ∧ t.cache.fragments = w.cache.fragments

theorem fetchSchema_waited (h : s.Alike t) (id : String) :
    Fetched (s.awhile (s.source.schema id).delay) id (t.fetchSchema id) := by
  have waited := (called_alike h id).supply.cache
  rw [fetchSchema_eq]
  cases (t.source.schema id).result with
  | error e => exact ⟨waited.schemas, waited.fragments⟩
  | ok schema =>
    refine ⟨rfl, waited.fragments, fun k => ?_⟩
    show ((t.called id).cache.schemas.put _ id _).entries.get? k = _
    rw [Store.put, Keyed.get?_insert, waited.schemas]
    by_cases same : k = id
    · rw [if_pos same.symm, if_pos same]
      rfl
    · rw [if_neg (Ne.symm same), if_neg same]

/-- What to resolve a strategy makes of the stores if its schema cannot be had. -/
theorem resolve_waited (keeps : KeepsIds s.cache) (id : String) :
    match s.resolve id with
    | (_, .ok r) => r.schema.id = id
    | (t, .error _) => t.cache.schemas = (s.awhile (s.source.schema id).delay).cache.schemas ∧
        t.cache.fragments = (s.awhile (s.source.schema id).delay).cache.fragments := by
  cases found : s.cache.schema? s.now id with
  | some schema =>
    rw [resolve_of_found found]
    exact keeps.id_eq found
  | none =>
    have fetched := fetchSchema_waited (.look s .foreground id) id
    rw [resolve_of_missing found]
    generalize (s.look .foreground id).fetchSchema id = x at fetched
    obtain ⟨t, result⟩ := x
    cases result with
    | error e => exact fetched
    | ok schema => exact fetched.1

/-! ### Deposits -/

/-- Whatever schemas the foreground puts in the cache, it puts them under one id. -/
def Deed.DepositsOnly (id : String) (d : Deed) : Prop := ∀ k, d.IsDeposit k → k = id

theorem Deed.IsByRun.depositsOnly {d : Deed} (h : d.IsByRun) (id : String) : d.DepositsOnly id :=
  fun k deposit => (h.not_deposit k deposit).elim

theorem Deed.IsOfFragment.depositsOnly {d : Deed} (h : d.IsOfFragment) (id : String) :
    d.DepositsOnly id :=
  fun k deposit => (h.not_deposit k deposit).elim

theorem gatherAll_deposits (id : String) (stops : Nat) (s : Session) (g : Gathering) :
    Grows (·.DepositsOnly id) s.history (gatherAll stops s g).1.history := by
  induction stops generalizing s g with
  | zero => exact .refl ..
  | succ stops ih =>
    simp only [gatherAll]
    split
    · exact .refl ..
    · rename_i due _
      have passed := (passUntil_byRuns s due).mono fun _ h => h.depositsOnly id
      have arrived := (Supply.arrive_ofFragment (u := (s.passUntil due).toSupply) (a := .foreground)
        (g := g)).mono fun _ h => h.depositsOnly id
      exact (passed.trans arrived).trans (ih _ _)

theorem fetchFragments_deposits (id : String) (s : Session) (schema : Schema) :
    Grows (·.DepositsOnly id) s.history (s.fetchFragments schema).1.history := by
  have gathered := (Supply.gather_ofFragment (u := s.toSupply) (a := .foreground) schema).mono
    fun _ h => h.depositsOnly id
  exact gathered.trans (gatherAll_deposits ..)

theorem fetchSchema_deposits (s : Session) (id : String) :
    Grows (·.DepositsOnly id) s.history (s.fetchSchema id).1.history := by
  obtain ⟨due, time, between, waited, received⟩ := fetchSchema_history s id
  have asked : Grows (·.DepositsOnly id) s.history
      (s.history ++ [.called .foreground (.schema id) due]) := by
    refine .single fun k ⟨time, e⟩ => ?_
    cases e
  have received : Grows (·.DepositsOnly id) between (s.fetchSchema id).1.history := by
    refine received.mono ?_
    rintro _ rfl k ⟨time, e⟩
    cases e
    rfl
  exact (asked.trans (waited.mono fun _ h => h.depositsOnly id)).trans received

theorem resolve_deposits (s : Session) (id : String) :
    Grows (·.DepositsOnly id) s.history (s.resolve id).1.history := by
  have looked : Grows (·.DepositsOnly id) s.history (s.look .foreground id).history := by
    refine .single fun k ⟨time, e⟩ => ?_
    cases e
  cases found : s.cache.schema? s.now id with
  | some schema =>
    rw [resolve_of_found found]
    exact looked.trans (fetchFragments_deposits ..)
  | none =>
    have fetched := looked.trans (fetchSchema_deposits (s.look .foreground id) id)
    rw [resolve_of_missing found]
    generalize (s.look .foreground id).fetchSchema id = x at fetched
    obtain ⟨t, result⟩ := x
    cases result with
    | error e => exact fetched
    | ok schema => exact fetched.trans (fetchFragments_deposits ..)

/-! ### Runs -/

theorem runWith_schemas (s : Session) (r : Run) (schema : Schema) :
    (s.runWith r schema).cache.schemas = s.cache.schemas := by
  have gathered : (s.toSupply.gather r.agent schema).1.cache.schemas = s.cache.schemas :=
    Supply.gather_schemas schema
  rw [runWith_eq]
  split
  · rw [runResolved, publish_cache]
    exact gathered
  · exact gathered

/-- A run that receives its schema changes the entry of its strategy; a refusal changes nothing. -/
theorem runReceive_stores (s : Session) (r : Run) (result : Except Fault Schema) :
    match result with
    | .ok schema => ∀ k, (s.runReceive r result).cache.schemas.entries.get? k =
        if k = r.strategy then some ⟨{ schema with id := r.strategy }, s.now⟩
        else s.cache.schemas.entries.get? k
    | .error _ => (s.runReceive r result).cache = s.cache := by
  cases result with
  | error e => exact publish_cache ..
  | ok schema =>
    intro k
    show ((runWith _ r { schema with id := r.strategy }).cache.schemas).entries.get? k = _
    rw [runWith_schemas]
    show (s.cache.schemas.put s.now r.strategy _).entries.get? k = _
    rw [Store.put, Keyed.get?_insert]
    by_cases same : k = r.strategy
    · rw [if_pos same.symm, if_pos same]
    · rw [if_neg (Ne.symm same), if_neg same]

/-! ### The whole of it -/

/-- Each stored schema carries the id it is stored under. A fetched or resolved schema carries the
requested id. To fetch it changes the entry of that id only, whatever id the reply carries, and if it
cannot be had the stores are those of a session that has waited as long and asked for nothing. The
same holds of the runs of bindings when their replies arrive. -/
theorem schemas_under_requested_id (ttl : Nat) (source : Source) (n : Nat) (luck : Luck)
    (list : List Step) (id : String) :
    let s := (start { ttl } source n luck).steps list
    let waited := s.awhile (s.source.schema id).delay
    (∀ k e, s.cache.schemas.entries.get? k = some e → e.value.id = k) ∧
    (match s.fetchSchema id with
      | (t, .ok schema) => schema.id = id ∧ t.cache.fragments = waited.cache.fragments ∧
          ∀ k, t.cache.schemas.entries.get? k =
            if k = id then some ⟨schema, t.now⟩ else waited.cache.schemas.entries.get? k
      | (t, .error _) => t.cache.schemas = waited.cache.schemas ∧
          t.cache.fragments = waited.cache.fragments) ∧
    (match s.resolve id with
      | (_, .ok r) => r.schema.id = id
      | (t, .error _) => t.cache.schemas = waited.cache.schemas ∧
          t.cache.fragments = waited.cache.fragments) ∧
    (∃ more, (s.resolve id).1.history = s.history ++ more ∧
      ∀ k time, .stored .foreground (.schema k) time ∈ more → k = id) ∧
    ∀ r ∈ s.runs, ∀ result : Except Fault Schema,
      match result with
      | .ok schema => ∀ k, (s.runReceive r result).cache.schemas.entries.get? k =
          if k = r.strategy then some ⟨{ schema with id := r.strategy }, s.now⟩
          else s.cache.schemas.entries.get? k
      | .error _ => (s.runReceive r result).cache = s.cache := by
  intro s waited
  have keeps : KeepsIds s.cache := (coherent_steps ttl source n luck list).cache
  have fetched := fetchSchema_waited (.refl s) id
  obtain ⟨more, e, only⟩ := resolve_deposits s id
  refine ⟨keeps, ?_, resolve_waited keeps id, ⟨more, e, ?_⟩, ?_⟩
  · generalize s.fetchSchema id = x at fetched
    obtain ⟨t, result⟩ := x
    cases result <;> exact fetched
  · intro k time stored
    exact only _ stored k ⟨time, rfl⟩
  · intro r _ result
    exact runReceive_stores s r result

/-- A server that sends the schema of one strategy under the id of another does not reach that
other's entry. -/
example :
    let source : Source :=
      { schema? := fun id => some { delay := 5, result := .ok { id := "rsi", name := id } } }
    let s := (start { ttl := 1000 } source 0).steps [.resolve "rsi", .resolve "grid"]
    (s.cache.schemas.entries.get? "rsi").map (·.value.name) = some "rsi" ∧
      (s.cache.schemas.entries.get? "grid").map (·.value.id) = some "grid" := by
  decide

end StrategyForm.Session
