import StrategyForm.Proofs.Session.Foreground

/-!
# How often the foreground calls the source

To resolve a strategy is to obtain its schema (`obtain`) and then to fetch the fragments. The schema
is called for once if the cache has none that is valid; each distinct fragment once that has no valid
entry when the schema is at hand (`resolve_asked_schema`, `resolve_asked_fragment`). Runs that act in
the meantime call on their own account.
-/

namespace StrategyForm

/-- An entry stands under the id that is younger than the time to live. -/
def Store.Valid {α : Type} (s : Store α) (ttl now : Nat) (id : String) : Prop :=
  ∃ e, s.entries.get? id = some e ∧ now - e.storedAt < ttl

theorem Store.valid_iff {α : Type} {s : Store α} {ttl now : Nat} {id : String} :
    s.Valid ttl now id ↔ (s.get? ttl now id).isSome = true := by
  constructor
  · rintro ⟨e, he, young⟩
    simp [get?, he, Option.filter, isFresh, young]
  · intro h
    obtain ⟨value, h⟩ := Option.isSome_iff_exists.1 h
    obtain ⟨e, he, young, -⟩ := get?_eq_some h
    exact ⟨e, he, young⟩

instance {α : Type} (s : Store α) (ttl now : Nat) (id : String) : Decidable (s.Valid ttl now id) :=
  decidable_of_iff _ Store.valid_iff.symm

theorem Store.not_valid_iff {α : Type} {s : Store α} {ttl now : Nat} {id : String} :
    ¬ s.Valid ttl now id ↔ s.get? ttl now id = none := by
  rw [Store.valid_iff, Bool.not_eq_true, Option.isSome_eq_false_iff, Option.isNone_iff_eq_none]

namespace Session

/-- The foreground calls the source in this way. -/
def Deed.asks (call : Call) : Deed → Bool
  | .called .foreground call' _ => call' = call
  | _ => false

/-- How often the foreground has called the source in this way. -/
def Supply.asked (u : Supply) (call : Call) : Nat := u.history.countP (Deed.asks call)

namespace Supply
variable {u v : Supply} {call : Call} {g : Gathering}

theorem asked_of_grows {P : Deed → Prop} (grows : Grows P u.history v.history)
    (none : ∀ d, P d → d.asks call = false) : v.asked call = u.asked call := by
  obtain ⟨more, e, p⟩ := grows
  have silent : more.countP (Deed.asks call) = 0 := by
    rw [List.countP_eq_zero]
    intro d hd
    simp [none d (p d hd)]
  rw [asked, e, List.countP_append, silent, Nat.add_zero, asked]

theorem asked_of_byRuns (grows : Grows Deed.IsByRun u.history v.history) :
    v.asked call = u.asked call := by
  refine asked_of_grows grows fun d hd => ?_
  cases d with
  | called a call' due =>
    cases a with
    | foreground => exact absurd rfl hd
    | run b g => rfl
  | _ => rfl

theorem asked_record (u : Supply) (call' : Call) (due : Nat) (call : Call) :
    (u.record (.called .foreground call' due)).asked call =
      u.asked call + if call' = call then 1 else 0 := by
  by_cases same : call' = call <;> simp [asked, Deed.asks, List.countP_append, same]

theorem receiveFragment_asked (id : String) (result : Except Fault Fragment) :
    (u.receiveFragment .foreground g id result).1.asked call = u.asked call := by
  cases result with
  | error e => rfl
  | ok f => exact asked_of_grows (.single (P := (· = _)) rfl) (by rintro _ rfl; rfl)

theorem askFragment_asked (x : Supply × Gathering) (id : String) :
    (askFragment .foreground x id).1.asked call =
      x.1.asked call + if .fragment id = call then 1 else 0 := by
  obtain ⟨u, g⟩ := x
  simp only [askFragment]
  split
  · rw [receiveFragment_asked, asked_record]
  · exact asked_record ..

theorem askFragments_asked (ids : List String) (x : Supply × Gathering) :
    (ids.foldl (askFragment .foreground) x).1.asked call =
      x.1.asked call + ids.countP (.fragment · = call) := by
  induction ids generalizing x with
  | nil => rfl
  | cons id rest ih =>
    rw [List.foldl_cons, ih, askFragment_asked, List.countP_cons]
    simp only [decide_eq_true_eq]
    omega

/-- To gather fragments is to call for those that are missing, each once. -/
theorem gather_asked (u : Supply) (schema : Schema) (call : Call) :
    (u.gather .foreground schema).1.asked call = u.asked call +
      (u.cache.partition u.now schema.fragmentIds).2.missing.countP (.fragment · = call) :=
  askFragments_asked ..

theorem gather_asked_schema (u : Supply) (schema : Schema) (k : String) :
    (u.gather .foreground schema).1.asked (.schema k) = u.asked (.schema k) := by
  have none (ids : List String) : ids.countP (Call.fragment · = .schema k) = 0 := by simp
  rw [gather_asked, none, Nat.add_zero]

theorem gather_asked_fragment (u : Supply) (schema : Schema) (k : String) :
    (u.gather .foreground schema).1.asked (.fragment k) = u.asked (.fragment k) +
      if k ∈ schema.fragmentIds ∧ ¬ u.cache.fragments.Valid u.cache.ttl u.now k then 1 else 0 := by
  have parts := Cache.partition_spec u.cache u.now schema.fragmentIds
  have once (ids : List String) : ids.countP (Call.fragment · = .fragment k) = ids.count k := by
    rw [List.count]
    refine List.countP_congr fun id _ => ?_
    simp
  have missing := parts.missing k
  rw [Cache.fragment?, ← Store.not_valid_iff] at missing
  rw [gather_asked, once, parts.nodup.count]
  simp only [missing]

theorem arrive_asked (u : Supply) (g : Gathering) (call : Call) :
    (u.arrive .foreground g).1.asked call = u.asked call :=
  arrive_induction (P := fun x => x.1.asked call = u.asked call) rfl
    fun _ _ _ _ _ h => (receiveFragment_asked ..).trans h

end Supply

variable {s : Session} {call : Call}

theorem gatherAll_asked (stops : Nat) (s : Session) (g : Gathering) :
    (gatherAll stops s g).1.asked call = s.asked call := by
  induction stops generalizing s g with
  | zero => rfl
  | succ stops ih =>
    simp only [gatherAll]
    split
    · rfl
    · rename_i due _
      have passed : (s.passUntil due).asked call = s.asked call :=
        Supply.asked_of_byRuns (passUntil_byRuns ..)
      rw [ih, ← passed]
      exact Supply.arrive_asked ..

theorem fetchFragments_asked (s : Session) (schema : Schema) (call : Call) :
    (s.fetchFragments schema).1.asked call = (s.toSupply.gather .foreground schema).1.asked call :=
  gatherAll_asked ..

theorem fetchSchema_asked (s : Session) (id : String) (call : Call) :
    (s.fetchSchema id).1.asked call = s.asked call + if .schema id = call then 1 else 0 := by
  obtain ⟨due, time, between, waited, received⟩ := fetchSchema_history s id
  let u : Supply := { s.toSupply with history := between }
  have received : (s.fetchSchema id).1.asked call = u.asked call := by
    refine Supply.asked_of_grows received ?_
    rintro _ rfl
    rfl
  have waited : u.asked call = (s.toSupply.record (.called .foreground (.schema id) due)).asked call :=
    Supply.asked_of_byRuns waited
  rw [received, waited, Supply.asked_record]

/-! ### Resolving -/

/-- Obtains the schema of a strategy, from the cache if it can. -/
def obtain (s : Session) (id : String) : Session × Except Fault Schema :=
  match s.cache.schema? s.now id with
  | some schema => (s.look .foreground id, .ok schema)
  | none => (s.look .foreground id).fetchSchema id

theorem obtain_of_found {id : String} {schema : Schema}
    (found : s.cache.schema? s.now id = some schema) :
    s.obtain id = (s.look .foreground id, .ok schema) := by
  simp only [obtain, found]

theorem obtain_of_missing {id : String} (missing : s.cache.schema? s.now id = none) :
    s.obtain id = (s.look .foreground id).fetchSchema id := by
  simp only [obtain, missing]

theorem resolve_eq (s : Session) (id : String) : s.resolve id =
    match s.obtain id with
    | (t, .ok schema) => ((t.fetchFragments schema).1,
        .ok ⟨schema, (t.fetchFragments schema).2.sections, (s.cache.schema? s.now id).isSome⟩)
    | (t, .error e) => (t, .error e) := by
  cases found : s.cache.schema? s.now id with
  | some schema => rw [resolve_of_found found, obtain_of_found found]; rfl
  | none =>
    rw [resolve_of_missing found, obtain_of_missing found]
    generalize fetchSchema _ id = x
    obtain ⟨t, result⟩ := x
    cases result <;> rfl

theorem look_asked (s : Session) (a : Agent) (id : String) : (s.look a id).asked call = s.asked call := by
  refine Supply.asked_of_grows (.single (P := fun d => ∃ found, d = .lookedUp a id found) ⟨_, rfl⟩) ?_
  rintro _ ⟨found, rfl⟩
  rfl

/-- The schema is called for if the cache has none that is valid. -/
theorem obtain_asked (s : Session) (id : String) (call : Call) : (s.obtain id).1.asked call =
    s.asked call + if .schema id = call ∧ ¬ s.cache.schemas.Valid s.cache.ttl s.now id then 1 else 0 := by
  simp only [Store.not_valid_iff]
  cases found : s.cache.schema? s.now id with
  | some schema =>
    have valid : ¬ s.cache.schemas.get? s.cache.ttl s.now id = none := by
      rw [Cache.schema?] at found
      simp [found]
    rw [obtain_of_found found, look_asked, if_neg fun h => valid h.2, Nat.add_zero]
  | none =>
    rw [obtain_of_missing found, fetchSchema_asked, look_asked]
    rw [Cache.schema?] at found
    simp only [found, and_true]

theorem resolve_asked_schema (s : Session) (id k : String) : (s.resolve id).1.asked (.schema k) =
    s.asked (.schema k) + if k = id ∧ ¬ s.cache.schemas.Valid s.cache.ttl s.now id then 1 else 0 := by
  have obtained := obtain_asked s id (.schema k)
  simp only [Call.schema.injEq, eq_comm (a := id)] at obtained
  rw [resolve_eq, ← obtained]
  generalize s.obtain id = x
  obtain ⟨t, result⟩ := x
  cases result with
  | error e => rfl
  | ok schema => exact (fetchFragments_asked ..).trans (Supply.gather_asked_schema ..)

/-- The calls for a fragment that follow when a schema has been obtained, or not. -/
def fragmentCost (k : String) : Session × Except Fault Schema → Nat
  | (u, .ok schema) =>
    if k ∈ schema.fragmentIds ∧ ¬ u.cache.fragments.Valid u.cache.ttl u.now k then 1 else 0
  | (_, .error _) => 0

theorem resolve_asked_fragment (s : Session) (id k : String) :
    (s.resolve id).1.asked (.fragment k) = s.asked (.fragment k) + fragmentCost k (s.obtain id) := by
  have obtained : (s.obtain id).1.asked (.fragment k) = s.asked (.fragment k) := by
    rw [obtain_asked, if_neg (by simp), Nat.add_zero]
  rw [resolve_eq, ← obtained]
  generalize s.obtain id = x
  obtain ⟨t, result⟩ := x
  cases result with
  | error e => rfl
  | ok schema => exact (fetchFragments_asked ..).trans (Supply.gather_asked_fragment ..)

theorem forgotten_not_valid (c : Cache) (ttl now : Nat) (id : String) :
    ¬ (c.invalidateSchema id).schemas.Valid ttl now id := by
  rintro ⟨e, he, -⟩
  simp [Cache.invalidateSchema, Store.remove] at he

theorem refresh_asked_schema (s : Session) (id k : String) :
    (s.refresh id).1.asked (.schema k) = s.asked (.schema k) + if k = id then 1 else 0 := by
  have asked := resolve_asked_schema { s with cache := s.cache.invalidateSchema id } id k
  simp only [forgotten_not_valid, not_false_eq_true, and_true] at asked
  exact asked

theorem obtain_moves (s : Session) (id : String) : Moves s (s.obtain id).1 := by
  have look : Move s (s.look .foreground id) := .lookUp id
  cases found : s.cache.schema? s.now id with
  | some schema =>
    rw [obtain_of_found found]
    exact .single look
  | none =>
    rw [obtain_of_missing found]
    exact .head look (fetchSchema_moves ..)

/-- Whether a resolution comes from the cache: the schema was there and valid. -/
theorem resolve_fromCache {id : String} {r : Resolution} (h : (s.resolve id).2 = .ok r) :
    r.fromCache = true ↔ s.cache.schemas.Valid s.cache.ttl s.now id := by
  rw [resolve_eq] at h
  generalize s.obtain id = x at h
  obtain ⟨t, result⟩ := x
  cases result with
  | error e => cases h
  | ok schema =>
    cases h
    exact Store.valid_iff.symm

theorem refresh_fromCache {id : String} {r : Resolution} (h : (s.refresh id).2 = .ok r) :
    r.fromCache = false := by
  rw [← Bool.not_eq_true]
  exact fun cached => forgotten_not_valid _ _ _ id ((resolve_fromCache h).1 cached)

end Session

end StrategyForm
