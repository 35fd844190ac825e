import StrategyForm.Proofs.Session.Budget
import StrategyForm.Proofs.Session.Collected

/-!
# How long fetching takes

Main statement (`latency_of_fetching`): in a session in which no run is under way, to fetch the fragments
of a schema takes as long as the slowest of those that have to be asked for (`Supply.longest`), and each
that is given is stored at the time of its own arrival. To resolve a strategy takes as long as its schema,
which is at hand at once if it is in the cache, and then as long as its fragments.

What is on its way after asking is known exactly (`gather_arrivals`). From then on, at every stop, nothing
is due after the end, and something is due at the end unless it has come (`EndsAt`).
-/

namespace StrategyForm.Session

namespace Supply
variable (u : Supply) (schema : Schema)

/-- The delays of the fragments that have to be asked for and that the source knows. -/
def delays : List Nat :=
  ((schema.fragmentIds.filter (u.Lacks schema ·)).filterMap u.source.fragment?).map (·.delay)

/-- The largest of them; zero if there is none. -/
def longest : Nat := (u.delays schema).max?.getD 0

variable {u schema} {v : Supply} {a : Agent} {g : Gathering} {id : String}

theorem mem_delays_iff {d : Nat} : d ∈ u.delays schema ↔
    ∃ id reply, u.Lacks schema id ∧ u.source.fragment? id = some reply ∧ reply.delay = d := by
  simp only [delays, List.mem_map, List.mem_filterMap, List.mem_filter, decide_eq_true_eq]
  constructor
  · rintro ⟨reply, ⟨id, ⟨-, lacks⟩, known⟩, e⟩
    exact ⟨id, reply, lacks, known, e⟩
  · rintro ⟨id, reply, lacks, known, e⟩
    exact ⟨reply, ⟨id, ⟨lacks.1, lacks⟩, known⟩, e⟩

theorem delay_le_longest (lacks : u.Lacks schema id) : (u.source.fragment id).delay ≤ u.longest schema := by
  cases known : u.source.fragment? id with
  | none =>
    rw [Source.fragment, known]
    exact Nat.zero_le _
  | some reply =>
    have mem : reply.delay ∈ u.delays schema := mem_delays_iff.2 ⟨id, reply, lacks, known, rfl⟩
    rw [Source.fragment, known, longest]
    cases most : (u.delays schema).max? with
    | none =>
      rw [List.max?_eq_none_iff.1 most] at mem
      cases mem
    | some d => exact (List.max?_eq_some_iff.1 most).2 _ mem

/-- It is the delay of a fragment, if anything is waited for at all. -/
theorem exists_longest (pos : 0 < u.longest schema) :
    ∃ id, u.Lacks schema id ∧ (u.source.fragment id).delay = u.longest schema := by
  rw [longest] at pos ⊢
  cases most : (u.delays schema).max? with
  | none =>
    rw [most] at pos
    cases pos
  | some d =>
    obtain ⟨id, reply, lacks, known, e⟩ := mem_delays_iff.1 (List.max?_eq_some_iff.1 most).1
    refine ⟨id, lacks, ?_⟩
    rw [Source.fragment, known]
    exact e

theorem Lacks.congr (ttl : v.cache.ttl = u.cache.ttl) (fragments : v.cache.fragments = u.cache.fragments)
    (now : v.now = u.now) : v.Lacks schema id ↔ u.Lacks schema id := by
  rw [Lacks, Lacks, ttl, fragments, now]

/-- How long it takes depends on the source, on the fragments of the cache, and on the time. -/
theorem longest_congr (source : v.source = u.source) (ttl : v.cache.ttl = u.cache.ttl)
    (fragments : v.cache.fragments = u.cache.fragments) (now : v.now = u.now) (schema : Schema) :
    v.longest schema = u.longest schema := by
  have lacking : schema.fragmentIds.filter (v.Lacks schema ·) = schema.fragmentIds.filter (u.Lacks schema ·) :=
    List.filter_congr fun id _ => decide_eq_decide.2 (Lacks.congr ttl fragments now)
  rw [longest, longest, delays, delays, lacking, source]

/-! ### What is on its way -/

/-- What is on its way of a list of fragments that were asked for; a reply without delay is there already. -/
def awaited (u : Supply) (ids : List String) : List Arrival :=
  (ids.filter fun id => (u.source.fragment id).delay ≠ 0).map fun id =>
    ⟨id, u.now + (u.source.fragment id).delay, (u.source.fragment id).result⟩

theorem askFragment_arrivals (now : v.now = u.now) (source : v.source = u.source) (id : String) :
    (askFragment a (v, g) id).2.arrivals = g.arrivals ++ u.awaited [id] := by
  simp only [askFragment, source, now]
  split
  · rename_i soon
    simp [awaited, soon, receiveFragment]
  · rename_i late
    simp [awaited, late, now]

theorem askFragments_arrivals (ids : List String) (v : Supply) (g : Gathering) (now : v.now = u.now)
    (source : v.source = u.source) :
    (ids.foldl (askFragment a) (v, g)).2.arrivals = g.arrivals ++ u.awaited ids := by
  induction ids generalizing v g with
  | nil => exact (List.append_nil _).symm
  | cons id rest ih =>
    have work : Work a v (askFragment a (v, g) id).1 := askFragment_work id
    have first := askFragment_arrivals (a := a) (g := g) now source id
    have all : u.awaited (id :: rest) = u.awaited [id] ++ u.awaited rest := by
      rw [awaited, awaited, awaited, ← List.map_append, ← List.filter_append]
      rfl
    rw [List.foldl_cons, ih _ _ (work.now.trans now) (work.source.trans source), first, all, List.append_assoc]

theorem gather_arrivals (u : Supply) (a : Agent) (schema : Schema) : (u.gather a schema).2.arrivals =
    u.awaited (u.cache.partition u.now schema.fragmentIds).2.missing :=
  (askFragments_arrivals _ _ _ rfl rfl).trans (List.nil_append _)

/-- What is waited for is over at a time: nothing is due later, and something is due then unless that time
has come. -/
structure EndsAt (time now : Nat) (g : Gathering) : Prop where
  due_le : ∀ x ∈ g.arrivals, x.due ≤ time
  last : now = time ∨ ∃ x ∈ g.arrivals, x.due = time

theorem gather_endsAt (u : Supply) (a : Agent) (schema : Schema) :
    EndsAt (u.now + u.longest schema) u.now (u.gather a schema).2 := by
  have arrivals := gather_arrivals u a schema
  refine ⟨fun x hx => ?_, ?_⟩
  · rw [arrivals, awaited] at hx
    obtain ⟨id, mem, rfl⟩ := List.mem_map.1 hx
    exact Nat.add_le_add_left (delay_le_longest (mem_missing_iff.1 (List.mem_filter.1 mem).1)) _
  · rcases Nat.eq_zero_or_pos (u.longest schema) with none | pos
    · exact .inl (by rw [none]; rfl)
    · obtain ⟨id, lacks, e⟩ := exists_longest pos
      have late : (u.source.fragment id).delay ≠ 0 := by omega
      refine .inr ⟨⟨id, u.now + (u.source.fragment id).delay, (u.source.fragment id).result⟩, ?_, by rw [e]⟩
      rw [arrivals, awaited]
      exact List.mem_map.2 ⟨id, List.mem_filter.2 ⟨mem_missing_iff.2 lacks, by simpa using late⟩, rfl⟩

theorem EndsAt.arrive {time : Nat} (h : EndsAt time u.now g) (next : g.next? = some v.now)
    (after : u.now < v.now) : EndsAt time v.now (v.arrive a g).2 := by
  obtain ⟨⟨y, hy, first⟩, -⟩ := le_of_next?_arrivals next
  have before := h.due_le y hy
  refine ⟨fun x hx => ?_, ?_⟩
  · rw [arrive_arrivals] at hx
    exact h.due_le x (List.mem_filter.1 hx).1
  · rcases h.last with ended | ⟨x, hx, e⟩
    · -- nothing is due after the end
      omega
    · -- what is due at the end waits on, unless this is the end
      rcases Nat.lt_or_ge v.now time with waits | reached
      · refine .inr ⟨x, ?_, e⟩
        rw [arrive_arrivals]
        exact List.mem_filter.2 ⟨hx, by simpa [e] using waits⟩
      · exact .inl (by omega)

end Supply

variable {s : Session}

theorem fetchFragments_now (q : s.Quiet) (schema : Schema) :
    (s.fetchFragments schema).1.now = s.now + s.longest schema := by
  obtain ⟨ends, complete⟩ := q.fetchFragments_induction schema
    (P := fun u g => Supply.EndsAt (s.now + s.longest schema) u.now g)
    (by rw [Supply.gather_now]; exact Supply.gather_endsAt s.toSupply .foreground schema)
    fun u g due next waits ends => by rw [Supply.arrive_now]; exact ends.arrive next waits
  rcases ends.last with ended | ⟨x, hx, -⟩
  · exact ended
  · rw [complete] at hx
    cases hx

/-- To fetch the fragments of a schema with a supply has led to a session: it is as much later as the
slowest took that had to be asked for, and each that was given is stored at its own arrival and valid from
then on. -/
structure Supply.Timed (u : Supply) (schema : Schema) (t : Session) : Prop where
  ends : t.now = u.now + u.longest schema
  stored : ∀ id delay f, u.Lacks schema id → u.source.fragment? id = some ⟨delay, .ok f⟩ →
    t.cache.fragments.entries.get? id = some ⟨f, u.now + delay⟩
  valid : ∀ id delay f, u.Lacks schema id → u.source.fragment? id = some ⟨delay, .ok f⟩ →
    ∀ time, t.cache.fragment? time id = if time - (u.now + delay) < u.cache.ttl then some f else none

theorem fetchFragments_timed (q : s.Quiet) (schema : Schema) :
    s.Timed schema (s.fetchFragments schema).1 := by
  have entries := ((fetchFragments_collected s schema).2 q).entries
  have stored (id : String) (delay : Nat) (f : Fragment) (lacks : s.Lacks schema id)
      (known : s.source.fragment? id = some ⟨delay, .ok f⟩) :
      (s.fetchFragments schema).1.cache.fragments.entries.get? id = some ⟨f, s.now + delay⟩ := by
    have reply : s.source.fragment id = ⟨delay, .ok f⟩ := by rw [Source.fragment, known]; rfl
    rw [entries id, if_neg List.not_mem_nil, Supply.entryAfter, reply]
    exact if_pos lacks
  refine ⟨fetchFragments_now q schema, stored, fun id delay f lacks known time => ?_⟩
  have ttl : (s.fetchFragments schema).1.cache.ttl = s.cache.ttl := (fetchFragments_moves s schema).ttl
  rw [Cache.fragment?, Store.get?, stored id delay f lacks known, ttl]
  by_cases young : time - (s.now + delay) < s.cache.ttl
  · simp [Option.filter, Store.isFresh, young]
  · simp [Option.filter, Store.isFresh, young]

/-! ### Schemas -/

theorem Quiet.awhile (q : s.Quiet) (delay : Nat) : s.awhile delay = { s with now := s.now + delay } := by
  unfold Session.awhile
  split
  · rename_i none
    rw [none]
    rfl
  · rw [q.passUntil, Nat.max_eq_left (Nat.le_add_right ..)]

/-- When a schema is at hand: at once if the cache has a valid one. -/
def arrival (s : Session) (id : String) : Nat :=
  if (s.cache.schema? s.now id).isSome then s.now else s.now + (s.source.schema id).delay

theorem fetchSchema_now (q : s.Quiet) (id : String) :
    (s.fetchSchema id).1.now = s.now + (s.source.schema id).delay := by
  have asked : (s.fetch (·.askSchema .foreground id)).1.Quiet := ⟨q.launches, q.runs⟩
  rw [fetchSchema_eq, called, asked.awhile, fetch_fst]
  exact (Supply.receiveSchema_work ..).now

/-- The session in which a schema is at hand, or refused. Its fragments are those of before. -/
structure AtHand (s : Session) (id : String) (t : Session) : Prop where
  now : t.now = s.arrival id
  fragments : t.cache.fragments = s.cache.fragments

theorem obtain_atHand (q : s.Quiet) (id : String) : s.AtHand id (s.obtain id).1 ∧
    match (s.obtain id).2 with
    | .error _ => (s.obtain id).1.cache.schemas = s.cache.schemas
    | .ok schema => (s.obtain id).1.cache.schemas.entries.get? id =
        if (s.cache.schema? s.now id).isSome then s.cache.schemas.entries.get? id
        else some ⟨schema, s.arrival id⟩ := by
  cases found : s.cache.schema? s.now id with
  | some schema =>
    have schemas : (s.look .foreground id).cache.schemas = s.cache.schemas := Cache.getSchema_schemas ..
    rw [obtain_of_found found]
    refine ⟨⟨?_, Cache.getSchema_fragments ..⟩, ?_⟩
    · rw [arrival, found]
      rfl
    · show (s.look .foreground id).cache.schemas.entries.get? id = _
      rw [schemas]
      rfl
  | none =>
    have looked : (s.look .foreground id).Quiet := ⟨q.launches, q.runs⟩
    have now : ((s.look .foreground id).fetchSchema id).1.now = s.arrival id := by
      rw [fetchSchema_now looked, arrival, found]
      rfl
    have fetched := fetchSchema_waited (.look s .foreground id) id
    rw [q.awhile] at fetched
    rw [obtain_of_missing found]
    generalize (s.look .foreground id).fetchSchema id = x at now fetched
    obtain ⟨t, result⟩ := x
    cases result with
    | error e =>
      obtain ⟨schemas, fragments⟩ := fetched
      exact ⟨⟨now, fragments⟩, schemas⟩
    | ok schema =>
      obtain ⟨-, fragments, entries⟩ := fetched
      have now : t.now = s.arrival id := now
      refine ⟨⟨now, fragments⟩, ?_⟩
      rw [entries id, if_pos rfl, now]
      rfl

theorem Supply.Timed.congr {u v : Supply} {schema : Schema} {t : Session} (h : v.Timed schema t)
    (source : v.source = u.source) (ttl : v.cache.ttl = u.cache.ttl)
    (fragments : v.cache.fragments = u.cache.fragments) (now : v.now = u.now) : u.Timed schema t := by
  have lacks (id : String) : u.Lacks schema id → v.Lacks schema id := (Lacks.congr ttl fragments now).2
  refine ⟨?_, fun id delay f h' known => ?_, fun id delay f h' known => ?_⟩
  · rw [h.ends, now, longest_congr source ttl fragments now]
  · rw [← now]
    exact h.stored id delay f (lacks id h') (source ▸ known)
  · rw [← now, ← ttl]
    exact h.valid id delay f (lacks id h') (source ▸ known)

/-- When no run is under way, to fetch the fragments of a schema takes as long as the slowest of those that
the cache has no valid entry of, and each that is given is stored at its own arrival. To resolve a strategy
takes as long as its schema, nothing if the cache has it, and from then on as long as the fragments take
that are missing at that moment; a schema that had to be asked for is stored at its arrival. -/
theorem latency_of_fetching (q : s.Quiet) (schema : Schema) (id : String) :
    (∀ x, x = .fetchFragments schema ∨ x = .buildSections schema → s.Timed schema (s.step x).1) ∧
    match s.resolve id with
    | (t, .error _) => t.now = s.arrival id ∧ t.cache.schemas = s.cache.schemas ∧
        t.cache.fragments = s.cache.fragments
    | (t, .ok r) => Supply.Timed { s.toSupply with now := s.arrival id } r.schema t ∧
        t.cache.schemas.entries.get? id =
          if r.fromCache then s.cache.schemas.entries.get? id else some ⟨r.schema, s.arrival id⟩ := by
  constructor
  · rintro x (rfl | rfl) <;> exact fetchFragments_timed q schema
  · obtain ⟨atHand, stored⟩ := obtain_atHand q id
    have moves := obtain_moves s id
    rw [resolve_eq]
    generalize s.obtain id = x at atHand stored moves
    obtain ⟨u, result⟩ := x
    cases result with
    | error e => exact ⟨atHand.now, stored, atHand.fragments⟩
    | ok schema =>
      have quiet : u.Quiet := q.moves moves
      refine ⟨?_, ?_⟩
      · exact (fetchFragments_timed quiet schema).congr moves.source moves.ttl atHand.fragments atHand.now
      · show (u.fetchFragments schema).1.cache.schemas.entries.get? id = _
        rw [fetchFragments_schemas quiet]
        exact stored

/-- Of four fragments one is at hand at first and too old when the schema is, one is given, one is refused
after a longer time, and one does not exist. -/
theorem latency_of_fetching_four :
    let base : Fragment := { id := "base", name := "Base" }
    let schema : Schema :=
      { id := "grid", name := "Grid", fragments :=
        [.mandatory "base", .voluntary "rsi", .voluntary "base", .voluntary "old", .voluntary "gone"] }
    let source : Source :=
      { schema? := fun id => if id = "grid" then some { delay := 40, result := .ok schema } else none,
        fragment? := fun id =>
          if id = "base" then some { delay := 10, result := .ok base }
          else if id = "rsi" then some { delay := 7, result := .ok { id := "rsi", name := "RSI" } }
          else if id = "old" then some { delay := 25, result := .error (.network "reset") }
          else none }
    let rsi : Entry Fragment := ⟨{ id := "rsi", name := "RSI" }, 80⟩
    let s : Session := { now := 100, source, cache := { ttl := 50, fragments := ⟨.ofList [("rsi", rsi)]⟩ } }
    s.Quiet ∧ (s.step (.fetchFragments schema)).1.now = 125 ∧
      (s.step (.fetchFragments schema)).1.cache.fragments.entries.get? "base" = some ⟨base, 110⟩ ∧
      (s.resolve "grid").1.now = 165 ∧
      (s.resolve "grid").1.cache.schemas.entries.get? "grid" = some ⟨schema, 140⟩ := by
  intro base schema source rsi s
  have quiet : s.Quiet := ⟨rfl, rfl⟩
  have lacks : s.Lacks schema "base" := by decide +kernel
  have given : s.source.fragment? "base" = some ⟨10, .ok base⟩ := rfl
  have soon : s.longest schema = 25 := by decide +kernel
  have late : Supply.longest { s.toSupply with now := 140 } schema = 25 := by decide +kernel
  have arrival : s.arrival "grid" = 140 := by decide +kernel
  have asked : (s.resolve "grid").2.toOption.any (fun r => r.fromCache = false ∧ r.schema = schema) = true := by
    decide +kernel
  have both := latency_of_fetching quiet schema "grid"
  have fetched := both.1 _ (.inl rfl)
  rw [arrival] at both
  refine ⟨quiet, by rw [fetched.ends, soon], fetched.stored "base" 10 base lacks given, ?_⟩
  generalize s.resolve "grid" = x at both asked
  obtain ⟨t, result⟩ := x
  cases result with
  | error e => cases asked
  | ok r =>
    obtain ⟨called, same⟩ : r.fromCache = false ∧ r.schema = schema := by simpa [Except.toOption] using asked
    obtain ⟨timed, stored⟩ := both.2
    rw [same] at timed
    rw [called, same] at stored
    refine ⟨?_, stored⟩
    show t.now = 165
    rw [timed.ends, late]

end StrategyForm.Session
