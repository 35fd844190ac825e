import StrategyForm.Proofs.Session.Asked
import StrategyForm.Proofs.Session.Truth

/-!
# Fetching the fragments of a schema

Main statement (`fragments_fetched`): what becomes of each fragment that a schema refers to depends on
the valid entry that the cache had at the beginning and on the reply of the source alone, not on how
long the replies take; a fragment that had to be asked for is asked for once, and stored at the time of
its own arrival; nothing else is stored.

The invariant is kept along a list of ids that are `left`: those that have still to be asked for, and
those on their way. It says of every other id that it is known what became of it (`Collecting`) and that
its entry is the one that it has in the end (`Filling`). To ask for a fragment moves it to those on
their way, or settles it at once; whatever arrives is settled.
-/

namespace StrategyForm.Session

namespace Supply
variable (u : Supply) (schema : Schema)

/-- The schema refers to the fragment, and the cache has none that is valid. -/
def Lacks (id : String) : Prop :=
  id ∈ schema.fragmentIds ∧ ¬ u.cache.fragments.Valid u.cache.ttl u.now id

instance (id : String) : Decidable (u.Lacks schema id) := inferInstanceAs (Decidable (_ ∧ _))

/-- What is known of a fragment in the end: the valid one of the cache counts, else the reply. -/
def verdict (id : String) : Option Outcome :=
  if id ∈ schema.fragmentIds then
    some ((u.cache.fragment? u.now id).elim (u.source.outcome id) .resolved)
  else none

/-- The entry of a fragment in the end. -/
def entryAfter (id : String) : Option (Entry Fragment) :=
  match (u.source.fragment id).result with
  | .ok f =>
    if u.Lacks schema id then some ⟨f, u.now + (u.source.fragment id).delay⟩
    else u.cache.fragments.entries.get? id
  | .error _ => u.cache.fragments.entries.get? id

/-- Of all fragments but those that are left it is known what became of them. -/
structure Collecting (left : List String) (g : Gathering) : Prop where
  nodup : left.Nodup
  lacking : ∀ id ∈ left, u.Lacks schema id
  replies : ∀ x ∈ g.arrivals, x.result = (u.source.fragment x.id).result ∧
    x.due = u.now + (u.source.fragment x.id).delay
  known : ∀ id, id ∉ left → g.outcomes.get? id = u.verdict schema id

/-- All fragments but those that are left have the entry of the end. -/
structure Filling (left : List String) (c : Cache) : Prop where
  schemas : c.schemas = u.cache.schemas
  entries : ∀ id, c.fragments.entries.get? id =
    if id ∈ left then u.cache.fragments.entries.get? id else u.entryAfter schema id

variable {u schema} {v : Supply} {a : Agent} {g : Gathering} {id : String} {left left' : List String}

theorem verdict_of_lacks (h : u.Lacks schema id) : u.verdict schema id = some (u.source.outcome id) := by
  have missing : u.cache.fragment? u.now id = none := Store.not_valid_iff.1 h.2
  rw [verdict, if_pos h.1, missing]
  rfl

theorem entryAfter_of_not_lacks (h : ¬ u.Lacks schema id) :
    u.entryAfter schema id = u.cache.fragments.entries.get? id := by
  unfold entryAfter
  split
  · rw [if_neg h]
  · rfl

theorem mem_missing_iff : id ∈ (u.cache.partition u.now schema.fragmentIds).2.missing ↔ u.Lacks schema id := by
  rw [(Cache.partition_spec u.cache u.now schema.fragmentIds).missing id, Lacks, Store.not_valid_iff]
  rfl

namespace Collecting

theorem perm (h : u.Collecting schema left g) (p : left.Perm left') : u.Collecting schema left' g :=
  ⟨p.nodup_iff.1 h.nodup, fun id mem => h.lacking id (p.mem_iff.2 mem), h.replies,
    fun id other => h.known id fun mem => other (p.mem_iff.1 mem)⟩

/-- The reply to the call for a fragment settles it. -/
theorem receive (h : u.Collecting schema (id :: left) g) (v : Supply) (a : Agent) :
    u.Collecting schema left (v.receiveFragment a g id (u.source.fragment id).result).2 := by
  refine ⟨(List.nodup_cons.1 h.nodup).2, fun k mem => h.lacking k (List.mem_cons_of_mem _ mem),
    h.replies, fun k other => ?_⟩
  show (g.outcomes.insert id (u.source.outcome id)).get? k = _
  rw [Keyed.get?_insert]
  by_cases same : id = k
  · rw [if_pos same, ← same, verdict_of_lacks (h.lacking id List.mem_cons_self)]
  · rw [if_neg same]
    refine h.known k fun mem => ?_
    rcases List.mem_cons.1 mem with e | mem
    · exact same e.symm
    · exact other mem

end Collecting

namespace Filling

theorem perm {c : Cache} (h : u.Filling schema left c) (p : left.Perm left') : u.Filling schema left' c :=
  ⟨h.schemas, fun id => by rw [h.entries id]; simp only [p.mem_iff]⟩

/-- A fragment that is given is stored at the time of its arrival; a fault stores nothing. -/
theorem receive (h : u.Filling schema (id :: left) v.cache) (collecting : u.Collecting schema (id :: left) g)
    (due : v.now = u.now + (u.source.fragment id).delay) (a : Agent) :
    u.Filling schema left (v.receiveFragment a g id (u.source.fragment id).result).1.cache := by
  obtain ⟨fresh, -⟩ := List.nodup_cons.1 collecting.nodup
  have others {k : String} (other : id ≠ k) : (if k ∈ id :: left then u.cache.fragments.entries.get? k
      else u.entryAfter schema k) = if k ∈ left then u.cache.fragments.entries.get? k
      else u.entryAfter schema k := by
    simp only [List.mem_cons, Ne.symm other, false_or]
  cases reply : (u.source.fragment id).result with
  | error e =>
    refine ⟨h.schemas, fun k => ?_⟩
    show v.cache.fragments.entries.get? k = _
    rw [h.entries k]
    by_cases same : id = k
    · subst same
      rw [if_pos List.mem_cons_self, if_neg fresh, entryAfter, reply]
    · exact others same
  | ok f =>
    refine ⟨h.schemas, fun k => ?_⟩
    show (v.cache.fragments.entries.insert id ⟨f, v.now⟩).get? k = _
    rw [Keyed.get?_insert]
    by_cases same : id = k
    · subst same
      rw [if_pos rfl, if_neg fresh, due, entryAfter, reply]
      exact (if_pos (collecting.lacking id List.mem_cons_self)).symm
    · rw [if_neg same, h.entries k]
      exact others same

end Filling

/-! ### Asking -/

/-- To ask for one of the fragments that are left: it arrives at once, or is on its way. -/
theorem askFragment_collecting (now : v.now = u.now) (source : v.source = u.source)
    (collecting : u.Collecting schema (id :: (left ++ g.arrivals.map (·.id))) g)
    (filling : u.Filling schema (id :: (left ++ g.arrivals.map (·.id))) v.cache) :
    let x := askFragment a (v, g) id
    u.Collecting schema (left ++ x.2.arrivals.map (·.id)) x.2 ∧
      u.Filling schema (left ++ x.2.arrivals.map (·.id)) x.1.cache := by
  let called := v.record (.called a (.fragment id) (v.now + (u.source.fragment id).delay))
  have filling : u.Filling schema (id :: (left ++ g.arrivals.map (·.id))) called.cache := filling
  simp only [askFragment, source]
  split
  · rename_i soon
    have due : called.now = u.now + (u.source.fragment id).delay := by
      rw [soon]
      exact now
    exact ⟨collecting.receive called a, filling.receive collecting due a⟩
  · let new : Arrival := ⟨id, v.now + (u.source.fragment id).delay, (u.source.fragment id).result⟩
    have moved : (id :: (left ++ g.arrivals.map (·.id))).Perm
        (left ++ (g.arrivals ++ [new]).map (·.id)) := by
      rw [List.map_append, ← List.append_assoc]
      exact (List.perm_append_singleton ..).symm
    refine ⟨⟨moved.nodup_iff.1 collecting.nodup, (collecting.perm moved).lacking, fun x hx => ?_,
      (collecting.perm moved).known⟩, filling.perm moved⟩
    rcases List.mem_append.1 hx with hx | hx
    · exact collecting.replies x hx
    · rw [List.mem_singleton.1 hx]
      exact ⟨rfl, congrArg (· + (u.source.fragment id).delay) now⟩

theorem askFragments_collecting (ids : List String) (v : Supply) (g : Gathering) (now : v.now = u.now)
    (source : v.source = u.source) (collecting : u.Collecting schema (ids ++ g.arrivals.map (·.id)) g)
    (filling : u.Filling schema (ids ++ g.arrivals.map (·.id)) v.cache) :
    let x := ids.foldl (askFragment a) (v, g)
    u.Collecting schema (x.2.arrivals.map (·.id)) x.2 ∧
      u.Filling schema (x.2.arrivals.map (·.id)) x.1.cache := by
  induction ids generalizing v g with
  | nil => exact ⟨collecting, filling⟩
  | cons id rest ih =>
    obtain ⟨collecting, filling⟩ := askFragment_collecting (a := a) now source collecting filling
    have work : Work a v (askFragment a (v, g) id).1 := askFragment_work id
    exact ih _ _ (work.now.trans now) (work.source.trans source) collecting filling

/-- When all that is missing has been asked for, what is left is on its way. -/
theorem gather_collecting (u : Supply) (a : Agent) (schema : Schema) :
    let x := u.gather a schema
    u.Collecting schema (x.2.arrivals.map (·.id)) x.2 ∧
      u.Filling schema (x.2.arrivals.map (·.id)) x.1.cache := by
  obtain ⟨counted, cached, missing, nodup⟩ := Cache.partition_spec u.cache u.now schema.fragmentIds
  have same := Cache.partition_fragments u.cache u.now schema.fragmentIds
  have schemas := Cache.partition_schemas u.cache u.now schema.fragmentIds
  have lacks (id : String) : id ∈ (u.cache.partition u.now schema.fragmentIds).2.missing ↔ u.Lacks schema id :=
    mem_missing_iff
  unfold gather
  generalize u.cache.partition u.now schema.fragmentIds = x at *
  obtain ⟨c, parts⟩ := x
  have known (id : String) (other : id ∉ parts.missing) :
      (parts.cached.map Outcome.resolved).get? id = u.verdict schema id := by
    rw [Keyed.get?_map, cached, verdict]
    by_cases mem : id ∈ schema.fragmentIds
    · rw [if_pos mem, if_pos mem]
      cases found : u.cache.fragment? u.now id with
      | none => exact absurd ((missing id).2 ⟨mem, found⟩) other
      | some f => rfl
    · rw [if_neg mem, if_neg mem]
      rfl
  have entries (id : String) : c.fragments.entries.get? id = if id ∈ parts.missing then
      u.cache.fragments.entries.get? id else u.entryAfter schema id := by
    rw [same]
    split
    · rfl
    · rename_i other
      exact (entryAfter_of_not_lacks (mt (lacks id).2 other)).symm
  refine askFragments_collecting parts.missing _ _ rfl rfl ?_ ?_
  · rw [List.map_nil, List.append_nil]
    exact ⟨nodup, fun id mem => (lacks id).1 mem, by simp, known⟩
  · rw [List.map_nil, List.append_nil]
    exact ⟨schemas, entries⟩

/-! ### Arriving -/

theorem receiveFragments_collecting (list : List Arrival) (v : Supply) (g : Gathering)
    (replies : ∀ x ∈ list, x.result = (u.source.fragment x.id).result ∧
      x.due = u.now + (u.source.fragment x.id).delay)
    (collecting : u.Collecting schema (list.map (·.id) ++ left) g) :
    let x := list.foldl (fun (v, g) x => v.receiveFragment a g x.id x.result) (v, g)
    u.Collecting schema left x.2 ∧
      ((∀ x ∈ list, x.due = v.now) → u.Filling schema (list.map (·.id) ++ left) v.cache →
        u.Filling schema left x.1.cache) := by
  induction list generalizing v g with
  | nil => exact ⟨collecting, fun _ filling => filling⟩
  | cons x rest ih =>
    obtain ⟨reply, due⟩ := replies x List.mem_cons_self
    have now : (v.receiveFragment a g x.id x.result).1.now = v.now := (receiveFragment_work ..).now
    have received := collecting.receive v a
    rw [← reply] at received
    obtain ⟨collected, filled⟩ := ih (v.receiveFragment a g x.id x.result).1
      (v.receiveFragment a g x.id x.result).2 (fun y hy => replies y (List.mem_cons_of_mem _ hy)) received
    refine ⟨collected, fun here filling => filled (fun y hy => ?_) ?_⟩
    · rw [now]
      exact here y (List.mem_cons_of_mem _ hy)
    · rw [reply]
      exact filling.receive collecting ((here x List.mem_cons_self).symm.trans due) a

/-- What is due arrives; of what is not, it is still unknown what becomes of it. -/
theorem arrive_collecting (v : Supply) (a : Agent)
    (collecting : u.Collecting schema (g.arrivals.map (·.id)) g) :
    let x := v.arrive a g
    u.Collecting schema (x.2.arrivals.map (·.id)) x.2 ∧
      ((∀ x ∈ g.arrivals, v.now ≤ x.due) → u.Filling schema (g.arrivals.map (·.id)) v.cache →
        u.Filling schema (x.2.arrivals.map (·.id)) x.1.cache) := by
  have parts : (g.arrivals.map (·.id)).Perm ((g.arrivals.filter (·.due ≤ v.now)).map (·.id) ++
      (g.arrivals.filter (v.now < ·.due)).map (·.id)) := by
    rw [← List.map_append]
    refine (((List.filter_append_perm (fun x : Arrival => decide (x.due ≤ v.now)) g.arrivals).symm.map _).trans ?_)
    refine List.Perm.of_eq ?_
    simp only [← decide_not, Nat.not_le]
  intro x
  have later : x.2.arrivals = g.arrivals.filter (v.now < ·.due) := arrive_arrivals
  rw [later]
  have start : u.Collecting schema ((g.arrivals.filter (·.due ≤ v.now)).map (·.id) ++
      (g.arrivals.filter (v.now < ·.due)).map (·.id))
      { g with arrivals := g.arrivals.filter (v.now < ·.due) } := by
    have h := collecting.perm parts
    exact ⟨h.nodup, h.lacking, fun y hy => h.replies y (List.mem_filter.1 hy).1, h.known⟩
  obtain ⟨collected, filled⟩ := receiveFragments_collecting (a := a) _ v _
    (fun y hy => collecting.replies y (List.mem_filter.1 hy).1) start
  refine ⟨collected, fun early filling => filled (fun y hy => ?_) (filling.perm parts)⟩
  obtain ⟨mem, here⟩ := List.mem_filter.1 hy
  exact Nat.le_antisymm (of_decide_eq_true here) (early y mem)

end Supply

/-! ### Fetching -/

theorem fetchFragments_collected (s : Session) (schema : Schema) :
    (∀ id, (s.fetchFragments schema).2.outcomes.get? id = s.verdict schema id) ∧
      (s.Quiet → s.Filling schema [] (s.fetchFragments schema).1.cache) := by
  obtain ⟨collecting, filling⟩ := Supply.gather_collecting s.toSupply .foreground schema
  constructor
  · obtain ⟨collected, complete⟩ := fetchFragments_induction s schema
      (P := fun _ g => s.Collecting schema (g.arrivals.map (·.id)) g)
      (fun _ _ _ h => (Supply.arrive_collecting _ .foreground h).1) collecting
    rw [complete, List.map_nil] at collected
    exact fun id => collected.known id List.not_mem_nil
  · intro q
    obtain ⟨⟨-, filled⟩, complete⟩ := q.fetchFragments_induction schema
      (P := fun u g => s.Collecting schema (g.arrivals.map (·.id)) g ∧
        s.Filling schema (g.arrivals.map (·.id)) u.cache)
      ⟨collecting, filling⟩ fun u g due next _ h => by
        -- all that is due is due at that very moment, since the clock stops for the next
        obtain ⟨collected, filled⟩ := Supply.arrive_collecting { u with now := due } .foreground h.1
        exact ⟨collected, filled (le_of_next?_arrivals next).2 h.2⟩
    rwa [complete, List.map_nil] at filled

/-- What is known of the fragments of a schema after they were fetched: of each that the schema refers
to, the valid one that the cache had, else what the source replied, however long that took. Each that
the cache lacked was asked for once and no other was. If no run is under way, the cache has afterwards
each that was given under the id it was asked for, with the time of its own arrival, and is otherwise
the same, entries that are too old included. -/
theorem fragments_fetched (s : Session) (schema : Schema) :
    let t := (s.fetchFragments schema).1
    let outcomes := (s.fetchFragments schema).2.outcomes
    let entries := s.cache.fragments.entries
    (∀ id, id ∈ outcomes.keys ↔ id ∈ schema.fragmentIds) ∧
    (∀ id ∈ schema.fragmentIds, ∀ e, entries.get? id = some e → s.now - e.storedAt < s.cache.ttl →
      outcomes.get? id = some (.resolved e.value)) ∧
    (∀ id, s.Lacks schema id → outcomes.get? id = some (match (s.source.fragment id).result with
      | .ok f => .resolved f
      | .error (.notFound _) => .notFound
      | .error e => .failed e)) ∧
    (∀ id, t.asked (.fragment id) = s.asked (.fragment id) + if s.Lacks schema id then 1 else 0) ∧
    (∀ id, t.asked (.schema id) = s.asked (.schema id)) ∧
    (s.Quiet → t.cache.schemas = s.cache.schemas ∧
      ∀ id, t.cache.fragments.entries.get? id = match (s.source.fragment id).result with
        | .ok f =>
          if s.Lacks schema id then some ⟨f, s.now + (s.source.fragment id).delay⟩ else entries.get? id
        | .error _ => entries.get? id) ∧
    ∀ source : Source, (∀ id, (source.fragment id).result = (s.source.fragment id).result) →
      ({ s with source }.fetchFragments schema).2.outcomes = outcomes := by
  intro t outcomes entries
  obtain ⟨known, stored⟩ := fetchFragments_collected s schema
  have known : ∀ id, outcomes.get? id = s.verdict schema id := known
  refine ⟨fun id => ?_, fun id mem e he young => ?_, fun id lacks => ?_, fun id => ?_, fun id => ?_,
    fun q => ⟨(stored q).schemas, (stored q).entries⟩, fun source same => ?_⟩
  · rw [Keyed.mem_keys_iff, Keyed.contains, known, Supply.verdict]
    split <;> simp_all
  · have found : s.cache.fragment? s.now id = some e.value := by
      simp [Cache.fragment?, Store.get?, entries, he, Option.filter, Store.isFresh, young]
    rw [known, Supply.verdict, if_pos mem, found]
    rfl
  · rw [known, Supply.verdict_of_lacks lacks, Source.outcome]
    cases (s.source.fragment id).result with
    | ok f => rfl
    | error e => cases e <;> rfl
  · exact (fetchFragments_asked ..).trans (Supply.gather_asked_fragment ..)
  · exact (fetchFragments_asked ..).trans (Supply.gather_asked_schema ..)
  · refine Keyed.ext fun id => ?_
    rw [known, (fetchFragments_collected { s with source } schema).1]
    show (if id ∈ schema.fragmentIds then _ else _) = (if id ∈ schema.fragmentIds then _ else _)
    simp only [Source.outcome, same]

/-- Of four fragments, one of which is referred to twice, one is at hand, one is given under another id,
one is too old in the cache and cannot be had again, and one does not exist. -/
theorem fragments_fetched_of_four :
    let base : Fragment := { id := "other", name := "Base" }
    let source : Source := { fragment? := fun id =>
      if id = "base" then some { delay := 10, result := .ok base }
      else if id = "old" then some { delay := 3, result := .error (.network "reset") }
      else none }
    let faster : Source := { fragment? := fun id => (source.fragment? id).map ({ · with delay := 0 }) }
    let rsi : Entry Fragment := ⟨{ id := "rsi", name := "RSI" }, 80⟩
    let old : Entry Fragment := ⟨{ id := "old", name := "Old" }, 20⟩
    let s : Session :=
      { now := 100, source, cache := { ttl := 50, fragments := ⟨.ofList [("rsi", rsi), ("old", old)]⟩ } }
    let schema : Schema :=
      { id := "grid", name := "Grid", fragments :=
        [.mandatory "base", .voluntary "rsi", .voluntary "base", .voluntary "old", .voluntary "gone"] }
    let t := (s.fetchFragments schema).1
    let outcomes := (s.fetchFragments schema).2.outcomes
    s.Quiet ∧ s.cache.fragments.entries.get? "rsi" = some rsi ∧ s.now - rsi.storedAt < s.cache.ttl ∧
    (∀ id ∈ ["base", "old", "gone"], s.Lacks schema id) ∧
    (∀ id, (faster.fragment id).result = (s.source.fragment id).result) ∧
    outcomes.get? "rsi" = some (.resolved rsi.value) ∧ outcomes.get? "base" = some (.resolved base) ∧
    outcomes.get? "old" = some (.failed (.network "reset")) ∧ outcomes.get? "gone" = some .notFound ∧
    t.cache.fragments.entries.get? "base" = some ⟨base, s.now + 10⟩ ∧
    t.cache.fragments.entries.get? "old" = some old ∧
    ({ s with source := faster }.fetchFragments schema).2.outcomes = outcomes := by
  intro base source faster rsi old s schema t outcomes
  have quiet : s.Quiet := ⟨rfl, rfl⟩
  have stored : s.cache.fragments.entries.get? "rsi" = some rsi := by decide +kernel
  have young : s.now - rsi.storedAt < s.cache.ttl := by decide
  have lacks : ∀ id ∈ ["base", "old", "gone"], s.Lacks schema id := by decide +kernel
  have same (id : String) : (faster.fragment id).result = (s.source.fragment id).result := by
    have reply : faster.fragment? id = (source.fragment? id).map ({ · with delay := 0 }) := rfl
    show (faster.fragment id).result = (source.fragment id).result
    rw [Source.fragment, Source.fragment, reply]
    cases source.fragment? id <;> rfl
  have base_reply : s.source.fragment "base" = { delay := 10, result := .ok base } := by
    simp [s, source, Source.fragment]
  have old_reply : (s.source.fragment "old").result = .error (.network "reset") := by
    simp [s, source, Source.fragment]
  have gone_reply : (s.source.fragment "gone").result = .error (.notFound "gone") := by
    simp [s, source, Source.fragment]
  obtain ⟨-, valid, given, -, -, entries, delays⟩ := fragments_fetched s schema
  obtain ⟨-, entries⟩ := entries quiet
  have base_given := given "base" (lacks _ (by decide))
  have old_given := given "old" (lacks _ (by decide))
  have gone_given := given "gone" (lacks _ (by decide))
  have after : (s.fetchFragments schema).1 = t := rfl
  rw [after] at entries
  have base_entry := entries "base"
  have old_entry := entries "old"
  rw [base_reply] at base_given base_entry
  rw [old_reply] at old_given old_entry
  rw [gone_reply] at gone_given
  dsimp only at base_entry
  rw [if_pos (lacks "base" (by decide))] at base_entry
  have old_stored : s.cache.fragments.entries.get? "old" = some old := by decide +kernel
  exact ⟨quiet, stored, young, lacks, same, valid "rsi" (by decide) rsi stored young, base_given,
    old_given, gone_given, base_entry, old_entry.trans old_stored, delays faster same⟩

end StrategyForm.Session
