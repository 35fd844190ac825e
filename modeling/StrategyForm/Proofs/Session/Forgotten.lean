import StrategyForm.Proofs.Session.Booked
import StrategyForm.Proofs.Session.Fresh

/-!
# Forgetting and asking again

Main statements: once a binding's schema was forgotten, whatever is resolved later uses a schema that
the source was called for since, or one that a run was waiting for at that time
(`forgotten_or_in_flight`). The run that is started by asking again uses a schema that the source was
called for since, or one that a run waited for and that was due at that very moment
(`asked_again_or_due`). A run that is cancelled counts among those that wait if its reply is there at
that moment: it may still put it in the cache.

To forget a schema does not reach the calls under way: what they bring is put in the cache like any
other reply and found there by whoever looks next (`stale_after_invalidation`, `stale_after_refetch`).
-/

namespace StrategyForm.Session

variable {s : Session} {b : Nat} {id : String}

/-! ### Origins -/

/-- Some run waits for this schema of a strategy and may still receive it. -/
def IsUnderWay (s : Session) (id : String) (schema : Schema) : Prop :=
  ∃ r ∈ s.runs, ∃ due, r.Expects id schema due ∧ s.MayReceive r due

/-- The schema of a strategy was forgotten. The later runs are those with higher numbers. -/
def Origin.forgotten (s : Session) (id : String) : Origin where
  id := id
  given _ := False
  flight due schema := ∃ r ∈ s.runs, r.Expects id schema due ∧ s.MayReceive r due
  opens _ := True
  late k strategy := (s.binding k.1).generation < k.2 ∧ strategy = some id

/-- A binding forgot the schema of its strategy and asks again. The later run is the one that is started
by this, before time goes on. -/
def Origin.askedAgain (s : Session) (b : Nat) (id : String) : Origin where
  id := id
  given _ := False
  flight due schema := ∃ r ∈ s.runs, r.Expects id schema due
  opens due := due ≤ s.now
  late k _ := k = (b, (s.binding b).generation + 1)

/-- The session whose cache does not know the schema of a strategy any more. -/
def without (s : Session) (id : String) : Session := { s with cache := s.cache.invalidateSchema id }

theorem invalidateCache_of_requested (requested : (s.binding b).requested = some id) :
    s.invalidateCache b = s.without id := by
  rw [invalidateCache, requested]
  rfl

theorem refetch_of_requested (requested : (s.binding b).requested = some id) :
    s.refetch b = (s.without id).startRun b (some id) := by
  rw [refetch, invalidateCache_of_requested requested, requested]

theorem lt_length_of_requested (requested : (s.binding b).requested = some id) :
    b < s.bindings.length := by
  rcases Nat.lt_or_ge b s.bindings.length with hb | hb
  · exact hb
  · rw [binding_of_length_le s b hb] at requested
    cases requested

theorem without_all (s : Session) (id : String) {P : String → Entry Schema → Prop}
    (others : ∀ k e, k ≠ id → s.cache.schemas.entries.get? k = some e → P k e) :
    (s.without id).cache.schemas.All P := by
  intro k e he
  simp only [without, Cache.invalidateSchema, Store.remove, Keyed.get?_erase] at he
  split at he
  · cases he
  · rename_i ne
    exact others k e (Ne.symm ne) he

theorem Origin.Fresh.forgotten (o : s.Orderly) (d : s.Disciplined) (id : String) :
    (Origin.forgotten s id).Fresh (s.without id) := by
  refine ⟨s.without_all id fun k e ne _ same => absurd same ne,
    fun r hr schema due expects may => .inr ⟨r, hr, expects, may⟩,
    fun l hl late => ⟨late.2, fun _ _ => trivial⟩, fun r hr late => ?_, fun b st hd late => ?_⟩
  · have earlier := o.generation_le hr
    have later : (s.binding r.binding).generation < r.generation := late.1
    omega
  · have earlier := d.generation_le b st (mem_published.2 hd)
    have later : (s.binding b).generation < st.generation := late.1
    omega

theorem Origin.Fresh.askedAgain (o : s.Orderly) (d : s.Disciplined) (hb : b < s.bindings.length)
    (id : String) : (Origin.askedAgain s b id).Fresh ((s.without id).startRun b (some id)) := by
  -- no run that was launched before has the new number
  have new {k : Nat × Nat} (hk : k ∈ s.pending) (late : k = (b, (s.binding b).generation + 1)) : False := by
    subst late
    exact Nat.not_succ_le_self _ (o.launched _ hk hb)
  refine ⟨s.without_all id fun k e ne _ same => absurd same ne,
    fun r hr schema due expects _ => .inr ⟨r, hr, expects⟩, fun l hl late => ⟨?_, fun due le => le⟩,
    fun r hr late => (new (mem_pending_of_run hr) late).elim, fun b' st hd late => ?_⟩
  · rcases List.mem_append.1 hl with hl | hl
    · exact (new (mem_pending_of_launch hl) late).elim
    · rw [List.mem_singleton.1 hl]
      rfl
  · have earlier := d.generation_le b' st (mem_published.2 hd)
    have same : (b', st.generation) = (b, (s.binding b).generation + 1) := late
    rw [Prod.mk.injEq] at same
    rw [same.1, same.2] at earlier
    exact absurd earlier (Nat.not_succ_le_self _)

/-! ### Answers -/

/-- What is resolved comes from the cache, or the source is called for it. -/
theorem resolve_schema {s : Session} {id : String} {r : Resolution} (h : (s.resolve id).2 = .ok r) :
    s.cache.schema? s.now id = some r.schema ∨
      Adds (Deed.IsCall id) s.history (s.resolve id).1.history ∧ s.source.truth id = .ok r.schema := by
  cases found : s.cache.schema? s.now id with
  | some schema =>
    rw [resolve_of_found found] at h
    cases h
    exact .inl rfl
  | none =>
    refine .inr ?_
    have look : Grows (fun _ => True) s.history (s.look .foreground id).history := .single trivial
    have called := (fetchSchema_adds (s.look .foreground id) id).before look
    have truth : ((s.look .foreground id).fetchSchema id).2 = s.source.truth id := fetchSchema_snd ..
    rw [resolve_of_missing found] at h ⊢
    generalize (s.look .foreground id).fetchSchema id = x at *
    obtain ⟨t, result⟩ := x
    cases result with
    | error e => cases h
    | ok schema =>
      cases h
      exact ⟨called.behind (fetchFragments_moves t schema).grows, truth.symm⟩

/-! ### Forgetting -/

/-- Once a binding's schema was forgotten, whatever is resolved later, and whatever a run that was
started later has or publishes, comes from a call that was made since, or from one that a run was
waiting for at that time. -/
theorem forgotten_or_in_flight (ttl : Nat) (source : Source) (n : Nat) (luck : Luck) (before : List Step)
    (b : Nat) (id : String) (after : List Step)
    (requested : (((start { ttl } source n luck).steps before).binding b).requested = some id)
    (free : ∀ x ∈ after, x.puts id = false) :
    let s := (start { ttl } source n luck).steps before
    let t := (s.step (.invalidateCache b)).1
    let u := t.steps after
    (∀ r, (u.resolve id).2 = .ok r →
      Gives id r.schema t (after ++ [.resolve id]) ∨ s.IsUnderWay id r.schema) ∧
    (∀ r ∈ u.runs, r.strategy = id → (s.binding r.binding).generation < r.generation →
      ∀ schema, r.schema? = some schema → Gives id schema t after ∨ s.IsUnderWay id schema) ∧
    ∀ b', ∀ st ∈ u.published b', st.strategyId = some id → (s.binding b').generation < st.generation →
      st.loading = false → ∀ schema, st.schema = some schema →
        Gives id schema t after ∨ s.IsUnderWay id schema := by
  intro s t u
  have forgotten : t = s.without id := invalidateCache_of_requested requested
  have start : (Origin.forgotten s id).Fresh t := by
    rw [forgotten]
    exact .forgotten (orderly_steps _ source n luck before) (disciplined_steps _ source n luck before) id
  have orderly : t.Orderly := (orderly_steps _ source n luck before).step (.invalidateCache b)
  have fresh := start.steps after orderly free fun _ _ _ _ late => ⟨late.2, fun _ _ => trivial⟩
  have allowed {schema : Schema} (h : (False ∨ Gives id schema t after) ∨
      ∃ due, True ∧ ∃ r ∈ s.runs, r.Expects id schema due ∧ s.MayReceive r due) :
      Gives id schema t after ∨ s.IsUnderWay id schema := by
    rcases h with (none | gives) | ⟨due, -, r, hr, expects, may⟩
    · exact none.elim
    · exact .inl gives
    · exact .inr ⟨r, hr, due, expects, may⟩
  refine ⟨fun r answer => ?_, fun r hr same late schema e => ?_, fun b' st hst same late settled schema e => ?_⟩
  · rcases resolve_schema answer with found | ⟨called, truth⟩
    · rcases fresh.found found with (none | gives) | ⟨due, -, r', hr', expects, may⟩
      · exact none.elim
      · exact .inl (gives.append _)
      · exact .inr ⟨r', hr', due, expects, may⟩
    · exact .inl ⟨after, .resolve id, [], rfl, called, truth⟩
  · exact allowed ((fresh.running r hr ⟨late, congrArg some same⟩).2 schema e)
  · exact allowed (fresh.published b' st (mem_published.1 hst) ⟨late, same⟩ settled schema e)

/-- A schema that nobody waited for when it was forgotten is called for again. -/
theorem forgotten_or_in_flight_when_settled :
    let source : Source :=
      { schema? := fun id => some { delay := 10, result := .ok { id, name := "Old" } } }
    let before : List Step := [.setStrategy 0 (some "grid"), .tick 20]
    let after : List Step := [.setSource [("grid", { result := .ok { id := "grid", name := "New" } })] []]
    let s := (start { ttl := 1000 } source 1).steps before
    let t := (s.step (.invalidateCache 0)).1
    let answer := ((t.steps after).resolve "grid").2
    (s.binding 0).requested = some "grid" ∧ (∀ x ∈ after, x.puts "grid" = false) ∧
      answer.map (·.schema.name) = .ok "New" ∧
      ∀ r, answer = .ok r → Gives "grid" r.schema t (after ++ [.resolve "grid"]) := by
  intro source before after s t answer
  have requested : (s.binding 0).requested = some "grid" := by decide +kernel
  have free : ∀ x ∈ after, x.puts "grid" = false := by decide
  have settled : s.runs = [] := List.length_eq_zero_iff.1 (by decide +kernel)
  refine ⟨requested, free, by decide +kernel, fun r ok => ?_⟩
  rcases (forgotten_or_in_flight 1000 source 1 _ before 0 "grid" after requested free).1 r ok with
    gives | ⟨r', waits, -⟩
  · exact gives
  · rw [show Session.runs _ = [] from settled] at waits
    cases waits

/-- A call under way when the schema is forgotten: what it brings is used later, and the source is not
called again. -/
theorem stale_after_invalidation :
    let source : Source :=
      { schema? := fun id => some { delay := 10, result := .ok { id, name := "Old" } } }
    let s := (start { ttl := 1000 } source 1).steps [.setStrategy 0 (some "grid"), .tick 1]
    let t := (s.step (.invalidateCache 0)).1
    let u := t.steps
      [.setSource [("grid", { result := .ok { id := "grid", name := "New" } })] [], .tick 20]
    let (v, answer) := u.resolve "grid"
    (s.binding 0).requested = some "grid" ∧
      answer.map (fun r => (r.schema.name, r.fromCache)) = .ok ("Old", true) ∧
      v.calls (.schema "grid") = s.calls (.schema "grid") := by
  decide +kernel

/-! ### Asking again -/

/-- The run that is started by asking again publishes a schema that the source was called for since, or
one that a run waited for, the cancelled one of the same binding included, and that was due at that
moment. -/
theorem asked_again_or_due (ttl : Nat) (source : Source) (n : Nat) (luck : Luck) (before : List Step)
    (b : Nat) (id : String) (after : List Step)
    (requested : (((start { ttl } source n luck).steps before).binding b).requested = some id)
    (free : ∀ x ∈ after, x.puts id = false) :
    let s := (start { ttl } source n luck).steps before
    let t := (s.step (.refetch b)).1
    ∀ st ∈ (t.steps after).published b, st.generation = (t.binding b).generation → st.loading = false →
      ∀ schema, st.schema = some schema →
        Gives id schema t after ∨ ∃ r ∈ s.runs, r.Expects id schema s.now := by
  intro s t st hst number settled schema e
  have hb : b < s.bindings.length := lt_length_of_requested requested
  have booked : s.Booked := booked_steps ttl source n luck before
  have started : t = (s.without id).startRun b (some id) := refetch_of_requested requested
  have generation : (t.binding b).generation = (s.binding b).generation + 1 := by
    rw [started, startRun_binding, if_pos ⟨rfl, hb⟩]
    rfl
  have start : (Origin.askedAgain s b id).Fresh t := by
    rw [started]
    exact .askedAgain (orderly_steps _ source n luck before) (disciplined_steps _ source n luck before) hb id
  have orderly : t.Orderly := (orderly_steps _ source n luck before).step (.refetch b)
  -- no run that is launched later has the number of this one
  have fresh := start.steps after orderly free fun u lasts b' _ late => by
    have same : (b', (u.binding b').generation + 1) = (b, (s.binding b).generation + 1) := late
    rw [Prod.mk.injEq] at same
    have later := lasts.generation_le b'
    rw [same.1, generation] at later
    have number := same.2
    rw [same.1] at number
    omega
  rw [generation] at number
  rcases fresh.published b st (mem_published.1 hst) (by rw [number]; rfl) settled schema e with
    (none | gives) | ⟨due, le, r, hr, expects⟩
  · exact none.elim
  · exact .inl gives
  · -- nobody waits for what was due earlier, so it was due just then
    obtain ⟨same, reply, stage, rfl⟩ := expects
    have later := (booked.runs r hr).punctual due (by simp [Run.dues, stage])
    obtain rfl : due = s.now := Nat.le_antisymm le later
    exact .inr ⟨r, hr, same, reply, stage, rfl⟩

/-- When nothing is under way, asking again brings what the source gives by then. -/
theorem asked_again_or_due_when_settled :
    let source : Source :=
      { schema? := fun id => some { delay := 10, result := .ok { id, name := "Old" } } }
    let before : List Step := [.setStrategy 0 (some "grid"), .tick 20,
      .setSource [("grid", { result := .ok { id := "grid", name := "New" } })] []]
    let s := (start { ttl := 1000 } source 1).steps before
    let t := (s.step (.refetch 0)).1
    let u := t.steps [.tick 20]
    (s.binding 0).requested = some "grid" ∧ (∀ x ∈ [Step.tick 20], x.puts "grid" = false) ∧
      ∃ st ∈ u.published 0, st.generation = (t.binding 0).generation ∧ st.loading = false ∧
        ∃ schema, st.schema = some schema ∧ schema.name = "New" ∧ Gives "grid" schema t [.tick 20] := by
  intro source before s t u
  have requested : (s.binding 0).requested = some "grid" := by decide +kernel
  have free : ∀ x ∈ [Step.tick 20], x.puts "grid" = false := by decide
  have settled : s.runs = [] := List.length_eq_zero_iff.1 (by decide +kernel)
  obtain ⟨st, hst, number, shown, name⟩ : ∃ st ∈ u.published 0,
      st.generation = (t.binding 0).generation ∧ st.loading = false ∧
        st.schema.map Schema.name = some "New" := by decide +kernel
  obtain ⟨schema, e, name⟩ := Option.map_eq_some_iff.1 name
  refine ⟨requested, free, st, hst, number, shown, schema, e, name, ?_⟩
  rcases asked_again_or_due 1000 source 1 _ before 0 "grid" [.tick 20] requested free st hst number shown
    schema e with gives | ⟨r, waits, -⟩
  · exact gives
  · rw [show Session.runs _ = [] from settled] at waits
    cases waits

/-- Another binding's run waits for the same schema, and its reply is due when the schema is forgotten and
asked for again: the new run finds that reply in the cache, and the source is not called again. -/
theorem stale_after_refetch :
    let reply (delay : Nat) (id name : String) : String × Reply Schema :=
      (id, { delay, result := .ok { id, name } })
    let s := (start { ttl := 1000 } {} 2).steps [.setStrategy 0 (some "grid"), .tick 0,
      .setSource [reply 10 "rsi" "RSI", reply 10 "grid" "Old"] [], .setStrategy 1 (some "grid"),
      .resolve "rsi", .setSource [reply 5 "grid" "New"] []]
    let t := (s.step (.refetch 0)).1
    let u := t.steps [.tick 20]
    let st := (u.binding 0).state
    (s.binding 0).requested = some "grid" ∧ st.generation = (t.binding 0).generation ∧
      st.isSettled = true ∧ st.schema.map Schema.name = some "Old" ∧
      u.calls (.schema "grid") = s.calls (.schema "grid") := by
  decide +kernel

end StrategyForm.Session
