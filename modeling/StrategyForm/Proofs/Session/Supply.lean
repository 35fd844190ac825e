import StrategyForm.Proofs.Cache.LookUp
import StrategyForm.Proofs.Session.Frame

/-!
# What fetching does to the supply

An agent that asks or receives leaves the clock and the source as they are and adds calls and deposits
of its own to the history (`Supply.Work`). Gathering asks for fragments and arriving takes them in;
neither touches the stored schemas, and what stays on its way is due later than now.
-/

namespace StrategyForm.Session

/-- The history grew by deeds of a kind. -/
def Grows (P : Deed → Prop) (old new : List Deed) : Prop := ∃ more, new = old ++ more ∧ ∀ d ∈ more, P d

namespace Grows
variable {P Q : Deed → Prop} {h₁ h₂ h₃ : List Deed}

theorem refl (P : Deed → Prop) (h : List Deed) : Grows P h h := ⟨[], by simp⟩

theorem trans (a : Grows P h₁ h₂) (b : Grows P h₂ h₃) : Grows P h₁ h₃ := by
  obtain ⟨m₁, rfl, p₁⟩ := a
  obtain ⟨m₂, rfl, p₂⟩ := b
  refine ⟨m₁ ++ m₂, List.append_assoc .., fun d hd => ?_⟩
  exact (List.mem_append.1 hd).elim (p₁ d) (p₂ d)

theorem mono (a : Grows P h₁ h₂) (imp : ∀ d, P d → Q d) : Grows Q h₁ h₂ :=
  let ⟨more, e, p⟩ := a
  ⟨more, e, fun d hd => imp d (p d hd)⟩

theorem single {d : Deed} (p : P d) : Grows P h₁ (h₁ ++ [d]) := ⟨[d], rfl, by simpa using p⟩

theorem mem (a : Grows P h₁ h₂) {d : Deed} (hd : d ∈ h₁) : d ∈ h₂ := by
  obtain ⟨more, rfl, -⟩ := a
  exact List.mem_append_left _ hd

theorem mem_cases (a : Grows P h₁ h₂) {d : Deed} (hd : d ∈ h₂) : d ∈ h₁ ∨ P d := by
  obtain ⟨more, rfl, p⟩ := a
  exact (List.mem_append.1 hd).imp_right (p d)

/-- Of the same deeds two things are known. -/
theorem and (a : Grows P h₁ h₂) (b : Grows Q h₁ h₂) : Grows (fun d => P d ∧ Q d) h₁ h₂ := by
  obtain ⟨m₁, rfl, p⟩ := a
  obtain ⟨m₂, e, q⟩ := b
  obtain rfl := List.append_cancel_left e
  exact ⟨m₁, rfl, fun d hd => ⟨p d hd, q d hd⟩⟩

end Grows

/-- The agent called the source, or put something in the cache. -/
def Deed.IsWorkOf (a : Agent) : Deed → Prop
  | .called a' _ _ | .stored a' _ _ => a' = a
  | .lookedUp .. | .published .. => False

/-- The results that a gathering waits for are the source's replies. -/
def Gathering.IsFrom (g : Gathering) (source : Source) : Prop :=
  ∀ x ∈ g.arrivals, x.result = (source.fragment x.id).result

namespace Supply

variable {a : Agent} {s t u : Supply} {g : Gathering}

@[simp] theorem record_now (d : Deed) : (s.record d).now = s.now := rfl

@[simp] theorem record_cache (d : Deed) : (s.record d).cache = s.cache := rfl

@[simp] theorem record_history (d : Deed) : (s.record d).history = s.history ++ [d] := rfl

/-- From `s` to `t` only the agent has worked. -/
structure Work (a : Agent) (s t : Supply) : Prop where
  now : t.now = s.now
  source : t.source = s.source
  history : Grows (·.IsWorkOf a) s.history t.history

namespace Work

theorem refl (a : Agent) (s : Supply) : Work a s s := ⟨rfl, rfl, .refl ..⟩

theorem trans (h₁ : Work a s t) (h₂ : Work a t u) : Work a s u :=
  ⟨h₂.now.trans h₁.now, h₂.source.trans h₁.source, h₁.history.trans h₂.history⟩

theorem record {d : Deed} (c : Cache) (h : d.IsWorkOf a) : Work a s ({ s with cache := c }.record d) :=
  ⟨rfl, rfl, .single h⟩

end Work

theorem askSchema_work (id : String) : Work a s (s.askSchema a id).1 := .record s.cache rfl

theorem receiveSchema_work (id : String) (result : Except Fault Schema) :
    Work a s (s.receiveSchema a id result).1 := by
  cases result with
  | ok schema => exact .record _ rfl
  | error e => exact .refl a s

theorem receiveFragment_work (id : String) (result : Except Fault Fragment) :
    Work a s (s.receiveFragment a g id result).1 := by
  cases result with
  | ok f => exact .record _ rfl
  | error e => exact .refl a s

/-- The call itself, before anything of it arrives. -/
theorem askFragment_record {due : Nat} (id : String) :
    Work a s (s.record (.called a (.fragment id) due)) := .record s.cache rfl

theorem askFragment_work (id : String) : Work a s (askFragment a (s, g) id).1 := by
  simp only [askFragment]
  split
  · exact .trans (askFragment_record id) (receiveFragment_work ..)
  · exact askFragment_record id

/-! ### Folds over fragments -/

/-- What holds before the first fragment is asked for, and is kept by each of those that the schema
refers to, holds after gathering. -/
theorem gather_induction {P : Supply × Gathering → Prop} (schema : Schema)
    (start : ∀ c p, s.cache.partition s.now schema.fragmentIds = (c, p) →
      P ({ s with cache := c }, { schema, outcomes := p.cached.map .resolved }))
    (ask : ∀ x, ∀ id ∈ schema.fragmentIds, P x → P (askFragment a x id)) : P (s.gather a schema) := by
  have parts := Cache.partition_spec s.cache s.now schema.fragmentIds
  unfold gather
  exact List.foldlRecOn _ _ (start _ _ rfl) fun x hx id mem => ask x id ((parts.missing id).1 mem).1 hx

/-- What holds when the fragments that are due are taken from those on their way, and is kept by
each of them, holds after they arrived. -/
theorem arrive_induction {P : Supply × Gathering → Prop}
    (start : P (s, { g with arrivals := g.arrivals.filter (s.now < ·.due) }))
    (receive : ∀ t h x, x ∈ g.arrivals → x.due ≤ s.now → P (t, h) →
      P (t.receiveFragment a h x.id x.result)) : P (s.arrive a g) := by
  unfold arrive
  refine List.foldlRecOn _ _ start fun x hx arrival hmem => ?_
  have := List.mem_filter.1 hmem
  exact receive x.1 x.2 arrival this.1 (by simpa using this.2) hx

theorem gather_work (schema : Schema) : Work a s (s.gather a schema).1 :=
  gather_induction (P := fun x => Work a s x.1) schema (fun _ _ _ => ⟨rfl, rfl, .refl ..⟩)
    fun _ id _ h => h.trans (askFragment_work id)

theorem arrive_work : Work a s (s.arrive a g).1 :=
  arrive_induction (P := fun x => Work a s x.1) (.refl a s)
    fun _ _ _ _ _ h => h.trans (receiveFragment_work ..)

@[simp] theorem gather_now (schema : Schema) : (s.gather a schema).1.now = s.now :=
  (gather_work schema).now

@[simp] theorem arrive_now : (s.arrive a g).1.now = s.now := arrive_work.now

/-! ### The time to live -/

theorem lookUpSchema_ttl {id : String} : (s.lookUpSchema a id).1.cache.ttl = s.cache.ttl := by
  obtain ⟨_, _, h⟩ := Cache.getSchema_eq s.cache s.now id
  show (s.cache.getSchema s.now id).1.ttl = _
  rw [h]

theorem receiveSchema_ttl (id : String) (result : Except Fault Schema) :
    (s.receiveSchema a id result).1.cache.ttl = s.cache.ttl := by
  cases result <;> rfl

theorem receiveFragment_ttl (id : String) (result : Except Fault Fragment) :
    (s.receiveFragment a g id result).1.cache.ttl = s.cache.ttl := by
  cases result <;> rfl

theorem askFragment_ttl (id : String) : (askFragment a (s, g) id).1.cache.ttl = s.cache.ttl := by
  simp only [askFragment]
  split
  · exact receiveFragment_ttl ..
  · rfl

theorem gather_ttl (schema : Schema) : (s.gather a schema).1.cache.ttl = s.cache.ttl := by
  refine gather_induction (P := fun x => x.1.cache.ttl = s.cache.ttl) schema ?_ ?_
  · intro c p h
    have counted := (Cache.partition_spec s.cache s.now schema.fragmentIds).counted
    rw [h] at counted
    show (c, p).1.ttl = _
    rw [counted]
  · exact fun x id _ h => (askFragment_ttl id).trans h

theorem arrive_ttl : (s.arrive a g).1.cache.ttl = s.cache.ttl :=
  arrive_induction (P := fun x => x.1.cache.ttl = s.cache.ttl) rfl
    fun _ _ _ _ _ h => (receiveFragment_ttl ..).trans h

/-! ### The schemas of the cache -/

@[simp] theorem receiveFragment_schemas (id : String) (result : Except Fault Fragment) :
    (s.receiveFragment a g id result).1.cache.schemas = s.cache.schemas := by
  cases result <;> rfl

theorem askFragment_schemas (id : String) :
    (askFragment a (s, g) id).1.cache.schemas = s.cache.schemas := by
  simp only [askFragment]
  split
  · exact receiveFragment_schemas ..
  · rfl

@[simp] theorem gather_schemas (schema : Schema) :
    (s.gather a schema).1.cache.schemas = s.cache.schemas := by
  refine gather_induction (P := fun x => x.1.cache.schemas = s.cache.schemas) schema ?_ ?_
  · intro c p h
    rw [← Cache.partition_schemas s.cache s.now schema.fragmentIds, h]
  · exact fun x id _ h => (askFragment_schemas id).trans h

@[simp] theorem arrive_schemas : (s.arrive a g).1.cache.schemas = s.cache.schemas :=
  arrive_induction (P := fun x => x.1.cache.schemas = s.cache.schemas) rfl
    fun _ _ _ _ _ h => (receiveFragment_schemas ..).trans h

/-! ### Gatherings -/

theorem askFragment_schema (id : String) : (askFragment a (s, g) id).2.schema = g.schema := by
  simp only [askFragment]
  split <;> rfl

@[simp] theorem gather_schema (schema : Schema) : (s.gather a schema).2.schema = schema :=
  gather_induction (P := fun x => x.2.schema = schema) schema (fun _ _ _ => rfl)
    fun _ id _ h => (askFragment_schema id).trans h

@[simp] theorem arrive_schema : (s.arrive a g).2.schema = g.schema :=
  arrive_induction (P := fun x => x.2.schema = g.schema) rfl fun _ _ _ _ _ h => h

@[simp] theorem arrive_arrivals :
    (s.arrive a g).2.arrivals = g.arrivals.filter (s.now < ·.due) :=
  arrive_induction (P := fun x => x.2.arrivals = g.arrivals.filter (s.now < ·.due)) rfl
    fun _ _ _ _ _ h => h

/-- What a gathering waits for is due later than now. -/
theorem gather_due (schema : Schema) : ∀ x ∈ (s.gather a schema).2.arrivals, s.now < x.due := by
  refine (gather_induction (P := fun x => x.1.now = s.now ∧ ∀ y ∈ x.2.arrivals, s.now < y.due) schema
    (fun _ _ _ => ⟨rfl, by simp⟩) ?_).2
  rintro ⟨t, g⟩ id - ⟨hn, hg⟩
  refine ⟨(askFragment_work id).now.trans hn, ?_⟩
  simp only [askFragment]
  split
  · exact hg
  · rename_i hd
    intro y hy
    rcases List.mem_append.1 hy with hy | hy
    · exact hg y hy
    · rw [List.mem_singleton.1 hy]
      have hn : t.now = s.now := hn
      show s.now < t.now + _
      omega

theorem askFragment_isFrom (h : g.IsFrom s.source) (id : String) :
    (askFragment a (s, g) id).2.IsFrom s.source := by
  simp only [askFragment]
  split
  · exact h
  · intro x hx
    rcases List.mem_append.1 hx with hx | hx
    · exact h x hx
    · rw [List.mem_singleton.1 hx]

theorem gather_isFrom (schema : Schema) : (s.gather a schema).2.IsFrom s.source := by
  refine (gather_induction (P := fun x => x.1.source = s.source ∧ x.2.IsFrom s.source) schema
    (fun _ _ _ => ⟨rfl, by simp [Gathering.IsFrom]⟩) ?_).2
  rintro ⟨t, g⟩ id - ⟨(source : t.source = s.source), hg⟩
  rw [← source] at hg ⊢
  exact ⟨(askFragment_work id).source, askFragment_isFrom hg id⟩

theorem arrive_isFrom {source : Source} (h : g.IsFrom source) : (s.arrive a g).2.IsFrom source := by
  intro x hx
  rw [arrive_arrivals] at hx
  exact h x (List.mem_filter.1 hx).1

end Supply

end StrategyForm.Session
