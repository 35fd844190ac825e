import StrategyForm.Session.Step

/-!
# What the operations of a session leave alone

`Session.fetch` touches the supply only, `Session.publish` the shown state of one binding and the
history. `Session.behind` puts runs before those that wait; whatever a run does, it does the same
with other runs before it, which is how `resume` goes from one run to the next.
-/

namespace StrategyForm.Session

variable {α : Type} (s : Session) (f : Supply → Supply × α) (b g : Nat) (update : State → State)

@[simp] theorem fetch_fst : (s.fetch f).1 = { s with toSupply := (f s.toSupply).1 } := rfl

@[simp] theorem fetch_snd : (s.fetch f).2 = (f s.toSupply).2 := rfl

theorem binding_setBinding (value : Binding) (b' : Nat) :
    (s.setBinding b value).binding b' =
      if b = b' ∧ b < s.bindings.length then value else s.binding b' := by
  simp only [binding, setBinding, List.getD_eq_getElem?_getD, List.getElem?_set]
  by_cases h : b = b'
  · subst h
    by_cases hb : b < s.bindings.length <;> simp [hb]
  · simp [h]

theorem binding_congr {s t : Session} (h : t.bindings = s.bindings) (b : Nat) :
    t.binding b = s.binding b := by
  rw [binding, binding, h]

/-- A binding that does not exist looks like one that was never asked for anything. -/
theorem binding_of_length_le (h : s.bindings.length ≤ b) : s.binding b = {} := by
  simp [binding, List.getElem?_eq_none h]

theorem Binding.isCurrent_iff {b : Binding} {g : Nat} :
    b.isCurrent g = true ↔ b.isShutdown = false ∧ b.generation = g := by
  simp [isCurrent]

/-! ### Publishing -/

/-- The state that a run shows by publishing. -/
def shown : State := { update (s.binding b).state with generation := g }

theorem publish_of_current (h : (s.binding b).isCurrent g = true) :
    s.publish b g update =
      { s.setBinding b { s.binding b with state := s.shown b g update } with
        history := s.history ++ [.published b (s.shown b g update)] } := by
  simp [publish, h, shown]

theorem publish_of_not_current (h : (s.binding b).isCurrent g = false) :
    s.publish b g update = s := by
  simp [publish, h]

@[simp] theorem publish_runs : (s.publish b g update).runs = s.runs := by
  unfold publish; dsimp only; split <;> rfl

@[simp] theorem publish_launches : (s.publish b g update).launches = s.launches := by
  unfold publish; dsimp only; split <;> rfl

@[simp] theorem publish_now : (s.publish b g update).now = s.now := by
  unfold publish; dsimp only; split <;> rfl

@[simp] theorem publish_source : (s.publish b g update).source = s.source := by
  unfold publish; dsimp only; split <;> rfl

@[simp] theorem publish_cache : (s.publish b g update).cache = s.cache := by
  unfold publish; dsimp only; split <;> rfl

@[simp] theorem publish_length :
    (s.publish b g update).bindings.length = s.bindings.length := by
  unfold publish; dsimp only; split
  · simp [setBinding]
  · rfl

theorem publish_history :
    (s.publish b g update).history = s.history ++
      if (s.binding b).isCurrent g then [.published b (s.shown b g update)] else [] := by
  cases h : (s.binding b).isCurrent g with
  | true => rw [publish_of_current _ _ _ _ h]; rfl
  | false => rw [publish_of_not_current _ _ _ _ h]; simp

theorem publish_binding (b' : Nat) :
    (s.publish b g update).binding b' =
      if b = b' ∧ b < s.bindings.length ∧ (s.binding b).isCurrent g then
        { s.binding b' with state := s.shown b g update }
      else s.binding b' := by
  cases h : (s.binding b).isCurrent g with
  | true =>
    rw [publish_of_current _ _ _ _ h]
    show (s.setBinding b _).binding b' = _
    rw [binding_setBinding]
    by_cases hb : b = b'
    · subst hb; simp
    · simp [hb]
  | false => rw [publish_of_not_current _ _ _ _ h]; simp

@[simp] theorem publish_generation (b' : Nat) :
    ((s.publish b g update).binding b').generation = (s.binding b').generation := by
  rw [publish_binding]; split <;> rfl

@[simp] theorem publish_requested (b' : Nat) :
    ((s.publish b g update).binding b').requested = (s.binding b').requested := by
  rw [publish_binding]; split <;> rfl

@[simp] theorem publish_isShutdown (b' : Nat) :
    ((s.publish b g update).binding b').isShutdown = (s.binding b').isShutdown := by
  rw [publish_binding]; split <;> rfl

@[simp] theorem publish_isCurrent (b' g' : Nat) :
    ((s.publish b g update).binding b').isCurrent g' = (s.binding b').isCurrent g' := by
  simp [Binding.isCurrent]

/-! ### Runs before those that wait -/

/-- The session with other runs that began to wait before its own. -/
def behind (front : List Run) : Session := { s with runs := front ++ s.runs }

variable (front : List Run)

@[simp] theorem behind_runs : (s.behind front).runs = front ++ s.runs := rfl

theorem behind_publish :
    (s.publish b g update).behind front = (s.behind front).publish b g update := by
  cases h : (s.binding b).isCurrent g with
  | true => rw [publish_of_current _ _ _ _ h, publish_of_current _ _ _ _ (by exact h)]; rfl
  | false => rw [publish_of_not_current _ _ _ _ h, publish_of_not_current _ _ _ _ (by exact h)]

theorem mem_wait {s : Session} {r x : Run} (h : x ∈ (s.wait r).runs) : x ∈ s.runs ∨ x = r :=
  (List.mem_append.1 h).imp_right List.mem_singleton.1

theorem behind_wait (r : Run) : (s.wait r).behind front = (s.behind front).wait r := by
  simp [wait, behind]

theorem runWith_eq (r : Run) (schema : Schema) :
    s.runWith r schema = if (s.toSupply.gather r.agent schema).2.isComplete then
        (s.fetch (·.gather r.agent schema)).1.runResolved r (s.toSupply.gather r.agent schema).2
      else (s.fetch (·.gather r.agent schema)).1.wait
        { r with stage := .fragments (s.toSupply.gather r.agent schema).2 } := rfl

theorem behind_runWith (r : Run) (schema : Schema) :
    (s.runWith r schema).behind front = (s.behind front).runWith r schema := by
  rw [runWith_eq, runWith_eq]
  show _ = if (s.toSupply.gather r.agent schema).2.isComplete then _ else _
  split
  · exact behind_publish ..
  · exact behind_wait ..

theorem behind_runReceive (r : Run) (result : Except Fault Schema) :
    (s.runReceive r result).behind front = (s.behind front).runReceive r result := by
  cases result with
  | ok schema => exact behind_runWith ..
  | error e => exact behind_publish ..

/-! ### Launches behind the ones at hand -/

/-- The session with other launches behind its own. -/
def before (later : List Launch) : Session := { s with launches := s.launches ++ later }

variable (later : List Launch)

theorem before_publish :
    (s.publish b g update).before later = (s.before later).publish b g update := by
  cases h : (s.binding b).isCurrent g with
  | true => rw [publish_of_current _ _ _ _ h, publish_of_current _ _ _ _ (by exact h)]; rfl
  | false => rw [publish_of_not_current _ _ _ _ h, publish_of_not_current _ _ _ _ (by exact h)]

theorem before_runWith (r : Run) (schema : Schema) :
    (s.runWith r schema).before later = (s.before later).runWith r schema := by
  rw [runWith_eq, runWith_eq]
  show _ = if (s.toSupply.gather r.agent schema).2.isComplete then _ else _
  split
  · exact before_publish ..
  · rfl

theorem before_runReceive (r : Run) (result : Except Fault Schema) :
    (s.runReceive r result).before later = (s.before later).runReceive r result := by
  cases result with
  | ok schema => exact before_runWith ..
  | error e => exact before_publish ..

theorem before_glance (a : Agent) (schema : Schema) :
    (s.glance a schema).before later = (s.before later).glance a schema := by
  unfold glance
  show _ = if s.luck a .fragments then _ else _
  split <;> rfl

@[simp] theorem runWith_launches (r : Run) (schema : Schema) :
    (s.runWith r schema).launches = s.launches := by
  rw [runWith_eq]
  split
  · simp [runResolved]
  · rfl

@[simp] theorem runReceive_launches (r : Run) (result : Except Fault Schema) :
    (s.runReceive r result).launches = s.launches := by
  cases result with
  | ok schema => exact runWith_launches ..
  | error e => exact publish_launches ..

/-! ### Runs that are cancelled -/

@[simp] theorem glance_launches (a : Agent) (schema : Schema) :
    (s.glance a schema).launches = s.launches := by
  unfold glance
  split <;> rfl

@[simp] theorem glance_bindings (a : Agent) (schema : Schema) :
    (s.glance a schema).bindings = s.bindings := by
  unfold glance
  split <;> rfl

@[simp] theorem glance_runs (a : Agent) (schema : Schema) : (s.glance a schema).runs = s.runs := by
  unfold glance
  split <;> rfl

end StrategyForm.Session
