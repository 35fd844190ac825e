import StrategyForm.Command.Program

/-!
# What is turned down before anything is asked

There are five reasons to turn a command line down (`TurnedDown`): the settings, the log filter, the
base address, the category and the format. What is left is ready to be run (`Ready`), and nothing is
both. The order in which the reasons are looked at decides on the complaint only.
-/

namespace StrategyForm

namespace Web.Resolver

/-- What a run begins with: nothing is cached and nothing was asked. -/
def starting (client : Client) (network : Network) (settings : CacheSettings) : Resolver :=
  { client, network, cache := Cache.ofSeconds settings.ttlSecs.toNat }

end Web.Resolver

namespace Command
open Web (Client Resolver)

instance decidableEqExcept {ε α : Type} [DecidableEq ε] [DecidableEq α] : DecidableEq (Except ε α)
  | .ok a, .ok b => if h : a = b then isTrue (by rw [h]) else isFalse (by simpa using h)
  | .error a, .error b => if h : a = b then isTrue (by rw [h]) else isFalse (by simpa using h)
  | .ok _, .error _ | .error _, .ok _ => isFalse (by simp)

/-- The surroundings as they are once the file of variables was read. -/
def Surroundings.informed (s : Surroundings) : Surroundings :=
  { s with env := ((s.folder.get? ".env").map (Dotenv.apply s.env)).getD s.env }

variable {s : Surroundings} {line : Line}

theorem execute_of_read {args : List String} (h : Line.read args = .ok line) (s : Surroundings) (now : Nat) :
    execute s now args = perform s.informed now line := by
  unfold execute
  rw [h]
  rfl

/-! ### Formats and failures -/

/-- The word of a format in any letter case, and nothing else, is taken. -/
theorem Format.parse?_eq_none_iff (word : String) :
    Format.parse? word = none ↔ Text.fold word ∉ ["table", "json"] := by
  rw [Format.parse?, List.find?_eq_none]
  simp [Format.all, Format.word, eq_comm]

theorem readFormat_of_parse? {word : String} {format : Format} (h : Format.parse? word = some format) :
    readFormat word = .ok format := by
  rw [readFormat, h]

theorem ofFailure_eq (e : Failure) (traffic : List Web.Traffic) :
    ∃ message causes, Ending.ofFailure e traffic = .failed message causes traffic := by
  unfold Ending.ofFailure
  split <;> exact ⟨_, _, rfl⟩

/-! ### The two outcomes -/

/-- Why a command line is turned down. A filter of the log that a variable has counts before that of the
settings, unless it makes no sense. -/
inductive TurnedDown (s : Surroundings) (line : Line) : Prop where
  | settings {e : LoadFault} (unloaded : settingsFor s line = .error e)
  | log {settings : Settings} {e : LogFilter.Flaw} (loaded : settingsFor s line = .ok settings)
    (noVariable : ∀ v, s.env.get? "RUST_LOG" = some v → (LogFilter.check v).isOk = false)
    (rejected : LogFilter.check settings.logging.level = .error e)
  | address {settings : Settings} {e : Fault} (loaded : settingsFor s line = .ok settings)
    (rejected : Client.create settings.api = .error e)
  | category {word : String} (asked : line.request = .fragments (some word))
    (unknown : Category.parse? word = none)
  | format (unknown : Text.fold line.format ∉ ["table", "json"])

/-- All that a run needs is there. -/
structure Ready (s : Surroundings) (line : Line) (settings : Settings) (client : Client) (task : Task)
    (format : Format) : Prop where
  loaded : settingsFor s line = .ok settings
  logged : (settings.logging.toLogConfig.filter (s.env.get? "RUST_LOG")).isOk = true
  created : Client.create settings.api = .ok client
  asked : line.request.task = .ok task
  shaped : Format.parse? line.format = some format

theorem filter_eq_error_iff (settings : LogSettings) (fromVariable : Option String) :
    (∃ e, settings.toLogConfig.filter fromVariable = .error e) ↔
      (∀ v, fromVariable = some v → (LogFilter.check v).isOk = false) ∧
        ∃ e, LogFilter.check settings.level = .error e := by
  unfold LogConfig.filter
  cases taken : fromVariable.filter fun v => (LogFilter.check v).isOk with
  | some v =>
    obtain ⟨rfl, ok⟩ := Option.filter_eq_some_iff.1 taken
    simp [ok]
  | none =>
    have refused := Option.filter_eq_none_iff.1 taken
    have same : settings.toLogConfig.level = settings.level := rfl
    rw [same]
    cases LogFilter.check settings.level with
    | ok _ => simp [Except.map]
    | error e => simpa [Except.map] using refused

/-- Only a category can be asked for wrongly. -/
theorem task_eq_error_iff (request : Request) :
    (∃ e, request.task = .error e) ↔
      ∃ word, request = .fragments (some word) ∧ Category.parse? word = none := by
  cases request with
  | fragments category =>
    cases category with
    | none => simp [Request.task, readCategory, Except.map]
    | some word =>
      cases known : Category.parse? word <;> simp [Request.task, readCategory, Except.map, known]
  | _ => simp [Request.task]

theorem Ready.prepare_eq {settings : Settings} {client : Client} {task : Task} {format : Format}
    (h : Ready s line settings client task format) :
    prepare s line = .ok ⟨.starting client s.network settings.cache, task, format⟩ := by
  have logged := h.logged
  unfold prepare
  rw [h.loaded]
  dsimp only
  cases filter : settings.logging.toLogConfig.filter (s.env.get? "RUST_LOG") with
  | error e =>
    rw [filter] at logged
    cases logged
  | ok level =>
    dsimp only
    rw [h.created, h.asked, readFormat_of_parse? h.shaped]
    rfl

theorem Ready.not_turnedDown {settings : Settings} {client : Client} {task : Task} {format : Format}
    (h : Ready s line settings client task format) : ¬ TurnedDown s line := by
  intro down
  cases down with
  | settings unloaded => cases unloaded.symm.trans h.loaded
  | log loaded noVariable rejected =>
    cases loaded.symm.trans h.loaded
    obtain ⟨e, error⟩ := (filter_eq_error_iff _ _).2 ⟨noVariable, _, rejected⟩
    have logged := h.logged
    rw [error] at logged
    cases logged
  | address loaded rejected =>
    cases loaded.symm.trans h.loaded
    cases rejected.symm.trans h.created
  | category asked unknown =>
    obtain ⟨e, error⟩ := (task_eq_error_iff line.request).2 ⟨_, asked, unknown⟩
    cases error.symm.trans h.asked
  | format unknown =>
    cases ((Format.parse?_eq_none_iff _).2 unknown).symm.trans h.shaped

/-- A command line is turned down with a complaint alone, or all is ready. -/
theorem prepare_cases (s : Surroundings) (line : Line) :
    (TurnedDown s line ∧ ∃ message causes, prepare s line = .error (.failed message causes [])) ∨
      ∃ settings client task format, Ready s line settings client task format := by
  unfold prepare
  cases loaded : settingsFor s line with
  | error e => exact .inl ⟨.settings loaded, _, _, rfl⟩
  | ok settings =>
    dsimp only
    cases filter : settings.logging.toLogConfig.filter (s.env.get? "RUST_LOG") with
    | error e =>
      obtain ⟨noVariable, _, rejected⟩ := (filter_eq_error_iff _ _).1 ⟨e, filter⟩
      exact .inl ⟨.log loaded noVariable rejected, _, _, rfl⟩
    | ok level =>
      dsimp only
      cases created : Client.create settings.api with
      | error e => exact .inl ⟨.address loaded created, _, _, rfl⟩
      | ok client =>
        dsimp only
        cases asked : line.request.task with
        | error e =>
          obtain ⟨word, request, unknown⟩ := (task_eq_error_iff _).1 ⟨e, asked⟩
          obtain ⟨message, causes, failed⟩ := ofFailure_eq e []
          exact .inl ⟨.category request unknown, message, causes, congrArg Except.error failed⟩
        | ok task =>
          cases shaped : Format.parse? line.format with
          | none =>
            refine .inl ⟨.format ((Format.parse?_eq_none_iff _).1 shaped), ?_⟩
            rw [readFormat, shaped]
            exact ⟨_, _, rfl⟩
          | some format =>
            refine .inr ⟨settings, client, task, format, loaded, ?_, created, asked, shaped⟩
            rw [filter]
            rfl

theorem TurnedDown.execute_eq (h : TurnedDown s.informed line) {args : List String}
    (read : Line.read args = .ok line) (now : Nat) :
    ∃ message causes, execute s now args = .failed message causes [] := by
  rcases prepare_cases s.informed line with ⟨-, message, causes, refused⟩ | ⟨_, _, _, _, ready⟩
  · refine ⟨message, causes, ?_⟩
    rw [execute_of_read read, perform, refused]
  · exact absurd h ready.not_turnedDown

theorem Ready.execute_eq {settings : Settings} {client : Client} {task : Task} {format : Format}
    (h : Ready s.informed line settings client task format) {args : List String}
    (read : Line.read args = .ok line) (now : Nat) :
    execute s now args =
      Preparation.carryOut ⟨.starting client s.network settings.cache, task, format⟩ s.folder now := by
  rw [execute_of_read read, perform, h.prepare_eq]
  rfl

end Command

end StrategyForm
