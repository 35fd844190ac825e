import StrategyForm.Proofs.Command.Validation
import StrategyForm.Proofs.Web.Retry

/-!
# What a run of the program asks for and prints

A command line that is turned down ends the run before anything is asked for or printed. Any other one
ends well when what it asks for is obtained and, if values are checked, nothing is wrong with them; then
one text is printed (`Ends`). The fragments of a strategy may be had or not.
-/

namespace StrategyForm

namespace Web.Resolver
variable {r : Resolver} {now : Nat} {id : String}

/-- No schema is at hand. -/
def Blank (r : Resolver) : Prop := r.cache.schemas = {}

theorem starting_blank (client : Client) (network : Network) (settings : CacheSettings) :
    (starting client network settings).Blank := rfl

/-- There is nothing to forget. -/
theorem Blank.refresh_eq (blank : r.Blank) : r.refresh now id = r.resolve now id := by
  have same : r.cache.invalidateSchema id = r.cache := by
    rw [Cache.invalidateSchema, show r.cache.schemas.remove id = r.cache.schemas by rw [blank]; rfl]
  rw [refresh, same]

/-- A strategy is resolved when its schema is given, whatever becomes of its fragments. -/
theorem Blank.resolve_isOk_iff (blank : r.Blank) : (∃ found, (r.resolve now id).2 = .ok found) ↔
    ∃ schema, (r.client.fetchSchema r.network id r.traffic).2 = .ok schema := by
  have absent : (r.cache.getSchema now id).2 = none := by
    show r.cache.schema? now id = none
    rw [Cache.schema?, blank]
    rfl
  unfold resolve
  dsimp only
  rw [absent]
  dsimp only
  unfold fetchSchema
  dsimp only
  cases (r.client.fetchSchema r.network id r.traffic).2 with
  | ok schema => exact ⟨fun _ => ⟨schema, rfl⟩, fun _ => ⟨_, rfl⟩⟩
  | error e => exact ⟨fun ⟨_, h⟩ => (by cases h), fun ⟨_, h⟩ => (by cases h)⟩

end Web.Resolver

namespace Command
open Web (Client Query Resolver)
open Json.Decoder (decode json)

/-- What a task asks the client for first. -/
def Task.query : Task → Query
  | .schema id _ | .validate id _ => .schema id
  | .fragments category => .fragments category
  | .fragment id => .fragment id
  | .strategies => .strategies

/-- What a task asks for, the network gives. -/
def Obtained (r : Resolver) (task : Task) : Prop := ∃ a, task.query.Given r.client r.network r.traffic a

theorem obtained_iff {r : Resolver} {task : Task} :
    Obtained r task ↔ ∃ a, (task.query.call r.client r.network r.traffic).2 = .ok a :=
  exists_congr fun a => (task.query.call_ok_iff r.client r.network r.traffic a).symm

/-- Values that are to be checked are those of a JSON object, and nothing is wrong with them. -/
def Sound (r : Resolver) (folder : Folder) (now : Nat) : Task → Prop
  | .validate id file => ∃ text members found, folder.read file = .ok text ∧
    decode json text = .ok (.object members) ∧ (r.resolve now id).2 = .ok found ∧
    violations found.sections (mergedValues found (.ofList members)) = []
  | _ => True

/-- The text of what a task obtained, in a format. -/
inductive Rendered (r : Resolver) (folder : Folder) (now : Nat) (format : Format) : Task → String → Prop where
  | schema {id : String} {refresh : Bool} {found : Resolution} (resolved : (r.resolve now id).2 = .ok found) :
    Rendered r folder now format (.schema id refresh) (inFormat format (schemaText found) (schemaJson found))
  | fragments {category : Option Category} {found : List Fragment}
    (given : (r.client.listFragments r.network category r.traffic).2 = .ok found) :
    Rendered r folder now format (.fragments category)
      (inFormat format (fragmentsText found) (.array (found.map Fragment.toJson)))
  | fragment {id : String} {found : Fragment}
    (given : (r.client.fetchFragment r.network id r.traffic).2 = .ok found) :
    Rendered r folder now format (.fragment id) (inFormat format (fragmentText found) found.toJson)
  | strategies {found : List StrategyEntry}
    (given : (r.client.listStrategies r.network r.traffic).2 = .ok found) :
    Rendered r folder now format .strategies
      (inFormat format (strategiesText found) (.array (found.map StrategyEntry.toJson)))
  | validate {id file text : String} {members : List (String × Json)} {found : Resolution}
    (read : folder.read file = .ok text) (object : decode json text = .ok (.object members))
    (resolved : (r.resolve now id).2 = .ok found) :
    Rendered r folder now format (.validate id file)
      (violationReport format (violations found.sections (mergedValues found (.ofList members)))).text

/-- How a run ends that was begun with a task. -/
structure Ends (r : Resolver) (folder : Folder) (now : Nat) (format : Format) (task : Task)
    (ending : Ending) : Prop where
  well_iff : ending.code = 0 ↔ Obtained r task ∧ Sound r folder now task
  well : ending.code = 0 → ∃ text, Rendered r folder now format task text ∧ ending.output = text ++ "\n"
  badly : ending.code ≠ 0 → (ending.output = "" ∧ ∀ text, ¬ Rendered r folder now format task text) ∨
    ∃ id file text, task = .validate id file ∧ Rendered r folder now format task text ∧
      ending.output = text ++ "\n"

/-! ### One task -/

theorem valuesOf_ok {text : String} {entered : FormValues} (h : valuesOf text = .ok entered) :
    ∃ members, decode json text = .ok (.object members) ∧ entered = .ofList members := by
  unfold valuesOf at h
  split at h
  · cases h
  · rename_i members object
    cases h
    exact ⟨members, object, rfl⟩
  · cases h

theorem readValues_ok {folder : Folder} {file : String} {entered : FormValues}
    (h : readValues folder file = .ok entered) : ∃ text members, folder.read file = .ok text ∧
      decode json text = .ok (.object members) ∧ entered = .ofList members := by
  unfold readValues at h
  split at h
  · cases h
  · rename_i text read
    obtain ⟨members, object, rfl⟩ := valuesOf_ok h
    exact ⟨text, members, read, object, rfl⟩

theorem attempted_map_ok {α : Type} {tried : String} {x : Except Fault α} {f : α → Report} {report : Report}
    (h : (attempted tried x).map f = .ok report) : ∃ a, x = .ok a ∧ f a = report := by
  cases x with
  | error e => cases h
  | ok a =>
    cases h
    exact ⟨a, rfl, rfl⟩

variable {r : Resolver} {folder : Folder} {now : Nat} {format : Format} {task : Task}

theorem sound_iff {id file text : String} {members : List (String × Json)} {found : Resolution}
    (read : folder.read file = .ok text) (object : decode json text = .ok (.object members))
    (resolved : (r.resolve now id).2 = .ok found) : Sound r folder now (.validate id file) ↔
      violations found.sections (mergedValues found (.ofList members)) = [] := by
  refine ⟨fun ⟨text', members', found', read', object', resolved', empty⟩ => ?_,
    fun empty => ⟨text, members, found, read, object, resolved, empty⟩⟩
  cases read.symm.trans read'
  cases object.symm.trans object'
  cases resolved.symm.trans resolved'
  exact empty

theorem run_schema (blank : r.Blank) (id : String) (refresh : Bool) :
    (run r folder now format (.schema id refresh)).2 =
      (attempted ("Failed to resolve schema: " ++ id) (r.resolve now id).2).map fun found =>
        { text := inFormat format (schemaText found) (schemaJson found)
          count := some found.sections.length } := by
  cases refresh with
  | false => rfl
  | true =>
    show (Except.map _ (attempted _ (r.refresh now id).2)) = _
    rw [blank.refresh_eq]

/-- A report that ends a run badly. -/
def Task.Objects (task : Task) (report : Report) : Prop :=
  ∃ id file n, task = .validate id file ∧ report.count = some (n + 1)

/-- Of a task that was done all was obtained, and what is printed is that. -/
theorem run_of_ok (blank : r.Blank) {report : Report} (h : (run r folder now format task).2 = .ok report) :
    Obtained r task ∧ Rendered r folder now format task report.text ∧
      (task.Objects report ↔ ¬ Sound r folder now task) := by
  cases task with
  | schema id refresh =>
    rw [run_schema blank] at h
    obtain ⟨found, resolved, rfl⟩ := attempted_map_ok h
    exact ⟨obtained_iff.2 (blank.resolve_isOk_iff.1 ⟨found, resolved⟩), .schema resolved, by simp [Task.Objects, Sound]⟩
  | fragments category =>
    obtain ⟨found, given, rfl⟩ := attempted_map_ok h
    exact ⟨obtained_iff.2 ⟨found, given⟩, .fragments given, by simp [Task.Objects, Sound]⟩
  | fragment id =>
    obtain ⟨found, given, rfl⟩ := attempted_map_ok h
    exact ⟨obtained_iff.2 ⟨found, given⟩, .fragment given, by simp [Task.Objects, Sound]⟩
  | strategies =>
    obtain ⟨found, given, rfl⟩ := attempted_map_ok h
    exact ⟨obtained_iff.2 ⟨found, given⟩, .strategies given, by simp [Task.Objects, Sound]⟩
  | validate id file =>
    cases values : readValues folder file with
    | error e =>
      rw [run_validate_of_unread values] at h
      cases h
    | ok entered =>
      cases resolved : (r.resolve now id).2 with
      | error e =>
        rw [run_validate_of_unresolved values resolved] at h
        cases h
      | ok found =>
        rw [run_validate_of_resolved values resolved] at h
        cases h
        obtain ⟨text, members, read, object, rfl⟩ := readValues_ok values
        refine ⟨obtained_iff.2 (blank.resolve_isOk_iff.1 ⟨found, resolved⟩), .validate read object resolved, ?_⟩
        rw [sound_iff read object resolved]
        cases violations found.sections (mergedValues found (.ofList members)) <;>
          simp [Task.Objects, violationReport]

/-- A task whose text there is was done. -/
theorem Rendered.run_ok (blank : r.Blank) {text : String} (h : Rendered r folder now format task text) :
    ∃ report, (run r folder now format task).2 = .ok report := by
  cases h with
  | schema resolved =>
    rw [run_schema blank, resolved]
    exact ⟨_, rfl⟩
  | fragments given | fragment given | strategies given =>
    unfold run
    dsimp only
    rw [given]
    exact ⟨_, rfl⟩
  | validate read object resolved =>
    rw [run_validate_of_resolved (readValues_of_object read object) resolved]
    exact ⟨_, rfl⟩

/-- Of what is to be had and sound there is a text. -/
theorem exists_rendered (blank : r.Blank) (obtained : Obtained r task) (sound : Sound r folder now task)
    (format : Format) : ∃ text, Rendered r folder now format task text := by
  cases task with
  | schema id refresh =>
    obtain ⟨found, resolved⟩ := blank.resolve_isOk_iff.2 (obtained_iff.1 obtained)
    exact ⟨_, .schema resolved⟩
  | fragments category =>
    obtain ⟨found, given⟩ := obtained_iff.1 obtained
    exact ⟨_, .fragments given⟩
  | fragment id =>
    obtain ⟨found, given⟩ := obtained_iff.1 obtained
    exact ⟨_, .fragment given⟩
  | strategies =>
    obtain ⟨found, given⟩ := obtained_iff.1 obtained
    exact ⟨_, .strategies given⟩
  | validate id file =>
    obtain ⟨text, members, found, read, object, resolved, -⟩ := sound
    exact ⟨_, .validate read object resolved⟩

/-! ### A whole run -/

theorem ofReport_code (task : Task) (report : Report) (traffic : List Web.Traffic) :
    (Ending.ofReport task report traffic).code = 0 ↔ ¬ task.Objects report := by
  rcases report with ⟨text, count⟩
  cases task <;> rcases count with _ | _ | n <;> simp [Ending.ofReport, Task.Objects]

theorem carryOut_ends (blank : r.Blank) (folder : Folder) (now : Nat) (format : Format) (task : Task) :
    Ends r folder now format task (Preparation.carryOut ⟨r, task, format⟩ folder now) := by
  unfold Preparation.carryOut
  dsimp only
  rcases ran : run r folder now format task with ⟨after, e | report⟩
  · obtain ⟨message, causes, failed⟩ := ofFailure_eq e after.traffic
    have unrendered (text : String) : ¬ Rendered r folder now format task text := by
      intro rendered
      obtain ⟨report, ok⟩ := rendered.run_ok blank
      rw [ran] at ok
      cases ok
    dsimp only
    rw [failed]
    refine ⟨⟨nofun, fun ⟨obtained, sound⟩ => ?_⟩, nofun, fun _ => .inl ⟨rfl, unrendered⟩⟩
    obtain ⟨text, rendered⟩ := exists_rendered blank obtained sound format
    exact absurd rendered (unrendered text)
  · obtain ⟨obtained, rendered, objects⟩ := run_of_ok blank (by rw [ran])
    have code : (Ending.ofReport task report after.traffic).code = 0 ↔ Sound r folder now task := by
      rw [ofReport_code, objects, Classical.not_not]
    refine ⟨?_, fun _ => ⟨_, rendered, rfl⟩, fun bad => ?_⟩
    · exact code.trans ⟨fun sound => ⟨obtained, sound⟩, And.right⟩
    · obtain ⟨id, file, _, asked, -⟩ := objects.2 fun sound => bad (code.2 sound)
      exact .inr ⟨id, file, _, asked, rendered, rfl⟩

theorem settingsFor_eq_ok_iff {s : Surroundings} {line : Line} {url : String}
    (given : line.baseUrl = some url) (settings : Settings) :
    settingsFor s line = .ok settings ↔ ∃ loaded, Settings.load s.folder line.config s.env = .ok loaded ∧
      settings = { loaded with api := { loaded.api with baseUrl := url } } := by
  unfold settingsFor
  rw [given]
  cases Settings.load s.folder line.config s.env with
  | error e => simp [bind, Except.bind]
  | ok loaded => simp [bind, Except.bind, pure, Except.pure, eq_comm]

/-- What is wrong with a command line, its settings or its surroundings is found before anything is asked
for. Any other run ends well when all that it asks for is obtained and, if values are checked, nothing is
wrong with them. It prints one text, or, when it fails for another reason than wrong values, none. An
address of the command line takes the place of the one that was loaded. -/
theorem refused_before_asking (s : Surroundings) (now : Nat) (args : List String) (line : Line)
    (read : Line.read args = .ok line) :
    let ending := execute s now args
    (TurnedDown s.informed line → ending.output = "" ∧ ending.traffic = [] ∧ ending.code ≠ 0) ∧
    (¬ TurnedDown s.informed line → ∃ settings client task format,
      Ready s.informed line settings client task format ∧
      Ends (.starting client s.network settings.cache) s.folder now format task ending) ∧
    ∀ url, line.baseUrl = some url → ∀ settings, settingsFor s.informed line = .ok settings ↔
      ∃ loaded, Settings.load s.folder line.config s.informed.env = .ok loaded ∧
        settings = { loaded with api := { loaded.api with baseUrl := url } } := by
  intro ending
  refine ⟨fun down => ?_, fun up => ?_, fun url given settings => settingsFor_eq_ok_iff given settings⟩
  · obtain ⟨message, causes, refused⟩ := down.execute_eq read now
    have refused : ending = _ := refused
    rw [refused]
    exact ⟨rfl, rfl, nofun⟩
  · rcases prepare_cases s.informed line with ⟨down, -⟩ | ⟨settings, client, task, format, ready⟩
    · exact absurd down up
    · have carried : ending = _ := ready.execute_eq read now
      rw [carried]
      exact ⟨settings, client, task, format, ready,
        carryOut_ends (Resolver.starting_blank ..) s.folder now format task⟩

/-- A command line with an unknown format, and one whose address counts before that of a variable. -/
theorem refused_before_asking_of_fragment :
    let rsi : Fragment := { id := "rsi", name := "RSI" }
    let s : Surroundings :=
      { folder := {},
        env := [("SDUI__API__BASE_URL", "http://a.test"), ("SDUI__CACHE__TTL_SECS", "60")],
        network := .scripted [("http://b.test/schema/fragments/rsi/detail",
          [.response 200 (some rsi.toJson.compress)])] }
    let wrong := execute s 0 ["fragment", "rsi", "--format", "yaml"]
    let args := ["--base-url", "http://b.test", "fragment", "rsi", "-f", "JSON"]
    let line : Line := { baseUrl := some "http://b.test", format := "JSON", request := .fragment "rsi" }
    wrong.output = "" ∧ wrong.traffic = [] ∧ wrong.code ≠ 0 ∧
    Line.read args = .ok line ∧ ¬ TurnedDown s.informed line ∧
    settingsFor s.informed line = .ok { api := { baseUrl := "http://b.test" }, cache := { ttlSecs := 60 } } ∧
    (execute s 0 args).code = 0 ∧ (execute s 0 args).output = rsi.toJson.pretty ++ "\n" := by
  intro rsi s wrong args line
  have taken : Line.read args = .ok line := by decide +kernel
  obtain ⟨output, traffic, code⟩ := (refused_before_asking s 0 ["fragment", "rsi", "--format", "yaml"]
    { format := "yaml", request := .fragment "rsi" } (by decide +kernel)).1 (.format (by decide +kernel))
  obtain ⟨-, answered, address⟩ := refused_before_asking s 0 args line taken
  have loaded := (address "http://b.test" rfl _).2
    ⟨{ api := { baseUrl := "http://a.test" }, cache := { ttlSecs := 60 } }, by decide +kernel, rfl⟩
  let client : Client := ⟨{ baseUrl := "http://b.test" },
    { scheme := "http", host := some (.domain "b.test"), path := .segments [""] }⟩
  have ready : Ready s.informed line _ client (.fragment "rsi") .json :=
    ⟨loaded, by decide +kernel, by decide +kernel, rfl, by decide +kernel⟩
  obtain ⟨settings, client', task, format, ready', ends⟩ := answered ready.not_turnedDown
  cases loaded.symm.trans ready'.loaded
  cases ready.created.symm.trans ready'.created
  cases ready.asked.symm.trans ready'.asked
  cases ready.shaped.symm.trans ready'.shaped
  have given : (client.fetchFragment s.network "rsi" []).2 = .ok rsi := by decide +kernel
  have well := ends.well_iff.2 ⟨obtained_iff.2 ⟨rsi, given⟩, trivial⟩
  obtain ⟨text, rendered, printed⟩ := ends.well well
  cases rendered with
  | fragment given' =>
    cases given.symm.trans given'
    exact ⟨output, traffic, code, taken, ready.not_turnedDown, loaded, well, printed⟩

end Command

end StrategyForm
