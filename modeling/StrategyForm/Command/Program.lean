import StrategyForm.Command.Arguments
import StrategyForm.Command.Run
import StrategyForm.Dotenv
import StrategyForm.Log.Filter
import StrategyForm.Settings.File

/-!
# The program

A run takes variables, arguments, files and a network, and ends with a code, a text that it prints,
and a complaint. All that can be refused is refused before the network is asked: the arguments, the
settings, the log filter, the base address, and then the category and the format.
-/

namespace StrategyForm.Command
open Web (Network Traffic Resolver)

/-- What a run leaves behind. -/
structure Ending where
  code : Nat
  /-- What is printed. -/
  output : String := ""
  complaint : Option String := none
  traffic : List Traffic := []
deriving DecidableEq, Repr

/-- Where a run takes place. -/
structure Surroundings where
  folder : Folder
  env : Environment
  network : Network

/-! ### Complaints -/

/-- A cause under the mark before it, each line indented. -/
def indented (mark : String) (cause : String) : String :=
  let rest := String.ofList (List.replicate mark.length ' ')
  mark ++ ("\n" ++ rest).intercalate ((cause.toList.splitOn '\n').map String.ofList)

/-- The mark of the cause with a number, when there are several. -/
def numbered (n : Nat) : String :=
  let digits := toString n
  String.ofList (List.replicate (5 - digits.length) ' ') ++ digits ++ ": "

/-- A message with its causes. -/
def complaint (message : String) (causes : List String) : String :=
  let listed := match causes with
    | [] => []
    | [cause] => [indented "    " cause]
    | _ => causes.zipIdx.map fun (cause, n) => indented (numbered n) cause
  message ++ (if listed.isEmpty then "" else "\n\nCaused by:\n" ++ "\n".intercalate listed) ++ "\n"

namespace Ending

def failed (message : String) (causes : List String) (traffic : List Traffic) : Ending where
  code := 1
  complaint := some (Command.complaint message causes)
  traffic := traffic

/-- A run that was ended while the arguments were read. The text of the help is not shown. -/
def stopped : Stop → Ending
  | .help => { code := 0 }
  | .version => { code := 0, output := "trader 0.1.0\n" }
  | .misuse => { code := 2 }

def ofFailure (e : Failure) (traffic : List Traffic) : Ending :=
  match e.tried with
  | some tried => failed tried [e.cause.message] traffic
  | none => failed e.cause.message [] traffic

/-- Values that violate something make a run fail without a complaint. -/
def ofReport (task : Task) (report : Report) (traffic : List Traffic) : Ending where
  code := match task, report.count with
    | .validate .., some (_ + 1) => 1
    | _, _ => 0
  output := report.text ++ "\n"
  traffic := traffic

end Ending

/-! ### Runs -/

/-- The task of a request, which names its category with a word. -/
def Request.task : Request → Except Failure Task
  | .schema id refresh => .ok (.schema id refresh)
  | .fragments category => (readCategory category).map .fragments
  | .fragment id => .ok (.fragment id)
  | .strategies => .ok .strategies
  | .validate id file => .ok (.validate id file)

/-- The settings in force: a base address of the command line counts before all others. -/
def settingsFor (s : Surroundings) (line : Line) : Except LoadFault Settings := do
  let settings ← Settings.load s.folder line.config s.env
  pure { settings with
    api := { settings.api with baseUrl := line.baseUrl.getD settings.api.baseUrl } }

/-- What a run needs before it asks for anything. -/
structure Preparation where
  resolver : Resolver
  task : Task
  format : Format

/-- Prepares what a command line asks for, or complains. -/
def prepare (s : Surroundings) (line : Line) : Except Ending Preparation :=
  match settingsFor s line with
  | .error e => .error (.failed "Failed to load configuration" [e.message] [])
  | .ok settings =>
    match settings.logging.toLogConfig.filter (s.env.get? "RUST_LOG") with
    | .error e => .error (.failed ("Failed to initialize logging: " ++ e.message) [] [])
    | .ok _ =>
      match Web.Client.create settings.api with
      | .error e => .error (.failed e.message [] [])
      | .ok client =>
        let chosen : Except Failure (Task × Format) := do
          pure (← line.request.task, ← readFormat line.format)
        match chosen with
        | .error e => .error (.ofFailure e [])
        | .ok (task, format) =>
          let cache := Cache.ofSeconds settings.cache.ttlSecs.toNat
          .ok ⟨{ client, network := s.network, cache }, task, format⟩

/-- Carries out what was prepared. -/
def Preparation.carryOut (p : Preparation) (folder : Folder) (now : Nat) : Ending :=
  match run p.resolver folder now p.format p.task with
  | (r, .ok report) => .ofReport p.task report r.traffic
  | (r, .error e) => .ofFailure e r.traffic

/-- Does what a command line asks for. -/
def perform (s : Surroundings) (now : Nat) (line : Line) : Ending :=
  match prepare s line with
  | .error ending => ending
  | .ok p => p.carryOut s.folder now

/-- A run of the program. The file of variables is read before anything else. -/
def execute (s : Surroundings) (now : Nat) (args : List String) : Ending :=
  let s := { s with env := ((s.folder.get? ".env").map (Dotenv.apply s.env)).getD s.env }
  match Line.read args with
  | .error stop => .stopped stop
  | .ok line => perform s now line

end StrategyForm.Command
