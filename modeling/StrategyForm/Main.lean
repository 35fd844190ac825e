import StrategyForm.Command.Program

/-!
# The program's outer layer

Reads the variables and the files that a run may need, runs, and writes what the run leaves behind.
There is no network here, so every request fails.
-/

open StrategyForm StrategyForm.Command

/-- The variables that a run looks at. -/
def knownVariables : List String :=
  ["RUST_LOG"] ++
    ["API__BASE_URL", "API__TIMEOUT_SECS", "API__MAX_RETRIES", "API__RETRY_BACKOFF_MS",
      "CACHE__TTL_SECS", "LOGGING__LEVEL", "LOGGING__FORMAT"].map ("SDUI__" ++ ·)

/-- The files that a run may look at: the usual ones, and those that an argument may name. -/
def possibleFiles (args : List String) : List String :=
  [".env", Settings.usualPath] ++
    args.flatMap fun arg => arg :: FileFormat.all.map fun format => arg ++ "." ++ format.ending

def readFile? (path : String) : IO (Option (String × String)) := do
  try
    let text ← IO.FS.readFile path
    pure (some (path, text))
  catch _ => pure none

def readVariable? (name : String) : IO (Option (String × String)) := do
  pure ((← IO.getEnv name).map (name, ·))

def main (args : List String) : IO UInt32 := do
  let env ← knownVariables.filterMapM readVariable?
  let files ← (possibleFiles args).filterMapM readFile?
  let ending := execute ⟨⟨files⟩, env, .unreachable⟩ (← IO.monoMsNow) args
  IO.print ending.output
  if let some text := ending.complaint then IO.eprint ("Error: " ++ text)
  pure (UInt32.ofNat ending.code)
