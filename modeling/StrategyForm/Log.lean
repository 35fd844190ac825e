import StrategyForm.Text.Fold

/-!
# Log settings

How the log is written. The log itself is no part of this library: only which settings are chosen.
-/

namespace StrategyForm

/-- The shapes of log lines. -/
inductive LogFormat where
  | pretty
  | json
  | compact
deriving DecidableEq, Repr, Inhabited

namespace LogFormat

def all : List LogFormat := [.pretty, .json, .compact]

def word : LogFormat → String
  | .pretty => "pretty"
  | .json => "json"
  | .compact => "compact"

/-- The format a word names, in any letter case. -/
def parse? (s : String) : Option LogFormat := all.find? (·.word = Text.fold s)

def unknownMessage (s : String) : String := "Unknown log format: " ++ s

end LogFormat

structure LogConfig where
  /-- The filter of levels, such as `info` or `web=debug`. -/
  level : String := "info"
  format : LogFormat := .pretty
  withSpanEvents : Bool := false
  withFile : Bool := false
  withTarget : Bool := true
deriving DecidableEq, Repr, Inhabited

/-- The settings that two environment variables ask for: a level filter, and a format, which is
passed over when it is unknown. -/
def LogConfig.ofEnvironment (level format : Option String) : LogConfig where
  level := level.getD "info"
  format := (format.bind LogFormat.parse?).getD .pretty

end StrategyForm
