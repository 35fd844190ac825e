import StrategyForm.Text.Fold

/-!
# Output formats of commands
-/

namespace StrategyForm.Command

/-- The shapes in which a command prints its result. -/
inductive Format where
  | table
  | json
deriving DecidableEq, Repr, Inhabited

namespace Format

def all : List Format := [.table, .json]

def word : Format → String
  | .table => "table"
  | .json => "json"

/-- The format a word names, in any letter case. -/
def parse? (s : String) : Option Format := all.find? (·.word = Text.fold s)

def unknownMessage (s : String) : String := "Invalid format: " ++ s ++ ". Use: table, json"

end Format

end StrategyForm.Command
