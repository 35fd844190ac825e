import StrategyForm.SettingTree

/-!
# Settings in the environment

A variable whose name begins with the mark of this program, in any letter case, sets the leaf that
the rest of its name spells with two underscores between the parts. A text that reads as a truth
value, an integer or a float stands for that.
-/

namespace StrategyForm

/-- The variables of a process. Of several with one name the first counts. -/
abbrev Environment := List (String × String)

namespace Environment

def get? (env : Environment) (name : String) : Option String :=
  (env.find? (·.1 = name)).map (·.2)

/-- What the names of settings begin with. -/
def mark : String := "sdui__"

/-- The leaf that a text stands for. -/
def leaf (s : String) : SettingTree :=
  let word := Text.fold s
  if word = "true" then .flag true
  else if word = "false" then .flag false
  else
    match SettingTree.integer64? s with
    | some i => .whole i
    | none =>
      match Decimal.Extended.ofText? s with
      | some x => .real x
      | none => .text s

/-- The key with stops in the place of two underscores. -/
def stopped : List Char → List Char
  | '_' :: '_' :: rest => '.' :: stopped rest
  | c :: rest => c :: stopped rest
  | [] => []

/-- The key of a setting that a name stands for. -/
def key? (name : String) : Option String :=
  let folded := Text.fold name
  if folded.startsWith mark then
    some (String.ofList (stopped (folded.toList.drop mark.length)))
  else none

/-- The settings that the variables give. -/
def settings (env : Environment) : List (String × SettingTree) :=
  env.filterMap fun (name, value) => (key? name).map (·, leaf value)

end Environment

end StrategyForm
