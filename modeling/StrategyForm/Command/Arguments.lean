/-!
# Arguments

A command line has two levels: the options for every command, then the name of a command with its
own options and words. The options for every command may stand on both levels, and the inner ones
count. Arguments are read from the left, and the first that asks for help, or cannot be there, ends
the reading.
-/

namespace StrategyForm.Command

/-- Why nothing is run. -/
inductive Stop where
  | help
  | version
  | misuse
deriving DecidableEq, Repr

/-- What an option is for. -/
inductive OptionKind where
  /-- It says something by being there. -/
  | flag
  /-- It has a value, which may have to be more than the empty text. -/
  | value (nonempty : Bool)
  /-- It ends the reading. -/
  | stop (why : Stop)
deriving DecidableEq, Repr

/-- An option, with its long name and the letter that stands for it. -/
structure OptionSpec where
  name : String
  letter : Option Char := none
  kind : OptionKind
deriving DecidableEq, Repr

/-- An option as it is written, with the value that is attached to it. -/
structure Spelling where
  spec : OptionSpec
  attached : Option String

namespace Spelling

/-- An option by its long name; a value may follow an equals sign. -/
def long? (specs : List OptionSpec) (text : List Char) : Option Spelling := do
  let (name, rest) := text.span (· ≠ '=')
  let spec ← specs.find? (·.name.toList = name)
  some ⟨spec, match rest with
    | [] => none
    | _ :: value => some (String.ofList value)⟩

/-- An option by its letter; a value may follow at once or after an equals sign. No letter stands
for a flag, so all that follows is the value. -/
def short? (specs : List OptionSpec) (text : List Char) : Option Spelling := do
  let letter :: rest := text | none
  let spec ← specs.find? (·.letter = some letter)
  some ⟨spec, match spec.kind, rest with
    | .value _, '=' :: value => some (String.ofList value)
    | .value _, c :: value => some (String.ofList (c :: value))
    | _, _ => none⟩

end Spelling

/-- An argument is an option, or a word. A single hyphen is a word. -/
inductive Argument where
  | word (text : String)
  /-- Two hyphens: all that follow are words. -/
  | wordsFollow
  | option (spelling : Spelling)
  | unknown

def Argument.read (specs : List OptionSpec) (text : String) : Argument :=
  match text.toList with
  | ['-', '-'] => wordsFollow
  | '-' :: '-' :: name => (Spelling.long? specs name).elim unknown option
  | '-' :: c :: rest => (Spelling.short? specs (c :: rest)).elim unknown option
  | _ => word text

/-- A text can be the value of the option before it. -/
def isValue (text : String) : Bool := text = "-" || !text.startsWith "-"

/-! ### Levels -/

/-- What was given on a level: options with their values, and words. -/
structure Given where
  options : List (String × String) := []
  words : List String := []
deriving DecidableEq, Repr

namespace Given

def value? (g : Given) (name : String) : Option String :=
  (g.options.find? (·.1 = name)).map (·.2)

def has (g : Given) (name : String) : Bool := (g.value? name).isSome

/-- Adds the value of an option, which may be given once. -/
def add (g : Given) (spec : OptionSpec) (value : String) : Except Stop Given :=
  if g.has spec.name || (spec.kind = .value true && value.isEmpty) then .error .misuse
  else .ok { g with options := g.options ++ [(spec.name, value)] }

end Given

/-- What words a level may have: the name of a command, which ends the level, or a number of words
for a command, none of them empty where it names a file. -/
inductive Words where
  | command
  | places (nonempty : List Bool)
deriving DecidableEq, Repr

/-- Adds a word at the next place. -/
def Given.addWord (g : Given) (places : List Bool) (word : String) : Except Stop Given :=
  match places[g.words.length]? with
  | none => .error .misuse
  | some nonempty =>
    if nonempty && word.isEmpty then .error .misuse else .ok { g with words := g.words ++ [word] }

/-- Reads a level. What follows the name of a command is left over. -/
def readLevel (specs : List OptionSpec) (words : Words) (g : Given) :
    List String → Except Stop (Given × List String)
  | [] => .ok (g, [])
  | text :: rest =>
    match Argument.read specs text, words with
    | .unknown, _ | .wordsFollow, .command => .error .misuse
    | .word name, .command => .ok ({ g with words := [name] }, rest)
    | .word word, .places places => do readLevel specs words (← g.addWord places word) rest
    | .wordsFollow, .places places => do pure (← rest.foldlM (·.addWord places ·) g, [])
    | .option ⟨spec, attached⟩, _ =>
      match spec.kind, attached, rest with
      | .stop why, none, _ => .error why
      | .flag, none, rest => do readLevel specs words (← g.add spec "") rest
      | .value _, some value, rest => do readLevel specs words (← g.add spec value) rest
      | .value _, none, value :: rest =>
        if isValue value then do readLevel specs words (← g.add spec value) rest
        else .error .misuse
      | .value _, none, [] | .stop _, some _, _ | .flag, some _, _ => .error .misuse

/-! ### Commands -/

/-- The commands. -/
inductive Name where
  | schema
  | fragments
  | fragment
  | strategies
  | validate
deriving DecidableEq, Repr

/-- A command as it is asked for; the texts are not yet understood. -/
inductive Request where
  | schema (id : String) (refresh : Bool)
  | fragments (category : Option String)
  | fragment (id : String)
  | strategies
  | validate (id file : String)
deriving DecidableEq, Repr

namespace Name

def all : List Name := [.schema, .fragments, .fragment, .strategies, .validate]

def word : Name → String
  | .schema => "schema"
  | .fragments => "fragments"
  | .fragment => "fragment"
  | .strategies => "strategies"
  | .validate => "validate"

def ofWord? (s : String) : Option Name := all.find? (·.word = s)

theorem ofWord?_word (n : Name) : ofWord? n.word = some n := by cases n <;> rfl

/-- The options that only this command has. -/
def options : Name → List OptionSpec
  | .schema => [⟨"refresh", none, .flag⟩]
  | .fragments => [⟨"category", some 'C', .value false⟩]
  | .fragment | .strategies | .validate => []

/-- The places for the words of the command; the last one of `validate` is for a file. -/
def places : Name → List Bool
  | .fragments | .strategies => []
  | .schema | .fragment => [false]
  | .validate => [false, true]

/-- What is asked for, if no word is missing. -/
def request? (n : Name) (given : Given) : Option Request :=
  match n, given.words with
  | .schema, [id] => some (.schema id (given.has "refresh"))
  | .fragments, [] => some (.fragments (given.value? "category"))
  | .fragment, [id] => some (.fragment id)
  | .strategies, [] => some .strategies
  | .validate, [id, file] => some (.validate id file)
  | _, _ => none

end Name

/-- A command line. -/
structure Line where
  config : Option String := none
  baseUrl : Option String := none
  format : String
  request : Request
deriving DecidableEq, Repr

namespace Line

/-- The options for every command. -/
def sharedOptions : List OptionSpec :=
  [ ⟨"config", some 'c', .value true⟩, ⟨"base-url", none, .value false⟩,
    ⟨"help", some 'h', .stop .help⟩ ]

/-- The options before the name of the command. -/
def outerOptions : List OptionSpec := ⟨"version", some 'V', .stop .version⟩ :: sharedOptions

/-- The options after the name of a command. -/
def innerOptions (n : Name) : List OptionSpec :=
  ⟨"format", some 'f', .value false⟩ :: n.options ++ sharedOptions

/-- Help about a command, or about the help itself. -/
def helpFor : List String → Stop
  | [] => .help
  | [word] => if word = "help" || (Name.ofWord? word).isSome then .help else .misuse
  | _ => .misuse

/-- Reads a command line. -/
def read (args : List String) : Except Stop Line := do
  let (outer, rest) ← readLevel outerOptions .command {} args
  let [word] := outer.words | throw .misuse
  if word = "help" then throw (helpFor rest)
  let some name := Name.ofWord? word | throw .misuse
  let (inner, _) ← readLevel (innerOptions name) (.places name.places) {} rest
  let some request := name.request? inner | throw .misuse
  pure {
    config := (inner.value? "config").or (outer.value? "config")
    baseUrl := (inner.value? "base-url").or (outer.value? "base-url")
    format := (inner.value? "format").getD "table"
    request }

end Line

end StrategyForm.Command
