import StrategyForm.Folder
import StrategyForm.Json.Decoder
import StrategyForm.Settings.Load
import StrategyForm.Toml.Reader

/-!
# Settings files

The ending of a file's name tells its format. A path that is no file is tried again with each of the
known endings.
-/

namespace StrategyForm

/-- Why settings cannot be loaded. -/
inductive LoadFault where
  /-- There is no such file, with or without a known ending. -/
  | missing (path : String)
  /-- The file has none of the known endings. -/
  | unknownFormat (path : String)
  /-- The file does not hold a table in its format. -/
  | malformed (path : String)
  /-- A setting is not of its kind. -/
  | misshapen
deriving DecidableEq, Repr

def LoadFault.message : LoadFault → String
  | .missing path => "configuration file \"" ++ path ++ "\" not found"
  | .unknownFormat path =>
    "configuration file \"" ++ path ++ "\" is not of a registered file format"
  | .malformed path => "malformed configuration file in " ++ path
  | .misshapen => "invalid type of a setting"

/-- The formats of settings files that are known here. The program reads some others too (YAML, INI, RON and
JSON5); their endings count as unknown. -/
inductive FileFormat where
  | toml
  | json
deriving DecidableEq, Repr

namespace FileFormat

def all : List FileFormat := [.toml, .json]

/-- The ending of file names. -/
def ending : FileFormat → String
  | .toml => "toml"
  | .json => "json"

/-- What follows the last stop of a path's last name, unless the name begins there. -/
def endingOf? (path : String) : Option String :=
  let name := ((Folder.names path).getLast?).getD []
  match name.reverse.span (· ≠ '.') with
  | (ending, _ :: _ :: _) => some (String.ofList ending.reverse)
  | _ => none

/-- The format that a path's ending names. -/
def ofPath? (path : String) : Option FileFormat :=
  (endingOf? path).bind fun ending => all.find? (·.ending = ending)

/-- The entries of the table that a text describes. -/
def read? : FileFormat → String → Option (List (String × SettingTree))
  | toml, text => Toml.read? text
  | json, text =>
    match Json.Decoder.decode Json.Decoder.json text with
    | .ok (.object members) => some (SettingTree.ofJson (.object members)).entries
    | _ => none

end FileFormat

namespace Settings

/-- The text without a mark of byte order at its front. -/
def withoutMark (s : String) : String :=
  match s.toList with
  | '\uFEFF' :: rest => String.ofList rest
  | cs => String.ofList cs

/-- The file that a path means: its own, or the one with a known ending. -/
def locate (folder : Folder) (path : String) : Except LoadFault (String × FileFormat × String) :=
  match folder.get? path with
  | some text =>
    match FileFormat.ofPath? path with
    | some format => .ok (path, format, text)
    | none => .error (.unknownFormat path)
  | none =>
    let found := FileFormat.all.findSome? fun format =>
      let path := path ++ "." ++ format.ending
      (folder.get? path).map fun text => (path, format, text)
    match found with
    | some f => .ok f
    | none => .error (.missing path)

/-- The entries of a settings file. -/
def fileEntries (folder : Folder) (path : String) :
    Except LoadFault (List (String × SettingTree)) := do
  let (path, format, text) ← locate folder path
  match format.read? (withoutMark text) with
  | some entries => .ok entries
  | none => .error (.malformed path)

/-- Where settings are kept when no other path is given. -/
def usualPath : String := "config/sdui.toml"

/-- Loads settings from a file, or from the usual one if it is there, and the environment. -/
def load (folder : Folder) (path : Option String) (env : Environment) :
    Except LoadFault Settings := do
  let entries ← match path with
    | some path => fileEntries folder path
    | none => if folder.contains usualPath then fileEntries folder usualPath else pure []
  match ofLayers? entries env with
  | some s => .ok s
  | none => .error .misshapen

end Settings

end StrategyForm
