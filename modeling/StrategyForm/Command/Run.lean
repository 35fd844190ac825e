import StrategyForm.Command.Report
import StrategyForm.Folder
import StrategyForm.Form.InitialValues
import StrategyForm.Web.Resolver

/-!
# Commands

A command asks for one thing and prints one report of it. When it fails it prints nothing; the
failure tells what was tried, from the outermost, and the cause. Values to be checked are read
before anything is asked for, and are laid over the values that the form starts with.
-/

namespace StrategyForm.Command
open Web (Resolver)

/-- Why a command failed in the end. -/
inductive Cause where
  | fault (fault : Fault)
  | unreadable (flaw : Folder.Flaw)
  | malformed (mistake : Json.Mistake)
  /-- What was asked for makes no sense. -/
  | refused (message : String)
deriving DecidableEq, Repr

def Cause.message : Cause → String
  | .fault f => f.message
  | .unreadable flaw => flaw.message
  | .malformed (.flawed .truncated) => "the text ends too early"
  | .malformed _ => "the text is not JSON"
  | .refused message => message

/-- A failed command: what was tried, and the cause. -/
structure Failure where
  tried : Option String := none
  cause : Cause
deriving DecidableEq, Repr

namespace Failure

def refused (message : String) : Failure := { cause := .refused message }

/-- The messages from the outermost. -/
def chain (f : Failure) : List String := f.tried.toList ++ [f.cause.message]

end Failure

/-- The format that a word names. -/
def readFormat (s : String) : Except Failure Format :=
  match Format.parse? s with
  | some f => .ok f
  | none => .error (.refused (Format.unknownMessage s))

/-- The category that a word names, if there is a word. -/
def readCategory : Option String → Except Failure (Option Category)
  | none => .ok none
  | some s =>
    match Category.parse? s with
    | some c => .ok (some c)
    | none => .error (.refused (Category.unknownMessage s))

/-- What can be asked for. -/
inductive Task where
  | schema (id : String) (refresh : Bool)
  | fragments (category : Option Category)
  | fragment (id : String)
  | strategies
  | validate (id file : String)
deriving DecidableEq, Repr

/-- What a command prints, and the number of things that it found. -/
structure Report where
  text : String
  count : Option Nat := none
deriving DecidableEq, Repr

/-- The values in a text, which must be a JSON object. -/
def valuesOf (text : String) : Except Failure FormValues :=
  match Json.Decoder.decode Json.Decoder.json text with
  | .error mistake => .error ⟨some "Failed to parse values JSON", .malformed mistake⟩
  | .ok (.object members) => .ok (.ofList members)
  | .ok other => .error (.refused ("Values must be a JSON object, got: " ++ other.compress))

/-- The values in a file. -/
def readValues (folder : Folder) (path : String) : Except Failure FormValues :=
  match folder.read path with
  | .error flaw => .error ⟨some ("Failed to read values file: " ++ path), .unreadable flaw⟩
  | .ok text => valuesOf text

/-- The values that are checked: the entered ones over those that the form starts with. -/
def mergedValues (r : Resolution) (entered : FormValues) : FormValues :=
  (initialValues r.schema r.sections).override entered

/-- A result, or the failure that it is for who tried something. -/
def attempted {α : Type} (tried : String) : Except Fault α → Except Failure α
  | .ok a => .ok a
  | .error e => .error ⟨some tried, .fault e⟩

/-- The report of checked values. -/
def violationReport (format : Format) (found : List Violation) : Report where
  text := inFormat format (violationsText found) (.array (found.map Violation.toJson))
  count := some found.length

/-- Does a task at a time. -/
def run (r : Resolver) (folder : Folder) (now : Nat) (format : Format) :
    Task → Resolver × Except Failure Report
  | .schema id refresh =>
    let (r, result) := if refresh then r.refresh now id else r.resolve now id
    (r, (attempted ("Failed to resolve schema: " ++ id) result).map fun found =>
      { text := inFormat format (schemaText found) (schemaJson found)
        count := some found.sections.length })
  | .fragments category =>
    let (traffic, result) := r.client.listFragments r.network category r.traffic
    ({ r with traffic }, (attempted "Failed to list fragments" result).map fun found =>
      { text := inFormat format (fragmentsText found) (.array (found.map Fragment.toJson))
        count := some found.length })
  | .fragment id =>
    let (traffic, result) := r.client.fetchFragment r.network id r.traffic
    ({ r with traffic }, (attempted ("Failed to fetch fragment: " ++ id) result).map fun found =>
      { text := inFormat format (fragmentText found) found.toJson })
  | .strategies =>
    let (traffic, result) := r.client.listStrategies r.network r.traffic
    ({ r with traffic }, (attempted "Failed to list strategies" result).map fun found =>
      { text := inFormat format (strategiesText found) (.array (found.map StrategyEntry.toJson))
        count := some found.length })
  | .validate id file =>
    match readValues folder file with
    | .error e => (r, .error e)
    | .ok entered =>
      let (r, result) := r.resolve now id
      (r, (attempted ("Failed to resolve schema: " ++ id) result).map fun found =>
        violationReport format (violations found.sections (mergedValues found entered)))

end StrategyForm.Command
