import StrategyForm.Form.Condition
import StrategyForm.Schema

/-!
# Violations

Entered values are checked against the constraints of the visible fields. A field violates its
constraints in at most one way, and violations come in the order of sections and fields.
-/

namespace StrategyForm
open Decimal

/-- How a value fails its field. -/
inductive ViolationKind where
  | missing
  | typeMismatch (expected : FieldKind)
  | belowMin (min actual : Binary64)
  | aboveMax (max actual : Binary64)
  | invalidOption (value : String)
deriving DecidableEq, Repr

/-- A field whose value fails. -/
structure Violation where
  sectionId : String
  field : String
  kind : ViolationKind
deriving DecidableEq, Repr

namespace Field

/-- A number against the bounds; the lower one is looked at first. -/
def checkRange (f : Field) (actual : Binary64) : Option ViolationKind :=
  match f.min.filter (actual < ·) with
  | some min => some (.belowMin min actual)
  | none => (f.max.filter (· < actual)).map (.aboveMax · actual)

/-- A choice against the options. -/
def checkOption (f : Field) (value : String) : Option ViolationKind :=
  if f.options.isEmpty || f.options.contains value then none else some (.invalidOption value)

/-- The choices of a multiple selection, in order; the first that fails counts. -/
def checkChoices (f : Field) : List Json → Option ViolationKind
  | [] => none
  | .string s :: rest => (f.checkOption s).or (f.checkChoices rest)
  | _ :: _ => some (.typeMismatch f.kind)

/-- A value that is neither absent nor `null`, against the field. -/
def checkValue (f : Field) (value : Json) : Option ViolationKind :=
  let mismatch := some (.typeMismatch f.kind)
  match f.kind, value with
  | .integer, .number n => if n.toBinary64.isWhole then f.checkRange n.toBinary64 else mismatch
  | .number, .number n => f.checkRange n.toBinary64
  | .boolean, .bool _ => none
  | .string, .string _ => none
  | .symbol, .string _ => none
  | .symbols, .array items => if items.all (·.asString?.isSome) then none else mismatch
  | .select, .string s => f.checkOption s
  | .multiSelect, .array items => f.checkChoices items
  | _, _ => mismatch

/-- How the entered values fail a field that is visible. -/
def check (f : Field) (values : FormValues) : Option ViolationKind :=
  match values.get? f.name with
  | none | some .null => if f.required then some .missing else none
  | some value => f.checkValue value

end Field

/-- All violations of the entered values. Hidden fields are not checked. -/
def violations (sections : List Section) (values : FormValues) : List Violation :=
  sections.flatMap fun s =>
    (s.fields.filter (·.isVisible values)).filterMap fun f =>
      (f.check values).map (⟨s.id, f.name, ·⟩)

namespace Violation

/-- The line of a report. -/
def message (v : Violation) : String :=
  let number := Layout.plain.render
  "[" ++ v.sectionId ++ "] " ++ v.field ++ ": " ++
    match v.kind with
    | .missing => "필수 값이 없습니다"
    | .typeMismatch expected => expected.label ++ " 타입이어야 합니다"
    | .belowMin min actual => number actual ++ " 은(는) 최소값 " ++ number min ++ " 보다 작습니다"
    | .aboveMax max actual => number actual ++ " 은(는) 최대값 " ++ number max ++ " 보다 큽니다"
    | .invalidOption value => "허용되지 않은 선택지: " ++ value

def toJson (v : Violation) : Json :=
  let details := match v.kind with
    | .missing => [("kind", Json.string "missing")]
    | .typeMismatch expected =>
      [("kind", .string "type_mismatch"), ("expected", .string expected.word)]
    | .belowMin min actual =>
      [("kind", .string "below_min"), ("min", .ofFloat min), ("actual", .ofFloat actual)]
    | .aboveMax max actual =>
      [("kind", .string "above_max"), ("max", .ofFloat max), ("actual", .ofFloat actual)]
    | .invalidOption value => [("kind", .string "invalid_option"), ("value", .string value)]
  .object ([("section", Json.string v.sectionId), ("field", .string v.field)] ++ details)

end Violation

end StrategyForm
