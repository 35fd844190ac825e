import StrategyForm.Wire.Record
import StrategyForm.Field

/-!
# Fields on the wire

A field is written with its members in a fixed order, leaving out what it does not have. It is read
from its name and kind at least; the kind may stand under either of two keys, but not under both.
-/

namespace StrategyForm
open Json Json.Decoder Wire

def FieldKind.decoder : Decoder FieldKind := oneOf FieldKind.ofWord?

namespace Field

def slots : List (Slot Field) :=
  [ need ["name"] Decoder.text fun v f => { f with name := v },
    need ["type", "field_type"] FieldKind.decoder fun v f => { f with kind := v },
    allow "label" Decoder.text fun v f => { f with label := v },
    allow "description" (optional Decoder.text) fun v f => { f with description := v },
    allow "default" (optional Decoder.json) fun v f => { f with default := v },
    allow "min" (optional Decoder.float) fun v f => { f with min := v },
    allow "max" (optional Decoder.float) fun v f => { f with max := v },
    allow "options" (Decoder.list Decoder.text) fun v f => { f with options := v },
    allow "condition" (optional Decoder.text) fun v f => { f with condition := v },
    allow "required" Decoder.bool fun v f => { f with required := v } ]

def decoder : Decoder Field := record slots {}

def toJson (f : Field) : Json :=
  .object <|
    always "name" (.string f.name) ++
    always "type" (.string f.kind.word) ++
    always "label" (.string f.label) ++
    present "description" (f.description.map .string) ++
    present "default" f.default ++
    present "min" (f.min.map .ofFloat) ++
    present "max" (f.max.map .ofFloat) ++
    nonempty "options" f.options ++
    present "condition" (f.condition.map .string) ++
    always "required" (.bool f.required)

end Field

end StrategyForm
