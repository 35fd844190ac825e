import StrategyForm.Wire.Field
import StrategyForm.Fragment

/-!
# Fragments on the wire
-/

namespace StrategyForm
open Json Json.Decoder Wire

def Category.decoder : Decoder Category := oneOf Category.ofWord?

/-- An order on the wire. -/
def Wire.order (o : Int64) : Json := .ofInt o.toInt

namespace Fragment

def slots : List (Slot Fragment) :=
  [ need ["id"] Decoder.text fun v f => { f with id := v },
    need ["name"] Decoder.text fun v f => { f with name := v },
    allow "description" (optional Decoder.text) fun v f => { f with description := v },
    allow "category" (optional Category.decoder) fun v f => { f with category := v },
    allow "order" (optional Decoder.int64) fun v f => { f with order := v },
    allow "fields" (Decoder.list Field.decoder) fun v f => { f with fields := v },
    allow "dependencies" (Decoder.list Decoder.text) fun v f => { f with dependencies := v } ]

def decoder : Decoder Fragment := record slots { id := "", name := "" }

def toJson (f : Fragment) : Json :=
  .object <|
    always "id" (.string f.id) ++
    always "name" (.string f.name) ++
    present "description" (f.description.map .string) ++
    present "category" (f.category.map (.string ·.word)) ++
    present "order" (f.order.map Wire.order) ++
    always "fields" (.array (f.fields.map Field.toJson)) ++
    nonempty "dependencies" f.dependencies

end Fragment

namespace FragmentRef

def slots : List (Slot FragmentRef) :=
  [ need ["id"] Decoder.text fun v r => { r with id := v },
    allow "required" Decoder.bool fun v r => { r with required := v },
    allow "order" (optional Decoder.int64) fun v r => { r with order := v } ]

def decoder : Decoder FragmentRef := record slots { id := "" }

def toJson (r : FragmentRef) : Json :=
  .object <|
    always "id" (.string r.id) ++
    always "required" (.bool r.required) ++
    present "order" (r.order.map Wire.order)

end FragmentRef

end StrategyForm
