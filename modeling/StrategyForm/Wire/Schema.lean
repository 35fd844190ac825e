import StrategyForm.Wire.Fragment
import StrategyForm.Schema

/-!
# Schemas, sections and strategy entries on the wire

A strategy entry writes its missing texts as `null`; the other records leave them out. A section has
no optional member but its description. The defaults of a schema are the only map on the wire whose members
have no order of their own.
-/

namespace StrategyForm
open Json Json.Decoder Wire

namespace Schema

def slots : List (Slot Schema) :=
  [ need ["id"] Decoder.text fun v s => { s with id := v },
    need ["name"] Decoder.text fun v s => { s with name := v },
    allow "description" (optional Decoder.text) fun v s => { s with description := v },
    allow "category" Decoder.text fun v s => { s with category := v },
    allow "fragments" (Decoder.list FragmentRef.decoder) fun v s => { s with fragments := v },
    allow "custom_fields" (Decoder.list Field.decoder) fun v s => { s with customFields := v },
    allow "defaults" (optional (Decoder.keyed Decoder.json)) fun v s => { s with defaults := v } ]

def decoder : Decoder Schema := record slots { id := "", name := "" }

/-- A schema with the members of its defaults in a given order. The program keeps the defaults in a hash map
and writes them in whatever order that map has. -/
def toJsonIn (order : Keyed Json → List (String × Json)) (s : Schema) : Json :=
  .object <|
    always "id" (.string s.id) ++
    always "name" (.string s.name) ++
    present "description" (s.description.map .string) ++
    always "category" (.string s.category) ++
    always "fragments" (.array (s.fragments.map FragmentRef.toJson)) ++
    always "custom_fields" (.array (s.customFields.map Field.toJson)) ++
    present "defaults" (s.defaults.map fun m => .object (order m))

/-- With the defaults sorted by key, which is one of the orders the program may take. -/
def toJson (s : Schema) : Json := s.toJsonIn Keyed.entries

end Schema

namespace Section

def slots : List (Slot Section) :=
  [ need ["id"] Decoder.text fun v s => { s with id := v },
    need ["name"] Decoder.text fun v s => { s with name := v },
    allow "description" (optional Decoder.text) fun v s => { s with description := v },
    need ["required"] Decoder.bool fun v s => { s with required := v },
    need ["collapsible"] Decoder.bool fun v s => { s with collapsible := v },
    need ["fields"] (Decoder.list Field.decoder) fun v s => { s with fields := v },
    need ["order"] Decoder.int64 fun v s => { s with order := v } ]

def decoder : Decoder Section := record slots default

def toJson (s : Section) : Json :=
  .object <|
    always "id" (.string s.id) ++
    always "name" (.string s.name) ++
    present "description" (s.description.map .string) ++
    always "required" (.bool s.required) ++
    always "collapsible" (.bool s.collapsible) ++
    always "fields" (.array (s.fields.map Field.toJson)) ++
    always "order" (Wire.order s.order)

end Section

namespace StrategyEntry

def slots : List (Slot StrategyEntry) :=
  [ need ["id"] Decoder.text fun v e => { e with id := v },
    allow "aliases" (Decoder.list Decoder.text) fun v e => { e with aliases := v },
    need ["name"] Decoder.text fun v e => { e with name := v },
    allow "description" Decoder.text fun v e => { e with description := v },
    allow "defaultTimeframe" (optional Decoder.text) fun v e => { e with defaultTimeframe := v },
    allow "secondaryTimeframes" (Decoder.list Decoder.text)
      fun v e => { e with secondaryTimeframes := v },
    allow "isMultiTimeframe" Decoder.bool fun v e => { e with isMultiTimeframe := v },
    allow "category" (optional Decoder.text) fun v e => { e with category := v },
    allow "supportedMarkets" (Decoder.list Decoder.text) fun v e =>
      { e with supportedMarkets := v } ]

def decoder : Decoder StrategyEntry := record slots { id := "", name := "" }

def toJson (e : StrategyEntry) : Json :=
  .object <|
    always "id" (.string e.id) ++
    always "aliases" (.ofStrings e.aliases) ++
    always "name" (.string e.name) ++
    always "description" (.string e.description) ++
    always "defaultTimeframe" (.ofText? e.defaultTimeframe) ++
    always "secondaryTimeframes" (.ofStrings e.secondaryTimeframes) ++
    always "isMultiTimeframe" (.bool e.isMultiTimeframe) ++
    always "category" (.ofText? e.category) ++
    always "supportedMarkets" (.ofStrings e.supportedMarkets)

end StrategyEntry

end StrategyForm
