import StrategyForm.Command.Format
import StrategyForm.Command.Table
import StrategyForm.Form.Assembly
import StrategyForm.Form.Violation
import StrategyForm.Json.Writer
import StrategyForm.Wire.Schema

/-!
# Reports

What commands print: a table for people, or JSON with a member a line.
-/

namespace StrategyForm.Command

/-- A value on one line, a text without its quotes; a dash for none. -/
def displayValue : Option Json → String
  | none | some .null => "-"
  | some (.string s) => s
  | some j => j.compress

/-- The bounds of a field, a dash for none. -/
def displayRange (f : Field) : String :=
  match f.min, f.max with
  | none, none => "-"
  | min, max =>
    let bound (x : Option Decimal.Binary64) : String := x.elim "" Decimal.Layout.plain.render
    bound min ++ ".." ++ bound max

def displayCategory (c : Option Category) : String := c.elim "-" Category.word

/-- The total at the end of a report. -/
def total (n : Nat) (things : String) : String := "Total: " ++ toString n ++ " " ++ things

/-! ### Fields -/

def fieldTable (fields : List Field) : Table where
  columns :=
    [ ⟨"NAME", 24⟩, ⟨"TYPE", 12⟩, ⟨"REQ", 4⟩, ⟨"DEFAULT", 14⟩, ⟨"RANGE", 16⟩,
      ⟨"CONDITION", 30⟩ ]
  ruleLength := 104
  indent := 2
  rows := fields.map fun f =>
    [ truncate 24 f.name, f.kind.word, if f.required then "✓" else "",
      truncate 14 (displayValue f.default), displayRange f, truncate 30 (f.condition.getD "-") ]

/-! ### Schemas -/

/-- A section with the table of its fields. -/
def sectionText (s : Section) : String :=
  "\n[" ++ s.id ++ "] " ++ s.name ++ " (" ++ (if s.required then "필수" else "선택") ++ ", order " ++
    toString s.order.toInt ++ ")\n" ++ (fieldTable s.fields).render

def schemaText (r : Resolution) : String :=
  r.schema.name ++ " (" ++ r.schema.id ++ ")\n" ++ r.schema.description.elim "" (· ++ "\n") ++
    String.join (r.sections.map sectionText) ++ "\n" ++
    total r.sections.length "sections" ++ ", " ++
    toString (r.sections.flatMap (·.fields)).length ++ " fields"

/-- The defaults of the schema are written sorted by key, which is one of the orders of `Schema.toJsonIn`. -/
def schemaJson (r : Resolution) : Json :=
  .object [("schema", r.schema.toJson), ("sections", .array (r.sections.map Section.toJson))]

/-! ### Fragments -/

def fragmentTable (fragments : List Fragment) : Table where
  columns := [⟨"ID", 28⟩, ⟨"NAME", 30⟩, ⟨"CATEGORY", 16⟩, ⟨"FIELDS", 6⟩]
  ruleLength := 83
  rows := fragments.map fun f =>
    [truncate 28 f.id, truncate 30 f.name, displayCategory f.category, toString f.fields.length]

def fragmentsText (fragments : List Fragment) : String :=
  (fragmentTable fragments).render ++ "\n" ++ total fragments.length "fragments"

def fragmentText (f : Fragment) : String :=
  f.name ++ " (" ++ f.id ++ ") [" ++ displayCategory f.category ++ "]\n" ++
    f.description.elim "" (· ++ "\n") ++
    (if f.dependencies.isEmpty then ""
      else "Depends on: " ++ ", ".intercalate f.dependencies ++ "\n") ++
    "\n" ++ (fieldTable f.fields).render

/-! ### Strategies -/

/-- The time frame of a strategy, with a mark when it has several; a dash for none. -/
def displayTimeframe (e : StrategyEntry) : String :=
  match e.defaultTimeframe with
  | some t => if e.isMultiTimeframe then t ++ "+" else t
  | none => "-"

def strategyTable (entries : List StrategyEntry) : Table where
  columns := [⟨"ID", 28⟩, ⟨"NAME", 30⟩, ⟨"TIMEFRAME", 10⟩, ⟨"MARKETS", 20⟩, ⟨"CATEGORY", 12⟩]
  ruleLength := 104
  rows := entries.map fun e =>
    [ truncate 28 e.id, truncate 30 e.name, displayTimeframe e,
      truncate 20 (",".intercalate e.supportedMarkets), e.category.getD "-" ]

def strategiesText (entries : List StrategyEntry) : String :=
  (strategyTable entries).render ++ "\n" ++ total entries.length "strategies"

/-! ### Violations -/

def violationsText (found : List Violation) : String :=
  if found.isEmpty then "✅ 모든 값이 유효합니다"
  else
    String.join (found.map fun v => "✗ " ++ v.message ++ "\n") ++ "\n" ++
      total found.length "violations"

/-! ### Formats -/

/-- A report in a format. -/
def inFormat (format : Format) (text : String) (json : Json) : String :=
  match format with
  | .table => text
  | .json => json.pretty

end StrategyForm.Command
