/-!
# Tables

A table is a heading and rows of cells, one line each. Every cell is filled up with spaces to the
width of its column, counted in characters, and a space goes between two cells. A cell that is wider
than its column is not cut here; who makes the rows may cut it before with `truncate`.
-/

namespace StrategyForm.Command

def spaces (n : Nat) : String := String.ofList (List.replicate n ' ')

/-- The text filled up to a width. -/
def padded (width : Nat) (s : String) : String := s ++ spaces (width - s.length)

/-- The text, or its beginning with three stops when it has more characters than allowed. -/
def truncate (most : Nat) (s : String) : String :=
  if s.length ≤ most then s else String.ofList (s.toList.take (most - 3)) ++ "..."

/-- A column of a table. -/
structure Column where
  heading : String
  width : Nat
deriving DecidableEq, Repr

/-- A table before it is written. -/
structure Table where
  columns : List Column
  /-- How far the rule under the heading goes. -/
  ruleLength : Nat
  /-- Spaces before every line. -/
  indent : Nat := 0
  rows : List (List String)
deriving DecidableEq, Repr

namespace Table

/-- A line of cells. -/
def line (t : Table) (cells : List String) : String :=
  spaces t.indent ++ " ".intercalate (List.zipWith (fun c s => padded c.width s) t.columns cells)

def headings (t : Table) : List String := t.columns.map (·.heading)

def rule (t : Table) : String :=
  spaces t.indent ++ String.ofList (List.replicate t.ruleLength '-')

/-- The lines of a table. -/
def lines (t : Table) : List String := t.line t.headings :: t.rule :: t.rows.map t.line

/-- The text of a table, with a line break after each line. -/
def render (t : Table) : String := String.join (t.lines.map (· ++ "\n"))

end Table

end StrategyForm.Command
