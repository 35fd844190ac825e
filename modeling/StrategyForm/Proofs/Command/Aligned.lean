import Mathlib.Algebra.BigOperators.Group.List.Basic
import Mathlib.Algebra.Ring.Nat
import StrategyForm.Command.Report
import StrategyForm.Proofs.Json.OneLine

/-!
# Tables in line

Main statement (`listing_laid_out`): each row of a printed table is a line, and a column of it starts where the
column's heading starts, moved on by what the cells before it have too much (`Table.overhang`). So a table is in
line as long as no cell is wider than its column (`Table.aligned_iff`).

Most cells are cut to their columns or hold a word that fits. Four are not: the bounds of a field, the number of
fields of a fragment, and the time frame and the category of a strategy. `Listing.Fits` says what they may hold.
-/

namespace StrategyForm.Command
open Text Decimal

/-! ### Cells -/

theorem length_padded (width : Nat) (s : String) : (padded width s).length = max width s.length := by
  simp only [padded, spaces, String.length_append, String.length_ofList, List.length_replicate]
  omega

theorem oneLine_spaces (n : Nat) : OneLine (spaces n) :=
  OneLine.ofList_iff.2 fun mem => absurd (List.eq_of_mem_replicate mem) (by decide)

theorem oneLine_padded {s : String} (h : OneLine s) (width : Nat) : OneLine (padded width s) :=
  OneLine.append_iff.2 ⟨h, oneLine_spaces _⟩

theorem length_truncate_le {most : Nat} (stops : 3 ≤ most) (s : String) : (truncate most s).length ≤ most := by
  unfold truncate
  split
  · assumption
  · simp only [String.length_append, String.length_ofList, List.length_take]
    have three : "...".length = 3 := by decide
    omega

theorem oneLine_truncate {s : String} (h : OneLine s) (most : Nat) : OneLine (truncate most s) := by
  unfold truncate
  split
  · exact h
  · exact OneLine.append_iff.2 ⟨OneLine.ofList_iff.2 fun mem => h (List.mem_of_mem_take mem), by decide⟩

/-! ### Lines of cells -/

/-- A text stands in a line, so many characters behind its front. -/
def StandsAt (line : String) (offset : Nat) (s : String) : Prop := s.toList <+: line.toList.drop offset

theorem StandsAt.behind {line s : String} {offset : Nat} (h : StandsAt line offset s) (before : String) :
    StandsAt (before ++ line) (before.length + offset) s := by
  rw [StandsAt, String.toList_append, ← String.length_toList, List.drop_length_add_append]
  exact h

theorem standsAt_intercalate {parts : List String} {k : Nat} {s : String} (h : parts[k]? = some s) :
    StandsAt (" ".intercalate parts) ((parts.take k).map (·.length + 1)).sum s := by
  induction parts generalizing k with
  | nil => cases h
  | cons p rest ih =>
    cases k with
    | zero =>
      obtain rfl := Option.some.inj h
      cases rest <;> simp [StandsAt]
    | succ k =>
      cases rest with
      | nil => cases h
      | cons q rest =>
        have later := (ih h).behind (p ++ " ")
        rw [String.length_append] at later
        rw [String.intercalate_cons_cons, List.take_succ_cons, List.map_cons, List.sum_cons]
        exact later

namespace Table
variable {t : Table} {cells : List String}

/-- The characters before the cell of a column in a line. -/
def start (t : Table) (cells : List String) (k : Nat) : Nat :=
  t.indent + (((t.columns.zip cells).take k).map fun e => max e.1.width e.2.length + 1).sum

/-- What the cells before a column have too much for their own columns, all together. -/
def overhang (t : Table) (cells : List String) (k : Nat) : Nat :=
  (((t.columns.zip cells).take k).map fun e => e.2.length - e.1.width).sum

/-- The headings fit in their columns, and every row has a cell for each column. -/
structure Formed (t : Table) : Prop where
  headings : ∀ c ∈ t.columns, c.heading.length ≤ c.width
  complete : ∀ cells ∈ t.rows, cells.length = t.columns.length

/-- Every column of every row starts where its heading starts and holds its cell. -/
structure Aligned (t : Table) : Prop where
  starts : ∀ cells ∈ t.rows, ∀ k < t.columns.length, t.start cells k = t.start t.headings k
  fits : ∀ cells ∈ t.rows, ∀ e ∈ t.columns.zip cells, e.2.length ≤ e.1.width

theorem line_eq (t : Table) (cells : List String) : t.line cells =
    spaces t.indent ++ " ".intercalate ((t.columns.zip cells).map fun e => padded e.1.width e.2) := by
  rw [line, List.map_zip_eq_zipWith]
  rfl

/-- The cell of a column, filled up, stands where the column starts. -/
theorem standsAt_line {k : Nat} {e : Column × String} (h : (t.columns.zip cells)[k]? = some e) :
    StandsAt (t.line cells) (t.start cells k) (padded e.1.width e.2) := by
  have cell : ((t.columns.zip cells).map fun e => padded e.1.width e.2)[k]? = some (padded e.1.width e.2) := by
    rw [List.getElem?_map, h, Option.map_some]
  have there := (standsAt_intercalate cell).behind (spaces t.indent)
  have indent : (spaces t.indent).length = t.indent := by simp [spaces]
  rw [indent, ← List.map_take, List.map_map] at there
  rw [line_eq, start]
  simpa only [Function.comp_def, length_padded] using there

theorem oneLine_line (h : ∀ s ∈ cells, OneLine s) : OneLine (t.line cells) := by
  rw [line_eq]
  refine OneLine.append_iff.2 ⟨oneLine_spaces _, OneLine.intercalate (by decide) fun s mem => ?_⟩
  obtain ⟨e, pair, rfl⟩ := List.mem_map.1 mem
  exact oneLine_padded (h e.2 (List.of_mem_zip pair).2) _

/-- Filled up cells take the width of their columns and what is too much. -/
theorem start_eq_width (complete : cells.length = t.columns.length) (k : Nat) :
    t.start cells k = t.indent + ((t.columns.take k).map (·.width + 1)).sum + t.overhang cells k := by
  have firsts : t.columns.take k = ((t.columns.zip cells).take k).map (·.1) := by
    rw [List.map_take, List.map_fst_zip (Nat.le_of_eq complete.symm)]
  rw [start, overhang, firsts, List.map_map, Nat.add_assoc, ← List.sum_map_add]
  congr 2
  refine List.map_congr_left fun e _ => ?_
  show max e.1.width e.2.length + 1 = e.1.width + 1 + (e.2.length - e.1.width)
  omega

theorem overhang_of_fits (fits : ∀ e ∈ t.columns.zip cells, e.2.length ≤ e.1.width) (k : Nat) :
    t.overhang cells k = 0 := by
  refine List.sum_eq_zero fun n mem => ?_
  obtain ⟨e, pair, rfl⟩ := List.mem_map.1 mem
  exact Nat.sub_eq_zero_of_le (fits e (List.mem_of_mem_take pair))

theorem start_headings (h : t.Formed) (k : Nat) :
    t.start t.headings k = t.indent + ((t.columns.take k).map (·.width + 1)).sum := by
  have complete : t.headings.length = t.columns.length := List.length_map _
  have pairs : t.columns.zip t.headings = t.columns.map fun c => (c, c.heading) := by
    simpa [Table.headings] using List.zip_map' (l := t.columns) (f := id) (g := Column.heading)
  rw [start_eq_width complete, overhang_of_fits, Nat.add_zero]
  intro e mem
  rw [pairs] at mem
  obtain ⟨c, column, rfl⟩ := List.mem_map.1 mem
  exact h.headings c column

/-- A column of a row starts behind its heading by what the cells before it have too much. -/
theorem start_eq (h : t.Formed) (row : cells ∈ t.rows) (k : Nat) :
    t.start cells k = t.start t.headings k + t.overhang cells k := by
  rw [start_headings h, start_eq_width (h.complete cells row)]

/-- A table is in line exactly when all its cells fit. -/
theorem aligned_iff (h : t.Formed) :
    t.Aligned ↔ ∀ cells ∈ t.rows, ∀ e ∈ t.columns.zip cells, e.2.length ≤ e.1.width := by
  refine ⟨Aligned.fits, fun fits => ⟨fun cells row k _ => ?_, fits⟩⟩
  rw [start_eq h row, overhang_of_fits (fits cells row), Nat.add_zero]

theorem render_footer (t : Table) {footer : List String} (some : footer ≠ []) :
    t.render ++ "\n".intercalate footer = "\n".intercalate (t.lines ++ footer) := by
  rw [render]
  induction t.lines with
  | nil => simp
  | cons line rest ih =>
    rw [List.cons_append, String.intercalate_cons_of_ne_nil (List.append_ne_nil_of_right_ne_nil rest some), ← ih,
      List.map_cons, String.join_cons, String.append_assoc]

theorem lines_oneLine (headings : ∀ c ∈ t.columns, OneLine c.heading)
    (rows : ∀ cells ∈ t.rows, ∀ s ∈ cells, OneLine s) : ∀ line ∈ t.lines, OneLine line := by
  intro line mem
  rcases List.mem_cons.1 mem with rfl | mem
  · refine oneLine_line fun s mem => ?_
    obtain ⟨c, column, rfl⟩ := List.mem_map.1 mem
    exact headings c column
  · rcases List.mem_cons.1 mem with rfl | mem
    · refine OneLine.append_iff.2 ⟨oneLine_spaces _, OneLine.ofList_iff.2 fun mem => ?_⟩
      exact absurd (List.eq_of_mem_replicate mem) (by decide)
    · obtain ⟨cells, row, rfl⟩ := List.mem_map.1 mem
      exact oneLine_line (rows cells row)

end Table

/-- Texts of one line each are the lines of what they make together. -/
theorem lines_of_intercalate {lines : List String} (some : lines ≠ []) (h : ∀ line ∈ lines, OneLine line) :
    ("\n".intercalate lines).toList.splitOn '\n' = lines.map String.toList := by
  rw [String.toList_intercalate]
  refine List.splitOn_intercalate '\n' (fun cs mem => ?_) (mt List.map_eq_nil_iff.1 some)
  obtain ⟨line, there, rfl⟩ := List.mem_map.1 mem
  exact h line there

/-! ### The three tables -/

/-- What is printed as a table. -/
inductive Listing where
  | fields (list : List Field)
  | fragments (list : List Fragment)
  | strategies (list : List StrategyEntry)

namespace Listing

def table : Listing → Table
  | fields list => fieldTable list
  | fragments list => fragmentTable list
  | strategies list => strategyTable list

def text : Listing → String
  | fields list => (fieldTable list).render
  | fragments list => fragmentsText list
  | strategies list => strategiesText list

/-- The lines behind the table; the last line of the text of fields is empty. -/
def footer : Listing → List String
  | fields _ => [""]
  | fragments list => ["", total list.length "fragments"]
  | strategies list => ["", total list.length "strategies"]

/-- The texts that stand in the cells, cut or as they are. -/
def texts : Listing → List String
  | fields list => list.flatMap fun f =>
    f.name :: ((f.default.bind Json.asString?).toList ++ f.condition.toList)
  | fragments list => list.flatMap fun f => [f.id, f.name]
  | strategies list => list.flatMap fun e =>
    e.id :: e.name :: (e.defaultTimeframe.toList ++ e.supportedMarkets ++ e.category.toList)

/-- The columns whose cells are neither cut nor one of a few words. -/
def uncut : Listing → List String
  | fields _ => ["RANGE"]
  | fragments _ => ["FIELDS"]
  | strategies _ => ["TIMEFRAME", "CATEGORY"]

/-- The cells of those columns fit. -/
def Fits : Listing → Prop
  | fields list => ∀ f ∈ list, (displayRange f).length ≤ 16
  | fragments list => ∀ f ∈ list, f.fields.length < 1000000
  | strategies list => ∀ e ∈ list, (displayTimeframe e).length ≤ 10 ∧ (e.category.getD "-").length ≤ 12

instance : (l : Listing) → Decidable l.Fits
  | fields list => inferInstanceAs (Decidable (∀ f ∈ list, _))
  | fragments list => inferInstanceAs (Decidable (∀ f ∈ list, _))
  | strategies list => inferInstanceAs (Decidable (∀ e ∈ list, _))

theorem text_eq (l : Listing) : l.text = l.table.render ++ "\n".intercalate l.footer := by
  cases l with
  | fields list => simp [text, table, footer]
  | fragments list => simp [text, table, footer, fragmentsText, String.append_assoc]
  | strategies list => simp [text, table, footer, strategiesText, String.append_assoc]

theorem headings (l : Listing) : ∀ c ∈ l.table.columns, c.heading.length ≤ c.width ∧ OneLine c.heading := by
  cases l with
  | fields list =>
    have columns : ∀ c ∈ (fieldTable []).columns, c.heading.length ≤ c.width ∧ OneLine c.heading := by decide
    exact columns
  | fragments list =>
    have columns : ∀ c ∈ (fragmentTable []).columns, c.heading.length ≤ c.width ∧ OneLine c.heading := by decide
    exact columns
  | strategies list =>
    have columns : ∀ c ∈ (strategyTable []).columns, c.heading.length ≤ c.width ∧ OneLine c.heading := by decide
    exact columns

theorem formed (l : Listing) : l.table.Formed := by
  refine ⟨fun c column => (l.headings c column).1, fun cells row => ?_⟩
  cases l with
  | fields list | fragments list | strategies list =>
    obtain ⟨x, -, rfl⟩ := List.mem_map.1 row
    rfl

/-! ### What fits -/

theorem kind_fits (k : FieldKind) : k.word.length ≤ 12 := by cases k <;> decide

theorem category_fits (c : Option Category) : (displayCategory c).length ≤ 16 := by
  cases c with
  | none => decide
  | some c => cases c <;> decide

theorem count_fits_iff (n : Nat) : n.repr.length ≤ 6 ↔ n < 1000000 := Nat.length_repr_le_iff (by decide)

theorem cell_fits (l : Listing) : ∀ cells ∈ l.table.rows, ∀ e ∈ l.table.columns.zip cells,
    e.1.heading ∉ l.uncut → e.2.length ≤ e.1.width := by
  cases l with
  | fields list =>
    refine List.forall_mem_map.2 fun f _ => ?_
    have mark : (if f.required then "✓" else "").length ≤ 4 := by split <;> decide
    simp [fieldTable, table, uncut, length_truncate_le, kind_fits, mark]
  | fragments list =>
    refine List.forall_mem_map.2 fun f _ => ?_
    simp [fragmentTable, table, uncut, length_truncate_le, category_fits]
  | strategies list =>
    refine List.forall_mem_map.2 fun e _ => ?_
    simp [strategyTable, table, uncut, length_truncate_le]

/-- A table is in line exactly when the cells that are not cut fit. -/
theorem aligned_iff_fits (l : Listing) : l.table.Aligned ↔ l.Fits := by
  rw [Table.aligned_iff l.formed]
  cases l with
  | fields list =>
    refine List.forall_mem_map.trans (forall₂_congr fun f _ => ?_)
    have mark : (if f.required then "✓" else "").length ≤ 4 := by split <;> decide
    simp [fieldTable, table, length_truncate_le, kind_fits, mark]
  | fragments list =>
    refine List.forall_mem_map.trans (forall₂_congr fun f _ => ?_)
    simp [fragmentTable, table, length_truncate_le, category_fits, count_fits_iff]
  | strategies list =>
    refine List.forall_mem_map.trans (forall₂_congr fun e _ => ?_)
    simp [strategyTable, table, length_truncate_le]

/-! ### What is on one line -/

theorem oneLine_displayRange (f : Field) : OneLine (displayRange f) := by
  have bound (x : Option Binary64) : OneLine (x.elim "" Layout.plain.render) := by
    cases x with
    | none => decide
    | some x =>
      have ending : OneLine Layout.plain.wholeEnding := by decide
      exact Layout.oneLine_render ending x
  unfold displayRange
  split
  · decide
  · exact OneLine.append_iff.2 ⟨OneLine.append_iff.2 ⟨bound _, by decide⟩, bound _⟩

theorem oneLine_displayValue {j : Option Json} (h : ∀ s ∈ j.bind Json.asString?, OneLine s) :
    OneLine (displayValue j) := by
  unfold displayValue
  split
  · decide
  · decide
  · exact h _ rfl
  · exact Json.oneLine_compress _

theorem oneLine_displayTimeframe {e : StrategyEntry} (h : ∀ s ∈ e.defaultTimeframe, OneLine s) :
    OneLine (displayTimeframe e) := by
  unfold displayTimeframe
  split
  · rename_i t given
    split
    · exact OneLine.append_iff.2 ⟨h t given, by decide⟩
    · exact h t given
  · decide

theorem oneLine_getD {s : Option String} (h : ∀ t ∈ s, OneLine t) : OneLine (s.getD "-") := by
  cases s with
  | none => decide
  | some t => exact h t rfl

theorem oneLine_kind (k : FieldKind) : OneLine k.word := by cases k <;> decide

theorem oneLine_category (c : Option Category) : OneLine (displayCategory c) := by
  cases c with
  | none => decide
  | some c => cases c <;> decide

theorem oneLine_cells {l : Listing} (h : ∀ s ∈ l.texts, OneLine s) :
    ∀ cells ∈ l.table.rows, ∀ s ∈ cells, OneLine s := by
  cases l with
  | fields list =>
    refine List.forall_mem_map.2 fun f mem => ?_
    have texts := fun s there => h s (List.mem_flatMap.2 ⟨f, mem, there⟩)
    simp only [List.forall_mem_cons, List.forall_mem_append, Option.mem_toList] at texts
    obtain ⟨name, default, condition⟩ := texts
    have mark : OneLine (if f.required then "✓" else "") := by split <;> decide
    simp only [List.forall_mem_cons]
    exact ⟨oneLine_truncate name 24, oneLine_kind f.kind, mark, oneLine_truncate (oneLine_displayValue default) 14,
      oneLine_displayRange f, oneLine_truncate (oneLine_getD condition) 30, by simp⟩
  | fragments list =>
    refine List.forall_mem_map.2 fun f mem => ?_
    have texts := fun s there => h s (List.mem_flatMap.2 ⟨f, mem, there⟩)
    simp only [List.forall_mem_cons] at texts ⊢
    obtain ⟨id, name, -⟩ := texts
    exact ⟨oneLine_truncate id 28, oneLine_truncate name 30, oneLine_category f.category, oneLine_nat _, by simp⟩
  | strategies list =>
    refine List.forall_mem_map.2 fun e mem => ?_
    have texts := fun s there => h s (List.mem_flatMap.2 ⟨e, mem, there⟩)
    simp only [List.forall_mem_cons, List.forall_mem_append, Option.mem_toList] at texts
    obtain ⟨id, name, ⟨timeframe, markets⟩, category⟩ := texts
    have joined : OneLine (",".intercalate e.supportedMarkets) := OneLine.intercalate (by decide) markets
    simp only [List.forall_mem_cons]
    exact ⟨oneLine_truncate id 28, oneLine_truncate name 30, oneLine_displayTimeframe timeframe,
      oneLine_truncate joined 20, oneLine_getD category, by simp⟩

theorem oneLine_footer (l : Listing) : ∀ line ∈ l.footer, OneLine line := by
  have counted (n : Nat) {things : String} (h : OneLine things) : OneLine (total n things) :=
    OneLine.append_iff.2 ⟨OneLine.append_iff.2 ⟨OneLine.append_iff.2 ⟨by decide, oneLine_nat n⟩, by decide⟩, h⟩
  have empty : OneLine "" := by decide
  cases l with
  | fields list => exact List.forall_mem_singleton.2 empty
  | fragments list =>
    exact List.forall_mem_cons.2 ⟨empty, List.forall_mem_singleton.2 (counted _ (by decide))⟩
  | strategies list =>
    exact List.forall_mem_cons.2 ⟨empty, List.forall_mem_singleton.2 (counted _ (by decide))⟩

theorem lines_of_text {l : Listing} (h : ∀ s ∈ l.texts, OneLine s) :
    l.text.toList.splitOn '\n' = (l.table.lines ++ l.footer).map String.toList := by
  have some : l.footer ≠ [] := by cases l <;> simp [footer]
  have all : ∀ line ∈ l.table.lines ++ l.footer, OneLine line := List.forall_mem_append.2
    ⟨Table.lines_oneLine (fun c column => (l.headings c column).2) (oneLine_cells h), l.oneLine_footer⟩
  rw [text_eq, Table.render_footer _ some]
  exact lines_of_intercalate (List.append_ne_nil_of_right_ne_nil _ some) all

end Listing

/-- A printed table, line by line: what stands where in a row, and when all is in line. -/
theorem listing_laid_out (l : Listing) (h : ∀ s ∈ l.texts, OneLine s) :
    l.text.toList.splitOn '\n' = (l.table.lines ++ l.footer).map String.toList ∧
    (∀ cells ∈ l.table.rows, cells.length = l.table.columns.length ∧
      ∀ k c s, l.table.columns[k]? = some c → cells[k]? = some s →
        StandsAt (l.table.line l.table.headings) (l.table.start l.table.headings k) (padded c.width c.heading) ∧
        StandsAt (l.table.line cells) (l.table.start l.table.headings k + l.table.overhang cells k)
          (padded c.width s) ∧
        (c.heading ∉ l.uncut → s.length ≤ c.width)) ∧
    (l.table.Aligned ↔ l.Fits) := by
  refine ⟨Listing.lines_of_text h, fun cells row => ⟨l.formed.complete cells row, fun k c s column there => ?_⟩,
    l.aligned_iff_fits⟩
  have heading : l.table.headings[k]? = some c.heading := by
    rw [Table.headings, List.getElem?_map, column, Option.map_some]
  have above : (l.table.columns.zip l.table.headings)[k]? = some (c, c.heading) :=
    List.getElem?_zip_eq_some.2 ⟨column, heading⟩
  have below : (l.table.columns.zip cells)[k]? = some (c, s) := List.getElem?_zip_eq_some.2 ⟨column, there⟩
  have first := Table.standsAt_line above
  have cell := Table.standsAt_line below
  rw [Table.start_eq l.formed row] at cell
  exact ⟨first, cell, l.cell_fits cells row (c, s) (List.mem_of_getElem? below)⟩

theorem listing_laid_out_of_strategy :
    let l : Listing := .strategies [{
      id := "rsi_mean_reversion", name := "RSI 평균회귀", defaultTimeframe := some "15m", isMultiTimeframe := true,
      category := some "Realtime", supportedMarkets := ["KR", "US"] }]
    (∀ s ∈ l.texts, OneLine s) ∧ l.table.Aligned := by
  intro l
  have texts : ∀ s ∈ l.texts, OneLine s := by decide
  refine ⟨texts, (listing_laid_out l texts).2.2.2 ?_⟩
  decide

/-- The bounds of a field take what room they need, and what is behind them in the row is moved on. -/
theorem wide_range_out_of_line :
    let qty : Field := {
      name := "qty", kind := .number, required := true
      min := Binary64.ofScientific? false 1 (-8), max := Binary64.ofScientific? false 1 9 }
    let l : Listing := .fields [qty]
    (∀ s ∈ l.texts, OneLine s) ∧
    displayRange qty = "0.00000001..1000000000" ∧
    (∃ cells ∈ l.table.rows, l.table.start cells 5 = l.table.start l.table.headings 5 + 6) ∧
    ¬ l.table.Aligned := by
  intro qty l
  have range : displayRange qty = "0.00000001..1000000000" := by decide +kernel
  have moved : ∃ cells ∈ l.table.rows, l.table.start cells 5 = l.table.start l.table.headings 5 + 6 := by
    decide +kernel
  refine ⟨by decide +kernel, range, moved, fun aligned => ?_⟩
  obtain ⟨cells, row, start⟩ := moved
  have same := aligned.starts cells row 5 (Nat.lt_succ_self 5)
  omega

end StrategyForm.Command
