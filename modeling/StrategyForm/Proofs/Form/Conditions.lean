import StrategyForm.Form.Condition
import StrategyForm.Proofs.Json.Restored

/-!
# Conditions read back

A condition that is written as a name, an operator and the text of a value (`StandsFor`) is read as what it
says (`conditions_read_back`), but for one thing: the operator is looked for in the whole text, and `==`
before `!=`. So an inequality whose literal has `==` in it is read as an equality, of a field whose name
goes up to that place.

What a text is split into is told by where the pair of characters stands (`splitAt?_eq_none_iff`,
`splitAt?_of_first`), and the sides are what is left of them without the blanks at both ends
(`trimChars_append`).
-/

namespace StrategyForm

namespace Text

/-- The text neither begins nor ends with a blank. -/
def Trimmed (cs : List Char) : Prop :=
  (∀ c ∈ cs.head?, isBlank c = false) ∧ ∀ c ∈ cs.getLast?, isBlank c = false

theorem dropWhile_blank {bs cs : List Char} (blank : ∀ c ∈ bs, isBlank c = true)
    (first : ∀ c ∈ cs.head?, isBlank c = false) : (bs ++ cs).dropWhile isBlank = cs := by
  rw [List.dropWhile_append_of_pos blank]
  cases cs with
  | nil => rfl
  | cons c cs => rw [List.dropWhile_cons, if_neg (by simp [first c rfl])]

theorem trimChars_append {before cs after : List Char} (blank : ∀ c ∈ before, isBlank c = true)
    (blank' : ∀ c ∈ after, isBlank c = true) (trimmed : Trimmed cs) (nonempty : cs ≠ []) :
    trimChars (before ++ cs ++ after) = cs := by
  have front : (before ++ (cs ++ after)).dropWhile isBlank = cs ++ after := by
    obtain ⟨d, more, rfl⟩ := List.exists_cons_of_ne_nil nonempty
    exact dropWhile_blank blank fun c first => trimmed.1 c first
  have back : (after.reverse ++ cs.reverse).dropWhile isBlank = cs.reverse := by
    refine dropWhile_blank (fun c mem => blank' c (List.mem_reverse.1 mem)) fun c last => trimmed.2 c ?_
    rwa [List.head?_reverse] at last
  rw [trimChars, List.append_assoc, front, List.reverse_append, back, List.reverse_reverse]

theorem trimChars_ne_nil {cs : List Char} {c : Char} (mem : c ∈ cs) (solid : isBlank c = false) :
    trimChars cs ≠ [] := by
  have left {ds : List Char} (mem : c ∈ ds) : c ∈ ds.dropWhile isBlank := by
    rw [← List.takeWhile_append_dropWhile (p := isBlank) (l := ds)] at mem
    refine (List.mem_append.1 mem).resolve_left fun taken => ?_
    rw [List.all_eq_true.1 List.all_takeWhile c taken] at solid
    cases solid
  exact List.ne_nil_of_mem (List.mem_reverse.2 (left (List.mem_reverse.2 (left mem))))

end Text

/-! ### Values that are kept -/

namespace Json
open Text (isBlank)

/-- A value as it is kept: within so many brackets, the members of each object sorted, each key once. -/
inductive Fits : Json → Nat → Prop where
  | null {levels : Nat} : Fits .null levels
  | bool {levels : Nat} (b : Bool) : Fits (.bool b) levels
  | number {levels : Nat} (n : Number) : Fits (.number n) levels
  | string {levels : Nat} (s : String) : Fits (.string s) levels
  | array {levels : Nat} {items : List Json} (all : ∀ j ∈ items, Fits j levels) :
    Fits (.array items) (levels + 1)
  | object {levels : Nat} {m : Keyed Json} (all : ∀ e ∈ m.entries, Fits e.2 levels) :
    Fits (.ofKeyed m) (levels + 1)

variable {j : Json} {levels : Nat}

theorem Fits.json_doc (fits : j.Fits levels) (reads : AllReadBack j.floats) :
    Decoder.json levels j.doc = .ok j := by
  induction fits with
  | null | bool | string => rfl
  | number n =>
    obtain ⟨l, read, value⟩ := exists_literal reads
    rw [doc, read, Decoder.json, value]
  | array all ih =>
    have items := Decoder.jsonItems_docs fun j mem => ih j mem (AllReadBack.of_mem_items reads mem)
    rw [doc, Decoder.json, items]
    rfl
  | @object levels m all ih =>
    have members := Decoder.jsonMembers_docs fun e mem => ih e mem (AllReadBack.of_mem_members reads mem)
    rw [ofKeyed, doc, Decoder.json, members]
    simp only [Decoder.objectEnd, bind, Except.bind, pure, Except.pure, Keyed.ofList_entries]

theorem Fits.decode_written {text : String} (fits : j.Fits Decoder.levels) (reads : AllReadBack j.floats)
    (written : text = j.compress ∨ text = j.pretty) : Decoder.decode Decoder.json text = .ok j := by
  obtain ⟨compressed, pretty⟩ := read_written j reads
  have read : Doc.read text = ⟨j.doc, false⟩ := by
    rcases written with rfl | rfl
    · exact compressed
    · exact pretty
  simp [Decoder.decode, read, fits.json_doc reads]

/-! ### Ends of texts -/

/-- A character that is neither trimmed nor part of an operator's end. -/
def Solid (c : Char) : Prop := isBlank c = false ∧ c ≠ '='

instance (c : Char) : Decidable (Solid c) := inferInstanceAs (Decidable (_ ∧ _))

theorem solid_of_inNumber {c : Char} (h : Reader.inNumber c = true) : Solid c := by
  simp only [Reader.inNumber, Bool.or_eq_true, decide_eq_true_eq] at h
  rcases h with ((((digit | rfl) | rfl) | rfl) | rfl) | rfl
  · have low : 48 ≤ c.toNat := UInt32.le_iff_toNat_le.1 (of_decide_eq_true ((Bool.and_eq_true_iff.1 digit).1))
    have high : c.toNat ≤ 57 := UInt32.le_iff_toNat_le.1 (of_decide_eq_true ((Bool.and_eq_true_iff.1 digit).2))
    refine ⟨?_, ?_⟩
    · simp [isBlank]
      omega
    · rintro rfl
      exact absurd high (by decide)
  all_goals decide

/-- Both ends of the text are solid. -/
structure SolidEnds (cs : List Char) : Prop where
  first : ∃ c after, cs = c :: after ∧ Solid c
  last : ∃ before c, cs = before ++ [c] ∧ Solid c

theorem SolidEnds.between {c d : Char} (first : Solid c) (last : Solid d) (middle : List Char) :
    SolidEnds (c :: (middle ++ [d])) :=
  ⟨⟨c, middle ++ [d], rfl, first⟩, c :: middle, d, rfl, last⟩

theorem SolidEnds.of_all {cs : List Char} (nonempty : cs ≠ []) (all : ∀ c ∈ cs, Solid c) : SolidEnds cs := by
  refine ⟨?_, ?_⟩
  · obtain ⟨c, after, rfl⟩ := List.exists_cons_of_ne_nil nonempty
    exact ⟨c, after, rfl, all c List.mem_cons_self⟩
  · exact ⟨_, _, (List.dropLast_concat_getLast nonempty).symm, all _ (List.getLast_mem nonempty)⟩

section
variable (blanks : Blanks)

theorem spellItems_concat (level : Nat) (items : List Json) :
    ∃ before, spellItems blanks level items = before ++ [']'] := by
  induction items with
  | nil => exact ⟨_, rfl⟩
  | cons item rest ih =>
    obtain ⟨before, e⟩ := ih
    refine ⟨',' :: (blanks.gap (level + 1) ++ (spell blanks (level + 1) item ++ before)), ?_⟩
    rw [spellItems, e]
    simp only [List.cons_append, List.append_assoc]

theorem spellMembers_concat (level : Nat) (members : List (String × Json)) :
    ∃ before, spellMembers blanks level members = before ++ ['\x7d'] := by
  induction members with
  | nil => exact ⟨_, rfl⟩
  | cons member rest ih =>
    obtain ⟨key, value⟩ := member
    obtain ⟨before, e⟩ := ih
    refine ⟨',' :: (blanks.gap (level + 1) ++ (quoted key ++ ':' :: (blanks.value ++
      (spell blanks (level + 1) value ++ before)))), ?_⟩
    rw [spellMembers, e]
    simp only [List.cons_append, List.append_assoc]

theorem spell_solidEnds (level : Nat) (j : Json) (reads : AllReadBack j.floats) :
    SolidEnds (spell blanks level j) := by
  cases j with
  | null => exact .between (by decide) (by decide) ['u', 'l']
  | bool b =>
    cases b with
    | true => exact .between (by decide) (by decide) ['r', 'u']
    | false => exact .between (by decide) (by decide) ['a', 'l', 's']
  | string s => exact .between (by decide) (by decide) (s.toList.flatMap escapeChar)
  | number n =>
    obtain ⟨l, read, -⟩ := exists_literal reads
    refine .of_all ?_ fun c mem => ?_
    · obtain ⟨c, after, e, -⟩ := Reader.exists_of_number read
      rw [spell, e]
      exact List.cons_ne_nil c after
    · rcases Reader.number_numerals read c mem with h | h
      · exact solid_of_inNumber h
      · cases h
  | array items =>
    cases items with
    | nil => exact .between (by decide) (by decide) []
    | cons item rest =>
      obtain ⟨before, e⟩ := spellItems_concat blanks level rest
      have text : spell blanks level (.array (item :: rest)) =
          '[' :: ((blanks.gap (level + 1) ++ (spell blanks (level + 1) item ++ before)) ++ [']']) := by
        rw [spell, e]
        simp only [List.append_assoc]
      rw [text]
      exact .between (by decide) (by decide) _
  | object members =>
    cases members with
    | nil => exact .between (by decide) (by decide) []
    | cons member rest =>
      obtain ⟨key, value⟩ := member
      obtain ⟨before, e⟩ := spellMembers_concat blanks level rest
      have text : spell blanks level (.object ((key, value) :: rest)) =
          '\x7b' :: ((blanks.gap (level + 1) ++ (quoted key ++ ':' ::
            (blanks.value ++ (spell blanks (level + 1) value ++ before)))) ++ ['\x7d']) := by
        rw [spell, e]
        simp only [List.cons_append, List.append_assoc]
      rw [text]
      exact .between (by decide) (by decide) _

end

end Json

namespace Condition
open Text (isBlank trimChars Trimmed)

/-! ### Splitting -/

section
variable {a : Char} {cs before after : List Char}

theorem splitAt?_pair (a : Char) (after : List Char) : splitAt? a (a :: '=' :: after) = some ([], after) := by
  rw [splitAt?, if_pos ⟨rfl, rfl⟩]

/-- A character that does not begin the pair is passed. -/
theorem splitAt?_cons {c : Char} (other : ¬ (c = a ∧ cs.head? = some '=')) :
    splitAt? a (c :: cs) = (splitAt? a cs).map fun x => (c :: x.1, x.2) := by
  cases cs with
  | nil => rfl
  | cons d rest => rw [splitAt?, if_neg (by simpa using other)]

theorem splitAt?_append (absent : a ∉ before) :
    splitAt? a (before ++ cs) = (splitAt? a cs).map fun x => (before ++ x.1, x.2) := by
  induction before with
  | nil => simp
  | cons c before ih =>
    obtain ⟨first, others⟩ := not_or.1 (mt List.mem_cons.2 absent)
    rw [List.cons_append, splitAt?_cons fun h => first h.1.symm, ih others, Option.map_map]
    rfl

theorem head_eq_of_pair {c : Char} (h : [a, '='] <+: c :: cs) : c = a ∧ cs.head? = some '=' := by
  obtain ⟨after, e⟩ := h
  cases e
  exact ⟨rfl, rfl⟩

theorem splitAt?_eq_none_iff : splitAt? a cs = none ↔ ¬ [a, '='] <:+: cs := by
  induction cs with
  | nil => simp [splitAt?]
  | cons c cs ih =>
    rw [List.infix_cons_iff]
    by_cases here : c = a ∧ cs.head? = some '='
    · obtain ⟨rfl, e⟩ := here
      obtain ⟨after, rfl⟩ : ∃ after, cs = '=' :: after := by
        cases cs with
        | nil => cases e
        | cons d after => exact ⟨after, by rw [Option.some.inj e]⟩
      rw [splitAt?_pair]
      exact iff_of_false (by simp) fun h => h (.inl ⟨after, rfl⟩)
    · rw [splitAt?_cons here, Option.map_eq_none_iff, ih, not_or]
      exact (and_iff_right fun h => here (head_eq_of_pair h)).symm

theorem splitAt?_of_first (first : ¬ [a, '='] <:+: before ++ [a]) :
    splitAt? a (before ++ a :: '=' :: after) = some (before, after) := by
  induction before with
  | nil => exact splitAt?_pair a after
  | cons c before ih =>
    rw [List.cons_append, List.infix_cons_iff, not_or] at first
    have other : ¬ (c = a ∧ (before ++ a :: '=' :: after).head? = some '=') := by
      rintro ⟨rfl, e⟩
      -- the pair would begin at `c`, before the place that is the first
      refine first.1 ?_
      cases before with
      | nil => exact ⟨[], by simpa using e.symm⟩
      | cons d before => exact ⟨before ++ [c], by simpa using e.symm⟩
    rw [List.cons_append, splitAt?_cons other, ih first.2]
    rfl

end

/-! ### Literals -/

/-- The text stands for the value: it is written for it as JSON, or it is a text in single quotes that has
none in it. -/
inductive StandsFor : String → Json → Prop where
  | json {j : Json} {text : String} (fits : j.Fits Json.Decoder.levels) (reads : Json.AllReadBack j.floats)
    (written : text = j.compress ∨ text = j.pretty) : StandsFor text j
  | quoted {s : String} (plain : '\'' ∉ s.toList) : StandsFor ("'" ++ s ++ "'") (.string s)

theorem dropWhile_of_not_mem {q : Char} {cs : List Char} (absent : q ∉ cs) : cs.dropWhile (· = q) = cs := by
  cases cs with
  | nil => rfl
  | cons c cs => rw [List.dropWhile_cons, if_neg (by simpa using fun e => absent (by simp [e]))]

theorem unquote_quoted {cs : List Char} (plain : '\'' ∉ cs) : unquote ('\'' :: (cs ++ ['\''])) = cs := by
  cases cs with
  | nil => rfl
  | cons c cs =>
    have first : ('\'' :: (c :: cs ++ ['\''])).dropWhile (· = '\'') = c :: cs ++ ['\''] := by
      have other : c ≠ '\'' := fun e => plain (by simp [e])
      simp [other]
    have last : ('\'' :: (c :: cs).reverse).dropWhile (· = '\'') = (c :: cs).reverse := by
      rw [List.dropWhile_cons, if_pos (by decide), dropWhile_of_not_mem fun mem => plain (List.mem_reverse.1 mem)]
    rw [unquote, first, List.reverse_append, List.reverse_singleton, List.singleton_append, last, List.reverse_reverse]

/-- Nothing in single quotes is JSON. -/
theorem decode_single_quoted (s : String) :
    Json.Decoder.decode Json.Decoder.json ("'" ++ s ++ "'") = .error .malformed := by
  have read (fuel : Nat) (cs : List Char) :
      Json.Reader.value (fuel + 1) ('\'' :: cs) = (Json.Doc.broken .malformed, none) := by
    simp only [Json.Reader.value, Json.skipSpace_cons (c := '\'') (by decide)]
    rfl
  have text : ("'" ++ s ++ "'").toList = '\'' :: (s.toList ++ ['\'']) := by simp
  rw [Json.Decoder.decode, Json.Doc.read, text, read]
  rfl

variable {name text : String} {expected : Json}

theorem StandsFor.literal_eq (l : StandsFor text expected) : literal text.toList = expected := by
  cases l with
  | json fits reads written =>
    rw [literal, String.ofList_toList, fits.decode_written reads written]
  | @quoted s plain =>
    have spelled : ("'" ++ s ++ "'").toList = '\'' :: (s.toList ++ ['\'']) := by simp
    rw [literal, String.ofList_toList, decode_single_quoted, spelled, unquote_quoted plain, String.ofList_toList]

theorem StandsFor.solidEnds (l : StandsFor text expected) : Json.SolidEnds text.toList := by
  cases l with
  | json fits reads written =>
    rcases written with rfl | rfl
    · rw [Json.compress_toList 0]
      exact Json.spell_solidEnds .none 0 expected reads
    · rw [Json.pretty, Json.prettyAt_toList]
      exact Json.spell_solidEnds .lines 0 expected reads
  | @quoted s plain =>
    have spelled : ("'" ++ s ++ "'").toList = '\'' :: (s.toList ++ ['\'']) := by simp
    rw [spelled]
    exact .between (by decide) (by decide) s.toList

/-! ### What a condition says -/

/-- A name that a field can have in a condition. -/
structure IsFieldName (name : String) : Prop where
  nonempty : name.toList ≠ []
  trimmed : Trimmed name.toList
  noEqual : '=' ∉ name.toList
  noMark : '!' ∉ name.toList

theorem StandsFor.trimmed (l : StandsFor text expected) : Trimmed text.toList ∧ text.toList ≠ [] := by
  obtain ⟨⟨c, after, first, solid⟩, before, d, last, solid'⟩ := l.solidEnds
  refine ⟨⟨?_, ?_⟩, by simp [first]⟩
  · intro x mem
    rw [first, List.head?_cons, Option.mem_some_iff] at mem
    exact mem ▸ solid.1
  · intro x mem
    rw [last, List.getLast?_concat, Option.mem_some_iff] at mem
    exact mem ▸ solid'.1

theorem parse?_of_equal {s : String} {left right : List Char} (split : splitAt? '=' s.toList = some (left, right))
    (field : trimChars left ≠ []) (value : trimChars right ≠ []) :
    parse? s = some ⟨String.ofList (trimChars left), .equal, literal (trimChars right)⟩ := by
  simp [parse?, split, field, value]

theorem parse?_of_unequal {s : String} {left right : List Char} (none : splitAt? '=' s.toList = none)
    (split : splitAt? '!' s.toList = some (left, right)) (field : trimChars left ≠ [])
    (value : trimChars right ≠ []) :
    parse? s = some ⟨String.ofList (trimChars left), .unequal, literal (trimChars right)⟩ := by
  simp [parse?, none, split, field, value]

theorem trimChars_sides (n : IsFieldName name) (l : StandsFor text expected) :
    trimChars (name.toList ++ [' ']) = name.toList ∧ trimChars (' ' :: text.toList) = text.toList := by
  obtain ⟨trimmed, nonempty⟩ := l.trimmed
  have blank : ∀ c ∈ [' '], isBlank c = true := by simp [isBlank]
  have noBlank : ∀ c ∈ [], isBlank c = true := by simp
  have left := Text.trimChars_append noBlank blank n.trimmed n.nonempty
  have right := Text.trimChars_append blank noBlank trimmed nonempty
  rw [List.append_nil] at right
  exact ⟨left, right⟩

theorem parse?_equal (n : IsFieldName name) (l : StandsFor text expected) :
    parse? (name ++ " == " ++ text) = some ⟨name, .equal, expected⟩ := by
  have spelled : (name ++ " == " ++ text).toList = (name.toList ++ [' ']) ++ '=' :: '=' :: ' ' :: text.toList := by simp
  have absent : '=' ∉ name.toList ++ [' '] := by simp [n.noEqual]
  have sides : splitAt? '=' (name ++ " == " ++ text).toList = some (name.toList ++ [' '], ' ' :: text.toList) := by
    rw [spelled, splitAt?_append absent, splitAt?_pair]
    simp
  obtain ⟨left, right⟩ := trimChars_sides n l
  rw [parse?_of_equal sides (by rw [left]; exact n.nonempty) (by rw [right]; exact l.trimmed.2), left, right,
    l.literal_eq, String.ofList_toList]

/-- Whether there is `==` in an inequality is a matter of its literal. -/
theorem splitAt?_unequal (n : IsFieldName name) (text : String) : splitAt? '=' (name ++ " != " ++ text).toList =
    (splitAt? '=' text.toList).map fun x => (name.toList ++ [' ', '!', '=', ' '] ++ x.1, x.2) := by
  have spelled : (name ++ " != " ++ text).toList = (name.toList ++ [' ', '!']) ++ '=' :: ' ' :: text.toList := by simp
  have absent : '=' ∉ name.toList ++ [' ', '!'] := by simp [n.noEqual]
  rw [spelled, splitAt?_append absent, splitAt?_cons (by simp), splitAt?_cons (by simp), Option.map_map,
    Option.map_map]
  congr 1
  funext x
  simp

theorem parse?_unequal (n : IsFieldName name) (l : StandsFor text expected) (none : ¬ ['=', '='] <:+: text.toList) :
    parse? (name ++ " != " ++ text) = some ⟨name, .unequal, expected⟩ := by
  have spelled : (name ++ " != " ++ text).toList = (name.toList ++ [' ']) ++ '!' :: '=' :: ' ' :: text.toList := by simp
  have absent : '!' ∉ name.toList ++ [' '] := by simp [n.noMark]
  have noEqual : splitAt? '=' (name ++ " != " ++ text).toList = Option.none := by
    rw [splitAt?_unequal n, splitAt?_eq_none_iff.2 none, Option.map_none]
  have sides : splitAt? '!' (name ++ " != " ++ text).toList = some (name.toList ++ [' '], ' ' :: text.toList) := by
    rw [spelled, splitAt?_append absent, splitAt?_pair]
    simp
  obtain ⟨left, right⟩ := trimChars_sides n l
  rw [parse?_of_unequal noEqual sides (by rw [left]; exact n.nonempty) (by rw [right]; exact l.trimmed.2), left,
    right, l.literal_eq, String.ofList_toList]

/-- An inequality whose literal has `==` in it is taken for an equality. -/
theorem parse?_mistaken (n : IsFieldName name) (l : StandsFor text expected) {before after : List Char}
    (split : text.toList = before ++ '=' :: '=' :: after) (first : ¬ ['=', '='] <:+: before ++ ['=']) :
    parse? (name ++ " != " ++ text) =
      some ⟨Text.trim (name ++ " != " ++ String.ofList before), .equal, literal (trimChars after)⟩ := by
  have sides : splitAt? '=' (name ++ " != " ++ text).toList =
      some ((name ++ " != " ++ String.ofList before).toList, after) := by
    rw [splitAt?_unequal n, split, splitAt?_of_first first]
    simp
  rw [parse?_of_equal sides, Text.trim]
  · obtain ⟨c, more, e⟩ := List.exists_cons_of_ne_nil n.nonempty
    exact Text.trimChars_ne_nil (by simp [e]) (n.trimmed.1 c (by simp [e]))
  · obtain ⟨before', c, last, solid, other⟩ := l.solidEnds.last
    refine Text.trimChars_ne_nil (c := c) ?_ solid
    -- the last character is not part of the operator, so it stands behind it
    have ends : (before ++ '=' :: '=' :: after).getLast? = some c := by rw [← split, last, List.getLast?_concat]
    rcases List.eq_nil_or_concat after with rfl | ⟨middle, d, rfl⟩
    · exact absurd (by simpa using ends.symm) other
    · simp only [List.concat_eq_append, ← List.cons_append, ← List.append_assoc, List.getLast?_concat,
        Option.some.injEq] at ends
      simp [ends]

end Condition

theorem Field.isVisible_of_parse? {f : Field} {s : String} {c : Condition} (h : Condition.parse? s = some c)
    (values : FormValues) : { f with condition := some s }.isVisible values = c.holds values := by
  simp [Field.isVisible, h]

open Condition in
/-- A field with an equality is shown if the value of the named field, `null` if it was not entered, is equal
to what the literal stands for. One with an inequality is shown if it is not, unless the literal has `==` in
it: then the condition is the equality of a field whose name goes up to the first `==`, with what is left. -/
theorem conditions_read_back {name text : String} {expected : Json} (n : IsFieldName name)
    (l : StandsFor text expected) (f : Field) (values : FormValues) :
    { f with condition := some (name ++ " == " ++ text) }.isVisible values =
        sameValue ((values.get? name).getD .null) expected ∧
      (¬ ['=', '='] <:+: text.toList →
        { f with condition := some (name ++ " != " ++ text) }.isVisible values =
          !sameValue ((values.get? name).getD .null) expected) ∧
      (∀ before after, text.toList = before ++ '=' :: '=' :: after → ¬ ['=', '='] <:+: before ++ ['='] →
        { f with condition := some (name ++ " != " ++ text) }.isVisible values =
          sameValue ((values.get? (Text.trim (name ++ " != " ++ String.ofList before))).getD .null)
            (literal (Text.trimChars after))) := by
  refine ⟨?_, ?_, ?_⟩
  · rw [Field.isVisible_of_parse? (parse?_equal n l)]
    rfl
  · intro none
    rw [Field.isVisible_of_parse? (parse?_unequal n l none)]
    rfl
  · intro before after split first
    rw [Field.isVisible_of_parse? (parse?_mistaken n l split first)]
    rfl

open Condition Text in
/-- A list that was entered is not shown under the inequality with the list. -/
theorem conditions_read_back_of_list :
    ({ condition := some ("levels" ++ " != " ++ "[2,\"a=b\"]") } : Field).isVisible
      (Keyed.empty.insert "levels" (.array [.ofInt 2, .string "a=b"])) = false := by
  have name : IsFieldName "levels" :=
    ⟨by simp, by simp [Trimmed, isBlank], by simp, by simp⟩
  have fits : (Json.array [.ofInt 2, .string "a=b"]).Fits Json.Decoder.levels := by
    refine .array fun j mem => ?_
    simp only [List.mem_cons, List.not_mem_nil, or_false] at mem
    rcases mem with rfl | rfl
    · exact .number _
    · exact .string _
  have stands : StandsFor "[2,\"a=b\"]" (.array [.ofInt 2, .string "a=b"]) :=
    .json fits (by decide +kernel) (.inl (by decide +kernel))
  have noPair : ¬ ['=', '='] <:+: "[2,\"a=b\"]".toList := by decide +kernel
  obtain ⟨-, unequal, -⟩ := conditions_read_back name stands {}
    (Keyed.empty.insert "levels" (.array [.ofInt 2, .string "a=b"]))
  rw [unequal noPair]
  decide +kernel

open Condition Text in
/-- The inequality with `a==b` hides a field that it is to show. -/
theorem unequal_read_as_equal :
    IsFieldName "mode" ∧ StandsFor "\"a==b\"" (.string "a==b") ∧
      sameValue (((Keyed.empty.insert "mode" (.string "grid")).get? "mode").getD .null) (.string "a==b") = false ∧
      ({ condition := some ("mode" ++ " != " ++ "\"a==b\"") } : Field).isVisible
        (Keyed.empty.insert "mode" (.string "grid")) = false := by
  refine ⟨⟨by simp, by simp [Trimmed, isBlank], by simp, by simp⟩, ?_, by decide +kernel, by decide +kernel⟩
  exact .json (.string _) (by decide +kernel) (.inl (by decide +kernel))

end StrategyForm
