import StrategyForm.Form.Violation

/-!
# Violations, sound and complete

Main statement (`violations_exact`): the violations of a form are one for every visible field whose
entered value fails, in the order of sections and fields, and no others; and there are none exactly
when every visible field is met.

What it is to fail and to be met is said without the checks: `Field.Fails` has one rule for each way
to fail, with the violation it leads to, and `Field.Meets` asks for a value of the field's type
(`HasKind`), within the bounds and among the choices. The rules exclude each other, since what was
entered fails in the way that its check finds (`check_eq_some_iff`). `Reports` reads a list of fields
beside a list of violations, front to back.
-/

namespace StrategyForm
open Decimal

/-! ### Constraints -/

/-- Nothing was entered, or `null`. -/
def IsMissing (entered : Option Json) : Prop := entered = none ∨ entered = some .null

/-- A value of the type that a kind of field wants. An integer is any number whose float is a multiple
of one. -/
inductive HasKind : FieldKind → Json → Prop where
  | integer {n : Json.Number} (whole : (Binary64.one : Int) ∣ n.toBinary64.units) :
    HasKind .integer (.number n)
  | number (n : Json.Number) : HasKind .number (.number n)
  | boolean (b : Bool) : HasKind .boolean (.bool b)
  | string (s : String) : HasKind .string (.string s)
  | symbol (s : String) : HasKind .symbol (.string s)
  | symbols (texts : List String) : HasKind .symbols (.array (texts.map .string))
  | select (s : String) : HasKind .select (.string s)
  | multiSelect (texts : List String) : HasKind .multiSelect (.array (texts.map .string))

/-- A text that is chosen in a field of a kind by a value. -/
inductive Chosen : FieldKind → Json → String → Prop where
  | select (s : String) : Chosen .select (.string s) s
  | multiSelect {items : List Json} {s : String} (mem : .string s ∈ items) :
    Chosen .multiSelect (.array items) s

namespace Field

/-- A text that may be chosen: any text does when there are no options. -/
def Offers (f : Field) (s : String) : Prop := f.options = [] ∨ s ∈ f.options

/-- A float that is not below the least value, if there is one. -/
def AtLeastMin (f : Field) (x : Binary64) : Prop := ∀ min, f.min = some min → min ≤ x

def AtMostMax (f : Field) (x : Binary64) : Prop := ∀ max, f.max = some max → x ≤ max

/-- How an item of a multiple selection fails. -/
inductive ItemFails (f : Field) : Json → ViolationKind → Prop where
  | noText {item : Json} (noText : ∀ s, item ≠ .string s) : ItemFails f item (.typeMismatch f.kind)
  | notOffered {s : String} (notOffered : ¬ f.Offers s) : ItemFails f (.string s) (.invalidOption s)

/-- How what was entered fails a field. Of the items of a multiple selection the first one that fails
counts, and of the two bounds the lower one. -/
inductive Fails (f : Field) : Option Json → ViolationKind → Prop where
  | missing {entered : Option Json} (required : f.required = true) (missing : IsMissing entered) :
    Fails f entered .missing
  | wrongType {value : Json} (present : value ≠ .null) (single : f.kind ≠ .multiSelect)
    (wrong : ¬ HasKind f.kind value) : Fails f (some value) (.typeMismatch f.kind)
  | noList {value : Json} (present : value ≠ .null) (multi : f.kind = .multiSelect)
    (noList : ∀ items, value ≠ .array items) : Fails f (some value) (.typeMismatch f.kind)
  | belowMin {n : Json.Number} {min : Binary64} (type : HasKind f.kind (.number n))
    (bound : f.min = some min) (below : n.toBinary64 < min) :
    Fails f (some (.number n)) (.belowMin min n.toBinary64)
  | aboveMax {n : Json.Number} {max : Binary64} (type : HasKind f.kind (.number n))
    (least : f.AtLeastMin n.toBinary64) (bound : f.max = some max) (above : max < n.toBinary64) :
    Fails f (some (.number n)) (.aboveMax max n.toBinary64)
  | notOffered {s : String} (select : f.kind = .select) (notOffered : ¬ f.Offers s) :
    Fails f (some (.string s)) (.invalidOption s)
  | item {texts : List String} {item : Json} {rest : List Json} {kind : ViolationKind}
    (multi : f.kind = .multiSelect) (before : ∀ s ∈ texts, f.Offers s)
    (fails : f.ItemFails item kind) :
    Fails f (some (.array (texts.map .string ++ item :: rest))) kind

/-- What was entered meets the constraints of a field. -/
inductive Meets (f : Field) : Option Json → Prop where
  | missing {entered : Option Json} (optional : f.required = false) (missing : IsMissing entered) :
    Meets f entered
  | value {value : Json} (type : HasKind f.kind value)
    (range : ∀ n, value = .number n → f.AtLeastMin n.toBinary64 ∧ f.AtMostMax n.toBinary64)
    (choices : ∀ s, Chosen f.kind value s → f.Offers s) : Meets f (some value)

variable {f : Field} {value : Json} {kind : ViolationKind}

/-! ### Bounds and choices -/

theorem not_atLeastMin_iff (x : Binary64) : ¬ f.AtLeastMin x ↔ ∃ min, f.min = some min ∧ x < min := by
  simp [AtLeastMin, Binary64.le_iff, Binary64.lt_iff]

theorem not_atMostMax_iff (x : Binary64) : ¬ f.AtMostMax x ↔ ∃ max, f.max = some max ∧ max < x := by
  simp [AtMostMax, Binary64.le_iff, Binary64.lt_iff]

theorem checkRange_of_below {x min : Binary64} (bound : f.min = some min) (below : x < min) :
    f.checkRange x = some (.belowMin min x) := by
  have found : f.min.filter (x < ·) = some min := by
    rw [bound, Option.filter_some, if_pos (decide_eq_true below)]
  rw [checkRange, found]

theorem checkRange_of_atLeastMin {x : Binary64} (least : f.AtLeastMin x) :
    f.checkRange x = (f.max.filter (· < x)).map (.aboveMax · x) := by
  have nothing : f.min.filter (x < ·) = none := by
    rw [Option.filter_eq_none_iff]
    intro min bound
    have le := least min bound
    rw [Binary64.le_iff] at le
    simpa [Binary64.lt_iff] using le
  rw [checkRange, nothing]

theorem checkRange_of_above {x max : Binary64} (least : f.AtLeastMin x) (bound : f.max = some max)
    (above : max < x) : f.checkRange x = some (.aboveMax max x) := by
  have found : f.max.filter (· < x) = some max := by
    rw [bound, Option.filter_some, if_pos (decide_eq_true above)]
  rw [checkRange_of_atLeastMin least, found, Option.map_some]

theorem checkRange_of_inside {x : Binary64} (least : f.AtLeastMin x) (most : f.AtMostMax x) :
    f.checkRange x = none := by
  have nothing : f.max.filter (· < x) = none := by
    rw [Option.filter_eq_none_iff]
    intro max bound
    have le := most max bound
    rw [Binary64.le_iff] at le
    simpa [Binary64.lt_iff] using le
  rw [checkRange_of_atLeastMin least, nothing, Option.map_none]

theorem checkOption_of_offers {s : String} (h : f.Offers s) : f.checkOption s = none := by
  rcases h with h | h <;> simp [checkOption, h]

theorem checkOption_of_not_offers {s : String} (h : ¬ f.Offers s) :
    f.checkOption s = some (.invalidOption s) := by
  obtain ⟨some, absent⟩ := not_or.1 h
  simp [checkOption, some, absent]

theorem checkChoices_append {texts : List String} (before : ∀ s ∈ texts, f.Offers s)
    (rest : List Json) : f.checkChoices (texts.map .string ++ rest) = f.checkChoices rest := by
  induction texts with
  | nil => rfl
  | cons s texts ih =>
    have first := checkOption_of_offers (before s List.mem_cons_self)
    have others := ih fun s hs => before s (List.mem_cons_of_mem _ hs)
    rw [List.map_cons, List.cons_append, checkChoices, first, Option.none_or, others]

theorem checkChoices_of_itemFails {item : Json} (fails : f.ItemFails item kind) (rest : List Json) :
    f.checkChoices (item :: rest) = some kind := by
  cases fails with
  | notOffered h => rw [checkChoices, checkOption_of_not_offers h, Option.some_or]
  | noText h =>
    cases item with
    | string s => exact absurd rfl (h s)
    | _ => rfl

/-- Either all items are texts that may be chosen, or there is a first one that fails. -/
theorem choices_cases (f : Field) (items : List Json) :
    (∃ texts : List String, items = texts.map .string ∧ ∀ s ∈ texts, f.Offers s) ∨
    ∃ (texts : List String) (item : Json) (rest : List Json) (kind : ViolationKind),
      items = texts.map .string ++ item :: rest ∧ (∀ s ∈ texts, f.Offers s) ∧
        f.ItemFails item kind := by
  -- The first that fails is the first item, or else the first one of the rest.
  induction items with
  | nil => exact .inl ⟨[], rfl, by simp⟩
  | cons item items ih =>
    by_cases text : ∃ s, item = .string s
    · obtain ⟨s, rfl⟩ := text
      by_cases offered : f.Offers s
      · rcases ih with ⟨texts, rfl, all⟩ | ⟨texts, bad, rest, kind, rfl, before, fails⟩
        · exact .inl ⟨s :: texts, rfl, List.forall_mem_cons.2 ⟨offered, all⟩⟩
        · exact .inr ⟨s :: texts, bad, rest, kind, rfl, List.forall_mem_cons.2 ⟨offered, before⟩, fails⟩
      · exact .inr ⟨[], .string s, items, _, rfl, by simp, .notOffered offered⟩
    · exact .inr ⟨[], item, items, _, rfl, by simp, .noText (not_exists.1 text)⟩

/-! ### The check of a value -/

theorem isWhole_iff (x : Binary64) : x.isWhole = true ↔ (Binary64.one : Int) ∣ x.units := by
  have abs : x.units.natAbs = x.magnitude := by
    unfold Binary64.units
    split <;> simp
  rw [Int.ofNat_dvd_left, abs, Nat.dvd_iff_mod_eq_zero]
  simp [Binary64.isWhole]

theorem all_isString_iff (items : List Json) :
    items.all (·.asString?.isSome) = true ↔ ∃ texts : List String, items = texts.map .string := by
  induction items with
  | nil => exact ⟨fun _ => ⟨[], rfl⟩, fun _ => rfl⟩
  | cons item items ih =>
    rw [List.all_cons, Bool.and_eq_true, ih]
    constructor
    · rintro ⟨text, texts, rfl⟩
      cases item with
      | string s => exact ⟨s :: texts, rfl⟩
      | _ => cases text
    · rintro ⟨texts, e⟩
      cases texts with
      | nil => cases e
      | cons s texts =>
        obtain ⟨rfl, rfl⟩ := List.cons.inj e
        exact ⟨rfl, texts, rfl⟩

theorem checkValue_number {n : Json.Number} (type : HasKind f.kind (.number n)) :
    f.checkValue (.number n) = f.checkRange n.toBinary64 := by
  unfold checkValue
  generalize f.kind = k at type
  cases type with
  | integer whole => simp [(isWhole_iff _).2 whole]
  | number => rfl

theorem checkValue_of_not_hasKind (single : f.kind ≠ .multiSelect) (wrong : ¬ HasKind f.kind value) :
    f.checkValue value = some (.typeMismatch f.kind) := by
  unfold checkValue
  generalize f.kind = k at single wrong
  split
  · rename_i n
    rw [if_neg]
    exact fun whole => wrong (.integer ((isWhole_iff _).1 whole))
  · exact absurd (.number _) wrong
  · exact absurd (.boolean _) wrong
  · exact absurd (.string _) wrong
  · exact absurd (.symbol _) wrong
  · rename_i items
    rw [if_neg]
    intro all
    obtain ⟨texts, rfl⟩ := (all_isString_iff items).1 all
    exact wrong (.symbols texts)
  · exact absurd (.select _) wrong
  · exact absurd rfl single
  · rfl

theorem checkValue_select {s : String} (select : f.kind = .select) :
    f.checkValue (.string s) = f.checkOption s := by
  simp only [checkValue, select]

theorem checkValue_multiSelect {items : List Json} (multi : f.kind = .multiSelect) :
    f.checkValue (.array items) = f.checkChoices items := by
  simp only [checkValue, multi]

theorem checkValue_noList (multi : f.kind = .multiSelect) (noList : ∀ items, value ≠ .array items) :
    f.checkValue value = some (.typeMismatch f.kind) := by
  cases value with
  | array items => exact absurd rfl (noList items)
  | _ => simp only [checkValue, multi]

/-- The kinds of which nothing but the type is checked. -/
theorem checkValue_plain (type : HasKind f.kind value) (noNumber : ∀ n, value ≠ .number n)
    (noSelect : f.kind ≠ .select) (single : f.kind ≠ .multiSelect) : f.checkValue value = none := by
  unfold checkValue
  generalize f.kind = k at type noSelect single
  cases type with
  | integer | number => exact absurd rfl (noNumber _)
  | boolean | string | symbol => rfl
  | symbols texts => exact if_pos ((all_isString_iff _).2 ⟨texts, rfl⟩)
  | select => exact absurd rfl noSelect
  | multiSelect => exact absurd rfl single

theorem ne_null_of_hasKind (type : HasKind f.kind value) : value ≠ .null := by
  rintro rfl
  generalize f.kind = k at type
  cases type

theorem checkValue_of_fails (present : value ≠ .null) (fails : f.Fails (some value) kind) :
    f.checkValue value = some kind := by
  cases fails with
  | missing required missing =>
    rcases missing with missing | missing
    · cases missing
    · exact absurd (Option.some.inj missing) present
  | wrongType _ single wrong => exact checkValue_of_not_hasKind single wrong
  | noList _ multi noList => exact checkValue_noList multi noList
  | belowMin type bound below => rw [checkValue_number type, checkRange_of_below bound below]
  | aboveMax type least bound above =>
    rw [checkValue_number type, checkRange_of_above least bound above]
  | notOffered select notOffered =>
    rw [checkValue_select select, checkOption_of_not_offers notOffered]
  | item multi before fails =>
    rw [checkValue_multiSelect multi, checkChoices_append before, checkChoices_of_itemFails fails]

theorem checkValue_of_meets (type : HasKind f.kind value)
    (range : ∀ n, value = .number n → f.AtLeastMin n.toBinary64 ∧ f.AtMostMax n.toBinary64)
    (choices : ∀ s, Chosen f.kind value s → f.Offers s) : f.checkValue value = none := by
  by_cases number : ∃ n, value = .number n
  · obtain ⟨n, rfl⟩ := number
    obtain ⟨least, most⟩ := range n rfl
    rw [checkValue_number type, checkRange_of_inside least most]
  have noNumber := not_exists.1 number
  by_cases select : f.kind = .select
  · rw [select] at type choices
    cases type with
    | select s => rw [checkValue_select select, checkOption_of_offers (choices s (.select s))]
  by_cases multi : f.kind = .multiSelect
  · rw [multi] at type choices
    cases type with
    | multiSelect texts =>
      have all (s : String) (mem : s ∈ texts) : f.Offers s :=
        choices s (.multiSelect (List.mem_map_of_mem mem))
      have nothing := checkChoices_append all []
      rw [List.append_nil] at nothing
      rw [checkValue_multiSelect multi, nothing, checkChoices]
  exact checkValue_plain type noNumber select multi

/-! ### The check of a field -/

/-- Nothing is left open by the rules. -/
theorem fails_or_meets (f : Field) (entered : Option Json) :
    (∃ kind, f.Fails entered kind) ∨ f.Meets entered := by
  by_cases missing : IsMissing entered
  · cases required : f.required with
    | true => exact .inl ⟨_, .missing required missing⟩
    | false => exact .inr (.missing required missing)
  obtain ⟨absent, null⟩ := not_or.1 missing
  obtain ⟨value, rfl⟩ := Option.ne_none_iff_exists'.1 absent
  have present : value ≠ .null := fun e => null (congrArg some e)
  -- A multiple selection goes by its first item that fails, of whatever type the items are. Any other
  -- value is settled by its type, then by the bounds, then by the choices.
  by_cases multi : f.kind = .multiSelect
  · by_cases list : ∃ items, value = .array items
    · obtain ⟨items, rfl⟩ := list
      rcases choices_cases f items with ⟨texts, rfl, all⟩ | ⟨texts, item, rest, kind, rfl, before, fails⟩
      · refine .inr (.value (multi ▸ .multiSelect texts) (fun n e => by cases e) fun s chosen => ?_)
        rw [multi] at chosen
        cases chosen with
        | multiSelect mem => exact all s (by simpa using mem)
      · exact .inl ⟨kind, .item multi before fails⟩
    · exact .inl ⟨_, .noList present multi (not_exists.1 list)⟩
  by_cases type : HasKind f.kind value
  · by_cases range : ∀ n, value = .number n → f.AtLeastMin n.toBinary64 ∧ f.AtMostMax n.toBinary64
    · by_cases choices : ∀ s, Chosen f.kind value s → f.Offers s
      · exact .inr (.value type range choices)
      · obtain ⟨s, refused⟩ := Classical.not_forall.1 choices
        obtain ⟨chosen, notOffered⟩ := Classical.not_imp.1 refused
        generalize e : f.kind = k at chosen
        cases chosen with
        | select => exact .inl ⟨_, .notOffered e notOffered⟩
        | multiSelect => exact absurd e multi
    · obtain ⟨n, refused⟩ := Classical.not_forall.1 range
      obtain ⟨rfl, outside⟩ := Classical.not_imp.1 refused
      by_cases least : f.AtLeastMin n.toBinary64
      · have above : ¬ f.AtMostMax n.toBinary64 := fun most => outside ⟨least, most⟩
        obtain ⟨max, bound, above⟩ := (not_atMostMax_iff _).1 above
        exact .inl ⟨_, .aboveMax type least bound above⟩
      · obtain ⟨min, bound, below⟩ := (not_atLeastMin_iff _).1 least
        exact .inl ⟨_, .belowMin type bound below⟩
  · exact .inl ⟨_, .wrongType present multi type⟩

variable {values : FormValues}

theorem check_of_missing (missing : IsMissing (values.get? f.name)) :
    f.check values = if f.required then some .missing else none := by
  unfold check
  rcases missing with e | e <;> rw [e]

theorem check_of_present (found : values.get? f.name = some value) (present : value ≠ .null) :
    f.check values = f.checkValue value := by
  unfold check
  rw [found]
  cases value with
  | null => exact absurd rfl present
  | _ => rfl

theorem present_of_not_missing {entered : Option Json} (h : ¬ IsMissing entered) :
    ∃ value, entered = some value ∧ value ≠ .null := by
  obtain ⟨absent, null⟩ := not_or.1 h
  obtain ⟨value, rfl⟩ := Option.ne_none_iff_exists'.1 absent
  exact ⟨value, rfl, fun e => null (congrArg some e)⟩

theorem Fails.of_missing {entered : Option Json} (fails : f.Fails entered kind)
    (missing : IsMissing entered) : f.required = true ∧ kind = .missing := by
  rcases missing with rfl | rfl
  · cases fails with
    | missing required => exact ⟨required, rfl⟩
  · cases fails with
    | missing required => exact ⟨required, rfl⟩
    | wrongType present => exact absurd rfl present
    | noList present => exact absurd rfl present

theorem Meets.of_missing {entered : Option Json} (meets : f.Meets entered)
    (missing : IsMissing entered) : f.required = false := by
  rcases missing with rfl | rfl
  · cases meets with
    | missing optional => exact optional
  · cases meets with
    | missing optional => exact optional
    | value type => exact absurd rfl (ne_null_of_hasKind type)

theorem check_of_fails (fails : f.Fails (values.get? f.name) kind) : f.check values = some kind := by
  by_cases missing : IsMissing (values.get? f.name)
  · obtain ⟨required, rfl⟩ := fails.of_missing missing
    rw [check_of_missing missing, if_pos required]
  · obtain ⟨value, found, present⟩ := present_of_not_missing missing
    rw [found] at fails
    rw [check_of_present found present, checkValue_of_fails present fails]

theorem check_of_meets (meets : f.Meets (values.get? f.name)) : f.check values = none := by
  by_cases missing : IsMissing (values.get? f.name)
  · rw [check_of_missing missing, meets.of_missing missing, if_neg Bool.false_ne_true]
  · obtain ⟨value, found, present⟩ := present_of_not_missing missing
    rw [check_of_present found present]
    rw [found] at meets missing
    cases meets with
    | missing _ h => exact absurd h missing
    | value type range choices => exact checkValue_of_meets type range choices

theorem check_eq_some_iff : f.check values = some kind ↔ f.Fails (values.get? f.name) kind := by
  refine ⟨fun found => ?_, check_of_fails⟩
  rcases fails_or_meets f (values.get? f.name) with ⟨kind', fails⟩ | meets
  · have same := (check_of_fails fails).symm.trans found
    exact Option.some.inj same ▸ fails
  · cases (check_of_meets meets).symm.trans found

theorem check_eq_none_iff : f.check values = none ↔ f.Meets (values.get? f.name) := by
  refine ⟨fun nothing => ?_, check_of_meets⟩
  rcases fails_or_meets f (values.get? f.name) with ⟨kind, fails⟩ | meets
  · cases (check_of_fails fails).symm.trans nothing
  · exact meets

/-- Anything can have been entered. -/
theorem exists_values (name : String) (entered : Option Json) :
    ∃ values : FormValues, values.get? name = entered := by
  cases entered with
  | none => exact ⟨.empty, rfl⟩
  | some value => exact ⟨Keyed.empty.insert name value, by simp⟩

theorem exists_fails_iff (f : Field) (entered : Option Json) :
    (∃ kind, f.Fails entered kind) ↔ ¬ f.Meets entered := by
  -- The check decides between the two, for some values in which this was entered.
  obtain ⟨values, rfl⟩ := exists_values f.name entered
  refine ⟨fun ⟨kind, fails⟩ meets => ?_, fun h => (fails_or_meets f _).resolve_right h⟩
  cases (check_of_fails fails).symm.trans (check_of_meets meets)

theorem Fails.unique {entered : Option Json} {kind' : ViolationKind} (fails : f.Fails entered kind)
    (fails' : f.Fails entered kind') : kind = kind' := by
  obtain ⟨values, rfl⟩ := exists_values f.name entered
  exact Option.some.inj ((check_of_fails fails).symm.trans (check_of_fails fails'))

end Field

/-! ### The fields of a form -/

/-- The fields of a form with their sections, in order. -/
def occurrences (sections : List Section) : List (Section × Field) :=
  sections.flatMap fun s => s.fields.map (s, ·)

/-- A list of violations that goes with a list of fields: one for each field that is visible and
fails, none for any other. -/
inductive Reports (values : FormValues) : List (Section × Field) → List Violation → Prop where
  | nil : Reports values [] []
  | fails {s : Section} {f : Field} {fields : List (Section × Field)} {found : List Violation}
    {kind : ViolationKind} (visible : f.isVisible values = true)
    (fails : f.Fails (values.get? f.name) kind) (rest : Reports values fields found) :
    Reports values ((s, f) :: fields) (⟨s.id, f.name, kind⟩ :: found)
  | hidden {s : Section} {f : Field} {fields : List (Section × Field)} {found : List Violation}
    (hidden : f.isVisible values = false) (rest : Reports values fields found) :
    Reports values ((s, f) :: fields) found
  | meets {s : Section} {f : Field} {fields : List (Section × Field)} {found : List Violation}
    (meets : f.Meets (values.get? f.name)) (rest : Reports values fields found) :
    Reports values ((s, f) :: fields) found

/-- The violation of a field, if it is visible and fails. -/
def violation? (values : FormValues) (place : Section × Field) : Option Violation :=
  if place.2.isVisible values then
    (place.2.check values).map (⟨place.1.id, place.2.name, ·⟩)
  else none

theorem violations_eq (sections : List Section) (values : FormValues) :
    violations sections values = (occurrences sections).filterMap (violation? values) := by
  unfold violations occurrences
  rw [List.filterMap_flatMap]
  congr 1
  funext s
  rw [List.filterMap_map, List.filterMap_filter]
  rfl

theorem violation?_of_visible {s : Section} {f : Field} {values : FormValues}
    (visible : f.isVisible values = true) :
    violation? values (s, f) = (f.check values).map (⟨s.id, f.name, ·⟩) :=
  if_pos visible

theorem violation?_of_hidden {s : Section} {f : Field} {values : FormValues}
    (hidden : f.isVisible values = false) : violation? values (s, f) = none := by
  rw [violation?, hidden, if_neg Bool.false_ne_true]

theorem violation?_of_meets {s : Section} {f : Field} {values : FormValues}
    (meets : f.Meets (values.get? f.name)) : violation? values (s, f) = none := by
  unfold violation?
  rw [Field.check_of_meets meets, Option.map_none, ite_self]

/-- A list of fields has one report. -/
theorem reports_iff (values : FormValues) (fields : List (Section × Field)) (found : List Violation) :
    Reports values fields found ↔ found = fields.filterMap (violation? values) := by
  constructor
  · intro reports
    induction reports with
    | nil => rfl
    | fails visible fails _ ih =>
      rw [List.filterMap_cons, violation?_of_visible visible, Field.check_of_fails fails, ih,
        Option.map_some]
    | hidden hidden _ ih => rw [List.filterMap_cons, violation?_of_hidden hidden, ih]
    | meets meets _ ih => rw [List.filterMap_cons, violation?_of_meets meets, ih]
  · rintro rfl
    induction fields with
    | nil => exact .nil
    | cons place fields ih =>
      obtain ⟨s, f⟩ := place
      rw [List.filterMap_cons]
      cases visible : f.isVisible values with
      | false =>
        rw [violation?_of_hidden visible]
        exact .hidden visible ih
      | true =>
        rcases f.fails_or_meets (values.get? f.name) with ⟨kind, fails⟩ | meets
        · rw [violation?_of_visible visible, Field.check_of_fails fails, Option.map_some]
          exact .fails visible fails ih
        · rw [violation?_of_meets meets]
          exact .meets meets ih

theorem violation?_eq_none_iff {s : Section} {f : Field} {values : FormValues} :
    violation? values (s, f) = none ↔
      (f.isVisible values = true → f.Meets (values.get? f.name)) := by
  unfold violation?
  split
  · rename_i visible
    rw [Option.map_eq_none_iff, Field.check_eq_none_iff]
    exact ⟨fun meets _ => meets, fun meets => meets visible⟩
  · rename_i hidden
    exact ⟨fun _ visible => absurd visible hidden, fun _ => rfl⟩

/-- The violations of a form are what its fields report, and nothing else is: one for each field that is
visible and fails, in order. A field fails when it is not met, in one way, and a form is without
violations when all its visible fields are met. -/
theorem violations_exact (sections : List Section) (values : FormValues) :
    (∀ found, Reports values (occurrences sections) found ↔ found = violations sections values) ∧
    (∀ (f : Field) (entered : Option Json),
      ((∃ kind, f.Fails entered kind) ↔ ¬ f.Meets entered) ∧
      ∀ kind kind', f.Fails entered kind → f.Fails entered kind' → kind = kind') ∧
    (violations sections values = [] ↔ ∀ s ∈ sections, ∀ f ∈ s.fields,
      f.isVisible values = true → f.Meets (values.get? f.name)) := by
  refine ⟨fun found => ?_, fun f entered => ⟨f.exists_fails_iff entered, ?_⟩, ?_⟩
  · rw [violations_eq]
    exact reports_iff values (occurrences sections) found
  · intro kind kind' fails fails'
    exact fails.unique fails'
  · rw [violations_eq, List.filterMap_eq_nil_iff]
    constructor
    · intro nothing s hs f hf
      have mem : (s, f) ∈ occurrences sections :=
        List.mem_flatMap.2 ⟨s, hs, List.mem_map_of_mem hf⟩
      exact violation?_eq_none_iff.1 (nothing (s, f) mem)
    · intro met place mem
      obtain ⟨s, hs, inside⟩ := List.mem_flatMap.1 mem
      obtain ⟨f, hf, rfl⟩ := List.mem_map.1 inside
      exact violation?_eq_none_iff.2 (met s hs f hf)

end StrategyForm
