import StrategyForm.Proofs.Decimal.Nearest
import StrategyForm.Proofs.Form.Violations

/-!
# Integers against bounds

What the check of a visible field reports on an integer that was entered (`bounds_up_to_rounding`). The
integer is rounded to a float first, and a float nearest to it lies on no other side of a bound, but may be
the bound: then the integer passes, on whichever side of it it lies. Nothing is rounded up to 53 significant
bits, and the bounds are exact there.
-/

namespace StrategyForm
open Decimal

/-! ### The place of a field -/

theorem violations_append (before after : List Section) (values : FormValues) :
    violations (before ++ after) values = violations before values ++ violations after values :=
  List.flatMap_append

theorem violations_section (s : Section) (fields : List Field) (after : List Section) (values : FormValues) :
    violations ({ s with fields := fields } :: after) values =
      fields.filterMap (violation? values ⟨s, ·⟩) ++ violations after values := by
  rw [violations, List.flatMap_cons, List.filterMap_filter]
  rfl

/-- What a field reports stands between what is reported before it and behind it. -/
theorem violations_at (s : Section) (f : Field) (before after : List Section) (head tail : List Field)
    (values : FormValues) :
    violations (before ++ { s with fields := head ++ f :: tail } :: after) values =
      violations (before ++ [{ s with fields := head }]) values ++ (violation? values (s, f)).toList ++
        violations ({ s with fields := tail } :: after) values := by
  rw [violations_append, violations_append, violations_section, violations_section, violations_section,
    List.filterMap_append, List.filterMap_cons]
  cases violation? values (s, f) <;> simp [violations]

namespace Field
variable {f : Field} {below above below' above' : Binary64 → Prop} {actual : Binary64}

/-! ### Reports -/

/-- What is reported on a number, where `below` and `above` say which bounds it is outside of. The lower
bound comes first. -/
inductive RangeReport (f : Field) (below above : Binary64 → Prop) (actual : Binary64) :
    Option ViolationKind → Prop where
  | belowMin {min : Binary64} (bound : f.min = some min) (outside : below min) :
    RangeReport f below above actual (some (.belowMin min actual))
  | aboveMax {max : Binary64} (least : ∀ min, f.min = some min → ¬ below min) (bound : f.max = some max)
    (outside : above max) : RangeReport f below above actual (some (.aboveMax max actual))
  | inside (least : ∀ min, f.min = some min → ¬ below min) (most : ∀ max, f.max = some max → ¬ above max) :
    RangeReport f below above actual none

theorem RangeReport.congr {reported : Option ViolationKind} (h : f.RangeReport below above actual reported)
    (low : ∀ x, below x ↔ below' x) (high : ∀ x, above x ↔ above' x) :
    f.RangeReport below' above' actual reported := by
  obtain rfl : below = below' := funext fun x => propext (low x)
  obtain rfl : above = above' := funext fun x => propext (high x)
  exact h

theorem RangeReport.eq_none_iff {reported : Option ViolationKind} (h : f.RangeReport below above actual reported) :
    reported = none ↔
      (∀ min, f.min = some min → ¬ below min) ∧ ∀ max, f.max = some max → ¬ above max := by
  cases h with
  | belowMin bound outside => exact iff_of_false (by simp) fun ⟨least, _⟩ => least _ bound outside
  | aboveMax _ bound outside => exact iff_of_false (by simp) fun ⟨_, most⟩ => most _ bound outside
  | inside least most => exact iff_of_true rfl ⟨least, most⟩

theorem checkRange_report (f : Field) (x : Binary64) :
    f.RangeReport (x < ·) (· < x) x (f.checkRange x) := by
  by_cases least : f.AtLeastMin x
  · have low (min : Binary64) (bound : f.min = some min) : ¬ x < min := Int.not_lt.2 (least min bound)
    by_cases most : f.AtMostMax x
    · rw [checkRange_of_inside least most]
      exact .inside low fun max bound => Int.not_lt.2 (most max bound)
    · obtain ⟨max, bound, outside⟩ := (not_atMostMax_iff x).1 most
      rw [checkRange_of_above least bound outside]
      exact .aboveMax low bound outside
  · obtain ⟨min, bound, outside⟩ := (not_atLeastMin_iff x).1 least
    rw [checkRange_of_below bound outside]
    exact .belowMin bound outside

/-! ### Integers -/

variable {v : Int} {words : Json.InWords v} {values : FormValues}

theorem hasKind_int (kind : f.kind = .integer ∨ f.kind = .number) (words : Json.InWords v) :
    HasKind f.kind (.number (.int v words)) := by
  rcases kind with kind | kind <;> rw [kind]
  · exact .integer (Binary64.one_dvd_units_ofInt words)
  · exact .number _

theorem check_int (kind : f.kind = .integer ∨ f.kind = .number)
    (entered : values.get? f.name = some (.number (.int v words))) :
    f.check values = f.checkRange (.ofInt v) := by
  rw [check_of_present entered Json.noConfusion, checkValue_number (hasKind_int kind words)]
  rfl

/-- An integer is outside of a bound that its float is outside of. -/
theorem check_int_report (kind : f.kind = .integer ∨ f.kind = .number)
    (entered : values.get? f.name = some (.number (.int v words))) :
    f.RangeReport (fun min => v < min.toRat ∧ (Binary64.ofInt v).toRat ≠ min.toRat)
      (fun max => max.toRat < v ∧ (Binary64.ofInt v).toRat ≠ max.toRat) (.ofInt v) (f.check values) := by
  have nearest := Binary64.ofInt_isNearest words
  rw [check_int kind entered]
  refine (checkRange_report f (.ofInt v)).congr (fun min => ?_) (fun max => ?_)
  · rw [← Binary64.toRat_lt_toRat_iff, nearest.lt_iff]
  · rw [← Binary64.toRat_lt_toRat_iff, nearest.gt_iff]

end Field

/-- A visible field for numbers reports an integer that is outside of a bound, in the field's place, unless
the float that is nearest to the integer is the bound. An integer with no more than 53 significant bits is
its own float, so that it is reported exactly if it is outside. -/
theorem bounds_up_to_rounding {s : Section} {f : Field} {v : Int} {words : Json.InWords v} {values : FormValues}
    (kind : f.kind = .integer ∨ f.kind = .number) (visible : f.isVisible values = true)
    (entered : values.get? f.name = some (.number (.int v words)))
    (before after : List Section) (head tail : List Field) :
    violations (before ++ { s with fields := head ++ f :: tail } :: after) values =
        violations (before ++ [{ s with fields := head }]) values ++
          ((f.check values).map (⟨s.id, f.name, ·⟩)).toList ++
          violations ({ s with fields := tail } :: after) values ∧
      f.RangeReport (fun min => v < min.toRat ∧ (Binary64.ofInt v).toRat ≠ min.toRat)
        (fun max => max.toRat < v ∧ (Binary64.ofInt v).toRat ≠ max.toRat) (.ofInt v) (f.check values) ∧
      (Binary64.ofInt v).IsNearest v ∧
      (Binary64.FitsSignificand v →
        f.RangeReport (fun min => v < min.toRat) (fun max => max.toRat < v) (.ofInt v) (f.check values) ∧
          (f.check values = none ↔
            (∀ min, f.min = some min → min.toRat ≤ v) ∧ ∀ max, f.max = some max → v ≤ max.toRat)) := by
  have report := Field.check_int_report kind entered
  refine ⟨?_, report, Binary64.ofInt_isNearest words, fun fits => ?_⟩
  · rw [violations_at, violation?_of_visible visible]
  · rw [(Binary64.toRat_ofInt_iff words).2 fits] at report
    have exact := report.congr (fun min => and_iff_left_of_imp ne_of_lt) (fun max => and_iff_left_of_imp ne_of_gt)
    refine ⟨exact, ?_⟩
    simp only [exact.eq_none_iff, not_lt]

/-- A quantity of at most `2 ^ 53`, as a form of its own. -/
def quantity : Field := { name := "qty", kind := .integer, max := some (.ofInt 9007199254740992) }

def quantityForm : List Section := [⟨"custom", "Order", none, true, false, [quantity], 0⟩]

theorem greatest_toRat : (Binary64.ofInt 9007199254740992).toRat = (9007199254740992 : Int) :=
  (Binary64.toRat_ofInt_iff (by decide)).2 (Binary64.fitsSignificand_of_natAbs_le (by decide))

/-- Two above the greatest quantity. -/
theorem bounds_up_to_rounding_of_quantity :
    violations quantityForm (Keyed.empty.insert "qty" (.ofInt 9007199254740994)) =
      [⟨"custom", "qty", .aboveMax (.ofInt 9007199254740992) (.ofInt 9007199254740994)⟩] := by
  have fits : Binary64.FitsSignificand 9007199254740994 := ⟨4503599627370497, 1, by decide, by decide⟩
  have entered : (Keyed.empty.insert "qty" (Json.ofInt 9007199254740994)).get? quantity.name =
      some (.number (.int 9007199254740994 (by decide))) := rfl
  obtain ⟨place, -, -, exact⟩ := bounds_up_to_rounding (s := ⟨"custom", "Order", none, true, false, [], 0⟩)
    (.inl rfl) rfl entered [] [] [] []
  have reported : quantity.check (Keyed.empty.insert "qty" (.ofInt 9007199254740994)) =
      some (.aboveMax (.ofInt 9007199254740992) (.ofInt 9007199254740994)) := by
    generalize quantity.check _ = found at exact
    cases (exact fits).1 with
    | belowMin bound => cases bound
    | aboveMax _ bound => rw [← Option.some.inj bound]
    | inside _ most =>
      have outside := most _ rfl
      rw [greatest_toRat] at outside
      norm_num at outside
  rw [reported] at place
  exact place

/-- One above the greatest quantity, nothing is reported. -/
theorem above_greatest_unreported :
    (∀ max, quantity.max = some max → max.toRat < (9007199254740993 : Int)) ∧
      violations quantityForm (Keyed.empty.insert "qty" (.ofInt 9007199254740993)) = [] := by
  refine ⟨?_, by decide +kernel⟩
  intro max bound
  rw [← Option.some.inj bound, greatest_toRat]
  norm_num

end StrategyForm
