import Mathlib.Algebra.Order.Field.Basic
import Mathlib.Data.Rat.Cast.Order
import Mathlib.Tactic.FieldSimp
import Mathlib.Tactic.Linarith
import Mathlib.Tactic.Ring
import StrategyForm.Json.Number

/-!
# The nearest float

`Binary64.nearest?` gives a float nearest to a fraction among all floats (`nearest?_least`). All is said
in natural numbers first: on the grid of multiples of the last place the rounded quotient is nearest, and
a float off that grid lies below a multiple that is no further away (`magnitude_on_grid`).

So an integer of 64 bits is read as a float nearest to it (`ofInt_isNearest`), and as itself exactly if
it has no more than 53 significant bits (`toRat_ofInt_iff`). What is nearest lies on no other side of a
float than the number itself (`IsNearest.le_of_le`, `IsNearest.ge_of_ge`).
-/

namespace StrategyForm.Decimal

/-! ### Rounded quotients -/

theorem roundDiv_cases (num den : Nat) :
    (roundDiv num den = num / den ∧ 2 * (num % den) ≤ den) ∨
      (roundDiv num den = num / den + 1 ∧ den ≤ 2 * (num % den)) := by
  unfold roundDiv
  dsimp only
  split
  · left
    omega
  · split <;> omega

theorem roundDiv_least (num : Nat) {den : Nat} (pos : 0 < den) (k : Nat) :
    ((roundDiv num den * den : Nat) - (num : Int)).natAbs ≤ ((k * den : Nat) - (num : Int)).natAbs := by
  have split : num / den * den + num % den = num := by
    rw [Nat.mul_comm]
    exact Nat.div_add_mod num den
  have rest := Nat.mod_lt num pos
  have above : (num / den + 1) * den = num / den * den + den := Nat.succ_mul ..
  -- no multiple lies strictly between the two that enclose `num`
  have side : k * den ≤ num / den * den ∨ (num / den + 1) * den ≤ k * den := by
    rcases Nat.lt_or_ge (num / den) k with h | h
    · exact .inr (Nat.mul_le_mul_right den h)
    · exact .inl (Nat.mul_le_mul_right den h)
  rcases roundDiv_cases num den with ⟨e, half⟩ | ⟨e, half⟩ <;> rw [e] <;> omega

theorem roundDiv_mul_of_dvd {num den : Nat} (pos : 0 < den) (h : den ∣ num) :
    roundDiv num den * den = num := by
  obtain ⟨k, rfl⟩ := h
  have least := roundDiv_least (den * k) pos k
  rw [Nat.mul_comm k den] at least
  omega

namespace Binary64
variable {negative : Bool} {num den : Nat} {x : Binary64}

/-! ### Magnitudes -/

theorem of_ofFields? {significand scale : Nat} (h : ofFields? negative significand scale = some x) :
    x.negative = negative ∧ x.magnitude = significand * 2 ^ scale := by
  unfold ofFields? at h
  split at h
  · cases h
    exact ⟨rfl, rfl⟩
  · cases h

/-- The last place of the quotient's 53 bits. -/
def lastPlace (num den : Nat) : Nat := (num / den).log2 - 52

/-- The sign is kept, and the magnitude is the quotient rounded to its last place, also when it carries. -/
theorem of_nearest? (h : nearest? negative num den = some x) : x.negative = negative ∧
    x.magnitude = roundDiv num (den * 2 ^ lastPlace num den) * 2 ^ lastPlace num den := by
  unfold nearest? at h
  dsimp only at h
  split at h
  · rename_i carried
    obtain ⟨sign, magnitude⟩ := of_ofFields? h
    refine ⟨sign, ?_⟩
    rw [magnitude]
    show _ = roundDiv num (den * Nat.pow 2 ((num / den).log2 - 52)) * _
    rw [carried, Nat.pow_succ, lastPlace]
    omega
  · exact of_ofFields? h

/-- A float is a multiple of a place, or has its 53 bits below the place. -/
theorem magnitude_on_grid (y : Binary64) (place : Nat) :
    (∃ k, y.magnitude = k * 2 ^ place) ∨ (0 < place ∧ y.magnitude < 2 ^ 52 * 2 ^ place) := by
  rcases Nat.lt_or_ge y.scale place with below | above
  · right
    refine ⟨by omega, ?_⟩
    have bits : y.significand < 2 ^ 53 := y.significand_lt
    calc y.magnitude
      _ < 2 ^ 53 * 2 ^ y.scale := Nat.mul_lt_mul_of_pos_right bits (Nat.two_pow_pos _)
      _ = 2 ^ (52 + (y.scale + 1)) := by rw [← Nat.pow_add]; congr 1; omega
      _ ≤ 2 ^ (52 + place) := Nat.pow_le_pow_right (by decide) (by omega)
      _ = 2 ^ 52 * 2 ^ place := Nat.pow_add ..
  · left
    refine ⟨y.significand * 2 ^ (y.scale - place), ?_⟩
    rw [Nat.mul_assoc, ← Nat.pow_add, Nat.sub_add_cancel above]
    rfl

theorem le_of_lastPlace (pos : 0 < lastPlace num den) : 2 ^ 52 * (den * 2 ^ lastPlace num den) ≤ num := by
  unfold lastPlace at *
  have bits : (num / den).log2 = 52 + ((num / den).log2 - 52) := by omega
  have nonzero : num / den ≠ 0 := by
    intro e
    simp [e] at pos
  have least : 2 ^ (num / den).log2 ≤ num / den := Nat.log2_self_le nonzero
  calc 2 ^ 52 * (den * 2 ^ ((num / den).log2 - 52))
    _ = den * 2 ^ (52 + ((num / den).log2 - 52)) := by rw [Nat.pow_add]; ac_rfl
    _ ≤ den * (num / den) := by rw [← bits]; exact Nat.mul_le_mul_left den least
    _ ≤ num := Nat.mul_div_le num den

theorem nearest?_least_magnitude (pos : 0 < den) (h : nearest? negative num den = some x) (y : Binary64) :
    ((x.magnitude * den : Nat) - (num : Int)).natAbs ≤ ((y.magnitude * den : Nat) - (num : Int)).natAbs := by
  have unit : 0 < den * 2 ^ lastPlace num den := Nat.mul_pos pos (Nat.two_pow_pos _)
  have place (k : Nat) : k * 2 ^ lastPlace num den * den = k * (den * 2 ^ lastPlace num den) := by ac_rfl
  rw [(of_nearest? h).2, place]
  rcases magnitude_on_grid y (lastPlace num den) with ⟨k, e⟩ | ⟨later, below⟩
  · rw [e, place]
    exact roundDiv_least num unit k
  · -- `2 ^ 52` places lie between the float and the quotient
    have between := le_of_lastPlace later
    have nearer := roundDiv_least num unit (2 ^ 52)
    have below : y.magnitude * den < 2 ^ 52 * (den * 2 ^ lastPlace num den) := by
      rw [← place]
      exact Nat.mul_lt_mul_of_pos_right below pos
    omega

/-! ### Existence -/

theorem roundDiv_lastPlace_le (num : Nat) {den : Nat} (pos : 0 < den) :
    roundDiv num (den * 2 ^ lastPlace num den) ≤ 2 ^ 53 ∧
      (lastPlace num den = 0 ∨ 2 ^ 52 ≤ roundDiv num (den * 2 ^ lastPlace num den)) := by
  have unit : 0 < den * 2 ^ lastPlace num den := Nat.mul_pos pos (Nat.two_pow_pos _)
  have quotient : num / (den * 2 ^ lastPlace num den) < 2 ^ 53 := by
    rw [← Nat.div_div_eq_div_mul, Nat.div_lt_iff_lt_mul (Nat.two_pow_pos _), ← Nat.pow_add]
    refine Nat.lt_of_lt_of_le Nat.lt_log2_self (Nat.pow_le_pow_right (by decide) ?_)
    unfold lastPlace
    omega
  refine ⟨?_, ?_⟩
  · rcases roundDiv_cases num (den * 2 ^ lastPlace num den) with ⟨e, -⟩ | ⟨e, -⟩ <;> omega
  · rcases Nat.eq_zero_or_pos (lastPlace num den) with none | later
    · exact .inl none
    · right
      have least := (Nat.le_div_iff_mul_le unit).2 (le_of_lastPlace later)
      rcases roundDiv_cases num (den * 2 ^ lastPlace num den) with ⟨e, -⟩ | ⟨e, -⟩ <;> omega

theorem exists_ofFields? {significand scale : Nat} (lt : significand < 2 ^ 53)
    (normal : 2 ^ 52 ≤ significand ∨ scale = 0) (le : scale ≤ 2045) :
    ∃ x, ofFields? negative significand scale = some x := by
  unfold ofFields?
  rw [dif_pos ⟨lt, normal, le⟩]
  exact ⟨_, rfl⟩

theorem exists_nearest? (negative : Bool) (pos : 0 < den) (small : lastPlace num den < 2045) :
    ∃ x, nearest? negative num den = some x := by
  obtain ⟨most, least⟩ := roundDiv_lastPlace_le num pos
  unfold nearest?
  dsimp only
  split
  · exact exists_ofFields? (by decide) (.inl (by decide)) small
  · rename_i fits
    refine exists_ofFields? (Nat.lt_of_le_of_ne most fits) least.symm ?_
    exact Nat.le_of_lt small

/-! ### Values -/

/-- The exact value. -/
def toRat (x : Binary64) : ℚ := x.units / one

/-- The exponent is named, so that the power is never evaluated. -/
theorem one_eq : ∃ places, places = 1074 ∧ one = 2 ^ places := by
  unfold one
  generalize 1074 = places
  exact ⟨places, rfl, rfl⟩

theorem one_pos : 0 < one := by
  obtain ⟨places, -, e⟩ := one_eq
  rw [e]
  exact Nat.two_pow_pos places

theorem toRat_lt_toRat_iff (x y : Binary64) : x.toRat < y.toRat ↔ x < y := by
  have pos : (0 : ℚ) < one := Nat.cast_pos.2 one_pos
  rw [toRat, toRat, div_lt_div_iff_of_pos_right pos, Int.cast_lt, lt_iff]

theorem toRat_inj (x y : Binary64) : x.toRat = y.toRat ↔ x.units = y.units := by
  have nonzero : (one : ℚ) ≠ 0 := Nat.cast_ne_zero.2 one_pos.ne'
  rw [toRat, toRat, div_left_inj' nonzero, Int.cast_inj]

theorem sameValue_iff (x y : Binary64) : x.sameValue y = true ↔ x.toRat = y.toRat := by
  rw [toRat_inj, sameValue, beq_iff_eq]

theorem toRat_eq_intCast_iff (x : Binary64) (i : Int) : x.toRat = i ↔ x.units = i * one := by
  have nonzero : (one : ℚ) ≠ 0 := Nat.cast_ne_zero.2 one_pos.ne'
  rw [toRat, div_eq_iff nonzero, ← Int.cast_natCast, ← Int.cast_mul, Int.cast_inj]

/-- No float is nearer to the number. -/
def IsNearest (x : Binary64) (q : ℚ) : Prop := ∀ y : Binary64, |x.toRat - q| ≤ |y.toRat - q|

namespace IsNearest
variable {q : ℚ} {y : Binary64}

theorem le_of_le (h : x.IsNearest q) (below : y.toRat ≤ q) : y.toRat ≤ x.toRat := by
  by_contra above
  have nearer := h y
  rw [abs_of_nonpos (by linarith), abs_of_nonpos (by linarith)] at nearer
  linarith

theorem ge_of_ge (h : x.IsNearest q) (above : q ≤ y.toRat) : x.toRat ≤ y.toRat := by
  by_contra below
  have nearer := h y
  rw [abs_of_nonneg (by linarith), abs_of_nonneg (by linarith)] at nearer
  linarith

/-- A number that is a float is nearest to itself alone. -/
theorem eq_of_eq (h : x.IsNearest q) (exact : y.toRat = q) : x.toRat = q := by
  have nearer := h y
  rw [exact, sub_self, abs_zero] at nearer
  linarith [abs_nonpos_iff.1 nearer]

/-- The number is below a float exactly if what is nearest to it is, or is that float. -/
theorem lt_iff (h : x.IsNearest q) (y : Binary64) : x.toRat < y.toRat ↔ q < y.toRat ∧ x.toRat ≠ y.toRat := by
  constructor
  · intro lt
    refine ⟨?_, lt.ne⟩
    by_contra above
    exact absurd (h.le_of_le (not_lt.1 above)) (not_le.2 lt)
  · rintro ⟨below, ne⟩
    exact lt_of_le_of_ne (h.ge_of_ge below.le) ne

theorem gt_iff (h : x.IsNearest q) (y : Binary64) : y.toRat < x.toRat ↔ y.toRat < q ∧ x.toRat ≠ y.toRat := by
  constructor
  · intro lt
    refine ⟨?_, lt.ne'⟩
    by_contra below
    exact absurd (h.ge_of_ge (not_lt.1 below)) (not_le.2 lt)
  · rintro ⟨above, ne⟩
    exact lt_of_le_of_ne (h.le_of_le above.le) (Ne.symm ne)

end IsNearest

theorem isNearest_toRat (x : Binary64) : x.IsNearest x.toRat := by
  intro y
  rw [sub_self, abs_zero]
  exact abs_nonneg _

/-- No float is nearer to the fraction, of whatever sign. -/
theorem nearest?_least (pos : 0 < den) (h : nearest? negative num den = some x) (y : Binary64) :
    (x.units * den - (if negative then -(num : Int) else num)).natAbs ≤
      (y.units * den - (if negative then -(num : Int) else num)).natAbs := by
  have least := nearest?_least_magnitude pos h y
  have sign := (of_nearest? h).1
  rw [Nat.cast_mul, Nat.cast_mul] at least
  have product : 0 ≤ (x.magnitude : Int) * den := by positivity
  have product' : 0 ≤ (y.magnitude : Int) * den := by positivity
  unfold units
  rw [sign]
  cases negative <;> cases y.negative <;> simp only [Bool.false_eq_true, if_true, if_false, neg_mul] <;> omega

/-! ### Integers -/

variable {i : Int}

theorem log2_mul_two_pow {k : Nat} (nonzero : k ≠ 0) (places : Nat) :
    (k * 2 ^ places).log2 = k.log2 + places := by
  induction places with
  | zero => rw [Nat.pow_zero, Nat.mul_one, Nat.add_zero]
  | succ places ih =>
    have less : k * 2 ^ places ≠ 0 := Nat.mul_ne_zero nonzero (Nat.two_pow_pos places).ne'
    rw [Nat.pow_succ, ← Nat.mul_assoc, Nat.mul_comm, Nat.log2_two_mul less, ih, Nat.add_assoc]

theorem lastPlace_mul_one {k : Nat} (nonzero : k ≠ 0) : lastPlace (k * one) 1 = k.log2 + 1022 := by
  obtain ⟨places, count, e⟩ := one_eq
  unfold lastPlace
  rw [e, Nat.div_one, log2_mul_two_pow nonzero]
  omega

theorem lastPlace_natAbs_lt (h : Json.InWords i) : lastPlace (i.natAbs * one) 1 < 2045 := by
  obtain zero | nonzero := Decidable.em (i.natAbs = 0)
  · rw [zero, Nat.zero_mul]
    decide
  · have bits : i.natAbs.log2 < 65 := (Nat.log2_lt nonzero).2 (by unfold Json.InWords at h; omega)
    rw [lastPlace_mul_one nonzero]
    omega

theorem nearest?_ofInt (h : Json.InWords i) :
    nearest? (decide (i < 0)) (i.natAbs * one) 1 = some (ofInt i) := by
  obtain ⟨x, found⟩ := exists_nearest? (decide (i < 0)) Nat.one_pos (lastPlace_natAbs_lt h)
  rw [ofInt, ofRatio?, found, Option.getD_some]

theorem signed_natAbs_mul (i : Int) (unit : Nat) :
    (if decide (i < 0) = true then -((i.natAbs * unit : Nat) : Int) else (i.natAbs * unit : Nat)) = i * unit := by
  rw [Nat.cast_mul]
  rcases Int.lt_or_le i 0 with below | above
  · rw [if_pos (decide_eq_true below), Int.ofNat_natAbs_of_nonpos below.le, neg_mul, neg_neg]
  · rw [if_neg (by simpa using above), Int.natAbs_of_nonneg above]

theorem abs_toRat_sub (x : Binary64) (i : Int) : |x.toRat - i| = ((x.units - i * one).natAbs : ℚ) / one := by
  have pos : (0 : ℚ) < one := Nat.cast_pos.2 one_pos
  have scaled : x.toRat - i = ((x.units - i * one : Int) : ℚ) / one := by
    rw [Int.cast_sub, Int.cast_mul, Int.cast_natCast, sub_div, mul_div_cancel_right₀ _ pos.ne', toRat]
  rw [scaled, abs_div, abs_of_pos pos, Nat.cast_natAbs, Int.cast_abs]

theorem isNearest_of_nearest? {n : Nat} (h : nearest? negative (n * one) 1 = some x) :
    x.IsNearest ((if negative then -(n : Int) else n : Int) : ℚ) := by
  have scaled : (if negative then -((n * one : Nat) : Int) else (n * one : Nat)) =
      (if negative then -(n : Int) else n) * one := by
    rw [ite_mul, neg_mul, Nat.cast_mul]
  intro y
  have least := nearest?_least Nat.one_pos h y
  rw [scaled, Nat.cast_one, mul_one, mul_one] at least
  rw [abs_toRat_sub, abs_toRat_sub, div_le_div_iff_of_pos_right (Nat.cast_pos.2 one_pos)]
  exact Nat.cast_le.2 least

theorem ofInt_isNearest (h : Json.InWords i) : (ofInt i).IsNearest i := by
  have nearest := isNearest_of_nearest? (nearest?_ofInt h)
  have signed := signed_natAbs_mul i 1
  rw [Nat.mul_one, Nat.cast_one, mul_one] at signed
  rwa [signed] at nearest

/-- The integer has no more than 53 significant bits. -/
def FitsSignificand (i : Int) : Prop := ∃ significand scale, significand < 2 ^ 53 ∧
  i.natAbs = significand * 2 ^ scale

theorem fitsSignificand_of_natAbs_le (h : i.natAbs ≤ 2 ^ 53) : FitsSignificand i := by
  rcases Nat.lt_or_eq_of_le h with lt | eq
  · exact ⟨i.natAbs, 0, lt, (Nat.mul_one _).symm⟩
  · exact ⟨1, 53, by decide, by rw [eq, Nat.one_mul]⟩

theorem two_pow_lastPlace_dvd {k significand scale : Nat} (bits : significand < 2 ^ 53)
    (e : k = significand * 2 ^ scale) : 2 ^ lastPlace (k * one) 1 ∣ k * one := by
  obtain zero | nonzero := Decidable.em (k = 0)
  · rw [zero, Nat.zero_mul]
    exact Nat.dvd_zero _
  · have most : k.log2 < 53 + scale := by
      rw [Nat.log2_lt nonzero, e, Nat.pow_add]
      exact Nat.mul_lt_mul_of_pos_right bits (Nat.two_pow_pos _)
    obtain ⟨places, count, unit⟩ := one_eq
    -- all bits of `k * one` stand at `scale + places` or above
    have least : lastPlace (k * one) 1 ≤ scale + places := by
      rw [lastPlace_mul_one nonzero]
      omega
    refine Nat.dvd_trans (Nat.pow_dvd_pow 2 least) ?_
    rw [unit, e, Nat.mul_assoc, ← Nat.pow_add]
    exact Nat.dvd_mul_left ..

theorem fitsSignificand_of_magnitude {x : Binary64} (e : x.magnitude = i.natAbs * one) : FitsSignificand i := by
  have bits : x.significand < 2 ^ 53 := x.significand_lt
  obtain ⟨places, -, unit⟩ := one_eq
  have e : x.significand * 2 ^ x.scale = i.natAbs * 2 ^ places := by
    rw [← unit, ← e]
    rfl
  -- the lowest place of the float stands above the point, or below it
  rcases Nat.le_total places x.scale with above | below
  · refine ⟨x.significand, x.scale - places, bits, ?_⟩
    refine Nat.eq_of_mul_eq_mul_right (Nat.two_pow_pos places) ?_
    rw [← e, Nat.mul_assoc, ← Nat.pow_add, Nat.sub_add_cancel above]
  · have fewer : i.natAbs * 2 ^ (places - x.scale) = x.significand := by
      refine Nat.eq_of_mul_eq_mul_right (Nat.two_pow_pos x.scale) ?_
      rw [e, Nat.mul_assoc, ← Nat.pow_add, Nat.sub_add_cancel below]
    refine ⟨i.natAbs, 0, ?_, (Nat.mul_one _).symm⟩
    exact Nat.lt_of_le_of_lt (Nat.le_mul_of_pos_right _ (Nat.two_pow_pos _)) (fewer ▸ bits)

theorem natAbs_units (x : Binary64) : x.units.natAbs = x.magnitude := by
  unfold units
  split
  · rw [Int.natAbs_neg, Int.natAbs_natCast]
  · rw [Int.natAbs_natCast]

theorem units_ofInt (h : Json.InWords i) (fits : FitsSignificand i) : (ofInt i).units = i * one := by
  obtain ⟨significand, scale, bits, e⟩ := fits
  obtain ⟨sign, magnitude⟩ := of_nearest? (nearest?_ofInt h)
  rw [Nat.one_mul, roundDiv_mul_of_dvd (Nat.two_pow_pos _) (two_pow_lastPlace_dvd bits e)] at magnitude
  rw [units, sign, magnitude, signed_natAbs_mul]

/-- An integer is read as itself exactly if it has no more than 53 significant bits. -/
theorem toRat_ofInt_iff (h : Json.InWords i) : (ofInt i).toRat = i ↔ FitsSignificand i := by
  rw [toRat_eq_intCast_iff]
  constructor
  · intro exact
    refine fitsSignificand_of_magnitude (x := ofInt i) ?_
    rw [← natAbs_units, exact, Int.natAbs_mul, Int.natAbs_natCast]
  · exact units_ofInt h

/-- The float of an integer is whole: the last place of a greater integer is not below one. -/
theorem one_dvd_units_ofInt (h : Json.InWords i) : (one : Int) ∣ (ofInt i).units := by
  rcases Nat.lt_or_ge (2 ^ 53) i.natAbs with wide | few
  · have nonzero : i.natAbs ≠ 0 := Nat.ne_zero_of_lt wide
    have bits : 53 ≤ i.natAbs.log2 := (Nat.le_log2 nonzero).2 wide.le
    obtain ⟨places, count, unit⟩ := one_eq
    have last : places ≤ lastPlace (i.natAbs * one) 1 := by
      rw [lastPlace_mul_one nonzero]
      omega
    rw [Int.natCast_dvd, natAbs_units, (of_nearest? (nearest?_ofInt h)).2, unit]
    exact Nat.dvd_mul_left_of_dvd (Nat.pow_dvd_pow 2 (unit ▸ last)) _
  · rw [units_ofInt h (fitsSignificand_of_natAbs_le few)]
    exact Int.dvd_mul_left ..

end Binary64

end StrategyForm.Decimal
