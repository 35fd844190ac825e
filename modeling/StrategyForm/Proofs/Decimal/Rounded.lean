import StrategyForm.Proofs.Decimal.Nearest

/-!
# Floats rounded to integers

A float is rounded to the one integer that is nearest to it, a half away from zero (`roundsTo_round`, `unique`).
No integer lies between a number and what it is rounded to (`RoundsTo.le_of_le`, `RoundsTo.ge_of_ge`). Great floats
are integers as they are (`exists_toRat_eq_intCast`).
-/

namespace StrategyForm.Decimal

/-- No integer is nearer to the number, and another one that is as near is nearer to zero. -/
structure RoundsTo (q : ℚ) (i : Int) : Prop where
  near : |q - i| ≤ 1 / 2
  away : |q - i| = 1 / 2 → |q| < |(i : ℚ)|

namespace RoundsTo
variable {q : ℚ} {i j : Int}

theorem neg (h : RoundsTo q i) : RoundsTo (-q) (-i) := by
  have same : |-q - (-i : Int)| = |q - i| := by
    rw [Int.cast_neg, ← neg_sub', abs_neg]
  refine ⟨by rw [same]; exact h.near, fun half => ?_⟩
  rw [same] at half
  rw [Int.cast_neg, abs_neg, abs_neg]
  exact h.away half

theorem le_of_le (h : RoundsTo q i) (above : (j : ℚ) ≤ q) : j ≤ i := by
  have near := (abs_le.1 h.near).2
  have less : ((j - 1 : Int) : ℚ) < i := by
    push_cast
    linarith
  have := Int.cast_lt.1 less
  omega

theorem ge_of_ge (h : RoundsTo q i) (below : q ≤ j) : i ≤ j := by
  have mirrored : ((-j : Int) : ℚ) ≤ -q := by
    rw [Int.cast_neg]
    exact neg_le_neg below
  have := h.neg.le_of_le mirrored
  omega

/-- An integer is rounded to itself. -/
theorem eq_of_eq (h : RoundsTo q i) (whole : q = j) : i = j :=
  le_antisymm (h.ge_of_ge whole.le) (h.le_of_le whole.ge)

theorem le_of_both (h : RoundsTo q i) (h' : RoundsTo q j) : i ≤ j := by
  by_contra less
  have apart : (j : ℚ) + 1 ≤ i := by exact_mod_cast not_le.1 less
  have near := abs_le.1 h.near
  have near' := abs_le.1 h'.near
  -- both are half a unit away, with the number between them
  have above : q - i = -(1 / 2) := by linarith
  have below : q - j = 1 / 2 := by linarith
  have away := h.away (by rw [above, abs_neg, abs_of_pos one_half_pos])
  have away' := h'.away (by rw [below, abs_of_pos one_half_pos])
  have i_eq : (i : ℚ) = q + 1 / 2 := by linarith
  have j_eq : (j : ℚ) = q - 1 / 2 := by linarith
  rw [i_eq, ← sq_lt_sq] at away
  rw [j_eq, ← sq_lt_sq] at away'
  -- so the number lies within a quarter of zero, and neither is an integer
  have positive : (0 : ℚ) < i := by nlinarith
  have small : (i : ℚ) < 1 := by nlinarith
  have : 0 < i := by exact_mod_cast positive
  have : i < 1 := by exact_mod_cast small
  omega

theorem unique (h : RoundsTo q i) (h' : RoundsTo q j) : i = j :=
  le_antisymm (h.le_of_both h') (h'.le_of_both h)

end RoundsTo

namespace Binary64

theorem roundsTo_quotient {unit : Nat} (pos : 0 < unit) (m : Nat) :
    RoundsTo ((m : ℚ) / unit) ((2 * m + unit) / (2 * unit) : Nat) := by
  have twice : 0 < 2 * unit := by omega
  obtain ⟨w, quotient⟩ : ∃ w, (2 * m + unit) / (2 * unit) = w := ⟨_, rfl⟩
  have least : w * (2 * unit) ≤ 2 * m + unit := (Nat.le_div_iff_mul_le twice).1 quotient.ge
  have most : 2 * m + unit < (w + 1) * (2 * unit) := (Nat.div_lt_iff_lt_mul twice).1 (by omega)
  have pos' : (0 : ℚ) < unit := Nat.cast_pos.2 pos
  have m_eq : (m : ℚ) = m / unit * unit := (div_mul_cancel₀ _ pos'.ne').symm
  have least : (w : ℚ) * (2 * unit) ≤ 2 * m + unit := by exact_mod_cast least
  have most : 2 * (m : ℚ) + unit < (w + 1) * (2 * unit) := by exact_mod_cast most
  rw [quotient]
  have nonneg : 0 ≤ (m : ℚ) / unit := by positivity
  generalize (m : ℚ) / unit = q at m_eq nonneg
  rw [m_eq] at least most
  have below : (w : ℚ) - 1 / 2 ≤ q := by nlinarith
  have above : q < w + 1 / 2 := by nlinarith
  constructor
  · rw [Int.cast_natCast]
    exact abs_le.2 ⟨by linarith, by linarith⟩
  · intro half
    rw [Int.cast_natCast] at half ⊢
    rw [abs_of_nonneg nonneg, abs_of_nonneg (Nat.cast_nonneg w)]
    rcases (abs_eq one_half_pos.le).1 half with upper | lower <;> linarith

/-- A float is rounded to the nearest integer, a half away from zero. -/
theorem roundsTo_round (x : Binary64) : RoundsTo x.toRat x.round := by
  have rounded := roundsTo_quotient one_pos x.magnitude
  unfold toRat units round
  cases x.negative with
  | false => simpa only [Bool.false_eq_true, if_false, Int.cast_natCast] using rounded
  | true => simpa only [if_true, Int.cast_neg, Int.cast_natCast, neg_div] using rounded.neg

theorem exists_toRat_two_pow {k : Nat} (few : k ≤ 1023) : ∃ x : Binary64, x.toRat = (2 ^ k : Int) := by
  obtain ⟨places, count, unit⟩ := one_eq
  obtain ⟨x, found⟩ : ∃ x, ofFields? false (2 ^ 52) (places + k - 52) = some x :=
    exists_ofFields? (by decide) (.inl le_rfl) (by omega)
  obtain ⟨sign, magnitude⟩ := of_ofFields? found
  have exponents : 52 + (places + k - 52) = k + places := by omega
  refine ⟨x, (toRat_eq_intCast_iff x _).2 ?_⟩
  rw [units, sign, magnitude, unit, ← pow_add, exponents, pow_add, Nat.cast_mul, Nat.cast_pow, Nat.cast_ofNat]
  rfl

/-- A float that is great enough has no fractional part. -/
theorem exists_toRat_eq_intCast {x : Binary64} (great : ((2 ^ 52 : Int) : ℚ) ≤ x.toRat) :
    ∃ j : Int, x.toRat = j := by
  obtain ⟨places, -, unit⟩ := one_eq
  rcases magnitude_on_grid x places with ⟨k, e⟩ | ⟨-, below⟩
  · rw [← unit] at e
    refine ⟨if x.negative then -(k : Int) else k, (toRat_eq_intCast_iff x _).2 ?_⟩
    rw [units, e, ite_mul, neg_mul, Nat.cast_mul]
  · rw [← unit] at below
    have pos : (0 : ℚ) < one := Nat.cast_pos.2 one_pos
    rw [toRat, le_div_iff₀ pos, ← Int.cast_natCast, ← Int.cast_mul, Int.cast_le] at great
    have most : x.units ≤ x.magnitude := by
      rw [← natAbs_units]
      exact Int.le_natAbs
    omega

end Binary64

end StrategyForm.Decimal
