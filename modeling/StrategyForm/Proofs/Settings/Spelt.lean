import Mathlib.Data.List.Induction
import Mathlib.Data.List.TakeWhile
import Mathlib.Data.Nat.Digits.Defs
import StrategyForm.Proofs.Decimal.Rounded
import StrategyForm.Settings.Environment
import StrategyForm.Toml.Scalar

/-!
# Integers in texts

What is read of decimal digits behind a sign or none. A file's reader takes the integer that they spell or
refuses the word (`Toml.scalar?_of_spells`). The environment takes it as long as it has 64 bits with its sign
(`leaf_of_spells`); beyond that it takes a float nearest to it, or an infinity (`leaf_of_spells_beyond`).
-/

namespace StrategyForm
open Decimal

/-- All are digits, and there are some. -/
structure Digits (ds : List Char) : Prop where
  digit : ∀ c ∈ ds, c.isDigit = true
  ne_nil : ds ≠ []

/-- Decimal digits behind a sign or none, and the integer that they spell. -/
inductive Spells : List Char → Int → Prop
  | bare {ds : List Char} (digits : Digits ds) : Spells ds (Nat.ofDigitChars 10 ds 0 : Nat)
  | plus {ds : List Char} (digits : Digits ds) : Spells ('+' :: ds) (Nat.ofDigitChars 10 ds 0 : Nat)
  | minus {ds : List Char} (digits : Digits ds) : Spells ('-' :: ds) (-(Nat.ofDigitChars 10 ds 0 : Nat))

variable {c : Char} {ds cs : List Char} {i : Int} {s : String}

/-! ### Digits -/

theorem hexValue?_digit (digit : c.isDigit = true) : Text.hexValue? c = some (c.toNat - '0'.toNat) := by
  obtain ⟨least, most⟩ := Char.isDigit_iff_toNat.1 digit
  exact if_pos ⟨least, most⟩

theorem number?_digits (digit : ∀ c ∈ ds, c.isDigit = true) :
    Text.number? 10 ds = some (Nat.ofDigitChars 10 ds 0) := by
  induction ds using List.reverseRecOn with
  | nil => rfl
  | append_singleton ds c ih =>
    have before := ih fun c member => digit c (List.mem_append_left _ member)
    have last := digit c (List.mem_append_right _ (List.mem_singleton_self c))
    have below : c.toNat - '0'.toNat < 10 := by
      have most : c.toNat ≤ '0'.toNat + 9 := (Char.isDigit_iff_toNat.1 last).2
      omega
    rw [Text.number?] at before ⊢
    rw [List.foldl_concat, before, hexValue?_digit last, Nat.ofDigitChars_append, Nat.ofDigitChars_cons,
      Nat.ofDigitChars_nil, Nat.mul_comm 10]
    exact if_pos below

/-- Digits stand before all letters. -/
theorem lt_of_digit (digit : c.isDigit = true) (letter : Char) (h : 'A'.toNat ≤ letter.toNat) :
    ¬ c.val ≥ letter.val := by
  have most : c.toNat ≤ '9'.toNat := (Char.isDigit_iff_toNat.1 digit).2
  intro above
  have above : letter.toNat ≤ c.toNat := UInt32.le_iff_toNat_le.1 above
  exact absurd ((h.trans above).trans most) (by decide)

theorem toLower_digit (digit : c.isDigit = true) : c.toLower = c :=
  dif_neg fun upper => lt_of_digit digit 'A' le_rfl upper.1

theorem not_isAlpha_digit (digit : c.isDigit = true) : c.isAlpha = false := by
  refine Bool.or_eq_false_iff.2 ⟨?_, ?_⟩
  · exact decide_eq_false fun upper => lt_of_digit digit 'A' le_rfl upper.1
  · exact Bool.and_eq_false_iff.2 (.inl (decide_eq_false (lt_of_digit digit 'a' (by decide))))

theorem span_of_all {p : Char → Bool} (h : ∀ c ∈ cs, p c = true) : cs.span p = (cs, []) := by
  rw [List.span_eq_takeWhile_dropWhile, List.takeWhile_eq_self_iff.2 h, List.dropWhile_eq_nil_iff.2 h]

namespace Digits

theorem value (h : Digits ds) : Extended.value ds = Nat.ofDigitChars 10 ds 0 := by
  rw [Extended.value, number?_digits h.digit, Option.getD_some]

theorem iff_check : Digits ds ↔ (ds.isEmpty || !ds.all Char.isDigit) = false := by
  rw [Bool.or_eq_false_iff, List.isEmpty_eq_false_iff, Bool.not_eq_false', List.all_eq_true]
  exact ⟨fun h => ⟨h.ne_nil, h.digit⟩, fun h => ⟨h.2, h.1⟩⟩

theorem ne_of_mem (h : Digits ds) (member : c ∈ ds) {d : Char} (other : d.isDigit = false) : c ≠ d := by
  rintro rfl
  exact Bool.false_ne_true (other.symm.trans (h.digit c member))

theorem parted (h : Digits ds) : Toml.parted? Char.isDigit ds = some ds := by
  obtain ⟨digit, some⟩ := h
  fun_induction Toml.parted? Char.isDigit ds with
  | case1 => exact absurd rfl some
  | case2 => rfl
  | case3 c none => exact absurd (digit c List.mem_cons_self) none
  | case4 c rest => exact absurd (digit '_' (List.mem_cons_of_mem _ List.mem_cons_self)) (by decide)
  | case5 c rest none => exact absurd (digit c List.mem_cons_self) none
  | case6 c rest single parted first ih =>
    rw [ih (fun c member => digit c (List.mem_cons_of_mem _ member)) single]
    rfl
  | case7 c rest single parted none => exact absurd (digit c List.mem_cons_self) none

end Digits

/-! ### Signs -/

/-- Every reader takes a sign off in this way. -/
theorem signed_eq (cs : List Char) : Toml.signed cs =
    match cs with
    | '-' :: rest => (true, rest)
    | '+' :: rest => (false, rest)
    | cs => (false, cs) := by
  unfold Toml.signed
  cases cs with
  | nil => rfl
  | cons c rest =>
    by_cases minus : c = '-'
    · subst minus
      rfl
    · by_cases plus : c = '+'
      · subst plus
        rfl
      · simp [minus, plus]

/-- Spelt integers are digits, once a sign is taken off. -/
theorem spells_iff : Spells cs i ↔ ∃ negative ds, Digits ds ∧ Toml.signed cs = (negative, ds) ∧
    i = if negative then -(Extended.value ds : Int) else Extended.value ds := by
  constructor
  · intro h
    cases h with
    | bare digits =>
      refine ⟨false, cs, digits, ?_, by rw [digits.value]; rfl⟩
      unfold Toml.signed
      split
      · exact absurd (digits.digit _ List.mem_cons_self) (by decide)
      · exact absurd (digits.digit _ List.mem_cons_self) (by decide)
      · rfl
    | plus digits => exact ⟨false, _, digits, rfl, by rw [digits.value]; rfl⟩
    | minus digits => exact ⟨true, _, digits, rfl, by rw [digits.value]; rfl⟩
  · rintro ⟨negative, ds, digits, taken, rfl⟩
    rw [digits.value]
    unfold Toml.signed at taken
    split at taken
    all_goals obtain ⟨rfl, rfl⟩ := Prod.mk.inj taken
    · exact .minus digits
    · exact .plus digits
    · exact .bare digits

namespace Spells

theorem mem (h : Spells cs i) (member : c ∈ cs) : c.isDigit = true ∨ c = '+' ∨ c = '-' := by
  cases h with
  | bare digits => exact .inl (digits.digit c member)
  | plus digits =>
    rcases List.mem_cons.1 member with rfl | member
    · exact .inr (.inl rfl)
    · exact .inl (digits.digit c member)
  | minus digits =>
    rcases List.mem_cons.1 member with rfl | member
    · exact .inr (.inr rfl)
    · exact .inl (digits.digit c member)

theorem ne_of_mem (h : Spells cs i) (member : c ∈ cs) {d : Char}
    (other : d.isDigit = false ∧ d ≠ '+' ∧ d ≠ '-') : c ≠ d := by
  rintro rfl
  rcases h.mem member with digit | sign | sign
  · exact Bool.false_ne_true (other.1.symm.trans digit)
  · exact other.2.1 sign
  · exact other.2.2 sign

theorem nonneg (h : Spells cs i) (unsigned : ¬ ['-'] <+: cs) : 0 ≤ i := by
  cases h with
  | bare | plus => exact Int.natCast_nonneg _
  | minus => exact absurd (List.prefix_append ..) unsigned

/-- What begins with a letter spells no integer, whatever case the letter is in. -/
theorem fold_ne (h : Spells s.toList i) (word : String) (letter : word.toList.head?.any Char.isAlpha = true) :
    Text.fold s ≠ word := by
  rintro rfl
  rw [Text.fold, String.toList_ofList, List.head?_map] at letter
  cases first : s.toList.head? with
  | none =>
    rw [first] at letter
    cases letter
  | some c =>
    rw [first, Option.map_some, Option.any_some] at letter
    rcases h.mem (List.mem_of_mem_head? first) with digit | rfl | rfl
    · rw [Text.foldChar, if_neg (by rintro rfl; cases digit), toLower_digit digit, not_isAlpha_digit digit] at letter
      cases letter
    · cases letter
    · cases letter

end Spells

theorem integer?_eq_some_iff : SettingTree.integer? s = some i ↔ Spells s.toList i := by
  have parts : SettingTree.integer? s =
      if (Toml.signed s.toList).2.isEmpty || !(Toml.signed s.toList).2.all Char.isDigit then none
      else some (if (Toml.signed s.toList).1 then -(Extended.value (Toml.signed s.toList).2 : Int)
        else Extended.value (Toml.signed s.toList).2) := by
    rw [signed_eq]
    rfl
  rw [parts, spells_iff]
  generalize Toml.signed s.toList = taken
  obtain ⟨negative, ds⟩ := taken
  cases check : ds.isEmpty || !ds.all Char.isDigit with
  | false => simp [Digits.iff_check.2 check, eq_comm]
  | true =>
    have none : ¬ Digits ds := fun digits => Bool.false_ne_true ((Digits.iff_check.1 digits).symm.trans check)
    simp [none]

/-! ### Floats -/

namespace Decimal.Extended

/-- The float nearest to an integer; from `2 ^ 64` on that may be an infinity. -/
def IsNearest : Extended → Int → Prop
  | finite x, i => x.IsNearest i
  | infinite true, i => i ≤ -2 ^ 64
  | infinite false, i => 2 ^ 64 ≤ i
  | nan, _ => False

theorem unsigned?_digits (digits : Digits ds) (negative : Bool) :
    unsigned? negative ds = some (ofScientific negative (value ds) 0) := by
  have some : ds.isEmpty = false := List.isEmpty_eq_false_iff.2 digits.ne_nil
  rw [unsigned?, span_of_all digits.digit]
  simp [some]

theorem ofText?_of_spells (h : Spells s.toList i) : ∃ negative n,
    ofText? s = some (ofScientific negative n 0) ∧ i = if negative then -(n : Int) else n := by
  obtain ⟨negative, ds, digits, taken, rfl⟩ := spells_iff.1 h
  refine ⟨negative, value ds, ?_, rfl⟩
  have parts : ofText? s =
      let word := String.ofList ((Toml.signed s.toList).2.map Char.toLower)
      if word = "inf" || word = "infinity" then some (infinite (Toml.signed s.toList).1)
      else if word = "nan" then some nan
      else unsigned? (Toml.signed s.toList).1 (Toml.signed s.toList).2 := by
    rw [signed_eq]
    rfl
  have name (word : String) (letter : word.toList.head?.any Char.isAlpha = true) :
      String.ofList (ds.map Char.toLower) ≠ word := by
    rintro rfl
    obtain ⟨c, rest, rfl⟩ := List.exists_cons_of_ne_nil digits.ne_nil
    have digit := digits.digit c List.mem_cons_self
    rw [String.toList_ofList, List.map_cons, List.head?_cons, toLower_digit digit, Option.any_some,
      not_isAlpha_digit digit] at letter
    cases letter
  rw [parts, taken]
  simp [name "inf" (by decide), name "infinity" (by decide), name "nan" (by decide), unsigned?_digits digits]

theorem isNearest_ofScientific (negative : Bool) {n : Nat} (some : n ≠ 0) :
    (ofScientific negative n 0).IsNearest (if negative then -(n : Int) else n) := by
  have far (great : 2 ^ 64 ≤ n) : (infinite negative).IsNearest (if negative then -(n : Int) else n) := by
    cases negative <;> simp [IsNearest] <;> omega
  unfold ofScientific
  dsimp only
  rw [if_neg (by simp [some])]
  split
  · rename_i long
    refine far ?_
    by_contra less
    have short : (Nat.toDigits 10 n).length ≤ 20 :=
      (Nat.length_toDigits_le_iff (by decide) (by decide)).2 (by omega)
    omega
  · have ratio : Binary64.ofScientific? negative n 0 = Binary64.nearest? negative (n * Binary64.one) 1 := by
      rw [Binary64.ofScientific?, if_pos le_rfl, Binary64.ofRatio?]
      simp
    rw [ratio]
    cases found : Binary64.nearest? negative (n * Binary64.one) 1 with
    | some x => exact Binary64.isNearest_of_nearest? found
    | none =>
      refine far ?_
      by_contra less
      have small : Json.InWords (n : Int) := by
        unfold Json.InWords
        omega
      obtain ⟨x, there⟩ := Binary64.exists_nearest? negative Nat.one_pos (Binary64.lastPlace_natAbs_lt small)
      rw [Int.natAbs_natCast, found] at there
      cases there

end Decimal.Extended

/-! ### The environment -/

theorem leaf_of_spells (h : Spells s.toList i) (least : -2 ^ 63 ≤ i) (most : i < 2 ^ 63) :
    Environment.leaf s = .whole i := by
  have within : SettingTree.integer64? s = some i := by
    rw [SettingTree.integer64?, integer?_eq_some_iff.2 h, Option.filter_some]
    exact if_pos (by simp; omega)
  simp [Environment.leaf, h.fold_ne "true" (by decide), h.fold_ne "false" (by decide), within]

theorem leaf_of_spells_beyond (h : Spells s.toList i) (beyond : i < -2 ^ 63 ∨ 2 ^ 63 ≤ i) :
    ∃ x, Environment.leaf s = .real x ∧ x.IsNearest i := by
  have without : SettingTree.integer64? s = none := by
    rw [SettingTree.integer64?, integer?_eq_some_iff.2 h, Option.filter_some]
    exact if_neg (by simp; omega)
  obtain ⟨negative, n, read, e⟩ := Extended.ofText?_of_spells h
  have some : n ≠ 0 := by
    rintro rfl
    cases negative <;> simp at e <;> omega
  refine ⟨_, ?_, e ▸ Extended.isNearest_ofScientific negative some⟩
  simp [Environment.leaf, h.fold_ne "true" (by decide), h.fold_ne "false" (by decide), without,
    read]

/-! ### A file -/

namespace Toml

theorem integer?_of_spells (h : Spells cs i) {j : Int} (read : integer? cs = some j) : j = i := by
  obtain ⟨negative, ds, digits, taken, rfl⟩ := spells_iff.1 h
  unfold integer? at read
  dsimp only at read
  split at read
  · exact absurd rfl (h.ne_of_mem (List.mem_cons_of_mem _ List.mem_cons_self) (d := 'x') (by decide))
  · exact absurd rfl (h.ne_of_mem (List.mem_cons_of_mem _ List.mem_cons_self) (d := 'o') (by decide))
  · exact absurd rfl (h.ne_of_mem (List.mem_cons_of_mem _ List.mem_cons_self) (d := 'b') (by decide))
  · rw [taken] at read
    obtain ⟨n, lifted, rfl⟩ := Option.map_eq_some_iff.1 read
    obtain ⟨m, decimal, e⟩ := Option.bind_eq_some_iff.1 lifted
    obtain rfl := Option.some.inj e
    simp only [decimal?, digits.parted, Option.bind_eq_bind, Option.bind_some] at decimal
    split at decimal
    · cases decimal
    · obtain rfl := Option.some.inj decimal
      rfl

theorem real?_of_spells (h : Spells cs i) : real? cs = none := by
  obtain ⟨negative, ds, digits, taken, rfl⟩ := spells_iff.1 h
  have inf : ds ≠ ['i', 'n', 'f'] := by
    rintro rfl
    exact absurd (digits.digit 'i' List.mem_cons_self) (by decide)
  have nan : ds ≠ ['n', 'a', 'n'] := by
    rintro rfl
    exact absurd (digits.digit 'n' List.mem_cons_self) (by decide)
  have mantissa : ds.span (!isExponentMark ·) = (ds, []) := by
    refine span_of_all fun c member => ?_
    simp [isExponentMark, digits.ne_of_mem member (d := 'e') (by decide),
      digits.ne_of_mem member (d := 'E') (by decide)]
  have whole : ds.span (· ≠ '.') = (ds, []) := by
    refine span_of_all fun c member => ?_
    simp [digits.ne_of_mem member (d := '.') (by decide)]
  simp only [real?, taken, if_neg inf, if_neg nan, mantissa, whole]
  rfl

theorem splitOn_eq_singleton {d : Char} (h : ∀ c ∈ cs, c ≠ d) : cs.splitOn d = [cs] :=
  List.splitOnP_eq_singleton fun c member => beq_eq_false_iff_ne.2 (h c member)

theorem isDate_of_spells (h : Spells cs i) : isDate (cs.take 10) = false := by
  have few : ((cs.take 10).splitOn '-').length ≤ 2 := by
    cases h with
    | bare digits =>
      rw [splitOn_eq_singleton fun c member => digits.ne_of_mem (List.mem_of_mem_take member) (by decide)]
      exact Nat.le_succ 1
    | plus digits =>
      rw [splitOn_eq_singleton fun c member => ?_]
      · exact Nat.le_succ 1
      · rcases List.mem_cons.1 (List.mem_of_mem_take member) with rfl | member
        · decide
        · exact digits.ne_of_mem member (by decide)
    | minus digits =>
      rw [List.take_succ_cons, List.splitOn, List.splitOnP_cons_eq_if_modifyHead, if_pos (beq_self_eq_true _)]
      have rest : (List.take 9 _).splitOn '-' = [_] := splitOn_eq_singleton fun c member =>
        digits.ne_of_mem (List.mem_of_mem_take member) (by decide)
      rw [List.splitOn] at rest
      rw [rest]
      exact le_rfl
  unfold isDate
  split
  · rename_i parts
    rw [parts] at few
    exact absurd few (Nat.lt_irrefl 2)
  · rfl

theorem moment?_of_spells (h : Spells cs i) : moment? cs = none := by
  have clock : cs.span (· ≠ '.') = (cs, []) := by
    refine span_of_all fun c member => ?_
    simp [h.ne_of_mem member (d := '.') (by decide)]
  have parts : cs.splitOn ':' = [cs] := splitOn_eq_singleton fun c member => h.ne_of_mem member (by decide)
  rw [moment?, isDate_of_spells h, if_neg Bool.false_ne_true, time?, clock]
  simp [parts]

/-- A file's reader takes such a word as the integer that it spells, if that has 64 bits with its sign, or not. -/
theorem scalar?_of_spells (h : Spells cs i) {t : SettingTree} (read : scalar? cs = some t) :
    t = .whole i ∧ -2 ^ 63 ≤ i ∧ i < 2 ^ 63 := by
  have yes : cs ≠ ['t', 'r', 'u', 'e'] := by
    rintro rfl
    exact absurd rfl (h.ne_of_mem List.mem_cons_self (d := 't') (by decide))
  have no : cs ≠ ['f', 'a', 'l', 's', 'e'] := by
    rintro rfl
    exact absurd rfl (h.ne_of_mem List.mem_cons_self (d := 'f') (by decide))
  rw [scalar?, if_neg yes, if_neg no, real?_of_spells h, moment?_of_spells h] at read
  split at read
  · rename_i j found
    rw [integer?_of_spells h found] at read
    split at read
    · rename_i within
      exact ⟨(Option.some.inj read).symm, within⟩
    · cases read
  · cases read

end Toml

end StrategyForm
