import StrategyForm.Proofs.Settings.Given
import StrategyForm.Proofs.Settings.Spelt

/-!
# Settings that are numbers

Main statement (`load_number`): a number that is given for a setting is the loaded setting, or nothing is loaded
since the setting cannot hold it. It is the integer that is spelt in the file or the environment; a float is first
rounded to the nearest integer and put between `0` and `2 ^ 64 - 1`. An integer of the environment that does not
fit into 64 bits with its sign is such a float.
-/

namespace StrategyForm
open Decimal

/-! ### The number that a tree stands for -/

namespace SettingTree

def whole? : SettingTree → Option Int
  | whole i => some i
  | _ => none

theorem eq_of_whole? {t : SettingTree} {i : Int} (h : t.whole? = some i) : t = whole i := by
  unfold whole? at h
  split at h
  · rw [Option.some.inj h]
  · cases h

def finite? : SettingTree → Option Binary64
  | real (.finite x) => some x
  | _ => none

theorem eq_of_finite? {t : SettingTree} {x : Binary64} (h : t.finite? = some x) : t = real (.finite x) := by
  unfold finite? at h
  split at h
  · rw [Option.some.inj h]
  · cases h

end SettingTree

/-- The number that a tree stands for where a number is wanted. -/
inductive Amount : SettingTree → Int → Prop
  | whole (i : Int) : Amount (.whole i) i
  | spelt {s : String} {i : Int} (spells : Spells s.toList i) (unsigned : ¬ ['-'] <+: s.toList) : Amount (.text s) i
  | yes {s : String} (word : Text.fold s ∈ ["true", "on", "yes"]) : Amount (.text s) 1
  | no {s : String} (word : Text.fold s ∈ ["false", "off", "no"]) : Amount (.text s) 0
  | flag (b : Bool) : Amount (.flag b) b.toNat
  | rounded {x : Binary64} {i : Int} (rounds : RoundsTo x.toRat i) :
    Amount (.real (.finite x)) (max 0 (min i (2 ^ 64 - 1)))
  | beyond (negative : Bool) : Amount (.real (.infinite negative)) (if negative then 0 else 2 ^ 64 - 1)
  | noNumber : Amount (.real .nan) 0

namespace Amount
variable {t : SettingTree} {i : Int} {n : Nat} {s : String}

/-- A text that spells an integer says neither yes nor no. -/
theorem not_said (h : Spells s.toList i) :
    Text.fold s ∉ ["true", "on", "yes"] ∧ Text.fold s ∉ ["false", "off", "no"] := by
  simp [h.fold_ne "true" (by decide), h.fold_ne "on" (by decide), h.fold_ne "yes" (by decide),
    h.fold_ne "false" (by decide), h.fold_ne "off" (by decide), h.fold_ne "no" (by decide)]

theorem numberOfText?_eq (s : String) : SettingTree.numberOfText? s =
    if Text.fold s ∈ ["true", "on", "yes"] then some 1
    else if Text.fold s ∈ ["false", "off", "no"] then some 0
    else if ['-'] <+: s.toList then none
    else (SettingTree.integer? s).bind fun i => if i < 2 ^ 64 then some i.toNat else none := by
  have marked : s.startsWith "-" = true ↔ ['-'] <+: s.toList := String.startsWith_string_iff
  simp only [SettingTree.numberOfText?, List.contains_iff_mem, marked]
  rfl

/-- The number is taken where it has 64 bits, and is refused or left too great where it has not. -/
theorem taken (h : Amount t i) :
    if 0 ≤ i ∧ i < 2 ^ 64 then t.asNumber? = some i.toNat else ∀ n, t.asNumber? = some n → 2 ^ 64 ≤ n := by
  cases h with
  | whole i =>
    rw [SettingTree.asNumber?]
    split
    · rename_i within
      rw [if_pos within.1]
    · intro n taken
      split at taken
      · obtain rfl := Option.some.inj taken
        omega
      · cases taken
  | @spelt s i spells unsigned =>
    obtain ⟨notYes, notNo⟩ := not_said spells
    rw [SettingTree.asNumber?, numberOfText?_eq, if_neg notYes, if_neg notNo, if_neg unsigned,
      integer?_eq_some_iff.2 spells, Option.bind_some]
    have nonneg : 0 ≤ i := spells.nonneg unsigned
    split
    · rename_i within
      rw [if_pos within.2]
    · intro n taken
      rw [if_neg (by omega)] at taken
      cases taken
  | yes word =>
    rw [SettingTree.asNumber?, numberOfText?_eq, if_pos word, if_pos (by omega)]
    rfl
  | @no s word =>
    have apart : ∀ w ∈ ["false", "off", "no"], w ∉ ["true", "on", "yes"] := by decide
    rw [SettingTree.asNumber?, numberOfText?_eq, if_neg (apart _ word), if_pos word, if_pos (by omega)]
    rfl
  | flag b => cases b <;> simp [SettingTree.asNumber?]
  | @rounded x i rounds =>
    obtain rfl := rounds.unique x.roundsTo_round
    rw [if_pos (by omega)]
    refine congrArg some ?_
    show min _ _ = _
    omega
  | beyond negative => cases negative <;> simp [SettingTree.asNumber?, Extended.toNat64]
  | noNumber => simp [SettingTree.asNumber?, Extended.toNat64]

theorem of_asNumber? (h : t.asNumber? = some n) : ∃ i, Amount t i := by
  cases t with
  | whole i => exact ⟨i, .whole i⟩
  | flag b => exact ⟨_, .flag b⟩
  | real x =>
    cases x with
    | finite x => exact ⟨_, .rounded x.roundsTo_round⟩
    | infinite negative => exact ⟨_, .beyond negative⟩
    | nan => exact ⟨_, .noNumber⟩
  | text s =>
    rw [SettingTree.asNumber?, numberOfText?_eq] at h
    split at h
    · rename_i word
      exact ⟨1, .yes word⟩
    split at h
    · rename_i word
      exact ⟨0, .no word⟩
    split at h
    · cases h
    · rename_i unsigned
      obtain ⟨i, integer, -⟩ := Option.bind_eq_some_iff.1 h
      exact ⟨i, .spelt (integer?_eq_some_iff.1 integer) unsigned⟩
  | nothing | list | table => cases h

/-! ### Integers that are taken as floats -/

theorem of_nearest_above {x : Extended} (nearest : x.IsNearest i) (above : 2 ^ 64 ≤ i) :
    Amount (.real x) (2 ^ 64 - 1) := by
  cases x with
  | finite x =>
    obtain ⟨y, power⟩ := Binary64.exists_toRat_two_pow (k := 64) (by decide)
    have great := Binary64.IsNearest.le_of_le nearest (power.trans_le (Int.cast_le.2 above))
    have rounds := x.roundsTo_round
    have : 2 ^ 64 ≤ x.round := rounds.le_of_le (power.symm.trans_le great)
    have amount := Amount.rounded rounds
    rwa [show max 0 (min x.round (2 ^ 64 - 1)) = 2 ^ 64 - 1 by omega] at amount
  | infinite negative =>
    cases negative with
    | true => exact absurd (show i ≤ -2 ^ 64 from nearest) (by omega)
    | false => exact .beyond false
  | nan => cases nearest

theorem of_nearest_below {x : Extended} (nearest : x.IsNearest i) (below : i < -2 ^ 63) : Amount (.real x) 0 := by
  cases x with
  | finite x =>
    have power : (Binary64.ofInt (-2 ^ 63)).toRat = (-2 ^ 63 : Int) :=
      (Binary64.toRat_ofInt_iff (by decide)).2 ⟨1, 63, by decide, by decide⟩
    have small := Binary64.IsNearest.ge_of_ge nearest ((Int.cast_le.2 below.le).trans_eq power.symm)
    have rounds := x.roundsTo_round
    have : x.round ≤ -2 ^ 63 := rounds.ge_of_ge (small.trans_eq power)
    have amount := Amount.rounded rounds
    rwa [show max 0 (min x.round (2 ^ 64 - 1)) = 0 by omega] at amount
  | infinite negative =>
    cases negative with
    | true => exact .beyond true
    | false => exact absurd (show 2 ^ 64 ≤ i from nearest) (by omega)
  | nan => cases nearest

/-- An integer that needs all of 64 bits is taken as a float that is an integer nearest to it. -/
theorem of_nearest_between {x : Extended} (nearest : x.IsNearest i) (above : 2 ^ 63 ≤ i) (below : i < 2 ^ 64) :
    ∃ (y : Binary64) (j : Int), y.IsNearest i ∧ y.toRat = j ∧ Amount (.real x) (min j (2 ^ 64 - 1)) := by
  cases x with
  | finite x =>
    obtain ⟨y, power⟩ := Binary64.exists_toRat_two_pow (k := 63) (by decide)
    have great := Binary64.IsNearest.le_of_le nearest (power.trans_le (Int.cast_le.2 above))
    rw [power] at great
    obtain ⟨j, whole⟩ := Binary64.exists_toRat_eq_intCast ((Int.cast_le.2 (by decide)).trans great)
    have rounds := x.roundsTo_round
    have same := rounds.eq_of_eq whole
    have : 2 ^ 63 ≤ x.round := rounds.le_of_le great
    have amount := Amount.rounded rounds
    rw [max_eq_right (by omega), same] at amount
    exact ⟨x, j, nearest, whole, amount⟩
  | infinite negative =>
    cases negative with
    | true => exact absurd (show i ≤ -2 ^ 64 from nearest) (by omega)
    | false => exact absurd (show 2 ^ 64 ≤ i from nearest) (by omega)
  | nan => cases nearest

end Amount

namespace Setting
variable {x : Setting} {bound : Nat} {t : SettingTree} {i : Int}

/-- What the numbers of a setting stay below; a text has no such bound. -/
def bound? : Setting → Option Nat
  | timeoutSecs | retryBackoffMs | ttlSecs => some (2 ^ 64)
  | maxRetries => some (2 ^ 32)
  | baseUrl | level | format => none

/-- A word is made of the numbers that fit, and of them alone. -/
theorem toNat_word {α : Type} {most : Nat} {ofNat : Nat → α} {toNat : α → Nat}
    (inverse : ∀ n < most, toNat (ofNat n) = n) (given : Option Nat) :
    (given.bind fun n => if n < most then some (ofNat n) else none).map toNat = given.filter (· < most) := by
  cases given with
  | none => rfl
  | some n =>
    rw [Option.bind_some, Option.filter_some]
    by_cases fits : n < most
    · rw [if_pos fits, if_pos (decide_eq_true fits), Option.map_some, inverse n fits]
    · rw [if_neg fits, if_neg (by simpa using fits), Option.map_none]

theorem read_of_bound? (number : x.bound? = some bound) (t : SettingTree) :
    x.read t = (t.asNumber?.filter (· < bound)).map fun n => .whole n := by
  cases x with
  | timeoutSecs | retryBackoffMs | ttlSecs =>
    obtain rfl := Option.some.inj number
    have inverse : ∀ n < 2 ^ 64, (UInt64.ofNat n).toNat = n := fun n fits => UInt64.toNat_ofNat_of_lt' fits
    rw [← toNat_word inverse, Option.map_map]
    rfl
  | maxRetries =>
    obtain rfl := Option.some.inj number
    have inverse : ∀ n < 2 ^ 32, (UInt32.ofNat n).toNat = n := fun n fits => UInt32.toNat_ofNat_of_lt' fits
    rw [← toNat_word inverse, Option.map_map]
    rfl
  | baseUrl | level | format => cases number

theorem bound_le (number : x.bound? = some bound) : bound ≤ 2 ^ 64 := by
  cases x <;> cases number <;> decide

theorem read_of_amount (number : x.bound? = some bound) (amount : Amount t i) :
    x.read t = if 0 ≤ i ∧ i < bound then some (.whole i) else none := by
  have most := bound_le number
  have taken := amount.taken
  rw [read_of_bound? number]
  split at taken
  · rename_i within
    have same : (i.toNat : Int) = i := Int.toNat_of_nonneg within.1
    rw [taken, Option.filter_some]
    by_cases fits : i.toNat < bound
    · rw [if_pos (decide_eq_true fits), if_pos ⟨within.1, by omega⟩, Option.map_some, same]
    · rw [if_neg (by simpa using fits), if_neg (by omega), Option.map_none]
  · rename_i beyond
    rw [if_neg (by omega)]
    cases found : t.asNumber? with
    | none => rfl
    | some n =>
      have great := taken n found
      rw [Option.filter_some, if_neg (by simp; omega), Option.map_none]

/-- Settings that are loaded have the number; none are loaded that cannot hold it. -/
def HeldOrRefused (x : Setting) (bound : Nat) (loaded : Except LoadFault Settings) (i : Int) : Prop :=
  if 0 ≤ i ∧ i < bound then ∀ s, loaded = .ok s → x.value s = .whole i else loaded = .error .misshapen

end Setting

namespace Settings
open Setting
variable {folder : Folder} {path : Option String} {env : Environment} {file : List (String × SettingTree)}

theorem layered_of_load (read : consulted folder path = .ok file) {s : Settings}
    (loaded : load folder path env = .ok s) : ofLayers? file env = some s := by
  obtain ⟨file', read', layered⟩ := load_eq_ok loaded
  obtain rfl := Except.ok.inj (read'.symm.trans read)
  exact layered

section
variable {x : Setting} {bound : Nat} {t : SettingTree} {i : Int} (read : consulted folder path = .ok file)
  (given : x.given? file env = some t)
include read given

theorem refused_of_read (none : x.read t = none) : load folder path env = .error .misshapen := by
  rw [load_eq, read, Except.bind]
  cases layered : ofLayers? file env with
  | none => rfl
  | some s =>
    have taken := taken_given layered x
    rw [given] at taken
    cases none.symm.trans taken

theorem heldOrRefused_of_amount (number : x.bound? = some bound) (amount : Amount t i) :
    x.HeldOrRefused bound (load folder path env) i := by
  have reads := read_of_amount number amount
  unfold HeldOrRefused
  by_cases within : 0 ≤ i ∧ i < bound
  · rw [if_pos within] at reads ⊢
    intro s loaded
    have taken := taken_given (layered_of_load read loaded) x
    rw [given] at taken
    exact Option.some.inj (taken.symm.trans reads)
  · rw [if_neg within] at reads ⊢
    exact refused_of_read read given reads

end

/-- A number that is given for a setting is held as it is or refused; a float is rounded before that. -/
theorem load_number (read : consulted folder path = .ok file) {x : Setting} {bound : Nat}
    (number : x.bound? = some bound) :
    let loaded := load folder path env
    (x.given? file env = none → ∀ s, loaded = .ok s → x.value s = x.value {}) ∧
    (∀ t, x.given? file env = some t →
      (∀ i, Amount t i → x.HeldOrRefused bound loaded i) ∧
      ((∀ i, ¬ Amount t i) → loaded = .error .misshapen)) ∧
    (∀ word i t, Spells word i → Toml.scalar? word = some t →
      -2 ^ 63 ≤ i ∧ i < 2 ^ 63 ∧ (x.given? file env = some t → x.HeldOrRefused bound loaded i)) ∧
    (∀ v i, Spells v.toList i → x.given? file env = some (Environment.leaf v) →
      (-2 ^ 63 ≤ i → i < 2 ^ 63 → x.HeldOrRefused bound loaded i) ∧
      (2 ^ 63 ≤ i → i < 2 ^ 64 → ∃ (y : Binary64) (j : Int), y.IsNearest i ∧ y.toRat = j ∧
        x.HeldOrRefused bound loaded (min j (2 ^ 64 - 1))) ∧
      (2 ^ 64 ≤ i → x.HeldOrRefused bound loaded (2 ^ 64 - 1)) ∧
      (i < -2 ^ 63 → x.HeldOrRefused bound loaded 0)) := by
  intro loaded
  refine ⟨fun absent s ok => ?_,
    fun t given => ⟨fun i => heldOrRefused_of_amount read given number, fun none => ?_⟩,
    fun word i t spells scalar => ?_,
    fun v i spells given =>
      ⟨fun least most => ?_, fun above below => ?_, fun above => ?_, fun below => ?_⟩⟩
  · have taken := taken_given (layered_of_load read ok) x
    rwa [absent] at taken
  · refine refused_of_read read given ?_
    rw [read_of_bound? number]
    cases found : t.asNumber? with
    | none => rfl
    | some n =>
      obtain ⟨i, amount⟩ := Amount.of_asNumber? found
      exact absurd amount (none i)
  · obtain ⟨rfl, least, most⟩ := Toml.scalar?_of_spells spells scalar
    exact ⟨least, most, fun given => heldOrRefused_of_amount read given number (.whole i)⟩
  · rw [leaf_of_spells spells least most] at given
    exact heldOrRefused_of_amount read given number (.whole i)
  · obtain ⟨z, leaf, nearest⟩ := leaf_of_spells_beyond spells (.inr above)
    obtain ⟨y, j, near, whole, amount⟩ := Amount.of_nearest_between nearest above below
    exact ⟨y, j, near, whole, heldOrRefused_of_amount read (leaf ▸ given) number amount⟩
  · obtain ⟨z, leaf, nearest⟩ := leaf_of_spells_beyond spells (.inr (by omega))
    exact heldOrRefused_of_amount read (leaf ▸ given) number (Amount.of_nearest_above nearest above)
  · obtain ⟨z, leaf, nearest⟩ := leaf_of_spells_beyond spells (.inl below)
    exact heldOrRefused_of_amount read (leaf ▸ given) number (Amount.of_nearest_below nearest below)

theorem consulted_of_any {p : List (String × SettingTree) → Bool}
    (check : (consulted folder path).toOption.any p = true) :
    ∃ file, consulted folder path = .ok file ∧ p file = true := by
  cases read : consulted folder path with
  | error fault =>
    rw [read] at check
    cases check
  | ok file =>
    rw [read] at check
    exact ⟨file, rfl, check⟩

theorem load_number_at_limit :
    let greatest : Folder := ⟨[(usualPath, "[api]\nmax_retries = 4294967295\n")]⟩
    let beyond : Folder := ⟨[(usualPath, "[api]\nmax_retries = 4294967296\n")]⟩
    (∃ file s, consulted greatest none = .ok file ∧ load greatest none [] = .ok s ∧
      maxRetries.value s = .whole 4294967295) ∧
    (∃ file, consulted beyond none = .ok file ∧ load beyond none [] = .error .misshapen) ∧
    maxRetries.bound? = some (2 ^ 32) := by
  intro greatest beyond
  have number : maxRetries.bound? = some (2 ^ 32) := rfl
  have given (folder : Folder) (i : Int) (check : ((consulted folder none).toOption.any fun file =>
      (maxRetries.given? file []).bind SettingTree.whole? = some i) = true) :
      ∃ file, consulted folder none = .ok file ∧ maxRetries.given? file [] = some (.whole i) := by
    obtain ⟨file, read, check⟩ := consulted_of_any check
    obtain ⟨t, there, whole⟩ := Option.bind_eq_some_iff.1 (of_decide_eq_true check)
    exact ⟨file, read, SettingTree.eq_of_whole? whole ▸ there⟩
  refine ⟨?_, ?_, number⟩
  · obtain ⟨file, read, there⟩ := given greatest 4294967295 (by decide +kernel)
    have loaded : load greatest none [] = .ok { api := { maxRetries := 4294967295 } } := by decide +kernel
    have held := ((load_number read number).2.1 _ there).1 _ (.whole _)
    rw [HeldOrRefused, if_pos (by decide)] at held
    exact ⟨file, _, read, loaded, held _ loaded⟩
  · obtain ⟨file, read, there⟩ := given beyond 4294967296 (by decide +kernel)
    have refused := ((load_number read number).2.1 _ there).1 _ (.whole _)
    rw [HeldOrRefused, if_neg (by decide)] at refused
    exact ⟨file, read, refused⟩

/-- A number with a fraction is rounded in a file, and a great integer of the environment is changed. -/
theorem numbers_rounded :
    let folder : Folder := ⟨[(usualPath, "[api]\ntimeout_secs = 2.5\n")]⟩
    let env : Environment := [("SDUI__API__TIMEOUT_SECS", "9223372036854775809")]
    (∃ file x, consulted folder none = .ok file ∧ timeoutSecs.given? file [] = some (.real (.finite x)) ∧
      x.toRat = 5 / 2) ∧
    load folder none [] = .ok { api := { timeoutSecs := 3 } } ∧
    Spells "9223372036854775809".toList 9223372036854775809 ∧
    load ⟨[]⟩ none env = .ok { api := { timeoutSecs := 9223372036854775808 } } := by
  intro folder env
  refine ⟨?_, by decide +kernel, integer?_eq_some_iff.1 (by decide +kernel), by decide +kernel⟩
  have check : ((consulted folder none).toOption.any fun file =>
      ((timeoutSecs.given? file []).bind SettingTree.finite?).any fun x =>
        2 * x.units = 5 * (Binary64.one : Int)) = true := by
    decide +kernel
  obtain ⟨file, read, check⟩ := consulted_of_any check
  obtain ⟨x, finite, check⟩ := (Option.any_eq_true _ _).1 check
  obtain ⟨t, there, finite⟩ := Option.bind_eq_some_iff.1 finite
  refine ⟨file, x, read, SettingTree.eq_of_finite? finite ▸ there, ?_⟩
  have pos : (Binary64.one : ℚ) ≠ 0 := Nat.cast_ne_zero.2 Binary64.one_pos.ne'
  have units : 2 * x.units = 5 * Binary64.one := of_decide_eq_true check
  rw [Binary64.toRat, div_eq_div_iff pos two_ne_zero, mul_comm]
  exact_mod_cast units

end Settings
end StrategyForm
