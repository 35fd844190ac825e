import Mathlib.Tactic.Tauto
import StrategyForm.Form.Condition
import StrategyForm.Proofs.Decimal.Nearest

/-!
# Equality in conditions

What equality of values (`Condition.sameValue`) is, told by the exact numbers. A reading of a value puts
something in the place of each number in it: its exact value (`Json.Number.toRat`), or whether it is an
integer (`Json.Number.isInt`).

Inside an array or an object the numbers have to agree in both (`sameParts_iff`). Two numbers that are
compared by themselves only have to agree as floats, so that integers with more than 53 significant bits
are taken for their neighbours.
-/

namespace StrategyForm
open Decimal

/-- A JSON value, with something in the place of each number. -/
inductive Json.Reading (ν : Type) where
  | null
  | bool (value : Bool)
  | number (value : ν)
  | string (value : String)
  | array (items : List (Reading ν))
  | object (members : List (String × Reading ν))

namespace Json
variable {ν : Type}

mutual
/-- The value with each number read by `f`. -/
def reading (f : Number → ν) : Json → Reading ν
  | .null => .null
  | .bool b => .bool b
  | .number n => .number (f n)
  | .string s => .string s
  | .array items => .array (readItems f items)
  | .object members => .object (readMembers f members)

def readItems (f : Number → ν) : List Json → List (Reading ν)
  | [] => []
  | a :: as => reading f a :: readItems f as

def readMembers (f : Number → ν) : List (String × Json) → List (String × Reading ν)
  | [] => []
  | (k, a) :: as => (k, reading f a) :: readMembers f as
end

namespace Number

/-- The exact value. -/
def toRat : Number → ℚ
  | .int i _ => i
  | .float x => x.toRat

def isInt : Number → Bool
  | .int .. => true
  | .float _ => false

/-- A float has the same value. -/
def IsExact : Number → Prop
  | .int i _ => Binary64.FitsSignificand i
  | .float _ => True

theorem toBinary64_isNearest (n : Number) : n.toBinary64.IsNearest n.toRat := by
  cases n with
  | int i h => exact Binary64.ofInt_isNearest h
  | float x => exact Binary64.isNearest_toRat x

theorem toRat_toBinary64_iff (n : Number) : n.toBinary64.toRat = n.toRat ↔ n.IsExact := by
  cases n with
  | int i h => exact Binary64.toRat_ofInt_iff h
  | float x => exact iff_of_true rfl trivial

/-- Numbers of one value are one float: if either is a float already, it is the other's nearest. -/
theorem toBinary64_eq_of_toRat_eq {m n : Number} (e : m.toRat = n.toRat) :
    m.toBinary64.toRat = n.toBinary64.toRat := by
  cases m with
  | float x => exact (n.toBinary64_isNearest.eq_of_eq e).symm ▸ e
  | int i h =>
    cases n with
    | float y => exact ((Number.int i h).toBinary64_isNearest.eq_of_eq e.symm).trans e
    | int j k =>
      obtain rfl : i = j := Int.cast_inj.1 e
      rfl

end Number
end Json

namespace Condition
open Json (Number)

theorem sameNumber_iff (m n : Number) : sameNumber m n = true ↔ m.isInt = n.isInt ∧ m.toRat = n.toRat := by
  cases m <;> cases n <;> simp [sameNumber, Number.isInt, Number.toRat, Binary64.sameValue_iff]

mutual
theorem sameParts_iff (a b : Json) : sameParts a b = true ↔
    a.reading Number.isInt = b.reading Number.isInt ∧ a.reading Number.toRat = b.reading Number.toRat := by
  cases a <;> cases b <;>
    simp [sameParts, Json.reading, sameNumber_iff, sameItems_iff, sameMembers_iff]

theorem sameItems_iff (as bs : List Json) : sameItems as bs = true ↔
    Json.readItems Number.isInt as = Json.readItems Number.isInt bs ∧
      Json.readItems Number.toRat as = Json.readItems Number.toRat bs := by
  match as, bs with
  | [], [] => simp [sameItems]
  | [], _ :: _ => simp [sameItems, Json.readItems]
  | _ :: _, [] => simp [sameItems, Json.readItems]
  | a :: as, b :: bs =>
    simp only [sameItems, Json.readItems, Bool.and_eq_true, List.cons.injEq, sameParts_iff a b, sameItems_iff as bs]
    tauto

theorem sameMembers_iff (as bs : List (String × Json)) : sameMembers as bs = true ↔
    Json.readMembers Number.isInt as = Json.readMembers Number.isInt bs ∧
      Json.readMembers Number.toRat as = Json.readMembers Number.toRat bs := by
  match as, bs with
  | [], [] => simp [sameMembers]
  | [], _ :: _ => simp [sameMembers, Json.readMembers]
  | _ :: _, [] => simp [sameMembers, Json.readMembers]
  | (j, a) :: as, (k, b) :: bs =>
    simp only [sameMembers, Json.readMembers, Bool.and_eq_true, decide_eq_true_eq, List.cons.injEq, Prod.mk.injEq,
      sameParts_iff a b, sameMembers_iff as bs]
    tauto
end

theorem sameValue_number (m n : Number) :
    sameValue (.number m) (.number n) = true ↔ m.toBinary64.toRat = n.toBinary64.toRat :=
  Binary64.sameValue_iff _ _

/-- The parts of two numbers agree only if the floats do. -/
theorem sameValue_of_sameParts {a b : Json} (h : sameParts a b = true) : sameValue a b = true := by
  cases a with
  | number m =>
    cases b with
    | number n =>
      rw [sameValue_number]
      exact Number.toBinary64_eq_of_toRat_eq ((sameNumber_iff m n).1 h).2
    | _ => exact h
  | _ => exact h

theorem sameValue_iff (a b : Json) : sameValue a b = true ↔
    (∃ m n, a = .number m ∧ b = .number n ∧ m.toBinary64.toRat = n.toBinary64.toRat) ∨ sameParts a b = true := by
  constructor
  · intro h
    cases a with
    | number m =>
      cases b with
      | number n => exact .inl ⟨m, n, rfl, rfl, (sameValue_number m n).1 h⟩
      | _ => exact .inr h
    | _ => exact .inr h
  · rintro (⟨m, n, rfl, rfl, e⟩ | h)
    · exact (sameValue_number m n).2 e
    · exact sameValue_of_sameParts h

/-- Two numbers that are floats by value, or two values with integers in the same places. -/
def Comparable : Json → Json → Prop
  | .number m, .number n => m.IsExact ∧ n.IsExact
  | a, b => a.reading Number.isInt = b.reading Number.isInt

/-- Two numbers are equal if the floats nearest to them are. Other values are equal if their exact readings
are and integers stand in the same places. So equality is that of the exact readings if no number that is
compared by itself has to be rounded, and inside of values integers only meet integers. -/
theorem compared_by_float_or_part (a b : Json) :
    (sameValue a b = true ↔
      (∃ m n, a = .number m ∧ b = .number n ∧ m.toBinary64.toRat = n.toBinary64.toRat) ∨
        a.reading Number.isInt = b.reading Number.isInt ∧ a.reading Number.toRat = b.reading Number.toRat) ∧
      (Comparable a b → (sameValue a b = true ↔ a.reading Number.toRat = b.reading Number.toRat)) := by
  refine ⟨by rw [sameValue_iff, sameParts_iff], ?_⟩
  intro comparable
  by_cases numbers : ∃ m n, a = .number m ∧ b = .number n
  · obtain ⟨m, n, rfl, rfl⟩ := numbers
    obtain ⟨exact_m, exact_n⟩ := comparable
    rw [sameValue_number, (Number.toRat_toBinary64_iff m).2 exact_m, (Number.toRat_toBinary64_iff n).2 exact_n,
      Json.reading, Json.reading, Json.Reading.number.injEq]
  · have kinds : a.reading Number.isInt = b.reading Number.isInt := by
      unfold Comparable at comparable
      split at comparable
      · rename_i m n
        exact absurd ⟨m, n, rfl, rfl⟩ numbers
      · exact comparable
    rw [sameValue_iff, sameParts_iff, or_iff_right, and_iff_right kinds]
    rintro ⟨m, n, em, en, -⟩
    exact numbers ⟨m, n, em, en⟩

/-- Two lists of integers are equal exactly if their values are, neighbours above `2 ^ 53` included. -/
theorem neighbours_told_apart_in_lists :
    Comparable (.array [.ofInt 9007199254740993]) (.array [.ofInt 9007199254740992]) ∧
      sameValue (.array [.ofInt 9007199254740993]) (.array [.ofInt 9007199254740992]) = false := by
  have comparable : Comparable (.array [.ofInt 9007199254740993]) (.array [.ofInt 9007199254740992]) := rfl
  refine ⟨comparable, ?_⟩
  rw [← Bool.not_eq_true, (compared_by_float_or_part _ _).2 comparable]
  simp [Json.reading, Json.readItems, Json.ofInt, Number.ofInt, Json.InWords, Number.toRat]

/-- Above `2 ^ 53` two integers are one float, and in a list `2` is not `2.0`. -/
theorem different_integers_compared_equal :
    (sameValue (.ofInt 9007199254740993) (.ofInt 9007199254740992) = true ∧
      (Json.ofInt 9007199254740993).reading Number.toRat ≠ (Json.ofInt 9007199254740992).reading Number.toRat) ∧
    (sameValue (.array [.ofInt 2]) (.array [.ofFloat (.ofInt 2)]) = false ∧
      (Json.array [.ofInt 2]).reading Number.toRat = (Json.array [.ofFloat (.ofInt 2)]).reading Number.toRat) := by
  have two : (Binary64.ofInt 2).toRat = (2 : Int) :=
    (Binary64.toRat_ofInt_iff (by decide)).2 (Binary64.fitsSignificand_of_natAbs_le (by decide))
  refine ⟨⟨by decide +kernel, ?_⟩, by decide +kernel, ?_⟩
  · simp [Json.reading, Json.ofInt, Number.ofInt, Json.InWords, Number.toRat]
  · simp [Json.reading, Json.readItems, Json.ofInt, Json.ofFloat, Number.ofInt, Json.InWords, Number.toRat, two]

end Condition
end StrategyForm
