import Mathlib.Data.List.Basic
import StrategyForm.Json.Writer

/-!
# Values on one line

Main statement (`Json.oneLine_compress`): the compact text of a value has no line break, whatever the texts in the
value hold, since a break in a quoted text is escaped.
-/

namespace StrategyForm
open Decimal

namespace Text

def OneLine (s : String) : Prop := '\n' ∉ s.toList

instance (s : String) : Decidable (OneLine s) := inferInstanceAs (Decidable (_ ∉ _))

namespace OneLine
variable {s t : String}

@[simp] theorem append_iff : OneLine (s ++ t) ↔ OneLine s ∧ OneLine t := by simp [OneLine]

@[simp] theorem ofList_iff {cs : List Char} : OneLine (String.ofList cs) ↔ '\n' ∉ cs := by simp [OneLine]

theorem intercalate {separator : String} (h : OneLine separator) {parts : List String}
    (all : ∀ s ∈ parts, OneLine s) : OneLine (separator.intercalate parts) := by
  induction parts with
  | nil => simp [OneLine]
  | cons s rest ih =>
    have first := all s List.mem_cons_self
    have others := ih fun t mem => all t (List.mem_cons_of_mem _ mem)
    cases rest with
    | nil => rwa [String.intercalate_singleton]
    | cons t rest =>
      rw [String.intercalate_cons_cons, append_iff, append_iff]
      exact ⟨⟨first, h⟩, others⟩

end OneLine

theorem notMem_toDigits (n : Nat) : '\n' ∉ Nat.toDigits 10 n := fun mem =>
  absurd (Nat.isDigit_of_mem_toDigits (by decide) (by decide) mem) (by decide)

theorem oneLine_nat (n : Nat) : OneLine (toString n) := by
  show OneLine n.repr
  rw [OneLine, Nat.toList_repr]
  exact notMem_toDigits n

theorem oneLine_int (i : Int) : OneLine (toString i) := by
  cases i with
  | ofNat n => exact oneLine_nat n
  | negSucc n => exact OneLine.append_iff.2 ⟨by decide, oneLine_nat (n + 1)⟩

end Text
open Text

namespace Decimal.Layout

theorem oneLine_positional {ending : String} {ds : List Char} (h : OneLine ending) (digits : '\n' ∉ ds)
    (exponent : Int) : OneLine (positional ending ds exponent) := by
  have zeros (n : Nat) : '\n' ∉ List.replicate n '0' := fun mem =>
    absurd (List.eq_of_mem_replicate mem) (by decide)
  have front (n : Nat) : OneLine (String.ofList (ds.take n)) :=
    OneLine.ofList_iff.2 fun mem => digits (List.mem_of_mem_take mem)
  have back (n : Nat) : OneLine (String.ofList (ds.drop n)) :=
    OneLine.ofList_iff.2 fun mem => digits (List.mem_of_mem_drop mem)
  unfold positional
  split
  · exact OneLine.append_iff.2 ⟨by decide, OneLine.ofList_iff.2 (List.not_mem_append (zeros _) digits)⟩
  · dsimp only
    split
    · exact OneLine.append_iff.2 ⟨OneLine.ofList_iff.2 (List.not_mem_append digits (zeros _)), h⟩
    · exact OneLine.append_iff.2 ⟨OneLine.append_iff.2 ⟨front _, by decide⟩, back _⟩

theorem oneLine_exponential {ds : List Char} (digits : '\n' ∉ ds) (exponent : Int) :
    OneLine (exponential ds exponent) := by
  have mark : OneLine (if exponent < 0 then "e-" else "e+") := by split <;> decide
  refine OneLine.append_iff.2 ⟨OneLine.append_iff.2 ⟨?_, mark⟩, oneLine_nat _⟩
  match ds with
  | [] => decide
  | [d] => exact OneLine.ofList_iff.2 digits
  | d :: e :: rest =>
    refine OneLine.ofList_iff.2 fun mem => ?_
    simp only [List.mem_cons, not_or] at mem digits
    rcases mem with first | point | second | more
    · exact digits.1 first
    · exact absurd point (by decide)
    · exact digits.2.1 second
    · exact digits.2.2 more

theorem oneLine_render {layout : Layout} (h : OneLine layout.wholeEnding) (x : Binary64) :
    OneLine (layout.render x) := by
  have digits := notMem_toDigits x.shortest.digits
  have body (scientific : Bool) (exponent : Int) :
      OneLine (if scientific then exponential (Nat.toDigits 10 x.shortest.digits) exponent
        else positional layout.wholeEnding (Nat.toDigits 10 x.shortest.digits) exponent) := by
    split
    · exact oneLine_exponential digits exponent
    · exact oneLine_positional h digits exponent
  unfold render
  dsimp only
  split
  · exact OneLine.append_iff.2 ⟨by decide, body _ _⟩
  · exact body _ _

end Decimal.Layout

namespace Json

theorem oneLine_number (n : Number) : OneLine n.render := by
  cases n with
  | int i => exact oneLine_int i
  | float x => exact Layout.oneLine_render (by decide) x

theorem notMem_escapeChar (c : Char) : '\n' ∉ escapeChar c := by
  have hex (n : Nat) : Text.hexLower n ≠ '\n' := by
    by_cases small : n < 16
    · have all : ∀ k : Fin 16, Text.hexLower k ≠ '\n' := by decide
      exact all ⟨n, small⟩
    · have beyond : "0123456789abcdef".toList.length ≤ n := Nat.le_of_not_lt small
      rw [Text.hexLower, List.getD_eq_getElem?_getD, List.getElem?_eq_none beyond]
      decide
  unfold escapeChar
  iterate 7
    split
    · decide
  split
  · simp [Ne.symm (hex _)]
  · rename_i _ _ other _ _ _ _ _
    simpa using Ne.symm other

theorem oneLine_quote (s : String) : OneLine (quote s) := by
  have inner : '\n' ∉ s.toList.flatMap escapeChar := by
    rw [List.mem_flatMap]
    rintro ⟨c, -, mem⟩
    exact notMem_escapeChar c mem
  exact OneLine.append_iff.2 ⟨OneLine.append_iff.2 ⟨by decide, OneLine.ofList_iff.2 inner⟩, by decide⟩

mutual
theorem oneLine_compress : (j : Json) → OneLine j.compress
  | .null | .bool true | .bool false | .array [] | .object [] => by
    simp only [compress]
    decide
  | .number n => by
    rw [compress]
    exact oneLine_number n
  | .string s => by
    rw [compress]
    exact oneLine_quote s
  | .array (item :: rest) => by
    have first := oneLine_compress item
    have others := oneLine_compressItems rest
    simp only [compress, OneLine.append_iff, first, others, and_true]
    decide
  | .object ((key, value) :: rest) => by
    have name := oneLine_quote key
    have first := oneLine_compress value
    have others := oneLine_compressMembers rest
    simp only [compress, OneLine.append_iff, name, first, others, and_true]
    decide

theorem oneLine_compressItems : (items : List Json) → OneLine (compressItems items)
  | [] => by
    rw [compressItems]
    decide
  | item :: rest => by
    have first := oneLine_compress item
    have others := oneLine_compressItems rest
    simp only [compressItems, OneLine.append_iff, first, others, and_true]
    decide

theorem oneLine_compressMembers : (members : List (String × Json)) → OneLine (compressMembers members)
  | [] => by
    rw [compressMembers]
    decide
  | (key, value) :: rest => by
    have name := oneLine_quote key
    have first := oneLine_compress value
    have others := oneLine_compressMembers rest
    simp only [compressMembers, OneLine.append_iff, name, first, others, and_true]
    decide
end

end Json

end StrategyForm
