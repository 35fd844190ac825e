import StrategyForm.Proofs.Web.Percent

/-!
# Texts as segments

What becomes of a text that is appended to a path (`appendSegment_eq`): a lone dot and two dots are
skipped; any other text loses its tabs and line breaks first, and when two dots are left of it, the path
loses its last segment instead of getting one (`taken`, `Landing`). In all other cases the text is one
segment, which cannot be taken for more than that (`ne_of_mem_segmentOf`). Where it leads tells what was
taken of the text and no more (`read_landing`, `landing_inj`).
-/

namespace StrategyForm.Web.Url
open Text

/-- A text without what an address passes over. -/
def kept (s : String) : String := String.ofList (s.toList.filter (!isPassedOver ·))

/-! ### Written segments -/

theorem decodeText?_segmentOf (common : Bool) (s : String) :
    Percent.decodeText? (segmentOf common s).toList = some (kept s) := by
  have percent : Percent.segment common '%' = true := by cases common <;> decide
  rw [segmentOf, String.toList_ofList]
  exact Percent.decodeText?_encode percent _

theorem segmentOf_of_kept {common : Bool} {s t : String} (h : kept s = kept t) :
    segmentOf common s = segmentOf common t := by
  unfold segmentOf
  rw [String.ofList_inj.1 h]

/-- A written segment ends neither itself nor the path. -/
theorem ne_of_mem_segmentOf {common : Bool} {s : String} {c : Char}
    (mem : c ∈ (segmentOf common s).toList) : c ≠ '/' ∧ c ≠ '?' ∧ c ≠ '#' := by
  rw [segmentOf, String.toList_ofList] at mem
  rcases Percent.mem_encode mem with rfl | ⟨n, lt, rfl⟩ | plain
  · decide
  · have digits : ∀ k : Fin 16, hexUpper k ≠ '/' ∧ hexUpper k ≠ '?' ∧ hexUpper k ≠ '#' := by decide
    exact digits ⟨n, lt⟩
  · refine ⟨?_, ?_, ?_⟩ <;> rintro rfl <;> cases common <;> exact absurd plain (by decide)

theorem kept_of_segmentOf {common : Bool} {s t u : String} (h : segmentOf common s = t)
    (read : Percent.decodeText? t.toList = some u) : kept s = u := by
  rw [← h, decodeText?_segmentOf] at read
  exact Option.some.inj read

theorem isHere_segmentOf (common : Bool) (s : String) :
    isHere (segmentOf common s) = true ↔ kept s = "." := by
  constructor
  · intro h
    simp only [isHere, Bool.or_eq_true, decide_eq_true_eq] at h
    rcases h with (h | h) | h
    · exact kept_of_segmentOf h (by decide +kernel)
    · exact kept_of_segmentOf h (by decide +kernel)
    · exact kept_of_segmentOf h (by decide +kernel)
  · intro h
    have same : kept s = kept "." := h.trans (by decide +kernel)
    rw [segmentOf_of_kept same]
    cases common <;> decide +kernel

theorem isAbove_segmentOf (common : Bool) (s : String) :
    isAbove (segmentOf common s) = true ↔ kept s = ".." := by
  constructor
  · intro h
    have read : ∀ t ∈ ["..", ".%2e", ".%2E", "%2e.", "%2E.", "%2e%2e", "%2e%2E", "%2E%2e", "%2E%2E"],
        Percent.decodeText? t.toList = some ".." := by decide +kernel
    exact kept_of_segmentOf rfl (read _ (List.contains_iff_mem.1 h))
  · intro h
    have same : kept s = kept ".." := h.trans (by decide +kernel)
    rw [segmentOf_of_kept same]
    cases common <;> decide +kernel

/-! ### Appending -/

/-- What an address takes of a text that is appended to it: nothing at all of a lone dot or two, else
all but what it passes over, where a dot is as good as nothing. -/
def taken (s : String) : Option String :=
  if s = "." ∨ s = ".." then none else some (if kept s = "." then "" else kept s)

theorem kept_kept (s : String) : kept (kept s) = kept s := by
  simp [kept, List.filter_filter]

theorem kept_of_taken {s t : String} (h : taken s = some t) : kept t = t := by
  unfold taken at h
  split at h
  · cases h
  · rw [← Option.some.inj h]
    split
    · rfl
    · exact kept_kept s

/-- Where a text that is appended to a path leads. -/
inductive Landing where
  /-- Nowhere. -/
  | skipped
  /-- Out of the last segment. -/
  | above
  /-- To a segment behind the path. -/
  | at (segment : String)
deriving DecidableEq

/-- What a text must have been to lead there. -/
def Landing.read : Landing → Option String
  | .skipped => none
  | .above => some ".."
  | .at segment => Percent.decodeText? segment.toList

def landing (common : Bool) (s : String) : Landing :=
  match taken s with
  | none => .skipped
  | some t => if t = ".." then .above else .at (segmentOf common t)

section
variable {common : Bool} {s s' : String}

theorem landing_of_none (h : taken s = none) : landing common s = .skipped := by
  rw [landing, h]

theorem landing_of_above (h : taken s = some "..") : landing common s = .above := by
  rw [landing, h]
  rfl

theorem landing_of_some {t : String} (h : taken s = some t) (below : t ≠ "..") :
    landing common s = .at (segmentOf common t) := by
  simp only [landing, h]
  exact if_neg below

/-- What led to a place can be read from it. -/
theorem read_landing (common : Bool) (s : String) : (landing common s).read = taken s := by
  cases took : taken s with
  | none => rw [landing_of_none took, Landing.read]
  | some t =>
    by_cases up : t = ".."
    · rw [landing_of_above (up ▸ took), Landing.read, up]
    · rw [landing_of_some took up, Landing.read, decodeText?_segmentOf, kept_of_taken took]

/-- Texts lead to one place when the same is taken of them, and only then. -/
theorem landing_inj : landing common s = landing common s' ↔ taken s = taken s' := by
  refine ⟨fun h => ?_, fun h => by rw [landing, h, ← landing]⟩
  rw [← read_landing common s, h, read_landing]

end

/-- The segments to append to: a lone empty one counts for none. -/
def ground (list : List String) : List String := if list = [""] then [] else list

theorem appendSegment_eq (common : Bool) (list : List String) (s : String) :
    appendSegment common list s =
      match landing common s with
      | .skipped => list
      | .above => (ground list).dropLast ++ [""]
      | .at segment => ground list ++ [segment] := by
  unfold appendSegment addSegment
  by_cases dots : s = "." ∨ s = ".."
  · have none : taken s = none := if_pos dots
    rw [if_pos (by simpa using dots), landing_of_none none]
  rw [if_neg (by simpa using dots)]
  by_cases here : kept s = "."
  · have empty : taken s = some "" := by rw [taken, if_neg dots, if_pos here]
    have blank : segmentOf common "" = "" := by cases common <;> decide +kernel
    have below : kept s ≠ ".." := by rw [here]; decide
    rw [if_neg fun h => below ((isAbove_segmentOf common s).1 h),
      if_pos ((isHere_segmentOf common s).2 here), landing_of_some empty (by decide), blank]
    rfl
  have whole : taken s = some (kept s) := by rw [taken, if_neg dots, if_neg here]
  by_cases above : kept s = ".."
  · rw [if_pos ((isAbove_segmentOf common s).2 above), landing_of_above (whole.trans (by rw [above]))]
    rfl
  · rw [if_neg fun h => above ((isAbove_segmentOf common s).1 h),
      if_neg fun h => here ((isHere_segmentOf common s).1 h), landing_of_some whole above,
      segmentOf_of_kept (kept_kept s)]
    rfl

end StrategyForm.Web.Url
