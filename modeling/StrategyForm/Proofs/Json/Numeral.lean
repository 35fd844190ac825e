import Mathlib.Data.List.TakeDrop
import StrategyForm.Json.Reader

/-!
# Numbers read back

A number that is read to its end is read the same in front of anything that cannot belong to it
(`Reader.number_append`), and is written with digits, signs, points and exponents alone
(`Reader.number_numerals`). The text of an integer of 64 bits is read back as that integer
(`Number.readsBack_int`). The text of a float need not be: its digits are the shortest that are nearest
to it, and the quick rule rounds twice. Where it matters that a float is read back, it is assumed of that
float (`Number.ReadsBack`).
-/

namespace StrategyForm.Json

namespace Reader

/-! ### Digits -/

theorem digits_cons (c : Char) (cs : List Char) : digits (c :: cs) =
    if c.isDigit then ((c.toNat - '0'.toNat) :: (digits cs).1, (digits cs).2) else ([], c :: cs) := by
  simp only [digits, List.span_eq_takeWhile_dropWhile, List.takeWhile_cons, List.dropWhile_cons]
  split <;> simp

theorem digits_of_all {cs : List Char} (h : ∀ c ∈ cs, c.isDigit = true) :
    digits cs = (cs.map fun c => c.toNat - '0'.toNat, []) := by
  induction cs with
  | nil => rfl
  | cons c cs ih =>
    rw [digits_cons, if_pos (h c List.mem_cons_self), ih fun d hd => h d (List.mem_cons_of_mem _ hd)]
    rfl

/-- What follows cannot belong to a number. -/
def Ends (rest : List Char) : Prop :=
  ∀ c more, rest = c :: more → c.isDigit = false ∧ c ≠ '.' ∧ c ≠ 'e' ∧ c ≠ 'E'

theorem Ends.nil : Ends [] := by
  intro c more h
  cases h

variable {cs rest : List Char}

theorem digits_append (ends : Ends rest) :
    digits (cs ++ rest) = ((digits cs).1, (digits cs).2 ++ rest) := by
  induction cs with
  | nil =>
    cases rest with
    | nil => rfl
    | cons c more =>
      have none : c.isDigit = false := (ends c more rfl).1
      rw [List.nil_append, digits_cons, none]
      rfl
  | cons c cs ih =>
    rw [List.cons_append, digits_cons, digits_cons, ih]
    split <;> rfl

theorem digits1_append {x : List Nat × List Char} (h : digits1 cs = .ok x) (ends : Ends rest) :
    digits1 (cs ++ rest) = .ok (x.1, x.2 ++ rest) := by
  unfold digits1 at h ⊢
  rw [digits_append ends]
  generalize digits cs = found at h
  obtain ⟨ds, left⟩ := found
  cases ds with
  | nil => cases left <;> cases h
  | cons d ds =>
    cases h
    rfl

/-! ### The parts of a number -/

theorem wholePart_append {x : List Nat × List Char} (h : wholePart cs = .ok x) (ends : Ends rest) :
    wholePart (cs ++ rest) = .ok (x.1, x.2 ++ rest) := by
  unfold wholePart at h
  split at h
  · rename_i more
    cases more with
    | nil =>
      cases h
      cases rest with
      | nil => rfl
      | cons c after =>
        have none : c.isDigit = false := (ends c after rfl).1
        simp [wholePart, none]
    | cons c more =>
      simp only at h
      split at h
      · cases h
      · rename_i other
        cases h
        simp [wholePart, other]
  · rename_i other
    have same : wholePart (cs ++ rest) = digits1 (cs ++ rest) := by
      unfold wholePart
      split
      · rename_i more e
        cases cs with
        | nil => cases h
        | cons c cs =>
          cases e
          exact absurd rfl (other cs)
      · rfl
    rw [same]
    exact digits1_append h ends

theorem fractionPart_append {x : Option (List Nat) × List Char} (h : fractionPart cs = .ok x)
    (ends : Ends rest) : fractionPart (cs ++ rest) = .ok (x.1, x.2 ++ rest) := by
  unfold fractionPart at h
  split at h
  · rename_i after
    cases e : digits1 after with
    | error f => rw [e] at h; cases h
    | ok found =>
      rw [e] at h
      cases h
      show (digits1 (after ++ rest)).map _ = _
      rw [digits1_append e ends]
      rfl
  · rename_i other
    cases h
    unfold fractionPart
    split
    · rename_i after e
      cases cs with
      | nil => exact absurd rfl (ends '.' after e).2.1
      | cons c cs =>
        cases e
        exact absurd rfl (other cs)
    · rfl

theorem exponentSign_append {c : Char} {cs : List Char} : exponentSign (c :: cs ++ rest) =
    ((exponentSign (c :: cs)).1, (exponentSign (c :: cs)).2 ++ rest) := by
  by_cases minus : c = '-'
  · subst minus
    rfl
  by_cases plus : c = '+'
  · subst plus
    rfl
  simp [exponentSign, minus, plus]

theorem exponentPart_append {x : Option (Bool × List Nat) × List Char} (h : exponentPart cs = .ok x)
    (ends : Ends rest) : exponentPart (cs ++ rest) = .ok (x.1, x.2 ++ rest) := by
  cases cs with
  | nil =>
    cases h
    cases rest with
    | nil => rfl
    | cons c after =>
      obtain ⟨-, -, lower, upper⟩ := ends c after rfl
      simp [exponentPart, lower, upper]
  | cons c after =>
    rw [List.cons_append]
    by_cases mark : (c = 'e' || c = 'E') = true
    · simp only [exponentPart, mark, ↓reduceIte] at h ⊢
      cases after with
      | nil => cases h
      | cons d more =>
        cases e : digits1 (exponentSign (d :: more)).2 with
        | error f => rw [e] at h; cases h
        | ok found =>
          rw [e] at h
          cases h
          rw [exponentSign_append, digits1_append e ends]
          rfl
    · simp only [exponentPart, mark] at h ⊢
      cases h
      rfl

/-- A number stops where it stopped when nothing followed. -/
theorem unsigned_append {negative : Bool} {l : Literal} {left : List Char}
    (h : unsigned negative cs = .ok (l, left)) (ends : Ends rest) :
    unsigned negative (cs ++ rest) = .ok (l, left ++ rest) := by
  unfold unsigned at h ⊢
  cases whole : wholePart cs with
  | error f => rw [whole] at h; cases h
  | ok x =>
    rw [whole] at h
    rw [wholePart_append whole ends]
    cases fraction : fractionPart x.2 with
    | error f => simp only [bind, Except.bind, fraction] at h; cases h
    | ok y =>
      cases exponent : exponentPart y.2 with
      | error f => simp only [bind, Except.bind, fraction, exponent] at h; cases h
      | ok z =>
        simp only [bind, Except.bind, fraction, exponent] at h
        cases h
        simp only [bind, Except.bind, fractionPart_append fraction ends,
          exponentPart_append exponent ends]
        rfl

theorem number_append {l : Literal} {left : List Char} (h : number cs = (.number l, some left))
    (ends : Ends rest) : number (cs ++ rest) = (.number l, some (left ++ rest)) := by
  cases cs with
  | nil => cases h
  | cons c cs =>
    rw [List.cons_append]
    by_cases minus : c = '-'
    · subst minus
      simp only [number] at h ⊢
      cases e : unsigned true cs with
      | error f => rw [e] at h; cases h
      | ok x =>
        rw [e] at h
        cases h
        rw [unsigned_append e ends]
    · cases e : unsigned false (c :: cs) with
      | error f => simp [number, minus, e] at h
      | ok x =>
        have e' := unsigned_append e ends
        rw [List.cons_append] at e'
        simp [number, minus, e] at h
        obtain ⟨rfl, rfl⟩ := h
        simp [number, minus, e']

/-- A number begins with its sign or a digit. -/
theorem exists_of_number {l : Literal} {left : List Char} (h : number cs = (.number l, some left)) :
    ∃ c more, cs = c :: more ∧ (c = '-' ∨ c.isDigit = true) := by
  cases cs with
  | nil => cases h
  | cons c cs =>
    refine ⟨c, cs, rfl, ?_⟩
    by_cases minus : c = '-'
    · exact .inl minus
    by_cases digit : c.isDigit = true
    · exact .inr digit
    exfalso
    have zero : c ≠ '0' := by
      rintro rfl
      exact digit rfl
    have none : digits1 (c :: cs) = .error .malformed := by
      rw [digits1, digits_cons, if_neg digit]
    have refused : unsigned false (c :: cs) = .error .malformed := by
      simp [unsigned, wholePart, zero, none, bind, Except.bind]
    simp [number, minus, refused] at h

/-! ### Characters -/

/-- The characters that numbers are written with. -/
def inNumber (c : Char) : Bool := c.isDigit || c = '-' || c = '+' || c = '.' || c = 'e' || c = 'E'

/-- What was read was written with such characters; anything else is left. -/
def Numerals (cs left : List Char) : Prop := ∀ c ∈ cs, inNumber c = true ∨ c ∈ left

theorem Numerals.refl (cs : List Char) : Numerals cs cs := fun _ mem => .inr mem

theorem Numerals.trans {a b c : List Char} (h : Numerals a b) (h' : Numerals b c) : Numerals a c := by
  intro d mem
  rcases h d mem with read | mem
  · exact .inl read
  · exact h' d mem

theorem Numerals.cons {c : Char} {left : List Char} (first : inNumber c = true) (h : Numerals cs left) :
    Numerals (c :: cs) left := by
  intro d mem
  rcases List.mem_cons.1 mem with rfl | mem
  · exact .inl first
  · exact h d mem

theorem digits_numerals (cs : List Char) : Numerals cs (digits cs).2 := by
  induction cs with
  | nil => exact .refl []
  | cons c cs ih =>
    rw [digits_cons]
    split
    · rename_i digit
      exact ih.cons (by simp [inNumber, digit])
    · exact .refl _

theorem digits1_numerals {x : List Nat × List Char} (h : digits1 cs = .ok x) : Numerals cs x.2 := by
  have numerals := digits_numerals cs
  unfold digits1 at h
  generalize digits cs = found at h numerals
  obtain ⟨ds, left⟩ := found
  cases ds with
  | nil => cases left <;> cases h
  | cons d ds =>
    cases h
    exact numerals

theorem wholePart_numerals {x : List Nat × List Char} (h : wholePart cs = .ok x) : Numerals cs x.2 := by
  unfold wholePart at h
  split at h
  · split at h
    · split at h
      · cases h
      · cases h
        exact (Numerals.refl _).cons (by decide)
    · cases h
      exact (Numerals.refl _).cons (by decide)
  · exact digits1_numerals h

theorem fractionPart_numerals {x : Option (List Nat) × List Char} (h : fractionPart cs = .ok x) :
    Numerals cs x.2 := by
  unfold fractionPart at h
  split at h
  · rename_i after
    cases e : digits1 after with
    | error f => rw [e] at h; cases h
    | ok found =>
      rw [e] at h
      cases h
      exact (digits1_numerals e).cons (by decide)
  · cases h
    exact .refl _

theorem exponentSign_numerals (cs : List Char) : Numerals cs (exponentSign cs).2 := by
  unfold exponentSign
  split
  · exact (Numerals.refl _).cons (by decide)
  · exact (Numerals.refl _).cons (by decide)
  · exact .refl _

theorem exponentPart_numerals {x : Option (Bool × List Nat) × List Char} (h : exponentPart cs = .ok x) :
    Numerals cs x.2 := by
  cases cs with
  | nil =>
    cases h
    exact .refl []
  | cons c after =>
    by_cases mark : (c = 'e' || c = 'E') = true
    · simp only [exponentPart, mark, ↓reduceIte] at h
      cases e : digits1 (exponentSign after).2 with
      | error f => rw [e] at h; cases h
      | ok found =>
        rw [e] at h
        cases h
        refine ((exponentSign_numerals after).trans (digits1_numerals e)).cons ?_
        simp only [Bool.or_eq_true, decide_eq_true_eq] at mark
        rcases mark with rfl | rfl <;> decide
    · simp only [exponentPart, mark] at h
      cases h
      exact .refl _

theorem unsigned_numerals {negative : Bool} {l : Literal} {left : List Char}
    (h : unsigned negative cs = .ok (l, left)) : Numerals cs left := by
  unfold unsigned at h
  cases whole : wholePart cs with
  | error f => rw [whole] at h; cases h
  | ok x =>
    rw [whole] at h
    cases fraction : fractionPart x.2 with
    | error f => simp only [bind, Except.bind, fraction] at h; cases h
    | ok y =>
      cases exponent : exponentPart y.2 with
      | error f => simp only [bind, Except.bind, fraction, exponent] at h; cases h
      | ok z =>
        simp only [bind, Except.bind, fraction, exponent] at h
        cases h
        exact ((wholePart_numerals whole).trans (fractionPart_numerals fraction)).trans
          (exponentPart_numerals exponent)

theorem number_numerals {l : Literal} {left : List Char} (h : number cs = (.number l, some left)) :
    Numerals cs left := by
  cases cs with
  | nil => exact fun _ mem => absurd mem List.not_mem_nil
  | cons c cs =>
    by_cases minus : c = '-'
    · subst minus
      simp only [number] at h
      cases e : unsigned true cs with
      | error f => rw [e] at h; cases h
      | ok x =>
        rw [e] at h
        cases h
        exact (unsigned_numerals e).cons (by decide)
    · cases e : unsigned false (c :: cs) with
      | error f => simp [number, minus, e] at h
      | ok x =>
        simp [number, minus, e] at h
        obtain ⟨rfl, rfl⟩ := h
        exact unsigned_numerals e

end Reader

/-! ### Integers -/

/-- The number that a text is, if it is one and nothing else. -/
def Number.read? (text : String) : Option Number :=
  match Reader.number text.toList with
  | (.number l, some []) => l.toNumber?
  | _ => none

/-- The text of the number is read back as the number. -/
def Number.ReadsBack (n : Number) : Prop := Number.read? n.render = some n

instance (n : Number) : Decidable n.ReadsBack := inferInstanceAs (Decidable (_ = _))

theorem Number.ReadsBack.exists_literal {n : Number} (h : n.ReadsBack) :
    ∃ l, Reader.number n.render.toList = (.number l, some []) ∧ l.toNumber? = some n := by
  unfold ReadsBack read? at h
  split at h
  · rename_i l e
    exact ⟨l, e, h⟩
  · cases h

/-- Digits fit if the number that they make does. -/
theorem Literal.gather_of_lt (ds : List Nat) (start : Nat)
    (h : ds.foldl (fun n d => n * 10 + d) start < 0x10000000000000000) :
    gather start ds = (ds.foldl (fun n d => n * 10 + d) start, []) := by
  induction ds generalizing start with
  | nil => rfl
  | cons d ds ih =>
    have le (m : Nat) : m ≤ ds.foldl (fun n d => n * 10 + d) m := by
      clear ih h
      induction ds generalizing m with
      | nil => exact Nat.le_refl m
      | cons e ds ih =>
        have := ih (m * 10 + e)
        simp only [List.foldl_cons]
        omega
    have first := le (start * 10 + d)
    rw [List.foldl_cons] at h
    rw [gather, if_pos (by omega), ih _ h]
    rfl

theorem head?_toDigits_ne_zero {n : Nat} (pos : 0 < n) : (Nat.toDigits 10 n).head? ≠ some '0' := by
  induction n using Nat.strongRecOn with
  | _ n ih =>
    rw [Nat.toDigits_eq_if (by omega)]
    split
    · rename_i small
      have : ∀ k : Fin 10, 0 < k.val → (Nat.digitChar k) ≠ '0' := by decide
      simpa using this ⟨n, small⟩ pos
    · have before := ih (n / 10) (by omega) (by omega)
      cases e : Nat.toDigits 10 (n / 10) with
      | nil => exact absurd e Nat.toDigits_ne_nil
      | cons c cs =>
        rw [e] at before
        exact before

/-- The values of the digits of a number. -/
def digitsOf (n : Nat) : List Nat := (Nat.toDigits 10 n).map fun c => c.toNat - '0'.toNat

theorem gather_digitsOf {n : Nat} (fits : n < 0x10000000000000000) :
    Literal.gather 0 (digitsOf n) = (n, []) := by
  have value : (digitsOf n).foldl (fun n d => n * 10 + d) 0 = n := by
    have made := Nat.ofDigitChars_toDigits (b := 10) (n := n) (by decide) (by decide)
    rw [Nat.ofDigitChars_eq_foldl] at made
    rw [digitsOf, List.foldl_map]
    simpa only [Nat.mul_comm] using made
  have gathered := Literal.gather_of_lt (digitsOf n) 0 (by rwa [value])
  rwa [value] at gathered

theorem wholePart_toDigits (n : Nat) :
    Reader.wholePart (Nat.toDigits 10 n) = .ok (digitsOf n, []) := by
  rcases Nat.eq_zero_or_pos n with rfl | pos
  · rfl
  have digits : Reader.digits (Nat.toDigits 10 n) = (digitsOf n, []) :=
    Reader.digits_of_all fun c hc => Nat.isDigit_of_mem_toDigits (by decide) (by decide) hc
  have first := head?_toDigits_ne_zero pos
  unfold Reader.wholePart
  split
  · rename_i e
    rw [e] at first
    exact absurd rfl first
  · unfold Reader.digits1
    rw [digits]
    cases e : digitsOf n with
    | nil => exact absurd (List.map_eq_nil_iff.1 e) Nat.toDigits_ne_nil
    | cons d ds => rfl

theorem unsigned_toDigits (negative : Bool) (n : Nat) :
    Reader.unsigned negative (Nat.toDigits 10 n) = .ok (⟨negative, digitsOf n, none, none⟩, []) := by
  rw [Reader.unsigned, wholePart_toDigits]
  rfl

theorem number_toDigits (n : Nat) :
    Reader.number (Nat.toDigits 10 n) = (.number ⟨false, digitsOf n, none, none⟩, some []) := by
  have unsigned := unsigned_toDigits false n
  cases e : Nat.toDigits 10 n with
  | nil => exact absurd e Nat.toDigits_ne_nil
  | cons c cs =>
    have digit : c.isDigit = true :=
      Nat.isDigit_of_mem_toDigits (b := 10) (n := n) (by decide) (by decide) (by rw [e]; exact List.mem_cons_self)
    have minus : c ≠ '-' := by
      rintro rfl
      cases digit
    rw [e] at unsigned
    simp [Reader.number, minus, unsigned]

/-- The text of an integer is read back as the integer. -/
theorem Number.readsBack_int (i : Int) (h : InWords i) : (Number.int i h).ReadsBack := by
  unfold ReadsBack read?
  cases i with
  | ofNat n =>
    have fits : n < 0x10000000000000000 := by
      have := h.2
      simp only [Int.ofNat_eq_natCast] at this
      omega
    have text : (Number.int (.ofNat n) h).render.toList = Nat.toDigits 10 n := by
      show (Nat.repr n).toList = _
      rw [Nat.repr_eq_ofList_toDigits, String.toList_ofList]
    rw [text, number_toDigits]
    have inWords : InWords (n : Int) := h
    simp [Literal.toNumber?, gather_digitsOf fits, inWords]
  | negSucc m =>
    have fits : m + 1 < 0x10000000000000000 := by
      have := h.1
      rw [Int.negSucc_eq] at this
      omega
    have text : (Number.int (.negSucc m) h).render.toList = '-' :: Nat.toDigits 10 (m + 1) := by
      show ("-" ++ Nat.repr (m + 1)).toList = _
      rw [Nat.repr_eq_ofList_toDigits, String.toList_append, String.toList_ofList,
        String.toList_ofList]
      rfl
    have read : Reader.number ('-' :: Nat.toDigits 10 (m + 1)) =
        (.number ⟨true, digitsOf (m + 1), none, none⟩, some []) := by
      simp only [Reader.number, unsigned_toDigits]
    rw [text, read]
    have same : -((m + 1 : Nat) : Int) = .negSucc m := (Int.negSucc_eq m).symm
    have accepted : (m + 1 ≠ 0) ∧ InWords (-((m + 1 : Nat) : Int)) := ⟨by omega, same ▸ h⟩
    simp only [Literal.toNumber?, gather_digitsOf fits]
    rw [if_pos (by rfl), if_pos trivial, dif_pos accepted]
    simp only [same]

end StrategyForm.Json
