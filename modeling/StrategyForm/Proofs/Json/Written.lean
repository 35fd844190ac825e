import StrategyForm.Json.Writer
import StrategyForm.Proofs.Json.Numeral

/-!
# Written texts read back

Main statement (`read_written`): the text that is written for a value, on one line or on several, is read
as the document of the value (`Json.doc`), if its floats are read back as they are. Both layouts are one
function of the blanks that stand between the parts (`Layout.spell`), so the reader is gone through once.
-/

namespace StrategyForm.Json

/-! ### The document of a value -/

mutual
/-- The document that the text of a value is. -/
def doc : Json → Doc
  | .null => .null
  | .bool b => .bool b
  | .number n => (Reader.number n.render.toList).1
  | .string s => .string (some s)
  | .array items => .array (docs items) none
  | .object members => .object (memberDocs members) .closed

def docs : List Json → List Doc
  | [] => []
  | item :: rest => doc item :: docs rest

def memberDocs : List (String × Json) → List (Option String × Doc)
  | [] => []
  | (key, value) :: rest => (some key, doc value) :: memberDocs rest
end

mutual
/-- The floats in a value. -/
def floats : Json → List Decimal.Binary64
  | .number (.float x) => [x]
  | .array items => floatsOfItems items
  | .object members => floatsOfMembers members
  | .null | .bool _ | .number (.int ..) | .string _ => []

def floatsOfItems : List Json → List Decimal.Binary64
  | [] => []
  | item :: rest => floats item ++ floatsOfItems rest

def floatsOfMembers : List (String × Json) → List Decimal.Binary64
  | [] => []
  | (_, value) :: rest => floats value ++ floatsOfMembers rest
end

/-- All these floats are read back as they are written. -/
def AllReadBack (list : List Decimal.Binary64) : Prop := ∀ x ∈ list, (Number.float x).ReadsBack

instance (list : List Decimal.Binary64) : Decidable (AllReadBack list) :=
  inferInstanceAs (Decidable (∀ x ∈ list, _))

theorem AllReadBack.append {a b : List Decimal.Binary64} :
    AllReadBack (a ++ b) ↔ AllReadBack a ∧ AllReadBack b :=
  List.forall_mem_append

theorem exists_literal {n : Number} (h : AllReadBack (Json.number n).floats) :
    ∃ l, Reader.number n.render.toList = (.number l, some []) ∧ l.toNumber? = some n := by
  cases n with
  | int i inWords => exact (Number.readsBack_int i inWords).exists_literal
  | float x => exact (h x (by simp [floats])).exists_literal

/-! ### Blanks -/

/-- The blanks of a layout: before an item or member at a level, before a bracket that closes, and
before the value of a member. -/
structure Blanks where
  gap : Nat → List Char
  value : List Char
  gap_blank : ∀ level, ∀ c ∈ gap level, isSpace c = true
  value_blank : ∀ c ∈ value, isSpace c = true

/-- Everything on one line. -/
def Blanks.none : Blanks := ⟨fun _ => [], [], by simp, by simp⟩

/-- A line for each item and member. -/
def Blanks.lines : Blanks where
  gap level := (newline level).toList
  value := [' ']
  gap_blank := by
    intro level c hc
    simp only [newline, String.toList_append, String.toList_ofList, List.mem_append,
      List.mem_replicate] at hc
    rcases hc with hc | ⟨-, rfl⟩
    · have first : c = '\n' := by simpa using hc
      rw [first]
      rfl
    · rfl
  value_blank := by simp [isSpace]

@[simp] theorem Blanks.none_gap (level : Nat) : Blanks.none.gap level = [] := rfl

@[simp] theorem Blanks.none_value : Blanks.none.value = [] := rfl

@[simp] theorem Blanks.lines_gap (level : Nat) : Blanks.lines.gap level = (newline level).toList := rfl

@[simp] theorem Blanks.lines_value : Blanks.lines.value = [' '] := rfl

/-- The characters of a quoted text. -/
def quoted (s : String) : List Char := '"' :: (s.toList.flatMap escapeChar ++ ['"'])

@[simp] theorem quote_toList (s : String) : (quote s).toList = quoted s := by simp [quote, quoted]

section
variable (blanks : Blanks)

mutual
/-- The text of a value in a layout, at a level. -/
def spell (level : Nat) : Json → List Char
  | .null => ['n', 'u', 'l', 'l']
  | .bool true => ['t', 'r', 'u', 'e']
  | .bool false => ['f', 'a', 'l', 's', 'e']
  | .number n => n.render.toList
  | .string s => quoted s
  | .array [] => ['[', ']']
  | .array (item :: rest) =>
    '[' :: (blanks.gap (level + 1) ++ (spell (level + 1) item ++ spellItems level rest))
  | .object [] => ['\x7b', '\x7d']
  | .object ((key, value) :: rest) =>
    '\x7b' :: (blanks.gap (level + 1) ++ (quoted key ++ ':' :: (blanks.value ++
      (spell (level + 1) value ++ spellMembers level rest))))

/-- The items behind the first one, up to the bracket. -/
def spellItems (level : Nat) : List Json → List Char
  | [] => blanks.gap level ++ [']']
  | item :: rest =>
    ',' :: (blanks.gap (level + 1) ++ (spell (level + 1) item ++ spellItems level rest))

/-- The members behind the first one, up to the bracket. -/
def spellMembers (level : Nat) : List (String × Json) → List Char
  | [] => blanks.gap level ++ ['\x7d']
  | (key, value) :: rest =>
    ',' :: (blanks.gap (level + 1) ++ (quoted key ++ ':' :: (blanks.value ++
      (spell (level + 1) value ++ spellMembers level rest))))
end

end

mutual
theorem compress_toList (level : Nat) : (j : Json) → j.compress.toList = spell .none level j
  | .null | .bool true | .bool false | .number _ | .string _ | .array [] | .object [] => by
    simp [compress, spell]
  | .array (item :: rest) => by
    have first := compress_toList (level + 1) item
    have others := compressItems_toList level rest
    simp [compress, spell, first, others]
  | .object ((key, value) :: rest) => by
    have first := compress_toList (level + 1) value
    have others := compressMembers_toList level rest
    simp [compress, spell, first, others]

theorem compressItems_toList (level : Nat) : (items : List Json) →
    (compressItems items).toList ++ [']'] = spellItems .none level items
  | [] => by simp [compressItems, spellItems]
  | item :: rest => by
    have first := compress_toList (level + 1) item
    have others := compressItems_toList level rest
    simp [compressItems, spellItems, first, others]

theorem compressMembers_toList (level : Nat) : (members : List (String × Json)) →
    (compressMembers members).toList ++ ['\x7d'] = spellMembers .none level members
  | [] => by simp [compressMembers, spellMembers]
  | (key, value) :: rest => by
    have first := compress_toList (level + 1) value
    have others := compressMembers_toList level rest
    simp [compressMembers, spellMembers, first, others]
end

mutual
theorem prettyAt_toList (level : Nat) : (j : Json) → (prettyAt level j).toList = spell .lines level j
  | .null | .bool true | .bool false | .number _ | .string _ | .array [] | .object [] => by
    simp [prettyAt, spell]
  | .array (item :: rest) => by
    have first := prettyAt_toList (level + 1) item
    have others := prettyItems_toList level rest
    simp [prettyAt, spell, first, ← others]
  | .object ((key, value) :: rest) => by
    have first := prettyAt_toList (level + 1) value
    have others := prettyMembers_toList level rest
    simp [prettyAt, spell, first, ← others]

theorem prettyItems_toList (level : Nat) : (items : List Json) →
    (prettyItems (level + 1) items).toList ++ (newline level).toList ++ [']'] =
      spellItems .lines level items
  | [] => by simp [prettyItems, spellItems]
  | item :: rest => by
    have first := prettyAt_toList (level + 1) item
    have others := prettyItems_toList level rest
    simp [prettyItems, spellItems, first, ← others]

theorem prettyMembers_toList (level : Nat) : (members : List (String × Json)) →
    (prettyMembers (level + 1) members).toList ++ (newline level).toList ++ ['\x7d'] =
      spellMembers .lines level members
  | [] => by simp [prettyMembers, spellMembers]
  | (key, value) :: rest => by
    have first := prettyAt_toList (level + 1) value
    have others := prettyMembers_toList level rest
    simp [prettyMembers, spellMembers, first, ← others]
end

/-! ### Quoted texts -/

theorem fourHex_control {n : Nat} (small : n < 0x20) (rest : List Char) :
    Reader.fourHex ('0' :: '0' :: Text.hexLower (n / 16) :: Text.hexLower (n % 16) :: rest) =
      .ok (n, rest) := by
  have zero : Text.hexValue? '0' = some 0 := by decide
  have high := Text.hexValue?_hexLower (n := n / 16) (by omega)
  have low := Text.hexValue?_hexLower (n := n % 16) (by omega)
  simp only [Reader.fourHex, zero, high, low]
  have same : ((0 * 16 + 0) * 16 + n / 16) * 16 + n % 16 = n := by omega
  rw [same]

/-- A character is read back from the way it stands in a quoted text. -/
theorem text_escapeChar (fuel : Nat) (gathered rest : List Char) (c : Char) :
    Reader.text (fuel + 1) true gathered (escapeChar c ++ rest) =
      Reader.text fuel true (c :: gathered) rest := by
  unfold escapeChar
  -- the escapes of one letter
  iterate 7
    split
    · subst_vars
      rfl
  split
  · rename_i small
    have read := fourHex_control small rest
    have trailing : Reader.isTrailing c.toNat = false := by simp [Reader.isTrailing]; omega
    have leading : Reader.isLeading c.toNat = false := by simp [Reader.isLeading]; omega
    simp [Reader.text, read, trailing, leading]
  · rename_i _ backslash _ _ _ _ _ printable
    simp [Reader.text, backslash, printable]

theorem text_flatMap (cs : List Char) (fuel : Nat) (gathered rest : List Char)
    (enough : cs.length < fuel) :
    Reader.text fuel true gathered (cs.flatMap escapeChar ++ '"' :: rest) =
      (.string (some (String.ofList (gathered.reverse ++ cs))), some rest) := by
  induction cs generalizing fuel gathered with
  | nil =>
    obtain ⟨fuel, rfl⟩ : ∃ n, fuel = n + 1 := ⟨fuel - 1, by simp at enough; omega⟩
    simp [Reader.text]
  | cons c cs ih =>
    obtain ⟨fuel, rfl⟩ : ∃ n, fuel = n + 1 := ⟨fuel - 1, by omega⟩
    rw [List.flatMap_cons, List.append_assoc, text_escapeChar, ih]
    · simp
    · simp at enough
      omega

theorem text_quoted (s : String) (rest : List Char) : ∃ cs, quoted s ++ rest = '"' :: cs ∧
    Reader.text (cs.length + 1) true [] cs = (.string (some s), some rest) := by
  refine ⟨s.toList.flatMap escapeChar ++ '"' :: rest, ?_, ?_⟩
  · simp [quoted]
  · have le : s.toList.length ≤ (s.toList.flatMap escapeChar).length := by
      generalize s.toList = cs
      induction cs with
      | nil => exact Nat.le_refl _
      | cons c cs ih =>
        have pos : 0 < (escapeChar c).length := by
          unfold escapeChar
          repeat' split
          all_goals simp
        rw [List.flatMap_cons, List.length_append, List.length_cons]
        omega
    rw [text_flatMap]
    · simp
    · rw [List.length_append]
      omega

/-! ### Blanks that are skipped -/

theorem skipSpace_blank {bs : List Char} (blank : ∀ c ∈ bs, isSpace c = true) (cs : List Char) :
    skipSpace (bs ++ cs) = skipSpace cs := by
  induction bs with
  | nil => rfl
  | cons b bs ih =>
    have here := blank b List.mem_cons_self
    rw [List.cons_append, skipSpace, List.dropWhile_cons, if_pos here]
    exact ih fun c hc => blank c (List.mem_cons_of_mem _ hc)

theorem skipSpace_cons {c : Char} (other : isSpace c = false) (cs : List Char) :
    skipSpace (c :: cs) = c :: cs := by
  rw [skipSpace, List.dropWhile_cons, other]
  rfl

theorem value_blank {bs : List Char} (blank : ∀ c ∈ bs, isSpace c = true) (fuel : Nat) (cs : List Char) :
    Reader.value fuel (bs ++ cs) = Reader.value fuel cs := by
  cases fuel with
  | zero => simp [Reader.value]
  | succ fuel => simp only [Reader.value, skipSpace_blank blank]

/-- Blanks, a comma and brackets cannot belong to a number. -/
theorem ends_of_blank (bs : List Char) (blank : ∀ c ∈ bs, isSpace c = true) {c : Char}
    (mark : c = ',' ∨ c = ']' ∨ c = '\x7d') (rest : List Char) : Reader.Ends (bs ++ c :: rest) := by
  intro d more e
  have first : d = ' ' ∨ d = '\n' ∨ d = '\t' ∨ d = '\r' ∨ d = c := by
    cases bs with
    | nil => cases e; simp
    | cons b bs =>
      cases e
      have first := blank d List.mem_cons_self
      simp only [isSpace, Bool.or_eq_true, decide_eq_true_eq] at first
      grind
  rcases mark with rfl | rfl | rfl <;> rcases first with rfl | rfl | rfl | rfl | rfl <;> decide

section
variable (blanks : Blanks)

theorem spellItems_ends (level : Nat) (items : List Json) (rest : List Char) :
    Reader.Ends (spellItems blanks level items ++ rest) := by
  cases items with
  | nil =>
    rw [spellItems, List.append_assoc]
    exact ends_of_blank _ (blanks.gap_blank level) (by simp) rest
  | cons item items =>
    rw [spellItems]
    exact ends_of_blank [] (by simp) (by simp) _

theorem skipSpace_noItems (level : Nat) (rest : List Char) :
    skipSpace (spellItems blanks level [] ++ rest) = ']' :: rest := by
  rw [spellItems, List.append_assoc, skipSpace_blank (blanks.gap_blank _)]
  rfl

theorem skipSpace_items (level : Nat) (item : Json) (items : List Json) (rest : List Char) :
    skipSpace (spellItems blanks level (item :: items) ++ rest) = ',' :: (blanks.gap (level + 1) ++
      (spell blanks (level + 1) item ++ (spellItems blanks level items ++ rest))) := by
  rw [spellItems, List.cons_append, skipSpace_cons (by decide)]
  simp only [List.append_assoc]

theorem spellMembers_ends (level : Nat) (members : List (String × Json)) (rest : List Char) :
    Reader.Ends (spellMembers blanks level members ++ rest) := by
  cases members with
  | nil =>
    rw [spellMembers, List.append_assoc]
    exact ends_of_blank _ (blanks.gap_blank level) (by simp) rest
  | cons e members =>
    rw [spellMembers]
    exact ends_of_blank [] (by simp) (by simp) _

theorem skipSpace_noMembers (level : Nat) (rest : List Char) :
    skipSpace (spellMembers blanks level [] ++ rest) = '\x7d' :: rest := by
  rw [spellMembers, List.append_assoc, skipSpace_blank (blanks.gap_blank _)]
  rfl

theorem skipSpace_members (level : Nat) (key : String) (value : Json) (members : List (String × Json))
    (rest : List Char) :
    skipSpace (spellMembers blanks level ((key, value) :: members) ++ rest) =
      ',' :: (blanks.gap (level + 1) ++ (quoted key ++ ':' :: (blanks.value ++
        (spell blanks (level + 1) value ++ (spellMembers blanks level members ++ rest))))) := by
  rw [spellMembers, List.cons_append, skipSpace_cons (by decide)]
  simp only [List.append_assoc, List.cons_append]

/-- A text begins neither with a blank nor with a bracket that closes. -/
theorem spell_head (level : Nat) (j : Json) (reads : AllReadBack j.floats) :
    ∃ c cs, spell blanks level j = c :: cs ∧ isSpace c = false ∧ c ≠ ']' := by
  cases j with
  | null => exact ⟨_, _, rfl, by decide, by decide⟩
  | bool b => cases b <;> exact ⟨_, _, rfl, by decide, by decide⟩
  | string s =>
    obtain ⟨cs, e, -⟩ := text_quoted s []
    rw [List.append_nil] at e
    exact ⟨_, _, e, by decide, by decide⟩
  | array items => cases items <;> exact ⟨_, _, rfl, by decide, by decide⟩
  | object members => cases members <;> exact ⟨_, _, rfl, by decide, by decide⟩
  | number n =>
    obtain ⟨l, read, -⟩ := exists_literal reads
    obtain ⟨c, cs, e, first⟩ := Reader.exists_of_number read
    refine ⟨c, cs, e, ?_, ?_⟩
    · rw [Bool.eq_false_iff]
      intro space
      simp only [isSpace, Bool.or_eq_true, decide_eq_true_eq] at space
      rcases space with ((rfl | rfl) | rfl) | rfl <;> simp at first
    · rintro rfl
      simp at first

end

theorem value_number {c : Char} {cs : List Char} (first : c = '-' ∨ c.isDigit = true) (fuel : Nat) :
    Reader.value (fuel + 1) (c :: cs) = Reader.number (c :: cs) := by
  have other : isSpace c = false := by
    rw [Bool.eq_false_iff]
    intro space
    simp only [isSpace, Bool.or_eq_true, decide_eq_true_eq] at space
    rcases space with ((rfl | rfl) | rfl) | rfl <;> simp at first
  simp only [Reader.value, skipSpace_cons other]
  split <;> rename_i e <;> cases e <;> simp_all

section
variable (blanks : Blanks)

mutual
/-- The text of a value is read as its document. -/
theorem value_spell (level : Nat) : (j : Json) → (fuel : Nat) → (rest : List Char) →
    AllReadBack j.floats → 2 * (spell blanks level j).length ≤ fuel + 1 → Reader.Ends rest →
    Reader.value (fuel + 1) (spell blanks level j ++ rest) = (j.doc, some rest)
  | .null, _, _, _, _, _ | .bool true, _, _, _, _, _ | .bool false, _, _, _, _, _ => rfl
  | .array [], _, _, _, _, _ | .object [], _, _, _, _, _ => rfl
  | .number n, fuel, rest, reads, _, ends => by
    obtain ⟨l, read, -⟩ := exists_literal reads
    obtain ⟨c, cs, e, first⟩ := Reader.exists_of_number read
    rw [spell, e, List.cons_append, value_number first, ← List.cons_append, ← e,
      Reader.number_append read ends, doc, read]
    rfl
  | .string s, fuel, rest, _, _, _ => by
    obtain ⟨cs, e, read⟩ := text_quoted s rest
    rw [spell, e]
    simp only [Reader.value, skipSpace_cons (c := '"') (by decide), read, doc]
  | .array (item :: items), fuel, rest, reads, enough, _ => by
    have shorter : 2 * (blanks.gap (level + 1) ++
        (spell blanks (level + 1) item ++ spellItems blanks level items)).length ≤ fuel := by
      rw [spell, List.length_cons] at enough
      omega
    have read := items_spell level item items fuel rest reads shorter
    obtain ⟨c, cs, head, nonblank, opened⟩ :=
      spell_head blanks (level + 1) item (AllReadBack.append.1 reads).1
    have skipped (more : List Char) : skipSpace (blanks.gap (level + 1) ++
        (spell blanks (level + 1) item ++ more)) = c :: (cs ++ more) := by
      rw [skipSpace_blank (blanks.gap_blank _), head, List.cons_append, skipSpace_cons nonblank]
    rw [spell]
    simp only [List.cons_append, List.append_assoc, Reader.value, skipSpace_cons (c := '[') (by decide),
      skipped, read, doc]
    simp [opened]
  | .object ((key, value) :: members), fuel, rest, reads, enough, _ => by
    have shorter : 2 * (blanks.gap (level + 1) ++ (quoted key ++ ':' :: (blanks.value ++
        (spell blanks (level + 1) value ++ spellMembers blanks level members)))).length ≤ fuel := by
      rw [spell, List.length_cons] at enough
      omega
    have read := members_spell level key value members fuel rest reads shorter
    have skipped (more : List Char) : ∃ cs, skipSpace (blanks.gap (level + 1) ++
        (quoted key ++ more)) = '"' :: cs := by
      obtain ⟨cs, e, -⟩ := text_quoted key more
      rw [skipSpace_blank (blanks.gap_blank _), e, skipSpace_cons (by decide)]
      exact ⟨cs, rfl⟩
    rw [spell]
    simp only [List.cons_append, List.append_assoc, Reader.value,
      skipSpace_cons (c := '\x7b') (by decide)]
    obtain ⟨cs, e⟩ := skipped (':' :: (blanks.value ++
      (spell blanks (level + 1) value ++ (spellMembers blanks level members ++ rest))))
    simp only [e, read, doc]
    simp
termination_by j => sizeOf j

theorem items_spell (level : Nat) (item : Json) (items : List Json) (fuel : Nat) (rest : List Char)
    (reads : AllReadBack (floatsOfItems (item :: items)))
    (enough : 2 * (blanks.gap (level + 1) ++
      (spell blanks (level + 1) item ++ spellItems blanks level items)).length ≤ fuel) :
    Reader.items fuel (blanks.gap (level + 1) ++
      (spell blanks (level + 1) item ++ (spellItems blanks level items ++ rest))) =
      ((docs (item :: items), none), some rest) := by
  obtain ⟨first, others⟩ := AllReadBack.append.1 reads
  have pos : 0 < (spellItems blanks level items).length := by cases items <;> simp [spellItems]
  simp only [List.length_append] at enough
  -- what stands behind the item is at least one character, which pays for the two steps taken here
  obtain ⟨fuel, rfl⟩ : ∃ n, fuel = n + 2 := ⟨fuel - 2, by omega⟩
  have read := value_spell (level + 1) item fuel (spellItems blanks level items ++ rest) first (by omega)
    (spellItems_ends blanks level items rest)
  rw [Reader.items, value_blank (blanks.gap_blank _), read]
  cases items with
  | nil => simp only [skipSpace_noItems, docs]
  | cons next more =>
    simp only [spellItems, List.length_cons, List.length_append] at enough
    have again := items_spell level next more (fuel + 1) rest others (by simp only [List.length_append]; omega)
    simp only [skipSpace_items, again]
    rfl
termination_by sizeOf (item :: items)

theorem members_spell (level : Nat) (key : String) (value : Json) (members : List (String × Json))
    (fuel : Nat) (rest : List Char) (reads : AllReadBack (floatsOfMembers ((key, value) :: members)))
    (enough : 2 * (blanks.gap (level + 1) ++ (quoted key ++ ':' :: (blanks.value ++
      (spell blanks (level + 1) value ++ spellMembers blanks level members)))).length ≤ fuel) :
    Reader.members fuel (blanks.gap (level + 1) ++ (quoted key ++ ':' :: (blanks.value ++
      (spell blanks (level + 1) value ++ (spellMembers blanks level members ++ rest))))) =
      ((memberDocs ((key, value) :: members), .closed), some rest) := by
  obtain ⟨first, others⟩ := AllReadBack.append.1 reads
  have pos : 0 < (spellMembers blanks level members).length := by cases members <;> simp [spellMembers]
  simp only [List.length_append, List.length_cons] at enough
  obtain ⟨fuel, rfl⟩ : ∃ n, fuel = n + 2 := ⟨fuel - 2, by omega⟩
  have read := value_spell (level + 1) value fuel (spellMembers blanks level members ++ rest) first
    (by omega) (spellMembers_ends blanks level members rest)
  obtain ⟨cs, e, text⟩ := text_quoted key (':' :: (blanks.value ++
    (spell blanks (level + 1) value ++ (spellMembers blanks level members ++ rest))))
  rw [Reader.members, skipSpace_blank (blanks.gap_blank _), e]
  simp only [skipSpace_cons (c := '"') (by decide), text, skipSpace_cons (c := ':') (by decide),
    value_blank blanks.value_blank, read]
  match split : members with
  | [] => simp only [skipSpace_noMembers, memberDocs]
  | (key', value') :: more =>
    have size : sizeOf members = 1 + (1 + sizeOf key' + sizeOf value') + sizeOf more := by simp [split]
    simp only [spellMembers, List.length_cons, List.length_append] at enough
    have again := members_spell level key' value' more (fuel + 1) rest others
      (by simp only [List.length_append, List.length_cons]; omega)
    simp only [skipSpace_members, again]
    rfl
termination_by sizeOf ((key, value) :: members)
end

/-- The whole text of a value is its document. -/
theorem read_spell (j : Json) (reads : AllReadBack j.floats) (level : Nat) :
    Doc.read (String.ofList (spell blanks level j)) = ⟨j.doc, false⟩ := by
  have read := value_spell blanks level j (2 * (spell blanks level j).length + 1) [] reads (by omega)
    .nil
  rw [List.append_nil] at read
  simp only [Doc.read, String.toList_ofList, read]
  rfl

end

/-- A text that was written is read as the document of what it was written for. -/
theorem read_written (j : Json) (reads : AllReadBack j.floats) :
    Doc.read j.compress = ⟨j.doc, false⟩ ∧ Doc.read j.pretty = ⟨j.doc, false⟩ := by
  have compressed := read_spell .none j reads 0
  have pretty := read_spell .lines j reads 0
  rw [← compress_toList, String.ofList_toList] at compressed
  rw [← prettyAt_toList, String.ofList_toList] at pretty
  exact ⟨compressed, pretty⟩

end StrategyForm.Json
