import StrategyForm.Web.Url

/-!
# Escapes and back

Main statement (`decodeText?_encode`): a text that is escaped in any way in which the percent sign
itself is escaped reads back as that text, so escaping loses nothing. What is written is made of percent
signs, capital hexadecimal digits and characters that need no escape (`mem_encode`).
-/

namespace StrategyForm.Web.Percent
open Text

variable {escaped : Char → Bool}

theorem decode_encodeByte (b : UInt8) (rest : List Char) :
    decode (encodeByte b ++ rest) = b :: decode rest := by
  have size : b.toNat < 256 := b.toNat_lt
  have high := hexValue?_hexUpper (show b.toNat / 16 < 16 by omega)
  have low := hexValue?_hexUpper (show b.toNat % 16 < 16 by omega)
  have whole : b.toNat / 16 * 16 + b.toNat % 16 = b.toNat := by omega
  simp [encodeByte, decode, high, low, whole]

theorem decode_encodeBytes (bs : List UInt8) (rest : List Char) :
    decode (bs.flatMap encodeByte ++ rest) = bs ++ decode rest := by
  induction bs with
  | nil => rfl
  | cons b bs ih => rw [List.flatMap_cons, List.append_assoc, decode_encodeByte, ih, List.cons_append]

theorem decode_cons {c : Char} (h : c ≠ '%') (rest : List Char) :
    decode (c :: rest) = String.utf8EncodeChar c ++ decode rest := by
  rw [decode]
  intro a b rest e
  exact absurd e h

theorem decode_encodeChar (percent : escaped '%' = true) (c : Char) (rest : List Char) :
    decode (encodeChar escaped c ++ rest) = String.utf8EncodeChar c ++ decode rest := by
  unfold encodeChar
  split
  · exact decode_encodeBytes _ rest
  · rename_i plain
    have ne : c ≠ '%' := by
      rintro rfl
      exact plain percent
    exact decode_cons ne rest

theorem decode_encode (percent : escaped '%' = true) (cs : List Char) :
    decode (encode escaped cs) = cs.flatMap String.utf8EncodeChar := by
  induction cs with
  | nil => rfl
  | cons c cs ih =>
    have rest : decode (cs.flatMap (encodeChar escaped)) = cs.flatMap String.utf8EncodeChar := ih
    rw [encode, List.flatMap_cons, decode_encodeChar percent, rest, List.flatMap_cons]

/-- An escaped text reads back. -/
theorem decodeText?_encode (percent : escaped '%' = true) (cs : List Char) :
    decodeText? (encode escaped cs) = some (String.ofList cs) := by
  have bytes : (decode (encode escaped cs)).toByteArray = (String.ofList cs).toByteArray := by
    rw [decode_encode percent]
    rfl
  unfold decodeText? String.fromUTF8?
  rw [bytes, dif_pos (String.ofList cs).isValidUTF8]
  rfl

theorem mem_encode {c : Char} {cs : List Char} (mem : c ∈ encode escaped cs) :
    c = '%' ∨ (∃ n < 16, c = hexUpper n) ∨ escaped c = false := by
  obtain ⟨a, -, inside⟩ := List.mem_flatMap.1 mem
  unfold encodeChar at inside
  split at inside
  · obtain ⟨b, -, inside⟩ := List.mem_flatMap.1 inside
    have size : b.toNat < 256 := b.toNat_lt
    simp only [encodeByte, List.mem_cons, List.not_mem_nil, or_false] at inside
    rcases inside with rfl | rfl | rfl
    · exact .inl rfl
    · exact .inr (.inl ⟨_, by omega, rfl⟩)
    · exact .inr (.inl ⟨_, by omega, rfl⟩)
  · rename_i plain
    rw [List.mem_singleton.1 inside]
    exact .inr (.inr (by simpa using plain))

end StrategyForm.Web.Percent
