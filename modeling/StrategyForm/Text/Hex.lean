/-!
# Hexadecimal digits
-/

namespace StrategyForm.Text

/-- The value of a hexadecimal digit in either case. -/
def hexValue? (c : Char) : Option Nat :=
  if '0' ≤ c ∧ c ≤ '9' then some (c.toNat - '0'.toNat)
  else if 'a' ≤ c ∧ c ≤ 'f' then some (c.toNat - 'a'.toNat + 10)
  else if 'A' ≤ c ∧ c ≤ 'F' then some (c.toNat - 'A'.toNat + 10)
  else none

/-- The digit of a value below sixteen, in lower case. -/
def hexLower (n : Nat) : Char := "0123456789abcdef".toList.getD n '0'

/-- The digit of a value below sixteen, in capitals. -/
def hexUpper (n : Nat) : Char := "0123456789ABCDEF".toList.getD n '0'

/-- A number in lower-case digits without leading zeros. -/
def hexText (n : Nat) : String := String.ofList (Nat.toDigits 16 n)

/-- The number that digits of a base stand for, all of which must be below the base. -/
def number? (base : Nat) (cs : List Char) : Option Nat :=
  cs.foldl (fun n c => do
    let d ← hexValue? c
    if d < base then some ((← n) * base + d) else none) (some 0)

theorem hexValue?_hexUpper {n : Nat} (h : n < 16) : hexValue? (hexUpper n) = some n := by
  have : ∀ k : Fin 16, hexValue? (hexUpper k) = some k.val := by decide
  exact this ⟨n, h⟩

theorem hexValue?_hexLower {n : Nat} (h : n < 16) : hexValue? (hexLower n) = some n := by
  have : ∀ k : Fin 16, hexValue? (hexLower k) = some k.val := by decide
  exact this ⟨n, h⟩

end StrategyForm.Text
