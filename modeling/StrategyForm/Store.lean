import StrategyForm.Keyed

/-!
# Stores with a time to live

A store keeps each value with the time at which it arrived. A value counts as long as less than the
time to live has passed; a dead value stays until it is replaced or removed, and is still counted by
`size`. Times are milliseconds.
-/

namespace StrategyForm

/-- A value and the time at which it was stored. -/
structure Entry (α : Type) where
  value : α
  storedAt : Nat
deriving DecidableEq, Repr

/-- Values by id, with their times. -/
structure Store (α : Type) where
  entries : Keyed (Entry α) := .empty

namespace Store
variable {α : Type}

instance : Inhabited (Store α) := ⟨{}⟩

/-- The entry is younger than the time to live. -/
def isFresh (ttl now : Nat) (e : Entry α) : Bool := now - e.storedAt < ttl

/-- The value under an id, unless it is dead. -/
def get? (s : Store α) (ttl now : Nat) (id : String) : Option α :=
  ((s.entries.get? id).filter (isFresh ttl now)).map (·.value)

/-- Stores a value, replacing one under the same id. -/
def put (s : Store α) (now : Nat) (id : String) (value : α) : Store α :=
  ⟨s.entries.insert id ⟨value, now⟩⟩

def remove (s : Store α) (id : String) : Store α := ⟨s.entries.erase id⟩

/-- There is an entry under the id, dead or not. -/
def holds (s : Store α) (id : String) : Bool := s.entries.contains id

/-- The number of entries, dead ones included. -/
def size (s : Store α) : Nat := s.entries.size

end Store

end StrategyForm
