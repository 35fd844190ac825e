import StrategyForm.Json.Reader

/-!
# Decoding documents

A decoder takes the number of brackets that may still be opened around kept values and a document,
and gives a value or the first mistake in the order of the text. A record is decoded from an
object, where unknown keys are skipped and a repeated key is a wrong shape, or from an array of its
fields in their declared order, of which trailing optional ones may be left out.
-/

namespace StrategyForm.Json

/-- Reads a value of `α` from a document within a number of levels. -/
abbrev Decoder (α : Type) := Nat → Doc → Except Mistake α

namespace Decoder
variable {α β ρ : Type}

/-- Brackets that may be opened around a kept value. -/
def levels : Nat := 127

/-- The text holds one value of `α` and nothing else. -/
def decode (d : Decoder α) (text : String) : Except Mistake α :=
  let whole := Doc.read text
  match d levels whole.doc with
  | .error m => .error m
  | .ok a => if whole.trailing then .error .malformed else .ok a

def map (f : α → β) (d : Decoder α) : Decoder β := fun levels doc => (d levels doc).map f

/-- A member's key, which must be kept. -/
def key (k : Option String) : Except Mistake String :=
  match k with
  | some s => .ok s
  | none => .error .malformed

/-- The end of an object whose members were all read. -/
def objectEnd : Ending → Except Mistake Unit
  | .closed => .ok ()
  | .unclosed f => .error (.flawed f)
  | .keyless kept _ _ => .error (.flawed kept)

/-- The end of an array whose items were all read. -/
def arrayEnd : Option Flaw → Except Mistake Unit
  | none => .ok ()
  | some f => .error (.flawed f)

/-- Any value, not kept. -/
def skip (doc : Doc) : Except Mistake Unit :=
  match doc.flaw? with
  | none => .ok ()
  | some f => .error (.flawed f)

mutual
/-- Any value, kept. In an object the last of several members with one key counts. -/
def json : Nat → Doc → Except Mistake Json
  | _, .null => .ok .null
  | _, .bool b => .ok (.bool b)
  | _, .number l =>
    match l.toNumber? with
    | some n => .ok (.number n)
    | none => .error .malformed
  | _, .string (some s) => .ok (.string s)
  | _, .string none => .error .malformed
  | 0, .array .. | 0, .object .. => .error .malformed
  | levels + 1, .array items ending => do
    let found ← jsonItems levels items
    arrayEnd ending
    pure (.array found)
  | levels + 1, .object members ending => do
    let found ← jsonMembers levels members
    objectEnd ending
    pure (.object (Keyed.ofList found).entries)
  | _, .flaw kept _ | _, .brokenWord _ kept | _, .brokenNumber kept => .error (.flawed kept)

def jsonItems (levels : Nat) : List Doc → Except Mistake (List Json)
  | [] => .ok []
  | d :: rest => do
    let j ← json levels d
    let js ← jsonItems levels rest
    pure (j :: js)

def jsonMembers (levels : Nat) :
    List (Option String × Doc) → Except Mistake (List (String × Json))
  | [] => .ok []
  | (k, d) :: rest => do
    let k ← key k
    let j ← json levels d
    let js ← jsonMembers levels rest
    pure ((k, j) :: js)
end

def text : Decoder String
  | _, .string (some s) => .ok s
  | _, doc => .error doc.mismatch

def bool : Decoder Bool
  | _, .bool b => .ok b
  | _, doc => .error doc.mismatch

/-- A number of any spelling that is not beyond the largest float. -/
def number : Decoder Number
  | _, .number l =>
    match l.toNumber? with
    | some n => .ok n
    | none => .error .malformed
  | _, doc => .error doc.mismatch

def float : Decoder Decimal.Binary64 := number.map Number.toBinary64

/-- An integer that `narrow` accepts; a float is not one, whatever its value. -/
def integer (narrow : Int → Option α) : Decoder α := fun levels doc => do
  match ← number levels doc with
  | .int i _ =>
    match narrow i with
    | some a => .ok a
    | none => .error .misshapen
  | .float _ => .error .misshapen

def int64 : Decoder Int64 :=
  integer fun i =>
    if -0x8000000000000000 ≤ i ∧ i < 0x8000000000000000 then some (Int64.ofInt i) else none

def uint64 : Decoder UInt64 :=
  integer fun i =>
    if 0 ≤ i ∧ i < 0x10000000000000000 then some (UInt64.ofNat i.toNat) else none

def uint32 : Decoder UInt32 :=
  integer fun i => if 0 ≤ i ∧ i < 0x100000000 then some (UInt32.ofNat i.toNat) else none

/-- A value, or `null` for none. -/
def optional (d : Decoder α) : Decoder (Option α)
  | _, .null => .ok none
  | _, .brokenWord true f => .error (.flawed f)
  | levels, doc => (d levels doc).map some

def list (d : Decoder α) : Decoder (List α)
  | 0, .array .. => .error .malformed
  | levels + 1, .array items ending => do
    let found ← items.mapM (d levels)
    arrayEnd ending
    pure found
  | _, doc => .error doc.mismatch

/-- An object as a map; the last of several members with one key counts. -/
def keyed (d : Decoder α) : Decoder (Keyed α)
  | 0, .object .. => .error .malformed
  | levels + 1, .object members ending => do
    let found ← members.mapM fun (k, doc) => do
      let k ← key k
      let a ← d levels doc
      pure (k, a)
    objectEnd ending
    pure (.ofList found)
  | _, doc => .error doc.mismatch

/-- One of a set of words, given as the word or as an object with the word as its one key and `null`
under it. Anything else is not even taken for a word. -/
def oneOf (choose : String → Option α) : Decoder α
  | _, .string (some s) => pick s
  | _, .string none => .error .malformed
  | 0, .object .. => .error .malformed
  | _, .object ((k, doc) :: rest) ending => do
    let a ← pick (← key k)
    match doc with
    | .null => pure ()
    | _ => .error doc.mismatch
    match rest, ending with
    | [], .closed => pure a
    | [], .unclosed f => .error (.flawed f)
    | _, _ => .error .malformed
  | _, .object [] (.unclosed f) => .error (.flawed f)
  | _, .object [] (.keyless _ _ standing) => .error standing
  | _, .flaw kept _ => .error (.flawed kept)
  | _, _ => .error .malformed
where
  pick (s : String) : Except Mistake α :=
    match choose s with
    | some a => .ok a
    | none => .error .misshapen

/-! ### Records -/

/-- A field of a record on the wire: its names, the first being the one that is written, whether it
may be absent, and how its document changes the record. -/
structure Slot (ρ : Type) where
  names : List String
  required : Bool
  set : Nat → Doc → Except Mistake (ρ → ρ)

/-- A field that must be present, under one of its names. -/
def need (names : List String) (d : Decoder α) (put : α → ρ → ρ) : Slot ρ :=
  ⟨names, true, fun levels doc => (d levels doc).map put⟩

/-- A field that keeps the value of the blank record when it is absent. -/
def allow (name : String) (d : Decoder α) (put : α → ρ → ρ) : Slot ρ :=
  ⟨[name], false, fun levels doc => (d levels doc).map put⟩

/-- Every field that must be present was filled. -/
def complete (slots : List (Slot ρ)) (filled : List Nat) : Bool :=
  slots.zipIdx.all fun (slot, i) => !slot.required || filled.contains i

/-- The members of an object, one after the other: the record so far and the slots already filled.
-/
def fill (slots : List (Slot ρ)) (levels : Nat) :
    ρ × List Nat → List (Option String × Doc) → Except Mistake (ρ × List Nat)
  | state, [] => .ok state
  | (record, filled), (k, doc) :: rest => do
    let name ← key k
    match slots.findIdx? (·.names.contains name) with
    | none =>
      skip doc
      fill slots levels (record, filled) rest
    | some i =>
      if filled.contains i then .error .misshapen
      else
        match slots[i]? with
        | none => fill slots levels (record, filled) rest
        | some slot =>
          let change ← slot.set levels doc
          fill slots levels (change record, i :: filled) rest

/-- The items of an array, one for each slot. -/
def fillInOrder (levels : Nat) (ending : Option Flaw) :
    ρ → List (Slot ρ) → List Doc → Except Mistake ρ
  | record, [], [] => do
    arrayEnd ending
    pure record
  | _, [], _ :: _ => .error .malformed
  | record, slot :: slots, doc :: rest => do
    let change ← slot.set levels doc
    fillInOrder levels ending (change record) slots rest
  | record, slot :: slots, [] => do
    arrayEnd ending
    if (slot :: slots).any (·.required) then .error .misshapen else pure record

/-- A record with these slots; absent fields are those of the blank record. -/
def record (slots : List (Slot ρ)) (blank : ρ) : Decoder ρ
  | 0, .array .. | 0, .object .. => .error .malformed
  | levels + 1, .array items ending => fillInOrder levels ending blank slots items
  | levels + 1, .object members ending => do
    let (record, filled) ← fill slots levels (blank, []) members
    objectEnd ending
    if complete slots filled then pure record else .error .misshapen
  | _, doc => .error doc.mismatch

end Decoder

end StrategyForm.Json
