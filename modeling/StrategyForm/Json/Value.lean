import StrategyForm.Json.Number
import StrategyForm.Keyed

/-!
# JSON values

The values that are kept as they are: defaults of fields, form values, literals of conditions.
Members of an object stand in the order in which they are written; an object that was read has them
sorted by key, each key once.
-/

namespace StrategyForm

inductive Json where
  | null
  | bool (value : Bool)
  | number (value : Json.Number)
  | string (value : String)
  | array (items : List Json)
  | object (members : List (String × Json))
deriving Repr, Inhabited

namespace Json

mutual
/-- Decides whether two values are the same, representation of numbers included. -/
def decEq : (a b : Json) → Decidable (a = b)
  | .null, .null => isTrue rfl
  | .bool a, .bool b => if h : a = b then isTrue (by rw [h]) else isFalse (by simpa using h)
  | .number a, .number b => if h : a = b then isTrue (by rw [h]) else isFalse (by simpa using h)
  | .string a, .string b => if h : a = b then isTrue (by rw [h]) else isFalse (by simpa using h)
  | .array a, .array b =>
    match decEqItems a b with
    | isTrue h => isTrue (by rw [h])
    | isFalse h => isFalse (by simpa using h)
  | .object a, .object b =>
    match decEqMembers a b with
    | isTrue h => isTrue (by rw [h])
    | isFalse h => isFalse (by simpa using h)
  | .null, .bool _ | .null, .number _ | .null, .string _ | .null, .array _ | .null, .object _
  | .bool _, .null | .bool _, .number _ | .bool _, .string _ | .bool _, .array _
  | .bool _, .object _
  | .number _, .null | .number _, .bool _ | .number _, .string _ | .number _, .array _
  | .number _, .object _
  | .string _, .null | .string _, .bool _ | .string _, .number _ | .string _, .array _
  | .string _, .object _
  | .array _, .null | .array _, .bool _ | .array _, .number _ | .array _, .string _
  | .array _, .object _
  | .object _, .null | .object _, .bool _ | .object _, .number _ | .object _, .string _
  | .object _, .array _ => isFalse (by simp)

def decEqItems : (a b : List Json) → Decidable (a = b)
  | [], [] => isTrue rfl
  | [], _ :: _ | _ :: _, [] => isFalse (by simp)
  | x :: xs, y :: ys =>
    match decEq x y, decEqItems xs ys with
    | isTrue h, isTrue t => isTrue (by rw [h, t])
    | isFalse h, _ => isFalse (by simp [h])
    | _, isFalse t => isFalse (by simp [t])

def decEqMembers : (a b : List (String × Json)) → Decidable (a = b)
  | [], [] => isTrue rfl
  | [], _ :: _ | _ :: _, [] => isFalse (by simp)
  | (j, x) :: xs, (k, y) :: ys =>
    if e : j = k then
      match decEq x y, decEqMembers xs ys with
      | isTrue h, isTrue t => isTrue (by rw [e, h, t])
      | isFalse h, _ => isFalse (by simp [h])
      | _, isFalse t => isFalse (by simp [t])
    else isFalse (by simp [e])
end

instance : DecidableEq Json := decEq

/-- An integer; one outside 64 bits becomes a float. -/
def ofInt (i : Int) : Json := .number (.ofInt i)

def ofFloat (x : Decimal.Binary64) : Json := .number (.float x)

def ofStrings (texts : List String) : Json := .array (texts.map .string)

/-- Text or `null`. -/
def ofText? : Option String → Json
  | some s => .string s
  | none => .null

/-- The object of a map. -/
def ofKeyed (m : Keyed Json) : Json := .object m.entries

/-- The number that a value is, as a float. -/
def asBinary64? : Json → Option Decimal.Binary64
  | .number n => some n.toBinary64
  | _ => none

def asString? : Json → Option String
  | .string s => some s
  | _ => none

/-- A member of an object, by key. -/
def member? (j : Json) (key : String) : Option Json :=
  match j with
  | .object members => Keyed.find key members
  | _ => none

end Json

end StrategyForm
