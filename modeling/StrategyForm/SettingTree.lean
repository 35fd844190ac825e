import StrategyForm.Decimal.Extended
import StrategyForm.Json.Value
import StrategyForm.Text.Fold

/-!
# Trees of settings

What a settings file or the environment says, before it is read as settings: values in tables.
Setting a value at a path makes the tables on the way, and puts them in the place of what is no
table. A table that is set is merged into the one that is there, key by key, so that a later source
changes only the leaves that it has. The entries of a table are sorted by key.
-/

namespace StrategyForm
open Decimal

inductive SettingTree where
  | nothing
  | flag (value : Bool)
  | whole (value : Int)
  | real (value : Extended)
  | text (value : String)
  | list (items : List SettingTree)
  | table (entries : List (String × SettingTree))
deriving Repr, Inhabited

namespace SettingTree
open Keyed (find put)

/-- The entries of a table; anything else has none. -/
def entries : SettingTree → List (String × SettingTree)
  | table es => es
  | _ => []

/-- The tree under a key. -/
def child? (t : SettingTree) (key : String) : Option SettingTree := find key t.entries

/-- The tree at the end of a path. -/
def at? : SettingTree → List String → Option SettingTree
  | t, [] => some t
  | t, key :: rest => (t.child? key).bind (at? · rest)

mutual
/-- Sets the value under a key. -/
def set (key : String) (root : SettingTree) : SettingTree → SettingTree
  | table incoming =>
    table (put key (merge ((root.child? key).getD (table [])) incoming) root.entries)
  | value => table (put key value root.entries)

/-- Sets all entries of a table. Without any, the tree stays what it is. -/
def merge (target : SettingTree) : List (String × SettingTree) → SettingTree
  | [] => target
  | (key, value) :: rest => merge (set key target value) rest
end

/-- Sets the value at the end of a path. -/
def setAt (value : SettingTree) : List String → SettingTree → SettingTree
  | [], root => root
  | [key], root => set key root value
  | key :: rest, root =>
    table (put key (setAt value rest ((root.child? key).getD nothing)) root.entries)

/-- A character of the names that a path is made of. -/
def isNameChar (c : Char) : Bool := c.isAlphanum || c = '_' || c = '-' || c = ' '

/-- The path that a key spells with stops between names; a key of another form is one name. -/
def path (key : String) : List String :=
  let names := key.toList.splitOn '.'
  if names.all fun n => !n.isEmpty && n.all isNameChar then names.map String.ofList else [key]

/-- The tree with the entries of a source, each at the path that its key spells. -/
def overlay (t : SettingTree) (source : List (String × SettingTree)) : SettingTree :=
  source.foldl (fun t (key, value) => setAt value (path key) t) t

mutual
/-- A JSON value as a tree. An integer beyond the signed 64-bit range becomes a float. -/
def ofJson : Json → SettingTree
  | .null => nothing
  | .bool b => flag b
  | .number (.int i _) => if i < 0x8000000000000000 then whole i else real (.finite (.ofInt i))
  | .number (.float x) => real (.finite x)
  | .string s => text s
  | .array items => list (ofJsonItems items)
  | .object members => table (ofJsonMembers members)

def ofJsonItems : List Json → List SettingTree
  | [] => []
  | j :: rest => ofJson j :: ofJsonItems rest

def ofJsonMembers : List (String × Json) → List (String × SettingTree)
  | [] => []
  | (key, j) :: rest => (key, ofJson j) :: ofJsonMembers rest
end

/-! ### Reading leaves -/

/-- A decimal integer with a sign or none, such as texts of the environment hold. -/
def integer? (s : String) : Option Int :=
  let (negative, ds) := match s.toList with
    | '-' :: rest => (true, rest)
    | '+' :: rest => (false, rest)
    | cs => (false, cs)
  if ds.isEmpty || !ds.all Char.isDigit then none
  else some (if negative then -(Extended.value ds : Int) else Extended.value ds)

/-- An integer within the signed 64-bit range. -/
def integer64? (s : String) : Option Int :=
  (integer? s).filter fun i => -0x8000000000000000 ≤ i && i < 0x8000000000000000

/-- The number that a text stands for where a number is wanted: a word that says yes or no, or an
unsigned decimal. -/
def numberOfText? (s : String) : Option Nat :=
  let word := Text.fold s
  if ["true", "on", "yes"].contains word then some 1
  else if ["false", "off", "no"].contains word then some 0
  else if s.startsWith "-" then none
  else (integer? s).bind fun i => if i < 0x10000000000000000 then some i.toNat else none

/-- The unsigned number that a leaf stands for. A float is rounded, a negative integer is refused.
-/
def asNumber? : SettingTree → Option Nat
  | whole i => if 0 ≤ i then some i.toNat else none
  | real x => some x.toNat64
  | flag b => some b.toNat
  | text s => numberOfText? s
  | nothing | list _ | table _ => none

/-- The text that a leaf stands for. -/
def asText? : SettingTree → Option String
  | text s => some s
  | flag b => some (if b then "true" else "false")
  | whole i => some (toString i)
  | real x => some x.render
  | nothing | list _ | table _ => none

end SettingTree

end StrategyForm
