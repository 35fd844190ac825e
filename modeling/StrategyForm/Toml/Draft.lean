import StrategyForm.SettingTree

/-!
# Drafts of tables

While a TOML text is read, a table remembers how it came about, because that decides what may still
be added to it: a table that was only passed through on the way to another may be opened once; a
table made by a key with dots grows only by such keys; any other table is closed to keys with dots
from outside. What is written as a value is closed for good.
-/

namespace StrategyForm.Toml
open Keyed (find put)

inductive Draft where
  | value (tree : SettingTree)
  | table (isPassing isDotted : Bool) (entries : List (String × Draft))
  /-- The tables of a list of tables; the last one is open. -/
  | rows (tables : List Draft)
deriving Inhabited

namespace Draft

mutual
def toTree : Draft → SettingTree
  | value t => t
  | table _ _ entries => .table (toEntries entries)
  | rows tables => .list (toTrees tables)

def toEntries : List (String × Draft) → List (String × SettingTree)
  | [] => []
  | (key, d) :: rest => (key, toTree d) :: toEntries rest

def toTrees : List Draft → List SettingTree
  | [] => []
  | d :: rest => toTree d :: toTrees rest
end

/-- A table that a header or a pair of braces opens. -/
def opened : Draft := table false false []

/-- Changes the table at the end of a path, passing through tables and making those that are not
there. `dotted` tells whether the path is a key with dots. -/
def change (dotted : Bool) (f : Draft → Option Draft) : List String → Draft → Option Draft
  | [], d => f d
  | key :: rest, table isPassing isDotted entries =>
    let store (d : Draft) : Draft := table isPassing isDotted (put key d entries)
    match (find key entries).getD (table true dotted []) with
    | value _ => none
    | rows tables => do
      let last ← tables.getLast?
      let last ← change dotted f rest last
      some (store (rows (tables.dropLast ++ [last])))
    | table childPassing childDotted children =>
      if dotted && !childPassing then none
      else (change dotted f rest (table childPassing childDotted children)).map store
  | _ :: _, _ => none

/-- Adds a value to a table that has none under the key. -/
def add (key : String) (tree : SettingTree) (dotted : Bool) : Draft → Option Draft
  | table isPassing isDotted entries =>
    if isDotted != dotted || (find key entries).isSome then none
    else some (table isPassing isDotted (put key (value tree) entries))
  | _ => none

/-- Splits a key into the tables it passes and its last name. -/
def atLast : List String → Option (List String × String)
  | [] => none
  | key :: rest => some ((key :: rest).dropLast, (key :: rest).getLast (by simp))

/-- Sets a value under a key of a table. -/
def assign (key : List String) (tree : SettingTree) (d : Draft) : Option Draft := do
  let (passed, last) ← atLast key
  change true (add last tree !passed.isEmpty) passed d

/-- Opens the table under a key. -/
def openTable (key : List String) (d : Draft) : Option Draft := do
  let (passed, last) ← atLast key
  change false
    (fun
      | table isPassing isDotted entries =>
        match find last entries with
        | none => some (table isPassing isDotted (put last opened entries))
        | some (table true false children) =>
          some (table isPassing isDotted (put last (table false false children) entries))
        | some _ => none
      | _ => none)
    passed d

/-- Opens a new table at the end of the list of tables under a key. -/
def openRow (key : List String) (d : Draft) : Option Draft := do
  let (passed, last) ← atLast key
  change false
    (fun
      | table isPassing isDotted entries =>
        match find last entries with
        | none => some (table isPassing isDotted (put last (rows [opened]) entries))
        | some (rows tables) =>
          some (table isPassing isDotted (put last (rows (tables ++ [opened])) entries))
        | some _ => none
      | _ => none)
    passed d

end Draft

end StrategyForm.Toml
