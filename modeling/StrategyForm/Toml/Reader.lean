import StrategyForm.Toml.Draft
import StrategyForm.Toml.Quoted
import StrategyForm.Toml.Scalar

/-!
# Reading TOML

A text is a sequence of lines: keys with values, headers of tables, and comments. Each reader takes
the characters that are left and gives what it found with those after it. The recursion is bounded
by the number of characters; brackets are nested at most 79 deep.
-/

namespace StrategyForm.Toml

/-- A reader of `α` from the front of a text. -/
abbrev Scan (α : Type) := List Char → Option (α × List Char)

/-- What a reader finds after its character. -/
def expect (c : Char) : List Char → Option (List Char)
  | d :: rest => if d = c then some rest else none
  | [] => none

/-- The text after a comment, if one stands here. -/
def skipComment : List Char → List Char
  | '#' :: rest => rest.dropWhile isPlain
  | cs => cs

/-- The text after blanks, comments and line breaks. -/
def skipLines : Nat → List Char → List Char
  | 0, cs => cs
  | fuel + 1, cs =>
    let cs := skipComment (skipBlanks cs)
    match afterBreak? cs with
    | some rest => skipLines fuel rest
    | none => cs

/-- The text after the end of a line, before which only a comment may stand. -/
def endLine (cs : List Char) : Option (List Char) :=
  match skipComment (skipBlanks cs) with
  | [] => some []
  | cs => afterBreak? cs

/-! ### Keys -/

def isKeyChar (c : Char) : Bool := c.isAlphanum || c = '_' || c = '-'

/-- A name of a key, bare or in single quotes of either kind. -/
def name? : Scan String
  | '"' :: rest => line? '"' [] (rest.length + 1) rest
  | '\'' :: rest => line? '\'' [] (rest.length + 1) rest
  | cs =>
    match cs.span isKeyChar with
    | ([], _) => none
    | (name, rest) => some (String.ofList name, rest)

/-- A key: names with dots between them. -/
def key? : Nat → Scan (List String)
  | 0, _ => none
  | fuel + 1, cs => do
    let (name, rest) ← name? (skipBlanks cs)
    match skipBlanks rest with
    | '.' :: rest =>
      let (names, rest) ← key? fuel rest
      some (name :: names, rest)
    | rest => some ([name], rest)

/-! ### Values -/

/-- How deep brackets may be nested. -/
def depthLimit : Nat := 79

mutual
/-- A value. -/
def value? : Nat → Nat → Scan SettingTree
  | 0, _, _ => none
  | fuel + 1, depth, cs =>
    match cs with
    | '"' :: _ => (text? '"' cs).map fun (s, rest) => (.text s, rest)
    | '\'' :: _ => (text? '\'' cs).map fun (s, rest) => (.text s, rest)
    | '[' :: rest =>
      if depth < depthLimit then
        (items? fuel (depth + 1) rest).map fun (ts, rest) => (.list ts, rest)
      else none
    | '\x7b' :: rest =>
      if depth < depthLimit then
        match skipBlanks rest with
        | '\x7d' :: rest => some (.table [], rest)
        | _ => (pairs? fuel (depth + 1) .opened rest).map fun (d, rest) => (d.toTree, rest)
      else none
    | _ =>
      let (found, rest) := word cs
      (scalar? found).map (·, rest)

/-- The items of a list, up to its bracket; a comma may stand after the last. -/
def items? : Nat → Nat → Scan (List SettingTree)
  | 0, _, _ => none
  | fuel + 1, depth, cs =>
    match skipLines cs.length cs with
    | ']' :: rest => some ([], rest)
    | cs => do
      let (t, rest) ← value? fuel depth cs
      match skipLines rest.length rest with
      | ']' :: rest => some ([t], rest)
      | ',' :: rest =>
        let (ts, rest) ← items? fuel depth rest
        some (t :: ts, rest)
      | _ => none

/-- The keys and values of a table in braces, up to its brace. -/
def pairs? : Nat → Nat → Draft → Scan Draft
  | 0, _, _, _ => none
  | fuel + 1, depth, d, cs => do
    let (key, rest) ← key? cs.length cs
    let rest ← expect '=' rest
    let (t, rest) ← value? fuel depth (skipBlanks rest)
    let d ← d.assign key t
    match skipBlanks rest with
    | '\x7d' :: rest => some (d, rest)
    | ',' :: rest => pairs? fuel depth d rest
    | _ => none
end

/-! ### Lines -/

/-- What is read so far: the whole draft, and the key of the table that is open. -/
structure Progress where
  root : Draft := .opened
  header : List String := []

/-- A header of a table, after its bracket. -/
def header? (p : Progress) (cs : List Char) : Option (Progress × List Char) := do
  match cs with
  | '[' :: rest =>
    let (key, rest) ← key? rest.length rest
    let rest ← expect ']' rest
    let rest ← expect ']' rest
    some ({ root := ← p.root.openRow key, header := key }, rest)
  | _ =>
    let (key, rest) ← key? cs.length cs
    let rest ← expect ']' rest
    some ({ root := ← p.root.openTable key, header := key }, rest)

/-- A key with its value. -/
def pair? (p : Progress) (cs : List Char) : Option (Progress × List Char) := do
  let (key, rest) ← key? cs.length cs
  let rest ← expect '=' rest
  let (t, rest) ← value? rest.length 0 (skipBlanks rest)
  some ({ p with root := ← p.root.change false (·.assign key t) p.header }, rest)

/-- The lines of a text. -/
def lines : Nat → Progress → List Char → Option Progress
  | 0, _, _ => none
  | fuel + 1, p, cs =>
    match skipLines cs.length cs with
    | [] => some p
    | cs => do
      let (p, rest) ← match cs with
        | '[' :: rest => header? p rest
        | _ => pair? p cs
      lines fuel p (← endLine rest)

/-- The entries of the table that a text describes. -/
def read? (s : String) : Option (List (String × SettingTree)) :=
  (lines (s.length + 1) {} s.toList).map (·.root.toTree.entries)

end StrategyForm.Toml
