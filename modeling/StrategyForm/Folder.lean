/-!
# Folders

A folder holds texts under paths, with slashes between the names. Looking a path up walks through
its names: one stop stays, two stops go up, and every name but the last must be that of a folder.
-/

namespace StrategyForm

/-- Texts by path. Of several with one path the first counts. -/
structure Folder where
  files : List (String × String) := []
deriving DecidableEq, Repr, Inhabited

namespace Folder

/-- Why a text cannot be read. -/
inductive Flaw where
  | missing
  | notFolder
  | isFolder
deriving DecidableEq, Repr

/-- What the system says about it. -/
def Flaw.message : Flaw → String
  | .missing => "No such file or directory (os error 2)"
  | .notFolder => "Not a directory (os error 20)"
  | .isFolder => "Is a directory (os error 21)"

/-- The names of a path. -/
def names (path : String) : List (List Char) := path.toList.splitOn '/'

/-- The names of a stored path, without those that say nothing. -/
def stored (path : String) : List (List Char) :=
  (names path).filter fun n => n ≠ [] && n ≠ ['.']

/-- The text at a place. -/
def text? (f : Folder) (place : List (List Char)) : Option String :=
  (f.files.find? fun (path, _) => stored path = place).map (·.2)

/-- A folder is at a place: some text is under it. -/
def isFolderAt (f : Folder) (place : List (List Char)) : Bool :=
  place.isEmpty || f.files.any fun (path, _) =>
    place.isPrefixOf (stored path) && place.length < (stored path).length

/-- Walks from a place along names. -/
def walk (f : Folder) (place : List (List Char)) : List (List Char) → Except Flaw (List (List Char))
  | [] => .ok place
  | name :: rest =>
    if !f.isFolderAt place then .error (if (f.text? place).isSome then .notFolder else .missing)
    else if name = [] || name = ['.'] then walk f place rest
    else if name = ['.', '.'] then walk f place.dropLast rest
    else walk f (place ++ [name]) rest

/-- Reads the text under a path. Outside of the folder there is only the root of all folders. -/
def read (f : Folder) (path : String) : Except Flaw String := do
  if path.startsWith "/" then throw (if path.all (· = '/') then .isFolder else .missing)
  if path.isEmpty then throw .missing
  let place ← f.walk [] (names path)
  match f.text? place with
  | some text => pure text
  | none => throw (if f.isFolderAt place then .isFolder else .missing)

/-- The text under a path, if there is one. -/
def get? (f : Folder) (path : String) : Option String := (f.read path).toOption

/-- Something is at a path. -/
def contains (f : Folder) (path : String) : Bool :=
  match f.read path with
  | .ok _ | .error .isFolder => true
  | .error _ => false

end Folder

end StrategyForm
