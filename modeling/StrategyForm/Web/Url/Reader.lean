import StrategyForm.Web.Url

/-!
# Reading addresses

`Url.parse` brings a text into the parts of an address. Blanks and control characters at its ends,
and tabs and line breaks anywhere, are passed over. With a common scheme, a host must follow after
any number of slashes, and a backslash is a slash. With any other scheme a host follows only after
two slashes. The rule for drive letters in the addresses of files is left out (`readFile`).
-/

namespace StrategyForm.Web.Url

/-- The characters that count. -/
def significant (s : String) : List Char :=
  let isOuter (c : Char) : Bool := c.toNat ≤ 0x20
  let cs := ((s.toList.dropWhile isOuter).reverse.dropWhile isOuter).reverse
  cs.filter (!isPassedOver ·)

/-- The scheme, in lower case, and what follows its colon. -/
def scheme? (cs : List Char) : Option (String × List Char) :=
  let (word, rest) := cs.span fun c => c.isAlphanum || c = '+' || c = '-' || c = '.'
  match word, rest with
  | first :: _, ':' :: rest =>
    if first.isAlpha then some (String.ofList (word.map Char.toLower), rest) else none
  | _, _ => none

def isSlash (common : Bool) (c : Char) : Bool := c = '/' || (common && c = '\\')

/-- A character that ends the host with what stands around it. -/
def endsAuthority (common : Bool) (c : Char) : Bool := isSlash common c || c = '?' || c = '#'

/-- The text before the last `@`, if there is one, and the text after it. -/
def atLastSign (cs : List Char) : Option (List Char × List Char) :=
  match cs.reverse.span (· ≠ '@') with
  | (after, _ :: before) => some (before.reverse, after.reverse)
  | (_, []) => none

/-- The name and the password before a host. An empty password is none. -/
def credentialsOf (cs : List Char) : String × Option String :=
  let written (cs : List Char) := String.ofList (Percent.encode Percent.userInfo cs)
  match cs.span (· ≠ ':') with
  | (name, []) => (written name, none)
  | (name, _ :: password) =>
    (written name, if password.isEmpty then none else some (written password))

/-- The host, up to a colon that stands in no brackets. -/
def hostText : Bool → List Char → List Char × List Char
  | _, [] => ([], [])
  | inside, c :: rest =>
    if c = ':' && !inside then ([], c :: rest)
    else
      let inside := if c = '[' then true else if c = ']' then false else inside
      let (host, after) := hostText inside rest
      (c :: host, after)

/-- The port after a colon, and what follows it. -/
def readPort (cs : List Char) : Except UrlFlaw (Option Nat × List Char) :=
  let (ds, rest) := cs.span Char.isDigit
  let n := ds.foldl (fun n d => n * 10 + (d.toNat - '0'.toNat)) 0
  let ended := match rest with
    | [] => true
    | c :: _ => endsAuthority true c
  if n ≤ 65535 && ended then .ok (if ds.isEmpty then none else some n, rest)
  else .error .invalidPort

/-- What stands between the slashes and the path: who asks, the host and the port; and the rest. -/
def readAuthority (u : Url) (cs : List Char) : Except UrlFlaw (Url × List Char) := do
  let common := u.isCommon
  let (authority, rest) := cs.span (!endsAuthority common ·)
  let (credentials, hostAndPort) := (atLastSign authority).getD ([], authority)
  let signed := (atLastSign authority).isSome
  if signed && credentials.isEmpty && hostAndPort.isEmpty && !rest.isEmpty then
    throw UrlFlaw.emptyHost
  let (username, password) := credentialsOf credentials
  let (text, after) := hostText false hostAndPort
  if text.isEmpty && (common || !after.isEmpty) then throw UrlFlaw.emptyHost
  let host ← if common then Host.common text else Host.uncommon text
  let (port, rest) ← match after with
    | _ :: digits => readPort (digits ++ rest)
    | [] => pure (none, rest)
  if text.isEmpty && (!username.isEmpty || password.isSome) then throw UrlFlaw.emptyHost
  let port := if port = defaultPort? u.scheme then none else port
  pure ({ u with username, password, host := some host, port }, rest)

/-- The segments of a path that begins after its first slash. -/
def segmentsOf (common : Bool) (cs : List Char) : List String :=
  let raw := (cs.splitOnP (isSlash common)).map fun s =>
    String.ofList (Percent.encode Percent.path s)
  raw.zipIdx.foldl (fun list (s, i) => addSegment list (i + 1 == raw.length) s) []

/-- The path of an address that has a host. -/
def pathOf (common : Bool) (cs : List Char) : List String :=
  match cs with
  | [] => if common then [""] else []
  | c :: rest => segmentsOf common (if isSlash common c then rest else cs)

/-- The address with the query and the fragment that a text ends with. -/
def readEnd (u : Url) (cs : List Char) : Url :=
  let (before, after) := cs.span (· ≠ '#')
  let query := match before with
    | [] => none
    | _ :: q => some (String.ofList (Percent.encode (Percent.query u.isCommon) q))
  let fragment := match after with
    | [] => none
    | _ :: f => some (String.ofList (Percent.encode Percent.fragment f))
  { u with query, fragment }

/-- The text before a query or a fragment, and from there on. -/
def atEnd (cs : List Char) : List Char × List Char := cs.span fun c => c ≠ '?' && c ≠ '#'

/-- The address of files: its host may be empty, and `localhost` is the empty host. A drive letter is read
as a host or a segment like any other text. -/
def readFile (u : Url) (cs : List Char) : Except UrlFlaw Url := do
  let finish (host : Host) (cs : List Char) : Url :=
    let (path, rest) := atEnd cs
    ({ u with host := some host, path := .segments (pathOf true path) }).readEnd rest
  match cs with
  | a :: b :: after =>
    if isSlash true a && isSlash true b then
      let (text, rest) := after.span (!endsAuthority true ·)
      let host ← if text.isEmpty then pure (.domain "") else Host.common text
      pure (finish (if host = .domain "localhost" then .domain "" else host) rest)
    else pure (finish (.domain "") cs)
  | _ => pure (finish (.domain "") cs)

/-- Reads an address. -/
def parse (s : String) : Except UrlFlaw Url := do
  match scheme? (significant s) with
  | none => throw .relative
  | some (scheme, cs) =>
    let u : Url := { scheme }
    if scheme = "file" then u.readFile cs
    else if u.isCommon then
      let (u, rest) ← u.readAuthority (cs.dropWhile (isSlash true))
      let (path, rest) := atEnd rest
      pure (({ u with path := .segments (pathOf true path) }).readEnd rest)
    else
      match cs with
      | '/' :: '/' :: cs =>
        let (u, rest) ← u.readAuthority cs
        let (path, rest) := atEnd rest
        pure (({ u with path := .segments (pathOf false path) }).readEnd rest)
      | '/' :: cs =>
        let (path, rest) := atEnd cs
        pure (({ u with path := .segments (segmentsOf false path) }).readEnd rest)
      | _ =>
        let (path, rest) := atEnd cs
        let text := String.ofList (Percent.encode Percent.control path)
        pure (({ u with path := .rootless text }).readEnd rest)

end StrategyForm.Web.Url
