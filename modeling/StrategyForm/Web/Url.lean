import StrategyForm.Web.Host

/-!
# Addresses

An address is kept in parts: its scheme, who asks, the host and port, the path as a list of
segments, and the query and the fragment. All parts are in their written form, with everything
escaped that the part may not hold. Segments are appended to a path with `Url.append`.

Addresses of files have no drive letters here: a first segment such as `C|` is a segment as any other, which
is neither written as `C:` nor kept when the place above it is asked for. No request can be made of such an
address, whatever its path.
-/

namespace StrategyForm.Web

/-- The path of an address. -/
inductive UrlPath where
  /-- Segments, each written after a slash. -/
  | segments (list : List String)
  /-- A text that does not begin with a slash, to which nothing can be appended. -/
  | rootless (text : String)
deriving DecidableEq, Repr, Inhabited

structure Url where
  scheme : String
  username : String := ""
  password : Option String := none
  host : Option Host := none
  /-- The port, unless it is the one that the scheme stands for. -/
  port : Option Nat := none
  path : UrlPath := .segments []
  query : Option String := none
  fragment : Option String := none
deriving DecidableEq, Repr, Inhabited

namespace Url

/-- The common schemes, with the ports they stand for. -/
def commonSchemes : List (String × Option Nat) :=
  [("http", some 80), ("https", some 443), ("ws", some 80), ("wss", some 443), ("ftp", some 21),
    ("file", none)]

def isCommonScheme (scheme : String) : Bool := commonSchemes.any (·.1 = scheme)

def defaultPort? (scheme : String) : Option Nat :=
  (commonSchemes.find? (·.1 = scheme)).bind (·.2)

def isCommon (u : Url) : Bool := isCommonScheme u.scheme

/-! ### Text -/

def credentials (u : Url) : String :=
  if u.username.isEmpty && u.password.isNone then ""
  else u.username ++ (u.password.elim "" (":" ++ ·)) ++ "@"

/-- The host with what stands before and after it. -/
def authority (u : Url) : String :=
  match u.host with
  | some h => "//" ++ u.credentials ++ h.render ++ u.port.elim "" (":" ++ toString ·)
  | none => ""

/-- The path as text. Without a host it may not begin with two slashes, so a dot goes between. -/
def pathText (u : Url) : String :=
  match u.path with
  | .rootless text => text
  | .segments list =>
    let text := String.join (list.map ("/" ++ ·))
    if u.host.isNone && list.length > 1 && list.head? = some "" then "/." ++ text else text

/-- The address as text. -/
def render (u : Url) : String :=
  u.scheme ++ ":" ++ u.authority ++ u.pathText ++ u.query.elim "" ("?" ++ ·) ++
    u.fragment.elim "" ("#" ++ ·)

/-! ### Paths -/

/-- The segment stands for this place. -/
def isHere (s : String) : Bool := s = "." || s = "%2e" || s = "%2E"

/-- The segment stands for the place above. -/
def isAbove (s : String) : Bool :=
  ["..", ".%2e", ".%2E", "%2e.", "%2E.", "%2e%2e", "%2e%2E", "%2E%2e", "%2E%2E"].contains s

/-- Adds a written segment after others. One that stands for a place goes there, and when it is the
last, an empty segment takes its place. (A drive letter of a `file:` address is left by `..` as well.) -/
def addSegment (list : List String) (isLast : Bool) (s : String) : List String :=
  if isAbove s then list.dropLast ++ if isLast then [""] else []
  else if isHere s then list ++ if isLast then [""] else []
  else list ++ [s]

/-- A character that is passed over wherever it stands. -/
def isPassedOver (c : Char) : Bool := c = '\t' || c = '\n' || c = '\r'

/-- A text as a segment. -/
def segmentOf (common : Bool) (s : String) : String :=
  String.ofList (Percent.encode (Percent.segment common) (s.toList.filter (!isPassedOver ·)))

/-- Appends a text as one segment; a path that is a lone slash has no segment yet. A text that
stands for a place is skipped. -/
def appendSegment (common : Bool) (list : List String) (s : String) : List String :=
  if s = "." || s = ".." then list
  else addSegment (if list = [""] then [] else list) true (segmentOf common s)

/-- The segments without an empty one at the end, of which a lone slash has none. -/
def dropTrailing (list : List String) : List String :=
  if list.length > 1 && list.getLast? = some "" then list.dropLast else list

/-- The address with texts appended as segments to its path. -/
def append (u : Url) (texts : List String) : Url :=
  match u.path with
  | .segments list =>
    { u with path := .segments (texts.foldl (appendSegment u.isCommon) (dropTrailing list)) }
  | .rootless _ => u

/-- The address without who asks, as far as the name is readable text. -/
def withoutCredentials (u : Url) : Url :=
  let readable (s : String) := (Percent.decodeText? s.toList).isSome
  if !readable u.username || (u.username.isEmpty && !u.password.any readable) then u
  else { u with username := "", password := none }

end Url

end StrategyForm.Web
