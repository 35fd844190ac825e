import StrategyForm.Store
import StrategyForm.Form.Assembly

/-!
# The cache of schemas and fragments

Two stores with one time to live, and two counters of look-ups. Only the look-ups that answer with
a value count; asking whether something is valid does not. A fragment is kept under the id it was
asked for, whatever id it carries.
-/

namespace StrategyForm
open Decimal

structure Cache where
  /-- Time to live, in milliseconds. -/
  ttl : Nat := 300000
  schemas : Store Schema := {}
  fragments : Store Fragment := {}
  hits : Nat := 0
  misses : Nat := 0
deriving Inhabited

/-- The two counters, as they are reported. -/
structure CacheStats where
  hits : Nat
  misses : Nat
deriving DecidableEq, Repr

/-- The share of look-ups that were answered; zero when there were none. -/
def CacheStats.hitRate (s : CacheStats) : Binary64 :=
  if s.hits + s.misses = 0 then .zero false
  else ((Binary64.ofInt s.hits).div? (.ofInt (s.hits + s.misses : Nat))).getD (.zero false)

/-- Ids that have a valid fragment, with it, and those that have none, each once and in order. -/
structure Partition where
  cached : Keyed Fragment := .empty
  missing : List String := []
deriving DecidableEq, Repr

namespace Cache

/-- A cache for a configured time to live. -/
def ofSeconds (ttlSecs : Nat) : Cache := { ttl := ttlSecs * 1000 }

def count (c : Cache) (hit : Bool) : Cache :=
  if hit then { c with hits := c.hits + 1 } else { c with misses := c.misses + 1 }

/-- The valid schema under an id, without counting. -/
def schema? (c : Cache) (now : Nat) (id : String) : Option Schema := c.schemas.get? c.ttl now id

/-- The valid fragment under an id, without counting. -/
def fragment? (c : Cache) (now : Nat) (id : String) : Option Fragment :=
  c.fragments.get? c.ttl now id

/-- Looks a schema up and counts the look-up. -/
def getSchema (c : Cache) (now : Nat) (id : String) : Cache × Option Schema :=
  let found := c.schema? now id
  (c.count found.isSome, found)

/-- Looks a fragment up and counts the look-up. -/
def getFragment (c : Cache) (now : Nat) (id : String) : Cache × Option Fragment :=
  let found := c.fragment? now id
  (c.count found.isSome, found)

/-- Stores a schema under its own id. -/
def putSchema (c : Cache) (now : Nat) (s : Schema) : Cache :=
  { c with schemas := c.schemas.put now s.id s }

def putFragment (c : Cache) (now : Nat) (id : String) (f : Fragment) : Cache :=
  { c with fragments := c.fragments.put now id f }

def invalidateSchema (c : Cache) (id : String) : Cache := { c with schemas := c.schemas.remove id }

def invalidateFragment (c : Cache) (id : String) : Cache :=
  { c with fragments := c.fragments.remove id }

/-- Looks up one id of a list that is being divided, unless it was looked up before. -/
def divide (now : Nat) (state : Cache × Partition) (id : String) : Cache × Partition :=
  let (c, p) := state
  if p.cached.contains id || p.missing.contains id then (c, p)
  else
    match c.getFragment now id with
    | (c, some f) => (c, { p with cached := p.cached.insert id f })
    | (c, none) => (c, { p with missing := p.missing ++ [id] })

/-- Divides fragment ids into those that are at hand and those that are not. Each distinct id is
looked up once. -/
def partition (c : Cache) (now : Nat) (ids : List String) : Cache × Partition :=
  ids.foldl (divide now) (c, {})

def clear (c : Cache) : Cache := { c with schemas := {}, fragments := {} }

def stats (c : Cache) : CacheStats := ⟨c.hits, c.misses⟩

def resetStats (c : Cache) : Cache := { c with hits := 0, misses := 0 }

/-! ### Operations as data -/

/-- What can be asked of a cache. -/
inductive Operation where
  | getSchema (id : String)
  | getFragment (id : String)
  | putSchema (schema : Schema)
  | putFragment (id : String) (fragment : Fragment)
  | isSchemaValid (id : String)
  | isFragmentValid (id : String)
  | invalidateSchema (id : String)
  | invalidateFragment (id : String)
  | partition (ids : List String)
  | clear
  | stats
  | resetStats
deriving Repr

/-- What a cache answers. -/
inductive Answer where
  | nothing
  | flag (value : Bool)
  | schema (found : Option Schema)
  | fragment (found : Option Fragment)
  | partition (value : Partition)
  | stats (value : CacheStats)
deriving DecidableEq, Repr

/-- The cache after an operation at a time, and the answer. -/
def apply (c : Cache) (now : Nat) : Operation → Cache × Answer
  | .getSchema id => let (c, found) := c.getSchema now id; (c, .schema found)
  | .getFragment id => let (c, found) := c.getFragment now id; (c, .fragment found)
  | .putSchema s => (c.putSchema now s, .schema (some s))
  | .putFragment id f => (c.putFragment now id f, .fragment (some f))
  | .isSchemaValid id => (c, .flag (c.schema? now id).isSome)
  | .isFragmentValid id => (c, .flag (c.fragment? now id).isSome)
  | .invalidateSchema id => (c.invalidateSchema id, .flag (c.schemas.holds id))
  | .invalidateFragment id => (c.invalidateFragment id, .flag (c.fragments.holds id))
  | .partition ids => let (c, p) := c.partition now ids; (c, .partition p)
  | .clear => (c.clear, .nothing)
  | .stats => (c, .stats c.stats)
  | .resetStats => (c.resetStats, .nothing)

end Cache

end StrategyForm
