import StrategyForm.Cache
import StrategyForm.Web.Client

/-!
# Resolving strategies over the network

A strategy is resolved with a cache: its schema and each of its fragments are asked for only when
the cache has none. A fault stores nothing, and a fragment that cannot be had leaves its section
out.

This is what a session does in the foreground (`Session.resolve`), with a network in place of a source and
without the time that replies take. The calls for fragments, which the program begins at once, are made one
after the other here, in the order in which it begins them.
-/

namespace StrategyForm.Web

/-- A client with its network, a cache, and what was done so far. -/
structure Resolver where
  client : Client
  network : Network
  cache : Cache
  traffic : List Traffic := []

namespace Resolver

/-- Asks for a schema and stores it under the id it was asked for. -/
def fetchSchema (r : Resolver) (now : Nat) (id : String) : Resolver × Except Fault Schema :=
  let (traffic, result) := r.client.fetchSchema r.network id r.traffic
  match result with
  | .ok schema =>
    let schema := { schema with id }
    ({ r with traffic, cache := r.cache.putSchema now schema }, .ok schema)
  | .error e => ({ r with traffic }, .error e)

/-- Asks for a fragment and stores it under the id it was asked for. -/
def fetchFragment (now : Nat) (state : Resolver × Outcomes) (id : String) : Resolver × Outcomes :=
  let (r, outcomes) := state
  let (traffic, result) := r.client.fetchFragment r.network id r.traffic
  let cache := match result with
    | .ok f => r.cache.putFragment now id f
    | .error _ => r.cache
  ({ r with traffic, cache }, outcomes.insert id (.ofResult result))

/-- The outcomes of all fragments that a schema refers to. -/
def fetchFragments (r : Resolver) (now : Nat) (schema : Schema) : Resolver × Outcomes :=
  let (cache, parts) := r.cache.partition now schema.fragmentIds
  parts.missing.foldl (fetchFragment now) ({ r with cache }, parts.cached.map .resolved)

/-- Resolves a strategy, from the cache if it can. -/
def resolve (r : Resolver) (now : Nat) (id : String) : Resolver × Except Fault Resolution :=
  let (cache, found) := r.cache.getSchema now id
  let (r, obtained) : Resolver × Except Fault Schema := match found with
    | some schema => ({ r with cache }, .ok schema)
    | none => fetchSchema { r with cache } now id
  match obtained with
  | .error e => (r, .error e)
  | .ok schema =>
    let (r, outcomes) := r.fetchFragments now schema
    (r, .ok ⟨schema, assembleSections schema outcomes, found.isSome⟩)

/-- Resolves a strategy, forgetting the cached schema first. -/
def refresh (r : Resolver) (now : Nat) (id : String) : Resolver × Except Fault Resolution :=
  resolve { r with cache := r.cache.invalidateSchema id } now id

end Resolver

end StrategyForm.Web
