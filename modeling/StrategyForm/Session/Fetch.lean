import StrategyForm.Session.State

/-!
# Asking the source

A schema that arrives is stored under the id it was asked for. The fragments of a schema are looked
up first; all that are missing are asked for at once, and each is stored when it arrives. A fault
stores nothing.
-/

namespace StrategyForm.Session

namespace Supply

/-- Looks a schema up in the cache and counts the look-up. -/
def lookUpSchema (s : Supply) (agent : Agent) (id : String) : Supply × Option Schema :=
  let (cache, found) := s.cache.getSchema s.now id
  ({ s with cache }.record (.lookedUp agent id found.isSome), found)

/-- Calls the source for a schema. -/
def askSchema (s : Supply) (agent : Agent) (id : String) : Supply × Reply Schema :=
  let reply := s.source.schema id
  (s.record (.called agent (.schema id) (s.now + reply.delay)), reply)

/-- A schema arrives that was asked for under an id. -/
def receiveSchema (s : Supply) (agent : Agent) (id : String) :
    Except Fault Schema → Supply × Except Fault Schema
  | .ok schema =>
    let schema := { schema with id }
    ({ s with cache := s.cache.putSchema s.now schema }.record (.stored agent (.schema id) s.now),
      .ok schema)
  | .error e => (s, .error e)

/-- A fragment arrives that was asked for under an id. -/
def receiveFragment (s : Supply) (agent : Agent) (g : Gathering) (id : String)
    (result : Except Fault Fragment) : Supply × Gathering :=
  let s := match result with
    | .ok f =>
      { s with cache := s.cache.putFragment s.now id f }.record (.stored agent (.fragment id) s.now)
    | .error _ => s
  (s, { g with outcomes := g.outcomes.insert id (.ofResult result) })

/-- Calls the source for a fragment. A reply without delay arrives at once. -/
def askFragment (agent : Agent) (state : Supply × Gathering) (id : String) : Supply × Gathering :=
  let (s, g) := state
  let reply := s.source.fragment id
  let s := s.record (.called agent (.fragment id) (s.now + reply.delay))
  if reply.delay = 0 then s.receiveFragment agent g id reply.result
  else (s, { g with arrivals := g.arrivals ++ [⟨id, s.now + reply.delay, reply.result⟩] })

/-- Begins to gather the fragments of a schema. -/
def gather (s : Supply) (agent : Agent) (schema : Schema) : Supply × Gathering :=
  let (cache, parts) := s.cache.partition s.now schema.fragmentIds
  parts.missing.foldl (askFragment agent)
    ({ s with cache }, { schema, outcomes := parts.cached.map .resolved })

/-- The fragments that are due arrive. -/
def arrive (s : Supply) (agent : Agent) (g : Gathering) : Supply × Gathering :=
  (g.arrivals.filter (·.due ≤ s.now)).foldl
    (fun (s, g) a => s.receiveFragment agent g a.id a.result)
    (s, { g with arrivals := g.arrivals.filter (s.now < ·.due) })

end Supply

namespace Gathering

/-- Nothing is on its way any more. -/
def isComplete (g : Gathering) : Bool := g.arrivals.isEmpty

/-- The sections of the form, from what is known. -/
def sections (g : Gathering) : List Section := assembleSections g.schema g.outcomes

/-- When the next fragment arrives. -/
def next? (g : Gathering) : Option Nat := (g.arrivals.map (·.due)).min?

/-- When the last fragment arrives. -/
def last? (g : Gathering) : Option Nat := (g.arrivals.map (·.due)).max?

end Gathering

end StrategyForm.Session
