import StrategyForm.Session.Binding

/-!
# Steps of a session

Everything that can be done with a session from outside, as data: `Session.step` gives the session
after a step and the answer. A step that calls the source waits for it in the foreground, and what
is due for a run at the same time happens after the step.
-/

namespace StrategyForm.Session

/-- Waits in the foreground until all fragments have arrived. The number bounds the stops; at each
at least one fragment arrives. -/
def gatherAll : Nat → Session → Gathering → Session × Gathering
  | 0, s, g => (s, g)
  | stops + 1, s, g =>
    match g.next? with
    | none => (s, g)
    | some due =>
      let (s, g) := (s.passUntil due).fetch (·.arrive .foreground g)
      gatherAll stops s g

/-- Obtains the fragments of a schema. -/
def fetchFragments (s : Session) (schema : Schema) : Session × Gathering :=
  let (s, g) := s.fetch (·.gather .foreground schema)
  gatherAll g.arrivals.length s g

/-- Obtains a schema from the source, whatever the cache holds. -/
def fetchSchema (s : Session) (id : String) : Session × Except Fault Schema :=
  let (s, reply) := s.fetch (·.askSchema .foreground id)
  let s := if reply.delay = 0 then s else s.passUntil (s.now + reply.delay)
  s.fetch (·.receiveSchema .foreground id reply.result)

/-- Resolves a strategy once, from the cache if it can. -/
def resolve (s : Session) (id : String) : Session × Except Fault Resolution :=
  let (s, found) := s.fetch (·.lookUpSchema .foreground id)
  let (s, obtained) : Session × Except Fault Schema := match found with
    | some schema => (s, .ok schema)
    | none => s.fetchSchema id
  match obtained with
  | .error e => (s, .error e)
  | .ok schema =>
    let (s, g) := s.fetchFragments schema
    (s, .ok ⟨schema, g.sections, found.isSome⟩)

/-- Resolves a strategy once, forgetting the cached schema first. -/
def refresh (s : Session) (id : String) : Session × Except Fault Resolution :=
  resolve { s with cache := s.cache.invalidateSchema id } id

/-- What a cache operation does that the history tells: only to put something in leaves a trace. -/
def written (now : Nat) : Cache.Operation → List Deed
  | .putSchema schema => [.stored .foreground (.schema schema.id) now]
  | .putFragment id _ => [.stored .foreground (.fragment id) now]
  | _ => []

/-- Something done with a session. -/
inductive Step where
  | tick (ms : Nat)
  | setSource (schemas : List (String × Reply Schema)) (fragments : List (String × Reply Fragment))
  | cache (operation : Cache.Operation)
  | fetchFragments (schema : Schema)
  | buildSections (schema : Schema)
  | fetchSchema (id : String)
  | resolve (id : String)
  | refresh (id : String)
  | setStrategy (binding : Nat) (requested : Option String)
  | refetch (binding : Nat)
  | invalidateCache (binding : Nat)
  | shutdown (binding : Nat)
  | wait (binding : Nat)
  | drop (binding : Nat)

/-- What a step answers. -/
inductive Answer where
  | nothing
  | flag (value : Bool)
  | cache (answer : Cache.Answer)
  | outcomes (value : Outcomes)
  | sections (value : List Section)
  | schema (result : Except Fault Schema)
  | resolution (result : Except Fault Resolution)
  | state (value : State)

/-- The session after a step, and the answer. -/
def step (s : Session) : Step → Session × Answer
  | .tick ms => (s.tick ms, .nothing)
  | .setSource schemas fragments =>
    let source := schemas.foldl (fun source e => source.setSchema e.1 e.2) s.source
    let source := fragments.foldl (fun source e => source.setFragment e.1 e.2) source
    ({ s with source }, .nothing)
  | .cache operation =>
    let (cache, answer) := s.cache.apply s.now operation
    ({ s with cache, history := s.history ++ written s.now operation }, .cache answer)
  | .fetchFragments schema => let (s, g) := s.fetchFragments schema; (s, .outcomes g.outcomes)
  | .buildSections schema => let (s, g) := s.fetchFragments schema; (s, .sections g.sections)
  | .fetchSchema id => let (s, result) := s.fetchSchema id; (s, .schema result)
  | .resolve id => let (s, result) := s.resolve id; (s, .resolution result)
  | .refresh id => let (s, result) := s.refresh id; (s, .resolution result)
  | .setStrategy b requested => let (s, changed) := s.setStrategy b requested; (s, .flag changed)
  | .refetch b => (s.refetch b, .nothing)
  | .invalidateCache b => (s.invalidateCache b, .nothing)
  | .shutdown b => (s.shutdown b, .nothing)
  | .wait b => let s := s.waitSettled b; (s, .state (s.binding b).state)
  | .drop b => (s.drop b, .nothing)

/-- The session after a list of steps. -/
def steps (s : Session) (list : List Step) : Session := list.foldl (fun s x => (s.step x).1) s

end StrategyForm.Session
