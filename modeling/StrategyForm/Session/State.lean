import StrategyForm.Cache

/-!
# Sessions

A session is a cache, a source of schemas and fragments, a number of bindings, the runs that the
bindings have under way, and a clock in milliseconds. Its history holds, in order, every look-up of a
schema, every call of the source, everything that was put in the cache, and every state that a binding
published, and tells who did it.
-/

namespace StrategyForm

/-- What a source answers to one call, and after how many milliseconds. -/
structure Reply (α : Type) where
  delay : Nat := 0
  result : Except Fault α

/-- Where schemas and fragments come from: a reply for each id that is known. -/
structure Source where
  schema? : String → Option (Reply Schema) := fun _ => none
  fragment? : String → Option (Reply Fragment) := fun _ => none

namespace Source

instance : Inhabited Source := ⟨{}⟩

/-- The reply to a call; an unknown id is refused at once. -/
def schema (s : Source) (id : String) : Reply Schema :=
  (s.schema? id).getD { result := .error (.notFound id) }

def fragment (s : Source) (id : String) : Reply Fragment :=
  (s.fragment? id).getD { result := .error (.notFound id) }

def setSchema (s : Source) (id : String) (r : Reply Schema) : Source :=
  { s with schema? := fun k => if k = id then some r else s.schema? k }

def setFragment (s : Source) (id : String) (r : Reply Fragment) : Source :=
  { s with fragment? := fun k => if k = id then some r else s.fragment? k }

end Source

namespace Session

/-- A call of the source. -/
inductive Call where
  | schema (id : String)
  | fragment (id : String)
deriving DecidableEq, Repr

/-- What a binding shows. -/
structure State where
  /-- The number of the run that published it. -/
  generation : Nat := 0
  strategyId : Option String := none
  schema : Option Schema := none
  sections : List Section := []
  loading : Bool := false
  /-- Why the schema could not be had. -/
  error : Option String := none
  /-- A form has been resolved at some time. -/
  resolved : Bool := false
deriving DecidableEq, Repr, Inhabited

namespace State

def isSettled (s : State) : Bool := !s.loading

/-- While a schema is asked for, the form of the earlier run stays. -/
def toLoading (s : State) (id : String) : State :=
  { s with strategyId := some id, loading := true, error := none }

def toFailed (s : State) (id : String) (e : Fault) : State :=
  { s with strategyId := some id, schema := none, sections := [], loading := false,
           error := some e.message }

def toResolved (s : State) (id : String) (schema : Schema) (sections : List Section) : State :=
  { s with strategyId := some id, schema := some schema, sections := sections, loading := false,
           error := none, resolved := true }

def toCleared (s : State) : State :=
  { s with strategyId := none, schema := none, sections := [], loading := false, error := none }

end State

/-- A binding: the strategy it was last asked for, the number of its latest run, and what it shows.
A binding that was dropped is also shut down. -/
structure Binding where
  generation : Nat := 0
  requested : Option String := none
  state : State := {}
  isShutdown : Bool := false
  isDropped : Bool := false
deriving DecidableEq, Repr, Inhabited

/-- A run may publish: it is the latest of its binding, which is not shut down. -/
def Binding.isCurrent (b : Binding) (generation : Nat) : Bool :=
  !b.isShutdown && b.generation == generation

/-- Something that shows outside. -/
inductive Event where
  | called (call : Call)
  | published (binding : Nat) (state : State)
deriving DecidableEq, Repr

/-- Who does something: whoever takes the steps of the session, or a run of a binding. -/
inductive Agent where
  | foreground
  | run (binding generation : Nat)
deriving DecidableEq, Repr

/-- Something that was done. -/
inductive Deed where
  /-- A schema was looked up in the cache, and a valid one was found or not. -/
  | lookedUp (agent : Agent) (id : String) (found : Bool)
  /-- The source was called; the reply arrives at the time given. -/
  | called (agent : Agent) (call : Call) (due : Nat)
  /-- A schema or a fragment was put in the cache, at the time given. -/
  | stored (agent : Agent) (call : Call) (time : Nat)
  /-- The run whose number the state carries published it. -/
  | published (binding : Nat) (state : State)
deriving DecidableEq, Repr

/-- What a run may find there at the very moment at which it finds that it is cancelled: its schema, or
its fragments. -/
inductive Race where
  | schema
  | fragments
deriving DecidableEq, Repr

/-- Chance: whether an agent that finds both goes on with what is there. -/
abbrev Luck : Type := Agent → Race → Bool

/-- Who did it. -/
def Deed.agent : Deed → Agent
  | .lookedUp agent .. | .called agent .. | .stored agent .. => agent
  | .published b state => .run b state.generation

def Deed.event? : Deed → Option Event
  | .called _ call _ => some (.called call)
  | .published b state => some (.published b state)
  | .lookedUp .. | .stored .. => none

/-- A run that has not started yet. -/
structure Launch where
  binding : Nat
  generation : Nat
  strategy : Option String
deriving DecidableEq, Repr

/-- A fragment that is on its way. -/
structure Arrival where
  id : String
  due : Nat
  result : Except Fault Fragment

/-- The fragments of a schema: what is known of them, and what is on its way. -/
structure Gathering where
  schema : Schema
  outcomes : Outcomes := .empty
  arrivals : List Arrival := []

/-- What a run waits for. -/
inductive Stage where
  | schema (due : Nat) (result : Except Fault Schema)
  | fragments (gathering : Gathering)

/-- A run that waits. -/
structure Run where
  binding : Nat
  generation : Nat
  strategy : String
  stage : Stage

def Run.agent (r : Run) : Agent := .run r.binding r.generation

def Launch.agent (l : Launch) : Agent := .run l.binding l.generation

/-- What fetching works with: the clock, the source, the cache, and all that was done. -/
structure Supply where
  now : Nat := 0
  source : Source := {}
  cache : Cache := {}
  history : List Deed := []
deriving Inhabited

def Supply.record (s : Supply) (d : Deed) : Supply := { s with history := s.history ++ [d] }

end Session

/-- The state of a session. Runs that wait stand in the order in which they began to. How chance decides
is the same throughout: each run is cancelled once. -/
structure Session extends Session.Supply where
  bindings : List Session.Binding := []
  launches : List Session.Launch := []
  runs : List Session.Run := []
  luck : Session.Luck := fun _ _ => true
deriving Inhabited

namespace Session

/-- A session with a number of bindings. -/
def start (cache : Cache) (source : Source) (bindings : Nat) (luck : Luck := fun _ _ => true) :
    Session where
  cache := cache
  source := source
  bindings := List.replicate bindings {}
  luck := luck

def binding (s : Session) (b : Nat) : Binding := s.bindings.getD b {}

def setBinding (s : Session) (b : Nat) (value : Binding) : Session :=
  { s with bindings := s.bindings.set b value }

/-- What was done that shows outside, in order. -/
def log (s : Session) : List Event := s.history.filterMap Deed.event?

/-- How often the source was called in this way. -/
def calls (s : Session) (call : Call) : Nat := s.log.count (.called call)

/-- The states that a binding published, in order. -/
def published (s : Session) (b : Nat) : List State :=
  s.log.filterMap fun
    | .published b' state => if b' = b then some state else none
    | .called _ => none

/-- Publishes a state for a run, unless the run has been overtaken or its binding is shut down. -/
def publish (s : Session) (b generation : Nat) (update : State → State) : Session :=
  let binding := s.binding b
  if binding.isCurrent generation then
    let state := { update binding.state with generation }
    { s.setBinding b { binding with state } with history := s.history ++ [.published b state] }
  else s

/-- Does something with the supply of a session. -/
def fetch {α : Type} (s : Session) (f : Supply → Supply × α) : Session × α :=
  let (supply, a) := f s.toSupply
  ({ s with toSupply := supply }, a)

end Session

end StrategyForm
