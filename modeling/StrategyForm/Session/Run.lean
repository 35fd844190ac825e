import StrategyForm.Session.Fetch

/-!
# Runs

A run resolves the requested strategy of a binding and publishes what comes of it: a loading state
when the schema is not in the cache, then a failed or a resolved state. A run goes on when something
it waits for has arrived (`Session.resume`), and otherwise leaves the session as it is. Whatever
happens at one instant is one call of `Session.instant`: first the runs that were waiting, in the
order in which they began to wait, then those that were not started, in the order of their launches.

A run that waits finds at the next instant that it was cancelled, and ends. If what it waits for is
there at that same instant it may find either first: chance decides (`Session.luck`) whether it still
puts that in the cache, and whether it still asks for fragments (`Session.abandon`).
-/

namespace StrategyForm.Session

/-- A run begins to wait, behind those that already do. -/
def wait (s : Session) (r : Run) : Session := { s with runs := s.runs ++ [r] }

/-- The fragments of a run are at hand: it publishes the form. -/
def runResolved (s : Session) (r : Run) (g : Gathering) : Session :=
  s.publish r.binding r.generation (·.toResolved r.strategy g.schema g.sections)

/-- The schema of a run is at hand. -/
def runWith (s : Session) (r : Run) (schema : Schema) : Session :=
  let (s, g) := s.fetch (·.gather r.agent schema)
  if g.isComplete then s.runResolved r g else s.wait { r with stage := .fragments g }

/-- The reply to a run's call for its schema has arrived. -/
def runReceive (s : Session) (r : Run) (result : Except Fault Schema) : Session :=
  match s.fetch (·.receiveSchema r.agent r.strategy result) with
  | (s, .ok schema) => s.runWith r schema
  | (s, .error e) => s.publish r.binding r.generation (·.toFailed r.strategy e)

/-- A run that is cancelled has its schema. If chance lets it, it asks for the fragments, for which it
does not wait. -/
def glance (s : Session) (agent : Agent) (schema : Schema) : Session :=
  if s.luck agent .fragments then (s.fetch (·.gather agent schema)).1 else s

/-- A run that waits finds that it is cancelled. What is there of what it waits for it puts in the
cache, if chance lets it; it publishes nothing and waits for nothing any more. -/
def abandon (s : Session) (r : Run) : Session :=
  match r.stage with
  | .schema due result =>
    if due ≤ s.now ∧ s.luck r.agent .schema then
      match s.fetch (·.receiveSchema r.agent r.strategy result) with
      | (s, .ok schema) => s.glance r.agent schema
      | (s, .error _) => s
    else s
  | .fragments g => if s.luck r.agent .fragments then (s.fetch (·.arrive r.agent g)).1 else s

/-- A run starts. One that has been overtaken looks the schema up, and at most asks for fragments. -/
def launch (s : Session) (l : Launch) : Session :=
  match l.strategy with
  | none => s.publish l.binding l.generation (·.toCleared)
  | some id =>
    let isCurrent := (s.binding l.binding).isCurrent l.generation
    match s.fetch (·.lookUpSchema l.agent id) with
    | (s, some schema) =>
      if isCurrent then
        s.runWith ⟨l.binding, l.generation, id, .fragments { schema }⟩ schema
      else s.glance l.agent schema
    | (s, none) =>
      if isCurrent then
        let s := s.publish l.binding l.generation (·.toLoading id)
        let (s, reply) := s.fetch (·.askSchema l.agent id)
        let r : Run := ⟨l.binding, l.generation, id, .schema (s.now + reply.delay) reply.result⟩
        if reply.delay = 0 then s.runReceive r reply.result else s.wait r
      else s

/-- The runs that wait, one after the other: those for which something is due go on, and those that are
cancelled end. A run that goes on waiting for the rest of its fragments keeps its place; one that begins
to wait for fragments goes behind. -/
def resume (s : Session) : List Run → Session
  | [] => s
  | r :: rest =>
    let keep (s : Session) (r : Run) : Session :=
      let s := resume s rest
      { s with runs := r :: s.runs }
    if (s.binding r.binding).isCurrent r.generation then
      match r.stage with
      | .schema due result => if due ≤ s.now then resume (s.runReceive r result) rest else keep s r
      | .fragments g =>
        if g.arrivals.any (·.due ≤ s.now) then
          let (s, g) := s.fetch (·.arrive r.agent g)
          if g.isComplete then resume (s.runResolved r g) rest
          else keep s { r with stage := .fragments g }
        else keep s r
    else resume (s.abandon r) rest

/-- Everything that happens now. -/
def instant (s : Session) : Session :=
  let s := resume { s with runs := [] } s.runs
  s.launches.foldl launch { s with launches := [] }

/-- When something is due for a run. -/
def Run.next? (r : Run) : Option Nat :=
  match r.stage with
  | .schema due _ => some due
  | .fragments g => g.next?

/-- When everything that a run waits for has arrived. -/
def Run.last? (r : Run) : Option Nat :=
  match r.stage with
  | .schema due _ => some due
  | .fragments g => g.last?

/-- When something is due for some run. -/
def next? (s : Session) : Option Nat := (s.runs.filterMap Run.next?).min?

/-- Lets the clock go up to a time, stopping wherever something is due. The number bounds the stops;
each is later than the one before. -/
def runUntil (time : Nat) : Nat → Session → Session
  | 0, s => s
  | stops + 1, s =>
    match s.next? with
    | some due =>
      if due ≤ time then runUntil time stops (instant { s with now := max due s.now }) else s
    | none => s

/-- Waits in the foreground: runs go on now and until the given time, and what is due at that time
is left to happen after the foreground. -/
def passUntil (s : Session) (time : Nat) : Session :=
  let s := runUntil (time - 1) (time - s.now) s.instant
  { s with now := max time s.now }

/-- Lets time go by. What is due at the end happens too. -/
def tick (s : Session) (ms : Nat) : Session := (s.passUntil (s.now + ms)).instant

end StrategyForm.Session
