import StrategyForm.Session.Run

/-!
# Bindings

What can be done with a binding of a session. Asking for another strategy, and asking again, cancel
the binding's run and launch a new one; shutting a binding down cancels its run and every later one.
A run is cancelled when it is not the latest of its binding any more, or the binding is shut down
(`Binding.isCurrent`); if it waits, it finds out at the next instant.
-/

namespace StrategyForm.Session

/-- Launches the next run of a binding, which cancels the one before. -/
def startRun (s : Session) (b : Nat) (requested : Option String) : Session :=
  let binding := s.binding b
  let generation := binding.generation + 1
  let s := s.setBinding b { binding with generation, requested }
  { s with launches := s.launches ++ [⟨b, generation, requested⟩] }

/-- Asks for a strategy, or for none. The same request as before changes nothing, unless it is the
first one. -/
def setStrategy (s : Session) (b : Nat) (requested : Option String) : Session × Bool :=
  let binding := s.binding b
  if 0 < binding.generation ∧ binding.requested = requested then (s, false)
  else (s.startRun b requested, true)

/-- Forgets the cached schema of the requested strategy. -/
def invalidateCache (s : Session) (b : Nat) : Session :=
  match (s.binding b).requested with
  | some id => { s with cache := s.cache.invalidateSchema id }
  | none => s

/-- Forgets the cached schema of the requested strategy and resolves it again. -/
def refetch (s : Session) (b : Nat) : Session :=
  (s.invalidateCache b).startRun b (s.binding b).requested

/-- Ends the binding's runs for good. -/
def shutdown (s : Session) (b : Nat) : Session :=
  s.setBinding b { s.binding b with isShutdown := true }

/-- Gives the binding up. -/
def drop (s : Session) (b : Nat) : Session :=
  s.setBinding b { s.binding b with isShutdown := true, isDropped := true }

/-- Lets the clock go until everything has arrived that the binding's run waits for. -/
def passRun (s : Session) (b : Nat) : Session :=
  match (s.runs.find? (·.binding == b)).bind Run.last? with
  | some time => (s.passUntil time).instant
  | none => s

/-- Waits until the binding shows what became of its latest run. After everything that happens now,
a run waits at most twice: for its schema and for its fragments. A binding whose latest run has
settled, or that is shut down, has no run that waits, so the clock stands still for it. -/
def waitSettled (s : Session) (b : Nat) : Session := (s.instant.passRun b).passRun b

end StrategyForm.Session
