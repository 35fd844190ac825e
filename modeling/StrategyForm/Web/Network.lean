import StrategyForm.Web.Url

/-!
# Networks

A network answers requests. In a scripted one every address has a list of deliveries, of which the
first request gets the first and so on, and the last one serves all that come after; an address
without any is answered by "not found". In an unreachable network no request gets through.

Of the headers of a response only the one that sends the client on to another address counts. It is
not read here: a delivery has the address itself (`Delivery.moved`).
-/

namespace StrategyForm.Web

/-- What comes back for a request. -/
inductive Delivery where
  /-- The connection ends without a response. -/
  | closed
  /-- A response, whose body may break off. -/
  | response (status : Nat) (body : Option String)
  /-- A response that sends the client on: its status is 301, 302, 303, 307 or 308, and its header makes
  an address that a request can hold. -/
  | moved (target : Url)
deriving DecidableEq, Repr, Inhabited

inductive Network where
  | unreachable
  | scripted (routes : List (String × List Delivery))
deriving Repr, Inhabited

/-- Something that is done while an address is asked. -/
inductive Traffic where
  | requested (location : String)
  /-- The request that follows a response which sends the client there. -/
  | followed (location : String)
  | paused (ms : Nat)
deriving DecidableEq, Repr

/-- The address as it is sent: the fragment stays at home. -/
def Url.location (u : Url) : String := { u with fragment := none }.render

namespace Network

/-- An address without deliveries. -/
def nothing : Delivery := .response 404 (some "")

/-- The delivery after a number of earlier ones; the last serves all that come after. -/
def nth : List Delivery → Nat → Delivery
  | [], _ => nothing
  | [d], _ => d
  | d :: _, 0 => d
  | _ :: rest, n + 1 => nth rest n

/-- What a request gets when an address has been asked a number of times before. -/
def deliver : Network → String → Nat → Delivery
  | unreachable, _, _ => .closed
  | scripted routes, location, earlier =>
    nth (((routes.find? (·.1 = location)).map (·.2)).getD []) earlier

/-- How often an address was asked. -/
def asked (log : List Traffic) (location : String) : Nat :=
  log.count (.requested location) + log.count (.followed location)

/-- The addresses whose requests arrived, with their numbers. -/
def received : Network → List Traffic → List (String × Nat)
  | unreachable, _ => []
  | scripted _, log =>
    let all := log.filterMap fun
      | .requested location | .followed location => some location
      | .paused _ => none
    all.eraseDups.map fun location => (location, asked log location)

end Network

end StrategyForm.Web
