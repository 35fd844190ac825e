import StrategyForm.Settings
import StrategyForm.Fault
import StrategyForm.Text.Blank
import StrategyForm.Web.Network
import StrategyForm.Web.Status
import StrategyForm.Web.Url.Reader
import StrategyForm.Wire.Schema

/-!
# The client

A client knows the base address and asks the endpoints below it. A fault that may pass is met by
another try after a pause, up to the number of retries in the settings; the pauses grow with the
number of the retry. All that is done is added to a log of traffic.
-/

namespace StrategyForm.Web
open Json Json.Decoder

structure Client where
  settings : ApiSettings
  base : Url
deriving DecidableEq, Repr

namespace Client
variable {α : Type}

/-- A client for the settings, unless their base address is not one that a path can be added to. -/
def create (settings : ApiSettings) : Except Fault Client :=
  let text := Text.trim settings.baseUrl
  if text.isEmpty then .error (.config "api.base_url is empty")
  else
    match Url.parse text with
    | .error flaw => .error (.config ("잘못된 api.base_url: " ++ flaw.message))
    | .ok base =>
      match base.path with
      | .segments _ => .ok ⟨settings, base⟩
      | .rootless _ => .error (.config ("api.base_url은 경로를 가질 수 없습니다: " ++ settings.baseUrl))

/-! ### Endpoints -/

def schemaUrl (c : Client) (id : String) : Url := c.base.append ["strategies", id, "schema"]

def fragmentUrl (c : Client) (id : String) : Url :=
  c.base.append ["schema", "fragments", id, "detail"]

def fragmentsUrl (c : Client) : Url := c.base.append ["schema", "fragments"]

def categoryUrl (c : Client) (category : Category) : Url :=
  c.base.append ["schema", "fragments", category.word]

def strategiesUrl (c : Client) : Url := c.base.append ["strategies", "meta"]

/-! ### Responses -/

/-- What a server says about a failure. -/
structure Complaint where
  code : Option String := none
  message : String
deriving DecidableEq, Repr

namespace Complaint

def slots : List (Slot Complaint) :=
  [ allow "code" (optional Decoder.text) fun v e => { e with code := v },
    need ["message"] Decoder.text fun v e => { e with message := v } ]

def decoder : Decoder Complaint := record slots { message := "" }

def text (e : Complaint) : String := e.code.elim "" (· ++ ": ") ++ e.message

end Complaint

/-- What is said about a failed request: the server's complaint, else the body, else the phrase of
the status. -/
def failureMessage (status : Nat) (body : String) : String :=
  let body := String.ofList (match body.toList with
    | '\uFEFF' :: rest => rest
    | cs => cs)
  match Complaint.decoder.decode body with
  | .ok complaint => complaint.text
  | .error _ =>
    let said := Text.trim body
    if said.isEmpty then (Status.phrase? status).getD "unknown error" else said

/-- The fault that a status stands for. -/
def statusFault (status : Nat) (message : String) : Fault :=
  if status = 404 then .notFound message else .http status message

/-- A request for the address can be made up: its scheme is one of the two of the web, it is not
overlong, and its host has none of the characters that a request cannot hold. -/
def isSendable (u : Url) : Bool :=
  (u.scheme = "http" || u.scheme = "https") && u.render.utf8ByteSize ≤ 65534 &&
    u.authority.toList.all fun c => !(['"', '\x60', '\x7b', '\x7d'].contains c)

/-- What the last delivery of a try means for who wants an `α`. One that still sends the client on is
not followed. -/
def outcome (d : Decoder α) (shown : String) : Delivery → Except Fault α
  | .closed => .error (.network ("error sending request for url (" ++ shown ++ ")"))
  | .moved target => .error (.network (if isSendable target then
      "error following redirect for url (" ++ shown ++ ")"
    else "builder error for url (" ++ target.render ++ ")"))
  | .response status body =>
    if Status.isSuccess status then
      match body.map d.decode with
      | some (.ok a) => .ok a
      | _ => .error (.decode "error decoding response body")
    else .error (statusFault status (failureMessage status (body.getD "")))

/-! ### Requests -/

/-- How often in a row a client goes on to where it is sent. -/
def maxHops : Nat := 10

/-- An address is requested. If what comes back sends the client on, so is the address that it is sent
to, a number of times at most. Gives what was requested, and what the last of these addresses, given too,
delivered. -/
def travel (net : Network) : (request : String → Traffic) → (hops : Nat) → Url → List Traffic →
    List Traffic × Url × Delivery
  | request, 0, u, log => ([request u.location], u, net.deliver u.location (Network.asked log u.location))
  | request, hops + 1, u, log =>
    match net.deliver u.location (Network.asked log u.location) with
    | .moved target =>
      if isSendable target then
        let (rest, last, delivery) := travel net .followed hops target (log ++ [request u.location])
        (request u.location :: rest, last, delivery)
      else ([request u.location], u, .moved target)
    | delivery => ([request u.location], u, delivery)

/-- Asks once. -/
def askOnce (net : Network) (d : Decoder α) (u : Url) (log : List Traffic) :
    List Traffic × Except Fault α :=
  let u := u.withoutCredentials
  if isSendable u then
    let (requests, last, delivery) := travel net .requested maxHops u log
    (log ++ requests, outcome d last.render delivery)
  else (log, .error (.network ("builder error for url (" ++ u.render ++ ")")))

/-- Asks with `once`, and asks again while the fault may pass and tries are left. The number `done` of
retries made so far sets the pause before the next. -/
def askFrom (once : List Traffic → List Traffic × Except Fault α) (pauseMs : Nat → Nat) :
    (left done : Nat) → List Traffic → List Traffic × Except Fault α
  | 0, _, log => once log
  | left + 1, done, log =>
    match once log with
    | (log, .ok a) => (log, .ok a)
    | (log, .error e) =>
      if e.isRetryable then
        askFrom once pauseMs left (done + 1) (log ++ [.paused (pauseMs (done + 1))])
      else (log, .error e)

/-- Asks an address for an `α`. -/
def ask (c : Client) (net : Network) (d : Decoder α) (u : Url) (log : List Traffic) :
    List Traffic × Except Fault α :=
  askFrom (askOnce net d u) c.settings.backoffMs c.settings.maxRetries.toNat 0 log

/-- A list under a key, empty when the key is missing. -/
def listed (key : String) (d : Decoder α) : Decoder (List α) :=
  record [allow key (Decoder.list d) fun v _ => v] []

def fetchSchema (c : Client) (net : Network) (id : String) (log : List Traffic) :
    List Traffic × Except Fault Schema := c.ask net Schema.decoder (c.schemaUrl id) log

def fetchFragment (c : Client) (net : Network) (id : String) (log : List Traffic) :
    List Traffic × Except Fault Fragment := c.ask net Fragment.decoder (c.fragmentUrl id) log

/-- The fragments of a category, or all of them. -/
def listFragments (c : Client) (net : Network) (category : Option Category) (log : List Traffic) :
    List Traffic × Except Fault (List Fragment) :=
  c.ask net (listed "fragments" Fragment.decoder)
    (match category with
      | some category => c.categoryUrl category
      | none => c.fragmentsUrl) log

def listStrategies (c : Client) (net : Network) (log : List Traffic) :
    List Traffic × Except Fault (List StrategyEntry) :=
  c.ask net (listed "strategies" StrategyEntry.decoder) c.strategiesUrl log

end Client

end StrategyForm.Web
