import StrategyForm.Web.Client

/-!
# Asking again

Main statement (`asked_until_final`): each of the client's calls tries one address until a try is final or
no retry is left, pauses before each retry for the backoff times the number of the retry, and answers with
what the last try brought. In a try the client goes on to where it is sent (`Trip`). `Means` and
`Delivery.MayPass` say what comes of a delivery, and which of them are worth another try, on the status
alone. Of some addresses no request can be made up, and these are never asked (`unasked_or_sent_on`).

The loop is settled without looking at what a try is (`askFrom_spec`): the traffic before each try is that
of the tries before it (`before`), and all tries but the last may pass (`IsLast`). How often an address was
asked is read off the traffic, so one round moves the next delivery by one.
-/

namespace StrategyForm

/-- The fault without its message. -/
def Fault.silent : Fault → Fault
  | config _ => config ""
  | network _ => network ""
  | http status _ => http status ""
  | notFound _ => notFound ""
  | decode _ => decode ""

namespace Web
open Json Json.Decoder

/-! ### Deliveries -/

namespace Delivery

/-- A try that ends with this delivery is worth another. -/
def MayPass : Delivery → Prop
  | closed | moved _ => True
  | response status _ => status = 429 ∨ 500 ≤ status

/-- Deliveries that differ at most in what is said about a failure. -/
inductive Alike : Delivery → Delivery → Prop where
  | refl (delivery : Delivery) : Alike delivery delivery
  | failure {status : Nat} (failure : status < 200 ∨ 300 ≤ status) (body body' : Option String) :
    Alike (response status body) (response status body')

theorem Alike.mayPass_iff {delivery delivery' : Delivery} (h : delivery.Alike delivery') :
    delivery'.MayPass ↔ delivery.MayPass := by
  cases h with
  | refl => rfl
  | failure => rfl

end Delivery

variable {α : Type} {d : Decoder α}

/-- What a delivery means for who wants an `α`, up to the messages of faults. -/
inductive Means (d : Decoder α) : Delivery → Except Fault α → Prop where
  | value {status : Nat} {body : String} {a : α} (success : 200 ≤ status ∧ status < 300)
    (decodes : d.decode body = .ok a) : Means d (.response status (some body)) (.ok a)
  | wrongShape {status : Nat} {body : String} {flaw : Mistake}
    (success : 200 ≤ status ∧ status < 300) (fails : d.decode body = .error flaw)
    (message : String) : Means d (.response status (some body)) (.error (.decode message))
  | brokenOff {status : Nat} (success : 200 ≤ status ∧ status < 300) (message : String) :
    Means d (.response status none) (.error (.decode message))
  | missing (body : Option String) (message : String) :
    Means d (.response 404 body) (.error (.notFound message))
  | failure {status : Nat} (failure : status < 200 ∨ 300 ≤ status) (other : status ≠ 404)
    (body : Option String) (message : String) :
    Means d (.response status body) (.error (.http status message))
  | closed (message : String) : Means d .closed (.error (.network message))
  /-- The client was sent on too often, or to where it cannot go. -/
  | astray (target : Url) (message : String) : Means d (.moved target) (.error (.network message))

/-- A result after which the address is tried again, if a retry is left. -/
def Retried (result : Except Fault α) : Prop := ∃ e, result = .error e ∧ e.isRetryable = true

theorem Means.retried_iff {delivery : Delivery} {result : Except Fault α}
    (h : Means d delivery result) : Retried result ↔ delivery.MayPass := by
  have final {status : Nat} (success : 200 ≤ status ∧ status < 300) :
      ¬ (status = 429 ∨ 500 ≤ status) := by omega
  cases h with
  | value success => simpa [Retried, Delivery.MayPass] using final success
  | wrongShape success => simpa [Retried, Delivery.MayPass, Fault.isRetryable] using final success
  | brokenOff success => simpa [Retried, Delivery.MayPass, Fault.isRetryable] using final success
  | missing => simp [Retried, Delivery.MayPass, Fault.isRetryable]
  | failure => simp [Retried, Delivery.MayPass, Fault.isRetryable]
  | closed | astray => simp [Retried, Delivery.MayPass, Fault.isRetryable]

/-- What is retried: a broken connection, too many requests, a failing server. -/
theorem Means.of_mayPass {delivery : Delivery} {result : Except Fault α}
    (h : Means d delivery result) (passing : delivery.MayPass) :
    (∃ message, result = .error (.network message)) ∨
      ∃ status message, result = .error (.http status message) ∧ (status = 429 ∨ 500 ≤ status) := by
  simp only [Delivery.MayPass] at passing
  cases h with
  | closed message | astray _ message => exact .inl ⟨message, rfl⟩
  | failure _ _ _ message => exact .inr ⟨_, message, rfl, passing⟩
  | value | wrongShape | brokenOff | missing => omega

/-- A value comes of a response that tells of success and has it as its body. -/
theorem Means.ok_iff {delivery : Delivery} {result : Except Fault α} (h : Means d delivery result) (a : α) :
    result = .ok a ↔ ∃ status body, delivery = .response status (some body) ∧
      (200 ≤ status ∧ status < 300) ∧ d.decode body = .ok a := by
  cases h with
  | value success decodes =>
    refine ⟨fun e => ?_, ?_⟩
    · cases e
      exact ⟨_, _, rfl, success, decodes⟩
    · rintro ⟨status, body, e, -, decodes'⟩
      cases e
      cases decodes.symm.trans decodes'
      rfl
  | wrongShape success fails =>
    refine ⟨nofun, ?_⟩
    rintro ⟨status, body, e, -, decodes⟩
    cases e
    rw [fails] at decodes
    cases decodes
  | missing | failure =>
    refine ⟨nofun, ?_⟩
    rintro ⟨status, body, e, success, -⟩
    cases e
    omega
  | brokenOff | closed | astray =>
    refine ⟨nofun, ?_⟩
    rintro ⟨status, body, e, -⟩
    cases e

namespace Client
variable {shown : String}

theorem isSuccess_iff (status : Nat) :
    Status.isSuccess status = true ↔ 200 ≤ status ∧ status < 300 := by
  simp [Status.isSuccess]

theorem outcome_of_failure {status : Nat} (failure : status < 200 ∨ 300 ≤ status)
    (body : Option String) : outcome d shown (.response status body) =
      .error (statusFault status (failureMessage status (body.getD ""))) := by
  have no : ¬ Status.isSuccess status = true := by rw [isSuccess_iff]; omega
  rw [outcome, if_neg no]

theorem outcome_means (d : Decoder α) (shown : String) (delivery : Delivery) :
    Means d delivery (outcome d shown delivery) := by
  cases delivery with
  | closed => exact .closed _
  | moved target => exact .astray target _
  | response status body =>
    by_cases success : 200 ≤ status ∧ status < 300
    · rw [outcome, if_pos ((isSuccess_iff status).2 success)]
      cases body with
      | none => exact .brokenOff success _
      | some body =>
        rw [Option.map_some]
        cases decoded : d.decode body with
        | ok a => exact .value success decoded
        | error flaw => exact .wrongShape success decoded _
    · have failure : status < 200 ∨ 300 ≤ status := by omega
      rw [outcome_of_failure failure, statusFault]
      split
      · rename_i e
        subst e
        exact .missing body _
      · rename_i other
        exact .failure failure other body _

theorem silent_statusFault (status : Nat) (message message' : String) :
    (statusFault status message').silent = (statusFault status message).silent := by
  unfold statusFault
  split <;> rfl

theorem outcome_alike {delivery delivery' : Delivery} (same : delivery.Alike delivery') :
    (outcome d shown delivery').mapError Fault.silent =
      (outcome d shown delivery).mapError Fault.silent := by
  cases same with
  | refl => rfl
  | failure failure body body' =>
    rw [outcome_of_failure failure, outcome_of_failure failure]
    exact congrArg Except.error (silent_statusFault _ _ _)

/-! ### The loop -/

/-- The number of the last try, with at most `left` retries, when it is known which tries may pass. -/
structure IsLast (passes : Nat → Prop) (left n : Nat) : Prop where
  le : n ≤ left
  before : ∀ i < n, passes i
  final : n < left → ¬ passes n

namespace IsLast
variable {passes passes' : Nat → Prop} {left n k : Nat}

theorem eq_min (h : IsLast passes left n) (first : ∀ i < k, passes i) (final : ¬ passes k) :
    n = min k left := by
  have le := h.le
  have up : n ≤ k := Nat.le_of_not_lt fun lt => final (h.before k lt)
  have down : ¬ (n < k ∧ n < left) := fun ⟨lt, more⟩ => h.final more (first n lt)
  omega

theorem eq_left (h : IsLast passes left n) (all : ∀ i, passes i) : n = left := by
  have le := h.le
  have up : ¬ n < left := fun more => h.final more (all n)
  omega

theorem zero : IsLast passes 0 0 := ⟨Nat.le_refl 0, by omega, by omega⟩

theorem of_final (final : ¬ passes 0) : IsLast passes left 0 :=
  ⟨Nat.zero_le left, by omega, fun _ => final⟩

theorem succ (first : passes 0) (h : IsLast (fun i => passes (i + 1)) left n) :
    IsLast passes (left + 1) (n + 1) := by
  refine ⟨Nat.succ_le_succ h.le, fun i hi => ?_, fun more => h.final (by omega)⟩
  cases i with
  | zero => exact first
  | succ i => exact h.before i (by omega)

end IsLast

variable {once : List Traffic → List Traffic × Except Fault α} {pauseMs : Nat → Nat}

theorem askFrom_of_final {left : Nat} {log : List Traffic}
    (final : left = 0 ∨ ¬ Retried (once log).2) (done : Nat) :
    askFrom once pauseMs left done log = once log := by
  cases left with
  | zero => rfl
  | succ left =>
    have final := final.resolve_left (Nat.succ_ne_zero left)
    rw [askFrom]
    generalize once log = result at final
    obtain ⟨log', result⟩ := result
    cases result with
    | ok a => rfl
    | error e => exact if_neg fun retryable => final ⟨e, rfl, retryable⟩

theorem askFrom_of_retried {log : List Traffic} (retried : Retried (once log).2) (left done : Nat) :
    askFrom once pauseMs (left + 1) done log =
      askFrom once pauseMs left (done + 1) ((once log).1 ++ [.paused (pauseMs (done + 1))]) := by
  rw [askFrom]
  generalize once log = result at retried
  obtain ⟨log', result⟩ := result
  obtain ⟨e, rfl, retryable⟩ := retried
  exact if_pos retryable

/-- The traffic before a try, each try before it having been followed by a pause. -/
def before (once : List Traffic → List Traffic × Except Fault α) (pauseMs : Nat → Nat) (done : Nat)
    (log : List Traffic) : Nat → List Traffic
  | 0 => log
  | i + 1 => (once (before once pauseMs done log i)).1 ++ [.paused (pauseMs (done + i + 1))]

/-- The first try can be counted to what was before. -/
theorem before_succ (done : Nat) (log : List Traffic) (i : Nat) :
    before once pauseMs (done + 1) ((once log).1 ++ [.paused (pauseMs (done + 1))]) i =
      before once pauseMs done log (i + 1) := by
  induction i with
  | zero => rfl
  | succ i ih =>
    have order : done + 1 + i + 1 = done + (i + 1) + 1 := by omega
    rw [before, ih, order]
    rfl

/-- Retries are spent as long as results are to be retried and there are some. -/
theorem askFrom_spec (once : List Traffic → List Traffic × Except Fault α) (pauseMs : Nat → Nat)
    (left done : Nat) (log : List Traffic) :
    ∃ n, IsLast (fun i => Retried (once (before once pauseMs done log i)).2) left n ∧
      askFrom once pauseMs left done log = once (before once pauseMs done log n) := by
  induction left generalizing done log with
  | zero => exact ⟨0, .zero, askFrom_of_final (.inl rfl) done⟩
  | succ left ih =>
    by_cases retried : Retried (once log).2
    · obtain ⟨n, last, rest⟩ := ih (done + 1) ((once log).1 ++ [.paused (pauseMs (done + 1))])
      simp only [before_succ] at last rest
      exact ⟨n + 1, .succ retried last, (askFrom_of_retried retried left done).trans rest⟩
    · exact ⟨0, .of_final retried, askFrom_of_final (.inr retried) done⟩

/-! ### Tries -/

/-- One try at an address: what is requested, and what comes back in the end. As long as it may and can,
the client goes on to where it is sent. -/
inductive Trip (net : Network) :
    (String → Traffic) → (hops : Nat) → Url → List Traffic → List Traffic → Delivery → Prop where
  | ends {request hops u log delivery}
      (gets : net.deliver u.location (Network.asked log u.location) = delivery)
      (stays : ∀ target, delivery = .moved target → hops = 0 ∨ isSendable target = false) :
    Trip net request hops u log [request u.location] delivery
  | goesOn {request hops u target log rest delivery}
      (gets : net.deliver u.location (Network.asked log u.location) = .moved target)
      (sendable : isSendable target = true)
      (further : Trip net .followed hops target (log ++ [request u.location]) rest delivery) :
    Trip net request (hops + 1) u log (request u.location :: rest) delivery

section Trip
variable {net net' : Network} {request : String → Traffic} {hops : Nat} {u : Url}
  {log rest rest' : List Traffic} {delivery delivery' : Delivery}

theorem travel_trip (net : Network) (request : String → Traffic) (hops : Nat) (u : Url)
    (log : List Traffic) :
    Trip net request hops u log (travel net request hops u log).1 (travel net request hops u log).2.2 := by
  induction hops generalizing request u log with
  | zero => exact .ends rfl fun _ _ => .inl rfl
  | succ hops ih =>
    cases gets : net.deliver u.location (Network.asked log u.location) with
    | closed | response =>
      simp only [travel, gets]
      exact .ends gets nofun
    | moved target =>
      cases sendable : isSendable target with
      | true =>
        simp only [travel, gets, sendable, if_true]
        exact .goesOn gets sendable (ih ..)
      | false =>
        simp only [travel, gets, sendable, Bool.false_eq_true, if_false]
        refine .ends gets fun target' e => .inr ?_
        cases e
        exact sendable

/-- A try begins with the address, and whatever follows is where the client was sent. -/
theorem Trip.spelled (h : Trip net request hops u log rest delivery) :
    ∃ further, rest = request u.location :: further ∧ further.length ≤ hops ∧
      ∀ x ∈ further, ∃ location, x = .followed location := by
  induction h with
  | ends => exact ⟨[], rfl, Nat.zero_le _, by simp⟩
  | goesOn _ _ _ ih =>
    obtain ⟨further, rfl, short, followed⟩ := ih
    refine ⟨_, rfl, Nat.succ_le_succ short, fun x hx => ?_⟩
    rcases List.mem_cons.1 hx with rfl | hx
    · exact ⟨_, rfl⟩
    · exact followed x hx

/-- What a try brings is determined by the network. -/
theorem Trip.unique (h : Trip net request hops u log rest delivery)
    (h' : Trip net request hops u log rest' delivery') : rest' = rest ∧ delivery' = delivery := by
  induction h generalizing rest' delivery' with
  | ends gets stays =>
    cases h' with
    | ends gets' => exact ⟨rfl, gets'.symm.trans gets⟩
    | goesOn gets' sendable =>
      have last := stays _ (gets.symm.trans gets')
      simp [sendable] at last
  | goesOn gets sendable _ ih =>
    cases h' with
    | ends gets' stays =>
      have last := stays _ (gets'.symm.trans gets)
      simp [sendable] at last
    | goesOn gets' _ further' =>
      cases gets.symm.trans gets'
      obtain ⟨rfl, rfl⟩ := ih further'
      exact ⟨rfl, rfl⟩

/-- The deliveries for the requests of an address that are still to come. -/
def due (net : Network) (location : String) (log : List Traffic) (i : Nat) : Delivery :=
  net.deliver location (Network.asked log location + i)

theorem asked_append (log more : List Traffic) (location : String) :
    Network.asked (log ++ more) location = Network.asked log location + Network.asked more location := by
  simp only [Network.asked, List.count_append]
  omega

@[simp] theorem asked_paused (log : List Traffic) (ms : Nat) (location : String) :
    Network.asked (log ++ [.paused ms]) location = Network.asked log location := by
  rw [asked_append]
  rfl

/-- From now on the networks deliver the same, but for what is said about failures. -/
def AlikeFrom (net net' : Network) (log : List Traffic) : Prop :=
  ∀ location i, (due net location log i).Alike (due net' location log i)

theorem AlikeFrom.append (h : AlikeFrom net net' log) (more : List Traffic) :
    AlikeFrom net net' (log ++ more) := by
  intro location i
  have same := h location (Network.asked more location + i)
  unfold due at same ⊢
  rwa [asked_append, Nat.add_assoc]

theorem AlikeFrom.travel (h : AlikeFrom net net' log) (request : String → Traffic) (hops : Nat) (u : Url) :
    (travel net' request hops u log).1 = (travel net request hops u log).1 ∧
      (travel net' request hops u log).2.1 = (travel net request hops u log).2.1 ∧
      (travel net request hops u log).2.2.Alike (travel net' request hops u log).2.2 := by
  induction hops generalizing request u log with
  | zero => exact ⟨rfl, rfl, h u.location 0⟩
  | succ hops ih =>
    have same := h u.location 0
    unfold due at same
    rw [Nat.add_zero] at same
    unfold Client.travel
    generalize net.deliver u.location (Network.asked log u.location) = delivery at *
    generalize net'.deliver u.location (Network.asked log u.location) = delivery' at *
    cases same with
    | failure failure body body' => exact ⟨rfl, rfl, .failure failure body body'⟩
    | refl =>
      cases delivery with
      | closed | response => exact ⟨rfl, rfl, .refl _⟩
      | moved target =>
        dsimp only
        split
        · obtain ⟨rest, last, alike⟩ := ih (h.append [request u.location]) .followed target
          exact ⟨congrArg (request u.location :: ·) rest, last, alike⟩
        · exact ⟨rfl, rfl, .refl _⟩

end Trip

section Tries
variable {net net' : Network} {u : Url}

theorem askOnce_of_sendable (sendable : isSendable u.withoutCredentials = true) (log : List Traffic) :
    askOnce net d u log =
      (log ++ (travel net .requested maxHops u.withoutCredentials log).1,
        outcome d (travel net .requested maxHops u.withoutCredentials log).2.1.render
          (travel net .requested maxHops u.withoutCredentials log).2.2) := by
  simp only [askOnce, sendable, if_true]

/-- Where no request can be made up, a try ends before there is one. -/
theorem askOnce_of_unsendable (unsendable : isSendable u.withoutCredentials = false)
    (log : List Traffic) : askOnce net d u log = (log, .error (.network
      ("builder error for url (" ++ u.withoutCredentials.render ++ ")"))) := by
  simp [askOnce, unsendable]

theorem askOnce_grows (net : Network) (d : Decoder α) (u : Url) (log : List Traffic) :
    ∃ more, (askOnce net d u log).1 = log ++ more := by
  cases sendable : isSendable u.withoutCredentials with
  | true => exact ⟨_, congrArg Prod.fst (askOnce_of_sendable sendable log)⟩
  | false => exact ⟨[], by rw [askOnce_of_unsendable sendable, List.append_nil]⟩

theorem AlikeFrom.askOnce {log : List Traffic} (h : AlikeFrom net net' log) (d : Decoder α) (u : Url) :
    (askOnce net' d u log).1 = (askOnce net d u log).1 ∧
      (askOnce net' d u log).2.mapError Fault.silent = (askOnce net d u log).2.mapError Fault.silent ∧
      (Retried (askOnce net' d u log).2 ↔ Retried (askOnce net d u log).2) := by
  cases sendable : isSendable u.withoutCredentials with
  | false => simp [askOnce_of_unsendable sendable]
  | true =>
    obtain ⟨rest, last, alike⟩ := h.travel .requested maxHops u.withoutCredentials
    rw [askOnce_of_sendable sendable, askOnce_of_sendable sendable, rest, last]
    refine ⟨rfl, outcome_alike alike, ?_⟩
    rw [(outcome_means d _ _).retried_iff, (outcome_means d _ _).retried_iff, alike.mayPass_iff]

theorem AlikeFrom.askFrom {log : List Traffic} (h : AlikeFrom net net' log) (d : Decoder α) (u : Url)
    (pauseMs : Nat → Nat) (left done : Nat) :
    (askFrom (Client.askOnce net' d u) pauseMs left done log).1 =
        (askFrom (Client.askOnce net d u) pauseMs left done log).1 ∧
      (askFrom (Client.askOnce net' d u) pauseMs left done log).2.mapError Fault.silent =
        (askFrom (Client.askOnce net d u) pauseMs left done log).2.mapError Fault.silent := by
  induction left generalizing done log with
  | zero => exact ⟨(h.askOnce d u).1, (h.askOnce d u).2.1⟩
  | succ left ih =>
    obtain ⟨traffic, result, retried_iff⟩ := h.askOnce d u
    by_cases retried : Retried (Client.askOnce net d u log).2
    · obtain ⟨more, grown⟩ := askOnce_grows net d u log
      rw [askFrom_of_retried retried, askFrom_of_retried (retried_iff.2 retried), traffic, grown,
        List.append_assoc]
      exact ih (h.append _) _
    · rw [askFrom_of_final (.inr retried), askFrom_of_final (.inr fun h => retried (retried_iff.1 h))]
      exact ⟨traffic, result⟩

end Tries

/-! ### Calls -/

end Client

/-- What a client can be asked. -/
inductive Query where
  | schema (id : String)
  | fragment (id : String)
  /-- The fragments of a category, or all of them. -/
  | fragments (category : Option Category)
  | strategies

namespace Query
open Client

/-- What is asked for. -/
abbrev Reply : Query → Type
  | schema _ => Schema
  | fragment _ => Fragment
  | fragments _ => List Fragment
  | strategies => List StrategyEntry

/-- The address that has it. -/
def url (c : Client) : Query → Url
  | schema id => c.schemaUrl id
  | fragment id => c.fragmentUrl id
  | fragments none => c.fragmentsUrl
  | fragments (some category) => c.categoryUrl category
  | strategies => c.strategiesUrl

def decoder : (q : Query) → Decoder q.Reply
  | schema _ => Schema.decoder
  | fragment _ => Fragment.decoder
  | fragments _ => listed "fragments" Fragment.decoder
  | strategies => listed "strategies" StrategyEntry.decoder

/-- The client's call for it. -/
def call (c : Client) (net : Network) : (q : Query) → List Traffic → List Traffic × Except Fault q.Reply
  | schema id => c.fetchSchema net id
  | fragment id => c.fetchFragment net id
  | fragments category => c.listFragments net category
  | strategies => c.listStrategies net

theorem call_eq (q : Query) (c : Client) (net : Network) (log : List Traffic) :
    q.call c net log = c.ask net q.decoder (q.url c) log := by
  cases q with
  | schema | fragment | strategies => rfl
  | fragments category => cases category <;> rfl

end Query

namespace Client

/-- The traffic before a try, from what the tries before it requested. -/
theorem before_eq {net : Network} {u : Url} (sendable : isSendable u.withoutCredentials = true)
    (pauseMs : Nat → Nat) (log : List Traffic) (i : Nat) :
    before (askOnce net d u) pauseMs 0 log i = log ++ (List.range i).flatMap fun j =>
      (travel net .requested maxHops u.withoutCredentials (before (askOnce net d u) pauseMs 0 log j)).1 ++
        [.paused (pauseMs (j + 1))] := by
  induction i with
  | zero => rw [List.range_zero, List.flatMap_nil, List.append_nil]; rfl
  | succ i ih =>
    rw [before, askOnce_of_sendable sendable, List.range_succ, List.flatMap_append, ← List.append_assoc,
      ← ih]
    simp

/-- Where nobody is sent on, a try is one request, and brings the next delivery. -/
theorem Trip.of_unmoved {net : Network} {u : Url} {log rest : List Traffic} {delivery : Delivery}
    (h : Trip net .requested maxHops u log rest delivery) {n : Nat}
    (asked : Network.asked log u.location = n) (stays : ∀ target, net.deliver u.location n ≠ .moved target) :
    rest = [.requested u.location] ∧ delivery = net.deliver u.location n := by
  subst asked
  cases h with
  | ends gets => exact ⟨rfl, gets.symm⟩
  | goesOn gets => exact absurd gets (stays _)

/-- The same, try after try: the deliveries come one after the other. -/
theorem travel_of_unmoved {net : Network} {u : Url} {log : List Traffic}
    (sendable : isSendable u.withoutCredentials = true) (pauseMs : Nat → Nat)
    (unmoved : ∀ i target, due net u.withoutCredentials.location log i ≠ .moved target) (i : Nat) :
    let logs := before (askOnce net d u) pauseMs 0 log
    Network.asked (logs i) u.withoutCredentials.location =
        Network.asked log u.withoutCredentials.location + i ∧
      (travel net .requested maxHops u.withoutCredentials (logs i)).1 =
        [.requested u.withoutCredentials.location] ∧
      (travel net .requested maxHops u.withoutCredentials (logs i)).2.2 =
        due net u.withoutCredentials.location log i := by
  intro logs
  have one (i : Nat) (asked : Network.asked (logs i) u.withoutCredentials.location =
      Network.asked log u.withoutCredentials.location + i) :=
    (travel_trip net .requested maxHops u.withoutCredentials (logs i)).of_unmoved asked (unmoved i)
  have asked : Network.asked (logs i) u.withoutCredentials.location =
      Network.asked log u.withoutCredentials.location + i := by
    induction i with
    | zero => rfl
    | succ i ih =>
      have next : logs (i + 1) = logs i ++
          (travel net .requested maxHops u.withoutCredentials (logs i)).1 ++ [.paused (pauseMs (i + 1))] := by
        show (askOnce net d u (logs i)).1 ++ [.paused (pauseMs (0 + i + 1))] = _
        rw [askOnce_of_sendable sendable, Nat.zero_add]
      rw [next, asked_paused, asked_append, ih, (one i ih).1]
      simp [Network.asked, Nat.add_assoc]
  exact ⟨asked, one i asked⟩

theorem askFrom_of_unsendable (net : Network) (d : Decoder α) {u : Url}
    (unsendable : isSendable u.withoutCredentials = false) (pauseMs : Nat → Nat) (left done : Nat)
    (log : List Traffic) : ∃ message, askFrom (askOnce net d u) pauseMs left done log =
      (log ++ (List.range left).map fun i => .paused (pauseMs (done + i + 1)),
        .error (.network message)) := by
  refine ⟨"builder error for url (" ++ u.withoutCredentials.render ++ ")", ?_⟩
  have once (log : List Traffic) : askOnce net d u log = (log, .error (.network
      ("builder error for url (" ++ u.withoutCredentials.render ++ ")"))) :=
    askOnce_of_unsendable unsendable log
  induction left generalizing done log with
  | zero => rw [askFrom, once, List.range_zero, List.map_nil, List.append_nil]
  | succ left ih =>
    have retried : Retried (askOnce net d u log).2 := ⟨_, congrArg Prod.snd (once log), rfl⟩
    rw [askFrom_of_retried retried, once, ih, List.range_succ_eq_map]
    have order (i : Nat) : done + 1 + i + 1 = done + (i + 1) + 1 := by omega
    simp [order]

/-- What one call comes to, for any address of which a request can be made up. -/
theorem ask_of_sendable (c : Client) (net : Network) (d : Decoder α) (u : Url) (log : List Traffic)
    (sendable : isSendable u.withoutCredentials = true) :
    let location := u.withoutCredentials.location
    let tries := c.settings.maxRetries.toNat
    ∃ (retries : Nat) (requests : Nat → List Traffic) (final : Nat → Delivery),
      let before (i : Nat) := log ++ (List.range i).flatMap fun j =>
        requests j ++ [.paused (c.settings.backoffMs (j + 1))]
      (∀ i, Trip net .requested maxHops u.withoutCredentials (before i) (requests i) (final i)) ∧
      IsLast (fun i => (final i).MayPass) tries retries ∧
      (c.ask net d u log).1 = before retries ++ requests retries ∧
      Means d (final retries) (c.ask net d u log).2 ∧
      ((∀ i target, due net location log i ≠ .moved target) →
        (∀ i, requests i = [.requested location] ∧ final i = due net location log i) ∧
        Network.asked (c.ask net d u log).1 location = Network.asked log location + (retries + 1)) := by
  intro location tries
  let logs := before (askOnce net d u) c.settings.backoffMs 0 log
  let travels (i : Nat) := travel net .requested maxHops u.withoutCredentials (logs i)
  have tried (i : Nat) : askOnce net d u (logs i) =
      (logs i ++ (travels i).1, outcome d (travels i).2.1.render (travels i).2.2) :=
    askOnce_of_sendable sendable (logs i)
  obtain ⟨n, last, spec⟩ := askFrom_spec (askOnce net d u) c.settings.backoffMs tries 0 log
  have made : c.ask net d u log = (logs n ++ (travels n).1, outcome d (travels n).2.1.render (travels n).2.2) :=
    spec.trans (tried n)
  have passes (i : Nat) : Retried (askOnce net d u (logs i)).2 ↔ (travels i).2.2.MayPass := by
    rw [tried]
    exact (outcome_means d _ _).retried_iff
  rw [funext fun i => propext (passes i)] at last
  refine ⟨n, fun i => (travels i).1, fun i => (travels i).2.2, ?_⟩
  intro before
  have spelled (i : Nat) : before i = logs i := (before_eq sendable c.settings.backoffMs log i).symm
  refine ⟨fun i => ?_, last, ?_, ?_, fun unmoved => ?_⟩
  · rw [spelled]
    exact travel_trip ..
  · rw [made, spelled]
  · rw [made]
    exact outcome_means ..
  · have one := travel_of_unmoved (d := d) sendable c.settings.backoffMs unmoved
    refine ⟨fun i => (one i).2, ?_⟩
    have requests : (travels n).1 = [.requested location] := (one n).2.1
    rw [made, asked_append, (one n).1, requests]
    simp [Network.asked, Nat.add_assoc, location]

/-- The network gives an `α` for an address, within a number of retries: a try brings it, and all tries
before that one may pass. -/
inductive Served (net : Network) (d : Decoder α) (u : Url) (pauseMs : Nat → Nat) :
    (left done : Nat) → List Traffic → α → Prop where
  | now {left done log requests status body a}
      (trip : Trip net .requested maxHops u log requests (.response status (some body)))
      (success : 200 ≤ status ∧ status < 300) (decodes : d.decode body = .ok a) :
    Served net d u pauseMs left done log a
  | later {left done log requests delivery a}
      (trip : Trip net .requested maxHops u log requests delivery) (passing : delivery.MayPass)
      (again : Served net d u pauseMs left (done + 1)
        (log ++ requests ++ [.paused (pauseMs (done + 1))]) a) :
    Served net d u pauseMs (left + 1) done log a

theorem askOnce_ok_iff {net : Network} {u : Url} (sendable : isSendable u.withoutCredentials = true)
    (log : List Traffic) (a : α) : (askOnce net d u log).2 = .ok a ↔ ∃ requests status body,
      Trip net .requested maxHops u.withoutCredentials log requests (.response status (some body)) ∧
      (200 ≤ status ∧ status < 300) ∧ d.decode body = .ok a := by
  have trip := travel_trip net .requested maxHops u.withoutCredentials log
  rw [askOnce_of_sendable sendable, (outcome_means d _ _).ok_iff]
  refine ⟨fun ⟨status, body, e, given⟩ => ⟨_, status, body, e ▸ trip, given⟩, ?_⟩
  rintro ⟨requests, status, body, trip', given⟩
  exact ⟨status, body, (trip'.unique trip).2, given⟩

theorem askFrom_ok_iff {net : Network} {u : Url} (sendable : isSendable u.withoutCredentials = true)
    (pauseMs : Nat → Nat) (left done : Nat) (log : List Traffic) (a : α) :
    (askFrom (askOnce net d u) pauseMs left done log).2 = .ok a ↔
      Served net d u.withoutCredentials pauseMs left done log a := by
  have trip (log : List Traffic) := travel_trip net .requested maxHops u.withoutCredentials log
  have retried_iff (log : List Traffic) : Retried (askOnce net d u log).2 ↔
      (travel net .requested maxHops u.withoutCredentials log).2.2.MayPass := by
    rw [askOnce_of_sendable sendable]
    exact (outcome_means d _ _).retried_iff
  -- On the retries left; either the first try is retried, and the value comes later, or it counts.
  induction left generalizing done log with
  | zero =>
    rw [askFrom, askOnce_ok_iff sendable]
    refine ⟨fun ⟨_, _, _, trip, success, decodes⟩ => .now trip success decodes, fun served => ?_⟩
    cases served with
    | now trip success decodes => exact ⟨_, _, _, trip, success, decodes⟩
  | succ left ih =>
    by_cases retried : Retried (askOnce net d u log).2
    · have passing := (retried_iff log).1 retried
      rw [askFrom_of_retried retried]
      refine (ih _ _).trans ?_
      rw [askOnce_of_sendable sendable]
      refine ⟨fun served => .later (trip log) passing served, fun served => ?_⟩
      cases served with
      | now trip' success =>
        have passing : Delivery.MayPass (.response _ _) := ((trip log).unique trip').2 ▸ passing
        simp only [Delivery.MayPass] at passing
        omega
      | later trip' _ again =>
        obtain ⟨same, -⟩ := (trip log).unique trip'
        rwa [same] at again
    · rw [askFrom_of_final (.inr retried), askOnce_ok_iff sendable]
      refine ⟨fun ⟨_, _, _, trip, success, decodes⟩ => .now trip success decodes, fun served => ?_⟩
      cases served with
      | now trip success decodes => exact ⟨_, _, _, trip, success, decodes⟩
      | later trip' passing =>
        have passing := ((trip log).unique trip').2 ▸ passing
        exact absurd ((retried_iff log).2 passing) retried

end Client

/-- The network gives what is asked for. -/
def Query.Given (q : Query) (c : Client) (net : Network) (log : List Traffic) (a : q.Reply) : Prop :=
  Client.isSendable (q.url c).withoutCredentials = true ∧
    Client.Served net q.decoder (q.url c).withoutCredentials c.settings.backoffMs
      c.settings.maxRetries.toNat 0 log a

/-- The client's call answers with what the network gives, and with nothing else. -/
theorem Query.call_ok_iff (q : Query) (c : Client) (net : Network) (log : List Traffic) (a : q.Reply) :
    (q.call c net log).2 = .ok a ↔ q.Given c net log a := by
  rw [q.call_eq, Query.Given]
  cases sendable : Client.isSendable (q.url c).withoutCredentials with
  | true => simpa [Client.ask] using Client.askFrom_ok_iff sendable c.settings.backoffMs _ 0 log a
  | false =>
    obtain ⟨message, spec⟩ := Client.askFrom_of_unsendable net q.decoder sendable
      c.settings.backoffMs c.settings.maxRetries.toNat 0 log
    rw [Client.ask, spec]
    simp

namespace Client

/-- Each of the client's calls tries its address until a try is final, or no retry is left: as many times
and one more as there are tries before the first final one, within the bound. Each try begins with one
request of the address, and goes on to where the client is sent, ten times at most. Before each retry the
client pauses for the backoff times the number of the retry; its answer is what the last try means; and all
tries before it told of a broken connection, of too many requests, of a failing server or of a way that
leads nowhere. Where the address sends nobody on, each try is one request and brings the next delivery.
What is said about a failure decides neither the traffic nor the answer, messages apart. An address of
which no request can be made up is not asked at all. -/
theorem asked_until_final (c : Client) (net : Network) (q : Query) (log : List Traffic) :
    let sent := (q.url c).withoutCredentials
    let tries := c.settings.maxRetries.toNat
    let backoff := c.settings.retryBackoffMs.toNat
    let call := q.call c net log
    (isSendable sent = true → ∃ (retries : Nat) (requests : Nat → List Traffic) (final : Nat → Delivery),
      let before (i : Nat) := log ++ (List.range i).flatMap fun j =>
        requests j ++ [.paused (backoff * (j + 1))]
      (∀ i, Trip net .requested maxHops sent (before i) (requests i) (final i) ∧
        ∃ further, requests i = .requested sent.location :: further ∧ further.length ≤ 10 ∧
          ∀ x ∈ further, ∃ location, x = .followed location) ∧
      (∀ k, ¬ (final k).MayPass → (∀ i < k, (final i).MayPass) → retries = min k tries) ∧
      ((∀ i, (final i).MayPass) → retries = tries) ∧
      call.1 = before retries ++ requests retries ∧
      Means q.decoder (final retries) call.2 ∧
      (∀ i < retries, ∀ result, Means q.decoder (final i) result →
        (∃ message, result = .error (.network message)) ∨
        ∃ status message, result = .error (.http status message) ∧
          (status = 429 ∨ 500 ≤ status)) ∧
      ((∀ i target, due net sent.location log i ≠ .moved target) →
        (∀ i, requests i = [.requested sent.location] ∧ final i = due net sent.location log i) ∧
        Network.asked call.1 sent.location = Network.asked log sent.location + (retries + 1))) ∧
    (isSendable sent = false →
      call.1 = log ++ (List.range tries).map (fun i => .paused (backoff * (i + 1))) ∧
      ∃ message, call.2 = .error (.network message)) ∧
    ∀ net', AlikeFrom net net' log → (q.call c net' log).1 = call.1 ∧
      (q.call c net' log).2.mapError Fault.silent = call.2.mapError Fault.silent := by
  intro sent tries backoff call
  have made : call = c.ask net q.decoder (q.url c) log := q.call_eq c net log
  refine ⟨fun sendable => ?_, fun unsendable => ?_, fun net' alike => ?_⟩
  · obtain ⟨retries, requests, final, trips, last, traffic, means, unmoved⟩ :=
      ask_of_sendable c net q.decoder (q.url c) log sendable
    rw [← made] at traffic means unmoved
    exact ⟨retries, requests, final, fun i => ⟨trips i, (trips i).spelled⟩,
      fun k final first => last.eq_min first final, last.eq_left, traffic, means,
      fun i hi result means => means.of_mayPass (last.before i hi), unmoved⟩
  · obtain ⟨message, spec⟩ := askFrom_of_unsendable net q.decoder unsendable
      c.settings.backoffMs tries 0 log
    have spec := made.trans spec
    refine ⟨(congrArg Prod.fst spec).trans ?_, message, congrArg Prod.snd spec⟩
    simp [ApiSettings.backoffMs, backoff]
  · rw [q.call_eq c net' log, made]
    exact alike.askFrom q.decoder (q.url c) c.settings.backoffMs tries 0

/-- A busy server, a broken connection and then an answer that is final, with retries to spare; and an
address of which no request can be made up. -/
theorem asked_until_final_behind_busy :
    let c : Client := ⟨{ maxRetries := 5, retryBackoffMs := 300 },
      { scheme := "http", host := some (.domain "h"), path := .segments ["api"] }⟩
    let files : Client := ⟨{ maxRetries := 2, retryBackoffMs := 300 },
      { scheme := "ftp", host := some (.domain "h"), path := .segments ["api"] }⟩
    let net : Network := .scripted [("http://h/api/strategies/meta",
      [.response 503 none, .closed, .response 404 none, .response 200 (some "\x7b\x7d")])]
    let asked : Traffic := .requested "http://h/api/strategies/meta"
    isSendable c.strategiesUrl.withoutCredentials = true ∧
    (c.listStrategies net []).1 = [asked, .paused 300, asked, .paused 600, asked] ∧
    (∃ message, (c.listStrategies net []).2 = .error (.notFound message)) ∧
    isSendable files.strategiesUrl.withoutCredentials = false ∧
    (files.listStrategies net []).1 = [.paused 300, .paused 600] := by
  intro c files net asked
  have sendable : isSendable c.strategiesUrl.withoutCredentials = true := by decide +kernel
  have location : c.strategiesUrl.withoutCredentials.location = "http://h/api/strategies/meta" := by
    decide +kernel
  have script (i : Nat) : due net "http://h/api/strategies/meta" [] i = Network.nth
      [.response 503 none, .closed, .response 404 none, .response 200 (some "\x7b\x7d")] i := by
    simp [due, Network.deliver, Network.asked, net]
  obtain ⟨retries, requests, final, -, first, -, traffic, means, -, unmoved⟩ :=
    (asked_until_final c net .strategies []).1 sendable
  have unmoved := (unmoved fun i target => by
    rw [Query.url, location, script]
    rcases i with _ | _ | _ | i <;> simp [Network.nth]).1
  simp only [Query.url, location, script] at unmoved
  have two : retries = 2 := by
    refine first 2 (by rw [(unmoved 2).2]; simp [Network.nth, Delivery.MayPass]) fun i hi => ?_
    have cases : i = 0 ∨ i = 1 := by omega
    rcases cases with rfl | rfl
    · rw [(unmoved 0).2]
      exact .inr (by decide)
    · rw [(unmoved 1).2]
      trivial
  rw [two] at traffic means
  rw [(unmoved 2).2] at means
  simp only [(unmoved _).1] at traffic
  have unsendable : isSendable files.strategiesUrl.withoutCredentials = false := by decide +kernel
  refine ⟨sendable, traffic, ?_, unsendable, ((asked_until_final files net .strategies []).2.1 unsendable).1⟩
  show ∃ message, (Query.strategies.call c net []).2 = _
  generalize (Query.strategies.call c net []).2 = result at means
  cases means with
  | missing _ message => exact ⟨message, rfl⟩
  | failure _ other => exact absurd rfl other
  | brokenOff success => omega

/-- A base address is accepted of which no request can be made up. And a server can send the client on, so
that one call requests two addresses. -/
theorem unasked_or_sent_on :
    let settings (baseUrl : String) : ApiSettings := { baseUrl, maxRetries := 2 }
    let files : Client := ⟨settings "ftp://h/",
      { scheme := "ftp", host := some (.domain "h"), path := .segments [""] }⟩
    let pages : Client := ⟨settings "http://h/",
      { scheme := "http", host := some (.domain "h"), path := .segments [""] }⟩
    let net : Network := .scripted [
      ("ftp://h/strategies/grid/schema", [.response 503 none]),
      ("http://h/strategies/grid/schema",
        [.moved { scheme := "http", host := some (.domain "h"), path := .segments ["new"] }]),
      ("http://h/new", [.response 404 none])]
    (create (settings "ftp://h/")).toOption = some files ∧
      (files.fetchSchema net "grid" []).1 = [.paused 300, .paused 600] ∧
      (create (settings "http://h/")).toOption = some pages ∧
      (pages.fetchSchema net "grid" []).1 =
        [.requested "http://h/strategies/grid/schema", .followed "http://h/new"] := by
  decide +kernel

end Client
end Web
end StrategyForm
