import ArgusMcp.Argusd.Kubernetes

/-!
# The HTTP API of argusd

The router picks a route by the method and the segments of the path, and a handler calls one of the
clients. A response is a status with a JSON value, or a stream of events. Errors become a status with
a text, or the last event of a stream.
-/

namespace ArgusMcp

namespace Argusd

inductive Method where
  | get
  | head
  | post
  | delete
  | other (name : String)
  deriving DecidableEq

structure Request where
  method : Method
  path : List String
  query : Dict String String

/-- `r.URL.Query().Get(key)`. -/
def Request.queryValue (r : Request) (key : String) : String := r.query.getD key ""

/-- The JSON values of the responses. -/
inductive Payload (δ : Type) where
  | health (docker k8s : Bool) (timestamp : ℤ)
  | containers (l : List ContainerInfo)
  | container (id : String) (c : Container δ)
  | status (s : String)
  | failure (f : Failure)
  | pods (l : List PodInfo)
  | pod (p : PodInfo)
  | podEvents (l : List PodEventInfo)

inductive Event (τ σ : Type) where
  | log (entry : LogEntry τ)
  | stats (snapshot : σ)
  | dockerEvent (info : EventInfo)
  | podLog (entry : PodLogEntry τ)
  | failure (f : Failure)

inductive Response (δ τ σ : Type) where
  | json (status : ℕ) (payload : Payload δ)
  | stream (events : List (Event τ σ))
  | notFound
  | methodNotAllowed

/-- The handlers that a request can get to, with the path values. -/
inductive Route where
  | health
  | listContainers
  | inspectContainer (id : String)
  | startContainer (id : String)
  | stopContainer (id : String)
  | restartContainer (id : String)
  | removeContainer (id : String)
  | containerLogs (id : String)
  | containerStats (id : String)
  | dockerEvents
  | listPods
  | describePod (key : Key)
  | deletePod (key : Key)
  | podLogs (key : Key)
  | podEvents (key : Key)
  | rolloutRestart (key : Key)
  | notFound
  | methodNotAllowed

/-- A pattern with `GET` is for `HEAD` as well. -/
def onGet (m : Method) (r : Route) : Route := if m = .get ∨ m = .head then r else .methodNotAllowed

def onPost (m : Method) (r : Route) : Route := if m = .post then r else .methodNotAllowed

/-- `NewRouter`. Pods have routes only if Kubernetes is available. -/
def route (k8s : Bool) (m : Method) : List String → Route
  | ["v1", "health"] => onGet m .health
  | ["v1", "containers"] => onGet m .listContainers
  | ["v1", "containers", id] => onGet m (.inspectContainer id)
  | ["v1", "containers", id, "start"] => onPost m (.startContainer id)
  | ["v1", "containers", id, "stop"] => onPost m (.stopContainer id)
  | ["v1", "containers", id, "restart"] => onPost m (.restartContainer id)
  | ["v1", "containers", id, "remove"] => onPost m (.removeContainer id)
  | ["v1", "containers", id, "logs"] => onGet m (.containerLogs id)
  | ["v1", "containers", id, "stats"] => onGet m (.containerStats id)
  | ["v1", "events"] => onGet m .dockerEvents
  | ["v1", "pods"] => if k8s then onGet m .listPods else .notFound
  | ["v1", "pods", ns, name] =>
    if k8s then
      if m = .delete then .deletePod (ns, name) else onGet m (.describePod (ns, name))
    else .notFound
  | ["v1", "pods", ns, name, "logs"] =>
    if k8s then onGet m (.podLogs (ns, name)) else .notFound
  | ["v1", "pods", ns, name, "events"] =>
    if k8s then onGet m (.podEvents (ns, name)) else .notFound
  | ["v1", "deployments", ns, name, "restart"] =>
    if k8s then onPost m (.rolloutRestart (ns, name)) else .notFound
  | _ => .notFound

def digitsValue (l : List Char) : Option ℕ :=
  if l ≠ [] ∧ l.all Char.isDigit then
    some (l.foldl (fun n c ↦ 10 * n + (c.toNat - '0'.toNat)) 0)
  else none

/-- `strconv.ParseInt(s, 10, 64)`. -/
def parseInt (s : String) : Option ℤ :=
  let value : Option ℤ :=
    match s.toList with
    | '-' :: rest => (digitsValue rest).map fun n ↦ -(n : ℤ)
    | '+' :: rest => (digitsValue rest).map fun n ↦ (n : ℤ)
    | l => (digitsValue l).map fun n ↦ (n : ℤ)
  value.filter fun n ↦ -(2 ^ 63) ≤ n ∧ n < 2 ^ 63

/-- What the daemon serves from. -/
structure World (δ : Type) where
  containers : Dict String (Container δ)
  containerEvents : List DaemonEvent
  pods : Dict Key (Pod δ)
  deployments : Dict Key (Deployment δ)
  podEvents : List PodEvent

/-- The clients, and what is left open about times and statistics. -/
structure Handler (δ ρ τ σ : Type) where
  docker : Engine δ ρ
  api : Api δ
  k8s : Bool
  parseTime : List UInt8 → Option τ
  parseDuration : String → Option ℤ
  computeStats : String → ρ → ρ → σ
  zeroStats : ρ

section Handlers

variable {δ ρ τ σ : Type} (H : Handler δ ρ τ σ) (clock : Clock)

/-- `respondJSON` with the result, or `respondError`. -/
def respond {α : Type} (errorStatus : ℕ) (payload : α → Payload δ) :
    Except Failure α → Response δ τ σ
  | .error f => .json errorStatus (.failure f)
  | .ok a => .json 200 (payload a)

/-- The events of a stream, with the error at its end. -/
def streamed {α : Type} (event : α → Event τ σ) (result : List α × Option Failure) :
    Response δ τ σ :=
  .stream (result.1.map event ++ (result.2.map Event.failure).toList)

/-- What is done to a container, and the answer if it went well. -/
def controlled (w : World δ) (answer : String)
    (result : Except Failure Unit × Dict String (Container δ)) : Response δ τ σ × World δ :=
  (respond 500 (fun _ ↦ .status answer) result.1, { w with containers := result.2 })

/-- The text that `RolloutRestart` puts in front of an error. -/
def rolloutFailure (key : Key) (f : Failure) : Failure := .wrapped "rollout restart" key.text f.text

/-- The number of lines that `PodLogs` asks for. -/
def podLogTail (r : Request) : ℤ :=
  if r.queryValue "tail" = "" then 100 else (parseInt (r.queryValue "tail")).getD 100

def handle (r : Request) (w : World δ) : Route → Response δ τ σ × World δ
  | .health => (.json 200 (.health true H.k8s clock.now), w)
  | .listContainers => (respond 500 .containers (listContainers H.docker w.containers), w)
  | .inspectContainer id =>
    (respond 404 (fun found ↦ .container found.1 found.2)
      (inspectContainer H.docker w.containers id), w)
  | .startContainer id => controlled w "started" (startContainer H.docker w.containers id)
  | .stopContainer id => controlled w "stopped" (stopContainer H.docker 10 w.containers id)
  | .restartContainer id => controlled w "restarted" (restartContainer H.docker 10 w.containers id)
  | .removeContainer id => controlled w "removed" (removeContainer H.docker w.containers id)
  | .containerLogs id =>
    (streamed .log (streamLogs H.docker H.parseTime w.containers id true (r.queryValue "since")
      (r.queryValue "tail")), w)
  | .containerStats id =>
    (streamed .stats (streamStats H.docker H.computeStats H.zeroStats w.containers id), w)
  | .dockerEvents => (streamed .dockerEvent (streamEvents H.docker w.containerEvents), w)
  | .listPods => (respond 500 .pods (listPods H.api clock w.pods), w)
  | .describePod key => (respond 404 .pod (describePod H.api clock w.pods key), w)
  | .deletePod key =>
    (respond 500 (fun _ ↦ .status "deleted") (deletePod H.api w.pods key).1,
      { w with pods := (deletePod H.api w.pods key).2 })
  | .podLogs key =>
    (streamed .podLog (streamPodLogs H.api H.parseTime H.parseDuration w.pods key
      (r.queryValue "container") true (r.queryValue "since") (podLogTail r)), w)
  | .podEvents key => (respond 500 .podEvents (podEvents H.api w.podEvents key), w)
  | .rolloutRestart key =>
    (respond 500 (fun _ ↦ .status "restarting")
        ((rolloutRestart H.api clock w.deployments key).1.mapError (rolloutFailure key)),
      { w with deployments := (rolloutRestart H.api clock w.deployments key).2 })
  | .notFound => (.notFound, w)
  | .methodNotAllowed => (.methodNotAllowed, w)

def serve (r : Request) (w : World δ) : Response δ τ σ × World δ :=
  handle H clock r w (route H.k8s r.method r.path)

end Handlers

end Argusd

end ArgusMcp
