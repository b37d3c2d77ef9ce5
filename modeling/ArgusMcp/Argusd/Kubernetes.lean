import ArgusMcp.Argusd.Docker

/-!
# The Kubernetes client of argusd

Pods and deployments are found by their namespace and name. What Kubernetes does with them is a
parameter (`Api`), like Docker.
-/

namespace ArgusMcp

namespace Argusd

/-- What a container of a pod is doing. -/
structure StatusState where
  running : Bool
  waiting : Option String
  terminated : Option String

structure PodContainer where
  name : String
  image : String
  ready : Bool
  restartCount : ℤ
  state : StatusState

/-- A pod, apart from its namespace and name. Times are in nanoseconds. -/
structure Pod (δ : Type) where
  labels : Labels
  created : ℤ
  phase : String
  podIp : String
  nodeName : String
  hostIp : String
  statuses : List PodContainer
  detail : δ

def Pod.isManaged {δ : Type} (p : Pod δ) : Bool := Argusd.isManaged p.labels

structure Deployment (δ : Type) where
  labels : Labels
  /-- The annotations of the pod template. -/
  annotations : Dict String String
  detail : δ

def Deployment.isManaged {δ : Type} (d : Deployment δ) : Bool := Argusd.isManaged d.labels

/-- An event, with the object it is about. -/
structure PodEvent where
  nameSpace : String
  involvedKind : String
  involvedName : String
  type : String
  reason : String
  message : String
  count : ℤ
  firstTimestamp : ℤ
  lastTimestamp : ℤ
  component : String

structure PodLogOptions where
  container : String
  follow : Bool
  timestamps : Bool
  tailLines : Option ℤ
  sinceSeconds : Option ℤ

/-- Namespace and name. -/
abbrev Key := String × String

def Key.text (key : Key) : String := key.1 ++ "/" ++ key.2

/-- What the client uses of Kubernetes. -/
structure Api (δ : Type) where
  /-- Why there is no pod or deployment. -/
  getError : String → Key → String
  listError : Option String
  /-- What becomes of a pod that is deleted, which may be nothing. -/
  delete : Pod δ → Except String (Option (Pod δ))
  /-- The log of a pod, in the pieces in which it is read. -/
  logs : Key → Pod δ → PodLogOptions → Except String (Reading (List UInt8))
  eventsError : Option String
  selects : String → PodEvent → Bool
  update : Deployment δ → Except String (Deployment δ)

structure ContainerStatus where
  name : String
  image : String
  ready : Bool
  restartCount : ℤ
  state : String

structure PodInfo where
  name : String
  nameSpace : String
  status : String
  podIp : String
  nodeName : String
  hostIp : String
  age : String
  restarts : ℤ
  labels : Labels
  containers : List ContainerStatus

structure PodLogEntry (τ : Type) where
  timestamp : Option τ
  pod : String
  container : String
  message : List UInt8

structure PodEventInfo where
  type : String
  reason : String
  message : String
  count : ℤ
  firstSeen : ℤ
  lastSeen : ℤ
  source : String

/-- What time it is, and how that is written. -/
structure Clock where
  now : ℤ
  stamp : String

def second : ℤ := 1000000000

def minute : ℤ := 60 * second

def hour : ℤ := 60 * minute

def ageText (age : ℤ) : String :=
  if age < minute then toString (age.tdiv second) ++ "s"
  else if age < hour then toString (age.tdiv minute) ++ "m"
  else if age < 24 * hour then toString (age.tdiv hour) ++ "h"
  else toString (age.tdiv (24 * hour)) ++ "d"

def StatusState.text (s : StatusState) : String :=
  if s.running then "running"
  else
    match s.waiting, s.terminated with
    | some reason, _ => "waiting:" ++ reason
    | none, some reason => "terminated:" ++ reason
    | none, none => "unknown"

section Kubernetes

variable {δ τ : Type} (A : Api δ)

def podToInfo (clock : Clock) (key : Key) (pod : Pod δ) : PodInfo where
  name := key.2
  nameSpace := key.1
  status := pod.phase
  podIp := pod.podIp
  nodeName := pod.nodeName
  hostIp := pod.hostIp
  age := ageText (clock.now - pod.created)
  restarts := (pod.statuses.map PodContainer.restartCount).sum.bmod (2 ^ 32)
  labels := pod.labels
  containers := pod.statuses.map fun s ↦ ⟨s.name, s.image, s.ready, s.restartCount, s.state.text⟩

/-- Kubernetes is asked for the pods with the label. -/
def listPods (clock : Clock) (pods : Dict Key (Pod δ)) : Except Failure (List PodInfo) :=
  match A.listError with
  | some e => .error (.plain ("list pods: " ++ e))
  | none => .ok ((pods.filter fun _ p ↦ p.isManaged).items.map fun e ↦ podToInfo clock e.1 e.2)

/-- A pod is looked up before it is looked at. -/
def getPod (pods : Dict Key (Pod δ)) (key : Key) : Except Failure (Pod δ) :=
  match pods.get? key with
  | none => .error (.wrapped "get pod" key.text (A.getError "pods" key))
  | some pod => if pod.isManaged then .ok pod else .error (.unmanaged "pod" key.text)

def describePod (clock : Clock) (pods : Dict Key (Pod δ)) (key : Key) : Except Failure PodInfo :=
  (getPod A pods key).map (podToInfo clock key)

def deletePod (pods : Dict Key (Pod δ)) (key : Key) : Except Failure Unit × Dict Key (Pod δ) :=
  match getPod A pods key with
  | .error f => (.error f, pods)
  | .ok pod =>
    match A.delete pod with
    | .error e => (.error (.plain e), pods)
    | .ok none => (.ok (), pods.del key)
    | .ok (some left) => (.ok (), pods.set key left)

/-- `strings.Split(s, "\n")`. -/
def splitNewlines (s : List UInt8) : List (List UInt8) := s.splitOn 10

/-- The lines of a log. A line that was not read in one piece comes out in two. -/
def podEntries (parseTime : List UInt8 → Option τ) (pod container : String)
    (pieces : List (List UInt8)) : List (PodLogEntry τ) :=
  pieces.flatMap fun piece ↦
    if piece = [] then []
    else (splitNewlines (trimNewlines piece)).map fun line ↦
      let parts := splitTimestamp parseTime line
      ⟨parts.1, pod, container, parts.2⟩

def podLogOptions (parseDuration : String → Option ℤ) (container : String) (follow : Bool)
    (since : String) (tail : ℤ) : PodLogOptions where
  container := container
  follow := follow
  timestamps := true
  tailLines := if 0 < tail then some tail else none
  sinceSeconds := if since = "" then none else parseDuration since

/-- `GetLogs` and `Stream`. -/
def Api.stream (pods : Dict Key (Pod δ)) (key : Key) (opts : PodLogOptions) :
    Except String (Reading (List UInt8)) :=
  match pods.get? key with
  | none => .error (A.getError "pods" key)
  | some pod => A.logs key pod opts

/-- The log of a pod, whoever it belongs to. -/
def streamPodLogs (parseTime : List UInt8 → Option τ) (parseDuration : String → Option ℤ)
    (pods : Dict Key (Pod δ)) (key : Key) (container : String) (follow : Bool) (since : String)
    (tail : ℤ) : List (PodLogEntry τ) × Option Failure :=
  readOut "pod logs" key.text
    (fun log ↦ (podEntries parseTime key.2 container log.pieces, log.broken.map .plain))
    (A.stream pods key (podLogOptions parseDuration container follow since tail))

/-- The events of a namespace that a selector picks, whatever they are about. -/
def podEvents (events : List PodEvent) (key : Key) : Except Failure (List PodEventInfo) :=
  match A.eventsError with
  | some e => .error (.wrapped "events for" key.text e)
  | none =>
    .ok ((events.filter fun e ↦
        e.nameSpace = key.1 && A.selects ("involvedObject.name=" ++ key.2) e).map fun e ↦
      ⟨e.type, e.reason, e.message, e.count, e.firstTimestamp, e.lastTimestamp, e.component⟩)

/-- A new annotation makes the pods of a deployment start again. -/
def rolloutRestart (clock : Clock) (deployments : Dict Key (Deployment δ)) (key : Key) :
    Except Failure Unit × Dict Key (Deployment δ) :=
  match deployments.get? key with
  | none =>
    (.error (.wrapped "get deployment" key.text (A.getError "deployments" key)), deployments)
  | some d =>
    if d.isManaged then
      match A.update { d with annotations := d.annotations.set "argus.restart-at" clock.stamp } with
      | .error e => (.error (.plain e), deployments)
      | .ok stored => (.ok (), deployments.set key stored)
    else (.error (.unmanaged "deployment" key.text), deployments)

end Kubernetes

end Argusd

end ArgusMcp
