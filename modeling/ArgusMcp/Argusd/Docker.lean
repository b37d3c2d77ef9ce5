import ArgusMcp.Library.Dict
import Mathlib.Algebra.Order.Ring.Int
import Mathlib.Data.List.TakeWhile
import Mathlib.Tactic.Common

/-!
# The Docker client of argusd

What belongs to Argus carries a label. The client asks Docker, of which only what it uses is here:
what a reference finds, what a command makes of a container, and what there is to read about one.
These are parameters (`Engine`), so nothing is assumed of how Docker does it, and what else it knows
about a container is of any type. Streams are given as a whole, to their end.
-/

namespace ArgusMcp

namespace Argusd

/-! ## Labels -/

abbrev Labels := Dict String String

def managed : String := "argus.managed"

def managedValue : String := "true"

def isManaged (labels : Labels) : Bool := labels.get? managed = some managedValue

/-! ## Errors -/

/-- An error, with its text. Some of them repeat what the request asked for. -/
structure Failure where
  text : String
  namesRef : Bool
  deriving DecidableEq

namespace Failure

/-- An error of Docker or Kubernetes as it is. -/
def plain (cause : String) : Failure := ⟨cause, false⟩

/-- What was tried, with what, and why it did not work. -/
def wrapped (what ref cause : String) : Failure := ⟨what ++ " " ++ ref ++ ": " ++ cause, true⟩

def unmanaged (what ref : String) : Failure := ⟨what ++ " " ++ ref ++ " is not Argus-managed", true⟩

/-- The text that repeats what the request asked for is left out. -/
def upToRef (f : Failure) : Failure := if f.namesRef then ⟨"", true⟩ else f

@[simp] theorem upToRef_plain (cause : String) : (plain cause).upToRef = plain cause := rfl

@[simp] theorem upToRef_wrapped (what ref cause : String) :
    (wrapped what ref cause).upToRef = ⟨"", true⟩ := rfl

@[simp] theorem upToRef_unmanaged (what ref : String) :
    (unmanaged what ref).upToRef = ⟨"", true⟩ := rfl

end Failure

/-! ## Docker -/

structure Port where
  privatePort : ℕ
  publicPort : ℕ
  type : String

/-- A container as Docker knows it, apart from its id. -/
structure Container (δ : Type) where
  names : List String
  image : String
  state : String
  status : String
  created : ℤ
  /-- The labels of the configuration, if there is one. -/
  config : Option Labels
  ports : List Port
  /-- What else there is. -/
  detail : δ

def Container.isManaged {δ : Type} (c : Container δ) : Bool := c.config.any Argusd.isManaged

/-- What Docker tells about something that happened. -/
structure DaemonEvent where
  type : String
  action : String
  actorId : String
  attributes : Labels
  time : ℤ
  timeNano : ℤ

/-- The label and the type that `StreamEvents` asks for. -/
def DaemonEvent.selected (e : DaemonEvent) : Bool := isManaged e.attributes && e.type = "container"

/-- What can be done to a container, with the seconds it is given to stop. -/
inductive Action where
  | start
  | stop (timeout : ℕ)
  | restart (timeout : ℕ)
  | remove (force : Bool)

structure LogsOptions where
  showStdout : Bool
  showStderr : Bool
  follow : Bool
  timestamps : Bool
  tail : String
  since : String

/-- What is read from a connection, in pieces, and the error at its end, if it is not just over. -/
structure Reading (α : Type) where
  pieces : List α
  broken : Option String

/-- What the client uses of Docker. -/
structure Engine (δ ρ : Type) where
  /-- The id of the container that a reference finds. -/
  resolve : Dict String (Container δ) → String → Option String
  /-- Why it finds none. -/
  reason : Dict String (Container δ) → String → String
  listError : Option String
  /-- What becomes of a container, which may be nothing. -/
  act : Action → Container δ → Except String (Option (Container δ))
  logs : Container δ → LogsOptions → Except String (Reading UInt8)
  stats : Container δ → Except String (Reading ρ)
  eventsError : Option String

/-- `ContainerInspect`. -/
def Engine.inspect {δ ρ : Type} (E : Engine δ ρ) (cs : Dict String (Container δ)) (ref : String) :
    Except String (String × Container δ) :=
  match (E.resolve cs ref).bind fun id ↦ (cs.get? id).map fun c ↦ (id, c) with
  | none => .error (E.reason cs ref)
  | some found => .ok found

/-- `safeShortID`, for ids, which are hexadecimal. -/
def safeShortId (id : String) : String := .ofList (id.toList.take 12)

structure PortBinding where
  container : ℕ
  host : ℕ
  protocol : String

structure ContainerInfo where
  id : String
  name : String
  image : String
  state : String
  status : String
  created : ℤ
  labels : Labels
  ports : List PortBinding

structure LogEntry (τ : Type) where
  /-- There is none if the line does not start with one. -/
  timestamp : Option τ
  isStderr : Bool
  message : List UInt8

structure EventInfo where
  type : String
  action : String
  actorId : String
  actor : Labels
  timestamp : ℤ × ℤ

section Docker

variable {δ ρ τ σ : Type} (E : Engine δ ρ)

/-- `strings.TrimPrefix(name, "/")`. -/
def trimSlash (name : String) : String :=
  match name.toList with
  | '/' :: rest => .ofList rest
  | _ => name

def containerInfo (id : String) (c : Container δ) : ContainerInfo where
  id := safeShortId id
  name := (c.names.head?.map trimSlash).getD ""
  image := c.image
  state := c.state
  status := c.status
  created := c.created
  labels := c.config.getD .empty
  ports := c.ports.map fun p ↦ ⟨p.privatePort, p.publicPort, p.type⟩

/-- Docker is asked for the containers with the label. -/
def listContainers (cs : Dict String (Container δ)) : Except Failure (List ContainerInfo) :=
  match E.listError with
  | some e => .error (.plain ("list containers: " ++ e))
  | none => .ok ((cs.filter fun _ c ↦ c.isManaged).items.map fun e ↦ containerInfo e.1 e.2)

def verifyManaged (cs : Dict String (Container δ)) (ref : String) : Except Failure Unit :=
  match E.inspect cs ref with
  | .error e => .error (.wrapped "inspect" ref e)
  | .ok found => if found.2.isManaged then .ok () else .error (.unmanaged "container" ref)

def inspectContainer (cs : Dict String (Container δ)) (ref : String) :
    Except Failure (String × Container δ) :=
  match E.inspect cs ref with
  | .error e => .error (.wrapped "inspect" ref e)
  | .ok found => if found.2.isManaged then .ok found else .error (.unmanaged "container" ref)

/-- What Docker does with a container, and what is left of the containers. -/
def Engine.run (a : Action) (cs : Dict String (Container δ)) (ref : String) :
    Except String Unit × Dict String (Container δ) :=
  match E.inspect cs ref with
  | .error e => (.error e, cs)
  | .ok found =>
    match E.act a found.2 with
    | .error e => (.error e, cs)
    | .ok none => (.ok (), cs.del found.1)
    | .ok (some c) => (.ok (), cs.set found.1 c)

/-- A container is looked at before something is done to it. -/
def control (a : Action) (cs : Dict String (Container δ)) (ref : String) :
    Except Failure Unit × Dict String (Container δ) :=
  match verifyManaged E cs ref with
  | .error f => (.error f, cs)
  | .ok () => ((E.run a cs ref).1.mapError .plain, (E.run a cs ref).2)

def startContainer := control E .start

def stopContainer (timeout : ℕ) := control E (.stop timeout)

def restartContainer (timeout : ℕ) := control E (.restart timeout)

def removeContainer := control E (.remove true)

/-- The timestamp in front of a line, and what comes after it. -/
def splitTimestamp (parseTime : List UInt8 → Option τ) (line : List UInt8) :
    Option τ × List UInt8 :=
  let first := line.takeWhile (· ≠ 32)
  if first ≠ [] ∧ first.length < line.length then
    match parseTime first with
    | some t => (some t, line.drop (first.length + 1))
    | none => (none, line)
  else (none, line)

/-- `strings.TrimRight(s, "\n")`. -/
def trimNewlines (s : List UInt8) : List UInt8 := (s.reverse.dropWhile (· = 10)).reverse

theorem exists_eq_trimNewlines_append (s : List UInt8) :
    ∃ n, s = trimNewlines s ++ List.replicate n 10 := by
  refine ⟨(s.reverse.takeWhile (· = 10)).length, ?_⟩
  have hall : ∀ b ∈ s.reverse.takeWhile (· = 10), b = 10 := by
    intro b hb
    simpa using List.mem_takeWhile_imp hb
  rw [trimNewlines, ← List.reverse_replicate, ← List.reverse_append,
    ← List.eq_replicate_of_mem hall, List.takeWhile_append_dropWhile, List.reverse_reverse]

theorem getLast?_trimNewlines (s : List UInt8) : (trimNewlines s).getLast? ≠ some 10 := by
  rw [trimNewlines, List.getLast?_reverse]
  intro h
  have hnot := List.head?_dropWhile_not (fun b ↦ decide (b = 10)) s.reverse
  rw [h] at hnot
  exact absurd rfl (of_decide_eq_false hnot)

/-- The error of a read that ends in the middle. -/
def shortRead (some? : Bool) (broken : Option String) : Failure :=
  .plain (broken.getD (if some? then "unexpected EOF" else "EOF"))

/-- Four bytes of a header, most significant first. -/
def frameSize (a b c d : UInt8) : ℕ := ((a.toNat * 256 + b.toNat) * 256 + c.toNat) * 256 + d.toNat

/-- The frames of a log: a header of eight bytes, with the stream and the size, and the payload. -/
def frames (parseTime : List UInt8 → Option τ) (broken : Option String) (bytes : List UInt8) :
    List (LogEntry τ) × Option Failure :=
  match bytes with
  | [] => ([], broken.map .plain)
  | stream :: _ :: _ :: _ :: a :: b :: c :: d :: rest =>
    if rest.length < frameSize a b c d then ([], some (shortRead (!rest.isEmpty) broken))
    else
      let line := splitTimestamp parseTime (trimNewlines (rest.take (frameSize a b c d)))
      let later := frames parseTime broken (rest.drop (frameSize a b c d))
      (⟨line.1, stream = 2, line.2⟩ :: later.1, later.2)
  | _ => ([], some (shortRead true broken))
termination_by bytes.length
decreasing_by
  rw [List.length_drop]
  dsimp only [List.length_cons]
  omega

def logsOptions (follow : Bool) (since tail : String) : LogsOptions where
  showStdout := true
  showStderr := true
  follow := follow
  timestamps := true
  tail := if tail = "" then "100" else tail
  since := since

/-- What comes out of a connection that was to be read from, or why there was none. -/
def readOut {α β : Type} (what ref : String) (reading : β → List α × Option Failure) :
    Except String β → List α × Option Failure
  | .error e => ([], some (.wrapped what ref e))
  | .ok b => reading b

/-- The log of a container, whoever it belongs to. -/
def streamLogs (parseTime : List UInt8 → Option τ) (cs : Dict String (Container δ)) (ref : String)
    (follow : Bool) (since tail : String) : List (LogEntry τ) × Option Failure :=
  readOut "logs" ref (fun log ↦ frames parseTime log.broken log.pieces)
    ((E.inspect cs ref).bind fun found ↦ E.logs found.2 (logsOptions follow since tail))

/-- Each snapshot is made from two that follow one another. -/
def snapshots (computeStats : String → ρ → ρ → σ) (id : String) : ρ → List ρ → List σ
  | _, [] => []
  | prev, cur :: rest => computeStats id cur prev :: snapshots computeStats id cur rest

def streamStats (computeStats : String → ρ → ρ → σ) (zero : ρ) (cs : Dict String (Container δ))
    (ref : String) : List σ × Option Failure :=
  readOut "stats" ref
    (fun raw ↦ (snapshots computeStats ref zero raw.pieces, raw.broken.map .plain))
    ((E.inspect cs ref).bind fun found ↦ E.stats found.2)

def streamEvents (events : List DaemonEvent) : List EventInfo × Option Failure :=
  ((events.filter DaemonEvent.selected).map fun e ↦
      ⟨e.type, e.action, safeShortId e.actorId, e.attributes, (e.time, e.timeNano)⟩,
    E.eventsError.map .plain)

end Docker

end Argusd

end ArgusMcp
