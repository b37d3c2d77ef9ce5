import ArgusMcp.Library.Dict

/-!
# The states of the service and the phases of a backend

`runtime/models.py` has two transition tables, one for the service and one for each backend. A
backend has a *record* with its phase and a log of conditions; the phase moves only along the
table, and a move that the table does not have raises.

Of a condition the time stamp is left out, and of a record the three counts, which nothing here
reads.
-/

namespace ArgusMcp

/-! ## The service -/

inductive ServiceState where
  | pending
  | starting
  | running
  | stopping
  | stopped
  | error
  deriving DecidableEq, Repr

def ServiceState.value : ServiceState → String
  | pending => "pending"
  | starting => "starting"
  | running => "running"
  | stopping => "stopping"
  | stopped => "stopped"
  | error => "error"

def validTransitions : ServiceState → List ServiceState
  | .pending => [.starting]
  | .starting => [.running, .error]
  | .running => [.stopping]
  | .stopping => [.stopped, .error]
  | .stopped => []
  | .error => [.starting, .stopping]

def isValidTransition (current target : ServiceState) : Bool :=
  decide (target ∈ validTransitions current)

/-! ## A backend -/

/-- Lifecycle phases for individual backend servers. -/
inductive BackendPhase where
  | pending
  | initializing
  | retrying
  | ready
  | degraded
  | failed
  | shuttingDown
  deriving DecidableEq, Repr

namespace BackendPhase

def value : BackendPhase → String
  | pending => "pending"
  | initializing => "initializing"
  | retrying => "retrying"
  | ready => "ready"
  | degraded => "degraded"
  | failed => "failed"
  | shuttingDown => "shutting_down"

end BackendPhase

def backendTransitions : BackendPhase → List BackendPhase
  | .pending => [.initializing]
  | .initializing => [.ready, .failed]
  | .retrying => [.initializing, .failed]
  | .ready => [.degraded, .failed, .shuttingDown]
  | .degraded => [.ready, .failed, .shuttingDown]
  | .failed => [.initializing, .retrying, .shuttingDown]
  | .shuttingDown => []

def isValidBackendTransition (current target : BackendPhase) : Bool :=
  decide (target ∈ backendTransitions current)

structure BackendCondition where
  type : String
  status : String
  message : String
  deriving DecidableEq, Repr

/-- Lifecycle status for a single backend server. -/
structure BackendStatusRecord (T : Type*) where
  name : String
  phase : BackendPhase
  lastLatencyMs : Option T
  error : Option String
  conditions : List BackendCondition

namespace BackendStatusRecord

variable {T : Type*}

def new (name : String) : BackendStatusRecord T where
  name := name
  phase := .pending
  lastLatencyMs := none
  error := none
  conditions := []

/-- Appends a condition without changing the phase. -/
def addCondition (record : BackendStatusRecord T) (condType status message : String) :
    BackendStatusRecord T :=
  { record with conditions := record.conditions ++ [⟨condType, status, message⟩] }

/-- The status of the condition that a new phase adds. -/
def statusOf : BackendPhase → String
  | .ready => "OK"
  | .degraded => "Warning"
  | .initializing => "Warning"
  | .shuttingDown => "Warning"
  | _ => "Error"

/-- Moves to a new phase and appends a condition, or raises `ValueError`. -/
def transition (record : BackendStatusRecord T) (newPhase : BackendPhase) (message : String) :
    Except String (BackendStatusRecord T) :=
  if isValidBackendTransition record.phase newPhase = false then
    .error ("Invalid backend transition: " ++ record.phase.value ++ " → " ++ newPhase.value)
  else
    .ok { (record.addCondition newPhase.value (statusOf newPhase) message) with
      phase := newPhase
      error :=
        if newPhase = .failed ∧ message ≠ "" then some message
        else if newPhase = .ready then none
        else record.error }

/-- `transition` where the caller drops the exception. -/
def tryTransition (record : BackendStatusRecord T) (newPhase : BackendPhase) (message : String) :
    BackendStatusRecord T :=
  match record.transition newPhase message with
  | .ok record' => record'
  | .error _ => record

/-- The backend is ready or degraded. -/
def isOperational (record : BackendStatusRecord T) : Bool :=
  record.phase = .ready || record.phase = .degraded

theorem phase_tryTransition (record : BackendStatusRecord T) (newPhase : BackendPhase)
    (message : String) : (record.tryTransition newPhase message).phase
      = if isValidBackendTransition record.phase newPhase = true then newPhase
        else record.phase := by
  rw [tryTransition, transition]
  by_cases hvalid : isValidBackendTransition record.phase newPhase = true
  · rw [if_neg (by simp [hvalid]), if_pos hvalid]
  · rw [if_pos (eq_false_of_ne_true hvalid), if_neg hvalid]

end BackendStatusRecord

end ArgusMcp
