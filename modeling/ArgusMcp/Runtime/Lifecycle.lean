import ArgusMcp.Library.Run
import ArgusMcp.Runtime.Models
import ArgusMcp.Runtime.Service

/-!
# The lifecycle of the service

`start`, `stop` and `shutdown` of `runtime/service.py` move the service from state to state. Each of
them suspends, and while one is suspended the others may be called; `reload` and `reconnect_backend`
look at the state and leave it alone. States are changed through `_transition`, which raises where
the table has no move, and in two places by assignment. The ready event is set and cleared apart
from that.

An operation that is under way has nothing of its own that the others could see, so that the state
counts how many there are of each kind. A start that is refused by its first line, as its docstring
says, is not under way and leaves no trace. Kept for the statements are the state changes, and how
the starts ended.

## Main statements

* `sound_iff`: the service is sound throughout a run exactly if every start comes to its end while
  the state is still that of a start or a stop, and nothing fails once `RUNNING` has been entered;
  no start is cancelled; no stop ends, as the last operation, in a running service; and no shutdown
  runs out of time in a state from which `ERROR` cannot be reached.
* `lifecycle_of_step`: the operations of the service, taken one after the other, are runs of this
  machine.
-/

namespace ArgusMcp

namespace Runtime

/-- An exception that a sub-step raises. -/
structure Failure where
  type : String
  message : String
  deriving DecidableEq, Repr

/-- What an operation may raise. -/
inductive ServiceError where
  | failure (f : Failure)
  | invalidStateTransition (current target : ServiceState)
  | cancelled
  deriving DecidableEq, Repr

namespace ServiceError

/-- The name of the type and the message, as error messages have them. -/
def describe : ServiceError → String
  | failure f => f.type ++ ": " ++ f.message
  | invalidStateTransition current target =>
    "_InvalidStateTransition: Invalid state transition: " ++ current.value ++ " → " ++ target.value
  | cancelled => "CancelledError: "

end ServiceError

/-- How a start ended: what went wrong, what was raised, and the state and the ready event then. -/
structure StartEnd where
  cause : Option ServiceError
  raised : Option ServiceError
  state : ServiceState
  ready : Bool
  deriving DecidableEq, Repr

/-- The start has returned in `RUNNING` with the ready event set, or has raised what went wrong in
`ERROR` with the ready event cleared. -/
def StartEnd.Sound (r : StartEnd) : Prop :=
  (r.raised = none ∧ r.state = .running ∧ r.ready = true) ∨
    (r.raised ≠ none ∧ r.raised = r.cause ∧ r.state = .error ∧ r.ready = false)

/-- The state, the ready event, and the operations that are under way. -/
structure Lifecycle where
  state : ServiceState
  ready : Bool
  errorMessage : Option String
  starting : ℕ
  /-- The stops that are suspended, other than those of a shutdown. -/
  stopping : ℕ
  /-- The shutdowns whose stop is suspended. -/
  shuttingDown : ℕ
  changes : List (ServiceState × ServiceState)
  started : List StartEnd
  deriving DecidableEq, Repr

namespace Lifecycle

/-- A service that was never started. -/
def init : Lifecycle where
  state := .pending
  ready := false
  errorMessage := none
  starting := 0
  stopping := 0
  shuttingDown := 0
  changes := []
  started := []

section Operations

variable (s : Lifecycle)

def setState (target : ServiceState) : Lifecycle :=
  { s with
    state := target
    changes := if s.state = target then s.changes else s.changes ++ [(s.state, target)] }

/-- `_transition`: moves to the target if the move is valid, and raises otherwise. -/
def transition (target : ServiceState) : Except ServiceError Lifecycle :=
  if isValidTransition s.state target = true then .ok (s.setState target)
  else .error (.invalidStateTransition s.state target)

/-! ### start -/

/-- The first line of `start`, and on to where it first suspends. -/
def start : Except ServiceError Lifecycle :=
  (s.transition .starting).map fun s ↦ { s with errorMessage := none, starting := s.starting + 1 }

def endStart (cause raised : Option ServiceError) : Lifecycle :=
  { s with
    starting := s.starting - 1
    started := s.started ++ [⟨cause, raised, s.state, s.ready⟩] }

/-- The handler of `start`. The move to `ERROR` may raise itself. -/
def failStart (cause : ServiceError) : Lifecycle :=
  let s := { s with errorMessage := some cause.describe }
  match s.transition .error with
  | .ok s => { s with ready := false }.endStart (some cause) (some cause)
  | .error e => s.endStart (some cause) (some e)

/-- The last segment of `start`. What comes behind the move to `RUNNING`, the health checker and the
watcher, may still fail. -/
def finishStart (late : Option Failure) : Lifecycle :=
  match s.transition .running with
  | .error e => s.failStart e
  | .ok s =>
    let s := { s with ready := true }
    match late with
    | none => s.endStart none none
    | some f => s.failStart (.failure f)

/-! ### stop -/

/-- `stop` up to where it first suspends, unless there is nothing to stop or a stop is under way. A
service that is starting is put into `ERROR` first. -/
def beginStop : Option Lifecycle :=
  match s.state with
  | .running => (s.transition .stopping).toOption
  | .error => (s.transition .stopping).toOption
  | .starting => ((s.setState .error).transition .stopping).toOption
  | .stopped => none
  | .pending => none
  | .stopping => none

/-- How the sub-steps of a stop come out. -/
inductive StopEnd where
  | done
  | runtimeError
  | failed (f : Failure)
  | cancelled
  deriving DecidableEq, Repr

/-- The last handler of `stop`. -/
def failStop (cause : ServiceError) : Lifecycle :=
  let s := { s with errorMessage := some ("Shutdown error: " ++ cause.describe) }
  match s.transition .error with
  | .ok s => s
  | .error _ => s

/-- The rest of `stop`: a `RuntimeError` counts as done, and whatever happens, the ready event is
cleared. -/
def endStop (how : StopEnd) : Lifecycle :=
  let s := match how with
    | .done =>
      match s.transition .stopped with
      | .ok s => s
      | .error e => s.failStop e
    | .runtimeError =>
      match s.transition .stopped with
      | .ok s => s
      | .error _ => s
    | .failed f => s.failStop (.failure f)
    | .cancelled => s
  { s with ready := false }

/-- A shutdown that has run out of time forces `ERROR`. -/
def timeOut (timeoutSeconds : ℤ) : Lifecycle :=
  { s.setState .error with
    errorMessage := some ("Shutdown timed out after " ++ toString timeoutSeconds ++ "s") }

end Operations

/-! ## The runs -/

/-- What may happen between two points at which nobody runs. -/
inductive Event where
  | start
  | startFails (f : Failure)
  | startFinishes (late : Option Failure)
  | startCancelled
  | stop
  | stopEnds (how : StopEnd)
  | shutdown (timeoutSeconds : ℤ)
  | shutdownEnds (how : StopEnd)
  | shutdownTimesOut (timeoutSeconds : ℤ)
  | reload
  | reconnectBackend
  deriving DecidableEq, Repr

/-- One event, where it can happen. A start that is refused and a stop that has nothing to do change
nothing. With no time at all, a shutdown is out of time before its stop begins; otherwise the stop
is cancelled when the time is up. -/
def step (s : Lifecycle) : Event → Option Lifecycle
  | .start => some (s.start.toOption.getD s)
  | .startFails f => if s.starting = 0 then none else some (s.failStart (.failure f))
  | .startFinishes late => if s.starting = 0 then none else some (s.finishStart late)
  | .startCancelled =>
    if s.starting = 0 then none else some (s.endStart (some .cancelled) (some .cancelled))
  | .stop => some ((s.beginStop.map fun m ↦ { m with stopping := m.stopping + 1 }).getD s)
  | .stopEnds how =>
    if s.stopping = 0 then none else some { s.endStop how with stopping := s.stopping - 1 }
  | .shutdown timeoutSeconds =>
    if timeoutSeconds ≤ 0 then some (s.timeOut timeoutSeconds)
    else some ((s.beginStop.map fun m ↦ { m with shuttingDown := m.shuttingDown + 1 }).getD s)
  | .shutdownEnds how =>
    if s.shuttingDown = 0 then none
    else some { s.endStop how with shuttingDown := s.shuttingDown - 1 }
  | .shutdownTimesOut timeoutSeconds =>
    if s.shuttingDown = 0 then none
    else some { (s.endStop .cancelled).timeOut timeoutSeconds with
      shuttingDown := s.shuttingDown - 1 }
  | .reload => some s
  | .reconnectBackend => some s

/-! ## Soundness -/

/-- No operation is under way. -/
def Quiescent (s : Lifecycle) : Prop := s.starting = 0 ∧ s.stopping = 0 ∧ s.shuttingDown = 0

/-- The service has only moved along the table, is ready exactly when it is running if nothing is
under way, and all its starts have ended as they should. -/
structure Sound (s : Lifecycle) : Prop where
  changes : ∀ c ∈ s.changes, isValidTransition c.1 c.2 = true
  ready : s.Quiescent → (s.ready = true ↔ s.state = .running)
  started : ∀ r ∈ s.started, r.Sound

/-- **The condition.** A start that is under way fails or comes to its end while the state is that
of a start or a stop, and nothing fails behind the move to `RUNNING`; it is cancelled only in
`ERROR` with the ready event cleared. The last operation under way is not a stop that ends in
`RUNNING`. A shutdown runs out of time in `ERROR` or where `ERROR` may follow. -/
def Proper (s : Lifecycle) : Event → Prop
  | .startFails _ => s.starting ≠ 0 → s.state = .starting ∨ s.state = .stopping
  | .startFinishes late =>
    s.starting ≠ 0 → (s.state = .starting ∧ late = none) ∨ s.state = .stopping
  | .startCancelled => s.starting ≠ 0 → s.state = .error ∧ s.ready = false
  | .stopEnds _ =>
    s.starting = 0 ∧ s.stopping = 1 ∧ s.shuttingDown = 0 → s.state ≠ .running
  | .shutdown timeoutSeconds =>
    timeoutSeconds ≤ 0 → s.state = .starting ∨ s.state = .stopping ∨ s.state = .error
  | .shutdownEnds _ =>
    s.starting = 0 ∧ s.stopping = 0 ∧ s.shuttingDown = 1 → s.state ≠ .running
  | .shutdownTimesOut _ =>
    s.shuttingDown ≠ 0 → s.state = .starting ∨ s.state = .stopping ∨ s.state = .error
  | _ => True

/-! ## State changes -/

section Changes

variable {s m : Lifecycle} {target : ServiceState}

/-- All state changes so far are moves of the table. -/
def ValidChanges (s : Lifecycle) : Prop := ∀ c ∈ s.changes, isValidTransition c.1 c.2 = true

theorem transition_of_valid (h : isValidTransition s.state target = true) :
    s.transition target = .ok (s.setState target) := if_pos h

theorem transition_of_not_valid (h : ¬isValidTransition s.state target = true) :
    s.transition target = .error (.invalidStateTransition s.state target) := if_neg h

theorem validChanges_setState (h : s.ValidChanges) :
    (s.setState target).ValidChanges
      ↔ s.state = target ∨ isValidTransition s.state target = true := by
  rw [ValidChanges, setState]
  dsimp only
  by_cases hsame : s.state = target
  · rw [if_pos hsame]
    exact iff_of_true h (Or.inl hsame)
  · rw [if_neg hsame, List.forall_mem_append, List.forall_mem_singleton]
    constructor
    · rintro ⟨-, hvalid⟩
      exact Or.inr hvalid
    · intro hor
      exact ⟨h, hor.resolve_left hsame⟩

theorem valid_error_iff {state : ServiceState} :
    isValidTransition state .error = true ↔ state = .starting ∨ state = .stopping := by
  cases state <;> decide

theorem valid_running_iff {state : ServiceState} :
    isValidTransition state .running = true ↔ state = .starting := by
  cases state <;> decide

end Changes

/-! ## Starts -/

section Starts

variable {s : Lifecycle}

theorem Sound.start (h : s.Sound) : (s.start.toOption.getD s).Sound := by
  by_cases hvalid : isValidTransition s.state .starting = true
  · have hstart : s.start = .ok { s.setState .starting with
        errorMessage := none
        starting := s.starting + 1 } := by
      rw [Lifecycle.start, transition_of_valid hvalid]
      rfl
    rw [hstart]
    refine ⟨(validChanges_setState h.changes).mpr (Or.inr hvalid), ?_, h.started⟩
    rintro ⟨hzero, -⟩
    exact absurd hzero (Nat.succ_ne_zero _)
  · have hstart : s.start = .error (.invalidStateTransition s.state .starting) := by
      rw [Lifecycle.start, transition_of_not_valid hvalid]
      rfl
    rw [hstart]
    exact h

/-- The handler of a start does its work exactly where `ERROR` may follow. -/
theorem sound_failStart_iff (hchanges : s.ValidChanges) (hstarted : ∀ r ∈ s.started, r.Sound)
    (cause : ServiceError) (hcause : cause ≠ .invalidStateTransition s.state .error) :
    (s.failStart cause).Sound ↔ s.state = .starting ∨ s.state = .stopping := by
  rw [← valid_error_iff]
  by_cases hvalid : isValidTransition s.state .error = true
  · have hfail : s.failStart cause
        = { { s with errorMessage := some cause.describe }.setState .error with
            ready := false }.endStart (some cause) (some cause) := by
      rw [failStart,
        transition_of_valid (s := { s with errorMessage := some cause.describe }) hvalid]
    rw [hfail]
    refine iff_of_true ⟨?_, ?_, ?_⟩ hvalid
    · exact (validChanges_setState (s := { s with errorMessage := some cause.describe })
        hchanges).mpr (Or.inr hvalid)
    · intro _
      exact iff_of_false Bool.false_ne_true (by simp [endStart, setState])
    · rintro r hr
      obtain hr | hr := List.mem_append.mp hr
      · exact hstarted r hr
      · rw [List.mem_singleton.mp hr]
        exact Or.inr ⟨Option.some_ne_none _, rfl, rfl, rfl⟩
  · have hfail : s.failStart cause = { s with errorMessage := some cause.describe }.endStart
        (some cause) (some (.invalidStateTransition s.state .error)) := by
      rw [failStart,
        transition_of_not_valid (s := { s with errorMessage := some cause.describe }) hvalid]
    rw [hfail]
    -- the handler raises in its turn, and this is what the start ends with
    refine iff_of_false (fun h ↦ ?_) hvalid
    obtain ⟨hraised, -⟩ | ⟨-, hraised, -⟩ := h.started _
      (List.mem_append_right _ (List.mem_singleton_self _))
    · exact absurd hraised (Option.some_ne_none _)
    · exact hcause (Option.some.inj hraised).symm

theorem sound_finishStart_iff (h : s.Sound) {late : Option Failure} :
    (s.finishStart late).Sound ↔ (s.state = .starting ∧ late = none) ∨ s.state = .stopping := by
  by_cases hvalid : isValidTransition s.state .running = true
  · have hstate := valid_running_iff.mp hvalid
    have hchanges : ({ s.setState .running with ready := true } : Lifecycle).ValidChanges :=
      (validChanges_setState h.changes).mpr (Or.inr hvalid)
    rw [finishStart, transition_of_valid hvalid]
    cases late with
    | none =>
      refine iff_of_true ⟨hchanges, fun _ ↦ iff_of_true rfl rfl, ?_⟩ (Or.inl ⟨hstate, rfl⟩)
      rintro r hr
      obtain hr | hr := List.mem_append.mp hr
      · exact h.started r hr
      · rw [List.mem_singleton.mp hr]
        exact Or.inl ⟨rfl, rfl, rfl⟩
    | some f =>
      -- behind the move to `RUNNING`, the handler cannot move on to `ERROR`
      have hiff := sound_failStart_iff (s := { s.setState .running with ready := true }) hchanges
        h.started (.failure f) ServiceError.noConfusion
      refine hiff.trans (iff_of_false ?_ ?_)
      · rintro (hrunning | hrunning) <;> exact ServiceState.noConfusion hrunning
      · rintro (⟨-, hnone⟩ | hstopping)
        · exact Option.some_ne_none f hnone
        · exact ServiceState.noConfusion (hstate.symm.trans hstopping)
  · have hne : s.state ≠ .starting := fun hstate ↦ hvalid (valid_running_iff.mpr hstate)
    rw [finishStart, transition_of_not_valid hvalid]
    refine (sound_failStart_iff h.changes h.started _ (by simp)).trans ?_
    constructor
    · rintro (hstate | hstate)
      · exact absurd hstate hne
      · exact Or.inr hstate
    · rintro (⟨hstate, -⟩ | hstate)
      · exact absurd hstate hne
      · exact Or.inr hstate

theorem sound_startCancelled_iff (h : s.Sound) :
    (s.endStart (some .cancelled) (some .cancelled)).Sound
      ↔ s.state = .error ∧ s.ready = false := by
  constructor
  · intro hend
    obtain ⟨hraised, -⟩ | ⟨-, -, hstate, hready⟩ := hend.started _
      (List.mem_append_right _ (List.mem_singleton_self _))
    · exact absurd hraised (Option.some_ne_none _)
    · exact ⟨hstate, hready⟩
  · rintro ⟨hstate, hready⟩
    refine ⟨h.changes, ?_, ?_⟩
    · intro _
      change s.ready = true ↔ s.state = .running
      rw [hstate, hready]
      decide
    · rintro r hr
      obtain hr | hr := List.mem_append.mp hr
      · exact h.started r hr
      · rw [List.mem_singleton.mp hr]
        exact Or.inr ⟨Option.some_ne_none _, rfl, hstate, hready⟩

end Starts

/-! ## Stops -/

section Stops

variable {s m : Lifecycle}

theorem Sound.beginStop (h : s.Sound) (hm : s.beginStop = some m) :
    m.ValidChanges ∧ (∀ r ∈ m.started, r.Sound) ∧ m.stopping = s.stopping ∧
      m.shuttingDown = s.shuttingDown := by
  rw [Lifecycle.beginStop] at hm
  cases hstate : s.state with
  | running | error =>
    have hvalid : isValidTransition s.state .stopping = true := by
      rw [hstate]
      decide
    rw [hstate] at hm
    dsimp only at hm
    rw [transition_of_valid hvalid] at hm
    obtain rfl := Option.some.inj hm
    exact ⟨(validChanges_setState h.changes).mpr (Or.inr hvalid), h.started, rfl, rfl⟩
  | starting =>
    have hvalid : isValidTransition s.state .error = true := by
      rw [hstate]
      decide
    -- a stop during a start forces `ERROR` first, and from there the table goes on
    have hforced : (s.setState .error).ValidChanges :=
      (validChanges_setState h.changes).mpr (Or.inr hvalid)
    have hmove : isValidTransition (s.setState .error).state .stopping = true := rfl
    rw [hstate] at hm
    dsimp only at hm
    rw [transition_of_valid hmove] at hm
    obtain rfl := Option.some.inj hm
    exact ⟨(validChanges_setState hforced).mpr (Or.inr hmove), h.started, rfl, rfl⟩
  | stopped | pending | stopping =>
    rw [hstate] at hm
    exact absurd hm (Option.some_ne_none m).symm

theorem Sound.stop (h : s.Sound) :
    ((s.beginStop.map fun m ↦ { m with stopping := m.stopping + 1 }).getD s).Sound := by
  cases hm : s.beginStop with
  | none => exact h
  | some m =>
    obtain ⟨hchanges, hstarted, -⟩ := h.beginStop hm
    refine ⟨hchanges, ?_, hstarted⟩
    rintro ⟨-, hzero, -⟩
    exact absurd hzero (Nat.succ_ne_zero _)

theorem Sound.shutdown (h : s.Sound) :
    ((s.beginStop.map fun m ↦ { m with shuttingDown := m.shuttingDown + 1 }).getD s).Sound := by
  cases hm : s.beginStop with
  | none => exact h
  | some m =>
    obtain ⟨hchanges, hstarted, -⟩ := h.beginStop hm
    refine ⟨hchanges, ?_, hstarted⟩
    rintro ⟨-, -, hzero⟩
    exact absurd hzero (Nat.succ_ne_zero _)

/-- What the end of a stop does to the rest: it moves along the table or not at all, neither into
`RUNNING` nor out of it, and the other operations stay as they are. -/
structure Ends (s m : Lifecycle) : Prop where
  changes : s.ValidChanges → m.ValidChanges
  running : m.state = .running ↔ s.state = .running
  started : m.started = s.started
  starting : m.starting = s.starting
  stopping : m.stopping = s.stopping
  shuttingDown : m.shuttingDown = s.shuttingDown

theorem Ends.refl (s : Lifecycle) : Ends s s := ⟨id, Iff.rfl, rfl, rfl, rfl, rfl⟩

/-- A transition that is taken, to where no running service can go and which is not running. -/
theorem ends_setState {target : ServiceState} (hvalid : isValidTransition s.state target = true)
    (hfrom : isValidTransition .running target = false) (hto : target ≠ .running) :
    Ends s (s.setState target) := by
  refine ⟨fun h ↦ (validChanges_setState h).mpr (Or.inr hvalid), ?_, rfl, rfl, rfl, rfl⟩
  refine iff_of_false hto fun hrunning ↦ ?_
  rw [hrunning, hfrom] at hvalid
  exact Bool.false_ne_true hvalid

theorem ends_failStop (s : Lifecycle) (cause : ServiceError) : Ends s (s.failStop cause) := by
  rw [failStop]
  by_cases hvalid : isValidTransition s.state .error = true
  · rw [transition_of_valid
      (s := { s with errorMessage := some ("Shutdown error: " ++ cause.describe) }) hvalid]
    obtain ⟨hchanges, hrunning, -⟩ := ends_setState hvalid (by decide) (by decide)
    exact ⟨hchanges, hrunning, rfl, rfl, rfl, rfl⟩
  · rw [transition_of_not_valid
      (s := { s with errorMessage := some ("Shutdown error: " ++ cause.describe) }) hvalid]
    exact ⟨id, Iff.rfl, rfl, rfl, rfl, rfl⟩

theorem ends_endStop (s : Lifecycle) (how : StopEnd) : Ends s (s.endStop how) := by
  have hclear : ∀ m, Ends s m → Ends s { m with ready := false } := by
    intro m hm
    exact ⟨hm.changes, hm.running, hm.started, hm.starting, hm.stopping, hm.shuttingDown⟩
  refine hclear _ ?_
  cases how with
  | done =>
    by_cases hvalid : isValidTransition s.state .stopped = true
    · rw [transition_of_valid hvalid]
      exact ends_setState hvalid (by decide) (by decide)
    · rw [transition_of_not_valid hvalid]
      exact ends_failStop s _
  | runtimeError =>
    by_cases hvalid : isValidTransition s.state .stopped = true
    · rw [transition_of_valid hvalid]
      exact ends_setState hvalid (by decide) (by decide)
    · rw [transition_of_not_valid hvalid]
      exact .refl s
  | failed f => exact ends_failStop s _
  | cancelled => exact .refl s

/-- Where a stop has ended, with one operation less under way, the service is sound unless it runs
with nothing under way. -/
theorem sound_endStop_iff (h : s.Sound) (how : StopEnd) {stopping shuttingDown : ℕ} :
    Sound { s.endStop how with stopping := stopping, shuttingDown := shuttingDown }
      ↔ (s.starting = 0 ∧ stopping = 0 ∧ shuttingDown = 0 → s.state ≠ .running) := by
  have hends := ends_endStop s how
  constructor
  · -- the ready event is cleared in any case, so the service may not run on
    intro hend hquiescent hrunning
    have hready := hend.ready ⟨hends.starting.trans hquiescent.1, hquiescent.2⟩
    exact Bool.false_ne_true (hready.mpr (hends.running.mpr hrunning))
  · intro hne
    refine ⟨hends.changes h.changes, ?_, ?_⟩
    · rintro ⟨hstarting, hrest⟩
      refine iff_of_false Bool.false_ne_true fun hrunning ↦ ?_
      exact hne ⟨hends.starting.symm.trans hstarting, hrest⟩ (hends.running.mp hrunning)
    · change ∀ r ∈ (s.endStop how).started, r.Sound
      rw [hends.started]
      exact h.started

/-- Running out of time forces `ERROR`, which may follow the state or be it. -/
theorem sound_timeOut_iff (hchanges : s.ValidChanges) (hstarted : ∀ r ∈ s.started, r.Sound)
    (hready : s.Quiescent → s.state = .starting ∨ s.state = .stopping ∨ s.state = .error →
      s.ready = false) (timeoutSeconds : ℤ) :
    (s.timeOut timeoutSeconds).Sound
      ↔ s.state = .starting ∨ s.state = .stopping ∨ s.state = .error := by
  have hvalid : (s.setState .error).ValidChanges
      ↔ s.state = .starting ∨ s.state = .stopping ∨ s.state = .error := by
    rw [validChanges_setState hchanges, valid_error_iff, or_comm, or_assoc]
  constructor
  · intro h
    exact hvalid.mp h.changes
  · intro hstate
    refine ⟨hvalid.mpr hstate, fun hquiescent ↦ ?_, hstarted⟩
    change s.ready = true ↔ ServiceState.error = .running
    rw [hready hquiescent hstate]
    decide

end Stops

/-! ## Runs -/

section Runs

variable {s m : Lifecycle} {e : Event}

/-- **One event.** It leaves a sound service sound exactly if it meets the condition. -/
theorem Sound.step_iff (h : s.Sound) (hm : s.step e = some m) : m.Sound ↔ s.Proper e := by
  cases e with
  | start =>
    obtain rfl := Option.some.inj hm
    exact iff_of_true h.start trivial
  | startFails f =>
    obtain ⟨hstarting, hm⟩ := Option.ite_none_left_eq_some.mp hm
    obtain rfl := Option.some.inj hm
    rw [sound_failStart_iff h.changes h.started _ ServiceError.noConfusion]
    exact ⟨fun hstate _ ↦ hstate, fun hproper ↦ hproper hstarting⟩
  | startFinishes late =>
    obtain ⟨hstarting, hm⟩ := Option.ite_none_left_eq_some.mp hm
    obtain rfl := Option.some.inj hm
    rw [sound_finishStart_iff h]
    exact ⟨fun hstate _ ↦ hstate, fun hproper ↦ hproper hstarting⟩
  | startCancelled =>
    obtain ⟨hstarting, hm⟩ := Option.ite_none_left_eq_some.mp hm
    obtain rfl := Option.some.inj hm
    rw [sound_startCancelled_iff h]
    exact ⟨fun hstate _ ↦ hstate, fun hproper ↦ hproper hstarting⟩
  | stop =>
    obtain rfl := Option.some.inj hm
    exact iff_of_true h.stop trivial
  | stopEnds how =>
    obtain ⟨hstopping, hm⟩ := Option.ite_none_left_eq_some.mp hm
    obtain rfl := Option.some.inj hm
    have hends := ends_endStop s how
    -- the last stop is the one that leaves none under way
    have hone : s.stopping - 1 = 0 ↔ s.stopping = 1 := by omega
    rw [Proper, ← hone, ← hends.shuttingDown]
    exact sound_endStop_iff h how
  | shutdown timeoutSeconds =>
    by_cases htime : timeoutSeconds ≤ 0
    · have hs : s.step (.shutdown timeoutSeconds) = some (s.timeOut timeoutSeconds) := if_pos htime
      obtain rfl := Option.some.inj (hs.symm.trans hm)
      have hready : s.Quiescent → s.state = .starting ∨ s.state = .stopping ∨ s.state = .error →
          s.ready = false := by
        intro hquiescent hstate
        rw [Bool.eq_false_iff, Ne, h.ready hquiescent]
        rintro hrunning
        rw [hrunning] at hstate
        exact absurd hstate (by decide)
      rw [sound_timeOut_iff h.changes h.started hready]
      exact ⟨fun hstate _ ↦ hstate, fun hproper ↦ hproper htime⟩
    · have hs : s.step (.shutdown timeoutSeconds) = some ((s.beginStop.map fun m ↦
          { m with shuttingDown := m.shuttingDown + 1 }).getD s) := if_neg htime
      obtain rfl := Option.some.inj (hs.symm.trans hm)
      exact iff_of_true h.shutdown fun hle ↦ absurd hle htime
  | shutdownEnds how =>
    obtain ⟨hshutting, hm⟩ := Option.ite_none_left_eq_some.mp hm
    obtain rfl := Option.some.inj hm
    have hends := ends_endStop s how
    have hone : s.shuttingDown - 1 = 0 ↔ s.shuttingDown = 1 := by omega
    rw [Proper, ← hone, ← hends.stopping]
    exact sound_endStop_iff h how
  | shutdownTimesOut timeoutSeconds =>
    obtain ⟨hshutting, hm⟩ := Option.ite_none_left_eq_some.mp hm
    obtain rfl := Option.some.inj hm
    -- the stop that is cancelled has cleared the ready event
    have hiff := sound_timeOut_iff
      (s := { s.endStop .cancelled with shuttingDown := s.shuttingDown - 1 })
      h.changes h.started (fun _ _ ↦ rfl) timeoutSeconds
    exact hiff.trans ⟨fun hstate _ ↦ hstate, fun hproper ↦ hproper hshutting⟩
  | reload | reconnectBackend =>
    obtain rfl := Option.some.inj hm
    exact iff_of_true h trivial

theorem Sound.proper_of_none (hm : s.step e = none) : s.Proper e := by
  cases e with
  | start | stop | reload | reconnectBackend => trivial
  | startFails f | startFinishes late | startCancelled | shutdownTimesOut timeoutSeconds =>
    intro hne
    exact absurd hm (by simp [step, hne])
  | stopEnds how | shutdownEnds how =>
    rintro ⟨-, hstopping, hshutting⟩
    exact absurd hm (by simp [step, hstopping, hshutting])
  | shutdown timeoutSeconds =>
    intro htime
    exact absurd hm (by simp [step, htime])

theorem sound_init : init.Sound := by
  refine ⟨?_, fun _ ↦ ?_, ?_⟩
  · intro c hc
    exact absurd hc List.not_mem_nil
  · exact iff_of_false Bool.false_ne_true ServiceState.noConfusion
  · intro r hr
    exact absurd hr List.not_mem_nil

/-- **The lifecycle of the service.** In every state that a run comes to, the service has only moved
along the table, is ready exactly when it is running if nothing is under way, and all starts have
ended as they should, if and only if every event of the run meets the condition. -/
theorem sound_iff (events : List Event) :
    (∀ pre m, pre <+: events → Run.run step init pre = some m → m.Sound)
      ↔ Run.Guarded step Proper init events := by
  refine @Run.forall_reached_iff_guarded _ _ step Proper (fun _ ↦ True) Sound ?_ ?_ events init
    trivial sound_init
  · intro s e m _ h hm
    exact ⟨trivial, h.step_iff hm⟩
  · intro s e _ _ hm
    exact Sound.proper_of_none hm

/-- A stop comes to its end while a start is suspended: the move to `RUNNING` is refused then, and so
is the one to `ERROR`, so that `start` raises an error of the transition table in `STOPPED`. -/
theorem not_sound_stoppedStart :
    ¬∀ (events : List Event) (m : Lifecycle), Run.run step init events = some m → m.Sound := by
  intro h
  have hsound := h [.start, .stop, .stopEnds .done, .startFinishes none] _ rfl
  obtain ⟨hraised, -⟩ | ⟨-, -, hstate, -⟩ := hsound.started _ (List.mem_singleton_self _)
  · exact absurd hraised (by decide)
  · exact absurd hstate (by decide)

end Runs

/-! ## The operations of the service -/

section Service

variable {V : Type*} [DecidableEq V] {s m : Service V}

theorem state_reload {file : Option (Config V)} {rules : RulesRead} {connected : List String}
    {d : Discovery} (h : s.reload file rules connected d = some m) : m.state = s.state := by
  unfold Service.reload at h
  split at h
  · exact Option.some.inj h ▸ rfl
  · split at h
    · exact Option.some.inj h ▸ rfl
    · dsimp only at h
      split at h
      · exact Option.some.inj h ▸ rfl
      · split at h
        · exact Option.some.inj h ▸ rfl
        · obtain ⟨r, -, rfl⟩ := Option.map_eq_some_iff.mp h
          rfl

omit [DecidableEq V] in
theorem state_reconnectBackend {name : String} {outcome : Reconnect}
    (h : s.reconnectBackend name outcome = some m) : m.state = s.state := by
  unfold Service.reconnectBackend at h
  split at h
  · exact Option.some.inj h ▸ rfl
  · split at h
    · exact Option.some.inj h ▸ rfl
    · dsimp only at h
      split at h
      · exact Option.some.inj h ▸ rfl
      · split at h
        · exact Option.some.inj h ▸ rfl
        · obtain ⟨r, -, rfl⟩ := Option.map_eq_some_iff.mp h
          rfl
      · obtain ⟨r, -, rfl⟩ := Option.map_eq_some_iff.mp h
        rfl

omit [DecidableEq V] in
/-- A start that is let in ends in `RUNNING` or in `ERROR`. -/
theorem state_start {file : Option (Config V)} {rules : RulesRead} {connected : List String}
    {d : Discovery} (h : s.start file rules connected d = some m)
    (hvalid : isValidTransition s.state .starting = true) :
    m.state = .running ∨ m.state = .error := by
  unfold Service.start at h
  rw [if_neg (by simp [hvalid])] at h
  split at h
  · exact Or.inr (Option.some.inj h ▸ rfl)
  · split at h
    · exact Or.inr (Option.some.inj h ▸ rfl)
    · dsimp only at h
      split at h
      · exact Or.inr (Option.some.inj h ▸ rfl)
      · obtain ⟨r, -, rfl⟩ := Option.map_eq_some_iff.mp h
        exact Or.inl rfl

/-- **Refinement.** An operation of the service that is not interrupted is a run of the lifecycle
machine, whatever else is under way. -/
theorem lifecycle_of_step {op : Op V} (h : s.step op = some m) {l : Lifecycle}
    (hl : l.state = s.state) :
    ∃ events l', Run.run step l events = some l' ∧ l'.state = m.state := by
  cases op with
  | start file rules connected d =>
    by_cases hvalid : isValidTransition s.state .starting = true
    · have hvalid' : isValidTransition l.state .starting = true := hl ▸ hvalid
      have hstart : l.step .start = some { l.setState .starting with
          errorMessage := none
          starting := l.starting + 1 } := by
        rw [Lifecycle.step, Lifecycle.start, transition_of_valid hvalid']
        rfl
      -- a start that is let in is two events, the call and its end
      obtain hrunning | herror := state_start h hvalid
      · exact ⟨[.start, .startFinishes none], _, Run.run_cons_eq_some.mpr ⟨_, hstart, rfl⟩,
          hrunning.symm⟩
      · exact ⟨[.start, .startFails ⟨"BackendServerError", ""⟩], _,
          Run.run_cons_eq_some.mpr ⟨_, hstart, rfl⟩, herror.symm⟩
    · have hrefused : s.step (.start file rules connected d) = some s :=
        if_pos (eq_false_of_ne_true hvalid)
      obtain rfl := Option.some.inj (hrefused.symm.trans h)
      exact ⟨[], l, rfl, hl⟩
  | attach chainBuilt =>
    obtain rfl := Option.some.inj h
    exact ⟨[], l, rfl, hl⟩
  | reload file rules connected d =>
    exact ⟨[.reload], l, rfl, hl.trans (state_reload h).symm⟩
  | reconnectBackend name outcome =>
    exact ⟨[.reconnectBackend], l, rfl, hl.trans (state_reconnectBackend h).symm⟩

end Service

end Lifecycle

end Runtime

end ArgusMcp
