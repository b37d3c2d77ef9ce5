import ArgusMcp.Bridge.CircuitBreaker
import ArgusMcp.Bridge.Registry
import ArgusMcp.Runtime.Models

/-!
# Health checks

The checker of `bridge/health/checker.py` asks each backend for its tools from time to time. Each
answer moves three things: the health of the backend, its circuit breaker, and through these two
what the registry shows of it and the phase that its record reports.

A check waits for the answer of the backend, and everything else can happen meanwhile. So it is two
steps here, one up to the wait and one from there on, and between them come the steps of other
checks, of the client manager that connects and disconnects backends (`client_manager.py`,
`backend_connection.py`, `startup_coordinator.py`), of an operator who resets a backend, and of the
tasks that list its capabilities again. A check ends without waiting if the breaker is open, or if
there is no session.

## The phase of a record

The checker tells the record of a backend what it found, and the record takes it if its transition
table has the move. From `FAILED` the table leads only through a new connection, so a backend that
recovers by itself stays `FAILED` for whoever reads the record.

## Ghost data

The state remembers how the last completed check of each backend ended, and what a backend that was
hidden has listed since. No definition branches on either.
-/

namespace ArgusMcp

open Breaker

namespace Health

/-! ## Health -/

/-- Observed health of a backend. -/
inductive HealthState where
  | healthy
  | degraded
  | unhealthy
  | unknown
  deriving DecidableEq, Repr

structure BackendHealth (T : Type*) where
  state : HealthState
  circuit : CircuitBreaker T
  lastCheck : T
  lastLatencyMs : T
  lastError : Option String

/-- What the checker is constructed with, and how a latency is printed. -/
structure CheckerConfig (T : Type*) where
  failureThreshold : ℕ
  cooldown : WithTop T
  degradedLatencyMs : T
  printMs : T → String

variable {T : Type*} [AddCommGroup T] [LinearOrder T]

def BackendHealth.new (cfg : CheckerConfig T) : BackendHealth T where
  state := .unknown
  circuit := .new cfg.failureThreshold cfg.cooldown
  lastCheck := 0
  lastLatencyMs := 0
  lastError := none

/-- The health after a probe that was answered at the first reading of the clock, or raised. The
breaker is told, and asked again after a failure. -/
def BackendHealth.probed (cfg : CheckerConfig T) (health : BackendHealth T) (start : T)
    (clock : ℕ → T) : Except String Unit → BackendHealth T
  | .ok () =>
    let latencyMs := 1000 • (clock 0 - start)
    { state := if cfg.degradedLatencyMs < latencyMs then .degraded else .healthy
      circuit := health.circuit.recordSuccess (clock 1)
      lastCheck := clock 2
      lastLatencyMs := latencyMs
      lastError := none }
  | .error e =>
    let circuit := (health.circuit.recordFailure (clock 0)).observe (clock 1)
    { health with
      state := if circuit.allowsRequest then .degraded else .unhealthy
      circuit := circuit
      lastCheck := clock 2
      lastError := some e }

/-- The health after a check that finds no session. -/
def BackendHealth.noSession (health : BackendHealth T) (clock : ℕ → T) : BackendHealth T :=
  { health with
    state := .unhealthy
    lastError := some "No active session"
    circuit := health.circuit.recordFailure (clock 1)
    lastCheck := clock 2 }

/-! ## The status record -/

section Sync

variable {T : Type*}

def phaseOf : HealthState → Option BackendPhase
  | .healthy => some .ready
  | .degraded => some .degraded
  | .unhealthy => some .failed
  | .unknown => none

/-- What the record is told. -/
def syncMessage (cfg : CheckerConfig T) (health : BackendHealth T) : String :=
  match health.state with
  | .degraded => "High latency: " ++ cfg.printMs health.lastLatencyMs ++ "ms"
  | .unhealthy =>
    match health.lastError with
    | some e => if e = "" then "Health check failed" else e
    | none => "Health check failed"
  | _ => "Healthy (" ++ cfg.printMs health.lastLatencyMs ++ "ms)"

/-- Updates the phase of a record from the result of a health check. A move that the table does not
have adds a condition and leaves the phase. -/
def syncStatusRecord (cfg : CheckerConfig T) (health : BackendHealth T)
    (record : BackendStatusRecord T) : BackendStatusRecord T :=
  match phaseOf health.state with
  | none => record
  | some targetPhase =>
    if targetPhase = record.phase then record
    else match record.transition targetPhase (syncMessage cfg health) with
      | .ok record' => { record' with lastLatencyMs := some health.lastLatencyMs }
      | .error _ =>
        record.addCondition "HealthCheck" "Warning"
          ("Skipped transition to " ++ targetPhase.value ++ ": " ++ syncMessage cfg health)

theorem phase_syncStatusRecord (cfg : CheckerConfig T) {health : BackendHealth T}
    {target : BackendPhase} (htarget : phaseOf health.state = some target)
    (record : BackendStatusRecord T) : (syncStatusRecord cfg health record).phase
      = if isValidBackendTransition record.phase target = true then target
        else record.phase := by
  have htry := record.phase_tryTransition target (syncMessage cfg health)
  rw [syncStatusRecord, htarget]
  dsimp only
  by_cases heq : target = record.phase
  · rw [if_pos heq, heq, ite_self]
  · rw [if_neg heq, ← htry, BackendStatusRecord.tryTransition]
    rcases record.transition target (syncMessage cfg health) with e | record'
    · rfl
    · rfl

end Sync

/-! ## The system -/

/-- A check that waits for the answer of its backend. -/
structure Check (T : Type*) where
  oldState : HealthState
  start : T

/-- How a check ended, and whether it had a session to probe. -/
structure Ended where
  state : HealthState
  probed : Bool
  deriving DecidableEq, Repr

/-- The checker, the client manager and the registry. -/
structure System (T : Type*) where
  sessions : Dict String Unit
  records : Dict String (BackendStatusRecord T)
  health : Dict String (BackendHealth T)
  checks : Dict String (Check T)
  /-- The re-discoveries that are scheduled and have not begun. -/
  restoring : List String
  registry : RegistryState
  /-- Ghost: how the last completed check of each backend ended. -/
  ended : Dict String Ended
  /-- Ghost: what each backend that was hidden has listed since, by type. -/
  relisted : Dict String (CapType → Option (List RawItem))

/-- What can happen. A segment of a coroutine that reads the clock comes with its readings. -/
inductive Event (T : Type*) where
  /-- `start_backend_svr` up to its first suspension. -/
  | connecting (name svrType : String)
  | connected (name : String)
  /-- The connection failed for good. -/
  | connectFailed (name message : String)
  /-- The connection failed, and a browser is asking for credentials. -/
  | authPending (name message : String)
  | retrying (name : String) (attempt maxRetries : ℕ)
  /-- `disconnect_one` drops the session. -/
  | disconnected (name : String)
  /-- `stop_all` up to its first suspension. -/
  | shuttingDown
  /-- `_check` up to its probe, or to its end. -/
  | beginCheck (name : String) (clock : ℕ → T)
  /-- The probe of a check is answered or raises, and the check runs to its end. -/
  | finishCheck (name : String) (clock : ℕ → T) (probe : Except String Unit)
  | resetBackend (name : String)
  /-- A scheduled `discover_single_backend` runs up to its first suspension. -/
  | restore (name : String)
  /-- A listing comes back to a re-discovery. -/
  | relist (task : Task) (reply : ListReply)

namespace System

variable (st : System T)

/-- A system in which nothing has happened, over a registry. -/
def init (registry : RegistryState) : System T where
  sessions := Dict.empty
  records := Dict.empty
  health := Dict.empty
  checks := Dict.empty
  restoring := []
  registry := registry
  ended := Dict.empty
  relisted := Dict.empty

/-- No check and no re-discovery is pending. -/
def Quiescent : Prop := st.checks.items = [] ∧ st.restoring = [] ∧ st.registry.Quiescent

instance : Decidable st.Quiescent := instDecidableAnd

def updateRecord (name : String) (f : BackendStatusRecord T → BackendStatusRecord T) : System T :=
  match st.records.get? name with
  | some record => { st with records := st.records.set name (f record) }
  | none => st

/-- The record of a backend, which is created if there is none, is initializing. -/
def connecting (name svrType : String) : System T :=
  let record := (st.records.get? name).getD (.new name)
  { st with
    records := st.records.set name
      (record.tryTransition .initializing ("Connecting (" ++ svrType ++ ")")) }

def connected (name : String) : System T :=
  { st with sessions := st.sessions.set name () }.updateRecord name
    (·.tryTransition .ready "Connection established")

def retrying (name : String) (attempt maxRetries : ℕ) : System T :=
  st.updateRecord name
    (·.tryTransition .retrying ("Retry " ++ toString attempt ++ "/" ++ toString maxRetries))

/-- The backends in operation are shut down. -/
def shuttingDown : System T :=
  { st with
    records := st.records.mapValues fun record ↦
      if record.isOperational then record.tryTransition .shuttingDown "Graceful shutdown"
      else record }

def hideBackendCapabilities (name : String) : System T :=
  { st with
    registry := st.registry.removeBackend name
    relisted := st.relisted.set name fun _ ↦ none }

def restoreBackendCapabilities (name : String) : System T :=
  match st.sessions.get? name with
  | none => st
  | some () => { st with restoring := st.restoring ++ [name] }

/-- The health of a backend as a check finds it, once the breaker has been asked. -/
def observedHealth (cfg : CheckerConfig T) (name : String) (clock : ℕ → T) : BackendHealth T :=
  let health := (st.health.get? name).getD (.new cfg)
  { health with circuit := health.circuit.observe (clock 0) }

/-- A check has ended with this health: the backend's record is told. -/
def conclude (cfg : CheckerConfig T) (name : String) (health : BackendHealth T) (probed : Bool) :
    System T :=
  { st with
    health := st.health.set name health
    ended := st.ended.set name ⟨health.state, probed⟩ }.updateRecord name
    (syncStatusRecord cfg health)

/-- `_check` up to its probe. It is over before that if the breaker is open, or if there is no
session, and then nothing is hidden. -/
def beginCheck (cfg : CheckerConfig T) (name : String) (clock : ℕ → T) : System T :=
  let health := st.observedHealth cfg name clock
  if health.circuit.allowsRequest = false then { st with health := st.health.set name health }
  else match st.sessions.get? name with
    | none => st.conclude cfg name (health.noSession clock) false
    | some () =>
      { st with
        health := st.health.set name health
        checks := st.checks.set name ⟨health.state, clock 1⟩ }

/-- What a check does to the registry once it knows how it ends. -/
def showOrHide (name : String) (oldState newState : HealthState) : System T :=
  if newState = .unhealthy then st.hideBackendCapabilities name
  else if oldState = .unhealthy ∧ (newState = .healthy ∨ newState = .degraded) then
    st.restoreBackendCapabilities name
  else st

/-- `_check` from the end of its probe on. -/
def finishCheck (cfg : CheckerConfig T) (name : String) (check : Check T)
    (health : BackendHealth T) (clock : ℕ → T) (probe : Except String Unit) : System T :=
  let health' := health.probed cfg check.start clock probe
  (({ st with checks := st.checks.del name }.showOrHide name check.oldState
    health'.state).conclude cfg name health' true)

def resetBackend (name : String) : System T :=
  match st.health.get? name with
  | some health =>
    { st with
      health := st.health.set name
        { health with circuit := health.circuit.reset, state := .unknown } }
  | none => st

/-- The first listing of each type since a backend was hidden is noted. -/
def noteListing (task : Task) (reply : ListReply) :
    Dict String (CapType → Option (List RawItem)) :=
  match st.relisted.get? task.svr, reply with
  | some listed, .ok listResult =>
    if listed task.capType = none then
      st.relisted.set task.svr
        (Function.update listed task.capType (some (parseListResult listResult)))
    else st.relisted
  | _, _ => st.relisted

end System

/-- One step of the system. A backend has at most one check that waits. -/
def step (cfg : CheckerConfig T) (rcfg : RegistryConfig) (st : System T) :
    Event T → Option (System T)
  | .connecting name svrType => some (st.connecting name svrType)
  | .connected name => some (st.connected name)
  | .connectFailed name message => some (st.updateRecord name (·.tryTransition .failed message))
  | .authPending name message =>
    some (st.updateRecord name (·.tryTransition .initializing message))
  | .retrying name attempt maxRetries => some (st.retrying name attempt maxRetries)
  | .disconnected name => some { st with sessions := st.sessions.del name }
  | .shuttingDown => some st.shuttingDown
  | .beginCheck name clock =>
    match st.checks.get? name with
    | some _ => none
    | none => some (st.beginCheck cfg name clock)
  | .finishCheck name clock probe =>
    match st.checks.get? name, st.health.get? name with
    | some check, some health => some (st.finishCheck cfg name check health clock probe)
    | _, _ => none
  | .resetBackend name => some (st.resetBackend name)
  | .restore name =>
    if name ∈ st.restoring then
      some { st with
        restoring := st.restoring.erase name
        registry := st.registry.discoverSingleBackend name }
    else none
  | .relist task reply =>
    (registryStep rcfg st.registry (.complete task reply)).map fun registry ↦
      { st with registry := registry, relisted := st.noteListing task reply }

/-! ## The phase after a check -/

/-- The backend whose check an event completes. A check that the breaker forbids is skipped, and one
that waits is not complete. -/
def completes (cfg : CheckerConfig T) (st : System T) : Event T → Option String
  | .beginCheck name clock =>
    if (st.observedHealth cfg name clock).circuit.allowsRequest = true ∧
      st.sessions.get? name = none then some name
    else none
  | .finishCheck name _ _ => some name
  | _ => none

/-- The record of a backend reports its health, unless the backend is shutting down. -/
def Reported (st : System T) (name : String) : Prop :=
  ∀ record health, st.records.get? name = some record → record.phase ≠ .shuttingDown →
    st.health.get? name = some health → phaseOf health.state = some record.phase

/-- After every completed check of a run the record reports the health. -/
def ReportsHealth (cfg : CheckerConfig T) (rcfg : RegistryConfig) (s : System T)
    (tr : List (Event T)) : Prop :=
  ∀ m ev post m' name, Run.Visits (step cfg rcfg) s tr m ev post → step cfg rcfg m ev = some m' →
    completes cfg m ev = some name → Reported m' name

/-- What a completed check needs to find in the record, told from how the check goes: any phase but
the first for a backend without a session, and for a failure that opens the breaker; a backend in
operation for everything else, or, for a prompt answer, one that is just connecting. -/
def Syncable (cfg : CheckerConfig T) (st : System T) : Event T → Prop
  | .beginCheck name _ => ∀ record, st.records.get? name = some record → record.phase ≠ .pending
  | .finishCheck name clock (.ok ()) =>
    ∀ record check, st.records.get? name = some record → st.checks.get? name = some check →
      record.phase ≠ .shuttingDown → record.isOperational = true ∨
        record.phase = .initializing ∧ 1000 • (clock 0 - check.start) ≤ cfg.degradedLatencyMs
  | .finishCheck name clock (.error _) =>
    ∀ record health, st.records.get? name = some record → st.health.get? name = some health →
      record.phase ≠ .shuttingDown → record.isOperational = true ∨
        record.phase ≠ .pending ∧
          ((health.circuit.recordFailure (clock 0)).observe (clock 1)).allowsRequest = false
  | _ => True

/-- Every completed check of a run finds a record that it can move. -/
def KeepsUp (cfg : CheckerConfig T) (rcfg : RegistryConfig) (s : System T)
    (tr : List (Event T)) : Prop :=
  ∀ m ev post m' name, Run.Visits (step cfg rcfg) s tr m ev post → step cfg rcfg m ev = some m' →
    completes cfg m ev = some name → Syncable cfg m ev

section Sync

variable {T : Type*} {cfg : CheckerConfig T} {health : BackendHealth T}
  {record : BackendStatusRecord T}

theorem phaseOf_ne_shuttingDown (state : HealthState) : phaseOf state ≠ some .shuttingDown := by
  rcases state with _ | _ | _ | _ <;> simp [phaseOf]

theorem shuttingDown_syncStatusRecord_iff : (syncStatusRecord cfg health record).phase
    = .shuttingDown ↔ record.phase = .shuttingDown := by
  rcases htarget : phaseOf health.state with _ | target
  · rw [syncStatusRecord, htarget]
  · rw [phase_syncStatusRecord cfg htarget]
    split
    · rename_i hvalid
      refine iff_of_false (fun h ↦ phaseOf_ne_shuttingDown _ (h ▸ htarget)) fun h ↦ ?_
      rw [h] at hvalid
      exact absurd hvalid (by simp [isValidBackendTransition, backendTransitions])
    · exact Iff.rfl

/-- Every phase but the first leads to the phase of a backend that is down. -/
theorem synced_unhealthy_iff (hstate : health.state = .unhealthy)
    (hphase : record.phase ≠ .shuttingDown) :
    phaseOf health.state = some (syncStatusRecord cfg health record).phase ↔
      record.phase ≠ .pending := by
  have htarget : phaseOf health.state = some .failed := by rw [hstate, phaseOf]
  rw [phase_syncStatusRecord cfg htarget, htarget]
  generalize record.phase = phase at hphase ⊢
  rcases phase with _ | _ | _ | _ | _ | _ | _ <;> simp [isValidBackendTransition,
    backendTransitions] at hphase ⊢

theorem synced_degraded_iff (hstate : health.state = .degraded) :
    phaseOf health.state = some (syncStatusRecord cfg health record).phase ↔
      record.isOperational = true := by
  have htarget : phaseOf health.state = some .degraded := by rw [hstate, phaseOf]
  rw [phase_syncStatusRecord cfg htarget, htarget, BackendStatusRecord.isOperational]
  rcases record.phase with _ | _ | _ | _ | _ | _ | _ <;> simp [isValidBackendTransition,
    backendTransitions]

theorem synced_healthy_iff (hstate : health.state = .healthy) :
    phaseOf health.state = some (syncStatusRecord cfg health record).phase ↔
      record.isOperational = true ∨ record.phase = .initializing := by
  have htarget : phaseOf health.state = some .ready := by rw [hstate, phaseOf]
  rw [phase_syncStatusRecord cfg htarget, htarget, BackendStatusRecord.isOperational]
  rcases record.phase with _ | _ | _ | _ | _ | _ | _ <;> simp [isValidBackendTransition,
    backendTransitions]

end Sync

namespace System

variable {cfg : CheckerConfig T} {st : System T} {name : String}

omit [AddCommGroup T] [LinearOrder T] in
theorem records_updateRecord (st : System T) (name : String)
    (f : BackendStatusRecord T → BackendStatusRecord T) :
    (st.updateRecord name f).records.get? name = (st.records.get? name).map f := by
  rw [updateRecord]
  rcases hget : st.records.get? name with _ | record
  · exact hget
  · exact Dict.get?_set_self _ _ _

omit [AddCommGroup T] [LinearOrder T] in
@[simp] theorem health_updateRecord (st : System T) (name : String)
    (f : BackendStatusRecord T → BackendStatusRecord T) :
    (st.updateRecord name f).health = st.health := by
  rw [updateRecord]
  rcases st.records.get? name with _ | record <;> rfl

omit [AddCommGroup T] [LinearOrder T] in
@[simp] theorem records_showOrHide (st : System T) (name : String)
    (oldState newState : HealthState) :
    (st.showOrHide name oldState newState).records = st.records := by
  rw [showOrHide, hideBackendCapabilities, restoreBackendCapabilities]
  split
  · rfl
  · split
    · rcases st.sessions.get? name with _ | ⟨⟩ <;> rfl
    · rfl

omit [AddCommGroup T] [LinearOrder T] in
theorem reported_conclude_iff {health : BackendHealth T} {probed : Bool} :
    Reported (st.conclude cfg name health probed) name ↔
      ∀ record, st.records.get? name = some record → record.phase ≠ .shuttingDown →
        phaseOf health.state = some (syncStatusRecord cfg health record).phase := by
  have hhealth : (st.conclude cfg name health probed).health.get? name = some health := by
    rw [conclude, health_updateRecord]
    exact Dict.get?_set_self _ _ _
  have hrecords : (st.conclude cfg name health probed).records.get? name
      = (st.records.get? name).map (syncStatusRecord cfg health) := records_updateRecord _ _ _
  constructor
  · intro h record hrecord hphase
    refine h _ health ?_ (fun hdown ↦ hphase ?_) hhealth
    · rw [hrecords, hrecord, Option.map_some]
    · exact shuttingDown_syncStatusRecord_iff.mp hdown
  · intro h record health' hrecord hphase hhealth'
    rw [hrecords] at hrecord
    obtain ⟨before, hbefore, rfl⟩ := Option.map_eq_some_iff.mp hrecord
    rw [hhealth, Option.some.injEq] at hhealth'
    rw [← hhealth']
    exact h before hbefore fun hdown ↦ hphase (shuttingDown_syncStatusRecord_iff.mpr hdown)

end System

omit [AddCommGroup T] [LinearOrder T] in
/-- A check without a session moves the record of every backend that has been started. -/
theorem reported_noSession_iff {cfg : CheckerConfig T} {st : System T} {name : String}
    {health : BackendHealth T} {clock : ℕ → T} :
    Reported (st.conclude cfg name (health.noSession clock) false) name ↔
      ∀ record, st.records.get? name = some record → record.phase ≠ .pending := by
  rw [System.reported_conclude_iff]
  refine forall_congr' fun record ↦ forall_congr' fun _ ↦ ?_
  constructor
  · intro h hpending
    have hphase : record.phase ≠ .shuttingDown := by simp [hpending]
    exact (synced_unhealthy_iff rfl hphase).mp (h hphase) hpending
  · intro h hphase
    exact (synced_unhealthy_iff rfl hphase).mpr h

/-- A probe that is answered moves the record of a backend in operation, and one that is answered
promptly also that of a backend that is connecting. -/
theorem synced_probed_ok_iff {cfg : CheckerConfig T} {health : BackendHealth T} {start : T}
    {clock : ℕ → T} {record : BackendStatusRecord T} :
    phaseOf (health.probed cfg start clock (.ok ())).state
        = some (syncStatusRecord cfg (health.probed cfg start clock (.ok ())) record).phase ↔
      record.isOperational = true ∨ record.phase = .initializing ∧
        1000 • (clock 0 - start) ≤ cfg.degradedLatencyMs := by
  by_cases hslow : cfg.degradedLatencyMs < 1000 • (clock 0 - start)
  · rw [synced_degraded_iff (if_pos hslow)]
    exact ⟨Or.inl, fun h ↦ h.resolve_right fun hinit ↦ not_le.mpr hslow hinit.2⟩
  · rw [synced_healthy_iff (if_neg hslow), and_iff_left (not_lt.mp hslow)]

/-- A probe that raises moves the record of a backend in operation, and if it opens the breaker that
of every backend that has been started. -/
theorem synced_probed_error_iff {cfg : CheckerConfig T} {health : BackendHealth T} {start : T}
    {clock : ℕ → T} {e : String} {record : BackendStatusRecord T}
    (hphase : record.phase ≠ .shuttingDown) :
    phaseOf (health.probed cfg start clock (.error e)).state
        = some (syncStatusRecord cfg (health.probed cfg start clock (.error e)) record).phase ↔
      record.isOperational = true ∨ record.phase ≠ .pending ∧
        ((health.circuit.recordFailure (clock 0)).observe (clock 1)).allowsRequest = false := by
  by_cases hallows :
      ((health.circuit.recordFailure (clock 0)).observe (clock 1)).allowsRequest = true
  · rw [synced_degraded_iff (if_pos hallows)]
    exact ⟨Or.inl, fun h ↦ h.resolve_right fun hopen ↦ by simp [hallows] at hopen⟩
  · rw [synced_unhealthy_iff (if_neg hallows) hphase,
      and_iff_left (eq_false_of_ne_true hallows)]
    refine ⟨Or.inr, fun h ↦ h.elim (fun hop hpending ↦ ?_) id⟩
    rw [BackendStatusRecord.isOperational, hpending] at hop
    exact absurd hop (by decide)

/-- **One check.** A completed check leaves a record that reports the health exactly if it finds one
that it can move. -/
theorem reported_step_iff {cfg : CheckerConfig T} {rcfg : RegistryConfig} {m m' : System T}
    {ev : Event T} {name : String} (hstep : step cfg rcfg m ev = some m')
    (hcomp : completes cfg m ev = some name) : Reported m' name ↔ Syncable cfg m ev := by
  cases ev with
  | beginCheck name' clock =>
    rw [completes] at hcomp
    split at hcomp
    · rename_i hnone
      obtain rfl := Option.some.inj hcomp
      rw [step] at hstep
      rcases hcheck : m.checks.get? name' with _ | check
      · rw [hcheck, Option.some.injEq, System.beginCheck, if_neg (by simp [hnone.1]), hnone.2]
          at hstep
        rw [← hstep]
        exact reported_noSession_iff
      · rw [hcheck] at hstep
        exact absurd hstep (by simp)
    · exact absurd hcomp (by simp)
  | finishCheck name' clock probe =>
    obtain rfl := Option.some.inj hcomp
    rw [step] at hstep
    rcases hcheck : m.checks.get? name' with _ | check
    · rw [hcheck] at hstep
      exact absurd hstep (by simp)
    rcases hhealth : m.health.get? name' with _ | health
    · rw [hcheck, hhealth] at hstep
      exact absurd hstep (by simp)
    rw [hcheck, hhealth, Option.some.injEq, System.finishCheck] at hstep
    rw [← hstep, System.reported_conclude_iff, System.records_showOrHide]
    rcases probe with e | ⟨⟩
    · rw [Syncable]
      constructor
      · rintro h record health' hrecord hhealth' hphase
        obtain rfl := Option.some.inj (hhealth.symm.trans hhealth')
        exact (synced_probed_error_iff hphase).mp (h record hrecord hphase)
      · intro h record hrecord hphase
        exact (synced_probed_error_iff hphase).mpr (h record health hrecord hhealth hphase)
    · rw [Syncable]
      constructor
      · rintro h record check' hrecord hcheck' hphase
        obtain rfl := Option.some.inj (hcheck.symm.trans hcheck')
        exact synced_probed_ok_iff.mp (h record hrecord hphase)
      · intro h record hrecord hphase
        exact synced_probed_ok_iff.mpr (h record check hrecord hcheck hphase)
  | _ => exact absurd hcomp (by simp [completes])

/-- **Reported phases follow health** in a run exactly if every completed check finds a record that
it can move. -/
theorem reportsHealth_iff (cfg : CheckerConfig T) (rcfg : RegistryConfig) (s : System T)
    (tr : List (Event T)) : ReportsHealth cfg rcfg s tr ↔ KeepsUp cfg rcfg s tr := by
  constructor
  · intro h m ev post m' name hv hstep hcomp
    exact (reported_step_iff hstep hcomp).mp (h m ev post m' name hv hstep hcomp)
  · intro h m ev post m' name hv hstep hcomp
    exact (reported_step_iff hstep hcomp).mpr (h m ev post m' name hv hstep hcomp)

/-! ### A backend that recovers -/

def defaultConfig : CheckerConfig ℤ where
  failureThreshold := 3
  cooldown := ((60 : ℤ) : WithTop ℤ)
  degradedLatencyMs := 5000
  printMs := toString

/-- A check from its probe to its end, with the time it begins at and what comes back at once. -/
def checkAt (name : String) (now : ℤ) (probe : Except String Unit) : List (Event ℤ) :=
  [.beginCheck name fun _ ↦ now, .finishCheck name (fun _ ↦ now) probe]

/-- A backend connects, does not answer three checks in a row, and is asked again a minute later. -/
def outage : List (Event ℤ) :=
  [.connecting "files" "stdio", .connected "files"] ++
    checkAt "files" 30 (.error "TimeoutError: ") ++ checkAt "files" 60 (.error "TimeoutError: ") ++
    checkAt "files" 90 (.error "TimeoutError: ") ++ [.beginCheck "files" fun _ ↦ 150]

/-- It answers. -/
def recovery : List (Event ℤ) := outage ++ [.finishCheck "files" (fun _ ↦ 150) (.ok ())]

def systemAfter (tr : List (Event ℤ)) : System ℤ :=
  (Run.run (step defaultConfig .default) (.init .init) tr).getD (.init .init)

theorem not_reportsHealth_recovery :
    ¬ ReportsHealth defaultConfig .default (.init .init) recovery := by
  intro h
  have houtage : Run.run (step defaultConfig .default) (.init .init) outage
      = some (systemAfter outage) := Run.run_eq_some_getD (by decide) _
  have hrecovery : Run.run (step defaultConfig .default) (.init .init) recovery
      = some (systemAfter recovery) := Run.run_eq_some_getD (by decide) _
  have hstep : step defaultConfig .default (systemAfter outage)
      (.finishCheck "files" (fun _ ↦ 150) (.ok ())) = some (systemAfter recovery) := by
    rw [recovery, Run.run_append, houtage, Option.bind_some, Run.run, Option.bind_eq_some_iff]
      at hrecovery
    obtain ⟨m, hm, hrun⟩ := hrecovery
    exact hm.trans hrun
  -- the probe has succeeded, and the record still says what the outage made of it
  have hphase : ((systemAfter recovery).records.get? "files").map BackendStatusRecord.phase
      = some .failed := by decide
  have hstate : ((systemAfter recovery).health.get? "files").map BackendHealth.state
      = some .healthy := by decide
  obtain ⟨record, hrecord, hphase⟩ := Option.map_eq_some_iff.mp hphase
  obtain ⟨health, hhealth, hstate⟩ := Option.map_eq_some_iff.mp hstate
  have hreported := h _ _ [] _ "files" (Run.visits_of_run houtage _ []) hstep rfl record health
    hrecord (by simp [hphase]) hhealth
  rw [hphase, hstate] at hreported
  exact absurd hreported (by decide)

end Health

end ArgusMcp
