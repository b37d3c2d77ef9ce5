import ArgusMcp.Library.Dict
import ArgusMcp.Library.Run
import ArgusMcp.Runtime.Models
import Mathlib.Logic.Function.Basic

/-!
# Starting the backends

`start_all` of `bridge/startup_coordinator.py` connects to every configured backend. The first pass
makes one task for each remote backend, all at once, and then goes through the stdio backends, one
after the other or, on request, all at once. Backends that have failed are tried again in rounds:
a round is signalled in the status records, the coordinator sleeps, waits for the pending auth
discoveries, and makes a task for each backend that has a retry left. `cancel_startup` may be called
whenever the coordinator is suspended.

The state is that of the client manager together with the place where `start_all` is suspended. A
task waits (for its first turn, for the semaphore, for its image), calls `start_one`, and ends with
the outcome of that call. The order of these events is left open, so that the semaphore and the
stagger, which only put the calls into some order, do not appear. Of the dictionaries kept by name
only the look-up is used, and they are functions here.

## Main statements

* `stopsStartup_iff`: at which points of `start_all` a call of `cancel_startup` keeps every further
  call of `start_one` from beginning and cancels every unfinished task.
-/

namespace ArgusMcp

namespace Startup

/-! ## The configuration -/

inductive BackendType where
  | streamableHttp
  | sse
  | stdio
  deriving DecidableEq, Repr

def BackendType.value : BackendType → String
  | streamableHttp => "streamable-http"
  | sse => "sse"
  | stdio => "stdio"

structure Backend where
  type : BackendType
  retries : Option ℕ
  deriving DecidableEq, Repr

/-- The number of automatic retries for failed backends. -/
def backendRetries : ℕ := 3

/-- The configured backends, and whether stdio backends are started in parallel. -/
structure Config where
  backends : Dict String Backend
  parallel : Bool

namespace Config

variable (cfg : Config)

def names : List String := cfg.backends.keys

def typeOf (n : String) : Option BackendType := (cfg.backends.get? n).map Backend.type

def retries (n : String) : ℕ := ((cfg.backends.get? n).bind Backend.retries).getD backendRetries

/-- The remote backends, sorted by the priority of their type. -/
def remoteItems : List String :=
  cfg.names.filter (fun n ↦ decide (cfg.typeOf n = some .streamableHttp))
    ++ cfg.names.filter fun n ↦ decide (cfg.typeOf n = some .sse)

def stdioItems : List String := cfg.names.filter fun n ↦ decide (cfg.typeOf n = some .stdio)

/-- The number of rounds: the largest number of retries among the failed backends. -/
def maxRetries (failed : List String) : ℕ := (failed.map cfg.retries).foldr max 0

end Config

/-! ## The state -/

/-- How a call of `start_one` ends. It returns `True`, or `False` after a time-out or a failed
build (`refused`), or `False` after any other failure of the connection; or it raises. -/
inductive Outcome where
  | success
  | refused (reason : String)
  | failure (reason : String)
  | exception
  | cancelled
  deriving DecidableEq, Repr

/-- A task has not called `start_one`, is in the call, or is done. -/
inductive Stage where
  | waiting
  | running
  | finished (outcome : Outcome)
  deriving DecidableEq, Repr

structure Task where
  stage : Stage
  cancelRequested : Bool
  deriving DecidableEq, Repr

def Task.done (t : Task) : Bool :=
  match t.stage with
  | .finished _ => true
  | _ => false

/-- Where `start_all` is suspended. -/
inductive Pc where
  /-- At the `sleep(0)` behind the launch of the remote tasks. -/
  | yielding
  /-- At the task of one stdio backend, with the backends behind it. The flag is the value that
  `shutdown_requested` had when the stdio backends were begun with. -/
  | stdioSequential (shutdownRequested : Bool) (current : String) (rest : List String)
  /-- At the tasks of all stdio backends. -/
  | stdioParallel
  /-- At the remote tasks. -/
  | gathering
  /-- In the delay before a round of retries. -/
  | delaying (attempt : ℕ) (failed : List String) (maxRetries : ℕ)
  /-- At the pending auth discoveries of failed backends. -/
  | awaitingAuth (attempt : ℕ) (failed : List String) (maxRetries : ℕ)
  /-- At the tasks of a round of retries. -/
  | retrying (attempt : ℕ) (failed : List String) (maxRetries : ℕ)
  | returned
  deriving DecidableEq, Repr

/-- The round that is going on; the first pass is round zero. -/
def Pc.attempt : Pc → ℕ
  | delaying a _ _ => a
  | awaitingAuth a _ _ => a
  | retrying a _ _ => a
  | _ => 0

/-- A call of `start_one`: for whom, in which round, and whether there was a session already. -/
structure Call where
  name : String
  attempt : ℕ
  connected : Bool
  deriving DecidableEq, Repr

/-- The client manager while `start_all` runs. The tasks are those of the current pass, `pending`
says which of them are in `_pending_tasks`, and `authPending` which backends have an auth discovery
that is not done. The calls of `start_one` and how they ended are kept for the statements. -/
structure State where
  pc : Pc
  tasks : String → Option Task
  pending : String → Bool
  shutdownRequested : Bool
  sessions : String → Bool
  records : String → Option (BackendStatusRecord Unit)
  authPending : String → Bool
  calls : List Call
  outcomes : List (String × Outcome)

namespace State

variable (s : State)

def finished (n : String) : Bool := (s.tasks n).any Task.done

/-- New tasks for the backends. -/
def launch (ns : List String) : State :=
  { s with tasks := fun n ↦ if n ∈ ns then some ⟨.waiting, false⟩ else s.tasks n }

/-- New tasks for the backends, put into `_pending_tasks`. -/
def launchPending (ns : List String) : State :=
  { s.launch ns with pending := fun n ↦ decide (n ∈ ns) || s.pending n }

def setStage (n : String) (t : Task) (stage : Stage) : State :=
  { s with tasks := Function.update s.tasks n (some { t with stage := stage }) }

def modifyRecord (n : String) (f : BackendStatusRecord Unit → BackendStatusRecord Unit) : State :=
  { s with records := Function.update s.records n ((s.records n).map f) }

def ensureStatusRecord (n : String) : BackendStatusRecord Unit :=
  (s.records n).getD (BackendStatusRecord.new n)

end State

/-! ## One backend -/

section StartOne

variable (cfg : Config) (s : State)

/-- `start_backend_svr` up to where it first waits. -/
def startBackendSvr (n : String) : State :=
  { s with
    records := Function.update s.records n (some ((s.ensureStatusRecord n).tryTransition
      .initializing ("Connecting (" ++ ((cfg.typeOf n).map BackendType.value).getD "None" ++ ")")))
    calls := s.calls ++ [⟨n, s.pc.attempt, s.sessions n⟩] }

/-- Keeps the backend initializing when auth discovery is running, else marks it failed. -/
def recordAuthPendingOrFailure (n reason : String) : State :=
  s.modifyRecord n fun record ↦
    if s.authPending n = true then record.tryTransition .initializing reason
    else record.tryTransition .failed reason

/-- What `start_backend_svr` does to the manager where it ends. -/
def endCall (n : String) : Outcome → State
  | .success =>
    { s.modifyRecord n fun record ↦ record.tryTransition .ready "Connection established" with
      sessions := Function.update s.sessions n true }
  | .refused reason => s.modifyRecord n fun record ↦ record.tryTransition .failed reason
  | .failure reason => recordAuthPendingOrFailure s n reason
  | .exception => s
  | .cancelled => s

end StartOne

/-! ## The retry loop -/

/-- The head of the loop over the rounds of retries. -/
structure LoopHead where
  attempt : ℕ
  failed : List String
  maxRetries : ℕ
  deriving DecidableEq, Repr

section Retry

variable (cfg : Config) (s : State)

def LoopHead.message (head : LoopHead) : String :=
  "Retry " ++ toString head.attempt ++ "/" ++ toString head.maxRetries

def signalRetryPhase (head : LoopHead) : State :=
  { s with records := fun n ↦
      if n ∈ head.failed then (s.records n).map (·.tryTransition .retrying head.message)
      else s.records n }

def LoopHead.goesOn (head : LoopHead) : Bool :=
  decide (head.attempt ≤ head.maxRetries ∧ head.failed ≠ []) && !s.shutdownRequested

/-- From the head of the loop to the delay, or out of the loop and back to the caller. -/
def retryFailedBackends (head : LoopHead) : State :=
  if head.goesOn s = true then
    { signalRetryPhase s head with pc := .delaying head.attempt head.failed head.maxRetries }
  else { s with pc := .returned }

/-- The end of a round: back to the head of the loop with those that have no session. -/
def endRound (head : LoopHead) : State × Option LoopHead :=
  ({ s with tasks := fun _ ↦ none },
    some ⟨head.attempt + 1, head.failed.filter fun n ↦ !s.sessions n, head.maxRetries⟩)

/-- The failed backends that have a retry left for the round. -/
def retried (head : LoopHead) : List String :=
  head.failed.filter fun n ↦ decide (head.attempt ≤ cfg.retries n)

/-- Creates the retry tasks, which are not put into `_pending_tasks`. -/
def launchRetryTasks (head : LoopHead) : State × Option LoopHead :=
  if retried cfg head = [] then endRound s head
  else
    ({ s.launch (retried cfg head) with
      pc := .retrying head.attempt head.failed head.maxRetries }, none)

end Retry

/-! ## The first pass -/

section FirstPass

variable (cfg : Config) (s : State)

/-- The result of a stdio task: cancellation and exceptions count as failure. -/
def stdioResult : Outcome → Bool
  | .success => true
  | _ => false

/-- The result of a remote task. `CancelledError` is no `Exception`, and the truth value of an
exception object is `True`. -/
def remoteResult : Outcome → Bool
  | .success => true
  | .cancelled => true
  | _ => false

/-- The entry of `first_pass`. A stdio backend that was skipped for the flag is marked failed or
left out; nothing reads that, since the flag also keeps the retries from being begun. -/
def firstPassResult (n : String) : Option Bool :=
  match (s.tasks n).map Task.stage with
  | some (.finished o) => some (if n ∈ cfg.remoteItems then remoteResult o else stdioResult o)
  | _ => none

def failedNames : List String :=
  (cfg.remoteItems ++ cfg.stdioItems).filter fun n ↦ decide (firstPassResult cfg s n = some false)

/-- The end of the first pass: the pending tasks are cleared, and those that have failed are retried
unless shutdown has been requested. -/
def endFirstPass : State × Option LoopHead :=
  ({ s with pc := .returned, tasks := fun _ ↦ none, pending := fun _ ↦ false },
    if failedNames cfg s ≠ [] ∧ s.shutdownRequested = false then
      some ⟨1, failedNames cfg s, cfg.maxRetries (failedNames cfg s)⟩
    else none)

/-- Awaits the remote tasks, if there are any. -/
def gatherRemoteResults : State × Option LoopHead :=
  if cfg.remoteItems = [] then endFirstPass cfg s else ({ s with pc := .gathering }, none)

def connectStdio (shutdownRequested : Bool) : List String → State × Option LoopHead
  | [] => gatherRemoteResults cfg s
  | n :: rest =>
    if shutdownRequested = true then gatherRemoteResults cfg s
    else
      ({ s.launchPending [n] with pc := .stdioSequential shutdownRequested n rest }, none)

def buildAndConnectStdio (shutdownRequested : Bool) : State × Option LoopHead :=
  if cfg.parallel = true ∧ 1 < cfg.stdioItems.length then
    if shutdownRequested = true then gatherRemoteResults cfg s
    else ({ s.launchPending cfg.stdioItems with pc := .stdioParallel }, none)
  else connectStdio cfg s shutdownRequested cfg.stdioItems

end FirstPass

/-! ## The runs -/

/-- A manager that has not started anything. -/
def State.fresh : State where
  pc := .yielding
  tasks := fun _ ↦ none
  pending := fun _ ↦ false
  shutdownRequested := false
  sessions := fun _ ↦ false
  records := fun _ ↦ none
  authPending := fun _ ↦ false
  calls := []
  outcomes := []

/-- On into the loop, if its head has been reached. -/
def enter (p : State × Option LoopHead) : State :=
  match p.2 with
  | some head => retryFailedBackends p.1 head
  | none => p.1

/-- `start_all` up to where it is first suspended. -/
def startAll (cfg : Config) : State :=
  let s := State.fresh.launchPending cfg.remoteItems
  if cfg.remoteItems = [] then enter (buildAndConnectStdio cfg s false) else s

/-- `cancel_startup`: sets the flag and cancels the pending tasks that are not done. -/
def cancelStartup (s : State) : State :=
  { s with
    shutdownRequested := true
    tasks := fun n ↦ (s.tasks n).map fun t ↦
      if s.pending n = true ∧ t.done = false then { t with cancelRequested := true } else t }

section Step

variable (cfg : Config) (s : State)

/-- How far `start_all` goes when it is resumed, if what it waits for has come: to where it is
suspended next, or to the head of the retry loop. The wait for auth discoveries ends by time-out,
if not before. -/
def advance : Option (State × Option LoopHead) :=
  match s.pc with
  | .yielding => some (buildAndConnectStdio cfg s s.shutdownRequested)
  | .stdioSequential flag current rest =>
    if s.finished current = true then some (connectStdio cfg s flag rest) else none
  | .stdioParallel =>
    if cfg.stdioItems.all s.finished = true then some (gatherRemoteResults cfg s) else none
  | .gathering => if cfg.remoteItems.all s.finished = true then some (endFirstPass cfg s) else none
  -- the discoveries are awaited only when there are some for a failed backend
  | .delaying a failed m =>
    if failed.any s.authPending = true then some ({ s with pc := .awaitingAuth a failed m }, none)
    else some (launchRetryTasks cfg s ⟨a, failed, m⟩)
  | .awaitingAuth a failed m => some (launchRetryTasks cfg s ⟨a, failed, m⟩)
  | .retrying a failed m =>
    if (retried cfg ⟨a, failed, m⟩).all s.finished = true then some (endRound s ⟨a, failed, m⟩)
    else none
  | .returned => none

/-- What may happen between two events: a task calls `start_one`, a task that waits is cancelled,
a call ends, an auth discovery is begun by a call or is done, `start_all` goes on, or
`cancel_startup` is called. -/
inductive Event where
  | begin (n : String)
  | cancelDelivered (n : String)
  | ends (n : String) (outcome : Outcome)
  | authBegins (n : String)
  | authDone (n : String)
  | resume
  | cancelStartup
  deriving DecidableEq, Repr

/-- One event, where it can happen. -/
def step : Event → Option State
  -- a task that was cancelled before its first turn ends there instead
  | .begin n =>
    match s.tasks n with
    | some ⟨.waiting, false⟩ =>
      some (startBackendSvr cfg (s.setStage n ⟨.waiting, false⟩ .running) n)
    | _ => none
  | .cancelDelivered n =>
    match s.tasks n with
    | some ⟨.waiting, true⟩ => some (s.setStage n ⟨.waiting, true⟩ (.finished .cancelled))
    | _ => none
  | .ends n outcome =>
    match s.tasks n with
    | some ⟨.running, c⟩ =>
      some { endCall (s.setStage n ⟨.running, c⟩ (.finished outcome)) n outcome with
        outcomes := s.outcomes ++ [(n, outcome)] }
    | _ => none
  | .authBegins n =>
    match s.tasks n with
    | some ⟨.running, _⟩ => some { s with authPending := Function.update s.authPending n true }
    | _ => none
  | .authDone n =>
    if s.authPending n = true then
      some { s with authPending := Function.update s.authPending n false }
    else none
  | .resume => (advance cfg s).map enter
  | .cancelStartup => some (Startup.cancelStartup s)

/-! ## The events one by one -/

variable {cfg s} {m : State} {n : String}

theorem step_begin : step cfg s (.begin n) = some m ↔ s.tasks n = some ⟨.waiting, false⟩ ∧
    m = startBackendSvr cfg (s.setStage n ⟨.waiting, false⟩ .running) n := by
  rw [step]
  constructor
  · intro h
    split at h
    · rename_i htask
      exact ⟨htask, (Option.some.inj h).symm⟩
    · exact absurd h (Option.some_ne_none m).symm
  · rintro ⟨htask, rfl⟩
    rw [htask]

theorem step_cancelDelivered : step cfg s (.cancelDelivered n) = some m ↔
    s.tasks n = some ⟨.waiting, true⟩ ∧
      m = s.setStage n ⟨.waiting, true⟩ (.finished .cancelled) := by
  rw [step]
  constructor
  · intro h
    split at h
    · rename_i htask
      exact ⟨htask, (Option.some.inj h).symm⟩
    · exact absurd h (Option.some_ne_none m).symm
  · rintro ⟨htask, rfl⟩
    rw [htask]

theorem step_ends {o : Outcome} : step cfg s (.ends n o) = some m ↔
    ∃ c, s.tasks n = some ⟨.running, c⟩ ∧
      m = { endCall (s.setStage n ⟨.running, c⟩ (.finished o)) n o with
        outcomes := s.outcomes ++ [(n, o)] } := by
  rw [step]
  constructor
  · intro h
    split at h
    · rename_i c htask
      exact ⟨c, htask, (Option.some.inj h).symm⟩
    · exact absurd h (Option.some_ne_none m).symm
  · rintro ⟨c, htask, rfl⟩
    rw [htask]

theorem step_authBegins : step cfg s (.authBegins n) = some m ↔
    ∃ c, s.tasks n = some ⟨.running, c⟩ ∧
      m = { s with authPending := Function.update s.authPending n true } := by
  rw [step]
  constructor
  · intro h
    split at h
    · rename_i c htask
      exact ⟨c, htask, (Option.some.inj h).symm⟩
    · exact absurd h (Option.some_ne_none m).symm
  · rintro ⟨c, htask, rfl⟩
    rw [htask]

theorem step_authDone : step cfg s (.authDone n) = some m ↔ s.authPending n = true ∧
    m = { s with authPending := Function.update s.authPending n false } := by
  rw [step, Option.ite_none_right_eq_some, Option.some.injEq]
  exact and_congr_right fun _ ↦ eq_comm

theorem step_resume : step cfg s .resume = some m ↔ ∃ p, advance cfg s = some p ∧ m = enter p := by
  rw [step, Option.map_eq_some_iff]
  exact exists_congr fun p ↦ and_congr_right fun _ ↦ eq_comm

/-! ### How `start_all` goes on -/

/-- The ways in which `start_all` goes on, by where it was suspended. -/
inductive Resumed (cfg : Config) (s : State) : State × Option LoopHead → Prop
  | yielding (hpc : s.pc = .yielding) :
    Resumed cfg s (buildAndConnectStdio cfg s s.shutdownRequested)
  | stdioSequential {flag : Bool} {current : String} {rest : List String}
    (hpc : s.pc = .stdioSequential flag current rest) (hfinished : s.finished current = true) :
    Resumed cfg s (connectStdio cfg s flag rest)
  | stdioParallel (hpc : s.pc = .stdioParallel)
    (hfinished : cfg.stdioItems.all s.finished = true) : Resumed cfg s (gatherRemoteResults cfg s)
  | gathering (hpc : s.pc = .gathering) (hfinished : cfg.remoteItems.all s.finished = true) :
    Resumed cfg s (endFirstPass cfg s)
  | authPending {a k : ℕ} {failed : List String} (hpc : s.pc = .delaying a failed k) :
    Resumed cfg s ({ s with pc := .awaitingAuth a failed k }, none)
  | delaying {a k : ℕ} {failed : List String} (hpc : s.pc = .delaying a failed k) :
    Resumed cfg s (launchRetryTasks cfg s ⟨a, failed, k⟩)
  | awaitingAuth {a k : ℕ} {failed : List String} (hpc : s.pc = .awaitingAuth a failed k) :
    Resumed cfg s (launchRetryTasks cfg s ⟨a, failed, k⟩)
  | retrying {a k : ℕ} {failed : List String} (hpc : s.pc = .retrying a failed k)
    (hfinished : (retried cfg ⟨a, failed, k⟩).all s.finished = true) :
    Resumed cfg s (endRound s ⟨a, failed, k⟩)

theorem resumed_of_advance {p : State × Option LoopHead} (hp : advance cfg s = some p) :
    Resumed cfg s p := by
  rw [advance] at hp
  cases hpc : s.pc with
  | yielding =>
    rw [hpc] at hp
    exact Option.some.inj hp ▸ .yielding hpc
  | stdioSequential flag current rest =>
    rw [hpc] at hp
    obtain ⟨hfinished, hp⟩ := Option.ite_none_right_eq_some.mp hp
    exact Option.some.inj hp ▸ .stdioSequential hpc hfinished
  | stdioParallel =>
    rw [hpc] at hp
    obtain ⟨hfinished, hp⟩ := Option.ite_none_right_eq_some.mp hp
    exact Option.some.inj hp ▸ .stdioParallel hpc hfinished
  | gathering =>
    rw [hpc] at hp
    obtain ⟨hfinished, hp⟩ := Option.ite_none_right_eq_some.mp hp
    exact Option.some.inj hp ▸ .gathering hpc hfinished
  | delaying a failed k =>
    rw [hpc] at hp
    dsimp only at hp
    by_cases hauth : failed.any s.authPending = true
    · rw [if_pos hauth] at hp
      exact Option.some.inj hp ▸ .authPending hpc
    · rw [if_neg hauth] at hp
      exact Option.some.inj hp ▸ .delaying hpc
  | awaitingAuth a failed k =>
    rw [hpc] at hp
    exact Option.some.inj hp ▸ .awaitingAuth hpc
  | retrying a failed k =>
    rw [hpc] at hp
    obtain ⟨hfinished, hp⟩ := Option.ite_none_right_eq_some.mp hp
    exact Option.some.inj hp ▸ .retrying hpc hfinished
  | returned =>
    rw [hpc] at hp
    exact absurd hp (Option.some_ne_none p).symm

/-! ### What an event leaves alone -/

@[simp] theorem tasks_endCall (s : State) (n : String) (o : Outcome) :
    (endCall s n o).tasks = s.tasks := by
  cases o <;> rfl

@[simp] theorem pc_endCall (s : State) (n : String) (o : Outcome) : (endCall s n o).pc = s.pc := by
  cases o <;> rfl

@[simp] theorem pending_endCall (s : State) (n : String) (o : Outcome) :
    (endCall s n o).pending = s.pending := by
  cases o <;> rfl

@[simp] theorem shutdownRequested_endCall (s : State) (n : String) (o : Outcome) :
    (endCall s n o).shutdownRequested = s.shutdownRequested := by
  cases o <;> rfl

/-- Whether the backend has a task, and if so, whether it has been asked to cancel. -/
def State.asked (s : State) (n : String) : Option Bool := (s.tasks n).map Task.cancelRequested

theorem asked_update {s : State} {n : String} {t : Task} (ht : s.tasks n = some t) (stage : Stage)
    (k : String) : (Function.update s.tasks n (some { t with stage := stage }) k).map
      Task.cancelRequested = s.asked k := by
  rw [State.asked, Function.update_apply]
  by_cases hk : k = n
  · rw [if_pos hk, hk, ht]
    rfl
  · rw [if_neg hk]

/-- What the events of tasks and auth discoveries leave alone. -/
structure Frame (s m : State) : Prop where
  pc : m.pc = s.pc
  pending : m.pending = s.pending
  shutdownRequested : m.shutdownRequested = s.shutdownRequested
  asked : ∀ n, m.asked n = s.asked n

theorem frame_of_step {e : Event} (h : step cfg s e = some m) (hresume : e ≠ .resume)
    (hcancel : e ≠ .cancelStartup) : Frame s m := by
  cases e with
  | begin n =>
    obtain ⟨ht, rfl⟩ := step_begin.mp h
    exact ⟨rfl, rfl, rfl, asked_update ht .running⟩
  | cancelDelivered n =>
    obtain ⟨ht, rfl⟩ := step_cancelDelivered.mp h
    exact ⟨rfl, rfl, rfl, asked_update ht (.finished .cancelled)⟩
  | ends n o =>
    obtain ⟨c, ht, rfl⟩ := step_ends.mp h
    refine ⟨pc_endCall _ _ _, pending_endCall _ _ _, shutdownRequested_endCall _ _ _, fun k ↦ ?_⟩
    rw [State.asked, tasks_endCall]
    exact asked_update ht (.finished o) k
  | authBegins n =>
    obtain ⟨c, -, rfl⟩ := step_authBegins.mp h
    exact ⟨rfl, rfl, rfl, fun _ ↦ rfl⟩
  | authDone n =>
    obtain ⟨-, rfl⟩ := step_authDone.mp h
    exact ⟨rfl, rfl, rfl, fun _ ↦ rfl⟩
  | resume => exact absurd rfl hresume
  | cancelStartup => exact absurd rfl hcancel

end Step

/-! ## Which tasks are pending

Every task of the first pass is in `_pending_tasks`, and no task of a round of retries is. -/

section Tracked

variable {cfg : Config} {s m : State}

/-- All tasks are in `_pending_tasks`. -/
def State.AllPending (s : State) : Prop := ∀ n, s.asked n ≠ none → s.pending n = true

/-- No task is in `_pending_tasks`, and none has been asked to cancel. -/
def State.NonePending (s : State) : Prop := ∀ n, s.pending n = false ∧ s.asked n ≠ some true

/-- What is known about the tasks where `start_all` is suspended. -/
def Tracked (s : State) : Prop :=
  match s.pc with
  | .stdioSequential _ current _ => s.AllPending ∧ s.asked current ≠ none
  | .delaying _ _ _ => s.NonePending ∧ ∀ n, s.asked n = none
  | .awaitingAuth _ _ _ => s.NonePending ∧ ∀ n, s.asked n = none
  | .retrying _ _ _ => s.NonePending
  | .returned => s.NonePending ∧ ∀ n, s.asked n = none
  | _ => s.AllPending

theorem nonePending_of_asked (hpending : ∀ n, s.pending n = false)
    (hasked : ∀ n, s.asked n = none) : s.NonePending := by
  intro n
  rw [hasked n]
  exact ⟨hpending n, Option.some_ne_none true ∘ Eq.symm⟩

theorem Frame.tracked (hf : Frame s m) (h : Tracked s) : Tracked m := by
  have hasked : m.asked = s.asked := funext hf.asked
  unfold Tracked State.AllPending State.NonePending at *
  rw [hf.pc, hf.pending, hasked]
  exact h

theorem tasks_launch (ns : List String) (n : String) :
    (s.launch ns).tasks n = if n ∈ ns then some ⟨.waiting, false⟩ else s.tasks n := rfl

theorem asked_launch (ns : List String) (n : String) :
    (s.launch ns).asked n = if n ∈ ns then some false else s.asked n := by
  rw [State.asked, tasks_launch]
  by_cases hn : n ∈ ns
  · rw [if_pos hn, if_pos hn]
    rfl
  · rw [if_neg hn, if_neg hn]
    rfl

theorem State.AllPending.launchPending (h : s.AllPending) (ns : List String) :
    (s.launchPending ns).AllPending := by
  intro n hn
  change (decide (n ∈ ns) || s.pending n) = true
  by_cases hmem : n ∈ ns
  · rw [decide_eq_true hmem, Bool.true_or]
  · have hasked : (s.launchPending ns).asked n = s.asked n := by
      change (s.launch ns).asked n = s.asked n
      rw [asked_launch, if_neg hmem]
    rw [hasked] at hn
    rw [h n hn, Bool.or_true]

/-- The head of the loop is reached without tasks, and left without tasks. -/
theorem tracked_retryFailedBackends (hpending : ∀ n, s.pending n = false)
    (hasked : ∀ n, s.asked n = none) (head : LoopHead) : Tracked (retryFailedBackends s head) := by
  rw [retryFailedBackends]
  by_cases hgo : head.goesOn s = true
  · rw [if_pos hgo]
    exact ⟨nonePending_of_asked hpending hasked, hasked⟩
  · rw [if_neg hgo]
    exact ⟨nonePending_of_asked hpending hasked, hasked⟩

theorem tracked_endFirstPass : Tracked (enter (endFirstPass cfg s)) := by
  rw [endFirstPass, enter]
  by_cases hfailed : failedNames cfg s ≠ [] ∧ s.shutdownRequested = false
  · rw [if_pos hfailed]
    exact tracked_retryFailedBackends (fun _ ↦ rfl) (fun _ ↦ rfl) _
  · rw [if_neg hfailed]
    exact ⟨nonePending_of_asked (fun _ ↦ rfl) fun _ ↦ rfl, fun _ ↦ rfl⟩

theorem tracked_gatherRemoteResults (h : s.AllPending) :
    Tracked (enter (gatherRemoteResults cfg s)) := by
  rw [gatherRemoteResults]
  by_cases hremote : cfg.remoteItems = []
  · rw [if_pos hremote]
    exact tracked_endFirstPass
  · rw [if_neg hremote]
    exact h

theorem tracked_connectStdio (h : s.AllPending) (flag : Bool) (items : List String) :
    Tracked (enter (connectStdio cfg s flag items)) := by
  cases items with
  | nil => exact tracked_gatherRemoteResults h
  | cons n rest =>
    rw [connectStdio]
    cases flag with
    | true => exact tracked_gatherRemoteResults h
    | false =>
      refine ⟨h.launchPending [n], ?_⟩
      change (s.launch [n]).asked n ≠ none
      rw [asked_launch, if_pos (List.mem_singleton_self n)]
      exact Option.some_ne_none false

theorem tracked_buildAndConnectStdio (h : s.AllPending) (flag : Bool) :
    Tracked (enter (buildAndConnectStdio cfg s flag)) := by
  rw [buildAndConnectStdio]
  by_cases hparallel : cfg.parallel = true ∧ 1 < cfg.stdioItems.length
  · rw [if_pos hparallel]
    cases flag with
    | true => exact tracked_gatherRemoteResults h
    | false => exact h.launchPending cfg.stdioItems
  · rw [if_neg hparallel]
    exact tracked_connectStdio h flag cfg.stdioItems

theorem tracked_endRound (h : s.NonePending) (head : LoopHead) :
    Tracked (enter (endRound s head)) := by
  rw [endRound, enter]
  exact tracked_retryFailedBackends (s := { s with tasks := fun _ ↦ none })
    (fun n ↦ (h n).1) (fun _ ↦ rfl) _

theorem tracked_launchRetryTasks (h : s.NonePending) (head : LoopHead) :
    Tracked (enter (launchRetryTasks cfg s head)) := by
  rw [launchRetryTasks]
  by_cases hnone : retried cfg head = []
  · rw [if_pos hnone]
    exact tracked_endRound h head
  · rw [if_neg hnone]
    -- the retry tasks are new and not put into `_pending_tasks`
    intro n
    refine ⟨(h n).1, ?_⟩
    change (s.launch (retried cfg head)).asked n ≠ some true
    rw [asked_launch]
    by_cases hn : n ∈ retried cfg head
    · rw [if_pos hn]
      decide
    · rw [if_neg hn]
      exact (h n).2

theorem Tracked.resume (h : Tracked s) {p : State × Option LoopHead}
    (hp : advance cfg s = some p) : Tracked (enter p) := by
  rw [Tracked] at h
  rcases resumed_of_advance hp with
    hpc | ⟨hpc, -⟩ | ⟨hpc, -⟩ | ⟨hpc, -⟩ | hpc | hpc | hpc | ⟨hpc, -⟩
  all_goals rw [hpc] at h
  · exact tracked_buildAndConnectStdio h _
  · exact tracked_connectStdio h.1 _ _
  · exact tracked_gatherRemoteResults h
  · exact tracked_endFirstPass
  · exact h
  · exact tracked_launchRetryTasks h.1 _
  · exact tracked_launchRetryTasks h.1 _
  · exact tracked_endRound h _

theorem asked_cancelStartup (n : String) : (cancelStartup s).asked n = none ↔ s.asked n = none := by
  rw [State.asked, State.asked, cancelStartup, Option.map_eq_none_iff, Option.map_eq_none_iff,
    Option.map_eq_none_iff]

theorem tasks_cancelStartup_of_not_pending {n : String} (h : s.pending n = false) :
    (cancelStartup s).tasks n = s.tasks n := by
  have hid : ∀ t : Task, (if s.pending n = true ∧ t.done = false then
      { t with cancelRequested := true } else t) = t := by
    intro t
    rw [if_neg (by simp [h])]
  simp only [cancelStartup, hid, Option.map_id']

theorem Tracked.cancelStartup (h : Tracked s) : Tracked (cancelStartup s) := by
  have hall : s.AllPending → (Startup.cancelStartup s).AllPending := by
    intro hs n hn
    exact hs n (hn ∘ (asked_cancelStartup n).mpr)
  have hnone : s.NonePending → (Startup.cancelStartup s).NonePending := by
    intro hs n
    refine ⟨(hs n).1, ?_⟩
    rw [State.asked, tasks_cancelStartup_of_not_pending (hs n).1]
    exact (hs n).2
  have hempty : (∀ n, s.asked n = none) → ∀ n, (Startup.cancelStartup s).asked n = none :=
    fun hs n ↦ (asked_cancelStartup n).mpr (hs n)
  have hpc' : (Startup.cancelStartup s).pc = s.pc := rfl
  rw [Tracked] at h ⊢
  rw [hpc']
  cases hpc : s.pc with
  | yielding | stdioParallel | gathering =>
    rw [hpc] at h
    exact hall h
  | stdioSequential flag current rest =>
    rw [hpc] at h
    exact ⟨hall h.1, h.2 ∘ (asked_cancelStartup current).mp⟩
  | delaying a failed k | awaitingAuth a failed k =>
    rw [hpc] at h
    exact ⟨hnone h.1, hempty h.2⟩
  | retrying a failed k =>
    rw [hpc] at h
    exact hnone h
  | returned =>
    rw [hpc] at h
    exact ⟨hnone h.1, hempty h.2⟩

theorem tracked_startAll (cfg : Config) : Tracked (startAll cfg) := by
  have hall : (State.fresh.launchPending cfg.remoteItems).AllPending :=
    State.AllPending.launchPending (fun _ hn ↦ absurd rfl hn) _
  rw [startAll]
  by_cases hremote : cfg.remoteItems = []
  · rw [if_pos hremote]
    exact tracked_buildAndConnectStdio hall false
  · rw [if_neg hremote]
    exact hall

theorem Tracked.step (h : Tracked s) {e : Event} (hstep : step cfg s e = some m) : Tracked m := by
  by_cases hresume : e = .resume
  · subst hresume
    obtain ⟨p, hp, rfl⟩ := step_resume.mp hstep
    exact h.resume hp
  · by_cases hcancel : e = .cancelStartup
    · subst hcancel
      exact Option.some.inj hstep ▸ h.cancelStartup
    · exact (frame_of_step hstep hresume hcancel).tracked h

theorem tracked_of_run {tr : List Event} (h : Run.run (step cfg) (startAll cfg) tr = some s) :
    Tracked s :=
  Run.inv_of_run (fun _ _ _ ht hstep ↦ ht.step hstep) (tracked_startAll cfg) h

end Tracked

/-! ## Stopping -/

section Stopping

variable {cfg : Config} {s m : State}

/-- What `cancel_startup` promises at a point of `start_all`: every task that is not done is
cancelled, and no call of `start_one` begins afterwards. -/
def StopsStartup (cfg : Config) (s : State) : Prop :=
  (∀ n t, (cancelStartup s).tasks n = some t → t.done = true ∨ t.cancelRequested = true) ∧
    ∀ tr : List Event, (Run.run (step cfg) (cancelStartup s) tr).isSome → ∀ n, .begin n ∉ tr

/-- Nothing further is launched behind the point, whatever becomes of the flag from here on. -/
def LaunchesNothing (cfg : Config) : Pc → Prop
  | .stdioSequential flag _ rest => flag = true ∨ rest = []
  | .delaying a failed k => retried cfg ⟨a, failed, k⟩ = []
  | .awaitingAuth a failed k => retried cfg ⟨a, failed, k⟩ = []
  | _ => True

/-- No stdio backend is left to go through one by one, no retry is due after a delay or an auth
discovery, and no retry task is unfinished. -/
def Stoppable (cfg : Config) (s : State) : Prop :=
  match s.pc with
  | .retrying _ _ _ => ∀ n t, s.tasks n = some t → t.done = true
  | pc => LaunchesNothing cfg pc

/-- Every task is done or cancelled, and no further one is launched. -/
structure Stopped (cfg : Config) (s : State) : Prop where
  requested : s.shutdownRequested = true
  cancelled : ∀ n t, s.tasks n = some t → t.done = true ∨ t.cancelRequested = true
  launches : LaunchesNothing cfg s.pc

theorem stopped_endFirstPass (h : s.shutdownRequested = true) :
    Stopped cfg (enter (endFirstPass cfg s)) := by
  have hhead : ¬(failedNames cfg s ≠ [] ∧ s.shutdownRequested = false) := by
    rw [h]
    exact Bool.noConfusion ∘ And.right
  rw [endFirstPass, if_neg hhead]
  exact ⟨h, fun _ _ ht ↦ absurd ht.symm (Option.some_ne_none _), trivial⟩

theorem stopped_gatherRemoteResults (h : s.shutdownRequested = true)
    (hcancelled : ∀ n t, s.tasks n = some t → t.done = true ∨ t.cancelRequested = true) :
    Stopped cfg (enter (gatherRemoteResults cfg s)) := by
  rw [gatherRemoteResults]
  by_cases hremote : cfg.remoteItems = []
  · rw [if_pos hremote]
    exact stopped_endFirstPass h
  · rw [if_neg hremote]
    exact ⟨h, hcancelled, trivial⟩

theorem retryFailedBackends_of_requested (h : s.shutdownRequested = true) (head : LoopHead) :
    retryFailedBackends s head = { s with pc := .returned } := by
  have hgo : head.goesOn s ≠ true := by
    rw [LoopHead.goesOn, h, Bool.not_true, Bool.and_false]
    exact Bool.false_ne_true
  rw [retryFailedBackends, if_neg hgo]

theorem launchRetryTasks_of_nil {head : LoopHead} (h : retried cfg head = []) :
    launchRetryTasks cfg s head = endRound s head := if_pos h

theorem stopped_endRound (h : s.shutdownRequested = true) (head : LoopHead) :
    Stopped cfg (enter (endRound s head)) := by
  change Stopped cfg (retryFailedBackends { s with tasks := fun _ ↦ none } _)
  rw [retryFailedBackends_of_requested (s := { s with tasks := fun _ ↦ none }) h]
  exact ⟨h, fun _ _ ht ↦ absurd ht.symm (Option.some_ne_none _), trivial⟩

theorem Stopped.resume (h : Stopped cfg s) {p : State × Option LoopHead}
    (hp : advance cfg s = some p) : Stopped cfg (enter p) := by
  have hlaunches := h.launches
  rcases resumed_of_advance hp with hpc | @⟨flag, current, rest, hpc, -⟩ | ⟨hpc, -⟩ | ⟨hpc, -⟩ |
    hpc | hpc | hpc | ⟨hpc, -⟩
  all_goals rw [hpc] at hlaunches
  · -- the flag is read here, and set
    rw [buildAndConnectStdio, h.requested]
    by_cases hparallel : cfg.parallel = true ∧ 1 < cfg.stdioItems.length
    · rw [if_pos hparallel]
      exact stopped_gatherRemoteResults h.requested h.cancelled
    · rw [if_neg hparallel]
      rcases cfg.stdioItems with _ | ⟨n, rest⟩
      · exact stopped_gatherRemoteResults h.requested h.cancelled
      · exact stopped_gatherRemoteResults h.requested h.cancelled
  · -- the flag was read before, and so nothing may be left or it was set then already
    rcases rest with _ | ⟨n, rest⟩
    · exact stopped_gatherRemoteResults h.requested h.cancelled
    · rcases hlaunches with hflag | hrest
      · rw [connectStdio, if_pos hflag]
        exact stopped_gatherRemoteResults h.requested h.cancelled
      · exact absurd hrest (List.cons_ne_nil n rest)
  · exact stopped_gatherRemoteResults h.requested h.cancelled
  · exact stopped_endFirstPass h.requested
  · exact ⟨h.requested, h.cancelled, hlaunches⟩
  · rw [launchRetryTasks_of_nil hlaunches]
    exact stopped_endRound h.requested _
  · rw [launchRetryTasks_of_nil hlaunches]
    exact stopped_endRound h.requested _
  · exact stopped_endRound h.requested _

theorem Stopped.setStage (h : Stopped cfg s) {n : String} {t : Task} {o : Outcome} {tasks}
    (htasks : tasks = Function.update s.tasks n (some { t with stage := .finished o }))
    (k : String) (t' : Task) (ht' : tasks k = some t') :
    t'.done = true ∨ t'.cancelRequested = true := by
  rw [htasks, Function.update_apply] at ht'
  by_cases hk : k = n
  · rw [if_pos hk, Option.some.injEq] at ht'
    exact ht' ▸ Or.inl rfl
  · rw [if_neg hk] at ht'
    exact h.cancelled k t' ht'

/-- Once everything is stopped, it stays so, and no call of `start_one` begins. -/
theorem Stopped.step (h : Stopped cfg s) {e : Event} (hstep : step cfg s e = some m) :
    Stopped cfg m ∧ ∀ n, e ≠ .begin n := by
  cases e with
  | begin n =>
    -- a task that waits is not done, so it has been cancelled and cannot begin
    obtain ⟨ht, -⟩ := step_begin.mp hstep
    obtain hdone | hcancel := h.cancelled n _ ht
    · exact absurd hdone Bool.false_ne_true
    · exact absurd hcancel Bool.false_ne_true
  | cancelDelivered n =>
    obtain ⟨ht, rfl⟩ := step_cancelDelivered.mp hstep
    exact ⟨⟨h.requested, h.setStage rfl, h.launches⟩, fun _ ↦ Event.noConfusion⟩
  | ends n o =>
    obtain ⟨c, ht, rfl⟩ := step_ends.mp hstep
    refine ⟨⟨?_, h.setStage (tasks_endCall _ _ _), ?_⟩, fun _ ↦ Event.noConfusion⟩
    · exact (shutdownRequested_endCall _ n o).trans h.requested
    · exact (pc_endCall (s.setStage n ⟨.running, c⟩ (.finished o)) n o).symm ▸ h.launches
  | authBegins n =>
    obtain ⟨c, -, rfl⟩ := step_authBegins.mp hstep
    exact ⟨⟨h.requested, h.cancelled, h.launches⟩, fun _ ↦ Event.noConfusion⟩
  | authDone n =>
    obtain ⟨-, rfl⟩ := step_authDone.mp hstep
    exact ⟨⟨h.requested, h.cancelled, h.launches⟩, fun _ ↦ Event.noConfusion⟩
  | resume =>
    obtain ⟨p, hp, rfl⟩ := step_resume.mp hstep
    exact ⟨h.resume hp, fun _ ↦ Event.noConfusion⟩
  | cancelStartup =>
    obtain rfl := Option.some.inj hstep
    refine ⟨⟨rfl, fun n t ht ↦ ?_, h.launches⟩, fun _ ↦ Event.noConfusion⟩
    obtain ⟨t, hs, rfl⟩ := Option.map_eq_some_iff.mp ht
    by_cases hpending : s.pending n = true ∧ t.done = false
    · rw [if_pos hpending]
      exact Or.inr rfl
    · rw [if_neg hpending]
      exact h.cancelled n t hs

theorem Stopped.run (h : Stopped cfg s) {tr : List Event}
    (hrun : (Run.run (Startup.step cfg) s tr).isSome) (n : String) : .begin n ∉ tr := by
  induction tr generalizing s with
  | nil => exact List.not_mem_nil
  | cons e tr ih =>
    obtain ⟨m, hm⟩ := Option.isSome_iff_exists.mp hrun
    obtain ⟨s', hs', hm⟩ := Run.run_cons_eq_some.mp hm
    obtain ⟨hstopped, hne⟩ := h.step hs'
    rw [List.mem_cons, not_or]
    exact ⟨(hne n).symm, ih hstopped (Option.isSome_iff_exists.mpr ⟨m, hm⟩)⟩

theorem Tracked.stopped (h : Tracked s) (hs : Stoppable cfg s) :
    Stopped cfg (Startup.cancelStartup s) := by
  -- in the first pass every task is pending, and the call reaches all that are not done
  have hall : s.AllPending → ∀ n t, (Startup.cancelStartup s).tasks n = some t →
      t.done = true ∨ t.cancelRequested = true := by
    intro hpending n t ht
    obtain ⟨t, hn, rfl⟩ := Option.map_eq_some_iff.mp ht
    have hasked : s.asked n ≠ none := by
      rw [State.asked, hn]
      exact Option.some_ne_none _
    cases hdone : t.done with
    | true =>
      rw [if_neg (by simp)]
      exact Or.inl hdone
    | false =>
      rw [if_pos ⟨hpending n hasked, rfl⟩]
      exact Or.inr rfl
  -- between the rounds there are no tasks
  have hempty : (∀ n, s.asked n = none) → ∀ n t, (Startup.cancelStartup s).tasks n = some t →
      t.done = true ∨ t.cancelRequested = true := by
    intro hnone n t ht
    have hasked := (asked_cancelStartup n).mpr (hnone n)
    rw [State.asked, ht] at hasked
    exact absurd hasked (Option.some_ne_none _)
  rw [Tracked] at h
  rw [Stoppable] at hs
  refine ⟨rfl, ?_, ?_⟩
  · cases hpc : s.pc with
    | yielding | stdioParallel | gathering =>
      rw [hpc] at h
      exact hall h
    | stdioSequential flag current rest =>
      rw [hpc] at h
      exact hall h.1
    | delaying a failed k | awaitingAuth a failed k | returned =>
      rw [hpc] at h
      exact hempty h.2
    | retrying a failed k =>
      -- a retry task is not pending and stays as it is: here the condition is used
      rw [hpc] at h hs
      intro n t ht
      rw [tasks_cancelStartup_of_not_pending (h n).1] at ht
      exact Or.inl (hs n t ht)
  · change LaunchesNothing cfg s.pc
    cases hpc : s.pc with
    | retrying a failed k => trivial
    | yielding | stdioParallel | gathering | stdioSequential flag current rest
    | delaying a failed k | awaitingAuth a failed k | returned =>
      rw [hpc] at hs
      exact hs

/-- A run from a state in which a call of `start_one` begins. -/
def Launches (cfg : Config) (s : State) : Prop :=
  ∃ tr n, (Run.run (step cfg) s tr).isSome ∧ .begin n ∈ tr

theorem Launches.of_step {e : Event} (h : step cfg s e = some m) (hm : Launches cfg m) :
    Launches cfg s := by
  obtain ⟨tr, n, hrun, hn⟩ := hm
  refine ⟨e :: tr, n, ?_, List.mem_cons_of_mem e hn⟩
  rw [Run.run, h]
  exact hrun

theorem launches_of_waiting {n : String} (h : s.tasks n = some ⟨.waiting, false⟩) :
    Launches cfg s := by
  refine ⟨[.begin n], n, ?_, List.mem_singleton_self _⟩
  rw [Run.run, step_begin.mpr ⟨h, rfl⟩]
  rfl

theorem launches_of_rest {current n : String} {rest : List String} {t : Task}
    (hpc : s.pc = .stdioSequential false current (n :: rest)) (ht : s.tasks current = some t) :
    Launches cfg s := by
  -- once the task is done
  have hdone : ∀ {m : State} {t : Task}, m.pc = .stdioSequential false current (n :: rest) →
      m.tasks current = some t → t.done = true → Launches cfg m := by
    intro m t hpc ht hdone
    have hfinished : m.finished current = true := by
      rw [State.finished, ht]
      exact hdone
    have hadvance : advance cfg m = some
        ({ m.launchPending [n] with pc := .stdioSequential false n rest }, none) := by
      rw [advance, hpc]
      exact if_pos hfinished
    refine Launches.of_step (step_resume.mpr ⟨_, hadvance, rfl⟩) (launches_of_waiting (n := n) ?_)
    change (m.launch [n]).tasks n = _
    rw [tasks_launch, if_pos (List.mem_singleton_self n)]
  obtain ⟨stage, c⟩ := t
  cases stage with
  | finished o => exact hdone hpc ht rfl
  -- it has been cancelled, or else it begins itself
  | waiting =>
    cases c with
    | false => exact launches_of_waiting ht
    | true =>
      refine Launches.of_step (step_cancelDelivered.mpr ⟨ht, rfl⟩)
        (hdone (t := ⟨.finished .cancelled, true⟩) hpc ?_ rfl)
      exact Function.update_self current _ _
  | running =>
    -- however the call ends, the next backend is launched
    refine Launches.of_step ((step_ends (o := .exception)).mpr ⟨c, ht, rfl⟩)
      (hdone (t := ⟨.finished .exception, c⟩) hpc ?_ rfl)
    exact Function.update_self current _ _

/-- A retry that is due is launched whatever becomes of the auth discoveries. -/
theorem launches_of_retried (head : LoopHead) (h : retried cfg head ≠ [])
    (hpc : s.pc = .delaying head.attempt head.failed head.maxRetries ∨
      s.pc = .awaitingAuth head.attempt head.failed head.maxRetries) : Launches cfg s := by
  obtain ⟨n, hn⟩ := List.exists_mem_of_ne_nil _ h
  have hlaunch : ∀ m : State, advance cfg m = some (launchRetryTasks cfg m head) →
      Launches cfg m := by
    intro m hm
    refine Launches.of_step (step_resume.mpr ⟨_, hm, rfl⟩) (launches_of_waiting (n := n) ?_)
    rw [launchRetryTasks, if_neg h]
    change (m.launch (retried cfg head)).tasks n = _
    rw [tasks_launch, if_pos hn]
  have hawaiting : ∀ m : State,
      m.pc = .awaitingAuth head.attempt head.failed head.maxRetries → Launches cfg m := by
    intro m hpc
    refine hlaunch m ?_
    rw [advance, hpc]
  obtain hpc | hpc := hpc
  · by_cases hauth : head.failed.any s.authPending = true
    · have hadvance : advance cfg s = some
          ({ s with pc := .awaitingAuth head.attempt head.failed head.maxRetries }, none) := by
        rw [advance, hpc]
        exact if_pos hauth
      exact Launches.of_step (step_resume.mpr ⟨_, hadvance, rfl⟩) (hawaiting _ rfl)
    · refine hlaunch s ?_
      rw [advance, hpc]
      exact if_neg hauth
  · exact hawaiting s hpc

theorem Tracked.stoppable (h : Tracked s) (hs : StopsStartup cfg s) : Stoppable cfg s := by
  obtain ⟨hcancelled, hbegin⟩ := hs
  have hnone : ¬Launches cfg (Startup.cancelStartup s) := by
    rintro ⟨tr, n, hrun, hn⟩
    exact hbegin tr hrun n hn
  rw [Tracked] at h
  rw [Stoppable]
  cases hpc : s.pc with
  | yielding | stdioParallel | gathering | returned => trivial
  | stdioSequential flag current rest =>
    rw [hpc] at h
    cases flag with
    | true => exact Or.inl rfl
    | false =>
      cases rest with
      | nil => exact Or.inr rfl
      | cons n rest =>
        -- the task that is waited for is there, also after the call
        have hasked := h.2 ∘ (asked_cancelStartup current).mp
        obtain ⟨t, ht⟩ := Option.ne_none_iff_exists'.mp (hasked ∘ Option.map_eq_none_iff.mpr)
        exact absurd (launches_of_rest (s := Startup.cancelStartup s) hpc ht) hnone
  | delaying a failed k =>
    by_contra hretried
    exact hnone (launches_of_retried (s := Startup.cancelStartup s) ⟨a, failed, k⟩
      hretried (Or.inl hpc))
  | awaitingAuth a failed k =>
    by_contra hretried
    exact hnone (launches_of_retried (s := Startup.cancelStartup s) ⟨a, failed, k⟩
      hretried (Or.inr hpc))
  | retrying a failed k =>
    rw [hpc] at h
    -- the call leaves a retry task alone, which therefore must be done already
    intro n t ht
    obtain hdone | hasked := hcancelled n t (tasks_cancelStartup_of_not_pending (h n).1 ▸ ht)
    · exact hdone
    · refine absurd ?_ (h n).2
      rw [State.asked, ht, Option.map_some, hasked]

/-- **Stopping the start-up.** At any point of `start_all`, `cancel_startup` cancels every task that
is not done and keeps every further call of `start_one` from beginning exactly if no stdio backend
is left to be gone through one by one, no failed backend is due for a retry after the delay or the
auth discoveries `start_all` is in, and no retry task is unfinished. -/
theorem stopsStartup_iff {tr : List Event} (h : Run.run (step cfg) (startAll cfg) tr = some s) :
    StopsStartup cfg s ↔ Stoppable cfg s := by
  have htracked := tracked_of_run h
  constructor
  · exact htracked.stoppable
  · intro hs
    have hstopped := htracked.stopped hs
    exact ⟨hstopped.cancelled, fun _ hrun n ↦ hstopped.run hrun n⟩

end Stopping

section Example

/-- Two stdio backends, gone through one by one. -/
def filesThenWeb : Config where
  backends := Dict.ofList [("files", ⟨.stdio, none⟩), ("web", ⟨.stdio, none⟩)]
  parallel := false

/-- The first backend has been connected, and the second one is being connected. -/
def lastOfTwo : List Event := [.begin "files", .ends "files" .success, .resume, .begin "web"]

theorem stopsStartup_lastOfTwo :
    ∃ s, Run.run (step filesThenWeb) (startAll filesThenWeb) lastOfTwo = some s ∧
      StopsStartup filesThenWeb s := by
  have hrun := Run.run_eq_some_getD
    (show (Run.run (step filesThenWeb) (startAll filesThenWeb) lastOfTwo).isSome by decide)
    (startAll filesThenWeb)
  exact ⟨_, hrun, (stopsStartup_iff hrun).mpr (Or.inr rfl)⟩

/-- When `cancel_startup` is called while the first backend is being connected, its task ends and
the call of `start_one` for the second one begins. -/
theorem not_stopsStartup_filesThenWeb :
    ¬∀ (cfg : Config) (tr : List Event) (s : State),
      Run.run (step cfg) (startAll cfg) tr = some s → StopsStartup cfg s := by
  intro h
  obtain ⟨-, hbegin⟩ := h filesThenWeb [.begin "files"] _
    (Run.run_eq_some_getD (by decide) (startAll filesThenWeb))
  exact hbegin [.ends "files" .cancelled, .resume, .begin "web"] (by decide) "web" (by decide)

end Example

end Startup

end ArgusMcp
