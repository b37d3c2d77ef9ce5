import ArgusMcp.Library.Run

/-!
# The subprocess of a backend

`manage_subproc` starts a child, hands it to the body of the `async with`, and cleans up when the
body is over, however that came. The cleanup waits three times: for the tasks that log what the child
writes, for the child after SIGTERM, and for the child after SIGKILL. At each of these places the
task may be cancelled. What is between two of them happens at once.

## What is not caught

`terminate_subproc` sends SIGKILL when three seconds have passed. A cancellation is no
`TimeoutError`, and no `Exception` either: it goes on to the caller, and the child goes on running
if it takes no notice of SIGTERM. If the cancellation comes while the tasks are waited for, not even
that has been sent (`never_orphan_iff`).
-/

namespace ArgusMcp

namespace Subprocess

inductive Child where
  | absent
  | running
  | exited
  deriving DecidableEq

inductive Point where
  /-- In `create_subprocess_exec`. -/
  | starting
  /-- The body of the `async with` has the child. -/
  | body
  /-- In `cancel_stream_loggers`, with both tasks. -/
  | gathering
  /-- In `wait_for(process.wait(), 3.0)`. -/
  | terminating
  /-- In `process.wait()` after SIGKILL. -/
  | killed
  | left
  deriving DecidableEq

structure State where
  point : Point
  child : Child
  /-- `returncode` is not `None`. -/
  returncode : Bool
  sigterm : Bool
  sigkill : Bool
  deriving DecidableEq

def init : State := ⟨.starting, .absent, false, false, false⟩

/-- How a signal is sent: with `terminate()` or `kill()`. -/
inductive Signalled where
  | sent
  /-- `ProcessLookupError`: there is no such process. -/
  | lookupError
  /-- Any other exception, such as `PermissionError`. -/
  | failed
  deriving DecidableEq

/-- How the body ends. -/
inductive Outcome where
  | returned
  | raised
  | cancelled
  deriving DecidableEq

inductive Event where
  /-- The child exits. -/
  | exit
  /-- The event loop takes note of it. -/
  | reap
  /-- The child has been started, or could not be. -/
  | started (ok : Bool)
  | bodyOver (outcome : Outcome)
  /-- The tasks are over; if `returncode` is `None`, SIGTERM is sent next. -/
  | gathered (signal : Signalled)
  /-- The child has been waited for. -/
  | waited
  /-- Three seconds have passed, and SIGKILL is sent. -/
  | timeout (signal : Signalled)
  /-- A cancellation arrives where the task waits in its cleanup. -/
  | cancel
  deriving DecidableEq

def State.leave (s : State) : State := { s with point := .left }

/-- There is no such process only if the child has exited. -/
def Signalled.possible (s : State) : Signalled → Bool
  | lookupError => s.child = .exited
  | sent | failed => true

/-- `manage_subproc`, step by step, with what may happen around it. -/
def step (s : State) : Event → Option State
  | .exit => if s.point ≠ .left ∧ s.child = .running then some { s with child := .exited } else none
  | .reap =>
    if s.point ≠ .left ∧ s.child = .exited ∧ s.returncode = false then
      some { s with returncode := true }
    else none
  | .started ok =>
    if s.point = .starting then
      some (if ok then { s with point := .body, child := .running } else s.leave)
    else none
  | .bodyOver _ => if s.point = .body then some { s with point := .gathering } else none
  | .gathered signal =>
    if s.point = .gathering ∧ signal.possible s then
      if s.returncode then some s.leave
      else
        match signal with
        | .sent => some { s with point := .terminating, sigterm := true }
        | .lookupError => some s.leave
        -- the last `except` logs the error and is done
        | .failed => some s.leave
    else none
  | .waited =>
    if (s.point = .terminating ∨ s.point = .killed) ∧ s.returncode then some s.leave else none
  | .timeout signal =>
    if s.point = .terminating ∧ signal.possible s then
      match signal with
      | .sent => some { s with point := .killed, sigkill := true }
      -- raised within an `except`, so no other one sees it
      | .lookupError | .failed => some s.leave
    else none
  | .cancel =>
    if s.point = .gathering ∨ s.point = .terminating ∨ s.point = .killed then some s.leave else none

/-- The manager has been left, the child runs, and SIGKILL has not been sent. -/
def Orphan (s : State) : Prop := s.point = .left ∧ s.child = .running ∧ s.sigkill = false

instance : DecidablePred Orphan := fun s ↦
  inferInstanceAs (Decidable (s.point = .left ∧ s.child = .running ∧ s.sigkill = false))

/-- While the child runs, no cancellation arrives before SIGKILL has been sent, and no signal
fails. -/
def Undisturbed (s : State) (e : Event) : Prop :=
  s.child = .running →
    ¬ (e = .cancel ∧ (s.point = .gathering ∨ s.point = .terminating)) ∧
      ¬ (e = .gathered .failed ∧ s.point = .gathering) ∧
      ¬ (e = .timeout .failed ∧ s.point = .terminating)

instance (s : State) (e : Event) : Decidable (Undisturbed s e) :=
  inferInstanceAs (Decidable (s.child = .running →
    ¬ (e = .cancel ∧ (s.point = .gathering ∨ s.point = .terminating)) ∧
      ¬ (e = .gathered .failed ∧ s.point = .gathering) ∧
      ¬ (e = .timeout .failed ∧ s.point = .terminating)))

/-! ## Steps -/

/-- The ways to leave the manager. -/
inductive Leaves (s : State) : Event → Prop
  | notStarted (h : s.point = .starting) : Leaves s (.started false)
  | over (signal : Signalled) (h : s.point = .gathering) (hover : s.returncode = true) :
      Leaves s (.gathered signal)
  | lookupError (h : s.point = .gathering) (hexited : s.child = .exited) :
      Leaves s (.gathered .lookupError)
  | failed (h : s.point = .gathering) : Leaves s (.gathered .failed)
  | waited (hover : s.returncode = true) : Leaves s .waited
  | killLookupError (h : s.point = .terminating) (hexited : s.child = .exited) :
      Leaves s (.timeout .lookupError)
  | killFailed (h : s.point = .terminating) : Leaves s (.timeout .failed)
  | cancel (h : s.point = .gathering ∨ s.point = .terminating ∨ s.point = .killed) :
      Leaves s .cancel

/-- What one step can do. -/
inductive Steps (s : State) : Event → State → Prop
  | exit (hleft : s.point ≠ .left) (hrunning : s.child = .running) :
      Steps s .exit { s with child := .exited }
  | reap (hleft : s.point ≠ .left) (hexited : s.child = .exited) :
      Steps s .reap { s with returncode := true }
  | started (h : s.point = .starting) :
      Steps s (.started true) { s with point := .body, child := .running }
  | bodyOver (outcome : Outcome) (h : s.point = .body) :
      Steps s (.bodyOver outcome) { s with point := .gathering }
  | terminate (h : s.point = .gathering) :
      Steps s (.gathered .sent) { s with point := .terminating, sigterm := true }
  | kill (h : s.point = .terminating) :
      Steps s (.timeout .sent) { s with point := .killed, sigkill := true }
  | leave {e : Event} (h : Leaves s e) : Steps s e s.leave

theorem steps_of_step {s m : State} {e : Event} (hstep : step s e = some m) : Steps s e m := by
  rw [step.eq_def] at hstep
  rcases e with _ | _ | ok | outcome | signal | _ | signal | _ <;> dsimp only at hstep
  · obtain ⟨h, hm⟩ := Option.ite_none_right_eq_some.mp hstep
    obtain rfl := Option.some.inj hm
    exact .exit h.1 h.2
  · obtain ⟨h, hm⟩ := Option.ite_none_right_eq_some.mp hstep
    obtain rfl := Option.some.inj hm
    exact .reap h.1 h.2.1
  · obtain ⟨h, hm⟩ := Option.ite_none_right_eq_some.mp hstep
    obtain rfl := Option.some.inj hm
    rcases ok
    · exact .leave (.notStarted h)
    · exact .started h
  · obtain ⟨h, hm⟩ := Option.ite_none_right_eq_some.mp hstep
    obtain rfl := Option.some.inj hm
    exact .bodyOver outcome h
  · obtain ⟨⟨h, hpossible⟩, hm⟩ := Option.ite_none_right_eq_some.mp hstep
    by_cases hover : s.returncode = true
    · rw [if_pos hover] at hm
      obtain rfl := Option.some.inj hm
      exact .leave (.over signal h hover)
    · rw [if_neg hover] at hm
      rcases signal <;> obtain rfl := Option.some.inj hm
      · exact .terminate h
      · exact .leave (.lookupError h (of_decide_eq_true hpossible))
      · exact .leave (.failed h)
  · obtain ⟨h, hm⟩ := Option.ite_none_right_eq_some.mp hstep
    obtain rfl := Option.some.inj hm
    exact .leave (.waited h.2)
  · obtain ⟨⟨h, hpossible⟩, hm⟩ := Option.ite_none_right_eq_some.mp hstep
    rcases signal <;> obtain rfl := Option.some.inj hm
    · exact .kill h
    · exact .leave (.killLookupError h (of_decide_eq_true hpossible))
    · exact .leave (.killFailed h)
  · obtain ⟨h, hm⟩ := Option.ite_none_right_eq_some.mp hstep
    obtain rfl := Option.some.inj hm
    exact .leave (.cancel h)

/-- What is known wherever the task is. -/
structure Coherent (s : State) : Prop where
  absent : s.point = .starting → s.child = .absent
  exited : s.returncode = true → s.child = .exited
  killed : s.point = .killed → s.sigkill = true
  signalled : s.sigkill = true → s.point = .killed ∨ s.point = .left

theorem coherent_init : Coherent init where
  absent _ := rfl
  exited h := absurd h (by decide)
  killed h := absurd h (by decide)
  signalled h := absurd h (by decide)

variable {s m : State} {e : Event}

theorem Coherent.leave (h : Coherent s) : Coherent s.leave where
  absent h' := absurd h' (by simp [State.leave])
  exited := h.exited
  killed h' := absurd h' (by simp [State.leave])
  signalled _ := .inr rfl

/-- Where the manager is left, all depends on the child. -/
theorem orphan_leave_iff : Orphan s.leave ↔ s.child = .running ∧ s.sigkill = false :=
  and_iff_right rfl

theorem not_orphan_of_ne (h : s.point ≠ .left) : ¬ Orphan s := fun horphan ↦ h horphan.1

theorem sigkill_eq_false (h : Coherent s) (hkilled : s.point ≠ .killed) (hleft : s.point ≠ .left) :
    s.sigkill = false := by
  rcases hsigkill : s.sigkill
  · rfl
  · exact absurd (h.signalled hsigkill) (not_or.mpr ⟨hkilled, hleft⟩)

theorem Coherent.of_point (hreaped : m.returncode = true → m.child = .exited)
    (hsigkill : m.sigkill = false) (hstarting : m.point ≠ .starting) (hkilled : m.point ≠ .killed) :
    Coherent m where
  absent h := absurd h hstarting
  exited := hreaped
  killed h := absurd h hkilled
  signalled h := absurd (h.symm.trans hsigkill) (by decide)

theorem coherent_of_step (h : Coherent s) (hstep : step s e = some m) : Coherent m := by
  rcases steps_of_step hstep with ⟨hleft, hrunning⟩ | ⟨hleft, hexited⟩ | hpoint |
    ⟨outcome, hpoint⟩ | hpoint | hpoint | hleaves
  · refine ⟨fun hpoint ↦ ?_, fun _ ↦ rfl, h.killed, h.signalled⟩
    exact absurd (hrunning.symm.trans (h.absent hpoint)) (by decide)
  · exact ⟨h.absent, fun _ ↦ hexited, h.killed, h.signalled⟩
  · have hsigkill := sigkill_eq_false h (by simp [hpoint]) (by simp [hpoint])
    refine .of_point (fun hreaped ↦ ?_) hsigkill (by simp) (by simp)
    exact absurd ((h.exited hreaped).symm.trans (h.absent hpoint)) (by decide)
  · have hsigkill := sigkill_eq_false h (by simp [hpoint]) (by simp [hpoint])
    exact .of_point h.exited hsigkill (by simp) (by simp)
  · have hsigkill := sigkill_eq_false h (by simp [hpoint]) (by simp [hpoint])
    exact .of_point h.exited hsigkill (by simp) (by simp)
  · exact ⟨fun hstarting ↦ absurd hstarting (by simp), h.exited, fun _ ↦ rfl, fun _ ↦ .inl rfl⟩
  · exact h.leave

theorem not_orphan_leave_iff (h : Coherent s) (hleaves : Leaves s e) :
    ¬ Orphan s.leave ↔ Undisturbed s e := by
  rw [orphan_leave_iff, Undisturbed]
  rcases hleaves with hpoint | ⟨signal, hpoint, hover⟩ | ⟨hpoint, hexited⟩ | hpoint | hover |
    ⟨hpoint, hexited⟩ | hpoint | hpoint
  · simp [h.absent hpoint]
  · simp [h.exited hover]
  · simp [hexited]
  · simp [hpoint, sigkill_eq_false h]
  · simp [h.exited hover]
  · simp [hexited]
  · simp [hpoint, sigkill_eq_false h]
  · rcases hpoint with hpoint | hpoint | hpoint
    · simp [hpoint, sigkill_eq_false h]
    · simp [hpoint, sigkill_eq_false h]
    · simp [hpoint, h.killed]

theorem not_orphan_iff_of_step (h : Coherent s) (hstep : step s e = some m) :
    ¬ Orphan m ↔ Undisturbed s e := by
  rcases steps_of_step hstep with ⟨hleft, hrunning⟩ | ⟨hleft, hexited⟩ | hpoint |
    ⟨outcome, hpoint⟩ | hpoint | hpoint | hleaves
  · exact iff_of_true (not_orphan_of_ne hleft) (by simp [Undisturbed])
  · exact iff_of_true (not_orphan_of_ne hleft) (by simp [Undisturbed])
  · exact iff_of_true (not_orphan_of_ne (by simp)) (by simp [Undisturbed])
  · exact iff_of_true (not_orphan_of_ne (by simp)) (by simp [Undisturbed])
  · exact iff_of_true (not_orphan_of_ne (by simp)) (by simp [Undisturbed])
  · exact iff_of_true (not_orphan_of_ne (by simp)) (by simp [Undisturbed])
  · exact not_orphan_leave_iff h hleaves

/-- What disturbs the cleanup is possible wherever it would. -/
theorem undisturbed_of_step_eq_none (hstep : step s e = none) : Undisturbed s e := by
  refine fun _ ↦ ⟨?_, ?_, ?_⟩
  · rintro ⟨rfl, hpoint⟩
    have hpossible : s.point = .gathering ∨ s.point = .terminating ∨ s.point = .killed :=
      hpoint.elim .inl fun h ↦ .inr (.inl h)
    rw [step, if_pos hpossible] at hstep
    exact Option.some_ne_none _ hstep
  · rintro ⟨rfl, hpoint⟩
    rw [step.eq_def] at hstep
    dsimp only at hstep
    rw [if_pos ⟨hpoint, rfl⟩] at hstep
    split at hstep <;> exact Option.some_ne_none _ hstep
  · rintro ⟨rfl, hpoint⟩
    rw [step.eq_def] at hstep
    dsimp only at hstep
    rw [if_pos ⟨hpoint, rfl⟩] at hstep
    exact Option.some_ne_none _ hstep

/-! ## Runs -/

/-- **When no child is left behind.** Whatever happens, and however the body ends: the manager is
never left with a child that runs and has not been sent SIGKILL exactly if, as long as the child
runs, no cancellation arrives in the cleanup before SIGKILL, and no signal fails. -/
theorem never_orphan_iff (events : List Event) :
    (∀ before s, before <+: events → Run.run step init before = some s → ¬ Orphan s) ↔
      Run.Guarded step Undisturbed init events := by
  refine Run.forall_reached_iff_guarded (fun s e m h _ hstep ↦ ?_) (fun s e _ _ hstep ↦ ?_)
    coherent_init (by decide)
  · exact ⟨coherent_of_step h hstep, not_orphan_iff_of_step h hstep⟩
  · exact undisturbed_of_step_eq_none hstep

/-- The stack of a backend is closed with a time limit that is over before the three seconds are. -/
theorem not_forall_never_orphan : ¬ ∀ (events before : List Event) (s : State),
    before <+: events → Run.run step init before = some s → ¬ Orphan s := by
  intro h
  have horphan := h [.started true, .bodyOver .returned, .gathered .sent, .cancel]
    [.started true, .bodyOver .returned, .gathered .sent, .cancel]
    ⟨.left, .running, false, true, false⟩ (List.prefix_refl _) (by decide)
  exact horphan (by decide)

end Subprocess

end ArgusMcp
