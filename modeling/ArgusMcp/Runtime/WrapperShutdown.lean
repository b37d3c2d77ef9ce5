import ArgusMcp.Library.Run
import Mathlib.Order.Nat

/-!
# Shutdown of the stdio wrapper

`run` starts the child, waits for it in a goroutine, and then for whichever comes first: the child
has been waited for, or the context is done because of a signal. In the second case it sends SIGTERM
and starts a timer, and if the timer fires before the child has been waited for, SIGKILL. The child
was started with `exec.CommandContext`: package `exec` sends SIGKILL on its own when the context is
done.

Things happen in any order. Time passes only while none of the wrapper, of package `exec` and of the
waiting goroutine can do anything, so that a timer fires when it is due.

## The condition

The child has its grace period as long as `exec` does not kill it within that time, and has not
killed it already when SIGTERM comes (`Unhurried`). The run theorem says that this is exact
(`graceful_iff_unhurried`).
-/

namespace ArgusMcp

namespace WrapperShutdown

/-- Where `run` is. -/
inductive Phase where
  /-- In the first `select`. -/
  | running
  /-- The context is done, and SIGTERM is sent next. -/
  | terminating
  /-- In the second `select`, with a timer started at that time. -/
  | grace (since : ℕ)
  /-- The timer has fired. -/
  | killing
  /-- Waits for the goroutines. -/
  | draining
  | returned
  deriving DecidableEq

structure State where
  now : ℕ
  ctxDone : Bool
  /-- Package `exec` has seen that the context is done. -/
  execDone : Bool
  exitedAt : Option ℕ
  /-- The child has been waited for, and `waitDone` has the result. -/
  waited : Bool
  phase : Phase
  /-- When the child received SIGTERM. -/
  termAt : Option ℕ
  /-- When SIGKILL was sent, the last time first. -/
  kills : List ℕ
  deriving DecidableEq

/-- The child has been started. -/
def init : State := ⟨0, false, false, none, false, .running, none, []⟩

inductive Action where
  /-- The context is done, because of a signal or since it was cancelled. -/
  | signal
  /-- The child exits, for whatever reason. -/
  | exit
  | wait
  /-- Package `exec` sees that the context is done. -/
  | execKill
  | selectWait
  | selectDone
  /-- SIGTERM is sent, or cannot be sent. -/
  | terminate (refused : Bool)
  | graceWait
  | graceTimer
  | killedWait
  | drained
  deriving DecidableEq

inductive Label where
  | tick
  | act (a : Action)
  deriving DecidableEq

/-- `Process.Kill`. Once the child has been waited for, no signal is sent any more. -/
def State.kill (s : State) : State :=
  if s.waited then s else { s with kills := s.now :: s.kills }

/-- `Process.Signal` with SIGTERM, and `Process.Kill` if that fails. A child that has exited
receives nothing. -/
def State.terminate (s : State) (refused : Bool) : State :=
  if s.waited ∨ refused then s.kill
  else if s.exitedAt = none then { s with termAt := some s.now }
  else s

/-- What an action does, where it is possible. -/
def act (timeout : ℕ) (s : State) : Action → Option State
  | .signal => some { s with ctxDone := true }
  | .exit => if s.exitedAt = none then some { s with exitedAt := some s.now } else none
  | .wait => if s.exitedAt ≠ none ∧ s.waited = false then some { s with waited := true } else none
  | .execKill =>
    if s.ctxDone ∧ s.execDone = false ∧ s.waited = false then
      some { s.kill with execDone := true }
    else none
  | .selectWait =>
    if s.phase = .running ∧ s.waited then some { s with phase := .draining } else none
  | .selectDone =>
    if s.phase = .running ∧ s.ctxDone then some { s with phase := .terminating } else none
  | .terminate refused =>
    if s.phase = .terminating then some { s.terminate refused with phase := .grace s.now } else none
  | .graceWait =>
    match s.phase with
    | .grace _ => if s.waited then some { s with phase := .draining } else none
    | _ => none
  | .graceTimer =>
    match s.phase with
    | .grace since =>
      if since + timeout ≤ s.now then some { s.kill with phase := .killing } else none
    | _ => none
  | .killedWait =>
    if s.phase = .killing ∧ s.waited then some { s with phase := .draining } else none
  | .drained => if s.phase = .draining then some { s with phase := .returned } else none

/-- What does not take any time once it is possible. -/
def prompt : List Action :=
  [.wait, .execKill, .selectWait, .selectDone, .terminate false, .graceWait, .graceTimer,
    .killedWait]

def step (timeout : ℕ) (s : State) : Label → Option State
  | .tick =>
    if ∀ a ∈ prompt, act timeout s a = none then some { s with now := s.now + 1 } else none
  | .act a => act timeout s a

/-- The child is shut down gracefully. -/
structure Graceful (timeout : ℕ) (s : State) : Prop where
  /-- A child that exits in time is not sent SIGKILL. -/
  spared : ∀ t e, s.termAt = some t → s.exitedAt = some e → e < t + timeout → s.kills = []
  /-- One that does not is sent SIGKILL when the time is over. -/
  killed : ∀ t, s.termAt = some t → (∀ e, s.exitedAt = some e → t + timeout < e) →
    t + timeout < s.now → t + timeout ∈ s.kills
  /-- And not before that. -/
  late : ∀ t, s.termAt = some t → ∀ k ∈ s.kills, t + timeout ≤ k
  waited : s.phase = .returned → s.waited

/-- Package `exec` does not kill the child within the timeout after SIGTERM, and SIGTERM does not
come to a child that has been sent SIGKILL. -/
def Unhurried (timeout : ℕ) (s : State) : Label → Prop
  | .act .execKill => s.ctxDone → s.execDone = false → s.waited = false →
    ∀ t, s.termAt = some t → t + timeout ≤ s.now
  | .act (.terminate false) => s.phase = .terminating → s.waited = false → s.exitedAt = none →
    ∀ k ∈ s.kills, s.now + timeout ≤ k
  | _ => True

/-! ## The invariant -/

/-- What holds in any case. -/
structure Inv (timeout : ℕ) (s : State) : Prop where
  exited : ∀ e, s.exitedAt = some e → e ≤ s.now ∧ (s.waited = false → e = s.now)
  waited : s.waited → s.exitedAt ≠ none
  kills_le : ∀ k ∈ s.kills, k ≤ s.now ∧ ∀ e, s.exitedAt = some e → k ≤ e
  drained : s.phase = .draining ∨ s.phase = .returned → s.waited
  term : ∀ t, s.termAt = some t → (s.phase = .grace t ∧ s.now ≤ t + timeout) ∨
    ((s.phase = .killing ∨ s.phase = .draining ∨ s.phase = .returned) ∧
      (t + timeout ∈ s.kills ∨ ∃ e, s.exitedAt = some e ∧ e ≤ t + timeout))

variable {timeout : ℕ} {s m : State}

theorem inv_init : Inv timeout init where
  exited e h := absurd h (Option.some_ne_none e).symm
  waited h := absurd h Bool.false_ne_true
  kills_le k h := absurd h List.not_mem_nil
  drained h := h.elim (fun h ↦ absurd h (by decide)) fun h ↦ absurd h (by decide)
  term t h := absurd h (Option.some_ne_none t).symm

theorem graceful_iff (h : Inv timeout s) :
    Graceful timeout s ↔ ∀ t, s.termAt = some t → ∀ k ∈ s.kills, t + timeout ≤ k := by
  refine ⟨Graceful.late, fun hlate ↦ ⟨?_, ?_, hlate, fun hphase ↦ h.drained (Or.inr hphase)⟩⟩
  · intro t e ht he hlt
    refine List.eq_nil_iff_forall_not_mem.mpr fun k hk ↦ ?_
    have hle := (h.kills_le k hk).2 e he
    have hge := hlate t ht k hk
    omega
  · intro t ht hexit hnow
    rcases h.term t ht with ⟨-, hle⟩ | ⟨-, hkill | ⟨e, he, hle⟩⟩
    · exact absurd hnow (Nat.not_lt.mpr hle)
    · exact hkill
    · exact absurd (hexit e he) (Nat.not_lt.mpr hle)

/-! ## What an action does -/

@[simp] theorem kill_now (s : State) : s.kill.now = s.now := by
  rw [State.kill]
  split <;> rfl

@[simp] theorem kill_exitedAt (s : State) : s.kill.exitedAt = s.exitedAt := by
  rw [State.kill]
  split <;> rfl

@[simp] theorem kill_waited (s : State) : s.kill.waited = s.waited := by
  rw [State.kill]
  split <;> rfl

@[simp] theorem kill_phase (s : State) : s.kill.phase = s.phase := by
  rw [State.kill]
  split <;> rfl

@[simp] theorem kill_termAt (s : State) : s.kill.termAt = s.termAt := by
  rw [State.kill]
  split <;> rfl

theorem mem_kills_kill {k : ℕ} :
    k ∈ s.kill.kills ↔ (s.waited = false ∧ k = s.now) ∨ k ∈ s.kills := by
  rw [State.kill]
  cases hwaited : s.waited with
  | true => simp
  | false => simp

theorem act_graceWait_eq_some (h : act timeout s .graceWait = some m) :
    ∃ since, s.phase = .grace since ∧ s.waited ∧ m = { s with phase := .draining } := by
  rw [act] at h
  split at h
  · rename_i since hphase
    obtain ⟨hwaited, heq⟩ := Option.ite_none_right_eq_some.mp h
    exact ⟨since, hphase, hwaited, (Option.some.inj heq).symm⟩
  · exact absurd h (Option.some_ne_none m).symm

theorem act_graceTimer_eq_some (h : act timeout s .graceTimer = some m) :
    ∃ since, s.phase = .grace since ∧ since + timeout ≤ s.now ∧
      m = { s.kill with phase := .killing } := by
  rw [act] at h
  split at h
  · rename_i since hphase
    obtain ⟨hdue, heq⟩ := Option.ite_none_right_eq_some.mp h
    exact ⟨since, hphase, hdue, (Option.some.inj heq).symm⟩
  · exact absurd h (Option.some_ne_none m).symm

/-- What SIGTERM does to a child: it is killed, it receives SIGTERM, or nothing happens. -/
theorem terminate_cases (s : State) (refused : Bool) :
    ((s.waited ∨ refused) ∧ s.terminate refused = s.kill) ∨
      (s.waited = false ∧ refused = false ∧ s.exitedAt = none ∧
        s.terminate refused = { s with termAt := some s.now }) ∨
      (s.waited = false ∧ s.exitedAt ≠ none ∧ s.terminate refused = s) := by
  rw [State.terminate]
  split
  · rename_i hfails
    exact Or.inl ⟨hfails, rfl⟩
  · rename_i hfails
    rw [not_or, Bool.not_eq_true, Bool.not_eq_true] at hfails
    split
    · rename_i halive
      exact Or.inr (Or.inl ⟨hfails.1, hfails.2, halive, rfl⟩)
    · rename_i hexited
      exact Or.inr (Or.inr ⟨hfails.1, hexited, rfl⟩)

/-! ## What a step keeps -/

theorem Inv.termAt_eq_none (h : Inv timeout s)
    (hphase : s.phase = .running ∨ s.phase = .terminating) : s.termAt = none := by
  refine Option.eq_none_iff_forall_ne_some.mpr fun t ht ↦ ?_
  rcases h.term t ht with ⟨hgrace, -⟩ | ⟨hlater, -⟩
  · rcases hphase with hphase | hphase <;> rw [hphase] at hgrace <;> exact absurd hgrace (by simp)
  · rcases hphase with hphase | hphase <;> rw [hphase] at hlater <;> exact absurd hlater (by decide)

theorem Inv.kill (h : Inv timeout s) : Inv timeout s.kill where
  exited := by
    rw [kill_exitedAt, kill_now, kill_waited]
    exact h.exited
  waited := by
    rw [kill_waited, kill_exitedAt]
    exact h.waited
  kills_le k hk := by
    rw [kill_now, kill_exitedAt]
    rcases mem_kills_kill.mp hk with ⟨hwaited, rfl⟩ | hk
    · exact ⟨le_refl _, fun e he ↦ ((h.exited e he).2 hwaited).ge⟩
    · exact h.kills_le k hk
  drained := by
    rw [kill_phase, kill_waited]
    exact h.drained
  term t ht := by
    rw [kill_termAt] at ht
    rw [kill_phase, kill_now, kill_exitedAt]
    exact (h.term t ht).imp_right fun hlater ↦
      ⟨hlater.1, hlater.2.imp_left fun hkill ↦ mem_kills_kill.mpr (Or.inr hkill)⟩

theorem inv_act (h : Inv timeout s) {a : Action} (hact : act timeout s a = some m) :
    Inv timeout m := by
  cases a with
  | signal =>
    obtain rfl := Option.some.inj hact
    exact ⟨h.exited, h.waited, h.kills_le, h.drained, h.term⟩
  | exit =>
    obtain ⟨halive, heq⟩ := Option.ite_none_right_eq_some.mp hact
    obtain rfl := Option.some.inj heq
    refine ⟨fun e he ↦ ?_, fun _ ↦ Option.some_ne_none _, fun k hk ↦ ?_, h.drained, fun t ht ↦ ?_⟩
    · obtain rfl := Option.some.inj he
      exact ⟨le_refl _, fun _ ↦ rfl⟩
    · refine ⟨(h.kills_le k hk).1, fun e he ↦ ?_⟩
      obtain rfl := Option.some.inj he
      exact (h.kills_le k hk).1
    · refine (h.term t ht).imp_right fun hlater ↦ ⟨hlater.1, hlater.2.imp_right ?_⟩
      rintro ⟨e, he, -⟩
      exact absurd (halive.symm.trans he) (Option.some_ne_none e).symm
  | wait =>
    obtain ⟨⟨hexited, -⟩, heq⟩ := Option.ite_none_right_eq_some.mp hact
    obtain rfl := Option.some.inj heq
    exact ⟨fun e he ↦ ⟨(h.exited e he).1, fun hwaited ↦ absurd hwaited (by simp)⟩,
      fun _ ↦ hexited, h.kills_le, fun _ ↦ rfl, h.term⟩
  | execKill =>
    obtain ⟨-, heq⟩ := Option.ite_none_right_eq_some.mp hact
    obtain rfl := Option.some.inj heq
    exact ⟨h.kill.exited, h.kill.waited, h.kill.kills_le, h.kill.drained, h.kill.term⟩
  | selectWait =>
    obtain ⟨⟨hphase, hwaited⟩, heq⟩ := Option.ite_none_right_eq_some.mp hact
    obtain rfl := Option.some.inj heq
    refine ⟨h.exited, h.waited, h.kills_le, fun _ ↦ hwaited, fun t ht ↦ ?_⟩
    exact absurd ((h.termAt_eq_none (Or.inl hphase)).symm.trans ht) (Option.some_ne_none t).symm
  | selectDone =>
    obtain ⟨⟨hphase, -⟩, heq⟩ := Option.ite_none_right_eq_some.mp hact
    obtain rfl := Option.some.inj heq
    refine ⟨h.exited, h.waited, h.kills_le, fun hover ↦ ?_, fun t ht ↦ ?_⟩
    · exact absurd hover (by simp)
    · exact absurd ((h.termAt_eq_none (Or.inl hphase)).symm.trans ht) (Option.some_ne_none t).symm
  | terminate refused =>
    obtain ⟨hphase, heq⟩ := Option.ite_none_right_eq_some.mp hact
    obtain rfl := Option.some.inj heq
    have hnone := h.termAt_eq_none (Or.inr hphase)
    have hover : ∀ p, (Phase.grace s.now = .draining ∨ Phase.grace s.now = .returned) → p :=
      fun _ hover ↦ absurd hover (by simp)
    rcases terminate_cases s refused with ⟨-, hterm⟩ | ⟨-, -, -, hterm⟩ | ⟨-, -, hterm⟩
    · rw [hterm]
      refine ⟨h.kill.exited, h.kill.waited, h.kill.kills_le, hover _, fun t ht ↦ ?_⟩
      rw [kill_termAt, hnone] at ht
      exact absurd ht (Option.some_ne_none t).symm
    · rw [hterm]
      refine ⟨h.exited, h.waited, h.kills_le, hover _, fun t ht ↦ ?_⟩
      obtain rfl := Option.some.inj ht
      exact Or.inl ⟨rfl, Nat.le_add_right _ _⟩
    · rw [hterm]
      refine ⟨h.exited, h.waited, h.kills_le, hover _, fun t ht ↦ ?_⟩
      exact absurd (hnone.symm.trans ht) (Option.some_ne_none t).symm
  | graceWait =>
    obtain ⟨since, hphase, hwaited, rfl⟩ := act_graceWait_eq_some hact
    refine ⟨h.exited, h.waited, h.kills_le, fun _ ↦ hwaited, fun t ht ↦ ?_⟩
    rcases h.term t ht with ⟨-, hle⟩ | ⟨hlater, -⟩
    · obtain ⟨e, he⟩ := Option.ne_none_iff_exists'.mp (h.waited hwaited)
      exact Or.inr ⟨Or.inr (Or.inl rfl), Or.inr ⟨e, he, (h.exited e he).1.trans hle⟩⟩
    · rw [hphase] at hlater
      exact absurd hlater (by simp)
  | graceTimer =>
    obtain ⟨since, hphase, hdue, rfl⟩ := act_graceTimer_eq_some hact
    refine ⟨h.kill.exited, h.kill.waited, h.kill.kills_le, fun hover ↦ absurd hover (by simp),
      fun t ht ↦ Or.inr ⟨Or.inl rfl, ?_⟩⟩
    rw [kill_termAt] at ht
    rcases h.term t ht with ⟨hgrace, hle⟩ | ⟨hlater, -⟩
    · obtain rfl := Phase.grace.inj (hphase.symm.trans hgrace)
      cases hwaited : s.waited with
      | false => exact Or.inl (mem_kills_kill.mpr (Or.inl ⟨hwaited, le_antisymm hdue hle⟩))
      | true =>
        obtain ⟨e, he⟩ := Option.ne_none_iff_exists'.mp (h.waited hwaited)
        exact Or.inr ⟨e, (kill_exitedAt s).trans he, (h.exited e he).1.trans hle⟩
    · rw [hphase] at hlater
      exact absurd hlater (by simp)
  | killedWait =>
    obtain ⟨⟨hphase, hwaited⟩, heq⟩ := Option.ite_none_right_eq_some.mp hact
    obtain rfl := Option.some.inj heq
    refine ⟨h.exited, h.waited, h.kills_le, fun _ ↦ hwaited, fun t ht ↦ ?_⟩
    rcases h.term t ht with ⟨hgrace, -⟩ | ⟨-, hended⟩
    · exact absurd (hphase.symm.trans hgrace) (by simp)
    · exact Or.inr ⟨Or.inr (Or.inl rfl), hended⟩
  | drained =>
    obtain ⟨hphase, heq⟩ := Option.ite_none_right_eq_some.mp hact
    obtain rfl := Option.some.inj heq
    refine ⟨h.exited, h.waited, h.kills_le, fun _ ↦ h.drained (Or.inl hphase), fun t ht ↦ ?_⟩
    rcases h.term t ht with ⟨hgrace, -⟩ | ⟨-, hended⟩
    · exact absurd (hphase.symm.trans hgrace) (by simp)
    · exact Or.inr ⟨Or.inr (Or.inr rfl), hended⟩

/-- Time passes only when nothing is due. -/
theorem inv_tick (h : Inv timeout s) (hidle : ∀ a ∈ prompt, act timeout s a = none) :
    Inv timeout { s with now := s.now + 1 } where
  exited e he := by
    refine ⟨Nat.le_succ_of_le (h.exited e he).1, fun hwaited ↦ ?_⟩
    have hwait : act timeout s .wait = some { s with waited := true } :=
      if_pos ⟨fun hnone ↦ Option.some_ne_none e (he.symm.trans hnone), hwaited⟩
    exact absurd ((hidle .wait (by decide)).symm.trans hwait) (Option.some_ne_none _).symm
  waited := h.waited
  kills_le k hk := ⟨Nat.le_succ_of_le (h.kills_le k hk).1, (h.kills_le k hk).2⟩
  drained := h.drained
  term t ht := by
    refine (h.term t ht).imp_left ?_
    rintro ⟨hphase, hle⟩
    refine ⟨hphase, Nat.lt_of_le_of_ne hle fun hdue ↦ ?_⟩
    have htimer : act timeout s .graceTimer = some { s.kill with phase := .killing } := by
      rw [act, hphase]
      exact if_pos hdue.ge
    exact absurd ((hidle .graceTimer (by decide)).symm.trans htimer) (Option.some_ne_none _).symm

theorem inv_step (h : Inv timeout s) {label : Label} (hstep : step timeout s label = some m) :
    Inv timeout m := by
  cases label with
  | tick =>
    obtain ⟨hidle, heq⟩ := Option.ite_none_right_eq_some.mp hstep
    obtain rfl := Option.some.inj heq
    exact inv_tick h hidle
  | act a => exact inv_act h hstep

/-! ## The exact condition -/

/-- SIGKILL has not come too early. -/
def Late (timeout : ℕ) (s : State) : Prop :=
  ∀ t, s.termAt = some t → ∀ k ∈ s.kills, t + timeout ≤ k

theorem Late.of_termAt_eq_none (h : s.termAt = none) : Late timeout s :=
  fun t ht ↦ absurd (h.symm.trans ht) (Option.some_ne_none t).symm

theorem late_kill_iff (hlate : Late timeout s) :
    Late timeout s.kill ↔ (s.waited = false → ∀ t, s.termAt = some t → t + timeout ≤ s.now) := by
  constructor
  · intro hkill hwaited t ht
    exact hkill t ((kill_termAt s).trans ht) s.now (mem_kills_kill.mpr (Or.inl ⟨hwaited, rfl⟩))
  · intro hok t ht k hk
    rw [kill_termAt] at ht
    rcases mem_kills_kill.mp hk with ⟨hwaited, rfl⟩ | hk
    · exact hok hwaited t ht
    · exact hlate t ht k hk

theorem late_act_iff (h : Inv timeout s) (hlate : Late timeout s) {a : Action}
    (hact : act timeout s a = some m) : Late timeout m ↔ Unhurried timeout s (.act a) := by
  cases a with
  | signal =>
    obtain rfl := Option.some.inj hact
    exact iff_of_true hlate trivial
  | exit | wait =>
    obtain ⟨-, heq⟩ := Option.ite_none_right_eq_some.mp hact
    obtain rfl := Option.some.inj heq
    exact iff_of_true hlate trivial
  | execKill =>
    obtain ⟨⟨hdone, hexec, hwaited⟩, heq⟩ := Option.ite_none_right_eq_some.mp hact
    obtain rfl := Option.some.inj heq
    refine (late_kill_iff hlate).trans ⟨fun hok _ _ hwaited ↦ hok hwaited, fun hok hwaited ↦ ?_⟩
    exact hok hdone hexec hwaited
  | selectWait | selectDone =>
    obtain ⟨-, heq⟩ := Option.ite_none_right_eq_some.mp hact
    obtain rfl := Option.some.inj heq
    exact iff_of_true hlate trivial
  | terminate refused =>
    obtain ⟨hphase, heq⟩ := Option.ite_none_right_eq_some.mp hact
    obtain rfl := Option.some.inj heq
    have hnone := h.termAt_eq_none (Or.inr hphase)
    rcases terminate_cases s refused with ⟨hfails, hterm⟩ | ⟨hwaited, rfl, halive, hterm⟩ |
      ⟨-, hexited, hterm⟩
    · rw [hterm]
      refine iff_of_true (Late.of_termAt_eq_none ((kill_termAt s).trans hnone)) ?_
      cases refused with
      | true => trivial
      | false =>
        intro _ hwaited
        exact absurd (hfails.resolve_right Bool.false_ne_true) (Bool.eq_false_iff.mp hwaited)
    · rw [hterm]
      constructor
      · exact fun hnew _ _ _ ↦ hnew s.now rfl
      · intro hok t ht
        obtain rfl := Option.some.inj ht
        exact hok hphase hwaited halive
    · rw [hterm]
      refine iff_of_true (Late.of_termAt_eq_none hnone) ?_
      cases refused with
      | true => trivial
      | false => exact fun _ _ halive ↦ absurd halive hexited
  | graceWait =>
    obtain ⟨since, -, -, rfl⟩ := act_graceWait_eq_some hact
    exact iff_of_true hlate trivial
  | graceTimer =>
    obtain ⟨since, hphase, hdue, rfl⟩ := act_graceTimer_eq_some hact
    refine iff_of_true ((late_kill_iff hlate).mpr fun _ t ht ↦ ?_) trivial
    rcases h.term t ht with ⟨hgrace, -⟩ | ⟨hlater, -⟩
    · obtain rfl := Phase.grace.inj (hphase.symm.trans hgrace)
      exact hdue
    · rw [hphase] at hlater
      exact absurd hlater (by simp)
  | killedWait | drained =>
    obtain ⟨-, heq⟩ := Option.ite_none_right_eq_some.mp hact
    obtain rfl := Option.some.inj heq
    exact iff_of_true hlate trivial

theorem unhurried_of_step_eq_none {label : Label} (hstep : step timeout s label = none) :
    Unhurried timeout s label := by
  cases label with
  | tick => trivial
  | act a =>
    cases a with
    | execKill =>
      intro hdone hexec hwaited
      have hpossible : act timeout s .execKill = some { s.kill with execDone := true } :=
        if_pos ⟨hdone, hexec, hwaited⟩
      exact absurd (hstep.symm.trans hpossible) (Option.some_ne_none _).symm
    | terminate refused =>
      cases refused with
      | true => trivial
      | false =>
        intro hphase
        have hpossible : act timeout s (.terminate false) =
            some { s.terminate false with phase := .grace s.now } := if_pos hphase
        exact absurd (hstep.symm.trans hpossible) (Option.some_ne_none _).symm
    | _ => trivial

/-- **The child is shut down gracefully in every order of things, exactly if `exec` does not kill it
in its grace period.** -/
theorem graceful_iff_unhurried (timeout : ℕ) (labels : List Label) :
    (∀ pre s, pre <+: labels → Run.run (step timeout) init pre = some s → Graceful timeout s) ↔
      Run.Guarded (step timeout) (Unhurried timeout) init labels := by
  have hgraceful : Graceful timeout init :=
    (graceful_iff inv_init).mpr (Late.of_termAt_eq_none rfl)
  refine @Run.forall_reached_iff_guarded _ _ (step timeout) (Unhurried timeout) (Inv timeout)
    (Graceful timeout) ?_ ?_ labels init inv_init hgraceful
  · intro s label m hinv hgraceful hstep
    have hlate := (graceful_iff hinv).mp hgraceful
    refine ⟨inv_step hinv hstep, (graceful_iff (inv_step hinv hstep)).trans ?_⟩
    cases label with
    | tick =>
      obtain ⟨-, heq⟩ := Option.ite_none_right_eq_some.mp hstep
      obtain rfl := Option.some.inj heq
      exact iff_of_true hlate trivial
    | act a => exact late_act_iff hinv hlate hstep
  · exact fun s label _ _ hstep ↦ unhurried_of_step_eq_none hstep

/-- The context is done, the child receives SIGTERM, and `exec` kills it. -/
private def hurried : List Label :=
  [.act .signal, .act .selectDone, .act (.terminate false), .act .execKill, .act .exit]

/-- A child that would have three seconds is sent SIGKILL at once. -/
theorem not_forall_graceful : ¬ ∀ (labels : List Label) (s : State),
    Run.run (step 3) init labels = some s → Graceful 3 s := by
  intro h
  have hkilled := h hurried _ rfl
  exact absurd (hkilled.spared 0 0 rfl rfl (by decide)) (by decide)

end WrapperShutdown

end ArgusMcp
