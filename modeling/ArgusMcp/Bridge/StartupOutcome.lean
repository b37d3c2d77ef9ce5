import ArgusMcp.Bridge.Startup
import Mathlib.Data.List.Count

/-!
# What comes of starting the backends

When `start_all` returns and no shutdown has been requested, every backend should have been tried
once in the first pass, and again for as long as it had no session and a retry left; and every
status record should say how it ended. The retry loop counts its rounds for all failed backends at
once, though every backend has retries of its own, so that a backend is counted for here: its calls
of `start_one` so far are determined by the round that is going on and by its task.

Three things go wrong. A remote backend whose first call is cancelled counts as connected. A call
that ends with an exception or a cancellation says nothing to the status record, and neither does
an auth discovery that is done when no retry follows; the record then stays initializing. And a
round is signalled on the records of all failed backends, those without a retry left for it
included.

## Main statements

* `startedAll_of_run`: in a run in which none of this happens, `start_all` returns as it should.
-/

namespace ArgusMcp

namespace Startup

/-! ## Outcome -/

namespace State

variable (s : State)

/-- The calls of `start_one` for the backend. -/
def callCount (n : String) : ℕ := s.calls.countP fun c ↦ decide (c.name = n)

/-- Those in the first pass. -/
def firstCalls (n : String) : ℕ := s.calls.countP fun c ↦ decide (c.name = n ∧ c.attempt = 0)

/-- Those in the rounds of retries. -/
def retryCalls (n : String) : ℕ := s.calls.countP fun c ↦ decide (c.name = n ∧ c.attempt ≠ 0)

def phaseOf (n : String) : Option BackendPhase := (s.records n).map BackendStatusRecord.phase

/-- The record of the backend is in a phase that something should follow. -/
def unsettled (n : String) : Bool :=
  (s.phaseOf n).any fun phase ↦ decide (phase ∈ [.pending, .initializing, .retrying])

/-- The backend has a task that is not done. -/
def unfinished (n : String) : Bool := (s.tasks n).any fun t ↦ !t.done

end State

/-- What is expected of `start_all` when it returns. -/
structure StartedAll (cfg : Config) (s : State) : Prop where
  first : ∀ n ∈ cfg.names, s.firstCalls n = 1
  sessionless : ∀ c ∈ s.calls, c.attempt ≠ 0 → c.connected = false
  retries_le : ∀ n ∈ cfg.names, s.retryCalls n ≤ cfg.retries n
  retries_eq : ∀ n ∈ cfg.names, s.sessions n = false → s.retryCalls n = cfg.retries n
  sessions_iff : ∀ n, s.sessions n = true ↔ (n, .success) ∈ s.outcomes
  settled : ∀ n, s.unsettled n = true → s.authPending n = true

/-! ## The condition -/

/-- The backend has no session, and fewer calls than one and its retries. -/
def RetryLeft (cfg : Config) (s : State) (n : String) : Prop :=
  s.sessions n = false ∧ s.callCount n ≤ cfg.retries n

instance (cfg : Config) (s : State) (n : String) : Decidable (RetryLeft cfg s n) :=
  inferInstanceAs (Decidable (_ ∧ _))

/-- The call ends without a word to the status record. -/
def Outcome.silent : Outcome → Bool
  | .exception => true
  | .cancelled => true
  | _ => false

/-- A round is signalled only if every failed backend whose record is failed has a retry left for
it, or auth discovery pending. -/
def RoundOrderly (cfg : Config) (s : State) : Option LoopHead → Prop
  | some head =>
    head.goesOn s = true → ∀ n ∈ head.failed, s.phaseOf n = some .failed →
      s.authPending n = true ∨ head.attempt ≤ cfg.retries n
  | none => True

instance (cfg : Config) (s : State) (head : Option LoopHead) :
    Decidable (RoundOrderly cfg s head) := by
  unfold RoundOrderly
  split <;> infer_instance

/-- The condition on an event. A call ends with an exception or a cancellation only while auth
discovery is pending or a retry is left, and the call for a remote backend that has retries is not
cancelled in the first pass; an auth discovery is done only if the record is settled, a task goes on
or a retry is left; and a round is signalled in order. -/
def Orderly (cfg : Config) (s : State) : Event → Prop
  | .ends n o =>
    (o.silent = true → s.authPending n = true ∨ RetryLeft cfg s n) ∧
      (o = .cancelled ∧ s.pc.attempt = 0 ∧ n ∈ cfg.remoteItems → cfg.retries n = 0)
  | .authDone n => s.unsettled n = true → s.unfinished n = true ∨ RetryLeft cfg s n
  | .resume => ∀ p ∈ advance cfg s, RoundOrderly cfg s p.2
  | _ => True

instance (cfg : Config) (s : State) (e : Event) : Decidable (Orderly cfg s e) := by
  unfold Orderly
  split <;> infer_instance

/-! ## The calls of a backend -/

section Ledger

variable {cfg : Config} {s m : State} {a : ℕ} {failed : List String}

/-- A task that has gone past waiting has called `start_one`. -/
def called (t : Option Task) : ℕ :=
  if t.any (fun t ↦ decide (t.stage ≠ .waiting)) = true then 1 else 0

def succeeded (t : Option Task) : Bool := t.any fun t ↦ decide (t.stage = .finished .success)

/-- The backend will not be tried again, and need not be. -/
structure Spent (cfg : Config) (s : State) (n : String) : Prop where
  one_le : 1 ≤ s.callCount n
  le : s.callCount n ≤ cfg.retries n + 1
  eq : s.sessions n = false → s.callCount n = cfg.retries n + 1

/-- How the calls stand in a pass: in round `a`, over the backends that have failed before. -/
structure Pass (cfg : Config) (s : State) (a : ℕ) (failed : List String) : Prop where
  scope : ∀ n ∈ failed, n ∈ cfg.names
  task : ∀ n t, s.tasks n = some t →
    n ∈ failed ∧ a ≤ cfg.retries n ∧ t.cancelRequested = false
  count : ∀ n ∈ failed, s.callCount n = min a (cfg.retries n + 1) + called (s.tasks n)
  session : ∀ n ∈ failed, s.sessions n = succeeded (s.tasks n)
  spent : ∀ n ∈ cfg.names, n ∉ failed → Spent cfg s n

/-- What is true of the calls and their outcomes at any time. -/
structure History (s : State) : Prop where
  first : ∀ n, s.firstCalls n = min 1 (s.callCount n)
  sessionless : ∀ c ∈ s.calls, c.attempt ≠ 0 → c.connected = false
  sessions_iff : ∀ n, s.sessions n = true ↔ (n, .success) ∈ s.outcomes

theorem firstCalls_add_retryCalls (s : State) (n : String) :
    s.firstCalls n + s.retryCalls n = s.callCount n := by
  have hsplit := List.countP_eq_countP_filter_add s.calls (fun c ↦ decide (c.name = n))
    fun c ↦ decide (c.attempt = 0)
  rw [List.countP_filter, List.countP_filter] at hsplit
  rw [State.firstCalls, State.retryCalls, State.callCount, hsplit]
  simp only [Bool.decide_and, ne_eq, decide_not]

theorem callCount_congr {s m : State} (h : m.calls = s.calls) (n : String) :
    m.callCount n = s.callCount n := by
  rw [State.callCount, State.callCount, h]

theorem Spent.congr {n : String} (h : Spent cfg s n) (hcount : m.callCount n = s.callCount n)
    (hsession : m.sessions n = s.sessions n) : Spent cfg m n := by
  obtain ⟨hone, hle, heq⟩ := h
  rw [← hcount] at hone hle heq
  exact ⟨hone, hle, fun hs ↦ heq (hsession ▸ hs)⟩

/-- What an event of one task changes in a pass: the stage of that task, and with it what this
stands for. -/
theorem Pass.setStage (h : Pass cfg s a failed) {n : String} {t : Task} (stage : Stage)
    (ht : s.tasks n = some t)
    (htasks : ∀ k, m.tasks k = if k = n then some { t with stage := stage } else s.tasks k)
    (hcount : m.callCount n + called (some t) = s.callCount n + called (m.tasks n))
    (hsession : m.sessions n = succeeded (m.tasks n))
    (hothers : ∀ k, k ≠ n → m.callCount k = s.callCount k ∧ m.sessions k = s.sessions k) :
    Pass cfg m a failed := by
  obtain ⟨hn, ha, hc⟩ := h.task n t ht
  refine ⟨h.scope, fun k t' hkt ↦ ?_, fun k hk ↦ ?_, fun k hk ↦ ?_, fun k hk hkf ↦ ?_⟩
  · rw [htasks] at hkt
    split at hkt
    · rename_i hkn
      exact hkn ▸ Option.some.inj hkt ▸ ⟨hn, ha, hc⟩
    · exact h.task k t' hkt
  · by_cases hkn : k = n
    · have hbefore := h.count k hk
      rw [hkn] at hbefore ⊢
      rw [ht] at hbefore
      omega
    · rw [(hothers k hkn).1, htasks, if_neg hkn]
      exact h.count k hk
  · by_cases hkn : k = n
    · rw [hkn, hsession]
    · rw [(hothers k hkn).2, htasks, if_neg hkn]
      exact h.session k hk
  · have hkn : k ≠ n := fun hkn ↦ hkf (hkn ▸ hn)
    exact (h.spent k hk hkf).congr (hothers k hkn).1 (hothers k hkn).2

/-! ### A task calls `start_one` -/

theorem callCount_startBackendSvr (s : State) (n k : String) :
    (startBackendSvr cfg s n).callCount k = s.callCount k + if n = k then 1 else 0 := by
  rw [State.callCount, startBackendSvr, List.countP_append, List.countP_singleton]
  simp only [decide_eq_true_eq]
  rfl

theorem firstCalls_startBackendSvr (s : State) (n k : String) :
    (startBackendSvr cfg s n).firstCalls k
      = s.firstCalls k + if n = k ∧ s.pc.attempt = 0 then 1 else 0 := by
  rw [State.firstCalls, startBackendSvr, List.countP_append, List.countP_singleton]
  simp only [decide_eq_true_eq]
  rfl

theorem called_waiting (c : Bool) : called (some ⟨.waiting, c⟩) = 0 := rfl

theorem called_running (c : Bool) : called (some ⟨.running, c⟩) = 1 := rfl

theorem called_finished (o : Outcome) (c : Bool) : called (some ⟨.finished o, c⟩) = 1 := rfl

theorem called_of_done {t : Task} (h : t.done = true) : called (some t) = 1 := by
  obtain ⟨stage, c⟩ := t
  cases stage with
  | waiting => exact absurd h Bool.false_ne_true
  | running => exact absurd h Bool.false_ne_true
  | finished o => exact called_finished o c

theorem Pass.waiting (h : Pass cfg s a failed) {n : String} {c : Bool}
    (ht : s.tasks n = some ⟨.waiting, c⟩) :
    s.sessions n = false ∧ s.callCount n = a ∧ a ≤ cfg.retries n := by
  obtain ⟨hn, ha, -⟩ := h.task n _ ht
  have hsession := h.session n hn
  have hcount := h.count n hn
  rw [ht] at hsession hcount
  rw [called_waiting] at hcount
  refine ⟨hsession, ?_, ha⟩
  omega

theorem Pass.begin (h : Pass cfg s a failed) {n : String}
    (ht : s.tasks n = some ⟨.waiting, false⟩) :
    Pass cfg (startBackendSvr cfg (s.setStage n ⟨.waiting, false⟩ .running) n) a failed := by
  have hself : (startBackendSvr cfg (s.setStage n ⟨.waiting, false⟩ .running) n).tasks n
      = some ⟨.running, false⟩ := Function.update_self n _ _
  refine h.setStage .running ht (fun k ↦ Function.update_apply _ _ _ _) ?_ ?_ fun k hk ↦ ⟨?_, rfl⟩
  · -- the call that begins is the one more that the task now stands for
    rw [hself, callCount_startBackendSvr, if_pos rfl, called_waiting, called_running]
    rfl
  · rw [hself]
    exact (h.waiting ht).1
  · rw [callCount_startBackendSvr, if_neg (Ne.symm hk), Nat.add_zero]
    rfl

theorem History.begin (h : History s) (hp : Pass cfg s s.pc.attempt failed) {n : String}
    (ht : s.tasks n = some ⟨.waiting, false⟩) :
    History (startBackendSvr cfg (s.setStage n ⟨.waiting, false⟩ .running) n) := by
  obtain ⟨hsession, hcount, -⟩ := hp.waiting ht
  refine ⟨?_, ?_, h.sessions_iff⟩
  · intro k
    rw [callCount_startBackendSvr, firstCalls_startBackendSvr]
    change s.firstCalls k + (if n = k ∧ s.pc.attempt = 0 then 1 else 0)
      = min 1 (s.callCount k + if n = k then 1 else 0)
    have hfirst := h.first k
    by_cases hk : n = k
    · subst hk
      by_cases hzero : s.pc.attempt = 0
      · rw [if_pos ⟨rfl, hzero⟩, if_pos rfl]
        omega
      · rw [if_neg (hzero ∘ And.right), if_pos rfl]
        omega
    · rw [if_neg (hk ∘ And.left), if_neg hk]
      exact hfirst
  · intro c hc hattempt
    obtain hc | hc := List.mem_append.mp hc
    · exact h.sessionless c hc hattempt
    · rw [List.mem_singleton.mp hc]
      exact hsession

/-! ### A call ends -/

@[simp] theorem calls_endCall (s : State) (n : String) (o : Outcome) :
    (endCall s n o).calls = s.calls := by
  cases o <;> rfl

@[simp] theorem authPending_endCall (s : State) (n : String) (o : Outcome) :
    (endCall s n o).authPending = s.authPending := by
  cases o <;> rfl

theorem sessions_endCall (s : State) (n : String) (o : Outcome) (k : String) :
    (endCall s n o).sessions k = if k = n ∧ o = .success then true else s.sessions k := by
  cases o with
  | success =>
    change Function.update s.sessions n true k = _
    rw [Function.update_apply]
    simp only [and_true]
  | refused | failure | exception | cancelled =>
    rw [if_neg (by simp)]
    rfl

/-- A state in which a call of the backend has just ended. -/
def ended (s : State) (n : String) (c : Bool) (o : Outcome) : State :=
  { endCall (s.setStage n ⟨.running, c⟩ (.finished o)) n o with
    outcomes := s.outcomes ++ [(n, o)] }

theorem tasks_ended (s : State) (n : String) (c : Bool) (o : Outcome) (k : String) :
    (ended s n c o).tasks k = if k = n then some ⟨.finished o, c⟩ else s.tasks k := by
  change (endCall (s.setStage n ⟨.running, c⟩ (.finished o)) n o).tasks k = _
  rw [tasks_endCall]
  exact Function.update_apply _ _ _ _

theorem sessions_ended (s : State) (n : String) (c : Bool) (o : Outcome) (k : String) :
    (ended s n c o).sessions k = if k = n ∧ o = .success then true else s.sessions k :=
  sessions_endCall _ n o k

theorem callCount_ended (s : State) (n : String) (c : Bool) (o : Outcome) (k : String) :
    (ended s n c o).callCount k = s.callCount k :=
  callCount_congr (calls_endCall _ n o) k

theorem Pass.running (h : Pass cfg s a failed) {n : String} {c : Bool}
    (ht : s.tasks n = some ⟨.running, c⟩) :
    s.sessions n = false ∧ s.callCount n = a + 1 ∧ a ≤ cfg.retries n := by
  obtain ⟨hn, ha, -⟩ := h.task n _ ht
  have hsession := h.session n hn
  have hcount := h.count n hn
  rw [ht] at hsession hcount
  rw [called_running] at hcount
  refine ⟨hsession, ?_, ha⟩
  omega

theorem Pass.ended (h : Pass cfg s a failed) {n : String} {c : Bool} {o : Outcome}
    (ht : s.tasks n = some ⟨.running, c⟩) : Pass cfg (ended s n c o) a failed := by
  refine h.setStage (.finished o) ht (tasks_ended s n c o) ?_ ?_
    fun k hk ↦ ⟨callCount_ended s n c o k, ?_⟩
  · rw [callCount_ended, tasks_ended, if_pos rfl, called_running, called_finished]
  · rw [sessions_ended, tasks_ended, if_pos rfl, (h.running ht).1]
    by_cases ho : o = .success
    · rw [if_pos ⟨rfl, ho⟩, ho]
      rfl
    · rw [if_neg (ho ∘ And.right)]
      simp [succeeded, ho]
  · rw [sessions_ended, if_neg (hk ∘ And.left)]

theorem History.ended (h : History s) {n : String} (c : Bool) (o : Outcome) :
    History (ended s n c o) := by
  refine ⟨?_, ?_, ?_⟩
  · intro k
    rw [callCount_ended, ← h.first k, State.firstCalls, State.firstCalls]
    exact congrArg _ (calls_endCall _ n o)
  · have hcalls : (Startup.ended s n c o).calls = s.calls := calls_endCall _ n o
    rw [hcalls]
    exact h.sessionless
  · intro k
    change _ ↔ (k, Outcome.success) ∈ s.outcomes ++ [(n, o)]
    rw [sessions_ended, List.mem_append, List.mem_singleton, Prod.mk.injEq, ← h.sessions_iff k]
    by_cases hk : k = n ∧ o = .success
    · rw [if_pos hk]
      exact iff_of_true rfl (Or.inr ⟨hk.1, hk.2.symm⟩)
    · rw [if_neg hk]
      exact ⟨Or.inl, fun h ↦ h.resolve_right fun h' ↦ hk ⟨h'.1, h'.2.symm⟩⟩

/-! ### A pass is over -/

/-- From one pass to the next. Of the tasks nothing is kept, and of the backends those that have
failed; the others have a session or no retry left. -/
theorem Pass.next (h : Pass cfg s a failed) {failed' : List String}
    (hsub : ∀ n ∈ failed', n ∈ failed) (hdone : ∀ n ∈ failed, s.unfinished n = false)
    (hlaunched : ∀ n ∈ failed, a ≤ cfg.retries n → s.tasks n ≠ none)
    (hsession : ∀ n ∈ failed', s.sessions n = false)
    (hrest : ∀ n ∈ failed, n ∉ failed' → s.sessions n = true ∨ cfg.retries n ≤ a)
    (htasks : ∀ n, m.tasks n = none) (hcalls : m.calls = s.calls)
    (hsessions : m.sessions = s.sessions) : Pass cfg m (a + 1) failed' := by
  have hcount : ∀ n ∈ failed, s.callCount n = min (a + 1) (cfg.retries n + 1) ∧
      (s.sessions n = true → a ≤ cfg.retries n) := by
    intro n hn
    have hbefore := h.count n hn
    cases ht : s.tasks n with
    | none =>
      -- it had no retry left for this pass, and so its calls were complete before
      have hlt : ¬a ≤ cfg.retries n := fun ha ↦ hlaunched n hn ha ht
      have hs := h.session n hn
      rw [ht] at hbefore hs
      refine ⟨?_, fun hsn ↦ absurd (hsn.symm.trans hs) Bool.noConfusion⟩
      change _ = _ + 0 at hbefore
      omega
    | some t =>
      -- its task is done and has called once
      obtain ⟨-, ha, -⟩ := h.task n t ht
      have hdone' := hdone n hn
      rw [State.unfinished, ht, Option.any_some, Bool.not_eq_false'] at hdone'
      rw [ht, called_of_done hdone'] at hbefore
      refine ⟨?_, fun _ ↦ ha⟩
      omega
  refine ⟨fun n hn ↦ h.scope n (hsub n hn), ?_, ?_, ?_, ?_⟩
  · intro n t ht
    exact absurd (ht.symm.trans (htasks n)) (Option.some_ne_none t)
  · intro n hn
    rw [callCount_congr hcalls, htasks n]
    exact (hcount n (hsub n hn)).1
  · intro n hn
    rw [hsessions, htasks n]
    exact hsession n hn
  · intro n hn hnf
    by_cases hnf' : n ∈ failed
    · obtain ⟨heq, hle⟩ := hcount n hnf'
      -- it is left behind, with a session or with its retries used up
      refine ⟨?_, ?_, ?_⟩
      · rw [callCount_congr hcalls, heq]
        omega
      · rw [callCount_congr hcalls, heq]
        exact Nat.min_le_right _ _
      · intro hs
        rw [hsessions] at hs
        have hspent : cfg.retries n ≤ a := by
          obtain hs' | hspent := hrest n hnf' hnf
          · exact absurd (hs'.symm.trans hs) Bool.noConfusion
          · exact hspent
        rw [callCount_congr hcalls, heq]
        exact Nat.min_eq_right (Nat.succ_le_succ hspent)
    · exact (h.spent n hn hnf').congr (callCount_congr hcalls n) (congrFun hsessions n)

theorem Pass.leave (h : Pass cfg s (a + 1) failed) (htasks : ∀ n, s.tasks n = none)
    (hbound : ∀ n ∈ failed, cfg.retries n ≤ a) (hcalls : m.calls = s.calls)
    (hsessions : m.sessions = s.sessions) (htasks' : ∀ n, m.tasks n = none) (b : ℕ) :
    Pass cfg m b [] := by
  refine ⟨?_, ?_, ?_, ?_, ?_⟩
  · intro n hn
    exact absurd hn List.not_mem_nil
  · intro n t ht
    exact absurd (ht.symm.trans (htasks' n)) (Option.some_ne_none t)
  · intro n hn
    exact absurd hn List.not_mem_nil
  · intro n hn
    exact absurd hn List.not_mem_nil
  · intro n hn _
    by_cases hnf : n ∈ failed
    · -- the retries bound the round, so the minimum is all the calls there may be
      have hcount := h.count n hnf
      have hle := hbound n hnf
      rw [htasks n] at hcount
      change _ = _ + 0 at hcount
      have heq : m.callCount n = cfg.retries n + 1 := by
        rw [callCount_congr hcalls, hcount]
        omega
      exact ⟨heq ▸ Nat.succ_le_succ (Nat.zero_le _), Nat.le_of_eq heq, fun _ ↦ heq⟩
    · exact (h.spent n hn hnf).congr (callCount_congr hcalls n) (congrFun hsessions n)

theorem Pass.launch (h : Pass cfg s a failed) (ns : List String)
    (hns : ∀ n ∈ ns, n ∈ failed ∧ a ≤ cfg.retries n ∧ s.tasks n = none)
    (htasks : m.tasks = (s.launch ns).tasks) (hcalls : m.calls = s.calls)
    (hsessions : m.sessions = s.sessions) : Pass cfg m a failed := by
  refine ⟨h.scope, ?_, ?_, ?_, ?_⟩
  · intro n t ht
    rw [htasks, tasks_launch] at ht
    by_cases hn : n ∈ ns
    · rw [if_pos hn, Option.some.injEq] at ht
      obtain ⟨hf, ha, -⟩ := hns n hn
      exact ht ▸ ⟨hf, ha, rfl⟩
    · rw [if_neg hn] at ht
      exact h.task n t ht
  · intro n hf
    rw [callCount_congr hcalls, h.count n hf, htasks, tasks_launch]
    by_cases hn : n ∈ ns
    · rw [if_pos hn, (hns n hn).2.2]
      rfl
    · rw [if_neg hn]
  · intro n hf
    rw [hsessions, h.session n hf, htasks, tasks_launch]
    by_cases hn : n ∈ ns
    · rw [if_pos hn, (hns n hn).2.2]
      rfl
    · rw [if_neg hn]
  · intro n hn hnf
    exact (h.spent n hn hnf).congr (callCount_congr hcalls n) (congrFun hsessions n)

theorem Pass.congr (h : Pass cfg s a failed) (htasks : m.tasks = s.tasks)
    (hcalls : m.calls = s.calls) (hsessions : m.sessions = s.sessions) : Pass cfg m a failed := by
  have hlaunch : m.tasks = (s.launch []).tasks := by
    funext n
    rw [tasks_launch, if_neg List.not_mem_nil, htasks]
  exact h.launch [] (fun _ hn ↦ absurd hn List.not_mem_nil) hlaunch hcalls hsessions

theorem History.congr (h : History s) (hcalls : m.calls = s.calls)
    (hsessions : m.sessions = s.sessions) (houtcomes : m.outcomes = s.outcomes) : History m := by
  refine ⟨fun n ↦ ?_, ?_, fun n ↦ ?_⟩
  · rw [State.firstCalls, hcalls, callCount_congr hcalls]
    exact h.first n
  · rw [hcalls]
    exact h.sessionless
  · rw [hsessions, houtcomes]
    exact h.sessions_iff n

end Ledger

/-! ## The record of a backend -/

section Records

variable {cfg : Config} {s m : State} {n : String}

/-- How the record of a backend stands. -/
structure Standing (cfg : Config) (s : State) (n : String) : Prop where
  known : s.phaseOf n ≠ none → n ∈ cfg.names
  connected : s.sessions n = true → s.phaseOf n = some .ready
  unconnected : s.sessions n = false →
    s.phaseOf n ∈ [none, some .initializing, some .retrying, some .failed]
  running : ∀ c, s.tasks n = some ⟨.running, c⟩ → s.phaseOf n = some .initializing
  pledged : s.unsettled n = true →
    s.authPending n = true ∨ s.unfinished n = true ∨ RetryLeft cfg s n

theorem phaseOf_congr (h : m.records n = s.records n) : m.phaseOf n = s.phaseOf n := by
  rw [State.phaseOf, State.phaseOf, h]

theorem unsettled_congr (h : m.phaseOf n = s.phaseOf n) : m.unsettled n = s.unsettled n := by
  rw [State.unsettled, State.unsettled, h]

/-- Where neither the record nor the session changes, an unfinished task may be added, but not
taken away. -/
theorem Standing.congr (h : Standing cfg s n) (hphase : m.phaseOf n = s.phaseOf n)
    (hsession : m.sessions n = s.sessions n) (hcount : m.callCount n = s.callCount n)
    (hauth : m.authPending n = s.authPending n)
    (hrunning : ∀ c, m.tasks n = some ⟨.running, c⟩ → s.tasks n = some ⟨.running, c⟩)
    (hunfinished : s.unfinished n = true → m.unfinished n = true) : Standing cfg m n := by
  refine ⟨?_, ?_, ?_, ?_, ?_⟩
  · rw [hphase]
    exact h.known
  · rw [hphase, hsession]
    exact h.connected
  · rw [hphase, hsession]
    exact h.unconnected
  · intro c hc
    rw [hphase]
    exact h.running c (hrunning c hc)
  · intro hun
    rw [unsettled_congr hphase] at hun
    rw [hauth, RetryLeft, hsession, hcount]
    obtain hauth | hun | hleft := h.pledged hun
    · exact Or.inl hauth
    · exact Or.inr (Or.inl (hunfinished hun))
    · exact Or.inr (Or.inr hleft)

theorem phaseOf_startBackendSvr
    (h : s.phaseOf n ∈ [none, some .initializing, some .retrying, some .failed]) :
    (startBackendSvr cfg s n).phaseOf n = some .initializing := by
  rw [State.phaseOf, startBackendSvr]
  dsimp only
  rw [Function.update_self, Option.map_some, BackendStatusRecord.phase_tryTransition,
    State.ensureStatusRecord]
  rw [State.phaseOf] at h
  cases hrecord : s.records n with
  | none => rfl
  | some record =>
    rw [hrecord] at h
    simp only [Option.map_some, List.mem_cons, reduceCtorEq, Option.some.injEq, List.not_mem_nil,
      or_false, false_or] at h
    rw [Option.getD_some]
    obtain h | h | h := h <;> rw [h] <;> rfl

/-- The phase in which a call leaves the record of its backend. -/
def phaseAfter (authPending : Bool) : Outcome → BackendPhase
  | .success => .ready
  | .refused _ => .failed
  | .failure _ => if authPending = true then .initializing else .failed
  | .exception => .initializing
  | .cancelled => .initializing

theorem phaseOf_modifyRecord (f : BackendStatusRecord Unit → BackendStatusRecord Unit)
    (k : String) : (s.modifyRecord n f).phaseOf k
      = if k = n then (s.records n).map (fun record ↦ (f record).phase) else s.phaseOf k := by
  rw [State.phaseOf, State.modifyRecord]
  dsimp only
  rw [Function.update_apply]
  by_cases hk : k = n
  · rw [if_pos hk, if_pos hk, Option.map_map]
    rfl
  · rw [if_neg hk, if_neg hk]
    rfl

theorem phaseOf_endCall_of_ne {k : String} (hk : k ≠ n) (o : Outcome) :
    (endCall s n o).phaseOf k = s.phaseOf k := by
  have hmodify : ∀ f, (s.modifyRecord n f).phaseOf k = s.phaseOf k := by
    intro f
    rw [phaseOf_modifyRecord, if_neg hk]
  cases o with
  | success | refused reason | failure reason => exact hmodify _
  | exception => rfl
  | cancelled => rfl

theorem phaseOf_endCall (h : s.phaseOf n = some .initializing) (o : Outcome) :
    (endCall s n o).phaseOf n = some (phaseAfter (s.authPending n) o) := by
  obtain ⟨record, hrecord, hphase⟩ := Option.map_eq_some_iff.mp h
  have hmodify : ∀ f : BackendStatusRecord Unit → BackendStatusRecord Unit,
      (s.modifyRecord n f).phaseOf n = some (f record).phase := by
    intro f
    rw [phaseOf_modifyRecord, if_pos rfl, hrecord, Option.map_some]
  have htry : ∀ target message, (record.tryTransition target message).phase
      = if isValidBackendTransition .initializing target = true then target
        else .initializing := by
    intro target message
    rw [BackendStatusRecord.phase_tryTransition, hphase]
  cases o with
  | success | refused reason => exact (hmodify _).trans (congrArg some (htry _ _))
  | failure reason =>
    refine (hmodify _).trans (congrArg some ?_)
    rw [phaseAfter]
    by_cases hauth : s.authPending n = true
    · rw [if_pos hauth, if_pos hauth]
      exact htry _ _
    · rw [if_neg hauth, if_neg hauth]
      exact htry _ _
  | exception => exact h
  | cancelled => exact h

/-- Signalling the retry moves the failed records on and leaves all others. -/
theorem phaseOf_signalRetryPhase (head : LoopHead) :
    (signalRetryPhase s head).phaseOf n
      = if n ∈ head.failed ∧ s.phaseOf n = some .failed then some .retrying
        else s.phaseOf n := by
  rw [State.phaseOf, signalRetryPhase]
  dsimp only
  by_cases hn : n ∈ head.failed
  · rw [if_pos hn, Option.map_map, State.phaseOf]
    cases hrecord : s.records n with
    | none =>
      rw [if_neg (by simp)]
      rfl
    | some record =>
      rw [Option.map_some, Option.map_some, Function.comp_apply,
        BackendStatusRecord.phase_tryTransition]
      have hvalid : isValidBackendTransition record.phase .retrying = true
          ↔ record.phase = .failed := by
        cases record.phase <;> decide
      by_cases hfailed : record.phase = .failed
      · rw [if_pos (hvalid.mpr hfailed), if_pos ⟨hn, congrArg some hfailed⟩]
      · rw [if_neg (hfailed ∘ hvalid.mp), if_neg fun h ↦ hfailed (Option.some.inj h.2)]
  · rw [if_neg hn, if_neg (hn ∘ And.left)]
    rfl

end Records

/-! ## The invariant -/

section Invariant

variable {cfg : Config} {s m : State} {n : String}

/-- The backends of the pass that is going on. -/
def Pc.scope (cfg : Config) : Pc → List String
  | .delaying _ failed _ => failed
  | .awaitingAuth _ failed _ => failed
  | .retrying _ failed _ => failed
  | .returned => []
  | _ => cfg.names

/-- Those of them that have no task yet. -/
def Pc.unlaunched (cfg : Config) : Pc → List String
  | .yielding => cfg.stdioItems
  | .stdioSequential _ _ rest => rest
  | .delaying _ failed _ => failed
  | .awaitingAuth _ failed _ => failed
  | _ => []

/-- Those whose task may be unfinished. -/
def Pc.busy (cfg : Config) : Pc → List String
  | .yielding => cfg.remoteItems
  | .stdioSequential _ current _ => current :: cfg.remoteItems
  | .stdioParallel => cfg.names
  | .gathering => cfg.remoteItems
  | .retrying _ failed _ => failed
  | _ => []

/-- What is known about the place itself, when no shutdown has been requested. -/
def Pc.WellFormed (cfg : Config) : Pc → Prop
  | .stdioSequential flag _ rest => flag = false ∧ rest.Nodup ∧ ∀ n ∈ rest, n ∈ cfg.stdioItems
  | .delaying a failed k => 1 ≤ a ∧ ∀ n ∈ failed, cfg.retries n ≤ k
  | .awaitingAuth a failed k => 1 ≤ a ∧ ∀ n ∈ failed, cfg.retries n ≤ k
  | .retrying a failed k => 1 ≤ a ∧ ∀ n ∈ failed, cfg.retries n ≤ k
  | _ => True

/-- A remote backend whose first call has been cancelled has no retries. -/
def Spared (cfg : Config) (s : State) : Prop :=
  ∀ n ∈ cfg.remoteItems, (s.tasks n).map Task.stage = some (.finished .cancelled) →
    cfg.retries n = 0

/-- Which backends have tasks, and whose tasks may be unfinished. -/
structure Layout (cfg : Config) (s : State) : Prop where
  launched : ∀ n ∈ s.pc.scope cfg, n ∉ s.pc.unlaunched cfg → s.pc.attempt ≤ cfg.retries n →
    s.tasks n ≠ none
  unlaunched : ∀ n ∈ s.pc.unlaunched cfg, s.tasks n = none
  busy : ∀ n, s.unfinished n = true → n ∈ s.pc.busy cfg
  spared : s.pc.attempt = 0 → Spared cfg s
  wellFormed : s.pc.WellFormed cfg

/-- What holds at every point of an orderly run without a shutdown. -/
structure Inv (cfg : Config) (s : State) : Prop where
  shutdownRequested : s.shutdownRequested = false
  pass : Pass cfg s s.pc.attempt (s.pc.scope cfg)
  history : History s
  layout : Layout cfg s
  standing : ∀ n, Standing cfg s n

theorem mem_names_iff : n ∈ cfg.names ↔ n ∈ cfg.remoteItems ∨ n ∈ cfg.stdioItems := by
  rw [Config.remoteItems, Config.stdioItems, List.mem_append, List.mem_filter, List.mem_filter,
    List.mem_filter]
  simp only [decide_eq_true_eq, ← and_or_left]
  refine ⟨fun hn ↦ ⟨hn, ?_⟩, And.left⟩
  obtain ⟨backend, hbackend⟩ := Dict.mem_keys_iff.mp hn
  rw [Config.typeOf, hbackend, Option.map_some]
  cases backend.type <;> simp

theorem exists_task_of_unfinished (h : s.unfinished n = true) :
    ∃ t, s.tasks n = some t ∧ t.done = false := by
  rw [State.unfinished] at h
  cases ht : s.tasks n with
  | none =>
    rw [ht] at h
    exact absurd h Bool.false_ne_true
  | some t =>
    rw [ht, Option.any_some, Bool.not_eq_true'] at h
    exact ⟨t, rfl, h⟩

theorem not_finished (h : s.unfinished n = true) : ¬s.finished n = true := by
  obtain ⟨t, ht, hdone⟩ := exists_task_of_unfinished h
  rw [State.finished, ht, Option.any_some, hdone]
  exact Bool.false_ne_true

/-! ### Into the loop and out of it -/

structure AtHead (cfg : Config) (s : State) (head : LoopHead) : Prop where
  shutdownRequested : s.shutdownRequested = false
  pass : Pass cfg s head.attempt head.failed
  history : History s
  standing : ∀ n, Standing cfg s n
  tasks : ∀ n, s.tasks n = none
  one_le : 1 ≤ head.attempt
  bound : ∀ n ∈ head.failed, cfg.retries n ≤ head.maxRetries

theorem unfinished_of_none (h : s.tasks n = none) : s.unfinished n = false := by
  rw [State.unfinished, h]
  rfl

/-- Where there are no tasks, the layout is a matter of the place. -/
theorem layout_of_none (htasks : ∀ n, s.tasks n = none)
    (hscope : ∀ n ∈ s.pc.scope cfg, n ∈ s.pc.unlaunched cfg) (hwf : s.pc.WellFormed cfg) :
    Layout cfg s := by
  refine ⟨?_, ?_, ?_, ?_, hwf⟩
  · intro n hn hnot _
    exact absurd (hscope n hn) hnot
  · intro n _
    exact htasks n
  · intro n hn
    rw [unfinished_of_none (htasks n)] at hn
    exact absurd hn Bool.false_ne_true
  · intro _ n _ hcancelled
    rw [htasks n] at hcancelled
    exact absurd hcancelled.symm (Option.some_ne_none _)

theorem AtHead.retryFailedBackends {head : LoopHead} (h : AtHead cfg s head)
    (hguard : head.goesOn s = true → ∀ n ∈ head.failed, s.phaseOf n = some .failed →
      s.authPending n = true ∨ head.attempt ≤ cfg.retries n) :
    Inv cfg (retryFailedBackends s head) := by
  rw [Startup.retryFailedBackends]
  by_cases hgo : head.goesOn s = true
  · rw [if_pos hgo]
    refine ⟨h.shutdownRequested, h.pass.congr rfl rfl rfl, h.history.congr rfl rfl rfl, ?_, ?_⟩
    · exact layout_of_none h.tasks (fun _ ↦ id) ⟨h.one_le, h.bound⟩
    · intro n
      have hphase := phaseOf_signalRetryPhase (s := s) (n := n) head
      by_cases hsignalled : n ∈ head.failed ∧ s.phaseOf n = some .failed
      · -- the record is moved on, so the backend is to have a retry or a pending discovery
        obtain ⟨hn, hfailed⟩ := hsignalled
        rw [if_pos ⟨hn, hfailed⟩] at hphase
        have hsession : s.sessions n = false := by
          rw [h.pass.session n hn, h.tasks n]
          rfl
        refine ⟨fun _ ↦ h.pass.scope n hn, ?_, ?_, ?_, ?_⟩
        · intro hs
          exact absurd (hsession.symm.trans hs) Bool.false_ne_true
        · intro _
          change (signalRetryPhase s head).phaseOf n ∈ _
          rw [hphase]
          decide
        · intro c hc
          exact absurd (hc.symm.trans (h.tasks n)) (Option.some_ne_none _)
        · intro _
          obtain hauth | hleft := hguard hgo n hn hfailed
          · exact Or.inl hauth
          · refine Or.inr (Or.inr ⟨hsession, ?_⟩)
            have hcount := h.pass.count n hn
            rw [h.tasks n] at hcount
            change _ = _ + 0 at hcount
            change s.callCount n ≤ _
            omega
      · rw [if_neg hsignalled] at hphase
        exact (h.standing n).congr hphase rfl rfl rfl (fun _ ↦ id) id
  · rw [if_neg hgo]
    -- nobody has failed, or the rounds of even the most retries are over
    refine ⟨h.shutdownRequested, ?_, h.history.congr rfl rfl rfl, ?_, ?_⟩
    · have hbound : ∀ n ∈ head.failed, cfg.retries n ≤ head.attempt - 1 := by
        intro n hn
        have hle := h.bound n hn
        rw [LoopHead.goesOn, h.shutdownRequested, Bool.not_false, Bool.and_true,
          decide_eq_true_eq, not_and'] at hgo
        have hlt := hgo (List.ne_nil_of_mem hn)
        omega
      have hpass : Pass cfg s (head.attempt - 1 + 1) head.failed := by
        rw [Nat.sub_add_cancel h.one_le]
        exact h.pass
      exact hpass.leave (m := { s with pc := .returned }) h.tasks hbound rfl rfl h.tasks 0
    · exact layout_of_none h.tasks (fun _ hn ↦ absurd hn List.not_mem_nil) trivial
    · intro n
      exact (h.standing n).congr rfl rfl rfl rfl (fun _ ↦ id) id

theorem Standing.drop (h : Standing cfg s n) (hphase : m.phaseOf n = s.phaseOf n)
    (hsession : m.sessions n = s.sessions n) (hcount : m.callCount n = s.callCount n)
    (hauth : m.authPending n = s.authPending n) (htask : m.tasks n = none)
    (hunfinished : s.unfinished n = false) : Standing cfg m n := by
  refine h.congr hphase hsession hcount hauth ?_ ?_
  · intro c hc
    exact absurd (hc.symm.trans htask) (Option.some_ne_none _)
  · intro hun
    exact absurd (hunfinished.symm.trans hun) Bool.false_ne_true

theorem atHead_endRound (head : LoopHead) (hshutdown : s.shutdownRequested = false)
    (hpass : Pass cfg s head.attempt head.failed) (hhistory : History s)
    (hstanding : ∀ n, Standing cfg s n) (hdone : ∀ n, s.unfinished n = false)
    (hlaunched : ∀ n ∈ head.failed, head.attempt ≤ cfg.retries n → s.tasks n ≠ none)
    (hbound : ∀ n ∈ head.failed, cfg.retries n ≤ head.maxRetries) :
    AtHead cfg { s with tasks := fun _ ↦ none } ⟨head.attempt + 1,
      head.failed.filter fun n ↦ !s.sessions n, head.maxRetries⟩ := by
  have hmem : ∀ n, n ∈ (head.failed.filter fun n ↦ !s.sessions n)
      ↔ n ∈ head.failed ∧ s.sessions n = false := by
    intro n
    rw [List.mem_filter, Bool.not_eq_true']
  refine ⟨hshutdown, ?_, hhistory.congr rfl rfl rfl, ?_, fun _ ↦ rfl,
    Nat.succ_le_succ (Nat.zero_le _), ?_⟩
  · refine hpass.next (fun n hn ↦ ((hmem n).mp hn).1) (fun n _ ↦ hdone n) hlaunched
      (fun n hn ↦ ((hmem n).mp hn).2) ?_ (fun _ ↦ rfl) rfl rfl
    intro n hn hnot
    rw [hmem, not_and, Bool.not_eq_false] at hnot
    exact Or.inl (hnot hn)
  · intro n
    exact (hstanding n).drop rfl rfl rfl rfl rfl (hdone n)
  · intro n hn
    exact hbound n ((hmem n).mp hn).1

theorem le_maxRetries {failed : List String} (hn : n ∈ failed) :
    cfg.retries n ≤ cfg.maxRetries failed := by
  rw [Config.maxRetries]
  induction failed with
  | nil => exact absurd hn List.not_mem_nil
  | cons k failed ih =>
    rw [List.map_cons, List.foldr_cons]
    obtain rfl | hn := List.mem_cons.mp hn
    · exact Nat.le_max_left _ _
    · exact Nat.le_trans (ih hn) (Nat.le_max_right _ _)

/-- In the first pass, with the stdio backends `rest` still to be launched: all other tasks are
there, and those that may be unfinished are remote. -/
structure FirstPass (cfg : Config) (s : State) (rest : List String) : Prop where
  shutdownRequested : s.shutdownRequested = false
  pass : Pass cfg s 0 cfg.names
  history : History s
  standing : ∀ n, Standing cfg s n
  launched : ∀ n ∈ cfg.names, n ∉ rest → s.tasks n ≠ none
  unlaunched : ∀ n ∈ rest, s.tasks n = none
  busy : ∀ n, s.unfinished n = true → n ∈ cfg.remoteItems
  spared : Spared cfg s
  nodup : rest.Nodup
  stdio : ∀ n ∈ rest, n ∈ cfg.stdioItems

/-- When all tasks are done, the backends that count as failed have no session, and the others have
one or no retries. -/
theorem FirstPass.failedNames (h : FirstPass cfg s []) (hdone : ∀ n, s.unfinished n = false) :
    (∀ n ∈ failedNames cfg s, n ∈ cfg.names ∧ s.sessions n = false) ∧
      ∀ n ∈ cfg.names, n ∉ failedNames cfg s → s.sessions n = true ∨ cfg.retries n ≤ 0 := by
  have hmem : ∀ n, n ∈ Startup.failedNames cfg s
      ↔ n ∈ cfg.names ∧ firstPassResult cfg s n = some false := by
    intro n
    rw [Startup.failedNames, List.mem_filter, List.mem_append, ← mem_names_iff, decide_eq_true_eq]
  have hfinished : ∀ n ∈ cfg.names, ∃ o c, s.tasks n = some ⟨.finished o, c⟩ := by
    intro n hn
    obtain ⟨⟨stage, c⟩, ht⟩ := Option.ne_none_iff_exists'.mp (h.launched n hn List.not_mem_nil)
    have hd := hdone n
    rw [State.unfinished, ht, Option.any_some, Bool.not_eq_false'] at hd
    cases stage with
    | waiting | running => exact absurd hd Bool.false_ne_true
    | finished o => exact ⟨o, c, ht⟩
  constructor
  · intro n hn
    obtain ⟨hn, hresult⟩ := (hmem n).mp hn
    obtain ⟨o, c, ht⟩ := hfinished n hn
    refine ⟨hn, ?_⟩
    rw [h.pass.session n hn, ht]
    rw [firstPassResult, ht, Option.map_some] at hresult
    cases o with
    | success =>
      have htrue : (if n ∈ cfg.remoteItems then remoteResult .success else stdioResult .success)
          = true := by
        split <;> rfl
      exact absurd (htrue.symm.trans (Option.some.inj hresult)) Bool.noConfusion
    | refused | failure | exception | cancelled => rfl
  · intro n hn hnot
    obtain ⟨o, c, ht⟩ := hfinished n hn
    rw [hmem, not_and] at hnot
    have hresult := hnot hn
    rw [firstPassResult, ht, Option.map_some] at hresult
    cases o with
    | success =>
      left
      rw [h.pass.session n hn, ht]
      rfl
    | cancelled =>
      right
      -- the result is `True`, and nothing else would have the backend tried again
      by_cases hremote : n ∈ cfg.remoteItems
      · refine Nat.le_of_eq (h.spared n hremote ?_)
        rw [ht]
        rfl
      · exact absurd (congrArg some (if_neg hremote)) hresult
    | refused reason | failure reason | exception =>
      refine absurd (congrArg some ?_) hresult
      split <;> rfl

theorem FirstPass.endFirstPass (h : FirstPass cfg s []) (hdone : ∀ n, s.unfinished n = false)
    (hguard : RoundOrderly cfg s (endFirstPass cfg s).2) :
    Inv cfg (enter (endFirstPass cfg s)) := by
  obtain ⟨hfailed, hrest⟩ := h.failedNames hdone
  have hpass : Pass cfg (Startup.endFirstPass cfg s).1 (0 + 1) (Startup.failedNames cfg s) :=
    h.pass.next (fun n hn ↦ (hfailed n hn).1) (fun n _ ↦ hdone n)
      (fun n hn _ ↦ h.launched n hn List.not_mem_nil)
      (fun n hn ↦ (hfailed n hn).2) hrest (fun _ ↦ rfl) rfl rfl
  have hstanding : ∀ n, Standing cfg (Startup.endFirstPass cfg s).1 n :=
    fun n ↦ (h.standing n).drop rfl rfl rfl rfl rfl (hdone n)
  by_cases hhead : Startup.failedNames cfg s ≠ [] ∧ s.shutdownRequested = false
  · have hat : AtHead cfg (Startup.endFirstPass cfg s).1 ⟨1, Startup.failedNames cfg s,
        cfg.maxRetries (Startup.failedNames cfg s)⟩ :=
      ⟨h.shutdownRequested, hpass, h.history.congr rfl rfl rfl, hstanding, fun _ ↦ rfl,
        Nat.le_refl 1, fun _ ↦ le_maxRetries⟩
    have hsome : (Startup.endFirstPass cfg s).2 = some ⟨1, Startup.failedNames cfg s,
        cfg.maxRetries (Startup.failedNames cfg s)⟩ := if_pos hhead
    rw [hsome] at hguard
    rw [enter, hsome]
    exact hat.retryFailedBackends hguard
  · have hnone : (Startup.endFirstPass cfg s).2 = none := if_neg hhead
    have hempty : Startup.failedNames cfg s = [] := by
      by_contra hne
      exact hhead ⟨hne, h.shutdownRequested⟩
    rw [hempty] at hpass
    rw [enter, hnone]
    refine ⟨h.shutdownRequested, ?_, h.history.congr rfl rfl rfl, ?_, hstanding⟩
    · exact hpass.leave (fun _ ↦ rfl) (fun n hn ↦ absurd hn List.not_mem_nil) rfl rfl
        (fun _ ↦ rfl) 0
    · exact layout_of_none (fun _ ↦ rfl) (fun _ hn ↦ absurd hn List.not_mem_nil) trivial

theorem FirstPass.gatherRemoteResults (h : FirstPass cfg s [])
    (hguard : RoundOrderly cfg s (gatherRemoteResults cfg s).2) :
    Inv cfg (enter (gatherRemoteResults cfg s)) := by
  by_cases hremote : cfg.remoteItems = []
  · have hgather : Startup.gatherRemoteResults cfg s = Startup.endFirstPass cfg s := if_pos hremote
    rw [hgather] at hguard ⊢
    -- no remote task is there, and no other one can be unfinished
    refine h.endFirstPass (fun n ↦ ?_) hguard
    by_contra hun
    have hn := h.busy n (eq_true_of_ne_false hun)
    rw [hremote] at hn
    exact List.not_mem_nil hn
  · have hgather : Startup.gatherRemoteResults cfg s = ({ s with pc := .gathering }, none) :=
      if_neg hremote
    rw [hgather]
    refine ⟨h.shutdownRequested, h.pass.congr rfl rfl rfl, h.history.congr rfl rfl rfl, ?_, ?_⟩
    · refine ⟨fun n hn hnot _ ↦ h.launched n hn hnot, fun n hn ↦ absurd hn List.not_mem_nil, h.busy,
        fun _ ↦ h.spared, trivial⟩
    · intro n
      exact (h.standing n).congr rfl rfl rfl rfl (fun _ ↦ id) id

theorem unfinished_launch (ns : List String) (n : String) :
    (s.launch ns).unfinished n = if n ∈ ns then true else s.unfinished n := by
  rw [State.unfinished, tasks_launch]
  by_cases hn : n ∈ ns
  · rw [if_pos hn, if_pos hn]
    rfl
  · rw [if_neg hn, if_neg hn]
    rfl

theorem Standing.launch (h : Standing cfg s n) (ns : List String)
    (hphase : m.phaseOf n = s.phaseOf n) (hsession : m.sessions n = s.sessions n)
    (hcount : m.callCount n = s.callCount n) (hauth : m.authPending n = s.authPending n)
    (htasks : m.tasks n = (s.launch ns).tasks n) : Standing cfg m n := by
  refine h.congr hphase hsession hcount hauth ?_ ?_
  · intro c hc
    rw [htasks, tasks_launch] at hc
    by_cases hn : n ∈ ns
    · rw [if_pos hn] at hc
      exact absurd (Option.some.inj hc) (by simp)
    · rwa [if_neg hn] at hc
  · intro hun
    have hlaunch := unfinished_launch (s := s) ns n
    rw [State.unfinished] at hlaunch ⊢
    rw [htasks, hlaunch, hun, ite_self]

theorem Spared.launch (h : Spared cfg s) (ns : List String)
    (htasks : m.tasks = (s.launch ns).tasks) : Spared cfg m := by
  intro n hn hcancelled
  rw [htasks, tasks_launch] at hcancelled
  by_cases hmem : n ∈ ns
  · rw [if_pos hmem] at hcancelled
    exact absurd (Option.some.inj hcancelled) (by simp)
  · rw [if_neg hmem] at hcancelled
    exact h n hn hcancelled

theorem FirstPass.launch {rest : List String} (h : FirstPass cfg s rest) (ns : List String)
    (hns : ∀ n ∈ ns, n ∈ rest) (pc : Pc) (hattempt : pc.attempt = 0)
    (hscope : pc.scope cfg = cfg.names) (hleft : ∀ n ∈ rest, n ∉ pc.unlaunched cfg → n ∈ ns)
    (hunlaunched : ∀ n ∈ pc.unlaunched cfg, n ∈ rest ∧ n ∉ ns)
    (hbusy : ∀ n, n ∈ ns ∨ n ∈ cfg.remoteItems → n ∈ pc.busy cfg) (hwf : pc.WellFormed cfg) :
    Inv cfg { s.launchPending ns with pc := pc } := by
  have hpass : Pass cfg { s.launchPending ns with pc := pc } 0 cfg.names := by
    refine h.pass.launch ns (fun n hn ↦ ?_) rfl rfl rfl
    have hrest := hns n hn
    exact ⟨mem_names_iff.mpr (Or.inr (h.stdio n hrest)), Nat.zero_le _, h.unlaunched n hrest⟩
  refine ⟨h.shutdownRequested, ?_, h.history.congr rfl rfl rfl, ?_, ?_⟩
  · rwa [← hattempt, ← hscope] at hpass
  · refine ⟨?_, ?_, ?_, fun _ ↦ h.spared.launch ns rfl, hwf⟩
    · intro n hn hnot _
      change (s.launch ns).tasks n ≠ none
      rw [tasks_launch]
      by_cases hmem : n ∈ ns
      · rw [if_pos hmem]
        exact Option.some_ne_none _
      · rw [if_neg hmem]
        exact h.launched n (hscope ▸ hn) fun hrest ↦ hmem (hleft n hrest hnot)
    · intro n hn
      obtain ⟨hrest, hmem⟩ := hunlaunched n hn
      change (s.launch ns).tasks n = none
      rw [tasks_launch, if_neg hmem]
      exact h.unlaunched n hrest
    · intro n hun
      change (s.launch ns).unfinished n = true at hun
      rw [unfinished_launch] at hun
      by_cases hmem : n ∈ ns
      · exact hbusy n (Or.inl hmem)
      · rw [if_neg hmem] at hun
        exact hbusy n (Or.inr (h.busy n hun))
  · intro n
    exact (h.standing n).launch ns rfl rfl rfl rfl rfl

theorem FirstPass.connectStdio {rest : List String} (h : FirstPass cfg s rest)
    (hguard : RoundOrderly cfg s (connectStdio cfg s false rest).2) :
    Inv cfg (enter (connectStdio cfg s false rest)) := by
  cases rest with
  | nil => exact h.gatherRemoteResults hguard
  | cons n rest =>
    obtain ⟨hn, hnodup⟩ := List.nodup_cons.mp h.nodup
    refine h.launch [n] ?_ (.stdioSequential false n rest) rfl rfl ?_ ?_ ?_
      ⟨rfl, hnodup, ?_⟩
    · intro k hk
      rw [List.mem_singleton.mp hk]
      exact List.mem_cons_self
    · intro k hk hnot
      obtain hk | hk := List.mem_cons.mp hk
      · exact List.mem_singleton.mpr hk
      · exact absurd hk hnot
    · intro k hk
      refine ⟨List.mem_cons_of_mem n hk, fun hkn ↦ hn ?_⟩
      rwa [List.mem_singleton.mp hkn] at hk
    · rintro k (hk | hk)
      · rw [List.mem_singleton.mp hk]
        exact List.mem_cons_self
      · exact List.mem_cons_of_mem n hk
    · intro k hk
      exact h.stdio k (List.mem_cons_of_mem n hk)

theorem FirstPass.buildAndConnectStdio (h : FirstPass cfg s cfg.stdioItems)
    (hguard : RoundOrderly cfg s (buildAndConnectStdio cfg s false).2) :
    Inv cfg (enter (buildAndConnectStdio cfg s false)) := by
  by_cases hparallel : cfg.parallel = true ∧ 1 < cfg.stdioItems.length
  · have hbuild : Startup.buildAndConnectStdio cfg s false
        = ({ s.launchPending cfg.stdioItems with pc := .stdioParallel }, none) := by
      rw [Startup.buildAndConnectStdio, if_pos hparallel]
      rfl
    rw [hbuild]
    refine h.launch cfg.stdioItems (fun _ ↦ id) .stdioParallel rfl rfl (fun _ hn _ ↦ hn) ?_ ?_
      trivial
    · intro n hn
      exact absurd hn List.not_mem_nil
    · rintro n (hn | hn)
      · exact mem_names_iff.mpr (Or.inr hn)
      · exact mem_names_iff.mpr (Or.inl hn)
  · have hbuild : Startup.buildAndConnectStdio cfg s false
        = Startup.connectStdio cfg s false cfg.stdioItems := if_neg hparallel
    rw [hbuild] at hguard ⊢
    exact h.connectStdio hguard

theorem mem_retried_iff {head : LoopHead} :
    n ∈ retried cfg head ↔ n ∈ head.failed ∧ head.attempt ≤ cfg.retries n := by
  rw [retried, List.mem_filter, decide_eq_true_eq]

theorem AtHead.launchRetryTasks {head : LoopHead} (h : AtHead cfg s head)
    (hguard : RoundOrderly cfg s (launchRetryTasks cfg s head).2) :
    Inv cfg (enter (launchRetryTasks cfg s head)) := by
  by_cases hnone : retried cfg head = []
  · rw [launchRetryTasks_of_nil hnone] at hguard ⊢
    refine AtHead.retryFailedBackends (s := { s with tasks := fun _ ↦ none })
      (atHead_endRound head h.shutdownRequested h.pass h.history h.standing
        (fun n ↦ unfinished_of_none (h.tasks n)) ?_ h.bound) hguard
    intro n hn ha
    have hretried : n ∈ retried cfg head := mem_retried_iff.mpr ⟨hn, ha⟩
    rw [hnone] at hretried
    exact absurd hretried List.not_mem_nil
  · have hlaunch : Startup.launchRetryTasks cfg s head = ({ s.launch (retried cfg head) with
        pc := .retrying head.attempt head.failed head.maxRetries }, none) := if_neg hnone
    rw [hlaunch]
    have hpass : Pass cfg { s.launch (retried cfg head) with
        pc := .retrying head.attempt head.failed head.maxRetries } head.attempt head.failed := by
      refine h.pass.launch (retried cfg head) (fun n hn ↦ ?_) rfl rfl rfl
      obtain ⟨hf, ha⟩ := mem_retried_iff.mp hn
      exact ⟨hf, ha, h.tasks n⟩
    refine ⟨h.shutdownRequested, hpass, h.history.congr rfl rfl rfl, ?_, ?_⟩
    · refine ⟨?_, ?_, ?_, ?_, h.one_le, h.bound⟩
      · intro n hn _ ha
        change (s.launch (retried cfg head)).tasks n ≠ none
        rw [tasks_launch, if_pos (mem_retried_iff.mpr ⟨hn, ha⟩)]
        exact Option.some_ne_none _
      · intro n hn
        exact absurd hn List.not_mem_nil
      · intro n hun
        change (s.launch (retried cfg head)).unfinished n = true at hun
        rw [unfinished_launch] at hun
        by_cases hmem : n ∈ retried cfg head
        · exact (mem_retried_iff.mp hmem).1
        · rw [if_neg hmem, unfinished_of_none (h.tasks n)] at hun
          exact absurd hun Bool.false_ne_true
      · intro hzero
        exact absurd (Nat.le_zero.mp (hzero ▸ h.one_le)) Nat.one_ne_zero
    · intro n
      exact (h.standing n).launch (retried cfg head) rfl rfl rfl rfl rfl

/-! ### One event -/

theorem Inv.firstPass (h : Inv cfg s) (hattempt : s.pc.attempt = 0)
    (hscope : s.pc.scope cfg = cfg.names) {rest : List String}
    (hunlaunched : s.pc.unlaunched cfg = rest) (hnodup : rest.Nodup)
    (hstdio : ∀ n ∈ rest, n ∈ cfg.stdioItems)
    (hbusy : ∀ n ∈ s.pc.busy cfg, s.unfinished n = true → n ∈ cfg.remoteItems) :
    FirstPass cfg s rest := by
  have hpass := h.pass
  rw [hattempt, hscope] at hpass
  subst hunlaunched
  refine ⟨h.shutdownRequested, hpass, h.history, h.standing, ?_, h.layout.unlaunched, ?_,
    h.layout.spared hattempt, hnodup, hstdio⟩
  · intro n hn hnot
    exact h.layout.launched n (hscope ▸ hn) hnot (hattempt ▸ Nat.zero_le _)
  · intro n hun
    exact hbusy n (h.layout.busy n hun) hun

theorem Inv.atHead (h : Inv cfg s) {a k : ℕ} {failed : List String} (hattempt : s.pc.attempt = a)
    (hscope : s.pc.scope cfg = failed) (hunlaunched : s.pc.unlaunched cfg = failed) (hone : 1 ≤ a)
    (hbound : ∀ n ∈ failed, cfg.retries n ≤ k) : AtHead cfg s ⟨a, failed, k⟩ := by
  have hpass := h.pass
  rw [hattempt, hscope] at hpass
  refine ⟨h.shutdownRequested, hpass, h.history, h.standing, ?_, hone, hbound⟩
  intro n
  cases ht : s.tasks n with
  | none => rfl
  | some t =>
    have hn := (hpass.task n t ht).1
    exact ht ▸ h.layout.unlaunched n (hunlaunched ▸ hn)

theorem nodup_stdioItems : cfg.stdioItems.Nodup := List.Nodup.filter _ cfg.backends.nodup_keys

theorem Inv.resume (h : Inv cfg s) {p : State × Option LoopHead} (hp : advance cfg s = some p)
    (hguard : RoundOrderly cfg s p.2) : Inv cfg (enter p) := by
  have hwf := h.layout.wellFormed
  cases resumed_of_advance hp with
  | yielding hpc =>
    rw [h.shutdownRequested] at hguard ⊢
    refine FirstPass.buildAndConnectStdio (h.firstPass ?_ ?_ ?_ nodup_stdioItems (fun _ ↦ id) ?_)
      hguard <;> rw [hpc]
    · rfl
    · rfl
    · rfl
    · exact fun n hn _ ↦ hn
  | stdioSequential hpc hfinished =>
    rw [hpc] at hwf
    obtain ⟨rfl, hnodup, hstdio⟩ := hwf
    refine FirstPass.connectStdio (h.firstPass ?_ ?_ ?_ hnodup hstdio ?_) hguard <;> rw [hpc]
    · rfl
    · rfl
    · rfl
    · intro n hn hun
      obtain rfl | hn := List.mem_cons.mp hn
      · exact absurd hfinished (not_finished hun)
      · exact hn
  | stdioParallel hpc hfinished =>
    refine FirstPass.gatherRemoteResults (h.firstPass ?_ ?_ ?_ List.nodup_nil ?_ ?_) hguard
    · rw [hpc]
      rfl
    · rw [hpc]
      rfl
    · rw [hpc]
      rfl
    · exact fun n hn ↦ absurd hn List.not_mem_nil
    · rw [hpc]
      intro n hn hun
      -- all stdio tasks are done, and the first pass goes on with the remote ones
      obtain hn | hn := mem_names_iff.mp hn
      · exact hn
      · exact absurd (List.all_eq_true.mp hfinished n hn) (not_finished hun)
  | gathering hpc hfinished =>
    refine FirstPass.endFirstPass (h.firstPass ?_ ?_ ?_ List.nodup_nil ?_ ?_) ?_ hguard
    · rw [hpc]
      rfl
    · rw [hpc]
      rfl
    · rw [hpc]
      rfl
    · exact fun n hn ↦ absurd hn List.not_mem_nil
    · rw [hpc]
      exact fun n hn _ ↦ hn
    · intro n
      by_contra hun
      have hun' : s.unfinished n = true := eq_true_of_ne_false hun
      have hn := h.layout.busy n hun'
      rw [hpc] at hn
      exact not_finished hun' (List.all_eq_true.mp hfinished n hn)
  | @authPending a k failed hpc =>
    rw [hpc] at hwf
    have hat : AtHead cfg s ⟨a, failed, k⟩ := by
      refine h.atHead ?_ ?_ ?_ hwf.1 hwf.2 <;> rw [hpc] <;> rfl
    refine ⟨h.shutdownRequested, hat.pass.congr rfl rfl rfl, h.history.congr rfl rfl rfl, ?_, ?_⟩
    · exact layout_of_none hat.tasks (fun _ ↦ id) hwf
    · intro n
      exact (h.standing n).congr rfl rfl rfl rfl (fun _ ↦ id) id
  | delaying hpc =>
    rw [hpc] at hwf
    refine AtHead.launchRetryTasks (h.atHead ?_ ?_ ?_ hwf.1 hwf.2) hguard <;> rw [hpc] <;> rfl
  | awaitingAuth hpc =>
    rw [hpc] at hwf
    refine AtHead.launchRetryTasks (h.atHead ?_ ?_ ?_ hwf.1 hwf.2) hguard <;> rw [hpc] <;> rfl
  | @retrying a k failed hpc hfinished =>
    have hpass := h.pass
    have hlaunched := h.layout.launched
    rw [hpc] at hwf hpass hlaunched
    refine AtHead.retryFailedBackends (s := { s with tasks := fun _ ↦ none })
      (atHead_endRound ⟨a, failed, k⟩ h.shutdownRequested hpass h.history h.standing ?_
        (fun n hn ↦ hlaunched n hn List.not_mem_nil) hwf.2) hguard
    intro n
    by_contra hun
    have hun' : s.unfinished n = true := eq_true_of_ne_false hun
    obtain ⟨t, ht, -⟩ := exists_task_of_unfinished hun'
    obtain ⟨hn, ha, -⟩ := hpass.task n t ht
    exact not_finished hun' (List.all_eq_true.mp hfinished n (mem_retried_iff.mpr ⟨hn, ha⟩))

theorem Layout.setStage (h : Layout cfg s) {t : Task} (stage : Stage) (hpc : m.pc = s.pc)
    (ht : s.tasks n = some t) (hdone : t.done = false)
    (htasks : ∀ k, m.tasks k = if k = n then some { t with stage := stage } else s.tasks k)
    (hspared : stage = .finished .cancelled ∧ s.pc.attempt = 0 ∧ n ∈ cfg.remoteItems →
      cfg.retries n = 0) : Layout cfg m := by
  refine ⟨?_, ?_, ?_, ?_, ?_⟩
  · rw [hpc]
    intro k hk hnot ha
    rw [htasks]
    by_cases hkn : k = n
    · rw [if_pos hkn]
      exact Option.some_ne_none _
    · rw [if_neg hkn]
      exact h.launched k hk hnot ha
  · rw [hpc]
    intro k hk
    have hnone := h.unlaunched k hk
    rw [htasks, if_neg, hnone]
    rintro rfl
    exact absurd (ht.symm.trans hnone) (Option.some_ne_none t)
  · rw [hpc]
    intro k hun
    refine h.busy k ?_
    rw [State.unfinished]
    rw [State.unfinished, htasks] at hun
    by_cases hkn : k = n
    · rw [hkn, ht, Option.any_some, hdone]
      rfl
    · rwa [if_neg hkn] at hun
  · rw [hpc]
    intro hzero k hk hcancelled
    rw [htasks] at hcancelled
    by_cases hkn : k = n
    · rw [if_pos hkn, Option.map_some, Option.some.injEq] at hcancelled
      subst hkn
      exact hspared ⟨hcancelled, hzero, hk⟩
    · rw [if_neg hkn] at hcancelled
      exact h.spared hzero k hk hcancelled
  · rw [hpc]
    exact h.wellFormed

theorem Inv.begin (h : Inv cfg s) (ht : s.tasks n = some ⟨.waiting, false⟩) :
    Inv cfg (startBackendSvr cfg (s.setStage n ⟨.waiting, false⟩ .running) n) := by
  have htasks : ∀ k, (startBackendSvr cfg (s.setStage n ⟨.waiting, false⟩ .running) n).tasks k
      = if k = n then some ⟨.running, false⟩ else s.tasks k :=
    fun k ↦ Function.update_apply _ _ _ _
  obtain ⟨hsession, hcount, ha⟩ := h.pass.waiting ht
  refine ⟨h.shutdownRequested, h.pass.begin ht, h.history.begin h.pass ht, ?_, ?_⟩
  · exact h.layout.setStage .running rfl ht rfl htasks fun hcancelled ↦
      absurd hcancelled.1 (by simp)
  · intro k
    by_cases hk : k = n
    · subst hk
      have hphase : (startBackendSvr cfg (s.setStage k ⟨.waiting, false⟩ .running) k).phaseOf k
          = some .initializing := phaseOf_startBackendSvr ((h.standing k).unconnected hsession)
      refine ⟨fun _ ↦ h.pass.scope k (h.pass.task k _ ht).1, ?_, ?_, fun _ _ ↦ hphase, ?_⟩
      · intro hs
        exact absurd (hsession.symm.trans hs) Bool.false_ne_true
      · intro _
        rw [hphase]
        decide
      · intro _
        refine Or.inr (Or.inl ?_)
        rw [State.unfinished, htasks, if_pos rfl]
        rfl
    · refine (h.standing k).congr ?_ rfl ?_ rfl ?_ ?_
      · exact phaseOf_congr (Function.update_of_ne hk _ _)
      · rw [callCount_startBackendSvr, if_neg (Ne.symm hk), Nat.add_zero]
        rfl
      · intro c hc
        rwa [htasks, if_neg hk] at hc
      · intro hun
        rw [State.unfinished, htasks, if_neg hk]
        exact hun

/-- A record that is not in order after a call is initializing, for an auth discovery or because
the call has said nothing. -/
theorem phaseAfter_unsettled {authPending : Bool} {o : Outcome}
    (h : phaseAfter authPending o ∈ [.pending, .initializing, .retrying]) :
    authPending = true ∨ o.silent = true := by
  cases o with
  | success | refused reason => exact absurd h (by simp [phaseAfter])
  | failure reason =>
    left
    cases authPending with
    | true => rfl
    | false => exact absurd h (by simp [phaseAfter])
  | exception => exact Or.inr rfl
  | cancelled => exact Or.inr rfl

theorem phaseAfter_eq_ready_or (authPending : Bool) (o : Outcome) :
    (o = .success ∧ phaseAfter authPending o = .ready) ∨ (o ≠ .success ∧
      (phaseAfter authPending o = .initializing ∨ phaseAfter authPending o = .failed)) := by
  cases o with
  | success => exact Or.inl ⟨rfl, rfl⟩
  | failure reason => cases authPending <;> simp [phaseAfter]
  | refused reason | exception | cancelled => simp [phaseAfter]

theorem Inv.ended (h : Inv cfg s) {c : Bool} {o : Outcome} (ht : s.tasks n = some ⟨.running, c⟩)
    (hguard : Orderly cfg s (.ends n o)) : Inv cfg (ended s n c o) := by
  obtain ⟨hsilent, hspared⟩ := hguard
  obtain ⟨hsession, hcount, ha⟩ := h.pass.running ht
  have hpc : (Startup.ended s n c o).pc = s.pc := pc_endCall _ n o
  have hauth : (Startup.ended s n c o).authPending = s.authPending := authPending_endCall _ n o
  refine ⟨?_, ?_, h.history.ended c o, ?_, ?_⟩
  · exact (shutdownRequested_endCall _ n o).trans h.shutdownRequested
  · rw [hpc]
    exact h.pass.ended ht
  · refine h.layout.setStage (.finished o) hpc ht rfl (tasks_ended s n c o) ?_
    rintro ⟨hstage, hzero, hremote⟩
    exact hspared ⟨Stage.finished.inj hstage, hzero, hremote⟩
  · intro k
    by_cases hk : k = n
    · subst hk
      have hphase : (Startup.ended s k c o).phaseOf k = some (phaseAfter (s.authPending k) o) :=
        phaseOf_endCall (s := s.setStage k ⟨.running, c⟩ (.finished o))
          ((h.standing k).running c ht) o
      have hs : (Startup.ended s k c o).sessions k = true ↔ o = .success := by
        rw [sessions_ended, hsession]
        by_cases ho : o = .success <;> simp [ho]
      refine ⟨fun _ ↦ h.pass.scope k (h.pass.task k _ ht).1, ?_, ?_, ?_, ?_⟩
      · intro hconnected
        rw [hphase, hs.mp hconnected]
        rfl
      · intro hunconnected
        rw [hphase]
        obtain ⟨ho, -⟩ | ⟨-, hp | hp⟩ := phaseAfter_eq_ready_or (s.authPending k) o
        · exact absurd ((hs.mpr ho).symm.trans hunconnected) Bool.noConfusion
        · rw [hp]
          decide
        · rw [hp]
          decide
      · intro c' hc
        rw [tasks_ended, if_pos rfl, Option.some.injEq, Task.mk.injEq] at hc
        exact absurd hc.1 (by simp)
      · intro hun
        rw [State.unsettled, hphase, Option.any_some, decide_eq_true_eq] at hun
        rw [hauth]
        -- a call that has said nothing leaves the record to a discovery or a retry
        obtain hpending | ho := phaseAfter_unsettled hun
        · exact Or.inl hpending
        · obtain hpending | hleft := hsilent ho
          · exact Or.inl hpending
          · refine Or.inr (Or.inr ⟨?_, ?_⟩)
            · rw [Bool.eq_false_iff, Ne, hs]
              rintro rfl
              exact Bool.false_ne_true ho
            · rw [callCount_ended]
              exact hleft.2
    · refine (h.standing k).congr (phaseOf_endCall_of_ne hk o) ?_ (callCount_ended s n c o k)
        (congrFun hauth k) ?_ ?_
      · rw [sessions_ended, if_neg (hk ∘ And.left)]
      · intro c' hc
        rwa [tasks_ended, if_neg hk] at hc
      · intro hun
        rw [State.unfinished, tasks_ended, if_neg hk]
        exact hun

theorem Inv.setAuthPending (h : Inv cfg s) (b : Bool)
    (hpledged : b = false → s.unsettled n = true → s.unfinished n = true ∨ RetryLeft cfg s n) :
    Inv cfg { s with authPending := Function.update s.authPending n b } := by
  refine ⟨h.shutdownRequested, h.pass.congr rfl rfl rfl, h.history.congr rfl rfl rfl,
    ⟨h.layout.launched, h.layout.unlaunched, h.layout.busy, h.layout.spared, h.layout.wellFormed⟩,
    ?_⟩
  intro k
  obtain ⟨hknown, hconnected, hunconnected, hrunning, hpledge⟩ := h.standing k
  refine ⟨hknown, hconnected, hunconnected, hrunning, fun hun ↦ ?_⟩
  change Function.update s.authPending n b k = true ∨ _
  rw [Function.update_apply]
  by_cases hk : k = n
  · rw [if_pos hk]
    cases b with
    | true => exact Or.inl rfl
    | false =>
      subst hk
      exact Or.inr (hpledged rfl hun)
  · rw [if_neg hk]
    exact hpledge hun

theorem Inv.step (h : Inv cfg s) {e : Event} (hguard : Orderly cfg s e)
    (hstep : step cfg s e = some m) (hshutdown : m.shutdownRequested = false) : Inv cfg m := by
  cases e with
  | begin n =>
    obtain ⟨ht, rfl⟩ := step_begin.mp hstep
    exact h.begin ht
  | cancelDelivered n =>
    obtain ⟨ht, -⟩ := step_cancelDelivered.mp hstep
    -- without a shutdown no task has been asked to cancel
    exact absurd (h.pass.task n _ ht).2.2 Bool.noConfusion
  | ends n o =>
    obtain ⟨c, ht, rfl⟩ := step_ends.mp hstep
    exact h.ended ht hguard
  | authBegins n =>
    obtain ⟨c, -, rfl⟩ := step_authBegins.mp hstep
    exact h.setAuthPending true fun hfalse ↦ absurd hfalse.symm Bool.false_ne_true
  | authDone n =>
    obtain ⟨-, rfl⟩ := step_authDone.mp hstep
    exact h.setAuthPending false fun _ ↦ hguard
  | resume =>
    obtain ⟨p, hp, rfl⟩ := step_resume.mp hstep
    exact h.resume hp (hguard p hp)
  | cancelStartup =>
    obtain rfl := Option.some.inj hstep
    exact absurd hshutdown.symm Bool.false_ne_true

/-! ### All events -/

theorem standing_of_none (hrecords : ∀ n, s.records n = none)
    (hsessions : ∀ n, s.sessions n = false)
    (htasks : ∀ n c, s.tasks n ≠ some ⟨.running, c⟩) (n : String) : Standing cfg s n := by
  have hphase : s.phaseOf n = none := by
    rw [State.phaseOf, hrecords n]
    rfl
  refine ⟨fun hne ↦ absurd hphase hne, ?_, ?_, fun c hc ↦ absurd hc (htasks n c), ?_⟩
  · intro hs
    exact absurd ((hsessions n).symm.trans hs) Bool.false_ne_true
  · intro _
    rw [hphase]
    decide
  · intro hun
    rw [State.unsettled, hphase] at hun
    exact absurd hun Bool.false_ne_true

theorem firstPass_fresh (cfg : Config) :
    FirstPass cfg (State.fresh.launchPending cfg.remoteItems) cfg.stdioItems := by
  have htasks : ∀ n, (State.fresh.launchPending cfg.remoteItems).tasks n
      = if n ∈ cfg.remoteItems then some ⟨.waiting, false⟩ else none := fun _ ↦ rfl
  have hpass : Pass cfg State.fresh 0 cfg.names := by
    refine ⟨fun _ ↦ id, ?_, ?_, fun _ _ ↦ rfl, ?_⟩
    · intro n t ht
      exact absurd ht.symm (Option.some_ne_none t)
    · intro n _
      rw [Nat.zero_min]
      rfl
    · intro n hn hnot
      exact absurd hn hnot
  have hfirst : Pass cfg (State.fresh.launchPending cfg.remoteItems) 0 cfg.names := by
    refine hpass.launch cfg.remoteItems (fun n hn ↦ ?_) rfl rfl rfl
    exact ⟨mem_names_iff.mpr (Or.inl hn), Nat.zero_le _, rfl⟩
  refine ⟨rfl, hfirst, ⟨fun _ ↦ rfl, fun c hc ↦ absurd hc List.not_mem_nil, ?_⟩, ?_, ?_, ?_, ?_, ?_,
    nodup_stdioItems, fun _ ↦ id⟩
  · intro n
    exact iff_of_false Bool.false_ne_true List.not_mem_nil
  · refine standing_of_none (fun _ ↦ rfl) (fun _ ↦ rfl) fun n c hc ↦ ?_
    rw [htasks] at hc
    by_cases hn : n ∈ cfg.remoteItems
    · rw [if_pos hn, Option.some.injEq, Task.mk.injEq] at hc
      exact absurd hc.1 (by simp)
    · rw [if_neg hn] at hc
      exact absurd hc.symm (Option.some_ne_none _)
  · intro n hn hnot
    rw [htasks, if_pos ((mem_names_iff.mp hn).resolve_right hnot)]
    exact Option.some_ne_none _
  · intro n hn
    rw [htasks, if_neg]
    intro hremote
    rw [Config.remoteItems, List.mem_append, List.mem_filter, List.mem_filter] at hremote
    have htype := (List.mem_filter.mp hn).2
    rw [decide_eq_true_eq] at htype
    simp [htype] at hremote
  · intro n hun
    obtain ⟨t, ht, -⟩ := exists_task_of_unfinished hun
    by_contra hn
    rw [htasks, if_neg hn] at ht
    exact absurd ht.symm (Option.some_ne_none t)
  · intro n hn hcancelled
    rw [htasks, if_pos hn] at hcancelled
    exact absurd (Option.some.inj hcancelled) (by simp)

theorem roundOrderly_of_ne (h : ∀ n, s.phaseOf n ≠ some .failed) (head : Option LoopHead) :
    RoundOrderly cfg s head := by
  cases head with
  | none => trivial
  | some head => exact fun _ n _ hfailed ↦ absurd hfailed (h n)

theorem inv_startAll (cfg : Config) : Inv cfg (startAll cfg) := by
  have hfresh := firstPass_fresh cfg
  rw [startAll]
  by_cases hremote : cfg.remoteItems = []
  · rw [if_pos hremote]
    refine hfresh.buildAndConnectStdio (roundOrderly_of_ne (fun n ↦ ?_) _)
    exact (Option.some_ne_none _).symm
  · rw [if_neg hremote]
    exact ⟨rfl, hfresh.pass, hfresh.history, ⟨fun n hn hnot _ ↦ hfresh.launched n hn hnot,
      hfresh.unlaunched, hfresh.busy, fun _ ↦ hfresh.spared, trivial⟩, hfresh.standing⟩

theorem shutdownRequested_enter (p : State × Option LoopHead) :
    (enter p).shutdownRequested = p.1.shutdownRequested := by
  obtain ⟨s, head⟩ := p
  cases head with
  | none => rfl
  | some head =>
    change (retryFailedBackends s head).shutdownRequested = s.shutdownRequested
    rw [retryFailedBackends]
    split <;> rfl

theorem shutdownRequested_gatherRemoteResults (s : State) :
    (gatherRemoteResults cfg s).1.shutdownRequested = s.shutdownRequested := by
  rw [gatherRemoteResults]
  split <;> rfl

theorem shutdownRequested_connectStdio (s : State) (flag : Bool) (items : List String) :
    (connectStdio cfg s flag items).1.shutdownRequested = s.shutdownRequested := by
  cases items with
  | nil => exact shutdownRequested_gatherRemoteResults s
  | cons n rest =>
    rw [connectStdio]
    split
    · exact shutdownRequested_gatherRemoteResults s
    · rfl

theorem shutdownRequested_buildAndConnectStdio (s : State) (flag : Bool) :
    (buildAndConnectStdio cfg s flag).1.shutdownRequested = s.shutdownRequested := by
  rw [buildAndConnectStdio]
  split
  · split
    · exact shutdownRequested_gatherRemoteResults s
    · rfl
  · exact shutdownRequested_connectStdio s flag cfg.stdioItems

theorem shutdownRequested_launchRetryTasks (s : State) (head : LoopHead) :
    (launchRetryTasks cfg s head).1.shutdownRequested = s.shutdownRequested := by
  rw [launchRetryTasks]
  split <;> rfl

theorem shutdownRequested_advance {p : State × Option LoopHead} (hp : advance cfg s = some p) :
    p.1.shutdownRequested = s.shutdownRequested := by
  cases resumed_of_advance hp with
  | yielding _ => exact shutdownRequested_buildAndConnectStdio s _
  | stdioSequential _ _ => exact shutdownRequested_connectStdio s _ _
  | stdioParallel _ _ => exact shutdownRequested_gatherRemoteResults s
  | gathering _ _ => rfl
  | authPending _ => rfl
  | delaying _ | awaitingAuth _ => exact shutdownRequested_launchRetryTasks s _
  | retrying _ _ => rfl

theorem shutdownRequested_of_step {e : Event} (h : step cfg s e = some m)
    (hm : m.shutdownRequested = false) : s.shutdownRequested = false := by
  by_cases hresume : e = .resume
  · subst hresume
    obtain ⟨p, hp, rfl⟩ := step_resume.mp h
    rwa [shutdownRequested_enter, shutdownRequested_advance hp] at hm
  · by_cases hcancel : e = .cancelStartup
    · subst hcancel
      obtain rfl := Option.some.inj h
      exact absurd hm.symm Bool.false_ne_true
    · exact (frame_of_step h hresume hcancel).shutdownRequested ▸ hm

theorem Inv.startedAll (h : Inv cfg s) (hreturned : s.pc = .returned) : StartedAll cfg s := by
  have hpass := h.pass
  rw [hreturned] at hpass
  have hspent : ∀ n ∈ cfg.names, Spent cfg s n :=
    fun n hn ↦ hpass.spent n hn List.not_mem_nil
  have hcalls : ∀ n ∈ cfg.names, s.firstCalls n = 1 ∧ s.retryCalls n + 1 = s.callCount n := by
    intro n hn
    have hfirst : s.firstCalls n = 1 := by
      rw [h.history.first n]
      exact Nat.min_eq_left (hspent n hn).one_le
    have hsum := firstCalls_add_retryCalls s n
    refine ⟨hfirst, ?_⟩
    omega
  refine ⟨fun n hn ↦ (hcalls n hn).1, h.history.sessionless, ?_, ?_, h.history.sessions_iff, ?_⟩
  · intro n hn
    have hle := (hspent n hn).le
    have hsum := (hcalls n hn).2
    omega
  · intro n hn hs
    have heq := (hspent n hn).eq hs
    have hsum := (hcalls n hn).2
    omega
  · intro n hun
    -- no task is unfinished and no retry left: the discovery remains
    obtain hauth | hun' | ⟨hs, hle⟩ := (h.standing n).pledged hun
    · exact hauth
    · have hbusy := h.layout.busy n hun'
      rw [hreturned] at hbusy
      exact absurd hbusy List.not_mem_nil
    · have hknown : n ∈ cfg.names := by
        refine (h.standing n).known fun hnone ↦ ?_
        rw [State.unsettled, hnone] at hun
        exact Bool.false_ne_true hun
      have heq := (hspent n hknown).eq hs
      omega

/-- **What comes of starting the backends.** In an orderly run without a shutdown, `start_all`
returns with every backend tried once in the first pass and then, without a session, at most as
often as it has retries, and exactly as often if it never connects; with a session for exactly the
backends of which an attempt has succeeded; and with no record that waits for anything but a pending
auth discovery. -/
theorem startedAll_of_run {tr : List Event}
    (hrun : Run.run (step cfg) (startAll cfg) tr = some s)
    (horderly : Run.Guarded (step cfg) (Orderly cfg) (startAll cfg) tr)
    (hshutdown : s.shutdownRequested = false) (hreturned : s.pc = .returned) :
    StartedAll cfg s := by
  have hinv : s.shutdownRequested = false → Inv cfg s :=
    @Run.invariant_of_run _ _ (step cfg) (Orderly cfg)
      (fun s ↦ s.shutdownRequested = false → Inv cfg s)
      (fun _ _ _ h hok hstep hm ↦ (h (shutdownRequested_of_step hstep hm)).step hok hstep hm)
      tr _ _ (fun _ ↦ inv_startAll cfg) horderly hrun
  exact (hinv hshutdown).startedAll hreturned

end Invariant

section Example

/-- A remote and a stdio backend, with one retry each. -/
def apiAndFiles : Config where
  backends := Dict.ofList [("api", ⟨.sse, some 1⟩), ("files", ⟨.stdio, some 1⟩)]
  parallel := false

/-- The remote backend connects when it is tried again. -/
def apiRetried : List Event :=
  [.begin "api", .ends "api" (.failure "refused"), .resume, .begin "files", .ends "files" .success,
    .resume, .resume, .resume, .begin "api", .ends "api" .success, .resume]

theorem startedAll_apiRetried : ∃ s,
    Run.run (step apiAndFiles) (startAll apiAndFiles) apiRetried = some s ∧
      s.shutdownRequested = false ∧ s.pc = .returned ∧ StartedAll apiAndFiles s :=
  ⟨_, Run.run_eq_some_getD (by decide) (startAll apiAndFiles), by decide, by decide,
    startedAll_of_run (Run.run_eq_some_getD (by decide) (startAll apiAndFiles)) (by decide)
      (by decide) (by decide)⟩

/-- The first call for the remote backend is cancelled: it counts as connected, and is not
retried. -/
def apiCancelled : List Event :=
  [.begin "api", .ends "api" .cancelled, .resume, .begin "files", .ends "files" .success,
    .resume, .resume]

theorem not_startedAll_apiCancelled :
    ¬∀ (cfg : Config) (tr : List Event) (s : State),
      Run.run (step cfg) (startAll cfg) tr = some s → s.shutdownRequested = false →
      s.pc = .returned → StartedAll cfg s := by
  intro h
  have hall := h apiAndFiles apiCancelled _
    (Run.run_eq_some_getD (by decide) (startAll apiAndFiles)) (by decide) (by decide)
  exact absurd (hall.retries_eq "api" (by decide) (by decide)) (by decide)

/-- A stdio backend without retries, and one with a retry that connects. -/
def filesAndWeb : Config where
  backends := Dict.ofList [("files", ⟨.stdio, some 0⟩), ("web", ⟨.stdio, some 1⟩)]
  parallel := false

/-- The round is signalled on the record of the backend that has no retry left, and the record
stays so. -/
example : ((Run.run (step filesAndWeb) (startAll filesAndWeb)
    [.begin "files", .ends "files" (.failure "refused"), .resume, .begin "web",
      .ends "web" (.failure "refused"), .resume, .resume, .begin "web", .ends "web" .success,
      .resume]).bind fun s ↦ if s.pc = .returned then s.phaseOf "files" else none)
    = some .retrying := by decide

end Example

end Startup

end ArgusMcp
