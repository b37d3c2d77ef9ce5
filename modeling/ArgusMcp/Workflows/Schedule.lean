import ArgusMcp.Library.Interleave
import ArgusMcp.Workflows.Propagation

/-!
# The order in which things happen

Two orders are left open when a workflow is executed. `topological_order` iterates over sets, so
the steps of a level come in an order that may differ between two executions; and the coroutines of
a level take turns, each running from one `await` to the next, in whatever order the tools answer.

The coroutines are modelled here by their segments. A segment reads the dictionaries that the steps
of a level share and never writes to them, since `execute` writes the results of a level only after
`gather` has returned; by `ArgusMcp.Library.Interleave` every interleaving of a level therefore
leaves the same ends behind, and `executeStep` says which. What is left is the order of the steps
in a level. Recording ends under distinct keys does not depend on it, so the next level starts in
a state with the same entries, and a step looks at nothing else.

One thing does depend on the order: when exceptions leave several steps of strategy `fail` in one
level, the error names the first of them. `agrees_of_executes` says that this is all.
-/

namespace ArgusMcp

namespace Workflows

open Layers (SetOrder)
open Interleave (Pool segment outputOf ReadOnly EndsAs Advances)

variable {O : Type} [PyObject O]

/-! ## The coroutine of a step -/

/-- Where the coroutine of a step is. -/
inductive Task (O : Type) where
  /-- It has not been started. -/
  | fresh
  /-- It waits for the outcome of an attempt, with `left` more to make. -/
  | waiting (args : List (String × Value O)) (attempt left : ℕ)
  | ended (e : StepEnd O)

/-- The head of the retry loop: the next attempt is made, or there is none left. -/
def nextAttempt (step : Step O) (args : List (String × Value O)) :
    ℕ → ℕ → Option String → Task O × List (Invocation O)
  | 0, _, lastError => (.ended (.result ⟨step.id, .failed, .none, lastError⟩), [])
  | left + 1, attempt, _ => (.waiting args attempt left, [⟨step.id, attempt, step.tool, args⟩])

/-- From the start of `_execute_step` to its first `await`. -/
def enter (p : Progress O) (step : Step O) : Task O × List (Invocation O) :=
  if conditionHolds p step then
    match failedDependency p step with
    | none => nextAttempt step (resolvedArgs p step) step.attempts 0 none
    | some dep =>
      if step.onError = "skip" then (.ended (.result ⟨step.id, .skipped, .none, none⟩), [])
      else if step.onError = "fail" then
        (.ended (.result ⟨step.id, .failed, .none, some s!"Dependency '{dep}' failed"⟩), [])
      else nextAttempt step (resolvedArgs p step) step.attempts 0 none
  else (.ended (.result ⟨step.id, .skipped, .none, none⟩), [])

/-- From the outcome of an attempt to the next `await`. -/
def proceed (invoke : ToolInvoker O) (step : Step O) (args : List (String × Value O))
    (attempt left : ℕ) : Task O × List (Invocation O) :=
  match invoke step.id attempt step.tool args with
  | .returns output => (.ended (.result ⟨step.id, .completed, output, none⟩), [])
  | .escapes text => (.ended (.exception text), [])
  | .raises text => nextAttempt step args left (attempt + 1) (some text)

/-- One segment of a coroutine. It is handed the shared dictionaries and hands them back. -/
def resume (invoke : ToolInvoker O) (p : Progress O) :
    Step O × Task O → Option (Progress O × (Step O × Task O) × List (Invocation O))
  | (step, .fresh) => some (p, (step, (enter p step).1), (enter p step).2)
  | (step, .waiting args attempt left) =>
    some (p, (step, (proceed invoke step args attempt left).1),
      (proceed invoke step args attempt left).2)
  | (_, .ended _) => none

theorem readOnly_resume (invoke : ToolInvoker O) : ReadOnly (resume invoke) := by
  rintro p ⟨step, task⟩ p' t' out h
  rcases task with _ | ⟨args, attempt, left⟩ | e
  · rw [resume, Option.some.injEq, Prod.mk.injEq] at h
    exact h.1.symm
  · rw [resume, Option.some.injEq, Prod.mk.injEq] at h
    exact h.1.symm
  · exact absurd h (Option.some_ne_none _).symm

section Coroutines

variable {invoke : ToolInvoker O} {p : Progress O} {step : Step O}

theorem endsAs_ended (e : StepEnd O) :
    EndsAs (resume invoke) p (step, .ended e) (step, .ended e) [] := ⟨.refl _, rfl⟩

/-- The segments of the retry loop make the attempts of `attemptLoop`, and end the same way. -/
theorem endsAs_nextAttempt (args : List (String × Value O)) (left attempt : ℕ)
    (lastError : Option String) :
    ∃ outs, EndsAs (resume invoke) p (step, (nextAttempt step args left attempt lastError).1)
        (step, .ended (attemptLoop step (fun n ↦ invoke step.id n step.tool args) left attempt
          lastError).1) outs ∧
      (nextAttempt step args left attempt lastError).2 ++ outs
        = (attemptLoop step (fun n ↦ invoke step.id n step.tool args) left attempt
            lastError).2.map fun n ↦ ⟨step.id, n, step.tool, args⟩ := by
  induction left generalizing attempt lastError with
  | zero => exact ⟨[], endsAs_ended _, rfl⟩
  | succ left ih =>
    rw [attemptLoop, nextAttempt]
    have hnext : resume invoke p (step, .waiting args attempt left)
        = some (p, (step, (proceed invoke step args attempt left).1),
            (proceed invoke step args attempt left).2) := rfl
    rcases hcall : invoke step.id attempt step.tool args with output | text | text
    · rw [proceed, hcall] at hnext
      exact ⟨[], ⟨.head hnext (.refl _), rfl⟩, rfl⟩
    · rw [proceed, hcall] at hnext
      obtain ⟨outs, ⟨hadv, hend⟩, houts⟩ := ih (attempt + 1) (some text)
      refine ⟨_, ⟨.head hnext hadv, hend⟩, ?_⟩
      dsimp only
      rw [houts]
      rfl
    · rw [proceed, hcall] at hnext
      exact ⟨[], ⟨.head hnext (.refl _), rfl⟩, rfl⟩

theorem enter_of_runs (h : Runs p step) :
    enter p step = nextAttempt step (resolvedArgs p step) step.attempts 0 none := by
  obtain ⟨hcond, hdep⟩ := h
  rw [enter, if_pos hcond]
  rcases hfailed : failedDependency p step with _ | dep
  · rfl
  · obtain ⟨hskip, hfail⟩ := hdep.resolve_left (by simp [hfailed])
    dsimp only
    rw [if_neg hskip, if_neg hfail]

theorem enter_of_not_runs (h : ¬ Runs p step) :
    enter p step = (.ended (executeStep invoke p step).1, (executeStep invoke p step).2) := by
  rw [enter, executeStep]
  by_cases hcond : conditionHolds p step = true
  · rw [if_pos hcond, if_pos hcond]
    rcases hfailed : failedDependency p step with _ | dep
    · exact absurd ⟨hcond, .inl hfailed⟩ h
    · dsimp only
      by_cases hskip : step.onError = "skip"
      · rw [if_pos hskip, if_pos hskip]
      · by_cases hfail : step.onError = "fail"
        · rw [if_neg hskip, if_neg hskip, if_pos hfail, if_pos hfail]
        · exact absurd ⟨hcond, .inr ⟨hskip, hfail⟩⟩ h
  · rw [if_neg hcond, if_neg hcond]

/-- **The coroutine of a step, by itself**, ends as `executeStep` says and calls its tool as
often. -/
theorem endsAs_executeStep (invoke : ToolInvoker O) (p : Progress O) (step : Step O) :
    EndsAs (resume invoke) p (step, .fresh) (step, .ended (executeStep invoke p step).1)
      (executeStep invoke p step).2 := by
  have hnext : resume invoke p (step, .fresh)
      = some (p, (step, (enter p step).1), (enter p step).2) := rfl
  by_cases hruns : Runs p step
  · rw [enter_of_runs hruns] at hnext
    obtain ⟨outs, ⟨hadv, hend⟩, houts⟩ := @endsAs_nextAttempt _ _ invoke p step
      (resolvedArgs p step) step.attempts 0 none
    rw [executeStep_of_runs hruns, runAttempts]
    dsimp only
    rw [← houts]
    exact ⟨.head hnext hadv, hend⟩
  · rw [@enter_of_not_runs _ _ invoke _ _ hruns] at hnext
    refine ⟨?_, rfl⟩
    rw [← List.append_nil (executeStep invoke p step).2]
    exact .head hnext (.refl _)

end Coroutines

/-! ## A level -/

/-- The coroutines of a level, as `execute` hands them to `gather`. -/
def spawn (p : Progress O) (level : List (Step O)) :
    Pool (Progress O) (Step O × Task O) (Invocation O) :=
  ⟨p, level.map fun step ↦ (step, .fresh), []⟩

/-- How the coroutine has ended, if it has. -/
def Task.end? : Task O → Option (StepEnd O)
  | .ended e => some e
  | _ => none

/-- The steps of a level with what `gather` collected for them. -/
def gathered (tasks : List (Step O × Task O)) : List (Step O × StepEnd O) :=
  tasks.filterMap fun x ↦ x.2.end?.map fun e ↦ (x.1, e)

/-- Under some schedule, the level calls tools as in `log` and ends with `out`. -/
def LevelRuns (invoke : ToolInvoker O) (p : Progress O) (level : List (Step O))
    (log : List (Invocation O)) (out : Except String (Progress O)) : Prop :=
  ∃ sched pool, Run.run (segment (resume invoke)) (spawn p level) sched = some pool ∧
    pool.Ended (resume invoke) ∧ log = pool.log.map Prod.snd ∧
    out = collect pool.shared (gathered pool.tasks)

def callsOf (id : String) (log : List (Invocation O)) : List (Invocation O) :=
  log.filter fun inv ↦ inv.stepId = id

omit [PyObject O] in
theorem callsOf_append (id : String) (log log' : List (Invocation O)) :
    callsOf id (log ++ log') = callsOf id log ++ callsOf id log' := List.filter_append ..

omit [PyObject O] in
theorem callsOf_eq_nil {id : String} {log : List (Invocation O)}
    (h : ∀ inv ∈ log, inv.stepId ≠ id) : callsOf id log = [] := by
  rw [callsOf, List.filter_eq_nil_iff]
  intro inv hinv
  rw [decide_eq_true_eq]
  exact h inv hinv

section Level

variable {invoke : ToolInvoker O} {p : Progress O} {level : List (Step O)}

theorem callsOf_executeStep (step : Step O) :
    callsOf step.id (executeStep invoke p step).2 = (executeStep invoke p step).2 := by
  rw [callsOf, List.filter_eq_self]
  intro inv hinv
  rw [decide_eq_true_eq]
  exact stepId_of_mem_executeStep hinv

theorem callsOf_levelInvocations_of_notMem {id : String} (hid : id ∉ level.map Step.id) :
    callsOf id (levelInvocations invoke p level) = [] := by
  refine callsOf_eq_nil fun inv hinv heq ↦ hid ?_
  obtain ⟨step, hstep, hstepId⟩ := stepId_of_mem_levelInvocations hinv
  exact List.mem_map.mpr ⟨step, hstep, hstepId.symm.trans heq⟩

theorem callsOf_levelInvocations_of_mem (hids : (level.map Step.id).Nodup) {step : Step O}
    (hstep : step ∈ level) :
    callsOf step.id (levelInvocations invoke p level) = (executeStep invoke p step).2 := by
  obtain ⟨pre, post, rfl⟩ := List.append_of_mem hstep
  rw [List.map_append, List.map_cons, List.nodup_middle, List.nodup_cons, List.mem_append,
    not_or] at hids
  have hsplit : levelInvocations invoke p (pre ++ step :: post) = levelInvocations invoke p pre
      ++ ((executeStep invoke p step).2 ++ levelInvocations invoke p post) := by
    rw [levelInvocations, List.flatMap_append, List.flatMap_cons]
    rfl
  rw [hsplit, callsOf_append, callsOf_append, callsOf_levelInvocations_of_notMem hids.1.1,
    callsOf_levelInvocations_of_notMem hids.1.2, callsOf_executeStep, List.nil_append,
    List.append_nil]

variable {sched : List ℕ} {pool : Pool (Progress O) (Step O × Task O) (Invocation O)}
  (hrun : Run.run (segment (resume invoke)) (spawn p level) sched = some pool)

include hrun

theorem shared_of_run : pool.shared = p := (Interleave.advances_of_run (readOnly_resume _) hrun).1

variable (hended : pool.Ended (resume invoke))

include hended

theorem ended_of_run {i : ℕ} {step : Step O} (hi : level[i]? = some step) :
    pool.tasks[i]? = some (step, .ended (executeStep invoke p step).1) ∧
      outputOf i pool.log = (executeStep invoke p step).2 := by
  have hi' : (spawn p level).tasks[i]? = some (step, .fresh) := by
    rw [spawn, List.getElem?_map, hi, Option.map_some]
  obtain ⟨t', ht', hends⟩ :=
    Interleave.endsAs_of_run (readOnly_resume invoke) rfl hrun hended hi'
  obtain ⟨rfl, hout⟩ := hends.unique (endsAs_executeStep invoke p step)
  exact ⟨ht', hout⟩

theorem gathered_of_run :
    gathered pool.tasks = level.map fun step ↦ (step, (executeStep invoke p step).1) := by
  have htasks : pool.tasks
      = level.map fun step ↦ (step, Task.ended (executeStep invoke p step).1) := by
    refine List.ext_getElem? fun i ↦ ?_
    rw [List.getElem?_map]
    rcases hi : level[i]? with _ | step
    · have hlen := (Interleave.advances_of_run (readOnly_resume invoke) hrun).2.1
      rw [List.getElem?_eq_none_iff] at hi
      rw [Option.map_none, List.getElem?_eq_none_iff, hlen, spawn, List.length_map]
      exact hi
    · exact (ended_of_run hrun hended hi).1
  rw [htasks, gathered, List.filterMap_map]
  exact List.filterMap_eq_map_iff_forall_eq_some.mpr fun step _ ↦ rfl

theorem callsOf_of_run (hids : (level.map Step.id).Nodup) (id : String) :
    callsOf id (pool.log.map Prod.snd) = callsOf id (levelInvocations invoke p level) := by
  -- Every entry of the log is a call of the step at its position.
  have hlog : ∀ e ∈ pool.log, (level.map Step.id)[e.1]? = some e.2.stepId := by
    intro e he
    have hlt : e.1 < level.length := by
      have hlt := Interleave.fst_lt_of_mem_log (readOnly_resume invoke)
        (fun e he ↦ absurd he List.not_mem_nil) hrun e he
      rwa [(Interleave.advances_of_run (readOnly_resume invoke) hrun).2.1, spawn,
        List.length_map] at hlt
    have hstep : level[e.1]? = some (level.get ⟨e.1, hlt⟩) := List.getElem?_eq_getElem hlt
    have hmem : e.2 ∈ (executeStep invoke p (level.get ⟨e.1, hlt⟩)).2 := by
      rw [← (ended_of_run hrun hended hstep).2, Interleave.mem_outputOf]
      exact he
    rw [List.getElem?_map, hstep, Option.map_some, stepId_of_mem_executeStep hmem]
  by_cases hid : id ∈ level.map Step.id
  · obtain ⟨step, hstep, rfl⟩ := List.mem_map.mp hid
    obtain ⟨i, hi, rfl⟩ := List.mem_iff_getElem.mp hstep
    have hget := List.getElem?_eq_getElem hi
    rw [callsOf_levelInvocations_of_mem hids hstep, ← (ended_of_run hrun hended hget).2]
    exact Interleave.filter_log Invocation.stepId hids hlog
      (by rw [List.getElem?_map, hget, Option.map_some])
  · rw [callsOf_levelInvocations_of_notMem hid]
    refine callsOf_eq_nil fun inv hinv heq ↦ hid ?_
    obtain ⟨e, he, rfl⟩ := List.mem_map.mp hinv
    exact heq ▸ List.mem_of_getElem? (hlog e he)

omit hrun hended in
/-- **Every interleaving of a level** ends it the same way, with the same calls step by step. -/
theorem levelRuns_spec (hids : (level.map Step.id).Nodup) {log : List (Invocation O)}
    {out : Except String (Progress O)} (h : LevelRuns invoke p level log out) :
    out = executeLevel invoke p level ∧
      ∀ id, callsOf id log = callsOf id (levelInvocations invoke p level) := by
  obtain ⟨sched, pool, hrun, hended, rfl, rfl⟩ := h
  refine ⟨?_, callsOf_of_run hrun hended hids⟩
  rw [shared_of_run hrun, gathered_of_run hrun hended, executeLevel]

omit hrun hended in
/-- A level can be executed, and no schedule leads into a dead end. -/
theorem exists_levelRuns (hrun : Run.run (segment (resume invoke)) (spawn p level) sched
    = some pool) : ∃ sched' pool',
      Run.run (segment (resume invoke)) (spawn p level) (sched ++ sched') = some pool' ∧
        pool'.Ended (resume invoke) := by
  refine Interleave.exists_schedule_of_run (readOnly_resume invoke) (fun t ht ↦ ?_) hrun
  obtain ⟨step, -, rfl⟩ := List.mem_map.mp ht
  exact ⟨_, _, endsAs_executeStep invoke p step⟩

end Level

/-! ## An execution -/

/-- The levels are executed one after another, each under some schedule. -/
inductive RunsLevels (invoke : ToolInvoker O) : Progress O → List (List (Step O)) →
    List (Invocation O) → Except String (Progress O) → Prop
  | nil (p : Progress O) : RunsLevels invoke p [] [] (.ok p)
  | raises {p : Progress O} {level : List (Step O)} {log : List (Invocation O)} {text : String}
      (h : LevelRuns invoke p level log (.error text)) (levels : List (List (Step O))) :
      RunsLevels invoke p (level :: levels) log (.error text)
  | next {p p' : Progress O} {level : List (Step O)} {levels : List (List (Step O))}
      {log log' : List (Invocation O)} {out : Except String (Progress O)}
      (h : LevelRuns invoke p level log (.ok p')) (h' : RunsLevels invoke p' levels log' out) :
      RunsLevels invoke p (level :: levels) (log ++ log') out

/-- What `execute` may do, given the order in which sets are iterated. -/
def Executes (order : SetOrder String) (invoke : ToolInvoker O) (wf : WorkflowDefinition O)
    (inputs : Option (List (String × Value O)))
    (x : Execution O ExecuteError (Dict String (StepResult O))) : Prop :=
  match wf.topologicalOrder order with
  | .error e => x = ⟨[], .error (.validation e)⟩
  | .ok levels => ∃ log out, RunsLevels invoke (start inputs) levels log out ∧
      x = ⟨log, (out.map Progress.results).mapError .execution⟩

section Executions

variable {invoke : ToolInvoker O} {p : Progress O} {levels : List (List (Step O))}

theorem runsLevels_spec (hids : (levels.flatten.map Step.id).Nodup) {log : List (Invocation O)}
    {out : Except String (Progress O)} (h : RunsLevels invoke p levels log out) :
    out = (executeLevels invoke p levels).outcome ∧
      ∀ id, callsOf id log = callsOf id (executeLevels invoke p levels).invocations := by
  induction h with
  | nil => exact ⟨rfl, fun _ ↦ rfl⟩
  | raises h levels =>
    rw [List.flatten_cons, List.map_append, List.nodup_append] at hids
    obtain ⟨hout, hcalls⟩ := levelRuns_spec hids.1 h
    rw [executeLevels, ← hout]
    exact ⟨rfl, hcalls⟩
  | next h _ ih =>
    rw [List.flatten_cons, List.map_append, List.nodup_append] at hids
    obtain ⟨hout, hcalls⟩ := levelRuns_spec hids.1 h
    obtain ⟨hrest, hcalls'⟩ := ih hids.2.1
    rw [executeLevels, ← hout]
    refine ⟨hrest, fun id ↦ ?_⟩
    rw [callsOf_append, callsOf_append, hcalls, hcalls']

theorem exists_runsLevels (invoke : ToolInvoker O) (p : Progress O)
    (levels : List (List (Step O))) : ∃ log out, RunsLevels invoke p levels log out := by
  induction levels generalizing p with
  | nil => exact ⟨[], _, .nil p⟩
  | cons level levels ih =>
    have hnil : Run.run (segment (resume invoke)) (spawn p level) [] = some (spawn p level) := rfl
    obtain ⟨sched, pool, hrun, hended⟩ := exists_levelRuns hnil
    rcases hout : collect pool.shared (gathered pool.tasks) with text | p'
    · exact ⟨_, _, .raises ⟨_, pool, hrun, hended, rfl, hout.symm⟩ levels⟩
    · obtain ⟨log', out, hrest⟩ := ih p'
      exact ⟨_, _, .next ⟨_, pool, hrun, hended, rfl, hout.symm⟩ hrest⟩

/-- An execution raises where a level it visits does. -/
theorem outcome_executeLevels_eq_error_iff {text : String} :
    (executeLevels invoke p levels).outcome = .error text ↔
      ∃ m level post, Run.Visits (levelStep invoke) p levels m level post ∧
        executeLevel invoke m level = .error text := by
  induction levels generalizing p with
  | nil =>
    refine iff_of_false (by simp [executeLevels]) ?_
    rintro ⟨m, level, post, hv, -⟩
    cases hv
  | cons level levels ih =>
    rw [executeLevels]
    rcases hlevel : executeLevel invoke p level with text' | p'
    · constructor
      · intro h
        exact ⟨p, level, levels, .here p level levels, hlevel.trans h⟩
      · rintro ⟨m, level', post, hv, herror⟩
        rcases hv with _ | ⟨hs, -⟩
        · exact hlevel.symm.trans herror
        · rw [levelStep_eq_some_iff_executeLevel, hlevel] at hs
          exact absurd hs (by simp)
    · dsimp only
      rw [ih]
      have hs := levelStep_eq_some_iff_executeLevel.mpr hlevel
      constructor
      · rintro ⟨m, level', post, hv, herror⟩
        exact ⟨m, level', post, .later hs hv, herror⟩
      · rintro ⟨m, level', post, hv, herror⟩
        rcases hv with _ | ⟨hs', hv⟩
        · rw [hlevel] at herror
          exact absurd herror (by simp)
        · rw [hs, Option.some.injEq] at hs'
          exact ⟨m, level', post, hs' ▸ hv, herror⟩

end Executions

/-! ## The order of the steps in a level -/

/-- The same can be looked up in both. -/
structure Progress.Agrees (p p' : Progress O) : Prop where
  results : ∀ k, p.results.get? k = p'.results.get? k
  context : ∀ k, p.context.get? k = p'.context.get? k

/-- The same steps with distinct ids, in some order. -/
def SameLevel (level level' : List (Step O)) : Prop :=
  level.Perm level' ∧ (level.map Step.id).Nodup

/-- The text says that an exception left a step of strategy `fail` of the level. -/
def Names (invoke : ToolInvoker O) (p : Progress O) (level : List (Step O)) (text : String) :
    Prop :=
  ∃ step ∈ level, step.onError = "fail" ∧ ∃ exc, (executeStep invoke p step).1 = .exception exc ∧
    text = s!"Step '{step.id}' failed: {exc}"

section Agreement

variable {invoke : ToolInvoker O} {p p' q : Progress O} {level level' : List (Step O)}

omit [PyObject O] in
theorem Progress.Agrees.symm (h : p.Agrees p') : p'.Agrees p :=
  ⟨fun k ↦ (h.results k).symm, fun k ↦ (h.context k).symm⟩

omit [PyObject O] in
theorem SameLevel.symm (h : SameLevel level level') : SameLevel level' level :=
  ⟨h.1.symm, (h.1.map Step.id).nodup_iff.mp h.2⟩

theorem executeStep_congr (hp : p.Agrees p') (step : Step O) :
    executeStep invoke p step = executeStep invoke p' step := by
  have hcond : conditionHolds p step = conditionHolds p' step := by
    rw [conditionHolds, conditionHolds, evaluateCondition_congr hp.context]
  have hdep : failedDependency p step = failedDependency p' step := by
    have hfailed : hasFailed p = hasFailed p' := by
      funext dep
      rw [hasFailed, hasFailed, hp.results]
    rw [failedDependency, failedDependency, hfailed]
  have hargs : resolvedArgs p step = resolvedArgs p' step := interpolate_congr hp.context step.args
  rw [executeStep, executeStep, hcond, hdep, runAttempts, runAttempts, hargs]

theorem escapes_congr (hp : p.Agrees p') (step : Step O) :
    Escapes invoke p step ↔ Escapes invoke p' step := by
  rw [← executeStep_exception_iff, ← executeStep_exception_iff, executeStep_congr hp]

theorem names_of_executeLevel {text : String} (h : executeLevel invoke p level = .error text) :
    Names invoke p level text := by
  obtain ⟨x, hx, hfail, exc, hexc, htext⟩ := exists_mem_of_collect_eq_error h
  obtain ⟨step, hstep, rfl⟩ := List.mem_map.mp hx
  exact ⟨step, hstep, hfail, exc, hexc, htext⟩

theorem Names.congr {text : String} (hp : p.Agrees p') (hlevel : SameLevel level level')
    (h : Names invoke p level text) : Names invoke p' level' text := by
  obtain ⟨step, hstep, hfail, exc, hexc, htext⟩ := h
  rw [executeStep_congr hp] at hexc
  exact ⟨step, hlevel.1.mem_iff.mp hstep, hfail, exc, hexc, htext⟩

/-- **One level, in two orders**: either both pass it, into states that agree again, or neither
does. -/
theorem levelStep_agrees (hp : p.Agrees p') (hlevel : SameLevel level level')
    (h : levelStep invoke p level = some q) :
    ∃ q', levelStep invoke p' level' = some q' ∧ q.Agrees q' := by
  have hdef : (levelStep invoke p' level').isSome := by
    rw [← Option.ne_none_iff_isSome, ne_eq, levelStep_eq_none_iff]
    rintro ⟨step, hstep, hfail, hesc⟩
    exact (levelStep_eq_some_iff.mp h).1 step (hlevel.1.mem_iff.mpr hstep) hfail
      ((escapes_congr hp step).mpr hesc)
  obtain ⟨q', hq'⟩ := Option.isSome_iff_exists.mp hdef
  refine ⟨q', hq', fun k ↦ ?_, fun k ↦ ?_⟩
  · rw [results_levelStep h, results_levelStep hq']
    simp only [← executeStep_congr hp]
    refine Dict.get?_foldl_set_perm ?_ (hlevel.1.map _) hp.results k
    rw [List.map_map]
    exact hlevel.2
  · rw [context_levelStep h, context_levelStep hq']
    simp only [← executeStep_congr hp]
    refine Dict.get?_foldl_set_perm ?_ (hlevel.1.map _) hp.context k
    rw [List.map_map]
    exact hlevel.2

theorem levelStep_agrees_none (hp : p.Agrees p') (hlevel : SameLevel level level')
    (h : levelStep invoke p level = none) : levelStep invoke p' level' = none := by
  rw [Option.eq_none_iff_forall_ne_some]
  intro q' hq'
  obtain ⟨q, hq, -⟩ := levelStep_agrees hp.symm hlevel.symm hq'
  rw [h] at hq
  exact absurd hq (Option.some_ne_none q).symm

theorem callsOf_levelInvocations_congr (hp : p.Agrees p') (hlevel : SameLevel level level')
    (id : String) : callsOf id (levelInvocations invoke p level)
      = callsOf id (levelInvocations invoke p' level') := by
  by_cases hid : id ∈ level.map Step.id
  · obtain ⟨step, hstep, rfl⟩ := List.mem_map.mp hid
    rw [callsOf_levelInvocations_of_mem hlevel.2 hstep,
      callsOf_levelInvocations_of_mem hlevel.symm.2 (hlevel.1.mem_iff.mp hstep),
      executeStep_congr hp]
  · have hid' : id ∉ level'.map Step.id := fun h ↦ hid ((hlevel.1.map Step.id).mem_iff.mpr h)
    rw [callsOf_levelInvocations_of_notMem hid, callsOf_levelInvocations_of_notMem hid']

variable {levels levels' : List (List (Step O))}

theorem callsOf_executeLevels_congr (hp : p.Agrees p')
    (hlevels : List.Forall₂ SameLevel levels levels') (id : String) :
    callsOf id (executeLevels invoke p levels).invocations
      = callsOf id (executeLevels invoke p' levels').invocations := by
  induction hlevels generalizing p p' with
  | nil => rfl
  | @cons level level' levels levels' hlevel _ ih =>
    have hcalls := @callsOf_levelInvocations_congr _ _ invoke _ _ _ _ hp hlevel id
    rw [executeLevels, executeLevels]
    rcases hout : executeLevel invoke p level with text | q
    · have hnone : levelStep invoke p level = none := by rw [levelStep, hout]; rfl
      have hnone' := levelStep_agrees_none hp hlevel hnone
      rcases hout' : executeLevel invoke p' level' with text' | q'
      · exact hcalls
      · rw [levelStep, hout'] at hnone'
        exact absurd hnone' (Option.some_ne_none q')
    · obtain ⟨q', hq', hagrees⟩ :=
        levelStep_agrees hp hlevel (levelStep_eq_some_iff_executeLevel.mpr hout)
      rw [levelStep_eq_some_iff_executeLevel.mp hq']
      dsimp only
      rw [callsOf_append, callsOf_append, hcalls, ih hagrees]

end Agreement

/-! ## What a step can see -/

section Visibility

variable {invoke : ToolInvoker O} {p p' : Progress O} {levels : List (List (Step O))}

theorem get?_context_run_of_notMem (h : Run.run (levelStep invoke) p levels = some p')
    {k : String} (hk : k ∉ levels.flatten.map Step.id) :
    p'.context.get? k = p.context.get? k := by
  induction levels generalizing p with
  | nil =>
    rw [Run.run_nil, Option.some.injEq] at h
    rw [h]
  | cons level levels ih =>
    obtain ⟨m, hm, hrun⟩ := Run.run_cons_eq_some.mp h
    rw [List.flatten_cons, List.map_append, List.mem_append, not_or] at hk
    rw [ih hrun hk.2, context_levelStep hm]
    refine Dict.get?_foldl_set_of_notMem ?_ _
    rw [List.map_map]
    exact hk.1

end Visibility

variable (order order' : SetOrder String) (invoke : ToolInvoker O) (wf : WorkflowDefinition O)
  (inputs : Option (List (String × Value O)))

/-- Whatever a step of a level finds in the dictionaries it shares with the others, at any moment
of any schedule, comes from a step of an earlier level or is the inputs. -/
def SeesEarlierLevels : Prop :=
  ∃ levels, wf.topologicalOrder order = .ok levels ∧
    ∀ p level post, Reached order invoke wf inputs p level post → ∀ step ∈ level,
      ∀ sched pool, Run.run (segment (resume invoke)) (spawn p level) sched = some pool →
        (∀ k r, pool.shared.results.get? k = some r →
          ∃ t ∈ wf.steps, t.id = k ∧ stepLevel levels t.id < stepLevel levels step.id) ∧
        ∀ k v, pool.shared.context.get? k = some v →
          k = "inputs" ∧ v = .dict (inputs.getD []) ∨
            ∃ t ∈ wf.steps, t.id = k ∧ stepLevel levels t.id < stepLevel levels step.id

/-- The executions `x` and `y`, the second with the iteration order `order'`, have the same
outcome, up to the step that the error names. -/
structure SameOutcome (x y : Execution O ExecuteError (Dict String (StepResult O))) : Prop where
  calls : ∀ id, callsOf id x.invocations = callsOf id y.invocations
  returns : ∀ results, x.outcome = .ok results →
    ∃ results', y.outcome = .ok results' ∧ ∀ id, results.get? id = results'.get? id
  raises : ∀ e, x.outcome = .error e → ∃ p level post text text',
    e = .execution text ∧ y.outcome = .error (.execution text') ∧
      Reached order' invoke wf inputs p level post ∧
      Names invoke p level text ∧ Names invoke p level text'

section Ordered

variable {order order' invoke wf inputs} {levels levels' : List (List (Step O))}
  (horder : wf.topologicalOrder order = .ok levels) (hlevels : Levelled wf levels)

include horder

theorem exists_executes : ∃ x, Executes order invoke wf inputs x := by
  obtain ⟨log, out, hruns⟩ := exists_runsLevels invoke (start inputs) levels
  refine ⟨⟨log, (out.map Progress.results).mapError .execution⟩, ?_⟩
  rw [Executes, horder]
  exact ⟨log, out, hruns, rfl⟩

include hlevels

/-- **Every schedule of an execution** has the outcome of `execute`. -/
theorem executes_spec {x : Execution O ExecuteError (Dict String (StepResult O))}
    (h : Executes order invoke wf inputs x) :
    x.outcome = (execute order invoke wf inputs).outcome ∧
      ∀ id, callsOf id x.invocations = callsOf id (execute order invoke wf inputs).invocations := by
  rw [Executes, horder] at h
  obtain ⟨log, out, hruns, rfl⟩ := h
  obtain ⟨hout, hcalls⟩ := runsLevels_spec hlevels.once.2 hruns
  rw [execute, horder, hout]
  exact ⟨rfl, hcalls⟩

theorem seesEarlierLevels : SeesEarlierLevels order invoke wf inputs := by
  refine ⟨levels, horder, fun p level post hreached step hstep sched pool hpool ↦ ?_⟩
  obtain ⟨pre, hpre, hlen, hrun⟩ := exists_run_of_reached horder hlevels hreached hstep
  have hearlier : ∀ {k}, k ∈ pre.flatten.map Step.id →
      ∃ t ∈ wf.steps, t.id = k ∧ stepLevel levels t.id < stepLevel levels step.id := by
    intro k hk
    obtain ⟨t, ht, rfl⟩ := List.mem_map.mp hk
    refine ⟨t, ?_, rfl, ?_⟩
    · rw [← hlevels.once.1.mem_iff, hpre, List.flatten_append]
      exact List.mem_append_left _ ht
    · rw [hlen, stepLevel, hpre, List.map_append, ← List.length_map (f := List.map Step.id),
        Layers.levelOf_append_lt_iff, ← List.map_flatten]
      exact hk
  rw [shared_of_run hpool]
  refine ⟨fun k r hr ↦ hearlier ?_, fun k v hv ↦ ?_⟩
  · by_contra hk
    rw [get?_results_run_of_notMem hrun hk] at hr
    exact absurd hr (Option.some_ne_none r).symm
  · by_cases hk : k ∈ pre.flatten.map Step.id
    · exact .inr (hearlier hk)
    · rw [get?_context_run_of_notMem hrun hk, start, Dict.get?_set, Dict.get?_empty] at hv
      by_cases hinputs : k = "inputs"
      · rw [if_pos hinputs, Option.some.injEq] at hv
        exact .inl ⟨hinputs, hv.symm⟩
      · rw [if_neg hinputs] at hv
        exact absurd hv (Option.some_ne_none v).symm

omit [PyObject O] horder in
theorem forall₂_sameLevel (hsame : List.Forall₂ List.Perm levels levels') :
    List.Forall₂ SameLevel levels levels' := by
  have hids : ∀ level ∈ levels, (level.map Step.id).Nodup := by
    intro level hlevel
    refine hlevels.once.2.sublist (List.Sublist.map Step.id ?_)
    exact List.sublist_flatten_of_mem hlevel
  exact ((List.forall₂_and_left ..).mpr ⟨hids, hsame⟩).imp fun _ _ h ↦ ⟨h.2, h.1⟩

theorem sameOutcome_execute (horder' : wf.topologicalOrder order' = .ok levels')
    (hsame : List.Forall₂ List.Perm levels levels') :
    SameOutcome order' invoke wf inputs (execute order invoke wf inputs)
      (execute order' invoke wf inputs) := by
  have hagrees : (start inputs : Progress O).Agrees (start inputs) := ⟨fun _ ↦ rfl, fun _ ↦ rfl⟩
  have hlevels' := forall₂_sameLevel hlevels hsame
  refine ⟨fun id ↦ ?_, fun results hok ↦ ?_, fun e herror ↦ ?_⟩
  · rw [invocations_execute horder, invocations_execute horder']
    exact callsOf_executeLevels_congr hagrees hlevels' id
  · obtain ⟨q, hq, rfl⟩ := (outcome_execute_eq_ok_iff horder).mp hok
    obtain ⟨q', hq', hqq'⟩ := Run.run_simulate levelStep_agrees hq hagrees hlevels'
    exact ⟨q'.results, (outcome_execute_eq_ok_iff horder').mpr ⟨q', hq', rfl⟩, hqq'.results⟩
  · rw [execute, horder] at herror
    rw [execute, horder']
    dsimp only at herror ⊢
    rcases hout : (executeLevels invoke (start inputs) levels).outcome with text | q
    · rw [hout, Except.map, Except.mapError, Except.error.injEq] at herror
      obtain ⟨m, level, post, hv, hlevel⟩ := outcome_executeLevels_eq_error_iff.mp hout
      have hnone : levelStep invoke m level = none := by
        rw [levelStep, hlevel, Except.toOption]
      obtain ⟨m', level', post', hv', hm, hll, -⟩ :=
        hv.simulate levelStep_agrees hagrees hlevels'
      have hnone' := levelStep_agrees_none hm hll hnone
      rcases hlevel' : executeLevel invoke m' level' with text' | q'
      · refine ⟨m', level', post', text, text', herror.symm, ?_, (reached_iff horder').mpr hv',
          (names_of_executeLevel hlevel).congr hm hll, names_of_executeLevel hlevel'⟩
        rw [outcome_executeLevels_eq_error_iff.mpr ⟨m', level', post', hv', hlevel'⟩]
        rfl
      · rw [levelStep, hlevel'] at hnone'
        exact absurd hnone' (Option.some_ne_none q')
    · rw [hout] at herror
      exact absurd herror (by simp [Except.map, Except.mapError])

end Ordered

variable {wf} in
/-- **The order in which things happen does not matter**, for every workflow that parsing accepts,
all inputs and whatever the tools do. There is an execution under every iteration order; any two of
them, with their iteration orders and schedules, have the same outcome; and no step sees anything
of its own level or a later one. -/
theorem agrees_of_executes {order₀ : SetOrder String} {data : WorkflowData O}
    (hparse : parseWorkflow order₀ data = .ok wf) :
    (∀ order, ∃ x, Executes order invoke wf inputs x) ∧
    (∀ order order' x y, Executes order invoke wf inputs x → Executes order' invoke wf inputs y →
      SameOutcome order' invoke wf inputs x y) ∧
    ∀ order, SeesEarlierLevels order invoke wf inputs := by
  have hordered := orderable_of_parseWorkflow hparse
  refine ⟨fun order ↦ ?_, fun order order' x y hx hy ↦ ?_, fun order ↦ ?_⟩
  · obtain ⟨levels, horder, -⟩ := hordered order
    exact exists_executes horder
  · obtain ⟨levels, horder, hlevels, hsame⟩ := hordered order
    obtain ⟨levels', horder', hlevels', -⟩ := hordered order'
    obtain ⟨hxout, hxcalls⟩ := executes_spec horder hlevels hx
    obtain ⟨hyout, hycalls⟩ := executes_spec horder' hlevels' hy
    obtain ⟨hcalls, hreturns, hraises⟩ := @sameOutcome_execute _ _ order order' invoke wf inputs _
      _ horder hlevels horder' (hsame order' levels' horder')
    refine ⟨fun id ↦ ?_, ?_, ?_⟩
    · rw [hxcalls, hycalls, hcalls]
    · rw [hxout, hyout]
      exact hreturns
    · rw [hxout, hyout]
      exact hraises
  · obtain ⟨levels, horder, hlevels, -⟩ := hordered order
    exact seesEarlierLevels horder hlevels

def down : ToolInvoker Empty := fun _ _ _ _ ↦ .raises "down"

theorem agrees_of_executes_diamond :
    parseWorkflow .asGiven diamond = .ok diamondWorkflow ∧
      (∀ order, ∃ x, Executes order down diamondWorkflow none x) ∧
      (∀ order order' x y, Executes order down diamondWorkflow none x →
        Executes order' down diamondWorkflow none y →
          SameOutcome order' down diamondWorkflow none x y) ∧
      ∀ order, SeesEarlierLevels order down diamondWorkflow none := by
  have hparse : parseWorkflow .asGiven diamond = .ok diamondWorkflow := rfl
  exact ⟨hparse, agrees_of_executes down none hparse⟩

/-- The outcomes are the same, the text of an error included. -/
def Execution.Same (x y : Execution O ExecuteError (Dict String (StepResult O))) : Prop :=
  (∀ id, callsOf id x.invocations = callsOf id y.invocations) ∧
    match x.outcome, y.outcome with
    | .ok results, .ok results' => ∀ id, results.get? id = results'.get? id
    | .error e, .error e' => e = e'
    | _, _ => False

/-- Two steps that do not depend on each other. -/
def pair : WorkflowData Empty :=
  ⟨some "w", none, some [plainStep "a" [], plainStep "b" []], none, none⟩

def pairWorkflow : WorkflowDefinition Empty :=
  pair.define ((pair.steps.getD []).filterMap Step.fromDict)

/-- Every call of a tool is left by a `BaseException`. -/
def gone : ToolInvoker Empty := fun _ _ _ _ ↦ .escapes "gone"

/-- Sets iterated backwards. -/
def backwards : SetOrder String := ⟨fun _ l ↦ l.reverse, fun _ l ↦ List.reverse_perm l⟩

/-- Both steps are left by an exception, and the error names the one that comes first. -/
theorem not_same_pair : parseWorkflow .asGiven pair = .ok pairWorkflow ∧
    ¬ ∀ order order' x y, Executes order gone pairWorkflow none x →
      Executes order' gone pairWorkflow none y → Execution.Same x y := by
  have hparse : parseWorkflow .asGiven pair = .ok pairWorkflow := rfl
  have hout : ∀ {order x text}, Executes order gone pairWorkflow none x →
      (execute order gone pairWorkflow none).outcome = .error (.execution text) →
      x.outcome = .error (.execution text) := by
    intro order x text hx hexec
    obtain ⟨levels, horder, hlevels, -⟩ := orderable_of_parseWorkflow hparse order
    exact (executes_spec horder hlevels hx).1.trans hexec
  refine ⟨hparse, fun hall ↦ ?_⟩
  obtain ⟨levels, horder, -⟩ := orderable_of_parseWorkflow hparse .asGiven
  obtain ⟨levels', horder', -⟩ := orderable_of_parseWorkflow hparse backwards
  obtain ⟨x, hx⟩ := @exists_executes _ _ _ gone _ none _ horder
  obtain ⟨y, hy⟩ := @exists_executes _ _ _ gone _ none _ horder'
  have hx' : x.outcome = .error (.execution "Step 'a' failed: gone") := hout hx rfl
  have hy' : y.outcome = .error (.execution "Step 'b' failed: gone") := hout hy rfl
  have hsame := (hall _ _ _ _ hx hy).2
  rw [hx', hy'] at hsame
  exact absurd hsame (by simp)

end Workflows

end ArgusMcp
