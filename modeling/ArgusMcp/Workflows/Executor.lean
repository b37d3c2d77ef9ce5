import ArgusMcp.Library.Run
import ArgusMcp.Workflows.Dsl
import ArgusMcp.Workflows.Interpolation

/-!
# The workflow executor

`WorkflowExecutor.execute` takes the levels of a workflow one after another. All steps of a level
run concurrently, and what they read (the results and the context of the levels before) is only
written after all of them have ended, so what a step does is a function of the state its level
starts in; only the order of the tool calls inside a level is not determined, and nothing here
depends on it.

A tool call can end in three ways. It returns a value, it raises an `Exception`, which
`_execute_step` catches and counts as a failed attempt, or it is left by a `BaseException` such as
a cancellation, which `_execute_step` lets through and `asyncio.gather` hands to `execute` in place
of a result. What the tools do is a parameter: every attempt of every step has its own outcome.
-/

namespace ArgusMcp

namespace Workflows

open Layers (SetOrder)

variable {O : Type}

/-! ## Results -/

inductive StepStatus where
  | pending
  | running
  | completed
  | failed
  | skipped
  deriving DecidableEq

def StepStatus.value : StepStatus → String
  | pending => "pending"
  | running => "running"
  | completed => "completed"
  | failed => "failed"
  | skipped => "skipped"

/-- Result of executing a single step, without its duration. -/
structure StepResult (O : Type) where
  stepId : String
  status : StepStatus
  output : Value O
  error : Option String

/-- How a tool call ends. -/
inductive ToolOutcome (O : Type) where
  | returns (output : Value O)
  /-- An `Exception` with its text. -/
  | raises (text : String)
  /-- A `BaseException` that is no `Exception` and that a task keeps, such as a `CancelledError`,
  with its text. `SystemExit` and `KeyboardInterrupt` are none of them: they end the loop of events
  with everything in it. -/
  | escapes (text : String)

/-- What the tools do: the outcome of an attempt of a step, for the tool and the arguments it is
called with. -/
abbrev ToolInvoker (O : Type) :=
  String → ℕ → String → List (String × Value O) → ToolOutcome O

/-- One call of a tool. -/
structure Invocation (O : Type) where
  stepId : String
  attempt : ℕ
  tool : String
  args : List (String × Value O)

/-- What `gather` collects for a step: its result, or the exception that left it. -/
inductive StepEnd (O : Type) where
  | result (r : StepResult O)
  | exception (text : String)

/-- What the levels taken so far have left behind. -/
structure Progress (O : Type) where
  results : Dict String (StepResult O)
  context : Context O

/-! ## One step -/

/-- The condition of the step, if it has one, holds. -/
def conditionHolds [PyObject O] (p : Progress O) (step : Step O) : Bool :=
  step.condition = "" || evaluateCondition step.condition p.context

/-- The dependency has a result, and it is a failure. -/
def hasFailed (p : Progress O) (dep : String) : Bool :=
  match p.results.get? dep with
  | none => false
  | some r => r.status = .failed

def failedDependency (p : Progress O) (step : Step O) : Option String :=
  step.dependsOn.find? (hasFailed p)

/-- `1 + step.retry`, as many rounds as the loop makes. -/
def Step.attempts (step : Step O) : ℕ := (1 + step.retry).toNat

/-- The arguments every attempt of the step is made with. -/
def resolvedArgs [PyObject O] (p : Progress O) (step : Step O) : List (String × Value O) :=
  interpolate p.context step.args

/-- The loop over the attempts that are left, `attempt` being the next one. It also yields the
attempts it made. -/
def attemptLoop (step : Step O) (call : ℕ → ToolOutcome O) :
    ℕ → ℕ → Option String → StepEnd O × List ℕ
  | 0, _, lastError => (.result ⟨step.id, .failed, .none, lastError⟩, [])
  | left + 1, attempt, _ =>
    match call attempt with
    | .returns output => (.result ⟨step.id, .completed, output, none⟩, [attempt])
    | .escapes text => (.exception text, [attempt])
    | .raises text =>
      let (ended, made) := attemptLoop step call left (attempt + 1) (some text)
      (ended, attempt :: made)

/-- The retry loop of a step whose arguments are resolved. -/
def runAttempts [PyObject O] (invoke : ToolInvoker O) (p : Progress O) (step : Step O) :
    StepEnd O × List (Invocation O) :=
  let args := resolvedArgs p step
  let (ended, made) :=
    attemptLoop step (fun n ↦ invoke step.id n step.tool args) step.attempts 0 none
  (ended, made.map fun n ↦ ⟨step.id, n, step.tool, args⟩)

/-- `_execute_step`: how the step ends, and the tool calls it makes. -/
def executeStep [PyObject O] (invoke : ToolInvoker O) (p : Progress O) (step : Step O) :
    StepEnd O × List (Invocation O) :=
  if conditionHolds p step then
    match failedDependency p step with
    | none => runAttempts invoke p step
    | some dep =>
      if step.onError = "skip" then (.result ⟨step.id, .skipped, .none, none⟩, [])
      else if step.onError = "fail" then
        (.result ⟨step.id, .failed, .none, some s!"Dependency '{dep}' failed"⟩, [])
      else runAttempts invoke p step
  else (.result ⟨step.id, .skipped, .none, none⟩, [])

/-! ## Levels -/

def StepEnd.toResult (step : Step O) : StepEnd O → StepResult O
  | .result r => r
  | .exception text => ⟨step.id, .failed, .none, some text⟩

/-- What later steps can refer to. -/
def StepEnd.toContext : StepEnd O → Value O
  | .result r => .dict [("output", r.output), ("status", .str r.status.value)]
  | .exception text => .dict [("output", .none), ("status", .str "failed"), ("error", .str text)]

/-- `results[step.id] = …` and `context[step.id] = …`. -/
def Progress.record (p : Progress O) (step : Step O) (ended : StepEnd O) : Progress O where
  results := p.results.set step.id (ended.toResult step)
  context := p.context.set step.id ended.toContext

/-- The loop over the ends of a level. It stops at the first exception that left a step whose
strategy is `fail`. -/
def collect : Progress O → List (Step O × StepEnd O) → Except String (Progress O)
  | p, [] => .ok p
  | p, (step, .result r) :: rest => collect (p.record step (.result r)) rest
  | p, (step, .exception text) :: rest =>
    if step.onError = "fail" then .error s!"Step '{step.id}' failed: {text}"
    else collect (p.record step (.exception text)) rest

/-- One level: its steps are run, and then their ends are collected. -/
def executeLevel [PyObject O] (invoke : ToolInvoker O) (p : Progress O) (level : List (Step O)) :
    Except String (Progress O) :=
  collect p (level.map fun step ↦ (step, (executeStep invoke p step).1))

def levelInvocations [PyObject O] (invoke : ToolInvoker O) (p : Progress O)
    (level : List (Step O)) : List (Invocation O) :=
  level.flatMap fun step ↦ (executeStep invoke p step).2

/-- What an execution does: its tool calls, level by level, and how it ends. -/
structure Execution (O : Type) (ε : Type) (α : Type) where
  invocations : List (Invocation O)
  outcome : Except ε α

/-- The loop over the levels. -/
def executeLevels [PyObject O] (invoke : ToolInvoker O) :
    Progress O → List (List (Step O)) → Execution O String (Progress O)
  | p, [] => ⟨[], .ok p⟩
  | p, level :: levels =>
    match executeLevel invoke p level with
    | .error text => ⟨levelInvocations invoke p level, .error text⟩
    | .ok p' =>
      let rest := executeLevels invoke p' levels
      ⟨levelInvocations invoke p level ++ rest.invocations, rest.outcome⟩

/-- The exceptions `execute` raises. -/
inductive ExecuteError where
  | validation (e : WorkflowValidationError)
  /-- A `WorkflowExecutionError` with its text. -/
  | execution (text : String)

/-- Nothing has run yet; the context holds the inputs. -/
def start (inputs : Option (List (String × Value O))) : Progress O where
  results := .empty
  context := Dict.empty.set "inputs" (.dict (inputs.getD []))

def execute [PyObject O] (order : SetOrder String) (invoke : ToolInvoker O)
    (wf : WorkflowDefinition O) (inputs : Option (List (String × Value O))) :
    Execution O ExecuteError (Dict String (StepResult O)) :=
  match wf.topologicalOrder order with
  | .error e => ⟨[], .error (.validation e)⟩
  | .ok levels =>
    let run := executeLevels invoke (start inputs) levels
    ⟨run.invocations, (run.outcome.map Progress.results).mapError .execution⟩

/-! ## How a step can end -/

/-- The step gets as far as its attempts. -/
def Runs [PyObject O] (p : Progress O) (step : Step O) : Prop :=
  conditionHolds p step = true ∧
    (failedDependency p step = none ∨ step.onError ≠ "skip" ∧ step.onError ≠ "fail")

/-- A step of strategy `fail` is stopped by a dependency that failed. -/
def Blocked [PyObject O] (p : Progress O) (step : Step O) : Prop :=
  conditionHolds p step = true ∧ step.onError = "fail" ∧
    ∃ dep ∈ step.dependsOn, hasFailed p dep = true

/-- An attempt of the step raises an `Exception`. -/
def Raises [PyObject O] (invoke : ToolInvoker O) (p : Progress O) (step : Step O) (n : ℕ) : Prop :=
  ∃ text, invoke step.id n step.tool (resolvedArgs p step) = .raises text

/-- The step runs, and all its attempts raise. -/
def Exhausted [PyObject O] (invoke : ToolInvoker O) (p : Progress O) (step : Step O) : Prop :=
  Runs p step ∧ ∀ n < step.attempts, Raises invoke p step n

/-- The step runs, and after some attempts that raise, one is left by a `BaseException`. -/
def Escapes [PyObject O] (invoke : ToolInvoker O) (p : Progress O) (step : Step O) : Prop :=
  Runs p step ∧ ∃ n < step.attempts, (∀ m < n, Raises invoke p step m) ∧
    ∃ text, invoke step.id n step.tool (resolvedArgs p step) = .escapes text

section Attempts

variable {step : Step O} {call : ℕ → ToolOutcome O}

theorem attemptLoop_exception_iff (left attempt : ℕ) (lastError : Option String) :
    (∃ text, (attemptLoop step call left attempt lastError).1 = .exception text) ↔
      ∃ n < left, (∀ m < n, ∃ text, call (attempt + m) = .raises text) ∧
        ∃ text, call (attempt + n) = .escapes text := by
  induction left generalizing attempt lastError with
  | zero => simp [attemptLoop]
  | succ left ih =>
    rw [attemptLoop, Nat.exists_lt_succ_left]
    simp only [Nat.forall_lt_succ_left, Nat.add_zero, ← Nat.add_assoc, Nat.add_right_comm _ _ 1]
    cases hcall : call attempt with
    | returns output => simp
    | escapes text => simp
    | raises text =>
      dsimp only
      rw [ih]
      simp

theorem attemptLoop_failed_iff (left attempt : ℕ) (lastError : Option String) :
    (∃ r, (attemptLoop step call left attempt lastError).1 = .result r ∧ r.status = .failed) ↔
      ∀ n < left, ∃ text, call (attempt + n) = .raises text := by
  induction left generalizing attempt lastError with
  | zero => simp [attemptLoop]
  | succ left ih =>
    rw [attemptLoop, Nat.forall_lt_succ_left]
    simp only [Nat.add_zero, ← Nat.add_assoc, Nat.add_right_comm _ _ 1]
    cases hcall : call attempt with
    | returns output => simp
    | escapes text => simp
    | raises text =>
      dsimp only
      rw [ih]
      simp

theorem attemptLoop_made_ne_nil {left : ℕ} (hleft : 0 < left) (attempt : ℕ)
    (lastError : Option String) :
    (attemptLoop step call left attempt lastError).2 ≠ [] := by
  obtain ⟨left, rfl⟩ := Nat.exists_eq_add_one_of_ne_zero hleft.ne'
  rw [attemptLoop]
  cases call attempt with
  | returns output => simp
  | escapes text => simp
  | raises text => simp

end Attempts

theorem isSome_failedDependency {p : Progress O} {step : Step O} :
    (failedDependency p step).isSome = true ↔ ∃ dep ∈ step.dependsOn, hasFailed p dep = true := by
  rw [failedDependency, List.find?_isSome]

section Steps

variable [PyObject O] {invoke : ToolInvoker O} {p : Progress O} {step : Step O}

theorem executeStep_of_runs (h : Runs p step) :
    executeStep invoke p step = runAttempts invoke p step := by
  obtain ⟨hcond, hdep⟩ := h
  rw [executeStep, if_pos hcond]
  cases hfailed : failedDependency p step with
  | none => rfl
  | some dep =>
    obtain ⟨hskip, hfail⟩ := hdep.resolve_left (by simp [hfailed])
    dsimp only
    rw [if_neg hskip, if_neg hfail]

/-- A step that does not get to its attempts calls no tool; its result is a failure exactly when a
failed dependency has blocked it. -/
theorem executeStep_of_not_runs (h : ¬ Runs p step) :
    (executeStep invoke p step).2 = [] ∧
      ∃ r, (executeStep invoke p step).1 = .result r ∧ (r.status = .failed ↔ Blocked p step) := by
  rw [executeStep]
  by_cases hcond : conditionHolds p step = true
  · rw [if_pos hcond]
    cases hfailed : failedDependency p step with
    | none => exact absurd ⟨hcond, .inl hfailed⟩ h
    | some dep =>
      have hdep : ∃ dep ∈ step.dependsOn, hasFailed p dep = true :=
        isSome_failedDependency.mp (by simp [hfailed])
      dsimp only
      by_cases hskip : step.onError = "skip"
      · rw [if_pos hskip]
        refine ⟨rfl, _, rfl, iff_of_false (by simp) fun hblocked ↦ ?_⟩
        exact absurd (hskip.symm.trans hblocked.2.1) (by decide)
      · rw [if_neg hskip]
        by_cases hfail : step.onError = "fail"
        · rw [if_pos hfail]
          exact ⟨rfl, _, rfl, iff_of_true rfl ⟨hcond, hfail, hdep⟩⟩
        · exact absurd ⟨hcond, .inr ⟨hskip, hfail⟩⟩ h
  · rw [if_neg hcond]
    exact ⟨rfl, _, rfl, iff_of_false (by simp) fun hblocked ↦ hcond hblocked.1⟩

theorem not_blocked_of_runs (h : Runs p step) : ¬ Blocked p step := by
  rintro ⟨-, hfail, hdep⟩
  rcases h.2 with hnone | ⟨-, hne⟩
  · rw [← isSome_failedDependency, hnone] at hdep
    exact absurd hdep (by simp)
  · exact hne hfail

/-- **An exception leaves a step** exactly when one of its attempts is left by one. -/
theorem executeStep_exception_iff :
    (∃ text, (executeStep invoke p step).1 = .exception text) ↔ Escapes invoke p step := by
  by_cases hruns : Runs p step
  · rw [executeStep_of_runs hruns, Escapes, and_iff_right hruns, runAttempts]
    dsimp only
    rw [attemptLoop_exception_iff]
    simp only [Nat.zero_add, Raises]
  · obtain ⟨-, r, hr, -⟩ := executeStep_of_not_runs hruns
    rw [hr]
    exact iff_of_false (by simp) fun h ↦ hruns h.1

/-- **A step ends with a failure** exactly when its attempts are exhausted or a failed dependency
blocks it. -/
theorem executeStep_failed_iff :
    (∃ r, (executeStep invoke p step).1 = .result r ∧ r.status = .failed) ↔
      Exhausted invoke p step ∨ Blocked p step := by
  by_cases hruns : Runs p step
  · rw [executeStep_of_runs hruns, Exhausted, and_iff_right hruns,
      or_iff_left (not_blocked_of_runs hruns), runAttempts]
    dsimp only
    rw [attemptLoop_failed_iff]
    simp only [Nat.zero_add, Raises]
  · obtain ⟨-, r, hr, hiff⟩ := executeStep_of_not_runs hruns
    rw [or_iff_right fun h ↦ hruns h.1, ← hiff, hr]
    constructor
    · rintro ⟨r', hr', hfailed⟩
      rw [StepEnd.result.injEq] at hr'
      exact hr' ▸ hfailed
    · intro hfailed
      exact ⟨r, rfl, hfailed⟩

theorem stepId_of_mem_executeStep {inv : Invocation O} (h : inv ∈ (executeStep invoke p step).2) :
    inv.stepId = step.id := by
  by_cases hruns : Runs p step
  · rw [executeStep_of_runs hruns, runAttempts] at h
    obtain ⟨n, -, rfl⟩ := List.mem_map.mp h
    rfl
  · rw [(executeStep_of_not_runs hruns).1] at h
    exact absurd h List.not_mem_nil

/-- A step that an exception leaves has called its tool. -/
theorem exists_mem_executeStep_of_escapes (h : Escapes invoke p step) :
    ∃ inv, inv ∈ (executeStep invoke p step).2 := by
  obtain ⟨hruns, n, hn, -⟩ := h
  refine List.exists_mem_of_ne_nil _ ?_
  rw [executeStep_of_runs hruns, runAttempts]
  dsimp only
  rw [ne_eq, List.map_eq_nil_iff]
  exact attemptLoop_made_ne_nil (Nat.zero_lt_of_lt hn) 0 none

end Steps

/-! ## How a level can end -/

/-- An end that makes `execute` raise. -/
def Fatal (x : Step O × StepEnd O) : Prop :=
  x.1.onError = "fail" ∧ ∃ text, x.2 = .exception text

theorem collect_eq_ok_iff {p p' : Progress O} {ends : List (Step O × StepEnd O)} :
    collect p ends = .ok p' ↔
      (∀ x ∈ ends, ¬ Fatal x) ∧ ends.foldl (fun p x ↦ p.record x.1 x.2) p = p' := by
  induction ends generalizing p with
  | nil => simp [collect]
  | cons x ends ih =>
    rw [List.forall_mem_cons, List.foldl_cons, and_assoc, ← ih]
    obtain ⟨step, r | text⟩ := x
    · rw [collect, and_iff_right]
      simp [Fatal]
    · rw [collect]
      by_cases hfail : step.onError = "fail"
      · rw [if_pos hfail]
        exact iff_of_false (by simp) fun h ↦ h.1 ⟨hfail, text, rfl⟩
      · rw [if_neg hfail, and_iff_right]
        exact fun h ↦ hfail h.1

theorem exists_mem_of_collect_eq_error {p : Progress O} {ends : List (Step O × StepEnd O)}
    {text : String} (h : collect p ends = .error text) : ∃ x ∈ ends, x.1.onError = "fail" ∧
      ∃ exc, x.2 = .exception exc ∧ text = s!"Step '{x.1.id}' failed: {exc}" := by
  induction ends generalizing p with
  | nil => exact absurd h (by simp [collect])
  | cons x ends ih =>
    obtain ⟨step, r | exc⟩ := x
    · obtain ⟨x, hx, hrest⟩ := ih h
      exact ⟨x, List.mem_cons_of_mem _ hx, hrest⟩
    · rw [collect] at h
      by_cases hfail : step.onError = "fail"
      · rw [if_pos hfail, Except.error.injEq] at h
        exact ⟨_, List.mem_cons_self, hfail, exc, rfl, h.symm⟩
      · rw [if_neg hfail] at h
        obtain ⟨x, hx, hrest⟩ := ih h
        exact ⟨x, List.mem_cons_of_mem _ hx, hrest⟩

theorem results_foldl_record (ends : List (Step O × StepEnd O)) (p : Progress O) :
    (ends.foldl (fun p x ↦ p.record x.1 x.2) p).results
      = (ends.map fun x ↦ (x.1.id, x.2.toResult x.1)).foldl (fun d e ↦ d.set e.1 e.2)
          p.results := by
  induction ends generalizing p with
  | nil => rfl
  | cons x ends ih =>
    rw [List.foldl_cons, ih, List.map_cons, List.foldl_cons]
    rfl

theorem context_foldl_record (ends : List (Step O × StepEnd O)) (p : Progress O) :
    (ends.foldl (fun p x ↦ p.record x.1 x.2) p).context
      = (ends.map fun x ↦ (x.1.id, x.2.toContext)).foldl (fun d e ↦ d.set e.1 e.2)
          p.context := by
  induction ends generalizing p with
  | nil => rfl
  | cons x ends ih =>
    rw [List.foldl_cons, ih, List.map_cons, List.foldl_cons]
    rfl

section Levels

variable [PyObject O] (invoke : ToolInvoker O)

def levelStep (p : Progress O) (level : List (Step O)) : Option (Progress O) :=
  (executeLevel invoke p level).toOption

variable {invoke} {p p' : Progress O} {level : List (Step O)}

theorem levelStep_eq_some_iff_executeLevel :
    levelStep invoke p level = some p' ↔ executeLevel invoke p level = .ok p' := by
  rw [levelStep]
  cases executeLevel invoke p level with
  | error text => simp [Except.toOption]
  | ok q => simp [Except.toOption]

theorem levelStep_eq_some_iff : levelStep invoke p level = some p' ↔
    (∀ step ∈ level, step.onError = "fail" → ¬ Escapes invoke p step) ∧
      (level.map fun step ↦ (step, (executeStep invoke p step).1)).foldl
        (fun p x ↦ p.record x.1 x.2) p = p' := by
  rw [levelStep_eq_some_iff_executeLevel, executeLevel, collect_eq_ok_iff, List.forall_mem_map]
  simp only [Fatal, executeStep_exception_iff, not_and]

theorem levelStep_eq_none_iff : levelStep invoke p level = none ↔
    ∃ step ∈ level, step.onError = "fail" ∧ Escapes invoke p step := by
  rw [Option.eq_none_iff_forall_ne_some]
  constructor
  · intro h
    by_contra hno
    refine h _ (levelStep_eq_some_iff.mpr ⟨fun step hstep hfail hesc ↦ ?_, rfl⟩)
    exact hno ⟨step, hstep, hfail, hesc⟩
  · rintro ⟨step, hstep, hfail, hesc⟩ p' h
    exact (levelStep_eq_some_iff.mp h).1 step hstep hfail hesc

theorem results_levelStep (h : levelStep invoke p level = some p') :
    p'.results = (level.map fun step ↦
      (step.id, (executeStep invoke p step).1.toResult step)).foldl (fun d e ↦ d.set e.1 e.2)
        p.results := by
  rw [← (levelStep_eq_some_iff.mp h).2, results_foldl_record, List.map_map]
  rfl

theorem context_levelStep (h : levelStep invoke p level = some p') :
    p'.context = (level.map fun step ↦
      (step.id, (executeStep invoke p step).1.toContext)).foldl (fun d e ↦ d.set e.1 e.2)
        p.context := by
  rw [← (levelStep_eq_some_iff.mp h).2, context_foldl_record, List.map_map]
  rfl

theorem get?_results_levelStep_of_mem (hids : (level.map Step.id).Nodup)
    (h : levelStep invoke p level = some p') {step : Step O} (hstep : step ∈ level) :
    p'.results.get? step.id = some ((executeStep invoke p step).1.toResult step) := by
  rw [results_levelStep h]
  have hmem := List.mem_map_of_mem (f := fun step ↦
    (step.id, (executeStep invoke p step).1.toResult step)) hstep
  refine Dict.get?_foldl_set_of_mem ?_ hmem _
  rwa [List.map_map]

theorem get?_results_levelStep_of_notMem (h : levelStep invoke p level = some p') {k : String}
    (hk : k ∉ level.map Step.id) : p'.results.get? k = p.results.get? k := by
  rw [results_levelStep h]
  refine Dict.get?_foldl_set_of_notMem ?_ _
  rwa [List.map_map]

theorem stepId_of_mem_levelInvocations {inv : Invocation O}
    (h : inv ∈ levelInvocations invoke p level) : ∃ step ∈ level, inv.stepId = step.id := by
  obtain ⟨step, hstep, hinv⟩ := List.mem_flatMap.mp h
  exact ⟨step, hstep, stepId_of_mem_executeStep hinv⟩

/-! ## How an execution can end -/

variable {levels : List (List (Step O))}

open Run (Visits)

theorem toOption_executeLevels :
    (executeLevels invoke p levels).outcome.toOption
      = Run.run (levelStep invoke) p levels := by
  induction levels generalizing p with
  | nil => rfl
  | cons level levels ih =>
    rw [executeLevels, Run.run, levelStep]
    cases executeLevel invoke p level with
    | error text => rfl
    | ok p' => exact ih

/-- The tool calls of an execution are those of the levels it visits. -/
theorem mem_invocations_iff {inv : Invocation O} :
    inv ∈ (executeLevels invoke p levels).invocations ↔
      ∃ m level post, Visits (levelStep invoke) p levels m level post ∧
        inv ∈ levelInvocations invoke m level := by
  induction levels generalizing p with
  | nil =>
    refine iff_of_false List.not_mem_nil ?_
    rintro ⟨m, level, post, hv, -⟩
    cases hv
  | cons level levels ih =>
    rw [executeLevels]
    constructor
    · intro h
      -- a level that stops the run has still made its calls
      cases hlevel : executeLevel invoke p level with
      | error text =>
        rw [hlevel] at h
        exact ⟨p, level, levels, .here p level levels, h⟩
      | ok p' =>
        rw [hlevel] at h
        rcases List.mem_append.mp h with h | h
        · exact ⟨p, level, levels, .here p level levels, h⟩
        · obtain ⟨m, level', post, hv, hinv⟩ := ih.mp h
          exact ⟨m, level', post, .later (levelStep_eq_some_iff_executeLevel.mpr hlevel) hv, hinv⟩
    · rintro ⟨m, level', post, hv, hinv⟩
      rcases hv with _ | ⟨hs, hv⟩
      · cases executeLevel invoke p level with
        | error text => exact hinv
        | ok p' => exact List.mem_append_left _ hinv
      · rw [levelStep_eq_some_iff_executeLevel] at hs
        rw [hs]
        exact List.mem_append_right _ (ih.mpr ⟨m, level', post, hv, hinv⟩)

theorem get?_results_run_of_notMem (h : Run.run (levelStep invoke) p levels = some p') {k : String}
    (hk : k ∉ levels.flatten.map Step.id) : p'.results.get? k = p.results.get? k := by
  induction levels generalizing p with
  | nil =>
    rw [Run.run_nil, Option.some.injEq] at h
    rw [h]
  | cons level levels ih =>
    obtain ⟨m, hm, hrun⟩ := Run.run_cons_eq_some.mp h
    rw [List.flatten_cons, List.map_append, List.mem_append, not_or] at hk
    rw [ih hrun hk.2, get?_results_levelStep_of_notMem hm hk.1]

/-- **The results of an execution that returns** are the ends of the steps, each in the state its
level was visited in. -/
theorem get?_results_run (hids : (levels.flatten.map Step.id).Nodup) {m : Progress O}
    {post : List (List (Step O))} (hv : Visits (levelStep invoke) p levels m level post)
    (h : Run.run (levelStep invoke) p levels = some p') {step : Step O} (hstep : step ∈ level) :
    p'.results.get? step.id = some ((executeStep invoke m step).1.toResult step) := by
  induction hv with
  | here p level levels =>
    obtain ⟨q, hq, hrun⟩ := Run.run_cons_eq_some.mp h
    rw [List.flatten_cons, List.map_append, List.nodup_append] at hids
    have hlater : step.id ∉ levels.flatten.map Step.id :=
      fun hmem ↦ hids.2.2 _ (List.mem_map_of_mem hstep) _ hmem rfl
    rw [get?_results_run_of_notMem hrun hlater, get?_results_levelStep_of_mem hids.1 hq hstep]
  | later hs _ ih =>
    obtain ⟨q, hq, hrun⟩ := Run.run_cons_eq_some.mp h
    rw [hs, Option.some.injEq] at hq
    rw [List.flatten_cons, List.map_append, List.nodup_append] at hids
    exact ih hids.2.1 (hq ▸ hrun) hstep

end Levels

end Workflows

end ArgusMcp
