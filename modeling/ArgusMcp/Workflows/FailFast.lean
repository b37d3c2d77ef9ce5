import ArgusMcp.Workflows.Executor

/-!
# Fail-fast workflows

A step of strategy `fail`, which is the default, is meant to stop the whole workflow when it ends
unsuccessfully. `execute` raises on its behalf when an exception leaves the step; but the exception
of an attempt never does, because `_execute_step` catches it and ends with a result whose status is
`failed`, and `execute` records such a result and goes on. The same holds for a step that a failed
dependency blocks.

`failFast_iff` says exactly when the promise is kept all the same: when every level in which a
step of strategy `fail` uses up its attempts also has one that a cancellation, or another
`BaseException`, leaves; and, unless the execution ends that way, when no step of strategy `fail`
is reached with a failed dependency.
-/

namespace ArgusMcp

namespace Workflows

open Layers (SetOrder)
open Run (Visits)

variable {O : Type} [PyObject O] (order : SetOrder String) (invoke : ToolInvoker O)
  (wf : WorkflowDefinition O) (inputs : Option (List (String × Value O)))

/-! ## The promise -/

/-- The execution gets to the level, in the state `p` and with the levels `post` behind it. -/
def Reached (p : Progress O) (level : List (Step O)) (post : List (List (Step O))) : Prop :=
  ∃ levels, wf.topologicalOrder order = .ok levels ∧
    Visits (levelStep invoke) (start inputs) levels p level post

/-- A step of strategy `fail` that ends unsuccessfully stops the workflow. -/
structure FailFast : Prop where
  /-- When the attempts of such a step have all raised, or an exception has left it, `execute`
  raises a `WorkflowExecutionError` and no tool of a later level is called. -/
  raises : ∀ {p level post}, Reached order invoke wf inputs p level post →
    ∀ step ∈ level, step.onError = "fail" → Exhausted invoke p step ∨ Escapes invoke p step →
      (∃ text, (execute order invoke wf inputs).outcome = .error (.execution text)) ∧
        ∀ inv ∈ (execute order invoke wf inputs).invocations, ∀ later ∈ post.flatten,
          inv.stepId ≠ later.id
  /-- When `execute` returns, no such step has failed. -/
  returns : ∀ {results}, (execute order invoke wf inputs).outcome = .ok results →
    ∀ step ∈ wf.steps, step.onError = "fail" → ∀ r, results.get? step.id = some r →
      r.status ≠ .failed

/-- Wherever a step of strategy `fail` uses up its attempts, an exception leaves one of the same
level. -/
def ExhaustionEscapes : Prop :=
  ∀ {p level post}, Reached order invoke wf inputs p level post →
    (∃ step ∈ level, step.onError = "fail" ∧ Exhausted invoke p step) →
      ∃ step ∈ level, step.onError = "fail" ∧ Escapes invoke p step

/-- No exception leaves a step of strategy `fail`. -/
def NothingEscapes : Prop :=
  ∀ {p level post}, Reached order invoke wf inputs p level post →
    ∀ step ∈ level, step.onError = "fail" → ¬ Escapes invoke p step

/-- No step of strategy `fail` is reached with a failed dependency. -/
def NothingBlocked : Prop :=
  ∀ {p level post}, Reached order invoke wf inputs p level post →
    ∀ step ∈ level, ¬ Blocked p step

/-! ## The outcome of an execution -/

section Ordered

variable {order invoke wf inputs} {levels : List (List (Step O))}
  (horder : wf.topologicalOrder order = .ok levels)

include horder

theorem reached_iff {p : Progress O} {level : List (Step O)} {post : List (List (Step O))} :
    Reached order invoke wf inputs p level post ↔
      Visits (levelStep invoke) (start inputs) levels p level post := by
  constructor
  · rintro ⟨levels', horder', hv⟩
    rw [horder, Except.ok.injEq] at horder'
    exact horder' ▸ hv
  · intro hv
    exact ⟨levels, horder, hv⟩

theorem invocations_execute : (execute order invoke wf inputs).invocations
    = (executeLevels invoke (start inputs) levels).invocations := by
  rw [execute, horder]

theorem outcome_execute_eq_ok_iff {results : Dict String (StepResult O)} :
    (execute order invoke wf inputs).outcome = .ok results ↔
      ∃ p, Run.run (levelStep invoke) (start inputs) levels = some p ∧ p.results = results := by
  rw [execute, horder, ← toOption_executeLevels]
  dsimp only
  cases (executeLevels invoke (start inputs) levels).outcome with
  | error text | ok p => simp [Except.map, Except.mapError, Except.toOption]

theorem outcome_execute_eq_error_iff :
    (∃ text, (execute order invoke wf inputs).outcome = .error (.execution text)) ↔
      Run.run (levelStep invoke) (start inputs) levels = none := by
  rw [execute, horder, ← toOption_executeLevels]
  dsimp only
  cases (executeLevels invoke (start inputs) levels).outcome with
  | error text | ok p => simp [Except.map, Except.mapError, Except.toOption]

theorem nothingEscapes_iff : NothingEscapes order invoke wf inputs ↔
    ∃ p, Run.run (levelStep invoke) (start inputs) levels = some p := by
  rw [← Option.isSome_iff_exists, ← Option.ne_none_iff_isSome, ne_eq, Run.run_eq_none_iff]
  constructor
  · rintro hnone ⟨p, level, post, hv, hstop⟩
    obtain ⟨step, hstep, hfail, hesc⟩ := levelStep_eq_none_iff.mp hstop
    exact hnone ((reached_iff horder).mpr hv) step hstep hfail hesc
  · intro hdefined p level post hreached step hstep hfail hesc
    exact hdefined ⟨p, level, post, (reached_iff horder).mp hreached,
      levelStep_eq_none_iff.mpr ⟨step, hstep, hfail, hesc⟩⟩

/-- An execution that passes a level and raises later has called a tool behind that level: the step
that the exception left was called. -/
theorem exists_later_invocation {p : Progress O} {level : List (Step O)}
    {post : List (List (Step O))} (hreached : Reached order invoke wf inputs p level post)
    (hpass : ∀ step ∈ level, step.onError = "fail" → ¬ Escapes invoke p step)
    (herror : ∃ text, (execute order invoke wf inputs).outcome = .error (.execution text)) :
    ∃ inv ∈ (execute order invoke wf inputs).invocations, ∃ later ∈ post.flatten,
      inv.stepId = later.id := by
  have hv := (reached_iff horder).mp hreached
  have hs := levelStep_eq_some_iff.mpr ⟨hpass, rfl⟩
  have hnone := (outcome_execute_eq_error_iff horder).mp herror
  rw [hv.run_eq, Run.run, hs, Option.bind_some, Run.run_eq_none_iff] at hnone
  obtain ⟨m, level', post', hv', hstop⟩ := hnone
  obtain ⟨step, hstep, -, hesc⟩ := levelStep_eq_none_iff.mp hstop
  obtain ⟨inv, hinv⟩ := exists_mem_executeStep_of_escapes hesc
  obtain ⟨pre, rfl⟩ := hv'.exists_split
  refine ⟨inv, ?_, step, ?_, stepId_of_mem_executeStep hinv⟩
  · rw [invocations_execute horder, mem_invocations_iff]
    exact ⟨m, level', post', hv.trans hs hv', List.mem_flatMap.mpr ⟨step, hstep, hinv⟩⟩
  · exact List.mem_flatten.mpr ⟨level', List.mem_append_right pre List.mem_cons_self, hstep⟩

/-- If an execution fails fast, used-up attempts are accompanied by an escape: otherwise the level
would be passed, and whatever raises later comes too late. -/
theorem exhaustionEscapes_of_failFast (hff : FailFast order invoke wf inputs) :
    ExhaustionEscapes order invoke wf inputs := by
  rintro p level post hreached ⟨step, hstep, hfail, hexh⟩
  obtain ⟨herror, hlater⟩ := hff.raises hreached step hstep hfail (.inl hexh)
  by_contra hno
  have hpass : ∀ step ∈ level, step.onError = "fail" → ¬ Escapes invoke p step :=
    fun t ht htfail htesc ↦ hno ⟨t, ht, htfail, htesc⟩
  obtain ⟨inv, hinv, later, hmem, hid⟩ := exists_later_invocation horder hreached hpass herror
  exact hlater inv hinv later hmem hid

section Distinct

variable (hids : (levels.flatten.map Step.id).Nodup) {p : Progress O} {level : List (Step O)}
  {post : List (List (Step O))}

include hids

/-- A level that an exception leaves is the last one: `execute` raises, and the levels behind it
have not been touched. -/
theorem stops_of_escapes (hreached : Reached order invoke wf inputs p level post)
    (hesc : ∃ step ∈ level, step.onError = "fail" ∧ Escapes invoke p step) :
    (∃ text, (execute order invoke wf inputs).outcome = .error (.execution text)) ∧
      ∀ inv ∈ (execute order invoke wf inputs).invocations, ∀ later ∈ post.flatten,
        inv.stepId ≠ later.id := by
  have hv := (reached_iff horder).mp hreached
  have hstop := levelStep_eq_none_iff.mpr hesc
  refine ⟨(outcome_execute_eq_error_iff horder).mpr
    (Run.run_eq_none_iff.mpr ⟨p, level, post, hv, hstop⟩), fun inv hinv later hlater heq ↦ ?_⟩
  rw [invocations_execute horder, mem_invocations_iff] at hinv
  obtain ⟨m, level', post', hv', hinv⟩ := hinv
  obtain ⟨step, hstep, hid⟩ := stepId_of_mem_levelInvocations hinv
  -- The level of the call is not behind the one where the run stopped, and ids are distinct.
  obtain ⟨pre, rfl, hmem⟩ := hv.mem_of_stop hstop hv'
  rw [List.append_cons, List.flatten_append, List.map_append, List.nodup_append] at hids
  refine hids.2.2 step.id ?_ later.id (List.mem_map_of_mem hlater) (hid.symm.trans heq)
  exact List.mem_map_of_mem (List.mem_flatten.mpr ⟨level', hmem, hstep⟩)

/-- When `execute` has returned, the result of a step that no exception left is a failure exactly
when the step used up its attempts or was blocked. -/
theorem failed_iff_of_returns {q : Progress O}
    (hrun : Run.run (levelStep invoke) (start inputs) levels = some q)
    (hreached : Reached order invoke wf inputs p level post) {step : Step O}
    (hstep : step ∈ level) (hesc : ¬ Escapes invoke p step) {r : StepResult O}
    (hr : q.results.get? step.id = some r) :
    r.status = .failed ↔ Exhausted invoke p step ∨ Blocked p step := by
  rw [get?_results_run hids ((reached_iff horder).mp hreached) hrun hstep,
    Option.some.injEq] at hr
  rw [← executeStep_exception_iff, not_exists] at hesc
  rw [← executeStep_failed_iff, ← hr]
  cases hend : (executeStep invoke p step).1 with
  | exception text => exact absurd hend (hesc text)
  | result r' => simp [StepEnd.toResult]

end Distinct

end Ordered

variable {order invoke wf inputs} in
theorem mem_steps_of_reached {order₀ : SetOrder String} {data : WorkflowData O}
    (hparse : parseWorkflow order₀ data = .ok wf) {p : Progress O} {level : List (Step O)}
    {post : List (List (Step O))} (hreached : Reached order invoke wf inputs p level post)
    {step : Step O} (hstep : step ∈ level) : step ∈ wf.steps := by
  obtain ⟨levels, horder, hlevels, -⟩ := orderable_of_parseWorkflow hparse order
  obtain ⟨pre, rfl⟩ := ((reached_iff horder).mp hreached).exists_split
  refine hlevels.once.1.mem_iff.mp (List.mem_flatten.mpr ⟨level, ?_, hstep⟩)
  exact List.mem_append_right pre List.mem_cons_self

/-- **When workflows fail fast.** For every workflow that parsing accepts, every iteration order,
all inputs and whatever the tools do. -/
theorem failFast_iff {order₀ : SetOrder String} {data : WorkflowData O}
    (hparse : parseWorkflow order₀ data = .ok wf) :
    FailFast order invoke wf inputs ↔
      ExhaustionEscapes order invoke wf inputs ∧
        (NothingEscapes order invoke wf inputs → NothingBlocked order invoke wf inputs) := by
  obtain ⟨levels, horder, hlevels, -⟩ := orderable_of_parseWorkflow hparse order
  have hids := hlevels.once.2
  constructor
  · intro hff
    refine ⟨exhaustionEscapes_of_failFast horder hff, ?_⟩
    intro hnone p level post hreached step hstep hblocked
    obtain ⟨q, hq⟩ := (nothingEscapes_iff horder).mp hnone
    have hr := get?_results_run hids ((reached_iff horder).mp hreached) hq hstep
    refine hff.returns ((outcome_execute_eq_ok_iff horder).mpr ⟨q, hq, rfl⟩) step
      (mem_steps_of_reached hparse hreached hstep) hblocked.2.1 _ hr ?_
    exact (failed_iff_of_returns horder hids hq hreached hstep
      (hnone hreached step hstep hblocked.2.1) hr).mpr (.inr hblocked)
  · rintro ⟨hexhaustion, hblocked⟩
    refine ⟨?_, ?_⟩
    · intro p level post hreached step hstep hfail hend
      refine stops_of_escapes horder hids hreached ?_
      rcases hend with hexh | hesc
      · exact hexhaustion hreached ⟨step, hstep, hfail, hexh⟩
      · exact ⟨step, hstep, hfail, hesc⟩
    · intro results hok step hstep hfail r hr hfailed
      obtain ⟨q, hq, rfl⟩ := (outcome_execute_eq_ok_iff horder).mp hok
      have hnone : NothingEscapes order invoke wf inputs := (nothingEscapes_iff horder).mpr ⟨q, hq⟩
      obtain ⟨level, hlevel, hmem⟩ := List.mem_flatten.mp (hlevels.once.1.mem_iff.mpr hstep)
      obtain ⟨p, post, hv⟩ := Run.exists_visits_of_run hq hlevel
      have hreached := (reached_iff horder).mpr hv
      -- A failure in the results is either of the two kinds, and both are ruled out.
      rcases (failed_iff_of_returns horder hids hq hreached hmem
        (hnone hreached step hmem hfail) hr).mp hfailed with hexh | hblk
      · obtain ⟨t, ht, htfail, htesc⟩ := hexhaustion hreached ⟨step, hmem, hfail, hexh⟩
        exact hnone hreached t ht htfail htesc
      · exact hblocked hnone hreached step hmem hblk

/-- One step, which may be tried twice. -/
def flaky : WorkflowData Empty :=
  ⟨some "w", none, some [⟨some "a", some "t", none, none, none, some 1, none, none, ""⟩],
    none, none⟩

def flakyWorkflow : WorkflowDefinition Empty :=
  flaky.define ((flaky.steps.getD []).filterMap Step.fromDict)

/-- The first attempt raises, the second returns. -/
def busyOnce : ToolInvoker Empty := fun _ attempt _ _ ↦
  if attempt = 0 then .raises "busy" else .returns .none

theorem failFast_flaky :
    parseWorkflow .asGiven flaky = .ok flakyWorkflow ∧
      FailFast .asGiven busyOnce flakyWorkflow none := by
  have hparse : parseWorkflow .asGiven flaky = .ok flakyWorkflow := rfl
  have hstep : ∀ {p level post}, Reached .asGiven busyOnce flakyWorkflow none p level post →
      ∀ step ∈ level, step.attempts = 2 ∧ step.dependsOn = [] := by
    intro p level post hreached step hstep
    have hmem := mem_steps_of_reached hparse hreached hstep
    rw [List.mem_singleton.mp hmem]
    exact ⟨rfl, rfl⟩
  refine ⟨hparse, (failFast_iff .asGiven busyOnce flakyWorkflow none hparse).mpr ⟨?_, ?_⟩⟩
  · rintro p level post hreached ⟨step, hmem, -, -, hraises⟩
    obtain ⟨text, htext⟩ := hraises 1 (by rw [(hstep hreached step hmem).1]; decide)
    exact absurd htext (by simp [busyOnce])
  · rintro - p level post hreached step hmem ⟨-, -, dep, hdep, -⟩
    rw [(hstep hreached step hmem).2] at hdep
    exact absurd hdep List.not_mem_nil

/-- Two steps that depend on nothing, and one that depends on the second. -/
def pipeline : WorkflowData Empty :=
  ⟨some "w", none, some [plainStep "a" [], plainStep "b" [], plainStep "c" ["b"]], none, none⟩

def pipelineWorkflow : WorkflowDefinition Empty :=
  pipeline.define ((pipeline.steps.getD []).filterMap Step.fromDict)

/-- The tool of the first step raises, the others return. -/
def boom : ToolInvoker Empty := fun id _ _ _ ↦
  if id = "a" then .raises "boom" else .returns .none

/-- The first step fails, and the execution returns all the same. -/
theorem not_failFast_boom :
    parseWorkflow .asGiven pipeline = .ok pipelineWorkflow ∧
      ¬ FailFast .asGiven boom pipelineWorkflow none := by
  refine ⟨rfl, fun hff ↦ ?_⟩
  exact hff.returns rfl _ List.mem_cons_self rfl _ rfl rfl

example : (execute .asGiven boom pipelineWorkflow none).invocations.map Invocation.stepId
    = ["a", "b", "c"] := by
  rfl

end Workflows

end ArgusMcp
