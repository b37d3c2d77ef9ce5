import ArgusMcp.Workflows.FailFast

/-!
# Failures along the dependencies

A step looks at the results of its direct dependencies and at nothing further back. So a failure
travels along a path of dependencies only as long as every step on the way ends with the status
`failed` itself, and that is what a step of strategy `fail` does: reached with a failed dependency,
it fails without calling its tool. A step of strategy `skip` ends as `skipped` instead, as does
every step whose condition is false, and to the steps behind it a skipped step is as good as a
completed one.

`stopped_of_failedAncestor` is the induction along such a path. What makes it go through is that
the dependencies of a step stand in earlier levels, so that their results are in the state in which
the step is reached (`get?_results_of_reached`).
-/

namespace ArgusMcp

namespace Workflows

open Layers (SetOrder)

variable {O : Type} [PyObject O] (order : SetOrder String) (invoke : ToolInvoker O)
  (wf : WorkflowDefinition O) (inputs : Option (List (String × Value O)))

/-! ## Failed ancestors -/

/-- The execution reaches the step, and it ends with the status `failed`. -/
def Fails (step : Step O) : Prop :=
  ∃ p level post, Reached order invoke wf inputs p level post ∧ step ∈ level ∧
    ((executeStep invoke p step).1.toResult step).status = .failed

/-- Wherever the execution reaches the step, its condition holds. -/
def Entered (step : Step O) : Prop :=
  ∀ {p level post}, Reached order invoke wf inputs p level post → step ∈ level →
    conditionHolds p step = true

/-- Some ancestor of the step fails, and all steps on the way to it satisfy `through`. -/
inductive FailedAncestor (through : Step O → Prop) : Step O → Prop
  | direct {step t : Step O} (ht : t ∈ wf.steps) (hdep : t.id ∈ step.dependsOn)
      (hfails : Fails order invoke wf inputs t) : FailedAncestor through step
  | via {step t : Step O} (ht : t ∈ wf.steps) (hdep : t.id ∈ step.dependsOn)
      (hthrough : through t) (h : FailedAncestor through t) : FailedAncestor through step

/-- The step does not take part in the execution. -/
structure Stopped (step : Step O) : Prop where
  /-- Its tool is never called. -/
  silent : ∀ inv ∈ (execute order invoke wf inputs).invocations, inv.stepId ≠ step.id
  /-- When `execute` returns, its result says so. -/
  result : ∀ results, (execute order invoke wf inputs).outcome = .ok results →
    ∃ r, results.get? step.id = some r ∧ (r.status = .skipped ∨ r.status = .failed)

/-! ## Steps that do not run -/

section Steps

variable {invoke} {p : Progress O} {step : Step O}

theorem status_of_not_runs (h : ¬ Runs p step) :
    ((executeStep invoke p step).1.toResult step).status = .skipped ∨
      ((executeStep invoke p step).1.toResult step).status = .failed := by
  rw [executeStep]
  by_cases hcond : conditionHolds p step = true
  · rw [if_pos hcond]
    cases hfailed : failedDependency p step with
    | none => exact absurd ⟨hcond, .inl hfailed⟩ h
    | some dep =>
      dsimp only
      by_cases hskip : step.onError = "skip"
      · rw [if_pos hskip]
        exact .inl rfl
      · by_cases hfail : step.onError = "fail"
        · rw [if_neg hskip, if_pos hfail]
          exact .inr rfl
        · exact absurd ⟨hcond, .inr ⟨hskip, hfail⟩⟩ h
  · rw [if_neg hcond]
    exact .inl rfl

theorem not_runs_of_hasFailed (hmode : step.onError = "fail" ∨ step.onError = "skip")
    {dep : String} (hdep : dep ∈ step.dependsOn) (hfailed : hasFailed p dep = true) :
    ¬ Runs p step := by
  rintro ⟨-, hnone | ⟨hskip, hfail⟩⟩
  · have hsome := isSome_failedDependency.mpr ⟨dep, hdep, hfailed⟩
    rw [hnone] at hsome
    exact absurd hsome (by simp)
  · exact hmode.elim hfail hskip

theorem status_of_blocked (h : Blocked p step) :
    ((executeStep invoke p step).1.toResult step).status = .failed := by
  obtain ⟨r, hr, hfailed⟩ := executeStep_failed_iff.mpr (.inr h)
  rw [hr]
  exact hfailed

end Steps

/-! ## Where a step is reached -/

section Ordered

variable {order invoke wf inputs} {levels : List (List (Step O))}
  (horder : wf.topologicalOrder order = .ok levels) (hlevels : Levelled wf levels)

include horder hlevels

/-- The level in which a step is reached is the one the order gave it, and the levels before it
are a run to the state in which it is reached. -/
theorem exists_run_of_reached {p : Progress O} {level : List (Step O)}
    {post : List (List (Step O))} (hreached : Reached order invoke wf inputs p level post)
    {step : Step O} (hstep : step ∈ level) :
    ∃ pre, levels = pre ++ level :: post ∧ stepLevel levels step.id = pre.length ∧
      Run.run (levelStep invoke) (start inputs) pre = some p := by
  obtain ⟨pre, rfl, hrun⟩ := ((reached_iff horder).mp hreached).exists_run
  refine ⟨pre, rfl, ?_, hrun⟩
  have hids := hlevels.once.2
  rw [List.flatten_append, List.flatten_cons, List.map_append, List.nodup_append] at hids
  have hpre : step.id ∉ (pre.map fun level ↦ level.map Step.id).flatten := by
    rw [← List.map_flatten]
    refine fun hmem ↦ hids.2.2 step.id hmem step.id ?_ rfl
    exact List.mem_map_of_mem (List.mem_append_left _ hstep)
  rw [stepLevel, List.map_append, List.map_cons,
    Layers.levelOf_append_cons hpre (List.mem_map_of_mem hstep), List.length_map]

theorem eq_of_reached {p p' : Progress O} {level level' : List (Step O)}
    {post post' : List (List (Step O))} {step : Step O}
    (hreached : Reached order invoke wf inputs p level post) (hstep : step ∈ level)
    (hreached' : Reached order invoke wf inputs p' level' post') (hstep' : step ∈ level') :
    p = p' := by
  obtain ⟨pre, hpre, hlen, hrun⟩ := exists_run_of_reached horder hlevels hreached hstep
  obtain ⟨pre', hpre', hlen', hrun'⟩ := exists_run_of_reached horder hlevels hreached' hstep'
  obtain ⟨rfl, -⟩ := List.append_inj (hpre.symm.trans hpre') (hlen.symm.trans hlen')
  rw [hrun, Option.some.injEq] at hrun'
  exact hrun'

/-- **The results of the dependencies.** When a step is reached, each of its dependencies has been
reached before, and how it ended there is what the results say. -/
theorem get?_results_of_reached {p : Progress O} {level : List (Step O)}
    {post : List (List (Step O))} (hreached : Reached order invoke wf inputs p level post)
    {step t : Step O} (hstep : step ∈ level) (ht : t ∈ wf.steps) (hdep : t.id ∈ step.dependsOn) :
    ∃ p₀ level₀ post₀, Reached order invoke wf inputs p₀ level₀ post₀ ∧ t ∈ level₀ ∧
      p.results.get? t.id = some ((executeStep invoke p₀ t).1.toResult t) := by
  obtain ⟨pre, hpre, hlen, hrun⟩ := exists_run_of_reached horder hlevels hreached hstep
  have hmem : step ∈ wf.steps := by
    rw [← hlevels.once.1.mem_iff, hpre, List.flatten_append, List.flatten_cons]
    exact List.mem_append_right _ (List.mem_append_left _ hstep)
  -- The dependency stands in a lower level, so it is among the levels already taken.
  have hlt : stepLevel levels t.id < pre.length := by
    rw [← hlen, hlevels.lowest step hmem, ← Nat.succ_le_iff]
    exact Finset.le_sup (f := fun dep ↦ stepLevel levels dep + 1) (List.mem_toFinset.mpr hdep)
  have hearlier : t.id ∈ pre.flatten.map Step.id := by
    rw [stepLevel, hpre, List.map_append] at hlt
    rw [List.map_flatten]
    exact Layers.levelOf_append_lt_iff.mp (by rwa [List.length_map])
  obtain ⟨t', ht', hid⟩ := List.mem_map.mp hearlier
  have hids := hlevels.once.2
  have htlevels : t ∈ levels.flatten := hlevels.once.1.mem_iff.mpr ht
  have ht'levels : t' ∈ levels.flatten := by
    rw [hpre, List.flatten_append]
    exact List.mem_append_left _ ht'
  obtain rfl := List.inj_on_of_nodup_map hids ht'levels htlevels hid
  obtain ⟨level₀, hlevel₀, htlevel₀⟩ := List.mem_flatten.mp ht'
  obtain ⟨p₀, post₀, hv⟩ := Run.exists_visits_of_run hrun hlevel₀
  refine ⟨p₀, level₀, post₀ ++ level :: post, (reached_iff horder).mpr ?_, htlevel₀, ?_⟩
  · rw [hpre]
    exact hv.append _
  · rw [hpre, List.flatten_append, List.map_append, List.nodup_append] at hids
    exact get?_results_run hids.1 hv hrun htlevel₀

theorem hasFailed_of_fails {p : Progress O} {level : List (Step O)}
    {post : List (List (Step O))} (hreached : Reached order invoke wf inputs p level post)
    {step t : Step O} (hstep : step ∈ level) (ht : t ∈ wf.steps) (hdep : t.id ∈ step.dependsOn)
    (hfails : Fails order invoke wf inputs t) : hasFailed p t.id = true := by
  obtain ⟨p₀, level₀, post₀, hreached₀, ht₀, hget⟩ :=
    get?_results_of_reached horder hlevels hreached hstep ht hdep
  obtain ⟨p₁, level₁, post₁, hreached₁, ht₁, hstatus⟩ := hfails
  obtain rfl := eq_of_reached horder hlevels hreached₀ ht₀ hreached₁ ht₁
  rw [hasFailed, hget]
  exact decide_eq_true hstatus

/-- **The induction along the path.** A step with a failed ancestor, reached through steps of
strategy `fail` that were entered, has a dependency that has failed. -/
theorem exists_hasFailed_of_failedAncestor {step : Step O}
    (hancestor : FailedAncestor order invoke wf inputs
      (fun t ↦ t.onError = "fail" ∧ Entered order invoke wf inputs t) step)
    {p : Progress O} {level : List (Step O)} {post : List (List (Step O))}
    (hreached : Reached order invoke wf inputs p level post) (hstep : step ∈ level) :
    ∃ dep ∈ step.dependsOn, hasFailed p dep = true := by
  induction hancestor generalizing p level post with
  | @direct step t ht hdep hfails =>
    exact ⟨t.id, hdep, hasFailed_of_fails horder hlevels hreached hstep ht hdep hfails⟩
  | @via step t ht hdep hthrough _ ih =>
    obtain ⟨p₀, level₀, post₀, hreached₀, ht₀, -⟩ :=
      get?_results_of_reached horder hlevels hreached hstep ht hdep
    have hblocked : Blocked p₀ t := ⟨hthrough.2 hreached₀ ht₀, hthrough.1, ih hreached₀ ht₀⟩
    refine ⟨t.id, hdep, hasFailed_of_fails horder hlevels hreached hstep ht hdep ?_⟩
    exact ⟨p₀, level₀, post₀, hreached₀, ht₀, status_of_blocked hblocked⟩

theorem stopped_of_not_runs {step : Step O} (hmem : step ∈ wf.steps)
    (hnot : ∀ {p level post}, Reached order invoke wf inputs p level post → step ∈ level →
      ¬ Runs p step) : Stopped order invoke wf inputs step := by
  have hids := hlevels.once.2
  have hflat : step ∈ levels.flatten := hlevels.once.1.mem_iff.mpr hmem
  refine ⟨fun inv hinv hid ↦ ?_, fun results hok ↦ ?_⟩
  · rw [invocations_execute horder, mem_invocations_iff] at hinv
    obtain ⟨p, level, post, hv, hinv⟩ := hinv
    obtain ⟨t, ht, hinv⟩ := List.mem_flatMap.mp hinv
    obtain ⟨pre, hpre⟩ := hv.exists_split
    have htflat : t ∈ levels.flatten := by
      rw [hpre, List.flatten_append, List.flatten_cons]
      exact List.mem_append_right _ (List.mem_append_left _ ht)
    obtain rfl := List.inj_on_of_nodup_map hids htflat hflat
      ((stepId_of_mem_executeStep hinv).symm.trans hid)
    rw [(executeStep_of_not_runs (hnot ((reached_iff horder).mpr hv) ht)).1] at hinv
    exact List.not_mem_nil hinv
  · obtain ⟨q, hq, rfl⟩ := (outcome_execute_eq_ok_iff horder).mp hok
    obtain ⟨level, hlevel, hstep⟩ := List.mem_flatten.mp hflat
    obtain ⟨p, post, hv⟩ := Run.exists_visits_of_run hq hlevel
    exact ⟨_, get?_results_run hids hv hq hstep,
      status_of_not_runs (hnot ((reached_iff horder).mpr hv) hstep)⟩

end Ordered

variable {order invoke wf inputs} in
/-- **How far a failure travels.** For every workflow that parsing accepts, every iteration order,
all inputs and whatever the tools do: a step of strategy `fail` or `skip` is stopped if an ancestor
of it fails, reached through steps of strategy `fail` whose conditions hold. -/
theorem stopped_of_failedAncestor {order₀ : SetOrder String} {data : WorkflowData O}
    (hparse : parseWorkflow order₀ data = .ok wf) {step : Step O} (hstep : step ∈ wf.steps)
    (hmode : step.onError = "fail" ∨ step.onError = "skip")
    (hancestor : FailedAncestor order invoke wf inputs
      (fun t ↦ t.onError = "fail" ∧ Entered order invoke wf inputs t) step) :
    Stopped order invoke wf inputs step := by
  obtain ⟨levels, horder, hlevels, -⟩ := orderable_of_parseWorkflow hparse order
  refine stopped_of_not_runs horder hlevels hstep fun hreached hmem ↦ ?_
  obtain ⟨dep, hdep, hfailed⟩ :=
    exists_hasFailed_of_failedAncestor horder hlevels hancestor hreached hmem
  exact not_runs_of_hasFailed hmode hdep hfailed

/-- A step between `a` and `c`, with a condition and a strategy. -/
def middle (condition onError : String) : StepData Empty :=
  ⟨some "b", some "t", none, some ["a"], some condition, none, some onError, none, ""⟩

/-- Three steps in a row. -/
def chain (condition onError : String) : WorkflowData Empty :=
  ⟨some "w", none, some [plainStep "a" [], middle condition onError, plainStep "c" ["b"]],
    none, none⟩

def chainWorkflow (condition onError : String) : WorkflowDefinition Empty :=
  (chain condition onError).define
    (((chain condition onError).steps.getD []).filterMap Step.fromDict)

theorem fails_chainWorkflow {condition onError : String} {a : Step Empty}
    {post : List (List (Step Empty))}
    (horder : (chainWorkflow condition onError).topologicalOrder .asGiven = .ok ([a] :: post))
    (hend : ((executeStep boom (start none) a).1.toResult a).status = .failed) :
    Fails .asGiven boom (chainWorkflow condition onError) none a :=
  ⟨start none, [a], post, ⟨_, horder, .here _ _ _⟩, List.mem_singleton_self a, hend⟩

/-- The first step fails, the second passes the failure on, and the third is stopped. -/
theorem stopped_chain : ∃ c ∈ (chainWorkflow "" "fail").steps, c.id = "c" ∧
    parseWorkflow .asGiven (chain "" "fail") = .ok (chainWorkflow "" "fail") ∧
      Stopped .asGiven boom (chainWorkflow "" "fail") none c := by
  have hparse : parseWorkflow .asGiven (chain "" "fail") = .ok (chainWorkflow "" "fail") := rfl
  refine ⟨_, List.mem_cons_of_mem _ (List.mem_cons_of_mem _ List.mem_cons_self), rfl, hparse, ?_⟩
  refine stopped_of_failedAncestor hparse
    (List.mem_cons_of_mem _ (List.mem_cons_of_mem _ List.mem_cons_self)) (.inl rfl) ?_
  refine .via (List.mem_cons_of_mem _ List.mem_cons_self) List.mem_cons_self ⟨rfl, ?_⟩ ?_
  · intro p level post _ _
    rfl
  · exact .direct List.mem_cons_self List.mem_cons_self (fails_chainWorkflow rfl rfl)

/-- A failure travels past every step whose strategy is not `continue`. -/
def Propagates : Prop :=
  ∀ step ∈ wf.steps, step.onError ≠ "continue" →
    FailedAncestor order invoke wf inputs (fun t ↦ t.onError ≠ "continue") step →
      Stopped order invoke wf inputs step

theorem not_propagates_of_calls {condition onError : String} {a b c : Step Empty}
    (horder : (chainWorkflow condition onError).topologicalOrder .asGiven = .ok [[a], [b], [c]])
    (hsteps : (chainWorkflow condition onError).steps = [a, b, c])
    (hdeps : a.id ∈ b.dependsOn ∧ b.id ∈ c.dependsOn)
    (hmodes : b.onError ≠ "continue" ∧ c.onError ≠ "continue")
    (hend : ((executeStep boom (start none) a).1.toResult a).status = .failed)
    (hcall : c.id ∈ (execute .asGiven boom (chainWorkflow condition onError) none).invocations.map
      Invocation.stepId) :
    ¬ Propagates .asGiven boom (chainWorkflow condition onError) none := by
  intro hall
  obtain ⟨inv, hinv, hid⟩ := List.mem_map.mp hcall
  have hmem : ∀ s ∈ [a, b, c], s ∈ (chainWorkflow condition onError).steps :=
    fun s hs ↦ hsteps ▸ hs
  have hancestor : FailedAncestor .asGiven boom (chainWorkflow condition onError) none
      (fun t ↦ t.onError ≠ "continue") c :=
    .via (hmem b (by simp)) hdeps.2 hmodes.1
      (.direct (hmem a (by simp)) hdeps.1 (fails_chainWorkflow horder hend))
  exact (hall c (hmem c (by simp)) hmodes.2 hancestor).silent inv hinv hid

/-- The first step of a chain fails and the third calls its tool, when the step between them is
skipped, for its strategy or for its condition, or has a strategy of another name. -/
theorem not_propagates_chain :
    (parseWorkflow .asGiven (chain "" "skip") = .ok (chainWorkflow "" "skip") ∧
      ¬ Propagates .asGiven boom (chainWorkflow "" "skip") none) ∧
    (parseWorkflow .asGiven (chain "$\x7ba.output\x7d" "fail")
        = .ok (chainWorkflow "$\x7ba.output\x7d" "fail") ∧
      ¬ Propagates .asGiven boom (chainWorkflow "$\x7ba.output\x7d" "fail") none) ∧
    (parseWorkflow .asGiven (chain "" "abort") = .ok (chainWorkflow "" "abort") ∧
      ¬ Propagates .asGiven boom (chainWorkflow "" "abort") none) := by
  have hc : ∀ {l : List String} (pre : List String), l = pre ++ ["c"] → "c" ∈ l := by
    rintro l pre rfl
    exact List.mem_append_right pre (List.mem_singleton_self "c")
  have hdeps : "a" ∈ ["a"] ∧ "b" ∈ ["b"] := ⟨List.mem_singleton_self _, List.mem_singleton_self _⟩
  refine ⟨⟨rfl, ?_⟩, ⟨rfl, ?_⟩, ⟨rfl, ?_⟩⟩
  · exact not_propagates_of_calls rfl rfl hdeps ⟨by decide, by decide⟩ rfl (hc ["a"] rfl)
  · exact not_propagates_of_calls rfl rfl hdeps ⟨by decide, by decide⟩ rfl (hc ["a"] rfl)
  · exact not_propagates_of_calls rfl rfl hdeps ⟨by decide, by decide⟩ rfl (hc ["a", "b"] rfl)

end Workflows

end ArgusMcp
