import ArgusMcp.Library.Dict
import ArgusMcp.Library.Layers
import ArgusMcp.Library.Value

/-!
# Workflow definitions

A workflow is read from a mapping, validated, and then asked for its steps level by level. The
levels are the rounds of `ArgusMcp.Library.Layers` for the dependency lists of the steps; a Python
set of step ids has no fixed iteration order, so every function here that walks one takes the
order as a parameter, and the results hold for all of them.

The main result is at the end of the file. Whatever `parse_workflow` accepts can be ordered, under
every iteration order, into levels that hold each step once, that are as low as the dependencies
allow and that do not depend on the iteration order; and it refuses a list of steps with distinct
ids only for a missing name, for being empty, for an unknown dependency or for a cycle.
-/

namespace ArgusMcp

namespace Workflows

open Layers (SetOrder)

variable {O : Type}

/-! ## Steps -/

/-- A single step in a workflow. -/
structure Step (O : Type) where
  id : String
  tool : String
  args : List (String × Value O)
  dependsOn : List String
  condition : String
  retry : Int
  onError : String
  description : String

/-- A step as it stands in the document: every key may be absent. -/
structure StepData (O : Type) where
  id : Option String
  tool : Option String
  args : Option (List (String × Value O))
  dependsOn : Option (List String)
  condition : Option String
  retry : Option Int
  onError : Option String
  description : Option String
  /-- The text of the whole mapping, for messages. -/
  text : String

/-- `Step.from_dict`, with its defaults. A mapping without an `id` is none. -/
def Step.fromDict (data : StepData O) : Option (Step O) :=
  data.id.map fun id ↦
    { id := id
      tool := data.tool.getD ""
      args := data.args.getD []
      dependsOn := data.dependsOn.getD []
      condition := data.condition.getD ""
      retry := data.retry.getD 0
      onError := data.onError.getD "fail"
      description := data.description.getD "" }

/-- Why a workflow definition is invalid. -/
inductive WorkflowValidationError where
  | missingName
  | noSteps (name : String)
  | missingId (name raw : String)
  | duplicateId (name id : String)
  | unknownDependency (name id dep : String)
  | cycle (name : String) (remaining : List String)
  deriving DecidableEq

/-- The text of the exception. The set of unresolvable steps is written with the `repr` of its
members, in the order it is iterated. -/
def WorkflowValidationError.message (repr : String → String) : WorkflowValidationError → String
  | missingName => "Workflow must have a 'name' field"
  | noSteps name => s!"Workflow '{name}' has no steps"
  | missingId name raw => s!"Step missing 'id' in workflow '{name}': {raw}"
  | duplicateId name id => s!"Duplicate step ID '{id}' in workflow '{name}'"
  | unknownDependency name id dep =>
    s!"Step '{id}' depends on unknown step '{dep}' in workflow '{name}'"
  | cycle name remaining =>
    s!"Cycle detected in workflow '{name}'. Unresolvable steps: " ++
      "\x7b" ++ ", ".intercalate (remaining.map repr) ++ "\x7d"

/-! ## The order of the steps -/

structure WorkflowDefinition (O : Type) where
  name : String
  description : String
  steps : List (Step O)
  inputs : List (String × Value O)
  output : String

namespace WorkflowDefinition

/-- `{s.id: s for s in self.steps}`. -/
def stepMap (wf : WorkflowDefinition O) : Dict String (Step O) :=
  Dict.ofList (wf.steps.map fun s ↦ (s.id, s))

def dependsOn (wf : WorkflowDefinition O) (sid : String) : List String :=
  ((wf.stepMap.get? sid).map Step.dependsOn).getD []

/-- `topological_order`: the steps grouped by level. -/
def topologicalOrder (order : SetOrder String) (wf : WorkflowDefinition O) :
    Except WorkflowValidationError (List (List (Step O))) :=
  match Layers.layers order wf.dependsOn wf.stepMap.keys with
  | .ok levels => .ok (levels.map fun ready ↦ ready.filterMap wf.stepMap.get?)
  | .error remaining => .error (.cycle wf.name remaining)

end WorkflowDefinition

def stepLevel (levels : List (List (Step O))) (id : String) : ℕ :=
  Layers.levelOf (levels.map fun level ↦ level.map Step.id) id

/-! ## Parsing -/

/-- A workflow as it stands in the document. -/
structure WorkflowData (O : Type) where
  name : Option String
  description : Option String
  steps : Option (List (StepData O))
  inputs : Option (List (String × Value O))
  output : Option String

/-- The loop over the raw steps; `seen_ids` is the set of ids of the steps read so far. -/
def readSteps (name : String) :
    List (Step O) → List (StepData O) → Except WorkflowValidationError (List (Step O))
  | steps, [] => .ok steps
  | steps, raw :: raws =>
    match Step.fromDict raw with
    | none => .error (.missingId name raw.text)
    | some step =>
      if step.id ∈ steps.map Step.id then .error (.duplicateId name step.id)
      else readSteps name (steps ++ [step]) raws

/-- The first pair of a step and a dependency of it that is no step. -/
def unknownDependency (steps : List (Step O)) : Option (String × String) :=
  (steps.flatMap fun s ↦ s.dependsOn.map fun dep ↦ (s.id, dep)).find?
    fun p ↦ decide (p.2 ∉ steps.map Step.id)

def WorkflowData.define (data : WorkflowData O) (steps : List (Step O)) : WorkflowDefinition O where
  name := data.name.getD ""
  description := data.description.getD ""
  steps := steps
  inputs := data.inputs.getD []
  output := data.output.getD ""

def parseWorkflow (order : SetOrder String) (data : WorkflowData O) :
    Except WorkflowValidationError (WorkflowDefinition O) :=
  let name := data.name.getD ""
  if name = "" then .error .missingName
  else if (data.steps.getD []).isEmpty then .error (.noSteps name)
  else do
    let steps ← readSteps name [] (data.steps.getD [])
    match unknownDependency steps with
    | some (id, dep) => .error (.unknownDependency name id dep)
    | none =>
      let wf := data.define steps
      let _ ← wf.topologicalOrder order
      return wf

/-! ## What is asked of a workflow -/

/-- Step `a` names `b` among its dependencies. -/
def DependsOn (steps : List (Step O)) (a b : String) : Prop :=
  ∃ s ∈ steps, s.id = a ∧ b ∈ s.dependsOn

/-- Some dependency is not the id of a step. -/
def UnknownDependency (steps : List (Step O)) : Prop :=
  ∃ s ∈ steps, ∃ dep ∈ s.dependsOn, dep ∉ steps.map Step.id

/-- Some step depends on itself, directly or through others. -/
def CyclicDependency (steps : List (Step O)) : Prop :=
  ∃ a, Relation.TransGen (DependsOn steps) a a

/-- The document gives the workflow no name, or an empty one. -/
def WorkflowData.Unnamed (data : WorkflowData O) : Prop := data.name = none ∨ data.name = some ""

/-- The document lists these steps, each with an id of its own. -/
structure WorkflowData.Lists (data : WorkflowData O) (steps : List (Step O)) : Prop where
  read : (data.steps.getD []).map Step.fromDict = steps.map some
  unique : (steps.map Step.id).Nodup

/-- What `topological_order` promises of its levels. -/
structure Levelled (wf : WorkflowDefinition O) (levels : List (List (Step O))) : Prop where
  /-- Every step stands in the levels exactly once. -/
  once : levels.flatten.Perm wf.steps ∧ (levels.flatten.map Step.id).Nodup
  /-- The level of a step is one more than the highest level of its dependencies, and `0` if it
  has none. -/
  lowest : ∀ s ∈ wf.steps,
    stepLevel levels s.id = s.dependsOn.toFinset.sup fun dep ↦ stepLevel levels dep + 1

/-- The workflow can be ordered under every iteration order, and all of them group the steps into
the same levels. -/
def Orderable (wf : WorkflowDefinition O) : Prop :=
  ∀ order, ∃ levels, wf.topologicalOrder order = .ok levels ∧ Levelled wf levels ∧
    ∀ order' levels', wf.topologicalOrder order' = .ok levels' →
      List.Forall₂ List.Perm levels levels'

/-! ## The graph of a workflow with distinct ids -/

namespace WorkflowDefinition

variable {wf : WorkflowDefinition O}

theorem exists_layered {order : SetOrder String} {levels : List (List (Step O))}
    (h : wf.topologicalOrder order = .ok levels) :
    ∃ ids, Layers.Layered wf.dependsOn [] wf.stepMap.keys ids ∧
      levels = ids.map fun ready ↦ ready.filterMap wf.stepMap.get? := by
  rw [topologicalOrder] at h
  cases hlayers : Layers.layers order wf.dependsOn wf.stepMap.keys with
  | error remaining => simp [hlayers] at h
  | ok ids =>
    rw [hlayers, Except.ok.injEq] at h
    exact ⟨ids, Layers.layered_of_layers order hlayers, h.symm⟩

section Distinct

variable (hids : (wf.steps.map Step.id).Nodup)

include hids

theorem items_stepMap : wf.stepMap.items = wf.steps.map fun s ↦ (s.id, s) := by
  refine Dict.items_ofList ?_
  rwa [List.map_map]

theorem keys_stepMap : wf.stepMap.keys = wf.steps.map Step.id := by
  rw [Dict.keys, items_stepMap hids, List.map_map]
  rfl

theorem get?_stepMap {sid : String} {s : Step O} :
    wf.stepMap.get? sid = some s ↔ s ∈ wf.steps ∧ s.id = sid := by
  rw [← Dict.mem_items_iff, items_stepMap hids, List.mem_map]
  constructor
  · rintro ⟨t, ht, heq⟩
    rw [Prod.mk.injEq] at heq
    exact heq.2 ▸ ⟨ht, heq.1⟩
  · rintro ⟨hs, rfl⟩
    exact ⟨s, hs, rfl⟩

theorem mem_dependsOn {a b : String} : b ∈ wf.dependsOn a ↔ DependsOn wf.steps a b := by
  rw [dependsOn, DependsOn]
  constructor
  · intro hb
    cases hget : wf.stepMap.get? a with
    | none => simp [hget] at hb
    | some s =>
      rw [hget, Option.map_some, Option.getD_some] at hb
      obtain ⟨hs, hid⟩ := (get?_stepMap hids).mp hget
      exact ⟨s, hs, hid, hb⟩
  · rintro ⟨s, hs, hid, hb⟩
    rwa [(get?_stepMap hids).mpr ⟨hs, hid⟩, Option.map_some, Option.getD_some]

theorem dependsOn_id {s : Step O} (hs : s ∈ wf.steps) : wf.dependsOn s.id = s.dependsOn := by
  rw [dependsOn, (get?_stepMap hids).mpr ⟨hs, rfl⟩, Option.map_some, Option.getD_some]

theorem closed_iff :
    Layers.Closed wf.dependsOn wf.stepMap.keys ↔ ¬ UnknownDependency wf.steps := by
  rw [Layers.Closed, keys_stepMap hids, UnknownDependency]
  constructor
  · rintro hclosed ⟨s, hs, dep, hdep, hout⟩
    refine hout (hclosed s.id (List.mem_map_of_mem hs) ?_)
    rwa [dependsOn_id hids hs]
  · rintro hknown a ha dep hdep
    obtain ⟨s, hs, rfl⟩ := List.mem_map.mp ha
    rw [dependsOn_id hids hs] at hdep
    by_contra hout
    exact hknown ⟨s, hs, dep, hdep, hout⟩

theorem cyclic_iff :
    Layers.Cyclic wf.dependsOn wf.stepMap.keys ↔ CyclicDependency wf.steps := by
  have hrel : (fun a b ↦ b ∈ wf.dependsOn a) = DependsOn wf.steps := by
    funext a b
    exact propext (mem_dependsOn hids)
  rw [Layers.Cyclic, keys_stepMap hids, hrel, CyclicDependency]
  constructor
  · rintro ⟨a, -, hcycle⟩
    exact ⟨a, hcycle⟩
  · rintro ⟨a, hcycle⟩
    -- The first edge of the cycle leaves from a step, so its start is an id.
    obtain ⟨b, ⟨s, hs, hid, -⟩, -⟩ := Relation.TransGen.head'_iff.mp hcycle
    exact ⟨a, List.mem_map.mpr ⟨s, hs, hid⟩, hcycle⟩

theorem map_id_filterMap_stepMap {l : List String} (hl : l ⊆ wf.stepMap.keys) :
    (l.filterMap wf.stepMap.get?).map Step.id = l := by
  rw [List.map_filterMap]
  conv_rhs => rw [← List.filterMap_some (l := l)]
  refine List.filterMap_congr fun sid hsid ↦ ?_
  obtain ⟨s, hs⟩ := Dict.mem_keys_iff.mp (hl hsid)
  rw [hs, Option.map_some, ((get?_stepMap hids).mp hs).2]

theorem filterMap_stepMap_keys : wf.stepMap.keys.filterMap wf.stepMap.get? = wf.steps := by
  rw [keys_stepMap hids, List.filterMap_map]
  conv_rhs => rw [← List.filterMap_some (l := wf.steps)]
  exact List.filterMap_congr fun s hs ↦ (get?_stepMap hids).mpr ⟨hs, rfl⟩

theorem levelled_of_topologicalOrder {order : SetOrder String} {levels : List (List (Step O))}
    (h : wf.topologicalOrder order = .ok levels) : Levelled wf levels := by
  obtain ⟨ids, hlay, rfl⟩ := exists_layered h
  have hsub : ∀ ready ∈ ids, ready ⊆ wf.stepMap.keys := fun ready hready sid hsid ↦
    hlay.flatten_perm.mem_iff.mp (List.mem_flatten.mpr ⟨ready, hready, hsid⟩)
  have hback : (ids.map fun ready ↦ ready.filterMap wf.stepMap.get?).map
      (fun level ↦ level.map Step.id) = ids := by
    rw [List.map_map]
    conv_rhs => rw [← List.map_id ids]
    exact List.map_congr_left fun ready hready ↦ map_id_filterMap_stepMap hids (hsub ready hready)
  have hperm : (ids.map fun ready ↦ ready.filterMap wf.stepMap.get?).flatten.Perm wf.steps := by
    rw [← List.filterMap_flatten]
    conv_rhs => rw [← filterMap_stepMap_keys hids]
    exact hlay.flatten_perm.filterMap _
  refine ⟨⟨hperm, ((hperm.map Step.id).nodup_iff).mpr hids⟩, fun s hs ↦ ?_⟩
  have hmem : s.id ∈ wf.stepMap.keys := keys_stepMap hids ▸ List.mem_map_of_mem hs
  simp only [stepLevel, hback]
  rw [hlay.levelOf_eq_sup hmem, dependsOn_id hids hs]

theorem topologicalOrder_error_iff {order : SetOrder String}
    (hknown : ¬ UnknownDependency wf.steps) :
    (∃ e, wf.topologicalOrder order = .error e) ↔ CyclicDependency wf.steps := by
  rw [← cyclic_iff hids, ← Layers.layers_error_iff order ((closed_iff hids).mpr hknown),
    topologicalOrder]
  cases Layers.layers order wf.dependsOn wf.stepMap.keys with
  | error remaining => exact iff_of_true ⟨_, rfl⟩ ⟨_, rfl⟩
  | ok levels => simp

theorem orderable (hknown : ¬ UnknownDependency wf.steps)
    (hacyclic : ¬ CyclicDependency wf.steps) : Orderable wf := by
  intro order
  cases h : wf.topologicalOrder order with
  | error e => exact absurd ((topologicalOrder_error_iff hids hknown).mp ⟨e, h⟩) hacyclic
  | ok levels =>
    refine ⟨levels, rfl, levelled_of_topologicalOrder hids h, fun order' levels' h' ↦ ?_⟩
    obtain ⟨ids, hlay, rfl⟩ := exists_layered h
    obtain ⟨ids', hlay', rfl⟩ := exists_layered h'
    rw [List.forall₂_map_left_iff, List.forall₂_map_right_iff]
    exact (hlay.forall₂_perm hlay' (.refl _) fun _ ↦ Iff.rfl).imp
      fun _ _ hperm ↦ hperm.filterMap _

end Distinct

end WorkflowDefinition

/-! ## What parsing accepts -/

theorem map_fromDict_cons_iff {raw : StepData O} {step : Step O}
    (hraw : Step.fromDict raw = some step) {raws : List (StepData O)} {new : List (Step O)} :
    (raw :: raws).map Step.fromDict = new.map some ↔
      ∃ rest, new = step :: rest ∧ raws.map Step.fromDict = rest.map some := by
  rcases new with _ | ⟨s, rest⟩
  · simp
  · simp [hraw, eq_comm]

theorem nodup_ids_concat {acc : List (Step O)} {step : Step O} (hacc : (acc.map Step.id).Nodup)
    (hnew : step.id ∉ acc.map Step.id) : ((acc ++ [step]).map Step.id).Nodup := by
  rw [List.map_append, List.map_singleton, List.nodup_append]
  refine ⟨hacc, List.nodup_singleton _, fun a ha b hb ↦ ?_⟩
  rw [List.mem_singleton.mp hb]
  exact fun heq ↦ hnew (heq ▸ ha)

theorem readSteps_eq_ok_iff {name : String} {raws : List (StepData O)} {acc steps : List (Step O)}
    (hacc : (acc.map Step.id).Nodup) :
    readSteps name acc raws = .ok steps ↔
      ∃ new, raws.map Step.fromDict = new.map some ∧ steps = acc ++ new ∧
        (steps.map Step.id).Nodup := by
  induction raws generalizing acc with
  | nil =>
    rw [readSteps, Except.ok.injEq]
    constructor
    · rintro rfl
      exact ⟨[], rfl, (List.append_nil acc).symm, hacc⟩
    · rintro ⟨new, hnew, rfl, -⟩
      rw [List.map_eq_nil_iff.mp hnew.symm, List.append_nil]
  | cons raw raws ih =>
    rw [readSteps]
    rcases hraw : Step.fromDict raw with _ | step
    · refine iff_of_false (by simp) ?_
      rintro ⟨_ | ⟨s, new⟩, hnew, -⟩
      · simp at hnew
      · simp [hraw] at hnew
    · dsimp only
      simp only [map_fromDict_cons_iff hraw]
      by_cases hdup : step.id ∈ acc.map Step.id
      · rw [if_pos hdup]
        refine iff_of_false (by simp) ?_
        rintro ⟨_, ⟨rest, rfl, -⟩, rfl, hnodup⟩
        rw [List.map_append, List.nodup_append] at hnodup
        exact hnodup.2.2 _ hdup _ List.mem_cons_self rfl
      · rw [if_neg hdup, ih (nodup_ids_concat hacc hdup)]
        simp only [List.append_assoc, List.singleton_append]
        constructor
        · rintro ⟨rest, hrest, rfl, hnodup⟩
          exact ⟨step :: rest, ⟨rest, rfl, hrest⟩, rfl, hnodup⟩
        · rintro ⟨_, ⟨rest, rfl, hrest⟩, rfl, hnodup⟩
          exact ⟨rest, hrest, rfl, hnodup⟩

theorem unknownDependency_eq_none_iff {steps : List (Step O)} :
    unknownDependency steps = none ↔ ¬ UnknownDependency steps := by
  rw [unknownDependency, List.find?_eq_none, UnknownDependency]
  constructor
  · rintro hnone ⟨s, hs, dep, hdep, hout⟩
    refine hnone (s.id, dep) ?_ (decide_eq_true hout)
    exact List.mem_flatMap.mpr ⟨s, hs, List.mem_map_of_mem hdep⟩
  · rintro hknown p hp hout
    obtain ⟨s, hs, hp⟩ := List.mem_flatMap.mp hp
    obtain ⟨dep, hdep, rfl⟩ := List.mem_map.mp hp
    exact hknown ⟨s, hs, dep, hdep, of_decide_eq_true hout⟩

namespace WorkflowData

variable {data : WorkflowData O} {steps : List (Step O)}

theorem getD_name_eq_empty_iff : data.name.getD "" = "" ↔ data.Unnamed := by
  rw [Unnamed]
  cases data.name with
  | none => simp
  | some name => simp

theorem lists_iff_readSteps (name : String) :
    data.Lists steps ↔ readSteps name [] (data.steps.getD []) = .ok steps := by
  have hiff := @readSteps_eq_ok_iff O name (data.steps.getD []) [] steps List.nodup_nil
  rw [hiff]
  constructor
  · rintro ⟨hread, hunique⟩
    exact ⟨steps, hread, rfl, hunique⟩
  · rintro ⟨new, hread, rfl, hunique⟩
    exact ⟨hread, hunique⟩

theorem Lists.isEmpty_eq_true_iff (h : data.Lists steps) :
    (data.steps.getD []).isEmpty = true ↔ steps = [] := by
  rw [List.isEmpty_iff, ← List.map_eq_nil_iff (f := Step.fromDict), h.read, List.map_eq_nil_iff]

theorem Lists.eq {steps' : List (Step O)} (h : data.Lists steps) (h' : data.Lists steps') :
    steps = steps' := by
  have hread := h.read.symm.trans h'.read
  exact List.map_injective_iff.mpr (Option.some_injective _) hread

end WorkflowData

theorem parseWorkflow_eq_of_lists (order : SetOrder String) {data : WorkflowData O}
    {steps : List (Step O)} (hlists : data.Lists steps) (hname : ¬ data.Unnamed)
    (hsteps : steps ≠ []) (hknown : ¬ UnknownDependency steps) :
    parseWorkflow order data
      = ((data.define steps).topologicalOrder order).map fun _ ↦ data.define steps := by
  rw [parseWorkflow]
  dsimp only
  rw [if_neg (WorkflowData.getD_name_eq_empty_iff.not.mpr hname),
    if_neg (hlists.isEmpty_eq_true_iff.not.mpr hsteps),
    (WorkflowData.lists_iff_readSteps _).mp hlists]
  dsimp only [bind, Except.bind]
  rw [unknownDependency_eq_none_iff.mpr hknown]
  cases (data.define steps).topologicalOrder order with
  | error e => rfl
  | ok levels => rfl

theorem exists_lists_of_parseWorkflow {order : SetOrder String} {data : WorkflowData O}
    {wf : WorkflowDefinition O} (h : parseWorkflow order data = .ok wf) :
    ∃ steps, data.Lists steps ∧ ¬ data.Unnamed ∧ steps ≠ [] ∧ ¬ UnknownDependency steps := by
  rw [parseWorkflow] at h
  dsimp only at h
  by_cases hname : data.name.getD "" = ""
  · simp [hname] at h
  by_cases hempty : (data.steps.getD []).isEmpty = true
  · simp [hname, hempty] at h
  rw [if_neg hname, if_neg hempty] at h
  cases hread : readSteps (data.name.getD "") [] (data.steps.getD []) with
  | error e => simp [hread, bind, Except.bind] at h
  | ok steps =>
    have hlists := (WorkflowData.lists_iff_readSteps _).mpr hread
    refine ⟨steps, hlists, WorkflowData.getD_name_eq_empty_iff.not.mp hname,
      hlists.isEmpty_eq_true_iff.not.mp hempty, ?_⟩
    cases hunknown : unknownDependency steps with
    | none => exact unknownDependency_eq_none_iff.mp hunknown
    | some p => simp [hread, hunknown, bind, Except.bind] at h

/-- **What parsing accepts**: a named, non-empty list of steps with distinct ids, known
dependencies and no cycle, and it returns the definition with those steps. -/
theorem parseWorkflow_eq_ok_iff {order : SetOrder String} {data : WorkflowData O}
    {wf : WorkflowDefinition O} :
    parseWorkflow order data = .ok wf ↔ ∃ steps, data.Lists steps ∧ ¬ data.Unnamed ∧
      steps ≠ [] ∧ ¬ UnknownDependency steps ∧ ¬ CyclicDependency steps ∧
      wf = data.define steps := by
  have hcycle : ∀ {steps}, data.Lists steps → ¬ UnknownDependency steps →
      ((∃ e, (data.define steps).topologicalOrder order = .error e) ↔ CyclicDependency steps) :=
    fun {steps} hlists hknown ↦ WorkflowDefinition.topologicalOrder_error_iff
      hlists.unique hknown
  constructor
  · intro h
    obtain ⟨steps, hlists, hname, hsteps, hknown⟩ := exists_lists_of_parseWorkflow h
    rw [parseWorkflow_eq_of_lists order hlists hname hsteps hknown] at h
    refine ⟨steps, hlists, hname, hsteps, hknown, ?_⟩
    cases horder : (data.define steps).topologicalOrder order with
    | error e => simp [horder, Except.map] at h
    | ok levels =>
      rw [horder, Except.map, Except.ok.injEq] at h
      refine ⟨fun hcyc ↦ ?_, h.symm⟩
      obtain ⟨e, he⟩ := (hcycle hlists hknown).mpr hcyc
      simp [horder] at he
  · rintro ⟨steps, hlists, hname, hsteps, hknown, hacyclic, rfl⟩
    rw [parseWorkflow_eq_of_lists order hlists hname hsteps hknown]
    cases horder : (data.define steps).topologicalOrder order with
    | error e => exact absurd ((hcycle hlists hknown).mp ⟨e, horder⟩) hacyclic
    | ok levels => rfl

theorem orderable_of_parseWorkflow {order : SetOrder String} {data : WorkflowData O}
    {wf : WorkflowDefinition O} (h : parseWorkflow order data = .ok wf) : Orderable wf := by
  obtain ⟨steps, hlists, -, -, hknown, hacyclic, rfl⟩ := parseWorkflow_eq_ok_iff.mp h
  exact WorkflowDefinition.orderable hlists.unique hknown hacyclic

/-- **Levels and validation.** What parsing accepts can be ordered, the same way under every
iteration order; and a document that lists steps with distinct ids is refused exactly for having no
name, no steps, an unknown dependency or a cycle. -/
theorem parseWorkflow_levels (order : SetOrder String) (data : WorkflowData O) :
    (∀ wf, parseWorkflow order data = .ok wf → Orderable wf) ∧
    ∀ steps, data.Lists steps →
      ((∃ e, parseWorkflow order data = .error e) ↔
        data.Unnamed ∨ steps = [] ∨ UnknownDependency steps ∨ CyclicDependency steps) := by
  refine ⟨fun wf h ↦ orderable_of_parseWorkflow h, fun steps hlists ↦ ?_⟩
  have hok : (∃ e, parseWorkflow order data = .error e)
      ↔ ¬ ∃ wf, parseWorkflow order data = .ok wf := by
    cases parseWorkflow order data with
    | error e => simp
    | ok wf => simp
  rw [hok, ← not_iff_not, not_not, not_or, not_or, not_or]
  constructor
  · rintro ⟨wf, hwf⟩
    obtain ⟨steps', hlists', hname, hsteps, hknown, hacyclic, -⟩ :=
      parseWorkflow_eq_ok_iff.mp hwf
    obtain rfl := hlists.eq hlists'
    exact ⟨hname, hsteps, hknown, hacyclic⟩
  · rintro ⟨hname, hsteps, hknown, hacyclic⟩
    exact ⟨_, parseWorkflow_eq_ok_iff.mpr
      ⟨steps, hlists, hname, hsteps, hknown, hacyclic, rfl⟩⟩

/-- A step of a document that gives only its id and its dependencies. -/
def plainStep (id : String) (dependsOn : List String) : StepData Empty :=
  ⟨some id, some "t", none, some dependsOn, none, none, none, none, ""⟩

/-- Two branches between a first and a last step, the last one written first. -/
def diamond : WorkflowData Empty :=
  ⟨some "diamond", none, some [plainStep "d" ["b", "c"], plainStep "b" ["a"],
    plainStep "c" ["a"], plainStep "a" []], none, none⟩

def diamondWorkflow : WorkflowDefinition Empty :=
  diamond.define ((diamond.steps.getD []).filterMap Step.fromDict)

theorem parseWorkflow_levels_diamond :
    parseWorkflow .asGiven diamond = .ok diamondWorkflow ∧ Orderable diamondWorkflow ∧
      diamond.Lists diamondWorkflow.steps ∧
      ((∃ e, parseWorkflow .asGiven diamond = .error e) ↔ diamond.Unnamed ∨
        diamondWorkflow.steps = [] ∨ UnknownDependency diamondWorkflow.steps ∨
        CyclicDependency diamondWorkflow.steps) := by
  have hparse : parseWorkflow .asGiven diamond = .ok diamondWorkflow := rfl
  have hlists : diamond.Lists diamondWorkflow.steps := ⟨rfl, by decide⟩
  exact ⟨hparse, (parseWorkflow_levels .asGiven diamond).1 _ hparse, hlists,
    (parseWorkflow_levels .asGiven diamond).2 _ hlists⟩

example : (diamondWorkflow.topologicalOrder .asGiven).map (·.map (·.map Step.id))
    = .ok [["a"], ["b", "c"], ["d"]] := by
  rfl

def noSteps : WorkflowData Empty := ⟨some "w", none, some [], none, none⟩

/-- An empty list has no unknown dependency and no cycle, and is refused. -/
theorem not_refused_only_for_its_graph_noSteps :
    noSteps.Lists [] ∧ ¬ ((∃ e, parseWorkflow .asGiven noSteps = .error e) ↔
      UnknownDependency (O := Empty) [] ∨ CyclicDependency (O := Empty) []) := by
  refine ⟨⟨rfl, List.nodup_nil⟩, fun hiff ↦ ?_⟩
  obtain ⟨s, hs, -⟩ | ⟨a, hcycle⟩ := hiff.mp ⟨.noSteps "w", rfl⟩
  · exact List.not_mem_nil hs
  · obtain ⟨b, ⟨s, hs, -⟩, -⟩ := Relation.TransGen.head'_iff.mp hcycle
    exact List.not_mem_nil hs

end Workflows

end ArgusMcp
