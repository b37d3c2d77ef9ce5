import ArgusMcp.Workflows.Executor

/-!
# Which references are replaced

In the arguments of a step, `${id.output}` stands for the output of a step of an earlier level, and
`${inputs.p}` for an input of the workflow. `_interpolate` goes through dictionaries to any depth,
but of a list it looks at the strings directly in it, so that what is deeper in a list is passed on
as it is. The pattern for a reference knows letters, digits and underscores, while an id may be any
string. And a step with the id `inputs` takes the place of the inputs in the context.

## The condition

A token is replaced if none of this concerns it: `Covered` says so of the tokens in the arguments of
a step, in terms of the state its level starts in. Then every call of the tool is made with arguments
in which they are replaced (`complete_of_covered`), and with it whatever stands before and behind
them.
-/

namespace ArgusMcp

variable {O : Type}

/-- What is at a place in a value. Entries of dictionaries and elements of lists are counted. -/
def Value.at? : List ℕ → Value O → Option (Value O)
  | [], v => some v
  | i :: place, .dict d => d[i]?.bind fun e ↦ Value.at? place e.2
  | i :: place, .list l => l[i]?.bind (Value.at? place)
  | _ :: _, _ => Option.none

namespace Workflows

open Layers (SetOrder)

/-! ## Places -/

/-- `_interpolate` gets to the strings there: through dictionaries, and into a list at the end. -/
def reaches : List ℕ → Value O → Bool
  | [], _ => true
  | i :: place, .dict d => d[i]?.all fun e ↦ reaches place e.2
  | _ :: place, .list _ => place.isEmpty
  | _ :: _, _ => true

section Places

variable [PyObject O] (context : Context O)

theorem interpolate_eq_map (args : List (String × Value O)) :
    interpolate context args = args.map fun e ↦ (e.1, interpolateValue context e.2) := by
  induction args with
  | nil => rw [interpolate, List.map_nil]
  | cons e args ih => rw [interpolate, ih, List.map_cons]

theorem at?_interpolateValue {place : List ℕ} {v : Value O} {s : String}
    (h : v.at? place = some (.str s)) : (interpolateValue context v).at? place =
      some (if reaches place v then interpolateString s context else .str s) := by
  induction place generalizing v with
  | nil =>
    obtain rfl := Option.some.inj h
    rw [interpolateValue, reaches, if_pos rfl, Value.at?]
  | cons i place ih =>
    cases v with
    | dict d =>
      rw [Value.at?, Option.bind_eq_some_iff] at h
      obtain ⟨e, he, hplace⟩ := h
      rw [interpolateValue, Value.at?, interpolate_eq_map, List.getElem?_map, he, reaches, he]
      exact ih hplace
    | list l =>
      rw [Value.at?, Option.bind_eq_some_iff] at h
      obtain ⟨w, hw, hplace⟩ := h
      rw [interpolateValue, Value.at?, List.getElem?_map, hw, reaches]
      cases place with
      | nil =>
        obtain rfl := Option.some.inj hplace
        rfl
      | cons j place =>
        -- what is deeper in the list is not a string of the list
        cases w with
        | str t => exact absurd hplace (by simp [Value.at?])
        | dict d => exact hplace
        | list l => exact hplace
        | none | bool b | int n | obj o => exact absurd hplace (by simp [Value.at?])
    | str t | none | bool b | int n | obj o => exact absurd h (by simp [Value.at?])

end Places

/-! ## References in a text -/

theorem not_mem_tail_text (r : Ref) : '$' ∉ r.text.tail := by
  have hscope : '$' ∉ r.scope.chars := fun h ↦ absurd (r.scope.all _ h) (by decide)
  have hpath : '$' ∉ r.path.chars := fun h ↦ absurd (r.path.all _ h) (by decide)
  rw [Ref.text, List.tail_cons]
  simp [hscope, hpath]

/-- A match that starts before a reference ends before it. -/
theorem matchRef_append_text (r : Ref) {c : Char} {pre post : List Char} :
    matchRef (c :: pre ++ (r.text ++ post)) =
      (matchRef (c :: pre)).map fun m ↦ (m.1, m.2 ++ (r.text ++ post)) := by
  rcases hmatch : matchRef (c :: pre) with _ | ⟨r', rest⟩
  · rw [Option.map_none, Option.eq_none_iff_forall_ne_some]
    rintro ⟨r', rest⟩ h
    rcases List.append_eq_append_iff.mp (matchRef_eq_some_iff.mp h) with
      ⟨inside, htext, hrest⟩ | ⟨between, hpre, -⟩
    · cases inside with
      | nil =>
        rw [List.append_nil] at htext
        have hsome : matchRef (c :: pre) = some (r', []) :=
          matchRef_eq_some_iff.mpr (by rw [htext, List.append_nil])
        exact absurd (hmatch.symm.trans hsome) (Option.some_ne_none _).symm
      | cons d inside =>
        -- the match has the dollar of the reference in it
        have hd : d = '$' := (List.cons_eq_cons.mp hrest).1.symm
        refine not_mem_tail_text r' ?_
        rw [htext, List.cons_append, List.tail_cons, hd]
        exact List.mem_append_right _ List.mem_cons_self
    · exact absurd (hmatch.symm.trans (matchRef_eq_some_iff.mpr hpre)) (Option.some_ne_none _).symm
  · rw [matchRef_eq_some_iff] at hmatch
    rw [Option.map_some, matchRef_eq_some_iff, hmatch, List.append_assoc]

/-- **A reference is replaced on its own**: what is before it and what is behind it are replaced as
if it were not there. -/
theorem substitute_append_text (replacement : Ref → Option (List Char)) (r : Ref)
    {pre : List Char} {skip : ℕ} (hskip : skip ≤ pre.length) (post : List Char) :
    substitute replacement skip (pre ++ (r.text ++ post)) = substitute replacement skip pre ++
      ((replacement r).getD r.text ++ substitute replacement 0 post) := by
  induction pre generalizing skip with
  | nil =>
    obtain rfl := Nat.le_zero.mp hskip
    exact substitute_text_append replacement r post
  | cons c pre ih =>
    cases skip with
    | succ skip => exact ih (Nat.le_of_succ_le_succ hskip)
    | zero =>
      rw [List.cons_append, substitute, substitute, ← List.cons_append, matchRef_append_text]
      rcases hmatch : matchRef (c :: pre) with _ | ⟨r', rest⟩
      · rw [Option.map_none]
        exact congrArg (c :: ·) (ih (Nat.zero_le _))
      · have hlength := congrArg List.length (matchRef_eq_some_iff.mp hmatch)
        rw [List.length_cons, List.length_append] at hlength
        rw [Option.map_some]
        dsimp only
        rw [ih (by omega), List.append_assoc]

/-! ## Tokens -/

/-- What an argument may refer to. -/
inductive Token where
  | output (id : String)
  | input (p : String)
  deriving DecidableEq

namespace Token

def scope : Token → String
  | output id => id
  | input _ => "inputs"

def path : Token → String
  | output _ => "output"
  | input p => p

def text (t : Token) : List Char :=
  '$' :: '\x7b' :: (t.scope.toList ++ '.' :: (t.path.toList ++ ['\x7d']))

/-- The part of it that is given has only characters that the pattern knows, and at least one. -/
def Readable (t : Token) : Prop :=
  (t.scope.toList ≠ [] ∧ ∀ c ∈ t.scope.toList, isWord c) ∧
    t.path.toList ≠ [] ∧ ∀ c ∈ t.path.toList, isWord c

instance (t : Token) : Decidable t.Readable :=
  decidable_of_iff ((t.scope.toList ≠ [] ∧ t.scope.toList.all isWord = true) ∧
    t.path.toList ≠ [] ∧ t.path.toList.all isWord = true)
    (by rw [Readable, List.all_eq_true, List.all_eq_true])

variable (inputs : Option (List (String × Value O))) (p : Progress O)

/-- What it stands for: the output of a step that has one, or an input. -/
def value? : Token → Option (Value O)
  | output id => (p.results.get? id).bind fun r ↦ notNone r.output
  | input name => (inputs.getD []).lookup name

/-- Nothing has taken the place of the inputs. -/
def Free : Token → Prop
  | output _ => True
  | input _ => p.results.get? "inputs" = none

theorem exists_ref {t : Token} (h : t.Readable) : ∃ r : Ref, r.text = t.text ∧
    String.ofList r.scope.chars = t.scope ∧ r.path.chars = t.path.toList := by
  obtain ⟨⟨hscope, hscopeWord⟩, hpath, hpathWord⟩ := h
  refine ⟨⟨⟨t.scope.toList, hscope, hscopeWord⟩, ⟨t.path.toList, hpath, fun c hc ↦ ?_⟩⟩, rfl,
    String.ofList_toList, rfl⟩
  rw [isPath, hpathWord c hc, Bool.true_or]

end Token

/-! ## What the context holds -/

section Context

variable [PyObject O] {invoke : ToolInvoker O} {inputs : Option (List (String × Value O))}
  {p : Progress O} {levels : List (List (Step O))}

/-- The context holds the output of every step that has a result, and the inputs unless a result has
taken their place. -/
structure Holds (inputs : Option (List (String × Value O))) (p : Progress O) : Prop where
  outputs : ∀ id r, p.results.get? id = some r →
    ∃ entries, p.context.get? id = some (.dict entries) ∧ entries.lookup "output" = some r.output
  inputs : p.results.get? "inputs" = none →
    p.context.get? "inputs" = some (.dict (inputs.getD []))

omit [PyObject O] in
theorem holds_start : Holds inputs (start inputs) :=
  ⟨fun _ _ h ↦ absurd h (Option.some_ne_none _).symm, fun _ ↦ Dict.get?_set_self _ _ _⟩

omit [PyObject O] in
theorem Holds.record (h : Holds inputs p) (step : Step O) (ended : StepEnd O) :
    Holds inputs (p.record step ended) := by
  refine ⟨fun id r hr ↦ ?_, fun hnone ↦ ?_⟩
  · rw [Progress.record] at hr ⊢
    by_cases hid : id = step.id
    · subst hid
      rw [Dict.get?_set_self] at hr ⊢
      obtain rfl := Option.some.inj hr
      cases ended with
      | result r => exact ⟨_, rfl, rfl⟩
      | exception text => exact ⟨_, rfl, rfl⟩
    · rw [Dict.get?_set_of_ne _ _ hid] at hr ⊢
      exact h.outputs id r hr
  · rw [Progress.record] at hnone ⊢
    by_cases hid : "inputs" = step.id
    · rw [← hid, Dict.get?_set_self] at hnone
      exact absurd hnone (Option.some_ne_none _)
    · rw [Dict.get?_set_of_ne _ _ hid] at hnone ⊢
      exact h.inputs hnone

theorem Holds.levelStep {p' : Progress O} {level : List (Step O)} (h : Holds inputs p)
    (hstep : levelStep invoke p level = some p') : Holds inputs p' := by
  obtain ⟨-, rfl⟩ := levelStep_eq_some_iff.mp hstep
  have hfoldl : ∀ (ends : List (Step O × StepEnd O)) (p : Progress O), Holds inputs p →
      Holds inputs (ends.foldl (fun p x ↦ p.record x.1 x.2) p) := by
    intro ends
    induction ends with
    | nil => exact fun _ h ↦ h
    | cons e ends ih => exact fun p h ↦ ih _ (h.record e.1 e.2)
  exact hfoldl _ p h

theorem holds_of_run (h : Run.run (levelStep invoke) (start inputs) levels = some p) :
    Holds inputs p :=
  Run.inv_of_run (fun _ _ _ hs hstep ↦ hs.levelStep hstep) holds_start h

theorem exists_result_iff (h : Run.run (levelStep invoke) (start inputs) levels = some p)
    (id : String) : (∃ r, p.results.get? id = some r) ↔ id ∈ levels.flatten.map Step.id := by
  refine @Run.history_invariant_of_run _ _ (levelStep invoke)
    (fun taken p ↦ (∃ r, p.results.get? id = some r) ↔ id ∈ taken.flatten.map Step.id)
    (fun taken p level p' hinv hstep ↦ ?_) levels [] (start inputs) p ?_ h
  · rw [List.flatten_append, List.flatten_singleton, List.map_append, List.mem_append, ← hinv]
    by_cases hid : id ∈ level.map Step.id
    · refine iff_of_true ?_ (Or.inr hid)
      rw [results_levelStep hstep]
      refine Dict.exists_get?_foldl_set ?_ _
      rwa [List.map_map]
    · rw [get?_results_levelStep_of_notMem hstep hid, or_iff_left hid]
  · exact iff_of_false (fun ⟨_, h⟩ ↦ absurd h (Option.some_ne_none _).symm) List.not_mem_nil

end Context

theorem args_of_mem_executeStep [PyObject O] {invoke : ToolInvoker O} {p : Progress O}
    {step : Step O} {inv : Invocation O} (h : inv ∈ (executeStep invoke p step).2) :
    inv.args = resolvedArgs p step := by
  by_cases hruns : Runs p step
  · rw [executeStep_of_runs hruns, runAttempts] at h
    obtain ⟨n, -, rfl⟩ := List.mem_map.mp h
    rfl
  · rw [(executeStep_of_not_runs hruns).1] at h
    exact absurd h List.not_mem_nil

/-! ## Completeness -/

section Completeness

variable [PyObject O]

/-- What becomes of a text with a token in it: the value itself if there is nothing else, and
otherwise the text of the value between what becomes of the text around it. -/
def replaced (context : Context O) (pre post : List Char) (v : Value O) : Value O :=
  if pre = [] ∧ post = [] then v
  else .str (String.ofList (substitute (replacer context) 0 pre ++
    ((PyObject.str v).toList ++ substitute (replacer context) 0 post)))

/-- In the arguments that were made of `args`, every token that stands for something is replaced,
wherever there is a string. -/
def Complete (inputs : Option (List (String × Value O))) (p : Progress O)
    (args made : List (String × Value O)) : Prop :=
  ∀ place s, (Value.dict args).at? place = some (.str s) →
    ∀ (t : Token) v, t.value? inputs p = some v →
      ∀ pre post, s.toList = pre ++ (t.text ++ post) →
        (Value.dict made).at? place = some (replaced p.context pre post v)

/-- Every token that stands for something is where strings are reached, can be read as a reference,
stands for something that is not `None`, and is not taken for something else. -/
def Covered (inputs : Option (List (String × Value O))) (p : Progress O)
    (args : List (String × Value O)) : Prop :=
  ∀ place s, (Value.dict args).at? place = some (.str s) →
    ∀ (t : Token) v, t.value? inputs p = some v → t.text <:+: s.toList →
      reaches place (Value.dict args) ∧ t.Readable ∧ notNone v = some v ∧ t.Free p

variable {inputs : Option (List (String × Value O))} {p : Progress O}

theorem interpolateString_eq_replaced {context : Context O} {s : String} {r : Ref} {v : Value O}
    {pre post : List Char} (hs : s.toList = pre ++ (r.text ++ post))
    (hv : notNone (resolveRef r context) = some v) :
    interpolateString s context = replaced context pre post v := by
  have hsubstitute := substitute_append_text (replacer context) r (Nat.zero_le pre.length) post
  have hreplacer : replacer context r = some (PyObject.str v).toList := by
    rw [replacer, hv, Option.map_some]
  rw [hreplacer, Option.getD_some] at hsubstitute
  rw [interpolateString, replaced, hs, hsubstitute]
  by_cases haround : pre = [] ∧ post = []
  · obtain ⟨rfl, rfl⟩ := haround
    have hmatch : matchRef ([] ++ (r.text ++ [])) = some (r, []) := matchRef_eq_some_iff.mpr rfl
    rw [if_pos ⟨rfl, rfl⟩, hmatch]
    dsimp only
    rw [hv, Option.getD_some]
  · rw [if_neg haround]
    split
    · rename_i r' hmatch
      -- a match of all of the text has a second reference in it
      refine absurd ?_ haround
      cases pre with
      | nil =>
        have hfirst : matchRef (r.text ++ post) = some (r, post) := matchRef_eq_some_iff.mpr rfl
        rw [List.nil_append, hfirst] at hmatch
        exact ⟨rfl, (Prod.mk.inj (Option.some.inj hmatch)).2⟩
      | cons c pre =>
        have htext := matchRef_eq_some_iff.mp hmatch
        rw [List.append_nil] at htext
        refine absurd ?_ (not_mem_tail_text r')
        rw [← htext, List.cons_append, List.tail_cons]
        exact List.mem_append_right _ (List.mem_append_left _ List.mem_cons_self)
    · rfl

omit [PyObject O] in
theorem eq_of_notNone {v w : Value O} (h : notNone v = some w) : v = w := by
  unfold notNone at h
  split at h
  · exact absurd h (Option.some_ne_none _).symm
  · exact Option.some.inj h

omit [PyObject O] in
theorem resolveRef_of_token (h : Holds inputs p) {t : Token} {v : Value O}
    (hv : t.value? inputs p = some v) (hfree : t.Free p) {r : Ref}
    (hscope : String.ofList r.scope.chars = t.scope) (hpath : r.path.chars = t.path.toList)
    (hword : ∀ c ∈ t.path.toList, isWord c) : resolveRef r p.context = v := by
  have hdot : '.' ∉ t.path.toList := fun hmem ↦ absurd (hword _ hmem) (by decide)
  rw [resolveRef, hscope, hpath, List.splitOn_eq_singleton hdot]
  cases t with
  | output id =>
    rw [Token.value?, Option.bind_eq_some_iff] at hv
    obtain ⟨result, hresult, hv⟩ := hv
    obtain ⟨entries, hentries, houtput⟩ := h.outputs id result hresult
    have hnotNone : result.output = v := eq_of_notNone hv
    rw [Token.scope, hentries]
    dsimp only
    rw [List.foldl_cons, List.foldl_nil, Value.get?, Token.path, String.ofList_toList, houtput,
      Option.getD_some, hnotNone]
  | input name =>
    rw [Token.scope, h.inputs hfree]
    dsimp only
    rw [List.foldl_cons, List.foldl_nil, Value.get?, Token.path, String.ofList_toList]
    rw [Token.value?] at hv
    rw [hv, Option.getD_some]

theorem complete_interpolate (h : Holds inputs p) {args : List (String × Value O)}
    (hcovered : Covered inputs p args) : Complete inputs p args (interpolate p.context args) := by
  intro place s hs t v hv pre post htext
  obtain ⟨hreaches, hreadable, hnotNone, hfree⟩ :=
    hcovered place s hs t v hv ⟨pre, post, by rw [htext, List.append_assoc]⟩
  obtain ⟨r, hr, hscope, hpath⟩ := Token.exists_ref hreadable
  have hresolve := resolveRef_of_token h hv hfree hscope hpath hreadable.2.2
  have hplace := at?_interpolateValue p.context hs
  rw [interpolateValue, if_pos hreaches] at hplace
  rw [hplace]
  refine congrArg some (interpolateString_eq_replaced (htext.trans (by rw [hr])) ?_)
  rw [hresolve, hnotNone]

end Completeness

/-- **References are replaced where they are covered.** Every tool call of an execution is made for a
step of some level, in the state the levels before it have left, in which exactly their steps have
results. If the arguments of the step are covered there, then those of the call are complete. -/
theorem complete_of_covered [PyObject O] (order : SetOrder String) (invoke : ToolInvoker O)
    (wf : WorkflowDefinition O) (inputs : Option (List (String × Value O))) (inv : Invocation O)
    (h : inv ∈ (execute order invoke wf inputs).invocations) :
    ∃ before level after p, wf.topologicalOrder order = .ok (before ++ level :: after) ∧
      Run.run (levelStep invoke) (start inputs) before = some p ∧
      (∀ id, (∃ r, p.results.get? id = some r) ↔ id ∈ before.flatten.map Step.id) ∧
      ∃ step ∈ level, inv.stepId = step.id ∧
        (Covered inputs p step.args → Complete inputs p step.args inv.args) := by
  rw [execute] at h
  cases hlevels : wf.topologicalOrder order with
  | error e =>
    rw [hlevels] at h
    exact absurd h List.not_mem_nil
  | ok levels =>
    rw [hlevels] at h
    obtain ⟨p, level, after, hv, hinv⟩ := mem_invocations_iff.mp h
    obtain ⟨before, rfl, hrun⟩ := hv.exists_run
    obtain ⟨step, hstep, hinv⟩ := List.mem_flatMap.mp hinv
    refine ⟨before, level, after, p, rfl, hrun, exists_result_iff hrun, step, hstep,
      stepId_of_mem_executeStep hinv, fun hcovered ↦ ?_⟩
    rw [args_of_mem_executeStep hinv]
    exact complete_interpolate (holds_of_run hrun) hcovered

/-- A step that is called with the given value for `x`. -/
def argStep (x : Value Empty) : StepData Empty :=
  ⟨some "a", some "t", some [("x", x)], none, none, none, none, none, ""⟩

def argWorkflow (x : Value Empty) : WorkflowData Empty :=
  ⟨some "w", none, some [argStep x], none, none⟩

/-- All tools answer with `None`. -/
def answersNone : ToolInvoker Empty := fun _ _ _ _ ↦ .returns .none

/-- A second step that refers to the output of the first one, and to an input. -/
def outputArgs : List (String × Value Empty) :=
  [("x", .str "$\x7ba.output\x7d"), ("y", .dict [("z", .str "p = $\x7binputs.p\x7d")])]

def outputWorkflow : WorkflowData Empty :=
  ⟨some "w", none, some [argStep .none,
    ⟨some "b", some "t", some outputArgs, some ["a"], none, none, none, none, ""⟩], none, none⟩

def outputDefinition : WorkflowDefinition Empty :=
  outputWorkflow.define ((outputWorkflow.steps.getD []).filterMap Step.fromDict)

/-- All tools answer with a number. -/
def answersSeven : ToolInvoker Empty := fun _ _ _ _ ↦ .returns (.int 7)

/-- What the first level leaves. -/
def afterFirst : Progress Empty :=
  (Run.run (levelStep answersSeven) (start (some [("p", .int 1)]))
    [(Step.fromDict (argStep .none)).toList]).getD (start none)

theorem covered_outputArgs : Covered (some [("p", .int 1)]) afterFirst outputArgs := by
  have htoken : ∀ (t : Token) v, t.value? (some [("p", .int 1)]) afterFirst = some v →
      t.Readable ∧ notNone v = some v ∧ t.Free afterFirst := by
    intro t v hv
    cases t with
    | output id =>
      by_cases hid : id = "a"
      · subst hid
        obtain rfl : Value.int 7 = v := Option.some.inj hv
        exact ⟨by decide, rfl, trivial⟩
      · have hnone : afterFirst.results.get? id = none := Dict.get?_set_of_ne _ _ hid
        rw [Token.value?, hnone] at hv
        exact absurd hv (by simp)
    | input name =>
      by_cases hname : name = "p"
      · subst hname
        obtain rfl : Value.int 1 = v := Option.some.inj hv
        exact ⟨by decide, rfl, rfl⟩
      · rw [Token.value?, Option.getD_some, List.lookup_cons, beq_eq_false_iff_ne.mpr hname] at hv
        exact absurd hv (by simp)
  intro place s hs t v hv _
  refine ⟨?_, htoken t v hv⟩
  match place with
  | [] => exact absurd hs (by simp [Value.at?])
  | [0] => trivial
  | 0 :: i :: place => exact absurd hs (by simp [outputArgs, Value.at?])
  | [1] => exact absurd hs (by simp [outputArgs, Value.at?])
  | [1, 0] => trivial
  | 1 :: 0 :: i :: place => exact absurd hs (by simp [outputArgs, Value.at?])
  | 1 :: (i + 1) :: place => exact absurd hs (by simp [outputArgs, Value.at?])
  | (i + 2) :: place => exact absurd hs (by simp [outputArgs, Value.at?])

/-- The arguments of the second step are covered, so those of its call are complete. -/
theorem complete_of_covered_output :
    parseWorkflow .asGiven outputWorkflow = .ok outputDefinition ∧
      ∃ inv ∈ (execute .asGiven answersSeven outputDefinition
        (some [("p", .int 1)])).invocations, inv.stepId = "b" ∧
          Covered (some [("p", .int 1)]) afterFirst outputArgs ∧
          Complete (some [("p", .int 1)]) afterFirst outputArgs inv.args := by
  obtain ⟨inv, hinv, hid⟩ : ∃ inv ∈ (execute .asGiven answersSeven outputDefinition
    (some [("p", .int 1)])).invocations, inv.stepId = "b" :=
      ⟨_, List.mem_cons_of_mem _ List.mem_cons_self, rfl⟩
  refine ⟨rfl, inv, hinv, hid, covered_outputArgs, ?_⟩
  obtain ⟨before, level, after, p, hlevels, hrun, -, step, hstep, hstepId, hcomplete⟩ :=
    complete_of_covered .asGiven answersSeven outputDefinition (some [("p", .int 1)]) inv hinv
  have horder : outputDefinition.topologicalOrder .asGiven =
      .ok [(Step.fromDict (argStep .none)).toList,
        (Step.fromDict ⟨some "b", some "t", some outputArgs, some ["a"], none, none, none, none,
          ""⟩).toList] := rfl
  rw [horder, Except.ok.injEq] at hlevels
  rcases before with _ | ⟨first, _ | ⟨second, before⟩⟩
  · obtain ⟨rfl, -⟩ := List.cons.inj hlevels
    rw [List.mem_singleton.mp hstep] at hstepId
    exact absurd (hid.symm.trans hstepId) (by decide)
  · obtain ⟨rfl, htail⟩ := List.cons.inj hlevels
    obtain ⟨rfl, -⟩ := List.cons.inj htail
    rw [List.mem_singleton.mp hstep] at hcomplete
    have hp : p = afterFirst := by rw [afterFirst, hrun, Option.getD_some]
    exact hp ▸ hcomplete (hp ▸ covered_outputArgs)
  · simp at hlevels

/-- A token in a list inside a list stays. -/
theorem not_forall_complete : ¬ ∀ (data : WorkflowData Empty) (wf : WorkflowDefinition Empty),
    parseWorkflow .asGiven data = .ok wf →
      ∀ (invoke : ToolInvoker Empty) (inputs : Option (List (String × Value Empty)))
        (levels : List (List (Step Empty))), wf.topologicalOrder .asGiven = .ok levels →
      ∀ p level post, Run.Visits (levelStep invoke) (start inputs) levels p level post →
        ∀ step ∈ level, ∀ inv ∈ (executeStep invoke p step).2,
          Complete inputs p step.args inv.args := by
  intro h
  have hplace := h (argWorkflow (.list [.list [.str "$\x7binputs.p\x7d"]])) _ rfl answersNone
    (some [("p", .int 1)]) _ rfl _ _ _ (.here _ _ _) _ List.mem_cons_self _ List.mem_cons_self
    [0, 0, 0] "$\x7binputs.p\x7d" rfl (.input "p") (.int 1) rfl [] [] rfl
  have hstays := at?_interpolateValue (start (some [("p", .int 1)])).context
    (show (Value.dict [("x", .list [.list [.str "$\x7binputs.p\x7d"]])] : Value Empty).at? [0, 0, 0] =
      some (.str "$\x7binputs.p\x7d") from rfl)
  rw [interpolateValue, if_neg (by decide)] at hstays
  rw [replaced, if_pos ⟨rfl, rfl⟩] at hplace
  exact absurd (Option.some.inj (hstays.symm.trans hplace)) (by simp)

end Workflows

end ArgusMcp
