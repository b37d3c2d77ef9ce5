import ArgusMcp.Library.Run

/-!
# Browser logins at the same time

`PKCEFlow.execute` (`bridge/auth/pkce.py`) has the user log in with a browser. It starts a server
on a port of its own, presents a URL that carries a fresh `state`, and waits for the redirect to
arrive at that port. At start-up several flows may run at once.

Each has its own server, and its own event to wait for. What the redirect says, however, goes
through attributes of the class `_CallbackHandler`, which all servers share, and so does the event
that is set when it has arrived.

## Threads

A redirect is handled in the thread of its server: first the class attributes are written, then
the event is set that is the class attribute at that time. Anything can come between. A flow runs
in the event loop; from its start to its `await`, and from there to the exchange of the code, it is
not interrupted. A server handles one request at a time. It is shut down when all is over, so that
it takes redirects also while the code is exchanged.

## The condition

The check of the state makes sure that no flow exchanges a code of another. But a flow that starts
throws away what has arrived, whoever has started last is woken for everybody, and a redirect that
nobody waits for any more is written over what others wait for. `Ordered` says at which events this
does harm, and `isolated_iff_ordered` that it is exactly at these.
-/

namespace ArgusMcp

namespace Pkce

/-- The class attributes of `_CallbackHandler`. An event is named by its flow. -/
structure CallbackHandler where
  /-- The code and the state. -/
  result : Option (String × String)
  error : Option String
  readyEvent : Option ℕ
  deriving DecidableEq, Repr

/-- The query of a redirect. -/
inductive Callback where
  | error (e : String)
  | code (c : String)
  | neither
  deriving DecidableEq, Repr

/-- `parse_qs` leaves out a parameter without a value. -/
def Callback.Parsed : Callback → Prop
  | .error e => e ≠ ""
  | .code c => c ≠ ""
  | .neither => True

instance : DecidablePred Callback.Parsed := fun cb ↦ by
  cases cb <;> unfold Callback.Parsed <;> infer_instance

/-- What `do_GET` takes for an error. -/
def Callback.failure : Callback → Option String
  | .error e => some e
  | .code _ => none
  | .neither => some "missing_code"

def Callback.code? : Callback → Option String
  | .error _ => none
  | .code c => some c
  | .neither => none

/-- The attributes after `do_GET` has read the query, which has that state. -/
def CallbackHandler.doGet (h : CallbackHandler) (state : String) : Callback → CallbackHandler
  | .error e => { h with error := some e }
  | .code c => { h with result := some (c, state) }
  | .neither => { h with error := some "missing_code" }

inductive Stage where
  | awaiting
  /-- `_exchange_code` was called with that code. -/
  | exchanging (code : String)
  | raised (message : String)
  | timedOut
  deriving DecidableEq, Repr

/-- What `execute` does when it was woken. -/
def CallbackHandler.woken (h : CallbackHandler) (state : String) : Stage :=
  match h.error.filter (· ≠ "") with
  | some e => .raised ("OAuth authorization failed: " ++ e)
  | none =>
    match h.result with
    | none => .raised "No authorization code received."
    | some (code, state') =>
      if state' ≠ state then .raised "OAuth state mismatch — possible CSRF attack."
      else .exchanging code

structure Flow where
  state : String
  stage : Stage
  /-- Its event is set. -/
  ready : Bool
  /-- A redirect was read, and the event is still to be set. -/
  handling : Bool
  /-- Its server is not shut down. -/
  serving : Bool
  /-- The codes that were delivered to its port while it waited, newest first. -/
  codes : List String
  errors : List String
  deriving DecidableEq, Repr

def Flow.delivered (f : Flow) (cb : Callback) : Flow :=
  if f.stage = .awaiting then
    { f with
      handling := true
      codes := cb.code?.toList ++ f.codes
      errors := cb.failure.toList ++ f.errors }
  else { f with handling := true }

structure Process where
  handler : CallbackHandler
  flows : List Flow
  deriving DecidableEq, Repr

inductive Event where
  /-- `execute`, up to its `await`. -/
  | start (state : String)
  /-- A redirect of that flow arrives at its port, with its state. -/
  | callback (flow : ℕ) (cb : Callback)
  /-- Its handler sets the event. -/
  | signal (flow : ℕ)
  | wake (flow : ℕ)
  | timeout (flow : ℕ)
  /-- Its server is shut down: the exchange is over, or it raised. -/
  | shutdown (flow : ℕ)
  deriving DecidableEq, Repr

namespace Process

def init : Process := ⟨⟨none, none, none⟩, []⟩

variable (s : Process)

/-- A state is drawn at random, and not drawn twice. -/
def start (state : String) : Option Process :=
  if ∃ f ∈ s.flows, f.state = state then none
  else some
    { handler := ⟨none, none, some s.flows.length⟩
      flows := s.flows ++ [⟨state, .awaiting, false, false, true, [], []⟩] }

def callback (i : ℕ) (cb : Callback) (f : Flow) : Option Process :=
  if f.serving = true ∧ f.handling = false ∧ cb.Parsed then
    some
      { handler := s.handler.doGet f.state cb
        flows := s.flows.modify i fun f ↦ f.delivered cb }
  else none

/-- The event that is set is whoever's is the class attribute now. -/
def signal (i : ℕ) (f : Flow) : Option Process :=
  if f.handling then
    let flows := s.flows.modify i fun f ↦ { f with handling := false }
    some { s with
      flows := match s.handler.readyEvent with
        | none => flows
        | some j => flows.modify j fun f ↦ { f with ready := true } }
  else none

def wake (i : ℕ) (f : Flow) : Option Process :=
  if f.stage = .awaiting ∧ f.ready = true then
    some { s with flows := s.flows.modify i fun f ↦ { f with stage := s.handler.woken f.state } }
  else none

def timeout (i : ℕ) (f : Flow) : Option Process :=
  if f.stage = .awaiting then
    some { s with flows := s.flows.modify i fun f ↦ { f with stage := .timedOut } }
  else none

def shutdown (i : ℕ) (f : Flow) : Option Process :=
  if f.stage ≠ .awaiting ∧ f.handling = false then
    some { s with flows := s.flows.modify i fun f ↦ { f with serving := false } }
  else none

end Process

def step (s : Process) : Event → Option Process
  | .start state => s.start state
  | .callback i cb => (s.flows[i]?).bind fun f ↦ s.callback i cb f
  | .signal i => (s.flows[i]?).bind fun f ↦ s.signal i f
  | .wake i => (s.flows[i]?).bind fun f ↦ s.wake i f
  | .timeout i => (s.flows[i]?).bind fun f ↦ s.timeout i f
  | .shutdown i => (s.flows[i]?).bind fun f ↦ s.shutdown i f

/-! ## What a flow is promised -/

/-- The flow has ended, or will end, by what was delivered to its own port. -/
structure Flow.Isolated (h : CallbackHandler) (i : ℕ) (f : Flow) : Prop where
  /-- A code that is exchanged was delivered with its state. -/
  exchanging : ∀ c, f.stage = .exchanging c → c ∈ f.codes
  /-- It fails for an error of its own, and not if a code was delivered. -/
  raised : ∀ message, f.stage = .raised message → f.codes = [] ∧ f.errors ≠ []
  /-- It times out only if no code was delivered. -/
  timedOut : f.stage = .timedOut → f.codes = []
  /-- If a code was delivered, the flow is woken and goes on to exchange it. -/
  delivered : f.stage = .awaiting → ∀ c ∈ f.codes.head?,
    h.woken f.state = .exchanging c ∧ (f.handling = true ∧ h.readyEvent = some i ∨ f.ready = true)
  /-- It is not woken for anything else. -/
  woken : f.stage = .awaiting → f.ready = true → f.codes ≠ [] ∨ f.errors ≠ []

def Isolated (s : Process) : Prop :=
  ∀ (i : ℕ) (f : Flow), s.flows[i]? = some f → f.Isolated s.handler i

/-- A flow that waits has had a code delivered. -/
def Flow.Due (f : Flow) : Prop := f.stage = .awaiting ∧ f.codes ≠ []

/-- The events that do no harm. -/
def Ordered (s : Process) : Event → Prop
  -- no code waits to be picked up
  | .start state => (∀ f ∈ s.flows, f.state ≠ state) → ∀ f ∈ s.flows, ¬ f.Due
  -- nor does one of another flow; if the flow waits, no error is in the way and it will be woken
  | .callback i (.code c) => ∀ f, s.flows[i]? = some f → f.serving = true → f.handling = false →
      c ≠ "" → (∀ (j : ℕ) (g : Flow), s.flows[j]? = some g → j ≠ i → ¬ g.Due) ∧
        (f.stage = .awaiting → s.handler.error.filter (· ≠ "") = none ∧
          (s.handler.readyEvent = some i ∨ f.ready = true))
  | .callback i cb => ∀ f, s.flows[i]? = some f → f.serving = true → f.handling = false →
      cb.Parsed → ∀ g ∈ s.flows, ¬ g.Due
  -- the flow that is woken has had something delivered, if it still waits
  | .signal i => ∀ f, s.flows[i]? = some f → f.handling = true → ∀ (j : ℕ) (g : Flow),
      s.handler.readyEvent = some j → s.flows[j]? = some g → g.stage = .awaiting →
        g.codes ≠ [] ∨ g.errors ≠ []
  | .wake _ => True
  | .timeout i => ∀ f, s.flows[i]? = some f → f.stage = .awaiting → f.codes = []
  | .shutdown _ => True

/-! ## Lists of flows -/

theorem getElem?_modify_iff {flows : List Flow} {i j : ℕ} {φ : Flow → Flow} {g : Flow} :
    (flows.modify i φ)[j]? = some g ↔
      (j = i ∧ ∃ f, flows[i]? = some f ∧ φ f = g) ∨ (j ≠ i ∧ flows[j]? = some g) := by
  by_cases hji : j = i
  · subst hji
    rw [List.getElem?_modify_eq, Option.map_eq_map, Option.map_eq_some_iff]
    simp
  · rw [List.getElem?_modify_ne _ _ (Ne.symm hji)]
    simp [hji]

theorem getElem?_concat_iff {flows : List Flow} {new : Flow} {j : ℕ} {g : Flow} :
    (flows ++ [new])[j]? = some g ↔ flows[j]? = some g ∨ (j = flows.length ∧ new = g) := by
  rcases Nat.lt_trichotomy j flows.length with hlt | rfl | hgt
  · rw [List.getElem?_append_left hlt]
    exact (or_iff_left fun h ↦ Nat.ne_of_lt hlt h.1).symm
  · rw [List.getElem?_concat_length, Option.some.injEq, List.getElem?_eq_none (Nat.le_refl _)]
    exact ⟨fun h ↦ Or.inr ⟨rfl, h⟩, fun h ↦ h.elim (fun h ↦ absurd h (Option.some_ne_none g).symm)
      And.right⟩
  · have hlong : (flows ++ [new]).length ≤ j := by
      rw [List.length_append, List.length_singleton]
      omega
    rw [List.getElem?_eq_none hlong, List.getElem?_eq_none (Nat.le_of_lt hgt)]
    exact (or_iff_left fun h ↦ Nat.ne_of_gt hgt h.1).symm

/-! ## What a woken flow finds -/

variable {s m : Process} {i : ℕ} {f : Flow}

theorem woken_eq_exchanging {h : CallbackHandler} {state c : String} :
    h.woken state = .exchanging c ↔
      h.error.filter (· ≠ "") = none ∧ h.result = some (c, state) := by
  rw [CallbackHandler.woken]
  split
  · rename_i e he
    exact iff_of_false Stage.noConfusion fun hc ↦ Option.some_ne_none e (he.symm.trans hc.1)
  · rename_i he
    rw [and_iff_right he]
    split
    · rename_i hr
      rw [hr]
      exact iff_of_false Stage.noConfusion (Option.some_ne_none _).symm
    · rename_i code state' hr
      rw [hr, Option.some.injEq, Prod.mk.injEq]
      split
      · rename_i hne
        exact iff_of_false Stage.noConfusion fun hc ↦ hne hc.2
      · rename_i heq
        rw [Stage.exchanging.injEq]
        exact (and_iff_left (not_not.mp heq)).symm

theorem woken_cases (h : CallbackHandler) (state : String) :
    (∃ message, h.woken state = .raised message) ∨ ∃ c, h.woken state = .exchanging c := by
  rw [CallbackHandler.woken]
  split
  · exact Or.inl ⟨_, rfl⟩
  · split
    · exact Or.inl ⟨_, rfl⟩
    · split
      · exact Or.inl ⟨_, rfl⟩
      · exact Or.inr ⟨_, rfl⟩

theorem woken_ne_awaiting (h : CallbackHandler) (state : String) : h.woken state ≠ .awaiting := by
  rcases woken_cases h state with ⟨message, hw⟩ | ⟨c, hw⟩
  · rw [hw]
    exact Stage.noConfusion
  · rw [hw]
    exact Stage.noConfusion

/-! ## The attributes and the flows -/

/-- States are different, and what a flow that waits may find in the class attribute was delivered
to it. -/
structure Inv (s : Process) : Prop where
  distinct : ∀ (i j : ℕ) (f g : Flow), s.flows[i]? = some f → s.flows[j]? = some g →
    f.state = g.state → i = j
  result : ∀ c state, s.handler.result = some (c, state) →
    ∀ (i : ℕ) (f : Flow), s.flows[i]? = some f → f.stage = .awaiting → f.state = state →
      c ∈ f.codes

theorem inv_init : Inv .init :=
  ⟨fun _ _ _ _ hf ↦ absurd hf (Option.some_ne_none _).symm,
    fun _ _ h ↦ absurd h (Option.some_ne_none _).symm⟩

/-- A flow that changes, but keeps its state and loses no code, and waits only if it did. -/
theorem Inv.modify (h : Inv s) {φ : Flow → Flow} (hstate : ∀ f, (φ f).state = f.state)
    (hstage : ∀ f, (φ f).stage = .awaiting → f.stage = .awaiting)
    (hcodes : ∀ f, ∀ c ∈ f.codes, c ∈ (φ f).codes) :
    Inv { s with flows := s.flows.modify i φ } := by
  -- each flow comes from one with the same state
  have hfrom : ∀ (j : ℕ) (g : Flow), (s.flows.modify i φ)[j]? = some g →
      ∃ f, s.flows[j]? = some f ∧ f.state = g.state ∧
        (g.stage = .awaiting → f.stage = .awaiting) ∧ ∀ c ∈ f.codes, c ∈ g.codes := by
    intro j g hg
    rcases getElem?_modify_iff.mp hg with ⟨rfl, f, hf, rfl⟩ | ⟨-, hg⟩
    · exact ⟨f, hf, (hstate f).symm, hstage f, hcodes f⟩
    · exact ⟨g, hg, rfl, id, fun _ hc ↦ hc⟩
  constructor
  · intro j k f g hf hg heq
    obtain ⟨f', hf', hfs, -⟩ := hfrom j f hf
    obtain ⟨g', hg', hgs, -⟩ := hfrom k g hg
    exact h.distinct j k f' g' hf' hg' (hfs.trans (heq.trans hgs.symm))
  · intro c state hr j g hg hawait hs
    obtain ⟨f, hf, hfs, hstage, hle⟩ := hfrom j g hg
    exact hle c (h.result c state hr j f hf (hstage hawait) (hfs.trans hs))

@[simp] theorem Flow.state_delivered (f : Flow) (cb : Callback) :
    (f.delivered cb).state = f.state := by
  unfold Flow.delivered
  split
  · rfl
  · rfl

@[simp] theorem Flow.stage_delivered (f : Flow) (cb : Callback) :
    (f.delivered cb).stage = f.stage := by
  unfold Flow.delivered
  split
  · rfl
  · rfl

/-- The attributes after a redirect: if the flow it was delivered to waits, the result is a code of
that flow. -/
theorem Inv.delivered (h : Inv s) (hf : s.flows[i]? = some f) (cb : Callback) :
    Inv { handler := s.handler.doGet f.state cb
          flows := s.flows.modify i fun f ↦ f.delivered cb } := by
  have hkeep : Inv { s with flows := s.flows.modify i fun f ↦ f.delivered cb } := by
    apply h.modify
    · exact fun f ↦ f.state_delivered cb
    · exact fun f hawait ↦ (f.stage_delivered cb).symm.trans hawait
    · intro f c hc
      unfold Flow.delivered
      split
      · exact List.mem_append_right _ hc
      · exact hc
  refine ⟨hkeep.distinct, fun c state hr j g hg hawait hs ↦ ?_⟩
  cases cb with
  | code c' =>
    obtain ⟨rfl, rfl⟩ := Prod.mk.inj (Option.some.inj hr)
    have hi : (s.flows.modify i fun f ↦ f.delivered (.code c'))[i]? =
        some (f.delivered (.code c')) := getElem?_modify_iff.mpr (Or.inl ⟨rfl, f, hf, rfl⟩)
    obtain rfl := hkeep.distinct j i g _ hg hi (hs.trans (f.state_delivered _).symm)
    obtain rfl := Option.some.inj (hg.symm.trans hi)
    rw [Flow.delivered, if_pos ((f.stage_delivered _).symm.trans hawait)]
    exact List.mem_cons_self
  | error e | neither => exact hkeep.result c state hr j g hg hawait hs

theorem inv_step (h : Inv s) {e : Event} (hm : step s e = some m) : Inv m := by
  cases e with
  | start state =>
    rw [step, Process.start, Option.ite_none_left_eq_some, Option.some.injEq] at hm
    obtain ⟨hnew, rfl⟩ := hm
    refine ⟨fun j k f g hf hg heq ↦ ?_, fun _ _ hr ↦ absurd hr (Option.some_ne_none _).symm⟩
    rcases getElem?_concat_iff.mp hf with hf | ⟨hj, rfl⟩
    · rcases getElem?_concat_iff.mp hg with hg | ⟨-, rfl⟩
      · exact h.distinct j k f g hf hg heq
      · exact absurd ⟨f, List.mem_of_getElem? hf, heq⟩ hnew
    · rcases getElem?_concat_iff.mp hg with hg | ⟨hk, -⟩
      · exact absurd ⟨g, List.mem_of_getElem? hg, heq.symm⟩ hnew
      · exact hj.trans hk.symm
  | callback i cb =>
    obtain ⟨f, hf, hm⟩ := Option.bind_eq_some_iff.mp hm
    rw [Process.callback, Option.ite_none_right_eq_some, Option.some.injEq] at hm
    obtain ⟨-, rfl⟩ := hm
    exact h.delivered hf cb
  | signal i =>
    obtain ⟨f, hf, hm⟩ := Option.bind_eq_some_iff.mp hm
    rw [Process.signal, Option.ite_none_right_eq_some, Option.some.injEq] at hm
    obtain ⟨-, rfl⟩ := hm
    have hfirst : Inv { s with flows := s.flows.modify i fun f ↦ { f with handling := false } } :=
      h.modify (fun _ ↦ rfl) (fun _ ↦ id) fun _ _ hc ↦ hc
    split
    · exact hfirst
    · exact hfirst.modify (fun _ ↦ rfl) (fun _ ↦ id) fun _ _ hc ↦ hc
  | wake i =>
    obtain ⟨f, hf, hm⟩ := Option.bind_eq_some_iff.mp hm
    rw [Process.wake, Option.ite_none_right_eq_some, Option.some.injEq] at hm
    obtain ⟨-, rfl⟩ := hm
    refine h.modify (fun _ ↦ rfl) (fun f hawait ↦ ?_) fun _ _ hc ↦ hc
    exact absurd hawait (woken_ne_awaiting s.handler f.state)
  | timeout i =>
    obtain ⟨f, hf, hm⟩ := Option.bind_eq_some_iff.mp hm
    rw [Process.timeout, Option.ite_none_right_eq_some, Option.some.injEq] at hm
    obtain ⟨-, rfl⟩ := hm
    exact h.modify (fun _ ↦ rfl) (fun _ hawait ↦ Stage.noConfusion hawait) fun _ _ hc ↦ hc
  | shutdown i =>
    obtain ⟨f, hf, hm⟩ := Option.bind_eq_some_iff.mp hm
    rw [Process.shutdown, Option.ite_none_right_eq_some, Option.some.injEq] at hm
    obtain ⟨-, rfl⟩ := hm
    exact h.modify (fun _ ↦ rfl) (fun _ ↦ id) fun _ _ hc ↦ hc

/-! ## One event -/

theorem Flow.Isolated.not_due {h : CallbackHandler} (hf : f.Isolated h i)
    (hraise : ∀ c, h.woken f.state ≠ .exchanging c) : ¬ f.Due := by
  rintro ⟨hawait, hcodes⟩
  obtain ⟨c, cs, hcs⟩ := List.exists_cons_of_ne_nil hcodes
  have hc : c ∈ f.codes.head? := by rw [hcs]; rfl
  exact hraise c (hf.delivered hawait c hc).1

/-- A flow that has nothing to be picked up does not depend on the attributes. -/
theorem Flow.Isolated.of_not_due {h h' : CallbackHandler} (hf : f.Isolated h i) (hdue : ¬ f.Due) :
    f.Isolated h' i where
  exchanging := hf.exchanging
  raised := hf.raised
  timedOut := hf.timedOut
  delivered := by
    intro hawait c hc
    have hne : f.codes ≠ [] := by
      rintro hnil
      rw [hnil] at hc
      exact Option.some_ne_none c hc.symm
    exact absurd ⟨hawait, hne⟩ hdue
  woken := hf.woken

theorem isolated_start (hP : Isolated s) {state : String} (hm : s.start state = some m) :
    Isolated m ↔ Ordered s (.start state) := by
  rw [Process.start, Option.ite_none_left_eq_some, Option.some.injEq] at hm
  obtain ⟨hnew, rfl⟩ := hm
  have hdiff : ∀ f ∈ s.flows, f.state ≠ state := fun f hf heq ↦ hnew ⟨f, hf, heq⟩
  constructor
  · intro h _ f hf
    obtain ⟨j, hj⟩ := List.mem_iff_getElem?.mp hf
    refine (h j f (getElem?_concat_iff.mpr (Or.inl hj))).not_due fun c hc ↦ ?_
    exact Option.some_ne_none _ (woken_eq_exchanging.mp hc).2.symm
  · intro h j g hg
    rcases getElem?_concat_iff.mp hg with hg | ⟨-, rfl⟩
    · exact (hP j g hg).of_not_due (h hdiff g (List.mem_of_getElem? hg))
    · exact ⟨fun _ hc ↦ Stage.noConfusion hc, fun _ hc ↦ Stage.noConfusion hc, fun _ ↦ rfl,
        fun _ _ hc ↦ absurd hc (Option.some_ne_none _).symm, fun _ hr ↦ Bool.noConfusion hr⟩

/-- What is delivered to a flow that has stopped waiting is nothing to it. -/
theorem Flow.Isolated.of_late {h h' : CallbackHandler} (hf : f.Isolated h i) (cb : Callback)
    (hlate : f.stage ≠ .awaiting) : (f.delivered cb).Isolated h' i := by
  rw [Flow.delivered, if_neg hlate]
  exact ⟨hf.exchanging, hf.raised, hf.timedOut, fun hawait ↦ absurd hawait hlate,
    fun hawait ↦ absurd hawait hlate⟩

theorem isolated_code (hI : Inv s) (hP : Isolated s) (hf : s.flows[i]? = some f) {c : String}
    (hm : s.callback i (.code c) f = some m) :
    Isolated m ↔ Ordered s (.callback i (.code c)) := by
  rw [Process.callback, Option.ite_none_right_eq_some, Option.some.injEq] at hm
  obtain ⟨⟨hserving, hfree, hc⟩, rfl⟩ := hm
  have hother : ∀ (j : ℕ) (g : Flow), s.flows[j]? = some g → j ≠ i → g.state ≠ f.state :=
    fun j g hg hne heq ↦ hne (hI.distinct j i g f hg hf heq)
  constructor
  · intro h f' hf' _ _ _
    obtain rfl := Option.some.inj (hf.symm.trans hf')
    refine ⟨fun j g hg hne ↦ ?_, fun hawait ↦ ?_⟩
    · have hj := h j g (getElem?_modify_iff.mpr (Or.inr ⟨hne, hg⟩))
      refine hj.not_due fun c' hc' ↦ ?_
      have hresult := (woken_eq_exchanging.mp hc').2
      exact hother j g hg hne (Prod.mk.inj (Option.some.inj hresult)).2.symm
    · have hi := h i _ (getElem?_modify_iff.mpr (Or.inl ⟨rfl, f, hf, rfl⟩))
      rw [Flow.delivered, if_pos hawait] at hi
      obtain ⟨hwoken, hset⟩ := hi.delivered hawait c rfl
      exact ⟨(woken_eq_exchanging.mp hwoken).1, hset.imp_left And.right⟩
  · intro h j g hg
    obtain ⟨hdue, hwaits⟩ := h f hf hserving hfree hc
    rcases getElem?_modify_iff.mp hg with ⟨rfl, f', hf', rfl⟩ | ⟨hne, hg⟩
    · obtain rfl := Option.some.inj (hf.symm.trans hf')
      by_cases hawait : f.stage = .awaiting
      · obtain ⟨herr, hset⟩ := hwaits hawait
        rw [Flow.delivered, if_pos hawait]
        refine ⟨fun _ hs ↦ ?_, fun _ hs ↦ ?_, fun hs ↦ ?_, fun _ c' hc' ↦ ?_, fun _ _ ↦ ?_⟩
        · exact Stage.noConfusion (hawait.symm.trans hs)
        · exact Stage.noConfusion (hawait.symm.trans hs)
        · exact Stage.noConfusion (hawait.symm.trans hs)
        · obtain rfl : c = c' := Option.some.inj hc'
          exact ⟨woken_eq_exchanging.mpr ⟨herr, rfl⟩, hset.imp_left fun ho ↦ ⟨rfl, ho⟩⟩
        · exact Or.inl (List.cons_ne_nil _ _)
      · exact (hP j f hf).of_late _ hawait
    · exact (hP j g hg).of_not_due (hdue j g hg hne)

theorem isolated_error (hP : Isolated s) (hf : s.flows[i]? = some f) {cb : Callback} {e : String}
    (he : e ≠ "") (hcb : cb.failure = some e) (hm : s.callback i cb f = some m) :
    Isolated m ↔ ∀ g ∈ s.flows, ¬ g.Due := by
  rw [Process.callback, Option.ite_none_right_eq_some, Option.some.injEq] at hm
  obtain ⟨⟨hserving, hfree, hc⟩, rfl⟩ := hm
  have hraise : ∀ state c, (s.handler.doGet f.state cb).woken state ≠ .exchanging c := by
    intro state c hw
    have herr : (s.handler.doGet f.state cb).error = some e := by
      cases cb with
      | code c => exact absurd hcb.symm (Option.some_ne_none e)
      | _ => exact hcb
    have := (woken_eq_exchanging.mp hw).1
    rw [herr, Option.filter_some, if_pos (decide_eq_true he)] at this
    exact Option.some_ne_none e this
  have hdelivered : f.stage = .awaiting →
      (f.delivered cb).codes = f.codes ∧ (f.delivered cb).errors ≠ [] := by
    intro hawait
    rw [Flow.delivered, if_pos hawait]
    dsimp only
    rw [hcb]
    refine ⟨?_, List.cons_ne_nil _ _⟩
    cases cb with
    | code c => exact absurd hcb.symm (Option.some_ne_none e)
    | _ => rfl
  constructor
  · intro h g hg hdue
    obtain ⟨j, hj⟩ := List.mem_iff_getElem?.mp hg
    by_cases hji : j = i
    · subst hji
      obtain rfl := Option.some.inj (hf.symm.trans hj)
      have hi := h j _ (getElem?_modify_iff.mpr (Or.inl ⟨rfl, f, hf, rfl⟩))
      refine hi.not_due (hraise _) ⟨(f.stage_delivered cb).trans hdue.1, ?_⟩
      rw [(hdelivered hdue.1).1]
      exact hdue.2
    · exact (h j g (getElem?_modify_iff.mpr (Or.inr ⟨hji, hj⟩))).not_due (hraise _) hdue
  · intro h j g hg
    rcases getElem?_modify_iff.mp hg with ⟨rfl, f', hf', rfl⟩ | ⟨hne, hg⟩
    · obtain rfl := Option.some.inj (hf.symm.trans hf')
      by_cases hawait : f.stage = .awaiting
      · obtain ⟨hcodes, herrors⟩ := hdelivered hawait
        have hstage := (f.stage_delivered cb).trans hawait
        refine ⟨fun _ hs ↦ ?_, fun _ hs ↦ ?_, fun hs ↦ ?_, fun _ c' hc' ↦ ?_, fun _ _ ↦ ?_⟩
        · exact Stage.noConfusion (hstage.symm.trans hs)
        · exact Stage.noConfusion (hstage.symm.trans hs)
        · exact Stage.noConfusion (hstage.symm.trans hs)
        · rw [hcodes] at hc'
          have hne : f.codes ≠ [] := by
            intro hnil
            rw [hnil] at hc'
            exact Option.some_ne_none c' hc'.symm
          exact absurd ⟨hawait, hne⟩ (h f (List.mem_of_getElem? hf))
        · exact Or.inr herrors
      · exact (hP j f hf).of_late _ hawait
    · exact (hP j g hg).of_not_due (h g (List.mem_of_getElem? hg))

/-- The event is set of whoever started last. -/
theorem isolated_signal (hP : Isolated s) (hf : s.flows[i]? = some f)
    (hm : s.signal i f = some m) : Isolated m ↔ Ordered s (.signal i) := by
  rw [Process.signal, Option.ite_none_right_eq_some, Option.some.injEq] at hm
  obtain ⟨hhandling, rfl⟩ := hm
  -- what a flow is after the signal, and whether it is woken by it
  have hflows : ∀ (j : ℕ) (g : Flow),
      (match s.handler.readyEvent with
        | none => s.flows.modify i fun f ↦ { f with handling := false }
        | some k => (s.flows.modify i fun f ↦ { f with handling := false }).modify k fun f ↦
            { f with ready := true })[j]? = some g ↔
      ∃ g₀, s.flows[j]? = some g₀ ∧ g =
        { g₀ with
          handling := if j = i then false else g₀.handling
          ready := if s.handler.readyEvent = some j then true else g₀.ready } := by
    intro j g
    cases ho : s.handler.readyEvent with
    | none =>
      rw [List.getElem?_modify, Option.map_eq_map, Option.map_eq_some_iff]
      refine exists_congr fun g₀ ↦ and_congr_right fun _ ↦ ?_
      rw [eq_comm]
      by_cases hji : i = j
      · simp [hji]
      · simp [hji, Ne.symm hji]
    | some k =>
      rw [List.getElem?_modify, List.getElem?_modify, Option.map_eq_map, Option.map_eq_map,
        Option.map_map, Option.map_eq_some_iff]
      refine exists_congr fun g₀ ↦ and_congr_right fun _ ↦ ?_
      rw [eq_comm, Function.comp_apply]
      by_cases hji : i = j
      · by_cases hkj : k = j <;> simp [hji, hkj]
      · by_cases hkj : k = j <;> simp [hji, hkj, Ne.symm hji]
  constructor
  · intro h f' hf' _ j g ho hg hawait
    have hj := h j _ ((hflows j _).mpr ⟨g, hg, rfl⟩)
    exact hj.woken hawait (if_pos ho)
  · intro h j g hg
    obtain ⟨g₀, hg₀, rfl⟩ := (hflows j g).mp hg
    have h₀ := hP j g₀ hg₀
    refine ⟨h₀.exchanging, h₀.raised, h₀.timedOut, fun hawait c hc ↦ ?_, fun hawait hr ↦ ?_⟩
    · obtain ⟨hwoken, hset⟩ := h₀.delivered hawait c hc
      refine ⟨hwoken, ?_⟩
      rcases hset with ⟨hh, ho⟩ | hr
      · exact Or.inr (if_pos ho)
      · refine Or.inr ?_
        dsimp only
        rw [hr, ite_self]
    · by_cases ho : s.handler.readyEvent = some j
      · exact h f hf hhandling j g₀ ho hg₀ hawait
      · exact h₀.woken hawait ((if_neg ho).symm.trans hr)

theorem isolated_wake (hI : Inv s) (hP : Isolated s) (hf : s.flows[i]? = some f)
    (hm : s.wake i f = some m) : Isolated m := by
  rw [Process.wake, Option.ite_none_right_eq_some, Option.some.injEq] at hm
  obtain ⟨⟨hawait, hready⟩, rfl⟩ := hm
  intro j g hg
  rcases getElem?_modify_iff.mp hg with ⟨rfl, f', hf', rfl⟩ | ⟨-, hg⟩
  · obtain rfl := Option.some.inj (hf.symm.trans hf')
    have h₀ := hP j f hf
    have hcodes : ∀ c, s.handler.woken f.state = .exchanging c → c ∈ f.codes :=
      fun c hc ↦ hI.result c f.state (woken_eq_exchanging.mp hc).2 j f hf hawait rfl
    refine ⟨hcodes, fun msg hmsg ↦ ?_, fun ht ↦ ?_, fun ha ↦ ?_, fun ha ↦ ?_⟩
    · have hnil : f.codes = [] := by
        by_contra hne
        obtain ⟨c, cs, hcs⟩ := List.exists_cons_of_ne_nil hne
        have hc : c ∈ f.codes.head? := by rw [hcs]; rfl
        exact Stage.noConfusion (hmsg.symm.trans (h₀.delivered hawait c hc).1)
      exact ⟨hnil, (h₀.woken hawait hready).resolve_left (not_not_intro hnil)⟩
    · rcases woken_cases s.handler f.state with ⟨msg, hw⟩ | ⟨c, hw⟩
      · exact Stage.noConfusion (ht.symm.trans hw)
      · exact Stage.noConfusion (ht.symm.trans hw)
    · rcases woken_cases s.handler f.state with ⟨msg, hw⟩ | ⟨c, hw⟩
      · exact Stage.noConfusion (ha.symm.trans hw)
      · exact Stage.noConfusion (ha.symm.trans hw)
    · rcases woken_cases s.handler f.state with ⟨msg, hw⟩ | ⟨c, hw⟩
      · exact Stage.noConfusion (ha.symm.trans hw)
      · exact Stage.noConfusion (ha.symm.trans hw)
  · exact hP j g hg

theorem isolated_timeout (hP : Isolated s) (hf : s.flows[i]? = some f)
    (hm : s.timeout i f = some m) : Isolated m ↔ Ordered s (.timeout i) := by
  rw [Process.timeout, Option.ite_none_right_eq_some, Option.some.injEq] at hm
  obtain ⟨hawait, rfl⟩ := hm
  constructor
  · intro h f' hf' _
    obtain rfl := Option.some.inj (hf.symm.trans hf')
    exact (h i _ (getElem?_modify_iff.mpr (Or.inl ⟨rfl, f, hf, rfl⟩))).timedOut rfl
  · intro h j g hg
    rcases getElem?_modify_iff.mp hg with ⟨rfl, f', hf', rfl⟩ | ⟨-, hg⟩
    · obtain rfl := Option.some.inj (hf.symm.trans hf')
      exact ⟨fun _ hs ↦ Stage.noConfusion hs, fun _ hs ↦ Stage.noConfusion hs,
        fun _ ↦ h f hf hawait, fun hs ↦ Stage.noConfusion hs, fun hs ↦ Stage.noConfusion hs⟩
    · exact hP j g hg

theorem isolated_shutdown (hP : Isolated s) (hf : s.flows[i]? = some f)
    (hm : s.shutdown i f = some m) : Isolated m := by
  rw [Process.shutdown, Option.ite_none_right_eq_some, Option.some.injEq] at hm
  obtain ⟨-, rfl⟩ := hm
  intro j g hg
  rcases getElem?_modify_iff.mp hg with ⟨rfl, f', hf', rfl⟩ | ⟨-, hg⟩
  · obtain ⟨hexchanging, hraised, htimedOut, hdelivered, hwoken⟩ := hP j f' hf'
    exact ⟨hexchanging, hraised, htimedOut, hdelivered, hwoken⟩
  · exact hP j g hg

theorem isolated_step {e : Event} (hI : Inv s) (hP : Isolated s) (hm : step s e = some m) :
    Isolated m ↔ Ordered s e := by
  cases e with
  | start state => exact isolated_start hP hm
  | callback i cb =>
    obtain ⟨f, hf, hm⟩ := Option.bind_eq_some_iff.mp hm
    cases cb with
    | code c => exact isolated_code hI hP hf hm
    | error e =>
      have hcall := hm
      rw [Process.callback, Option.ite_none_right_eq_some] at hcall
      obtain ⟨⟨hserving, hfree, he⟩, -⟩ := hcall
      refine (isolated_error hP hf he rfl hm).trans ⟨fun h _ _ _ _ _ ↦ h, fun h ↦ ?_⟩
      exact h f hf hserving hfree he
    | neither =>
      have hcall := hm
      rw [Process.callback, Option.ite_none_right_eq_some] at hcall
      obtain ⟨⟨hserving, hfree, he⟩, -⟩ := hcall
      refine (isolated_error hP hf (by decide) rfl hm).trans ⟨fun h _ _ _ _ _ ↦ h, fun h ↦ ?_⟩
      exact h f hf hserving hfree he
  | signal i =>
    obtain ⟨f, hf, hm⟩ := Option.bind_eq_some_iff.mp hm
    exact isolated_signal hP hf hm
  | wake i =>
    obtain ⟨f, hf, hm⟩ := Option.bind_eq_some_iff.mp hm
    exact iff_of_true (isolated_wake hI hP hf hm) trivial
  | timeout i =>
    obtain ⟨f, hf, hm⟩ := Option.bind_eq_some_iff.mp hm
    exact isolated_timeout hP hf hm
  | shutdown i =>
    obtain ⟨f, hf, hm⟩ := Option.bind_eq_some_iff.mp hm
    exact iff_of_true (isolated_shutdown hP hf hm) trivial

theorem ordered_of_none {e : Event} (h : step s e = none) : Ordered s e := by
  cases e with
  | start state =>
    intro hdiff
    have hnew : ¬ ∃ f ∈ s.flows, f.state = state := fun ⟨f, hf, heq⟩ ↦ hdiff f hf heq
    rw [step, Process.start, if_neg hnew] at h
    exact absurd h (Option.some_ne_none _)
  | callback i cb =>
    have hcall : ∀ f, s.flows[i]? = some f → f.serving = true → f.handling = false →
        ¬ cb.Parsed := by
      intro f hf hserving hfree hcb
      rw [step, hf, Option.bind_some, Process.callback, if_pos ⟨hserving, hfree, hcb⟩] at h
      exact Option.some_ne_none _ h
    cases cb with
    | code c | error e | neither => exact fun f hf ha hh hc ↦ absurd hc (hcall f hf ha hh)
  | signal i =>
    intro f hf hh
    rw [step, hf, Option.bind_some, Process.signal, if_pos hh] at h
    exact absurd h (Option.some_ne_none _)
  | wake i => trivial
  | timeout i =>
    intro f hf ha
    rw [step, hf, Option.bind_some, Process.timeout, if_pos ha] at h
    exact absurd h (Option.some_ne_none _)
  | shutdown i => trivial

/-! ## Runs -/

/-- **Flows do not interfere, exactly.** However starts, redirects, wake-ups and timeouts of any
number of flows interleave, each flow ends by what was delivered to its own port exactly if every
event is in order. -/
theorem isolated_iff_ordered (events : List Event) :
    (∀ pre m, pre <+: events → Run.run step .init pre = some m → Isolated m) ↔
      Run.Guarded step Ordered .init events := by
  refine @Run.forall_reached_iff_guarded _ _ step Ordered Inv Isolated ?_ ?_ events .init inv_init
    fun _ _ hf ↦ absurd hf (Option.some_ne_none _).symm
  · exact fun s e m hI hP hm ↦ ⟨inv_step hI hm, isolated_step hI hP hm⟩
  · exact fun s e _ _ hm ↦ ordered_of_none hm

/-- Two flows start, and the first login is completed. The flow that is woken is the second. -/
def overlapping : List Event :=
  [.start "first", .start "second", .callback 0 (.code "c"), .signal 0, .wake 1, .timeout 0]

/-- The first flow times out although its code has arrived. -/
theorem not_forall_isolated : ¬ ∀ (events : List Event) (m : Process),
    Run.run step .init events = some m → Isolated m := by
  intro h
  have hrun := Run.run_eq_some_getD
    (show (Run.run step .init overlapping).isSome by decide) .init
  have hflow := h overlapping _ hrun 0
    ⟨"first", .timedOut, false, false, true, ["c"], []⟩ (by decide)
  exact absurd (hflow.timedOut rfl) (List.cons_ne_nil _ _)

end Pkce

end ArgusMcp
