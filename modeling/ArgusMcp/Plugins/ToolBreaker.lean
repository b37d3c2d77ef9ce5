import ArgusMcp.Library.Machine
import ArgusMcp.Plugins.Hooks
import ArgusMcp.Server.Lifespan
import Mathlib.Algebra.Order.Group.Int
import Mathlib.Order.WithBot

/-!
# The circuit breaker for tools

`CircuitBreakerPlugin` of `plugins/builtins/circuit_breaker.py` keeps a breaker for every pair of a
server and a tool. Before a call it asks the breaker, and behind it it tells the breaker how the
call went. This can only work if the two hooks speak of the same breaker, and if the second one is
told of failures. Neither is the case. Before the call the server is not known, so that the breaker
asked belongs to the server without a name; behind it, the breaker of the server that was called is
told. And it is told of a failure if the metadata have an entry `error`, which no layer of the chain
writes, while a call that raises does not get to the second hook at all.

So all breakers stay closed (`AllClosed`), whatever happens, and the plugin lets everything through:
`trace_step` says that the run of any list of calls is what it would be without the plugin. The
failures that should have tripped a breaker are counted in `failureStreak`, from the outside, and
`trips_iff` says when it is right not to have noticed any.
-/

namespace ArgusMcp

namespace ToolBreaker

open Hooks

/-! ## Breakers -/

inductive State where
  | closed
  | opened
  | halfOpen
  deriving DecidableEq, Repr

def State.text : State → String
  | .closed => "closed"
  | .opened => "open"
  | .halfOpen => "half_open"

structure PerToolBreaker (T : Type) where
  state : State
  failures : ℕ
  lastFailure : T
  failureThreshold : ℤ
  cooldown : WithTop T

variable {O T : Type} [AddCommGroup T] [LinearOrder T]

namespace PerToolBreaker

def new (failureThreshold : ℤ) (cooldown : WithTop T) : PerToolBreaker T where
  state := .closed
  failures := 0
  lastFailure := 0
  failureThreshold := failureThreshold
  cooldown := cooldown

/-- `allows`. An open breaker that has waited long enough lets one call through, and more until it
hears of one. -/
def allows (b : PerToolBreaker T) (now : T) : Bool × PerToolBreaker T :=
  if b.state = .opened then
    if b.cooldown ≤ ((now - b.lastFailure : T) : WithTop T) then
      (true, { b with state := .halfOpen })
    else (false, b)
  else (true, b)

def recordSuccess (b : PerToolBreaker T) : PerToolBreaker T :=
  { b with state := .closed, failures := 0 }

def recordFailure (b : PerToolBreaker T) (now : T) : PerToolBreaker T :=
  { b with
    failures := b.failures + 1
    lastFailure := now
    state := if b.failureThreshold ≤ (b.failures + 1 : ℕ) then .opened else b.state }

end PerToolBreaker

/-! ## The plugin -/

/-- What the hooks read and write: the clock, and the breakers under the names of server and
tool. -/
structure World (T : Type) where
  now : T
  breakers : Dict (String × String) (PerToolBreaker T)

/-- The constructor of the plugin, as far as the settings go. -/
structure Settings (T : Type) where
  failureThreshold : ℤ
  cooldownSeconds : WithTop T
  /-- A duration as it is written in messages. -/
  showSeconds : WithTop T → String

/-- `_get`. A breaker that is made is kept. -/
def get (settings : Settings T) (ctx : HookContext O) (w : World T) :
    PerToolBreaker T × World T :=
  match w.breakers.get? (ctx.serverName, ctx.capabilityName) with
  | some breaker => (breaker, w)
  | none =>
    let breaker := .new settings.failureThreshold settings.cooldownSeconds
    (breaker, { w with
      breakers := w.breakers.set (ctx.serverName, ctx.capabilityName) breaker })

/-- The breaker of the context has become another one. -/
def put (ctx : HookContext O) (breaker : PerToolBreaker T) (w : World T) : World T :=
  { w with breakers := w.breakers.set (ctx.serverName, ctx.capabilityName) breaker }

/-- `ctx.metadata["circuit_state"] = breaker.state.value`. -/
def withState (ctx : HookContext O) (breaker : PerToolBreaker T) : HookContext O :=
  { ctx with
    metadata := ctx.metadata.set "circuit_state" (.value (.str breaker.state.text)) }

def toolPreInvoke (settings : Settings T) (ctx : HookContext O) (w : World T) :
    HookReply O × World T :=
  let (breaker, w) := get settings ctx w
  let (allowed, breaker) := breaker.allows w.now
  if allowed then (.context (withState ctx breaker), put ctx breaker w)
  else
    (.raises ⟨.valueError, "Circuit open for " ++ ctx.serverName ++ "/" ++ ctx.capabilityName ++
      " (" ++ toString breaker.failures ++ " failures, cooldown " ++
      settings.showSeconds breaker.cooldown ++ "s)"⟩, put ctx breaker w)

def toolPostInvoke [PyObject O] (settings : Settings T) (ctx : HookContext O) (w : World T) :
    HookReply O × World T :=
  let (breaker, w) := get settings ctx w
  let breaker :=
    if MetaValue.truthy (ctx.metadata.get? "error") then breaker.recordFailure w.now
    else breaker.recordSuccess
  (.context (withState ctx breaker), put ctx breaker w)

def circuitBreakerPlugin [PyObject O] (config : PluginConfig O) (settings : Settings T) :
    Hooks.Plugin O (World T) where
  config := config
  hook := fun
    | .toolPreInvoke => some (toolPreInvoke settings)
    | .toolPostInvoke => some (toolPostInvoke settings)
    | _ => none

/-! ## Runs -/

/-- A tool call, with the readings of the clock before and behind it. -/
structure ToolCall (O T : Type) where
  request : ToolRequest O
  start : T
  finish : T

/-- What is seen of a tool call from the outside. -/
structure Entry (O T : Type) where
  call : ToolCall O T
  calls : List (BackendCall O)
  result : Except Exc McpResult

def Entry.tool (e : Entry O T) : String := e.call.request.capabilityName

section

variable [PyObject O] (config : PluginConfig O) (settings : Settings T)

/-- The chain with the plugin in it, and no other. -/
def step (w : World T) (call : ToolCall O T) : World T × Entry O T :=
  let (handled, w) := handle (Dict.ofList [(config.name, circuitBreakerPlugin config settings)])
    (fun w ↦ { w with now := call.finish }) call.request { w with now := call.start }
  (w, ⟨call, handled.calls, handled.result⟩)

/-- What is seen of a list of calls, from a plugin that has just been loaded on. -/
def run (t : T) (calls : List (ToolCall O T)) : List (Entry O T) :=
  Machine.trace (step config settings) ⟨t, Dict.empty⟩ calls

end

/-! ## What the breaker is for -/

/-- The call was refused by a plugin. -/
def Entry.rejected (e : Entry O T) : Bool :=
  e.calls.isEmpty && match e.result with
    | .error e => decide (e.cls = .pluginError)
    | .ok _ => false

/-- The handler raised, or returned an error. -/
def failure : Except Exc McpResult → Bool
  | .error _ => true
  | .ok (.callToolResult _ isError) => isError
  | .ok _ => false

/-- The number of failures of the tool since it last succeeded. Calls that were refused do not
count. -/
def failureStreak (tool : String) (entries : List (Entry O T)) : ℕ :=
  entries.foldl (fun n e ↦
    if e.tool = tool ∧ e.rejected = false then if failure e.result then n + 1 else 0 else n) 0

def lastFailure (tool : String) (entries : List (Entry O T)) : Option T :=
  entries.foldl (fun t e ↦
    if e.tool = tool ∧ e.rejected = false ∧ failure e.result = true then some e.call.finish
    else t) none

/-- The tool has failed as often as it may, and not long enough ago. -/
def Tripped (settings : Settings T) (entries : List (Entry O T)) (call : ToolCall O T) : Prop :=
  settings.failureThreshold ≤ failureStreak call.request.capabilityName entries ∧
    ∃ t, lastFailure call.request.capabilityName entries = some t ∧
      ((call.start - t : T) : WithTop T) < settings.cooldownSeconds

/-- What is expected of the plugin. -/
def Trips (settings : Settings T) (entries : List (Entry O T)) : Prop :=
  ∀ before e after, entries = before ++ e :: after →
    (Tripped settings before e.call → e.rejected = true) ∧
      ((failureStreak e.tool before : ℤ) < settings.failureThreshold → e.rejected = false)

/-- What is seen of a call when there are no plugins. -/
def unprotected (call : ToolCall O T) : Entry O T where
  call := call
  calls := call.request.routed.calls
  result := call.request.routed.result

/-! ## Breakers that never open -/

/-- No breaker has been told of a failure. -/
def AllClosed (w : World T) : Prop :=
  ∀ key b, w.breakers.get? key = some b → b.state = .closed

omit [AddCommGroup T] [LinearOrder T] in
theorem AllClosed.put {w : World T} (h : AllClosed w) (ctx : HookContext O)
    {b : PerToolBreaker T} (hb : b.state = .closed) : AllClosed (put ctx b w) := by
  intro key b' hb'
  rw [ToolBreaker.put, Dict.get?_set] at hb'
  split at hb'
  · rw [← Option.some.inj hb']
    exact hb
  · exact h key b' hb'

omit [LinearOrder T] in
theorem AllClosed.get {w : World T} (h : AllClosed w) (settings : Settings T)
    (ctx : HookContext O) :
    (get settings ctx w).1.state = .closed ∧ AllClosed (get settings ctx w).2 := by
  rw [ToolBreaker.get]
  rcases hbreaker : w.breakers.get? (ctx.serverName, ctx.capabilityName) with _ | breaker
  · exact ⟨rfl, h.put ctx rfl⟩
  · exact ⟨h _ _ hbreaker, h⟩

theorem AllClosed.toolPreInvoke {w : World T} (h : AllClosed w) (settings : Settings T)
    (ctx : HookContext O) : ∃ (b : PerToolBreaker T) (w' : World T), AllClosed w' ∧
      toolPreInvoke settings ctx w = (.context (withState ctx b), w') := by
  obtain ⟨hstate, hclosed⟩ := h.get settings ctx
  have hallows : ∀ now, (ToolBreaker.get settings ctx w).1.allows now
      = (true, (ToolBreaker.get settings ctx w).1) := by
    intro now
    rw [PerToolBreaker.allows, hstate]
    rfl
  refine ⟨(ToolBreaker.get settings ctx w).1, _, hclosed.put ctx hstate, ?_⟩
  rw [ToolBreaker.toolPreInvoke]
  dsimp only
  rw [hallows]
  rfl

omit [LinearOrder T] in
theorem AllClosed.toolPostInvoke [PyObject O] {w : World T} (h : AllClosed w)
    (settings : Settings T) {ctx : HookContext O} (herror : ctx.metadata.get? "error" = none) :
    ∃ (b : PerToolBreaker T) (w' : World T), AllClosed w' ∧
      toolPostInvoke settings ctx w = (.context (withState ctx b), w') := by
  obtain ⟨-, hclosed⟩ := h.get settings ctx
  have hsuccess : (ToolBreaker.get settings ctx w).1.recordSuccess.state = .closed := rfl
  refine ⟨(ToolBreaker.get settings ctx w).1.recordSuccess, _, hclosed.put ctx hsuccess, ?_⟩
  rw [ToolBreaker.toolPostInvoke, herror]
  rfl

section

variable [PyObject O] (config : PluginConfig O) (settings : Settings T)

theorem AllClosed.runHook_toolPreInvoke {w : World T} (h : AllClosed w) (ctx : HookContext O)
    (herror : ctx.metadata.get? "error" = none) : ∃ p w', AllClosed w' ∧
      p.arguments = ctx.arguments ∧ p.metadata.get? "error" = none ∧
        Hooks.runHook (Dict.ofList [(config.name, circuitBreakerPlugin config settings)])
          .toolPreInvoke ctx w = (.ok p, w') := by
  rcases happlies : (circuitBreakerPlugin config settings).applies ctx with _ | _
  · exact ⟨ctx, w, h, rfl, herror, runHook_single_of_passed happlies⟩
  · obtain ⟨b, w', hclosed, hreply⟩ := h.toolPreInvoke settings ctx
    refine ⟨withState ctx b, w', hclosed, rfl, ?_, ?_⟩
    · rw [withState, Dict.get?_set_of_ne _ _ (by decide)]
      exact herror
    · exact runHook_single_of_context ⟨happlies, _, rfl, hreply⟩

theorem AllClosed.runHook_toolPostInvoke {w : World T} (h : AllClosed w) (ctx : HookContext O)
    (herror : ctx.metadata.get? "error" = none) : ∃ p w', AllClosed w' ∧
      p.result = ctx.result ∧
        Hooks.runHook (Dict.ofList [(config.name, circuitBreakerPlugin config settings)])
          .toolPostInvoke ctx w = (.ok p, w') := by
  rcases happlies : (circuitBreakerPlugin config settings).applies ctx with _ | _
  · exact ⟨ctx, w, h, rfl, runHook_single_of_passed happlies⟩
  · obtain ⟨b, w', hclosed, hreply⟩ := h.toolPostInvoke settings herror
    exact ⟨withState ctx b, w', hclosed, rfl,
      runHook_single_of_context ⟨happlies, _, rfl, hreply⟩⟩

theorem AllClosed.step {w : World T} (h : AllClosed w) (call : ToolCall O T) :
    AllClosed (step config settings w call).1 ∧
      (step config settings w call).2 = unprotected call := by
  have herror : call.request.metadata.get? "error" = none :=
    call.request.get?_metadata_of_notMem (by decide)
  have hstart : AllClosed ({ w with now := call.start } : World T) := h
  obtain ⟨p, w₁, hclosed₁, harguments, herror₁, hpre⟩ :=
    hstart.runHook_toolPreInvoke config settings
      (toHookContext call.request.ctx call.request.metadata .null) herror
  have herror₂ : (call.request.metadata.update p.metadata).get? "error" = none := by
    rw [Dict.get?_update, herror₁, herror]
    rfl
  have hfinish : AllClosed ({ w₁ with now := call.finish } : World T) := hclosed₁
  obtain ⟨hcalls, hresult⟩ := call.request.routedAs_of_arguments harguments
  rw [ToolBreaker.step, unprotected, ← hcalls, ← hresult]
  rcases hrouted : (call.request.routedAs p).result with e | result
  · rw [handle_of_error _ hpre hrouted]
    exact ⟨hfinish, by rw [← hrouted]⟩
  · obtain ⟨p₂, w₂, hclosed₂, hresult₂, hpost⟩ := hfinish.runHook_toolPostInvoke config settings
      (call.request.answered p result) herror₂
    obtain ⟨hworld, hcalls', hanswer⟩ := handle_of_ok
      (fun w ↦ { w with now := call.finish }) hpre hrouted hpost
    dsimp only
    rw [hworld, hcalls', hanswer]
    refine ⟨hclosed₂, ?_⟩
    rw [received, Except.map, hresult₂]
    rfl

/-- **The plugin does nothing.** What is seen of any list of calls is what would be seen without
it. -/
theorem trace_step (calls : List (ToolCall O T)) : ∀ {w : World T}, AllClosed w →
    Machine.trace (step config settings) w calls = calls.map unprotected := by
  induction calls with
  | nil => exact fun _ ↦ rfl
  | cons call calls ih =>
    intro w h
    obtain ⟨hclosed, hentry⟩ := h.step config settings call
    rw [Machine.trace, hentry, ih hclosed, List.map_cons]

theorem run_eq_map (t : T) (calls : List (ToolCall O T)) :
    run config settings t calls = calls.map unprotected :=
  trace_step config settings calls fun _ _ h ↦ absurd h (by simp)

end

omit [AddCommGroup T] [LinearOrder T] in
/-- Nothing that routing does is taken for the refusal of a plugin. -/
theorem rejected_unprotected (call : ToolCall O T) : (unprotected call).rejected = false := by
  rw [Entry.rejected, unprotected, ToolRequest.routed]
  dsimp only
  rcases call.request.registry with _ | registry
  · rfl
  rcases call.request.manager with _ | manager
  · rfl
  rw [routingMiddleware]
  rcases registry.resolveCapability call.request.ctx.capabilityName with _ | ⟨svrName, origCapName⟩
  · rfl
  dsimp only
  rcases manager.get? svrName with _ | session
  · rfl
  · rfl

theorem trips_map_unprotected_iff {settings : Settings T} {calls : List (ToolCall O T)} :
    Trips settings (calls.map unprotected) ↔ ∀ before call after,
      calls = before ++ call :: after → ¬ Tripped settings (before.map unprotected) call := by
  constructor
  · rintro h before call after rfl htripped
    have hsplit : (before ++ call :: after).map unprotected
        = before.map unprotected ++ unprotected call :: after.map unprotected := by
      rw [List.map_append, List.map_cons]
    have hrejected := (h _ _ _ hsplit).1 htripped
    rw [rejected_unprotected] at hrejected
    exact Bool.false_ne_true hrejected
  · intro h before e after hsplit
    obtain ⟨before, rest, rfl, rfl, hrest⟩ := List.map_eq_append_iff.mp hsplit
    obtain ⟨call, after, rfl, rfl, rfl⟩ := List.map_eq_cons_iff.mp hrest
    exact ⟨fun htripped ↦ absurd htripped (h before call after rfl),
      fun _ ↦ rejected_unprotected call⟩

/-- **When the plugin does what it is for**: exactly when it has nothing to do. No call may come to
a tool that has failed, without a success in between, as often as the threshold says, and the last
time less than the cooldown ago. -/
theorem trips_iff [PyObject O] (config : PluginConfig O) (settings : Settings T) (t : T)
    (calls : List (ToolCall O T)) : Trips settings (run config settings t calls) ↔
      ∀ before call after, calls = before ++ call :: after →
        ¬ Tripped settings (before.map unprotected) call := by
  rw [run_eq_map]
  exact trips_map_unprotected_iff

/-- A call of a tool whose backend always fails. -/
def failingCall (start finish : ℤ) : ToolCall Empty ℤ where
  request := ⟨"read", none, "r", Dict.empty, mem_requestKeys_of_mem_empty,
    some (oneRoute "read" "files" "read"), some (Dict.empty.set "files" brokenSession)⟩
  start := start
  finish := finish

/-- A threshold of one, and half a minute of cooldown. -/
def strictSettings : Settings ℤ := ⟨1, ((30 : ℤ) : WithTop ℤ), fun _ ↦ "30.0"⟩

/-- The second of two calls that fail gets to the backend. -/
theorem not_trips_failingCall :
    ¬ Trips strictSettings
      (run ⟨"circuit_breaker", true, .enforce, 100, "30.0", ⟨[], [], []⟩, []⟩ strictSettings 0
        [failingCall 0 1, failingCall 2 3]) := by
  rw [run_eq_map, trips_map_unprotected_iff]
  intro h
  refine h [failingCall 0 1] (failingCall 2 3) [] rfl ⟨le_refl _, 1, rfl, ?_⟩
  exact WithTop.coe_lt_coe.mpr (by decide)

end ToolBreaker

end ArgusMcp
