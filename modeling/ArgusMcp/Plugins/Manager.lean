import ArgusMcp.Bridge.Middleware
import Mathlib.Data.List.Sort

/-!
# Plugins

A plugin may look at a request before it goes to a backend and at the answer when it comes back. The
manager runs the plugins of a hook in the order of their priorities; each gets a copy of what the
ones before it have left behind, and what it returns is kept only if it returns in time. What a
failure means depends on the execution mode of the plugin: in `enforce` mode the request fails, in
all others the failure is logged and the run goes on as if the plugin had not been there.

The modules modelled are `plugins/models.py`, `plugins/base.py`, `plugins/registry.py`,
`plugins/manager.py` and `plugins/middleware.py`. What a hook does is a function of the context it
is given; a hook that writes into the values of the arguments in place, past the copy, is not
covered. Of the metadata only the entries that the chain reads are kept.
-/

namespace ArgusMcp

/-! ## Configuration -/

/-- The hooks a plugin may define. -/
inductive Hook where
  | toolPreInvoke
  | toolPostInvoke
  | resourcePreFetch
  | resourcePostFetch
  | promptPreFetch
  | promptPostFetch
  deriving DecidableEq, Repr

/-- The name of the method. -/
def Hook.text : Hook → String
  | toolPreInvoke => "tool_pre_invoke"
  | toolPostInvoke => "tool_post_invoke"
  | resourcePreFetch => "resource_pre_fetch"
  | resourcePostFetch => "resource_post_fetch"
  | promptPreFetch => "prompt_pre_fetch"
  | promptPostFetch => "prompt_post_fetch"

/-- How plugin errors affect request processing. -/
inductive ExecutionMode where
  | enforce
  | enforceIgnoreError
  | permissive
  | disabled
  deriving DecidableEq, Repr

/-- When a hook should fire. An empty list matches all. -/
structure PluginCondition where
  servers : List String
  tools : List String
  mcpMethods : List String

structure PluginConfig (O : Type) where
  name : String
  enabled : Bool
  executionMode : ExecutionMode
  priority : ℕ
  /-- The number of seconds a hook may take, as it is written in messages. -/
  timeout : String
  conditions : PluginCondition
  settings : List (String × Value O)

/-- Top-level plugins section of the configuration. -/
structure PluginsConfig (O : Type) where
  enabled : Bool
  entries : List (PluginConfig O)

/-! ## Plugins -/

/-- What a hook is given and gives back. -/
structure PluginContext (O : Type) where
  capabilityName : String
  mcpMethod : McpMethod
  arguments : Arguments O
  serverName : String
  metadata : Metadata
  /-- The answer of the backend, `null` before there is one. -/
  result : McpResult

/-- How a hook ends. -/
inductive HookOutcome (O : Type) where
  | returns (ctx : PluginContext O)
  | timesOut
  /-- A `PluginError` of its own. -/
  | raisesPluginError (e : Exc)
  | raises (e : Exc)

/-- A loaded plugin, with the hooks it overrides. -/
structure Plugin (O : Type) where
  config : PluginConfig O
  hook : Hook → Option (PluginContext O → HookOutcome O)

variable {O : Type}

/-- The loaded plugins under their names. -/
abbrev PluginRegistry (O : Type) := Dict String (Plugin O)

namespace PluginRegistry

/-- One round of `load_from_config`: an entry that is disabled or has no registered class is passed
over; the constructor of a class may raise. -/
def loadEntry (classes : String → Option (PluginConfig O → Except Exc (Plugin O)))
    (registry : PluginRegistry O) (entry : PluginConfig O) : Except Exc (PluginRegistry O) :=
  if entry.enabled then
    match classes entry.name with
    | none => .ok registry
    | some cls => (cls entry).map fun plugin ↦ registry.set entry.name plugin
  else .ok registry

def loadFromConfig (classes : String → Option (PluginConfig O → Except Exc (Plugin O)))
    (entries : List (PluginConfig O)) : Except Exc (PluginRegistry O) :=
  entries.foldlM (loadEntry classes) Dict.empty

/-- `get_by_hook`: the plugins that override the hook, sorted by priority; the sort is stable. -/
def getByHook (registry : PluginRegistry O) (hook : Hook) : List (Plugin O) :=
  ((registry.items.map Prod.snd).filter fun plugin ↦ (plugin.hook hook).isSome).mergeSort
    fun a b ↦ decide (a.config.priority ≤ b.config.priority)

end PluginRegistry

/-! ## The manager -/

def pluginError (pluginName : String) (hook : Hook) (cause : String) : Exc :=
  ⟨.pluginError, "Plugin '" ++ pluginName ++ "' failed in " ++ hook.text ++ ": " ++ cause⟩

/-- `_matches_conditions`. -/
def PluginCondition.matches (c : PluginCondition) (capabilityName serverName mcpMethod : String) :
    Bool :=
  (c.servers.isEmpty || decide (serverName ∈ c.servers)) &&
    (c.tools.isEmpty || decide (capabilityName ∈ c.tools)) &&
      (c.mcpMethods.isEmpty || decide (mcpMethod ∈ c.mcpMethods))

/-- The plugin is asked about a request: its conditions hold and it is not disabled. -/
def Plugin.applies (plugin : Plugin O) (ctx : PluginContext O) : Bool :=
  plugin.config.conditions.matches ctx.capabilityName ctx.serverName ctx.mcpMethod.text &&
    decide (plugin.config.executionMode ≠ .disabled)

/-- No entries. -/
def Metadata.empty : Metadata := ⟨none, none, none, none, none⟩

/-- `m.update(other)`. -/
def Metadata.update (m other : Metadata) : Metadata where
  user := other.user.orElse fun _ ↦ m.user
  userSubject := other.userSubject.orElse fun _ ↦ m.userSubject
  authToken := other.authToken.orElse fun _ ↦ m.authToken
  sessionId := other.sessionId.orElse fun _ ↦ m.sessionId
  clientIp := other.clientIp.orElse fun _ ↦ m.clientIp

/-- What a failure of the plugin does to the run: in `enforce` mode it ends it, otherwise what was
accumulated before stays. -/
def Plugin.failed (plugin : Plugin O) (hook : Hook) (cause : String) {α : Type} (acc : α) :
    Except Exc α :=
  if plugin.config.executionMode = .enforce then
    .error (pluginError plugin.config.name hook cause)
  else .ok acc

/-- One round of the loop of `run_hook`. It carries the accumulated context and the aggregated
metadata; the conditions are checked against the context of the call, `ctx`. -/
def runPlugin (hook : Hook) (ctx : PluginContext O) (acc : PluginContext O × Metadata)
    (plugin : Plugin O) : Except Exc (PluginContext O × Metadata) :=
  if plugin.applies ctx then
    match plugin.hook hook with
    | none => .ok acc
    | some fn =>
      match fn acc.1 with
      | .returns result => .ok (result, acc.2.update result.metadata)
      | .timesOut => plugin.failed hook ("timeout after " ++ plugin.config.timeout ++ "s") acc
      | .raisesPluginError e => .error e
      | .raises e => plugin.failed hook e.message acc
  else .ok acc

/-- The loop of `run_hook`. -/
def runPlugins (hook : Hook) (ctx : PluginContext O) (plugins : List (Plugin O))
    (acc : PluginContext O × Metadata) : Except Exc (PluginContext O × Metadata) :=
  plugins.foldlM (runPlugin hook ctx) acc

def runHook (registry : PluginRegistry O) (hook : Hook) (ctx : PluginContext O) :
    Except Exc (PluginContext O) :=
  (runPlugins hook ctx (registry.getByHook hook) (ctx, .empty)).map fun acc ↦
    { acc.1 with metadata := acc.1.metadata.update acc.2 }

/-! ## The middleware -/

/-- `_PRE_HOOKS`. -/
def McpMethod.preHook : McpMethod → Option Hook
  | .callTool => some .toolPreInvoke
  | .readResource => some .resourcePreFetch
  | .getPrompt => some .promptPreFetch
  | .unsupported _ => none

/-- `_POST_HOOKS`. -/
def McpMethod.postHook : McpMethod → Option Hook
  | .callTool => some .toolPostInvoke
  | .readResource => some .resourcePostFetch
  | .getPrompt => some .promptPostFetch
  | .unsupported _ => none

/-- `_request_to_plugin_ctx`. -/
def RequestContext.toPluginContext (ctx : RequestContext O) (result : McpResult) :
    PluginContext O where
  capabilityName := ctx.capabilityName
  mcpMethod := ctx.mcpMethod
  arguments := ctx.arguments.getD []
  serverName := ctx.serverName.getD ""
  metadata := ctx.metadata
  result := result

/-- `_apply_plugin_ctx`. -/
def RequestContext.applyPluginContext (ctx : RequestContext O) (p : PluginContext O) :
    RequestContext O :=
  { ctx with
    arguments := some p.arguments
    metadata := ctx.metadata.update p.metadata }

/-- The request as the pre-hooks leave it, or the exception one of them raised. -/
def preHooked (registry : PluginRegistry O) (ctx : RequestContext O) :
    Except Exc (RequestContext O) :=
  match ctx.mcpMethod.preHook with
  | none => .ok ctx
  | some hook => (runHook registry hook (ctx.toPluginContext .null)).map ctx.applyPluginContext

/-- The post-hooks, on the answer to a request. -/
def postHooked (registry : PluginRegistry O) (mcpMethod : McpMethod) (handled : Handled O)
    (result : McpResult) : Handled O :=
  match mcpMethod.postHook with
  | none => handled
  | some hook =>
    match runHook registry hook (handled.ctx.toPluginContext result) with
    | .error e => { handled with result := .error e }
    | .ok p => { handled with ctx := handled.ctx.applyPluginContext p, result := .ok p.result }

/-- Runs the hooks before and after the rest of the chain. -/
def pluginMiddleware (registry : PluginRegistry O) : MCPMiddleware O where
  name := "PluginMiddleware"
  call := fun ctx next ↦
    match preHooked registry ctx with
    | .error e => .raise ctx e
    | .ok ctx' =>
      let handled := next ctx'
      match handled.result with
      | .error _ => handled
      | .ok result => postHooked registry ctx.mcpMethod handled result

/-! ## The plugins that run -/

theorem PluginCondition.matches_eq_true_iff {c : PluginCondition}
    {capabilityName serverName mcpMethod : String} :
    c.matches capabilityName serverName mcpMethod = true ↔
      (c.servers = [] ∨ serverName ∈ c.servers) ∧ (c.tools = [] ∨ capabilityName ∈ c.tools) ∧
        (c.mcpMethods = [] ∨ mcpMethod ∈ c.mcpMethods) := by
  rw [PluginCondition.matches]
  simp only [Bool.and_eq_true, Bool.or_eq_true, List.isEmpty_iff, decide_eq_true_eq, and_assoc]

section

variable {classes : String → Option (PluginConfig O → Except Exc (Plugin O))} {name : String}
  {cls : PluginConfig O → Plugin O}
  (hclass : classes name = some fun config ↦ .ok (cls config))

include hclass

end

/-- What one plugin makes of a context; the metadata that are aggregated play no part in it. -/
def passPlugin (hook : Hook) (ctx c : PluginContext O) (plugin : Plugin O) :
    Except Exc (PluginContext O) :=
  (runPlugin hook ctx (c, .empty) plugin).map Prod.fst

def passPlugins (hook : Hook) (ctx : PluginContext O) (plugins : List (Plugin O))
    (c : PluginContext O) : Except Exc (PluginContext O) :=
  plugins.foldlM (passPlugin hook ctx) c

theorem passPlugins_cons (hook : Hook) (ctx : PluginContext O) (plugin : Plugin O)
    (plugins : List (Plugin O)) (c : PluginContext O) :
    passPlugins hook ctx (plugin :: plugins) c
      = (passPlugin hook ctx c plugin).bind (passPlugins hook ctx plugins) :=
  List.foldlM_cons ..

theorem preHooked_eq_ok {registry : PluginRegistry O} {ctx ctx' : RequestContext O}
    (h : preHooked registry ctx = .ok ctx') : ctx'.capabilityName = ctx.capabilityName ∧
      ctx'.mcpMethod = ctx.mcpMethod ∧ ctx'.requestId = ctx.requestId ∧
      ctx'.error = ctx.error := by
  rw [preHooked] at h
  rcases hhook : ctx.mcpMethod.preHook with _ | hook
  · rw [hhook, Except.ok.injEq] at h
    rw [h]
    exact ⟨rfl, rfl, rfl, rfl⟩
  · rw [hhook] at h
    obtain ⟨p, -, rfl⟩ := map_eq_ok_iff.mp h
    exact ⟨rfl, rfl, rfl, rfl⟩

theorem postHooked_calls (registry : PluginRegistry O) (mcpMethod : McpMethod)
    (handled : Handled O) (result : McpResult) :
    (postHooked registry mcpMethod handled result).calls = handled.calls ∧
      (postHooked registry mcpMethod handled result).events = handled.events := by
  rw [postHooked]
  split
  · exact ⟨rfl, rfl⟩
  · split
    · exact ⟨rfl, rfl⟩
    · exact ⟨rfl, rfl⟩

/-- **What the plugins let through**: nothing, if a pre-hook ends the request, and otherwise what
the rest of the chain does with the request as the pre-hooks leave it. -/
theorem pluginMiddleware_calls (registry : PluginRegistry O) (ctx : RequestContext O)
    (next : MCPHandler O) :
    ((pluginMiddleware registry).call ctx next).calls = (match preHooked registry ctx with
      | .error _ => []
      | .ok ctx' => (next ctx').calls) ∧
    ((pluginMiddleware registry).call ctx next).events = (match preHooked registry ctx with
      | .error _ => []
      | .ok ctx' => (next ctx').events) := by
  rw [pluginMiddleware]
  dsimp only
  rcases preHooked registry ctx with e | ctx'
  · exact ⟨rfl, rfl⟩
  · dsimp only
    rcases (next ctx').result with e | result
    · exact ⟨rfl, rfl⟩
    · exact postHooked_calls registry ctx.mcpMethod (next ctx') result

end ArgusMcp
