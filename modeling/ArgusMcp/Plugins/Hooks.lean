import ArgusMcp.Plugins.Manager

/-!
# Hooks that keep state

The model of the manager in `Manager` takes a hook for a function of its context and keeps, of the
metadata, only the entries the chain reads. That is enough to follow what happens to the arguments
of a request. Here a hook may do whatever a coroutine may do: it reads and writes a *world*, which
holds the state of the plugins and the contents of all objects that several contexts share, it
may return something that is no context at all, and the metadata are the dictionary they are.
The two are compared in `Refinement`: they agree on everything but the metadata.

## What isolation means

A context is copied before a plugin gets it, and so what the plugin writes into the two
dictionaries of its copy is seen by the others only if it returns it. But the copy is shallow: the
objects in the dictionaries, and the result, are the same objects, and what is written into *them*
is in the world. What can be seen of a context therefore depends on the world, and `see` says how.

The manager is meant to be a fold over the hooks that complete, in which a plugin that fails
outside `enforce` mode leaves no trace (`fold`). It is one, except that it

* stores what a hook returned before it looks at it, so that something that is no context takes the
  place of the accumulated one and ends the run later,
* does not look at the arguments of a context at all, before it copies them for the next plugin,
* lets a `PluginError` of a hook through in every mode, and a cancellation, which is no `Exception`,
* and puts back, at the end, metadata that an earlier plugin returned and a later one removed.

`isolated_iff` says that these, and writing into shared objects, are the only ways in which
isolation fails.
-/

namespace ArgusMcp

namespace Hooks

/-! ## Contexts and plugins -/

/-- A value in the metadata of a request. -/
inductive MetaValue (O : Type) where
  | value (v : Value O)
  | user (u : UserIdentity)

/-- The truth value of what `metadata.get` returns. -/
def MetaValue.truthy {O : Type} [PyObject O] : Option (MetaValue O) → Bool
  | none => false
  | some (.value v) => v.truthy
  | some (.user _) => true

/-- What a hook is given and gives back, with all its metadata. -/
structure HookContext (O : Type) where
  capabilityName : String
  mcpMethod : McpMethod
  arguments : Arguments O
  serverName : String
  metadata : Dict String (MetaValue O)
  result : McpResult

structure PluginError where
  pluginName : String
  hook : String
  cause : String
  deriving DecidableEq, Repr

/-- What a hook may return instead of a context. A `PluginContext` counts as one if its arguments and
its metadata are dictionaries, as they are when it is made. -/
inductive NoContext (O : Type) where
  /-- An object of another class, one without metadata; `None`, for instance. -/
  | object (typeName : String)
  /-- The metadata have been set to something without `update`, which `dict` refuses with this
  text. -/
  | badMetadata (typeName refusal : String)
  /-- The arguments have been set to `None`. The rest is as in `ctx`. -/
  | noArguments (ctx : HookContext O)

/-- How a hook ends. -/
inductive HookReply (O : Type) where
  | context (ctx : HookContext O)
  | other (returned : NoContext O)
  /-- It takes too long, or raises a `TimeoutError` itself. -/
  | timesOut
  | raisesPluginError (e : PluginError)
  | raises (e : Exc)
  /-- It raises what is no `Exception`: a `CancelledError`, if it is cancelled. -/
  | raisesBase (className message : String)

/-- A loaded plugin, with the hooks it overrides. -/
structure Plugin (O W : Type) where
  config : PluginConfig O
  hook : Hook → Option (HookContext O → W → HookReply O × W)

/-- What leaves `run_hook` as an exception. -/
inductive HookExc where
  | pluginError (e : PluginError)
  | attributeError (typeName attr : String)
  /-- What `dict` says of something it cannot make a dictionary of. -/
  | refused (text : String)
  | base (className message : String)
  deriving DecidableEq, Repr

/-- The text of an `AttributeError`. -/
def attributeText (typeName attr : String) : String :=
  "'" ++ typeName ++ "' object has no attribute '" ++ attr ++ "'"

/-- The exception as the layers around the plugins see it. -/
def HookExc.toExc : HookExc → Exc
  | .pluginError e =>
    ⟨.pluginError, "Plugin '" ++ e.pluginName ++ "' failed in " ++ e.hook ++ ": " ++ e.cause⟩
  | .attributeError typeName attr => ⟨.other, attributeText typeName attr⟩
  | .refused text => ⟨.other, text⟩
  | .base _ message => ⟨.other, message⟩

/-- How `run_hook` ends, if not with a context: it raises, or what it returns has no arguments. -/
inductive HookEnd (O : Type) where
  | raised (e : HookExc)
  | noArguments (ctx : HookContext O)

variable {O W : Type}

/-- What `copy` raises for what is no context. -/
def NoContext.copyExc : NoContext O → HookExc
  | object typeName => .attributeError typeName "copy"
  | badMetadata _ refusal => .refused refusal
  | noArguments _ => .refused "'NoneType' object is not iterable"

def getByHook (registry : Dict String (Plugin O W)) (hook : Hook) : List (Plugin O W) :=
  ((registry.items.map Prod.snd).filter fun plugin ↦ (plugin.hook hook).isSome).mergeSort
    fun a b ↦ decide (a.config.priority ≤ b.config.priority)

/-! ## The manager -/

/-- The plugin is asked about a request: its conditions hold and it is not disabled. -/
def Plugin.applies (plugin : Plugin O W) (ctx : HookContext O) : Bool :=
  plugin.config.conditions.matches ctx.capabilityName ctx.serverName ctx.mcpMethod.text &&
    decide (plugin.config.executionMode ≠ .disabled)

/-- The local variables of the loop of `run_hook`: `accumulated`, which may have become something
that is no context, and `aggregated_metadata`. -/
structure Loop (O : Type) where
  accumulated : Except (NoContext O) (HookContext O)
  aggregatedMetadata : Dict String (MetaValue O)

/-- What a failure of the plugin does: in `enforce` mode it ends the run. -/
def Plugin.failed (plugin : Plugin O W) (hook : Hook) (cause : String) (acc : Loop O) :
    Except HookExc (Loop O) :=
  if plugin.config.executionMode = .enforce then
    .error (.pluginError ⟨plugin.config.name, hook.text, cause⟩)
  else .ok acc

/-- The end of the `try` block, for something that is no context: it has been assigned to
`accumulated` when reading the metadata raises. The arguments are not read. -/
def Plugin.accumulate (plugin : Plugin O W) (hook : Hook) (acc : Loop O) (returned : NoContext O) :
    Except HookExc (Loop O) :=
  match returned with
  | .object typeName =>
    plugin.failed hook (attributeText typeName "metadata")
      ⟨.error returned, acc.aggregatedMetadata⟩
  | .badMetadata _ refusal =>
    plugin.failed hook refusal ⟨.error returned, acc.aggregatedMetadata⟩
  | .noArguments ctx => .ok ⟨.error returned, acc.aggregatedMetadata.update ctx.metadata⟩

/-- One round of the loop of `run_hook`. The conditions are checked against the context of the
call, `ctx`. The copy the hook gets is the accumulated context itself: contexts are values here. -/
def runPlugin (hook : Hook) (ctx : HookContext O) (acc : Loop O) (w : W) (plugin : Plugin O W) :
    Except HookExc (Loop O) × W :=
  if plugin.applies ctx then
    match acc.accumulated with
    | .error returned => (.error returned.copyExc, w)
    | .ok c =>
      match plugin.hook hook with
      | none => (.ok acc, w)
      | some fn =>
        match fn c w with
        | (.context result, w) =>
          (.ok ⟨.ok result, acc.aggregatedMetadata.update result.metadata⟩, w)
        | (.other returned, w) => (plugin.accumulate hook acc returned, w)
        | (.timesOut, w) =>
          (plugin.failed hook ("timeout after " ++ plugin.config.timeout ++ "s") acc, w)
        | (.raisesPluginError e, w) => (.error (.pluginError e), w)
        | (.raises e, w) => (plugin.failed hook e.message acc, w)
        | (.raisesBase className message, w) => (.error (.base className message), w)
  else (.ok acc, w)

/-- The loop of `run_hook`. -/
def runPlugins (hook : Hook) (ctx : HookContext O) :
    List (Plugin O W) → Loop O → W → Except HookExc (Loop O) × W
  | [], acc, w => (.ok acc, w)
  | plugin :: plugins, acc, w =>
    match runPlugin hook ctx acc w plugin with
    | (.error e, w) => (.error e, w)
    | (.ok acc, w) => runPlugins hook ctx plugins acc w

/-- The end of `run_hook`: the metadata of all plugins are merged into the accumulated context. -/
def Loop.finish (acc : Loop O) : Except (HookEnd O) (HookContext O) :=
  match acc.accumulated with
  | .error (.object typeName) => .error (.raised (.attributeError typeName "metadata"))
  | .error (.badMetadata typeName _) => .error (.raised (.attributeError typeName "update"))
  | .error (.noArguments c) =>
    .error (.noArguments { c with metadata := c.metadata.update acc.aggregatedMetadata })
  | .ok c => .ok { c with metadata := c.metadata.update acc.aggregatedMetadata }

def runHook (registry : Dict String (Plugin O W)) (hook : Hook) (ctx : HookContext O) (w : W) :
    Except (HookEnd O) (HookContext O) × W :=
  let ran := runPlugins hook ctx (getByHook registry hook) ⟨.ok ctx, Dict.empty⟩ w
  ((ran.1.mapError .raised).bind Loop.finish, ran.2)

/-! ## The middleware -/

/-- The entries of the metadata that the layers around the plugins read. -/
def readMetadata (metadata : Dict String (MetaValue O)) : Metadata where
  user := match metadata.get? "user" with
    | some (.user u) => some u
    | _ => none
  userSubject := readText "user_subject"
  authToken := readText "auth_token"
  sessionId := readText "session_id"
  clientIp := readText "client_ip"
where
  readText (name : String) : Option String :=
    match metadata.get? name with
    | some (.value (.str s)) => some s
    | _ => none

/-- `_request_to_plugin_ctx`. -/
def toHookContext (ctx : RequestContext O) (metadata : Dict String (MetaValue O))
    (result : McpResult) : HookContext O where
  capabilityName := ctx.capabilityName
  mcpMethod := ctx.mcpMethod
  arguments := ctx.arguments.getD []
  serverName := ctx.serverName.getD ""
  metadata := metadata
  result := result

/-- What the middleware is given: a context, and what its arguments are, or an exception. -/
def received : Except (HookEnd O) (HookContext O) →
    Except Exc (HookContext O × Option (Arguments O))
  | .ok p => .ok (p, some p.arguments)
  | .error (.noArguments p) => .ok (p, none)
  | .error (.raised e) => .error e.toExc

/-- The rest of the chain. It does not touch the state of the plugins, but it takes time. -/
abbrev Handler (O W : Type) := RequestContext O → W → Handled O × W

/-- The hooks behind the rest of the chain, on the answer to a request. -/
def postHooked (registry : Dict String (Plugin O W)) (mcpMethod : McpMethod)
    (metadata : Dict String (MetaValue O)) (handled : Handled O) (w : W) : Handled O × W :=
  match handled.result, mcpMethod.postHook with
  | .ok result, some hook =>
    let (hooked, w) := runHook registry hook (toHookContext handled.ctx metadata result) w
    match received hooked with
    | .error e => ({ handled with result := .error e }, w)
    | .ok (p, arguments) =>
      ({ handled with
          ctx := { handled.ctx with
            arguments := arguments
            metadata := readMetadata (metadata.update p.metadata) }
          result := .ok p.result }, w)
  | _, _ => (handled, w)

/-- `PluginMiddleware.__call__`. The metadata are a part of the request. -/
def pluginMiddleware (registry : Dict String (Plugin O W)) (ctx : RequestContext O)
    (metadata : Dict String (MetaValue O)) (next : Handler O W) (w : W) : Handled O × W :=
  match ctx.mcpMethod.preHook with
  | none =>
    let (handled, w) := next ctx w
    postHooked registry ctx.mcpMethod metadata handled w
  | some hook =>
    let (hooked, w) := runHook registry hook (toHookContext ctx metadata .null) w
    match received hooked with
    | .error e => (.raise ctx e, w)
    | .ok (p, arguments) =>
      let metadata := metadata.update p.metadata
      let (handled, w) := next
        { ctx with arguments := arguments, metadata := readMetadata metadata } w
      postHooked registry ctx.mcpMethod metadata handled w

/-- `RoutingMiddleware` as the rest of the chain. -/
def routing (registry : Option RegistryState) (manager : Option (Dict String (Session O)))
    (pass : W → W) : Handler O W := fun ctx w ↦ (routingMiddleware registry manager ctx, pass w)

/-- The names in the metadata of a request when it comes to the plugins: those that the handlers and
the authentication layer write. -/
def requestKeys : List String :=
  ["user", "user_subject", "auth_token", "session_id", "client_ip", "auth_mode"]

/-- A tool call of a client, and what the routing layer has to work with when it comes. -/
structure ToolRequest (O : Type) where
  capabilityName : String
  arguments : Option (Arguments O)
  requestId : String
  metadata : Dict String (MetaValue O)
  keys_subset : ∀ name ∈ metadata.keys, name ∈ requestKeys
  registry : Option RegistryState
  manager : Option (Dict String (Session O))

theorem mem_requestKeys_of_mem_empty :
    ∀ name ∈ (Dict.empty : Dict String (MetaValue O)).keys, name ∈ requestKeys :=
  fun _ h ↦ absurd h List.not_mem_nil

/-- The context of the request. The server is not known yet. -/
def ToolRequest.ctx (request : ToolRequest O) : RequestContext O where
  capabilityName := request.capabilityName
  mcpMethod := .callTool
  arguments := request.arguments
  requestId := request.requestId
  serverName := none
  originalName := none
  metadata := readMetadata request.metadata
  error := none

/-- What routing makes of the request. -/
def ToolRequest.routed (request : ToolRequest O) : Handled O :=
  routingMiddleware request.registry request.manager request.ctx

/-- The middleware over routing, for a tool call. -/
def handle (plugins : Dict String (Plugin O W)) (pass : W → W) (request : ToolRequest O) (w : W) :
    Handled O × W :=
  pluginMiddleware plugins request.ctx request.metadata
    (routing request.registry request.manager pass) w

/-! ## What the manager is for -/

/-- The plugins are the loaded ones in the stable order of their priorities: sorted, and those of
one priority stand as they did among each other. -/
structure InPriorityOrder (loaded plugins : List (Plugin O W)) : Prop where
  sorted : plugins.Pairwise fun a b ↦ a.config.priority ≤ b.config.priority
  stable : ∀ n, (plugins.filter fun plugin ↦ decide (plugin.config.priority = n))
    = loaded.filter fun plugin ↦ decide (plugin.config.priority = n)

/-- The fold over the hooks that complete with a context. A plugin that fails is passed over, unless
its mode is `enforce`; then the fold ends with that plugin. -/
def fold (hook : Hook) (ctx : HookContext O) :
    List (Plugin O W) → HookContext O → W → Except (Plugin O W) (HookContext O)
  | [], c, _ => .ok c
  | plugin :: plugins, c, w =>
    if plugin.applies ctx then
      match plugin.hook hook with
      | none => fold hook ctx plugins c w
      | some fn =>
        match fn c w with
        | (.context result, w) => fold hook ctx plugins result w
        | (_, w) =>
          if plugin.config.executionMode = .enforce then .error plugin
          else fold hook ctx plugins c w
    else fold hook ctx plugins c w

/-- The run does what the fold does, and where the fold ends with a plugin it raises a `PluginError`
for that plugin. -/
def Agrees : Except (HookEnd O) (HookContext O) → Except (Plugin O W) (HookContext O) → Prop
  | .ok c, .ok c' => c = c'
  | .error (.raised (.pluginError e)), .error plugin => e.pluginName = plugin.config.name
  | _, _ => False

/-- One step of the loop, undefined where it raises. -/
def loopStep (hook : Hook) (ctx : HookContext O) (s : Loop O × W) (plugin : Plugin O W) :
    Option (Loop O × W) :=
  match runPlugin hook ctx s.1 s.2 plugin with
  | (.ok acc, w) => some (acc, w)
  | (.error _, _) => none

/-- The hook of the plugin is called with the context `c` in the world `w`, and this is what comes
of it. -/
def Replies (hook : Hook) (ctx : HookContext O) (plugin : Plugin O W) (c : HookContext O) (w : W)
    (reply : HookReply O × W) : Prop :=
  plugin.applies ctx = true ∧ ∃ fn, plugin.hook hook = some fn ∧ fn c w = reply

def HookReply.completes : HookReply O → Bool
  | .context _ => true
  | _ => false

section Isolation

variable {X : Type} (see : W → HookContext O → X) (hook : Hook) (ctx : HookContext O)

/-- If the plugin fails here, and its mode is not `enforce`, then nothing that can be seen of what
was accumulated has changed. -/
def LeavesNoTrace (s : Loop O × W) (plugin : Plugin O W) : Prop :=
  ∀ c reply w', s.1.accumulated = .ok c → Replies hook ctx plugin c s.2 (reply, w') →
    reply.completes = false → plugin.config.executionMode ≠ .enforce →
      runPlugin hook ctx s.1 s.2 plugin = (.ok s.1, w') ∧ see w' c = see s.2 c

/-- No plugin that the loop comes to and that fails leaves a trace. -/
def NoTraces (s : Loop O × W) (plugins : List (Plugin O W)) : Prop :=
  ∀ m plugin post, Run.Visits (loopStep hook ctx) s plugins m plugin post →
    LeavesNoTrace see hook ctx m plugin

/-- What is expected of a run of a hook. -/
structure Isolated (registry : Dict String (Plugin O W)) (w : W) : Prop where
  ordered : InPriorityOrder
    ((registry.items.map Prod.snd).filter fun plugin ↦ (plugin.hook hook).isSome)
    (getByHook registry hook)
  agrees : Agrees (runHook registry hook ctx w).1 (fold hook ctx (getByHook registry hook) ctx w)
  noTraces : NoTraces see hook ctx (⟨.ok ctx, Dict.empty⟩, w) (getByHook registry hook)

end Isolation

/-! ## The order of the plugins -/

section

variable {hook : Hook} {ctx c : HookContext O} {plugin : Plugin O W} {acc : Loop O} {w : W}

theorem runPlugin_of_not_applies (h : plugin.applies ctx = false) :
    runPlugin hook ctx acc w plugin = (.ok acc, w) := by
  rw [runPlugin, h]
  rfl

theorem runPlugin_of_hook_none (hacc : acc.accumulated = .ok c) (h : plugin.hook hook = none) :
    runPlugin hook ctx acc w plugin = (.ok acc, w) := by
  rw [runPlugin, hacc]
  split
  · dsimp only
    rw [h]
  · rfl

/-- What the manager makes of the reply of a hook. -/
def Plugin.settle (plugin : Plugin O W) (hook : Hook) (acc : Loop O) :
    HookReply O → Except HookExc (Loop O)
  | .context result => .ok ⟨.ok result, acc.aggregatedMetadata.update result.metadata⟩
  | .other returned => plugin.accumulate hook acc returned
  | .timesOut => plugin.failed hook ("timeout after " ++ plugin.config.timeout ++ "s") acc
  | .raisesPluginError e => .error (.pluginError e)
  | .raises e => plugin.failed hook e.message acc
  | .raisesBase className message => .error (.base className message)

theorem runPlugin_of_replies (hacc : acc.accumulated = .ok c) {reply : HookReply O} {w' : W}
    (h : Replies hook ctx plugin c w (reply, w')) :
    runPlugin hook ctx acc w plugin = (plugin.settle hook acc reply, w') := by
  obtain ⟨happlies, fn, hfn, hreply⟩ := h
  rw [runPlugin, if_pos happlies, hacc]
  dsimp only
  rw [hfn]
  dsimp only
  rw [hreply]
  rcases reply with _ | _ | _ | _ | _ | _
  all_goals rfl

theorem passed_or_replies (hook : Hook) (ctx c : HookContext O) (plugin : Plugin O W) (w : W) :
    (plugin.applies ctx = false ∨ plugin.hook hook = none) ∨
      ∃ reply w', Replies hook ctx plugin c w (reply, w') := by
  rcases happlies : plugin.applies ctx with _ | _
  · exact .inl (.inl rfl)
  · rcases hfn : plugin.hook hook with _ | fn
    · exact .inl (.inr rfl)
    · exact .inr ⟨(fn c w).1, (fn c w).2, happlies, fn, hfn, rfl⟩

theorem runPlugins_cons (plugins : List (Plugin O W)) :
    runPlugins hook ctx (plugin :: plugins) acc w
      = match runPlugin hook ctx acc w plugin with
        | (.error e, w) => (.error e, w)
        | (.ok acc, w) => runPlugins hook ctx plugins acc w := rfl

section

variable {X : Type} {see : W → HookContext O → X} {names : List String}

/-- What the loop knows: the accumulated context, and, of the metadata that have been returned, for
each name the value it was given last. -/
structure Tracks (names : List String) (acc : Loop O) (c : HookContext O) : Prop where
  accumulated : acc.accumulated = .ok c
  mem_iff : ∀ name, name ∈ names ↔ (acc.aggregatedMetadata.get? name).isSome
  value : ∀ name v, acc.aggregatedMetadata.get? name = some v →
    c.metadata.get? name = some v ∨ c.metadata.get? name = none

theorem Tracks.returns (h : Tracks names acc c) (result : HookContext O) :
    Tracks (names ++ result.metadata.keys)
      ⟨.ok result, acc.aggregatedMetadata.update result.metadata⟩ result where
  accumulated := rfl
  mem_iff := by
    intro name
    rw [List.mem_append, h.mem_iff, Dict.mem_keys_iff, Dict.get?_update, Option.isSome_or,
      ← Option.isSome_iff_exists, Bool.or_eq_true, or_comm]
  value := by
    intro name v hv
    rw [Dict.get?_update, Option.or_eq_some_iff] at hv
    exact hv.imp id And.left

end

end

/-! ## Hooks that do nothing -/

section

variable {hook : Hook} {ctx : HookContext O} {plugins : List (Plugin O W)}

theorem runPlugins_of_unmoved (h : ∀ plugin ∈ plugins, ∀ fn, plugin.hook hook = some fn →
      ∀ w, fn ctx w = (.context ctx, w)) (w : W) {metadata : Dict String (MetaValue O)}
    (hmetadata : ∀ k v, metadata.get? k = some v → ctx.metadata.get? k = some v) :
    ∃ metadata', runPlugins hook ctx plugins ⟨.ok ctx, metadata⟩ w = (.ok ⟨.ok ctx, metadata'⟩, w) ∧
      ∀ k v, metadata'.get? k = some v → ctx.metadata.get? k = some v := by
  induction plugins generalizing metadata with
  | nil => exact ⟨metadata, rfl, hmetadata⟩
  | cons plugin plugins ih =>
    have hrest := fun p hp ↦ h p (List.mem_cons_of_mem plugin hp)
    rw [runPlugins_cons]
    rcases passed_or_replies hook ctx ctx plugin w with hpassed | ⟨reply, w', hreply⟩
    · have hrun : runPlugin hook ctx ⟨.ok ctx, metadata⟩ w plugin = (.ok ⟨.ok ctx, metadata⟩, w) :=
        hpassed.elim runPlugin_of_not_applies (runPlugin_of_hook_none rfl)
      rw [hrun]
      exact ih hrest hmetadata
    · obtain ⟨happlies, fn, hfn, hval⟩ := hreply
      have hunmoved := h plugin List.mem_cons_self fn hfn w
      rw [runPlugin_of_replies rfl ⟨happlies, fn, hfn, hunmoved⟩]
      refine ih hrest fun k v hv ↦ ?_
      rw [Dict.get?_update, Option.or_eq_some_iff] at hv
      exact hv.elim id fun hv ↦ hmetadata k v hv.2

theorem runHook_of_unmoved {registry : Dict String (Plugin O W)}
    (h : ∀ plugin ∈ getByHook registry hook, ∀ fn, plugin.hook hook = some fn →
      ∀ w, fn ctx w = (.context ctx, w)) (w : W) : runHook registry hook ctx w = (.ok ctx, w) := by
  have hempty : ∀ k v, (Dict.empty : Dict String (MetaValue O)).get? k = some v →
      ctx.metadata.get? k = some v := fun k v hv ↦ absurd hv (by simp)
  obtain ⟨metadata, hrun, hmetadata⟩ := runPlugins_of_unmoved h w hempty
  rw [runHook, hrun]
  dsimp only [Except.mapError, Except.bind, Loop.finish]
  rw [Dict.update_eq_self_iff.mpr hmetadata]

theorem runPlugins_snd (h : ∀ plugin ∈ plugins, ∀ fn, plugin.hook hook = some fn →
      ∀ c w, (fn c w).2 = w) (acc : Loop O) (w : W) :
    (runPlugins hook ctx plugins acc w).2 = w := by
  induction plugins generalizing acc with
  | nil => rfl
  | cons plugin plugins ih =>
    have hstep : (runPlugin hook ctx acc w plugin).2 = w := by
      rcases hacc : acc.accumulated with typeName | c
      · rw [runPlugin, hacc]
        split
        · rfl
        · rfl
      · rcases passed_or_replies hook ctx c plugin w with hpassed | ⟨reply, w', hreply⟩
        · rw [hpassed.elim runPlugin_of_not_applies (runPlugin_of_hook_none hacc)]
        · rw [runPlugin_of_replies hacc hreply]
          obtain ⟨-, fn, hfn, hval⟩ := hreply
          have hworld := h plugin List.mem_cons_self fn hfn c w
          rwa [hval] at hworld
    rw [runPlugins_cons]
    generalize runPlugin hook ctx acc w plugin = ran at hstep ⊢
    rcases ran with ⟨e | acc', w'⟩
    · exact hstep
    · obtain rfl : w' = w := hstep
      exact ih (fun p hp ↦ h p (List.mem_cons_of_mem plugin hp)) acc'

end

/-! ## Tool calls -/

/-- The request as the pre-hooks leave it. -/
def ToolRequest.passed (request : ToolRequest O) (p : HookContext O) : RequestContext O :=
  { request.ctx with
    arguments := some p.arguments
    metadata := readMetadata (request.metadata.update p.metadata) }

/-- What routing makes of it then. -/
def ToolRequest.routedAs (request : ToolRequest O) (p : HookContext O) : Handled O :=
  routingMiddleware request.registry request.manager (request.passed p)

/-- The context of the hooks behind the call. -/
def ToolRequest.answered (request : ToolRequest O) (p : HookContext O) (result : McpResult) :
    HookContext O :=
  toHookContext (request.routedAs p).ctx (request.metadata.update p.metadata) result

theorem ToolRequest.get?_metadata_of_notMem (request : ToolRequest O) {name : String}
    (h : name ∉ requestKeys) : request.metadata.get? name = none := by
  rcases hname : request.metadata.get? name with _ | v
  · rfl
  · exact absurd (request.keys_subset name (Dict.mem_keys_iff.mpr ⟨v, hname⟩)) h

theorem ToolRequest.routedAs_of_arguments (request : ToolRequest O) {p : HookContext O}
    (h : p.arguments = request.arguments.getD []) :
    (request.routedAs p).calls = request.routed.calls ∧
      (request.routedAs p).result = request.routed.result := by
  have hname : (request.passed p).capabilityName = request.ctx.capabilityName := rfl
  rw [routedAs, routed]
  rcases request.registry with _ | registry
  · exact ⟨rfl, rfl⟩
  rcases request.manager with _ | manager
  · exact ⟨rfl, rfl⟩
  rw [routingMiddleware, routingMiddleware, hname]
  rcases registry.resolveCapability request.ctx.capabilityName with _ | ⟨svrName, origCapName⟩
  · exact ⟨rfl, rfl⟩
  dsimp only
  rcases manager.get? svrName with _ | session
  · exact ⟨rfl, rfl⟩
  · dsimp only [passed, ctx]
    rw [Option.getD_some, h]
    exact ⟨rfl, rfl⟩

theorem ToolRequest.calls_ne_nil (request : ToolRequest O) {result : McpResult}
    (h : request.routed.result = .ok result) : request.routed.calls ≠ [] := by
  rw [ToolRequest.routed] at h ⊢
  generalize request.registry = registry at h ⊢
  generalize request.manager = manager at h ⊢
  rcases registry with _ | registry
  · exact absurd h (by simp [routingMiddleware, Handled.raise])
  rcases manager with _ | manager
  · exact absurd h (by simp [routingMiddleware, Handled.raise])
  rw [routingMiddleware] at h ⊢
  rcases hroute : registry.resolveCapability request.ctx.capabilityName
    with _ | ⟨svrName, origCapName⟩
  · rw [hroute] at h
    exact absurd h (by simp [Handled.raise])
  rw [hroute] at h
  dsimp only at h ⊢
  rcases hsession : manager.get? svrName with _ | session
  · rw [hsession] at h
    exact absurd h (by simp [Handled.raise])
  · exact List.cons_ne_nil _ _

section

variable {plugins : Dict String (Plugin O W)} {request : ToolRequest O} {w w' : W}
  {p : HookContext O} (pass : W → W)
  (hpre : runHook plugins .toolPreInvoke (toHookContext request.ctx request.metadata .null) w
    = (.ok p, w'))

include hpre

theorem handle_of_preHook :
    handle plugins pass request w = postHooked plugins .callTool
      (request.metadata.update p.metadata) (request.routedAs p) (pass w') := by
  have hhook : request.ctx.mcpMethod.preHook = some .toolPreInvoke := rfl
  rw [handle, pluginMiddleware, hhook]
  dsimp only
  rw [hpre]
  rfl

theorem handle_of_error {e : Exc} (hrouted : (request.routedAs p).result = .error e) :
    handle plugins pass request w = (request.routedAs p, pass w') := by
  rw [handle_of_preHook pass hpre]
  unfold postHooked
  rw [hrouted]

theorem handle_of_ok {result : McpResult} (hrouted : (request.routedAs p).result = .ok result)
    {hooked : Except (HookEnd O) (HookContext O)} {w'' : W}
    (hpost : runHook plugins .toolPostInvoke (request.answered p result) (pass w')
      = (hooked, w'')) :
    (handle plugins pass request w).2 = w'' ∧
      (handle plugins pass request w).1.calls = (request.routedAs p).calls ∧
        (handle plugins pass request w).1.result
          = (received hooked).map fun p ↦ p.1.result := by
  rw [handle_of_preHook pass hpre]
  unfold postHooked
  dsimp only [McpMethod.postHook]
  rw [hrouted]
  dsimp only
  rw [ToolRequest.answered] at hpost
  rw [hpost]
  rcases received hooked with e | p₂
  · exact ⟨rfl, rfl, rfl⟩
  · exact ⟨rfl, rfl, rfl⟩

end

/-! ## One plugin alone -/

section

variable {name : String} {plugin : Plugin O W} {hook : Hook} {ctx : HookContext O} {w : W}

theorem getByHook_single (h : (plugin.hook hook).isSome = true) :
    getByHook (Dict.ofList [(name, plugin)]) hook = [plugin] := by
  have hfilter : (((Dict.ofList [(name, plugin)]).items.map Prod.snd).filter
      fun plugin ↦ (plugin.hook hook).isSome) = [plugin] := List.filter_cons_of_pos h
  rw [getByHook, hfilter]
  exact List.mergeSort_singleton plugin

theorem runHook_single_of_passed (h : plugin.applies ctx = false) :
    runHook (Dict.ofList [(name, plugin)]) hook ctx w = (.ok ctx, w) := by
  rcases hfn : (plugin.hook hook).isSome with _ | _
  · have hfilter : (((Dict.ofList [(name, plugin)]).items.map Prod.snd).filter
        fun plugin ↦ (plugin.hook hook).isSome) = [] :=
      List.filter_cons_of_neg (by rw [hfn]; exact Bool.false_ne_true)
    rw [runHook, getByHook, hfilter, List.mergeSort_nil]
    rfl
  · rw [runHook, getByHook_single hfn, runPlugins_cons, runPlugin_of_not_applies h]
    rfl

theorem runHook_single_of_replies {reply : HookReply O} {w' : W}
    (h : Replies hook ctx plugin ctx w (reply, w')) :
    runHook (Dict.ofList [(name, plugin)]) hook ctx w
      = (((plugin.settle hook ⟨.ok ctx, Dict.empty⟩ reply).mapError .raised).bind Loop.finish,
        w') := by
  obtain ⟨-, fn, hfn, -⟩ := id h
  have hsome : (plugin.hook hook).isSome = true := by
    rw [hfn]
    rfl
  rw [runHook, getByHook_single hsome, runPlugins_cons, runPlugin_of_replies rfl h]
  rcases plugin.settle hook ⟨.ok ctx, Dict.empty⟩ reply with e | acc
  · rfl
  · rfl

theorem runHook_single_of_context {c : HookContext O} {w' : W}
    (h : Replies hook ctx plugin ctx w (.context c, w')) :
    runHook (Dict.ofList [(name, plugin)]) hook ctx w = (.ok c, w') := by
  have hmerged : c.metadata.update (Dict.empty.update c.metadata) = c.metadata := by
    rw [Dict.update_eq_self_iff]
    intro k v hv
    rwa [Dict.get?_update, Dict.get?_empty, Option.or_none] at hv
  rw [runHook_single_of_replies h, Plugin.settle, Except.mapError, Except.bind, Loop.finish]
  dsimp only
  rw [hmerged]

end

end Hooks

end ArgusMcp
