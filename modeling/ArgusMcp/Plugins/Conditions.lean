import ArgusMcp.Plugins.Hooks
import ArgusMcp.Server.Lifespan

/-!
# Which plugins a request concerns

A plugin may be limited to some servers. What server a request is for is known to the routing layer
alone, which is behind all others, and which writes it into the context of the request. The hooks
behind the call find it there. The hooks before the call look for it in the same place, where
nothing has been written yet, and so the conditions of one plugin are checked against two names:
the empty one first, and then the name of the server.

`conditionsRespected_iff` says when this makes no difference. It does not for a plugin that is
limited to servers the request is not routed to, or that some other condition keeps away; and it
does for every request that gets an answer, unless the server has the empty name.
-/

namespace ArgusMcp

namespace Hooks

variable {O W : Type}

/-! ## Hooks that are called -/

section

variable (plugins : Dict String (Plugin O W)) (hook : Hook) (ctx : HookContext O) (w : W)
  (plugin : Plugin O W)

/-- The loop of `run_hook` comes to the plugin, with a context to give it. -/
def Reached : Prop :=
  ∃ m c post, Run.Visits (loopStep hook ctx) (⟨.ok ctx, Dict.empty⟩, w) (getByHook plugins hook)
    m plugin post ∧ m.1.accumulated = .ok c

/-- The loop calls the hook of the plugin. -/
def Called : Prop :=
  ∃ m c post reply, Run.Visits (loopStep hook ctx) (⟨.ok ctx, Dict.empty⟩, w)
    (getByHook plugins hook) m plugin post ∧ m.1.accumulated = .ok c ∧
      Replies hook ctx plugin c m.2 reply

end

section

variable {plugins : Dict String (Plugin O W)} {hook : Hook} {ctx : HookContext O} {w : W}
  {plugin : Plugin O W}

theorem isSome_of_mem_getByHook (h : plugin ∈ getByHook plugins hook) :
    (plugin.hook hook).isSome = true := by
  rw [getByHook, List.mem_mergeSort, List.mem_filter] at h
  exact h.2

/-- Whether the hook of a plugin is called, once the loop comes to it, is a matter of the context
of the call. -/
theorem called_iff_of_reached (h : Reached plugins hook ctx w plugin) :
    Called plugins hook ctx w plugin ↔ plugin.applies ctx = true := by
  constructor
  · rintro ⟨_, _, _, _, _, _, happlies, _⟩
    exact happlies
  · intro happlies
    obtain ⟨m, c, post, hv, hacc⟩ := h
    obtain ⟨before, hsplit⟩ := hv.exists_split
    have hmem : plugin ∈ getByHook plugins hook :=
      hsplit ▸ List.mem_append_right before List.mem_cons_self
    obtain ⟨fn, hfn⟩ := Option.isSome_iff_exists.mp (isSome_of_mem_getByHook hmem)
    exact ⟨m, c, post, fn c m.2, hv, hacc, happlies, fn, hfn, rfl⟩

end

/-! ## Conditions -/

section

variable (plugins : Dict String (Plugin O W)) (registry : RegistryState)
  (manager : Dict String (Session O)) (ctx : RequestContext O)
  (metadata : Dict String (MetaValue O)) (w : W)

def RoutedInto (servers : List String) : Prop :=
  ∃ svrName origCapName,
    registry.resolveCapability ctx.capabilityName = some (svrName, origCapName) ∧
      svrName ∈ servers

/-- The other two conditions of the plugin hold for the request. -/
def OtherwiseConcerned (plugin : Plugin O W) : Prop :=
  plugin.config.executionMode ≠ .disabled ∧
    (plugin.config.conditions.tools = [] ∨ ctx.capabilityName ∈ plugin.config.conditions.tools) ∧
      (plugin.config.conditions.mcpMethods = [] ∨
        ctx.mcpMethod.text ∈ plugin.config.conditions.mcpMethods)

/-- The context of the post-hooks, if the request gets that far: the pre-hooks let it through, and
the routing layer returns an answer. -/
def postContext (hook : Hook) : Option (HookContext O) :=
  match received (runHook plugins hook (toHookContext ctx metadata .null) w).1 with
  | .error _ => none
  | .ok (p, arguments) =>
    let metadata := metadata.update p.metadata
    let handled := routingMiddleware (some registry) (some manager)
      { ctx with arguments := arguments, metadata := readMetadata metadata }
    match handled.result with
    | .error _ => none
    | .ok result => some (toHookContext handled.ctx metadata result)

/-- The request is answered, and its answer goes through the post-hooks. -/
def Answered : Prop :=
  ∃ hook c, ctx.mcpMethod.preHook = some hook ∧
    postContext plugins registry manager ctx metadata w hook = some c

/-- The conditions on servers mean the server the request is routed to, before the call and behind
it. -/
structure ConditionsRespected : Prop where
  called_iff : ∀ hook plugin, ctx.mcpMethod.preHook = some hook →
    plugin.config.conditions.servers ≠ [] →
      Reached plugins hook (toHookContext ctx metadata .null) w plugin →
        (Called plugins hook (toHookContext ctx metadata .null) w plugin ↔
          RoutedInto registry ctx plugin.config.conditions.servers ∧ OtherwiseConcerned ctx plugin)
  same_server : ∀ hook c, ctx.mcpMethod.preHook = some hook →
    postContext plugins registry manager ctx metadata w hook = some c →
      c.serverName = (toHookContext ctx metadata .null).serverName

end

/-! ## The two names -/

section

variable {plugins : Dict String (Plugin O W)} {registry : RegistryState}
  {manager : Dict String (Session O)} {ctx : RequestContext O}
  {metadata : Dict String (MetaValue O)} {w : W}

theorem exists_route_of_routingMiddleware {result : McpResult}
    (h : (routingMiddleware (some registry) (some manager) ctx).result = .ok result) :
    ∃ svrName origCapName,
      registry.resolveCapability ctx.capabilityName = some (svrName, origCapName) ∧
        (routingMiddleware (some registry) (some manager) ctx).ctx.serverName = some svrName := by
  rw [routingMiddleware] at h ⊢
  dsimp only at h ⊢
  rcases hroute : registry.resolveCapability ctx.capabilityName with _ | ⟨svrName, origCapName⟩
  · rw [hroute] at h
    exact absurd h (by simp [Handled.raise])
  · refine ⟨svrName, origCapName, rfl, ?_⟩
    rw [hroute] at h
    dsimp only at h ⊢
    rcases manager.get? svrName with _ | session
    · rfl
    · dsimp only
      split
      all_goals rfl

/-- Behind the call, the conditions are checked against the server of the route. -/
theorem serverName_of_postContext {hook : Hook} {c : HookContext O}
    (hc : postContext plugins registry manager ctx metadata w hook = some c) :
    ∃ origCapName,
      registry.resolveCapability ctx.capabilityName = some (c.serverName, origCapName) := by
  rw [postContext] at hc
  generalize received (runHook plugins hook (toHookContext ctx metadata .null) w).1 = hooked at hc
  rcases hooked with e | ⟨p, arguments⟩
  · exact absurd hc (by simp)
  · dsimp only at hc
    split at hc
    · exact absurd hc (by simp)
    · rename_i result hresult
      obtain rfl := Option.some.inj hc
      obtain ⟨svrName, origCapName, hroute, hname⟩ := exists_route_of_routingMiddleware hresult
      refine ⟨origCapName, hroute.trans ?_⟩
      rw [toHookContext, hname]
      rfl

/-- Before the call, they are checked against what the request came with. -/
theorem applies_toHookContext_iff {plugin : Plugin O W}
    (hservers : plugin.config.conditions.servers ≠ []) :
    plugin.applies (toHookContext ctx metadata .null) = true ↔
      ctx.serverName.getD "" ∈ plugin.config.conditions.servers ∧
        OtherwiseConcerned ctx plugin := by
  rw [Plugin.applies, Bool.and_eq_true, PluginCondition.matches_eq_true_iff, decide_eq_true_eq,
    or_iff_right hservers, and_assoc, and_comm (b := plugin.config.executionMode ≠ .disabled)]
  exact Iff.rfl

end

/-- **When the conditions on servers are respected**: exactly when every plugin that is limited to
servers, gets its turn and is not kept away by anything else, names the server that the request came
with, which is the empty name for every request of a client, if and only if it names the server the
request is routed to; and the request is not answered, or answered by a server of that name. -/
theorem conditionsRespected_iff (plugins : Dict String (Plugin O W)) (registry : RegistryState)
    (manager : Dict String (Session O)) (ctx : RequestContext O)
    (metadata : Dict String (MetaValue O)) (w : W) :
    ConditionsRespected plugins registry manager ctx metadata w ↔
      (∀ hook plugin, ctx.mcpMethod.preHook = some hook →
        plugin.config.conditions.servers ≠ [] →
          Reached plugins hook (toHookContext ctx metadata .null) w plugin →
            OtherwiseConcerned ctx plugin →
              (ctx.serverName.getD "" ∈ plugin.config.conditions.servers ↔
                RoutedInto registry ctx plugin.config.conditions.servers)) ∧
      (Answered plugins registry manager ctx metadata w →
        RoutedInto registry ctx [ctx.serverName.getD ""]) := by
  constructor
  · rintro ⟨hcalled, hsame⟩
    refine ⟨fun hook plugin hhook hservers hreached hother ↦ ?_, ?_⟩
    · have hiff := hcalled hook plugin hhook hservers hreached
      rw [called_iff_of_reached hreached, applies_toHookContext_iff hservers,
        and_iff_left hother, and_iff_left hother] at hiff
      exact hiff
    · -- a result behind the call has been routed, and the context says to whom
      rintro ⟨hook, c, hhook, hc⟩
      obtain ⟨origCapName, hroute⟩ := serverName_of_postContext hc
      exact ⟨c.serverName, origCapName, hroute, List.mem_singleton.mpr (hsame hook c hhook hc)⟩
  · rintro ⟨hnames, hanswered⟩
    refine ⟨fun hook plugin hhook hservers hreached ↦ ?_, fun hook c hhook hc ↦ ?_⟩
    · rw [called_iff_of_reached hreached, applies_toHookContext_iff hservers]
      exact and_congr_left (hnames hook plugin hhook hservers hreached)
    · obtain ⟨origCapName, hroute⟩ := serverName_of_postContext hc
      obtain ⟨svrName, origCapName', hroute', hmem⟩ := hanswered ⟨hook, c, hhook, hc⟩
      obtain ⟨heq, -⟩ := Prod.mk.inj (Option.some.inj (hroute.symm.trans hroute'))
      exact heq.trans (List.mem_singleton.mp hmem)

/-- A plugin that is limited to the server `files`, and refuses every call. -/
def filesGuard : Plugin Empty Unit where
  config := ⟨"files_guard", true, .enforce, 100, "30.0", ⟨["files"], [], []⟩, []⟩
  hook := fun
    | .toolPreInvoke => some fun _ w ↦ (.raises ⟨.valueError, "refused"⟩, w)
    | _ => none

/-- The guard of the server `files` is not asked about a call that goes there. -/
theorem not_conditionsRespected_filesGuard :
    ¬ ConditionsRespected (Dict.ofList [("files_guard", filesGuard)])
      (oneRoute "read" "files" "read") (Dict.empty.set "files" echoSession)
      (plainRequest "read" .callTool) Dict.empty () := by
  intro h
  have hsorted : getByHook (Dict.ofList [("files_guard", filesGuard)]) .toolPreInvoke
      = [filesGuard] := by
    rw [getByHook]
    exact List.mergeSort_singleton filesGuard
  have hreached : Reached (Dict.ofList [("files_guard", filesGuard)]) .toolPreInvoke
      (toHookContext (plainRequest "read" .callTool) Dict.empty .null) () filesGuard := by
    rw [Reached, hsorted]
    exact ⟨_, _, [], .here _ _ _, rfl⟩
  have hiff := h.called_iff .toolPreInvoke filesGuard rfl (by simp [filesGuard]) hreached
  rw [called_iff_of_reached hreached] at hiff
  have hcalled := hiff.mpr ⟨⟨"files", "read", rfl, List.mem_singleton_self _⟩, by decide,
    .inl rfl, .inl rfl⟩
  exact absurd hcalled (by decide)

end Hooks

end ArgusMcp
