import ArgusMcp.Plugins.Filters

/-!
# The two models of the plugin manager

`Manager` takes a hook for a function of its context; `Hooks` takes it for a program that reads and
writes a world, and keeps the whole dictionary of the metadata. Here the two are compared. If every
plugin of the second model acts, in every world, as its counterpart in the first does, on all that
a context has but the metadata, then the manager and the middleware do so too: a request makes the
same calls and gets the same answer (`sameAnswer_pluginMiddleware`).

The metadata are left out because the first model has no word for an entry that is there and is not
a text. A plugin that returns something that is no context has no counterpart at all.

The plugin that looks for secrets is modelled on both sides, and what is shown about it with the
first model is true with the second (`sameAnswer_secretsDetection`).
-/

namespace ArgusMcp

namespace Hooks

variable {O W : Type}

/-! ## What the two have in common -/

/-- The contexts are the same, up to their metadata. -/
structure Shows (c : HookContext O) (p : PluginContext O) : Prop where
  capabilityName : c.capabilityName = p.capabilityName
  mcpMethod : c.mcpMethod = p.mcpMethod
  arguments : c.arguments = p.arguments
  serverName : c.serverName = p.serverName
  result : c.result = p.result

/-- A hook of the one model ends as a hook of the other. -/
inductive SameReply : HookReply O → HookOutcome O → Prop where
  | context {c : HookContext O} {p : PluginContext O} (h : Shows c p) :
    SameReply (.context c) (.returns p)
  | timesOut : SameReply .timesOut .timesOut
  | raisesPluginError (e : PluginError) :
    SameReply (.raisesPluginError e) (.raisesPluginError (HookExc.pluginError e).toExc)
  | raises (e : Exc) : SameReply (.raises e) (.raises e)

/-- In every world the plugin acts as its counterpart. -/
structure ActsAs (plugin : Plugin O W) (plugin' : ArgusMcp.Plugin O) : Prop where
  config : plugin.config = plugin'.config
  hook : ∀ hook, Option.Rel (fun fn fn' ↦ ∀ c p w, Shows c p → SameReply (fn c w).1 (fn' p))
    (plugin.hook hook) (plugin'.hook hook)

/-- Two computations both return, and what they return is related, or both raise the same. -/
def SameEnd {α β : Type} (R : α → β → Prop) : Except HookExc α → Except Exc β → Prop
  | .ok a, .ok b => R a b
  | .error e, .error e' => e.toExc = e'
  | _, _ => False

/-- The loops have accumulated the same. -/
def SameLoop (acc : Loop O) (acc' : PluginContext O × Metadata) : Prop :=
  ∃ c, acc.accumulated = .ok c ∧ Shows c acc'.1

/-- The requests are the same, up to their metadata. -/
def SameRequest (ctx ctx' : RequestContext O) : Prop :=
  ∃ metadata, ctx' = { ctx with metadata := metadata }

/-- The same calls were made, and the same answer came back. -/
structure SameAnswer (handled handled' : Handled O) : Prop where
  ctx : SameRequest handled.ctx handled'.ctx
  calls : handled.calls = handled'.calls
  events : handled.events = handled'.events
  result : handled.result = handled'.result

/-! ## The manager -/

section Manager

variable {plugin : Plugin O W} {plugin' : ArgusMcp.Plugin O} {ctx : HookContext O}
  {p : PluginContext O} {acc : Loop O} {acc' : PluginContext O × Metadata} {hook : Hook}

theorem ActsAs.applies (h : ActsAs plugin plugin') (hctx : Shows ctx p) :
    plugin.applies ctx = plugin'.applies p := by
  rw [Plugin.applies, ArgusMcp.Plugin.applies, h.config, hctx.capabilityName, hctx.serverName,
    hctx.mcpMethod]

theorem ActsAs.isSome_hook (h : ActsAs plugin plugin') (hook : Hook) :
    (plugin.hook hook).isSome = (plugin'.hook hook).isSome := by
  have hhook := h.hook hook
  generalize plugin.hook hook = fn at hhook ⊢
  generalize plugin'.hook hook = fn' at hhook ⊢
  rcases hhook with _ | _
  · rfl
  · rfl

theorem ActsAs.failed (h : ActsAs plugin plugin') (cause : String) (hacc : SameLoop acc acc') :
    SameEnd SameLoop (plugin.failed hook cause acc) (plugin'.failed hook cause acc') := by
  rw [Plugin.failed, ArgusMcp.Plugin.failed, h.config]
  split
  · rfl
  · exact hacc

theorem ActsAs.runPlugin (h : ActsAs plugin plugin') (hctx : Shows ctx p) (hacc : SameLoop acc acc')
    (w : W) : SameEnd SameLoop (runPlugin hook ctx acc w plugin).1
      (ArgusMcp.runPlugin hook p acc' plugin') := by
  obtain ⟨c, hc, hshows⟩ := id hacc
  rw [Hooks.runPlugin, ArgusMcp.runPlugin, h.applies hctx]
  split
  · rw [hc]
    dsimp only
    have hhook := h.hook hook
    generalize plugin.hook hook = fn at hhook
    generalize plugin'.hook hook = fn' at hhook
    rcases hhook with @⟨fn, fn', hhook⟩ | _
    · have hreply := hhook c acc'.1 w hshows
      dsimp only
      generalize fn' acc'.1 = outcome at hreply
      generalize fn c w = replied at hreply
      obtain ⟨reply, w'⟩ := replied
      rcases hreply with hresult | _ | e | e
      · exact ⟨_, rfl, hresult⟩
      · dsimp only
        rw [h.config]
        exact h.failed _ hacc
      · rfl
      · exact h.failed _ hacc
    · exact hacc
  · exact hacc

theorem sameEnd_runPlugins (pairs : List (Plugin O W × ArgusMcp.Plugin O))
    (h : ∀ pair ∈ pairs, ActsAs pair.1 pair.2) (hctx : Shows ctx p) (hacc : SameLoop acc acc')
    (w : W) : SameEnd SameLoop (runPlugins hook ctx (pairs.map Prod.fst) acc w).1
      (ArgusMcp.runPlugins hook p (pairs.map Prod.snd) acc') := by
  induction pairs generalizing acc acc' w with
  | nil => exact hacc
  | cons pair pairs ih =>
    obtain ⟨hpair, hpairs⟩ := List.forall_mem_cons.mp h
    have hstep : SameEnd SameLoop (runPlugin hook ctx acc w pair.1).1
        (ArgusMcp.runPlugin hook p acc' pair.2) := hpair.runPlugin hctx hacc w
    rw [List.map_cons, List.map_cons, runPlugins_cons, ArgusMcp.runPlugins, List.foldlM_cons]
    generalize runPlugin hook ctx acc w pair.1 = ran at hstep ⊢
    generalize ArgusMcp.runPlugin hook p acc' pair.2 = ran' at hstep ⊢
    rcases ran with ⟨e | acc₁, w'⟩
    · rcases ran' with e' | acc₁'
      · exact hstep
      · exact hstep.elim
    · rcases ran' with e' | acc₁'
      · exact hstep.elim
      · exact ih hpairs hstep w'

/-- The pairs of counterparts that a hook runs, in their order. -/
def pairsByHook (pairs : Dict String (Plugin O W × ArgusMcp.Plugin O)) (hook : Hook) :
    List (Plugin O W × ArgusMcp.Plugin O) :=
  ((pairs.items.map Prod.snd).filter fun pair ↦ (pair.1.hook hook).isSome).mergeSort
    fun a b ↦ decide (a.1.config.priority ≤ b.1.config.priority)

variable {pairs : Dict String (Plugin O W × ArgusMcp.Plugin O)}

theorem getByHook_fst (hook : Hook) :
    getByHook (pairs.mapValues Prod.fst) hook = (pairsByHook pairs hook).map Prod.fst := by
  rw [getByHook, pairsByHook, Dict.map_snd_items_mapValues, List.filter_map]
  refine (List.map_mergeSort fun a _ b _ ↦ ?_).symm
  rfl

/-- Every plugin acts as its counterpart. -/
def Paired (pairs : Dict String (Plugin O W × ArgusMcp.Plugin O)) : Prop :=
  ∀ name pair, pairs.get? name = some pair → ActsAs pair.1 pair.2

theorem Paired.actsAs (h : Paired pairs) {pair : Plugin O W × ArgusMcp.Plugin O}
    (hmem : pair ∈ pairs.items.map Prod.snd) : ActsAs pair.1 pair.2 := by
  obtain ⟨⟨name, pair⟩, hitem, rfl⟩ := List.mem_map.mp hmem
  exact h name pair (Dict.mem_items_iff.mp hitem)

theorem Paired.getByHook_snd (h : Paired pairs) (hook : Hook) :
    PluginRegistry.getByHook (pairs.mapValues Prod.snd) hook
      = (pairsByHook pairs hook).map Prod.snd := by
  have hfilter : ((pairs.items.map Prod.snd).filter fun pair ↦ (pair.1.hook hook).isSome)
      = (pairs.items.map Prod.snd).filter fun pair ↦ (pair.2.hook hook).isSome := by
    refine List.filter_congr fun pair hpair ↦ ?_
    rw [(h.actsAs hpair).isSome_hook]
  rw [PluginRegistry.getByHook, pairsByHook, Dict.map_snd_items_mapValues, hfilter, List.filter_map]
  refine (List.map_mergeSort fun a ha b hb ↦ ?_).symm
  rw [(h.actsAs (List.mem_filter.mp ha).1).config, (h.actsAs (List.mem_filter.mp hb).1).config]

/-- `run_hook` of the one model ends as that of the other: it returns a context in order, or
raises. -/
theorem Paired.runHook (h : Paired pairs) (hook : Hook) (hctx : Shows ctx p) (w : W) :
    ∃ ended, (runHook (pairs.mapValues Prod.fst) hook ctx w).1 = ended.mapError .raised ∧
      SameEnd Shows ended (ArgusMcp.runHook (pairs.mapValues Prod.snd) hook p) := by
  have hpairs : ∀ pair ∈ pairsByHook pairs hook, ActsAs pair.1 pair.2 := by
    intro pair hpair
    rw [pairsByHook, List.mem_mergeSort] at hpair
    exact h.actsAs (List.mem_filter.mp hpair).1
  have hinit : SameLoop ⟨.ok ctx, Dict.empty⟩ (p, .empty) := ⟨ctx, rfl, hctx⟩
  have hran : SameEnd SameLoop _ (ArgusMcp.runPlugins hook p _ (p, .empty)) :=
    sameEnd_runPlugins (pairsByHook pairs hook) hpairs hctx hinit w
  rw [Hooks.runHook, ArgusMcp.runHook, getByHook_fst, h.getByHook_snd]
  dsimp only
  generalize runPlugins hook ctx _ _ w = ran at hran ⊢
  generalize ArgusMcp.runPlugins hook p _ _ = ran' at hran ⊢
  rcases ran with ⟨e | acc, w'⟩
  · rcases ran' with e' | acc'
    · exact ⟨.error e, rfl, hran⟩
    · exact hran.elim
  · rcases ran' with e' | acc'
    · exact hran.elim
    · obtain ⟨c, hc, hshows⟩ := hran
      refine ⟨.ok { c with metadata := c.metadata.update acc.aggregatedMetadata }, ?_,
        { hshows with }⟩
      dsimp only [Except.mapError, Except.bind]
      rw [Loop.finish, hc]

end Manager

/-! ## The middleware -/

section Middleware

variable {pairs : Dict String (Plugin O W × ArgusMcp.Plugin O)} {ctx ctx' : RequestContext O}

theorem SameRequest.shows (h : SameRequest ctx ctx') (metadata : Dict String (MetaValue O))
    (result : McpResult) :
    Shows (toHookContext ctx metadata result) (ctx'.toPluginContext result) := by
  obtain ⟨_, rfl⟩ := h
  exact ⟨rfl, rfl, rfl, rfl, rfl⟩

theorem SameRequest.apply (h : SameRequest ctx ctx') {c : HookContext O} {p : PluginContext O}
    (hc : Shows c p) (metadata : Metadata) :
    SameRequest { ctx with arguments := some c.arguments, metadata := metadata }
      (ctx'.applyPluginContext p) := by
  obtain ⟨_, rfl⟩ := h
  rw [RequestContext.applyPluginContext, hc.arguments]
  exact ⟨_, rfl⟩

theorem Paired.postHooked (h : Paired pairs) (mcpMethod : McpMethod)
    (metadata : Dict String (MetaValue O)) {handled handled' : Handled O}
    (hsame : SameAnswer handled handled') {result : McpResult} (hok : handled'.result = .ok result)
    (w : W) : SameAnswer
      (postHooked (pairs.mapValues Prod.fst) mcpMethod metadata handled w).1
      (ArgusMcp.postHooked (pairs.mapValues Prod.snd) mcpMethod handled' result) := by
  unfold Hooks.postHooked ArgusMcp.postHooked
  rw [hsame.result, hok]
  rcases mcpMethod.postHook with _ | hook
  · exact hsame
  dsimp only
  obtain ⟨ended, hended, hran⟩ := h.runHook hook (hsame.ctx.shows metadata result) w
  rw [hended]
  generalize ArgusMcp.runHook _ hook _ = ran' at hran ⊢
  rcases ended with e | c
  · rcases ran' with e' | p
    · exact { hsame with result := congrArg Except.error hran }
    · exact hran.elim
  · rcases ran' with e' | p
    · exact hran.elim
    · exact ⟨hsame.ctx.apply hran _, hsame.calls, hsame.events, congrArg Except.ok hran.result⟩

theorem Paired.behind (h : Paired pairs) (mcpMethod : McpMethod)
    (metadata : Dict String (MetaValue O)) {handled handled' : Handled O}
    (hsame : SameAnswer handled handled') (w : W) : SameAnswer
      (Hooks.postHooked (pairs.mapValues Prod.fst) mcpMethod metadata handled w).1
      (match handled'.result with
      | .error _ => handled'
      | .ok result =>
        ArgusMcp.postHooked (pairs.mapValues Prod.snd) mcpMethod handled' result) := by
  rcases hresult : handled'.result with e | result
  · have herror := hsame.result.trans hresult
    unfold Hooks.postHooked
    rw [herror]
    exact hsame
  · exact h.postHooked mcpMethod metadata hsame hresult w

/-- **The two models agree.** Around handlers that do not look at the metadata, the middleware of
the one model makes the same calls and gives the same answer as that of the other. -/
theorem sameAnswer_pluginMiddleware (h : Paired pairs) {next : Handler O W} {next' : MCPHandler O}
    (hnext : ∀ ctx ctx' w, SameRequest ctx ctx' → SameAnswer (next ctx w).1 (next' ctx'))
    (hctx : SameRequest ctx ctx') (metadata : Dict String (MetaValue O)) (w : W) :
    SameAnswer (pluginMiddleware (pairs.mapValues Prod.fst) ctx metadata next w).1
      ((ArgusMcp.pluginMiddleware (pairs.mapValues Prod.snd)).call ctx' next') := by
  obtain ⟨m, rfl⟩ := id hctx
  unfold Hooks.pluginMiddleware ArgusMcp.pluginMiddleware ArgusMcp.preHooked
  dsimp only
  rcases ctx.mcpMethod.preHook with _ | hook
  · exact h.behind ctx.mcpMethod metadata (hnext _ _ w hctx) _
  dsimp only
  obtain ⟨ended, hended, hran⟩ := h.runHook hook (hctx.shows metadata .null) w
  rw [hended]
  generalize ArgusMcp.runHook _ hook _ = ran' at hran ⊢
  rcases ended with e | c
  · rcases ran' with e' | p
    · exact ⟨hctx, rfl, rfl, congrArg Except.error hran⟩
    · exact hran.elim
  · rcases ran' with e' | p
    · exact hran.elim
    · exact h.behind ctx.mcpMethod _ (hnext _ _ _ (hctx.apply hran _)) _

theorem SameRequest.routingMiddleware (h : SameRequest ctx ctx') (registry : Option RegistryState)
    (manager : Option (Dict String (Session O))) :
    SameAnswer (routingMiddleware registry manager ctx)
      (routingMiddleware registry manager ctx') := by
  obtain ⟨m, rfl⟩ := id h
  rcases registry with _ | registry
  · exact ⟨h, rfl, rfl, rfl⟩
  rcases manager with _ | manager
  · exact ⟨h, rfl, rfl, rfl⟩
  rw [ArgusMcp.routingMiddleware, ArgusMcp.routingMiddleware]
  dsimp only
  rcases registry.resolveCapability ctx.capabilityName with _ | ⟨svrName, origCapName⟩
  · exact ⟨h, rfl, rfl, rfl⟩
  dsimp only
  rcases manager.get? svrName with _ | session
  · exact ⟨⟨m, rfl⟩, rfl, rfl, rfl⟩
  dsimp only
  rcases ctx.mcpMethod with _ | _ | _ | method
  · exact ⟨⟨m, rfl⟩, rfl, rfl, rfl⟩
  · exact ⟨⟨m, rfl⟩, rfl, rfl, rfl⟩
  · exact ⟨⟨m, rfl⟩, rfl, rfl, rfl⟩
  · exact ⟨⟨m, rfl⟩, rfl, rfl, rfl⟩

theorem sameAnswer_handle (h : Paired pairs) (pass : W → W) (request : ToolRequest O) (w : W) :
    SameAnswer (handle (pairs.mapValues Prod.fst) pass request w).1
      ((ArgusMcp.pluginMiddleware (pairs.mapValues Prod.snd)).call request.ctx
        (ArgusMcp.routingMiddleware request.registry request.manager)) :=
  sameAnswer_pluginMiddleware h (fun _ _ _ hctx ↦ hctx.routingMiddleware _ _) ⟨_, rfl⟩ _ w

end Middleware

/-! ## The plugin that looks for secrets -/

section Secrets

theorem shows_secretsPostInvoke (engine : SecretsEngine) {c : HookContext O} {p : PluginContext O}
    (h : Shows c p) : Shows (Filters.secretsPostInvoke engine c)
      { p with result := Secrets.scanResult engine p.result } := by
  rw [Filters.secretsPostInvoke, h.result]
  rcases hp : p.result with ⟨content, isError⟩ | contents | messages | value | _ | _
  · exact { h with result := h.result.trans hp }
  · exact { h with result := h.result.trans hp }
  · exact { h with result := h.result.trans hp }
  · dsimp only
    split
    · exact { h with result := rfl }
    · exact { h with result := rfl }
  · exact { h with result := h.result.trans hp }
  · exact { h with result := h.result.trans hp }

variable [PyObject O]

theorem actsAs_secretsDetection (engine : SecretsEngine) (config : PluginConfig O) :
    ActsAs (Filters.Filter.secretsDetection config engine).plugin
      (Secrets.secretsDetectionPlugin engine config) := by
  refine ⟨rfl, fun hook ↦ ?_⟩
  rcases hook with _ | _ | _ | _ | _ | _
  · refine .some fun c p w h ↦ ?_
    dsimp only
    rw [Filters.secretsPreInvoke, h.arguments]
    rcases Secrets.scanArguments engine (Secrets.blocks config) p.arguments with e | arguments
    · exact .raises e
    · dsimp only
      split
      · exact .context { h with arguments := rfl }
      · exact .context { h with arguments := rfl }
  · exact .some fun c p w h ↦ .context (shows_secretsPostInvoke engine h)
  · exact .none
  · exact .none
  · exact .none
  · exact .none

theorem sameAnswer_secretsDetection (loaded : Dict String (PluginConfig O × SecretsEngine))
    (request : ToolRequest O) :
    SameAnswer
      (handle (Filters.plugins (loaded.mapValues fun e ↦ .secretsDetection e.1 e.2)) id request
        []).1
      ((ArgusMcp.pluginMiddleware
          (loaded.mapValues fun e ↦ Secrets.secretsDetectionPlugin e.2 e.1)).call request.ctx
        (ArgusMcp.routingMiddleware request.registry request.manager)) := by
  let pairs := loaded.mapValues fun e ↦
    ((Filters.Filter.secretsDetection e.1 e.2).plugin, Secrets.secretsDetectionPlugin e.2 e.1)
  have hpaired : Paired pairs := by
    intro name pair hpair
    rw [Dict.get?_mapValues, Option.map_eq_some_iff] at hpair
    obtain ⟨e, -, rfl⟩ := hpair
    exact actsAs_secretsDetection e.2 e.1
  have hsame := sameAnswer_handle hpaired id request []
  rw [Dict.mapValues_mapValues, Dict.mapValues_mapValues] at hsame
  rw [Filters.plugins, Dict.mapValues_mapValues]
  exact hsame

end Secrets

end Hooks

end ArgusMcp
