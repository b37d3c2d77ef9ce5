import ArgusMcp.Library.Machine
import ArgusMcp.Plugins.Hooks
import ArgusMcp.Server.Lifespan
import Mathlib.Algebra.Order.Group.Int
import Mathlib.Data.List.MinMax

/-!
# The response cache

`ResponseCachePlugin` of `plugins/builtins/response_cache_by_prompt.py` keeps the results of tool
calls for a while, to answer a call that is made again without the backend. When it finds a result
before a call, it writes it into its context. But nobody looks there: the middleware takes arguments
and metadata from what the hooks before a call return, calls the backend, and passes its answer on.
So the plugin stores and evicts as it should, and never answers.

What is expected of it has three parts (`CacheCorrect`). That it answers only with what it has, and
that it has no more than it may, it does; the former because it does not answer (`calls_step`), the
latter because it makes room before it stores (`AtMost.store`). That it answers when it can, it does
only if it never can, and `cacheCorrect_iff` says so.

A call is looked up under a hash of server, tool and arguments. Equality of hashes is what equality
of the three means here. The server is the one without a name, since it is not known yet.
-/

namespace ArgusMcp

namespace ResponseCache

open Hooks

variable {O T : Type}

/-! ## The plugin -/

/-- The constructor of the plugin, as far as the settings go, and the hash it uses. -/
structure Settings (O T : Type) where
  ttl : T
  maxEntries : ℤ
  makeKey : String → String → Arguments O → String

/-- What the hooks read and write: the results with the times at which they were stored, and the
clock. During one call it is read when entries expire, when an entry is looked at, and when one is
stored. -/
structure World (T : Type) where
  cache : Dict String (McpResult × T)
  evictAt : T
  lookAt : T
  storeAt : T

section

variable [AddCommGroup T] [LinearOrder T] (settings : Settings O T)

def evictExpired (w : World T) : World T :=
  let expired := (w.cache.items.filter fun e ↦ decide (settings.ttl < w.evictAt - e.2.2)).map
    Prod.fst
  { w with cache := expired.foldl Dict.del w.cache }

/-- `_evict_oldest`. There is no oldest entry of an empty cache. -/
def evictOldest (w : World T) : Option (World T) :=
  if settings.maxEntries ≤ w.cache.items.length then
    (w.cache.items.argmin fun e ↦ e.2.2).map fun e ↦ { w with cache := w.cache.del e.1 }
  else some w

/-- The end of `tool_pre_invoke` when nothing is found. -/
def miss (key : String) (ctx : HookContext O) : HookContext O :=
  { ctx with
    metadata := (ctx.metadata.set "cache_hit" (.value (.bool false))).set "_cache_key"
      (.value (.str key)) }

def toolPreInvoke (ctx : HookContext O) (w : World T) : HookReply O × World T :=
  let w := evictExpired settings w
  let key := settings.makeKey ctx.serverName ctx.capabilityName ctx.arguments
  match w.cache.get? key with
  | none => (.context (miss key ctx), w)
  | some (result, ts) =>
    if w.lookAt - ts ≤ settings.ttl then
      (.context { ctx with
        result := result
        metadata := ctx.metadata.set "cache_hit" (.value (.bool true)) }, w)
    else (.context (miss key ctx), { w with cache := w.cache.del key })

/-- The key that was left in the metadata; nothing but this plugin writes it. -/
def cacheKey : Option (MetaValue O) → Option String
  | some (.value (.str key)) => some key
  | _ => none

/-- `self._cache[key] = (result, time.monotonic())`. -/
def put (key : String) (result : McpResult) (w : World T) : World T :=
  { w with cache := w.cache.set key (result, w.storeAt) }

/-- The end of `tool_post_invoke`. -/
def store (key : String) (ctx : HookContext O) (w : World T) : HookReply O × World T :=
  match evictOldest settings w with
  | none => (.raises ⟨.valueError, "min() arg is an empty sequence"⟩, w)
  | some w =>
    (.context { ctx with metadata := ctx.metadata.set "cache_stored" (.value (.bool true)) },
      put key ctx.result w)

def toolPostInvoke [PyObject O] (ctx : HookContext O) (w : World T) : HookReply O × World T :=
  if MetaValue.truthy (ctx.metadata.get? "cache_hit") then (.context ctx, w)
  else
    match cacheKey (ctx.metadata.get? "_cache_key") with
    | none => (.context ctx, w)
    | some key =>
      let ctx := { ctx with metadata := ctx.metadata.del "_cache_key" }
      if MetaValue.truthy (ctx.metadata.get? "error") then (.context ctx, w)
      else store settings key ctx w

def responseCachePlugin [PyObject O] (config : PluginConfig O) : Hooks.Plugin O (World T) where
  config := config
  hook := fun
    | .toolPreInvoke => some (toolPreInvoke settings)
    | .toolPostInvoke => some (toolPostInvoke settings)
    | _ => none

end

/-! ## Runs -/

/-- A tool call, with the readings of the clock that are made for it. -/
structure ToolCall (O T : Type) where
  request : ToolRequest O
  evictAt : T
  lookAt : T
  storeAt : T

/-- What is seen of a tool call from the outside. -/
structure Entry (O T : Type) where
  call : ToolCall O T
  calls : List (BackendCall O)
  result : Except Exc McpResult

section

variable [AddCommGroup T] [LinearOrder T] [PyObject O] (config : PluginConfig O)
  (settings : Settings O T)

/-- The plugin, and no other. -/
def plugins : Dict String (Hooks.Plugin O (World T)) :=
  Dict.ofList [(config.name, responseCachePlugin settings config)]

/-- A call through the chain. -/
def step (w : World T) (call : ToolCall O T) : World T × Entry O T :=
  let (handled, w) := handle (plugins config settings) id call.request
    ⟨w.cache, call.evictAt, call.lookAt, call.storeAt⟩
  (w, ⟨call, handled.calls, handled.result⟩)

/-- The plugin when it has just been loaded. -/
def init (t : T) : World T := ⟨Dict.empty, t, t, t⟩

end

/-! ## What the cache is for -/

section

variable [AddCommGroup T] [LinearOrder T] (settings : Settings O T)

/-- The key under which the result of a call is stored. -/
def ToolCall.key (call : ToolCall O T) : String :=
  settings.makeKey "" call.request.capabilityName (call.request.arguments.getD [])

def ToolCall.server (call : ToolCall O T) : Option String :=
  call.request.registry.bind fun registry ↦
    (registry.resolveCapability call.request.capabilityName).map Prod.fst

/-- The calls go to the same server, and are for the same tool with the same arguments. -/
def SameCall (call call' : ToolCall O T) : Prop :=
  ∃ server, call.server = some server ∧ call'.server = some server ∧
    settings.makeKey server call.request.capabilityName (call.request.arguments.getD [])
      = settings.makeKey server call'.request.capabilityName (call'.request.arguments.getD [])

/-- The earlier call was successful, its result is in the cache, and is not too old for the call
that comes now. -/
def Remembered (w : World T) (e : Entry O T) (call : ToolCall O T) (result : McpResult) : Prop :=
  e.result = .ok result ∧ w.cache.get? (e.call.key settings) = some (result, e.call.storeAt) ∧
    call.lookAt - e.call.storeAt ≤ settings.ttl

def successful : McpResult → Bool
  | .callToolResult _ isError => !isError
  | _ => true

/-- The call repeats an earlier one whose result could be used. -/
def Repeats (w : World T) (before : List (Entry O T)) (call : ToolCall O T)
    (result : McpResult) : Prop :=
  ∃ e ∈ before, SameCall settings e.call call ∧ Remembered settings w e call result ∧
    successful result = true

variable [PyObject O] (config : PluginConfig O)

/-- What is expected of the plugin over a list of calls. -/
structure CacheCorrect (t : T) (calls : List (ToolCall O T)) : Prop where
  /-- A call that repeats another is answered with the result stored for it, without the
  backend. -/
  effective : ∀ before call after, calls = before ++ call :: after → ∀ result,
    Repeats settings (Machine.after (step config settings) (init t) before)
      (Machine.trace (step config settings) (init t) before) call result →
    (step config settings (Machine.after (step config settings) (init t) before) call).2
      = ⟨call, [], .ok result⟩
  /-- What is not the answer of the backend was stored for the same call, and not too long ago. -/
  sound : ∀ before call after, calls = before ++ call :: after → ∀ result,
    (step config settings (Machine.after (step config settings) (init t) before) call).2
      = ⟨call, [], .ok result⟩ →
    ∃ e ∈ Machine.trace (step config settings) (init t) before, SameCall settings e.call call ∧
      Remembered settings (Machine.after (step config settings) (init t) before) e call result
  /-- There are never more entries than there may be. -/
  bounded : ∀ before after, calls = before ++ after →
    ((Machine.after (step config settings) (init t) before).cache.items.length : ℤ)
      ≤ settings.maxEntries

end

/-! ## The number of entries -/

/-- There are no more entries than there may be. -/
def AtMost (n : ℤ) (w : World T) : Prop := (w.cache.items.length : ℤ) ≤ n

section

variable [AddCommGroup T] [LinearOrder T] {settings : Settings O T} {w : World T}

theorem AtMost.toolPreInvoke (h : AtMost settings.maxEntries w) (ctx : HookContext O) :
    AtMost settings.maxEntries (toolPreInvoke settings ctx w).2 := by
  have hexpired : AtMost settings.maxEntries (evictExpired settings w) :=
    le_trans (Int.ofNat_le.mpr (Dict.length_items_foldl_del_le _ _)) h
  rw [ResponseCache.toolPreInvoke]
  split
  · exact hexpired
  · split
    · exact hexpired
    · exact le_trans (Int.ofNat_le.mpr (Dict.length_items_del_le _ _)) hexpired

omit [AddCommGroup T] in
theorem AtMost.store (h : AtMost settings.maxEntries w) (key : String) (ctx : HookContext O) :
    AtMost settings.maxEntries (store settings key ctx w).2 := by
  rw [ResponseCache.store, evictOldest]
  by_cases hfull : settings.maxEntries ≤ w.cache.items.length
  · rw [if_pos hfull]
    rcases holdest : w.cache.items.argmin fun e ↦ e.2.2 with _ | e
    · rw [holdest]
      exact h
    · rw [holdest]
      have hmem : e ∈ w.cache.items := List.argmin_mem holdest
      have hdel := Dict.length_items_del_lt (Dict.get?_eq_some_of_mem hmem)
      have hset := Dict.length_items_set_le (w.cache.del e.1) key (ctx.result, w.storeAt)
      refine le_trans ?_ h
      change (((w.cache.del e.1).set key (ctx.result, w.storeAt)).items.length : ℤ)
        ≤ w.cache.items.length
      omega
  · rw [if_neg hfull]
    have hset := Dict.length_items_set_le w.cache key (ctx.result, w.storeAt)
    change ((w.cache.set key (ctx.result, w.storeAt)).items.length : ℤ) ≤ settings.maxEntries
    omega

omit [AddCommGroup T] in
theorem AtMost.toolPostInvoke [PyObject O] (h : AtMost settings.maxEntries w)
    (ctx : HookContext O) : AtMost settings.maxEntries (toolPostInvoke settings ctx w).2 := by
  rw [ResponseCache.toolPostInvoke]
  split
  · exact h
  · split
    · exact h
    · dsimp only
      split
      · exact h
      · exact h.store _ _

theorem exists_toolPreInvoke (settings : Settings O T) (ctx : HookContext O) (w : World T) :
    ∃ c, (toolPreInvoke settings ctx w).1 = .context c ∧ c.arguments = ctx.arguments := by
  rw [toolPreInvoke]
  split
  · exact ⟨_, rfl, rfl⟩
  · split
    · exact ⟨_, rfl, rfl⟩
    · exact ⟨_, rfl, rfl⟩

end

section

variable [AddCommGroup T] [LinearOrder T] [PyObject O] (config : PluginConfig O)
  (settings : Settings O T)

theorem exists_runHook_toolPreInvoke (ctx : HookContext O) (w : World T) : ∃ p w',
    Hooks.runHook (plugins config settings) .toolPreInvoke ctx w = (.ok p, w') ∧
      p.arguments = ctx.arguments ∧
        (AtMost settings.maxEntries w → AtMost settings.maxEntries w') := by
  rcases happlies : (responseCachePlugin settings config).applies ctx with _ | _
  · exact ⟨ctx, w, runHook_single_of_passed happlies, rfl, id⟩
  · obtain ⟨c, hc, harguments⟩ := exists_toolPreInvoke settings ctx w
    exact ⟨c, (toolPreInvoke settings ctx w).2,
      runHook_single_of_context ⟨happlies, _, rfl, Prod.ext hc rfl⟩, harguments,
      fun h ↦ h.toolPreInvoke ctx⟩

theorem atMost_runHook_toolPostInvoke (ctx : HookContext O) {w : World T}
    (h : AtMost settings.maxEntries w) :
    AtMost settings.maxEntries
      (Hooks.runHook (plugins config settings) .toolPostInvoke ctx w).2 := by
  rcases happlies : (responseCachePlugin settings config).applies ctx with _ | _
  · rw [plugins, runHook_single_of_passed happlies]
    exact h
  · rw [plugins, runHook_single_of_replies ⟨happlies, _, rfl, Prod.mk.eta.symm⟩]
    exact h.toolPostInvoke ctx

/-- **What the plugin does to a call**: nothing, as far as the backend goes. -/
theorem calls_step (w : World T) (call : ToolCall O T) :
    (step config settings w call).2.calls = call.request.routed.calls ∧
      ∀ result, (step config settings w call).2.result = .ok result →
        ∃ answer, call.request.routed.result = .ok answer := by
  obtain ⟨p, w₁, hpre, harguments, -⟩ := exists_runHook_toolPreInvoke config settings
    (toHookContext call.request.ctx call.request.metadata .null)
    ⟨w.cache, call.evictAt, call.lookAt, call.storeAt⟩
  obtain ⟨hcalls, hresult⟩ := call.request.routedAs_of_arguments harguments
  rw [step, ← hcalls, ← hresult]
  rcases hrouted : (call.request.routedAs p).result with e | answer
  · rw [handle_of_error id hpre hrouted]
    refine ⟨rfl, fun result hresult' ↦ ?_⟩
    exact absurd (hrouted.symm.trans hresult') (by simp)
  · obtain ⟨-, hcalls', -⟩ := handle_of_ok id hpre hrouted Prod.mk.eta.symm
    exact ⟨hcalls', fun _ _ ↦ ⟨answer, rfl⟩⟩

theorem AtMost.step {w : World T} (h : AtMost settings.maxEntries w) (call : ToolCall O T) :
    AtMost settings.maxEntries (step config settings w call).1 := by
  obtain ⟨p, w₁, hpre, -, hkeep⟩ := exists_runHook_toolPreInvoke config settings
    (toHookContext call.request.ctx call.request.metadata .null)
    ⟨w.cache, call.evictAt, call.lookAt, call.storeAt⟩
  rw [ResponseCache.step]
  rcases hrouted : (call.request.routedAs p).result with e | answer
  · rw [handle_of_error id hpre hrouted]
    exact hkeep h
  · obtain ⟨hworld, -, -⟩ := handle_of_ok id hpre hrouted Prod.mk.eta.symm
    dsimp only
    rw [hworld]
    exact atMost_runHook_toolPostInvoke config settings _ (hkeep h)

theorem step_ne (w : World T) (call : ToolCall O T) (result : McpResult) :
    (step config settings w call).2 ≠ ⟨call, [], .ok result⟩ := by
  intro heq
  obtain ⟨hcalls, hanswer⟩ := calls_step config settings w call
  rw [heq] at hcalls hanswer
  obtain ⟨answer, hrouted⟩ := hanswer result rfl
  exact call.request.calls_ne_nil hrouted hcalls.symm

end

/-- **When the cache does what it is for**: exactly when no call repeats, for the same server, tool
and arguments, an earlier successful one whose result is still in the cache and not too old; and
the number of entries allowed is not negative. -/
theorem cacheCorrect_iff [AddCommGroup T] [LinearOrder T] [PyObject O] (config : PluginConfig O)
    (settings : Settings O T) (t : T) (calls : List (ToolCall O T)) :
    CacheCorrect settings config t calls ↔ 0 ≤ settings.maxEntries ∧
      ∀ before call after, calls = before ++ call :: after → ∀ result,
        ¬ Repeats settings (Machine.after (step config settings) (init t) before)
          (Machine.trace (step config settings) (init t) before) call result := by
  constructor
  · intro h
    refine ⟨h.bounded [] calls rfl, fun before call after hsplit result hrepeats ↦ ?_⟩
    have hanswer := h.effective before call after hsplit result hrepeats
    exact step_ne config settings _ call result hanswer
  · rintro ⟨hmax, hnone⟩
    refine ⟨fun before call after hsplit result hrepeats ↦ ?_,
      fun before call after hsplit result hanswer ↦ ?_, fun before after hsplit ↦ ?_⟩
    · exact absurd hrepeats (hnone before call after hsplit result)
    · exact absurd hanswer (step_ne config settings _ call result)
    · have hinit : AtMost settings.maxEntries (init t) := hmax
      exact @Machine.invariant_of_after _ _ _ _ (fun _ ↦ True) (fun _ ↦ trivial)
        (fun _ ↦ AtMost settings.maxEntries) _ hinit
        (fun _ hm ↦ hm.step config settings _) _ trivial

/-! ## A call that is repeated -/

/-- **What is stored**: the answer to a call that was not found, if there is room for it. -/
theorem step_of_miss [AddCommGroup T] [LinearOrder T] [PyObject O] {config : PluginConfig O}
    {settings : Settings O T} {w w₁ w₂ : World T} {call : ToolCall O T} {answer : McpResult}
    (hexpired : evictExpired settings ⟨w.cache, call.evictAt, call.lookAt, call.storeAt⟩ = w₁)
    (hmiss : w₁.cache.get? (call.key settings) = none)
    (hroom : evictOldest settings w₁ = some w₂) (hrouted : call.request.routed.result = .ok answer)
    (hbefore : (responseCachePlugin settings config).applies
      (toHookContext call.request.ctx call.request.metadata .null) = true)
    (hbehind : ∀ p, (responseCachePlugin settings config).applies
      (call.request.answered p answer) = true) :
    (step config settings w call).1 = put (call.key settings) answer w₂ ∧
      (step config settings w call).2.result = .ok answer := by
  have hpre : Hooks.runHook (plugins config settings) .toolPreInvoke
      (toHookContext call.request.ctx call.request.metadata .null)
      ⟨w.cache, call.evictAt, call.lookAt, call.storeAt⟩
        = (.ok (miss (call.key settings)
          (toHookContext call.request.ctx call.request.metadata .null)), w₁) := by
    refine runHook_single_of_context ⟨hbefore, toolPreInvoke settings, rfl, ?_⟩
    have hkey : w₁.cache.get? (settings.makeKey "" call.request.capabilityName
      (call.request.arguments.getD [])) = none := hmiss
    rw [toolPreInvoke, hexpired]
    dsimp only [toHookContext, ToolRequest.ctx, Option.getD_none]
    rw [hkey]
    rfl
  -- What the hook before the call has left in the metadata is found by the one behind it.
  generalize hp : miss (call.key settings)
    (toHookContext call.request.ctx call.request.metadata .null) = p at hpre
  have hget : ∀ {name v}, p.metadata.get? name = v →
      (call.request.answered p answer).metadata.get? name
        = v.or (call.request.metadata.get? name) := by
    rintro name v rfl
    exact Dict.get?_update _ _ _
  have hhit : p.metadata.get? "cache_hit" = some (.value (.bool false)) := by
    rw [← hp]
    exact (Dict.get?_set_of_ne _ _ (by decide)).trans (Dict.get?_set_self _ _ _)
  have hkey : p.metadata.get? "_cache_key" = some (.value (.str (call.key settings))) := by
    rw [← hp]
    exact Dict.get?_set_self _ _ _
  have herror : p.metadata.get? "error" = none := by
    rw [← hp]
    refine (Dict.get?_set_of_ne _ _ (by decide)).trans ?_
    refine (Dict.get?_set_of_ne _ _ (by decide)).trans ?_
    exact call.request.get?_metadata_of_notMem (by decide)
  obtain ⟨c, hc, hreply⟩ : ∃ c, c.result = answer ∧
      toolPostInvoke settings (call.request.answered p answer) w₁
        = (.context c, put (call.key settings) answer w₂) := by
    have herror' : ((call.request.answered p answer).metadata.del "_cache_key").get?
        "error" = none := by
      rw [Dict.get?_del, if_neg (by decide), hget herror]
      exact call.request.get?_metadata_of_notMem (by decide)
    rw [toolPostInvoke, hget hhit, hget hkey]
    change ∃ c : HookContext O, c.result = answer ∧
      (if MetaValue.truthy (Dict.get? _ _) then _ else _) = _
    rw [herror']
    change ∃ c : HookContext O, c.result = answer ∧ store settings (call.key settings) _ w₁ = _
    rw [store, hroom]
    exact ⟨_, rfl, rfl⟩
  have harguments : p.arguments = call.request.arguments.getD [] := by
    rw [← hp]
    rfl
  have hrouted' := (call.request.routedAs_of_arguments harguments).2.trans hrouted
  obtain ⟨hworld, -, hresult⟩ := handle_of_ok id hpre hrouted'
    (runHook_single_of_context ⟨hbehind _, toolPostInvoke settings, rfl, hreply⟩)
  refine ⟨hworld, hresult.trans ?_⟩
  rw [received, Except.map, hc]

/-- A call of a tool whose backend answers. -/
def readCall (t : ℤ) : ToolCall Empty ℤ where
  request := ⟨"read", none, "r", Dict.empty, mem_requestKeys_of_mem_empty,
    some (oneRoute "read" "files" "read"), some (Dict.empty.set "files" echoSession)⟩
  evictAt := t
  lookAt := t
  storeAt := t + 1

/-- Five minutes, and the default number of entries; the key is a text instead of its hash. -/
def readSettings : Settings Empty ℤ :=
  ⟨300, 256, fun server capability _ ↦ server ++ "/" ++ capability⟩

def readConfig : PluginConfig Empty :=
  ⟨"response_cache_by_prompt", true, .enforceIgnoreError, 100, "30.0", ⟨[], [], []⟩, []⟩

/-- A call that is repeated a second later goes to the backend once more. -/
theorem not_cacheCorrect_readCall :
    ¬ CacheCorrect readSettings readConfig 0 [readCall 0, readCall 2] := by
  intro h
  have hstored : (step readConfig readSettings (init 0) (readCall 0)).1
        = put ((readCall 0).key readSettings) (.callToolResult [] false) ⟨Dict.empty, 0, 0, 1⟩ ∧
      (step readConfig readSettings (init 0) (readCall 0)).2.result
        = .ok (.callToolResult [] false) :=
    step_of_miss rfl rfl rfl rfl rfl fun _ ↦ rfl
  have hfirst : (step readConfig readSettings (init 0) (readCall 0)).2.call = readCall 0 := rfl
  refine step_ne readConfig readSettings _ (readCall 2) (.callToolResult [] false)
    (h.effective [readCall 0] (readCall 2) [] rfl _ ⟨_, List.mem_singleton_self _, ?_, ?_, rfl⟩)
  · exact ⟨"files", rfl, rfl, rfl⟩
  · refine ⟨?_, ?_, by decide⟩
    · exact hstored.2
    · rw [hfirst, Machine.after, Machine.after, hstored.1]
      exact Dict.get?_set_self _ _ _

end ResponseCache

end ArgusMcp
