import ArgusMcp.Bridge.Optimizer
import ArgusMcp.Server.Session

/-!
# The index of a running server

The lifespan attaches the service to the MCP server once (`server/lifespan.py`). With the optimizer
on it fills the tool index then, from the registry that the routing layer is given, and puts it in
place when the thread that prepares the scores is done. Nothing fills the index again. Clients are
told to find a tool there before they call it.

## What moves away from it

The registry of the routing layer changes in two ways. A backend that the health checker hides
loses its routes, and its tools are still found; one that is listed again may have tools that the
index has not seen, or take names from another backend. A reload or a reconnect fills a registry
that nobody routes by, and the server goes on advertising what it did.

## The invariant

The index mirrors the registry: what it can find is routed, and what is advertised is in it with the
backend of the route. It does when it is filled, because every advertised item has a route
(`View.NamesRouted`), and a step keeps it so unless it withdraws a tool that can be found or gives
one to a backend that the index does not know of. The tools of the registry are meant throughout;
composite tools and the meta-tools are neither routed nor indexed.
-/

namespace ArgusMcp

open ArgusMcp.Runtime

/-- The `optimizer` section of the configuration. -/
structure OptimizerConfig where
  enabled : Bool
  keepTools : List String

/-- What the MCP server has of the optimizer. -/
structure OptimizerState where
  index : Option ToolIndex
  enabled : Bool
  keepList : List String

def setupOptimizer (registry : RegistryState) (fullCfg : Option OptimizerConfig) :
    OptimizerState :=
  let enabled := (fullCfg.map OptimizerConfig.enabled).getD false
  let keepList := (fullCfg.map OptimizerConfig.keepTools).getD []
  if enabled then
    ⟨some (.populate registry.getAggregatedTools registry.routeMap), true, keepList⟩
  else ⟨none, false, keepList⟩

/-- The gateway, with the optimizer of its server. -/
structure IndexedGateway (V : Type*) where
  gateway : Gateway V
  /-- What is to be put in place, while the thread in `store` is awaited. -/
  storing : Option OptimizerState
  optimizer : OptimizerState

namespace IndexedGateway

inductive Event (V : Type*) where
  | gateway (ev : Gateway.Event V)
  /-- `_attach_to_mcp_server`, until it awaits the thread or is done with the optimizer. -/
  | attach (fullCfg : Option OptimizerConfig)
  /-- The thread is done. -/
  | stored

variable {V : Type*}

def init : IndexedGateway V := ⟨.init, none, ⟨none, false, []⟩⟩

/-- The event is an attachment, which is an event of its own here. -/
def isAttach : Gateway.Event V → Bool
  | .service (.attach _) => true
  | _ => false

variable (g : IndexedGateway V)

/-- The middleware chain is built and the index filled, without a suspension between. -/
def attach (fullCfg : Option OptimizerConfig) : Option (IndexedGateway V) :=
  (g.gateway.registryAt (some g.gateway.service.registry)).map fun r ↦
    let attached := { g.gateway with service := g.gateway.service.attach true }
    let optimizer := setupOptimizer r.state fullCfg
    if optimizer.enabled then { g with gateway := attached, storing := some optimizer }
    else { g with gateway := attached, optimizer := optimizer }

/-- One event. The lifespan attaches once. -/
def step {V : Type*} [DecidableEq V] (g : IndexedGateway V) :
    Event V → Option (IndexedGateway V)
  | .gateway ev =>
    if isAttach ev then none
    else (g.gateway.step ev).map fun gateway ↦ { g with gateway := gateway }
  | .attach fullCfg => if g.gateway.service.server.isSome then none else g.attach fullCfg
  | .stored => g.storing.map fun optimizer ↦ { g with storing := none, optimizer := optimizer }

/-! ## Found tools are callable -/

section Property

/-- No discovery is in progress, and no index is being stored. -/
structure Quiescent : Prop where
  registries : ∀ r ∈ g.gateway.service.registries, r.state.Quiescent
  storing : g.storing = none

/-- What a search can return is routed, and what the server advertises is in the index, with the
backend it is routed to. -/
structure FoundAreCallable (engine : Engine) : Prop where
  found : ∀ index ∈ g.optimizer.index, ∀ name, index.Finds engine name →
    (g.gateway.resolveAt g.gateway.service.routing name).isSome
  advertised : ∀ index ∈ g.optimizer.index,
    ∀ r ∈ g.gateway.registryAt g.gateway.service.server, ∀ e ∈ r.state.getAggregatedTools,
      ∃ entry route, index.tools.get? e.name = some entry ∧
        g.gateway.resolveAt g.gateway.service.routing e.name = some route ∧
        entry.backend = route.1

/-- An index in place, or about to be. -/
def Indexed (index : ToolIndex) : Prop :=
  (∃ optimizer ∈ g.storing, index ∈ optimizer.index) ∨ index ∈ g.optimizer.index

/-- **What keeps the index right.** The health checker hides no backend that a tool which can be
found is routed to, and no listing gives an advertised tool, old or new, to a backend other than
the one the index has for it. -/
def KeepsIndex (engine : Engine) : Event V → Prop
  | .gateway (.hide name) => g.gateway.service.checker = g.gateway.service.routing →
      ∀ index, g.Indexed index → ∀ tool route, index.Finds engine tool →
        g.gateway.resolveAt g.gateway.service.routing tool = some route → route.1 ≠ name
  | .gateway (.listed task reply) => g.gateway.service.checker = g.gateway.service.routing →
      ∀ index, g.Indexed index → ∀ r ∈ g.gateway.registryAt g.gateway.service.routing, ∀ tool,
        Takes r.rules.strategy r.state.routeMap (taskOffers r.rules task reply) tool →
        (task.capType = .tools ∧ task.gen = r.state.live ∨
          ∃ e ∈ r.state.getAggregatedTools, e.name = tool) →
        ∃ entry, index.tools.get? tool = some entry ∧ entry.backend = task.svr
  | _ => True

end Property

/-! ## An index and a registry -/

structure Mirrors (engine : Engine) (index : ToolIndex) (st : RegistryState) : Prop where
  found : ∀ name, index.Finds engine name → (st.resolveCapability name).isSome
  advertised : ∀ e ∈ st.getAggregatedTools, ∃ entry route,
    index.tools.get? e.name = some entry ∧ st.resolveCapability e.name = some route ∧
      entry.backend = route.1

section Mirrors

variable {engine : Engine} {index : ToolIndex} {st : RegistryState} {cfg : RegistryConfig}
  {task : Task} {reply : ListReply}

theorem mirrors_populate (h : st.view.NamesRouted) :
    Mirrors engine (.populate st.getAggregatedTools st.routeMap) st := by
  refine ⟨fun name hfound ↦ ?_, fun e he ↦ ?_⟩
  · obtain ⟨entry, hget⟩ := hfound.exists_entry
    obtain ⟨⟨t, ht, rfl⟩, -⟩ := ToolIndex.of_get?_populate hget
    exact h .tools t ht
  · obtain ⟨route, hroute⟩ := Option.isSome_iff_exists.mp (h .tools e he)
    obtain ⟨entry, hget⟩ := @ToolIndex.exists_get?_populate _ st.routeMap e he
    obtain ⟨-, hbackend⟩ := ToolIndex.of_get?_populate hget
    refine ⟨entry, route, hget, hroute, ?_⟩
    have hroute' : st.routeMap.get? e.name = some route := hroute
    rw [hbackend, hroute']
    rfl

/-- Hiding a backend that no tool which can be found is routed to. -/
theorem Mirrors.removeBackend (h : Mirrors engine index st) (hnames : st.view.NamesRouted)
    {svrName : String} (hhide : ∀ tool route, index.Finds engine tool →
      st.resolveCapability tool = some route → route.1 ≠ svrName) :
    Mirrors engine index (st.removeBackend svrName) := by
  refine ⟨fun name hfound ↦ ?_, fun e he ↦ ?_⟩
  · obtain ⟨route, hroute⟩ := Option.isSome_iff_exists.mp (h.found name hfound)
    exact Option.isSome_iff_exists.mpr ⟨route,
      RegistryState.route_removeBackend_iff.mpr ⟨hroute, hhide name route hfound hroute⟩⟩
  · have hlists : (st.removeBackend svrName).advertisedLists = fun capType ↦
        (st.advertisedLists capType).filter
          fun e ↦ decide (e.name ∉ st.keysToRemove svrName) := Function.update_self _ _ _
    have hkept : e ∈ st.getAggregatedTools := by
      rw [RegistryState.getAggregatedTools, hlists] at he
      exact List.mem_of_mem_filter he
    obtain ⟨entry, route, hget, hroute, hbackend⟩ := h.advertised e hkept
    obtain ⟨route', hroute'⟩ := Option.isSome_iff_exists.mp
      (RegistryState.namesRouted_removeBackend hnames svrName .tools e he)
    obtain ⟨hold, -⟩ := RegistryState.route_removeBackend_iff.mp hroute'
    obtain rfl := Option.some.inj (hroute.symm.trans hold)
    exact ⟨entry, route, hget, hroute', hbackend⟩

theorem Mirrors.complete (h : Mirrors engine index st) (hlisted : ∀ tool,
    Takes cfg.strategy st.routeMap (taskOffers cfg task reply) tool →
    (task.capType = .tools ∧ task.gen = st.live ∨ ∃ e ∈ st.getAggregatedTools, e.name = tool) →
    ∃ entry, index.tools.get? tool = some entry ∧ entry.backend = task.svr) :
    Mirrors engine index (st.complete cfg task reply) := by
  refine ⟨fun name hfound ↦ ?_, fun e he ↦ ?_⟩
  · obtain ⟨route, hroute⟩ := Option.isSome_iff_exists.mp (h.found name hfound)
    rcases @RegistryState.route_complete cfg st task reply _ _ hroute with hkept | ⟨orig, htaken⟩
    · exact Option.isSome_iff_exists.mpr ⟨route, hkept⟩
    · exact Option.isSome_iff_exists.mpr ⟨_, htaken⟩
  -- a name that the task took is indexed with its server
  have htaken : ∀ orig, (¬∃ orig, st.routeMap.get? e.name = some (task.svr, orig)) →
      (st.complete cfg task reply).routeMap.get? e.name = some (task.svr, orig) →
      (task.capType = .tools ∧ task.gen = st.live ∨
        ∃ e' ∈ st.getAggregatedTools, e'.name = e.name) →
      ∃ entry route, index.tools.get? e.name = some entry ∧
        (st.complete cfg task reply).resolveCapability e.name = some route ∧
        entry.backend = route.1 := by
    intro orig hnot horig hshown
    obtain ⟨entry, hget, hbackend⟩ := hlisted e.name
      ((RegistryState.takes_complete hnot).mp ⟨orig, horig⟩) hshown
    exact ⟨entry, _, hget, horig, hbackend⟩
  by_cases hold : e ∈ st.getAggregatedTools
  · obtain ⟨entry, route, hget, hroute, hbackend⟩ := h.advertised e hold
    rcases @RegistryState.route_complete cfg st task reply _ _ hroute with hkept | ⟨orig, horig⟩
    · exact ⟨entry, route, hget, hkept, hbackend⟩
    · by_cases hsame : route.1 = task.svr
      · exact ⟨entry, _, hget, horig, hbackend.trans hsame⟩
      · refine htaken orig ?_ horig (Or.inr ⟨e, hold, rfl⟩)
        rintro ⟨orig', horig'⟩
        obtain rfl := Option.some.inj (hroute.symm.trans horig')
        exact hsame rfl
  · -- the task has added the item to the advertised list of tools
    obtain ⟨hmap, hlists, hlive, -⟩ := complete_tables cfg st task reply
    rw [RegistryState.getAggregatedTools, RegistryState.advertisedLists, hlists, hlive,
      RegistryState.setList] at he
    by_cases hgen : task.gen = st.live
    · rw [hgen, Function.update_self] at he
      by_cases htools : task.capType = .tools
      · rw [htools, Function.update_self] at he
        rcases entry_enrollAll (fun off hoff ↦ svr_of_mem_offersOf hoff) he with
          hmem | ⟨hnot, orig, horig⟩
        · exact absurd hmem hold
        · refine htaken orig hnot ?_ (Or.inl ⟨htools, hgen⟩)
          rw [hmap, hgen, htools]
          exact horig
      · rw [Function.update_of_ne (Ne.symm htools)] at he
        exact absurd he hold
    · rw [Function.update_of_ne (Ne.symm hgen)] at he
      exact absurd he hold

end Mirrors

/-! ## The events -/

section Events

variable {engine : Engine} {g m : IndexedGateway V}

/-- **The invariant.** Everything advertised has a route, in whichever registry; the server
advertises from the registry of the routing layer; and the index is right about that one. -/
structure Inv (engine : Engine) (g : IndexedGateway V) : Prop where
  known : g.gateway.Known
  named : ∀ r ∈ g.gateway.service.registries, r.state.view.NamesRouted
  server : g.gateway.service.server = g.gateway.service.routing
  mirrors : ∀ index, g.Indexed index →
    ∃ r, g.gateway.registryAt g.gateway.service.routing = some r ∧ Mirrors engine index r.state

theorem Inv.foundAreCallable (h : Inv engine g) : g.FoundAreCallable engine := by
  have hresolve : ∀ {r : Registry V},
      g.gateway.registryAt g.gateway.service.routing = some r → ∀ name,
      g.gateway.resolveAt g.gateway.service.routing name = r.state.resolveCapability name := by
    intro r hr name
    rw [Gateway.resolveAt, hr, Option.bind_some]
  constructor
  · intro index hindex name hfound
    obtain ⟨r, hr, hmirrors⟩ := h.mirrors index (Or.inr hindex)
    rw [hresolve hr]
    exact hmirrors.found name hfound
  · intro index hindex r hr e he
    obtain ⟨r', hr', hmirrors⟩ := h.mirrors index (Or.inr hindex)
    rw [h.server] at hr
    obtain rfl := Option.some.inj (hr'.symm.trans hr)
    obtain ⟨entry, route, hget, hroute, hbackend⟩ := hmirrors.advertised e he
    exact ⟨entry, route, hget, (hresolve hr e.name).trans hroute, hbackend⟩

theorem Inv.init (engine : Engine) : Inv engine (init : IndexedGateway V) where
  known := ⟨Nat.zero_lt_one, by simp [IndexedGateway.init, Gateway.init, Service.init]⟩
  named := by
    intro r hr
    obtain rfl := List.mem_singleton.mp hr
    exact (Made.make none .default).namesRouted
  server := rfl
  mirrors := by
    rintro index (⟨optimizer, hoptimizer, -⟩ | hindex)
    · exact absurd hoptimizer (by simp [IndexedGateway.init])
    · exact absurd hindex (by simp [IndexedGateway.init])

/-- What happens to the gateway without an index being filled or put in place: the registry of the
routing layer stays, or an index that was right about it still is. -/
theorem Inv.withGateway {gateway : Gateway V} (h : Inv engine g) (hknown : gateway.Known)
    (hnamed : ∀ r ∈ gateway.service.registries, r.state.view.NamesRouted)
    (hserver : gateway.service.server = g.gateway.service.server)
    (hrouting : gateway.service.routing = g.gateway.service.routing)
    (hregistry : ∀ index, g.Indexed index → ∀ r,
      g.gateway.registryAt g.gateway.service.routing = some r → Mirrors engine index r.state →
      ∃ r', gateway.registryAt g.gateway.service.routing = some r' ∧
        Mirrors engine index r'.state) :
    Inv engine { g with gateway := gateway } := by
  refine ⟨hknown, hnamed, hserver.trans (h.server.trans hrouting.symm), fun index hindex ↦ ?_⟩
  obtain ⟨r, hr, hmirrors⟩ := h.mirrors index hindex
  dsimp only
  rw [hrouting]
  exact hregistry index hindex r hr hmirrors

theorem Inv.onChecker {gateway : Gateway V} {step : Step} (h : Inv engine g)
    (hstep : g.gateway.onChecker step = some gateway)
    (hnames : ∀ cfg st st', registryStep cfg st step = some st' → st.view.NamesRouted →
      st'.view.NamesRouted)
    (hmirrors : g.gateway.service.checker = g.gateway.service.routing → ∀ index,
      g.Indexed index → ∀ r ∈ g.gateway.registryAt g.gateway.service.routing,
      r.state.view.NamesRouted → ∀ st, registryStep r.rules r.state step = some st →
      Mirrors engine index r.state → Mirrors engine index st) :
    Inv engine { g with gateway := gateway } := by
  obtain ⟨id, hid, hstep⟩ := Option.bind_eq_some_iff.mp hstep
  obtain ⟨r, hr, hstep⟩ := Option.bind_eq_some_iff.mp hstep
  obtain ⟨st, hst, rfl⟩ := Option.map_eq_some_iff.mp hstep
  have hlt : id < g.gateway.service.registries.length := (List.getElem?_eq_some_iff.mp hr).1
  have hnamed := h.named r (List.mem_of_getElem? hr)
  apply h.withGateway
  · refine ⟨?_, fun j hj ↦ ?_⟩
    · rw [List.length_set]
      exact h.known.registry
    · rw [List.length_set]
      exact h.known.routing j hj
  · intro r' hr'
    rcases List.mem_or_eq_of_mem_set hr' with hold | rfl
    · exact h.named r' hold
    · exact hnames r.rules r.state st hst hnamed
  · rfl
  · rfl
  · intro index hindex r' hr' hright
    rw [Gateway.registryAt] at hr' ⊢
    obtain ⟨j, hj, hr'⟩ := Option.bind_eq_some_iff.mp hr'
    dsimp only
    rw [hj, Option.bind_some]
    by_cases hsame : id = j
    · -- the health checker and the routing layer have the same registry
      subst hsame
      obtain rfl := Option.some.inj (hr.symm.trans hr')
      refine ⟨_, List.getElem?_set_self hlt, ?_⟩
      refine hmirrors (hid.trans hj.symm) index hindex r ?_ hnamed st hst hright
      rw [Gateway.registryAt, hj]
      exact hr
    · rw [List.getElem?_set_ne hsame]
      exact ⟨r', hr', hright⟩

/-- What is done to the service without attaching it: a registry that is made is nobody's. -/
theorem Inv.service {s : Service V} (h : Inv engine g) (hs : Extends g.gateway.service s) :
    Inv engine { g with gateway := { g.gateway with service := s } } := by
  obtain ⟨added, hadded, hmade⟩ := hs.added
  apply h.withGateway
  · refine ⟨hs.registry, fun id hid ↦ ?_⟩
    have hlt := h.known.routing id (hs.routing ▸ hid)
    dsimp only
    rw [hadded, List.length_append]
    omega
  · intro r hr
    dsimp only at hr
    rw [hadded, List.mem_append] at hr
    rcases hr with hr | hr
    · exact h.named r hr
    · exact (hmade r hr).namesRouted
  · exact hs.server
  · exact hs.routing
  · intro index hindex r hr hright
    refine ⟨r, ?_, hright⟩
    obtain ⟨id, hid, hr⟩ := Option.bind_eq_some_iff.mp hr
    have hlt := h.known.routing id hid
    rw [Gateway.registryAt, hid, Option.bind_some, hadded, List.getElem?_append_left hlt]
    exact hr

/-- The index is filled from the registry that the routing layer is given. -/
theorem Inv.attach {fullCfg : Option OptimizerConfig} (h : Inv engine g)
    (hfirst : g.gateway.service.server = none) (hm : g.attach fullCfg = some m) :
    Inv engine m := by
  obtain ⟨r, hr, rfl⟩ := Option.map_eq_some_iff.mp hm
  have hnamed : r.state.view.NamesRouted := h.named r (List.mem_of_getElem? hr)
  have hknown : Gateway.Known
      { g.gateway with service := g.gateway.service.attach true } := by
    refine ⟨h.known.registry, fun id hid ↦ ?_⟩
    obtain rfl := Option.mem_some_iff.mp hid
    exact h.known.registry
  -- there is no index before
  have hnone : ∀ index, ¬g.Indexed index := by
    intro index hindex
    obtain ⟨r', hr', -⟩ := h.mirrors index hindex
    rw [← h.server, hfirst] at hr'
    exact absurd hr' (by simp [Gateway.registryAt])
  have hfilled : ∀ index ∈ (setupOptimizer r.state fullCfg).index,
      Mirrors engine index r.state := by
    intro index hindex
    rw [setupOptimizer] at hindex
    split at hindex
    · obtain rfl := Option.mem_some_iff.mp hindex
      exact mirrors_populate hnamed
    · exact absurd hindex (by simp)
  dsimp only
  split
  · refine ⟨hknown, h.named, rfl, ?_⟩
    rintro index (⟨optimizer, hoptimizer, hindex⟩ | hindex)
    · obtain rfl := Option.mem_some_iff.mp hoptimizer
      exact ⟨r, hr, hfilled index hindex⟩
    · exact absurd (Or.inr hindex) (hnone index)
  · refine ⟨hknown, h.named, rfl, ?_⟩
    rintro index (hstoring | hindex)
    · exact absurd (Or.inl hstoring) (hnone index)
    · exact ⟨r, hr, hfilled index hindex⟩

theorem Inv.step [DecidableEq V] {ev : Event V} (h : Inv engine g) (hkeeps : g.KeepsIndex engine ev)
    (hm : g.step ev = some m) : Inv engine m := by
  rcases ev with ev | fullCfg | _
  · rw [IndexedGateway.step] at hm
    split at hm
    · exact absurd hm (by simp)
    · rename_i hattach
      obtain ⟨gateway, hgateway, rfl⟩ := Option.map_eq_some_iff.mp hm
      rcases ev with op | _ | name | name | ⟨task, reply⟩ | id | id
      · obtain ⟨s, hs, rfl⟩ := Option.map_eq_some_iff.mp hgateway
        refine h.service (extends_step ?_ h.known.registry hs)
        rintro chainBuilt rfl
        exact hattach rfl
      · rw [Gateway.step] at hgateway
        split at hgateway
        · obtain rfl := Option.some.inj hgateway
          exact ⟨⟨h.known.registry, h.known.routing⟩, h.named, h.server, h.mirrors⟩
        · exact absurd hgateway (by simp)
      · refine h.onChecker hgateway ?_ ?_
        · rintro cfg st st' hst hnames
          obtain rfl := Option.some.inj hst
          exact RegistryState.namesRouted_removeBackend hnames name
        · intro hcheck index hindex r hr hnames st hst hright
          obtain rfl := Option.some.inj hst
          refine hright.removeBackend hnames fun tool route hfound hroute ↦ ?_
          refine hkeeps hcheck index hindex tool route hfound ?_
          rw [Gateway.resolveAt, Option.mem_def.mp hr]
          exact hroute
      · refine h.onChecker hgateway ?_ ?_
        · rintro cfg st st' hst hnames
          exact Option.some.inj hst ▸ hnames
        · intro hcheck index hindex r hr hnames st hst hright
          obtain rfl := Option.some.inj hst
          exact ⟨hright.found, hright.advertised⟩
      · refine h.onChecker hgateway ?_ ?_
        · intro cfg st st' hst hnames
          obtain ⟨-, rfl⟩ := registryStep_complete.mp hst
          exact RegistryState.namesRouted_complete hnames cfg task reply
        · intro hcheck index hindex r hr hnames st hst hright
          obtain ⟨-, rfl⟩ := registryStep_complete.mp hst
          exact hright.complete fun tool ↦ hkeeps hcheck index hindex r hr tool
      · obtain rfl := Option.some.inj hgateway
        rw [Gateway.handleSse]
        split
        · exact h
        · split
          · exact ⟨⟨h.known.registry, h.known.routing⟩, h.named, h.server, h.mirrors⟩
          · exact h
      · obtain rfl := Option.some.inj hgateway
        exact ⟨⟨h.known.registry, h.known.routing⟩, h.named, h.server, h.mirrors⟩
  · rw [IndexedGateway.step] at hm
    split at hm
    · exact absurd hm (by simp)
    · rename_i hserver
      exact h.attach (Option.not_isSome_iff_eq_none.mp hserver) hm
  · obtain ⟨optimizer, hoptimizer, rfl⟩ := Option.map_eq_some_iff.mp hm
    refine ⟨h.known, h.named, h.server, ?_⟩
    rintro index (⟨other, hother, -⟩ | hindex)
    · exact absurd hother (by simp)
    · exact h.mirrors index (Or.inl ⟨optimizer, hoptimizer, hindex⟩)

end Events

/-! ## Runs -/

section Runs

variable {V : Type*} [DecidableEq V]

/-- In every quiescent state that the events lead to, found tools are callable. -/
def AlwaysCallable (engine : Engine) (events : List (Event V)) : Prop :=
  ∀ pre g, pre <+: events → Run.run step init pre = some g → g.Quiescent →
    g.FoundAreCallable engine

/-- **Found tools are callable**, along every run in which no tool is withdrawn that can be found,
and none advertised by a backend that the index does not know of. -/
theorem alwaysCallable_of_guarded (engine : Engine) (events : List (Event V))
    (hkeeps : Run.Guarded step (fun g ev ↦ g.KeepsIndex engine ev) init events) :
    AlwaysCallable engine events := by
  rintro pre g ⟨post, rfl⟩ hrun -
  obtain ⟨hpre, -⟩ := Run.guarded_append.mp hkeeps
  have hinv : Inv engine g :=
    Run.invariant_of_run (fun g ev m h hok hm ↦ h.step hok hm) (Inv.init engine) hpre hrun
  exact hinv.foundAreCallable

end Runs

/-! ### A backend is hidden -/

section Example

/-- Without scikit-learn, for texts in ASCII. -/
def wordEngine : Engine := ⟨fun text ↦ String.ofList (text.toList.map Char.toLower), none⟩

/-- The backends list the same tool, and the first one has it. The server is attached with the
optimizer on. -/
def indexed (names : List String) : List (Event Unit) :=
  [.gateway (.service (.start (some (fileWith names)) (.read .default) names
      (.inOrder (toolListing ["x"])))),
    .attach (some ⟨true, []⟩), .stored]

/-- Where the events lead. -/
def after (events : List (Event Unit)) : IndexedGateway Unit :=
  (Run.run step init events).getD init

def secondTools : Task := ⟨"beta", .tools, 2, .single⟩

/-- The backend that has nothing is hidden, and lists its tool again. -/
def secondHidden : List (Event Unit) :=
  indexed ["alpha", "beta"] ++ [.gateway (.hide "beta")] ++ [.gateway (.restore "beta")] ++
    [.gateway (.listed secondTools (toolListing ["x"] "beta" .tools))]

theorem keepsIndex_secondHidden :
    Run.Guarded step (fun g ev ↦ g.KeepsIndex wordEngine ev) init secondHidden := by
  have hafter : ∀ {events g}, Run.run step init events = some g → g = after events := by
    intro events g hrun
    rw [after, hrun, Option.getD_some]
  rw [secondHidden, Run.guarded_append, Run.guarded_append, Run.guarded_append]
  simp only [Run.guarded_singleton]
  refine ⟨⟨⟨Run.guarded_of_forall_mem _ fun ev hev g ↦ ?_, fun g hg ↦ ?_⟩, fun _ _ ↦ trivial⟩,
    fun g hg ↦ ?_⟩
  · simp only [indexed, List.mem_cons, List.not_mem_nil, or_false] at hev
    rcases hev with rfl | rfl | rfl
    · trivial
    · trivial
    · trivial
  · -- the second backend has no route
    have hnone : ∀ r ∈ (after (indexed ["alpha", "beta"])).gateway.registryAt
        (after (indexed ["alpha", "beta"])).gateway.service.routing,
        ∀ item ∈ r.state.routeMap.items, item.2.1 ≠ "beta" := by decide
    obtain rfl := hafter hg
    intro _ index _ tool route _ hroute
    obtain ⟨r, hr, hroute⟩ := Option.bind_eq_some_iff.mp hroute
    exact hnone r hr _ (Dict.mem_items_of_get?_eq_some hroute)
  · -- and is given none
    have hnone : ∀ r ∈ (after (indexed ["alpha", "beta"] ++ [.gateway (.hide "beta")] ++
        [.gateway (.restore "beta")])).gateway.registryAt (some 1),
        (∀ item ∈ r.state.routeMap.items, item.2.1 ≠ "beta") ∧
        ∀ item ∈ (r.state.complete r.rules secondTools
          (toolListing ["x"] "beta" .tools)).routeMap.items, item.2.1 ≠ "beta" := by decide
    obtain rfl := hafter hg
    intro _ index _ r hr tool htakes _
    obtain ⟨hbefore, hlater⟩ := hnone r hr
    have hkey : ¬∃ orig, r.state.routeMap.get? tool = some ("beta", orig) := by
      rintro ⟨orig, horig⟩
      exact hbefore _ (Dict.mem_items_of_get?_eq_some horig) rfl
    obtain ⟨orig, horig⟩ := (@RegistryState.takes_complete r.rules r.state secondTools
      (toolListing ["x"] "beta" .tools) tool hkey).mpr htakes
    exact absurd rfl (hlater _ (Dict.mem_items_of_get?_eq_some horig))

theorem alwaysCallable_secondHidden :
    (Run.run step init secondHidden).isSome ∧ AlwaysCallable wordEngine secondHidden :=
  ⟨by decide, alwaysCallable_of_guarded wordEngine _ keepsIndex_secondHidden⟩

def onlyHidden : List (Event Unit) := indexed ["alpha"] ++ [.gateway (.hide "alpha")]

/-- Its tool is still found, and cannot be called. -/
theorem not_alwaysCallable_onlyHidden : ¬AlwaysCallable wordEngine onlyHidden := by
  intro h
  have hrun : Run.run step init onlyHidden = some (after onlyHidden) :=
    Run.run_eq_some_getD (by decide) init
  have hindexed : ((after onlyHidden).optimizer.index.bind fun index ↦
      (index.tools.get? "x").map fun entry ↦
        decide (Optimizer.tokenize wordEngine.lower entry.searchText = [])) = some false := by
    decide
  obtain ⟨index, hindex, hget⟩ := Option.bind_eq_some_iff.mp hindexed
  obtain ⟨entry, hentry, htokens⟩ := Option.map_eq_some_iff.mp hget
  have hfound : index.Finds wordEngine "x" :=
    (ToolIndex.finds_iff rfl).mpr ⟨entry, hentry, of_decide_eq_false htokens⟩
  have hcallable := h onlyHidden _ (List.prefix_refl _) hrun ⟨by decide, rfl⟩
  exact absurd (hcallable.found index hindex "x" hfound) (by decide)

end Example

end IndexedGateway

end ArgusMcp
