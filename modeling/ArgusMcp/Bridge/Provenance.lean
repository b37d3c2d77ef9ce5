import ArgusMcp.Bridge.Consistency
import ArgusMcp.Bridge.Middleware

/-!
# Where routes and advertised items come from

Every route was created by an item that some backend listed, that passed the backend's filter under
its original name, and whose original name the route stores. The invariant mentions the labels of
the run, because a listing is what a completed task was answered; it holds in every state of every
run, whatever is in progress.

## What the filter does not see

A filter is chosen by capability type, and a route has none. When one backend lists the same name
under two types, one filter denying it and the other letting it through, the route of the permitted
item leads to the denied one as well: the request's method, not the route, selects the type at the
backend. `NoSharedDeniedName` excludes this, and nothing else is needed.
-/

namespace ArgusMcp

/-! ## Listings in a run -/

/-- A task of the run was answered with a listing of `svrName` that contains the item. -/
def ListedIn (hist : List Step) (svrName : String) (capType : CapType) (cap : Cap) : Prop :=
  ∃ task reply, Step.complete task reply ∈ hist ∧ task.svr = svrName ∧ task.capType = capType ∧
    RawItem.item capType cap ∈ ListReply.items reply

theorem ListedIn.mono {hist : List Step} {svrName : String} {capType : CapType} {cap : Cap}
    (h : ListedIn hist svrName capType cap) (later : List Step) :
    ListedIn (hist ++ later) svrName capType cap := by
  obtain ⟨task, reply, hmem, hsvr, htype, hitem⟩ := h
  exact ⟨task, reply, List.mem_append_left later hmem, hsvr, htype, hitem⟩

/-- An item of the run that may stand behind `key`: listed, named, let through by its filter, and
exposed under `key`. -/
structure Supplies (cfg : RegistryConfig) (hist : List Step) (svrName : String)
    (capType : CapType) (key : String) (cap : Cap) : Prop where
  listed : ListedIn hist svrName capType cap
  named : cap.name ≠ ""
  passes : passesFilter cfg svrName capType cap.name = true
  exposes : (mkOffer cfg svrName capType cap).Exposes cfg.strategy key

theorem Supplies.mono {cfg : RegistryConfig} {hist : List Step} {svrName key : String}
    {capType : CapType} {cap : Cap} (h : Supplies cfg hist svrName capType key cap)
    (later : List Step) : Supplies cfg (hist ++ later) svrName capType key cap :=
  ⟨h.listed.mono later, h.named, h.passes, h.exposes⟩

/-- **The provenance invariant**, for the route map and for every list object. -/
structure Provenance (cfg : RegistryConfig) (hist : List Step) (st : RegistryState) : Prop where
  route : ∀ key svrName orig, st.routeMap.get? key = some (svrName, orig) →
    ∃ capType cap, Supplies cfg hist svrName capType key cap ∧ cap.name = orig
  entry : ∀ gen capType, ∀ e ∈ st.lists gen capType,
    ∃ cap, Supplies cfg hist e.supplier capType e.name cap ∧ cap.name = e.orig ∧
      e.cap = { renameCap cfg e.supplier capType cap with name := e.name }

namespace Provenance

variable {cfg : RegistryConfig} {hist : List Step} {st : RegistryState}

theorem init : Provenance cfg [] RegistryState.init where
  route := by simp [RegistryState.init]
  entry := by simp [RegistryState.init]

theorem mono (h : Provenance cfg hist st) (later : List Step) :
    Provenance cfg (hist ++ later) st where
  route key svrName orig hget := by
    obtain ⟨capType, cap, hsup, hname⟩ := h.route key svrName orig hget
    exact ⟨capType, cap, hsup.mono later, hname⟩
  entry gen capType e he := by
    obtain ⟨cap, hsup, horig, hcap⟩ := h.entry gen capType e he
    exact ⟨cap, hsup.mono later, horig, hcap⟩

theorem weaken {st' : RegistryState} (h : Provenance cfg hist st)
    (hroute : ∀ key r, st'.routeMap.get? key = some r → st.routeMap.get? key = some r)
    (hentry : ∀ gen capType, ∀ e ∈ st'.lists gen capType,
      ∃ gen', e ∈ st.lists gen' capType) : Provenance cfg hist st' where
  route key svrName orig hget := h.route key svrName orig (hroute key _ hget)
  entry gen capType e he := by
    obtain ⟨gen', he'⟩ := hentry gen capType e he
    exact h.entry gen' capType e he'

theorem mem_newLists (ls : CapType → List Entry) {gen : ℕ} {capType : CapType} {e : Entry}
    (hls : ∀ e ∈ ls capType, ∃ gen', e ∈ st.lists gen' capType)
    (he : e ∈ st.newLists ls gen capType) : ∃ gen', e ∈ st.lists gen' capType := by
  rw [RegistryState.newLists] at he
  by_cases hgen : gen = st.fresh
  · rw [hgen, Function.update_self] at he
    exact hls e he
  · rw [Function.update_of_ne hgen] at he
    exact ⟨gen, he⟩

theorem discoverAndRegister (h : Provenance cfg hist st) (sessions : Dict String Bool) :
    Provenance cfg hist (st.discoverAndRegister sessions) := by
  refine h.weaken ?_ ?_
  · intro key r hr
    rw [RegistryState.discoverAndRegister] at hr
    split at hr
    · simp [RegistryState.publish] at hr
    · simp at hr
  · intro gen capType e he
    rw [RegistryState.discoverAndRegister] at he
    split at he
    · exact mem_newLists (fun _ ↦ []) (by simp) he
    · exact mem_newLists (fun _ ↦ []) (by simp) he

theorem removeBackend (h : Provenance cfg hist st) (svrName : String) :
    Provenance cfg hist (st.removeBackend svrName) := by
  refine h.weaken ?_ ?_
  · intro key r hr
    rw [RegistryState.removeBackend, Dict.get?_foldl_del] at hr
    split at hr
    · exact absurd hr (by simp)
    · exact hr
  · intro gen capType e he
    exact mem_newLists _ (fun e he ↦ ⟨st.live, List.mem_of_mem_filter he⟩) he

theorem complete (h : Provenance cfg hist st) (task : Task) (reply : ListReply) :
    Provenance cfg (hist ++ [.complete task reply]) (st.complete cfg task reply) := by
  obtain ⟨hmap, hlists, -⟩ := complete_tables cfg st task reply
  have hgrows := GrowsBy.enrollAll (fun _ h ↦ h) (GrowsBy.refl cfg.strategy
    (taskOffers cfg task reply) ⟨st.routeMap, st.lists task.gen task.capType⟩)
  -- an offer of the task is an item of the listing just received
  have hsupply : ∀ off ∈ taskOffers cfg task reply, ∀ key, off.Exposes cfg.strategy key →
      ∃ cap, Supplies cfg (hist ++ [.complete task reply]) task.svr task.capType key cap ∧
        off = mkOffer cfg task.svr task.capType cap := by
    intro off hoff key hexp
    obtain ⟨cap, hmem, hnamed, hpasses, rfl⟩ := mem_offersOf_iff.mp hoff
    exact ⟨cap, ⟨⟨task, reply, by simp, rfl, rfl, hmem⟩, hnamed, hpasses, hexp⟩, rfl⟩
  have h' := h.mono [.complete task reply]
  constructor
  · intro key svrName orig hget
    rw [hmap] at hget
    rcases hgrows.route key _ hget with hget | ⟨off, hoff, hr, hexp⟩
    · exact h'.route key svrName orig hget
    · obtain ⟨cap, hsup, rfl⟩ := hsupply off hoff key hexp
      rw [Prod.mk.injEq] at hr
      obtain ⟨rfl, rfl⟩ := hr
      exact ⟨task.capType, cap, hsup, rfl⟩
  · intro gen capType e he
    rw [hlists, RegistryState.setList] at he
    by_cases hgen : gen = task.gen
    · rw [hgen, Function.update_self] at he
      by_cases htype : capType = task.capType
      · rw [htype, Function.update_self] at he
        rcases hgrows.entry e he with he | ⟨off, hoff, heo, hexp⟩
        · exact htype ▸ h'.entry task.gen task.capType e he
        · obtain ⟨cap, hsup, rfl⟩ := hsupply off hoff e.name hexp
          have hsupplier : e.supplier = task.svr := congrArg Entry.supplier heo
          refine ⟨cap, ?_, (congrArg Entry.orig heo).symm, ?_⟩
          · rw [hsupplier, htype]
            exact hsup
          · rw [hsupplier, htype]
            exact congrArg Entry.cap heo
      · rw [Function.update_of_ne htype] at he
        exact h'.entry task.gen capType e he
    · rw [Function.update_of_ne hgen] at he
      exact h'.entry gen capType e he

theorem step {step : Step} {st' : RegistryState} (h : Provenance cfg hist st)
    (hstep : registryStep cfg st step = some st') : Provenance cfg (hist ++ [step]) st' := by
  cases step with
  | discoverAndRegister sessions =>
    rw [← Option.some.inj hstep]
    exact (h.discoverAndRegister sessions).mono _
  | discoverSingleBackend svrName =>
    rw [← Option.some.inj hstep]
    exact (h.mono _).weaken (fun _ _ hr ↦ hr) (fun gen _ _ he ↦ ⟨gen, he⟩)
  | removeBackend svrName =>
    rw [← Option.some.inj hstep]
    exact (h.removeBackend svrName).mono _
  | complete task reply =>
    obtain ⟨-, rfl⟩ := registryStep_complete.mp hstep
    exact h.complete task reply
  | publish gen =>
    obtain ⟨-, rfl⟩ := registryStep_publish.mp hstep
    exact (h.mono _).weaken (fun _ _ hr ↦ hr) (fun g _ _ he ↦ ⟨g, he⟩)

end Provenance

theorem provenance_of_run {cfg : RegistryConfig} {tr : List Step} {st : RegistryState}
    (hrun : registryRun cfg RegistryState.init tr = some st) : Provenance cfg tr st :=
  Run.history_invariant_of_run (fun _ _ _ _ h hs ↦ h.step hs) Provenance.init hrun

/-! ## Filter safety -/

def filterFor (cfg : RegistryConfig) (svrName : String) (capType : CapType) :
    Option CapabilityFilter :=
  (cfg.filters.get? svrName).bind fun svrFilters ↦ svrFilters.get? capType

theorem fnmatch_eq_false_of_passesFilter {cfg : RegistryConfig} {svrName name pat : String}
    {capType : CapType} {f : CapabilityFilter} (hf : filterFor cfg svrName capType = some f)
    (hpat : pat ∈ f.deny) (hpass : passesFilter cfg svrName capType name = true) :
    Fnmatch.fnmatch name pat = false := by
  rw [passesFilter, ← filterFor, hf] at hpass
  dsimp only at hpass
  by_contra hmatch
  rw [Bool.not_eq_false] at hmatch
  rw [CapabilityFilter.isAllowed_eq_false_of_deny hpat hmatch] at hpass
  exact absurd hpass (by simp)

/-- The server and the name a backend call carries. -/
def BackendCall.target {O : Type} : BackendCall O → Route
  | .callTool svrName name _ => (svrName, name)
  | .readResource svrName uri => (svrName, uri)
  | .getPrompt svrName name _ => (svrName, name)

/-- Rename reversal and filter safety of a state reached by a run. -/
structure FilterSafe (cfg : RegistryConfig) (hist : List Step) (st : RegistryState) : Prop where
  /-- A route leads to a listed item under its own name, and that item passes its filter, matching
  none of its deny patterns. -/
  reversal : ∀ exposed svrName orig, st.resolveCapability exposed = some (svrName, orig) →
    ∃ capType cap, ListedIn hist svrName capType cap ∧ cap.name = orig ∧
      passesFilter cfg svrName capType orig = true ∧
      (∀ f, filterFor cfg svrName capType = some f →
        ∀ pat ∈ f.deny, Fnmatch.fnmatch orig pat = false) ∧
      -- the exposed name is what the strategy makes of the renamed original
      let offered := cfg.strategy.transformName svrName (newName cfg svrName capType orig)
      exposed = offered ∨
        ∃ old, cfg.strategy.handleConflict offered old svrName = .ok (.rename exposed)
  /-- No advertised item is denied. -/
  advertised : ∀ capType, ∀ e ∈ st.advertisedLists capType,
    ∃ cap, ListedIn hist e.supplier capType cap ∧ cap.name = e.orig ∧
      passesFilter cfg e.supplier capType cap.name = true ∧
      e.cap = { renameCap cfg e.supplier capType cap with name := e.name }
  /-- No denied item is routable. -/
  denied : ∀ svrName capType cap, ListedIn hist svrName capType cap →
    passesFilter cfg svrName capType cap.name = false →
    ∀ exposed, st.resolveCapability exposed ≠ some (svrName, cap.name)
  /-- A routed call names an item the backend listed, by the name the backend gave it. -/
  calls : ∀ (O : Type) (manager : Dict String (Session O)) (ctx : RequestContext O),
    ∀ call ∈ (routingMiddleware (some st) (some manager) ctx).calls,
      st.resolveCapability ctx.capabilityName = some call.target ∧
      ∃ capType cap, ListedIn hist call.target.1 capType cap ∧ cap.name = call.target.2

/-- No backend lists a name under a type whose filter denies it and, under another type, one with
the same name that is let through. -/
def NoSharedDeniedName (cfg : RegistryConfig) (hist : List Step) : Prop :=
  ∀ svrName capType capType' cap cap', ListedIn hist svrName capType cap →
    ListedIn hist svrName capType' cap' → cap.name = cap'.name → cap.name ≠ "" →
    passesFilter cfg svrName capType' cap'.name = true →
    passesFilter cfg svrName capType cap.name = true

theorem target_of_mem_calls {O : Type} {registry : RegistryState}
    {manager : Dict String (Session O)} {ctx : RequestContext O} {call : BackendCall O}
    (h : call ∈ (routingMiddleware (some registry) (some manager) ctx).calls) :
    registry.resolveCapability ctx.capabilityName = some call.target := by
  rw [calls_routingMiddleware] at h
  cases hres : registry.resolveCapability ctx.capabilityName with
  | none => simp [hres] at h
  | some r =>
    obtain ⟨svrName, orig⟩ := r
    rw [hres] at h
    dsimp only at h
    split at h
    · rcases hm : ctx.mcpMethod with _ | _ | _ | method
      all_goals rw [hm] at h
      all_goals simp only [McpMethod.backendCall, List.mem_singleton, List.not_mem_nil] at h
      all_goals rw [h]; rfl
    · simp at h

/-- **Rename reversal and filter safety**, in every state of every run in which no backend lists a
denied name a second time under a type that permits it. -/
theorem filterSafe_of_run {cfg : RegistryConfig} {tr : List Step} {st : RegistryState}
    (hrun : registryRun cfg RegistryState.init tr = some st)
    (hshared : NoSharedDeniedName cfg tr) : FilterSafe cfg tr st := by
  have hprov := provenance_of_run hrun
  refine ⟨?_, ?_, ?_, ?_⟩
  · intro exposed svrName orig hres
    obtain ⟨capType, cap, hsup, rfl⟩ := hprov.route exposed svrName orig hres
    exact ⟨capType, cap, hsup.listed, rfl, hsup.passes,
      fun f hf pat hpat ↦ fnmatch_eq_false_of_passesFilter hf hpat hsup.passes, hsup.exposes⟩
  · intro capType e he
    obtain ⟨cap, hsup, horig, hcap⟩ := hprov.entry st.live capType e he
    exact ⟨cap, hsup.listed, horig, hsup.passes, hcap⟩
  · intro svrName capType cap hlisted hdenied exposed hres
    obtain ⟨capType', cap', hsup, hname⟩ := hprov.route exposed svrName cap.name hres
    have hpass := hshared svrName capType capType' cap cap' hlisted hsup.listed hname.symm
      (hname ▸ hsup.named) hsup.passes
    rw [hdenied] at hpass
    exact absurd hpass (by simp)
  · intro O manager ctx call hcall
    have hres := target_of_mem_calls hcall
    obtain ⟨capType, cap, hsup, hname⟩ := hprov.route ctx.capabilityName _ _ hres
    exact ⟨hres, capType, cap, hsup.listed, hname⟩

/-! ### A denied tool and a permitted prompt of one name -/

/-- The tools of `files` whose name starts with `x` are denied. -/
def denyToolConfig : RegistryConfig where
  strategy := .firstWinsStrategy
  filters := Dict.ofList [("files", Dict.ofList [(.tools, ⟨[], ["x*"]⟩)])]
  renameMaps := Dict.empty

/-- One `discover_and_register` call in which `files` lists the tool `x` and one prompt. -/
def denyToolTrace (prompt : String) : List Step :=
  [.discoverAndRegister (Dict.ofList [("files", true)]),
    .complete ⟨"files", .tools, 1, .gather⟩ (namedReply .tools ["x"]),
    .complete ⟨"files", .resources, 1, .gather⟩ (namedReply .resources []),
    .complete ⟨"files", .prompts, 1, .gather⟩ (namedReply .prompts [prompt]),
    .publish 1]

theorem listedIn_denyToolTrace {prompt svrName : String} {capType : CapType} {cap : Cap}
    (h : ListedIn (denyToolTrace prompt) svrName capType cap) :
    (capType = .tools ∧ cap.name = "x") ∨ (capType = .prompts ∧ cap.name = prompt) := by
  obtain ⟨task, reply, hmem, -, rfl, hitem⟩ := h
  simp only [denyToolTrace, List.mem_cons, reduceCtorEq, Step.complete.injEq, List.not_mem_nil,
    false_or, or_false] at hmem
  rcases hmem with ⟨rfl, rfl⟩ | ⟨rfl, rfl⟩ | ⟨rfl, rfl⟩
  all_goals simp [namedReply, ListReply.items, parseListResult] at hitem
  · exact Or.inl ⟨rfl, by rw [hitem]⟩
  · exact Or.inr ⟨rfl, by rw [hitem]⟩

/-- The state the call ends in. -/
def denyToolFinal (prompt : String) : RegistryState :=
  (registryRun denyToolConfig RegistryState.init (denyToolTrace prompt)).getD RegistryState.init

/-- With a prompt of another name the run is filter safe. -/
theorem filterSafe_denyToolFinal_y :
    registryRun denyToolConfig RegistryState.init (denyToolTrace "y")
        = some (denyToolFinal "y") ∧
      FilterSafe denyToolConfig (denyToolTrace "y") (denyToolFinal "y") := by
  have hrun : registryRun denyToolConfig RegistryState.init (denyToolTrace "y")
      = some (denyToolFinal "y") := Run.run_eq_some_getD (by decide) RegistryState.init
  refine ⟨hrun, filterSafe_of_run hrun ?_⟩
  intro svrName capType capType' cap cap' hl hl' hname _ hpass
  rcases listedIn_denyToolTrace hl with ⟨ht, hx⟩ | ⟨ht, hx⟩ <;>
    rcases listedIn_denyToolTrace hl' with ⟨ht', hx'⟩ | ⟨ht', hx'⟩
  · rwa [ht, hname, ← ht']
  · rw [hx, hx'] at hname
    exact absurd hname (by decide)
  · rw [hx, hx'] at hname
    exact absurd hname (by decide)
  · rwa [ht, hname, ← ht']

/-- With a prompt `x` the denied tool is routable: a tool call under that name is forwarded. -/
theorem not_filterSafe_denyToolFinal_x :
    ¬∀ (cfg : RegistryConfig) (tr : List Step) (st : RegistryState),
      registryRun cfg RegistryState.init tr = some st → FilterSafe cfg tr st := by
  intro h
  have hrun : registryRun denyToolConfig RegistryState.init (denyToolTrace "x")
      = some (denyToolFinal "x") := Run.run_eq_some_getD (by decide) RegistryState.init
  have hlisted : ListedIn (denyToolTrace "x") "files" .tools ⟨"x", "x", none⟩ :=
    ⟨⟨"files", .tools, 1, .gather⟩, namedReply .tools ["x"],
      List.mem_cons_of_mem _ List.mem_cons_self, rfl, rfl, List.mem_cons_self⟩
  exact (h _ _ _ hrun).denied "files" .tools _ hlisted (by decide) "x" (by decide)

end ArgusMcp
