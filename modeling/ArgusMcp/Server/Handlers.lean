import ArgusMcp.Bridge.Lossless
import ArgusMcp.Bridge.Provenance

/-!
# The request handlers

Listing and calling are separate paths. A list request is answered from the registry, the composite
tools and, with the optimizer on, the two meta-tools; a call goes to a composite tool of that name
or through the middleware chain to the routing layer, which knows the registry only.

The module modelled is `server/handlers.py`, with the tool definitions of
`bridge/optimizer/meta_tools.py`. Input schemas are left out. The input schema of the meta-tool
`call_tool` lets only texts through as names and only objects as arguments.

## Where the two paths part

With the optimizer on, `find_tool` is advertised and sent to the routing layer, which has no such
capability; nothing ever asks the index. The meta-tool `call_tool` also goes straight to the routing
layer and so misses the composite tools. Resources are advertised with their uris and routed by
their names, and the name in the route is what the backend is asked to read.
-/

namespace ArgusMcp

variable {O : Type}

/-! ## Server state -/

/-- What the transport's authentication gate has left in the context variables. -/
structure AuthContext where
  currentUser : Option UserIdentity
  currentAuthToken : Option String
  currentSessionId : Option String
  currentClientIp : Option String

/-- A workflow exposed as a tool. -/
structure CompositeTool (O : Type) where
  name : String
  workflowDescription : String
  invoke : Arguments O → Except Exc (Value O)

structure ToolInfo where
  name : String
  description : Option String
  deriving DecidableEq, Repr

/-- The part of the server state the handlers read. -/
structure ServerState (O : Type) where
  registry : Option RegistryState
  middlewareChain : Option (MCPHandler O)
  compositeTools : List (CompositeTool O)
  /-- Whether there is a tool index. -/
  optimizerIndex : Bool
  optimizerEnabled : Bool
  optimizerKeepList : List String

/-- The optimizer replaces the catalog. -/
def ServerState.optimizerActive (st : ServerState O) : Bool :=
  st.optimizerEnabled && st.optimizerIndex

def CompositeTool.toToolInfo (ct : CompositeTool O) : ToolInfo where
  name := ct.name
  description := some (if ct.workflowDescription ≠ "" then ct.workflowDescription
    else "Composite workflow: " ++ ct.name)

def findToolName : String := "find_tool"

def callToolName : String := "call_tool"

/-- The tools that stand for the catalog. -/
def metaTools : List ToolInfo :=
  [⟨findToolName, some ("Search across all available tools by keyword or description. " ++
      "Returns the top matching tool definitions with their schemas. " ++
      "Use this first to discover relevant tools before calling them.")⟩,
    ⟨callToolName, some ("Call any tool by its exact name with the given arguments. " ++
      "Use find_tool first to discover the tool name and required arguments.")⟩]

/-! ## Listing -/

/-- The tools of the registry, then the composite ones. -/
def ServerState.catalog (st : ServerState O) (registry : RegistryState) : List ToolInfo :=
  registry.getAggregatedTools.map (fun e ↦ ⟨e.cap.name, e.cap.description⟩)
    ++ st.compositeTools.map CompositeTool.toToolInfo

def handleListTools (st : ServerState O) : Except Exc (List ToolInfo) :=
  match st.registry with
  | none => .error (backendServerError "Registry is not initialized")
  | some registry =>
    let tools := st.catalog registry
    if st.optimizerActive then
      .ok (metaTools ++ tools.filter fun t ↦ decide (t.name ∈ st.optimizerKeepList))
    else .ok tools

def handleListResources (st : ServerState O) : Except Exc (List Entry) :=
  match st.registry with
  | none => .error (backendServerError "Registry is not initialized")
  | some registry => .ok registry.getAggregatedResources

def handleListPrompts (st : ServerState O) : Except Exc (List Entry) :=
  match st.registry with
  | none => .error (backendServerError "Registry is not initialized")
  | some registry => .ok registry.getAggregatedPrompts

/-! ## Calling -/

/-- What runs a call, other than a backend: a composite tool, or the code of a meta-tool. -/
inductive Executor (O : Type) where
  | composite (name : String) (arguments : Arguments O)
  | metaTool (name : String)

/-- What serving a request did and came to. -/
structure Served (O : Type) where
  calls : List (BackendCall O)
  ran : List (Executor O)
  events : List AuditEvent
  result : Except Exc McpResult

def Served.raise (e : Exc) : Served O := ⟨[], [], [], .error e⟩

/-- The metadata entries of a request. -/
def AuthContext.metadata (auth : AuthContext) : Metadata where
  user := auth.currentUser
  userSubject := auth.currentUser.map UserIdentity.subject
  authToken := auth.currentAuthToken
  sessionId := auth.currentSessionId
  clientIp := auth.currentClientIp

/-- Routes a request through the middleware chain. An exception the chain has caught and stored in
the context is raised again. -/
def dispatch (st : ServerState O) (auth : AuthContext) (requestId : String) (capName : String)
    (mcpMethod : McpMethod) (arguments : Option (Arguments O)) : Served O :=
  match st.middlewareChain with
  | none => .raise ⟨.runtimeError,
      "Middleware chain is not initialised on the MCP server instance."⟩
  | some chain =>
    let handled := chain
      { capabilityName := capName
        mcpMethod := mcpMethod
        arguments := arguments
        requestId := requestId
        serverName := none
        originalName := none
        metadata := auth.metadata
        error := none }
    ⟨handled.calls, [], handled.events,
      match handled.result, handled.ctx.error with
      | .error e, _ => .error e
      | .ok _, some e => .error e
      | .ok result, none => .ok result⟩

/-- A tool call must come back with a tool result. -/
def Served.toolResult (name : String) (served : Served O) : Served O :=
  match served.result with
  | .error _ => served
  | .ok (.callToolResult _ _) => served
  | .ok _ =>
    { served with
      result := .error (backendServerError
        ("Backend returned invalid type for tool call '" ++ name ++ "'.")) }

/-- A composite tool runs, and its output becomes a text. -/
def invokeComposite [PyObject O] (ct : CompositeTool O) (arguments : Arguments O) : Served O :=
  let failed (message : String) : Except Exc McpResult := .error (backendServerError
    ("Composite workflow '" ++ ct.name ++ "' execution failed: " ++ message))
  ⟨[], [.composite ct.name arguments], [],
    match ct.invoke arguments with
    | .error e => failed e.message
    | .ok (.str text) => .ok (.callToolResult [text] false)
    | .ok output =>
      match PyObject.dumps output with
      | .error message => failed message
      | .ok text => .ok (.callToolResult [text] false)⟩

/-- The name the meta-tool `call_tool` is given. -/
def realName (arguments : Arguments O) : String :=
  match arguments.lookup "name" with
  | some (.str name) => name
  | _ => ""

/-- The arguments the meta-tool `call_tool` is given. -/
def realArgs (arguments : Arguments O) : Arguments O :=
  match arguments.lookup "arguments" with
  | some (.dict args) => args
  | _ => []

def handleCallTool [PyObject O] (st : ServerState O) (auth : AuthContext) (requestId : String)
    (name : String) (arguments : Arguments O) : Served O :=
  if st.optimizerActive ∧ name = findToolName then
    (dispatch st auth requestId name .callTool (some arguments)).toolResult name
  else if st.optimizerActive ∧ name = callToolName then
    if realName arguments = "" then
      { (Served.raise (backendServerError "call_tool requires a 'name' argument") : Served O) with
        ran := [.metaTool callToolName] }
    else
      { (dispatch st auth requestId (realName arguments) .callTool
          (some (realArgs arguments))).toolResult (realName arguments) with
        ran := [.metaTool callToolName] }
  else match st.compositeTools.find? fun ct ↦ decide (ct.name = name) with
    | some ct => invokeComposite ct arguments
    | none => (dispatch st auth requestId name .callTool (some arguments)).toolResult name

def handleReadResource (st : ServerState O) (auth : AuthContext) (requestId : String)
    (name : String) : Served O :=
  let served := dispatch st auth requestId name .readResource none
  match served.result with
  | .error _ => served
  | .ok (.readResourceResult _) => served
  | .ok _ =>
    { served with
      result := .error (backendServerError
        ("Backend returned invalid type for resource read '" ++ name ++ "'.")) }

/-- Prompt arguments are texts. -/
def typedArgs [PyObject O] (arguments : Arguments O) : Arguments O :=
  arguments.map fun a ↦ (a.1, .str (PyObject.str a.2))

def handleGetPrompt [PyObject O] (st : ServerState O) (auth : AuthContext) (requestId : String)
    (name : String) (arguments : Option (Arguments O)) : Served O :=
  -- without any argument the untyped ones are passed on, which is the same
  let served := dispatch st auth requestId name .getPrompt (arguments.map typedArgs)
  match served.result with
  | .error _ => served
  | .ok (.getPromptResult _) => served
  | .ok _ =>
    { served with
      result := .error (backendServerError
        ("Backend returned invalid type for prompt '" ++ name ++ "'.")) }

/-! ## What a call makes backends do -/

/-- The server is initialised: its chain ends in the routing layer over its registry, behind
middlewares that pass requests on. -/
structure Initialised (st : ServerState O) (registry : RegistryState)
    (manager : Dict String (Session O)) : Prop where
  registry_eq : st.registry = some registry
  chain : ∃ mws : List (MCPMiddleware O), (∀ mw ∈ mws, Forwards mw) ∧ st.middlewareChain
    = some (buildChain mws (routingMiddleware (some registry) (some manager)))

section Calls

variable {st : ServerState O} {registry : RegistryState} {manager : Dict String (Session O)}

theorem calls_dispatch (h : Initialised st registry manager) (auth : AuthContext)
    (requestId capName : String) (mcpMethod : McpMethod) (arguments : Option (Arguments O)) :
    (dispatch st auth requestId capName mcpMethod arguments).calls
      = match registry.resolveCapability capName with
        | none => []
        | some (svrName, origCapName) =>
          if (manager.get? svrName).isSome then
            mcpMethod.backendCall svrName origCapName arguments
          else [] := by
  obtain ⟨mws, hmws, hchain⟩ := h.chain
  rw [dispatch, hchain]
  dsimp only
  rw [calls_buildChain_routingMiddleware hmws]
  exact calls_routingMiddleware _ _ _

theorem calls_toolResult (name : String) (served : Served O) :
    (served.toolResult name).calls = served.calls ∧ (served.toolResult name).ran = served.ran := by
  rw [Served.toolResult]
  split
  · exact ⟨rfl, rfl⟩
  · exact ⟨rfl, rfl⟩
  · exact ⟨rfl, rfl⟩

theorem ran_dispatch (auth : AuthContext) (requestId capName : String) (mcpMethod : McpMethod)
    (arguments : Option (Arguments O)) :
    (dispatch st auth requestId capName mcpMethod arguments).ran = [] := by
  rw [dispatch]
  split
  · rfl
  · rfl

end Calls

/-! ## Advertised tools -/

/-- The call was carried out for the tool `t`: by the backend that `t` is routed to, under the name
`t` has there and provided the backend is connected, or by a composite tool named `t`. -/
inductive CarriedOut (registry : RegistryState) (manager : Dict String (Session O)) (t : String)
    (arguments : Arguments O) (served : Served O) : Prop where
  | backend (e : Entry) (mem : e ∈ allEntries registry.advertisedLists) (name : e.name = t)
    (route : registry.resolveCapability t = some (e.supplier, e.orig))
    (call : (manager.get? e.supplier).isSome →
      served.calls = [.callTool e.supplier e.orig arguments])
  | composite (run : Executor.composite t arguments ∈ served.ran)

/-- Every tool that is listed can be called, and through the meta-tool `call_tool` also every tool
that would be listed with the optimizer off. -/
structure Dispatchable [PyObject O] (st : ServerState O) (registry : RegistryState)
    (manager : Dict String (Session O)) : Prop where
  listed : ∀ tools, handleListTools st = .ok tools → ∀ t ∈ tools, ∀ auth requestId arguments,
    let served := handleCallTool st auth requestId t.name arguments
    CarriedOut registry manager t.name arguments served ∨
      (Executor.metaTool t.name : Executor O) ∈ served.ran
  viaCallTool : st.optimizerActive = true → ∀ tools,
    handleListTools { st with optimizerEnabled := false } = .ok tools →
    ∀ t ∈ tools, ∀ auth requestId arguments,
      CarriedOut registry manager t.name arguments (handleCallTool st auth requestId callToolName
        [("name", .str t.name), ("arguments", .dict arguments)])

/-- What the optimizer needs of the registry: `find_tool` is a backend's capability, so is every
name of a composite tool, and no tool is named by the empty text. -/
structure OptimizerServed (st : ServerState O) (registry : RegistryState) : Prop where
  findTool : (registry.resolveCapability findToolName).isSome
  composite : ∀ ct ∈ st.compositeTools, (registry.resolveCapability ct.name).isSome
  named : ∀ t ∈ st.catalog registry, t.name ≠ ""

section Tools

variable {st : ServerState O} {registry : RegistryState} {manager : Dict String (Session O)}

theorem mem_catalog {t : ToolInfo} : t ∈ st.catalog registry ↔
    (∃ e ∈ registry.getAggregatedTools, (⟨e.cap.name, e.cap.description⟩ : ToolInfo) = t) ∨
      ∃ ct ∈ st.compositeTools, ct.toToolInfo = t := by
  rw [ServerState.catalog, List.mem_append, List.mem_map, List.mem_map]

theorem carriedOut_dispatch (h : Initialised st registry manager)
    (hcons : Consistent registry.advertisedLists registry.routeMap) {t : String}
    (hroute : (registry.resolveCapability t).isSome) (auth : AuthContext) (requestId : String)
    {arguments : Arguments O} {served : Served O}
    (hcalls : served.calls
      = (dispatch st auth requestId t .callTool (some arguments)).calls) :
    CarriedOut registry manager t arguments served := by
  obtain ⟨r, hr⟩ := Option.isSome_iff_exists.mp hroute
  obtain ⟨e, he, hname⟩ := hcons.exists_entry hr
  have hres : registry.resolveCapability t = some (e.supplier, e.orig) := by
    rw [← hname]
    exact hcons.routed e he
  refine .backend e he hname hres fun hconn ↦ ?_
  rw [hcalls, calls_dispatch h, hres]
  dsimp only
  rw [if_pos hconn]
  rfl

/-- A call that only went through the chain is carried out if the name is routed, and only then. -/
theorem isSome_of_carriedOut {t : String} {arguments : Arguments O} {served : Served O}
    (hran : Executor.composite t arguments ∉ served.ran)
    (h : CarriedOut registry manager t arguments served) :
    (registry.resolveCapability t).isSome := by
  cases h with
  | backend e mem name route call =>
    rw [route]
    rfl
  | composite run => exact absurd run hran

theorem isSome_of_mem_getAggregatedTools
    (hcons : Consistent registry.advertisedLists registry.routeMap) {e : Entry}
    (he : e ∈ registry.getAggregatedTools) : (registry.resolveCapability e.name).isSome := by
  have hroute := hcons.routed e (mem_allEntries.mpr ⟨.tools, he⟩)
  rw [RegistryState.resolveCapability, hroute]
  rfl

theorem handleListTools_of_off (h : Initialised st registry manager) :
    handleListTools { st with optimizerEnabled := false } = .ok (st.catalog registry) := by
  rw [handleListTools]
  dsimp only
  rw [h.registry_eq]
  rfl

variable [PyObject O]

/-- Outside the two meta-tools a call goes to a composite tool first, and else through the chain. -/
theorem carriedOut_handleCallTool (h : Initialised st registry manager)
    (hcons : Consistent registry.advertisedLists registry.routeMap) {t : ToolInfo}
    (ht : t ∈ st.catalog registry) (hfind : ¬(st.optimizerActive ∧ t.name = findToolName))
    (hcall : ¬(st.optimizerActive ∧ t.name = callToolName)) (auth : AuthContext)
    (requestId : String) (arguments : Arguments O) :
    CarriedOut registry manager t.name arguments
      (handleCallTool st auth requestId t.name arguments) := by
  rw [handleCallTool, if_neg hfind, if_neg hcall]
  cases hct : st.compositeTools.find? fun ct ↦ decide (ct.name = t.name) with
  | some ct =>
    have hname : ct.name = t.name := by simpa using List.find?_some hct
    refine .composite ?_
    dsimp only [invokeComposite]
    rw [hname]
    exact List.mem_cons_self
  | none =>
    refine carriedOut_dispatch h hcons ?_ auth requestId (calls_toolResult _ _).1
    rcases mem_catalog.mp ht with ⟨e, he, rfl⟩ | ⟨ct, hmem, rfl⟩
    · exact isSome_of_mem_getAggregatedTools hcons he
    · have hnone := List.find?_eq_none.mp hct ct hmem
      exact absurd (decide_eq_true rfl) hnone

theorem handleCallTool_callToolName (hactive : st.optimizerActive = true) {t : String}
    (ht : t ≠ "") (auth : AuthContext) (requestId : String) (arguments : Arguments O) :
    (handleCallTool st auth requestId callToolName
        [("name", .str t), ("arguments", .dict arguments)]).calls
      = (dispatch st auth requestId t .callTool (some arguments)).calls := by
  rw [handleCallTool, if_neg (by simp [callToolName, findToolName]), if_pos ⟨hactive, rfl⟩]
  have hname : realName (O := O) [("name", .str t), ("arguments", .dict arguments)] = t := rfl
  have hargs : realArgs [("name", .str t), ("arguments", .dict arguments)] = arguments := rfl
  rw [hname, hargs, if_neg ht]
  exact (calls_toolResult _ _).1

theorem ran_handleCallTool_callToolName (hactive : st.optimizerActive = true) (auth : AuthContext)
    (requestId : String) (arguments : Arguments O) :
    (handleCallTool st auth requestId callToolName arguments).ran
      = [.metaTool callToolName] := by
  rw [handleCallTool, if_neg (by simp [callToolName, findToolName]), if_pos ⟨hactive, rfl⟩]
  split
  · rfl
  · rfl

theorem handleCallTool_findToolName (hactive : st.optimizerActive = true) (auth : AuthContext)
    (requestId : String) (arguments : Arguments O) :
    handleCallTool st auth requestId findToolName arguments
      = (dispatch st auth requestId findToolName .callTool (some arguments)).toolResult
          findToolName := by
  rw [handleCallTool, if_pos ⟨hactive, rfl⟩]

theorem dispatchable_of_inactive (h : Initialised st registry manager)
    (hcons : Consistent registry.advertisedLists registry.routeMap)
    (hoff : st.optimizerActive = false) : Dispatchable st registry manager := by
  constructor
  · intro tools htools t ht auth requestId arguments
    rw [handleListTools, h.registry_eq] at htools
    dsimp only at htools
    rw [hoff, if_neg (by simp), Except.ok.injEq] at htools
    subst htools
    exact Or.inl (carriedOut_handleCallTool h hcons ht (by simp [hoff]) (by simp [hoff]) auth
      requestId arguments)
  · intro hactive
    rw [hoff] at hactive
    exact absurd hactive (by simp)

theorem dispatchable_of_optimizerServed (h : Initialised st registry manager)
    (hcons : Consistent registry.advertisedLists registry.routeMap)
    (hactive : st.optimizerActive = true) (hserved : OptimizerServed st registry) :
    Dispatchable st registry manager := by
  constructor
  · intro tools htools t ht auth requestId arguments
    rw [handleListTools, h.registry_eq] at htools
    dsimp only at htools
    rw [if_pos hactive, Except.ok.injEq] at htools
    subst htools
    -- the two meta-tools are told by name, also among the tools that are kept
    by_cases hfind : t.name = findToolName
    · rw [hfind, handleCallTool_findToolName hactive]
      exact Or.inl (carriedOut_dispatch h hcons hserved.findTool auth requestId
        (calls_toolResult _ _).1)
    · by_cases hcall : t.name = callToolName
      · rw [hcall]
        refine Or.inr ?_
        rw [ran_handleCallTool_callToolName hactive]
        exact List.mem_cons_self
      · have hmem : t ∈ st.catalog registry := by
          rcases List.mem_append.mp ht with ht | ht
          · simp only [metaTools, List.mem_cons, List.not_mem_nil, or_false] at ht
            rcases ht with rfl | rfl
            · exact absurd rfl hfind
            · exact absurd rfl hcall
          · exact List.mem_of_mem_filter ht
        exact Or.inl (carriedOut_handleCallTool h hcons hmem (by simp [hfind]) (by simp [hcall])
          auth requestId arguments)
  · intro _ tools htools t ht auth requestId arguments
    rw [handleListTools_of_off h, Except.ok.injEq] at htools
    subst htools
    refine carriedOut_dispatch h hcons ?_ auth requestId
      (handleCallTool_callToolName hactive (hserved.named t ht) auth requestId arguments)
    rcases mem_catalog.mp ht with ⟨e, he, rfl⟩ | ⟨ct, hct, rfl⟩
    · exact isSome_of_mem_getAggregatedTools hcons he
    · exact hserved.composite ct hct

/-- With the optimizer on, dispatching everything that is advertised takes all three. -/
theorem optimizerServed_of_dispatchable (h : Initialised st registry manager)
    (hconn : ∀ e ∈ allEntries registry.advertisedLists, (manager.get? e.supplier).isSome)
    (hactive : st.optimizerActive = true) (hdisp : Dispatchable st registry manager) :
    OptimizerServed st registry := by
  have auth : AuthContext := ⟨none, none, none, none⟩
  have hvia := hdisp.viaCallTool hactive _ (handleListTools_of_off h)
  have hran : ∀ (t : String) (arguments : Arguments O), Executor.composite t ([] : Arguments O) ∉
      (handleCallTool st auth "" callToolName arguments).ran := by
    intro t arguments
    rw [ran_handleCallTool_callToolName hactive]
    simp
  constructor
  · have hlist : handleListTools st = .ok (metaTools ++ (st.catalog registry).filter
        fun t ↦ decide (t.name ∈ st.optimizerKeepList)) := by
      rw [handleListTools, h.registry_eq]
      exact if_pos hactive
    have hfind := hdisp.listed _ hlist ⟨findToolName, _⟩
      (List.mem_append_left _ List.mem_cons_self) auth "" []
    dsimp only at hfind
    have hnone : (handleCallTool st auth "" findToolName ([] : Arguments O)).ran = [] := by
      rw [handleCallTool_findToolName hactive, (calls_toolResult _ _).2, ran_dispatch]
    rcases hfind with hfind | hfind
    · exact isSome_of_carriedOut (by rw [hnone]; simp) hfind
    · rw [hnone] at hfind
      exact absurd hfind (by simp)
  · intro ct hct
    have hmem : ct.toToolInfo ∈ st.catalog registry := mem_catalog.mpr (Or.inr ⟨ct, hct, rfl⟩)
    exact isSome_of_carriedOut (hran _ _) (hvia ct.toToolInfo hmem auth "" [])
  · intro t ht hname
    -- the meta-tool refuses the empty name before it asks anybody
    have hcalls : (handleCallTool st auth "" callToolName
        [("name", .str t.name), ("arguments", .dict ([] : Arguments O))]).calls = [] := by
      rw [handleCallTool, if_neg (by simp [callToolName, findToolName]), if_pos ⟨hactive, rfl⟩,
        if_pos]
      · rfl
      · exact hname
    cases hvia t ht auth "" [] with
    | backend e mem name route call =>
      have hone := call (hconn e mem)
      rw [hcalls] at hone
      exact absurd hone (by simp)
    | composite run => exact hran _ _ run

/-- **Advertised tools are dispatchable** when the optimizer is off, whatever composite tools there
are; and with the optimizer on if, and provided the backends are connected only if, the registry
itself serves `find_tool` and the names of the composite tools. -/
theorem dispatchable_iff (h : Initialised st registry manager)
    (hcons : Consistent registry.advertisedLists registry.routeMap) :
    (st.optimizerActive = false ∨ OptimizerServed st registry →
      Dispatchable st registry manager) ∧
    ((∀ e ∈ allEntries registry.advertisedLists, (manager.get? e.supplier).isSome) →
      Dispatchable st registry manager →
      st.optimizerActive = false ∨ OptimizerServed st registry) := by
  constructor
  · intro hcond
    cases hactive : st.optimizerActive with
    | false => exact dispatchable_of_inactive h hcons hactive
    | true =>
      refine dispatchable_of_optimizerServed h hcons hactive (hcond.resolve_left ?_)
      rw [hactive]
      simp
  · intro hconn hdisp
    cases hactive : st.optimizerActive with
    | false => exact Or.inl rfl
    | true => exact Or.inr (optimizerServed_of_dispatchable h hconn hactive hdisp)

end Tools

/-! ### A catalog behind the optimizer -/

/-- A server over a registry and connected backends, with the middlewares that are always there and
one composite tool. -/
def exampleServer (registry : RegistryState) (manager : Dict String (Session Empty))
    (optimizerEnabled : Bool) : ServerState Empty where
  registry := some registry
  middlewareChain := some (buildChain [recoveryMiddleware, telemetryMiddleware, auditMiddleware]
    (routingMiddleware (some registry) (some manager)))
  compositeTools := [⟨"report", "", fun _ ↦ .ok (.str "done")⟩]
  optimizerIndex := true
  optimizerEnabled := optimizerEnabled
  optimizerKeepList := ["report"]

theorem initialised_exampleServer (registry : RegistryState)
    (manager : Dict String (Session Empty)) (optimizerEnabled : Bool) :
    Initialised (exampleServer registry manager optimizerEnabled) registry manager := by
  refine ⟨rfl, _, fun mw hmw ↦ ?_, rfl⟩
  simp only [List.mem_cons, List.not_mem_nil, or_false] at hmw
  rcases hmw with rfl | rfl | rfl
  · exact forwards_recoveryMiddleware
  · exact forwards_telemetryMiddleware
  · exact forwards_auditMiddleware

/-- With the optimizer off, the tools of two backends and the composite tool are dispatchable. -/
theorem dispatchable_exampleServer_off :
    ∃ registry : RegistryState, registry.getAggregatedTools.length = 2 ∧
      Dispatchable (exampleServer registry Dict.empty false) registry Dict.empty := by
  obtain ⟨after, -, -, -, hview⟩ := exists_discoverCall (plainConfig (.prefixStrategy "_"))
    (oneToolEach fun _ ↦ "x") Stamped.init
    (List.Perm.refl (RegistryState.discoverTasks 1 (twoSessions "a" "b")))
  have hcons : Consistent after.view.lists after.view.routeMap := by
    rw [hview]
    exact (neverYields_prefixStrategy "_").consistent_discovered _ _
  have hlen : after.getAggregatedTools.length = 2 :=
    congrArg (fun v : View ↦ (v.lists .tools).length) hview
  exact ⟨after, hlen, (dispatchable_iff (initialised_exampleServer after Dict.empty false)
    hcons).1 (Or.inl rfl)⟩

/-- With the optimizer on, `find_tool` is advertised by a registry without capabilities and cannot
be called. -/
theorem not_dispatchable_exampleServer_on :
    ¬∀ (st : ServerState Empty) (registry : RegistryState) (manager : Dict String (Session Empty)),
      Initialised st registry manager →
      Consistent registry.advertisedLists registry.routeMap →
      (∀ e ∈ allEntries registry.advertisedLists, (manager.get? e.supplier).isSome) →
      Dispatchable st registry manager := by
  intro h
  have hdisp := h (exampleServer RegistryState.init Dict.empty true) RegistryState.init Dict.empty
    (initialised_exampleServer _ _ _) Consistent.empty (by decide)
  have hserved := optimizerServed_of_dispatchable (initialised_exampleServer _ _ _) (by decide) rfl
    hdisp
  exact absurd hserved.findTool (by decide)

/-! ## Advertised resources -/

section Resources

variable {st : ServerState O} {registry : RegistryState} {manager : Dict String (Session O)}

theorem calls_handleReadResource (h : Initialised st registry manager) (auth : AuthContext)
    (requestId name : String) :
    (handleReadResource st auth requestId name).calls
      = match registry.resolveCapability name with
        | none => []
        | some (svrName, origCapName) =>
          if (manager.get? svrName).isSome then [.readResource svrName origCapName] else [] := by
  have hsame : (handleReadResource st auth requestId name).calls
      = (dispatch st auth requestId name .readResource none).calls := by
    rw [handleReadResource]
    split
    · rfl
    · rfl
    · rfl
  rw [hsame, calls_dispatch h]
  rfl

theorem calls_handleReadResource_eq_iff (h : Initialised st registry manager) {svrName : String}
    (hconn : (manager.get? svrName).isSome) (auth : AuthContext) (requestId name uri : String) :
    (handleReadResource st auth requestId name).calls = [.readResource svrName uri] ↔
      registry.resolveCapability name = some (svrName, uri) := by
  rw [calls_handleReadResource h]
  cases hres : registry.resolveCapability name with
  | none => simp
  | some r =>
    obtain ⟨s, orig⟩ := r
    dsimp only
    constructor
    · intro hcalls
      by_cases hs : (manager.get? s).isSome
      · rw [if_pos hs, List.cons.injEq, BackendCall.readResource.injEq] at hcalls
        rw [hcalls.1.1, hcalls.1.2]
      · rw [if_neg hs] at hcalls
        exact absurd hcalls (by simp)
    · intro hr
      rw [Option.some.injEq, Prod.mk.injEq] at hr
      rw [hr.1, hr.2, if_pos hconn]

/-- **When an advertised resource is readable by its uri**, in a state any run of the registry has
reached and with its backend connected. It is advertised with the uri its backend gave it. Reading
that uri reaches the backend under the same uri exactly when the uri, taken as a name, is routed
there; and as long as the registry is consistent, exactly when the backend has an advertised item
whose name, at the backend and in the catalog, is that uri. -/
theorem reads_resource_iff {cfg : RegistryConfig} {tr : List Step}
    (hreach : registryRun cfg RegistryState.init tr = some registry)
    (h : Initialised st registry manager) {resources : List Entry}
    (hlist : handleListResources st = .ok resources) {r : Entry} (hr : r ∈ resources)
    (hconn : (manager.get? r.supplier).isSome) (auth : AuthContext) (requestId : String) :
    (∃ cap, ListedIn tr r.supplier .resources cap ∧ cap.name = r.orig ∧ cap.uri = r.cap.uri) ∧
    ((handleReadResource st auth requestId r.cap.uri).calls
        = [.readResource r.supplier r.cap.uri] ↔
      registry.resolveCapability r.cap.uri = some (r.supplier, r.cap.uri)) ∧
    (Consistent registry.advertisedLists registry.routeMap →
      ((handleReadResource st auth requestId r.cap.uri).calls
          = [.readResource r.supplier r.cap.uri] ↔
        ∃ capType, ∃ e ∈ registry.advertisedLists capType, e.name = r.cap.uri ∧
          e.supplier = r.supplier ∧ e.orig = r.cap.uri)) := by
  rw [handleListResources, h.registry_eq, Except.ok.injEq] at hlist
  subst hlist
  have hroute := calls_handleReadResource_eq_iff h hconn auth requestId r.cap.uri r.cap.uri
  refine ⟨?_, hroute, fun hcons ↦ ?_⟩
  · obtain ⟨cap, hsup, hname, hcap⟩ :=
      (provenance_of_run hreach).entry registry.live .resources r hr
    refine ⟨cap, hsup.listed, hname, ?_⟩
    rw [hcap]
    exact (uri_renameCap cfg r.supplier .resources cap).symm
  · rw [hroute]
    constructor
    · intro hres
      obtain ⟨e, he, hname⟩ := hcons.exists_entry hres
      have hrouted := hcons.routed e he
      rw [hname, ← RegistryState.resolveCapability, hres, Option.some.injEq,
        Prod.mk.injEq] at hrouted
      obtain ⟨capType, hmem⟩ := mem_allEntries.mp he
      exact ⟨capType, e, hmem, hname, hrouted.1.symm, hrouted.2.symm⟩
    · rintro ⟨capType, e, he, hname, hsupplier, horig⟩
      have hrouted := hcons.routed e (mem_allEntries.mpr ⟨capType, he⟩)
      rwa [hname, hsupplier, horig] at hrouted

end Resources

/-! ### One document under two names -/

/-- The backend `files` lists one resource. -/
def documentListing (name uri : String) : Listings := fun _ capType ↦
  .ok (.attr (if capType = .resources then [.item .resources ⟨name, uri, none⟩] else []))

/-- The steps of the call that discovers it. -/
def documentTrace (name uri : String) : List Step :=
  discoveryTrace RegistryState.init oneSession (documentListing name uri)
    (RegistryState.discoverTasks 1 oneSession)

/-- The registry after the call. -/
def documentRegistry (name uri : String) : RegistryState :=
  (registryRun (plainConfig .firstWinsStrategy) RegistryState.init
    (documentTrace name uri)).getD RegistryState.init

/-- A backend that answers everything with nothing. -/
def silentSession : Session Empty where
  callTool := fun _ _ ↦ .ok .null
  readResource := fun _ ↦ .ok .null
  getPrompt := fun _ _ ↦ .ok .null

/-- A document whose name is its uri can be read. -/
theorem reads_resource_named_by_uri :
    (handleReadResource (exampleServer (documentRegistry "file:///doc" "file:///doc")
        (Dict.ofList [("files", silentSession)]) false) ⟨none, none, none, none⟩ ""
        "file:///doc").calls = [.readResource "files" "file:///doc"] := by
  have hreach : registryRun (plainConfig .firstWinsStrategy) RegistryState.init
      (documentTrace "file:///doc" "file:///doc")
        = some (documentRegistry "file:///doc" "file:///doc") :=
    Run.run_eq_some_getD (by decide) RegistryState.init
  exact (reads_resource_iff hreach (initialised_exampleServer _
    (Dict.ofList [("files", silentSession)]) false) rfl
    (r := ⟨⟨"file:///doc", "file:///doc", none⟩, "files", "file:///doc"⟩) (by decide) rfl
    _ _).2.1.mpr (by decide)

/-- A document with a name of its own cannot. -/
theorem not_reads_resource_named_doc :
    ¬∀ (cfg : RegistryConfig) (tr : List Step) (registry : RegistryState)
      (st : ServerState Empty) (manager : Dict String (Session Empty)) (resources : List Entry)
      (r : Entry) (auth : AuthContext) (requestId : String),
      registryRun cfg RegistryState.init tr = some registry →
      Initialised st registry manager → handleListResources st = .ok resources → r ∈ resources →
      (manager.get? r.supplier).isSome →
      (handleReadResource st auth requestId r.cap.uri).calls
        = [.readResource r.supplier r.cap.uri] := by
  intro h
  have hreach : registryRun (plainConfig .firstWinsStrategy) RegistryState.init
      (documentTrace "doc" "file:///doc") = some (documentRegistry "doc" "file:///doc") :=
    Run.run_eq_some_getD (by decide) RegistryState.init
  have hinit := initialised_exampleServer (documentRegistry "doc" "file:///doc")
    (Dict.ofList [("files", silentSession)]) false
  have hcalls := h _ _ _ _ _ _ ⟨⟨"doc", "file:///doc", none⟩, "files", "doc"⟩
    ⟨none, none, none, none⟩ "" hreach hinit rfl (by decide) rfl
  rw [calls_handleReadResource_eq_iff hinit rfl] at hcalls
  exact absurd hcalls (by decide)

end ArgusMcp
