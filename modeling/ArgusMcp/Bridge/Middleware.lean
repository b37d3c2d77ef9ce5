import ArgusMcp.Bridge.Registry
import ArgusMcp.Library.Value

/-!
# The middleware chain and the routing layer

A request context travels through a chain of middlewares to the routing layer, the only one that
talks to backends. Middlewares are functions of the next handler; what a handler does is recorded
in its answer: the context as it leaves it, the backend calls made, the audit events emitted, and
the result or the exception.

The modules modelled are `bridge/middleware/chain.py`, `recovery.py`, `telemetry.py`, `audit.py`
and `routing.py`. Time stamps, and with them latencies, are left out.
-/

namespace ArgusMcp

/-! ## Requests and answers -/

/-- The classes of exceptions told apart. -/
inductive ExcClass where
  | backendServerError
  | valueError
  | runtimeError
  | notImplementedError
  | assertionError
  | typeError
  | configurationError
  | authenticationError
  | authorizationError
  | pluginError
  | other
  deriving DecidableEq, Repr

/-- An exception with its text. -/
structure Exc where
  cls : ExcClass
  message : String
  deriving DecidableEq, Repr

/-- A `BackendServerError` that names no server. -/
def backendServerError (message : String) : Exc :=
  ⟨.backendServerError, "Backend server error: " ++ message⟩

/-- The MCP methods routing knows, and any other text. -/
inductive McpMethod where
  | callTool
  | readResource
  | getPrompt
  | unsupported (method : String)
  deriving DecidableEq, Repr

/-- The method as the context spells it. -/
def McpMethod.text : McpMethod → String
  | .callTool => "call_tool"
  | .readResource => "read_resource"
  | .getPrompt => "get_prompt"
  | .unsupported method => method

/-- What a session call returns: a result of one of the three MCP classes, something else, or
nothing. Among what is something else, texts are told apart, because plugins look for them. -/
inductive McpResult where
  | callToolResult (content : List String) (isError : Bool)
  | readResourceResult (contents : List String)
  | getPromptResult (messages : List String)
  | text (s : String)
  | otherResult
  | null
  deriving DecidableEq, Repr

/-- An authenticated or anonymous user. -/
structure UserIdentity where
  subject : String
  email : String
  name : String
  roles : List String
  provider : String
  deriving DecidableEq, Repr

/-- The metadata entries the handlers fill in. -/
structure Metadata where
  user : Option UserIdentity
  userSubject : Option String
  authToken : Option String
  sessionId : Option String
  clientIp : Option String
  deriving DecidableEq, Repr

/-- Keyword arguments of a call. -/
abbrev Arguments (O : Type) := List (String × Value O)

/-- Per-request data threaded through the chain. -/
structure RequestContext (O : Type) where
  capabilityName : String
  mcpMethod : McpMethod
  arguments : Option (Arguments O)
  requestId : String
  serverName : Option String
  originalName : Option String
  metadata : Metadata
  error : Option Exc

inductive BackendCall (O : Type) where
  | callTool (svrName : String) (name : String) (arguments : Arguments O)
  | readResource (svrName : String) (uri : String)
  | getPrompt (svrName : String) (name : String) (arguments : Option (Arguments O))

structure AuditEvent where
  eventId : String
  sessionId : Option String
  clientIp : Option String
  userId : Option String
  backend : Option String
  method : McpMethod
  capabilityName : String
  originalName : Option String
  success : Bool
  error : Option String
  errorType : Option ExcClass
  deriving DecidableEq, Repr

/-- What handling a request did and came to. -/
structure Handled (O : Type) where
  ctx : RequestContext O
  calls : List (BackendCall O)
  events : List AuditEvent
  result : Except Exc McpResult

/-- An asynchronous callable from contexts to results. -/
abbrev MCPHandler (O : Type) := RequestContext O → Handled O

/-- A callable that wraps the next handler. -/
structure MCPMiddleware (O : Type) where
  name : String
  call : RequestContext O → MCPHandler O → Handled O

variable {O : Type}

/-- Raises before anything was called. -/
def Handled.raise (ctx : RequestContext O) (e : Exc) : Handled O := ⟨ctx, [], [], .error e⟩

/-! ## The chain -/

/-- One layer of the chain: a middleware must return a response or raise. -/
def wrap (mw : MCPMiddleware O) (next : MCPHandler O) : MCPHandler O := fun ctx ↦
  let handled := mw.call ctx next
  match handled.result with
  | .ok .null =>
    { handled with
      result := .error ⟨.assertionError, "Middleware '" ++ mw.name ++
        "' returned None; middleware must return a response or raise."⟩ }
  | _ => handled

/-- The first middleware of the list is the outermost. -/
def buildChain (middlewares : List (MCPMiddleware O)) (handler : MCPHandler O) : MCPHandler O :=
  middlewares.foldr wrap handler

/-! ## The middlewares that are always there -/

/-- Catches any exception, stores it in the context and answers with a sanitized error. -/
def recoveryMiddleware : MCPMiddleware O where
  name := "RecoveryMiddleware"
  call := fun ctx next ↦
    let handled := next ctx
    match handled.result with
    | .ok _ => handled
    | .error e =>
      { handled with
        ctx := { handled.ctx with error := some e }
        result := .ok (.callToolResult
          ["Internal error processing " ++ handled.ctx.mcpMethod.text] true) }

/-- Spans and metrics are recorded around the call, which is passed on as it is. -/
def telemetryMiddleware : MCPMiddleware O where
  name := "TelemetryMiddleware"
  call := fun ctx next ↦ next ctx

def auditEvent (ctx : RequestContext O) : AuditEvent where
  eventId := ctx.requestId
  sessionId := ctx.metadata.sessionId
  clientIp := ctx.metadata.clientIp
  userId := ctx.metadata.userSubject
  backend := ctx.serverName
  method := ctx.mcpMethod
  capabilityName := ctx.capabilityName
  originalName := ctx.originalName
  success := ctx.error.isNone
  error := ctx.error.map Exc.message
  errorType := ctx.error.map Exc.cls

/-- Emits one event after the inner handler returned; an exception passes it by. -/
def auditMiddleware : MCPMiddleware O where
  name := "AuditMiddleware"
  call := fun ctx next ↦
    let handled := next ctx
    match handled.result with
    | .ok _ => { handled with events := handled.events ++ [auditEvent handled.ctx] }
    | .error _ => handled

/-! ## Routing -/

/-- A connected backend, as far as requests go. -/
structure Session (O : Type) where
  callTool : String → Arguments O → Except Exc McpResult
  readResource : String → Except Exc McpResult
  getPrompt : String → Option (Arguments O) → Except Exc McpResult

/-- Resolves the capability and forwards the request under the name stored in the route. The
resource method passes that name as the uri. -/
def routingMiddleware (registry : Option RegistryState)
    (manager : Option (Dict String (Session O))) : MCPHandler O := fun ctx ↦
  match registry, manager with
  | some registry, some manager =>
    match registry.resolveCapability ctx.capabilityName with
    | none =>
      .raise ctx ⟨.valueError, "Capability '" ++ ctx.capabilityName ++ "' does not exist."⟩
    | some (svrName, origCapName) =>
      let ctx := { ctx with serverName := some svrName, originalName := some origCapName }
      match manager.get? svrName with
      | none =>
        .raise ctx ⟨.runtimeError, "Unable to connect to backend server '" ++ svrName ++
          "' providing '" ++ ctx.capabilityName ++ "' (session missing or lost)."⟩
      | some session =>
        match ctx.mcpMethod with
        | .callTool =>
          let arguments := ctx.arguments.getD []
          ⟨ctx, [.callTool svrName origCapName arguments], [],
            session.callTool origCapName arguments⟩
        | .readResource =>
          ⟨ctx, [.readResource svrName origCapName], [], session.readResource origCapName⟩
        | .getPrompt =>
          ⟨ctx, [.getPrompt svrName origCapName ctx.arguments], [],
            session.getPrompt origCapName ctx.arguments⟩
        | .unsupported method =>
          .raise ctx ⟨.notImplementedError,
            "Internal server error: unsupported method '" ++ method ++ "'."⟩
  | _, _ =>
    .raise ctx (backendServerError "Internal server error: core components not initialized.")

def McpMethod.backendCall (svrName origCapName : String) (arguments : Option (Arguments O)) :
    McpMethod → List (BackendCall O)
  | .callTool => [.callTool svrName origCapName (arguments.getD [])]
  | .readResource => [.readResource svrName origCapName]
  | .getPrompt => [.getPrompt svrName origCapName arguments]
  | .unsupported _ => []

/-- **What routing calls**: nothing for an unknown name or a lost session, and otherwise the routed
server under the original name. -/
theorem calls_routingMiddleware (registry : RegistryState) (manager : Dict String (Session O))
    (ctx : RequestContext O) :
    (routingMiddleware (some registry) (some manager) ctx).calls
      = match registry.resolveCapability ctx.capabilityName with
        | none => []
        | some (svrName, origCapName) =>
          if (manager.get? svrName).isSome then
            ctx.mcpMethod.backendCall svrName origCapName ctx.arguments
          else [] := by
  rw [routingMiddleware]
  cases registry.resolveCapability ctx.capabilityName with
  | none => rfl
  | some r =>
    obtain ⟨svrName, origCapName⟩ := r
    dsimp only
    cases manager.get? svrName with
    | none => rfl
    | some session => rcases ctx.mcpMethod with _ | _ | _ | method <;> rfl

/-! ## Middlewares that pass a request on -/

/-- The middleware hands the request to the next handler, possibly with other metadata, and makes
no backend calls of its own. -/
def Forwards (mw : MCPMiddleware O) : Prop :=
  ∀ (ctx : RequestContext O) (next : MCPHandler O), ∃ ctx' : RequestContext O,
    ctx'.capabilityName = ctx.capabilityName ∧ ctx'.mcpMethod = ctx.mcpMethod ∧
      ctx'.arguments = ctx.arguments ∧ (mw.call ctx next).calls = (next ctx').calls

theorem forwards_recoveryMiddleware : Forwards (recoveryMiddleware : MCPMiddleware O) := by
  intro ctx next
  refine ⟨ctx, rfl, rfl, rfl, ?_⟩
  rw [recoveryMiddleware]
  dsimp only
  cases (next ctx).result with
  | ok _ => rfl
  | error _ => rfl

theorem forwards_telemetryMiddleware : Forwards (telemetryMiddleware : MCPMiddleware O) :=
  fun ctx _ ↦ ⟨ctx, rfl, rfl, rfl, rfl⟩

theorem forwards_auditMiddleware : Forwards (auditMiddleware : MCPMiddleware O) := by
  intro ctx next
  refine ⟨ctx, rfl, rfl, rfl, ?_⟩
  rw [auditMiddleware]
  dsimp only
  cases (next ctx).result with
  | ok _ => rfl
  | error _ => rfl

theorem calls_wrap (mw : MCPMiddleware O) (next : MCPHandler O) (ctx : RequestContext O) :
    (wrap mw next ctx).calls = (mw.call ctx next).calls := by
  rw [wrap]
  split <;> rfl

/-- A chain of forwarding middlewares makes the calls its innermost handler makes, for a request
that differs at most in its metadata. -/
theorem calls_buildChain {mws : List (MCPMiddleware O)} (hmws : ∀ mw ∈ mws, Forwards mw)
    (handler : MCPHandler O) : ∀ ctx : RequestContext O, ∃ ctx' : RequestContext O,
      ctx'.capabilityName = ctx.capabilityName ∧ ctx'.mcpMethod = ctx.mcpMethod ∧
        ctx'.arguments = ctx.arguments ∧ (buildChain mws handler ctx).calls
          = (handler ctx').calls := by
  induction mws with
  | nil => exact fun ctx ↦ ⟨ctx, rfl, rfl, rfl, rfl⟩
  | cons mw mws ih =>
    intro ctx
    obtain ⟨ctx₁, hname₁, hmethod₁, hargs₁, hcalls₁⟩ :=
      hmws mw List.mem_cons_self ctx (buildChain mws handler)
    obtain ⟨ctx₂, hname₂, hmethod₂, hargs₂, hcalls₂⟩ :=
      ih (fun m hm ↦ hmws m (List.mem_cons_of_mem mw hm)) ctx₁
    refine ⟨ctx₂, hname₂.trans hname₁, hmethod₂.trans hmethod₁, hargs₂.trans hargs₁, ?_⟩
    rw [buildChain, List.foldr_cons, ← buildChain, calls_wrap, hcalls₁, hcalls₂]

/-- **Calls through the chain.** What the routing layer calls depends only on the name, the method
and the arguments of the request, so forwarding middlewares do not change it. -/
theorem calls_buildChain_routingMiddleware {mws : List (MCPMiddleware O)}
    (hmws : ∀ mw ∈ mws, Forwards mw) (registry : RegistryState)
    (manager : Dict String (Session O)) (ctx : RequestContext O) :
    (buildChain mws (routingMiddleware (some registry) (some manager)) ctx).calls
      = (routingMiddleware (some registry) (some manager) ctx).calls := by
  obtain ⟨ctx', hname, hmethod, hargs, hcalls⟩ :=
    calls_buildChain hmws (routingMiddleware (some registry) (some manager)) ctx
  rw [hcalls, calls_routingMiddleware, calls_routingMiddleware, hname, hmethod, hargs]

end ArgusMcp
