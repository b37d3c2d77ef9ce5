import ArgusMcp.Plugins.Manager
import ArgusMcp.Server.Auth
import ArgusMcp.Server.Authz
import ArgusMcp.Workflows.FailFast

/-!
# The chain that is installed at startup

`_build_middleware_stack` of `server/lifespan.py` puts the chain together: authentication when
there is a registry for it, recovery, the plugins when there are any, telemetry when it is on, and
audit, around the routing layer. What the whole chain does follows from two facts. A request is
admitted or not, by authentication and by the pre-hooks of the plugins, and an admitted one comes
to the audit layer with its name and its method unchanged (`admitted`); and from there on only the
audit layer and the routing layer do anything that can be seen from outside (`calls_stack`,
`events_stack`).

## What the order of the layers means

There is no authorization in the chain. Whether policies are obeyed is therefore a question of
luck (`authorizationEnforced_iff`). The audit layer stands inside the recovery layer: when a
request fails behind it, the exception goes past it, and the recovery layer notes it where the
audit layer no longer looks (`auditComplete_iff`). And the steps of a composite workflow enter the
same chain as the requests of clients, but without the metadata of the client that started them
(`keepsIdentity_iff`).
-/

namespace ArgusMcp

variable {O : Type}

/-! ## The stack -/

/-- The part of the configuration the stack depends on. -/
structure ArgusConfig (O : Type) where
  incomingAuth : IncomingAuthConfig
  authorization : AuthorizationConfig
  plugins : PluginsConfig O
  telemetryEnabled : Bool

/-- The plugins that take part: those of the configuration, unless loading them fails, which is
logged and leaves the chain without any. -/
def ArgusConfig.loadPlugins (classes : String → Option (PluginConfig O → Except Exc (Plugin O)))
    (cfg : ArgusConfig O) : Option (PluginRegistry O) :=
  if cfg.plugins.enabled ∧ cfg.plugins.entries ≠ [] then
    (PluginRegistry.loadFromConfig classes cfg.plugins.entries).toOption
  else none

/-- The middlewares of the stack, the outermost first. -/
def stackMiddlewares (setup : AuthSetup) (plugins : Option (PluginRegistry O))
    (telemetryEnabled : Bool) : List (MCPMiddleware O) :=
  -- Whether authorization is enabled is not asked anywhere in here.
  (setup.registry.map fun registry ↦ authMiddleware registry setup.authMode).toList
    ++ [recoveryMiddleware]
    ++ (plugins.map pluginMiddleware).toList
    ++ (if telemetryEnabled then [telemetryMiddleware] else [])
    ++ [auditMiddleware]

/-- The chain around a handler, when the plugins have been loaded. -/
def stack (setup : AuthSetup) (plugins : Option (PluginRegistry O)) (telemetryEnabled : Bool)
    (handler : MCPHandler O) : MCPHandler O :=
  buildChain (stackMiddlewares setup plugins telemetryEnabled) handler

/-- `_build_middleware_stack`, for what `_setup_incoming_auth` has returned. -/
def buildMiddlewareStack (classes : String → Option (PluginConfig O → Except Exc (Plugin O)))
    (setup : AuthSetup) (cfg : ArgusConfig O) (registry : Option RegistryState)
    (manager : Option (Dict String (Session O))) : MCPHandler O :=
  stack setup (cfg.loadPlugins classes) cfg.telemetryEnabled (routingMiddleware registry manager)

/-! ## Admission -/

/-- The request as the authentication layer passes it on. -/
def authenticated (setup : AuthSetup) (ctx : RequestContext O) : Except Exc (RequestContext O) :=
  match setup.registry with
  | none => .ok ctx
  | some registry =>
    (registry.authenticateCall setup.authMode ctx.metadata.authToken).map fun user ↦
      { ctx with metadata := ctx.metadata.identify user }

/-- The request as it comes to the audit layer, if it is admitted. -/
def admitted (setup : AuthSetup) (plugins : Option (PluginRegistry O)) (ctx : RequestContext O) :
    Except Exc (RequestContext O) :=
  (authenticated setup ctx).bind fun ctx ↦
    match plugins with
    | none => .ok ctx
    | some registry => preHooked registry ctx

theorem authenticated_eq_ok {setup : AuthSetup} {ctx ctx' : RequestContext O}
    (h : authenticated setup ctx = .ok ctx') : ctx'.capabilityName = ctx.capabilityName ∧
      ctx'.mcpMethod = ctx.mcpMethod ∧ ctx'.requestId = ctx.requestId ∧
      ctx'.error = ctx.error ∧ ctx'.arguments = ctx.arguments := by
  rw [authenticated] at h
  rcases hreg : setup.registry with _ | registry
  · rw [hreg, Except.ok.injEq] at h
    rw [h]
    exact ⟨rfl, rfl, rfl, rfl, rfl⟩
  · rw [hreg] at h
    obtain ⟨user, -, rfl⟩ := map_eq_ok_iff.mp h
    exact ⟨rfl, rfl, rfl, rfl, rfl⟩

theorem admitted_eq_ok {setup : AuthSetup} {plugins : Option (PluginRegistry O)}
    {ctx ctx' : RequestContext O} (h : admitted setup plugins ctx = .ok ctx') :
    ctx'.capabilityName = ctx.capabilityName ∧ ctx'.mcpMethod = ctx.mcpMethod ∧
      ctx'.requestId = ctx.requestId ∧ ctx'.error = ctx.error := by
  obtain ⟨ctx₁, hauth, hpre⟩ := bind_eq_ok_iff.mp h
  obtain ⟨hname, hmethod, hid, herror, -⟩ := authenticated_eq_ok hauth
  rcases plugins with _ | registry
  · obtain rfl : ctx₁ = ctx' := Except.ok.inj hpre
    exact ⟨hname, hmethod, hid, herror⟩
  · obtain ⟨hname', hmethod', hid', herror'⟩ := preHooked_eq_ok hpre
    exact ⟨hname'.trans hname, hmethod'.trans hmethod, hid'.trans hid, herror'.trans herror⟩

/-! ## Calls and events of the stack -/

theorem events_wrap (mw : MCPMiddleware O) (next : MCPHandler O) (ctx : RequestContext O) :
    (wrap mw next ctx).events = (mw.call ctx next).events := by
  rw [wrap]
  split <;> rfl

/-- What can be seen of a handler from outside. -/
def seen (handled : Handled O) : List (BackendCall O) × List AuditEvent :=
  (handled.calls, handled.events)

theorem seen_wrap (mw : MCPMiddleware O) (next : MCPHandler O) (ctx : RequestContext O) :
    seen (wrap mw next ctx) = seen (mw.call ctx next) := by
  rw [seen, seen, calls_wrap, events_wrap]

theorem seen_recovery (next : MCPHandler O) (ctx : RequestContext O) :
    seen (recoveryMiddleware.call ctx next) = seen (next ctx) := by
  rw [recoveryMiddleware]
  dsimp only
  split
  · rfl
  · rfl

theorem seen_plugins (plugins : Option (PluginRegistry O)) (next : MCPHandler O)
    (ctx : RequestContext O) :
    seen (buildChain (plugins.map pluginMiddleware).toList next ctx)
      = match (match plugins with
          | none => .ok ctx
          | some registry => preHooked registry ctx : Except Exc (RequestContext O)) with
        | .error _ => ([], [])
        | .ok ctx' => seen (next ctx') := by
  rcases plugins with _ | registry
  · rfl
  · have hchain : buildChain ((some registry).map pluginMiddleware).toList next ctx
        = wrap (pluginMiddleware registry) next ctx := rfl
    rw [hchain, seen_wrap, seen, (pluginMiddleware_calls registry ctx next).1,
      (pluginMiddleware_calls registry ctx next).2]
    dsimp only
    rcases preHooked registry ctx with e | ctx'
    · rfl
    · rfl

theorem seen_telemetry (telemetryEnabled : Bool) (next : MCPHandler O) (ctx : RequestContext O) :
    seen (buildChain (if telemetryEnabled then [telemetryMiddleware] else []) next ctx)
      = seen (next ctx) := by
  rcases telemetryEnabled with _ | _
  · rfl
  · exact seen_wrap telemetryMiddleware next ctx

theorem buildChain_append (mws mws' : List (MCPMiddleware O)) (handler : MCPHandler O) :
    buildChain (mws ++ mws') handler = buildChain mws (buildChain mws' handler) :=
  List.foldr_append ..

theorem seen_behindAuth (plugins : Option (PluginRegistry O)) (telemetryEnabled : Bool)
    (handler : MCPHandler O) (ctx : RequestContext O) :
    seen (buildChain ([recoveryMiddleware] ++ (plugins.map pluginMiddleware).toList
      ++ (if telemetryEnabled then [telemetryMiddleware] else []) ++ [auditMiddleware])
        handler ctx)
      = match (match plugins with
          | none => .ok ctx
          | some registry => preHooked registry ctx : Except Exc (RequestContext O)) with
        | .error _ => ([], [])
        | .ok ctx' => seen (wrap auditMiddleware handler ctx') := by
  rw [buildChain_append, buildChain_append, buildChain_append]
  have hrecovery : ∀ next : MCPHandler O, buildChain [recoveryMiddleware] next
      = wrap recoveryMiddleware next := fun _ ↦ rfl
  rw [hrecovery, seen_wrap, seen_recovery, seen_plugins]
  -- Telemetry is the only layer left between the plugins and the audit layer.
  split
  · rfl
  · rw [seen_telemetry]
    rfl

/-- **What is seen of the whole stack**: nothing of a request that is not admitted, and otherwise
what the audit layer and the handler behind it do with the request as it comes to them. -/
theorem seen_stack (setup : AuthSetup) (plugins : Option (PluginRegistry O))
    (telemetryEnabled : Bool) (handler : MCPHandler O) (ctx : RequestContext O) :
    seen (stack setup plugins telemetryEnabled handler ctx)
      = match admitted setup plugins ctx with
        | .error _ => ([], [])
        | .ok ctx' => seen (wrap auditMiddleware handler ctx') := by
  rw [stack, stackMiddlewares, admitted, authenticated]
  rcases hreg : setup.registry with _ | registry
  · exact seen_behindAuth plugins telemetryEnabled handler ctx
  · rw [List.append_assoc, List.append_assoc, List.append_assoc, buildChain_append]
    have hauth : ∀ next : MCPHandler O, buildChain
        ((some registry).map fun registry ↦ authMiddleware registry setup.authMode).toList next
        = wrap (authMiddleware registry setup.authMode) next := fun _ ↦ rfl
    rw [hauth, seen_wrap, ← List.append_assoc, ← List.append_assoc]
    rcases call_authMiddleware registry setup.authMode ctx (buildChain ([recoveryMiddleware]
      ++ (plugins.map pluginMiddleware).toList
      ++ (if telemetryEnabled then [telemetryMiddleware] else []) ++ [auditMiddleware]) handler)
      with ⟨user, huser, hcall⟩ | ⟨e, he, hcall⟩
    · dsimp only
      rw [hcall, huser, seen_behindAuth]
      rfl
    · dsimp only
      rw [hcall, he]
      rfl

theorem calls_stack (setup : AuthSetup) (plugins : Option (PluginRegistry O))
    (telemetryEnabled : Bool) (handler : MCPHandler O) (ctx : RequestContext O) :
    (stack setup plugins telemetryEnabled handler ctx).calls
      = match admitted setup plugins ctx with
        | .error _ => []
        | .ok ctx' => (handler ctx').calls := by
  have h := congrArg Prod.fst (seen_stack setup plugins telemetryEnabled handler ctx)
  refine h.trans ?_
  rcases admitted setup plugins ctx with e | ctx'
  · rfl
  · refine (calls_wrap auditMiddleware handler ctx').trans ?_
    rw [auditMiddleware]
    dsimp only
    split
    · rfl
    · rfl

theorem events_stack (setup : AuthSetup) (plugins : Option (PluginRegistry O))
    (telemetryEnabled : Bool) (handler : MCPHandler O) (ctx : RequestContext O) :
    (stack setup plugins telemetryEnabled handler ctx).events
      = match admitted setup plugins ctx with
        | .error _ => []
        | .ok ctx' => (wrap auditMiddleware handler ctx').events := by
  have h := congrArg Prod.snd (seen_stack setup plugins telemetryEnabled handler ctx)
  refine h.trans ?_
  rcases admitted setup plugins ctx with e | ctx'
  · rfl
  · rfl

/-! ## What the routing layer does -/

/-- The routing layer can serve the request: it is initialised, the name has a route, the backend
is connected, and the method is one of the three. -/
def Routable (registry : Option RegistryState) (manager : Option (Dict String (Session O)))
    (ctx : RequestContext O) : Prop :=
  ∃ registry', registry = some registry' ∧ ∃ manager', manager = some manager' ∧
    ∃ svrName origCapName,
      registry'.resolveCapability ctx.capabilityName = some (svrName, origCapName) ∧
        (manager'.get? svrName).isSome ∧ ∀ method, ctx.mcpMethod ≠ .unsupported method

/-- What the session answers when a method is called on it; it knows only the three. -/
def Session.answer (session : Session O) (origCapName : String)
    (arguments : Option (Arguments O)) : McpMethod → Option (Except Exc McpResult)
  | .callTool => some (session.callTool origCapName (arguments.getD []))
  | .readResource => some (session.readResource origCapName)
  | .getPrompt => some (session.getPrompt origCapName arguments)
  | .unsupported _ => none

/-- The request has a route to a connected backend, whose session answers it with a response. -/
def Answered (registry : Option RegistryState) (manager : Option (Dict String (Session O)))
    (ctx : RequestContext O) : Prop :=
  ∃ registry', registry = some registry' ∧ ∃ manager', manager = some manager' ∧
    ∃ svrName origCapName,
      registry'.resolveCapability ctx.capabilityName = some (svrName, origCapName) ∧
        ∃ session, manager'.get? svrName = some session ∧
          ∃ result, session.answer origCapName ctx.arguments ctx.mcpMethod = some (.ok result) ∧
            result ≠ .null

section Routing

variable {registry : Option RegistryState} {manager : Option (Dict String (Session O))}
  {ctx ctx' : RequestContext O}

/-- **The two ways through the routing layer**: a request that cannot be served is one exception,
and any other one call, answered by the session of the backend. -/
theorem routingMiddleware_cases (registry : Option RegistryState)
    (manager : Option (Dict String (Session O))) (ctx : RequestContext O) :
    (¬ Routable registry manager ctx ∧ ∃ ctx' e, routingMiddleware registry manager ctx
      = .raise ctx' e ∧ ctx'.requestId = ctx.requestId ∧ ctx'.error = ctx.error) ∨
    ∃ registry', registry = some registry' ∧ ∃ manager', manager = some manager' ∧
      ∃ svrName origCapName session answer,
        registry'.resolveCapability ctx.capabilityName = some (svrName, origCapName) ∧
        manager'.get? svrName = some session ∧
        session.answer origCapName ctx.arguments ctx.mcpMethod = some answer ∧
        routingMiddleware registry manager ctx
          = ⟨{ ctx with serverName := some svrName, originalName := some origCapName },
              ctx.mcpMethod.backendCall svrName origCapName ctx.arguments, [], answer⟩ := by
  rcases registry with _ | registry
  · exact .inl ⟨fun ⟨_, h, _⟩ ↦ absurd h (by simp), ctx, _, rfl, rfl, rfl⟩
  rcases manager with _ | manager
  · exact .inl ⟨fun ⟨_, _, _, h, _⟩ ↦ absurd h (by simp), ctx, _, rfl, rfl, rfl⟩
  rw [routingMiddleware, Routable]
  simp only [Option.some.injEq, exists_eq_left']
  rcases hres : registry.resolveCapability ctx.capabilityName with _ | ⟨svrName, origCapName⟩
  · exact .inl ⟨by simp, ctx, _, rfl, rfl, rfl⟩
  dsimp only
  rcases hsession : manager.get? svrName with _ | session
  · exact .inl ⟨by simp [hsession], _, _, rfl, rfl, rfl⟩
  -- The route is there and the backend connected, so that only the method can be wrong.
  rcases hmethod : ctx.mcpMethod with _ | _ | _ | method
  · exact .inr ⟨svrName, origCapName, session, _, rfl, hsession, rfl, rfl⟩
  · exact .inr ⟨svrName, origCapName, session, _, rfl, hsession, rfl, rfl⟩
  · exact .inr ⟨svrName, origCapName, session, _, rfl, hsession, rfl, rfl⟩
  · exact .inl ⟨by simp, _, _, rfl, rfl, rfl⟩

theorem backendCall_ne_nil {session : Session O} {svrName origCapName : String}
    {arguments : Option (Arguments O)} {method : McpMethod} {answer : Except Exc McpResult}
    (h : session.answer origCapName arguments method = some answer) :
    method.backendCall svrName origCapName arguments ≠ [] ∧
      ∀ text, method ≠ .unsupported text := by
  rcases method with _ | _ | _ | text
  · exact ⟨List.cons_ne_nil _ _, by simp⟩
  · exact ⟨List.cons_ne_nil _ _, by simp⟩
  · exact ⟨List.cons_ne_nil _ _, by simp⟩
  · exact absurd h (by simp [Session.answer])

theorem calls_routingMiddleware_ne_nil_iff :
    (routingMiddleware registry manager ctx).calls ≠ [] ↔ Routable registry manager ctx := by
  rcases routingMiddleware_cases registry manager ctx with
    ⟨hno, ctx', e, hraise, -⟩ | ⟨registry', rfl, manager', rfl, svrName, origCapName, session,
      answer, hres, hsession, hanswer, hcall⟩
  · rw [hraise]
    exact iff_of_false (fun h ↦ h rfl) hno
  · obtain ⟨hne, hmethod⟩ := @backendCall_ne_nil _ _ svrName _ _ _ _ hanswer
    rw [hcall]
    refine iff_of_true hne ⟨registry', rfl, manager', rfl, svrName, origCapName, hres, ?_, hmethod⟩
    rw [hsession]
    rfl

/-- The routing layer writes no audit events and leaves the id and the error of the context. -/
theorem routingMiddleware_leaves (registry : Option RegistryState)
    (manager : Option (Dict String (Session O))) (ctx : RequestContext O) :
    (routingMiddleware registry manager ctx).events = [] ∧
      (routingMiddleware registry manager ctx).ctx.requestId = ctx.requestId ∧
      (routingMiddleware registry manager ctx).ctx.error = ctx.error := by
  rcases routingMiddleware_cases registry manager ctx with
    ⟨-, ctx', e, hraise, hid, herror⟩ | ⟨_, -, _, -, _, _, _, _, -, -, -, hcall⟩
  · rw [hraise]
    exact ⟨rfl, hid, herror⟩
  · rw [hcall]
    exact ⟨rfl, rfl, rfl⟩

theorem exists_result_routingMiddleware_iff :
    (∃ result, (routingMiddleware registry manager ctx).result = .ok result ∧ result ≠ .null) ↔
      Answered registry manager ctx := by
  rcases routingMiddleware_cases registry manager ctx with
    ⟨hno, ctx', e, hraise, -⟩ | ⟨registry', rfl, manager', rfl, svrName, origCapName, session,
      answer, hres, hsession, hanswer, hcall⟩
  · rw [hraise]
    refine iff_of_false (by simp [Handled.raise]) ?_
    rintro ⟨registry', rfl, manager', rfl, svrName, origCapName, hres, session, hsession, result,
      hanswer, -⟩
    have hmethod := (@backendCall_ne_nil _ _ svrName _ _ _ _ hanswer).2
    exact hno ⟨registry', rfl, manager', rfl, svrName, origCapName, hres,
      Option.isSome_iff_exists.mpr ⟨session, hsession⟩, hmethod⟩
  · rw [hcall, Answered]
    simp only [Option.some.injEq, exists_eq_left', hres, Prod.mk.injEq, ↓existsAndEq, hsession,
      hanswer, true_and]

theorem routable_of_admitted_iff {setup : AuthSetup} {plugins : Option (PluginRegistry O)}
    (h : admitted setup plugins ctx = .ok ctx') :
    Routable registry manager ctx' ↔ Routable registry manager ctx := by
  obtain ⟨hname, hmethod, -⟩ := admitted_eq_ok h
  rw [Routable, Routable, hname, hmethod]

end Routing

/-! ## Authorization -/

/-- The roles of the user the authentication layer takes the request for. -/
def authenticatedRoles (setup : AuthSetup) (ctx : RequestContext O) : List String :=
  match authenticated setup ctx with
  | .error _ => []
  | .ok ctx' => ctx'.userRoles

section Authorization

variable (classes : String → Option (PluginConfig O → Except Exc (Plugin O)))
  (setup : AuthSetup) (cfg : ArgusConfig O) (registry : Option RegistryState)
  (manager : Option (Dict String (Session O))) (ctx : RequestContext O)

/-- The policies of the configuration allow the request. -/
def Allowed : Prop :=
  (PolicyEngine.fromConfig cfg.authorization).evaluate (authenticatedRoles setup ctx)
    (toolResource ctx.capabilityName) = .allow

/-- With authorization enabled, a request reaches a backend only if the policies allow it. -/
def AuthorizationEnforced : Prop :=
  cfg.authorization.enabled = true →
    (buildMiddlewareStack classes setup cfg registry manager ctx).calls ≠ [] →
      Allowed setup cfg ctx

/-- **When authorization is enforced**: if it happens to be allowed, if the request is not
admitted, or if there is no backend for it anyway. For every configuration, every list of policies
and every request. -/
theorem authorizationEnforced_iff :
    AuthorizationEnforced classes setup cfg registry manager ctx ↔
      (cfg.authorization.enabled = true →
        Allowed setup cfg ctx ∨
          (∃ e, admitted setup (cfg.loadPlugins classes) ctx = .error e) ∨
            ¬ Routable registry manager ctx) := by
  have hcalls := calls_stack setup (cfg.loadPlugins classes) cfg.telemetryEnabled
    (routingMiddleware registry manager) ctx
  refine forall_congr' fun _ ↦ ?_
  rw [buildMiddlewareStack, hcalls]
  rcases hadm : admitted setup (cfg.loadPlugins classes) ctx with e | ctx'
  · exact iff_of_true (fun h ↦ absurd rfl h) (.inr (.inl ⟨e, rfl⟩))
  · dsimp only
    rw [calls_routingMiddleware_ne_nil_iff, routable_of_admitted_iff hadm]
    constructor
    · intro henforced
      by_cases hr : Routable registry manager ctx
      · exact .inl (henforced hr)
      · exact .inr (.inr hr)
    · rintro (hallowed | ⟨e, he⟩ | hr) hroute
      · exact hallowed
      · exact absurd he (by simp)
      · exact absurd hroute hr

end Authorization

/-- A backend that answers every call with an empty result. -/
def echoSession : Session Empty where
  callTool := fun _ _ ↦ .ok (.callToolResult [] false)
  readResource := fun _ ↦ .ok (.readResourceResult [])
  getPrompt := fun _ _ ↦ .ok (.getPromptResult [])

/-- Anonymous access, and everything denied. -/
def denyAll : ArgusConfig Empty where
  incomingAuth := ⟨.anonymous, .strict, none, none, none⟩
  authorization := ⟨true, "deny", []⟩
  plugins := ⟨true, []⟩
  telemetryEnabled := false

/-- With authorization enabled and everything denied, a request still reaches its backend. -/
theorem not_authorizationEnforced_denyAll :
    ∃ setup, setupIncomingAuth refuseAll (some denyAll.incomingAuth) = .ok setup ∧
      ¬ AuthorizationEnforced (fun _ ↦ none) setup denyAll
        (some (oneRoute "read" "files" "read"))
        (some (Dict.empty.set "files" echoSession)) (plainRequest "read" .callTool) := by
  refine ⟨_, rfl, fun henforced ↦ ?_⟩
  have hallowed := henforced rfl (by exact List.cons_ne_nil _ _)
  rw [Allowed] at hallowed
  exact absurd hallowed (by decide)

/-! ## The audit trail -/

/-- The exception leaves the audit layer. -/
def FailsWith (handler : MCPHandler O) (ctx : RequestContext O) (e : Exc) : Prop :=
  (wrap auditMiddleware handler ctx).result = .error e

/-- The request has exactly one event, which tells whether and how it failed, and the audit layer
returns what the handler returns. -/
structure Audited (handler : MCPHandler O) (ctx : RequestContext O) (events : List AuditEvent) :
    Prop where
  one : ∃ event, events = [event] ∧ event.eventId = ctx.requestId ∧
    (event.success = false ↔ ∃ e, FailsWith handler ctx e) ∧
      ∀ e, FailsWith handler ctx e → event.errorType = some e.cls
  unchanged : (auditMiddleware.call ctx handler).result = (handler ctx).result

/-- A handler that raises is passed by without an event. One that returns has one, which speaks of
the error that was in the context before. -/
theorem wrap_auditMiddleware (handler : MCPHandler O) (ctx : RequestContext O) :
    (∃ e, (handler ctx).result = .error e ∧ wrap auditMiddleware handler ctx = handler ctx) ∨
    ∃ result, (handler ctx).result = .ok result ∧
      (wrap auditMiddleware handler ctx).events
        = (handler ctx).events ++ [auditEvent (handler ctx).ctx] ∧
      ((∃ e, FailsWith handler ctx e) ↔ result = .null) := by
  rcases hresult : (handler ctx).result with e | result
  · have hcall : auditMiddleware.call ctx handler = handler ctx := by
      rw [auditMiddleware]
      dsimp only
      rw [hresult]
    refine .inl ⟨e, rfl, ?_⟩
    rw [wrap, hcall, hresult]
  · have hcall : auditMiddleware.call ctx handler
        = { handler ctx with
            events := (handler ctx).events ++ [auditEvent (handler ctx).ctx] } := by
      rw [auditMiddleware]
      dsimp only
      rw [hresult]
    refine .inr ⟨result, rfl, ?_, ?_⟩
    · rw [events_wrap, hcall]
    · simp only [FailsWith]
      rw [wrap, hcall]
      dsimp only
      rw [hresult]
      rcases result with _ | _ | _ | _ | _ | _
      · simp
      · simp
      · simp
      · simp
      · simp
      · exact iff_of_true ⟨_, rfl⟩ rfl

theorem result_call_auditMiddleware (handler : MCPHandler O) (ctx : RequestContext O) :
    (auditMiddleware.call ctx handler).result = (handler ctx).result := by
  rw [auditMiddleware]
  dsimp only
  rcases hresult : (handler ctx).result with e | result
  · exact hresult
  · rfl

/-- Behind the audit layer, the trail of a fresh request is complete exactly when the routing layer
has an answer for it. -/
theorem audited_routingMiddleware_iff {registry : Option RegistryState}
    {manager : Option (Dict String (Session O))} {ctx : RequestContext O}
    (hfresh : ctx.error = none) :
    Audited (routingMiddleware registry manager) ctx
        (wrap auditMiddleware (routingMiddleware registry manager) ctx).events ↔
      Answered registry manager ctx := by
  obtain ⟨hevents, hid, herror⟩ := routingMiddleware_leaves registry manager ctx
  rw [← exists_result_routingMiddleware_iff]
  rcases wrap_auditMiddleware (routingMiddleware registry manager) ctx with
    ⟨e, he, hwrap⟩ | ⟨result, hresult, hwrap, hfails⟩
  · -- The exception has gone past the audit layer, and there is no event to speak of it.
    rw [hwrap, hevents, he]
    refine iff_of_false ?_ (fun ⟨_, h, _⟩ ↦ absurd h (by simp))
    rintro ⟨⟨event, hnil, -⟩, -⟩
    exact absurd hnil (by simp)
  · rw [hwrap, hevents, hresult, List.nil_append]
    have hsuccess : (auditEvent (routingMiddleware registry manager ctx).ctx).success = true := by
      rw [auditEvent]
      dsimp only
      rw [herror, hfresh, Option.isNone_none]
    constructor
    · -- The event says success, and so a response of `None`, which fails later on, is excluded.
      rintro ⟨⟨event, heq, -, hone, -⟩, -⟩
      rw [List.cons.injEq] at heq
      rw [← heq.1, hsuccess, hfails] at hone
      exact ⟨result, rfl, fun hnull ↦ absurd (hone.mpr hnull) (by simp)⟩
    · rintro ⟨result', hresult', hne⟩
      rw [Except.ok.injEq] at hresult'
      have hnot : ¬ ∃ e, FailsWith (routingMiddleware registry manager) ctx e :=
        fun h ↦ hne (hresult' ▸ hfails.mp h)
      refine ⟨⟨_, rfl, hid, ?_, fun e he ↦ absurd ⟨e, he⟩ hnot⟩,
        result_call_auditMiddleware _ _⟩
      exact iff_of_false (by rw [hsuccess]; simp) hnot

section Audit

variable (classes : String → Option (PluginConfig O → Except Exc (Plugin O)))
  (setup : AuthSetup) (cfg : ArgusConfig O) (registry : Option RegistryState)
  (manager : Option (Dict String (Session O)))

/-- Of every request that comes to the audit layer the chain leaves a complete trail. -/
def AuditComplete (ctx : RequestContext O) : Prop :=
  ∀ ctx', admitted setup (cfg.loadPlugins classes) ctx = .ok ctx' →
    Audited (routingMiddleware registry manager) ctx'
      (buildMiddlewareStack classes setup cfg registry manager ctx).events

/-- **When the audit trail is complete**: for the requests that a backend answers. Of a request
that fails behind the audit layer, for whatever reason, there is no event. -/
theorem auditComplete_iff {ctx : RequestContext O} (hfresh : ctx.error = none) :
    AuditComplete classes setup cfg registry manager ctx ↔
      ∀ ctx', admitted setup (cfg.loadPlugins classes) ctx = .ok ctx' →
        Answered registry manager ctx' := by
  refine forall_congr' fun ctx' ↦ forall_congr' fun hadm ↦ ?_
  have hfresh' : ctx'.error = none := (admitted_eq_ok hadm).2.2.2.trans hfresh
  rw [buildMiddlewareStack, events_stack, hadm]
  exact audited_routingMiddleware_iff hfresh'

end Audit

theorem auditComplete_read :
    (plainRequest "read" .callTool).error = none ∧
      AuditComplete (fun _ ↦ none) ⟨none, none, .strict⟩ denyAll
        (some (oneRoute "read" "files" "read")) (some (Dict.empty.set "files" echoSession))
        (plainRequest "read" .callTool) := by
  refine ⟨rfl, (auditComplete_iff _ _ _ _ _ rfl).mpr fun ctx' hadm ↦ ?_⟩
  obtain rfl : plainRequest "read" .callTool = ctx' := Except.ok.inj hadm
  exact ⟨_, rfl, _, rfl, "files", "read", rfl, echoSession, rfl, _, rfl, by simp⟩

/-- A backend that raises on every call. -/
def brokenSession : Session Empty where
  callTool := fun _ _ ↦ .error ⟨.runtimeError, "connection lost"⟩
  readResource := fun _ ↦ .error ⟨.runtimeError, "connection lost"⟩
  getPrompt := fun _ _ ↦ .error ⟨.runtimeError, "connection lost"⟩

/-- The backend raises, and the audit trail does not mention the request. -/
theorem not_auditComplete_broken :
    ¬ AuditComplete (fun _ ↦ none) ⟨none, none, .strict⟩ denyAll
      (some (oneRoute "read" "files" "read")) (some (Dict.empty.set "files" brokenSession))
      (plainRequest "read" .callTool) := by
  intro hcomplete
  obtain ⟨event, hevents, -⟩ := (hcomplete _ rfl).one
  have hnone : (buildMiddlewareStack (fun _ ↦ none) ⟨none, none, .strict⟩ denyAll
      (some (oneRoute "read" "files" "read")) (some (Dict.empty.set "files" brokenSession))
      (plainRequest "read" .callTool)).events = [] := by rfl
  rw [hnone] at hevents
  exact absurd hevents (by simp)

/-! ## The steps of a composite workflow -/

/-- The context `_invoke_via_chain` builds for a call of a step. Its id is made up afresh. -/
def stepContext (freshId : Workflows.Invocation O → String) (inv : Workflows.Invocation O) :
    RequestContext O where
  capabilityName := inv.tool
  mcpMethod := .callTool
  arguments := some inv.args
  requestId := freshId inv
  serverName := none
  originalName := none
  -- The context variables, which the caller's identity is in, are not read.
  metadata := .empty
  error := none

/-- `_invoke_via_chain`: the steps of a workflow enter the middleware chain. An exception the chain
has caught is raised again. -/
def invokeViaChain (chain : MCPHandler O) (freshId : Workflows.Invocation O → String)
    (asValue : McpResult → Value O) : Workflows.ToolInvoker O := fun stepId attempt tool args ↦
  let handled := chain (stepContext freshId ⟨stepId, attempt, tool, args⟩)
  match handled.result, handled.ctx.error with
  | .error e, _ => .raises e.message
  | .ok _, some e => .raises e.message
  | .ok result, none => .returns (asValue result)

/-- The context `_dispatch` builds for a call of a client. -/
def directContext (auth : AuthContext) (requestId : String) (capName : String)
    (mcpMethod : McpMethod) (arguments : Option (Arguments O)) : RequestContext O where
  capabilityName := capName
  mcpMethod := mcpMethod
  arguments := arguments
  requestId := requestId
  serverName := none
  originalName := none
  metadata := auth.metadata
  error := none

/-- The context of a step carries the identity of the client that called the composite tool, and
the authentication layer answers it as it answers the client. -/
structure KeepsIdentity (setup : AuthSetup) (auth : AuthContext) (sent : RequestContext O) :
    Prop where
  metadata : sent.metadata = auth.metadata
  answer : ∀ requestId, (authenticated setup sent).map RequestContext.metadata
    = (authenticated setup (directContext auth requestId sent.capabilityName .callTool
        sent.arguments)).map RequestContext.metadata

theorem metadata_eq_empty_iff {auth : AuthContext} :
    auth.metadata = .empty ↔ auth = .default := by
  rcases auth with ⟨user, token, sessionId, clientIp⟩
  simp only [AuthContext.metadata, Metadata.empty, AuthContext.default, Metadata.mk.injEq,
    AuthContext.mk.injEq, Option.map_eq_none_iff, and_self_left]

/-- What the authentication layer makes of a request depends on its metadata only. -/
theorem map_metadata_authenticated_congr (setup : AuthSetup) {ctx ctx' : RequestContext O}
    (h : ctx.metadata = ctx'.metadata) :
    (authenticated setup ctx).map RequestContext.metadata
      = (authenticated setup ctx').map RequestContext.metadata := by
  rw [authenticated, authenticated]
  rcases setup.registry with _ | registry
  · exact congrArg Except.ok h
  · dsimp only
    rw [h]
    rcases registry.authenticateCall setup.authMode ctx'.metadata.authToken with e | user
    · rfl
    · rfl

section Composite

variable [PyObject O]

/-- The contexts that the steps of a composite tool send through the chain. -/
def sentContexts (order : Layers.SetOrder String) (chain : MCPHandler O)
    (freshId : Workflows.Invocation O → String) (asValue : McpResult → Value O)
    (wf : Workflows.WorkflowDefinition O) (arguments : Arguments O) : List (RequestContext O) :=
  (Workflows.execute order (invokeViaChain chain freshId asValue) wf
    (some arguments)).invocations.map (stepContext freshId)

variable {order : Layers.SetOrder String} {chain : MCPHandler O}
  {freshId : Workflows.Invocation O → String} {asValue : McpResult → Value O}
  {wf : Workflows.WorkflowDefinition O} {arguments : Arguments O}

/-- Nothing is known of the caller in the contexts of the steps. -/
theorem metadata_of_mem_sentContexts {sent : RequestContext O}
    (h : sent ∈ sentContexts order chain freshId asValue wf arguments) :
    sent.metadata = .empty := by
  rw [sentContexts, List.mem_map] at h
  obtain ⟨inv, -, rfl⟩ := h
  rfl

/-- **When steps keep the identity of the caller**: when there is none to keep. For every workflow,
whatever the chain does with its steps, and for each of their contexts. -/
theorem keepsIdentity_iff (setup : AuthSetup) (auth : AuthContext) {sent : RequestContext O}
    (hsent : sent ∈ sentContexts order chain freshId asValue wf arguments) :
    KeepsIdentity setup auth sent ↔ auth = .default := by
  have hempty := metadata_of_mem_sentContexts hsent
  rw [← metadata_eq_empty_iff]
  constructor
  · intro hkeeps
    exact hkeeps.metadata.symm.trans hempty
  · intro hauth
    have hsame : sent.metadata = auth.metadata := hempty.trans hauth.symm
    exact ⟨hsame, fun _ ↦ map_metadata_authenticated_congr setup hsame⟩

end Composite

/-- A chain that answers every call. -/
def echoChain : MCPHandler Empty := fun ctx ↦ ⟨ctx, [], [], .ok .otherResult⟩

def flakyContext : RequestContext Empty := stepContext (fun _ ↦ "1") ⟨"a", 0, "t", []⟩

theorem keepsIdentity_flaky :
    flakyContext ∈ sentContexts .asGiven echoChain (fun _ ↦ "1") (fun _ ↦ .none)
        Workflows.flakyWorkflow [] ∧
      KeepsIdentity ⟨none, none, .strict⟩ .default flakyContext := by
  have hmem : flakyContext ∈ sentContexts .asGiven echoChain (fun _ ↦ "1") (fun _ ↦ .none)
      Workflows.flakyWorkflow [] := List.mem_singleton.mpr rfl
  exact ⟨hmem, (keepsIdentity_iff _ _ hmem).mpr rfl⟩

/-- A client that has presented the token. -/
def localCaller : AuthContext :=
  ⟨some ⟨"local-user", "", "", [], "local"⟩, some "s3cret", some "session-1", some "127.0.0.1"⟩

/-- The client may call the tool itself, but not through a workflow. -/
theorem not_keepsIdentity_flaky :
    Accepts (authenticated ⟨some (.localToken "s3cret"), some (.localToken "s3cret"), .strict⟩
        (directContext localCaller "2" "t" .callTool (some []) : RequestContext Empty)) ∧
      flakyContext ∈ sentContexts .asGiven echoChain (fun _ ↦ "1") (fun _ ↦ .none)
        Workflows.flakyWorkflow [] ∧
      ¬ Accepts (authenticated ⟨some (.localToken "s3cret"), some (.localToken "s3cret"),
        .strict⟩ flakyContext) ∧
      ¬ KeepsIdentity ⟨some (.localToken "s3cret"), some (.localToken "s3cret"), .strict⟩
        localCaller flakyContext := by
  refine ⟨⟨_, rfl⟩, List.mem_singleton.mpr rfl, ?_, fun h ↦ ?_⟩
  · rintro ⟨_, hok⟩
    cases hok
  · exact absurd h.metadata (by decide)

end ArgusMcp
