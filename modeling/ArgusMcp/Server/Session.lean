import ArgusMcp.Bridge.Provenance
import ArgusMcp.Bridge.Routes
import ArgusMcp.Runtime.Service

/-!
# Client sessions

A client that connects is given an `MCPSession` (`server/session/models.py`), with a copy of the
route map of that moment: each capability name with the backend behind it. By its docstring the
client keeps this view for as long as the session lives.

Calls do not look at it. They go to the routing layer, which asks a registry as it is then. So the
table holds as long as that registry never gives a recorded name to another backend.

## Who changes what

Hiding and showing backends is done to the registry of the health checker, the object itself, and
this is the registry of the routing layer too. A hidden backend loses its names; a backend that is
listed again takes those that are free, and with priorities those of lesser ones. A reload or a
reconnect fills a registry nobody routes by, so it changes nothing here until the server is
attached once more.

Time is left out: a session that expires ends as one that is closed does.
-/

namespace ArgusMcp

open ArgusMcp.Runtime

/-- What a client was shown when it connected. -/
structure MCPSession where
  routingTable : Dict String String
  capabilitySnapshot : CapType → ℕ
  transportType : String

/-- Looks a name up in the table of the session. Nothing in the code calls it. -/
def MCPSession.resolveBackend (session : MCPSession) (toolName : String) : Option String :=
  session.routingTable.get? toolName

/-- The service, and the client sessions there are. -/
structure Gateway (V : Type*) where
  service : Service V
  sessionManager : Bool
  /-- The open sessions, of whichever session manager. -/
  clients : Dict String MCPSession

namespace Gateway

/-- What happens to them. -/
inductive Event (V : Type*) where
  | service (op : Op V)
  /-- `_attach_to_mcp_server` gets beyond the middleware chain, to the session manager. -/
  | attachSessionManager
  /-- The health checker removes a backend from its registry. -/
  | hide (name : String)
  /-- It has a backend listed again. -/
  | restore (name : String)
  /-- A listing arrives. -/
  | listed (task : Task) (reply : ListReply)
  /-- A client that may connect does, and is given a session under a new id. -/
  | handleSse (id : String)
  /-- A session is closed, or has been idle for too long. -/
  | endSession (id : String)

variable {V : Type*}

def init : Gateway V := ⟨Service.init, false, Dict.empty⟩

variable (g : Gateway V)

/-- The registry object someone was given. -/
def registryAt (id : Option ℕ) : Option (Registry V) := id.bind fun i ↦ g.service.registries[i]?

/-- `resolve_capability`, asked of someone's registry. -/
def resolveAt (id : Option ℕ) (key : String) : Option Route :=
  (g.registryAt id).bind fun r ↦ r.state.resolveCapability key

/-- A step of the health checker's registry. -/
def onChecker (step : Step) : Option (Gateway V) :=
  g.service.checker.bind fun id ↦ (g.service.registries[id]?).bind fun r ↦
    (registryStep r.rules r.state step).map fun st ↦
      { g with
        service :=
          { g.service with
            registries := g.service.registries.set id { r with state := st } } }

def createSession (id : String) (registry : RegistryState) (transportType : String) :
    Gateway V :=
  let session : MCPSession :=
    { routingTable := registry.routeMap.mapValues Prod.fst
      capabilitySnapshot := fun capType ↦ (registry.advertisedLists capType).length
      transportType := transportType }
  { g with clients := g.clients.set id session }

/-- `handle_sse`. Without a registry it answers 503, without a session manager there is no
session. -/
def handleSse (id : String) : Gateway V :=
  match g.registryAt g.service.server with
  | none => g
  | some r => if g.sessionManager then g.createSession id r.state "sse" else g

end Gateway

def Gateway.step {V : Type*} [DecidableEq V] (g : Gateway V) : Gateway.Event V → Option (Gateway V)
  | .service op => (g.service.step op).map fun s ↦ { g with service := s }
  | .attachSessionManager =>
    if g.service.routing.isSome then some { g with sessionManager := true } else none
  | .hide name => g.onChecker (.removeBackend name)
  | .restore name => g.onChecker (.discoverSingleBackend name)
  | .listed task reply => g.onChecker (.complete task reply)
  | .handleSse id => some (g.handleSse id)
  | .endSession id => some { g with clients := g.clients.del id }

/-! ## What the sessions were promised -/

namespace Gateway

section Property

variable {V : Type*} (g : Gateway V)

/-- Whoever calls, a name that a session has recorded is forwarded only to the backend it has
recorded, if these backends are connected. -/
def ForwardsAsRecorded {O : Type} (manager : Dict String (Session O)) : Prop :=
  ∀ id session, g.clients.get? id = some session → ∀ (ctx : RequestContext O) svrName,
    session.resolveBackend ctx.capabilityName = some svrName →
    ∀ call ∈ (routingMiddleware ((g.registryAt g.service.routing).map Registry.state)
      (some manager) ctx).calls, call.target.1 = svrName

/-- The same, whichever backends are connected by then. -/
def FrozenRouting : Prop := ∀ (O : Type) (manager : Dict String (Session O)),
  g.ForwardsAsRecorded manager

/-- An open session has recorded the backend for the name. -/
def Recorded (key svrName : String) : Prop :=
  ∃ id session, g.clients.get? id = some session ∧ session.resolveBackend key = some svrName

/-- The registry has no recorded name with another backend than the recorded one. -/
def AgreesWith (id : Option ℕ) : Prop :=
  ∀ key svrName, g.Recorded key svrName → ∀ route, g.resolveAt id key = some route →
    route.1 = svrName

/-- **What takes no name from a session.** When the server is attached, the registry it is given
agrees with the open sessions; a listing that arrives in the registry of the routing layer takes no
name that a session has recorded for another backend; a client connects while the server shows what
the routing layer does. -/
def Harmless : Event V → Prop
  | .service (.attach true) => g.AgreesWith (some g.service.registry)
  | .listed task reply => g.service.checker = g.service.routing →
      ∀ r ∈ g.registryAt g.service.checker, task ∈ r.state.pending →
        ∀ key svrName, g.Recorded key svrName → svrName ≠ task.svr →
          ¬Takes r.rules.strategy r.state.routeMap (taskOffers r.rules task reply) key
  | .handleSse _ => g.sessionManager = true →
      ∀ key shown routed, g.resolveAt g.service.server key = some shown →
        g.resolveAt g.service.routing key = some routed → routed.1 = shown.1
  | _ => True

end Property

/-- A client asks for a tool. -/
def toolRequest (name : String) : RequestContext Empty where
  capabilityName := name
  mcpMethod := .callTool
  arguments := none
  requestId := ""
  serverName := none
  originalName := none
  metadata := ⟨none, none, none, none, none⟩
  error := none

/-- A backend that is connected. -/
def idleSession : Session Empty :=
  ⟨fun _ _ ↦ .ok .null, fun _ ↦ .ok .null, fun _ _ ↦ .ok .null⟩

/-- **Frozen routing is agreement**: a call goes where the registry of the routing layer says. -/
theorem frozenRouting_iff {V : Type*} {g : Gateway V} :
    g.FrozenRouting ↔ g.AgreesWith g.service.routing := by
  constructor
  · rintro h key svrName ⟨id, session, hsession, hrecorded⟩ route hroute
    obtain ⟨r, hr, hroute⟩ := Option.bind_eq_some_iff.mp hroute
    -- the name is called while the backend of the route is connected
    have hcall : BackendCall.callTool route.1 route.2 [] ∈ (routingMiddleware
        ((g.registryAt g.service.routing).map Registry.state)
        (some (Dict.empty.set route.1 idleSession)) (toolRequest key)).calls := by
      rw [hr, Option.map_some, calls_routingMiddleware, toolRequest]
      dsimp only
      rw [hroute]
      dsimp only
      rw [Dict.get?_set_self, Option.isSome_some, if_pos rfl]
      exact List.mem_singleton_self _
    exact h Empty _ id session hsession (toolRequest key) svrName hrecorded _ hcall
  · intro h O manager id session hsession ctx svrName hrecorded call hcall
    rcases hr : g.registryAt g.service.routing with _ | r
    · rw [hr] at hcall
      exact absurd hcall (by simp [routingMiddleware, Handled.raise])
    · rw [hr, Option.map_some] at hcall
      refine h ctx.capabilityName svrName ⟨id, session, hsession, hrecorded⟩ call.target ?_
      rw [resolveAt, hr, Option.bind_some]
      exact target_of_mem_calls hcall

/-! ## The events -/

section Events

variable {V : Type*} {g m : Gateway V} {i j : Option ℕ}

/-- The registries of the service and of the routing layer are there. -/
structure Known (g : Gateway V) : Prop where
  registry : g.service.registry < g.service.registries.length
  routing : ∀ id ∈ g.service.routing, id < g.service.registries.length

theorem AgreesWith.mono (h : g.AgreesWith j)
    (hrecorded : ∀ key svrName, m.Recorded key svrName → g.Recorded key svrName)
    (hresolve : ∀ key route, m.resolveAt i key = some route → g.resolveAt j key = some route) :
    m.AgreesWith i :=
  fun key svrName hrec route hroute ↦
    h key svrName (hrecorded key svrName hrec) route (hresolve key route hroute)

theorem recorded_congr (hclients : m.clients = g.clients) {key svrName : String} :
    m.Recorded key svrName ↔ g.Recorded key svrName := by
  rw [Recorded, Recorded, hclients]

theorem agreesWith_congr (hclients : m.clients = g.clients)
    (hresolve : ∀ key, m.resolveAt i key = g.resolveAt j key) :
    m.AgreesWith i ↔ g.AgreesWith j := by
  constructor
  · intro h
    apply h.mono fun key svrName ↦ (recorded_congr hclients).mpr
    exact fun key route hroute ↦ (hresolve key).trans hroute
  · intro h
    apply h.mono fun key svrName ↦ (recorded_congr hclients).mp
    exact fun key route hroute ↦ (hresolve key).symm.trans hroute

theorem service_spec {s : Service V} (hknown : g.Known) (h : SameRouting g.service s) :
    Known { g with service := s } ∧
      (AgreesWith { g with service := s } s.routing ↔ g.AgreesWith g.service.routing) := by
  obtain ⟨added, hadded⟩ := h.registries
  have hlength : s.registries.length = g.service.registries.length + added.length := by
    rw [← hadded, List.length_append]
  constructor
  · refine ⟨h.registry, fun id hid ↦ ?_⟩
    have hlt := hknown.routing id (h.routing ▸ hid)
    dsimp only
    omega
  · refine agreesWith_congr rfl fun key ↦ ?_
    rw [resolveAt, resolveAt, registryAt, registryAt, h.routing]
    rcases hrouting : g.service.routing with _ | id
    · rfl
    · have hlt := hknown.routing id hrouting
      rw [Option.bind_some, Option.bind_some, ← hadded, List.getElem?_append_left hlt]

theorem onChecker_spec {step : Step} (hknown : g.Known) (h : g.onChecker step = some m) :
    m.Known ∧ m.clients = g.clients ∧
      (g.service.checker ≠ g.service.routing ∧
        (∀ key, m.resolveAt m.service.routing key = g.resolveAt g.service.routing key) ∨
      ∃ r st, g.service.checker = g.service.routing ∧ g.registryAt g.service.checker = some r ∧
        registryStep r.rules r.state step = some st ∧
        (∀ key, g.resolveAt g.service.routing key = r.state.resolveCapability key) ∧
        ∀ key, m.resolveAt m.service.routing key = st.resolveCapability key) := by
  obtain ⟨id, hid, h⟩ := Option.bind_eq_some_iff.mp h
  obtain ⟨r, hr, h⟩ := Option.bind_eq_some_iff.mp h
  obtain ⟨st, hst, rfl⟩ := Option.map_eq_some_iff.mp h
  refine ⟨⟨?_, fun j hj ↦ ?_⟩, rfl, ?_⟩
  · rw [List.length_set]
    exact hknown.registry
  · rw [List.length_set]
    exact hknown.routing j hj
  by_cases hsame : g.service.checker = g.service.routing
  · right
    have hrouting : g.service.routing = some id := hsame ▸ hid
    have hlt : id < g.service.registries.length := hknown.routing id hrouting
    have hat : g.registryAt (some id) = some r := hr
    refine ⟨r, st, hsame, hid ▸ hat, hst, fun key ↦ ?_, fun key ↦ ?_⟩
    · rw [resolveAt, hrouting, hat, Option.bind_some]
    · rw [resolveAt, registryAt]
      dsimp only
      rw [hrouting, Option.bind_some, List.getElem?_set_self hlt, Option.bind_some]
  · refine Or.inl ⟨hsame, fun key ↦ ?_⟩
    rw [resolveAt, resolveAt, registryAt, registryAt]
    dsimp only
    rcases hrouting : g.service.routing with _ | j
    · rfl
    · have hne : id ≠ j := by
        rintro rfl
        exact hsame (hid.trans hrouting.symm)
      rw [Option.bind_some, Option.bind_some, List.getElem?_set_ne hne]

theorem quiet_spec {step : Step} (hknown : g.Known) (hagree : g.AgreesWith g.service.routing)
    (h : g.onChecker step = some m)
    (hquiet : ∀ cfg st st', registryStep cfg st step = some st' → ∀ key route,
      st'.resolveCapability key = some route → st.resolveCapability key = some route) :
    m.Known ∧ m.AgreesWith m.service.routing := by
  obtain ⟨hknown', hclients, ⟨-, hsame⟩ | ⟨r, st, -, -, hst, hbefore, hafter⟩⟩ :=
    onChecker_spec hknown h
  · exact ⟨hknown', (agreesWith_congr hclients hsame).mpr hagree⟩
  · refine ⟨hknown', hagree.mono (fun key svrName ↦ (recorded_congr hclients).mp) ?_⟩
    intro key route hroute
    rw [hafter] at hroute
    rw [hbefore]
    exact hquiet _ _ _ hst key route hroute

theorem listed_spec {task : Task} {reply : ListReply} (hknown : g.Known)
    (hagree : g.AgreesWith g.service.routing)
    (h : g.onChecker (.complete task reply) = some m) :
    m.Known ∧ (m.AgreesWith m.service.routing ↔ g.Harmless (.listed task reply)) := by
  obtain ⟨hknown', hclients, ⟨hother, hsame⟩ | ⟨r, st, hcheck, hr, hst, hbefore, hafter⟩⟩ :=
    onChecker_spec hknown h
  · refine ⟨hknown', iff_of_true ((agreesWith_congr hclients hsame).mpr hagree) fun hcheck ↦ ?_⟩
    exact absurd hcheck hother
  refine ⟨hknown', ?_⟩
  obtain ⟨htask, rfl⟩ := registryStep_complete.mp hst
  -- a name that is recorded for another backend is not the task's before
  have hnot : ∀ {key svrName}, g.Recorded key svrName → svrName ≠ task.svr →
      ¬∃ orig, r.state.routeMap.get? key = some (task.svr, orig) := by
    rintro key svrName hrec hne ⟨orig, horig⟩
    exact hne (hagree key svrName hrec (task.svr, orig) ((hbefore key).trans horig)).symm
  constructor
  · intro hagree' _ r' hr' _ key svrName hrec hne htakes
    obtain rfl : r = r' := Option.some.inj (hr.symm.trans hr')
    obtain ⟨orig, horig⟩ := (RegistryState.takes_complete (hnot hrec hne)).mpr htakes
    have htaken := hagree' key svrName ((recorded_congr hclients).mpr hrec) (task.svr, orig)
      ((hafter key).trans horig)
    exact hne htaken.symm
  · intro hharmless key svrName hrec route hroute
    rw [recorded_congr hclients] at hrec
    rw [hafter] at hroute
    by_cases hsvr : route.1 = task.svr
    · by_contra hne
      have hother : svrName ≠ task.svr := fun heq ↦ hne (hsvr.trans heq.symm)
      refine hharmless hcheck r hr htask key svrName hrec hother ?_
      apply (RegistryState.takes_complete (hnot hrec hother)).mp
      exact ⟨route.2, hsvr ▸ hroute⟩
    · apply hagree key svrName hrec route
      rw [hbefore]
      exact RegistryState.route_of_complete hsvr hroute

theorem handleSse_spec (hknown : g.Known) (hagree : g.AgreesWith g.service.routing)
    (id : String) :
    (g.handleSse id).Known ∧
      ((g.handleSse id).AgreesWith (g.handleSse id).service.routing ↔
        g.Harmless (.handleSse id)) := by
  rw [handleSse, Harmless]
  rcases hserver : g.registryAt g.service.server with _ | r
  · refine ⟨hknown, iff_of_true hagree fun _ key shown routed hshown ↦ ?_⟩
    rw [resolveAt, hserver] at hshown
    exact absurd hshown (by simp)
  have hserved : ∀ key, g.resolveAt g.service.server key = r.state.resolveCapability key := by
    intro key
    rw [resolveAt, hserver, Option.bind_some]
  dsimp only
  by_cases hmanager : g.sessionManager = true
  · rw [if_pos hmanager, forall_prop_of_true hmanager]
    refine ⟨⟨hknown.registry, hknown.routing⟩, ?_⟩
    have hnew : ∀ key svrName, (r.state.routeMap.mapValues Prod.fst).get? key = some svrName ↔
        ∃ orig, r.state.resolveCapability key = some (svrName, orig) := by
      intro key svrName
      rw [Dict.get?_mapValues, Option.map_eq_some_iff, RegistryState.resolveCapability]
      simp
    constructor
    · intro hagree' key shown routed hshown hrouted
      refine hagree' key shown.1 ⟨id, _, Dict.get?_set_self _ _ _, ?_⟩ routed hrouted
      exact (hnew key shown.1).mpr ⟨shown.2, (hserved key).symm.trans hshown⟩
    · rintro hsame key svrName ⟨id', session, hsession, hrec⟩ route hroute
      rw [createSession, Dict.get?_set] at hsession
      split at hsession
      · obtain rfl := Option.some.inj hsession
        obtain ⟨orig, horig⟩ := (hnew key svrName).mp hrec
        exact hsame key (svrName, orig) route ((hserved key).trans horig) hroute
      · exact hagree key svrName ⟨id', session, hsession, hrec⟩ route hroute
  · rw [if_neg hmanager]
    exact ⟨hknown, iff_of_true hagree fun h ↦ absurd h hmanager⟩

/-- **One event.** It keeps the registry of the routing layer in agreement with the open sessions
exactly if it is harmless. -/
theorem step_spec [DecidableEq V] {ev : Event V} (hknown : g.Known)
    (hagree : g.AgreesWith g.service.routing) (h : g.step ev = some m) :
    m.Known ∧ (m.AgreesWith m.service.routing ↔ g.Harmless ev) := by
  rcases ev with op | _ | name | name | ⟨task, reply⟩ | id | id
  · obtain ⟨s, hs, rfl⟩ := Option.map_eq_some_iff.mp h
    by_cases hop : op = .attach true
    · subst hop
      obtain rfl := Option.some.inj hs
      refine ⟨⟨hknown.registry, fun id hid ↦ ?_⟩, Iff.rfl⟩
      rw [← Option.mem_some_iff.mp hid]
      exact hknown.registry
    · obtain ⟨hknown', hiff⟩ := service_spec hknown (sameRouting_step hop hknown.registry hs)
      refine ⟨hknown', iff_of_true (hiff.mpr hagree) ?_⟩
      rcases op with _ | chainBuilt | _ | _
      · trivial
      · rcases chainBuilt with _ | _
        · trivial
        · exact absurd rfl hop
      · trivial
      · trivial
  · rw [step] at h
    split at h
    · obtain rfl := Option.some.inj h
      exact ⟨⟨hknown.registry, hknown.routing⟩, iff_of_true hagree trivial⟩
    · exact absurd h (by simp)
  · obtain ⟨hknown', hagree'⟩ := quiet_spec hknown hagree h <| by
      rintro cfg st st' hst key route hroute
      obtain rfl := Option.some.inj hst
      exact (RegistryState.route_removeBackend_iff.mp hroute).1
    exact ⟨hknown', iff_of_true hagree' trivial⟩
  · obtain ⟨hknown', hagree'⟩ := quiet_spec hknown hagree h <| by
      rintro cfg st st' hst key route hroute
      obtain rfl := Option.some.inj hst
      exact hroute
    exact ⟨hknown', iff_of_true hagree' trivial⟩
  · exact listed_spec hknown hagree h
  · obtain rfl := Option.some.inj h
    exact handleSse_spec hknown hagree id
  · obtain rfl := Option.some.inj h
    refine ⟨⟨hknown.registry, hknown.routing⟩, iff_of_true ?_ trivial⟩
    refine hagree.mono ?_ fun key route hroute ↦ hroute
    rintro key svrName ⟨id', session, hsession, hrec⟩
    rw [Dict.get?_del] at hsession
    split at hsession
    · exact absurd hsession (by simp)
    · exact ⟨id', session, hsession, hrec⟩

theorem harmless_of_step_eq_none [DecidableEq V] {ev : Event V} (h : g.step ev = none) :
    g.Harmless ev := by
  rcases ev with op | _ | name | name | ⟨task, reply⟩ | id | id
  · rcases op with _ | chainBuilt | _ | _
    · trivial
    · exact absurd h (Option.some_ne_none _)
    · trivial
    · trivial
  · trivial
  · trivial
  · trivial
  · intro _ r hr htask
    obtain ⟨id, hid, hget⟩ := Option.bind_eq_some_iff.mp hr
    have hdone := (@registryStep_complete r.rules r.state _ task reply).mpr ⟨htask, rfl⟩
    rw [step, onChecker, hid, Option.bind_some, hget, Option.bind_some, hdone] at h
    exact absurd h (by simp)
  · exact absurd h (Option.some_ne_none _)
  · trivial

end Events

/-! ## Runs -/

section Runs

variable {V : Type*} [DecidableEq V]

/-- In every state the events lead to, routing is frozen for the sessions open then. -/
def AlwaysFrozen (events : List (Event V)) : Prop :=
  ∀ pre g, pre <+: events → Run.run step init pre = some g → g.FrozenRouting

/-- **Frozen routing.** Along a run of the service, the health checker and the clients, calls for
recorded names go to the recorded backends only, exactly if every event is harmless. -/
theorem alwaysFrozen_iff (events : List (Event V)) :
    AlwaysFrozen events ↔ Run.Guarded step Harmless init events := by
  have hinit : (init : Gateway V).Known := ⟨Nat.zero_lt_one, by simp [init, Service.init]⟩
  refine @Run.forall_reached_iff_guarded _ _ step Harmless Known FrozenRouting ?_ ?_ events init
    hinit ?_
  · intro g ev m hknown hfrozen h
    rw [frozenRouting_iff] at hfrozen ⊢
    exact step_spec hknown hfrozen h
  · exact fun g ev _ _ h ↦ harmless_of_step_eq_none h
  · rw [frozenRouting_iff]
    rintro key svrName ⟨id, session, hsession, -⟩
    exact absurd hsession (by simp [init])

end Runs

/-! ### A name that changes hands -/

/-- Two backends list the same tool, and the first has it. A client connects; both backends are
hidden, and the second comes back. -/
def takeover : List (Event Unit) :=
  [.service (.start (some (fileWith ["alpha", "beta"])) (.read .default) ["alpha", "beta"]
      (.inOrder (toolListing ["x"]))),
    .service (.attach true), .attachSessionManager, .handleSse "client", .hide "alpha",
    .hide "beta", .restore "beta",
    .listed ⟨"beta", .tools, 3, .single⟩ (toolListing ["x"] "beta" .tools)]

def takenOver : Gateway Unit := (Run.run step init takeover).getD init

/-- The client calls the tool of the first backend, and the second one answers. -/
theorem not_forwardsAsRecorded_takeover :
    ¬∀ (g : Gateway Unit) (manager : Dict String (Session Empty)),
      Run.run step init takeover = some g → manager.keys = g.service.sessions.keys →
      g.ForwardsAsRecorded manager := by
  intro h
  have hrun : Run.run step init takeover = some takenOver :=
    Run.run_eq_some_getD (by decide) init
  let manager : Dict String (Session Empty) :=
    Dict.ofList [("alpha", idleSession), ("beta", idleSession)]
  obtain ⟨session, hsession⟩ := Option.isSome_iff_exists.mp
    (by decide : (takenOver.clients.get? "client").isSome)
  have hrec : (takenOver.clients.get? "client").bind (·.resolveBackend "x") = some "alpha" := by
    decide
  rw [hsession, Option.bind_some] at hrec
  have hcall : BackendCall.callTool "beta" "x" [] ∈ (routingMiddleware
      ((takenOver.registryAt takenOver.service.routing).map Registry.state) (some manager)
      (toolRequest "x")).calls := List.mem_singleton.mpr rfl
  have htarget := h takenOver manager hrun (by decide) "client" session hsession (toolRequest "x")
    "alpha" hrec _ hcall
  exact absurd htarget (by decide)

end Gateway

end ArgusMcp
