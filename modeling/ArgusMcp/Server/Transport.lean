import ArgusMcp.Library.Run
import ArgusMcp.Server.Lifespan

/-!
# The transports

Clients talk to the server through sessions. `GET` on the SSE route opens one, and messages for it
are posted to another route; on the streamable HTTP route a request without a session id opens a
session, and later ones name it in a header. The routes are those of `create_app` in
`server/app.py`, with the handlers of `server/transport.py`.

Each session has a message loop of the MCP library, which runs in the context in which the session
was opened: what the loop reads from the context variables is what the authentication gate left
there for that one request. A message is handled some time after it was delivered, and messages of
one session may overtake each other.

## Whose identity

The SSE and the streamable route pass the gate, the messages route does not. And even where a
request has passed the gate, its message is handled under the identity of the request that opened
the session. A call acts under the identity of the request that delivered it only if the two agree
(`ownIdentity_of_run`); a delivery for which they do not is enough to go wrong
(`exists_foreign_of_not_deliversOwn`).
-/

namespace ArgusMcp

namespace Transport

variable {O : Type}

/-! ## Sessions -/

/-- A request and the time at which it is handled; what a provider makes of a token depends on it,
as tokens expire. -/
structure HttpRequest where
  scope : Scope
  time : ℕ

/-- A call that comes to `_dispatch`. -/
structure McpCall (O : Type) where
  capName : String
  mcpMethod : McpMethod
  arguments : Option (Arguments O)

/-- A message of the protocol: a call, or something the middleware chain has no part in, such as
an initialization or a listing. -/
inductive Message (O : Type) where
  | call (c : McpCall O)
  | other

/-- The two kinds of sessions; their ids are independent of each other. -/
inductive TransportType where
  | sse
  | streamableHttp
  deriving DecidableEq, Repr

structure McpSession (O : Type) where
  /-- The context variables in the context the message loop runs in. -/
  vars : AuthContext
  /-- The calls delivered and not yet handled, with the requests that delivered them. -/
  pending : List (HttpRequest × McpCall O)

/-- A call that has entered the middleware chain, with the request that delivered it. -/
structure Dispatched (O : Type) where
  request : HttpRequest
  context : RequestContext O

abbrev SessionKey := TransportType × String

structure TransportState (O : Type) where
  sessions : Dict SessionKey (McpSession O)
  dispatched : List (Dispatched O)

namespace TransportState

/-- The state before the first request. -/
def init : TransportState O := ⟨Dict.empty, []⟩

/-- A new session, unless the id is taken. -/
def openSession (s : TransportState O) (key : SessionKey) (vars : AuthContext) :
    Option (TransportState O) :=
  match s.sessions.get? key with
  | some _ => none
  | none => some { s with sessions := s.sessions.set key ⟨vars, []⟩ }

/-- Delivers a message to a session; without one the request is answered with an error. -/
def deliver (s : TransportState O) (key : SessionKey) (request : HttpRequest) :
    Message O → TransportState O
  | .other => s
  | .call c =>
    match s.sessions.get? key with
    | none => s
    | some session =>
      { s with
        sessions := s.sessions.set key
          { session with pending := session.pending ++ [(request, c)] } }

/-- The message loop of a session handles the pending call of the given position. -/
def handle (s : TransportState O) (key : SessionKey) (i : ℕ) (requestId : String) :
    Option (TransportState O) :=
  match s.sessions.get? key with
  | none => none
  | some session =>
    match session.pending[i]? with
    | none => none
    | some (request, c) => some
        { sessions := s.sessions.set key { session with pending := session.pending.eraseIdx i }
          dispatched := s.dispatched ++ [⟨request,
            directContext session.vars requestId c.capName c.mcpMethod c.arguments⟩] }

end TransportState

/-! ## Requests -/

inductive Event (O : Type) where
  /-- `GET` on the SSE route; the library gives the session an id. -/
  | sse (request : HttpRequest) (newId : String)
  /-- The connection of an SSE session has ended. -/
  | sseClosed (id : String)
  /-- `POST` on the messages route, for the session named in the query. -/
  | messages (request : HttpRequest) (id : String) (message : Message O)
  /-- `POST` on the streamable route; the id is for a session that has to be opened. -/
  | streamablePost (request : HttpRequest) (newId : String) (message : Message O)
  | streamableGet (request : HttpRequest)
  | streamableDelete (request : HttpRequest)
  /-- A message loop comes to a pending call, which gets a new request id. -/
  | handle (key : SessionKey) (i : ℕ) (requestId : String)

/-- The session a request on the streamable route names. -/
def HttpRequest.sessionId (request : HttpRequest) : Option String :=
  request.scope.header "mcp-session-id"

section

variable (provider : ℕ → AuthProvider)

/-- What the gate leaves in the context variables of a request. -/
def HttpRequest.authenticate (request : HttpRequest) : Except Exc AuthContext :=
  authenticateRequest (some (provider request.time)) request.scope .default

/-- One request, or one step of a message loop. A request the gate refuses changes nothing. -/
def step (s : TransportState O) : Event O → Option (TransportState O)
  | .sse request newId =>
    match request.authenticate provider with
    | .error _ => some s
    | .ok vars => s.openSession (.sse, newId) vars
  | .sseClosed id => some { s with sessions := s.sessions.del (.sse, id) }
  -- This route does not pass the gate.
  | .messages request id message => some (s.deliver (.sse, id) request message)
  | .streamablePost request newId message =>
    match request.authenticate provider with
    | .error _ => some s
    | .ok vars =>
      match request.sessionId with
      -- What the gate has found out about this request is not looked at again.
      | some id => some (s.deliver (.streamableHttp, id) request message)
      | none => (s.openSession (.streamableHttp, newId) vars).map fun s ↦
          s.deliver (.streamableHttp, newId) request message
  | .streamableGet _ => some s
  | .streamableDelete request =>
    match request.authenticate provider with
    | .error _ => some s
    | .ok _ =>
      match request.sessionId with
      | some id => some { s with sessions := s.sessions.del (.streamableHttp, id) }
      | none => some s
  | .handle key i requestId => s.handle key i requestId

/-! ## Identity -/

/-- The provider accepts the token of the request that delivered the call, and the metadata of the
call are those of that request. -/
structure OwnIdentity (d : Dispatched O) : Prop where
  accepted : Accepts ((provider d.request.time).authenticate (extractBearerToken d.request.scope))
  metadata : ∀ vars, d.request.authenticate provider = .ok vars →
    d.context.metadata = vars.metadata

/-- A request that delivers a call to a session that is there has a token the provider accepts, and
user, token, session id and client ip are the ones the session was opened with. -/
def DeliversOwn (s : TransportState O) : Event O → Prop
  | .messages request id (.call _) => ∀ session, s.sessions.get? (.sse, id) = some session →
      request.authenticate provider = .ok session.vars
  | .streamablePost request _ (.call _) => ∀ id, request.sessionId = some id →
      ∀ session, s.sessions.get? (.streamableHttp, id) = some session →
        ∀ vars, request.authenticate provider = .ok vars → vars = session.vars
  | _ => True

/-- Every call that is pending is in a session of its own identity, and every call that was
dispatched had its own identity. -/
structure AllOwn (s : TransportState O) : Prop where
  pending : ∀ key session, s.sessions.get? key = some session → ∀ p ∈ session.pending,
    p.1.authenticate provider = .ok session.vars
  dispatched : ∀ d ∈ s.dispatched, OwnIdentity provider d

variable {provider}

theorem accepts_authenticate_iff {request : HttpRequest} :
    Accepts (request.authenticate provider) ↔
      Accepts ((provider request.time).authenticate (extractBearerToken request.scope)) := by
  rw [HttpRequest.authenticate, authenticateRequest]
  dsimp only
  rcases (provider request.time).authenticate (extractBearerToken request.scope) with e | user
  · exact iff_of_false (by simp [Accepts]) (by simp [Accepts])
  · exact iff_of_true ⟨_, rfl⟩ ⟨_, rfl⟩

theorem metadata_injective : Function.Injective AuthContext.metadata := by
  rintro ⟨user, token, sessionId, clientIp⟩ ⟨user', token', sessionId', clientIp'⟩ h
  simp only [AuthContext.metadata, Metadata.mk.injEq] at h
  obtain ⟨rfl, -, rfl, rfl, rfl⟩ := h
  rfl

/-- A call that is handled in a session has its own identity exactly when the request that
delivered it left what the session was opened with. -/
theorem ownIdentity_directContext_iff {request : HttpRequest} {vars : AuthContext}
    {requestId : String} {c : McpCall O} :
    OwnIdentity provider (⟨request, directContext vars requestId c.capName c.mcpMethod
      c.arguments⟩ : Dispatched O) ↔ request.authenticate provider = .ok vars := by
  constructor
  · intro hown
    obtain ⟨own, howns⟩ := accepts_authenticate_iff.mpr hown.accepted
    rw [metadata_injective (hown.metadata own howns)]
    exact howns
  · intro hvars
    refine ⟨accepts_authenticate_iff.mp ⟨vars, hvars⟩, fun own howns ↦ ?_⟩
    obtain rfl : vars = own := Except.ok.inj (hvars.symm.trans howns)
    rfl

namespace AllOwn

variable {s s' : TransportState O} {key : SessionKey}

theorem init : AllOwn provider (TransportState.init : TransportState O) := by
  refine ⟨fun key session hsession ↦ ?_, fun d hd ↦ absurd hd List.not_mem_nil⟩
  exact absurd hsession (by simp [TransportState.init])

theorem set (h : AllOwn provider s) {session : McpSession O} {l : List (Dispatched O)}
    (hpending : ∀ p ∈ session.pending, p.1.authenticate provider = .ok session.vars)
    (hl : ∀ d ∈ l, OwnIdentity provider d) :
    AllOwn provider ⟨s.sessions.set key session, l⟩ := by
  refine ⟨fun key' session' hsession' ↦ ?_, hl⟩
  dsimp only at hsession'
  rw [Dict.get?_set] at hsession'
  split at hsession'
  · obtain rfl := Option.some.inj hsession'
    exact hpending
  · exact h.pending key' session' hsession'

theorem del (h : AllOwn provider s) :
    AllOwn provider { s with sessions := s.sessions.del key } := by
  refine ⟨fun key' session' hsession' ↦ ?_, h.dispatched⟩
  dsimp only at hsession'
  rw [Dict.get?_del] at hsession'
  split at hsession'
  · exact absurd hsession' (by simp)
  · exact h.pending key' session' hsession'

theorem openSession (h : AllOwn provider s) {vars : AuthContext}
    (hopen : s.openSession key vars = some s') : AllOwn provider s' := by
  rw [TransportState.openSession] at hopen
  split at hopen
  · exact absurd hopen (by simp)
  · obtain rfl := Option.some.inj hopen
    exact h.set (fun p hp ↦ absurd hp List.not_mem_nil) h.dispatched

theorem deliver (h : AllOwn provider s) {request : HttpRequest} {message : Message O}
    (hown : ∀ c, message = .call c → ∀ session, s.sessions.get? key = some session →
      request.authenticate provider = .ok session.vars) :
    AllOwn provider (s.deliver key request message) := by
  rcases message with c | _
  · rw [TransportState.deliver]
    rcases hsession : s.sessions.get? key with _ | session
    · exact h
    · refine h.set (fun p hp ↦ ?_) h.dispatched
      rcases List.mem_append.mp hp with hp | hp
      · exact h.pending key session hsession p hp
      · rw [List.mem_singleton.mp hp]
        exact hown c rfl session hsession
  · exact h

theorem handle (h : AllOwn provider s) {i : ℕ} {requestId : String}
    (hhandle : s.handle key i requestId = some s') : AllOwn provider s' := by
  rw [TransportState.handle] at hhandle
  rcases hsession : s.sessions.get? key with _ | session
  · rw [hsession] at hhandle
    exact absurd hhandle (by simp)
  rw [hsession] at hhandle
  dsimp only at hhandle
  rcases hcall : session.pending[i]? with _ | ⟨request, c⟩
  · rw [hcall] at hhandle
    exact absurd hhandle (by simp)
  rw [hcall] at hhandle
  obtain rfl := Option.some.inj hhandle
  have hpending := h.pending key session hsession
  refine h.set (fun p hp ↦ hpending p (List.mem_of_mem_eraseIdx hp)) fun d hd ↦ ?_
  rcases List.mem_append.mp hd with hd | hd
  · exact h.dispatched d hd
  · rw [List.mem_singleton.mp hd]
    exact ownIdentity_directContext_iff.mpr (hpending _ (List.mem_of_getElem? hcall))

end AllOwn

section Steps

variable {s s' : TransportState O} {e : Event O}

theorem get?_openSession {key : SessionKey} {vars : AuthContext}
    (h : s.openSession key vars = some s') : s'.sessions.get? key = some ⟨vars, []⟩ := by
  rw [TransportState.openSession] at h
  split at h
  · exact absurd h (by simp)
  · obtain rfl := Option.some.inj h
    exact Dict.get?_set_self _ _ _

theorem allOwn_step (h : AllOwn provider s) (hok : DeliversOwn provider s e)
    (hstep : step provider s e = some s') : AllOwn provider s' := by
  rcases e with ⟨request, newId⟩ | id | ⟨request, id, message⟩ | ⟨request, newId, message⟩ |
    request | request | ⟨key, i, requestId⟩
  · rw [step] at hstep
    split at hstep
    · obtain rfl := Option.some.inj hstep
      exact h
    · exact h.openSession hstep
  · obtain rfl := Option.some.inj hstep
    exact h.del
  · obtain rfl := Option.some.inj hstep
    refine h.deliver ?_
    rintro c rfl
    exact hok
  · rw [step] at hstep
    split at hstep
    · obtain rfl := Option.some.inj hstep
      exact h
    · rename_i vars hvars
      split at hstep
      · rename_i id hid
        obtain rfl := Option.some.inj hstep
        refine h.deliver ?_
        rintro c rfl session hsession
        rw [hvars, hok id hid session hsession vars hvars]
      · obtain ⟨m, hopen, rfl⟩ := Option.map_eq_some_iff.mp hstep
        refine (h.openSession hopen).deliver ?_
        rintro c rfl session hsession
        -- The session is the one that was opened for this request.
        rw [get?_openSession hopen] at hsession
        obtain rfl := Option.some.inj hsession
        exact hvars
  · obtain rfl := Option.some.inj hstep
    exact h
  · rw [step] at hstep
    split at hstep
    · obtain rfl := Option.some.inj hstep
      exact h
    · split at hstep
      · obtain rfl := Option.some.inj hstep
        exact h.del
      · obtain rfl := Option.some.inj hstep
        exact h
  · exact h.handle hstep

/-- **Identity over whole runs.** Whatever the number of clients and the order of their requests
and of the steps of the message loops: if every request that delivers a call to a session agrees
with the one that opened it, every call that enters the chain has the identity of the request that
delivered it. -/
theorem ownIdentity_of_run {events : List (Event O)}
    (hok : Run.Guarded (step provider) (DeliversOwn provider) .init events)
    (hrun : Run.run (step provider) .init events = some s) :
    ∀ d ∈ s.dispatched, OwnIdentity provider d :=
  (Run.invariant_of_run (fun _ _ _ h hok hstep ↦ allOwn_step h hok hstep) AllOwn.init hok
    hrun).dispatched

theorem exists_handle {key : SessionKey} {session : McpSession O}
    (hsession : s.sessions.get? key = some session) {i : ℕ} {request : HttpRequest}
    {c : McpCall O} (hcall : session.pending[i]? = some (request, c)) (requestId : String) :
    ∃ s', s.handle key i requestId = some s' ∧ s'.dispatched = s.dispatched ++ [⟨request,
      directContext session.vars requestId c.capName c.mcpMethod c.arguments⟩] := by
  rw [TransportState.handle, hsession]
  dsimp only
  rw [hcall]
  exact ⟨_, rfl, rfl⟩

/-- A pending call of another identity is one that can enter the chain. -/
theorem exists_foreign_of_deliver {key : SessionKey} {session : McpSession O}
    (hsession : s.sessions.get? key = some session) {request : HttpRequest} {c : McpCall O}
    (hforeign : request.authenticate provider ≠ .ok session.vars) (requestId : String) :
    ∃ i s' d, step provider (s.deliver key request (.call c)) (.handle key i requestId) = some s' ∧
      s'.dispatched = (s.deliver key request (.call c)).dispatched ++ [d] ∧
        ¬ OwnIdentity provider d := by
  -- The call is the last of those that are pending.
  have hget : (s.deliver key request (.call c)).sessions.get? key
      = some { session with pending := session.pending ++ [(request, c)] } := by
    rw [TransportState.deliver, hsession]
    exact Dict.get?_set_self _ _ _
  have hlast : (session.pending ++ [(request, c)])[session.pending.length]?
      = some (request, c) := List.getElem?_concat_length
  obtain ⟨s', hhandle, hdispatched⟩ := exists_handle hget hlast requestId
  exact ⟨session.pending.length, s', ⟨request, directContext session.vars requestId c.capName
    c.mcpMethod c.arguments⟩, hhandle, hdispatched, mt ownIdentity_directContext_iff.mp hforeign⟩

/-- **One delivery is enough.** After a delivery that does not agree with its session, the next
step of the message loop can put a call into the chain whose identity is not its own. -/
theorem exists_foreign_of_not_deliversOwn (hno : ¬ DeliversOwn provider s e)
    (hstep : step provider s e = some s') (requestId : String) :
    ∃ key i s'' d, step provider s' (.handle key i requestId) = some s'' ∧
      s''.dispatched = s'.dispatched ++ [d] ∧ ¬ OwnIdentity provider d := by
  -- Only the two deliveries of a call can be wrong.
  rcases e with ⟨request, newId⟩ | id | ⟨request, id, c | _⟩ | ⟨request, newId, c | _⟩ |
    request | request | ⟨key, i, requestId'⟩
  all_goals try exact absurd trivial hno
  · rw [DeliversOwn] at hno
    push Not at hno
    obtain ⟨session, hsession, hforeign⟩ := hno
    obtain rfl := Option.some.inj hstep
    exact ⟨_, exists_foreign_of_deliver hsession hforeign requestId⟩
  · rw [DeliversOwn] at hno
    push Not at hno
    obtain ⟨id, hid, session, hsession, vars, hvars, hne⟩ := hno
    rw [step, hvars] at hstep
    dsimp only at hstep
    rw [hid] at hstep
    obtain rfl := Option.some.inj hstep
    refine ⟨_, exists_foreign_of_deliver hsession ?_ requestId⟩
    rw [hvars]
    exact fun h ↦ hne (Except.ok.inj h)

end Steps

end

/-- A static token, the same at all times. -/
def localProvider : ℕ → AuthProvider := fun _ ↦ .localToken "s3cret"

def tokenRequest : HttpRequest := ⟨authorizedScope "Bearer s3cret", 0⟩

/-- A later one from the same address, without a token. -/
def bareRequest : HttpRequest := ⟨⟨[], some "127.0.0.1"⟩, 1⟩

def readCall : McpCall Empty := ⟨"read", .callTool, none⟩

/-- A client opens an SSE session, a message is posted to it, and the message loop comes to it. -/
def postedRun (poster : HttpRequest) : List (Event Empty) :=
  [.sse tokenRequest "1", .messages poster "1" (.call readCall), .handle (.sse, "1") 0 "r"]

theorem ownIdentity_postedRun :
    Run.Guarded (step localProvider) (DeliversOwn localProvider) .init
        (postedRun tokenRequest) ∧
      ∃ s, Run.run (step localProvider) .init (postedRun tokenRequest) = some s ∧
        s.dispatched.length = 1 ∧ ∀ d ∈ s.dispatched, OwnIdentity localProvider d := by
  have hok : Run.Guarded (step localProvider) (DeliversOwn localProvider) .init
      (postedRun tokenRequest) := by
    refine ⟨trivial, fun session hsession ↦ ?_, trivial, trivial⟩
    obtain rfl := Option.some.inj hsession
    rfl
  exact ⟨hok, _, rfl, rfl, ownIdentity_of_run hok rfl⟩

/-- A message posted without any token acts for the client that opened the session. -/
theorem not_ownIdentity_postedRun :
    ¬ Accepts ((localProvider bareRequest.time).authenticate
        (extractBearerToken bareRequest.scope)) ∧
      ∃ s, Run.run (step localProvider) .init (postedRun bareRequest) = some s ∧
        ∃ d ∈ s.dispatched, d.request = bareRequest ∧
          d.context.metadata.authToken = some "s3cret" ∧ ¬ OwnIdentity localProvider d := by
  have hrefused : ¬ Accepts ((localProvider bareRequest.time).authenticate
      (extractBearerToken bareRequest.scope)) := by
    rintro ⟨user, huser⟩
    cases huser
  exact ⟨hrefused, _, rfl, _, List.mem_cons_self, rfl, rfl, fun hown ↦ hrefused hown.accepted⟩

theorem exists_foreign_bareRequest : ∃ m s key i s' d,
    Run.run (step localProvider) .init [.sse tokenRequest "1"] = some m ∧
      step localProvider m (.messages bareRequest "1" (.call readCall)) = some s ∧
      step localProvider s (.handle key i "r") = some s' ∧
      s'.dispatched = s.dispatched ++ [d] ∧ ¬ OwnIdentity localProvider d := by
  obtain ⟨m, hm⟩ : ∃ m, Run.run (step localProvider) .init
      [(.sse tokenRequest "1" : Event Empty)] = some m := ⟨_, rfl⟩
  have hno : ¬ DeliversOwn localProvider m (.messages bareRequest "1" (.call readCall)) := by
    obtain rfl := Option.some.inj hm
    exact fun hall ↦ nomatch hall _ rfl
  obtain ⟨key, i, s', d, hhandle, hforeign⟩ := exists_foreign_of_not_deliversOwn hno rfl "r"
  exact ⟨m, _, key, i, s', d, hm, rfl, hhandle, hforeign⟩

end Transport

end ArgusMcp
