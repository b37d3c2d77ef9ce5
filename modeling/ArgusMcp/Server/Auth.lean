import ArgusMcp.Server.Handlers

/-!
# Incoming authentication

A bearer token is looked at twice. The gate of the transport, `_authenticate_request`, reads it off
the headers of the HTTP request, asks the provider and leaves user and token in context variables;
inside the middleware chain, `AuthMiddleware` asks the provider again about the token it finds in
the metadata. The modules modelled are `server/auth/providers.py`, the first half of
`server/transport.py`, `bridge/middleware/auth.py` and `_setup_incoming_auth` of
`server/lifespan.py`. Checking the signature of a JSON web token is left to a parameter.

## The two layers

The layers share the provider but not the mode: the gate publishes it and does not consult it. In
strict mode that makes no difference. In permissive mode `AuthMiddleware` lets a request without a
token through as anonymous, while the gate has already asked the provider about a missing token,
which every provider but the anonymous one refuses. `layersAgree_iff` says that this is the only
case in which they part.
-/

namespace ArgusMcp

/-! ## Requests -/

/-- A byte string. -/
abbrev Bytes := List UInt8

/-- `value.decode("latin-1")`. -/
def latin1 (b : Bytes) : String := String.ofList (b.map fun x ↦ Char.ofNat x.toNat)

/-- The part of an ASGI scope the gates read. -/
structure Scope where
  headers : List (Bytes × Bytes)
  /-- The host of the client address, if there is an address. -/
  client : Option String

/-- The decoded value of the first header of that name. -/
def Scope.header (scope : Scope) (name : String) : Option String :=
  (scope.headers.find? fun h ↦ decide (latin1 h.1 = name)).map fun h ↦ latin1 h.2

/-- What follows `bearer `, in whatever case that is written. -/
def bearerToken (decoded : String) : Option String :=
  let cs := decoded.toList
  if (cs.take 7).map Char.toLower = "bearer ".toList then some (String.ofList (cs.drop 7))
  else none

def extractBearerToken (scope : Scope) : Option String :=
  (scope.header "authorization").bind bearerToken

/-! ## Providers -/

def authenticationError (message : String) : Exc := ⟨.authenticationError, message⟩

def configurationError (message : String) : Exc := ⟨.configurationError, message⟩

/-- `UserIdentity(provider="anonymous")`. -/
def anonymousIdentity : UserIdentity := ⟨"anonymous", "", "", [], "anonymous"⟩

def UserIdentity.isAnonymous (user : UserIdentity) : Bool := user.provider = "anonymous"

def isAscii (s : String) : Bool := s.toList.all fun c ↦ decide (c.toNat < 128)

/-- `hmac.compare_digest` on two texts. -/
def compareDigest (a b : String) : Except Exc Bool :=
  if isAscii a && isAscii b then .ok (decide (a = b))
  else .error ⟨.typeError, "comparing strings with non-ASCII characters is not supported"⟩

/-- The claims of a token that become part of an identity. -/
structure TokenClaims where
  sub : String
  email : String
  name : String
  roles : List String

/-- `JWTValidator.validate`: the claims, a `JWTValidationError` with its text, or another
exception, for example of the key client. -/
abbrev JWTValidator := String → Except (String ⊕ Exc) TokenClaims

/-- The provider behind a registry. -/
inductive AuthProvider where
  | anonymous
  | localToken (expected : String)
  | jwt (validator : JWTValidator)

namespace AuthProvider

/-- `LocalTokenProvider.authenticate` of a token that is not missing. -/
def authenticateLocal (expected token : String) : Except Exc UserIdentity := do
  if ← compareDigest token expected then
    return ⟨"local-user", "", "", [], "local"⟩
  else throw (authenticationError "Invalid bearer token")

/-- `JWTAuthProvider.authenticate` of a token that is not missing. -/
def authenticateJwt (validator : JWTValidator) (token : String) : Except Exc UserIdentity :=
  match validator token with
  | .error (.inl text) => .error (authenticationError text)
  | .error (.inr e) => .error e
  | .ok claims => .ok ⟨claims.sub, claims.email, claims.name, claims.roles, "jwt"⟩

/-- `AuthProviderRegistry.authenticate`. An empty token counts as missing. -/
def authenticate : AuthProvider → Option String → Except Exc UserIdentity
  | anonymous, _ => .ok anonymousIdentity
  | localToken expected, token =>
    if token.getD "" = "" then .error (authenticationError "Missing bearer token")
    else authenticateLocal expected (token.getD "")
  | jwt validator, token =>
    if token.getD "" = "" then .error (authenticationError "Missing bearer token")
    else authenticateJwt validator (token.getD "")

end AuthProvider

inductive AuthType where
  | anonymous
  | localToken
  | jwt
  | oidc
  deriving DecidableEq, Repr

inductive AuthMode where
  | strict
  | permissive
  deriving DecidableEq, Repr

/-- Incoming authentication config for the MCP data plane. -/
structure IncomingAuthConfig where
  type : AuthType
  authMode : AuthMode
  token : Option String
  jwksUri : Option String
  issuer : Option String

variable (mkValidator : IncomingAuthConfig → JWTValidator)

def AuthProvider.fromConfig (cfg : IncomingAuthConfig) : Except Exc AuthProvider :=
  match cfg.type with
  | .anonymous => .ok .anonymous
  | .localToken =>
    if cfg.token.getD "" = "" then
      .error (configurationError "Local auth requires 'token' in config")
    else .ok (.localToken (cfg.token.getD ""))
  | .jwt => .ok (.jwt (mkValidator cfg))
  | .oidc =>
    if cfg.jwksUri.getD "" = "" ∧ cfg.issuer.getD "" = "" then
      .error (configurationError "OIDC auth requires 'issuer' in config for auto-discovery")
    else .ok (.jwt (mkValidator cfg))

/-! ## The two layers -/

/-- What the lifespan hands to the two layers. -/
structure AuthSetup where
  /-- `_incoming_auth_provider` of the transport. -/
  gate : Option AuthProvider
  /-- The registry of `AuthMiddleware`, which is not installed without one. -/
  registry : Option AuthProvider
  authMode : AuthMode

def setupIncomingAuth : Option IncomingAuthConfig → Except Exc AuthSetup
  | none => .error (configurationError
      ("Auth configuration is required — cannot start gateway without auth config. " ++
        "Set incoming_auth.type in config.yaml (use 'anonymous' explicitly for dev mode)."))
  | some cfg =>
    if cfg.type ≠ .anonymous then
      (AuthProvider.fromConfig mkValidator cfg).map fun p ↦ ⟨some p, some p, cfg.authMode⟩
    else if cfg.authMode = .permissive then
      (AuthProvider.fromConfig mkValidator cfg).map fun p ↦ ⟨none, some p, cfg.authMode⟩
    else .ok ⟨none, none, cfg.authMode⟩

/-- The context variables at the start of a request. -/
def AuthContext.default : AuthContext := ⟨none, none, none, none⟩

/-- `_authenticate_request`: the context variables it leaves, or the exception it raises. -/
def authenticateRequest (gate : Option AuthProvider) (scope : Scope) (vars : AuthContext) :
    Except Exc AuthContext :=
  -- Session id and client ip are noted whether there is a provider or not.
  let vars :=
    { vars with
      currentSessionId := (scope.header "mcp-session-id").orElse fun _ ↦ vars.currentSessionId
      currentClientIp := scope.client.orElse fun _ ↦ vars.currentClientIp }
  match gate with
  | none => .ok vars
  | some provider => do
    let token := extractBearerToken scope
    let user ← provider.authenticate token
    return { vars with
      currentUser := some user
      currentAuthToken := token.orElse fun _ ↦ vars.currentAuthToken }

/-- Whom `AuthMiddleware` takes a request for. A token that was presented is validated in either
mode. -/
def AuthProvider.authenticateCall (registry : AuthProvider) (mode : AuthMode) :
    Option String → Except Exc UserIdentity
  | some token => registry.authenticate (some token)
  | none =>
    match mode with
    | .permissive => .ok anonymousIdentity
    | .strict => registry.authenticate none

def Metadata.identify (m : Metadata) (user : UserIdentity) : Metadata :=
  { m with
    user := some user
    userSubject := if user.subject = "" then m.userSubject else some user.subject }

variable {O : Type}

/-- Validates the token in the metadata and puts the identity there. -/
def authMiddleware (registry : AuthProvider) (mode : AuthMode) : MCPMiddleware O where
  name := "AuthMiddleware"
  call := fun ctx next ↦
    match registry.authenticateCall mode ctx.metadata.authToken with
    | .error e => .raise ctx e
    | .ok user => next { ctx with metadata := ctx.metadata.identify user }

/-- A request with an accepted token goes on under the identity found; any other is refused before
anything is called. -/
theorem call_authMiddleware (registry : AuthProvider) (mode : AuthMode) (ctx : RequestContext O)
    (next : MCPHandler O) :
    (∃ user, registry.authenticateCall mode ctx.metadata.authToken = .ok user ∧
      (authMiddleware registry mode).call ctx next
        = next { ctx with metadata := ctx.metadata.identify user }) ∨
    ∃ e, registry.authenticateCall mode ctx.metadata.authToken = .error e ∧
      (authMiddleware registry mode).call ctx next = .raise ctx e := by
  rw [authMiddleware]
  dsimp only
  rcases registry.authenticateCall mode ctx.metadata.authToken with e | user
  · exact .inr ⟨e, rfl, rfl⟩
  · exact .inl ⟨user, rfl, rfl⟩

/-! ## Agreement -/

def Accepts {α : Type} (decision : Except Exc α) : Prop := ∃ a, decision = .ok a

def AcceptsAnonymous (decision : Except Exc (Option UserIdentity)) : Prop :=
  ∃ user, decision = .ok user ∧ ∀ u ∈ user, u.isAnonymous = true

namespace AuthSetup

variable (setup : AuthSetup) (scope : Scope)

/-- What the gate makes of a request: the user it finds, if it looks for one. -/
def gateDecision : Except Exc (Option UserIdentity) :=
  (authenticateRequest setup.gate scope .default).map AuthContext.currentUser

/-- What `AuthMiddleware` makes of the token of the request; without a registry it is not there. -/
def middlewareDecision : Except Exc (Option UserIdentity) :=
  match setup.registry with
  | none => .ok none
  | some registry =>
    (registry.authenticateCall setup.authMode (extractBearerToken scope)).map some

end AuthSetup

/-- The two layers take the same decision about a request, and it is the one the mode asks for. -/
structure LayersAgree (setup : AuthSetup) (provider : AuthProvider) (scope : Scope) : Prop where
  same : Accepts (setup.gateDecision scope) ↔ Accepts (setup.middlewareDecision scope)
  strict : setup.authMode = .strict →
    (Accepts (setup.gateDecision scope) ↔
      Accepts (provider.authenticate (extractBearerToken scope))) ∧
    (Accepts (setup.middlewareDecision scope) ↔
      Accepts (provider.authenticate (extractBearerToken scope)))
  /-- In permissive mode a request without a token is accepted as anonymous. -/
  anonymous : setup.authMode = .permissive → extractBearerToken scope = none →
    AcceptsAnonymous (setup.gateDecision scope) ∧
      AcceptsAnonymous (setup.middlewareDecision scope)
  invalid : setup.authMode = .permissive → ∀ token, extractBearerToken scope = some token →
    ¬ Accepts (provider.authenticate (some token)) →
      ¬ Accepts (setup.gateDecision scope) ∧ ¬ Accepts (setup.middlewareDecision scope)

section Agreement

variable {scope : Scope}

theorem accepts_map {α β : Type} (f : α → β) (d : Except Exc α) :
    Accepts (d.map f) ↔ Accepts d := by
  rcases d with e | a
  · exact iff_of_false (fun ⟨_, h⟩ ↦ absurd h (by simp [Except.map]))
      (fun ⟨_, h⟩ ↦ absurd h (by simp))
  · exact iff_of_true ⟨f a, rfl⟩ ⟨a, rfl⟩

theorem gateDecision_some {provider : AuthProvider} {registry : Option AuthProvider}
    {mode : AuthMode} : AuthSetup.gateDecision ⟨some provider, registry, mode⟩ scope
      = (provider.authenticate (extractBearerToken scope)).map some := by
  rw [AuthSetup.gateDecision, authenticateRequest]
  dsimp only
  rcases provider.authenticate (extractBearerToken scope) with e | user
  · rfl
  · rfl

theorem authenticateCall_eq {provider : AuthProvider} {mode : AuthMode} {token : Option String}
    (h : mode = .permissive → token ≠ none) :
    provider.authenticateCall mode token = provider.authenticate token := by
  rcases token with _ | token
  · rcases mode with _ | _
    · rfl
    · exact absurd rfl (h rfl)
  · rfl

theorem accepts_authenticate_none_iff {provider : AuthProvider} :
    Accepts (provider.authenticate none) ↔ provider = .anonymous := by
  rcases provider with _ | expected | validator
  · exact iff_of_true ⟨_, rfl⟩ rfl
  · exact iff_of_false (fun ⟨_, h⟩ ↦ absurd h (by simp [AuthProvider.authenticate])) (by simp)
  · exact iff_of_false (fun ⟨_, h⟩ ↦ absurd h (by simp [AuthProvider.authenticate])) (by simp)

theorem acceptsAnonymous_anonymous :
    AcceptsAnonymous (.ok (some anonymousIdentity)) := by
  refine ⟨some anonymousIdentity, rfl, fun u hu ↦ ?_⟩
  rw [Option.mem_def, Option.some.injEq] at hu
  rw [← hu]
  rfl

variable {mkValidator} {cfg : IncomingAuthConfig} {provider : AuthProvider}

theorem eq_anonymous_iff (hprovider : AuthProvider.fromConfig mkValidator cfg = .ok provider) :
    provider = .anonymous ↔ cfg.type = .anonymous := by
  rw [AuthProvider.fromConfig] at hprovider
  rcases htype : cfg.type with _ | _ | _ | _
  · rw [htype, Except.ok.injEq] at hprovider
    exact iff_of_true hprovider.symm rfl
  · rw [htype] at hprovider
    dsimp only at hprovider
    split at hprovider
    · exact absurd hprovider (by simp)
    · rw [Except.ok.injEq] at hprovider
      exact iff_of_false (by simp [← hprovider]) (by simp)
  · rw [htype, Except.ok.injEq] at hprovider
    exact iff_of_false (by simp [← hprovider]) (by simp)
  · rw [htype] at hprovider
    dsimp only at hprovider
    split at hprovider
    · exact absurd hprovider (by simp)
    · rw [Except.ok.injEq] at hprovider
      exact iff_of_false (by simp [← hprovider]) (by simp)

theorem setupIncomingAuth_of_ne (htype : cfg.type ≠ .anonymous)
    (hprovider : AuthProvider.fromConfig mkValidator cfg = .ok provider) :
    setupIncomingAuth mkValidator (some cfg)
      = .ok ⟨some provider, some provider, cfg.authMode⟩ := by
  rw [setupIncomingAuth, if_pos htype, hprovider]
  rfl

theorem setupIncomingAuth_anonymous (htype : cfg.type = .anonymous) :
    setupIncomingAuth mkValidator (some cfg) = .ok ⟨none,
      if cfg.authMode = .permissive then some .anonymous else none, cfg.authMode⟩ := by
  rw [setupIncomingAuth, if_neg (not_not.mpr htype), AuthProvider.fromConfig, htype]
  by_cases hmode : cfg.authMode = .permissive
  · rw [if_pos hmode, if_pos hmode]
    rfl
  · rw [if_neg hmode, if_neg hmode]

theorem layersAgree_anonymous (mode : AuthMode) :
    LayersAgree ⟨none, if mode = .permissive then some .anonymous else none, mode⟩ .anonymous
      scope := by
  have hgate : AcceptsAnonymous (AuthSetup.gateDecision
      ⟨none, if mode = .permissive then some .anonymous else none, mode⟩ scope) :=
    ⟨none, rfl, fun u hu ↦ absurd hu (by simp)⟩
  have hmw : AcceptsAnonymous (AuthSetup.middlewareDecision
      ⟨none, if mode = .permissive then some .anonymous else none, mode⟩ scope) := by
    rcases mode with _ | _
    · exact ⟨none, rfl, fun u hu ↦ absurd hu (by simp)⟩
    · rw [AuthSetup.middlewareDecision, if_pos rfl]
      dsimp only
      rcases extractBearerToken scope with _ | token
      · exact acceptsAnonymous_anonymous
      · exact acceptsAnonymous_anonymous
  have haccepts : ∀ {d}, AcceptsAnonymous d → Accepts d := fun ⟨u, hu, _⟩ ↦ ⟨u, hu⟩
  refine ⟨iff_of_true (haccepts hgate) (haccepts hmw), fun _ ↦ ?_, fun _ _ ↦ ⟨hgate, hmw⟩,
    fun _ token _ hreject ↦ absurd ⟨_, rfl⟩ hreject⟩
  exact ⟨iff_of_true (haccepts hgate) ⟨_, rfl⟩, iff_of_true (haccepts hmw) ⟨_, rfl⟩⟩

theorem layersAgree_provider_iff (hne : provider ≠ .anonymous) (mode : AuthMode) :
    LayersAgree ⟨some provider, some provider, mode⟩ provider scope ↔
      (mode = .permissive → extractBearerToken scope ≠ none) := by
  have hgate := @gateDecision_some scope provider (some provider) mode
  constructor
  · intro hagree hmode htoken
    -- The gate has asked about a missing token and was refused.
    obtain ⟨user, huser, -⟩ := (hagree.anonymous hmode htoken).1
    have haccepts : Accepts (provider.authenticate none) := by
      rw [← htoken, ← accepts_map some, ← hgate]
      exact ⟨user, huser⟩
    exact hne (accepts_authenticate_none_iff.mp haccepts)
  · intro h
    have hmw : AuthSetup.middlewareDecision ⟨some provider, some provider, mode⟩ scope
        = (provider.authenticate (extractBearerToken scope)).map some := by
      rw [AuthSetup.middlewareDecision]
      dsimp only
      rw [authenticateCall_eq h]
    refine ⟨by rw [hgate, hmw], fun _ ↦ ?_, fun hmode htoken ↦ absurd htoken (h hmode),
      fun _ token htoken hreject ↦ ?_⟩
    · rw [hgate, hmw, accepts_map]
      exact ⟨Iff.rfl, Iff.rfl⟩
    · rw [hgate, hmw, accepts_map, htoken]
      exact ⟨hreject, hreject⟩

end Agreement

/-- **When the two layers agree.** For every configuration the server starts with and every request:
always, except in permissive mode on a request without a bearer token that a provider other than
the anonymous one is asked about. -/
theorem layersAgree_iff {cfg : IncomingAuthConfig} {setup : AuthSetup} {provider : AuthProvider}
    (hsetup : setupIncomingAuth mkValidator (some cfg) = .ok setup)
    (hprovider : AuthProvider.fromConfig mkValidator cfg = .ok provider) (scope : Scope) :
    LayersAgree setup provider scope ↔
      (cfg.authMode = .permissive → extractBearerToken scope = none → cfg.type = .anonymous) := by
  by_cases htype : cfg.type = .anonymous
  · rw [setupIncomingAuth_anonymous htype, Except.ok.injEq] at hsetup
    rw [(eq_anonymous_iff hprovider).mpr htype, ← hsetup]
    exact iff_of_true (layersAgree_anonymous cfg.authMode) fun _ _ ↦ htype
  · rw [setupIncomingAuth_of_ne htype hprovider, Except.ok.injEq] at hsetup
    rw [← hsetup, layersAgree_provider_iff (mt (eq_anonymous_iff hprovider).mp htype)]
    refine forall_congr' fun _ ↦ forall_congr' fun _ ↦ ?_
    exact iff_of_false (fun h ↦ h) htype

def asciiBytes (s : String) : Bytes := s.toList.map fun c ↦ UInt8.ofNat c.toNat

/-- A request with the given `Authorization` header. -/
def authorizedScope (value : String) : Scope :=
  ⟨[(asciiBytes "authorization", asciiBytes value)], some "127.0.0.1"⟩

def permissiveLocal : IncomingAuthConfig := ⟨.localToken, .permissive, some "s3cret", none, none⟩

def refuseAll : IncomingAuthConfig → JWTValidator := fun _ _ ↦ .error (.inl "Token has expired")

theorem layersAgree_permissiveLocal_wrong_token :
    extractBearerToken (authorizedScope "Bearer guess") = some "guess" ∧
      LayersAgree ⟨some (.localToken "s3cret"), some (.localToken "s3cret"), .permissive⟩
        (.localToken "s3cret") (authorizedScope "Bearer guess") := by
  have htoken : extractBearerToken (authorizedScope "Bearer guess") = some "guess" := by decide
  refine ⟨htoken, (@layersAgree_iff refuseAll permissiveLocal _ _ rfl rfl _).mpr ?_⟩
  intro _ hnone
  rw [htoken] at hnone
  exact absurd hnone (by simp)

/-- In permissive mode a request without a header is refused by the gate, and the middleware would
let it through. -/
theorem not_layersAgree_permissiveLocal_no_token :
    ∃ setup, setupIncomingAuth refuseAll (some permissiveLocal) = .ok setup ∧
      ¬ LayersAgree setup (.localToken "s3cret") ⟨[], some "127.0.0.1"⟩ := by
  refine ⟨_, rfl, fun hagree ↦ ?_⟩
  obtain ⟨user, huser⟩ := hagree.same.mpr ⟨some anonymousIdentity, rfl⟩
  exact absurd huser (by simp [AuthSetup.gateDecision, authenticateRequest, extractBearerToken,
    Scope.header, AuthProvider.authenticate, bind, Except.bind, Except.map])

end ArgusMcp
