import ArgusMcp.Server.JwtValidation

/-!
# Providers with a discovered key set

An OIDC issuer publishes a discovery document, and that names the address of its key set under
`jwks_uri`. `OIDCDiscovery.fetch` in `server/auth/oidc.py` reads the name off the document.
`from_config` does not ask it: for a configuration without a key set it gives the address of the
discovery document itself to the validator, on the understanding that the key set will be discovered
at runtime. The validator takes what is served there for the key set.

## What the two providers accept

A provider accepts a token when a key with the key id of the token is in the set at its address, the
signature fits under that key, and the payload passes. The payload does not depend on the address.
So a provider that discovers its key set and one that is told the address part exactly on the tokens
that would pass but for the key, and `acceptsSame_iff` compares the two addresses there. A discovery
document without `keys` has no key for any token (`not_accepts_of_no_keys`).
-/

namespace ArgusMcp.Jwt

/-! ## Discovery -/

structure OidcConfig (O : Type) where
  issuer : Value O
  jwksUri : Value O
  authorizationEndpoint : Value O
  tokenEndpoint : Value O
  userinfoEndpoint : Value O
  raw : Object O

/-- What `OIDCDiscovery.fetch` makes of a document, or the text of an `OIDCDiscoveryError`. -/
def OidcConfig.ofDocument {O : Type} (issuer : String) (document : Object O) :
    Except String (OidcConfig O) :=
  match document.lookup "jwks_uri" with
  | none => .error ("OIDC discovery document at " ++ discoveryUrl issuer ++
      " missing required 'jwks_uri' field")
  | some jwksUri => .ok
    { issuer := Object.getD document "issuer"
        (.str (String.ofList (Management.rstripSlash issuer.toList)))
      jwksUri := jwksUri
      authorizationEndpoint := Object.getD document "authorization_endpoint" (.str "")
      tokenEndpoint := Object.getD document "token_endpoint" (.str "")
      userinfoEndpoint := Object.getD document "userinfo_endpoint" (.str "")
      raw := document }

/-! ## Key sets on the web -/

/-- What is served on the web at one moment, and what the checks of PyJWT make of a token. -/
structure Web (K O : Type) where
  now : ℚ
  /-- The JSON document at an address. -/
  documentAt : Option String → Option (Value O)
  /-- The id and the key of an entry of a key set that is for signatures. -/
  signingKey : Value O → Option (String × K)
  /-- The key id in the header of a token. -/
  keyId : String → Except PyExc String
  /-- The check of algorithm and signature. -/
  signature : String → K → List String → Except PyExc Unit
  /-- The payload, after the checks of issuer, audience and times. -/
  payload : String → DecodeArgs → Except PyExc (Object O)

namespace Web

variable {K O : Type} (web : Web K O)

/-- The entries of the key set at an address. -/
def keySet (uri : Option String) : List (Value O) :=
  match (web.documentAt uri).bind (Value.get? "keys") with
  | some (.list entries) => entries
  | _ => []

/-- The key of that id in the key set at an address. -/
def keyAt (uri : Option String) (kid : String) : Option K :=
  ((web.keySet uri).filterMap web.signingKey).lookup kid

def findKey (uri : Option String) (token : String) : Except PyExc K :=
  (web.keyId token).bind fun kid ↦
    match web.keyAt uri kid with
    | some key => .ok key
    | none => .error ⟨.pyJwkClientError,
        "Unable to find a signing key that matches: \"" ++ kid ++ "\""⟩

/-- PyJWT over the web: the client for an address uses the keys of the key set there. -/
def pyJwt : PyJwt Unit (Option String) K O where
  installed := true
  monotonic := fun _ ↦ web.now
  connect := fun uri w ↦ (uri, w)
  getSigningKeyFromJwt := fun uri token w ↦ (web.findKey uri token, w)
  decode := fun token key args w ↦
    ((web.signature token key args.algorithms).bind fun _ ↦ web.payload token args, w)

theorem getSigningKeyFromJwt_pyJwt (uri : Option String) (token : String) (w : Unit) :
    web.pyJwt.getSigningKeyFromJwt uri token w = (web.findKey uri token, w) := rfl

end Web

/-- An issuer whose discovery document names a key set. -/
structure Issuer {K O : Type} (web : Web K O) where
  url : String
  document : Object O
  jwksUri : String
  url_ne : url ≠ ""
  served : web.documentAt (some (discoveryUrl url)) = some (.dict document)
  named : document.lookup "jwks_uri" = some (.str jwksUri)

section Providers

variable {K O : Type} {web : Web K O}

theorem ofDocument_jwksUri (issuer : Issuer web) :
    (OidcConfig.ofDocument issuer.url issuer.document).map OidcConfig.jwksUri
      = .ok (.str issuer.jwksUri) := by
  rw [OidcConfig.ofDocument, issuer.named]
  rfl

/-- `{type: oidc, issuer}`. -/
def Issuer.oidc (issuer : Issuer web) (audience : Option String) (algorithms : List String) :
    AuthConfig :=
  ⟨⟨.oidc, .strict, none, none, some issuer.url⟩, audience, algorithms⟩

/-- `{type: jwt, issuer, jwks_uri}`, with the key set that the discovery document names. -/
def Issuer.jwt (issuer : Issuer web) (audience : Option String) (algorithms : List String) :
    AuthConfig :=
  ⟨⟨.jwt, .strict, none, some issuer.jwksUri, some issuer.url⟩, audience, algorithms⟩

theorem fromConfig_oidc (issuer : Issuer web) (audience : Option String)
    (algorithms : List String) : Provider.fromConfig (issuer.oidc audience algorithms) = .ok
      (.jwt ⟨some (discoveryUrl issuer.url), some issuer.url, audience, algorithms, 3600⟩) := by
  have hgiven : ¬ ((none : Option String).getD "" = "" ∧ (some issuer.url).getD "" = "") :=
    fun h ↦ issuer.url_ne h.2
  rw [Issuer.oidc, Provider.fromConfig]
  dsimp only
  rw [if_neg hgiven]
  rfl

theorem fromConfig_jwt (issuer : Issuer web) (audience : Option String) (algorithms : List String) :
    Provider.fromConfig (issuer.jwt audience algorithms)
      = .ok (.jwt ⟨some issuer.jwksUri, some issuer.url, audience, algorithms, 3600⟩) := rfl

end Providers

/-! ## What a provider accepts -/

section Accepts

variable {K O : Type} [PyObject O] (web : Web K O) (cfg : JwtConfig)

/-- The key set at an address has the key for a token, and the signature fits. -/
def Fits (uri : Option String) (algorithms : List String) (token : String) : Prop :=
  ∃ key, web.findKey uri token = .ok key ∧ web.signature token key algorithms = .ok ()

/-- The payload of a token passes, and makes this user. -/
def Passes (args : DecodeArgs) (token : String) (user : UserIdentity O) : Prop :=
  ∃ claims, web.payload token args = .ok claims ∧ (tokenClaims claims).bind identityOf = .ok user

/-- A token decoded under the key set at an address. -/
def attemptAt (uri : Option String) (token : String) : Except PyExc (Object O) :=
  (web.findKey uri token).bind fun key ↦
    (web.signature token key cfg.decodeArgs.algorithms).bind fun _ ↦
      web.payload token cfg.decodeArgs

omit [PyObject O] in
theorem attemptAt_eq_ok_iff {uri : Option String} {token : String} {claims : Object O} :
    attemptAt web cfg uri token = .ok claims ↔
      Fits web uri cfg.algorithms token ∧ web.payload token cfg.decodeArgs = .ok claims := by
  rw [attemptAt, bind_eq_ok_iff, Fits]
  constructor
  · rintro ⟨key, hkey, h⟩
    obtain ⟨_, hsignature, hclaims⟩ := bind_eq_ok_iff.mp h
    exact ⟨⟨key, hkey, hsignature⟩, hclaims⟩
  · rintro ⟨⟨key, hkey, hsignature⟩, hclaims⟩
    exact ⟨key, hkey, bind_eq_ok_iff.mpr ⟨(), hsignature, hclaims⟩⟩

/-- A key client that is held is one for the address of the configuration. -/
def HoldsOwn (held : Option (Keys (Option String))) : Prop :=
  ∀ keys ∈ held, keys.client = cfg.jwksUri

variable {web cfg} {held : Option (Keys (Option String))}

omit [PyObject O] in
theorem client_currentKeys (h : HoldsOwn cfg held) (w : Unit) :
    (currentKeys web.pyJwt cfg held w).1.client = cfg.jwksUri := by
  rcases held with _ | keys
  · rfl
  · rw [currentKeys]
    split
    · rfl
    · exact h keys rfl

omit [PyObject O] in
theorem decodeUnder_pyJwt (keys : Keys (Option String)) (token : String) (w : Unit) :
    decodeUnder web.pyJwt cfg keys token w = (attemptAt web cfg keys.client token, ()) := by
  rw [decodeUnder, attemptAt, Web.getSigningKeyFromJwt_pyJwt]
  rcases web.findKey keys.client token with e | key
  · rfl
  · rfl

omit [PyObject O] in
/-- The second attempt is made under the same key set, so it brings nothing new. -/
theorem validatedClaims_eq_ok_iff (h : HoldsOwn cfg held) {token : String} {claims : Object O} :
    (validatedClaims web.pyJwt cfg held token ()).1 = .ok claims ↔
      attemptAt web cfg cfg.jwksUri token = .ok claims := by
  have hfirst : firstAttempt web.pyJwt cfg held token ()
      = (attemptAt web cfg cfg.jwksUri token, ()) := by
    rw [firstAttempt, decodeUnder_pyJwt, client_currentKeys h]
  have hsecond : secondAttempt web.pyJwt cfg token ()
      = (attemptAt web cfg cfg.jwksUri token, ()) := by
    rw [secondAttempt, decodeUnder_pyJwt]
    rfl
  rw [fst_validatedClaims, hfirst]
  rcases hattempt : attemptAt web cfg cfg.jwksUri token with e | claims'
  · refine iff_of_false (fun hok ↦ ?_) fun hok ↦ absurd hok (by simp)
    dsimp only at hok
    rw [hsecond, hattempt, Except.mapError] at hok
    split at hok
    · exact absurd hok (by simp)
    · exact absurd hok (by simp)
  · exact ⟨fun hok ↦ congrArg _ (Except.ok.inj hok), fun hok ↦ congrArg _ (Except.ok.inj hok)⟩

theorem outcomeOf_eq_ok_iff {r : Except (String ⊕ Exc) (Object O)} {user : UserIdentity O} :
    outcomeOf r = .ok user ↔
      ∃ claims, r = .ok claims ∧ (tokenClaims claims).bind identityOf = .ok user := by
  rcases r with (text | e) | claims
  · simp [outcomeOf]
  · simp [outcomeOf]
  · simp only [outcomeOf, Except.ok.injEq, exists_eq_left']

/-- **What a provider accepts**: a token for which the key set at its address has a fitting key, and
whose payload passes. -/
theorem authenticate_eq_ok_iff (h : HoldsOwn cfg held) (token : Option String)
    (user : UserIdentity O) :
    ((Provider.jwt cfg).authenticate web.pyJwt held token ()).1 = .ok user ↔
      token.getD "" ≠ "" ∧ Fits web cfg.jwksUri cfg.algorithms (token.getD "") ∧
        Passes web cfg.decodeArgs (token.getD "") user := by
  rw [Provider.authenticate]
  by_cases htoken : token.getD "" = ""
  · rw [if_pos htoken]
    exact iff_of_false (fun hok ↦ absurd hok (by simp)) fun hok ↦ hok.1 htoken
  · rw [if_neg htoken, fst_authenticateJwt _ _ rfl, outcomeOf_eq_ok_iff, Passes]
    constructor
    · rintro ⟨claims, hclaims, huser⟩
      rw [validatedClaims_eq_ok_iff h, attemptAt_eq_ok_iff] at hclaims
      exact ⟨htoken, hclaims.1, claims, hclaims.2, huser⟩
    · rintro ⟨-, hfits, claims, hclaims, huser⟩
      refine ⟨claims, ?_, huser⟩
      rw [validatedClaims_eq_ok_iff h, attemptAt_eq_ok_iff]
      exact ⟨hfits, hclaims⟩

end Accepts

/-! ## Runs -/

/-- The key client that a provider holds after some requests. -/
def heldAfter {W C K O : Type} [PyObject O] (py : PyJwt W C K O) (provider : Provider) :
    List (Option String) → Option (Keys C) × W → Option (Keys C) × W
  | [], state => state
  | token :: past, state =>
    heldAfter py provider past (provider.authenticate py state.1 token state.2).2

section Runs

variable {K O : Type} [PyObject O] {web : Web K O} {cfg : JwtConfig}
  {held : Option (Keys (Option String))}

omit [PyObject O] in
theorem holdsOwn_validatedClaims (h : HoldsOwn cfg held) (token : String) (w : Unit) :
    (validatedClaims web.pyJwt cfg held token w).2.1.client = cfg.jwksUri := by
  rw [validatedClaims]
  dsimp only
  split
  · exact client_currentKeys h w
  · split
    · split
      · rfl
      · rfl
    · exact client_currentKeys h w

theorem holdsOwn_authenticate (h : HoldsOwn cfg held) (token : Option String) (w : Unit) :
    HoldsOwn cfg ((Provider.jwt cfg).authenticate web.pyJwt held token w).2.1 := by
  have hvalidate : ∀ text, HoldsOwn cfg (validate web.pyJwt cfg held text w).2.1 := by
    intro text keys hkeys
    have hinstalled : web.pyJwt.installed = true := rfl
    rw [validate, if_pos hinstalled] at hkeys
    rw [← Option.mem_some.mp hkeys]
    exact holdsOwn_validatedClaims h text w
  rw [Provider.authenticate]
  split
  · exact h
  · have hkeep := hvalidate (token.getD "")
    rw [authenticateJwt]
    rcases hresult : validate web.pyJwt cfg held (token.getD "") w with ⟨(text | e) | claims, rest⟩
    · rw [hresult] at hkeep
      exact hkeep
    · rw [hresult] at hkeep
      exact hkeep
    · rw [hresult] at hkeep
      exact hkeep

theorem holdsOwn_heldAfter (past : List (Option String)) (h : HoldsOwn cfg held) :
    HoldsOwn cfg (heldAfter web.pyJwt (.jwt cfg) past (held, ())).1 := by
  induction past generalizing held with
  | nil => exact h
  | cons token past ih => exact ih (holdsOwn_authenticate h token ())

theorem holdsOwn_none : HoldsOwn cfg none := fun _ hkeys ↦ absurd hkeys (by simp)

end Runs

/-! ## The comparison -/

section Compare

variable {K O : Type} [PyObject O] {web : Web K O}

/-- A provider accepts a token as a user, after some requests since it was built. -/
def AcceptsAs (web : Web K O) (provider : Provider) (past : List (Option String))
    (token : Option String) (user : UserIdentity O) : Prop :=
  (provider.authenticate web.pyJwt (heldAfter web.pyJwt provider past (none, ())).1 token ()).1
    = .ok user

theorem acceptsAs_jwt_iff (cfg : JwtConfig) (past : List (Option String)) (token : Option String)
    (user : UserIdentity O) : AcceptsAs web (.jwt cfg) past token user ↔
      token.getD "" ≠ "" ∧ Fits web cfg.jwksUri cfg.algorithms (token.getD "") ∧
        Passes web cfg.decodeArgs (token.getD "") user :=
  authenticate_eq_ok_iff (holdsOwn_heldAfter past holdsOwn_none) token user

/-- What `jwt.decode` is asked to check for an issuer. -/
def Issuer.args (issuer : Issuer web) (audience : Option String) (algorithms : List String) :
    DecodeArgs :=
  ⟨algorithms, given (some issuer.url), given audience, (given audience).isSome⟩

/-- **When discovery makes no difference.** For every issuer whose discovery document names a key
set, whatever the two providers were asked before, and every token: the provider that is to discover
the key set accepts the token as the same users as the one that is given its address, exactly if the
token is refused for its payload in any case, or the discovery document as a key set has a fitting
key when the key set it names has one, and the other way round. -/
theorem acceptsSame_iff (issuer : Issuer web) (audience : Option String) (algorithms : List String)
    {oidc jwt : Provider}
    (hoidc : Provider.fromConfig (issuer.oidc audience algorithms) = .ok oidc)
    (hjwt : Provider.fromConfig (issuer.jwt audience algorithms) = .ok jwt)
    (past past' : List (Option String)) (token : Option String) :
    (∀ user, AcceptsAs web oidc past token user ↔ AcceptsAs web jwt past' token user) ↔
      (token.getD "" ≠ "" →
        (∃ user, Passes web (issuer.args audience algorithms) (token.getD "") user) →
        (Fits web (some (discoveryUrl issuer.url)) algorithms (token.getD "") ↔
          Fits web (some issuer.jwksUri) algorithms (token.getD ""))) := by
  rw [fromConfig_oidc, Except.ok.injEq] at hoidc
  rw [fromConfig_jwt, Except.ok.injEq] at hjwt
  rw [← hoidc, ← hjwt]
  simp only [acceptsAs_jwt_iff]
  constructor
  · rintro h htoken ⟨user, hpasses⟩
    have huser := h user
    constructor
    · exact fun hfits ↦ (huser.mp ⟨htoken, hfits, hpasses⟩).2.1
    · exact fun hfits ↦ (huser.mpr ⟨htoken, hfits, hpasses⟩).2.1
  · intro h user
    refine and_congr_right fun htoken ↦ ?_
    exact and_congr_left fun hpasses ↦ h htoken ⟨user, hpasses⟩

omit [PyObject O] in
/-- A document without `keys` has no key for any token. -/
theorem not_fits_of_no_keys (issuer : Issuer web) (hkeys : issuer.document.lookup "keys" = none)
    (algorithms : List String) (token : String) :
    ¬ Fits web (some (discoveryUrl issuer.url)) algorithms token := by
  have hset : web.keySet (some (discoveryUrl issuer.url)) = [] := by
    rw [Web.keySet, issuer.served, Option.bind_some, Value.get?, hkeys]
  rintro ⟨key, hkey, -⟩
  rw [Web.findKey, bind_eq_ok_iff] at hkey
  obtain ⟨kid, -, hkid⟩ := hkey
  rw [Web.keyAt, hset] at hkid
  exact absurd hkid (by simp)

/-- Where the discovery document has no `keys`, a provider that is to discover its key set accepts
nobody. -/
theorem not_accepts_of_no_keys (issuer : Issuer web)
    (hkeys : issuer.document.lookup "keys" = none) (audience : Option String)
    (algorithms : List String) {oidc : Provider}
    (hoidc : Provider.fromConfig (issuer.oidc audience algorithms) = .ok oidc)
    (past : List (Option String)) (token : Option String) (user : UserIdentity O) :
    ¬ AcceptsAs web oidc past token user := by
  rw [fromConfig_oidc, Except.ok.injEq] at hoidc
  rw [← hoidc, acceptsAs_jwt_iff]
  exact fun h ↦ not_fits_of_no_keys issuer hkeys algorithms _ h.2.1

end Compare

/-! ## An issuer -/

/-- An issuer with a discovery document and a key set of one key, which every signature fits. -/
def idpWeb (payload : Except PyExc (Object Empty)) : Web Unit Empty where
  now := 0
  documentAt := fun uri ↦
    if uri = some "https://idp.example/keys" then some (.dict [("keys", .list [.dict []])])
    else some (.dict [("jwks_uri", .str "https://idp.example/keys")])
  signingKey := fun _ ↦ some ("k1", ())
  keyId := fun _ ↦ .ok "k1"
  signature := fun _ _ _ ↦ .ok ()
  payload := fun _ _ ↦ payload

def idp (payload : Except PyExc (Object Empty)) : Issuer (idpWeb payload) where
  url := "https://idp.example"
  document := [("jwks_uri", .str "https://idp.example/keys")]
  jwksUri := "https://idp.example/keys"
  url_ne := by decide
  served := rfl
  named := rfl

def alice : Except PyExc (Object Empty) := .ok [("sub", .str "alice")]

/-- An issuer whose discovery document has the entries of its key set as well. One of the two tokens
is expired. -/
def frankWeb : Web Unit Empty where
  now := 0
  documentAt := fun uri ↦
    if uri = some "https://idp.example/keys" then some (.dict [("keys", .list [.dict []])])
    else some (.dict [("jwks_uri", .str "https://idp.example/keys"), ("keys", .list [.dict []])])
  signingKey := fun _ ↦ some ("k1", ())
  keyId := fun _ ↦ .ok "k1"
  signature := fun _ _ _ ↦ .ok ()
  payload := fun token _ ↦
    if token = "e30.e30.b2xk" then .error ⟨.expiredSignatureError, "Signature has expired"⟩
    else .ok [("sub", .str "alice")]

def frank : Issuer frankWeb where
  url := "https://idp.example"
  document := [("jwks_uri", .str "https://idp.example/keys"), ("keys", .list [.dict []])]
  jwksUri := "https://idp.example/keys"
  url_ne := by decide
  served := rfl
  named := rfl

/-- After an expired token that both refuse, the valid one is accepted by both. -/
theorem acceptsSame_iff_frank :
    let oidc := Provider.jwt (frank.oidc none ["RS256"]).jwtConfig
    let jwt := Provider.jwt (frank.jwt none ["RS256"]).jwtConfig
    (∀ user, ¬ AcceptsAs frankWeb oidc [] (some "e30.e30.b2xk") user ∧
      ¬ AcceptsAs frankWeb jwt [] (some "e30.e30.b2xk") user) ∧
    ∃ user, AcceptsAs frankWeb oidc [some "e30.e30.b2xk"] (some "e30.e30.c2ln") user ∧
      AcceptsAs frankWeb jwt [] (some "e30.e30.c2ln") user := by
  intro oidc jwt
  have hrefused : ∀ args user, ¬ Passes frankWeb args "e30.e30.b2xk" user := by
    rintro args user ⟨claims, hclaims, -⟩
    exact absurd hclaims (by simp [frankWeb])
  constructor
  · have hjwt : ∀ user, ¬ AcceptsAs frankWeb jwt [] (some "e30.e30.b2xk") user :=
      fun user huser ↦ hrefused _ user ((acceptsAs_jwt_iff _ _ _ _).mp huser).2.2
    have hsame := (acceptsSame_iff frank none ["RS256"] rfl rfl [] [] (some "e30.e30.b2xk")).mpr
      fun _ ⟨user, huser⟩ ↦ absurd huser (hrefused _ user)
    exact fun user ↦ ⟨fun huser ↦ hjwt user ((hsame user).mp huser), hjwt user⟩
  · have hdiscovered : Fits frankWeb (some (discoveryUrl frank.url)) ["RS256"] "e30.e30.c2ln" :=
      ⟨(), rfl, rfl⟩
    have hnamed : Fits frankWeb (some frank.jwksUri) ["RS256"] "e30.e30.c2ln" := ⟨(), rfl, rfl⟩
    have hsame := (acceptsSame_iff frank none ["RS256"] rfl rfl [some "e30.e30.b2xk"] []
      (some "e30.e30.c2ln")).mpr fun _ _ ↦ iff_of_true hdiscovered hnamed
    have hjwt : AcceptsAs frankWeb jwt [] (some "e30.e30.c2ln")
        ⟨.str "alice", .str "", .str "", [], "jwt", [("sub", .str "alice")]⟩ := rfl
    exact ⟨_, (hsame _).mpr hjwt, hjwt⟩

/-- A valid token is accepted by the provider that is given the address of the key set, and refused
by the one that is to discover it. -/
theorem not_forall_acceptsSame :
    ¬ ∀ (issuer : Issuer (idpWeb alice)) (oidc jwt : Provider),
      Provider.fromConfig (issuer.oidc none ["RS256"]) = .ok oidc →
      Provider.fromConfig (issuer.jwt none ["RS256"]) = .ok jwt →
      ∀ (token : Option String) (user : UserIdentity Empty),
        AcceptsAs (idpWeb alice) oidc [] token user ↔
          AcceptsAs (idpWeb alice) jwt [] token user := by
  intro h
  have haccepts := (h (idp alice) _ _ rfl rfl (some "e30.e30.c2ln")
    ⟨.str "alice", .str "", .str "", [], "jwt", [("sub", .str "alice")]⟩).mpr rfl
  exact not_accepts_of_no_keys (idp alice) rfl none ["RS256"] rfl [] _ _ haccepts

end ArgusMcp.Jwt
