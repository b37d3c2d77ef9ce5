import Mathlib.Data.Rat.Defs
import ArgusMcp.Library.Value
import ArgusMcp.Server.Auth
import ArgusMcp.Server.Management

/-!
# Validation of tokens

What stands behind the provider of a registry: `server/auth/jwt.py` and `server/auth/providers.py`
with all they read and return. A token is decoded under the key that the key client finds for it;
when the signature does not fit, the keys are fetched anew and the token is decoded once more. The
claims are any JSON object, and a few of them become the identity of the user.

PyJWT is a parameter: how the key client answers and what `jwt.decode` makes of a token, both in a
world that each call may change.

## What gets past

`authenticate` promises an identity or an `AuthenticationError`. The first attempt is guarded
against `InvalidTokenError` only, and a `PyJWKClientError` is none; the claims are read outside of
any guard, as though their shapes were known; and a static token is compared by a function that
refuses text beyond ASCII. `answers_iff` says for which tokens and which answers of PyJWT the
promise is kept.

The roles come from `roles`, or else from `realm_access`, where "or else" asks for the truth of the
value. What is read that way is a list of texts in few cases, and `listOf_rolesOf_iff` says which.
-/

namespace ArgusMcp.Jwt

/-! ## PyJWT -/

/-- A JSON object. A number that is not whole is an `O`. -/
abbrev Object (O : Type) := List (String × Value O)

/-- The exception classes the validator tells apart. -/
inductive ErrorClass where
  | invalidSignatureError
  | expiredSignatureError
  /-- Any other subclass of `InvalidTokenError`. -/
  | invalidTokenError
  /-- A `PyJWTError` that is no `InvalidTokenError`. -/
  | pyJwkClientError
  | other
  deriving DecidableEq, Repr

/-- The subclasses of `InvalidTokenError`. -/
def ErrorClass.isInvalidToken : ErrorClass → Bool
  | invalidSignatureError | expiredSignatureError | invalidTokenError => true
  | pyJwkClientError | other => false

/-- An exception with its text. -/
structure PyExc where
  cls : ErrorClass
  message : String

/-- The exception as the callers of a provider see it. -/
def PyExc.escaped (e : PyExc) : Exc := ⟨.other, e.message⟩

/-- The keyword arguments of `jwt.decode`. -/
structure DecodeArgs where
  algorithms : List String
  issuer : Option String
  audience : Option String
  verifyAud : Bool

/-- PyJWT and the clock, in a world `W`, with key clients `C` and keys `K`. -/
structure PyJwt (W C K O : Type) where
  /-- The packages can be imported. -/
  installed : Bool
  monotonic : W → ℚ
  /-- `PyJWKClient(uri)`. -/
  connect : Option String → W → C × W
  getSigningKeyFromJwt : C → String → W → Except PyExc K × W
  /-- `jwt.decode`. -/
  decode : String → K → DecodeArgs → W → Except PyExc (Object O) × W

/-! ## The validator -/

structure JwtConfig where
  jwksUri : Option String
  issuer : Option String
  audience : Option String
  algorithms : List String
  keyTtl : ℚ

def given (text : Option String) : Option String := text.filter fun s ↦ decide (s ≠ "")

/-- What `_decode` hands to `jwt.decode`. -/
def JwtConfig.decodeArgs (cfg : JwtConfig) : DecodeArgs :=
  ⟨cfg.algorithms, given cfg.issuer, given cfg.audience, (given cfg.audience).isSome⟩

/-- The key client a validator holds, and when it was made. -/
structure Keys (C : Type) where
  client : C
  fetchedAt : ℚ

section Validate

variable {W C K O : Type} (py : PyJwt W C K O) (cfg : JwtConfig)

/-- A new key client. -/
def fetchKeys (w : W) : Keys C × W :=
  let made := py.connect cfg.jwksUri w
  (⟨made.1, py.monotonic made.2⟩, made.2)

def keysExpired (keys : Keys C) (w : W) : Bool :=
  decide (cfg.keyTtl < py.monotonic w - keys.fetchedAt)

/-- The key client of the first attempt. -/
def currentKeys (held : Option (Keys C)) (w : W) : Keys C × W :=
  match held with
  | none => fetchKeys py cfg w
  | some keys => if keysExpired py cfg keys w then fetchKeys py cfg w else (keys, w)

/-- `_decode`. -/
def decodeUnder (keys : Keys C) (token : String) (w : W) : Except PyExc (Object O) × W :=
  match py.getSigningKeyFromJwt keys.client token w with
  | (.error e, w) => (.error e, w)
  | (.ok key, w) => py.decode token key cfg.decodeArgs w

/-- What the two narrow clauses and the fall-through of `validate` make of an exception: the text
of a `JWTValidationError`, or the exception itself. -/
def raised (e : PyExc) : String ⊕ Exc :=
  if e.cls = .expiredSignatureError then .inl "Token has expired"
  else if e.cls.isInvalidToken then .inl ("Invalid token: " ++ e.message)
  else .inr e.escaped

/-- The body of `validate` up to the claims, with the key client held afterwards. -/
def validatedClaims (held : Option (Keys C)) (token : String) (w : W) :
    Except (String ⊕ Exc) (Object O) × Keys C × W :=
  let current := currentKeys py cfg held w
  match decodeUnder py cfg current.1 token current.2 with
  | (.ok claims, w) => (.ok claims, current.1, w)
  | (.error e, w) =>
    if e.cls = .invalidSignatureError then
      -- The keys may have been rotated.
      let fetched := fetchKeys py cfg w
      match decodeUnder py cfg fetched.1 token fetched.2 with
      | (.ok claims, w) => (.ok claims, fetched.1, w)
      | (.error e', w) =>
        (.error (.inl ("JWT validation failed after key refresh: " ++ e'.message)), fetched.1, w)
    else (.error (raised e), current.1, w)

end Validate

/-! ## Claims -/

structure TokenClaims (O : Type) where
  sub : Value O
  iss : Value O
  aud : Value O
  email : Value O
  name : Value O
  roles : Value O
  raw : Object O

structure UserIdentity (O : Type) where
  subject : Value O
  email : Value O
  name : Value O
  roles : List (Value O)
  provider : String
  claims : Object O

section Claims

variable {O : Type} [PyObject O]

/-- `claims.get(name, default)`. -/
def Object.getD (claims : Object O) (name : String) (default : Value O) : Value O :=
  (claims.lookup name).getD default

/-- `type(v).__name__`. -/
def typeName : Value O → String
  | .none => "NoneType"
  | .bool _ => "bool"
  | .int _ => "int"
  | .str _ => "str"
  | .list _ => "list"
  | .dict _ => "dict"
  | .obj _ => "float"

def attributeError (v : Value O) : Exc :=
  ⟨.other, "'" ++ typeName v ++ "' object has no attribute 'get'"⟩

def typeError (v : Value O) : Exc := ⟨.typeError, "'" ++ typeName v ++ "' object is not iterable"⟩

def normAud : Value O → Value O
  | .list [] => .str ""
  | .list (v :: _) => v
  | v => if v.truthy then .str (PyObject.str v) else .str ""

/-- `realm_access.get("roles", [])`. -/
def realmRoles : Value O → Except Exc (Value O)
  | .dict realm => .ok (Object.getD realm "roles" (.list []))
  | v => .error (attributeError v)

/-- `claims.get("roles") or claims.get("realm_access", {}).get("roles", [])`. -/
def rolesOf (claims : Object O) : Except Exc (Value O) :=
  if (Object.getD claims "roles" .none).truthy then .ok (Object.getD claims "roles" .none)
  else realmRoles (Object.getD claims "realm_access" (.dict []))

/-- The `TokenClaims` that `validate` returns. -/
def tokenClaims (claims : Object O) : Except Exc (TokenClaims O) :=
  (rolesOf claims).map fun roles ↦
    { sub := Object.getD claims "sub" (.str "")
      iss := Object.getD claims "iss" (.str "")
      aud := normAud (Object.getD claims "aud" (.str ""))
      email := Object.getD claims "email" (.str "")
      name := Object.getD claims "name" (.str "")
      roles := roles
      raw := claims }

/-- `list(v)`. -/
def listOf : Value O → Except Exc (List (Value O))
  | .list l => .ok l
  | .str s => .ok (s.toList.map fun c ↦ .str (String.singleton c))
  | .dict d => .ok (d.map fun e ↦ .str e.1)
  | v => .error (typeError v)

/-- The identity that `JWTAuthProvider.authenticate` makes of the claims. -/
def identityOf (claims : TokenClaims O) : Except Exc (UserIdentity O) :=
  (listOf claims.roles).map fun roles ↦
    ⟨claims.sub, claims.email, claims.name, roles, "jwt", claims.raw⟩

end Claims

/-! ## Providers -/

inductive Provider where
  | anonymous
  | localToken (expected : String)
  | jwt (cfg : JwtConfig)

section Authenticate

variable {W C K O : Type} [PyObject O] (py : PyJwt W C K O)

/-- `UserIdentity(provider="anonymous")`. -/
def anonymousIdentity : UserIdentity O := ⟨.str "anonymous", .str "", .str "", [], "anonymous", []⟩

/-- The identity of whoever knows the static token. -/
def localIdentity : UserIdentity O := ⟨.str "local-user", .str "", .str "", [], "local", []⟩

def validate (cfg : JwtConfig) (held : Option (Keys C)) (token : String) (w : W) :
    Except (String ⊕ Exc) (TokenClaims O) × Option (Keys C) × W :=
  if py.installed then
    let step := validatedClaims py cfg held token w
    (step.1.bind fun claims ↦ (tokenClaims claims).mapError .inr, some step.2.1, step.2.2)
  else
    (.error (.inl ("PyJWT and cryptography packages are required for JWT validation. " ++
      "Install with: pip install PyJWT cryptography")), held, w)

/-- `JWTAuthProvider.authenticate` of a token that is not missing. -/
def authenticateJwt (cfg : JwtConfig) (held : Option (Keys C)) (token : String) (w : W) :
    Except Exc (UserIdentity O) × Option (Keys C) × W :=
  match validate py cfg held token w with
  | (.error (.inl text), rest) => (.error (authenticationError text), rest)
  | (.error (.inr e), rest) => (.error e, rest)
  | (.ok claims, rest) => (identityOf claims, rest)

/-- `AuthProviderRegistry.authenticate`, with the key client held before and after. -/
def Provider.authenticate (provider : Provider) (held : Option (Keys C)) (token : Option String)
    (w : W) : Except Exc (UserIdentity O) × Option (Keys C) × W :=
  match provider with
  | anonymous => (.ok anonymousIdentity, held, w)
  | localToken expected =>
    if token.getD "" = "" then (.error (authenticationError "Missing bearer token"), held, w)
    else match compareDigest (token.getD "") expected with
      | .error e => (.error e, held, w)
      | .ok false => (.error (authenticationError "Invalid bearer token"), held, w)
      | .ok true => (.ok localIdentity, held, w)
  | jwt cfg =>
    if token.getD "" = "" then (.error (authenticationError "Missing bearer token"), held, w)
    else authenticateJwt py cfg held (token.getD "") w

end Authenticate

/-- What the configuration of incoming authentication holds for the providers. -/
structure AuthConfig extends IncomingAuthConfig where
  audience : Option String
  algorithms : List String

def discoveryUrl (issuer : String) : String :=
  String.ofList (Management.rstripSlash issuer.toList) ++ "/.well-known/openid-configuration"

/-- The `JWTConfig` of a configuration: without a key set of its own, `oidc` points to the discovery
document. -/
def AuthConfig.jwtConfig (cfg : AuthConfig) : JwtConfig :=
  { jwksUri :=
      if cfg.type = .oidc ∧ cfg.jwksUri.getD "" = "" then some (discoveryUrl (cfg.issuer.getD ""))
      else cfg.jwksUri
    issuer := cfg.issuer
    audience := cfg.audience
    algorithms := cfg.algorithms
    keyTtl := 3600 }

def Provider.fromConfig (cfg : AuthConfig) : Except Exc Provider :=
  match cfg.type with
  | .anonymous => .ok .anonymous
  | .localToken =>
    if cfg.token.getD "" = "" then
      .error (configurationError "Local auth requires 'token' in config")
    else .ok (.localToken (cfg.token.getD ""))
  | .jwt => .ok (.jwt cfg.jwtConfig)
  | .oidc =>
    if cfg.jwksUri.getD "" = "" ∧ cfg.issuer.getD "" = "" then
      .error (configurationError "OIDC auth requires 'issuer' in config for auto-discovery")
    else .ok (.jwt cfg.jwtConfig)

/-! ## Roles -/

section Roles

variable {O : Type}

def asText : Value O → Option String
  | .str s => some s
  | _ => none

/-- The texts of an array; what is no array has none. -/
def stringElements : Value O → List String
  | .list l => l.filterMap asText
  | _ => []

/-- The roles the claims give to a user: the texts in `roles`, or in `realm_access.roles` when there
is no `roles`. -/
def expectedRoles (claims : Object O) : List String :=
  match claims.lookup "roles" with
  | some v => stringElements v
  | none => (((claims.lookup "realm_access").bind (Value.get? "roles")).map stringElements).getD []

def IsTexts (v : Value O) : Prop := ∃ texts : List String, v = .list (texts.map .str)

def ListsEmpty (v : Value O) : Prop := v = .str "" ∨ v = .dict [] ∨ v = .list []

variable [PyObject O]

/-- The claims hold the roles in one of the shapes that are read for what they are. -/
def Readable (claims : Object O) : Prop :=
  if (Object.getD claims "roles" .none).truthy then IsTexts (Object.getD claims "roles" .none)
  else ∃ realm, Object.getD claims "realm_access" (.dict []) = .dict realm ∧
    (ListsEmpty (Object.getD realm "roles" (.list [])) ∨
      claims.lookup "roles" = none ∧ IsTexts (Object.getD realm "roles" (.list [])))

omit [PyObject O]

theorem filterMap_asText_map (texts : List String) :
    (texts.map Value.str : List (Value O)).filterMap asText = texts := by
  induction texts with
  | nil => rfl
  | cons s texts ih => rw [List.map_cons, List.filterMap_cons_some (by rfl), ih]

theorem map_filterMap_asText_iff {l : List (Value O)} :
    .list l = Value.list ((l.filterMap asText).map .str) ↔ IsTexts (.list l) := by
  refine ⟨fun h ↦ ⟨_, h⟩, fun ⟨texts, h⟩ ↦ ?_⟩
  rw [Value.list.injEq] at h
  rw [h, filterMap_asText_map]

theorem listOf_eq_nil_iff {v : Value O} : listOf v = .ok [] ↔ ListsEmpty v := by
  rw [ListsEmpty]
  rcases v with _ | b | n | s | l | d | o
  · simp [listOf]
  · simp [listOf]
  · simp [listOf]
  · simp [listOf]
  · simp [listOf]
  · simp [listOf]
  · simp [listOf]

/-- What becomes of a value is the texts in it exactly for an array of texts and for what is
empty. -/
theorem listOf_eq_stringElements_iff {v : Value O} :
    listOf v = .ok ((stringElements v).map .str) ↔ ListsEmpty v ∨ IsTexts v := by
  by_cases harray : ∃ l, v = .list l
  · obtain ⟨l, rfl⟩ := harray
    rw [listOf, Except.ok.injEq, stringElements, ← Value.list.injEq, map_filterMap_asText_iff]
    refine ⟨.inr, fun h ↦ h.elim (fun hempty ↦ ⟨[], ?_⟩) id⟩
    rw [← listOf_eq_nil_iff, listOf, Except.ok.injEq] at hempty
    rw [hempty, List.map_nil]
  · have helements : stringElements v = [] := by
      rw [stringElements]
      exact fun l hl ↦ harray ⟨l, hl⟩
    rw [helements, List.map_nil, listOf_eq_nil_iff]
    exact ⟨.inl, fun h ↦ h.elim id fun ⟨texts, htexts⟩ ↦ absurd ⟨_, htexts⟩ harray⟩

section

variable [PyObject O]

theorem not_truthy_of_listsEmpty {v : Value O} (h : ListsEmpty v) : v.truthy = false := by
  rcases h with rfl | rfl | rfl
  · rfl
  · rfl
  · rfl

theorem stringElements_of_not_truthy {v : Value O} (h : v.truthy = false) :
    stringElements v = [] := by
  rcases v with _ | _ | _ | _ | l | _ | _
  · rfl
  · rfl
  · rfl
  · rfl
  · rw [Value.truthy, Bool.not_eq_false', List.isEmpty_iff] at h
    rw [h]
    rfl
  · rfl
  · rfl

end

theorem expectedRoles_of_realm {claims realm : Object O} (hroles : claims.lookup "roles" = none)
    (hrealm : Object.getD claims "realm_access" (.dict []) = .dict realm) :
    expectedRoles claims = stringElements (Object.getD realm "roles" (.list [])) := by
  rw [expectedRoles, hroles]
  dsimp only
  rw [Object.getD] at hrealm
  rcases hlookup : claims.lookup "realm_access" with _ | v
  · rw [hlookup, Option.getD_none, Value.dict.injEq] at hrealm
    rw [← hrealm]
    rfl
  · rw [hlookup, Option.getD_some] at hrealm
    rw [hrealm, Option.bind_some, Value.get?, Object.getD]
    rcases realm.lookup "roles" with _ | roles
    · rfl
    · rfl

variable [PyObject O]

/-- **When the roles are read for what they are**: `roles` is an array of texts, with one text at
least, or it is missing or counts as false, and then `realm_access` is missing or an object; the
`roles` of that are missing or empty, or, when the claims have no `roles`, an array of texts. -/
theorem listOf_rolesOf_iff (claims : Object O) :
    (rolesOf claims).bind listOf = .ok ((expectedRoles claims).map .str) ↔ Readable claims := by
  rw [rolesOf, Readable]
  by_cases htruthy : (Object.getD claims "roles" .none).truthy = true
  · rw [if_pos htruthy, if_pos htruthy]
    have hexpected : expectedRoles claims = stringElements (Object.getD claims "roles" .none) := by
      rw [expectedRoles, Object.getD]
      rcases hlookup : claims.lookup "roles" with _ | v
      · rw [Object.getD, hlookup] at htruthy
        exact absurd htruthy (by simp [Value.truthy])
      · rfl
    rw [hexpected, Except.bind, listOf_eq_stringElements_iff, or_iff_right]
    intro hempty
    rw [not_truthy_of_listsEmpty hempty] at htruthy
    exact Bool.false_ne_true htruthy
  · rw [if_neg htruthy, if_neg htruthy]
    by_cases hobject : ∃ realm, Object.getD claims "realm_access" (.dict []) = .dict realm
    · obtain ⟨realm, hrealm⟩ := hobject
      rw [hrealm, realmRoles, Except.bind]
      have hunique : ∀ {P : Object O → Prop}, (∃ r, Value.dict realm = .dict r ∧ P r) ↔ P realm :=
        ⟨fun ⟨r, hr, hP⟩ ↦ Value.dict.inj hr ▸ hP, fun hP ↦ ⟨realm, rfl, hP⟩⟩
      rw [hunique]
      rcases hroles : claims.lookup "roles" with _ | v
      · rw [expectedRoles_of_realm hroles hrealm, listOf_eq_stringElements_iff]
        exact or_congr_right (and_iff_right rfl).symm
      · rw [Object.getD, hroles, Option.getD_some, Bool.not_eq_true] at htruthy
        rw [expectedRoles, hroles]
        dsimp only
        rw [stringElements_of_not_truthy htruthy, List.map_nil, listOf_eq_nil_iff]
        exact ⟨.inl, fun h ↦ h.elim id fun hnone ↦ absurd hnone.1 (by simp)⟩
    · refine iff_of_false (fun h ↦ ?_) fun ⟨realm, hrealm, _⟩ ↦ hobject ⟨realm, hrealm⟩
      rw [realmRoles, Except.bind] at h
      · exact absurd h (by simp)
      · exact fun realm hrealm ↦ hobject ⟨realm, hrealm⟩

end Roles

/-! ## The promise -/

section Promise

variable {W C K O : Type} [PyObject O]

/-- The promise of `authenticate`: an identity, or an `AuthenticationError`; and whoever comes with
a token has the roles that its claims give to them. -/
structure Answers (outcome : Except Exc (UserIdentity O)) : Prop where
  refused : ∀ e, outcome = .error e → e.cls = .authenticationError
  roles : ∀ user, outcome = .ok user → user.provider = "jwt" →
    user.roles = (expectedRoles user.claims).map .str

variable (py : PyJwt W C K O) (cfg : JwtConfig)

def firstAttempt (held : Option (Keys C)) (token : String) (w : W) : Except PyExc (Object O) × W :=
  let current := currentKeys py cfg held w
  decodeUnder py cfg current.1 token current.2

/-- The second attempt, under keys that are fetched anew. -/
def secondAttempt (token : String) (w : W) : Except PyExc (Object O) × W :=
  let fetched := fetchKeys py cfg w
  decodeUnder py cfg fetched.1 token fetched.2

/-- PyJWT answers in the way the validator is prepared for. -/
structure Prepared (held : Option (Keys C)) (token : String) (w : W) : Prop where
  guarded : ∀ e, (firstAttempt py cfg held token w).1 = .error e → e.cls.isInvalidToken = true
  readable : ∀ claims, (firstAttempt py cfg held token w).1 = .ok claims → Readable claims
  /-- The second attempt is guarded against everything. -/
  readableAgain : ∀ e claims, (firstAttempt py cfg held token w).1 = .error e →
    e.cls = .invalidSignatureError →
    (secondAttempt py cfg token (firstAttempt py cfg held token w).2).1 = .ok claims →
    Readable claims

/-- The provider can deal with the token, and with what PyJWT says about it. -/
def Provider.Deals (provider : Provider) (held : Option (Keys C)) (token : Option String) (w : W) :
    Prop :=
  match provider with
  | anonymous => True
  | localToken expected =>
    token.getD "" = "" ∨ isAscii (token.getD "") = true ∧ isAscii expected = true
  | jwt cfg => token.getD "" = "" ∨ py.installed = false ∨ Prepared py cfg held (token.getD "") w

omit [PyObject O] in
/-- The claims come from the first attempt, or from the second one when the signature did not
fit. -/
theorem fst_validatedClaims (held : Option (Keys C)) (token : String) (w : W) :
    (validatedClaims py cfg held token w).1 =
      match (firstAttempt py cfg held token w).1 with
      | .ok claims => .ok claims
      | .error e =>
        if e.cls = .invalidSignatureError then
          (secondAttempt py cfg token (firstAttempt py cfg held token w).2).1.mapError fun e' ↦
            .inl ("JWT validation failed after key refresh: " ++ e'.message)
        else .error (raised e) := by
  rw [validatedClaims, firstAttempt]
  dsimp only
  rcases decodeUnder py cfg (currentKeys py cfg held w).1 token (currentKeys py cfg held w).2
    with ⟨e | claims, w'⟩
  · dsimp only
    by_cases hsignature : e.cls = .invalidSignatureError
    · rw [if_pos hsignature, if_pos hsignature, secondAttempt]
      rcases decodeUnder py cfg (fetchKeys py cfg w').1 token (fetchKeys py cfg w').2
        with ⟨e' | claims, w''⟩
      · rfl
      · rfl
    · rw [if_neg hsignature, if_neg hsignature]
  · rfl

theorem tokenClaims_bind_identityOf (claims : Object O) :
    (tokenClaims claims).bind identityOf = ((rolesOf claims).bind listOf).map fun roles ↦
      ⟨Object.getD claims "sub" (.str ""), Object.getD claims "email" (.str ""),
        Object.getD claims "name" (.str ""), roles, "jwt", claims⟩ := by
  rw [tokenClaims]
  rcases rolesOf claims with e | roles
  · rfl
  · rfl

omit [PyObject O] in
theorem eq_typeError_of_listOf {v : Value O} {e : Exc} (h : listOf v = .error e) :
    e = typeError v := by
  rcases v with _ | _ | _ | _ | _ | _ | _
  · exact (Except.error.inj h).symm
  · exact (Except.error.inj h).symm
  · exact (Except.error.inj h).symm
  · exact absurd h (by simp [listOf])
  · exact absurd h (by simp [listOf])
  · exact absurd h (by simp [listOf])
  · exact (Except.error.inj h).symm

omit [PyObject O] in
theorem eq_attributeError_of_realmRoles {v : Value O} {e : Exc} (h : realmRoles v = .error e) :
    e = attributeError v := by
  rcases v with _ | _ | _ | _ | _ | _ | _
  · exact (Except.error.inj h).symm
  · exact (Except.error.inj h).symm
  · exact (Except.error.inj h).symm
  · exact (Except.error.inj h).symm
  · exact (Except.error.inj h).symm
  · exact absurd h (by simp [realmRoles])
  · exact (Except.error.inj h).symm

theorem cls_ne_of_readRoles {claims : Object O} {e : Exc}
    (h : (rolesOf claims).bind listOf = .error e) : e.cls ≠ .authenticationError := by
  have hlist : ∀ {v : Value O}, listOf v = .error e → e.cls ≠ .authenticationError := by
    intro v hv
    rw [eq_typeError_of_listOf hv, typeError]
    exact ExcClass.noConfusion
  rcases hread : rolesOf claims with e' | v
  · rw [hread, Except.bind, Except.error.injEq] at h
    rw [rolesOf] at hread
    split at hread
    · exact absurd hread (by simp)
    · rw [← h, eq_attributeError_of_realmRoles hread, attributeError]
      exact ExcClass.noConfusion
  · rw [hread] at h
    exact hlist h

theorem answers_identity_iff (claims : Object O) :
    Answers ((tokenClaims claims).bind identityOf) ↔ Readable claims := by
  rw [← listOf_rolesOf_iff, tokenClaims_bind_identityOf]
  constructor
  · intro h
    rcases hread : (rolesOf claims).bind listOf with e | roles
    · exact absurd (h.refused e (by rw [hread]; rfl)) (cls_ne_of_readRoles hread)
    · rw [hread, Except.map] at h
      exact congrArg Except.ok (h.roles _ rfl rfl)
  · intro h
    rw [h]
    refine ⟨fun e he ↦ absurd he (by simp [Except.map]), fun user huser _ ↦ ?_⟩
    rw [Except.map, Except.ok.injEq] at huser
    rw [← huser]

omit [PyObject O] in
theorem answers_authenticationError (text : String) :
    Answers (.error (authenticationError text) : Except Exc (UserIdentity O)) := by
  refine ⟨fun e he ↦ ?_, fun user huser ↦ absurd huser (by simp)⟩
  rw [Except.error.injEq] at he
  rw [← he]
  rfl

omit [PyObject O] in
theorem answers_of_provider_ne {user : UserIdentity O} (h : user.provider ≠ "jwt") :
    Answers (.ok user) := by
  refine ⟨fun e he ↦ absurd he (by simp), fun user' huser hjwt ↦ ?_⟩
  rw [Except.ok.injEq] at huser
  exact absurd (huser ▸ hjwt) h

/-- The outcome of a token that is there, in terms of its claims. -/
def outcomeOf : Except (String ⊕ Exc) (Object O) → Except Exc (UserIdentity O)
  | .ok claims => (tokenClaims claims).bind identityOf
  | .error (.inl text) => .error (authenticationError text)
  | .error (.inr e) => .error e

theorem fst_authenticateJwt (hinstalled : py.installed = true) (held : Option (Keys C))
    (token : String) (w : W) :
    (authenticateJwt py cfg held token w).1
      = outcomeOf (validatedClaims py cfg held token w).1 := by
  rw [authenticateJwt, validate, if_pos hinstalled]
  dsimp only
  rcases (validatedClaims py cfg held token w).1 with (text | e) | claims
  · rfl
  · rfl
  · rw [Except.bind, outcomeOf]
    rcases tokenClaims claims with e | parsed
    · rfl
    · rfl

/-- An exception of the first attempt, other than a signature that does not fit, is reported as
promised exactly if it is an `InvalidTokenError`. -/
theorem answers_raised_iff (e : PyExc) :
    Answers (outcomeOf (.error (raised e)) : Except Exc (UserIdentity O)) ↔
      e.cls.isInvalidToken = true := by
  rw [raised]
  by_cases hexpired : e.cls = .expiredSignatureError
  · rw [if_pos hexpired, hexpired]
    exact iff_of_true (answers_authenticationError _) rfl
  · rw [if_neg hexpired]
    by_cases hinvalid : e.cls.isInvalidToken = true
    · rw [if_pos hinvalid]
      exact iff_of_true (answers_authenticationError _) hinvalid
    · rw [if_neg hinvalid]
      exact iff_of_false (fun h ↦ absurd (h.refused _ rfl) ExcClass.noConfusion) hinvalid

/-- **When a token is dealt with**: exactly when PyJWT answers as the validator is prepared for. -/
theorem answers_authenticateJwt_iff (hinstalled : py.installed = true) (held : Option (Keys C))
    (token : String) (w : W) :
    Answers (authenticateJwt py cfg held token w).1 ↔ Prepared py cfg held token w := by
  rw [fst_authenticateJwt py cfg hinstalled, fst_validatedClaims]
  rcases hfirst : (firstAttempt py cfg held token w).1 with e | claims
  · dsimp only
    by_cases hsignature : e.cls = .invalidSignatureError
    · rw [if_pos hsignature]
      -- From here on every exception becomes a `JWTValidationError`.
      rcases hsecond : (secondAttempt py cfg token (firstAttempt py cfg held token w).2).1
        with e' | claims
      · refine iff_of_true (answers_authenticationError _) ⟨fun e₁ he₁ ↦ ?_, ?_, ?_⟩
        · rw [hfirst, Except.error.injEq] at he₁
          rw [← he₁, hsignature]
          rfl
        · exact fun claims hclaims ↦ absurd (hfirst.symm.trans hclaims) (by simp)
        · exact fun _ claims _ _ hclaims ↦ absurd (hsecond.symm.trans hclaims) (by simp)
      · refine (answers_identity_iff claims).trans
          ⟨fun hreadable ↦ ⟨fun e₁ he₁ ↦ ?_, ?_, ?_⟩, ?_⟩
        · rw [hfirst, Except.error.injEq] at he₁
          rw [← he₁, hsignature]
          rfl
        · exact fun claims hclaims ↦ absurd (hfirst.symm.trans hclaims) (by simp)
        · intro _ claims' _ _ hclaims'
          rw [hsecond, Except.ok.injEq] at hclaims'
          exact hclaims' ▸ hreadable
        · exact fun h ↦ h.readableAgain e claims hfirst hsignature hsecond
    · rw [if_neg hsignature, answers_raised_iff]
      refine ⟨fun hinvalid ↦ ⟨fun e₁ he₁ ↦ ?_, ?_, ?_⟩, fun h ↦ h.guarded e hfirst⟩
      · rw [hfirst, Except.error.injEq] at he₁
        exact he₁ ▸ hinvalid
      · exact fun claims hclaims ↦ absurd (hfirst.symm.trans hclaims) (by simp)
      · intro e₁ _ he₁ hsignature₁
        rw [hfirst, Except.error.injEq] at he₁
        exact absurd (he₁ ▸ hsignature₁) hsignature
  · refine (answers_identity_iff claims).trans ⟨fun hreadable ↦ ⟨?_, ?_, ?_⟩, ?_⟩
    · exact fun e he ↦ absurd (hfirst.symm.trans he) (by simp)
    · intro claims' hclaims'
      rw [hfirst, Except.ok.injEq] at hclaims'
      exact hclaims' ▸ hreadable
    · exact fun e _ he ↦ absurd (hfirst.symm.trans he) (by simp)
    · exact fun h ↦ h.readable claims hfirst

/-- A static token is compared exactly if both texts are ASCII. -/
theorem answers_localToken_iff (expected : String) (held : Option (Keys C)) (token : Option String)
    (w : W) (htoken : token.getD "" ≠ "") :
    Answers ((Provider.localToken expected).authenticate py held token w).1 ↔
      isAscii (token.getD "") = true ∧ isAscii expected = true := by
  rw [Provider.authenticate, if_neg htoken, compareDigest]
  by_cases hascii : (isAscii (token.getD "") && isAscii expected) = true
  · rw [if_pos hascii]
    refine iff_of_true ?_ ((Bool.and_eq_true _ _).mp hascii)
    by_cases heq : token.getD "" = expected
    · rw [decide_eq_true heq]
      exact answers_of_provider_ne (by simp [localIdentity])
    · rw [decide_eq_false heq]
      exact answers_authenticationError _
  · rw [if_neg hascii]
    refine iff_of_false (fun h ↦ absurd (h.refused _ rfl) ExcClass.noConfusion) fun h ↦ hascii ?_
    exact (Bool.and_eq_true _ _).mpr h

end Promise

/-- **When authentication is total.** For every provider, every token and all answers of PyJWT: an
identity with the roles of the claims comes out, or an `AuthenticationError`, exactly if the token
is missing, or the provider can deal with it. A static token must be ASCII, and so must the one it
is compared with. For a JSON web token the first attempt must raise nothing beyond
`InvalidTokenError`, and the claims that come of it, or of the second attempt after a signature that
does not fit, must be readable. -/
theorem answers_iff {W C K O : Type} [PyObject O] (py : PyJwt W C K O) (provider : Provider)
    (held : Option (Keys C)) (token : Option String) (w : W) :
    Answers (provider.authenticate py held token w).1 ↔ provider.Deals py held token w := by
  rcases provider with _ | expected | cfg
  · exact iff_of_true (answers_of_provider_ne (by simp [anonymousIdentity])) trivial
  · by_cases htoken : token.getD "" = ""
    · refine iff_of_true ?_ (.inl htoken)
      rw [Provider.authenticate, if_pos htoken]
      exact answers_authenticationError _
    · rw [answers_localToken_iff py expected held token w htoken, Provider.Deals]
      exact (or_iff_right htoken).symm
  · by_cases htoken : token.getD "" = ""
    · refine iff_of_true ?_ (.inl htoken)
      rw [Provider.authenticate, if_pos htoken]
      exact answers_authenticationError _
    · rw [Provider.authenticate, Provider.Deals, if_neg htoken, or_iff_right htoken]
      by_cases hinstalled : py.installed = true
      · rw [answers_authenticateJwt_iff py cfg hinstalled, hinstalled]
        exact (or_iff_right Bool.noConfusion).symm
      · rw [Bool.not_eq_true] at hinstalled
        refine iff_of_true ?_ (.inl hinstalled)
        rw [authenticateJwt, validate, hinstalled]
        exact answers_authenticationError _

/-- A key server that cannot be reached. -/
def unreachable : PyJwt Unit Unit Unit Empty where
  installed := true
  monotonic := fun _ ↦ 0
  connect := fun _ w ↦ ((), w)
  getSigningKeyFromJwt := fun _ _ w ↦
    (.error ⟨.pyJwkClientError, "Fail to fetch data from the url"⟩, w)
  decode := fun _ _ _ w ↦ (.error ⟨.invalidTokenError, "Not enough segments"⟩, w)

/-- While the key server is down, an exception of the key client reaches the callers. -/
theorem not_forall_answers : ¬ ∀ (provider : Provider) (token : String),
    Answers (provider.authenticate unreachable none (some token) ()).1 := by
  intro h
  have hrefused := (h (.jwt ⟨some "https://idp.example/keys", none, none, ["RS256"], 3600⟩)
    "e30.e30.c2ln").refused _ rfl
  exact absurd hrefused (by decide)

/-! ## What the gates see

The gates know the identity of a user by its texts only, and a provider by its answers. -/

section Seen

variable {W C K O : Type}

/-- The identity, if it consists of texts. -/
def UserIdentity.text? (user : UserIdentity O) : Option ArgusMcp.UserIdentity := do
  let subject ← asText user.subject
  let email ← asText user.email
  let name ← asText user.name
  let roles ← user.roles.mapM asText
  return ⟨subject, email, name, roles, user.provider⟩

/-- The claims the gates see, when the identity consists of texts. -/
def seenClaims (user : UserIdentity O) : Except (String ⊕ Exc) ArgusMcp.TokenClaims :=
  match user.text? with
  | some u => .ok ⟨u.subject, u.email, u.name, u.roles⟩
  | none => .error (.inr ⟨.other, "claims that are no texts"⟩)

theorem provider_of_identityOf {claims : TokenClaims O} {user : UserIdentity O}
    (h : identityOf claims = .ok user) : user.provider = "jwt" := by
  rw [identityOf, map_eq_ok_iff] at h
  obtain ⟨roles, -, rfl⟩ := h
  rfl

theorem provider_of_text? {user : UserIdentity O} {u : ArgusMcp.UserIdentity}
    (h : user.text? = some u) : u.provider = user.provider := by
  simp only [UserIdentity.text?, Option.bind_eq_bind, Option.bind_eq_some_iff] at h
  obtain ⟨_, -, _, -, _, -, _, -, h⟩ := h
  rw [← Option.some.inj h]

theorem ok_seen_iff {user : UserIdentity O} {seen u : ArgusMcp.UserIdentity}
    (h : user.text? = some seen) : (.ok seen : Except Exc ArgusMcp.UserIdentity) = .ok u ↔
      ∃ user', (.ok user : Except Exc (UserIdentity O)) = .ok user' ∧ user'.text? = some u := by
  rw [Except.ok.injEq, ← Option.some.injEq, ← h]
  exact ⟨fun hu ↦ ⟨user, rfl, hu⟩, fun ⟨user', huser, hu⟩ ↦ Except.ok.inj huser ▸ hu⟩

theorem error_seen_iff {e e' : Exc} {u : ArgusMcp.UserIdentity} :
    (.error e : Except Exc ArgusMcp.UserIdentity) = .ok u ↔
      ∃ user', (.error e' : Except Exc (UserIdentity O)) = .ok user' ∧ user'.text? = some u :=
  iff_of_false (fun h ↦ absurd h (by simp)) fun ⟨_, h, _⟩ ↦ absurd h (by simp)

variable [PyObject O] (py : PyJwt W C K O) (held : Option (Keys C)) (w : W)

/-- The validator as the gates see it at one moment. -/
def seenValidator (cfg : JwtConfig) : JWTValidator := fun token ↦
  (validate py cfg held token w).1.bind fun claims ↦
    ((identityOf claims).mapError .inr).bind seenClaims

/-- The provider as the gates see it at one moment. -/
def Provider.seen : Provider → AuthProvider
  | anonymous => .anonymous
  | localToken expected => .localToken expected
  | jwt cfg => .jwt (seenValidator py held w cfg)

theorem authenticateJwt_seen_iff (cfg : JwtConfig) (token : String) (u : ArgusMcp.UserIdentity) :
    AuthProvider.authenticateJwt (seenValidator py held w cfg) token = .ok u ↔
      ∃ user, (authenticateJwt py cfg held token w).1 = .ok user ∧ user.text? = some u := by
  rw [AuthProvider.authenticateJwt, seenValidator, authenticateJwt]
  rcases validate py cfg held token w with ⟨(text | e) | claims, rest⟩
  · exact error_seen_iff
  · exact error_seen_iff
  · rw [Except.bind]
    dsimp only
    rcases huser : identityOf claims with e | user
    · exact error_seen_iff
    · rw [Except.mapError, Except.bind, seenClaims]
      rcases htext : user.text? with _ | seen
      · refine iff_of_false (fun h ↦ absurd h (by simp)) fun ⟨user', huser', hu⟩ ↦ ?_
        rw [← Except.ok.inj huser', htext] at hu
        exact absurd hu (by simp)
      · rw [← ok_seen_iff htext, ← provider_of_identityOf huser, ← provider_of_text? htext]

/-- **The gates' provider is this one**: it accepts a token as a user exactly if the provider does,
and the identity consists of the texts of that user. -/
theorem authenticate_seen_iff (provider : Provider) (token : Option String)
    (u : ArgusMcp.UserIdentity) : (provider.seen py held w).authenticate token = .ok u ↔
      ∃ user, (provider.authenticate py held token w).1 = .ok user ∧ user.text? = some u := by
  rcases provider with _ | expected | cfg
  · exact ok_seen_iff rfl
  · rw [Provider.seen, AuthProvider.authenticate, Provider.authenticate]
    by_cases htoken : token.getD "" = ""
    · rw [if_pos htoken, if_pos htoken]
      exact error_seen_iff
    · rw [if_neg htoken, if_neg htoken, AuthProvider.authenticateLocal]
      rcases compareDigest (token.getD "") expected with e | _ | _
      · exact error_seen_iff
      · exact error_seen_iff
      · exact ok_seen_iff rfl
  · rw [Provider.seen, AuthProvider.authenticate, Provider.authenticate]
    by_cases htoken : token.getD "" = ""
    · rw [if_pos htoken, if_pos htoken]
      exact error_seen_iff
    · rw [if_neg htoken, if_neg htoken]
      exact authenticateJwt_seen_iff py held w cfg _ u

theorem fromConfig_seen (cfg : AuthConfig) :
    AuthProvider.fromConfig (fun _ ↦ seenValidator py held w cfg.jwtConfig) cfg.toIncomingAuthConfig
      = (Provider.fromConfig cfg).map (Provider.seen py held w) := by
  rw [AuthProvider.fromConfig, Provider.fromConfig]
  rcases cfg.type with _ | _ | _ | _
  · rfl
  · dsimp only
    split
    · rfl
    · rfl
  · rfl
  · dsimp only
    split
    · rfl
    · rfl

end Seen

end ArgusMcp.Jwt
