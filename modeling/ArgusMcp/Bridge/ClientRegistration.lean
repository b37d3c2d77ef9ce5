import ArgusMcp.Bridge.OAuthDiscovery
import ArgusMcp.Library.ExtRat

/-!
# Dynamic registration of clients

`DCRClient` (`bridge/auth/dcr.py`) registers the gateway with an authorization server. Registrations
are cached for the whole process, by their endpoint. Which client has asked, under which name and
with which redirect URIs, is not part of the key, so a client is given what another one has asked
for.

A call is looked at with everything that comes from outside: its client and its metadata, what the
clocks say when it starts and when it is done, and what comes of its request, if it sends one. The
body a registration was requested with is kept beside it. `Sound` is what a call should come to, and
`Meets` the condition under which it does (`everyCall_sound_iff`).
-/

namespace ArgusMcp

open OAuthDiscovery

namespace ClientRegistration

/-! ## The data -/

/-- A `DCRClient`. -/
structure Client where
  issuerAllowlist : List String
  cacheTtl : ExtRat
  clientName : String
  redirectUris : List String

/-- A `ClientRegistration`. -/
structure Registration (O : Type) where
  clientId : Value O
  clientSecret : Value O
  clientIdIssuedAt : Value O
  clientSecretExpiresAt : Value O
  grantTypes : Value O
  redirectUris : Value O
  tokenEndpointAuthMethod : Value O
  registrationEndpoint : Text
  raw : Document O

/-- `time.monotonic()` and `time.time()`. -/
structure Clocks where
  monotonic : ℚ
  wall : ℚ

/-- An entry of the cache, with the body of the request behind it. -/
structure Granted (O : Type) where
  registration : Registration O
  cachedAt : ℚ
  body : Document O

/-- `_registration_cache`. -/
abbrev Cache (O : Type) := Dict Text (Granted O)

structure Call (O : Type) where
  client : Client
  metadata : OAuthMetadata O
  start : Clocks
  finish : Clocks
  reply : Except ErrorClass (Response O)

/-- A request that was sent, and what came of it. -/
structure Request (O : Type) where
  endpoint : Text
  issuer : Value O
  body : Document O
  reply : Except ErrorClass (Response O)

/-- What a call comes to. -/
structure Outcome (O : Type) where
  result : Except ErrorClass (Option (Granted O))
  cache : Cache O
  sent : List (Request O)

section

variable {O : Type} [PyObject O] (w : World O) (number : O → ExtRat)

/-! ## Before the request -/

/-- `max(0.0, cache_ttl)`. -/
def Client.ttl (c : Client) : ExtRat := ExtRat.maxOf 0 c.cacheTtl

def isHashable : Value O → Bool
  | .list _ | .dict _ => false
  | _ => true

def Client.allows (c : Client) : Value O → Bool
  | .str s => decide (s ∈ c.issuerAllowlist)
  | _ => false

def checkIssuer (c : Client) (issuer : Value O) : Except ErrorClass Unit :=
  if c.issuerAllowlist = [] then .ok ()
  else if isHashable issuer = false then .error .typeError
  else if c.allows issuer then .ok ()
  else .error .valueError

/-- The endpoint, unless there is none. -/
def target (call : Call O) : Except ErrorClass (Option Text) :=
  if call.metadata.registrationEndpoint.truthy = false then .ok none
  else
    (asUrl call.metadata.registrationEndpoint).bind fun url ↦
      (validateDiscoveryUrl w url).bind fun _ ↦
        (checkIssuer call.client call.metadata.issuer).map fun _ ↦ some url

/-- What can be compared with a time. Truth values are numbers. -/
def numberOf : Value O → Option ExtRat
  | .int n => some (.fin n)
  | .bool b => some (.fin (if b then 1 else 0))
  | .obj o => some (number o)
  | _ => none

def isExpired (wall : ℚ) (registration : Registration O) : Except ErrorClass Bool :=
  match numberOf number registration.clientSecretExpiresAt with
  | none => .error .typeError
  | some x => .ok (decide (x ≠ 0) && ExtRat.blt x (.fin wall))

/-- `age < self._cache_ttl`. -/
def isYoung (call : Call O) (now : ℚ) (g : Granted O) : Bool :=
  ExtRat.blt (.fin (now - g.cachedAt)) call.client.ttl

/-- What is cached for the endpoint, if it can be used. -/
def hit (cache : Cache O) (call : Call O) (url : Text) : Except ErrorClass (Option (Granted O)) :=
  match cache.get? url with
  | none => .ok none
  | some g =>
    if isYoung call call.start.monotonic g then
      (isExpired number call.start.wall g.registration).map fun expired ↦
        if expired then none else some g
    else .ok none

/-- `_GATEWAY_GRANT_TYPES`, sorted. -/
def gatewayGrantTypes : List String := ["authorization_code", "client_credentials", "refresh_token"]

/-- `set(v)`. -/
def members : Value O → Except ErrorClass (List (Value O))
  | .str s => .ok (s.toList.map fun c ↦ .str (String.singleton c))
  | .list l => if l.all isHashable then .ok l else .error .typeError
  | .dict d => .ok (d.map fun p ↦ .str p.1)
  | _ => .error .typeError

def isText (s : String) : Value O → Bool
  | .str t => decide (t = s)
  | _ => false

def negotiateGrantTypes (raw : Document O) : Except ErrorClass (List String) :=
  (members (raw.getD "grant_types_supported" (.list []))).map fun supported ↦
    gatewayGrantTypes.filter fun grantType ↦ supported.isEmpty || supported.any (isText grantType)

def texts (l : List String) : Value O := .list (l.map .str)

def buildRegistrationBody (c : Client) (grantTypes : List String) : Document O :=
  let body : Document O := Dict.ofList
    [("client_name", .str c.clientName), ("grant_types", texts grantTypes),
      ("token_endpoint_auth_method", .str "client_secret_post")]
  let body := if c.redirectUris = [] then body else body.set "redirect_uris" (texts c.redirectUris)
  if "authorization_code" ∈ grantTypes then
    (body.set "response_types" (texts ["code"])).set "code_challenge_methods_supported"
      (texts ["S256"])
  else body

/-! ## The request -/

/-- What a document says about a registration, if it has the name of a client. -/
def registrationOf (url : Text) (data : Document O) : Option (Registration O) :=
  if (data.getD "client_id" (.str "")).truthy = false then none
  else
    some
      { clientId := data.getD "client_id" (.str "")
        clientSecret := data.getD "client_secret" (.str "")
        clientIdIssuedAt := data.getD "client_id_issued_at" (.int 0)
        clientSecretExpiresAt := data.getD "client_secret_expires_at" (.int 0)
        grantTypes := data.getD "grant_types" (.list [])
        redirectUris := data.getD "redirect_uris" (.list [])
        tokenEndpointAuthMethod :=
          data.getD "token_endpoint_auth_method" (.str "client_secret_post")
        registrationEndpoint := url
        raw := data }

/-- What a reply comes to. A body that is no JSON is let pass, one that is no dictionary is not. -/
def readReply (url : Text) (resp : Response O) : Except ErrorClass (Option (Registration O)) :=
  if resp.status ∉ [200, 201] then .ok none
  else
    match resp.json with
    | .error e => if e = .valueError ∨ e = .typeError then .ok none else .error e
    | .ok body => (asDocument body).map (registrationOf url)

/-- What comes of a request. -/
def received (url : Text) :
    Except ErrorClass (Response O) → Except ErrorClass (Option (Registration O))
  | .error e => if e.isOSError then .ok none else .error e
  | .ok resp => readReply url resp

def doRegister (cache : Cache O) (call : Call O) (url : Text) (body : Document O) : Outcome O :=
  match validateDiscoveryUrl w url with
  | .error _ => ⟨.ok none, cache, []⟩
  | .ok () =>
    match received url call.reply with
    | .error e => ⟨.error e, cache, [⟨url, call.metadata.issuer, body, call.reply⟩]⟩
    | .ok none => ⟨.ok none, cache, [⟨url, call.metadata.issuer, body, call.reply⟩]⟩
    | .ok (some registration) =>
      ⟨.ok (some ⟨registration, call.finish.monotonic, body⟩),
        cache.set url ⟨registration, call.finish.monotonic, body⟩,
        [⟨url, call.metadata.issuer, body, call.reply⟩]⟩

/-- Without a grant type in common, all are asked for. -/
def requestNew (cache : Cache O) (call : Call O) (url : Text) : Outcome O :=
  match negotiateGrantTypes call.metadata.raw with
  | .error e => ⟨.error e, cache, []⟩
  | .ok grantTypes =>
    doRegister w cache call url
      (buildRegistrationBody call.client
        (if grantTypes = [] then gatewayGrantTypes else grantTypes))

/-- `register`. An entry that cannot be used is removed. -/
def register (cache : Cache O) (call : Call O) : Outcome O :=
  match target w call with
  | .error e => ⟨.error e, cache, []⟩
  | .ok none => ⟨.ok none, cache, []⟩
  | .ok (some url) =>
    match hit number cache call url with
    | .error e => ⟨.error e, cache, []⟩
    | .ok (some g) => ⟨.ok (some g), cache, []⟩
    | .ok none => requestNew w (cache.del url) call url

abbrev State (O : Type) := Cache O × List (Request O)

def serve (s : State O) (call : Call O) : State O :=
  ((register w number s.1 call).cache, s.2 ++ (register w number s.1 call).sent)

def afterCalls (calls : List (Call O)) : State O := calls.foldl (serve w number) (Dict.empty, [])

/-! ## What a call should come to -/

/-- The body has the name and the redirect URIs of the client. -/
def RequestedBy (c : Client) (body : Document O) : Prop :=
  body.get? "client_name" = some (.str c.clientName) ∧
    body.get? "redirect_uris" = if c.redirectUris = [] then none else some (texts c.redirectUris)

/-- The registration came of a request to the endpoint. -/
def Granted.FromRequest (g : Granted O) (sent : List (Request O)) (url : Text) : Prop :=
  ∃ x ∈ sent, x.endpoint = url ∧ x.body = g.body ∧ received url x.reply = .ok (some g.registration)

/-- What the clocks say when the call looks at them for the last time. -/
def Call.clocks (call : Call O) (out : Outcome O) : Clocks :=
  if out.sent = [] then call.start else call.finish

/-- What is returned was asked for by this client and is good; nothing is sent to an issuer that is
not allowed; and the call returns, if it is not refused and its request has a reply. -/
structure Sound (s : State O) (call : Call O) (out : Outcome O) : Prop where
  fromRequest : ∀ g, out.result = .ok (some g) → ∃ endpoint : String,
    call.metadata.registrationEndpoint = .str endpoint ∧
      g.FromRequest (s.2 ++ out.sent) endpoint.toList
  young : ∀ g, out.result = .ok (some g) → isYoung call (call.clocks out).monotonic g = true
  unexpired : ∀ g, out.result = .ok (some g) →
    isExpired number (call.clocks out).wall g.registration ≠ .ok true
  own : ∀ g, out.result = .ok (some g) → RequestedBy call.client g.body
  allowed : ∀ x ∈ out.sent, call.client.issuerAllowlist = [] ∨ call.client.allows x.issuer = true
  returns : target w call ≠ .error .valueError → (∀ x ∈ out.sent, ∃ resp, x.reply = .ok resp) →
    ∃ found, out.result = .ok found

/-- The body of a reply that counts is a JSON object, or no JSON. -/
def IsReadable (resp : Response O) : Prop :=
  resp.status ∈ [200, 201] →
    (∀ e, resp.json = .error e → e = .valueError ∨ e = .typeError) ∧
      ∀ body, resp.json = .ok body → ∃ d, body = .dict d

/-- The condition. The metadata are of the right types; what is cached and young has a time of
expiry, and was asked for in the same way if it has not expired; and a request that has to be sent is
answered with a JSON object, whose secret, if it is a registration, has not expired. -/
structure Meets (cache : Cache O) (call : Call O) : Prop where
  refused : ∀ e, target w call = .error e → e = .valueError
  cached : ∀ url g, target w call = .ok (some url) → cache.get? url = some g →
    isYoung call call.start.monotonic g = true →
      (∃ x, numberOf number g.registration.clientSecretExpiresAt = some x) ∧
        (isExpired number call.start.wall g.registration = .ok false →
          RequestedBy call.client g.body)
  grants : ∀ url, target w call = .ok (some url) → hit number cache call url = .ok none →
    ∃ l, members (call.metadata.raw.getD "grant_types_supported" (.list [])) = .ok l
  reply : ∀ url resp, target w call = .ok (some url) → hit number cache call url = .ok none →
    call.reply = .ok resp → IsReadable resp ∧
      ∀ registration, readReply url resp = .ok (some registration) →
        ExtRat.blt 0 call.client.ttl = true ∧
          isExpired number call.finish.wall registration ≠ .ok true

/-! ## The parts of a call -/

section

variable {w number}

omit [PyObject O]

theorem isExpired_eq_error_iff {wall : ℚ} {registration : Registration O} :
    (∃ e, isExpired number wall registration = .error e) ↔
      numberOf number registration.clientSecretExpiresAt = none := by
  rw [isExpired]
  rcases numberOf number registration.clientSecretExpiresAt with _ | x
  · exact iff_of_true ⟨_, rfl⟩ rfl
  · simp

theorem exists_numberOf {wall : ℚ} {registration : Registration O} {expired : Bool}
    (h : isExpired number wall registration = .ok expired) :
    ∃ x, numberOf number registration.clientSecretExpiresAt = some x := by
  rw [isExpired] at h
  rcases hx : numberOf number registration.clientSecretExpiresAt with _ | x
  · rw [hx] at h
    exact absurd h (by simp)
  · exact ⟨x, rfl⟩

theorem hit_cases (number : O → ExtRat) (cache : Cache O) (call : Call O) (url : Text) :
    (hit number cache call url = .ok none ∧ ∀ g, cache.get? url = some g →
        isYoung call call.start.monotonic g = true →
          isExpired number call.start.wall g.registration = .ok true) ∨
      ∃ g, cache.get? url = some g ∧ isYoung call call.start.monotonic g = true ∧
        ((hit number cache call url = .error .typeError ∧
            numberOf number g.registration.clientSecretExpiresAt = none) ∨
          (hit number cache call url = .ok (some g) ∧
            isExpired number call.start.wall g.registration = .ok false)) := by
  rw [hit]
  rcases hget : cache.get? url with _ | g
  · exact Or.inl ⟨rfl, fun g hg ↦ absurd hg (by simp)⟩
  have hsame : ∀ g', some g = some g' → g = g' := fun g' h ↦ Option.some.inj h
  by_cases hyoung : isYoung call call.start.monotonic g = true
  · dsimp only
    rw [if_pos hyoung]
    rcases hexpired : isExpired number call.start.wall g.registration with e | expired
    · have hnumber := isExpired_eq_error_iff.mp ⟨e, hexpired⟩
      refine Or.inr ⟨g, rfl, hyoung, Or.inl ⟨?_, hnumber⟩⟩
      rw [isExpired, hnumber] at hexpired
      rw [← Except.error.inj hexpired]
      rfl
    · rcases expired with _ | _
      · exact Or.inr ⟨g, rfl, hyoung, Or.inr ⟨rfl, hexpired⟩⟩
      · exact Or.inl ⟨rfl, fun g' hg' _ ↦ hsame g' hg' ▸ hexpired⟩
  · exact Or.inl ⟨if_neg hyoung, fun g' hg' hyoung' ↦ absurd (hsame g' hg' ▸ hyoung') hyoung⟩

/-- **A client asks in its own name.** -/
theorem requestedBy_buildRegistrationBody (c : Client) (grantTypes : List String) :
    RequestedBy c (buildRegistrationBody c grantTypes : Document O) := by
  have hbase : RequestedBy c (if c.redirectUris = [] then
      (Dict.ofList [("client_name", .str c.clientName), ("grant_types", texts grantTypes),
        ("token_endpoint_auth_method", .str "client_secret_post")] : Document O)
      else (Dict.ofList [("client_name", .str c.clientName), ("grant_types", texts grantTypes),
        ("token_endpoint_auth_method", .str "client_secret_post")] : Document O).set
          "redirect_uris" (texts c.redirectUris)) := by
    split
    · rename_i huris
      rw [RequestedBy, if_pos huris]
      exact ⟨rfl, rfl⟩
    · rename_i huris
      rw [RequestedBy, if_neg huris, Dict.get?_set_self]
      exact ⟨Dict.get?_set_of_ne _ _ (by decide), rfl⟩
  rw [buildRegistrationBody]
  split
  · obtain ⟨hname, huris⟩ := hbase
    refine ⟨?_, ?_⟩
    · rwa [Dict.get?_set_of_ne _ _ (by decide), Dict.get?_set_of_ne _ _ (by decide)]
    · rwa [Dict.get?_set_of_ne _ _ (by decide), Dict.get?_set_of_ne _ _ (by decide)]
  · exact hbase

theorem negotiateGrantTypes_eq_error_iff {raw : Document O} :
    (∃ e, negotiateGrantTypes raw = .error e) ↔
      ¬ ∃ l, members (raw.getD "grant_types_supported" (.list [])) = .ok l := by
  rw [negotiateGrantTypes]
  rcases members (raw.getD "grant_types_supported" (.list [])) with e | l
  · exact iff_of_true ⟨e, rfl⟩ (by simp)
  · exact iff_of_false (by simp [Except.map]) (by simp)

end

section

variable {w number}

theorem target_eq_ok {call : Call O} {url : Text} (h : target w call = .ok (some url)) :
    (∃ endpoint : String, call.metadata.registrationEndpoint = .str endpoint ∧
      endpoint.toList = url) ∧
    validateDiscoveryUrl w url = .ok () ∧
      (call.client.issuerAllowlist = [] ∨ call.client.allows call.metadata.issuer = true) := by
  rw [target] at h
  split at h
  · exact absurd h (by simp)
  · obtain ⟨url', hurl, h⟩ := bind_eq_ok_iff.mp h
    obtain ⟨⟨⟩, hvalid, h⟩ := bind_eq_ok_iff.mp h
    obtain ⟨⟨⟩, hissuer, h⟩ := map_eq_ok_iff.mp h
    obtain rfl := Option.some.inj h
    refine ⟨exists_of_asUrl hurl, hvalid, ?_⟩
    rw [checkIssuer] at hissuer
    split at hissuer
    · rename_i hlist
      exact Or.inl hlist
    split at hissuer
    · exact absurd hissuer (by simp)
    split at hissuer
    · rename_i hallows
      exact Or.inr hallows
    · exact absurd hissuer (by simp)

/-- **A reply can be read** exactly if its body is an object, or no JSON, or does not count. -/
theorem isReadable_iff (url : Text) {resp : Response O} :
    IsReadable resp ↔ ∃ found, readReply url resp = .ok found := by
  rw [IsReadable, readReply]
  by_cases hstatus : resp.status ∈ [200, 201]
  · rw [if_neg (not_not_intro hstatus)]
    rcases resp.json with e | body
    · dsimp only
      by_cases he : e = .valueError ∨ e = .typeError
      · rw [if_pos he]
        refine iff_of_true (fun _ ↦ ⟨?_, by simp⟩) ⟨_, rfl⟩
        intro e' he'
        rwa [← Except.error.inj he']
      · rw [if_neg he]
        exact iff_of_false (fun h ↦ he ((h hstatus).1 e rfl)) (by simp)
    · rcases body with _ | b | n | s | l | d | o
      case dict => exact iff_of_true (fun _ ↦ ⟨by simp, by simp⟩) ⟨_, rfl⟩
      all_goals
        refine iff_of_false (fun h ↦ ?_) (by simp [asDocument, Except.map])
        obtain ⟨d, hd⟩ := (h hstatus).2 _ rfl
        exact absurd hd (by simp)
  · rw [if_pos hstatus]
    exact iff_of_true (fun h ↦ absurd h hstatus) ⟨_, rfl⟩

/-! ## One call -/

theorem sound_doRegister_iff {s : State O} {cache : Cache O} {call : Call O} {url : Text}
    {body : Document O} (htarget : target w call = .ok (some url))
    (hbody : RequestedBy call.client body) :
    Sound w number s call (doRegister w cache call url body) ↔
      ∀ resp, call.reply = .ok resp → IsReadable resp ∧
        ∀ registration, readReply url resp = .ok (some registration) →
          ExtRat.blt 0 call.client.ttl = true ∧
            isExpired number call.finish.wall registration ≠ .ok true := by
  obtain ⟨⟨endpoint, hendpoint, rfl⟩, hvalid, hallowed⟩ := target_eq_ok htarget
  have hnot : target w call ≠ .error .valueError := by
    rw [htarget]
    simp
  have hsent : ∀ x ∈ [(⟨endpoint.toList, call.metadata.issuer, body, call.reply⟩ : Request O)],
      call.client.issuerAllowlist = [] ∨ call.client.allows x.issuer = true := by
    intro x hx
    rw [List.mem_singleton.mp hx]
    exact hallowed
  rw [doRegister, hvalid]
  dsimp only
  rcases hreceived : received endpoint.toList call.reply with e | found
  · constructor
    · intro hsound resp hresp
      obtain ⟨found, hfound⟩ := hsound.returns hnot fun x hx ↦
        ⟨resp, List.mem_singleton.mp hx ▸ hresp⟩
      exact absurd hfound (by simp)
    · intro h
      refine ⟨fun g hg ↦ ?_, fun g hg ↦ ?_, fun g hg ↦ ?_, fun g hg ↦ ?_, hsent,
        fun _ hreplies ↦ ?_⟩
      iterate 4 exact absurd hg (by simp)
      obtain ⟨resp, hresp⟩ := hreplies _ (List.mem_singleton_self _)
      obtain ⟨found, hfound⟩ := (isReadable_iff endpoint.toList).mp (h resp hresp).1
      have hresp : call.reply = .ok resp := hresp
      rw [hresp] at hreceived
      exact absurd (hreceived.symm.trans hfound) (by simp)
  have hread : ∀ resp, call.reply = .ok resp → readReply endpoint.toList resp = .ok found := by
    intro resp hresp
    rw [hresp] at hreceived
    exact hreceived
  have hreadable : ∀ resp, call.reply = .ok resp → IsReadable resp := fun resp hresp ↦
    (isReadable_iff endpoint.toList).mpr ⟨found, hread resp hresp⟩
  rcases found with _ | registration
  · refine iff_of_true ?_ fun resp hresp ↦ ⟨hreadable resp hresp, fun registration h ↦ ?_⟩
    · refine ⟨fun g hg ↦ ?_, fun g hg ↦ ?_, fun g hg ↦ ?_, fun g hg ↦ ?_, hsent,
        fun _ _ ↦ ⟨none, rfl⟩⟩
      iterate 4 exact absurd hg (by simp)
    · exact absurd ((hread resp hresp).symm.trans h) (by simp)
  · constructor
    · intro hsound resp hresp
      refine ⟨hreadable resp hresp, fun registration' h ↦ ?_⟩
      obtain rfl : registration = registration' :=
        Option.some.inj (Except.ok.inj ((hread resp hresp).symm.trans h))
      have hyoung := hsound.young _ rfl
      rw [isYoung, Call.clocks, if_neg (List.cons_ne_nil _ _), sub_self] at hyoung
      exact ⟨hyoung, hsound.unexpired _ rfl⟩
    · intro h
      have hreply : ∃ resp, call.reply = .ok resp := by
        rcases hreply : call.reply with e | resp
        · rw [hreply, received] at hreceived
          split at hreceived
          · exact absurd hreceived (by simp)
          · exact absurd hreceived (by simp)
        · exact ⟨resp, rfl⟩
      obtain ⟨resp, hresp⟩ := hreply
      obtain ⟨httl, hexpired⟩ := (h resp hresp).2 registration (hread resp hresp)
      refine ⟨fun g hg ↦ ?_, fun g hg ↦ ?_, fun g hg ↦ ?_, fun g hg ↦ ?_, hsent,
        fun _ _ ↦ ⟨_, rfl⟩⟩
      all_goals obtain rfl := Option.some.inj (Except.ok.inj hg)
      · refine ⟨endpoint, hendpoint, _, List.mem_append_right _ (List.mem_singleton_self _), rfl,
          rfl, hreceived⟩
      · rw [isYoung, Call.clocks, if_neg (List.cons_ne_nil _ _), sub_self]
        exact httl
      · exact hexpired
      · exact hbody

theorem sound_requestNew_iff {s : State O} {cache : Cache O} {call : Call O} {url : Text}
    (htarget : target w call = .ok (some url)) :
    Sound w number s call (requestNew w cache call url) ↔
      (∃ l, members (call.metadata.raw.getD "grant_types_supported" (.list [])) = .ok l) ∧
        ∀ resp, call.reply = .ok resp → IsReadable resp ∧
          ∀ registration, readReply url resp = .ok (some registration) →
            ExtRat.blt 0 call.client.ttl = true ∧
              isExpired number call.finish.wall registration ≠ .ok true := by
  rw [requestNew]
  rcases hgrants : negotiateGrantTypes call.metadata.raw with e | grantTypes
  · refine iff_of_false (fun hsound ↦ ?_) fun h ↦
      negotiateGrantTypes_eq_error_iff.mp ⟨e, hgrants⟩ h.1
    obtain ⟨found, hfound⟩ := hsound.returns (by simp [htarget]) fun x hx ↦
      absurd hx List.not_mem_nil
    exact absurd hfound (by simp)
  · have hmembers : ∃ l,
        members (call.metadata.raw.getD "grant_types_supported" (.list [])) = .ok l := by
      by_contra hnone
      obtain ⟨e, he⟩ := negotiateGrantTypes_eq_error_iff.mpr hnone
      exact absurd (hgrants.symm.trans he) (by simp)
    rw [and_iff_right hmembers]
    exact sound_doRegister_iff htarget (requestedBy_buildRegistrationBody _ _)

/-- Every entry came of a request to its endpoint. -/
def CacheGenuine (s : State O) : Prop :=
  ∀ url g, s.1.get? url = some g → g.FromRequest s.2 url

theorem sound_of_none {s : State O} {cache : Cache O} {call : Call O} :
    Sound w number s call ⟨.ok none, cache, []⟩ := by
  refine ⟨fun g hg ↦ ?_, fun g hg ↦ ?_, fun g hg ↦ ?_, fun g hg ↦ ?_,
    fun x hx ↦ absurd hx List.not_mem_nil, fun _ _ ↦ ⟨none, rfl⟩⟩
  all_goals exact absurd hg (by simp)

theorem sound_of_error_iff {s : State O} {cache : Cache O} {call : Call O} {e : ErrorClass} :
    Sound w number s call ⟨.error e, cache, []⟩ ↔ target w call = .error .valueError := by
  constructor
  · intro hsound
    by_contra hnot
    obtain ⟨found, hfound⟩ := hsound.returns hnot fun x hx ↦ absurd hx List.not_mem_nil
    exact absurd hfound (by simp)
  · intro hrefused
    refine ⟨fun g hg ↦ ?_, fun g hg ↦ ?_, fun g hg ↦ ?_, fun g hg ↦ ?_,
      fun x hx ↦ absurd hx List.not_mem_nil, fun hnot ↦ absurd hrefused hnot⟩
    all_goals exact absurd hg (by simp)

/-- **When one call is sound**, with a cache whose entries came of requests. -/
theorem sound_register_iff {s : State O} (hgenuine : CacheGenuine s) (call : Call O) :
    Sound w number s call (register w number s.1 call) ↔ Meets w number s.1 call := by
  rw [register]
  rcases htarget : target w call with e | _ | url
  · refine sound_of_error_iff.trans ?_
    rw [htarget]
    constructor
    · rintro ⟨rfl⟩
      refine ⟨fun e he ↦ ?_, fun url g h ↦ ?_, fun url h ↦ ?_, fun url resp h ↦ ?_⟩
      · exact (Except.error.inj (htarget.symm.trans he)).symm
      all_goals exact absurd (htarget.symm.trans h) (by simp)
    · intro hmeets
      rw [hmeets.refused e htarget]
  · refine iff_of_true sound_of_none ⟨fun e he ↦ ?_, fun url g h ↦ ?_, fun url h ↦ ?_,
      fun url resp h ↦ ?_⟩
    · exact absurd (htarget.symm.trans he) (by simp)
    · exact absurd (htarget.symm.trans h) (by simp)
    · exact absurd (htarget.symm.trans h) (by simp)
    · exact absurd (htarget.symm.trans h) (by simp)
  · have hrefusal : ∀ e, target w call = .error e → e = .valueError := fun e he ↦
      absurd (htarget.symm.trans he) (by simp)
    have hurl : ∀ url', target w call = .ok (some url') → url' = url := fun url' h ↦
      Option.some.inj (Except.ok.inj (h.symm.trans htarget))
    dsimp only
    rcases hit_cases number s.1 call url with
      ⟨hhit, hnone⟩ | ⟨g, hget, hyoung, ⟨hhit, hnumber⟩ | ⟨hhit, hexpired⟩⟩
    · rw [hhit]
      refine (sound_requestNew_iff htarget).trans ⟨fun ⟨hgrants, hreply⟩ ↦ ?_, fun hmeets ↦ ?_⟩
      · refine ⟨hrefusal, fun url' g h hget hyoung ↦ ?_, fun _ _ _ ↦ hgrants,
          fun url' resp h _ hresp ↦ ?_⟩
        · rw [hurl url' h] at hget
          have hexpired := hnone g hget hyoung
          refine ⟨exists_numberOf hexpired, fun hfalse ↦ ?_⟩
          exact absurd (hexpired.symm.trans hfalse) (by simp)
        · rw [hurl url' h]
          exact hreply resp hresp
      · exact ⟨hmeets.grants url htarget hhit,
          fun resp hresp ↦ hmeets.reply url resp htarget hhit hresp⟩
    · rw [hhit]
      refine iff_of_false (fun hsound ↦ ?_) fun hmeets ↦ ?_
      · rw [sound_of_error_iff, htarget] at hsound
        exact absurd hsound (by simp)
      · obtain ⟨⟨x, hx⟩, -⟩ := hmeets.cached url g htarget hget hyoung
        exact absurd (hnumber.symm.trans hx) (by simp)
    · rw [hhit]
      obtain ⟨⟨endpoint, hendpoint, rfl⟩, -, -⟩ := target_eq_ok htarget
      constructor
      · intro hsound
        refine ⟨hrefusal, fun url' g' h hget' _ ↦ ?_, fun url' h hnone ↦ ?_,
          fun url' resp h hnone ↦ ?_⟩
        · rw [hurl url' h, hget] at hget'
          obtain rfl := Option.some.inj hget'
          exact ⟨exists_numberOf hexpired, fun _ ↦ hsound.own g rfl⟩
        · rw [hurl url' h] at hnone
          exact absurd (hhit.symm.trans hnone) (by simp)
        · rw [hurl url' h] at hnone
          exact absurd (hhit.symm.trans hnone) (by simp)
      · intro hmeets
        refine ⟨fun g' hg ↦ ?_, fun g' hg ↦ ?_, fun g' hg ↦ ?_, fun g' hg ↦ ?_,
          fun x hx ↦ absurd hx List.not_mem_nil, fun _ _ ↦ ⟨_, rfl⟩⟩
        all_goals obtain rfl := Option.some.inj (Except.ok.inj hg)
        · refine ⟨endpoint, hendpoint, ?_⟩
          rw [List.append_nil]
          exact hgenuine _ _ hget
        · rw [Call.clocks, if_pos rfl]
          exact hyoung
        · rw [Call.clocks, if_pos rfl, hexpired]
          simp
        · exact (hmeets.cached _ g htarget hget hyoung).2 hexpired

/-! ## Runs -/

theorem Granted.FromRequest.mono {g : Granted O} {sent sent' : List (Request O)} {url : Text}
    (h : g.FromRequest sent url) (hsub : sent ⊆ sent') : g.FromRequest sent' url := by
  obtain ⟨x, hx, hrequest⟩ := h
  exact ⟨x, hsub hx, hrequest⟩

theorem get?_doRegister {cache : Cache O} {call : Call O} {url url' : Text} {body : Document O}
    {g : Granted O} (h : (doRegister w cache call url body).cache.get? url' = some g) :
    cache.get? url' = some g ∨ g.FromRequest (doRegister w cache call url body).sent url' := by
  rw [doRegister] at h ⊢
  rcases hvalid : validateDiscoveryUrl w url with e | ⟨⟩
  · rw [hvalid] at h
    exact Or.inl h
  rw [hvalid] at h
  rcases hreceived : received url call.reply with e | _ | registration
  · rw [hreceived] at h
    exact Or.inl h
  · rw [hreceived] at h
    exact Or.inl h
  · rw [hreceived] at h
    dsimp only at h ⊢
    rw [Dict.get?_set] at h
    split at h
    · rename_i hurl
      rw [hurl, ← Option.some.inj h]
      exact Or.inr ⟨_, List.mem_singleton_self _, rfl, rfl, hreceived⟩
    · exact Or.inl h

theorem get?_register {cache : Cache O} {call : Call O} {url : Text} {g : Granted O}
    (h : (register w number cache call).cache.get? url = some g) :
    cache.get? url = some g ∨ g.FromRequest (register w number cache call).sent url := by
  have hdel : ∀ endpoint, (cache.del endpoint).get? url = some g → cache.get? url = some g := by
    intro endpoint hget
    rw [Dict.get?_del] at hget
    split at hget
    · exact absurd hget (by simp)
    · exact hget
  rw [register] at h ⊢
  rcases htarget : target w call with e | _ | endpoint
  · rw [htarget] at h
    exact Or.inl h
  · rw [htarget] at h
    exact Or.inl h
  rw [htarget] at h
  dsimp only at h ⊢
  rcases hhit : hit number cache call endpoint with e | _ | g'
  · rw [hhit] at h
    exact Or.inl h
  · rw [hhit] at h
    dsimp only at h ⊢
    rw [requestNew] at h ⊢
    rcases hgrants : negotiateGrantTypes call.metadata.raw with e | grantTypes
    · rw [hgrants] at h
      exact Or.inl (hdel endpoint h)
    · rw [hgrants] at h
      exact (get?_doRegister h).imp_left (hdel endpoint)
  · rw [hhit] at h
    exact Or.inl h

theorem cacheGenuine_serve {s : State O} (h : CacheGenuine s) (call : Call O) :
    CacheGenuine (serve w number s call) := by
  intro url g hget
  rcases get?_register hget with hold | hnew
  · exact (h url g hold).mono (List.subset_append_left _ _)
  · exact hnew.mono (List.subset_append_right _ _)

/-- **Whatever is cached** came of a request to its endpoint, after any calls. -/
theorem cacheGenuine_afterCalls (calls : List (Call O)) :
    CacheGenuine (afterCalls w number calls) := by
  have hrun : ∀ s : State O, CacheGenuine s → CacheGenuine (calls.foldl (serve w number) s) := by
    induction calls with
    | nil => exact fun s h ↦ h
    | cons call calls ih => exact fun s h ↦ ih _ (cacheGenuine_serve h call)
  exact hrun _ fun url g h ↦ absurd h (by simp)

end

def EveryCall (P : State O → Call O → Prop) (calls : List (Call O)) : Prop :=
  ∀ before call after, calls = before ++ call :: after → P (afterCalls w number before) call

/-- **When registration is sound.** In a run of any calls by any clients, every call does what it
should exactly if every call meets the condition. -/
theorem everyCall_sound_iff (calls : List (Call O)) :
    EveryCall w number (fun s call ↦ Sound w number s call (register w number s.1 call)) calls ↔
      EveryCall w number (fun s call ↦ Meets w number s.1 call) calls := by
  constructor
  · intro h before call after hcalls
    exact (sound_register_iff (cacheGenuine_afterCalls before) call).mp (h before call after hcalls)
  · intro h before call after hcalls
    exact (sound_register_iff (cacheGenuine_afterCalls before) call).mpr
      (h before call after hcalls)

/-! ## Two clients -/

/-- An authorization server. -/
def metadataExample : OAuthMetadata Empty :=
  metadataOf (Dict.single "registration_endpoint" (.str "https://example.com/register"))

/-- A registration with it, under a name. -/
def callExample (clientName : String) : Call Empty where
  client := ⟨[], .fin 3600, clientName, []⟩
  metadata := metadataExample
  start := ⟨0, 0⟩
  finish := ⟨0, 0⟩
  reply := .ok ⟨201, [], [], .ok (.dict [("client_id", .str "id")])⟩

def grantedExample : Granted Empty where
  registration :=
    { clientId := .str "id"
      clientSecret := .str ""
      clientIdIssuedAt := .int 0
      clientSecretExpiresAt := .int 0
      grantTypes := .list []
      redirectUris := .list []
      tokenEndpointAuthMethod := .str "client_secret_post"
      registrationEndpoint := "https://example.com/register".toList
      raw := Dict.single "client_id" (.str "id") }
  cachedAt := 0
  body := buildRegistrationBody (callExample "first").client gatewayGrantTypes

/-- A second client is given what the first one has asked for. -/
theorem not_forall_everyCall_sound :
    ¬ ∀ (w : World Empty) (number : Empty → ExtRat) (calls : List (Call Empty)),
      EveryCall w number (fun s call ↦ Sound w number s call (register w number s.1 call))
        calls := by
  intro h
  have hsound := h (down .osError) Empty.elim [callExample "first", callExample "second"]
    [callExample "first"] (callExample "second") [] rfl
  have hcached : (afterCalls (down .osError) Empty.elim [callExample "first"]).1.get?
      "https://example.com/register".toList = some grantedExample := rfl
  have hyoung : isYoung (callExample "second") (callExample "second").start.monotonic
      grantedExample = true := by decide +kernel
  have hexpired : isExpired Empty.elim (callExample "second").start.wall
      grantedExample.registration = .ok false := rfl
  have hhit : hit Empty.elim (afterCalls (down .osError) Empty.elim [callExample "first"]).1
      (callExample "second") "https://example.com/register".toList = .ok (some grantedExample) := by
    rw [hit, hcached]
    dsimp only
    rw [if_pos hyoung, hexpired]
    rfl
  have htarget : target (down .osError) (callExample "second") =
      .ok (some "https://example.com/register".toList) := rfl
  have hresult : (register (down .osError) Empty.elim
      (afterCalls (down .osError) Empty.elim [callExample "first"]).1
      (callExample "second")).result = .ok (some grantedExample) := by
    rw [register, htarget]
    dsimp only
    rw [hhit]
  have hname : grantedExample.body.get? "client_name" = some (.str "first") := rfl
  have hother := (hsound.own grantedExample hresult).1
  rw [hname] at hother
  exact absurd (Value.str.inj (Option.some.inj hother)) (by decide)

end

end ClientRegistration

end ArgusMcp
