import ArgusMcp.Library.Dialogue
import ArgusMcp.Library.Dict
import ArgusMcp.Library.IpAddress
import ArgusMcp.Library.Url
import ArgusMcp.Library.Value
import Mathlib.Algebra.Order.Field.Rat

/-!
# Discovery of OAuth metadata

Where a backend that wants authorization has it done (`bridge/auth/discovery.py`). The backend is
asked for its resource metadata; if that names no authorization server, it is probed, and the header
of a 401 reply may name one. The authorization server is asked for two documents, which are merged.
Redirects are followed by hand, and each hop is validated.

The servers answer as they like: an answer is a reply or an exception, and may depend on everything
before. What happens is recorded in events: the exchanges, and what the next steps depend on.

## Failures

Every step catches `OSError`, and no other exception. So discovery returns normally exactly if no
exchange fails in another way, no redirect is rejected, each document that is read is a dictionary,
what is taken for an authorization server is a string, and a `code_challenge_methods_supported` can
be searched (`discoverOauthMetadata_soft_iff`). Whenever it returns, all steps were tried, and the
document of RFC 8414 went before the other one.
-/

namespace ArgusMcp

open Dialogue

namespace OAuthDiscovery

abbrev Text := List Char

/-! ## The data -/

/-- The exceptions, as far as the clauses that catch them tell them apart. -/
inductive ErrorClass where
  | osError
  | valueError
  | attributeError
  | typeError
  | httpx
  | other
  deriving DecidableEq

/-- What `except (OSError, ConnectionError)` catches. -/
def ErrorClass.isOSError (e : ErrorClass) : Bool := decide (e = .osError)

/-- A header that is missing is empty. -/
structure Response (O : Type) where
  status : ℕ
  location : Text
  wwwAuthenticate : Text
  json : Except ErrorClass (Value O)

/-- What an exchange is for. -/
inductive Kind where
  | resource
  | probe
  | rfc8414
  | oidc
  | register
  deriving DecidableEq

abbrev Document (O : Type) := Dict String (Value O)

/-- What happens. -/
inductive Event (O : Type) where
  /-- A request, and what came of it. -/
  | exchange (kind : Kind) (url : Text) (reply : Except ErrorClass (Response O))
  /-- A redirect to a location, with so many requests left. -/
  | redirect (left : ℕ) (url location : Text)
  /-- The body of a reply that is to be a document. -/
  | document (kind : Kind) (body : Except ErrorClass (Value O))
  /-- What the resource metadata said. -/
  | resource (authServer : Value O)
  /-- What was found in the end. -/
  | found (authServer : Value O)
  /-- The documents of the authorization server, where they could be had. -/
  | documents (authServer : Text) (rfc8414 oidc : Option (Document O))
  /-- Where a client is to be registered. -/
  | registration (endpoint : Value O)

/-- The servers, and which authorities `urllib` refuses. -/
structure World (O : Type) where
  refuses : Text → Bool
  answer : List (Event O) → Kind → Text → Except ErrorClass (Response O)

abbrev Prog (O α : Type) := Dialogue.Prog (Event O) ErrorClass α

structure OAuthMetadata (O : Type) where
  issuer : Value O
  authorizationEndpoint : Value O
  tokenEndpoint : Value O
  registrationEndpoint : Value O
  scopesSupported : Value O
  responseTypesSupported : Value O
  codeChallengeMethodsSupported : Value O
  raw : Document O

/-- A string, or nothing. -/
def ofText {O : Type} : Option Text → Value O
  | some s => .str (String.ofList s)
  | none => .none

/-! ## URLs -/

section

variable {O : Type} (w : World O)

/-- The host is the literal of an address that is private, loopback or link-local. -/
def isPrivateLiteral (host : Text) : Bool :=
  (IpAddress.ofText host).any fun address ↦
    IpAddress.isPrivate address || IpAddress.isLoopback address || IpAddress.isLinkLocal address

/-- What is refused unless private addresses are allowed. The text of the error decides, and it
quotes a host that is no address. -/
def isRefusedHost (host : Text) : Bool :=
  isPrivateLiteral host ||
    ((IpAddress.ofText host).isNone && decide ("not allowed".toList <:+: host))

/-- `_validate_discovery_url`. Every error is a `ValueError`. -/
def validateUrl (allowPrivate : Bool) (url : Text) : Except ErrorClass Unit :=
  match Url.split w.refuses [] url with
  | none => .error .valueError
  | some parsed =>
    if Url.isWeb parsed.scheme = false then .error .valueError
    else if parsed.hostname = [] then .error .valueError
    else if !allowPrivate && isRefusedHost parsed.hostname then .error .valueError
    else .ok ()

/-- `_validate_discovery_url`, as it is called everywhere. -/
def validateDiscoveryUrl (url : Text) : Except ErrorClass Unit := validateUrl w true url

def wellKnown (url path : Text) : Except ErrorClass Text :=
  match (Url.split w.refuses [] url).bind fun parsed ↦ Url.join w.refuses parsed.root path with
  | none => .error .valueError
  | some joined => .ok joined

/-- Where a redirect leads. -/
def nextHop (url location : Text) : Except ErrorClass Text :=
  match Url.join w.refuses url location with
  | none => .error .valueError
  | some target => (validateDiscoveryUrl w target).map fun _ ↦ target

/-! ## Requests -/

def get (kind : Kind) (url : Text) : Prog O (Response O) :=
  ask (fun past ↦ w.answer past kind url) fun reply ↦ .exchange kind url reply

def isRedirect (resp : Response O) : Bool :=
  decide (resp.status ∈ [301, 302, 303, 307, 308]) && !resp.location.isEmpty

/-- One request, with so many left, and what is done with a redirect. -/
def hop (kind : Kind) (left : ℕ) (url : Text) (rest : Response O → Text → Prog O (Response O)) :
    Prog O (Response O) :=
  bind (get w kind url) fun resp ↦
    if isRedirect resp then
      bind (record (.redirect left url resp.location) (nextHop w url resp.location)) (rest resp)
    else ret resp

/-- Up to so many requests more. -/
def getFrom (kind : Kind) : ℕ → Text → Prog O (Response O)
  | 0, url => hop w kind 0 url fun resp _ ↦ ret resp
  | left + 1, url => hop w kind (left + 1) url fun _ target ↦ getFrom kind left target

/-- `_safe_get`. Of `_MAX_REDIRECTS` requests, the last one may be redirected in vain. -/
def safeGet (kind : Kind) (url : Text) : Prog O (Response O) := getFrom w kind 2 url

/-! ## Documents -/

/-- What has a method `get`. -/
def asDocument : Value O → Except ErrorClass (Document O)
  | .dict d => .ok (Dict.ofList d)
  | _ => .error .attributeError

def readDocument (kind : Kind) (resp : Response O) : Prog O (Document O) :=
  record (.document kind resp.json) (resp.json.bind asDocument)

/-- `except (OSError, ConnectionError)`, with what is returned. -/
def catchOSError {α : Type} (default : α) (m : Prog O α) : Prog O α :=
  handle m fun e ↦ if e.isOSError then some default else none

/-- The first of several authorization servers, or the only one. -/
def authServerOf (data : Document O) : Value O :=
  match data.getD "authorization_servers" (.list [.none]) with
  | .list (first :: _) => first
  | _ =>
    match data.get? "authorization_server" with
    | some (.str s) => if s = "" then .none else .str s
    | _ => .none

def discoverResourceMetadata (mcpUrl : Text) : Prog O (Value O) :=
  bind (lift (wellKnown w mcpUrl "/.well-known/oauth-protected-resource".toList)) fun url ↦
    catchOSError .none (bind (safeGet w .resource url) fun resp ↦
      if resp.status = 200 then
        bind (readDocument .resource resp) fun data ↦ ret (authServerOf data)
      else ret .none)

/-- The first match of `key="([^"]+)"`. -/
def searchQuoted (key : Text) : Text → Option Text
  | [] => none
  | c :: rest =>
    let value := ((c :: rest).drop (key.length + 2)).takeWhile fun d ↦ decide (d ≠ '"')
    if (key ++ "=\"".toList ++ value ++ ['"']).isPrefixOf (c :: rest) ∧ value ≠ [] then some value
    else searchQuoted key rest

def parseWwwAuthenticate (header : Text) : Option Text :=
  match searchQuoted "authorization_uri".toList header with
  | some uri => some uri
  | none =>
    (searchQuoted "realm".toList header).filter fun realm ↦
      "http://".toList.isPrefixOf realm || "https://".toList.isPrefixOf realm

def probeWwwAuthenticate (mcpUrl : Text) : Prog O (Value O) :=
  catchOSError .none (bind (safeGet w .probe mcpUrl) fun resp ↦
    if resp.status = 401 then ret (ofText (parseWwwAuthenticate resp.wwwAuthenticate))
    else ret .none)

/-- One of the documents of an authorization server, if it can be had. -/
def fetchDocument (kind : Kind) (url : Text) : Prog O (Option (Document O)) :=
  catchOSError none (bind (safeGet w kind url) fun resp ↦
    if resp.status = 200 then bind (readDocument kind resp) fun data ↦ ret (some data)
    else ret none)

/-! ## Metadata -/

section

variable [PyObject O]

/-- A document that was fetched and has something in it. -/
def isGiven (doc : Option (Document O)) : Bool := doc.any fun d ↦ !d.items.isEmpty

/-- Empty values do not replace others. -/
def fill (merged : Document O) (p : String × Value O) : Document O :=
  if p.2.truthy = true ∨ merged.get? p.1 = none then merged.set p.1 p.2 else merged

def merge (rfc8414 oidc : Option (Document O)) : Document O :=
  (rfc8414.getD Dict.empty).items.foldl fill (oidc.getD Dict.empty)

def metadataOf (merged : Document O) : OAuthMetadata O where
  issuer := merged.getD "issuer" (.str "")
  authorizationEndpoint := merged.getD "authorization_endpoint" (.str "")
  tokenEndpoint := merged.getD "token_endpoint" (.str "")
  registrationEndpoint := merged.getD "registration_endpoint" (.str "")
  scopesSupported := merged.getD "scopes_supported" (.list [])
  responseTypesSupported := merged.getD "response_types_supported" (.list [])
  codeChallengeMethodsSupported := merged.getD "code_challenge_methods_supported" (.list [])
  raw := merged

/-- What has members: strings, lists, and dictionaries. -/
def isContainer : Value O → Bool
  | .str _ | .list _ | .dict _ => true
  | _ => false

/-- `supports_pkce` looks for `S256`, if that can be looked for. What it finds is only logged. -/
def supportsPkce (metadata : OAuthMetadata O) : Except ErrorClass Unit :=
  if isContainer metadata.codeChallengeMethodsSupported then .ok () else .error .typeError

def assemble (rfc8414 oidc : Option (Document O)) : Except ErrorClass (Option (OAuthMetadata O)) :=
  if isGiven rfc8414 || isGiven oidc then
    (supportsPkce (metadataOf (merge rfc8414 oidc))).map fun _ ↦
      some (metadataOf (merge rfc8414 oidc))
  else .ok none

def discoverOidc (authServer : Text) : Prog O (Option (OAuthMetadata O)) :=
  bind (lift (wellKnown w authServer "/.well-known/oauth-authorization-server".toList))
    fun rfc8414Url ↦
  bind (lift (wellKnown w authServer "/.well-known/openid-configuration".toList)) fun oidcUrl ↦
  bind (fetchDocument w .rfc8414 rfc8414Url) fun rfc8414 ↦
  bind (fetchDocument w .oidc oidcUrl) fun oidc ↦
  record (.documents authServer rfc8414 oidc) (assemble rfc8414 oidc)

/-! ## Discovery -/

/-- What the resource metadata says, or else the header. -/
def findAuthServer (mcpUrl : Text) : Prog O (Value O) :=
  bind (discoverResourceMetadata w mcpUrl) fun authServer ↦
  bind (record (.resource authServer) (.ok ())) fun _ ↦
    if authServer.truthy then ret authServer else probeWwwAuthenticate w mcpUrl

/-- What is no string has no parts. -/
def asUrl : Value O → Except ErrorClass Text
  | .str s => .ok s.toList
  | _ => .error .attributeError

/-- The authorization server, if one was found and is valid. -/
def authServerUrl (authServer : Value O) : Except ErrorClass (Option Text) :=
  if authServer.truthy = false then .ok none
  else
    (asUrl authServer).map fun url ↦
      match validateDiscoveryUrl w url with
      | .ok () => some url
      | .error _ => none

/-- Discovery, without the cache. -/
def discover (mcpUrl : Text) : Prog O (Option (OAuthMetadata O)) :=
  bind (findAuthServer w mcpUrl) fun authServer ↦
  bind (record (.found authServer) (authServerUrl w authServer)) fun
    | none => ret none
    | some url => discoverOidc w url

/-- What was discovered, and when. -/
structure Cached (O : Type) where
  metadata : OAuthMetadata O
  cachedAt : ℚ

/-- `_metadata_cache`. -/
abbrev Cache (O : Type) := Dict Text (Cached O)

/-- A call, with the time when it looks into the cache and the time when it is done. -/
structure Call where
  mcpUrl : Text
  started : ℚ
  finished : ℚ

/-- What is cached and has not expired. -/
def cachedMetadata (cache : Cache O) (call : Call) : Option (OAuthMetadata O) :=
  ((cache.get? call.mcpUrl).filter fun cached ↦
    decide (call.started - cached.cachedAt < 3600)).map Cached.metadata

def discoverOauthMetadata (cache : Cache O) (call : Call) : Prog O (Option (OAuthMetadata O)) :=
  bind (lift (validateDiscoveryUrl w call.mcpUrl)) fun _ ↦
    match cachedMetadata cache call with
    | some metadata => ret (some metadata)
    | none => discover w call.mcpUrl

/-- Only metadata are cached. -/
def store (cache : Cache O) (call : Call) :
    Except ErrorClass (Option (OAuthMetadata O)) → Cache O
  | .ok (some metadata) => cache.set call.mcpUrl ⟨metadata, call.finished⟩
  | .ok none => cache
  | .error _ => cache

/-- What the call does to the cache. An entry that has expired is removed first. -/
def nextCache (cache : Cache O) (call : Call) (r : Except ErrorClass (Option (OAuthMetadata O))) :
    Cache O :=
  match validateDiscoveryUrl w call.mcpUrl with
  | .error _ => cache
  | .ok () =>
    match cachedMetadata cache call with
    | some _ => cache
    | none => store (cache.del call.mcpUrl) call r

def serve (s : Cache O × List (Event O)) (call : Call) : Cache O × List (Event O) :=
  (nextCache w s.1 call (discoverOauthMetadata w s.1 call s.2).1,
    s.2 ++ (discoverOauthMetadata w s.1 call s.2).2)

def afterCalls (calls : List Call) : Cache O × List (Event O) :=
  calls.foldl (serve w) (Dict.empty, [])

end

end

/-! ## The parts of a URL that is valid -/

section

variable {O : Type} {w : World O}

theorem validateDiscoveryUrl_eq_ok_iff {url : Text} :
    validateDiscoveryUrl w url = .ok () ↔
      ∃ parsed, Url.split w.refuses [] url = some parsed ∧ Url.isWeb parsed.scheme = true ∧
        parsed.hostname ≠ [] := by
  rw [validateDiscoveryUrl, validateUrl]
  rcases Url.split w.refuses [] url with _ | parsed
  · simp
  · by_cases hweb : Url.isWeb parsed.scheme = true
    · simp [hweb]
    · simp [hweb]

def wellKnownPaths : List Text :=
  ["/.well-known/oauth-protected-resource".toList,
    "/.well-known/oauth-authorization-server".toList,
    "/.well-known/openid-configuration".toList]

/-- **A path on a server that is valid** can be asked for, and is on that server. -/
theorem exists_wellKnown {url path : Text} (hvalid : validateDiscoveryUrl w url = .ok ())
    (hpath : path ∈ wellKnownPaths) :
    ∃ joined parsed, wellKnown w url path = .ok joined ∧
      Url.split w.refuses [] url = some parsed ∧
      Url.split w.refuses [] joined = some ⟨parsed.scheme, parsed.netloc, path, [], []⟩ := by
  obtain ⟨parsed, hsplit, hweb, -⟩ := validateDiscoveryUrl_eq_ok_iff.mp hvalid
  have hrooted : wellKnownPaths.all Url.isRooted = true := by decide +kernel
  obtain ⟨joined, hjoin, hjoined⟩ :=
    Url.split_join_rooted hsplit hweb (List.all_eq_true.mp hrooted path hpath)
  refine ⟨joined, parsed, ?_, hsplit, hjoined⟩
  rw [wellKnown, hsplit, Option.bind_some, hjoin]

theorem exists_of_asUrl {v : Value O} {url : Text} (h : asUrl v = .ok url) :
    ∃ s : String, v = .str s ∧ s.toList = url := by
  rcases v with _ | b | n | s | l | d | o
  case str => exact ⟨s, rfl, Except.ok.inj h⟩
  all_goals exact absurd h (by simp [asUrl])

theorem hard_asUrl_iff {v : Value O} : Hard (fun _ ↦ false) (asUrl v) ↔ ∀ s, v ≠ .str s := by
  constructor
  · rintro h s rfl
    exact not_hard_ok h
  · intro h
    rcases v with _ | b | n | s | l | d | o
    case str => exact absurd rfl (h s)
    all_goals exact hard_error_iff.mpr rfl

/-! ## What is asked for -/

def Event.IsRequest (kind : Kind) (url : Text) (x : Event O) : Prop :=
  ∃ reply, x = .exchange kind url reply

/-- Both documents of the authorization server were asked for. -/
structure TriesDocuments (w : World O) (authServer : Text) (new : List (Event O)) : Prop where
  rfc8414 : ∃ url,
    wellKnown w authServer "/.well-known/oauth-authorization-server".toList = .ok url ∧
      ∃ x ∈ new, x.IsRequest .rfc8414 url
  oidc : ∃ url, wellKnown w authServer "/.well-known/openid-configuration".toList = .ok url ∧
    ∃ x ∈ new, x.IsRequest .oidc url

theorem TriesDocuments.append {authServer : Text} {new new' : List (Event O)}
    (h : TriesDocuments w authServer new') : TriesDocuments w authServer (new ++ new') := by
  obtain ⟨⟨url, hurl, x, hx, hrequest⟩, ⟨url', hurl', y, hy, hrequest'⟩⟩ := h
  exact ⟨⟨url, hurl, x, List.mem_append_right _ hx, hrequest⟩,
    ⟨url', hurl', y, List.mem_append_right _ hy, hrequest'⟩⟩

theorem adds_getFrom (kind : Kind) (left : ℕ) (url : Text) :
    Adds (Event.IsRequest kind url) (getFrom w kind left url) := by
  have hget : Adds (Event.IsRequest kind url) (get w kind url) := adds_ask fun r ↦ ⟨r, rfl⟩
  rcases left with _ | left
  · exact adds_bind hget
  · exact adds_bind hget

theorem adds_fetchDocument (kind : Kind) (url : Text) :
    Adds (Event.IsRequest kind url) (fetchDocument w kind url) :=
  adds_handle (adds_bind (adds_getFrom kind 2 url))

theorem adds_discoverResourceMetadata {mcpUrl url : Text}
    (hurl : wellKnown w mcpUrl "/.well-known/oauth-protected-resource".toList = .ok url) :
    Adds (Event.IsRequest .resource url) (discoverResourceMetadata w mcpUrl) := by
  rw [discoverResourceMetadata, hurl, bind_lift_ok]
  exact adds_handle (adds_bind (adds_getFrom .resource 2 url))

theorem cachedMetadata_eq_some {cache : Cache O} {call : Call} {metadata : OAuthMetadata O}
    (h : cachedMetadata cache call = some metadata) :
    ∃ cached, cache.get? call.mcpUrl = some cached ∧ cached.metadata = metadata := by
  obtain ⟨cached, hcached, hmetadata⟩ := Option.map_eq_some_iff.mp h
  exact ⟨cached, (Option.filter_eq_some_iff.mp hcached).1, hmetadata⟩

/-! ## What is merged -/

section

variable [PyObject O]

def valueIn (key : String) (doc : Option (Document O)) : Option (Value O) :=
  doc.bind fun d ↦ d.get? key

/-- What is not empty in the document of RFC 8414, and else what the other one has. -/
def prefer (key : String) (default : Value O) (rfc8414 oidc : Option (Document O)) : Value O :=
  match (valueIn key rfc8414).filter Value.truthy with
  | some v => v
  | none => (valueIn key oidc).getD ((valueIn key rfc8414).getD default)

theorem get?_fill_of_ne {merged : Document O} {p : String × Value O} {key : String}
    (h : key ≠ p.1) : (fill merged p).get? key = merged.get? key := by
  rw [fill]
  split
  · exact Dict.get?_set_of_ne _ _ h
  · rfl

theorem get?_fill_self (merged : Document O) (p : String × Value O) :
    (fill merged p).get? p.1 =
      if p.2.truthy = true then some p.2 else some ((merged.get? p.1).getD p.2) := by
  rw [fill]
  by_cases htruthy : p.2.truthy = true
  · rw [if_pos (Or.inl htruthy), if_pos htruthy, Dict.get?_set_self]
  · rw [if_neg htruthy]
    rcases hget : merged.get? p.1 with _ | v
    · rw [if_pos (Or.inr rfl), Dict.get?_set_self, Option.getD_none]
    · rw [if_neg (by simp [htruthy]), hget, Option.getD_some]

theorem get?_foldl_fill_of_notMem {l : List (String × Value O)} {key : String}
    (hkey : key ∉ l.map Prod.fst) (merged : Document O) :
    (l.foldl fill merged).get? key = merged.get? key := by
  induction l generalizing merged with
  | nil => rfl
  | cons p l ih =>
    rw [List.map_cons, List.mem_cons, not_or] at hkey
    rw [List.foldl_cons, ih hkey.2, get?_fill_of_ne hkey.1]

theorem get?_foldl_fill_of_mem {l : List (String × Value O)} (hl : (l.map Prod.fst).Nodup)
    {p : String × Value O} (hp : p ∈ l) (merged : Document O) :
    (l.foldl fill merged).get? p.1 =
      if p.2.truthy = true then some p.2 else some ((merged.get? p.1).getD p.2) := by
  induction l generalizing merged with
  | nil => exact absurd hp List.not_mem_nil
  | cons q l ih =>
    rw [List.map_cons, List.nodup_cons] at hl
    rw [List.foldl_cons]
    rcases List.mem_cons.mp hp with rfl | hp
    · rw [get?_foldl_fill_of_notMem hl.1, get?_fill_self]
    · have hne : p.1 ≠ q.1 := by
        intro heq
        exact hl.1 (heq ▸ List.mem_map_of_mem hp)
      rw [ih hl.2 hp, get?_fill_of_ne hne]

/-- **The document of RFC 8414 takes precedence**, where it is not empty. -/
theorem getD_merge (key : String) (default : Value O) (rfc8414 oidc : Option (Document O)) :
    (merge rfc8414 oidc).getD key default = prefer key default rfc8414 oidc := by
  have hoidc : (oidc.getD Dict.empty).get? key = valueIn key oidc := by
    rcases oidc with _ | d
    · rfl
    · rfl
  have hrfc : (rfc8414.getD Dict.empty).get? key = valueIn key rfc8414 := by
    rcases rfc8414 with _ | d
    · rfl
    · rfl
  rw [Dict.getD, merge, prefer]
  rcases hvalue : valueIn key rfc8414 with _ | v
  · have hkey : key ∉ (rfc8414.getD Dict.empty).items.map Prod.fst := by
      intro hmem
      obtain ⟨v, hv⟩ := Dict.mem_keys_iff.mp hmem
      rw [hrfc, hvalue] at hv
      exact absurd hv (by simp)
    rw [get?_foldl_fill_of_notMem hkey, hoidc]
    rfl
  · have hmem : (key, v) ∈ (rfc8414.getD Dict.empty).items :=
      Dict.mem_items_iff.mpr (hrfc.trans hvalue)
    rw [get?_foldl_fill_of_mem (rfc8414.getD Dict.empty).nodup_keys hmem, hoidc, Option.filter_some]
    by_cases htruthy : v.truthy = true
    · rw [if_pos htruthy, if_pos htruthy]
      rfl
    · rw [if_neg htruthy, if_neg htruthy]
      rfl

/-! ## What goes wrong -/

/-- What no step can cope with. -/
def Event.Bad (w : World O) : Event O → Prop
  | .exchange _ _ reply => Hard ErrorClass.isOSError reply
  | .redirect _ url location => Hard ErrorClass.isOSError (nextHop w url location)
  | .document _ body => Hard ErrorClass.isOSError (body.bind asDocument)
  | .found authServer => authServer.truthy = true ∧ ∀ s, authServer ≠ .str s
  | .documents _ rfc8414 oidc =>
    (isGiven rfc8414 = true ∨ isGiven oidc = true) ∧
      isContainer (prefer "code_challenge_methods_supported" (.list []) rfc8414 oidc) = false
  | .resource _ | .registration _ => False

instance : DecidablePred (Event.Bad w)
  | .exchange _ _ _ => inferInstanceAs (Decidable (Hard _ _))
  | .redirect _ _ _ => inferInstanceAs (Decidable (Hard _ _))
  | .document _ _ => inferInstanceAs (Decidable (Hard _ _))
  | .found authServer =>
    decidable_of_iff (authServer.truthy = true ∧
        (match authServer with | .str _ => false | _ => true) = true)
      (and_congr_right fun _ ↦ by cases authServer <;> simp)
  | .documents _ _ _ => inferInstanceAs (Decidable (_ ∧ _))
  | .resource _ => isFalse id
  | .registration _ => isFalse id

theorem blames_getFrom (kind : Kind) (left : ℕ) (url : Text) :
    Blames ErrorClass.isOSError (Event.Bad w) (getFrom w kind left url) := by
  have hhop : ∀ left url rest, (∀ resp target, Blames ErrorClass.isOSError (Event.Bad w)
      (rest resp target)) →
      Blames ErrorClass.isOSError (Event.Bad w) (hop w kind left url rest) := by
    intro left url rest hrest
    have hget : Blames ErrorClass.isOSError (Event.Bad w) (get w kind url) :=
      blames_ask fun r ↦ Iff.rfl
    apply blames_bind hget
    intro resp
    split
    · exact blames_bind (blames_record Iff.rfl) (hrest resp)
    · exact blames_ret
  induction left generalizing url with
  | zero => exact hhop 0 url _ fun _ _ ↦ blames_ret
  | succ left ih => exact hhop (left + 1) url _ fun _ target ↦ ih target

theorem blames_catchOSError {α : Type} {default : α} {m : Prog O α}
    (hm : Blames ErrorClass.isOSError (Event.Bad w) m) :
    Blames (fun _ ↦ false) (Event.Bad w) (catchOSError default m) := by
  refine blames_handle hm fun e ↦ ?_
  split
  · rename_i he
    rw [he, Option.isSome_some]
  · rename_i he
    rw [Bool.eq_false_iff.mpr he, Option.isSome_none]

theorem blames_readDocument (kind : Kind) (resp : Response O) :
    Blames ErrorClass.isOSError (Event.Bad w) (readDocument kind resp) :=
  blames_record Iff.rfl

theorem blames_fetchDocument (kind : Kind) (url : Text) :
    Blames (fun _ ↦ false) (Event.Bad w) (fetchDocument w kind url) := by
  apply blames_catchOSError
  apply blames_bind (blames_getFrom kind 2 url)
  intro resp
  split
  · exact blames_bind (blames_readDocument kind resp) fun _ ↦ blames_ret
  · exact blames_ret

theorem blames_probeWwwAuthenticate (mcpUrl : Text) :
    Blames (fun _ ↦ false) (Event.Bad w) (probeWwwAuthenticate w mcpUrl) := by
  apply blames_catchOSError
  apply blames_bind (blames_getFrom .probe 2 mcpUrl)
  intro resp
  split
  · exact blames_ret
  · exact blames_ret

theorem blames_discoverResourceMetadata {mcpUrl : Text}
    (hvalid : validateDiscoveryUrl w mcpUrl = .ok ()) :
    Blames (fun _ ↦ false) (Event.Bad w) (discoverResourceMetadata w mcpUrl) := by
  obtain ⟨joined, -, hjoined, -⟩ := exists_wellKnown hvalid
    (List.mem_cons_self : _ ∈ wellKnownPaths)
  rw [discoverResourceMetadata, hjoined, bind_lift_ok]
  apply blames_catchOSError
  apply blames_bind (blames_getFrom .resource 2 joined)
  intro resp
  split
  · exact blames_bind (blames_readDocument .resource resp) fun _ ↦ blames_ret
  · exact blames_ret

theorem hard_assemble_iff {authServer : Text} {rfc8414 oidc : Option (Document O)} :
    Hard (fun _ ↦ false) (assemble rfc8414 oidc) ↔
      Event.Bad w (.documents authServer rfc8414 oidc) := by
  rw [Event.Bad, ← getD_merge, assemble, supportsPkce, ← Bool.or_eq_true]
  change _ ↔ _ ∧ isContainer
    (metadataOf (merge rfc8414 oidc)).codeChallengeMethodsSupported = false
  by_cases hgiven : (isGiven rfc8414 || isGiven oidc) = true
  · rw [if_pos hgiven]
    by_cases hcontainer :
        isContainer (metadataOf (merge rfc8414 oidc)).codeChallengeMethodsSupported = true
    · rw [if_pos hcontainer]
      exact iff_of_false not_hard_ok (by simp [hcontainer])
    · rw [if_neg hcontainer]
      exact iff_of_true (hard_error_iff.mpr rfl) ⟨hgiven, Bool.eq_false_iff.mpr hcontainer⟩
  · rw [if_neg hgiven]
    exact iff_of_false not_hard_ok fun h ↦ hgiven h.1

theorem blames_discoverOidc {authServer : Text}
    (hvalid : validateDiscoveryUrl w authServer = .ok ()) :
    Blames (fun _ ↦ false) (Event.Bad w) (discoverOidc w authServer) := by
  obtain ⟨rfc8414Url, -, hrfc8414, -⟩ := exists_wellKnown hvalid
    (List.mem_cons_of_mem _ List.mem_cons_self : _ ∈ wellKnownPaths)
  obtain ⟨oidcUrl, -, hoidc, -⟩ := exists_wellKnown hvalid
    (List.mem_cons_of_mem _ (List.mem_cons_of_mem _ List.mem_cons_self) : _ ∈ wellKnownPaths)
  rw [discoverOidc, hrfc8414, bind_lift_ok, hoidc, bind_lift_ok]
  apply blames_bind (blames_fetchDocument .rfc8414 rfc8414Url)
  intro rfc8414
  apply blames_bind (blames_fetchDocument .oidc oidcUrl)
  intro oidc
  exact blames_record hard_assemble_iff

theorem hard_authServerUrl_iff {authServer : Value O} :
    Hard (fun _ ↦ false) (authServerUrl w authServer) ↔ Event.Bad w (.found authServer) := by
  rw [Event.Bad, authServerUrl, ← hard_asUrl_iff]
  by_cases htruthy : authServer.truthy = false
  · rw [if_pos htruthy]
    exact iff_of_false not_hard_ok (by simp [htruthy])
  · rw [if_neg htruthy]
    rcases asUrl authServer with e | url
    · exact iff_of_true (hard_error_iff.mpr rfl) ⟨by simpa using htruthy, hard_error_iff.mpr rfl⟩
    · exact iff_of_false not_hard_ok fun h ↦ not_hard_ok h.2

theorem validate_of_authServerUrl {authServer : Value O} {url : Text}
    (h : authServerUrl w authServer = .ok (some url)) : validateDiscoveryUrl w url = .ok () := by
  rw [authServerUrl] at h
  split at h
  · exact absurd h (by simp)
  · obtain ⟨url', -, hurl⟩ := map_eq_ok_iff.mp h
    split at hurl
    · rename_i hvalid
      exact Option.some.inj hurl ▸ hvalid
    · exact absurd hurl (by simp)

theorem blames_findAuthServer {mcpUrl : Text} (hvalid : validateDiscoveryUrl w mcpUrl = .ok ()) :
    Blames (fun _ ↦ false) (Event.Bad w) (findAuthServer w mcpUrl) := by
  apply blames_bind (blames_discoverResourceMetadata hvalid)
  intro authServer
  have hrecord : Blames (fun _ ↦ false) (Event.Bad w)
      (record (.resource authServer) (.ok ()) : Prog O Unit) :=
    blames_record (iff_of_false not_hard_ok not_false)
  apply blames_bind hrecord
  intro _
  split
  · exact blames_ret
  · exact blames_probeWwwAuthenticate mcpUrl

/-- **Discovery blames its events.** It raises exactly if one of them is bad. -/
theorem blames_discover {mcpUrl : Text} (hvalid : validateDiscoveryUrl w mcpUrl = .ok ()) :
    Blames (fun _ ↦ false) (Event.Bad w) (discover w mcpUrl) := by
  apply blames_bind (blames_findAuthServer hvalid)
  intro authServer
  apply blames_record_bind hard_authServerUrl_iff
  rintro (_ | url) hurl
  · exact blames_ret
  · exact blames_discoverOidc (validate_of_authServerUrl hurl)

/-! ## What is tried -/

/-- Each step was tried, unless the ones before it left nothing to be tried. -/
structure Tries (w : World O) (mcpUrl : Text) (new : List (Event O)) : Prop where
  resource : ∃ url, wellKnown w mcpUrl "/.well-known/oauth-protected-resource".toList = .ok url ∧
    ∃ x ∈ new, x.IsRequest .resource url
  probe : (∃ authServer, .resource authServer ∈ new ∧ authServer.truthy = true) ∨
    ∃ x ∈ new, x.IsRequest .probe mcpUrl
  documents : ∃ authServer, .found authServer ∈ new ∧
    (authServerUrl w authServer = .ok none ∨
      ∃ url, authServerUrl w authServer = .ok (some url) ∧ TriesDocuments w url new)

/-- The fields of the metadata, with their keys and what they are if neither document has them. -/
def fields : List (String × Value O × (OAuthMetadata O → Value O)) :=
  [("issuer", .str "", OAuthMetadata.issuer),
    ("authorization_endpoint", .str "", OAuthMetadata.authorizationEndpoint),
    ("token_endpoint", .str "", OAuthMetadata.tokenEndpoint),
    ("registration_endpoint", .str "", OAuthMetadata.registrationEndpoint),
    ("scopes_supported", .list [], OAuthMetadata.scopesSupported),
    ("response_types_supported", .list [], OAuthMetadata.responseTypesSupported),
    ("code_challenge_methods_supported", .list [], OAuthMetadata.codeChallengeMethodsSupported)]

/-- Every field is what the documents say, where that of RFC 8414 takes precedence. -/
def Follows (metadata : OAuthMetadata O) (rfc8414 oidc : Option (Document O)) : Prop :=
  ∀ field ∈ fields, field.2.2 metadata = prefer field.1 field.2.1 rfc8414 oidc

/-- The metadata are those of documents that were had. -/
def FollowsDocuments (metadata : OAuthMetadata O) (events : List (Event O)) : Prop :=
  ∃ authServer rfc8414 oidc,
    .documents authServer rfc8414 oidc ∈ events ∧ Follows metadata rfc8414 oidc

theorem follows_metadataOf (rfc8414 oidc : Option (Document O)) :
    Follows (metadataOf (merge rfc8414 oidc)) rfc8414 oidc := by
  simp [Follows, fields, metadataOf, getD_merge]

theorem follows_of_assemble {rfc8414 oidc : Option (Document O)} {metadata : OAuthMetadata O}
    (h : assemble rfc8414 oidc = .ok (some metadata)) : Follows metadata rfc8414 oidc := by
  rw [assemble] at h
  split at h
  · obtain ⟨-, -, hmetadata⟩ := map_eq_ok_iff.mp h
    exact Option.some.inj hmetadata ▸ follows_metadataOf rfc8414 oidc
  · exact absurd h (by simp)

theorem ensures_discoverOidc {authServer : Text}
    (hvalid : validateDiscoveryUrl w authServer = .ok ()) :
    Ensures (discoverOidc w authServer) fun r new ↦ ∀ found, r = .ok found →
      TriesDocuments w authServer new ∧
        ∀ metadata, found = some metadata → FollowsDocuments metadata new := by
  obtain ⟨rfc8414Url, -, hrfc8414, -⟩ := exists_wellKnown hvalid
    (List.mem_cons_of_mem _ List.mem_cons_self : _ ∈ wellKnownPaths)
  obtain ⟨oidcUrl, -, hoidc, -⟩ := exists_wellKnown hvalid
    (List.mem_cons_of_mem _ (List.mem_cons_of_mem _ List.mem_cons_self) : _ ∈ wellKnownPaths)
  rw [discoverOidc, hrfc8414, bind_lift_ok, hoidc, bind_lift_ok]
  refine ensures_bind (adds_fetchDocument .rfc8414 rfc8414Url) (fun rfc8414 new hnew ↦ ?_)
    fun e new _ found h ↦ absurd h (by simp)
  refine ensures_bind (adds_fetchDocument .oidc oidcUrl) (fun oidc new' hnew' ↦ ?_)
    fun e new _ found h ↦ absurd h (by simp)
  refine ensures_record fun found hfound ↦ ⟨⟨⟨_, hrfc8414, ?_⟩, ⟨_, hoidc, ?_⟩⟩, ?_⟩
  · obtain ⟨x, hx, hrequest⟩ := hnew
    exact ⟨x, List.mem_append_left _ hx, hrequest⟩
  · obtain ⟨x, hx, hrequest⟩ := hnew'
    exact ⟨x, List.mem_append_right _ (List.mem_append_left _ hx), hrequest⟩
  · rintro metadata rfl
    refine ⟨authServer, rfc8414, oidc, ?_, follows_of_assemble hfound⟩
    exact List.mem_append_right _ (List.mem_append_right _ (List.mem_singleton_self _))

/-- **The backend is probed** unless its metadata named an authorization server. -/
theorem ensures_findAuthServer {mcpUrl url : Text}
    (hurl : wellKnown w mcpUrl "/.well-known/oauth-protected-resource".toList = .ok url) :
    Ensures (findAuthServer w mcpUrl) fun r new ↦ ∀ v, r = .ok v →
      (∃ x ∈ new, x.IsRequest .resource url) ∧
        ((∃ authServer, .resource authServer ∈ new ∧ authServer.truthy = true) ∨
          ∃ x ∈ new, x.IsRequest .probe mcpUrl) := by
  refine ensures_bind (adds_discoverResourceMetadata hurl) (fun authServer new hnew ↦ ?_)
    fun e new _ v h ↦ absurd h (by simp)
  obtain ⟨x, hx, hrequest⟩ := hnew
  refine ensures_bind (Q := fun _ new' ↦ new' = [.resource authServer]) (ensures_record rfl)
    (fun _ new' hnew' ↦ ?_) fun e new _ v h ↦ absurd h (by simp)
  rw [hnew']
  split
  · rename_i htruthy
    refine ensures_ret fun v _ ↦ ⟨⟨x, List.mem_append_left _ hx, hrequest⟩, Or.inl ?_⟩
    exact ⟨authServer, List.mem_append_right _ List.mem_cons_self, htruthy⟩
  · have hprobe : Adds (Event.IsRequest .probe mcpUrl) (probeWwwAuthenticate w mcpUrl) :=
      adds_handle (adds_bind (adds_getFrom .probe 2 mcpUrl))
    refine hprobe.mono fun r new'' hnew'' v _ ↦ ⟨⟨x, List.mem_append_left _ hx, hrequest⟩, ?_⟩
    obtain ⟨y, hy, hrequest'⟩ := hnew''
    exact Or.inr ⟨y, List.mem_append_right _ (List.mem_append_right _ hy), hrequest'⟩

/-- **Every step is tried**, and the result follows the documents. -/
theorem ensures_discover {mcpUrl : Text} (hvalid : validateDiscoveryUrl w mcpUrl = .ok ()) :
    Ensures (discover w mcpUrl) fun r new ↦ ∀ found, r = .ok found →
      Tries w mcpUrl new ∧ ∀ metadata, found = some metadata → FollowsDocuments metadata new := by
  obtain ⟨url, -, hurl, -⟩ := exists_wellKnown hvalid (List.mem_cons_self : _ ∈ wellKnownPaths)
  refine ensures_bind (ensures_findAuthServer hurl) (fun authServer new hnew ↦ ?_)
    fun e new _ found h ↦ absurd h (by simp)
  obtain ⟨⟨x, hx, hrequest⟩, hprobe⟩ := hnew authServer rfl
  have hprobe' : ∀ new', (∃ v, .resource v ∈ new ++ new' ∧ v.truthy = true) ∨
      ∃ x ∈ new ++ new', x.IsRequest .probe mcpUrl := by
    intro new'
    rcases hprobe with ⟨v, hv, htruthy⟩ | ⟨y, hy, hrequest'⟩
    · exact Or.inl ⟨v, List.mem_append_left _ hv, htruthy⟩
    · exact Or.inr ⟨y, List.mem_append_left _ hy, hrequest'⟩
  have htries : ∀ new', (∃ v, .found v ∈ new ++ new' ∧ (authServerUrl w v = .ok none ∨
      ∃ url, authServerUrl w v = .ok (some url) ∧ TriesDocuments w url (new ++ new'))) →
      Tries w mcpUrl (new ++ new') := fun new' hdocuments ↦
    ⟨⟨url, hurl, x, List.mem_append_left _ hx, hrequest⟩, hprobe' new', hdocuments⟩
  refine ensures_bind (Q := fun r new' ↦ r = authServerUrl w authServer ∧
    new' = [.found authServer]) (ensures_record ⟨rfl, rfl⟩) (fun found new' hQ ↦ ?_)
    fun e new' _ found h ↦ absurd h (by simp)
  obtain ⟨hfound, rfl⟩ := hQ
  rcases found with _ | authServerUrl
  · refine ensures_ret fun found h ↦ ⟨?_, fun metadata hmetadata ↦ ?_⟩
    · apply htries
      exact ⟨authServer, List.mem_append_right _ List.mem_cons_self, Or.inl hfound.symm⟩
    · rw [← Except.ok.inj h] at hmetadata
      exact absurd hmetadata (by simp)
  · refine (ensures_discoverOidc (validate_of_authServerUrl hfound.symm)).mono
      fun r new'' hnew'' found h ↦ ?_
    obtain ⟨hdocuments, hfollows⟩ := hnew'' found h
    refine ⟨htries _ ?_, fun metadata hmetadata ↦ ?_⟩
    · refine ⟨authServer, List.mem_append_right _ List.mem_cons_self, Or.inr ?_⟩
      exact ⟨authServerUrl, hfound.symm, hdocuments.append.append⟩
    · obtain ⟨authServer', rfc8414, oidc, hmem, h⟩ := hfollows metadata hmetadata
      exact ⟨authServer', rfc8414, oidc,
        List.mem_append_right _ (List.mem_append_right _ hmem), h⟩

/-! ## Runs -/

/-- What a call should come to, with the cache and the events before it. -/
structure Soft (w : World O) (s : Cache O × List (Event O)) (call : Call)
    (r : Except ErrorClass (Option (OAuthMetadata O))) (new : List (Event O)) : Prop where
  returns : ∃ found, r = .ok found
  tries : cachedMetadata s.1 call = none → Tries w call.mcpUrl new
  follows : ∀ metadata, r = .ok (some metadata) →
    FollowsDocuments metadata (if (cachedMetadata s.1 call).isSome then s.2 else new)

def CacheFollows (s : Cache O × List (Event O)) : Prop :=
  ∀ url cached, s.1.get? url = some cached → FollowsDocuments cached.metadata s.2

theorem FollowsDocuments.mono {metadata : OAuthMetadata O} {events events' : List (Event O)}
    (h : FollowsDocuments metadata events) (hsub : events ⊆ events') :
    FollowsDocuments metadata events' := by
  obtain ⟨authServer, rfc8414, oidc, hmem, hfollows⟩ := h
  exact ⟨authServer, rfc8414, oidc, hsub hmem, hfollows⟩

theorem discoverOauthMetadata_eq {cache : Cache O} {call : Call}
    (hvalid : validateDiscoveryUrl w call.mcpUrl = .ok ()) :
    discoverOauthMetadata w cache call =
      match cachedMetadata cache call with
      | some metadata => ret (some metadata)
      | none => discover w call.mcpUrl := by
  rw [discoverOauthMetadata, hvalid, bind_lift_ok]

theorem cacheFollows_serve {s : Cache O × List (Event O)} (h : CacheFollows s) (call : Call) :
    CacheFollows (serve w s call) := by
  have hold : ∀ url cached, s.1.get? url = some cached →
      FollowsDocuments cached.metadata (serve w s call).2 := fun url cached hcached ↦
    (h url cached hcached).mono (List.subset_append_left _ _)
  intro url cached hcached
  rw [serve] at hcached
  dsimp only at hcached
  rw [nextCache] at hcached
  rcases hvalid : validateDiscoveryUrl w call.mcpUrl with e | ⟨⟩
  · rw [hvalid] at hcached
    exact hold url cached hcached
  rcases hcache : cachedMetadata s.1 call with _ | metadata
  · have hdel : (s.1.del call.mcpUrl).get? url = some cached →
        FollowsDocuments cached.metadata (serve w s call).2 := by
      intro hcached
      rw [Dict.get?_del] at hcached
      split at hcached
      · exact absurd hcached (by simp)
      · exact hold url cached hcached
    rw [hvalid, hcache] at hcached
    dsimp only at hcached
    rcases hresult : (discoverOauthMetadata w s.1 call s.2).1 with e | _ | metadata
    · rw [hresult] at hcached
      exact hdel hcached
    · rw [hresult] at hcached
      exact hdel hcached
    · rw [hresult, store, Dict.get?_set] at hcached
      split at hcached
      · rw [discoverOauthMetadata_eq hvalid, hcache] at hresult
        have hnew := (ensures_discover hvalid s.2 _ hresult).2 metadata rfl
        rw [serve, discoverOauthMetadata_eq hvalid, hcache, ← Option.some.inj hcached]
        exact hnew.mono (List.subset_append_right _ _)
      · exact hdel hcached
  · rw [hvalid, hcache] at hcached
    exact hold url cached hcached

/-- **Whatever is cached** follows documents of the past, after any calls. -/
theorem cacheFollows_afterCalls (w : World O) (calls : List Call) :
    CacheFollows (afterCalls w calls) := by
  have hrun : ∀ s : Cache O × List (Event O), CacheFollows s →
      CacheFollows (calls.foldl (serve w) s) := by
    induction calls with
    | nil => exact fun s h ↦ h
    | cons call calls ih => exact fun s h ↦ ih _ (cacheFollows_serve h call)
  exact hrun _ fun url cached h ↦ absurd h (by simp)

/-- **When discovery fails softly.** After any calls, a call for a valid URL does what it should
exactly if nothing comes up that no step can cope with. -/
theorem discoverOauthMetadata_soft_iff (w : World O) (calls : List Call) (call : Call)
    (hvalid : validateDiscoveryUrl w call.mcpUrl = .ok ()) :
    Soft w (afterCalls w calls) call
        (discoverOauthMetadata w (afterCalls w calls).1 call (afterCalls w calls).2).1
        (discoverOauthMetadata w (afterCalls w calls).1 call (afterCalls w calls).2).2 ↔
      ∀ x ∈ (discoverOauthMetadata w (afterCalls w calls).1 call (afterCalls w calls).2).2,
        ¬ x.Bad w := by
  have hinv := cacheFollows_afterCalls w calls
  rw [discoverOauthMetadata_eq hvalid]
  rcases hcached : cachedMetadata (afterCalls w calls).1 call with _ | metadata
  · have hblames := blames_discover hvalid (afterCalls w calls).2
    have hensures := ensures_discover hvalid (afterCalls w calls).2
    constructor
    · rintro ⟨⟨found, hfound⟩, -, -⟩ x hx hbad
      have hhard := hblames.mpr ⟨x, hx, hbad⟩
      exact not_hard_ok (hfound ▸ hhard)
    · intro hfine
      rcases hresult : (discover w call.mcpUrl (afterCalls w calls).2).1 with e | found
      · obtain ⟨x, hx, hbad⟩ := hblames.mp (hresult ▸ hard_error_iff.mpr rfl)
        exact absurd hbad (hfine x hx)
      · obtain ⟨htries, hfollows⟩ := hensures found hresult
        refine ⟨⟨found, rfl⟩, fun _ ↦ htries, fun metadata h ↦ ?_⟩
        rw [hcached, Option.isSome_none, if_neg Bool.false_ne_true]
        exact hfollows metadata (Except.ok.inj h)
  · refine iff_of_true ⟨⟨_, rfl⟩, fun h ↦ absurd (hcached.symm.trans h) (by simp), ?_⟩
      fun x hx ↦ absurd hx List.not_mem_nil
    intro metadata' h
    obtain ⟨cached, hget, hmetadata⟩ := cachedMetadata_eq_some hcached
    rw [hcached, Option.isSome_some, if_pos rfl, ← Option.some.inj (Except.ok.inj h),
      ← hmetadata]
    exact hinv _ _ hget

/-- Servers that are all down in the same way. -/
def down (e : ErrorClass) : World Empty where
  refuses _ := false
  answer _ _ _ := .error e

def callExample : Call := ⟨"https://example.com/mcp".toList, 0, 1⟩

/-- Servers that answer, with documents of an authorization server on another host. -/
def answering : World Empty where
  refuses _ := false
  answer _ kind _ :=
    match kind with
    | .resource => .ok ⟨200, [], [],
        .ok (.dict [("authorization_servers", .list [.str "https://auth.example.com"])])⟩
    | .probe => .ok ⟨401, [], [], .error .valueError⟩
    | .rfc8414 => .ok ⟨200, [], [], .ok (.dict [("issuer", .str "https://auth.example.com"),
        ("authorization_endpoint", .str "https://auth.example.com/authorize"),
        ("token_endpoint", .str "https://auth.example.com/token"),
        ("registration_endpoint", .str "https://auth.example.com/register")])⟩
    | .oidc => .ok ⟨404, [], [], .error .valueError⟩
    | .register => .ok ⟨201, [], [], .ok (.dict [("client_id", .str "argus")])⟩

/-- The discovery after some calls is as soft as it is meant to be. -/
def SoftAfter (calls : List Call) : Prop :=
  Soft answering (afterCalls answering calls) callExample
    (discoverOauthMetadata answering (afterCalls answering calls).1 callExample
      (afterCalls answering calls).2).1
    (discoverOauthMetadata answering (afterCalls answering calls).1 callExample
      (afterCalls answering calls).2).2

/-- A call that finds the documents, and one that finds them in the cache. -/
theorem discoverOauthMetadata_soft_iff_answering : SoftAfter [] ∧ SoftAfter [callExample] := by
  have hsoft := fun calls ↦
    (discoverOauthMetadata_soft_iff answering calls callExample (by decide +kernel)).mpr
  exact ⟨hsoft [] (by decide +kernel), hsoft [callExample] (by decide +kernel)⟩

/-- A connection that `httpx` cannot make is raised. -/
theorem not_forall_soft :
    ¬ ∀ (w : World Empty) (calls : List Call) (call : Call),
      validateDiscoveryUrl w call.mcpUrl = .ok () →
      Soft w (afterCalls w calls) call
        (discoverOauthMetadata w (afterCalls w calls).1 call (afterCalls w calls).2).1
        (discoverOauthMetadata w (afterCalls w calls).1 call (afterCalls w calls).2).2 := by
  intro h
  obtain ⟨found, hfound⟩ := (h (down .httpx) [] callExample (by decide +kernel)).returns
  have hraised : (discoverOauthMetadata (down .httpx) (afterCalls (down .httpx) []).1 callExample
      (afterCalls (down .httpx) []).2).1 = .error .httpx := rfl
  rw [hraised] at hfound
  exact absurd hfound (by simp)

end

end

end OAuthDiscovery

end ArgusMcp
