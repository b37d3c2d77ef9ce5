import ArgusMcp.Bridge.OAuthDiscovery

/-!
# What discovery reaches

Discovery, with the registration of a client behind it (`bridge/auth_discovery.py`), sends requests
to URLs that servers choose: the location of a redirect, the authorization server, and the endpoint
for registration. Redirects are followed by hand so that none leads to a private host, but they are
validated with private addresses allowed, as is the authorization server. The endpoint for
registration is not validated at all.

So a request goes to a private host exactly if some server names one (`reaches_iff`).
-/

namespace ArgusMcp

open Dialogue

namespace OAuthDiscovery

variable {O : Type} {w : World O}

/-! ## Private URLs -/

/-- Requests to the URL go to the literal of a private address. -/
def isPrivateUrl (w : World O) (url : Text) : Bool :=
  (Url.split w.refuses [] url).any fun parsed ↦
    Url.isWeb parsed.scheme && isPrivateLiteral parsed.hostname

theorem isPrivateUrl_wellKnown {url path joined : Text}
    (hvalid : validateDiscoveryUrl w url = .ok ()) (hpath : path ∈ wellKnownPaths)
    (hjoined : wellKnown w url path = .ok joined) : isPrivateUrl w joined = isPrivateUrl w url := by
  obtain ⟨joined', parsed, hwellKnown, hsplit, hsplit'⟩ := exists_wellKnown hvalid hpath
  obtain rfl : joined' = joined := Except.ok.inj (hwellKnown.symm.trans hjoined)
  rw [isPrivateUrl, isPrivateUrl, hsplit, hsplit']
  rfl

/-! ## Registration -/

section

variable [PyObject O]

/-- `dynamic_register`, up to the reply, which is only read. What is no string cannot be asked. -/
def dynamicRegister (w : World O) (endpoint : Value O) : Prog O (Response O) :=
  match endpoint with
  | .str s => get w .register s.toList
  | _ => raise .typeError

/-- `try_auth_discovery`, up to the registration. The port for the callback may not be had. -/
def tryAuthDiscovery (w : World O) (cache : Cache O) (call : Call)
    (bindCallback : Except ErrorClass Text) : Prog O (Option (Response O)) :=
  bind (discoverOauthMetadata w cache call) fun
    | none => ret none
    | some metadata =>
      if metadata.authorizationEndpoint.truthy && metadata.tokenEndpoint.truthy then
        bind (lift bindCallback) fun _ ↦
          if metadata.registrationEndpoint.truthy then
            bind (record (.registration metadata.registrationEndpoint) (.ok ())) fun _ ↦
              bind (dynamicRegister w metadata.registrationEndpoint) fun resp ↦ ret (some resp)
          else ret none
      else ret none

/-! ## Who is asked -/

/-- A request goes to a private host. -/
def Event.Reaches (w : World O) : Event O → Prop
  | .exchange _ url _ => isPrivateUrl w url = true
  | _ => False

/-- A server names a private host to go to: in a redirect that is followed, as an authorization
server that is valid, or as an endpoint for registration. -/
def Event.Names (w : World O) : Event O → Prop
  | .redirect left url location =>
    left ≠ 0 ∧ ∃ target, nextHop w url location = .ok target ∧ isPrivateUrl w target = true
  | .found authServer =>
    ∃ url, authServerUrl w authServer = .ok (some url) ∧ isPrivateUrl w url = true
  | .registration endpoint => ∃ s : String, endpoint = .str s ∧ isPrivateUrl w s.toList = true
  | _ => False

instance (w : World O) : DecidablePred (Event.Names w)
  | .redirect left url location =>
    match htarget : nextHop w url location with
    | .ok target => decidable_of_iff (left ≠ 0 ∧ isPrivateUrl w target = true)
        (by simp [Event.Names, htarget])
    | .error _ => isFalse (by simp [Event.Names, htarget])
  | .found authServer =>
    match hurl : authServerUrl w authServer with
    | .ok (some url) => decidable_of_iff (isPrivateUrl w url = true) (by simp [Event.Names, hurl])
    | .ok none => isFalse (by simp [Event.Names, hurl])
    | .error _ => isFalse (by simp [Event.Names, hurl])
  | .registration endpoint =>
    decidable_of_iff ((match endpoint with | .str s => isPrivateUrl w s.toList | _ => false) = true)
      (by cases endpoint <;> simp [Event.Names])
  | .exchange _ _ _ => isFalse id
  | .document _ _ => isFalse id
  | .resource _ => isFalse id
  | .documents _ _ _ => isFalse id

theorem owes_get (kind : Kind) (url : Text) :
    Owes (Event.Names w) (Event.Reaches w) (isPrivateUrl w url = true) (get w kind url) :=
  owes_ask (fun _ ↦ not_false) fun _ ↦ Iff.rfl

theorem owes_getFrom (kind : Kind) (left : ℕ) (url : Text) :
    Owes (Event.Names w) (Event.Reaches w) (isPrivateUrl w url = true)
      (getFrom w kind left url) := by
  -- a redirect asks for the request to its target, which is the first thing the rest does
  have hhop : ∀ left url rest, (∀ resp target, Owes (Event.Names w) (Event.Reaches w)
      (left ≠ 0 ∧ isPrivateUrl w target = true) (rest resp target)) →
      Owes (Event.Names w) (Event.Reaches w) (isPrivateUrl w url = true)
        (hop w kind left url rest) := by
    intro left url rest hrest
    refine owes_bind (q := False) (owes_get kind url) (fun resp ↦ ?_) False.elim
    split
    · refine owes_record_bind not_false not_false (fun target htarget ↦ ?_) fun e he ↦ ?_
      · have hnames : Event.Names w (.redirect left url resp.location) ↔
            left ≠ 0 ∧ isPrivateUrl w target = true := by
          rw [Event.Names, htarget]
          simp
        rw [hnames]
        exact hrest resp target
      · rw [Event.Names, he]
        simp
    · exact owes_ret not_false
  induction left generalizing url with
  | zero => exact hhop 0 url _ fun _ _ ↦ owes_ret fun h ↦ h.1 rfl
  | succ left ih =>
    refine hhop (left + 1) url _ fun _ target ↦ ?_
    rw [show (left + 1 ≠ 0 ∧ isPrivateUrl w target = true) ↔ isPrivateUrl w target = true by simp]
    exact ih target

theorem owes_readDocument (kind : Kind) (resp : Response O) :
    Owes (Event.Names w) (Event.Reaches w) False (readDocument kind resp) :=
  ensures_record (by simp [Event.Reaches, Event.Names])

theorem owes_fetchDocument (kind : Kind) (url : Text) :
    Owes (Event.Names w) (Event.Reaches w) (isPrivateUrl w url = true)
      (fetchDocument w kind url) := by
  refine owes_handle (owes_bind (q := False) (owes_getFrom kind 2 url) (fun resp ↦ ?_)
    False.elim)
  split
  · exact owes_bind (owes_readDocument kind resp) (fun _ ↦ owes_ret not_false) id
  · exact owes_ret not_false

theorem owes_probeWwwAuthenticate (mcpUrl : Text) :
    Owes (Event.Names w) (Event.Reaches w) (isPrivateUrl w mcpUrl = true)
      (probeWwwAuthenticate w mcpUrl) := by
  refine owes_handle (owes_bind (q := False) (owes_getFrom .probe 2 mcpUrl) (fun resp ↦ ?_)
    False.elim)
  split
  · exact owes_ret not_false
  · exact owes_ret not_false

theorem owes_discoverResourceMetadata {mcpUrl : Text}
    (hvalid : validateDiscoveryUrl w mcpUrl = .ok ()) :
    Owes (Event.Names w) (Event.Reaches w) (isPrivateUrl w mcpUrl = true)
      (discoverResourceMetadata w mcpUrl) := by
  have hpath : _ ∈ wellKnownPaths := List.mem_cons_self
  obtain ⟨joined, -, hjoined, -⟩ := exists_wellKnown hvalid hpath
  rw [discoverResourceMetadata, hjoined, bind_lift_ok,
    ← isPrivateUrl_wellKnown hvalid hpath hjoined]
  refine owes_handle (owes_bind (q := False) (owes_getFrom .resource 2 joined) (fun resp ↦ ?_)
    False.elim)
  split
  · exact owes_bind (owes_readDocument .resource resp) (fun _ ↦ owes_ret not_false) id
  · exact owes_ret not_false

theorem owes_discoverOidc {authServer : Text}
    (hvalid : validateDiscoveryUrl w authServer = .ok ()) :
    Owes (Event.Names w) (Event.Reaches w) (isPrivateUrl w authServer = true)
      (discoverOidc w authServer) := by
  have hrfc8414Path : _ ∈ wellKnownPaths := List.mem_cons_of_mem _ List.mem_cons_self
  have hoidcPath : _ ∈ wellKnownPaths :=
    List.mem_cons_of_mem _ (List.mem_cons_of_mem _ List.mem_cons_self)
  obtain ⟨rfc8414Url, -, hrfc8414, -⟩ := exists_wellKnown hvalid hrfc8414Path
  obtain ⟨oidcUrl, -, hoidc, -⟩ := exists_wellKnown hvalid hoidcPath
  have hfirst := owes_fetchDocument (w := w) .rfc8414 rfc8414Url
  have hsecond := owes_fetchDocument (w := w) .oidc oidcUrl
  rw [isPrivateUrl_wellKnown hvalid hrfc8414Path hrfc8414] at hfirst
  rw [isPrivateUrl_wellKnown hvalid hoidcPath hoidc] at hsecond
  rw [discoverOidc, hrfc8414, bind_lift_ok, hoidc, bind_lift_ok]
  refine owes_bind hfirst (fun rfc8414 ↦ owes_bind hsecond (fun oidc ↦ ?_) False.elim) id
  exact ensures_record (by simp [Event.Reaches, Event.Names])

theorem owes_findAuthServer {mcpUrl : Text} (hvalid : validateDiscoveryUrl w mcpUrl = .ok ())
    (hpublic : isPrivateUrl w mcpUrl = false) :
    Owes (Event.Names w) (Event.Reaches w) False (findAuthServer w mcpUrl) := by
  have hresource := owes_discoverResourceMetadata hvalid
  have hprobe := owes_probeWwwAuthenticate (w := w) mcpUrl
  rw [hpublic, eq_false Bool.false_ne_true] at hresource hprobe
  refine owes_bind hresource (fun authServer ↦ ?_) id
  have hrecord : Owes (Event.Names w) (Event.Reaches w) False
      (record (.resource authServer) (.ok ()) : Prog O Unit) :=
    ensures_record (by simp [Event.Reaches, Event.Names])
  refine owes_bind hrecord (fun _ ↦ ?_) id
  split
  · exact owes_ret not_false
  · exact hprobe

theorem owes_discover {mcpUrl : Text} (hvalid : validateDiscoveryUrl w mcpUrl = .ok ())
    (hpublic : isPrivateUrl w mcpUrl = false) :
    Owes (Event.Names w) (Event.Reaches w) False (discover w mcpUrl) := by
  refine owes_bind (owes_findAuthServer hvalid hpublic) (fun authServer ↦ ?_) id
  refine owes_record_bind not_false not_false (fun found hfound ↦ ?_) fun e he ↦ ?_
  · rcases found with _ | url
    · refine owes_ret ?_
      rintro ⟨url, hurl, -⟩
      exact absurd (hfound.symm.trans hurl) (by simp)
    · have hnames : Event.Names w (.found authServer) ↔ isPrivateUrl w url = true := by
        rw [Event.Names, hfound]
        simp
      rw [hnames]
      exact owes_discoverOidc (validate_of_authServerUrl hfound)
  · rintro ⟨url, hurl, -⟩
    exact absurd (he.symm.trans hurl) (by simp)

theorem owes_discoverOauthMetadata {cache : Cache O} {call : Call}
    (hpublic : isPrivateUrl w call.mcpUrl = false) :
    Owes (Event.Names w) (Event.Reaches w) False (discoverOauthMetadata w cache call) := by
  rw [discoverOauthMetadata]
  rcases hvalid : validateDiscoveryUrl w call.mcpUrl with e | ⟨⟩
  · rw [bind_lift_error]
    exact owes_raise not_false
  · rw [bind_lift_ok]
    split
    · exact owes_ret not_false
    · exact owes_discover hvalid hpublic

theorem owes_register (endpoint : Value O) :
    Owes (Event.Names w) (Event.Reaches w) (Event.Names w (.registration endpoint))
      (dynamicRegister w endpoint) := by
  have hraise : (∀ s, endpoint ≠ .str s) → Owes (Event.Names w) (Event.Reaches w)
      (Event.Names w (.registration endpoint)) (raise .typeError : Prog O (Response O)) :=
    fun h ↦ owes_raise fun ⟨s, hs, _⟩ ↦ h s hs
  rcases endpoint with _ | b | n | s | l | d | o
  case str =>
    have hnames : Event.Names w (.registration (.str s)) ↔ isPrivateUrl w s.toList = true := by
      simp [Event.Names]
    rw [hnames]
    exact owes_get .register s.toList
  all_goals exact hraise fun s hs ↦ by cases hs

theorem owes_tryAuthDiscovery (cache : Cache O) {call : Call}
    (bindCallback : Except ErrorClass Text) (hpublic : isPrivateUrl w call.mcpUrl = false) :
    Owes (Event.Names w) (Event.Reaches w) False
      (tryAuthDiscovery w cache call bindCallback) := by
  refine owes_bind (owes_discoverOauthMetadata hpublic) (fun found ↦ ?_) id
  rcases found with _ | metadata
  · exact owes_ret not_false
  dsimp only
  split
  · refine owes_bind (owes_lift not_false) (fun _ ↦ ?_) id
    split
    · refine owes_record_bind not_false not_false (fun _ _ ↦ ?_) fun e he ↦ absurd he (by simp)
      exact owes_bind (owes_register _) (fun _ ↦ owes_ret not_false) False.elim
    · exact owes_ret not_false
  · exact owes_ret not_false

/-- **When discovery stays away from private hosts.** Whatever the servers answer, no request goes
to a private host exactly if no server names one. -/
theorem not_reaches_iff (w : World O) (cache : Cache O) (past : List (Event O)) (call : Call)
    (bindCallback : Except ErrorClass Text) (hpublic : isPrivateUrl w call.mcpUrl = false) :
    (∀ x ∈ (tryAuthDiscovery w cache call bindCallback past).2, ¬ x.Reaches w) ↔
      ∀ x ∈ (tryAuthDiscovery w cache call bindCallback past).2, ¬ x.Names w := by
  have howes : _ ↔ False ∨ _ :=
    owes_tryAuthDiscovery (w := w) cache bindCallback hpublic past
  rw [false_or] at howes
  constructor
  · intro h x hx hnames
    obtain ⟨y, hy, hreaches⟩ := howes.mpr ⟨x, hx, hnames⟩
    exact h y hy hreaches
  · intro h x hx hreaches
    obtain ⟨y, hy, hnames⟩ := howes.mp ⟨x, hx, hreaches⟩
    exact h y hy hnames

/-- Servers that name each other, down to the endpoint for registration. -/
theorem not_reaches_iff_answering :
    isPrivateUrl answering callExample.mcpUrl = false ∧
      ∀ x ∈ (tryAuthDiscovery answering Dict.empty callExample
          (.ok "http://127.0.0.1:9999/callback".toList) []).2, ¬ x.Reaches answering :=
  ⟨by decide +kernel, (not_reaches_iff answering Dict.empty [] callExample
    (.ok "http://127.0.0.1:9999/callback".toList) (by decide +kernel)).mpr (by decide +kernel)⟩

/-- Every request is redirected to the local host. -/
def redirecting : World Empty where
  refuses _ := false
  answer _ _ _ := .ok ⟨302, "http://127.0.0.1:8080/admin".toList, [], .error .valueError⟩

/-- A redirect leads to the local host. -/
theorem not_forall_not_reaches :
    ¬ ∀ (w : World Empty) (cache : Cache Empty) (past : List (Event Empty)) (call : Call)
      (bindCallback : Except ErrorClass Text), isPrivateUrl w call.mcpUrl = false →
      ∀ x ∈ (tryAuthDiscovery w cache call bindCallback past).2, ¬ x.Reaches w := by
  intro h
  have hpublic : isPrivateUrl redirecting callExample.mcpUrl = false := by decide +kernel
  have hnone := h redirecting Dict.empty [] callExample (.error .osError) hpublic
  have hsecond : (tryAuthDiscovery redirecting Dict.empty callExample (.error .osError) []).2[2]? =
      some (.exchange .resource "http://127.0.0.1:8080/admin".toList
        (redirecting.answer [] .resource [])) := rfl
  have hprivate : isPrivateUrl redirecting "http://127.0.0.1:8080/admin".toList = true := by
    decide +kernel
  exact hnone _ (List.mem_of_getElem? hsecond) hprivate

end

end OAuthDiscovery

end ArgusMcp
