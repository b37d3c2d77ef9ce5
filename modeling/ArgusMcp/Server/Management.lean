import ArgusMcp.Server.Auth
import Mathlib.Data.List.DropRight

/-!
# The gate of the management API

`BearerAuthMiddleware` stands before the routes of the management API and lets a request through
that presents the configured token, or whose path is public. The modules modelled are the
middleware of `server/management/auth.py` and the table of routes of `server/management/router.py`,
which `server/app.py` mounts under a fixed path. The middleware sees the whole path of a request.

## What is public

Two endpoints are meant to be public, but the middleware asks only how a path ends. The last part
of a path may be a name a user has chosen: a backend named `health` can be reconnected by anyone
(`isPublicPath_fill_iff`). The other way the gate can fail is that tokens are compared by a
function that refuses texts outside ASCII. `gated_iff` says that there is no third.
-/

namespace ArgusMcp

namespace Management

/-! ## The middleware -/

/-- The part of an ASGI scope the middleware and the router read. -/
structure ManagementScope where
  type : String
  method : String
  path : String
  headers : List (Bytes × Bytes)

/-- A JSON response with an error in its body. -/
structure ErrorResponse where
  statusCode : ℕ
  error : String
  message : String
  headers : List (String × String)
  deriving DecidableEq, Repr

def unauthorized (message : String) : ErrorResponse :=
  ⟨401, "unauthorized", message, [("WWW-Authenticate", "Bearer")]⟩

/-- What the middleware does with a request: it calls the app, answers itself, or raises. -/
inductive Passage where
  | app
  | answered (response : ErrorResponse)
  | raises (e : Exc)
  deriving DecidableEq, Repr

def publicPathSuffixes : List String := ["/health", "/ready"]

/-- `path.rstrip("/")`, character by character. -/
def rstripSlash (path : List Char) : List Char := path.rdropWhile (· = '/')

/-- The path ends in one of the suffixes when its trailing slashes are taken off. -/
def isPublicPath (path : String) : Bool :=
  publicPathSuffixes.any fun suffix ↦ suffix.toList.isSuffixOf (rstripSlash path.toList)

/-- The value of the first `authorization` header; empty if there is none. -/
def authHeader (scope : ManagementScope) : String :=
  match scope.headers.find? fun h ↦ decide (h.1 = asciiBytes "authorization") with
  | some (_, value) => latin1 value
  | none => ""

/-- What follows the scheme, if the header starts with it. -/
def providedToken (header : String) : Option String :=
  if "Bearer ".toList.isPrefixOf header.toList then some (String.ofList (header.toList.drop 7))
  else none

/-- `BearerAuthMiddleware.__call__`, for the token the middleware was given. -/
def bearerAuthMiddleware (token : Option String) (scope : ManagementScope) : Passage :=
  if scope.type ≠ "http" then .app
  else if isPublicPath scope.path then .app
  else match token with
    -- No token is configured: authentication is off.
    | none => .app
    | some token =>
      match providedToken (authHeader scope) with
      | none => .answered (unauthorized
          "Missing or malformed Authorization header. Expected: Bearer <token>")
      | some provided =>
        match compareDigest provided token with
        | .error e => .raises e
        | .ok true => .app
        | .ok false => .answered (unauthorized "Invalid bearer token.")

/-! ## The routes -/

/-- A part of a route's path. -/
inductive Segment where
  | text (s : String)
  | param (name : String)
  deriving DecidableEq, Repr

structure Route where
  path : List Segment
  method : String
  deriving DecidableEq, Repr

def managementApiPrefix : String := "/manage/v1"

def managementRoutes : List Route :=
  [⟨[.text "health"], "GET"⟩, ⟨[.text "ready"], "GET"⟩, ⟨[.text "status"], "GET"⟩,
    ⟨[.text "backends"], "GET"⟩, ⟨[.text "groups"], "GET"⟩, ⟨[.text "capabilities"], "GET"⟩,
    ⟨[.text "sessions"], "GET"⟩, ⟨[.text "events"], "GET"⟩,
    ⟨[.text "events", .text "stream"], "GET"⟩, ⟨[.text "batch"], "GET"⟩,
    ⟨[.text "reload"], "POST"⟩, ⟨[.text "reconnect", .param "name"], "POST"⟩,
    ⟨[.text "reauth", .param "name"], "POST"⟩, ⟨[.text "shutdown"], "POST"⟩,
    ⟨[.text "registry", .text "search"], "GET"⟩, ⟨[.text "skills"], "GET"⟩,
    ⟨[.text "skills", .param "name", .text "enable"], "POST"⟩,
    ⟨[.text "skills", .param "name", .text "disable"], "POST"⟩,
    ⟨[.text "tools", .text "call"], "POST"⟩, ⟨[.text "resources", .text "read"], "POST"⟩]

/-- The text of a segment when the parameters have values. -/
def Segment.fill (values : String → List Char) : Segment → List Char
  | .text s => s.toList
  | .param name => values name

/-- The path of a route when the parameters have values. -/
def Route.fill (values : String → List Char) (route : Route) : List Char :=
  managementApiPrefix.toList ++ route.path.flatMap fun seg ↦ '/' :: seg.fill values

def Segment.isParam : Segment → Bool
  | .text _ => false
  | .param _ => true

def Route.HasParam (route : Route) : Prop := ∃ seg ∈ route.path, seg.isParam = true

/-- The request is one for the route: a parameter stands for any text that is not empty and has no
slash in it. -/
def Route.Matches (route : Route) (scope : ManagementScope) : Prop :=
  scope.method = route.method ∧ ∃ values : String → List Char,
    (∀ name, values name ≠ [] ∧ '/' ∉ values name) ∧ scope.path.toList = route.fill values

/-! ## Public paths -/

theorem rtakeWhile_append_cons {pre last : List Char} (h : '/' ∉ last) :
    (pre ++ '/' :: last).rtakeWhile (· ≠ '/') = last := by
  have hlast : ∀ c ∈ last.reverse, decide (c ≠ '/') = true := by
    intro c hc
    rw [List.mem_reverse] at hc
    rw [decide_eq_true_iff]
    rintro rfl
    exact h hc
  rw [List.rtakeWhile, List.reverse_append, List.reverse_cons, List.append_assoc,
    List.takeWhile_append_of_pos hlast, List.singleton_append,
    List.takeWhile_cons_of_neg (by decide), List.append_nil, List.reverse_reverse]

/-- **Which paths are public**, among those that do not end in a slash: those whose last part is
one of two names, whatever stands before it. -/
theorem isPublicPath_append_iff {pre last : List Char} (hne : last ≠ []) (h : '/' ∉ last) :
    isPublicPath (String.ofList (pre ++ '/' :: last)) = true ↔
      last = "health".toList ∨ last = "ready".toList := by
  have hstrip : rstripSlash (pre ++ '/' :: last) = pre ++ '/' :: last := by
    rw [rstripSlash, List.rdropWhile_eq_self_iff]
    intro hnil hslash
    rw [List.getLast_append_of_ne_nil _ (List.cons_ne_nil _ _), List.getLast_cons hne,
      decide_eq_true_iff] at hslash
    exact h (hslash ▸ List.getLast_mem hne)
  -- Both the last part and what follows the slash of a suffix are what stands after the last slash.
  have hsuffix : ∀ s : List Char, '/' ∉ s →
      ('/' :: s <:+ pre ++ '/' :: last ↔ last = s) := by
    intro s hs
    constructor
    · rintro ⟨t, ht⟩
      rw [← @rtakeWhile_append_cons pre last h, ← ht, rtakeWhile_append_cons hs]
    · rintro rfl
      exact List.suffix_append _ _
  rw [isPublicPath, String.toList_ofList, hstrip, publicPathSuffixes]
  simp only [List.any_cons, List.any_nil, Bool.or_false, Bool.or_eq_true,
    List.isSuffixOf_iff_suffix]
  exact or_congr (hsuffix "health".toList (by decide)) (hsuffix "ready".toList (by decide))

/-- **Which routes are public**: those whose last segment is, or stands for, one of the two names.
Apart from the two endpoints these are `reconnect` and `reauth` for backends of these names. -/
theorem isPublicPath_fill_iff {values : String → List Char}
    (hvalues : ∀ name, values name ≠ [] ∧ '/' ∉ values name) {route : Route}
    (hroute : route ∈ managementRoutes) {init : List Segment} {seg : Segment}
    (hpath : route.path = init ++ [seg]) :
    isPublicPath (String.ofList (route.fill values)) = true ↔
      seg.fill values = "health".toList ∨ seg.fill values = "ready".toList := by
  have htexts : ∀ route ∈ managementRoutes, ∀ seg ∈ route.path,
      seg.isParam = true ∨ seg.fill (fun _ ↦ []) ≠ [] ∧ '/' ∉ seg.fill (fun _ ↦ []) := by decide
  have hseg : seg.fill values ≠ [] ∧ '/' ∉ seg.fill values := by
    rcases seg with s | name
    · refine (htexts route hroute (.text s) ?_).resolve_left Bool.false_ne_true
      rw [hpath]
      exact List.mem_append_right init List.mem_cons_self
    · exact hvalues name
  have hfill : route.fill values = (managementApiPrefix.toList
      ++ init.flatMap fun seg ↦ '/' :: seg.fill values) ++ '/' :: seg.fill values := by
    rw [Route.fill, hpath, List.flatMap_append, List.flatMap_singleton, List.append_assoc]
  rw [hfill]
  exact isPublicPath_append_iff hseg.1 hseg.2

/-- A backend with the name of an endpoint. -/
theorem isPublicPath_fill_iff_health :
    isPublicPath (String.ofList ((⟨[.text "reconnect", .param "name"], "POST"⟩ : Route).fill
        fun _ ↦ "health".toList)) = true ↔
      "health".toList = "health".toList ∨ "health".toList = "ready".toList :=
  @isPublicPath_fill_iff (fun _ ↦ "health".toList) (fun _ ↦ by decide)
    ⟨[.text "reconnect", .param "name"], "POST"⟩ (by decide) [.text "reconnect"] (.param "name") rfl

/-! ## The gate -/

/-- The two endpoints that are meant to be public. -/
def publicEndpoints : List String :=
  [managementApiPrefix ++ "/health", managementApiPrefix ++ "/ready"]

def Presents (token : String) (scope : ManagementScope) : Prop :=
  authHeader scope = "Bearer " ++ token

/-- The gate does what it is there for: without the token only the public endpoints are reached,
every other request is answered with 401, and nothing is raised; in particular no route with a
parameter is reached. -/
structure Gated (token : String) (scope : ManagementScope) : Prop where
  reached : bearerAuthMiddleware (some token) scope = .app →
    Presents token scope ∨ scope.path ∈ publicEndpoints
  refused : ¬ Presents token scope → scope.path ∉ publicEndpoints →
    ∃ message, bearerAuthMiddleware (some token) scope = .answered (unauthorized message)
  total : ∀ e, bearerAuthMiddleware (some token) scope ≠ .raises e
  routes : ∀ route ∈ managementRoutes, route.HasParam → route.Matches scope →
    bearerAuthMiddleware (some token) scope = .app → Presents token scope

/-- A path that is taken for public is one of the two endpoints, unless the token is presented;
and on any other path, a bearer token that is presented and the configured one are both ASCII. -/
structure PathAndTokenPlain (token : String) (scope : ManagementScope) : Prop where
  path : isPublicPath scope.path = true → Presents token scope ∨ scope.path ∈ publicEndpoints
  ascii : isPublicPath scope.path = false → ∀ provided,
    providedToken (authHeader scope) = some provided → (isAscii provided && isAscii token) = true

section

variable {token : String} {scope : ManagementScope}

theorem providedToken_eq_some_iff {header provided : String} :
    providedToken header = some provided ↔ header = "Bearer " ++ provided := by
  rw [providedToken]
  constructor
  · intro h
    split at h
    · rename_i hprefix
      rw [List.isPrefixOf_iff_prefix] at hprefix
      obtain ⟨t, ht⟩ := hprefix
      have hdrop : header.toList.drop 7 = t := by
        rw [← ht]
        rfl
      rw [hdrop, Option.some.injEq] at h
      rw [← String.toList_inj, ← ht, ← h, String.toList_append,
        @String.toList_ofList t]
    · exact absurd h (by simp)
  · rintro rfl
    have hlist : ("Bearer " ++ provided).toList = "Bearer ".toList ++ provided.toList :=
      String.toList_append
    rw [hlist, if_pos (List.isPrefixOf_iff_prefix.mpr (List.prefix_append _ _)),
      Option.some.injEq, ← String.toList_inj, String.toList_ofList]
    rfl

theorem bearerAuthMiddleware_public (hpublic : isPublicPath scope.path = true) :
    bearerAuthMiddleware (some token) scope = .app := by
  rw [bearerAuthMiddleware, if_pos hpublic, ite_self]

theorem bearerAuthMiddleware_private (hhttp : scope.type = "http")
    (hprivate : isPublicPath scope.path = false) :
    (providedToken (authHeader scope) = none ∧
      ∃ message, bearerAuthMiddleware (some token) scope = .answered (unauthorized message)) ∨
    ∃ provided, providedToken (authHeader scope) = some provided ∧
      ((isAscii provided && isAscii token) = false ∧
          (∃ e, bearerAuthMiddleware (some token) scope = .raises e) ∨
        (isAscii provided && isAscii token) = true ∧ provided = token ∧
          bearerAuthMiddleware (some token) scope = .app ∨
        (isAscii provided && isAscii token) = true ∧ provided ≠ token ∧
          ∃ message, bearerAuthMiddleware (some token) scope
            = .answered (unauthorized message)) := by
  rw [bearerAuthMiddleware, if_neg (not_not.mpr hhttp), hprivate, if_neg Bool.false_ne_true]
  rcases providedToken (authHeader scope) with _ | provided
  · exact .inl ⟨rfl, _, rfl⟩
  refine .inr ⟨provided, rfl, ?_⟩
  dsimp only
  -- The comparison raises unless both texts are ASCII.
  rw [compareDigest]
  rcases hascii : isAscii provided && isAscii token with _ | _
  · exact .inl ⟨rfl, _, rfl⟩
  · rw [if_pos rfl]
    by_cases heq : provided = token
    · exact .inr (.inl ⟨rfl, heq, by rw [decide_eq_true heq]⟩)
    · exact .inr (.inr ⟨rfl, heq, _, by rw [decide_eq_false heq]⟩)

theorem length_le_count_fill (values : String → List Char) (route : Route) :
    route.path.length + 2 ≤ (route.fill values).count '/' := by
  rw [Route.fill, List.count_append]
  have hroot : managementApiPrefix.toList.count '/' = 2 := by decide
  have hpath : ∀ segs : List Segment,
      segs.length ≤ (segs.flatMap fun seg ↦ '/' :: seg.fill values).count '/' := by
    intro segs
    induction segs with
    | nil => simp
    | cons seg segs ih =>
      rw [List.flatMap_cons, List.count_append, List.count_cons_self, List.length_cons]
      omega
  have := hpath route.path
  omega

theorem notMem_publicEndpoints {route : Route} (hroute : route ∈ managementRoutes)
    (hparam : route.HasParam) (hmatches : route.Matches scope) :
    scope.path ∉ publicEndpoints := by
  obtain ⟨-, values, -, hpath⟩ := hmatches
  -- Such a route has two segments at least, and with them more slashes than the endpoints.
  have hlong : ∀ route ∈ managementRoutes, (∃ seg ∈ route.path, seg.isParam = true) →
      2 ≤ route.path.length := by decide
  have := hlong route hroute hparam
  have hcount := length_le_count_fill values route
  rw [← hpath] at hcount
  intro hmem
  have hshort : ∀ path ∈ publicEndpoints, path.toList.count '/' = 3 := by decide
  have := hshort scope.path hmem
  omega

/-- When the app is called, everything depends on whether it may be. -/
theorem gated_iff_of_app (happ : bearerAuthMiddleware (some token) scope = .app) :
    Gated token scope ↔ Presents token scope ∨ scope.path ∈ publicEndpoints := by
  constructor
  · intro hgated
    exact hgated.reached happ
  · intro hmay
    refine ⟨fun _ ↦ hmay, fun hno hpath ↦ ?_, fun e ↦ by rw [happ]; simp, ?_⟩
    · exact absurd hmay (not_or.mpr ⟨hno, hpath⟩)
    · intro route hroute hparam hmatches _
      exact hmay.resolve_right (notMem_publicEndpoints hroute hparam hmatches)

theorem gated_of_answered {message : String}
    (hanswer : bearerAuthMiddleware (some token) scope = .answered (unauthorized message)) :
    Gated token scope := by
  have hnot : bearerAuthMiddleware (some token) scope ≠ .app := by
    rw [hanswer]
    simp
  refine ⟨fun h ↦ absurd h hnot, fun _ _ ↦ ⟨message, hanswer⟩, fun e ↦ ?_,
    fun _ _ _ _ h ↦ absurd h hnot⟩
  rw [hanswer]
  simp

/-- **When the gate does its work.** For every token that is configured and every HTTP request: if
the path is not taken for a public one by mistake, and if a comparison of tokens is one of ASCII
texts. -/
theorem gated_iff (hhttp : scope.type = "http") :
    Gated token scope ↔ PathAndTokenPlain token scope := by
  rcases hpublic : isPublicPath scope.path with _ | _
  · have hpath : isPublicPath scope.path = true →
        Presents token scope ∨ scope.path ∈ publicEndpoints :=
      fun h ↦ absurd (hpublic.symm.trans h) Bool.false_ne_true
    rcases @bearerAuthMiddleware_private token scope hhttp hpublic with
      ⟨hnone, message, hanswer⟩ | ⟨provided, hsome, hcompare⟩
    · refine iff_of_true (gated_of_answered hanswer) ⟨hpath, fun _ provided hsome ↦ ?_⟩
      exact absurd (hsome.symm.trans hnone) (by simp)
    · have hplain : PathAndTokenPlain token scope ↔
          (isAscii provided && isAscii token) = true := by
        refine ⟨fun h ↦ h.ascii hpublic provided hsome, fun h ↦ ⟨hpath, fun _ provided' h' ↦ ?_⟩⟩
        rw [hsome, Option.some.injEq] at h'
        exact h' ▸ h
      rw [hplain]
      rcases hcompare with ⟨hascii, e, he⟩ | ⟨hascii, rfl, happ⟩ | ⟨hascii, -, message, hanswer⟩
      · rw [hascii]
        exact iff_of_false (fun hgated ↦ hgated.total e he) Bool.false_ne_true
      · exact iff_of_true ((gated_iff_of_app happ).mpr
          (.inl (providedToken_eq_some_iff.mp hsome))) hascii
      · exact iff_of_true (gated_of_answered hanswer) hascii
  · rw [gated_iff_of_app (bearerAuthMiddleware_public hpublic)]
    refine ⟨fun hmay ↦ ⟨fun _ ↦ hmay, fun hprivate ↦ ?_⟩, fun hplain ↦ hplain.path hpublic⟩
    exact absurd (hprivate.symm.trans hpublic) Bool.false_ne_true

end

/-- A request without headers. -/
def bareRequest (method path : String) : ManagementScope := ⟨"http", method, path, []⟩

/-- A request with an `Authorization` header of the given bytes. -/
def bearingRequest (method path : String) (header : Bytes) : ManagementScope :=
  ⟨"http", method, path, [(asciiBytes "authorization", header)]⟩

theorem gated_shutdown :
    (bareRequest "POST" "/manage/v1/shutdown").type = "http" ∧
      Gated "0123456789abcdef" (bareRequest "POST" "/manage/v1/shutdown") := by
  have hnone : providedToken (authHeader (bareRequest "POST" "/manage/v1/shutdown")) = none := by
    decide
  refine ⟨rfl, (gated_iff rfl).mpr ⟨fun h ↦ absurd h (by decide), fun _ provided h ↦ ?_⟩⟩
  exact absurd (hnone.symm.trans h) (by simp)

/-- Anyone may reconnect the backend `health`; and a header with a byte outside ASCII makes the
middleware raise. -/
theorem not_gated_reconnect_health :
    ¬ Gated "0123456789abcdef" (bareRequest "POST" "/manage/v1/reconnect/health") ∧
      ¬ Gated "0123456789abcdef" (bearingRequest "GET" "/manage/v1/status"
        (asciiBytes "Bearer " ++ [233])) := by
  refine ⟨fun hgated ↦ ?_, fun hgated ↦ hgated.total _ rfl⟩
  have hpresents := hgated.routes ⟨[.text "reconnect", .param "name"], "POST"⟩ (by decide)
    ⟨.param "name", by decide, rfl⟩
    ⟨rfl, fun _ ↦ "health".toList, fun _ ↦ ⟨by simp, by simp⟩, by decide⟩ (by decide)
  rw [Presents] at hpresents
  exact absurd hpresents (by decide)

end Management

end ArgusMcp
