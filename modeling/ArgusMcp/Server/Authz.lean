import ArgusMcp.Bridge.Middleware

/-!
# Authorization

A policy is a role clause, a list of resource patterns and an effect; the first policy that matches
decides, and a default does when none does. The modules modelled are `server/authz/policies.py`,
`server/authz/engine.py`, `bridge/middleware/authz.py` and the lookup of `bridge/groups.py`.

Policies may speak about tools, servers and groups of servers. `AuthzMiddleware` stands before the
routing layer and asks the engine about one resource only, `tool:` and the name of the capability,
so that a policy that names the server or the group of a request is passed over. What becomes of
the request is then decided by the policies behind it, and `policyBinds_iff` says when that matters.
-/

namespace ArgusMcp

/-! ## Policies -/

inductive PolicyDecision where
  | allow
  | deny
  | noMatch
  deriving DecidableEq, Repr

/-- A single authorization policy rule. -/
structure AuthzPolicy where
  effect : String
  roles : List String
  resources : List String
  description : String
  deriving DecidableEq, Repr

/-- A rule as it stands in the document: every key may be absent. -/
structure PolicyData where
  effect : Option String
  roles : Option (List String)
  resources : Option (List String)
  description : Option String

def resourceMatches (pattern resource : String) : Bool :=
  pattern = "*" || Fnmatch.fnmatch resource pattern

namespace AuthzPolicy

def fromDict (data : PolicyData) : AuthzPolicy where
  effect := data.effect.getD "deny"
  roles := data.roles.getD ["*"]
  resources := data.resources.getD ["*"]
  description := data.description.getD ""

variable (policy : AuthzPolicy) (userRoles : List String)

def roleMatch : Bool :=
  decide ("*" ∈ policy.roles) || userRoles.any fun r ↦ decide (r ∈ policy.roles)

def resourceMatch (resource : String) : Bool :=
  decide ("*" ∈ policy.resources) || policy.resources.any fun pat ↦ resourceMatches pat resource

def «matches» (resource : String) : Bool :=
  policy.roleMatch userRoles && policy.resourceMatch resource

def decision : PolicyDecision := if policy.effect = "allow" then .allow else .deny

end AuthzPolicy

def loadPolicies (l : List PolicyData) : List AuthzPolicy := l.map AuthzPolicy.fromDict

/-! ## The engine -/

structure PolicyEngine where
  policies : List AuthzPolicy
  default : PolicyDecision

/-- Role-based authorization policy config. -/
structure AuthorizationConfig where
  enabled : Bool
  defaultEffect : String
  policies : List PolicyData

namespace PolicyEngine

/-- `PolicyEngine.__init__`. -/
def new (policies : List AuthzPolicy) (defaultEffect : String) : PolicyEngine where
  policies := policies
  default := if defaultEffect = "allow" then .allow else .deny

def fromConfig (config : AuthorizationConfig) : PolicyEngine :=
  new (loadPolicies config.policies) config.defaultEffect

/-- The decision of the first policy that matches. -/
def evaluate (engine : PolicyEngine) (userRoles : List String) (resource : String) :
    PolicyDecision :=
  match engine.policies.find? fun p ↦ p.matches userRoles resource with
  | some policy => policy.decision
  | none => engine.default

end PolicyEngine

/-! ## The middleware -/

section

variable {O : Type}

/-- The roles of the user of a request; without a user there are none. -/
def RequestContext.userRoles (ctx : RequestContext O) : List String :=
  (ctx.metadata.user.map UserIdentity.roles).getD []

/-- The identifier `AuthzMiddleware` builds for a request. -/
def toolResource (capabilityName : String) : String := "tool:" ++ capabilityName

/-- The exception that turns a request down; the list of roles is written with `repr`. -/
def accessDenied (repr : List String → String) (ctx : RequestContext O) : Exc :=
  ⟨.authorizationError, "Access denied for '" ++ ctx.capabilityName ++
    "' — insufficient permissions (roles: " ++ repr ctx.userRoles ++ ")"⟩

/-- Evaluates the policies and continues or denies. -/
def authzMiddleware (repr : List String → String) (engine : PolicyEngine) : MCPMiddleware O where
  name := "AuthzMiddleware"
  call := fun ctx next ↦
    if engine.evaluate ctx.userRoles (toolResource ctx.capabilityName) = .deny then
      .raise ctx (accessDenied repr ctx)
    else next ctx

/-- The middleware turns the request down, whatever stands behind it. -/
def Denied (repr : List String → String) (engine : PolicyEngine) (ctx : RequestContext O) : Prop :=
  ∀ next : MCPHandler O,
    (authzMiddleware repr engine).call ctx next = .raise ctx (accessDenied repr ctx)

theorem denied_iff {repr : List String → String} {engine : PolicyEngine}
    {ctx : RequestContext O} : Denied repr engine ctx ↔
      engine.evaluate ctx.userRoles (toolResource ctx.capabilityName) = .deny := by
  constructor
  · intro hdenied
    by_contra heval
    -- A handler that returns is not one that raises.
    have hcall := hdenied fun ctx ↦ ⟨ctx, [], [], .ok .null⟩
    rw [authzMiddleware] at hcall
    dsimp only at hcall
    rw [if_neg heval, Handled.raise, Handled.mk.injEq] at hcall
    exact absurd hcall.2.2.2 (by simp)
  · intro heval next
    rw [authzMiddleware]
    exact if_pos heval

end

/-! ## What policies may speak about -/

def groupOf (serverGroup : Dict String String) (serverName : String) : String :=
  serverGroup.getD serverName "default"

/-- The identifiers of a request: its server, the group of the server, and its tool. -/
def identifiers (serverGroup : Dict String String) (svrName capabilityName : String) :
    List String :=
  ["server:" ++ svrName, "group:" ++ groupOf serverGroup svrName, toolResource capabilityName]

/-- The policy applies to the user and names one of the identifiers, literally or by a pattern. -/
def AuthzPolicy.concerns (policy : AuthzPolicy) (userRoles ids : List String) : Bool :=
  policy.roleMatch userRoles &&
    ids.any fun id ↦ decide (id ∈ policy.resources) || policy.resourceMatch id

section Binding

variable {O : Type} (repr : List String → String) (engine : PolicyEngine)
  (serverGroup : Dict String String) (registry : RegistryState) (ctx : RequestContext O)

/-- Server and group policies bind: the first policy that concerns a routed request is obeyed when
it denies; and the decision is the same for every method. -/
structure PolicyBinds : Prop where
  obeyed : ∀ svrName origCapName,
    registry.resolveCapability ctx.capabilityName = some (svrName, origCapName) →
      ∀ policy, engine.policies.find? (fun p ↦ p.concerns ctx.userRoles
          (identifiers serverGroup svrName ctx.capabilityName)) = some policy →
        policy.effect = "deny" → Denied repr engine ctx
  methodFree : ∀ ctx' : RequestContext O, ctx'.capabilityName = ctx.capabilityName →
    ctx'.userRoles = ctx.userRoles → (Denied repr engine ctx' ↔ Denied repr engine ctx)

/-- When the first policy that concerns a routed request denies, it names the tool too, or nothing
behind it allows the tool: neither the first policy there that matches the tool, nor, if there is
none, the default. -/
def DenyHeard : Prop :=
  ∀ svrName origCapName,
    registry.resolveCapability ctx.capabilityName = some (svrName, origCapName) →
      ∀ pre policy post, engine.policies = pre ++ policy :: post →
        (∀ p ∈ pre, p.concerns ctx.userRoles
          (identifiers serverGroup svrName ctx.capabilityName) = false) →
        policy.concerns ctx.userRoles (identifiers serverGroup svrName ctx.capabilityName) = true →
        policy.effect = "deny" →
          policy.matches ctx.userRoles (toolResource ctx.capabilityName) = true ∨
            match post.find? fun p ↦ p.matches ctx.userRoles (toolResource ctx.capabilityName) with
            | some p => p.effect ≠ "allow"
            | none => engine.default = .deny

variable {engine serverGroup registry ctx}

theorem concerns_of_matches {policy : AuthzPolicy} {userRoles : List String}
    {svrName capabilityName : String}
    (h : policy.matches userRoles (toolResource capabilityName) = true) :
    policy.concerns userRoles (identifiers serverGroup svrName capabilityName) = true := by
  rw [AuthzPolicy.matches, Bool.and_eq_true] at h
  rw [AuthzPolicy.concerns, Bool.and_eq_true, List.any_eq_true]
  refine ⟨h.1, toolResource capabilityName, ?_, ?_⟩
  · simp [identifiers]
  · rw [h.2, Bool.or_true]

theorem matches_eq_false_of_concerns {policy : AuthzPolicy} {userRoles : List String}
    {svrName capabilityName : String}
    (h : policy.concerns userRoles (identifiers serverGroup svrName capabilityName) = false) :
    policy.matches userRoles (toolResource capabilityName) = false := by
  rw [← Bool.not_eq_true] at h ⊢
  exact fun hmatch ↦ h (concerns_of_matches hmatch)

theorem decision_eq_deny_iff {policy : AuthzPolicy} :
    policy.decision = .deny ↔ policy.effect ≠ "allow" := by
  rw [AuthzPolicy.decision]
  by_cases h : policy.effect = "allow"
  · simp [h]
  · simp [h]

/-- What the engine decides when nothing before a denying policy matches. -/
theorem evaluate_eq_deny_iff {userRoles : List String} {resource : String}
    {pre post : List AuthzPolicy} {policy : AuthzPolicy}
    (hsplit : engine.policies = pre ++ policy :: post)
    (hpre : ∀ p ∈ pre, p.matches userRoles resource = false) (hdeny : policy.effect = "deny") :
    engine.evaluate userRoles resource = .deny ↔
      policy.matches userRoles resource = true ∨
        match post.find? fun p ↦ p.matches userRoles resource with
        | some p => p.effect ≠ "allow"
        | none => engine.default = .deny := by
  have hnone : pre.find? (fun p ↦ p.matches userRoles resource) = none := by
    rw [List.find?_eq_none]
    intro p hp
    simp [hpre p hp]
  rw [PolicyEngine.evaluate, hsplit, List.find?_append, hnone, Option.none_or, List.find?_cons]
  by_cases hmatch : policy.matches userRoles resource = true
  · rw [hmatch]
    refine iff_of_true (decision_eq_deny_iff.mpr ?_) (.inl rfl)
    rw [hdeny]
    decide
  · rw [Bool.not_eq_true] at hmatch
    rw [hmatch, or_iff_right Bool.false_ne_true]
    dsimp only
    generalize post.find? (fun p ↦ p.matches userRoles resource) = found
    rcases found with _ | p
    · rfl
    · exact decision_eq_deny_iff

/-- **When server and group policies bind.** For every list of policies, every default, every
assignment of servers to groups, every route and every request. -/
theorem policyBinds_iff : PolicyBinds repr engine serverGroup registry ctx ↔
    DenyHeard engine serverGroup registry ctx := by
  constructor
  · intro hbinds svrName origCapName hroute pre policy post hsplit hpre hconcerns hdeny
    have hfind : engine.policies.find? (fun p ↦ p.concerns ctx.userRoles
        (identifiers serverGroup svrName ctx.capabilityName)) = some policy := by
      rw [List.find?_eq_some_iff_append]
      refine ⟨hconcerns, pre, post, hsplit, fun p hp ↦ ?_⟩
      simp [hpre p hp]
    have hpre' := fun p hp ↦ matches_eq_false_of_concerns (hpre p hp)
    rw [← evaluate_eq_deny_iff hsplit hpre' hdeny, ← denied_iff]
    exact hbinds.obeyed svrName origCapName hroute policy hfind hdeny
  · intro hheard
    refine ⟨fun svrName origCapName hroute policy hfind hdeny ↦ ?_,
      fun ctx' hname hroles ↦ ?_⟩
    · rw [List.find?_eq_some_iff_append] at hfind
      obtain ⟨hconcerns, pre, post, hsplit, hpre⟩ := hfind
      have hpre' : ∀ p ∈ pre, p.concerns ctx.userRoles
          (identifiers serverGroup svrName ctx.capabilityName) = false := fun p hp ↦ by
        simpa using hpre p hp
      rw [denied_iff, evaluate_eq_deny_iff hsplit
        (fun p hp ↦ matches_eq_false_of_concerns (hpre' p hp)) hdeny]
      exact hheard svrName origCapName hroute pre policy post hsplit hpre' hconcerns hdeny
    · rw [denied_iff, denied_iff, hname, hroles]

end Binding

def oneRoute (exposed svrName origCapName : String) : RegistryState :=
  { RegistryState.init with routeMap := Dict.empty.set exposed (svrName, origCapName) }

/-- A request for a capability, from nobody in particular. -/
def plainRequest (capabilityName : String) (mcpMethod : McpMethod) : RequestContext Empty where
  capabilityName := capabilityName
  mcpMethod := mcpMethod
  arguments := none
  requestId := "r"
  serverName := none
  originalName := none
  metadata := ⟨none, none, none, none, none⟩
  error := none

/-- Everything is allowed, except on one server. -/
def denyServer (svrName : String) : PolicyEngine :=
  .new [⟨"deny", ["*"], ["server:" ++ svrName], ""⟩] "allow"

/-- The text of a list of roles without special characters. -/
def reprRoles (roles : List String) : String :=
  "[" ++ ", ".intercalate (roles.map fun r ↦ "'" ++ r ++ "'") ++ "]"

/-- A server policy does not stop a request for a tool of that server. -/
theorem not_policyBinds_denyServer :
    ¬ PolicyBinds reprRoles (denyServer "files") Dict.empty (oneRoute "read" "files" "read")
      (plainRequest "read" .callTool) := by
  intro hbinds
  have hdenied := hbinds.obeyed "files" "read" rfl _ rfl rfl
  rw [denied_iff] at hdenied
  exact absurd hdenied (by decide)

end ArgusMcp
