import ArgusMcp.Library.Run
import ArgusMcp.Plugins.Hooks
import Mathlib.Algebra.Order.Group.Int
import Mathlib.Data.List.DropRight

/-!
# The unified policy decision point

`UnifiedPDPPlugin` of `plugins/external/unified_pdp.py` asks several policy engines about a request,
combines their answers, and keeps the decision for a while. An engine is told the server, the
capability, the method and the phase. The decision is kept under a key that is put together from the
server, the capability and the phase with colons in between: the method is not in it, and two
requests whose names are split differently by the colons have the same key.

An engine that fails is counted with the default decision, in the same list as the answers of the
others, so that the first entry of the list need not be the answer of the first engine that
responded. A cancelled query has no entry at all.

## The condition

A request that is let through from the cache was let through for the same input (`stored`), and a
failed or a cancelled query has not turned the decision around (`NoneLost`). Where every request
meets this (`Sure`), what is let through was allowed by the engines (`sound_of_sure`).
-/

namespace ArgusMcp

namespace UnifiedPdp

open Hooks

variable {O T : Type}

/-! ## The engines -/

structure Engine where
  name : String
  url : String
  path : String
  apiKey : String
  enabled : Bool

structure Settings (O T : Type) where
  engines : List Engine
  combinationMode : String
  cacheTtl : T
  defaultDecision : Bool
  upper : String → String

/-- What an engine is asked about. -/
structure Input where
  capability : String
  method : McpMethod
  server : String
  phase : Hook
  deriving DecidableEq

/-- The request that is posted. -/
structure Query where
  endpoint : String
  authorization : Option String
  input : Input

/-- What comes back. -/
inductive Reply (O : Type) where
  /-- A JSON object. -/
  | answer (data : List (String × Value O))
  /-- An exception: no connection, a bad status, a body that is not a JSON object. -/
  | raises (error : String)
  | cancelled

structure Decision where
  engine : String
  allow : Bool
  error : Option String

/-- The dictionary that is returned for a decision. -/
def Decision.toValue (d : Decision) : Value O :=
  .dict ([("engine", .str d.engine), ("allow", .bool d.allow)] ++
    (d.error.map fun error ↦ ("error", .str error)).toList)

def Engine.query (engine : Engine) (input : Input) : Query where
  endpoint :=
    if engine.path = "" then engine.url
    else String.ofList (engine.url.toList.rdropWhile (· = '/')) ++ "/" ++
      String.ofList (engine.path.toList.dropWhile (· = '/'))
  authorization := if engine.apiKey = "" then none else some ("Bearer " ++ engine.apiKey)
  input := input

section

variable [PyObject O] (settings : Settings O T)

/-- The decision that is read from an answer. -/
def allowed (data : List (String × Value O)) : Bool :=
  match ((data.lookup "result").or (data.lookup "decision")).or (data.lookup "allow") with
  | some (.bool decision) => decision
  | some (.str decision) => settings.upper decision = "ALLOW"
  | some (.dict decision) =>
    match decision.lookup "allow" with
    | some allow => allow.truthy
    | none => settings.defaultDecision
  | _ => settings.defaultDecision

/-- The entry for an engine in `_query_engines`. -/
def decisionOf (engine : Engine) : Reply O → Option Decision
  | .answer data => some ⟨engine.name, allowed settings data, none⟩
  | .raises error => some ⟨engine.name, settings.defaultDecision, some error⟩
  | .cancelled => none

/-- `_engines`. -/
def Settings.enabledEngines (settings : Settings O T) : List Engine :=
  settings.engines.filter Engine.enabled

/-- What the engines reply. Each of them is asked, `ask` being told which. -/
def Settings.replies (settings : Settings O T) (ask : ℕ → Query → Reply O) (input : Input) :
    List (Engine × Reply O) :=
  settings.enabledEngines.zipIdx.map fun e ↦ (e.1, ask e.2 (e.1.query input))

def queryEngines (client : Bool) (ask : ℕ → Query → Reply O) (input : Input) : List Decision :=
  if client = false ∨ settings.enabledEngines = [] then []
  else (settings.replies ask input).filterMap fun e ↦ decisionOf settings e.1 e.2

omit [PyObject O] in
def combine (decisions : List Decision) : Bool :=
  if decisions = [] then settings.defaultDecision
  else
    let allows := decisions.map Decision.allow
    if settings.combinationMode = "all_must_allow" then allows.all id
    else if settings.combinationMode = "any_allow" then allows.any id
    else if settings.combinationMode = "first_match" then allows.headI
    else allows.all id

end

/-! ## The plugin -/

/-- What a hook reads and writes: whether there is a client, the decisions with the times at which
they were stored, the clock when a decision is looked up and when one is stored, and the engines. -/
structure World (O T : Type) where
  client : Bool
  cache : Dict String (T × Bool)
  lookAt : T
  storeAt : T
  ask : ℕ → Query → Reply O

/-- The key a decision is kept under. -/
def Input.cacheKey (input : Input) : String :=
  input.server ++ ":" ++ input.capability ++ ":" ++ input.phase.text

def inputOf (ctx : HookContext O) (phase : Hook) : Input :=
  ⟨ctx.capabilityName, ctx.mcpMethod, ctx.serverName, phase⟩

section

variable [AddCommGroup T] [LinearOrder T] [PyObject O] (settings : Settings O T)

/-- The decision in the cache, if it is not too old. -/
def World.cached (w : World O T) (key : String) : Option Bool :=
  ((w.cache.get? key).filter fun e ↦ w.lookAt - e.1 < settings.cacheTtl).map Prod.snd

/-- The metadata of a context with an entry of the plugin. -/
def note (ctx : HookContext O) (key : String) (v : Value O) : HookContext O :=
  { ctx with metadata := ctx.metadata.set key (.value v) }

def decide (phase : Hook) (ctx : HookContext O) (w : World O T) : HookReply O × World O T :=
  let input := inputOf ctx phase
  let key := "pdp_" ++ phase.text
  match w.cached settings input.cacheKey with
  | some true => (.context (note ctx key (.str "allow(cached)")), w)
  | some false =>
    (.raises ⟨.valueError,
      s!"Unified PDP denied (cached): {ctx.capabilityName} ({phase.text})"⟩, w)
  | none =>
    let decisions := queryEngines settings w.client w.ask input
    let allowed := combine settings decisions
    let w := { w with cache := w.cache.set input.cacheKey (w.storeAt, allowed) }
    if allowed then
      (.context (note (note ctx key (.str "allow")) (key ++ "_details")
        (.list (decisions.map Decision.toValue))), w)
    else
      let deniers :=
        String.intercalate ", " ((decisions.filter fun d ↦ !d.allow).map Decision.engine)
      (.raises ⟨.valueError, s!"Unified PDP denied: {ctx.capabilityName} ({phase.text}) " ++
        s!"— denied by: {deniers}"⟩, w)

omit [AddCommGroup T] [LinearOrder T] [PyObject O] in
/-- The request goes on. -/
def passes : HookReply O → Bool
  | .context _ => true
  | _ => false

def unifiedPdpPlugin (config : PluginConfig O) : Hooks.Plugin O (World O T) where
  config := config
  hook := fun phase ↦ some (decide settings phase)

end

/-! ## What is expected -/

section

variable [PyObject O] (settings : Settings O T)

/-- The decision of an engine that responded. -/
def responded : Reply O → Option Bool
  | .answer data => some (allowed settings data)
  | .raises _ => none
  | .cancelled => none

/-- What an engine is counted with: one that failed counts as the default decision. -/
def vote (reply : Reply O) : Bool := (responded settings reply).getD settings.defaultDecision

/-- What the replies of all engines come to. -/
def combined (replies : List (Reply O)) : Bool :=
  if replies = [] then settings.defaultDecision
  else if settings.combinationMode = "any_allow" then replies.any (vote settings)
  else if settings.combinationMode = "first_match" then
    ((replies.filterMap (responded settings)).head?).getD settings.defaultDecision
  else replies.all (vote settings)

omit [PyObject O] in
/-- The query has an entry in the list of decisions. -/
def Reply.present : Reply O → Bool
  | .cancelled => false
  | _ => true

omit [PyObject O] in
def Reply.failed : Reply O → Bool
  | .raises _ => true
  | _ => false

/-- No reply that fails turns the decision around. In `first_match` mode, a failed query does if it
comes first, the default is to allow, and the first engine that responded denies. Where all must
allow, a cancelled query does if the default is to deny, and the others, if there are any, allow. -/
def NoneLost (replies : List (Reply O)) : Prop :=
  if settings.combinationMode = "any_allow" then True
  else if settings.combinationMode = "first_match" then
    settings.defaultDecision = true → (replies.find? Reply.present).any Reply.failed = true →
      ((replies.filterMap (responded settings)).head?).getD true = true
  else settings.defaultDecision = true ∨ replies.all Reply.present = true ∨
    replies.all (fun reply ↦ !reply.present) = true ∨
      ∃ reply ∈ replies, reply.present = true ∧ vote settings reply = false

end

/-! ## What the replies come to -/

section

variable [PyObject O] (settings : Settings O T) {replies : List (Reply O)}

/-- What `_combine` makes of the replies: it reads the votes of those that are there. -/
def tally (replies : List (Reply O)) : Bool :=
  let votes := (replies.filter Reply.present).map (vote settings)
  if votes = [] then settings.defaultDecision
  else if settings.combinationMode = "any_allow" then votes.any id
  else if settings.combinationMode = "first_match" then votes.headI
  else votes.all id

theorem map_allow_filterMap (engines : List (Engine × Reply O)) :
    (engines.filterMap fun e ↦ decisionOf settings e.1 e.2).map Decision.allow =
      ((engines.map Prod.snd).filter Reply.present).map (vote settings) := by
  induction engines with
  | nil => rfl
  | cons e engines ih =>
    obtain ⟨engine, reply⟩ := e
    cases reply with
    | answer data => exact congrArg (allowed settings data :: ·) ih
    | raises error => exact congrArg (settings.defaultDecision :: ·) ih
    | cancelled => exact ih

theorem combine_eq (engines : List (Engine × Reply O)) :
    combine settings (engines.filterMap fun e ↦ decisionOf settings e.1 e.2) =
      tally settings (engines.map Prod.snd) := by
  have hallow := map_allow_filterMap settings engines
  rw [combine, hallow, tally]
  dsimp only
  by_cases hnil : engines.filterMap (fun e ↦ decisionOf settings e.1 e.2) = []
  · rw [if_pos hnil, ← hallow, hnil]
    rfl
  · have hvotes : ((engines.map Prod.snd).filter Reply.present).map (vote settings) ≠ [] := by
      rw [← hallow]
      exact fun h ↦ hnil (List.map_eq_nil_iff.mp h)
    rw [if_neg hnil, if_neg hvotes]
    by_cases hall : settings.combinationMode = "all_must_allow"
    · rw [if_pos hall, hall, if_neg (by decide), if_neg (by decide)]
    · rw [if_neg hall]

theorem vote_of_not_present {reply : Reply O} (h : reply.present = false) :
    vote settings reply = settings.defaultDecision := by
  cases reply with
  | answer data | raises error => exact absurd h.symm Bool.false_ne_true
  | cancelled => rfl

theorem tally_of_none_present (h : ∀ reply ∈ replies, reply.present = false) :
    tally settings replies = settings.defaultDecision := by
  have hfilter : replies.filter Reply.present = [] :=
    List.filter_eq_nil_iff.mpr fun reply hreply ↦ Bool.eq_false_iff.mp (h reply hreply)
  rw [tally, hfilter]
  rfl

/-- Where any may allow, what is not there does no harm. -/
theorem combined_of_tally_any (hmode : settings.combinationMode = "any_allow")
    (h : tally settings replies = true) : combined settings replies = true := by
  rw [combined, if_pos hmode]
  by_cases hnone : ∀ reply ∈ replies, reply.present = false
  · rw [tally_of_none_present settings hnone] at h
    by_cases hnil : replies = []
    · rw [if_pos hnil, h]
    · obtain ⟨reply, hreply⟩ := List.exists_mem_of_ne_nil replies hnil
      rw [if_neg hnil, List.any_eq_true]
      exact ⟨reply, hreply, (vote_of_not_present settings (hnone reply hreply)).trans h⟩
  · have hvotes : (replies.filter Reply.present).map (vote settings) ≠ [] := by
      intro hnil
      refine hnone fun reply hreply ↦ ?_
      exact Bool.eq_false_iff.mpr
        (List.filter_eq_nil_iff.mp (List.map_eq_nil_iff.mp hnil) reply hreply)
    rw [tally, if_neg hvotes, if_pos hmode, List.any_eq_true] at h
    obtain ⟨v, hv, rfl⟩ := h
    obtain ⟨reply, hreply, hvote⟩ := List.mem_map.mp hv
    have hmem := List.mem_of_mem_filter hreply
    rw [if_neg (List.ne_nil_of_mem hmem), List.any_eq_true]
    exact ⟨reply, hmem, hvote⟩

theorem filterMap_responded_filter (replies : List (Reply O)) :
    (replies.filter Reply.present).filterMap (responded settings) =
      replies.filterMap (responded settings) := by
  induction replies with
  | nil => rfl
  | cons reply replies ih =>
    cases reply with
    | answer data => exact congrArg (allowed settings data :: ·) ih
    | raises error => exact ih
    | cancelled => exact ih

/-- In `first_match` mode, the first reply that is there decides, and should decide if it is an
answer. -/
theorem noneLost_iff_first (hmode : settings.combinationMode = "first_match") :
    NoneLost settings replies ↔
      (tally settings replies = true → combined settings replies = true) := by
  have hany : settings.combinationMode ≠ "any_allow" := by
    rw [hmode]
    decide
  have hcombined : combined settings replies =
      ((replies.filterMap (responded settings)).head?).getD settings.defaultDecision := by
    rw [combined, if_neg hany, if_pos hmode]
    split
    · rename_i hnil
      rw [hnil]
      rfl
    · rfl
  rw [NoneLost, if_neg hany, if_pos hmode, hcombined, ← List.head?_filter, tally, if_neg hany,
    if_pos hmode, ← filterMap_responded_filter]
  have hpresent : ∀ reply ∈ replies.filter Reply.present, reply.present = true :=
    fun _ h ↦ List.of_mem_filter h
  revert hpresent
  cases replies.filter Reply.present with
  | nil =>
    intro _
    exact iff_of_true (fun _ h ↦ absurd h Bool.false_ne_true) id
  | cons reply rest =>
    intro hpresent
    rw [List.map_cons, if_neg (List.cons_ne_nil _ _)]
    cases reply with
    | answer data => exact iff_of_true (fun _ h ↦ absurd h Bool.false_ne_true) id
    | raises error =>
      cases hdefault : settings.defaultDecision with
      | false =>
        refine iff_of_true (fun h ↦ absurd h Bool.false_ne_true) fun h ↦ ?_
        exact absurd (hdefault.symm.trans h) Bool.false_ne_true
      | true =>
        constructor
        · exact fun h _ ↦ h rfl rfl
        · exact fun h _ _ ↦ h hdefault
    | cancelled => exact absurd (hpresent _ List.mem_cons_self) Bool.false_ne_true

/-- Where all must allow, those that are not there should have been asked as well. -/
theorem noneLost_iff_all (hany : settings.combinationMode ≠ "any_allow")
    (hfirst : settings.combinationMode ≠ "first_match") :
    NoneLost settings replies ↔
      (tally settings replies = true → combined settings replies = true) := by
  rw [NoneLost, if_neg hany, if_neg hfirst]
  by_cases hnone : ∀ reply ∈ replies, reply.present = false
  · have hall : replies.all (fun reply ↦ !reply.present) = true := by
      rw [List.all_eq_true]
      exact fun reply hreply ↦ (Bool.not_eq_true' _).mpr (hnone reply hreply)
    refine iff_of_true (Or.inr (Or.inr (Or.inl hall))) fun h ↦ ?_
    rw [tally_of_none_present settings hnone] at h
    rw [combined, if_neg hany, if_neg hfirst]
    split
    · exact h
    · rw [List.all_eq_true]
      exact fun reply hreply ↦ (vote_of_not_present settings (hnone reply hreply)).trans h
  · have hvotes : (replies.filter Reply.present).map (vote settings) ≠ [] := by
      intro hnil
      refine hnone fun reply hreply ↦ ?_
      exact Bool.eq_false_iff.mpr
        (List.filter_eq_nil_iff.mp (List.map_eq_nil_iff.mp hnil) reply hreply)
    have hnil : replies ≠ [] := by
      rintro rfl
      exact hnone fun _ h ↦ absurd h List.not_mem_nil
    have htally : tally settings replies = true ↔
        ∀ reply ∈ replies, reply.present = true → vote settings reply = true := by
      rw [tally, if_neg hvotes, if_neg hany, if_neg hfirst]
      simp only [List.all_eq_true, List.forall_mem_map, List.mem_filter, and_imp, id]
    have hcombined : combined settings replies = true ↔
        ∀ reply ∈ replies, vote settings reply = true := by
      rw [combined, if_neg hnil, if_neg hany, if_neg hfirst, List.all_eq_true]
    rw [htally, hcombined]
    constructor
    · rintro (hdefault | hthere | hnot | ⟨reply, hreply, hpresent, hdeny⟩) hallow reply' hreply'
      · cases hpresent : reply'.present with
        | true => exact hallow reply' hreply' hpresent
        | false => exact (vote_of_not_present settings hpresent).trans hdefault
      · exact hallow reply' hreply' (List.all_eq_true.mp hthere reply' hreply')
      · exact absurd (fun reply hreply ↦ (Bool.not_eq_true' _).mp
          (List.all_eq_true.mp hnot reply hreply)) hnone
      · exact absurd (hallow reply hreply hpresent) (Bool.eq_false_iff.mp hdeny)
    · intro h
      by_cases hdeny : ∃ reply ∈ replies, reply.present = true ∧ vote settings reply = false
      · exact Or.inr (Or.inr (Or.inr hdeny))
      -- they all allow, so the default does if one of them is not there
      have hvote := h fun reply hreply hpresent ↦ eq_true_of_ne_false fun hfalse ↦
        hdeny ⟨reply, hreply, hpresent, hfalse⟩
      by_cases hthere : replies.all Reply.present = true
      · exact Or.inr (Or.inl hthere)
      · rw [Bool.not_eq_true, List.all_eq_false] at hthere
        obtain ⟨reply, hreply, hpresent⟩ := hthere
        have hdefault := vote_of_not_present settings (Bool.eq_false_iff.mpr hpresent)
        exact Or.inl (hdefault.symm.trans (hvote reply hreply))

/-- **The condition is exact**: what the replies come to is let through only if it should be. -/
theorem noneLost_iff : NoneLost settings replies ↔
    (tally settings replies = true → combined settings replies = true) := by
  by_cases hany : settings.combinationMode = "any_allow"
  · rw [NoneLost, if_pos hany]
    exact iff_of_true trivial (combined_of_tally_any settings hany)
  by_cases hfirst : settings.combinationMode = "first_match"
  · exact noneLost_iff_first settings hfirst
  · exact noneLost_iff_all settings hany hfirst

end

/-! ## Runs -/

/-- A hook of the plugin is called. -/
structure Request (O T : Type) where
  phase : Hook
  ctx : HookContext O
  lookAt : T
  storeAt : T
  ask : ℕ → Query → Reply O

def Request.input (r : Request O T) : Input := inputOf r.ctx r.phase

/-- The plugin, and what has happened to it. -/
structure State (T : Type) where
  client : Bool
  cache : Dict String (T × Bool)
  now : T
  /-- For which input the decision under a key was stored. -/
  stored : String → Option Input
  /-- When the engines were asked about what, and what their replies came to. -/
  asked : List (T × Input × Bool)
  /-- When what was let through. -/
  passed : List (T × Input)

section

variable [AddCommGroup T] [LinearOrder T] [PyObject O] (settings : Settings O T)

/-- The plugin is loaded. There is a client if there are engines. -/
def State.init (now : T) : State T :=
  ⟨!settings.enabledEngines.isEmpty, .empty, now, fun _ ↦ none, [], []⟩

/-- What a hook is called with. -/
def State.world (s : State T) (r : Request O T) : World O T :=
  ⟨s.client, s.cache, r.lookAt, r.storeAt, r.ask⟩

/-- What is left after a request has been decided. -/
def State.after (s : State T) (r : Request O T) (reply : HookReply O) (w : World O T) : State T :=
  let asks := ((s.world r).cached settings r.input.cacheKey).isNone
  let time := if asks then r.storeAt else r.lookAt
  { client := w.client
    cache := w.cache
    now := r.storeAt
    stored := if asks then Function.update s.stored r.input.cacheKey (some r.input) else s.stored
    asked :=
      if asks then
        (time, r.input, combined settings ((settings.replies r.ask r.input).map Prod.snd)) ::
          s.asked
      else s.asked
    passed := if passes reply then (time, r.input) :: s.passed else s.passed }

/-- A request, where the clock does not go back. -/
def step (s : State T) (r : Request O T) : Option (State T) :=
  if s.now ≤ r.lookAt ∧ r.lookAt ≤ r.storeAt then
    let decided := decide settings r.phase r.ctx (s.world r)
    some (s.after settings r decided.1 decided.2)
  else none

omit [PyObject O] in
/-- What was let through was allowed by the engines, for the same input and not too long ago. -/
def Sound (s : State T) : Prop :=
  ∀ t input, (t, input) ∈ s.passed →
    ∃ t', (t', input, true) ∈ s.asked ∧ t' ≤ t ∧ (t' = t ∨ t - t' ≤ settings.cacheTtl)

/-- What is let through from the cache was stored for the same input, and no failure turns the
decision of the engines around. -/
def Sure (s : State T) (r : Request O T) : Prop :=
  match (s.world r).cached settings r.input.cacheKey with
  | some allow => allow = true → s.stored r.input.cacheKey = some r.input
  | none => NoneLost settings ((settings.replies r.ask r.input).map Prod.snd)

end

section

variable [AddCommGroup T] [LinearOrder T] [PyObject O] {settings : Settings O T} {s s' : State T}
  {r : Request O T}

theorem decide_of_cached {phase : Hook} {ctx : HookContext O} {w : World O T} {allow : Bool}
    (h : w.cached settings (inputOf ctx phase).cacheKey = some allow) :
    passes (decide settings phase ctx w).1 = allow ∧ (decide settings phase ctx w).2 = w := by
  rw [decide, h]
  cases allow with
  | true => exact ⟨rfl, rfl⟩
  | false => exact ⟨rfl, rfl⟩

theorem decide_of_not_cached {phase : Hook} {ctx : HookContext O} {w : World O T}
    (h : w.cached settings (inputOf ctx phase).cacheKey = none) :
    let allowed := combine settings (queryEngines settings w.client w.ask (inputOf ctx phase))
    passes (decide settings phase ctx w).1 = allowed ∧ (decide settings phase ctx w).2 =
      { w with cache := w.cache.set (inputOf ctx phase).cacheKey (w.storeAt, allowed) } := by
  rw [decide, h]
  dsimp only
  cases combine settings (queryEngines settings w.client w.ask (inputOf ctx phase)) with
  | true => exact ⟨rfl, rfl⟩
  | false => exact ⟨rfl, rfl⟩

theorem step_cases (h : step settings s r = some s') : s.now ≤ r.lookAt ∧ r.lookAt ≤ r.storeAt ∧
    ((∃ allow, (s.world r).cached settings r.input.cacheKey = some allow ∧
      s' = { s with
        now := r.storeAt
        passed := if allow then (r.lookAt, r.input) :: s.passed else s.passed }) ∨
    ((s.world r).cached settings r.input.cacheKey = none ∧ ∃ allowed,
      allowed = combine settings (queryEngines settings s.client r.ask r.input) ∧
      s' =
        { client := s.client
          cache := s.cache.set r.input.cacheKey (r.storeAt, allowed)
          now := r.storeAt
          stored := Function.update s.stored r.input.cacheKey (some r.input)
          asked := (r.storeAt, r.input,
            combined settings ((settings.replies r.ask r.input).map Prod.snd)) :: s.asked
          passed := if allowed then (r.storeAt, r.input) :: s.passed else s.passed })) := by
  obtain ⟨⟨hlook, hstore⟩, heq⟩ := Option.ite_none_right_eq_some.mp h
  refine ⟨hlook, hstore, ?_⟩
  have heq := Option.some.inj heq
  rcases hcached : (s.world r).cached settings r.input.cacheKey with _ | allow
  · obtain ⟨hpasses, hworld⟩ := decide_of_not_cached hcached
    rw [State.after, hcached, hpasses, hworld] at heq
    exact Or.inr ⟨rfl, _, rfl, heq.symm⟩
  · obtain ⟨hpasses, hworld⟩ := decide_of_cached hcached
    rw [State.after, hcached, hpasses, hworld] at heq
    exact Or.inl ⟨allow, rfl, heq.symm⟩

/-- What is in the cache was stored for an input about which the engines were asked then. -/
structure Inv (settings : Settings O T) (s : State T) : Prop where
  client : s.client = !settings.enabledEngines.isEmpty
  stored : ∀ key ts, s.cache.get? key = some (ts, true) →
    ∃ input, s.stored key = some input ∧ (ts, input, true) ∈ s.asked
  past : ∀ t input allow, (t, input, allow) ∈ s.asked → t ≤ s.now

omit [AddCommGroup T] [PyObject O] in
theorem inv_init (now : T) : Inv settings (State.init settings now) where
  client := rfl
  stored key ts h := absurd h (by rw [State.init, Dict.get?_empty]; simp)
  past t input allow h := absurd h List.not_mem_nil

omit [AddCommGroup T] in
theorem combine_queryEngines (h : Inv settings s) (ask : ℕ → Query → Reply O) (input : Input) :
    combine settings (queryEngines settings s.client ask input) =
      tally settings ((settings.replies ask input).map Prod.snd) := by
  rw [queryEngines]
  by_cases hnil : settings.enabledEngines = []
  · rw [if_pos (Or.inr hnil), Settings.replies, hnil]
    rfl
  · have hclient : s.client ≠ false := by
      rw [h.client, List.isEmpty_eq_false_iff.mpr hnil]
      decide
    rw [if_neg fun hor ↦ hor.elim hclient hnil, combine_eq]

omit [PyObject O] in
theorem exists_get?_of_cached {w : World O T} {key : String} {allow : Bool}
    (h : w.cached settings key = some allow) :
    ∃ ts, w.cache.get? key = some (ts, allow) ∧ w.lookAt - ts < settings.cacheTtl := by
  obtain ⟨⟨ts, allow'⟩, hfilter, rfl⟩ := Option.map_eq_some_iff.mp h
  obtain ⟨hget, hfresh⟩ := Option.filter_eq_some_iff.mp hfilter
  exact ⟨ts, hget, of_decide_eq_true hfresh⟩

theorem inv_step (h : Inv settings s ∧ Sound settings s) (hsure : Sure settings s r)
    (hstep : step settings s r = some s') : Inv settings s' ∧ Sound settings s' := by
  obtain ⟨hinv, hsound⟩ := h
  obtain ⟨hlook, hstore, ⟨allow, hcached, rfl⟩ | ⟨hcached, allowed, hallowed, rfl⟩⟩ :=
    step_cases hstep
  · rw [Sure, hcached] at hsure
    refine ⟨⟨hinv.client, hinv.stored, fun t input allow' hmem ↦ ?_⟩, fun t input hmem ↦ ?_⟩
    · exact (hinv.past t input allow' hmem).trans (hlook.trans hstore)
    cases allow with
    | false => exact hsound t input hmem
    | true =>
      rcases List.mem_cons.mp hmem with heq | hmem
      · obtain ⟨rfl, rfl⟩ := Prod.mk.inj heq
        obtain ⟨ts, hget, hfresh⟩ := exists_get?_of_cached hcached
        obtain ⟨input, hstored, hasked⟩ := hinv.stored _ ts hget
        obtain rfl := Option.some.inj (hstored.symm.trans (hsure rfl))
        exact ⟨ts, hasked, (hinv.past ts _ true hasked).trans hlook, Or.inr hfresh.le⟩
      · exact hsound t input hmem
  · rw [Sure, hcached] at hsure
    -- the new decision is what the replies come to, if it is to allow
    have hcombined : allowed = true →
        combined settings ((settings.replies r.ask r.input).map Prod.snd) = true := by
      intro hallow
      refine (noneLost_iff settings).mp hsure ?_
      rw [← combine_queryEngines hinv, ← hallowed, hallow]
    refine ⟨⟨hinv.client, fun key ts hget ↦ ?_, fun t input allow hmem ↦ ?_⟩,
      fun t input hmem ↦ ?_⟩
    · by_cases hkey : key = r.input.cacheKey
      · subst hkey
        rw [Dict.get?_set_self, Option.some.injEq, Prod.mk.injEq] at hget
        obtain ⟨rfl, hallow⟩ := hget
        refine ⟨r.input, Function.update_self .., ?_⟩
        rw [hcombined hallow]
        exact List.mem_cons_self
      · rw [Dict.get?_set_of_ne _ _ hkey] at hget
        obtain ⟨input, hstored, hasked⟩ := hinv.stored key ts hget
        exact ⟨input, (Function.update_of_ne hkey ..).trans hstored,
          List.mem_cons_of_mem _ hasked⟩
    · rcases List.mem_cons.mp hmem with heq | hmem
      · obtain ⟨rfl, -⟩ := Prod.mk.inj heq
        exact le_refl _
      · exact (hinv.past t input allow hmem).trans (hlook.trans hstore)
    · have hold : (t, input) ∈ s.passed → ∃ t', (t', input, true) ∈ (r.storeAt, r.input,
          combined settings ((settings.replies r.ask r.input).map Prod.snd)) :: s.asked ∧
          t' ≤ t ∧ (t' = t ∨ t - t' ≤ settings.cacheTtl) := by
        intro hpassed
        obtain ⟨t', hasked, hrest⟩ := hsound t input hpassed
        exact ⟨t', List.mem_cons_of_mem _ hasked, hrest⟩
      cases hallow : allowed with
      | false =>
        rw [hallow] at hmem
        exact hold hmem
      | true =>
        rw [hallow] at hmem
        rcases List.mem_cons.mp hmem with heq | hmem
        · obtain ⟨rfl, rfl⟩ := Prod.mk.inj heq
          refine ⟨r.storeAt, ?_, le_refl _, Or.inl rfl⟩
          rw [hcombined hallow]
          exact List.mem_cons_self
        · exact hold hmem

/-- **What is let through was allowed**, in every run of requests that are sure. -/
theorem sound_of_sure (settings : Settings O T) (now : T) (requests : List (Request O T))
    (hsure : Run.Guarded (step settings) (Sure settings) (State.init settings now) requests)
    {s : State T} (hrun : Run.run (step settings) (State.init settings now) requests = some s) :
    Sound settings s := by
  refine (Run.invariant_of_run (fun _ _ _ h hok hstep ↦ inv_step h hok hstep)
    ⟨inv_init now, ?_⟩ hsure hrun).2
  exact fun _ _ hmem ↦ absurd hmem List.not_mem_nil

end

/-! ## Two engines -/

/-- Two engines of which the first that responds decides, and the default is to allow. -/
private def firstMatch : Settings Empty ℤ where
  engines := [⟨"opa", "http://localhost:8181", "v1/data/argus/allow", "", true⟩,
    ⟨"cedar", "http://localhost:8180", "", "", true⟩]
  combinationMode := "first_match"
  cacheTtl := 60
  defaultDecision := true
  upper := String.map Char.toUpper

private def toolRequest (lookAt storeAt : ℤ) (ask : ℕ → Query → Reply Empty) :
    Request Empty ℤ where
  phase := .toolPreInvoke
  ctx := ⟨"delete_file", .callTool, [], "", .empty, .null⟩
  lookAt := lookAt
  storeAt := storeAt
  ask := ask

/-- The first engine cannot be reached, and the second one allows. -/
private def permitted : Request Empty ℤ :=
  toolRequest 0 1 fun i _ ↦
    if i = 0 then .raises "ConnectError" else .answer [("result", .bool true)]

/-- The decision is found in the cache. Later it is too old, and both engines deny. -/
private def answeredAgain : List (Request Empty ℤ) :=
  [permitted, toolRequest 30 30 fun _ _ ↦ .answer [],
    toolRequest 100 101 fun _ _ ↦ .answer [("result", .bool false)]]

theorem sound_of_sure_answeredAgain :
    ((Run.run (step firstMatch) (State.init firstMatch 0) answeredAgain).map
        fun s ↦ s.passed.map Prod.fst) = some [30, 1] ∧
      Sound firstMatch ((Run.run (step firstMatch) (State.init firstMatch 0) answeredAgain).getD
        (State.init firstMatch 0)) := by
  refine ⟨by decide, sound_of_sure firstMatch 0 answeredAgain ?_
    (Run.run_eq_some_getD rfl (State.init firstMatch 0))⟩
  refine (Run.guarded_cons rfl).mpr ⟨?_, (Run.guarded_cons rfl).mpr
    ⟨?_, Run.guarded_singleton.mpr ?_⟩⟩
  · exact fun _ _ ↦ rfl
  · exact fun _ ↦ rfl
  · exact fun _ h ↦ absurd h Bool.false_ne_true

/-- The first engine cannot be reached, and the second one denies. -/
private def denied : Request Empty ℤ :=
  toolRequest 0 1 fun i _ ↦
    if i = 0 then .raises "ConnectError" else .answer [("result", .bool false)]

/-- The request is let through. -/
theorem not_forall_sound : ¬ ∀ (settings : Settings Empty ℤ) (now : ℤ)
    (requests : List (Request Empty ℤ)) (s : State ℤ),
    Run.run (step settings) (State.init settings now) requests = some s → Sound settings s := by
  intro h
  have hsome : (Run.run (step firstMatch) (State.init firstMatch 0) [denied]).isSome := rfl
  have hsound := h firstMatch 0 [denied] _ (Run.run_eq_some_getD hsome (State.init firstMatch 0))
  have hdeny : combined firstMatch ((firstMatch.replies denied.ask denied.input).map Prod.snd) =
      false := by decide
  obtain ⟨t, hasked, -⟩ := hsound 1 denied.input List.mem_cons_self
  rcases List.mem_cons.mp hasked with heq | hasked
  · exact Bool.false_ne_true (((congrArg (fun e ↦ e.2.2) heq).trans hdeny).symm)
  · exact absurd hasked List.not_mem_nil

end UnifiedPdp

end ArgusMcp
