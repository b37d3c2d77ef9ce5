import ArgusMcp.Library.Run
import ArgusMcp.Runtime.Service

/-!
# The resources of backends

The client manager (`bridge/client_manager.py`) has for each backend an exit stack, on which the
transport and the subprocess are, a session, and an auth provider. A stack is made before the
connection is tried and is there also when that fails (`bridge/backend_connection.py`); a provider
is recorded even before; a session is recorded last. `disconnect_one` takes back all three.

The service (`runtime/service.py`) connects through `start_all`, `reload` and `reconnect_backend`.
The first belongs to `start`, which is let in as long as the service does not run; the others are
refused until it does, and a start that connects nobody leaves it in `ERROR`. Before a reload or a
reconnect makes a connection, and when a reload removes a backend, it disconnects the backend, but
only if it has a session.

## What is left behind

A stack is closed when another takes its place, so none is lost that way. But what a backend without
a session has, after a connection that failed, stays when the backend is removed; and `start_all`
takes back nothing at all. Resources are accounted for along a run exactly if neither meets with
something to be taken back (`alwaysAccounted_iff`).
-/

namespace ArgusMcp

namespace Resources

/-! ## The manager -/

/-- What the manager has, and the state of the service with the configuration in force. A stack is
named by its place among those that were ever made. -/
structure Manager (V : Type*) where
  state : ServiceState
  config : Dict String (Runtime.BackendConf V)
  sessions : Dict String Bool
  backendStacks : Dict String ℕ
  authProviders : Dict String Unit
  /-- How many stacks were ever made. -/
  created : ℕ
  /-- Ghost: the stacks that were closed. -/
  closed : List ℕ

/-- How `start_backend_svr` ends, and whether it has got an auth provider. -/
inductive Connect where
  /-- It fails before there is a stack. -/
  | early (provider : Bool)
  /-- It is cancelled while the stack from before is closed. -/
  | cutOff (provider : Bool)
  /-- It fails with the new stack in place. -/
  | failed (provider : Bool)
  | connected (provider : Bool)
  deriving DecidableEq, Repr

/-- How `reconnect_backend` ends. A cancellation during the connection is an end of the
connection. -/
inductive Reconnect where
  | ended (outcome : Connect)
  /-- The time is up while the stack from before is closed. -/
  | timedOutDisconnecting
  /-- The time is up during the discovery that follows a connection. -/
  | timedOutDiscovering (provider : Bool)
  deriving DecidableEq, Repr

/-- What a connection does to the stack of its backend: it leaves one in place, or none, or does not
come to it. -/
def Connect.stack? : Connect → Option Bool
  | early _ => none
  | cutOff _ => some false
  | failed _ => some true
  | connected _ => some true

/-- The calls. `start_all` belongs to a start: it calls `start_one` for backends of its
configuration, as often as it has to, and what comes after it may raise. -/
inductive Op (V : Type*) where
  | startAll (newConfig : Dict String (Runtime.BackendConf V)) (calls : List (String × Connect))
      (raises : Bool)
  | reload (newConfig : Dict String (Runtime.BackendConf V)) (outcome : String → Connect)
  | reconnectBackend (name : String) (outcome : Reconnect)

namespace Manager

variable {V : Type*}

def init : Manager V where
  state := .pending
  config := Dict.empty
  sessions := Dict.empty
  backendStacks := Dict.empty
  authProviders := Dict.empty
  created := 0
  closed := []

section Operations

variable (s : Manager V) (name : String)

/-- Takes the stack of a backend out and closes it. -/
def closeStack : Manager V :=
  { s with
    backendStacks := s.backendStacks.del name
    closed := s.closed ++ (s.backendStacks.get? name).toList }

def prepareBackendStack : Manager V :=
  let s := s.closeStack name
  { s with
    backendStacks := s.backendStacks.set name s.created
    created := s.created + 1 }

def recordProvider (provider : Bool) : Manager V :=
  if provider then { s with authProviders := s.authProviders.set name () } else s

/-- `start_backend_svr`. -/
def connect : Connect → Manager V
  | .early provider => s.recordProvider name provider
  | .cutOff provider => (s.recordProvider name provider).closeStack name
  | .failed provider => (s.recordProvider name provider).prepareBackendStack name
  | .connected provider =>
    let s := (s.recordProvider name provider).prepareBackendStack name
    { s with sessions := s.sessions.set name true }

def disconnectOne : Manager V :=
  let s := s.closeStack name
  { s with
    sessions := s.sessions.del name
    authProviders := s.authProviders.del name }

def disconnectBackend : Manager V :=
  if (s.sessions.get? name).isSome then s.disconnectOne name else s

/-- `reconnect_backend`. When the time is up, the backend is disconnected, once more if need be. -/
def reconnectBackend : Reconnect → Option (Manager V)
  | .ended outcome => some ((s.disconnectBackend name).connect name outcome)
  | .timedOutDisconnecting =>
    if (s.sessions.get? name).isSome then some (s.disconnectOne name) else none
  | .timedOutDiscovering provider =>
    some (((s.disconnectBackend name).connect name (.connected provider)).disconnectBackend name)

end Operations

section Steps

variable [DecidableEq V] (s : Manager V)

/-- The calls of `start_one`, as they end. -/
def startEach (s : Manager V) (calls : List (String × Connect)) : Manager V :=
  calls.foldl (fun s call ↦ s.connect call.1 call.2) s

/-- `start_all`, and how the start ends. -/
def startAll (newConfig : Dict String (Runtime.BackendConf V)) (calls : List (String × Connect))
    (raises : Bool) : Manager V :=
  let s' := s.startEach calls
  { s' with
    config := newConfig
    state := if raises ∨ s'.sessions.items = [] ∧ newConfig.items ≠ [] then .error else .running }

/-- A reload, when it has gone through the backends that were removed. -/
def reloadRemoved (newConfig : Dict String (Runtime.BackendConf V)) : Manager V :=
  (Runtime.computeDiff s.config newConfig).removed.foldl disconnectBackend s

/-- A reload, when it has also gone through those that have changed. -/
def reloadChanged (newConfig : Dict String (Runtime.BackendConf V)) (outcome : String → Connect) :
    Manager V :=
  (Runtime.computeDiff s.config newConfig).changed.foldl
    (fun s name ↦ (s.disconnectBackend name).connect name (outcome name))
    (s.reloadRemoved newConfig)

/-- `reload`, with what each connection comes to. -/
def reload (newConfig : Dict String (Runtime.BackendConf V)) (outcome : String → Connect) :
    Manager V :=
  let s' := (Runtime.computeDiff s.config newConfig).added.foldl
    (fun s name ↦ s.connect name (outcome name)) (s.reloadChanged newConfig outcome)
  { s' with config := newConfig }

def step : Op V → Option (Manager V)
  | .startAll newConfig calls raises =>
    if isValidTransition s.state .starting = false then some s
    else if ∀ call ∈ calls, call.1 ∈ newConfig.keys then some (s.startAll newConfig calls raises)
    else none
  | .reload newConfig outcome =>
    if s.state ≠ .running then some s else some (s.reload newConfig outcome)
  | .reconnectBackend name outcome =>
    if s.state ≠ .running then some s
    else if name ∈ s.config.keys then s.reconnectBackend name outcome
    else some s

end Steps

/-! ## What is accounted for -/

section Property

variable (s : Manager V)

/-- The backend has a session, a stack or an auth provider. -/
def Holds (name : String) : Prop :=
  (s.sessions.get? name).isSome ∨ (s.backendStacks.get? name).isSome ∨
    (s.authProviders.get? name).isSome

/-- **Resources are accounted for.** -/
structure Accounted : Prop where
  stacked : ∀ name, (s.sessions.get? name).isSome → (s.backendStacks.get? name).isSome
  closed : ∀ i < s.created, i ∈ s.closed ∨ ∃ name, s.backendStacks.get? name = some i
  configured : ∀ name, s.Holds name → name ∈ s.config.keys

/-- Resources are accounted for in every state of a run. -/
def AlwaysAccounted [DecidableEq V] (ops : List (Op V)) : Prop :=
  ∀ pre (s : Manager V), pre <+: ops → Run.run step init pre = some s → s.Accounted

/-- What the calls for a backend leave of its stack. The last that comes to it counts. -/
def lastStack (name : String) (calls : List (String × Connect)) : Option Bool :=
  (calls.filterMap fun call ↦ if call.1 = name then call.2.stack? else none).getLast?

/-- **What leaves nothing behind.** `start_all` finds only backends of its configuration, and leaves
none that has a session with a call cut off while it closed the stack from before; and what a reload
removes has a session, or nothing. -/
def Tidy (s : Manager V) : Op V → Prop
  | .startAll newConfig calls _ => isValidTransition s.state .starting = true →
      (∀ call ∈ calls, call.1 ∈ newConfig.keys) →
        (∀ name, s.Holds name → name ∈ newConfig.keys) ∧
          ∀ name, (s.sessions.get? name).isSome ∨ (∃ provider, (name, .connected provider) ∈ calls) →
            lastStack name calls ≠ some false
  | .reload newConfig _ => s.state = .running → ∀ name ∈ s.config.keys, name ∉ newConfig.keys →
      s.sessions.get? name = none → ¬ s.Holds name
  | .reconnectBackend _ _ => True

end Property

/-! ## One backend at a time -/

section Local

variable {s s' s'' : Manager V} {k name : String}

/-- What the backend has is what it had. -/
structure SameAt (k : String) (s s' : Manager V) : Prop where
  sessions : s'.sessions.get? k = s.sessions.get? k
  backendStacks : s'.backendStacks.get? k = s.backendStacks.get? k
  authProviders : s'.authProviders.get? k = s.authProviders.get? k

theorem SameAt.refl (k : String) (s : Manager V) : SameAt k s s := ⟨rfl, rfl, rfl⟩

theorem SameAt.trans (h : SameAt k s s') (h' : SameAt k s' s'') : SameAt k s s'' :=
  ⟨h'.sessions.trans h.sessions, h'.backendStacks.trans h.backendStacks,
    h'.authProviders.trans h.authProviders⟩

theorem SameAt.holds_iff (h : SameAt k s s') : s'.Holds k ↔ s.Holds k := by
  rw [Holds, Holds, h.sessions, h.backendStacks, h.authProviders]

theorem sameAt_closeStack (hne : k ≠ name) : SameAt k s (s.closeStack name) where
  sessions := rfl
  backendStacks := by rw [closeStack, Dict.get?_del, if_neg hne]
  authProviders := rfl

theorem sameAt_prepareBackendStack (hne : k ≠ name) :
    SameAt k s (s.prepareBackendStack name) where
  sessions := rfl
  backendStacks := by
    rw [prepareBackendStack, Dict.get?_set_of_ne _ _ hne]
    exact (sameAt_closeStack hne).backendStacks
  authProviders := rfl

theorem sameAt_recordProvider (hne : k ≠ name) (provider : Bool) :
    SameAt k s (s.recordProvider name provider) := by
  rw [recordProvider]
  split
  · exact ⟨rfl, rfl, Dict.get?_set_of_ne _ _ hne⟩
  · exact .refl k s

theorem sameAt_connect (hne : k ≠ name) (outcome : Connect) :
    SameAt k s (s.connect name outcome) := by
  rcases outcome with provider | provider | provider | provider
  · exact sameAt_recordProvider hne provider
  · exact (sameAt_recordProvider hne provider).trans (sameAt_closeStack hne)
  · exact (sameAt_recordProvider hne provider).trans (sameAt_prepareBackendStack hne)
  · refine ((sameAt_recordProvider hne provider).trans (sameAt_prepareBackendStack hne)).trans ?_
    exact ⟨Dict.get?_set_of_ne _ _ hne, rfl, rfl⟩

theorem sameAt_disconnectOne (hne : k ≠ name) : SameAt k s (s.disconnectOne name) where
  sessions := by
    rw [disconnectOne, Dict.get?_del, if_neg hne]
    rfl
  backendStacks := (sameAt_closeStack hne).backendStacks
  authProviders := by
    rw [disconnectOne, Dict.get?_del, if_neg hne]
    rfl

theorem sameAt_disconnectBackend (hne : k ≠ name) : SameAt k s (s.disconnectBackend name) := by
  rw [disconnectBackend]
  split
  · exact sameAt_disconnectOne hne
  · exact .refl k s

theorem disconnectBackend_of_none (h : s.sessions.get? name = none) :
    s.disconnectBackend name = s := by
  rw [disconnectBackend, h]
  rfl

theorem not_holds_disconnectOne (s : Manager V) (name : String) :
    ¬ (s.disconnectOne name).Holds name := by
  rw [Holds, disconnectOne, closeStack]
  simp [Dict.get?_del]

theorem sessions_disconnectBackend (s : Manager V) (name : String) :
    (s.disconnectBackend name).sessions.get? name = none := by
  rcases hsession : s.sessions.get? name with _ | session
  · rw [disconnectBackend_of_none hsession, hsession]
  · rw [disconnectBackend, hsession, Option.isSome_some, if_pos rfl, disconnectOne, Dict.get?_del,
      if_pos rfl]

@[simp] theorem sessions_recordProvider (provider : Bool) :
    (s.recordProvider name provider).sessions = s.sessions := by
  rw [recordProvider]
  split
  · rfl
  · rfl

@[simp] theorem backendStacks_recordProvider (provider : Bool) :
    (s.recordProvider name provider).backendStacks = s.backendStacks := by
  rw [recordProvider]
  split
  · rfl
  · rfl

@[simp] theorem config_recordProvider (provider : Bool) :
    (s.recordProvider name provider).config = s.config := by
  rw [recordProvider]
  split
  · rfl
  · rfl

@[simp] theorem config_connect (outcome : Connect) :
    (s.connect name outcome).config = s.config := by
  rcases outcome with provider | provider | provider | provider
  · exact config_recordProvider provider
  · exact config_recordProvider provider
  · exact config_recordProvider provider
  · exact config_recordProvider provider

@[simp] theorem config_disconnectBackend : (s.disconnectBackend name).config = s.config := by
  rw [disconnectBackend]
  split
  · rfl
  · rfl

end Local

/-! ## Stacks -/

section Stacks

variable {s : Manager V} {name : String}

/-- Every stack that is not in place was closed. -/
def AllClosed (s : Manager V) : Prop :=
  ∀ i < s.created, i ∈ s.closed ∨ ∃ name, s.backendStacks.get? name = some i

/-- Every session has a stack. -/
def AllStacked (s : Manager V) : Prop :=
  ∀ name, (s.sessions.get? name).isSome → (s.backendStacks.get? name).isSome

theorem AllClosed.closeStack (h : AllClosed s) (name : String) : AllClosed (s.closeStack name) := by
  intro i hi
  rcases h i hi with hclosed | ⟨name', hplace⟩
  · exact Or.inl (List.mem_append_left _ hclosed)
  · by_cases hname : name' = name
    · subst hname
      refine Or.inl (List.mem_append_right _ ?_)
      rw [hplace]
      exact List.mem_singleton_self i
    · refine Or.inr ⟨name', ?_⟩
      rw [(sameAt_closeStack hname).backendStacks]
      exact hplace

theorem AllClosed.prepareBackendStack (h : AllClosed s) (name : String) :
    AllClosed (s.prepareBackendStack name) := by
  intro i hi
  rcases Nat.lt_succ_iff_lt_or_eq.mp hi with hlt | rfl
  · rcases h.closeStack name i hlt with hclosed | ⟨name', hplace⟩
    · exact Or.inl hclosed
    · refine Or.inr ⟨name', ?_⟩
      have hne : name' ≠ name := by
        rintro rfl
        rw [Manager.closeStack, Dict.get?_del, if_pos rfl] at hplace
        exact absurd hplace (by simp)
      rw [Manager.prepareBackendStack, Dict.get?_set_of_ne _ _ hne]
      exact hplace
  · refine Or.inr ⟨name, ?_⟩
    rw [Manager.prepareBackendStack, Dict.get?_set_self]

theorem AllClosed.recordProvider (h : AllClosed s) (name : String) (provider : Bool) :
    AllClosed (s.recordProvider name provider) := by
  rw [Manager.recordProvider]
  split
  · exact h
  · exact h

theorem AllClosed.connect (h : AllClosed s) (name : String) (outcome : Connect) :
    AllClosed (s.connect name outcome) := by
  rcases outcome with provider | provider | provider | provider
  · exact h.recordProvider name provider
  · exact (h.recordProvider name provider).closeStack name
  · exact (h.recordProvider name provider).prepareBackendStack name
  · exact (h.recordProvider name provider).prepareBackendStack name

theorem AllClosed.disconnectBackend (h : AllClosed s) (name : String) :
    AllClosed (s.disconnectBackend name) := by
  rw [Manager.disconnectBackend]
  split
  · exact h.closeStack name
  · exact h

theorem AllStacked.of_sameAt {s' : Manager V} (h : AllStacked s)
    (hsame : ∀ k, k ≠ name → SameAt k s s')
    (hname : (s'.sessions.get? name).isSome → (s'.backendStacks.get? name).isSome) :
    AllStacked s' := by
  intro k hk
  by_cases hkey : k = name
  · exact hkey ▸ hname (hkey ▸ hk)
  · rw [(hsame k hkey).sessions] at hk
    rw [(hsame k hkey).backendStacks]
    exact h k hk

theorem AllStacked.disconnectBackend (h : AllStacked s) (name : String) :
    AllStacked (s.disconnectBackend name) := by
  refine h.of_sameAt (fun k hne ↦ sameAt_disconnectBackend hne) fun hsession ↦ ?_
  rw [sessions_disconnectBackend] at hsession
  exact absurd hsession (by simp)

theorem isSome_prepareBackendStack (s : Manager V) (name : String) :
    ((s.prepareBackendStack name).backendStacks.get? name).isSome := by
  rw [Manager.prepareBackendStack, Dict.get?_set_self, Option.isSome_some]

theorem AllStacked.connect (h : AllStacked s) {outcome : Connect}
    (hcut : (∃ provider, outcome = .cutOff provider) → s.sessions.get? name = none) :
    AllStacked (s.connect name outcome) := by
  refine h.of_sameAt (fun k hne ↦ sameAt_connect hne outcome) fun hsession ↦ ?_
  rcases outcome with provider | provider | provider | provider
  · rw [Manager.connect, sessions_recordProvider] at hsession
    rw [Manager.connect, backendStacks_recordProvider]
    exact h name hsession
  · rw [Manager.connect, Manager.closeStack, sessions_recordProvider, hcut ⟨provider, rfl⟩]
      at hsession
    exact absurd hsession (by simp)
  · exact isSome_prepareBackendStack _ name
  · exact isSome_prepareBackendStack _ name

end Stacks

/-! ## A start -/

section Start

variable {s : Manager V} {name : String} {calls : List (String × Connect)}

theorem startEach_concat (s : Manager V) (calls : List (String × Connect))
    (call : String × Connect) :
    s.startEach (calls ++ [call]) = (s.startEach calls).connect call.1 call.2 := by
  rw [startEach, List.foldl_append]
  rfl

theorem sameAt_startEach (hname : ∀ call ∈ calls, call.1 ≠ name) :
    SameAt name s (s.startEach calls) := by
  induction calls using List.reverseRecOn with
  | nil => exact .refl name s
  | append_singleton calls call ih =>
    rw [startEach_concat]
    refine (ih fun call' h ↦ hname call' (List.mem_append_left _ h)).trans ?_
    exact sameAt_connect (hname call (List.mem_append_right _ (List.mem_singleton_self call))).symm _

theorem AllClosed.startEach (h : AllClosed s) (calls : List (String × Connect)) :
    AllClosed (s.startEach calls) :=
  List.foldlRecOn _ _ h fun _ h call _ ↦ h.connect call.1 call.2

theorem isSome_backendStacks_connect (s : Manager V) (name : String) (outcome : Connect) :
    ((s.connect name outcome).backendStacks.get? name).isSome =
      outcome.stack?.getD (s.backendStacks.get? name).isSome := by
  rcases outcome with provider | provider | provider | provider
  · rw [connect, backendStacks_recordProvider]
    rfl
  · rw [connect, closeStack, Dict.get?_del, if_pos rfl]
    rfl
  · exact isSome_prepareBackendStack _ name
  · exact isSome_prepareBackendStack _ name

theorem sessions_connect (s : Manager V) (name : String) (outcome : Connect) :
    ((s.connect name outcome).sessions.get? name).isSome ↔
      (s.sessions.get? name).isSome ∨ ∃ provider, outcome = .connected provider := by
  rcases outcome with provider | provider | provider | provider
  · simp [connect]
  · simp [connect, closeStack]
  · simp [connect, prepareBackendStack, closeStack]
  · rw [connect, Dict.get?_set_self]
    exact iff_of_true rfl (Or.inr ⟨provider, rfl⟩)

theorem sessions_startEach :
    ((s.startEach calls).sessions.get? name).isSome ↔
      (s.sessions.get? name).isSome ∨ ∃ provider, (name, .connected provider) ∈ calls := by
  induction calls using List.reverseRecOn with
  | nil => simp [startEach]
  | append_singleton calls call ih =>
    obtain ⟨name', outcome⟩ := call
    rw [startEach_concat]
    by_cases hname : name = name'
    · subst hname
      rw [sessions_connect, ih]
      simp only [List.mem_append, List.mem_singleton, Prod.mk.injEq, true_and, exists_or, or_assoc,
        eq_comm]
    · rw [(sameAt_connect hname outcome).sessions, ih]
      simp [hname]

theorem lastStack_concat (name name' : String) (calls : List (String × Connect))
    (outcome : Connect) :
    lastStack name (calls ++ [(name', outcome)]) =
      if name' = name then outcome.stack? <|> lastStack name calls else lastStack name calls := by
  rw [lastStack, List.filterMap_append, List.getLast?_append]
  by_cases hname : name' = name
  · rw [if_pos hname]
    rcases hstack : outcome.stack? with _ | stack
    · simp [hname, hstack, lastStack]
    · simp [hname, hstack]
  · rw [if_neg hname]
    simp [hname, lastStack]

theorem backendStacks_startEach :
    ((s.startEach calls).backendStacks.get? name).isSome =
      (lastStack name calls).getD (s.backendStacks.get? name).isSome := by
  induction calls using List.reverseRecOn with
  | nil => rfl
  | append_singleton calls call ih =>
    obtain ⟨name', outcome⟩ := call
    rw [startEach_concat, lastStack_concat]
    by_cases hname : name' = name
    · subst hname
      rw [isSome_backendStacks_connect, ih, if_pos rfl]
      rcases outcome.stack? with _ | stack
      · rfl
      · rfl
    · rw [(sameAt_connect (Ne.symm hname) outcome).backendStacks, ih, if_neg hname]

theorem lastStack_ne_none {provider : Bool} (h : (name, .connected provider) ∈ calls) :
    lastStack name calls ≠ none := by
  rw [lastStack, Ne, List.getLast?_eq_none_iff]
  exact List.ne_nil_of_mem (List.mem_filterMap.mpr ⟨_, h, if_pos rfl⟩)

/-- Every session has a stack after the calls exactly if no session is left with a call cut off. -/
theorem AllStacked.startEach_iff (h : AllStacked s) :
    AllStacked (s.startEach calls) ↔
      ∀ name, (s.sessions.get? name).isSome ∨ (∃ provider, (name, .connected provider) ∈ calls) →
        lastStack name calls ≠ some false := by
  refine forall_congr' fun name ↦ ?_
  rw [sessions_startEach]
  refine imp_congr_right fun hsession ↦ ?_
  rw [backendStacks_startEach]
  rcases hlast : lastStack name calls with _ | stack
  · -- no call came to the stack, so none connected
    refine iff_of_true (h name (hsession.resolve_right ?_)) (by simp)
    rintro ⟨provider, hmem⟩
    exact lastStack_ne_none hmem hlast
  · cases stack with
    | true => exact iff_of_true rfl (by simp)
    | false => exact iff_of_false Bool.false_ne_true (fun hne ↦ hne rfl)

end Start

/-! ## A reload -/

section Folds

variable {s : Manager V} {k : String} {f : Manager V → String → Manager V}
  (hf : ∀ s name k, k ≠ name → SameAt k s (f s name))

include hf

theorem sameAt_foldl {names : List String} (hk : k ∉ names) : SameAt k s (names.foldl f s) := by
  induction names generalizing s with
  | nil => exact .refl k s
  | cons name names ih =>
    rw [List.mem_cons, not_or] at hk
    exact (hf s name k hk.1).trans (ih hk.2)

end Folds

section Reload

variable [DecidableEq V] {s : Manager V} {newConfig : Dict String (Runtime.BackendConf V)}
  {outcome : String → Connect} {k : String}

omit [DecidableEq V] in
theorem sameAt_foldl_disconnectBackend {names : List String} (hk : s.sessions.get? k = none) :
    SameAt k s (names.foldl disconnectBackend s) := by
  induction names generalizing s with
  | nil => exact .refl k s
  | cons name names ih =>
    have hfirst : SameAt k s (s.disconnectBackend name) := by
      by_cases hname : k = name
      · subst hname
        rw [disconnectBackend_of_none hk]
        exact .refl k s
      · exact sameAt_disconnectBackend hname
    exact hfirst.trans (ih (hfirst.sessions.trans hk))

omit [DecidableEq V] in
theorem not_holds_foldl_disconnectBackend {names : List String} (hk : k ∈ names)
    (hsession : s.sessions.get? k ≠ none) : ¬ (names.foldl disconnectBackend s).Holds k := by
  induction names generalizing s with
  | nil => exact absurd hk List.not_mem_nil
  | cons name names ih =>
    rw [List.foldl_cons]
    by_cases hname : k = name
    · subst hname
      rw [(sameAt_foldl_disconnectBackend (sessions_disconnectBackend s k)).holds_iff,
        disconnectBackend, if_pos (Option.isSome_iff_ne_none.mpr hsession)]
      exact not_holds_disconnectOne s k
    · refine ih ((List.mem_cons.mp hk).resolve_left hname) ?_
      rw [(sameAt_disconnectBackend hname).sessions]
      exact hsession

theorem sameAt_reloadChanged (hk : k ∉ (Runtime.computeDiff s.config newConfig).changed) :
    SameAt k (s.reloadRemoved newConfig) (s.reloadChanged newConfig outcome) := by
  refine sameAt_foldl (fun s name k hne ↦ ?_) hk
  exact (sameAt_disconnectBackend hne).trans (sameAt_connect hne (outcome name))

theorem sameAt_reload (hk : k ∉ newConfig.keys) :
    SameAt k (s.reloadRemoved newConfig) (s.reload newConfig outcome) := by
  have hchanged := @sameAt_reloadChanged _ _ s newConfig outcome k
    fun h ↦ hk (Runtime.mem_keys_of_mem_changed h).2
  have hnot : k ∉ (Runtime.computeDiff s.config newConfig).added :=
    fun h ↦ hk (Runtime.mem_added_iff.mp h).1
  have hadded := @sameAt_foldl _ (s.reloadChanged newConfig outcome) k
    (fun s name ↦ s.connect name (outcome name)) (fun s name k hne ↦ sameAt_connect hne _) _ hnot
  exact (hchanged.trans hadded).trans ⟨rfl, rfl, rfl⟩

theorem AllClosed.reload (h : AllClosed s) : AllClosed (s.reload newConfig outcome) := by
  have hremoved : AllClosed (s.reloadRemoved newConfig) :=
    List.foldlRecOn _ _ h fun _ h name _ ↦ h.disconnectBackend name
  have hchanged : AllClosed (s.reloadChanged newConfig outcome) :=
    List.foldlRecOn _ _ hremoved fun _ h name _ ↦ (h.disconnectBackend name).connect name _
  have hadded : AllClosed ((Runtime.computeDiff s.config newConfig).added.foldl
      (fun s name ↦ s.connect name (outcome name)) (s.reloadChanged newConfig outcome)) :=
    List.foldlRecOn _ _ hchanged fun _ h name _ ↦ h.connect name _
  exact hadded

omit [DecidableEq V] in
theorem AllStacked.foldl_connect {names : List String} (h : AllStacked s) (hnodup : names.Nodup)
    (hnone : ∀ name ∈ names, s.sessions.get? name = none) :
    AllStacked (names.foldl (fun s name ↦ s.connect name (outcome name)) s) := by
  induction names generalizing s with
  | nil => exact h
  | cons name names ih =>
    obtain ⟨hname, hnames⟩ := List.forall_mem_cons.mp hnone
    obtain ⟨hnot, hnodup⟩ := List.nodup_cons.mp hnodup
    refine ih (h.connect fun _ ↦ hname) hnodup fun name' hmem ↦ ?_
    have hne : name' ≠ name := fun heq ↦ hnot (heq ▸ hmem)
    rw [(sameAt_connect hne (outcome name)).sessions]
    exact hnames name' hmem

theorem Accounted.allStacked_reload (h : s.Accounted) :
    AllStacked (s.reload newConfig outcome) := by
  have hremoved : AllStacked (s.reloadRemoved newConfig) :=
    List.foldlRecOn _ _ h.stacked fun _ h name _ ↦ AllStacked.disconnectBackend h name
  have hchanged : AllStacked (s.reloadChanged newConfig outcome) :=
    List.foldlRecOn _ _ hremoved fun _ h name _ ↦
      (AllStacked.disconnectBackend h name).connect fun _ ↦ sessions_disconnectBackend _ name
  refine hchanged.foldl_connect (newConfig.nodup_keys.filter _) fun name hname ↦ ?_
  -- What is new to the configuration has no session, and nothing before concerns it.
  have hnot := (Runtime.mem_added_iff.mp hname).2
  have hfirst : SameAt name s (s.reloadRemoved newConfig) :=
    sameAt_foldl (fun _ _ _ hne ↦ sameAt_disconnectBackend hne)
      fun hmem ↦ hnot (Runtime.mem_removed_iff.mp hmem).1
  have hsecond := @sameAt_reloadChanged _ _ s newConfig outcome name
    fun hmem ↦ hnot (Runtime.mem_keys_of_mem_changed hmem).1
  rw [(hfirst.trans hsecond).sessions]
  by_contra hsession
  exact hnot (h.configured name (Or.inl (Option.isSome_iff_ne_none.mpr hsession)))

theorem Accounted.configured_reload_iff (h : s.Accounted) :
    (∀ name, (s.reload newConfig outcome).Holds name → name ∈ newConfig.keys) ↔
      ∀ name ∈ s.config.keys, name ∉ newConfig.keys → s.sessions.get? name = none →
        ¬ s.Holds name := by
  constructor
  · intro hconfigured name hold hnew hsession hholds
    refine hnew (hconfigured name ?_)
    rw [(sameAt_reload hnew).holds_iff, reloadRemoved,
      (sameAt_foldl_disconnectBackend hsession).holds_iff]
    exact hholds
  · intro htidy name hholds
    by_contra hnew
    rw [(sameAt_reload hnew).holds_iff, reloadRemoved] at hholds
    by_cases hold : name ∈ s.config.keys
    · by_cases hsession : s.sessions.get? name = none
      · rw [(sameAt_foldl_disconnectBackend hsession).holds_iff] at hholds
        exact htidy name hold hnew hsession hholds
      · exact not_holds_foldl_disconnectBackend (Runtime.mem_removed_iff.mpr ⟨hold, hnew⟩) hsession
          hholds
    · have hnot : name ∉ (Runtime.computeDiff s.config newConfig).removed :=
        fun hmem ↦ hold (Runtime.mem_removed_iff.mp hmem).1
      rw [(sameAt_foldl (fun s name k hne ↦ sameAt_disconnectBackend hne) hnot).holds_iff] at hholds
      exact hold (h.configured name hholds)

end Reload

/-! ## Runs -/

section Steps

variable [DecidableEq V] {s s' : Manager V}

omit [DecidableEq V] in
theorem Accounted.configured_of_sameAt (h : s.Accounted) {name : String}
    (hname : name ∈ s.config.keys) (hsame : ∀ k, k ≠ name → SameAt k s s')
    (hconfig : s'.config = s.config) : ∀ k, s'.Holds k → k ∈ s'.config.keys := by
  intro k hk
  rw [hconfig]
  by_cases hkey : k = name
  · exact hkey ▸ hname
  · exact h.configured k ((hsame k hkey).holds_iff.mp hk)

omit [DecidableEq V] in
theorem Accounted.reconnectBackend (h : s.Accounted) {name : String}
    (hname : name ∈ s.config.keys) {outcome : Reconnect}
    (hs : s.reconnectBackend name outcome = some s') : s'.Accounted := by
  have hdown : AllStacked (s.disconnectBackend name) := AllStacked.disconnectBackend h.stacked name
  have hclosed : AllClosed (s.disconnectBackend name) := AllClosed.disconnectBackend h.closed name
  have hsame : ∀ k, k ≠ name → SameAt k s (s.disconnectBackend name) :=
    fun k hne ↦ sameAt_disconnectBackend hne
  rcases outcome with outcome | _ | provider
  · obtain rfl := Option.some.inj hs
    refine ⟨hdown.connect fun _ ↦ sessions_disconnectBackend s name,
      hclosed.connect name outcome, ?_⟩
    refine h.configured_of_sameAt hname (fun k hne ↦ ?_) ?_
    · exact (hsame k hne).trans (sameAt_connect hne outcome)
    · rw [config_connect, config_disconnectBackend]
  · rw [Manager.reconnectBackend] at hs
    split at hs
    · rename_i hsession
      have hone : s.disconnectBackend name = s' := by
        rw [Manager.disconnectBackend, if_pos hsession]
        exact Option.some.inj hs
      subst hone
      exact ⟨hdown, hclosed, h.configured_of_sameAt hname hsame config_disconnectBackend⟩
    · exact absurd hs (by simp)
  · obtain rfl := Option.some.inj hs
    have hup : AllStacked ((s.disconnectBackend name).connect name (.connected provider)) :=
      hdown.connect fun _ ↦ sessions_disconnectBackend s name
    refine ⟨hup.disconnectBackend name, (hclosed.connect name _).disconnectBackend name, ?_⟩
    refine h.configured_of_sameAt hname (fun k hne ↦ ?_) ?_
    · exact ((hsame k hne).trans (sameAt_connect hne _)).trans (sameAt_disconnectBackend hne)
    · rw [config_disconnectBackend, config_connect, config_disconnectBackend]

omit [DecidableEq V] in
theorem Accounted.startAll_iff (h : s.Accounted)
    {newConfig : Dict String (Runtime.BackendConf V)} {calls : List (String × Connect)}
    (hcalls : ∀ call ∈ calls, call.1 ∈ newConfig.keys) (raises : Bool) :
    (s.startAll newConfig calls raises).Accounted ↔
      (∀ name, s.Holds name → name ∈ newConfig.keys) ∧
        ∀ name, (s.sessions.get? name).isSome ∨ (∃ provider, (name, .connected provider) ∈ calls) →
          lastStack name calls ≠ some false := by
  have hsame : ∀ name, name ∉ newConfig.keys → SameAt name s (s.startEach calls) :=
    fun name hname ↦ sameAt_startEach fun call hcall heq ↦ hname (heq ▸ hcalls call hcall)
  rw [← AllStacked.startEach_iff h.stacked]
  constructor
  · rintro ⟨hstacked, -, hconfigured⟩
    refine ⟨fun name hholds ↦ ?_, hstacked⟩
    by_contra hname
    exact hname (hconfigured name ((hsame name hname).holds_iff.mpr hholds))
  · rintro ⟨hconfigured, hstacked⟩
    refine ⟨hstacked, AllClosed.startEach h.closed calls, fun name hholds ↦ ?_⟩
    by_contra hname
    exact hname (hconfigured name ((hsame name hname).holds_iff.mp hholds))

theorem Accounted.step_iff (h : s.Accounted) {op : Op V} (hs : s.step op = some s') :
    s'.Accounted ↔ s.Tidy op := by
  rcases op with ⟨newConfig, calls, raises⟩ | ⟨newConfig, outcome⟩ | ⟨name, outcome⟩
  · rw [Manager.step] at hs
    split at hs
    · rename_i hvalid
      obtain rfl := Option.some.inj hs
      exact iff_of_true h fun hvalid' ↦ absurd (hvalid'.symm.trans hvalid) (by simp)
    · rename_i hvalid
      split at hs
      · rename_i hcalls
        obtain rfl := Option.some.inj hs
        rw [h.startAll_iff hcalls, Tidy, forall_prop_of_true (Bool.not_eq_false _ ▸ hvalid),
          forall_prop_of_true hcalls]
      · exact absurd hs (by simp)
  · rw [Manager.step] at hs
    split at hs
    · rename_i hrun
      obtain rfl := Option.some.inj hs
      exact iff_of_true h fun hrun' ↦ absurd hrun' hrun
    · rename_i hrun
      obtain rfl := Option.some.inj hs
      rw [Tidy, forall_prop_of_true (not_not.mp hrun), ← h.configured_reload_iff]
      exact ⟨fun h' ↦ h'.configured, fun hconfigured ↦
        ⟨h.allStacked_reload, AllClosed.reload h.closed, hconfigured⟩⟩
  · refine iff_of_true ?_ trivial
    rw [Manager.step] at hs
    split at hs
    · exact Option.some.inj hs ▸ h
    · split at hs
      · rename_i hname
        exact h.reconnectBackend hname hs
      · exact Option.some.inj hs ▸ h

theorem tidy_of_step_eq_none {op : Op V} (hs : s.step op = none) : s.Tidy op := by
  rcases op with ⟨newConfig, calls, raises⟩ | ⟨newConfig, outcome⟩ | ⟨name, outcome⟩
  · intro hvalid hcalls
    rw [Manager.step, if_neg (by simp [hvalid]), if_pos hcalls] at hs
    exact absurd hs (by simp)
  · rw [Manager.step] at hs
    split at hs
    · exact absurd hs (by simp)
    · exact absurd hs (by simp)
  · trivial

/-- **Resources are accounted for** along a run exactly if no step of it leaves something behind. -/
theorem alwaysAccounted_iff (ops : List (Op V)) :
    AlwaysAccounted ops ↔ Run.Guarded Manager.step Tidy init ops := by
  refine @Run.forall_reached_iff_guarded _ _ Manager.step Tidy (fun _ ↦ True) Accounted ?_ ?_ ops _
    trivial ?_
  · intro s op s' _ h hs
    exact ⟨trivial, h.step_iff hs⟩
  · intro s op _ _ hs
    exact tidy_of_step_eq_none hs
  · exact ⟨by simp [init], by simp [init], by simp [init, Holds]⟩

end Steps

/-! ### A backend that never connected is removed -/

def commandConf (command : String) : Runtime.BackendConf String where
  type := "stdio"
  params := some ⟨command, "[]", ""⟩
  url := none
  command := none
  args := none
  env := none
  headers := none
  auth := none

/-- The subprocess of one backend does not start, another connects, so that the service runs. Then
the first is taken out of the configuration. -/
def brokenRemoved : List (Op String) :=
  [.startAll
      (Dict.ofList [("broken", commandConf "no-such-command"), ("other", commandConf "other")])
      [("broken", .failed false), ("other", .connected false)] false,
    .reload (Dict.ofList [("other", commandConf "other")]) fun _ ↦ .early false]

theorem not_alwaysAccounted_brokenRemoved : ¬ AlwaysAccounted brokenRemoved := by
  intro h
  have hrun : Run.run Manager.step (init : Manager String) brokenRemoved
      = some ((Run.run Manager.step init brokenRemoved).getD init) :=
    Run.run_eq_some_getD rfl _
  have hconfigured := (h brokenRemoved _ List.prefix_rfl hrun).configured "broken"
  exact absurd (hconfigured (Or.inr (Or.inl (by decide)))) (by decide)

end Manager

end Resources

end ArgusMcp
