import ArgusMcp.Bridge.Discovery
import ArgusMcp.Runtime.Models

/-!
# The service and its registries

`ArgusService` (`runtime/service.py`) starts the backends, reads its configuration again when told
to, and reconnects single backends. Each of these ends with a new capability registry, filled from
the backends that are connected then. Three others were given a registry when they were made: the
health checker by `start`, the MCP server and the routing layer by `_attach_to_mcp_server`
(`server/lifespan.py`). None of them is told of a new one.

Registries are therefore objects here: the state has a heap of them, and everyone who uses one has
its index. What is in a registry is what `discover_and_register` leaves in it, for whatever the
backends list and in whatever order they answer.

## What can go wrong

A reload or a reconnect that makes a new registry leaves the other three behind. A reload that
makes none, since nobody is connected or the file can no longer be read, leaves a registry for a
configuration that is no longer in force. The four agree along a run exactly if none of this ever
happens (`oneRegistry_iff`).
-/

namespace ArgusMcp

namespace Runtime

/-! ## Configurations -/

/-- How a stdio backend is run. -/
structure StdioServerParameters (V : Type*) where
  command : V
  args : V
  env : V
  deriving DecidableEq

/-- The configuration of a backend, as far as a reload looks at it; a field may be missing. -/
structure BackendConf (V : Type*) where
  type : String
  params : Option (StdioServerParameters V)
  url : Option V
  command : Option V
  args : Option V
  env : Option V
  headers : Option V
  auth : Option V

/-- The configuration file: the backends, and the rules a registry is built with. -/
structure Config (V : Type*) where
  backends : Dict String (BackendConf V)
  rules : RegistryConfig

section Diff

variable {V : Type*} [DecidableEq V]

def stdioConfigsDiffer (old new : BackendConf V) : Bool :=
  match old.params, new.params with
  | some oldParams, some newParams =>
    decide (oldParams.command ≠ newParams.command ∨ oldParams.args ≠ newParams.args ∨
      oldParams.env ≠ newParams.env)
  | none, none => false
  | _, _ => true

def sseConfigsDiffer (old new : BackendConf V) : Bool :=
  decide (old.url ≠ new.url ∨ old.command ≠ new.command ∨ old.args ≠ new.args ∨
    old.env ≠ new.env ∨ old.headers ≠ new.headers ∨ old.auth ≠ new.auth)

def streamableConfigsDiffer (old new : BackendConf V) : Bool :=
  decide (old.url ≠ new.url ∨ old.headers ≠ new.headers ∨ old.auth ≠ new.auth)

/-- Compares two configurations of a backend. Those of an unknown type never differ. -/
def configsDiffer (old new : BackendConf V) : Bool :=
  if old.type ≠ new.type then true
  else if old.type = "stdio" then stdioConfigsDiffer old new
  else if old.type = "sse" then sseConfigsDiffer old new
  else if old.type = "streamable-http" then streamableConfigsDiffer old new
  else false

/-- The difference between two configurations, in names of backends. -/
structure ConfigDiff where
  added : List String
  removed : List String
  changed : List String

def computeDiff (oldConfig newConfig : Dict String (BackendConf V)) : ConfigDiff where
  added := newConfig.keys.filter fun name ↦ decide (name ∉ oldConfig.keys)
  removed := oldConfig.keys.filter fun name ↦ decide (name ∉ newConfig.keys)
  changed := oldConfig.keys.filter fun name ↦
    match oldConfig.get? name, newConfig.get? name with
    | some old, some new => configsDiffer old new
    | _, _ => false

theorem configsDiffer_self (conf : BackendConf V) : configsDiffer conf conf = false := by
  rw [configsDiffer, if_neg (not_not.mpr rfl)]
  split
  · rw [stdioConfigsDiffer]
    rcases conf.params with _ | params
    · rfl
    · simp
  · split
    · simp [sseConfigsDiffer]
    · split
      · simp [streamableConfigsDiffer]
      · rfl

theorem computeDiff_self (config : Dict String (BackendConf V)) :
    computeDiff config config = ⟨[], [], []⟩ := by
  have hnone : config.keys.filter (fun name ↦ decide (name ∉ config.keys)) = [] :=
    List.filter_eq_nil_iff.mpr fun name hname ↦ by simpa using hname
  rw [computeDiff, hnone, ConfigDiff.mk.injEq]
  refine ⟨rfl, rfl, List.filter_eq_nil_iff.mpr fun name _ ↦ ?_⟩
  rcases config.get? name with _ | conf
  · exact Bool.false_ne_true
  · dsimp only
    rw [configsDiffer_self]
    exact Bool.false_ne_true

section Names

variable {old new : Dict String (BackendConf V)} {name : String}

theorem mem_added_iff :
    name ∈ (computeDiff old new).added ↔ name ∈ new.keys ∧ name ∉ old.keys := by
  rw [computeDiff, List.mem_filter, decide_eq_true_eq]

theorem mem_removed_iff :
    name ∈ (computeDiff old new).removed ↔ name ∈ old.keys ∧ name ∉ new.keys := by
  rw [computeDiff, List.mem_filter, decide_eq_true_eq]

/-- Only what is in both configurations has changed. -/
theorem mem_keys_of_mem_changed (h : name ∈ (computeDiff old new).changed) :
    name ∈ old.keys ∧ name ∈ new.keys := by
  obtain ⟨hold, hdiffer⟩ := List.mem_filter.mp h
  refine ⟨hold, Dict.mem_keys_iff.mpr ?_⟩
  rcases hnew : new.get? name with _ | conf
  · rw [hnew] at hdiffer
    rcases old.get? name with _ | conf
    · exact absurd hdiffer (by simp)
    · exact absurd hdiffer (by simp)
  · exact ⟨conf, rfl⟩

end Names

end Diff

/-! ## Registries -/

structure Registry (V : Type*) where
  rules : RegistryConfig
  state : RegistryState
  /-- Ghost: the configuration in force when it was made. -/
  builtFor : Option (Config V)

/-- What a discovery meets: what the backends list, and the order in which its tasks complete. -/
structure Discovery where
  replies : Listings
  order : List Task → List Task
  perm (tasks : List Task) : (order tasks).Perm tasks

/-- The tasks complete in the order in which they were started. -/
def Discovery.inOrder (replies : Listings) : Discovery := ⟨replies, id, fun _ ↦ .refl _⟩

/-- What `_build_registry` gets when it reads the file once more: the rules in it, an error that it
catches, or one that it does not (a `ConfigurationError` is none of those it lists). -/
inductive RulesRead where
  | read (rules : RegistryConfig)
  | caught
  | raised

/-- The rules a registry is built with. After an error that is caught it has none. -/
def RulesRead.rules? : RulesRead → Option RegistryConfig
  | read rules => some rules
  | caught => some .default
  | raised => none

namespace Registry

variable {V : Type*}

/-- A new registry, for the configuration in force. -/
def make (config : Option (Config V)) (rules : RegistryConfig) : Registry V := ⟨rules, .init, config⟩

/-- `_build_registry`. There is no registry if it raises. -/
def build (config : Option (Config V)) (file : RulesRead) : Option (Registry V) :=
  file.rules?.map (make config)

variable (r : Registry V) (sessions : Dict String Bool) (d : Discovery)

/-- The tasks of a discovery, in the order in which they complete. -/
def tasks : List Task := d.order (RegistryState.discoverTasks r.state.fresh sessions)

/-- `discover_and_register`. -/
def discover : Option (Registry V) :=
  (discoverCall r.rules r.state sessions d.replies (r.tasks sessions d)).map fun called ↦
    { r with state := called.1 }

/-- `discover_and_register`, cancelled when `done` tasks were done. The others go with it. -/
def discoverUntil (done : ℕ) : Option (Registry V) :=
  (registryRun r.rules r.state
    (.discoverAndRegister sessions :: completions d.replies ((r.tasks sessions d).take done))).map
      fun st ↦ { r with state := { st with pending := [], gathers := [] } }

end Registry

section Discover

variable {V : Type*} {r : Registry V} (hstamp : Stamped r.state) (sessions : Dict String Bool)
  (d : Discovery)

include hstamp

theorem Registry.exists_discover :
    ∃ r', r.discover sessions d = some r' ∧ r'.rules = r.rules ∧ r'.builtFor = r.builtFor ∧
      ∀ key route, r'.state.resolveCapability key = some route →
        sessions.get? route.1 = some true := by
  have horder := d.perm (RegistryState.discoverTasks r.state.fresh sessions)
  obtain ⟨after, logged, hcall, -, hview⟩ := exists_discoverCall r.rules d.replies hstamp horder
  refine ⟨{ r with state := after }, ?_, rfl, rfl, fun key route hroute ↦ ?_⟩
  · rw [Registry.discover, Registry.tasks, hcall, Option.map_some]
  · have hmap : after.routeMap = _ := congrArg View.routeMap hview
    rw [RegistryState.resolveCapability, hmap] at hroute
    obtain ⟨task, htask, off, hoff, rfl⟩ := exists_offer_of_discovered hroute
    rw [svr_of_mem_offersOf hoff]
    exact (mem_discoverTasks.mp (horder.mem_iff.mp htask)).1

theorem Registry.exists_discoverUntil (done : ℕ) :
    ∃ r', r.discoverUntil sessions d done = some r' := by
  have horder := d.perm (RegistryState.discoverTasks r.state.fresh sessions)
  rw [Registry.discoverUntil, Registry.tasks]
  by_cases hne : d.order (RegistryState.discoverTasks r.state.fresh sessions) = []
  · rw [hne, List.take_nil]
    exact ⟨_, rfl⟩
  · obtain ⟨m, hrun, -⟩ := exists_inProgress r.rules d.replies hstamp horder hne
      (List.take_append_drop done _)
    rw [hrun]
    exact ⟨_, rfl⟩

end Discover

/-! ## The service -/

/-- The service, and those who were given one of its registries. A registry is named by its place
among those that were ever made. -/
structure Service (V : Type*) where
  state : ServiceState
  /-- The configuration in force, `_config_data`. -/
  config : Option (Config V)
  /-- The sessions of the client manager. -/
  sessions : Dict String Bool
  registries : List (Registry V)
  /-- The service's own registry, which `get_status` reads. -/
  registry : ℕ
  /-- The registry of the health checker, once there is one. -/
  checker : Option ℕ
  /-- The registry of the MCP server, from which the list handlers answer. -/
  server : Option ℕ
  /-- The registry of the routing layer. -/
  routing : Option ℕ

/-- How a reconnect ends: the backend does not come back (in time), or it does and the registry is
built anew, or the time is up during the discovery of one that was built. -/
inductive Reconnect where
  | failed
  | reconnected (rules : RulesRead) (d : Discovery)
  | timedOut (rules : RegistryConfig) (d : Discovery) (done : ℕ)

/-- The operations, with what they meet: the file as it is read, or that it cannot be, what it
gives when the registry is built, the backends that answer a connection, and the discovery. -/
inductive Op (V : Type*) where
  | start (file : Option (Config V)) (rules : RulesRead) (connected : List String) (d : Discovery)
  /-- `_attach_to_mcp_server`, which gets as far as the middleware chain or does not. -/
  | attach (chainBuilt : Bool)
  | reload (file : Option (Config V)) (rules : RulesRead) (connected : List String) (d : Discovery)
  | reconnectBackend (name : String) (outcome : Reconnect)

namespace Service

variable {V : Type*}

/-- A service that was never started. -/
def init : Service V where
  state := .pending
  config := none
  sessions := Dict.empty
  registries := [Registry.make none .default]
  registry := 0
  checker := none
  server := none
  routing := none

def connectBackend (connected : List String) (sessions : Dict String Bool) (name : String) :
    Dict String Bool :=
  if name ∈ connected then sessions.set name true else sessions

/-- `start_all`. Which backend answers first is of no account: a discovery waits for all of
them. -/
def startAll (connected : List String) (sessions : Dict String Bool) (names : List String) :
    Dict String Bool :=
  names.foldl (connectBackend connected) sessions

/-- Disconnects and connects backends as a difference says. -/
def applyDiff (connected : List String) (sessions : Dict String Bool) (diff : ConfigDiff) :
    Dict String Bool :=
  let kept := diff.removed.foldl Dict.del sessions
  let reconnected := diff.changed.foldl
    (fun sessions name ↦ connectBackend connected (sessions.del name) name) kept
  diff.added.foldl (connectBackend connected) reconnected

variable (s : Service V)

/-- Makes a registry the service's own. -/
def adopt (r : Registry V) : Service V :=
  { s with
    registries := s.registries ++ [r]
    registry := s.registries.length }

/-- `start`. A failure leaves the service in `ERROR`, with what was set up until then. -/
def start (file : Option (Config V)) (rules : RulesRead) (connected : List String)
    (d : Discovery) : Option (Service V) :=
  if isValidTransition s.state .starting = false then some s
  else match file with
    | none => some { s with state := .error }
    | some c =>
      match Registry.build (some c) rules with
      | none => some { s with state := .error, config := some c }
      | some r =>
        let sessions := startAll connected s.sessions c.backends.keys
        let configured := { s with config := some c, sessions := sessions }
        if sessions.items = [] ∧ c.backends.items ≠ [] then
          some { configured.adopt r with state := .error }
        else
          (if sessions.items = [] then some r else r.discover sessions d).map fun r ↦
            { configured.adopt r with state := .running, checker := some s.registries.length }

/-- `_attach_to_mcp_server`. The server is handed its registry before anything can fail. -/
def attach (chainBuilt : Bool) : Service V :=
  { s with
    server := some s.registry
    routing := if chainBuilt then some s.registry else s.routing }

/-- `reload`. Without a session no registry is made, and where none can be built the one there is
stays. -/
def reload [DecidableEq V] (file : Option (Config V)) (rules : RulesRead)
    (connected : List String) (d : Discovery) : Option (Service V) :=
  if s.state ≠ .running then some s
  else match file with
    | none => some s
    | some c =>
      let old := (s.config.map Config.backends).getD Dict.empty
      let sessions := applyDiff connected s.sessions (computeDiff old c.backends)
      let configured := { s with config := some c, sessions := sessions }
      if sessions.items = [] then some configured
      else
        match Registry.build (some c) rules with
        | none => some configured
        | some r => (r.discover sessions d).map configured.adopt

def reconnectBackend (name : String) (outcome : Reconnect) : Option (Service V) :=
  if s.state ≠ .running then some s
  else if name ∉ ((s.config.map Config.backends).getD Dict.empty).keys then some s
  else
    let down := s.sessions.del name
    let up := down.set name true
    match outcome with
    | .failed => some { s with sessions := down }
    | .reconnected rules d =>
      match Registry.build s.config rules with
      | none => some { s with sessions := up }
      | some r => (r.discover up d).map { s with sessions := up }.adopt
    | .timedOut rules d done =>
      ((Registry.make s.config rules).discoverUntil up d done).map
        { s with sessions := down }.adopt

end Service

def Service.step {V : Type*} [DecidableEq V] (s : Service V) : Op V → Option (Service V)
  | .start file rules connected d => s.start file rules connected d
  | .attach chainBuilt => some (s.attach chainBuilt)
  | .reload file rules connected d => s.reload file rules connected d
  | .reconnectBackend name outcome => s.reconnectBackend name outcome

/-! ## One registry -/

section Property

variable {V : Type*}

/-- Everyone uses one registry, it was built from the configuration in force, and it has no route
to a backend that is not configured. -/
structure OneRegistry (s : Service V) : Prop where
  checker : s.checker = some s.registry
  server : ∀ id ∈ s.server, id = s.registry
  routing : ∀ id ∈ s.routing, id = s.registry
  built : ∃ c r, s.config = some c ∧ s.registries[s.registry]? = some r ∧
    r.builtFor = some c ∧ r.rules = c.rules ∧
    ∀ key route, r.state.resolveCapability key = some route → route.1 ∈ c.backends.keys

/-- Some backend answers, or there is none to ask. -/
def Startable (connected : List String) (c : Config V) : Prop :=
  c.backends.items = [] ∨ ∃ name ∈ c.backends.keys, name ∈ connected

/-- **What keeps the four together.** A start that succeeds finds nobody with an older registry,
and the file has not changed by the time the registry is built; a reload reads what is in force
already, and builds no registry, because nobody is connected or because it raises; a reconnect
builds none either. -/
def Keeps (s : Service V) : Op V → Prop
  | .start file rules connected _ => isValidTransition s.state .starting = true →
      ∀ c ∈ file, Startable connected c → ∀ built ∈ rules.rules?,
        s.server = none ∧ s.routing = none ∧ built = c.rules
  | .attach _ => True
  | .reload file rules _ _ => s.state = .running → ∀ c ∈ file,
      s.config = some c ∧ (s.sessions.items = [] ∨ rules = .raised)
  | .reconnectBackend name outcome => s.state = .running →
      name ∈ ((s.config.map Config.backends).getD Dict.empty).keys →
        outcome = .failed ∨ ∃ d, outcome = .reconnected .raised d

/-- What every operation keeps: registries are where they are said to be, and nobody is connected
before the service runs. -/
structure WellFormed (s : Service V) : Prop where
  registry : s.registry < s.registries.length
  checker : ∀ id ∈ s.checker, id < s.registries.length
  server : ∀ id ∈ s.server, id < s.registries.length
  routing : ∀ id ∈ s.routing, id < s.registries.length
  idle : s.state ≠ .running → s.sessions.items = []

/-- The property is about a service that runs. -/
def OneWhileRunning (s : Service V) : Prop := s.state = .running → OneRegistry s

theorem oneWhileRunning_of_ne {s : Service V} (h : s.state ≠ .running) : OneWhileRunning s :=
  fun hrun ↦ absurd hrun h

end Property

section Sessions

variable {connected names : List String} {sessions : Dict String Bool}

theorem Service.get?_startAll_eq_some {name : String} {valid : Bool}
    (h : (Service.startAll connected sessions names).get? name = some valid) :
    name ∈ names ∨ sessions.get? name = some valid := by
  induction names generalizing sessions with
  | nil => exact Or.inr h
  | cons first names ih =>
    rw [Service.startAll, List.foldl_cons, ← Service.startAll] at h
    rcases ih h with hmem | hget
    · exact Or.inl (List.mem_cons_of_mem first hmem)
    · rw [Service.connectBackend] at hget
      split at hget
      · rw [Dict.get?_set] at hget
        split at hget
        · rename_i heq
          exact Or.inl (heq ▸ List.mem_cons_self)
        · exact Or.inr hget
      · exact Or.inr hget

theorem Service.items_startAll_eq_nil :
    (Service.startAll connected sessions names).items = [] ↔
      sessions.items = [] ∧ ∀ name ∈ names, name ∉ connected := by
  induction names generalizing sessions with
  | nil => simp [Service.startAll]
  | cons first names ih =>
    rw [Service.startAll, List.foldl_cons, ← Service.startAll, ih, List.forall_mem_cons,
      Service.connectBackend]
    by_cases hfirst : first ∈ connected
    · rw [if_pos hfirst]
      refine iff_of_false (fun h ↦ ?_) fun h ↦ h.2.1 hfirst
      exact Dict.items_set_ne_nil sessions first true h.1
    · rw [if_neg hfirst]
      simp only [hfirst, not_false_eq_true, true_and]

end Sessions

/-! ## The operations -/

section Operations

variable {V : Type*} {s : Service V}

theorem stamped_make (config : Option (Config V)) (rules : RegistryConfig) :
    Stamped (Registry.make config rules).state :=
  @stamped_of_run .default [] _ rfl

theorem Registry.build_eq_none {config : Option (Config V)} {rules : RulesRead} :
    Registry.build config rules = none ↔ rules = .raised := by
  cases rules with
  | read rules | caught => exact iff_of_false (Option.some_ne_none _) (by simp)
  | raised => exact iff_of_true rfl rfl

theorem Registry.build_eq_some {config : Option (Config V)} {rules : RulesRead} {r : Registry V} :
    Registry.build config rules = some r ↔ ∃ built ∈ rules.rules?, r = .make config built := by
  rw [Registry.build, Option.map_eq_some_iff]
  exact exists_congr fun built ↦ and_congr_right fun _ ↦ eq_comm

/-- A new registry leaves the others where they are. -/
theorem WellFormed.adopt (hwf : WellFormed s) {config : Option (Config V)}
    {sessions : Dict String Bool} {r : Registry V} {state : ServiceState} {checker : Option ℕ}
    (hchecker : ∀ id ∈ checker, id < s.registries.length + 1)
    (hidle : state ≠ .running → sessions.items = []) :
    WellFormed { { s with config := config, sessions := sessions }.adopt r with
      state := state
      checker := checker } := by
  have hlength : (s.registries ++ [r]).length = s.registries.length + 1 := by simp
  refine ⟨?_, ?_, fun id hid ↦ ?_, fun id hid ↦ ?_, hidle⟩
  · exact hlength ▸ Nat.lt_succ_self s.registries.length
  · exact fun id hid ↦ hlength ▸ hchecker id hid
  · exact hlength ▸ Nat.lt_succ_of_lt (hwf.server id hid)
  · exact hlength ▸ Nat.lt_succ_of_lt (hwf.routing id hid)

/-- A running service that makes a registry its own leaves the health checker behind. -/
theorem adopt_spec (hwf : WellFormed s) (hrun : s.state = .running) (hone : OneRegistry s)
    (config : Option (Config V)) (sessions : Dict String Bool) (r : Registry V) :
    WellFormed ({ s with config := config, sessions := sessions }.adopt r) ∧
      ¬OneWhileRunning ({ s with config := config, sessions := sessions }.adopt r) := by
  constructor
  · apply hwf.adopt
    · exact fun id hid ↦ Nat.lt_succ_of_lt (hwf.checker id hid)
    · exact fun hidle ↦ absurd hrun hidle
  · intro h
    have hchecker : s.checker = some s.registries.length := (h hrun).checker
    rw [hone.checker, Option.some.injEq] at hchecker
    exact hwf.registry.ne hchecker

theorem exists_filled (c : Config V) (rules : RegistryConfig) (sessions : Dict String Bool)
    (d : Discovery) :
    ∃ r, (if sessions.items = [] then some (Registry.make (some c) rules)
        else (Registry.make (some c) rules).discover sessions d) = some r ∧
      r.rules = rules ∧ r.builtFor = some c ∧
      ∀ key route, r.state.resolveCapability key = some route →
        sessions.get? route.1 = some true := by
  by_cases hnil : sessions.items = []
  · rw [if_pos hnil]
    refine ⟨_, rfl, rfl, rfl, fun key route hroute ↦ ?_⟩
    exact absurd hroute (Option.some_ne_none route).symm
  · rw [if_neg hnil]
    exact Registry.exists_discover (stamped_make (some c) rules) sessions d

theorem start_cases (hwf : WellFormed s) (file : Option (Config V)) (rules : RulesRead)
    (connected : List String) (d : Discovery) :
    ∃ m, s.start file rules connected d = some m ∧
      (isValidTransition s.state .starting = false ∧ m = s ∨
        isValidTransition s.state .starting = true ∧
          (file = none ∧ m = { s with state := .error } ∨
            ∃ c, file = some c ∧
              (rules = .raised ∧ m = { s with state := .error, config := some c } ∨
                ∃ r sessions,
                  (¬Startable connected c ∧ sessions.items = [] ∧
                    m = { { s with config := some c, sessions := sessions }.adopt r with
                      state := .error } ∨
                  Startable connected c ∧ rules.rules? = some r.rules ∧ r.builtFor = some c ∧
                    (∀ key route, r.state.resolveCapability key = some route →
                      route.1 ∈ c.backends.keys) ∧
                    m = { { s with config := some c, sessions := sessions }.adopt r with
                      state := .running
                      checker := some s.registries.length })))) := by
  unfold Service.start
  by_cases hvalid : isValidTransition s.state .starting = false
  · rw [if_pos hvalid]
    exact ⟨s, rfl, Or.inl ⟨hvalid, rfl⟩⟩
  · rw [if_neg hvalid]
    rw [Bool.not_eq_false] at hvalid
    have hempty : s.sessions.items = [] := by
      refine hwf.idle fun hrun ↦ ?_
      rw [hrun] at hvalid
      exact absurd hvalid (by decide)
    rcases file with _ | c
    · exact ⟨_, rfl, Or.inr ⟨hvalid, Or.inl ⟨rfl, rfl⟩⟩⟩
    · dsimp only
      rcases hbuild : Registry.build (some c) rules with _ | made
      · exact ⟨_, rfl, Or.inr ⟨hvalid, Or.inr ⟨c, rfl, Or.inl ⟨Registry.build_eq_none.mp hbuild,
          rfl⟩⟩⟩⟩
      obtain ⟨built, hrules, rfl⟩ := Registry.build_eq_some.mp hbuild
      have hnil := @Service.items_startAll_eq_nil connected c.backends.keys s.sessions
      rw [and_iff_right hempty] at hnil
      have hfail : (Service.startAll connected s.sessions c.backends.keys).items = [] ∧
          c.backends.items ≠ [] ↔ ¬Startable connected c := by
        rw [hnil, Startable, not_or, not_exists, and_comm]
        simp only [not_and]
      dsimp only
      by_cases hstart : Startable connected c
      · rw [if_neg (hfail.not.mpr (not_not.mpr hstart))]
        obtain ⟨r, hr, rfl, hbuilt, hroutes⟩ := exists_filled c built
          (Service.startAll connected s.sessions c.backends.keys) d
        rw [hr]
        refine ⟨_, rfl, Or.inr ⟨hvalid, Or.inr ⟨c, rfl, Or.inr ⟨r, _, Or.inr ⟨hstart, hrules,
          hbuilt, ?_, rfl⟩⟩⟩⟩⟩
        intro key route hroute
        rcases Service.get?_startAll_eq_some (hroutes key route hroute) with hmem | hget
        · exact hmem
        · rw [Dict.get?_eq_none_of_items_nil hempty] at hget
          exact absurd hget (by simp)
      · rw [if_pos (hfail.mpr hstart)]
        exact ⟨_, rfl, Or.inr ⟨hvalid, Or.inr ⟨c, rfl, Or.inr ⟨_, _, Or.inl ⟨hstart,
          (hfail.mpr hstart).1, rfl⟩⟩⟩⟩⟩

theorem start_spec (hwf : WellFormed s) (hone : OneWhileRunning s) (file : Option (Config V))
    (rules : RulesRead) (connected : List String) (d : Discovery) :
    ∃ m, s.start file rules connected d = some m ∧ WellFormed m ∧
      (OneWhileRunning m ↔ Keeps s (.start file rules connected d)) := by
  obtain ⟨m, hm, hcases⟩ := start_cases hwf file rules connected d
  refine ⟨m, hm, ?_⟩
  rw [Keeps]
  have hidle : isValidTransition s.state .starting = true → s.sessions.items = [] := by
    refine fun hvalid ↦ hwf.idle fun hrun ↦ ?_
    rw [hrun] at hvalid
    exact absurd hvalid (by decide)
  rcases hcases with ⟨hvalid, rfl⟩ | ⟨hvalid, ⟨rfl, rfl⟩ | ⟨c, rfl, ⟨rfl, rfl⟩ | ⟨r, sessions,
    ⟨hstart, hnil, rfl⟩ | ⟨hstart, hrules, hbuilt, hroutes, rfl⟩⟩⟩⟩
  · exact ⟨hwf, iff_of_true hone fun h ↦ absurd (h.symm.trans hvalid) (by simp)⟩
  · exact ⟨{ hwf with idle := fun _ ↦ hidle hvalid },
      iff_of_true (oneWhileRunning_of_ne (by simp)) (by simp)⟩
  · refine ⟨{ hwf with idle := fun _ ↦ hidle hvalid },
      iff_of_true (oneWhileRunning_of_ne (by simp)) fun _ _ _ _ built hbuilt ↦ ?_⟩
    exact absurd hbuilt (by simp [RulesRead.rules?])
  · refine ⟨?_, iff_of_true (oneWhileRunning_of_ne (by simp)) fun _ c' hc' hstart' ↦ ?_⟩
    · apply hwf.adopt
      · exact fun id hid ↦ Nat.lt_succ_of_lt (hwf.checker id hid)
      · exact fun _ ↦ hnil
    · rw [Option.mem_some_iff] at hc'
      exact absurd (hc' ▸ hstart') hstart
  · refine ⟨?_, fun h ↦ ?_, fun h _ ↦ ?_⟩
    · apply hwf.adopt
      · intro id hid
        rw [Option.mem_some_iff] at hid
        omega
      · exact fun hidle ↦ absurd rfl hidle
    · -- whoever has an older registry has not the new one
      obtain ⟨-, hserver, hrouting, c', r', hc', hr', -, hrules', -⟩ := h rfl
      have hold : ∀ ids : Option ℕ, (∀ id ∈ ids, id < s.registries.length) →
          (∀ id ∈ ids, id = s.registries.length) → ids = none := by
        rintro (_ | id) hlt heq
        · rfl
        · exact absurd (heq id rfl) (hlt id rfl).ne
      have hget : r = r' := by
        simpa [Service.adopt] using hr'
      have hc : c = c' := Option.some.inj hc'
      rintro - c'' hc'' - built hbuilt'
      rw [Option.mem_some_iff] at hc''
      rw [hrules, Option.mem_some_iff] at hbuilt'
      refine ⟨hold _ hwf.server hserver, hold _ hwf.routing hrouting, ?_⟩
      rw [← hbuilt', hget, hrules', ← hc, hc'']
    · obtain ⟨hserver, hrouting, hrules'⟩ := h hvalid c rfl hstart r.rules hrules
      refine ⟨rfl, ?_, ?_, c, r, rfl, by simp [Service.adopt], hbuilt, hrules', hroutes⟩
      · intro id hid
        exact absurd (hserver ▸ hid : id ∈ none) (by simp)
      · intro id hid
        exact absurd (hrouting ▸ hid : id ∈ none) (by simp)

theorem attach_spec (hwf : WellFormed s) (hone : OneWhileRunning s) (chainBuilt : Bool) :
    WellFormed (s.attach chainBuilt) ∧ OneWhileRunning (s.attach chainBuilt) := by
  have hself : ∀ id ∈ some s.registry, id = s.registry := fun id hid ↦
    (Option.mem_some_iff.mp hid).symm
  refine ⟨{ hwf with server := ?_, routing := ?_ }, fun hrun ↦ ?_⟩
  · exact fun id hid ↦ hself id hid ▸ hwf.registry
  · rcases chainBuilt with _ | _
    · exact hwf.routing
    · exact fun id hid ↦ hself id hid ▸ hwf.registry
  · obtain ⟨hchecker, -, hrouting, hbuilt⟩ := hone hrun
    refine ⟨hchecker, hself, ?_, hbuilt⟩
    rcases chainBuilt with _ | _
    · exact hrouting
    · exact hself

theorem reload_spec [DecidableEq V] (hwf : WellFormed s) (hone : OneWhileRunning s)
    (file : Option (Config V)) (rules : RulesRead) (connected : List String) (d : Discovery) :
    ∃ m, s.reload file rules connected d = some m ∧ WellFormed m ∧
      (OneWhileRunning m ↔ Keeps s (.reload file rules connected d)) := by
  unfold Service.reload
  rw [Keeps]
  by_cases hrun : s.state = .running
  · rw [if_neg (not_not.mpr hrun)]
    rcases file with _ | c
    · exact ⟨s, rfl, hwf, iff_of_true hone (by simp)⟩
    · obtain ⟨hchecker, hserver, hrouting, c₀, r, hc₀, hr, hbuilt, hrules, hroutes⟩ := hone hrun
      have hkeeps : (s.state = .running → ∀ c' ∈ some c, s.config = some c' ∧
          (s.sessions.items = [] ∨ rules = .raised)) ↔
            c₀ = c ∧ (s.sessions.items = [] ∨ rules = .raised) := by
        rw [forall_prop_of_true hrun, hc₀]
        simp
      -- where no registry is made, the one there is belongs to the old configuration
      have hstays : ∀ sessions : Dict String Bool,
          WellFormed { s with config := some c, sessions := sessions } ∧
            (OneWhileRunning { s with config := some c, sessions := sessions } ↔ c₀ = c) := by
        refine fun sessions ↦ ⟨{ hwf with idle := fun h ↦ absurd hrun h }, fun h ↦ ?_, ?_⟩
        · obtain ⟨c', r', hc', hr', hbuilt', -⟩ := (h hrun).built
          have hrr' : r = r' := Option.some.inj (hr.symm.trans hr')
          have hcc' : c = c' := Option.some.inj hc'
          rwa [← hrr', hbuilt, ← hcc', Option.some.injEq] at hbuilt'
        · rintro rfl -
          exact ⟨hchecker, hserver, hrouting, c₀, r, rfl, hr, hbuilt, hrules, hroutes⟩
      rw [hkeeps, hc₀]
      dsimp only [Option.map_some, Option.getD_some]
      split
      · rename_i hnil
        obtain ⟨hwf', hsame⟩ := hstays (Service.applyDiff connected s.sessions
          (computeDiff c₀.backends c.backends))
        refine ⟨_, rfl, hwf', hsame.trans (iff_self_and.mpr fun heq ↦ Or.inl ?_)⟩
        rwa [heq, computeDiff_self] at hnil
      · rename_i hne
        rcases hbuild : Registry.build (some c) rules with _ | made
        · obtain ⟨hwf', hsame⟩ := hstays (Service.applyDiff connected s.sessions
            (computeDiff c₀.backends c.backends))
          exact ⟨_, rfl, hwf', hsame.trans (iff_self_and.mpr fun _ ↦
            Or.inr (Registry.build_eq_none.mp hbuild))⟩
        · obtain ⟨built, hread, rfl⟩ := Registry.build_eq_some.mp hbuild
          obtain ⟨r', hr', -⟩ := Registry.exists_discover (stamped_make (some c) built)
            (Service.applyDiff connected s.sessions (computeDiff c₀.backends c.backends)) d
          dsimp only
          rw [hr']
          obtain ⟨hwf', hnot⟩ := adopt_spec hwf hrun (hone hrun) (some c)
            (Service.applyDiff connected s.sessions (computeDiff c₀.backends c.backends)) r'
          refine ⟨_, rfl, hwf', iff_of_false hnot ?_⟩
          rintro ⟨rfl, hnil | rfl⟩
          · rw [computeDiff_self] at hne
            exact hne hnil
          · exact absurd hread (by simp [RulesRead.rules?])
  · rw [if_pos hrun]
    exact ⟨s, rfl, hwf, iff_of_true hone fun h ↦ absurd h hrun⟩

theorem reconnect_spec (hwf : WellFormed s) (hone : OneWhileRunning s) (name : String)
    (outcome : Reconnect) :
    ∃ m, s.reconnectBackend name outcome = some m ∧ WellFormed m ∧
      (OneWhileRunning m ↔ Keeps s (.reconnectBackend name outcome)) := by
  rw [Service.reconnectBackend, Keeps]
  by_cases hrun : s.state = .running
  · rw [if_neg (not_not.mpr hrun)]
    by_cases hname : name ∈ ((s.config.map Config.backends).getD Dict.empty).keys
    · rw [if_neg (not_not.mpr hname), forall_prop_of_true hrun, forall_prop_of_true hname]
      -- as long as no registry is made, it is of no account who is connected
      have hstays : ∀ sessions : Dict String Bool, WellFormed { s with sessions := sessions } ∧
          OneWhileRunning { s with sessions := sessions } := by
        refine fun sessions ↦ ⟨{ hwf with idle := fun h ↦ absurd hrun h }, fun _ ↦ ?_⟩
        obtain ⟨hchecker, hserver, hrouting, hbuilt⟩ := hone hrun
        exact ⟨hchecker, hserver, hrouting, hbuilt⟩
      rcases outcome with _ | ⟨rules, d⟩ | ⟨rules, d, done⟩
      · obtain ⟨hwf', hone'⟩ := hstays (s.sessions.del name)
        exact ⟨_, rfl, hwf', iff_of_true hone' (Or.inl rfl)⟩
      · dsimp only
        rcases hbuild : Registry.build s.config rules with _ | made
        · obtain ⟨hwf', hone'⟩ := hstays ((s.sessions.del name).set name true)
          rw [Registry.build_eq_none] at hbuild
          exact ⟨_, rfl, hwf', iff_of_true hone' (Or.inr ⟨d, hbuild ▸ rfl⟩)⟩
        · obtain ⟨built, hread, rfl⟩ := Registry.build_eq_some.mp hbuild
          obtain ⟨r, hr, -⟩ := Registry.exists_discover (stamped_make s.config built)
            ((s.sessions.del name).set name true) d
          dsimp only
          rw [hr]
          obtain ⟨hwf', hnot⟩ := adopt_spec hwf hrun (hone hrun) s.config
            ((s.sessions.del name).set name true) r
          refine ⟨_, rfl, hwf', iff_of_false hnot ?_⟩
          rintro (hfailed | ⟨d', hraised⟩)
          · exact absurd hfailed (by simp)
          · rw [Reconnect.reconnected.injEq] at hraised
            exact absurd (hraised.1 ▸ hread) (by simp [RulesRead.rules?])
      · obtain ⟨r, hr⟩ := Registry.exists_discoverUntil (stamped_make s.config rules)
          ((s.sessions.del name).set name true) d done
        dsimp only
        rw [hr]
        obtain ⟨hwf', hnot⟩ := adopt_spec hwf hrun (hone hrun) s.config (s.sessions.del name) r
        exact ⟨_, rfl, hwf', iff_of_false hnot (by simp)⟩
    · rw [if_pos hname]
      exact ⟨s, rfl, hwf, iff_of_true hone fun _ h ↦ absurd h hname⟩
  · rw [if_pos hrun]
    exact ⟨s, rfl, hwf, iff_of_true hone fun h ↦ absurd h hrun⟩

end Operations

/-! ## Runs -/

section Runs

variable {V : Type*} [DecidableEq V]

/-- In every state the operations lead to in which the service runs, there is one registry. -/
def AlwaysOneRegistry (ops : List (Op V)) : Prop :=
  ∀ pre m, pre <+: ops → Run.run Service.step Service.init pre = some m → m.state = .running →
    OneRegistry m

/-- Every operation returns, keeps the service well formed, and keeps the four together exactly if
it meets the condition. -/
theorem step_spec (s : Service V) (op : Op V) (hwf : WellFormed s) (hone : OneWhileRunning s) :
    ∃ m, s.step op = some m ∧ WellFormed m ∧ (OneWhileRunning m ↔ Keeps s op) := by
  rcases op with ⟨file, rules, connected, d⟩ | chainBuilt | ⟨file, rules, connected, d⟩ |
    ⟨name, outcome⟩
  · exact start_spec hwf hone file rules connected d
  · obtain ⟨hwf', hone'⟩ := attach_spec hwf hone chainBuilt
    exact ⟨_, rfl, hwf', iff_of_true hone' trivial⟩
  · exact reload_spec hwf hone file rules connected d
  · exact reconnect_spec hwf hone name outcome

/-- **One registry.** Whatever the operations and whatever they meet, the four use one registry in
every state in which the service runs exactly if no operation ever parts them. -/
theorem oneRegistry_iff (ops : List (Op V)) :
    AlwaysOneRegistry ops ↔ Run.Guarded Service.step Keeps Service.init ops := by
  have hinit : WellFormed (Service.init : Service V) :=
    ⟨Nat.zero_lt_one, by simp [Service.init], by simp [Service.init], by simp [Service.init],
      fun _ ↦ rfl⟩
  refine Run.forall_reached_iff_guarded (fun s op m hwf hone hm ↦ ?_) (fun s op hwf hone hm ↦ ?_)
    hinit (oneWhileRunning_of_ne (by simp [Service.init]))
  · obtain ⟨m', hm', hspec⟩ := step_spec s op hwf hone
    rw [hm, Option.some.injEq] at hm'
    exact hm' ▸ hspec
  · obtain ⟨m', hm', -⟩ := step_spec s op hwf hone
    exact absurd (hm.symm.trans hm') (by simp)

end Runs

/-! ### A backend is taken out of the file -/

/-- A file with the given backends, all alike, and no rules. -/
def fileWith (names : List String) : Config Unit where
  backends := Dict.ofList (names.map fun name ↦ (name, ⟨"sse", none, some (), none, none, none,
    none, none⟩))
  rules := .default

/-- Two backends start and are attached; then the file is read again, with one of them in it. -/
def removal : List (Op Unit) :=
  [.start (some (fileWith ["alpha", "beta"])) (.read .default) ["alpha", "beta"]
      (.inOrder (toolListing ["x"])),
    .attach true,
    .reload (some (fileWith ["alpha"])) (.read .default) [] (.inOrder (toolListing ["x"]))]

/-- The reload gives the service a new registry, and nobody else. -/
theorem not_alwaysOneRegistry_removal : ¬AlwaysOneRegistry removal := by
  intro h
  have hrun : Run.run Service.step Service.init removal
      = some ((Run.run Service.step Service.init removal).getD Service.init) :=
    Run.run_eq_some_getD (by decide) Service.init
  have hone := h removal _ (List.prefix_refl removal) hrun (by decide)
  exact absurd hone.checker (by decide)

/-! ## What the routing layer keeps -/

section Routing

variable {V : Type*} {s m : Service V}

/-- A registry as the service makes one: new, or filled by a discovery, or by one that was
cancelled. -/
inductive Made : Registry V → Prop
  | make (config : Option (Config V)) (rules : RegistryConfig) : Made (.make config rules)
  | discover {config : Option (Config V)} {rules : RegistryConfig}
    {sessions : Dict String Bool} {d : Discovery} {r : Registry V}
    (h : (Registry.make config rules).discover sessions d = some r) : Made r
  | discoverUntil {config : Option (Config V)} {rules : RegistryConfig}
    {sessions : Dict String Bool} {d : Discovery} {done : ℕ} {r : Registry V}
    (h : (Registry.make config rules).discoverUntil sessions d done = some r) : Made r

theorem Made.namesRouted {r : Registry V} (h : Made r) : r.state.view.NamesRouted := by
  rcases h with ⟨config, rules⟩ | @⟨config, rules, sessions, d, r, h⟩ |
    @⟨config, rules, sessions, d, done, r, h⟩
  · exact fun capType e he ↦ absurd he List.not_mem_nil
  · obtain ⟨called, hcalled, rfl⟩ := Option.map_eq_some_iff.mp h
    obtain ⟨after, logged, hcall, -, hview⟩ := exists_discoverCall
      (Registry.make config rules).rules d.replies (stamped_make config rules)
      (d.perm (RegistryState.discoverTasks (Registry.make config rules).state.fresh sessions))
    obtain rfl := Option.some.inj (hcalled.symm.trans hcall)
    dsimp only
    rw [hview]
    exact namesRouted_discovered
  · obtain ⟨st, hrun, rfl⟩ := Option.map_eq_some_iff.mp h
    have hperm := d.perm (RegistryState.discoverTasks (Registry.make config rules).state.fresh
      sessions)
    -- nothing is published before all tasks are done
    have hadvertised : st.advertisedLists = fun _ ↦ [] := by
      by_cases hne : d.order (RegistryState.discoverTasks
        (Registry.make config rules).state.fresh sessions) = []
      · rw [Registry.tasks, hne, List.take_nil] at hrun
        obtain rfl := Option.some.inj hrun
        exact congrArg View.lists
          (view_discoverAndRegister_of_nil (List.nil_perm.mp (hne ▸ hperm)))
      · obtain ⟨m, hrun', hm⟩ := exists_inProgress (Registry.make config rules).rules d.replies
          (stamped_make config rules) hperm hne (List.take_append_drop done _)
        obtain rfl := Option.some.inj (hrun.symm.trans hrun')
        exact hm.advertised
    intro capType e he
    have hmem : e ∈ st.advertisedLists capType := he
    rw [hadvertised] at hmem
    exact absurd hmem List.not_mem_nil

/-- Registries are added as they are made, the others stay as they were, and neither the server
nor the routing layer is given another. -/
structure Extends (s m : Service V) : Prop where
  added : ∃ added, m.registries = s.registries ++ added ∧ ∀ r ∈ added, Made r
  registry : m.registry < m.registries.length
  server : m.server = s.server
  routing : m.routing = s.routing

theorem Extends.same (hregs : m.registries = s.registries)
    (hreg : m.registry < s.registries.length) (hserver : m.server = s.server)
    (hrouting : m.routing = s.routing) : Extends s m :=
  ⟨⟨[], by rw [hregs, List.append_nil], by simp⟩, hregs ▸ hreg, hserver, hrouting⟩

theorem Extends.adopt {r : Registry V} (hmade : Made r)
    (hregs : m.registries = s.registries ++ [r]) (hreg : m.registry = s.registries.length)
    (hserver : m.server = s.server) (hrouting : m.routing = s.routing) : Extends s m := by
  refine ⟨⟨[r], hregs, fun r' hr' ↦ List.mem_singleton.mp hr' ▸ hmade⟩, ?_, hserver, hrouting⟩
  rw [hregs, hreg, List.length_append, List.length_singleton]
  omega

theorem extends_start {file : Option (Config V)} {rules : RulesRead} {connected : List String}
    {d : Discovery} (hreg : s.registry < s.registries.length)
    (h : s.start file rules connected d = some m) : Extends s m := by
  unfold Service.start at h
  split at h
  · exact Option.some.inj h ▸ .same rfl hreg rfl rfl
  · rcases file with _ | c
    · obtain rfl := Option.some.inj h
      exact .same rfl hreg rfl rfl
    · rcases hbuild : Registry.build (some c) rules with _ | made
      · simp only [hbuild, Option.some.injEq] at h
        exact h ▸ .same rfl hreg rfl rfl
      · obtain ⟨built, -, rfl⟩ := Registry.build_eq_some.mp hbuild
        simp only [hbuild] at h
        split at h
        · obtain rfl := Option.some.inj h
          exact .adopt (.make (some c) built) rfl rfl rfl rfl
        · obtain ⟨r, hr, rfl⟩ := Option.map_eq_some_iff.mp h
          refine .adopt ?_ rfl rfl rfl rfl
          split at hr
          · exact Option.some.inj hr ▸ .make (some c) built
          · exact .discover hr

theorem extends_reload [DecidableEq V] {file : Option (Config V)} {rules : RulesRead}
    {connected : List String} {d : Discovery} (hreg : s.registry < s.registries.length)
    (h : s.reload file rules connected d = some m) : Extends s m := by
  unfold Service.reload at h
  split at h
  · exact Option.some.inj h ▸ .same rfl hreg rfl rfl
  · rcases file with _ | c
    · exact Option.some.inj h ▸ .same rfl hreg rfl rfl
    · dsimp only at h
      split at h
      · obtain rfl := Option.some.inj h
        exact .same rfl hreg rfl rfl
      · rcases hbuild : Registry.build (some c) rules with _ | made
        · simp only [hbuild, Option.some.injEq] at h
          exact h ▸ .same rfl hreg rfl rfl
        · obtain ⟨built, -, rfl⟩ := Registry.build_eq_some.mp hbuild
          simp only [hbuild] at h
          obtain ⟨r, hr, rfl⟩ := Option.map_eq_some_iff.mp h
          exact .adopt (.discover hr) rfl rfl rfl rfl

theorem extends_reconnectBackend {name : String} {outcome : Reconnect}
    (hreg : s.registry < s.registries.length)
    (h : s.reconnectBackend name outcome = some m) : Extends s m := by
  unfold Service.reconnectBackend at h
  split at h
  · exact Option.some.inj h ▸ .same rfl hreg rfl rfl
  · split at h
    · exact Option.some.inj h ▸ .same rfl hreg rfl rfl
    · rcases outcome with _ | ⟨rules, d⟩ | ⟨rules, d, done⟩
      · obtain rfl := Option.some.inj h
        exact .same rfl hreg rfl rfl
      · rcases hbuild : Registry.build s.config rules with _ | made
        · simp only [hbuild, Option.some.injEq] at h
          exact h ▸ .same rfl hreg rfl rfl
        · obtain ⟨built, -, rfl⟩ := Registry.build_eq_some.mp hbuild
          simp only [hbuild] at h
          obtain ⟨r, hr, rfl⟩ := Option.map_eq_some_iff.mp h
          exact .adopt (.discover hr) rfl rfl rfl rfl
      · obtain ⟨r, hr, rfl⟩ := Option.map_eq_some_iff.mp h
        exact .adopt (.discoverUntil hr) rfl rfl rfl rfl

theorem extends_step [DecidableEq V] {op : Op V} (hop : ∀ chainBuilt, op ≠ .attach chainBuilt)
    (hreg : s.registry < s.registries.length) (h : s.step op = some m) : Extends s m := by
  rcases op with ⟨file, rules, connected, d⟩ | chainBuilt | ⟨file, rules, connected, d⟩ |
    ⟨name, outcome⟩
  · exact extends_start hreg h
  · exact absurd rfl (hop chainBuilt)
  · exact extends_reload hreg h
  · exact extends_reconnectBackend hreg h

/-- Registries stay as they were made, and the routing layer keeps its own. -/
structure SameRouting (s m : Service V) : Prop where
  registries : s.registries <+: m.registries
  registry : m.registry < m.registries.length
  routing : m.routing = s.routing

theorem Extends.sameRouting (h : Extends s m) : SameRouting s m := by
  obtain ⟨added, hadded, -⟩ := h.added
  exact ⟨⟨added, hadded.symm⟩, h.registry, h.routing⟩

theorem sameRouting_step [DecidableEq V] {op : Op V} (hop : op ≠ .attach true)
    (hreg : s.registry < s.registries.length) (h : s.step op = some m) : SameRouting s m := by
  by_cases hattach : op = .attach false
  · subst hattach
    obtain rfl := Option.some.inj h
    exact ⟨List.prefix_refl _, hreg, rfl⟩
  · refine (extends_step (fun chainBuilt ↦ ?_) hreg h).sameRouting
    rcases chainBuilt with _ | _
    · exact hattach
    · exact hop

end Routing

end Runtime

end ArgusMcp
