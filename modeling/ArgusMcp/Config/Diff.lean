import ArgusMcp.Config.Loader

/-!
# What a reload notices

A reload compares the configuration in force with the one it has loaded, and sets up anew the
backends that have changed. What is compared is listed by hand for each type of backend
(`config/diff.py`); what the set-up of a connection reads of the dictionary is spread over
`bridge/backend_connection.py`, `bridge/transport_factory.py` and `bridge/startup_coordinator.py`.
It is gathered here in one value, the `Setup` of a backend.

## What it does not notice

The set-up also reads the settings of the container, the timeouts, and how often and after what time
to try again, and none of them is compared. Where only these change, the backend goes on with a
connection that was set up otherwise. A reload reaches the configured state exactly if there is no
such backend (`reachesConfigured_iff`).
-/

namespace ArgusMcp

namespace Loader

variable {V : Type*}

/-! ## What the set-up of a connection reads -/

/-- What is read of the dictionary of a backend when its connection is set up. -/
inductive Setup (V : Type*) where
  | stdio (params : Option (Runtime.StdioServerParameters V))
    (container initTimeout retries retryDelay : Option V)
  | sse (url command args env headers auth : Option V)
      (initTimeout startupTimeout sseStartupDelay retries retryDelay : Option V)
  | streamableHttp (url headers auth : Option V)
      (initTimeout startupTimeout retries retryDelay : Option V)
  | unsupported (type : String)

def setupOf (conf : BackendDict V) : Setup V :=
  if conf.type = "stdio" then
    .stdio conf.params conf.container conf.initTimeout conf.retries conf.retryDelay
  else if conf.type = "sse" then
    .sse conf.url conf.command conf.args conf.env conf.headers conf.auth conf.initTimeout
      conf.startupTimeout conf.sseStartupDelay conf.retries conf.retryDelay
  else if conf.type = "streamable-http" then
    .streamableHttp conf.url conf.headers conf.auth conf.initTimeout conf.startupTimeout
      conf.retries conf.retryDelay
  else .unsupported conf.type

/-! ## The connections through a reload -/

section Connections

variable (connected : List String) (newConfig : Dict String (BackendDict V))

/-- `_connect_backend` with the new dictionary. A session is recorded if the backend answers. -/
def connectSetup (connections : Dict String (Setup V)) (name : String) : Dict String (Setup V) :=
  match newConfig.get? name with
  | some conf => if name ∈ connected then connections.set name (setupOf conf) else connections
  | none => connections

/-- The connections after a reload, each with what it was set up from. -/
def reloadConnections (connections : Dict String (Setup V)) (diff : Runtime.ConfigDiff) :
    Dict String (Setup V) :=
  let kept := diff.removed.foldl Dict.del connections
  let reconnected := diff.changed.foldl
    (fun connections name ↦ connectSetup connected newConfig (connections.del name) name) kept
  diff.added.foldl (connectSetup connected newConfig) reconnected

/-- Every connection was set up from the dictionary of its backend. -/
def SetUpFrom (config : Dict String (BackendDict V)) (connections : Dict String (Setup V)) : Prop :=
  ∀ name setup, connections.get? name = some setup →
    ∃ conf, config.get? name = some conf ∧ setup = setupOf conf

end Connections

/-- The dictionaries of a validated configuration. -/
def dicts (truthy : V → Bool) (config : Dict String (BackendConfig V)) :
    Dict String (BackendDict V) :=
  config.mapValues (backendToDict truthy)

section Diff

variable [DecidableEq V]

/-- The difference that a reload computes. -/
def diffOf (oldConfig newConfig : Dict String (BackendDict V)) : Runtime.ConfigDiff :=
  Runtime.computeDiff (oldConfig.mapValues BackendDict.toBackendConf)
    (newConfig.mapValues BackendDict.toBackendConf)

/-- **A reload reaches the configured state.** A backend of both configurations counts as changed
exactly if something changed that its set-up reads; and if every connection was set up from the old
configuration, then afterwards every connection was set up from the new one. -/
def ReachesConfigured (oldConfig newConfig : Dict String (BackendDict V)) : Prop :=
  (∀ name old new, oldConfig.get? name = some old → newConfig.get? name = some new →
    (name ∈ (diffOf oldConfig newConfig).changed ↔ setupOf old ≠ setupOf new)) ∧
  ∀ connections connected, SetUpFrom oldConfig connections →
    SetUpFrom newConfig
      (reloadConnections connected newConfig connections (diffOf oldConfig newConfig))

end Diff

/-! ## The two groups of fields -/

def SseBackendConfig.localServer (truthy : V → Bool) (cfg : SseBackendConfig V) :
    Option (V × V × V) :=
  if truthy cfg.command then some (cfg.command, cfg.args, cfg.env) else none

/-- Headers that are empty are none. -/
def givenHeaders (truthy : V → Bool) (headers : V) : Option V :=
  if truthy headers then some headers else none

/-- The two backends are of one type and agree on the command, or on the URL, the local server, the
headers and the authentication. -/
def SameAddress (truthy : V → Bool) : BackendConfig V → BackendConfig V → Prop
  | .stdio old, .stdio new =>
    old.command = new.command ∧ old.args = new.args ∧ old.env = new.env
  | .sse old, .sse new =>
    old.url = new.url ∧ old.localServer truthy = new.localServer truthy ∧
      givenHeaders truthy old.headers = givenHeaders truthy new.headers ∧ old.auth = new.auth
  | .streamableHttp old, .streamableHttp new =>
    old.url = new.url ∧ givenHeaders truthy old.headers = givenHeaders truthy new.headers ∧
      old.auth = new.auth
  | _, _ => False

/-- Two backends of one type agree on the settings of the container, on the timeouts that are read
for this type, and on the number of retries and the delay before them. -/
def SameOptions : BackendConfig V → BackendConfig V → Prop
  | .stdio old, .stdio new =>
    old.container = new.container ∧ old.timeouts.init = new.timeouts.init ∧
      old.timeouts.retries = new.timeouts.retries ∧
      old.timeouts.retryDelay = new.timeouts.retryDelay
  | .sse old, .sse new =>
    old.timeouts.init = new.timeouts.init ∧ old.timeouts.startup = new.timeouts.startup ∧
      old.timeouts.sseStartup = new.timeouts.sseStartup ∧
      old.timeouts.retries = new.timeouts.retries ∧
      old.timeouts.retryDelay = new.timeouts.retryDelay
  | .streamableHttp old, .streamableHttp new =>
    old.timeouts.init = new.timeouts.init ∧ old.timeouts.startup = new.timeouts.startup ∧
      old.timeouts.retries = new.timeouts.retries ∧
      old.timeouts.retryDelay = new.timeouts.retryDelay
  | _, _ => True

section Fields

variable {truthy : V → Bool} {old new : BackendConfig V}

theorem setupOf_backendToDict (truthy : V → Bool) (cfg : BackendConfig V) :
    setupOf (backendToDict truthy cfg) = match cfg with
      | .stdio cfg => .stdio (some ⟨cfg.command, cfg.args, cfg.env⟩) (some cfg.container)
          cfg.timeouts.init cfg.timeouts.retries cfg.timeouts.retryDelay
      | .sse cfg => .sse (some cfg.url) ((cfg.localServer truthy).map fun s ↦ s.1)
          ((cfg.localServer truthy).map fun s ↦ s.2.1) ((cfg.localServer truthy).map fun s ↦ s.2.2)
          (givenHeaders truthy cfg.headers) cfg.auth cfg.timeouts.init cfg.timeouts.startup
          cfg.timeouts.sseStartup cfg.timeouts.retries cfg.timeouts.retryDelay
      | .streamableHttp cfg => .streamableHttp (some cfg.url) (givenHeaders truthy cfg.headers)
          cfg.auth cfg.timeouts.init cfg.timeouts.startup cfg.timeouts.retries
          cfg.timeouts.retryDelay := by
  rcases cfg with cfg | cfg | cfg
  · rfl
  · by_cases h : truthy cfg.command = true
    · simp [setupOf, backendToDict, entryOf, SseBackendConfig.localServer, givenHeaders, h,
        BackendConfig.timeouts]
    · simp [setupOf, backendToDict, entryOf, SseBackendConfig.localServer, givenHeaders, h,
        BackendConfig.timeouts]
  · rfl

theorem localServer_eq_iff {cfg cfg' : SseBackendConfig V} :
    cfg.localServer truthy = cfg'.localServer truthy ↔
      (cfg.localServer truthy).map (fun s ↦ s.1) = (cfg'.localServer truthy).map (fun s ↦ s.1) ∧
      (cfg.localServer truthy).map (fun s ↦ s.2.1) = (cfg'.localServer truthy).map (fun s ↦ s.2.1) ∧
      (cfg.localServer truthy).map (fun s ↦ s.2.2)
        = (cfg'.localServer truthy).map (fun s ↦ s.2.2) := by
  rcases cfg.localServer truthy with _ | ⟨c, a, e⟩
  · rcases cfg'.localServer truthy with _ | ⟨c', a', e'⟩
    · simp
    · simp
  · rcases cfg'.localServer truthy with _ | ⟨c', a', e'⟩
    · simp
    · simp

theorem setupOf_eq_iff : setupOf (backendToDict truthy old) = setupOf (backendToDict truthy new) ↔
    SameAddress truthy old new ∧ SameOptions old new := by
  rw [setupOf_backendToDict, setupOf_backendToDict]
  rcases old with old | old | old
  · rcases new with new | new | new
    · simp [SameAddress, SameOptions, and_assoc]
    · simp [SameAddress]
    · simp [SameAddress]
  · rcases new with new | new | new
    · simp [SameAddress]
    · simp [SameAddress, SameOptions, localServer_eq_iff, and_assoc]
    · simp [SameAddress]
  · rcases new with new | new | new
    · simp [SameAddress]
    · simp [SameAddress]
    · simp [SameAddress, SameOptions, and_assoc]

theorem configsDiffer_entryOf [DecidableEq V] :
    Runtime.configsDiffer (entryOf truthy old) (entryOf truthy new) = false ↔
      SameAddress truthy old new := by
  rcases old with old | old | old
  · rcases new with new | new | new
    · simp [Runtime.configsDiffer, entryOf, Runtime.stdioConfigsDiffer, SameAddress]
    · simp [Runtime.configsDiffer, entryOf, SameAddress]
    · simp [Runtime.configsDiffer, entryOf, SameAddress]
  · rcases new with new | new | new
    · simp [Runtime.configsDiffer, entryOf, SameAddress]
    · rw [SameAddress, localServer_eq_iff]
      by_cases hold : truthy old.command = true
      · by_cases hnew : truthy new.command = true
        · simp [Runtime.configsDiffer, entryOf, Runtime.sseConfigsDiffer,
            SseBackendConfig.localServer, givenHeaders, hold, hnew, and_assoc]
        · simp [Runtime.configsDiffer, entryOf, Runtime.sseConfigsDiffer,
            SseBackendConfig.localServer, hold, hnew]
      · by_cases hnew : truthy new.command = true
        · simp [Runtime.configsDiffer, entryOf, Runtime.sseConfigsDiffer,
            SseBackendConfig.localServer, hold, hnew]
        · simp [Runtime.configsDiffer, entryOf, Runtime.sseConfigsDiffer,
            SseBackendConfig.localServer, givenHeaders, hold, hnew]
    · simp [Runtime.configsDiffer, entryOf, SameAddress]
  · rcases new with new | new | new
    · simp [Runtime.configsDiffer, entryOf, SameAddress]
    · simp [Runtime.configsDiffer, entryOf, SameAddress]
    · simp [Runtime.configsDiffer, entryOf, Runtime.streamableConfigsDiffer, SameAddress,
        givenHeaders]

end Fields

/-! ## Reaching the configured state -/

section Connections

variable {connected : List String} {newConfig : Dict String (BackendDict V)}
  {connections : Dict String (Setup V)} {name : String}

/-- A connection of this name, if there is one, was set up from the new configuration. -/
def UpToDate (newConfig : Dict String (BackendDict V)) (connections : Dict String (Setup V))
    (name : String) : Prop :=
  ∀ setup, connections.get? name = some setup →
    ∃ conf, newConfig.get? name = some conf ∧ setup = setupOf conf

theorem UpToDate.del (h : UpToDate newConfig connections name) (name' : String) :
    UpToDate newConfig (connections.del name') name := by
  intro setup hget
  rw [Dict.get?_del] at hget
  split at hget
  · exact absurd hget (by simp)
  · exact h setup hget

theorem upToDate_del_self : UpToDate newConfig (connections.del name) name := by
  intro setup hget
  rw [Dict.get?_del, if_pos rfl] at hget
  exact absurd hget (by simp)

theorem UpToDate.connectSetup (h : UpToDate newConfig connections name) (name' : String) :
    UpToDate newConfig (connectSetup connected newConfig connections name') name := by
  rw [Loader.connectSetup]
  split
  · rename_i conf hconf
    split
    · intro setup hget
      rw [Dict.get?_set] at hget
      split at hget
      · rename_i hname
        subst hname
        exact ⟨conf, hconf, (Option.some.inj hget).symm⟩
      · exact h setup hget
    · exact h
  · exact h

/-- Steps that keep a connection up to date bring it up to date if one of them is about it. -/
theorem upToDate_foldl {step : Dict String (Setup V) → String → Dict String (Setup V)}
    (hkeep : ∀ connections name', UpToDate newConfig connections name →
      UpToDate newConfig (step connections name') name)
    (hself : ∀ connections, UpToDate newConfig (step connections name) name) (names : List String)
    (h : UpToDate newConfig connections name ∨ name ∈ names) :
    UpToDate newConfig (names.foldl step connections) name := by
  induction names generalizing connections with
  | nil => exact h.resolve_right List.not_mem_nil
  | cons name' names ih =>
    rw [List.foldl_cons]
    apply ih
    rcases h with h | h
    · exact Or.inl (hkeep connections name' h)
    · rcases List.mem_cons.mp h with rfl | hmem
      · exact Or.inl (hself connections)
      · exact Or.inr hmem

theorem upToDate_reloadConnections (diff : Runtime.ConfigDiff)
    (h : UpToDate newConfig connections name ∨ name ∈ diff.removed ∨ name ∈ diff.changed) :
    UpToDate newConfig (reloadConnections connected newConfig connections diff) name := by
  have hkept : UpToDate newConfig (diff.removed.foldl Dict.del connections) name ∨
      name ∈ diff.changed := by
    rcases h with h | h | h
    · exact Or.inl (upToDate_foldl (fun _ name' h ↦ h.del name') (fun _ ↦ upToDate_del_self) _
        (Or.inl h))
    · exact Or.inl (upToDate_foldl (fun _ name' h ↦ h.del name') (fun _ ↦ upToDate_del_self) _
        (Or.inr h))
    · exact Or.inr h
  have hreconnected := @upToDate_foldl _ newConfig (diff.removed.foldl Dict.del connections) name
    (fun connections name ↦ connectSetup connected newConfig (connections.del name) name)
    (fun _ name' h ↦ (h.del name').connectSetup name') (fun _ ↦ upToDate_del_self.connectSetup name)
    _ hkept
  exact List.foldlRecOn (motive := fun connections ↦ UpToDate newConfig connections name) diff.added
    (connectSetup connected newConfig) hreconnected fun _ h name' _ ↦ h.connectSetup name'

/-! ### The sessions of the service -/

def Tracks (sessions : Dict String Bool) (connections : Dict String (Setup V)) : Prop :=
  ∀ name, sessions.get? name = (connections.get? name).map fun _ ↦ true

variable {sessions : Dict String Bool}

theorem Tracks.del (h : Tracks sessions connections) (name : String) :
    Tracks (sessions.del name) (connections.del name) := by
  intro name'
  rw [Dict.get?_del, Dict.get?_del]
  split
  · rfl
  · exact h name'

theorem Tracks.connect (h : Tracks sessions connections) {name : String}
    (hnew : ∃ conf, newConfig.get? name = some conf) :
    Tracks (Runtime.Service.connectBackend connected sessions name)
      (Loader.connectSetup connected newConfig connections name) := by
  obtain ⟨conf, hconf⟩ := hnew
  rw [Runtime.Service.connectBackend, Loader.connectSetup, hconf]
  dsimp only
  split
  · intro name'
    rw [Dict.get?_set, Dict.get?_set]
    split
    · rfl
    · exact h name'
  · exact h

theorem Tracks.foldl {f : Dict String Bool → String → Dict String Bool}
    {g : Dict String (Setup V) → String → Dict String (Setup V)} {names : List String}
    (hstep : ∀ name ∈ names, ∀ s c, Tracks s c → Tracks (f s name) (g c name))
    (h : Tracks sessions connections) :
    Tracks (names.foldl f sessions) (names.foldl g connections) := by
  induction names generalizing sessions connections with
  | nil => exact h
  | cons name names ih =>
    obtain ⟨hname, hnames⟩ := List.forall_mem_cons.mp hstep
    exact ih hnames (hname _ _ h)

theorem Tracks.reload [DecidableEq V] (h : Tracks sessions connections)
    (oldConfig : Dict String (BackendDict V)) :
    Tracks (Runtime.Service.applyDiff connected sessions (diffOf oldConfig newConfig))
      (reloadConnections connected newConfig connections (diffOf oldConfig newConfig)) := by
  have hkeys : ∀ name, name ∈ (newConfig.mapValues BackendDict.toBackendConf).keys →
      ∃ conf, newConfig.get? name = some conf := by
    intro name hname
    obtain ⟨conf, hconf⟩ := Dict.mem_keys_iff.mp hname
    rw [Dict.get?_mapValues, Option.map_eq_some_iff] at hconf
    obtain ⟨conf, hconf, -⟩ := hconf
    exact ⟨conf, hconf⟩
  have hkept : Tracks ((diffOf oldConfig newConfig).removed.foldl Dict.del sessions)
      ((diffOf oldConfig newConfig).removed.foldl Dict.del connections) :=
    Tracks.foldl (fun name _ _ _ h ↦ h.del name) h
  rw [Runtime.Service.applyDiff, reloadConnections]
  refine Tracks.foldl (fun name hname _ _ h ↦ h.connect (hkeys name ?_)) ?_
  · exact (Runtime.mem_added_iff.mp hname).1
  · refine Tracks.foldl (fun name hname _ _ h ↦ (h.del name).connect (hkeys name ?_)) hkept
    exact (Runtime.mem_keys_of_mem_changed hname).2

end Connections

section Reload

variable [DecidableEq V] {oldConfig newConfig : Dict String (BackendDict V)}

theorem mem_changed_iff {name : String} {old new : BackendDict V}
    (hold : oldConfig.get? name = some old) (hnew : newConfig.get? name = some new) :
    name ∈ (diffOf oldConfig newConfig).changed ↔
      Runtime.configsDiffer old.toBackendConf new.toBackendConf = true := by
  rw [diffOf, Runtime.computeDiff, List.mem_filter, Dict.get?_mapValues, Dict.get?_mapValues, hold,
    hnew]
  refine and_iff_right (Dict.mem_keys_iff.mpr ⟨old.toBackendConf, ?_⟩)
  rw [Dict.get?_mapValues, hold, Option.map_some]

theorem mem_diffOf_removed_iff {name : String} : name ∈ (diffOf oldConfig newConfig).removed ↔
    (∃ old, oldConfig.get? name = some old) ∧ ∀ new, newConfig.get? name ≠ some new := by
  rw [diffOf, Runtime.mem_removed_iff, Dict.mem_keys_iff, Dict.mem_keys_iff, Dict.get?_mapValues,
    Dict.get?_mapValues]
  simp

/-- The condition, for the dictionaries: what is not seen to have changed is read as before. -/
theorem reachesConfigured_iff_setupOf : ReachesConfigured oldConfig newConfig ↔
    ∀ name old new, oldConfig.get? name = some old → newConfig.get? name = some new →
      (Runtime.configsDiffer old.toBackendConf new.toBackendConf = false ↔
        setupOf old = setupOf new) := by
  constructor
  · rintro ⟨hchanged, -⟩ name old new hold hnew
    have h := hchanged name old new hold hnew
    rw [mem_changed_iff hold hnew] at h
    rw [← Bool.not_eq_true, h, not_not]
  · intro h
    refine ⟨fun name old new hold hnew ↦ ?_, fun connections connected hsetup name setup hget ↦ ?_⟩
    · rw [mem_changed_iff hold hnew, ← Bool.not_eq_false, h name old new hold hnew]
    · refine upToDate_reloadConnections _ ?_ setup hget
      rcases hbefore : connections.get? name with _ | before
      · refine Or.inl fun setup hsome ↦ absurd (hbefore.symm.trans hsome) (by simp)
      · obtain ⟨old, hold, rfl⟩ := hsetup name before hbefore
        rcases hnew : newConfig.get? name with _ | new
        · refine Or.inr (Or.inl (mem_diffOf_removed_iff.mpr ⟨⟨old, hold⟩, fun new hsome ↦ ?_⟩))
          exact absurd (hnew.symm.trans hsome) (by simp)
        · by_cases heq : setupOf old = setupOf new
          · -- the connection that stays has been set up like the new one
            left
            intro setup hsome
            obtain rfl := Option.some.inj (hbefore.symm.trans hsome)
            exact ⟨new, hnew, heq⟩
          · refine Or.inr (Or.inr ((mem_changed_iff hold hnew).mpr ?_))
            rw [← Bool.not_eq_false, h name old new hold hnew]
            exact heq

end Reload

/-- **A reload reaches the configured state** exactly if every backend that has kept its address has
kept its options. -/
theorem reachesConfigured_iff [DecidableEq V] (truthy : V → Bool)
    (oldConfig newConfig : Dict String (BackendConfig V)) :
    ReachesConfigured (dicts truthy oldConfig) (dicts truthy newConfig) ↔
      ∀ name old new, oldConfig.get? name = some old → newConfig.get? name = some new →
        SameAddress truthy old new → SameOptions old new := by
  rw [reachesConfigured_iff_setupOf]
  constructor
  · intro h name old new hold hnew hsame
    have hiff := h name (backendToDict truthy old) (backendToDict truthy new)
      (by rw [dicts, Dict.get?_mapValues, hold, Option.map_some])
      (by rw [dicts, Dict.get?_mapValues, hnew, Option.map_some])
    exact (setupOf_eq_iff.mp (hiff.mp (configsDiffer_entryOf.mpr hsame))).2
  · intro h name old' new' hold hnew
    rw [dicts, Dict.get?_mapValues, Option.map_eq_some_iff] at hold hnew
    obtain ⟨old, hold, rfl⟩ := hold
    obtain ⟨new, hnew, rfl⟩ := hnew
    rw [setupOf_eq_iff]
    have hsame := @configsDiffer_entryOf _ truthy old new _
    constructor
    · intro hdiffer
      exact ⟨hsame.mp hdiffer, h name old new hold hnew (hsame.mp hdiffer)⟩
    · exact fun hboth ↦ hsame.mpr hboth.1

/-! ### More memory for a container -/

def oneContainer (memory : String) : Dict String (BackendConfig String) :=
  Dict.ofList [("files", .stdio
    { command := "npx", args := "[]", env := "", container := memory,
      timeouts := ⟨none, none, none, none, none, none⟩ })]

theorem not_reachesConfigured_memory :
    ¬ ReachesConfigured (dicts (fun s ↦ s ≠ "") (oneContainer "512m"))
      (dicts (fun s ↦ s ≠ "") (oneContainer "1g")) := by
  rintro ⟨hchanged, -⟩
  have hiff := hchanged "files" _ _ rfl rfl
  have hnot : "files" ∉ (diffOf (dicts (fun s ↦ s ≠ "") (oneContainer "512m"))
      (dicts (fun s ↦ s ≠ "") (oneContainer "1g"))).changed := by decide
  refine hnot (hiff.mpr fun heq ↦ ?_)
  exact absurd (Setup.stdio.inj heq).2.1 (by decide)

end Loader

end ArgusMcp
