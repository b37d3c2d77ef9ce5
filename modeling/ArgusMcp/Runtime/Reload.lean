import ArgusMcp.Config.Loader

/-!
# What a reload answers

`ArgusService.reload` (`runtime/service.py`) loads the config file again and brings the backends in
line with it. It answers with a dictionary, and is written so as to answer also when the file cannot
be loaded: with the error in the dictionary, and nothing changed.

The exceptions it answers for are listed in its `except` clause; those the loader raises are in
another module. The two lists hardly meet. Nearly everything that is wrong with a config file comes
out of the loader as a `ConfigurationError`, which `reload` does not catch. So it answers exactly
for what the loader lets through and the list has (`answersFailure_iff`): for text that is not in
UTF-8, say, or for a backend with a number for a type.
-/

namespace ArgusMcp

namespace Runtime

open Loader

/-- What `reload` returns. -/
structure ReloadResult where
  reloaded : Bool
  backendsAdded : List String
  backendsRemoved : List String
  backendsChanged : List String
  errors : List String
  deriving DecidableEq, Repr

/-- A result that says only what went wrong. -/
def ReloadResult.failed (error : String) : ReloadResult := ⟨false, [], [], [], [error]⟩

/-- The service with its path and its counters. -/
structure Managed (V : Type*) where
  service : Service V
  configPath : Option String
  backendsTotal : ℕ
  backendsConnected : ℕ

/-- The classes in the `except` clause of `reload`, and in that of `_build_registry`. -/
def isAnswered : ErrorClass → Bool
  | .osError | .yamlError | .attributeError | .keyError | .valueError => true
  | .configurationError | .other => false

/-- What a reload meets after the file was loaded: the rules in the file, what it gives when the
registry is built, or what is raised then, the backends that answer a connection, and the
discovery. -/
structure Surroundings where
  fileRules : RegistryConfig
  rules : Except Raised RegistryConfig
  connected : List String
  discovery : Discovery

/-- What `_build_registry` gets. -/
def Surroundings.rulesRead (around : Surroundings) : RulesRead :=
  match around.rules with
  | .ok rules => .read rules
  | .error e => if isAnswered e.cls then .caught else .raised

namespace Managed

variable {O : Type} {V : Type*} [PyObject O] [DecidableEq V] (host : Host O V) (m : Managed V)
  (disk : String → ConfigFile) (around : Surroundings)

/-- The errors of a reload: the backends that did not connect. -/
def connectErrors (connected : List String) (diff : ConfigDiff) : List String :=
  ((diff.changed.filter fun name ↦ decide (name ∉ connected)).map fun name ↦
    "Failed to reconnect backend '" ++ name ++ "'.") ++
    (diff.added.filter fun name ↦ decide (name ∉ connected)).map fun name ↦
      "Failed to connect new backend '" ++ name ++ "'."

/-- `reload`, once the file is loaded. A registry is built only for somebody who is connected; what
`_build_registry` does not catch then comes out of the reload, halfway. -/
def reloadWith (validated : Dict String (BackendDict V)) :
    Option (Except Raised ReloadResult × Managed V) :=
  let config : Config V := ⟨validated.mapValues BackendDict.toBackendConf, around.fileRules⟩
  let old := (m.service.config.map Config.backends).getD Dict.empty
  let diff := computeDiff old config.backends
  let sorted := fun names : List String ↦ names.mergeSort fun a b ↦ decide (a ≤ b)
  let result : ReloadResult := ⟨true, sorted diff.added, sorted diff.removed, sorted diff.changed,
    connectErrors around.connected diff⟩
  (m.service.reload (some config) around.rulesRead around.connected around.discovery).map
    fun service ↦
      (match around.rules with
        | .ok _ => .ok result
        | .error e =>
          if isAnswered e.cls ∨ service.sessions.items = [] then .ok result else .error e,
        { m with
          service := service
          backendsTotal := validated.keys.length
          backendsConnected := service.sessions.keys.length })

/-- `reload`: what is returned or raised, and the service afterwards. -/
def reload : Option (Except Raised ReloadResult × Managed V) :=
  if m.service.state ≠ .running then
    some (.ok (.failed ("Cannot reload in state: " ++ m.service.state.value)), m)
  else
    match m.configPath with
    | none => some (.ok (.failed "No config path available."), m)
    | some path =>
      match loadAndValidateConfig host path (disk path) with
      | .error e =>
        if isAnswered e.cls then
          some (.ok (.failed ("Config reload failed: " ++ e.name ++ ": " ++ e.message)), m)
        else some (.error e, m)
      | .ok validated => m.reloadWith around validated

/-- **A failed reload is harmless**: there is an answer, which says that nothing was reloaded and
why, and nothing has changed. -/
def AnswersFailure : Prop :=
  ∃ result, m.reload host disk around = some (.ok result, m) ∧ result.reloaded = false ∧
    result.errors ≠ []

variable {host m disk}

/-- If the file of a running service is refused, the reload is harmless exactly if the loader lets
something through that `reload` catches. -/
theorem answersFailure_iff {path : String} (hstate : m.service.state = .running)
    (hpath : m.configPath = some path)
    (hrefused : ∃ e, loadAndValidateConfig host path (disk path) = .error e) :
    m.AnswersFailure host disk around ↔
      ∃ cls, LetThrough host path (disk path) cls ∧ isAnswered cls = true := by
  obtain ⟨e, he⟩ := hrefused
  -- what the loader raises is either answered or raised once more
  have hreload : m.reload host disk around =
      if isAnswered e.cls then
        some (.ok (.failed ("Config reload failed: " ++ e.name ++ ": " ++ e.message)), m)
      else some (.error e, m) := by
    rw [reload, if_neg (not_not.mpr hstate), hpath]
    dsimp only
    rw [he]
  rw [AnswersFailure, hreload]
  constructor
  · rintro ⟨result, hresult, -, -⟩
    split at hresult
    · rename_i hanswered
      refine ⟨e.cls, (load_eq_error he).resolve_left fun hcls ↦ ?_, hanswered⟩
      rw [hcls] at hanswered
      exact absurd hanswered (by decide)
    · exact absurd hresult (by simp)
  · rintro ⟨cls, hthrough, hanswered⟩
    obtain ⟨e', he', rfl⟩ := hthrough.exists_error
    obtain rfl := Except.error.inj (he.symm.trans he')
    rw [if_pos hanswered]
    exact ⟨_, rfl, rfl, by simp [ReloadResult.failed]⟩

/-! ### A file that is no mapping, and one that is no text -/

/-- A host that knows of one text what YAML makes of it. -/
def listHost : Host Empty String where
  parseYaml := fun content ↦
    if content = "[]" then .ok (.list [])
    else .error ⟨.yamlError, "ScannerError", "while scanning"⟩
  environ := fun _ ↦ none
  isWord := Char.isAlphanum
  upper := fun s ↦ s.map Char.toUpper
  fileSecret := fun _ _ ↦ .ok none
  keyringSecret := fun _ ↦ .ok none
  lowerStrip := fun s ↦ s.map Char.toLower
  tagError := Empty.elim
  modelValidate := fun _ ↦ .ok Dict.empty
  truthy := fun s ↦ s ≠ ""

/-- A service that runs, without backends. -/
def idleService : Managed String where
  service := { (Service.init : Service String) with state := .running }
  configPath := some "config.yaml"
  backendsTotal := 0
  backendsConnected := 0

def nothingAround : Surroundings where
  fileRules := .default
  rules := .ok .default
  connected := []
  discovery := .inOrder fun _ _ ↦ .ok .null

def listFile : ConfigFile := ⟨true, .ok "[]"⟩

/-- What is raised by reading a text that is not in UTF-8. -/
def decodeError : Raised :=
  ⟨.valueError, "UnicodeDecodeError", "'utf-8' codec can't decode byte 0xff in position 0"⟩

def binaryFile : ConfigFile := ⟨true, .error decodeError⟩

theorem refused_listFile : ∃ e, loadAndValidateConfig listHost "config.yaml" listFile = .error e :=
  ⟨configurationError "Top-level configuration content must be a YAML mapping (dictionary).", rfl⟩

theorem answersFailure_binaryFile :
    idleService.service.state = .running ∧ idleService.configPath = some "config.yaml" ∧
      (∃ e, loadAndValidateConfig listHost "config.yaml" binaryFile = .error e) ∧
      idleService.AnswersFailure listHost (fun _ ↦ binaryFile) nothingAround := by
  have hrefused : ∃ e, loadAndValidateConfig listHost "config.yaml" binaryFile = .error e :=
    ⟨_, rfl⟩
  have hthrough : LetThrough listHost "config.yaml" binaryFile decodeError.cls :=
    .raised rfl (by decide) rfl (by decide) (by decide)
  exact ⟨rfl, rfl, hrefused,
    (answersFailure_iff nothingAround rfl rfl hrefused).mpr ⟨_, hthrough, rfl⟩⟩

theorem not_answersFailure_listFile :
    idleService.service.state = .running ∧
      (∃ e, loadAndValidateConfig listHost "config.yaml" listFile = .error e) ∧
      ¬ idleService.AnswersFailure listHost (fun _ ↦ listFile) nothingAround := by
  refine ⟨rfl, refused_listFile, ?_⟩
  rintro ⟨result, hresult, -, -⟩
  have hraised : idleService.reload listHost (fun _ ↦ listFile) nothingAround =
      some (.error (configurationError
        "Top-level configuration content must be a YAML mapping (dictionary)."), idleService) := rfl
  rw [hraised] at hresult
  exact absurd hresult (by simp)

end Managed

end Runtime

end ArgusMcp
