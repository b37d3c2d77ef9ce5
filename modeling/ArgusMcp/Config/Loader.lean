import ArgusMcp.Library.Value
import ArgusMcp.Runtime.Service

/-!
# Loading the configuration

`load_and_validate_config` (`config/loader.py`) reads the config file, replaces references to
environment variables (`config/migration.py`) and to secrets (`secrets/resolver.py`), validates what
it has got, and turns each backend into the dictionary that the rest of the program reads.

The content of the file is arbitrary, and so are the parser, the environment, the stores of secrets
and the validation against the schema; they are the parameters of a `Host`. What is modelled is how
the loader puts them together, and above all which exception comes out of it in which case: the
loader turns what it expects into a `ConfigurationError`, and lets everything else through.

## Which exception

A file that is read, is a mapping, has few enough levels, does not name an unknown provider of
secrets and has no backend with a number or the like for a type is either accepted or refused with a
`ConfigurationError` (`load_eq_error`).
-/

namespace ArgusMcp

namespace Loader

/-! ## Exceptions -/

/-- The classes of exceptions that an `except` clause on the way tells apart. -/
inductive ErrorClass where
  | osError
  | yamlError
  | attributeError
  | keyError
  | valueError
  | configurationError
  | other
  deriving DecidableEq, Repr

/-- An exception: what it is an instance of, the name of its own class, and its text. -/
structure Raised where
  cls : ErrorClass
  name : String
  message : String
  deriving DecidableEq, Repr

def configurationError (message : String) : Raised :=
  ⟨.configurationError, "ConfigurationError", message⟩

def valueError (message : String) : Raised := ⟨.valueError, "ValueError", message⟩

/-! ## Backends -/

section Backends

variable {V : Type*}

/-- Per-backend timeouts. -/
structure TimeoutConfig (V : Type*) where
  init : Option V
  capFetch : Option V
  sseStartup : Option V
  startup : Option V
  retries : Option V
  retryDelay : Option V

/-- A backend that is a subprocess. Values are of any type, and `None` is among them; `container` is
the settings as `model_dump` gives them. -/
structure StdioBackendConfig (V : Type*) where
  command : V
  args : V
  env : V
  container : V
  timeouts : TimeoutConfig V

structure SseBackendConfig (V : Type*) where
  url : V
  command : V
  args : V
  env : V
  headers : V
  auth : Option V
  timeouts : TimeoutConfig V

structure StreamableHttpBackendConfig (V : Type*) where
  url : V
  headers : V
  auth : Option V
  timeouts : TimeoutConfig V

inductive BackendConfig (V : Type*) where
  | stdio (cfg : StdioBackendConfig V)
  | sse (cfg : SseBackendConfig V)
  | streamableHttp (cfg : StreamableHttpBackendConfig V)

def BackendConfig.timeouts : BackendConfig V → TimeoutConfig V
  | stdio cfg => cfg.timeouts
  | sse cfg => cfg.timeouts
  | streamableHttp cfg => cfg.timeouts

/-- The dictionary for a backend. What a reload compares is in the part it extends. -/
structure BackendDict (V : Type*) extends Runtime.BackendConf V where
  container : Option V
  initTimeout : Option V
  capFetchTimeout : Option V
  sseStartupDelay : Option V
  startupTimeout : Option V
  retries : Option V
  retryDelay : Option V

/-- The part of the dictionary that depends on the type, by whether a value counts as true. -/
def entryOf (truthy : V → Bool) : BackendConfig V → Runtime.BackendConf V
  | .stdio cfg =>
    { type := "stdio", params := some ⟨cfg.command, cfg.args, cfg.env⟩, url := none,
      command := none, args := none, env := none, headers := none, auth := none }
  | .sse cfg =>
    let whenLocal := fun value ↦ if truthy cfg.command then some value else none
    { type := "sse", params := none, url := some cfg.url, command := whenLocal cfg.command,
      args := whenLocal cfg.args, env := whenLocal cfg.env,
      headers := if truthy cfg.headers then some cfg.headers else none, auth := cfg.auth }
  | .streamableHttp cfg =>
    { type := "streamable-http", params := none, url := some cfg.url, command := none,
      args := none, env := none,
      headers := if truthy cfg.headers then some cfg.headers else none, auth := cfg.auth }

def backendToDict (truthy : V → Bool) (cfg : BackendConfig V) : BackendDict V :=
  { entryOf truthy cfg with
    container := match cfg with
      | .stdio cfg => some cfg.container
      | _ => none
    initTimeout := cfg.timeouts.init
    capFetchTimeout := cfg.timeouts.capFetch
    sseStartupDelay := cfg.timeouts.sseStartup
    startupTimeout := cfg.timeouts.startup
    retries := cfg.timeouts.retries
    retryDelay := cfg.timeouts.retryDelay }

end Backends

/-! ## What the loader meets -/

/-- The config file: whether it is there, and what comes of opening and reading it. -/
structure ConfigFile where
  present : Bool
  content : Except Raised String

/-- Everything the loader calls that is not of this program, and the schema. -/
structure Host (O : Type) (V : Type*) where
  /-- `yaml.safe_load`, or the parser in Rust. -/
  parseYaml : String → Except Raised (Value O)
  environ : String → Option String
  /-- What `\w` matches. -/
  isWord : Char → Bool
  /-- `str.upper`. -/
  upper : String → String
  /-- The secret of a name in an encrypted file. -/
  fileSecret : Value O → String → Except Raised (Option String)
  keyringSecret : String → Except Raised (Option String)
  /-- `s.lower().strip()`. -/
  lowerStrip : String → String
  /-- What is raised when an object is looked up among the types of backends, which takes a hash, or
  by its `lower`. -/
  tagError : O → Option Raised
  /-- `ArgusConfig.model_validate` behind the look at the types of backends: the backends, or the
  errors with their locations. -/
  modelValidate : Value O → Except (List (List String × String)) (Dict String (BackendConfig V))
  truthy : V → Bool

section Steps

variable {O : Type} {V : Type*} (host : Host O V)

/-! ## Reading -/

/-- `os.path.splitext(path)[1]`. Dots in front of a name belong to the name. -/
def extension (path : String) : List Char :=
  let stem := ((path.toList.reverse.takeWhile (· ≠ '/')).reverse).dropWhile (· = '.')
  if '.' ∈ stem then '.' :: (stem.reverse.takeWhile (· ≠ '.')).reverse else []

/-- The extension is one of `_YAML_EXTS`. -/
def isYaml (path : String) : Bool :=
  [".yaml".toList, ".yml".toList].contains ((extension path).map Char.toLower)

def readConfigFile (path : String) (file : ConfigFile) : Except Raised (Value O) :=
  let ext := String.ofList ((extension path).map Char.toLower)
  if isYaml path = false then
    .error (configurationError ("Unsupported config file extension '" ++ ext ++
      "'. Only YAML files (.yaml, .yml) are supported."))
  else
    match file.content.bind host.parseYaml with
    | .error e =>
      if e.cls = .osError ∨ e.cls = .yamlError then
        .error (configurationError
          ("Error reading configuration file: " ++ path ++ "\n  " ++ e.message))
      else .error e
    | .ok (.dict d) => .ok (.dict d)
    | .ok _ => .error (configurationError
        "Top-level configuration content must be a YAML mapping (dictionary).")

/-! ## Environment variables -/

/-- A reference `${VAR}` at the beginning of a text: the variable and what follows. -/
def envRef (isWord : Char → Bool) : List Char → Option (List Char × List Char)
  | '$' :: '\x7b' :: cs =>
    match cs.takeWhile isWord, cs.dropWhile isWord with
    | [], _ => none
    | name, '\x7d' :: rest => some (name, rest)
    | _, _ => none
  | _ => none

/-- `_ENV_VAR_RE.sub`: every reference to a variable that is set is replaced. The fuel is the length
of the text. -/
def expandChars : ℕ → List Char → List Char
  | 0, cs => cs
  | _ + 1, [] => []
  | fuel + 1, c :: cs =>
    match envRef host.isWord (c :: cs) with
    | none => c :: expandChars fuel cs
    | some (name, rest) =>
      ((host.environ (String.ofList name)).map String.toList).getD
        ('$' :: '\x7b' :: name ++ ['\x7d']) ++ expandChars fuel rest

/-- What `expand_env_vars` does on its way through a value. -/
def envWalker : Value.Walker Raised Unit where
  limit := 20
  tooDeep := fun _ ↦ valueError "expand_env_vars: recursion depth limit exceeded (max 20)"
  onStr := fun _ s ↦ .ok (String.ofList (expandChars host s.length s.toList))
  key := fun _ _ ↦ ()
  index := fun _ _ ↦ ()

def expandEnvVars (value : Value O) : Except Raised (Value O) :=
  Value.walk (envWalker host) () 0 value

/-! ## Secrets -/

/-- A name that `secret:<name>` refers to. A single line break at the end is passed over. -/
def secretName (value : String) : Option String :=
  if "secret:".toList <+: value.toList then
    let rest := value.toList.drop 7
    let name := rest.takeWhile (· ≠ '\n')
    if name ≠ [] ∧ (rest.drop name.length = [] ∨ rest.drop name.length = ['\n']) then
      some (String.ofList name)
    else none
  else none

mutual

def collectRefs : Value O → List String
  | .dict d => collectRefsDict d
  | .list l => collectRefsList l
  | .str s => (secretName s).toList
  | .none | .bool _ | .int _ | .obj _ => []

def collectRefsList : List (Value O) → List String
  | [] => []
  | v :: l => collectRefs v ++ collectRefsList l

def collectRefsDict : List (String × Value O) → List String
  | [] => []
  | (_, v) :: d => collectRefs v ++ collectRefsDict d

end

inductive SecretProvider (O : Type) where
  | env
  | file (path : Value O)
  | keyring

/-- `EnvProvider.get`, `FileProvider.get` and `KeyringProvider.get`. -/
def SecretProvider.get (name : String) : SecretProvider O → Except Raised (Option String)
  | env =>
    .ok (host.environ ("SECRET_" ++ (host.upper name).map fun c ↦ if c = '-' then '_' else c))
  | file path => host.fileSecret path name
  | keyring => host.keyringSecret name

def resolveString (provider : SecretProvider O) (strict : Bool) (path value : String) :
    Except Raised String :=
  match secretName value with
  | none => .ok value
  | some name =>
    match provider.get host name with
    | .error e => .error e
    | .ok (some resolved) => .ok resolved
    | .ok none =>
      if strict then
        .error ⟨.other, "SecretResolutionError",
          "Secret '" ++ name ++ "' not found (referenced at " ++ path ++ ")"⟩
      else .ok value

/-- What `_walk` does on its way through a value. -/
def secretWalker (provider : SecretProvider O) (strict : Bool) : Value.Walker Raised String where
  limit := 20
  tooDeep := fun path ↦
    valueError ("_walk: recursion depth limit exceeded at path '" ++ path ++ "' (max 20)")
  onStr := resolveString host provider strict
  key := fun path k ↦ path ++ "." ++ k
  index := fun path i ↦ path ++ "[" ++ toString i ++ "]"

variable [PyObject O]

/-- `create_provider`, with the path a section has for the file. -/
def createProvider (type : Value O) (path : Option (Value O)) :
    Except Raised (SecretProvider O) :=
  match type with
  | .str "env" => .ok .env
  | .str "file" =>
    .ok (.file ((path.filter fun v ↦ v.truthy).getD (.str "secrets.enc")))
  | .str "keyring" => .ok .keyring
  | v => .error (valueError ("Unknown secret provider type: " ++ PyObject.str v))

/-- The `secrets` section, if it is enabled and there is something to resolve. -/
def secretsToResolve (rawData : Value O) : Option (Value O) :=
  match rawData.get? "secrets" with
  | some (.dict secrets) =>
    if ((Value.dict secrets).get? "enabled").any Value.truthy ∧ collectRefs rawData ≠ [] then
      some (.dict secrets)
    else none
  | _ => none

/-- The provider that a `secrets` section asks for. -/
def providerType (secrets : Value O) : Value O := (secrets.get? "provider").getD (.str "env")

/-- `_maybe_resolve_secrets`. The store is made outside of what is caught. -/
def maybeResolveSecrets (rawData : Value O) : Except Raised (Value O) :=
  match secretsToResolve rawData with
  | none => .ok rawData
  | some secrets =>
    (createProvider (providerType secrets) (secrets.get? "path")).bind fun provider ↦
      let strict := (secrets.get? "strict").any Value.truthy
      match Value.walk (secretWalker host provider strict) "" 0 rawData with
      | .error e => .error (configurationError ("Secret resolution failed: " ++ e.message))
      | .ok resolved => .ok resolved

/-! ## The types of backends -/

/-- `sorted(_VALID_BACKEND_TYPES)`. -/
def validBackendTypes : List String := ["sse", "stdio", "streamable-http"]

def backendTypeHints : List (String × String) :=
  [("remote", "streamable-http"), ("http", "streamable-http"), ("https", "streamable-http"),
    ("streamable_http", "streamable-http"), ("streamablehttp", "streamable-http"),
    ("server-sent-events", "sse")]

def noLower (type : String) : Raised :=
  ⟨.attributeError, "AttributeError", "'" ++ type ++ "' object has no attribute 'lower'"⟩

/-- A `TypeError`. -/
def unhashable (type : String) : Raised :=
  ⟨.other, "TypeError", "unhashable type: '" ++ type ++ "'"⟩

/-- What is raised over a type that is no string. -/
def typeError : Value O → Option Raised
  | .none | .str _ => none
  | .bool _ => some (noLower "bool")
  | .int _ => some (noLower "int")
  | .list _ => some (unhashable "list")
  | .dict _ => some (unhashable "dict")
  | .obj o => host.tagError o

def backendError (cfg : Value O) : Option Raised := (cfg.get? "type").bind (typeError host)

def validTypesText : String := "Valid types: " ++ ", ".intercalate validBackendTypes

/-- The line about a type that is not known. -/
def unknownType (name : String) (type : Value O) (hint : Option String) : String :=
  let text := PyObject.str type
  "  • backends → " ++ name ++ ": unknown backend type '" ++ text ++ "'. " ++ validTypesText ++
    (hint.map fun h ↦ ". Hint: '" ++ text ++ "' is not an argus-mcp type — did you mean '" ++ h ++
      "'?").getD ""

/-- The line about a backend, if its type is none. -/
def badType (name : String) (cfg : Value O) : Option String :=
  match cfg with
  | .dict _ =>
    match cfg.get? "type" with
    | none | some .none =>
      some ("  • backends → " ++ name ++ ": missing required field 'type'. " ++ validTypesText)
    | some (.str type) =>
      if type ∈ validBackendTypes then none
      else some (unknownType name (.str type : Value O)
        (backendTypeHints.lookup (host.lowerStrip type)))
    | some type => some (unknownType name type none)
  | _ => none

/-- The loop of `_check_backend_types`. -/
def badTypes : List (String × Value O) → Except Raised (List String)
  | [] => .ok []
  | (name, cfg) :: backends =>
    match backendError host cfg with
    | some e => .error e
    | none => (badTypes backends).map ((badType host name cfg).toList ++ ·)

def checkBackendTypes (backends : Option (Value O)) : Except Raised Unit :=
  match backends with
  | some (.dict backends) =>
    (badTypes host backends).bind fun bad ↦
      if bad = [] then .ok ()
      else .error (configurationError ("Configuration validation failed (" ++
        toString bad.length ++ " error(s)):\n" ++ "\n".intercalate bad))
  | _ => .ok ()

/-! ## The loader -/

def formatValidationErrors (errors : List (List String × String)) : String :=
  "\n".intercalate (errors.map fun e ↦ "  • " ++ " → ".intercalate e.1 ++ ": " ++ e.2)

def loadAndValidateConfig (path : String) (file : ConfigFile) :
    Except Raised (Dict String (BackendDict V)) :=
  if file.present = false then
    .error (configurationError ("Configuration file does not exist: " ++ path))
  else
    (readConfigFile host path file).bind fun rawData ↦
      (expandEnvVars host rawData).bind fun rawData ↦
        (maybeResolveSecrets host rawData).bind fun rawData ↦
          (checkBackendTypes host (rawData.get? "backends")).bind fun _ ↦
            match host.modelValidate rawData with
            | .error errors => .error (configurationError
                ("Configuration validation failed (" ++ toString errors.length ++
                  " error(s)):\n" ++ formatValidationErrors errors))
            | .ok backends =>
              let validated := backends.mapValues (backendToDict host.truthy)
              if validated.items = [] ∧ backends.items ≠ [] then
                .error (configurationError
                  "No valid server configurations were found in the file.")
              else .ok validated

/-! ## Which exception comes out -/

def isKnownProvider : Value O → Bool
  | .str s => s = "env" || s = "file" || s = "keyring"
  | _ => false

/-- **What the loader lets through.** The file is found, and reading or parsing it raises something
that is neither an `OSError` nor a `YAMLError`; or it is a mapping that has too many levels; or it
refers to secrets and names a provider that there is not; or it has a backend with a type that is no
string, and looking that up raises something. -/
inductive LetThrough (path : String) (file : ConfigFile) : ErrorClass → Prop
  | raised {e : Raised} (hfile : file.present = true) (hpath : isYaml path = true)
      (h : file.content.bind host.parseYaml = .error e) (hos : e.cls ≠ .osError)
      (hyaml : e.cls ≠ .yamlError) : LetThrough path file e.cls
  | tooDeep {d : List (String × Value O)} (hfile : file.present = true)
      (hpath : isYaml path = true) (h : file.content.bind host.parseYaml = .ok (.dict d))
      (hheight : 20 < (Value.dict d).height) : LetThrough path file .valueError
  | unknownProvider {d : List (String × Value O)} {v secrets : Value O}
      (hfile : file.present = true) (hpath : isYaml path = true)
      (h : file.content.bind host.parseYaml = .ok (.dict d))
      (hexpand : expandEnvVars host (.dict d) = .ok v)
      (hsecrets : secretsToResolve v = some secrets)
      (hprovider : isKnownProvider (providerType secrets) = false) :
      LetThrough path file .valueError
  | badType {d backends : List (String × Value O)} {v w : Value O} {e : Raised}
      (hfile : file.present = true) (hpath : isYaml path = true)
      (h : file.content.bind host.parseYaml = .ok (.dict d))
      (hexpand : expandEnvVars host (.dict d) = .ok v)
      (hresolve : maybeResolveSecrets host v = .ok w)
      (hbackends : w.get? "backends" = some (.dict backends))
      (herror : backends.findSome? (fun b ↦ backendError host b.2) = some e) :
      LetThrough path file e.cls

theorem bind_eq_error_iff {E α β : Type*} {x : Except E α} {f : α → Except E β} {e : E} :
    x.bind f = .error e ↔ x = .error e ∨ ∃ a, x = .ok a ∧ f a = .error e := by
  rcases x with e' | a
  · simp [Except.bind]
  · simp [Except.bind]

variable {host} {path : String} {file : ConfigFile} {e : Raised}

omit [PyObject O] in
theorem readConfigFile_eq_ok_iff {v : Value O} : readConfigFile host path file = .ok v ↔
    isYaml path = true ∧ ∃ d, file.content.bind host.parseYaml = .ok (.dict d) ∧ v = .dict d := by
  rw [readConfigFile]
  rcases isYaml path with _ | _
  · simp
  rw [if_neg (by simp)]
  rcases file.content.bind host.parseYaml with e | v'
  · dsimp only
    split
    · simp
    · simp
  · rcases v' with _ | _ | _ | _ | _ | d | _
    all_goals simp [eq_comm]

omit [PyObject O] in
theorem readConfigFile_eq_error (h : readConfigFile host path file = .error e) :
    e.cls = .configurationError ∨ (isYaml path = true ∧
      file.content.bind host.parseYaml = .error e ∧ e.cls ≠ .osError ∧ e.cls ≠ .yamlError) := by
  rw [readConfigFile] at h
  split at h
  · exact Or.inl (Except.error.inj h ▸ rfl)
  rename_i hpath
  split at h
  · rename_i e' hcontent
    split at h
    · exact Or.inl (Except.error.inj h ▸ rfl)
    · rename_i hcls
      obtain rfl := Except.error.inj h
      rw [not_or] at hcls
      exact Or.inr ⟨by simpa using hpath, hcontent, hcls⟩
  · exact absurd h (by simp)
  · exact Or.inl (Except.error.inj h ▸ rfl)

omit [PyObject O] in
theorem expandEnvVars_eq_error_iff {v : Value O} :
    expandEnvVars host v = .error e ↔ 20 < v.height ∧
      e = valueError "expand_env_vars: recursion depth limit exceeded (max 20)" := by
  -- whatever a text is, it is expanded: only the levels are left to go wrong
  have htotal : (envWalker host).Total := fun _ s ↦ ⟨_, rfl⟩
  have hiff := Value.exists_walk_iff htotal () 0 v
  rw [Nat.zero_add] at hiff
  constructor
  · intro h
    obtain ⟨_, he⟩ := Value.exists_tooDeep htotal () 0 v h
    refine ⟨not_le.mp fun hle ↦ ?_, he⟩
    obtain ⟨v', hv'⟩ := hiff.mpr hle
    exact absurd (hv'.symm.trans h) (by simp)
  · rintro ⟨hheight, rfl⟩
    rcases hwalk : expandEnvVars host v with e | v'
    · obtain ⟨_, rfl⟩ := Value.exists_tooDeep htotal () 0 v hwalk
      rfl
    · exact absurd (hiff.mp ⟨v', hwalk⟩) (not_le.mpr hheight)

theorem createProvider_cases (type : Value O) (storePath : Option (Value O)) :
    (isKnownProvider type = true ∧ ∃ provider, createProvider type storePath = .ok provider) ∨
      (isKnownProvider type = false ∧
        ∃ message, createProvider type storePath = .error (valueError message)) := by
  unfold createProvider
  split
  · exact Or.inl ⟨rfl, _, rfl⟩
  · exact Or.inl ⟨rfl, _, rfl⟩
  · exact Or.inl ⟨rfl, _, rfl⟩
  · rename_i henv hfile hkeyring
    refine Or.inr ⟨?_, _, rfl⟩
    rcases type with _ | _ | _ | s | _ | _ | _
    case str =>
      rw [Value.str.injEq] at henv hfile hkeyring
      rw [isKnownProvider]
      simpa using ⟨⟨henv, hfile⟩, hkeyring⟩
    all_goals rfl

theorem maybeResolveSecrets_eq_error {v : Value O} (h : maybeResolveSecrets host v = .error e) :
    e.cls = .configurationError ∨ (e.cls = .valueError ∧ ∃ secrets,
      secretsToResolve v = some secrets ∧ isKnownProvider (providerType secrets) = false) := by
  rw [maybeResolveSecrets] at h
  split at h
  · exact absurd h (by simp)
  rename_i secrets hsecrets
  -- making the store is outside of what is caught, reading from it is inside
  rcases bind_eq_error_iff.mp h with hprovider | ⟨provider, -, hwalk⟩
  · rcases createProvider_cases (providerType secrets) (secrets.get? "path") with
      ⟨-, provider, hok⟩ | ⟨hunknown, message, herror⟩
    · exact absurd (hok.symm.trans hprovider) (by simp)
    · obtain rfl := Except.error.inj (herror.symm.trans hprovider)
      exact Or.inr ⟨rfl, secrets, hsecrets, hunknown⟩
  · dsimp only at hwalk
    split at hwalk
    · exact Or.inl (Except.error.inj hwalk ▸ rfl)
    · exact absurd hwalk (by simp)

/-- The loop raises what the first backend with such a type has raised. -/
theorem badTypes_eq_error_iff {backends : List (String × Value O)} :
    badTypes host backends = .error e ↔
      backends.findSome? (fun b ↦ backendError host b.2) = some e := by
  induction backends with
  | nil => simp [badTypes]
  | cons b backends ih =>
    obtain ⟨name, cfg⟩ := b
    rw [badTypes, List.findSome?_cons]
    rcases backendError host cfg with _ | e'
    · dsimp only
      rw [← ih]
      rcases badTypes host backends with e' | bad
      · rfl
      · simp [Except.map]
    · simp

theorem checkBackendTypes_eq_error {backends : Option (Value O)}
    (h : checkBackendTypes host backends = .error e) :
    e.cls = .configurationError ∨ ∃ d, backends = some (.dict d) ∧
      d.findSome? (fun b ↦ backendError host b.2) = some e := by
  unfold checkBackendTypes at h
  split at h
  · rename_i d
    rcases bind_eq_error_iff.mp h with hbad | ⟨bad, -, hbad⟩
    · exact Or.inr ⟨d, rfl, badTypes_eq_error_iff.mp hbad⟩
    · split at hbad
      · exact absurd hbad (by simp)
      · exact Or.inl (Except.error.inj hbad ▸ rfl)
  · exact absurd h (by simp)

/-- **Which exception comes out**: a `ConfigurationError`, or what the loader lets through. -/
theorem load_eq_error (h : loadAndValidateConfig host path file = .error e) :
    e.cls = .configurationError ∨ LetThrough host path file e.cls := by
  rw [loadAndValidateConfig] at h
  split at h
  · exact Or.inl (Except.error.inj h ▸ rfl)
  rename_i hfile
  rw [Bool.not_eq_false] at hfile
  rcases bind_eq_error_iff.mp h with hread | ⟨raw, hraw, h⟩
  · refine (readConfigFile_eq_error hread).imp_right ?_
    rintro ⟨hpath, hcontent, hos, hyaml⟩
    exact .raised hfile hpath hcontent hos hyaml
  -- what comes behind reading has a mapping to work on
  obtain ⟨hpath, d, hcontent, rfl⟩ := readConfigFile_eq_ok_iff.mp hraw
  rcases bind_eq_error_iff.mp h with hexpand | ⟨v, hexpand, h⟩
  · obtain ⟨hheight, rfl⟩ := expandEnvVars_eq_error_iff.mp hexpand
    exact Or.inr (.tooDeep hfile hpath hcontent hheight)
  rcases bind_eq_error_iff.mp h with hresolve | ⟨w, hresolve, h⟩
  · refine (maybeResolveSecrets_eq_error hresolve).imp_right ?_
    rintro ⟨hcls, secrets, hsecrets, hunknown⟩
    rw [hcls]
    exact .unknownProvider hfile hpath hcontent hexpand hsecrets hunknown
  rcases bind_eq_error_iff.mp h with htypes | ⟨-, -, h⟩
  · refine (checkBackendTypes_eq_error htypes).imp_right ?_
    rintro ⟨backends, hbackends, herror⟩
    exact .badType hfile hpath hcontent hexpand hresolve hbackends herror
  split at h
  · exact Or.inl (Except.error.inj h ▸ rfl)
  · dsimp only at h
    split at h
    · exact Or.inl (Except.error.inj h ▸ rfl)
    · exact absurd h (by simp)

theorem load_of_mapping {d : List (String × Value O)} (hfile : file.present = true)
    (hpath : isYaml path = true) (h : file.content.bind host.parseYaml = .ok (.dict d)) :
    ∃ rest : Value O → Unit → Except Raised (Dict String (BackendDict V)),
      loadAndValidateConfig host path file =
      ((expandEnvVars host (.dict d)).bind fun v ↦ (maybeResolveSecrets host v).bind fun w ↦
        (checkBackendTypes host (w.get? "backends")).bind (rest w)) := by
  have hread : readConfigFile host path file = .ok (.dict d) :=
    readConfigFile_eq_ok_iff.mpr ⟨hpath, d, h, rfl⟩
  rw [loadAndValidateConfig, if_neg (by simp [hfile]), hread]
  exact ⟨_, rfl⟩

/-- What the loader lets through does come out. -/
theorem LetThrough.exists_error {cls : ErrorClass} (h : LetThrough host path file cls) :
    ∃ e, loadAndValidateConfig host path file = .error e ∧ e.cls = cls := by
  rcases h with ⟨hfile, hpath, h, hos, hyaml⟩ | ⟨hfile, hpath, h, hheight⟩ |
    ⟨hfile, hpath, h, hexpand, hsecrets, hprovider⟩ |
    ⟨hfile, hpath, h, hexpand, hresolve, hbackends, herror⟩
  · rename_i e
    have hread : readConfigFile host path file = .error e := by
      rw [readConfigFile, if_neg (by simp [hpath]), h]
      exact if_neg (not_or.mpr ⟨hos, hyaml⟩)
    refine ⟨e, ?_, rfl⟩
    rw [loadAndValidateConfig, if_neg (by simp [hfile]), hread]
    rfl
  · obtain ⟨rest, hload⟩ := load_of_mapping hfile hpath h
    rw [hload, expandEnvVars_eq_error_iff.mpr ⟨hheight, rfl⟩]
    exact ⟨_, rfl, rfl⟩
  · rename_i v secrets
    obtain ⟨rest, hload⟩ := load_of_mapping hfile hpath h
    rcases createProvider_cases (providerType secrets) (secrets.get? "path") with
      ⟨hknown, -⟩ | ⟨-, message, herror⟩
    · exact absurd (hknown.symm.trans hprovider) (by simp)
    · have hresolve : maybeResolveSecrets host v = .error (valueError message) := by
        rw [maybeResolveSecrets, hsecrets]
        dsimp only
        rw [herror]
        rfl
      refine ⟨valueError message, ?_, rfl⟩
      rw [hload, hexpand]
      change (maybeResolveSecrets host v).bind _ = _
      rw [hresolve]
      rfl
  · rename_i backends v w e
    obtain ⟨rest, hload⟩ := load_of_mapping hfile hpath h
    have htypes : checkBackendTypes host (w.get? "backends") = .error e := by
      rw [hbackends, checkBackendTypes, badTypes_eq_error_iff.mpr herror]
      rfl
    refine ⟨e, ?_, rfl⟩
    rw [hload, hexpand]
    change (maybeResolveSecrets host v).bind _ = _
    rw [hresolve]
    change (checkBackendTypes host (w.get? "backends")).bind _ = _
    rw [htypes]
    rfl

end Steps

end Loader

end ArgusMcp
