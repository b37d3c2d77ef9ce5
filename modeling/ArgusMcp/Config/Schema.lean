import ArgusMcp.Config.Import
import ArgusMcp.Library.Schema
import ArgusMcp.Workflows.Interpolation
import Mathlib.Data.List.DropRight

/-!
# The schema of backends and registries

The classes of `config/schema_backends.py` and `config/schema_registry.py`, as the fields they have.
An instance is what `model_dump` gives for it: its fields with their values, defaults included.

What becomes of a text is the same for a text that has been through it, with one exception. The
command of a `stdio` backend has to have a character, and is stripped then, so a blank command is
accepted and stored as the empty one, which is not accepted (`fill_backendFields_iff`).
-/

namespace ArgusMcp

namespace ConfigSchema

open Import Schema

/-! ## Texts -/

def strip (s : String) : String :=
  .ofList ((s.toList.dropWhile Workflows.isSpace).rdropWhile Workflows.isSpace)

/-- `str.lower`, as far as letters of ASCII are concerned. -/
def lower (s : String) : String := .ofList (s.toList.map Char.toLower)

/-- `re.compile(f"[{chars}]").search(s)`. -/
def hasAny (chars s : String) : Bool := s.toList.any fun c ↦ c ∈ chars.toList

/-- `^[A-Z][A-Z0-9_]*$`, where `$` lets a last line break pass. -/
def isEnvKey (key : String) : Bool :=
  match key.toList with
  | [] => false
  | c :: cs =>
    c.isUpper && (cs.dropWhile fun c ↦ c.isUpper || c.isDigit || c = '_') ∈ [[], ['\n']]

/-- `PurePosixPath(s)` is absolute, or has `..` among its parts. -/
def isOutside (s : String) : Bool :=
  "/".toList.isPrefixOf s.toList || ['.', '.'] ∈ s.toList.splitOn '/'

/-- What becomes of a text, or nothing where it is refused. -/
abbrev Check := String → Option String

/-- `min_length=1`. -/
def minLength : Check := fun s ↦ if s = "" then none else some s

/-- The field `url` of all classes that have one. -/
def url : Check := fun s ↦ (minLength s).bind fun s ↦
  if "http://".toList.isPrefixOf (strip s).toList ∨ "https://".toList.isPrefixOf (strip s).toList then
    some (strip s)
  else none

/-- `StdioBackendConfig.command`. -/
def stdioCommand : Check := fun s ↦ (minLength s).map strip

/-- `SseBackendConfig.command`. -/
def sseCommand : Check := fun s ↦ if strip s = "" then none else some (strip s)

def transport : Check := fun s ↦
  if lower (strip s) ∈ ["uvx", "npx", "go"] then some (lower (strip s)) else none

def dangerousDockerFlags : List String :=
  ["--privileged", "--cap-add", "--security-opt", "--device", "--pid", "--ipc", "--userns", "--uts",
    "--network=host", "--net=host", "--add-host", "--volume", "-v", "--mount"]

/-- `arg.split("=")[0].strip()`. -/
def flagOf (arg : String) : String := strip (.ofList (arg.toList.takeWhile fun c ↦ c ≠ '='))

/-- An argument that `_validate_extra_args` refuses. -/
def isDangerous (arg : String) : Bool :=
  arg ∈ dangerousDockerFlags || flagOf arg ∈ dangerousDockerFlags

/-! ## Values -/

/-- Scalars that are no strings and no truth values, with what the classes make of them, and the
checks that ask the host. -/
structure Scalars (O : Type) where
  null : O
  /-- Bytes as a text. -/
  decode : O → Option String
  /-- `str(v)`. -/
  text : Yaml O → String
  /-- What a list is made from, apart from lists. -/
  elements : O → Option (List (Yaml O))
  isInt : O → Bool
  isFloat : O → Bool
  toInt : Yaml O → Option {o // isInt o = true}
  toFloat : Yaml O → Option {o // isFloat o = true}
  toBool : Yaml O → Option Bool
  ofInt : ℤ → {o // isInt o = true}
  ofFloat : ℤ → {o // isFloat o = true}
  atLeast : ℤ → O → Bool
  atMost : ℤ → O → Bool
  atLeast_ofInt : ∀ n m, m ≤ n → atLeast m (ofInt n) = true
  atLeast_ofFloat : ∀ n m, m ≤ n → atLeast m (ofFloat n) = true
  /-- A volume with a host path within the prefixes that are allowed, or without a host path. -/
  volumeAllowed : String → Bool
  /-- The scheme and the host of a URL are those of a repository that may be cloned. -/
  sourceUrlAllowed : String → Bool
  /-- The text of a `ValidationError`. -/
  message : List (String × Yaml O) → String

section

variable {O : Type} [DecidableEq O] (S : Scalars O)

namespace Scalars

/-- What a field of type `str` makes of a value. -/
def str : Yaml O → Option String
  | .key (.str s) => some s
  | .key (.other o) => S.decode o
  | _ => none

/-- What a field of type `int` makes of a value. -/
def int : Yaml O → Option {o // S.isInt o = true}
  | .key (.other o) => if h : S.isInt o = true then some ⟨o, h⟩ else S.toInt (.key (.other o))
  | v => S.toInt v

/-- What a field of type `float` makes of a value. -/
def float : Yaml O → Option {o // S.isFloat o = true}
  | .key (.other o) => if h : S.isFloat o = true then some ⟨o, h⟩ else S.toFloat (.key (.other o))
  | v => S.toFloat v

/-- What a field of type `bool` makes of a value. -/
def bool : Yaml O → Option Bool
  | .bool b => some b
  | v => S.toBool v

def list : Yaml O → Option (List (Yaml O))
  | .list l => some l
  | .key (.other o) => S.elements o
  | _ => none

end Scalars

/-- `None`. -/
def null : Yaml O := .key (.other S.null)

def isNull : Yaml O → Bool
  | .key (.other o) => o = S.null
  | _ => false

omit [DecidableEq O] in
/-- The entries of a mapping whose keys are strings. -/
def arguments (d : List (Key O × Yaml O)) : List (String × Yaml O) :=
  d.filterMap fun e ↦
    match e.1 with
    | .str s => some (s, e.2)
    | .other _ => none

omit [DecidableEq O] in
/-- What `model_dump` gives. -/
def dump (values : List (String × Yaml O)) : List (Key O × Yaml O) :=
  values.map fun e ↦ (.str e.1, e.2)

omit [DecidableEq O] in
def entries : Yaml O → Option (List (Key O × Yaml O))
  | .map d => some d
  | _ => none

/-! ## Types of fields -/

/-- A text, with what becomes of it. -/
def textOf (check : Check) : Yaml O → Option (Yaml O) := fun v ↦
  ((S.str v).bind check).map fun s ↦ .key (.str s)

omit [DecidableEq O] in
/-- `Literal[...]`. -/
def literal (options : List String) : Yaml O → Option (Yaml O) := fun v ↦
  if (match v with | .key (.str s) => decide (s ∈ options) | _ => false) then some v else none

/-- `Optional[...]`. -/
def optional (f : Yaml O → Option (Yaml O)) : Yaml O → Option (Yaml O) := fun v ↦
  if isNull S v then some v else f v

/-- An integer between two bounds. -/
def intIn (p : O → Bool) : Yaml O → Option (Yaml O) := fun v ↦
  ((S.int v).bind fun o ↦ if p o.1 then some o else none).map fun o ↦ .key (.other o.1)

/-- A number between two bounds. -/
def floatIn (p : O → Bool) : Yaml O → Option (Yaml O) := fun v ↦
  ((S.float v).bind fun o ↦ if p o.1 then some o else none).map fun o ↦ .key (.other o.1)

def boolean : Yaml O → Option (Yaml O) := fun v ↦ ((S.bool v).bind some).map .bool

/-- `List[...]`. -/
def listOf (f : Yaml O → Option (Yaml O)) : Yaml O → Option (Yaml O) := fun v ↦
  ((S.list v).bind (List.mapM f)).map .list

/-- An entry of a mapping from texts. -/
def entryOf (f : Yaml O → Option (Yaml O)) (e : Key O × Yaml O) : Option (Key O × Yaml O) :=
  (S.str (.key e.1)).bind fun k ↦ (f e.2).map fun v ↦ (.str k, v)

/-- `Dict[str, ...]`. -/
def dictOf (f : Yaml O → Option (Yaml O)) : Yaml O → Option (Yaml O) := fun v ↦
  ((entries v).bind fun d ↦ (d.mapM (entryOf S f)).map fun d ↦ (Dict.ofList d).items).map .map

omit [DecidableEq O] in
/-- A model, and the validator that looks at the whole of it. -/
def model (fields : List (FieldInfo (Yaml O))) (p : List (String × Yaml O) → Bool) :
    Yaml O → Option (Yaml O) := fun v ↦
  (((entries v).map arguments).bind fun kwargs ↦ (fill fields kwargs).filter p).map fun values ↦
    .map (dump values)

omit [DecidableEq O] in
/-- An instance all of whose fields are the defaults. -/
def instanceOf (fields : List (FieldInfo (Yaml O))) : Yaml O :=
  .map (dump (fields.filterMap fun f ↦ f.default.map fun v ↦ (f.name, v)))

omit [DecidableEq O] in
def isNonempty : Option (Yaml O) → Bool
  | some (.list l) => !l.isEmpty
  | some (.map d) => !d.isEmpty
  | _ => false

/-! ## The classes -/

def texts : Yaml O → Option (Yaml O) := listOf S (textOf S some)

/-- A field that may be missing and is `None` then. -/
def nullable (name : String) (f : Yaml O → Option (Yaml O)) : FieldInfo (Yaml O) :=
  ⟨name, some (null S), optional S f⟩

omit [DecidableEq O] in
def required (name : String) (f : Yaml O → Option (Yaml O)) : FieldInfo (Yaml O) := ⟨name, none, f⟩

/-- `Field(default_factory=list)`. -/
def textsField (name : String) : FieldInfo (Yaml O) := ⟨name, some (.list []), texts S⟩

def MetadataProvenance : List (FieldInfo (Yaml O)) :=
  [nullable S "created_by" (textOf S some),
    nullable S "updated_by" (textOf S some),
    nullable S "created_via" (textOf S some),
    nullable S "updated_via" (textOf S some),
    nullable S "import_batch_id" (textOf S some),
    nullable S "metadata_version" (intIn S (S.atLeast 1))]

def TimeoutConfig : List (FieldInfo (Yaml O)) :=
  [nullable S "init" (floatIn S (S.atLeast 0)),
    nullable S "cap_fetch" (floatIn S (S.atLeast 0)),
    nullable S "sse_startup" (floatIn S (S.atLeast 0)),
    nullable S "startup" (floatIn S (S.atLeast 0)),
    nullable S "retries" (intIn S fun o ↦ S.atLeast 0 o && S.atMost 10 o),
    nullable S "retry_delay" (floatIn S fun o ↦ S.atLeast 0 o && S.atMost 120 o)]

def CapabilityFilterConfig : List (FieldInfo (Yaml O)) := [textsField S "allow", textsField S "deny"]

/-- A field that is itself a model, with defaults for all of its fields. -/
def modelField (name : String) (fields : List (FieldInfo (Yaml O))) : FieldInfo (Yaml O) :=
  ⟨name, some (instanceOf fields), model fields fun _ ↦ true⟩

def FiltersConfig : List (FieldInfo (Yaml O)) :=
  [modelField "tools" (CapabilityFilterConfig S), modelField "resources" (CapabilityFilterConfig S),
    modelField "prompts" (CapabilityFilterConfig S)]

def ToolOverrideEntry : List (FieldInfo (Yaml O)) :=
  [nullable S "name" (textOf S some), nullable S "description" (textOf S some)]

def StaticAuthConfig : List (FieldInfo (Yaml O)) :=
  [required "type" (literal ["static"]),
    required "headers" fun v ↦ (dictOf S (textOf S some) v).filter fun v ↦ isNonempty (some v)]

/-- The fields that both flows have. -/
def tokenFields : List (FieldInfo (Yaml O)) :=
  [textsField S "scopes",
    ⟨"token_expiry_buffer_seconds", some (.key (.other (S.ofFloat 300))), floatIn S (S.atLeast 0)⟩,
    ⟨"auth_retry_on_401", some (.bool true), boolean S⟩]

def OAuth2AuthConfig : List (FieldInfo (Yaml O)) :=
  [required "type" (literal ["oauth2"]),
    required "token_url" (textOf S minLength),
    required "client_id" (textOf S minLength),
    required "client_secret" (textOf S minLength)] ++ tokenFields S

def PKCEAuthConfig : List (FieldInfo (Yaml O)) :=
  [required "type" (literal ["pkce"]),
    required "authorization_endpoint" (textOf S minLength),
    required "token_endpoint" (textOf S minLength),
    required "client_id" (textOf S minLength),
    ⟨"client_secret", some (.key (.str "")), textOf S some⟩] ++ tokenFields S

/-- `AuthConfig`, told apart by the type. -/
def authConfig : Yaml O → Option (Yaml O) := fun v ↦
  match (entries v).bind (List.lookup (.str "type")) with
  | some (.key (.str "static")) => model (StaticAuthConfig S) (fun _ ↦ true) v
  | some (.key (.str "oauth2")) => model (OAuth2AuthConfig S) (fun _ ↦ true) v
  | some (.key (.str "pkce")) => model (PKCEAuthConfig S) (fun _ ↦ true) v
  | _ => none

/-- A text that is stripped, and `None` if nothing is left. -/
def strippedOr (allowed : String → Bool) : Yaml O → Option (Yaml O) := fun v ↦
  (S.str v).bind fun s ↦
    if strip s = "" then some (null S)
    else if allowed (strip s) then some (.key (.str (strip s))) else none

omit [DecidableEq O] in
/-- Every element of a list is a text with a property. -/
def allTexts (p : String → Bool) : Yaml O → Bool
  | .list l => l.all fun v ↦
    match v with
    | .key (.str s) => p s
    | _ => false
  | _ => true

omit [DecidableEq O] in
/-- Every key of a mapping has a property. -/
def allKeys (p : String → Bool) : Yaml O → Bool
  | .map d => d.all fun e ↦
    match e.1 with
    | .str s => p s
    | .other _ => false
  | _ => true

def ContainerConfig : List (FieldInfo (Yaml O)) :=
  [⟨"enabled", some (.bool true), boolean S⟩,
    nullable S "runtime" (literal ["docker", "podman", "kubernetes"]),
    nullable S "network" (textOf S fun s ↦ some (strip s)),
    nullable S "memory" (textOf S some),
    nullable S "cpus" (textOf S some),
    ⟨"volumes", some (.list []), fun v ↦ (texts S v).filter (allTexts S.volumeAllowed)⟩,
    ⟨"extra_args", some (.list []), fun v ↦ (texts S v).filter (allTexts fun s ↦ !isDangerous s)⟩,
    textsField S "system_deps",
    textsField S "build_system_deps",
    nullable S "builder_image" (textOf S some),
    textsField S "additional_packages",
    nullable S "transport" (textOf S transport),
    nullable S "go_package" (textOf S some),
    nullable S "source_url" (strippedOr S S.sourceUrlAllowed),
    ⟨"build_steps", some (.list []), fun v ↦
      (texts S v).filter (allTexts fun s ↦ !hasAny "\x60$()" s)⟩,
    nullable S "entrypoint" fun v ↦
      (texts S v).filter (allTexts fun s ↦ !hasAny ";&|\x60$()\x7b\x7d[]<>!#~\\\n\r" s),
    ⟨"build_env", some (.map []), fun v ↦ (dictOf S (textOf S some) v).filter (allKeys isEnvKey)⟩,
    nullable S "source_ref" (textOf S some),
    nullable S "dockerfile" (strippedOr S fun s ↦ !isOutside s)]

omit [DecidableEq O] in
/-- `_validate_source_url_deps`. -/
def sourceUrlDeps (values : List (String × Yaml O)) : Bool :=
  match values.lookup "source_url" with
  | some (.key (.str _)) =>
    isNonempty (values.lookup "build_steps") && isNonempty (values.lookup "entrypoint")
  | _ => true

/-- `None` stands for the defaults. -/
def containerConfig : Yaml O → Option (Yaml O) := fun v ↦
  model (ContainerConfig S) sourceUrlDeps (if isNull S v then .map [] else v)

/-- The fields at the end of the three classes. -/
def serverFields : List (FieldInfo (Yaml O)) :=
  [⟨"group", some (.key (.str "default")), textOf S some⟩,
    modelField "filters" (FiltersConfig S),
    ⟨"tool_overrides", some (.map []), dictOf S (model (ToolOverrideEntry S) fun _ ↦ true)⟩,
    modelField "timeouts" (TimeoutConfig S)]

/-- The fields of both classes that reach a server by a URL. -/
def remoteFields : List (FieldInfo (Yaml O)) :=
  [nullable S "headers" (dictOf S (textOf S some)), nullable S "auth" (authConfig S)]

def StdioBackendConfig : List (FieldInfo (Yaml O)) :=
  MetadataProvenance S ++
    [required "type" (literal ["stdio"]),
      required "command" (textOf S stdioCommand),
      textsField S "args",
      nullable S "env" (dictOf S (textOf S some)),
      ⟨"container", some (instanceOf (ContainerConfig S)), containerConfig S⟩] ++ serverFields S

def SseBackendConfig : List (FieldInfo (Yaml O)) :=
  MetadataProvenance S ++
    [required "type" (literal ["sse"]),
      required "url" (textOf S url),
      nullable S "command" (textOf S sseCommand),
      textsField S "args",
      nullable S "env" (dictOf S (textOf S some))] ++ remoteFields S ++ serverFields S

def StreamableHttpBackendConfig : List (FieldInfo (Yaml O)) :=
  MetadataProvenance S ++
    [required "type" (literal ["streamable-http"]),
      required "url" (textOf S url)] ++ remoteFields S ++ serverFields S

/-- The fields of `RegistryEntryConfig` other than the name. -/
def RegistryEntryConfig : List (FieldInfo (Yaml O)) :=
  MetadataProvenance S ++
    [required "url" (textOf S url),
      ⟨"type", some (.key (.str "auto")), literal ["auto", "glama", "smithery", "generic"]⟩,
      ⟨"priority", some (.key (.other (S.ofInt 100))), intIn S (S.atLeast 0)⟩,
      ⟨"auth", some (.key (.str "none")), literal ["none", "api-key", "bearer"]⟩,
      nullable S "api_key_env" (textOf S some),
      nullable S "token_env" (textOf S some)]

def backendFields : BackendType → List (FieldInfo (Yaml O))
  | .stdio => StdioBackendConfig S
  | .sse => SseBackendConfig S
  | .streamableHttp => StreamableHttpBackendConfig S

/-- What an import asks of the schema. -/
def schemaLib : Lib O (List (String × Yaml O)) (List (String × Yaml O)) where
  decode := S.decode
  text := S.text
  backendClass t kwargs :=
    match fill (backendFields S t) kwargs with
    | some values => .ok values
    | none => .invalid (S.message kwargs)
  registryFields kwargs :=
    match fill (RegistryEntryConfig S) kwargs with
    | some values => .ok values
    | none => .invalid (S.message kwargs)

end

/-! ## What a validator gives, it gives again -/

theorem strip_strip (s : String) : strip (strip s) = strip s := by
  rw [strip, strip, String.toList_ofList]
  congr 1
  generalize hl : s.toList.dropWhile Workflows.isSpace = l
  have hhead : (l.rdropWhile Workflows.isSpace).dropWhile Workflows.isSpace =
      l.rdropWhile Workflows.isSpace := by
    rw [List.dropWhile_eq_self_iff]
    intro hpos
    have hprefix := List.rdropWhile_prefix Workflows.isSpace l
    have hl' : 0 < l.length := Nat.lt_of_lt_of_le hpos hprefix.length_le
    rw [List.IsPrefix.getElem hprefix hpos]
    have hself : l.dropWhile Workflows.isSpace = l := by
      rw [← hl, List.dropWhile_idempotent]
    exact List.dropWhile_eq_self_iff.mp hself hl'
  rw [hhead, List.rdropWhile_idempotent]

theorem stable_minLength : Stable minLength := by
  intro s t h
  rw [minLength] at h
  split at h
  · exact absurd h (by simp)
  · rename_i hs
    obtain rfl := Option.some.inj h
    exact if_neg hs

theorem stable_url : Stable url := by
  intro s t h
  obtain ⟨s', -, h⟩ := Option.bind_eq_some_iff.mp h
  split at h
  · rename_i hscheme
    obtain rfl := Option.some.inj h
    have hne : strip s' ≠ "" := by
      intro hempty
      rw [hempty] at hscheme
      exact absurd hscheme (by decide)
    rw [url, minLength, if_neg hne, Option.bind_some, strip_strip, if_pos hscheme]
  · exact absurd h (by simp)

theorem stable_strip : Stable fun s ↦ some (strip s) := by
  intro s t h
  obtain rfl := Option.some.inj h
  exact congrArg some (strip_strip s)

theorem stable_sseCommand : Stable sseCommand := by
  intro s t h
  rw [sseCommand] at h
  split at h
  · exact absurd h (by simp)
  · rename_i hs
    obtain rfl := Option.some.inj h
    rw [sseCommand, strip_strip, if_neg hs]

theorem stable_transport : Stable transport := by
  intro s t h
  rw [transport] at h
  split at h
  · rename_i hs
    obtain rfl := Option.some.inj h
    have hself : ∀ t ∈ ["uvx", "npx", "go"], lower (strip t) = t := by decide
    rw [transport, hself _ hs, if_pos hs]
  · exact absurd h (by simp)

theorem stdioCommand_iff {s t : String} (h : stdioCommand s = some t) :
    stdioCommand t = some t ↔ t ≠ "" := by
  obtain ⟨s', -, rfl⟩ := Option.map_eq_some_iff.mp h
  rw [stdioCommand, minLength]
  split
  · rename_i hs
    exact iff_of_false (by simp) (not_not_intro hs)
  · rename_i hs
    exact iff_of_true (congrArg some (strip_strip s')) hs

section

variable {O : Type} [DecidableEq O] {S : Scalars O} {f : Yaml O → Option (Yaml O)}

omit [DecidableEq O] in
theorem stable_textOf {check : Check} (h : Stable check) : Stable (textOf S check) :=
  stable_conj h fun _ ↦ rfl

omit [DecidableEq O] in
theorem stable_literal (options : List String) :
    Stable (literal options : Yaml O → Option (Yaml O)) :=
  stable_guard _

theorem stable_optional_null (h : Stable f) : Stable (optional S f) :=
  stable_optional h _

omit [DecidableEq O] in
theorem stable_intIn (p : O → Bool) : Stable (intIn S p) :=
  @stable_conj _ _ _ (stable_guard fun o : {o // S.isInt o = true} ↦ p o.1) S.int
    (fun o ↦ .key (.other o.1)) fun o ↦ dif_pos o.2

omit [DecidableEq O] in
theorem stable_floatIn (p : O → Bool) : Stable (floatIn S p) :=
  @stable_conj _ _ _ (stable_guard fun o : {o // S.isFloat o = true} ↦ p o.1) S.float
    (fun o ↦ .key (.other o.1)) fun o ↦ dif_pos o.2

omit [DecidableEq O] in
theorem stable_boolean : Stable (boolean S) :=
  @stable_conj _ _ some (fun _ _ _ ↦ rfl) S.bool .bool fun _ ↦ rfl

omit [DecidableEq O] in
theorem stable_listOf (h : Stable f) : Stable (listOf S f) :=
  stable_conj (stable_mapM h) fun _ ↦ rfl

omit [DecidableEq O] in
theorem stable_entryOf (h : Stable f) : Stable (entryOf S f) := by
  intro e e' he
  obtain ⟨k, -, he⟩ := Option.bind_eq_some_iff.mp he
  obtain ⟨v, hv, rfl⟩ := Option.map_eq_some_iff.mp he
  rw [entryOf]
  dsimp only
  rw [h _ _ hv]
  rfl

omit [DecidableEq O] in
theorem arguments_dump (values : List (String × Yaml O)) : arguments (dump values) = values := by
  induction values with
  | nil => rfl
  | cons e values ih => exact congrArg (e :: ·) ih

omit [DecidableEq O] in
theorem stable_model {fields : List (FieldInfo (Yaml O))} (hnames : (fields.map FieldInfo.name).Nodup)
    (hfields : ∀ f ∈ fields, f.Settled) (p : List (String × Yaml O) → Bool) :
    Stable (model fields p) :=
  stable_conj (stable_filter (stable_fill hnames hfields) p) fun values ↦
    congrArg some (arguments_dump values)

/-- What is written under distinct keys comes from the list of assignments. -/
theorem stable_dictOf (h : Stable f) : Stable (dictOf S f) := by
  have hentries : Stable fun d ↦
      (List.mapM (entryOf S f) d).map fun d ↦ (Dict.ofList d).items := by
    intro d d' hd
    obtain ⟨l, hl, rfl⟩ := Option.map_eq_some_iff.mp hd
    have hself : (Dict.ofList l).items.mapM (entryOf S f) = some (Dict.ofList l).items := by
      refine mapM_eq_self fun e he ↦ ?_
      have hmem : e ∈ l := by
        have hget := Dict.mem_items_iff.mp he
        refine (Dict.get?_foldl_set_eq_some hget).resolve_right ?_
        simp
      obtain ⟨e', -, he'⟩ := exists_of_mem_mapM hl hmem
      exact stable_entryOf h e' e he'
    dsimp only
    rw [hself, Option.map_some, Dict.items_ofList (Dict.ofList l).nodup_keys]
  exact stable_conj hentries fun _ ↦ rfl

/-! ## The classes are settled -/

omit [DecidableEq O] in
theorem settled_required (name : String) (h : Stable f) : (required name f).Settled :=
  ⟨h, fun _ hv ↦ absurd hv (by simp [required])⟩

theorem settled_nullable (name : String) (h : Stable f) : (nullable S name f).Settled := by
  refine ⟨stable_optional_null h, fun v hv ↦ ?_⟩
  obtain rfl := Option.some.inj hv
  exact if_pos (decide_eq_true rfl)

omit [DecidableEq O] in
theorem settled_of_default {name : String} {d : Yaml O} (h : Stable f) (hd : f d = some d) :
    (⟨name, some d, f⟩ : FieldInfo (Yaml O)).Settled := by
  refine ⟨h, fun v hv ↦ ?_⟩
  obtain rfl := Option.some.inj hv
  exact hd

omit [DecidableEq O] in
theorem stable_texts : Stable (texts S) := stable_listOf (stable_textOf fun _ _ _ ↦ rfl)

omit [DecidableEq O] in
theorem settled_textsField (name : String) : (textsField S name).Settled :=
  settled_of_default stable_texts rfl

omit [DecidableEq O] in
theorem settled_modelField (name : String) {fields : List (FieldInfo (Yaml O))}
    (hnames : (fields.map FieldInfo.name).Nodup) (hfields : ∀ f ∈ fields, f.Settled)
    (hdefaults : ∀ f ∈ fields, f.default ≠ none) : (modelField name fields).Settled := by
  refine settled_of_default (stable_model hnames hfields _) ?_
  have hfill := stable_fill hnames hfields _ _ (fill_nil hdefaults)
  rw [model, instanceOf, entries, Option.map_some, Option.bind_some, arguments_dump, hfill]
  rfl

theorem settled_MetadataProvenance : ∀ f ∈ MetadataProvenance S, f.Settled := by
  simp only [MetadataProvenance, List.forall_mem_cons]
  have htext : Stable (textOf S some) := stable_textOf fun _ _ _ ↦ rfl
  exact ⟨settled_nullable _ htext, settled_nullable _ htext, settled_nullable _ htext,
    settled_nullable _ htext, settled_nullable _ htext, settled_nullable _ (stable_intIn _),
    fun _ h ↦ absurd h List.not_mem_nil⟩

theorem settled_TimeoutConfig : ∀ f ∈ TimeoutConfig S, f.Settled := by
  simp only [TimeoutConfig, List.forall_mem_cons]
  exact ⟨settled_nullable _ (stable_floatIn _), settled_nullable _ (stable_floatIn _),
    settled_nullable _ (stable_floatIn _), settled_nullable _ (stable_floatIn _),
    settled_nullable _ (stable_intIn _), settled_nullable _ (stable_floatIn _),
    fun _ h ↦ absurd h List.not_mem_nil⟩

omit [DecidableEq O] in
theorem settled_CapabilityFilterConfig : ∀ f ∈ CapabilityFilterConfig S, f.Settled := by
  simp only [CapabilityFilterConfig, List.forall_mem_cons]
  exact ⟨settled_textsField _, settled_textsField _, fun _ h ↦ absurd h List.not_mem_nil⟩

omit [DecidableEq O] in
theorem settled_FiltersConfig : ∀ f ∈ FiltersConfig S, f.Settled := by
  have hfilter : ∀ name, (modelField name (CapabilityFilterConfig S)).Settled := by
    intro name
    refine settled_modelField name ?_ settled_CapabilityFilterConfig ?_
    · simp [CapabilityFilterConfig, textsField]
    · simp [CapabilityFilterConfig, textsField]
  simp only [FiltersConfig, List.forall_mem_cons]
  exact ⟨hfilter _, hfilter _, hfilter _, fun _ h ↦ absurd h List.not_mem_nil⟩

theorem settled_ToolOverrideEntry : ∀ f ∈ ToolOverrideEntry S, f.Settled := by
  simp only [ToolOverrideEntry, List.forall_mem_cons]
  have htext : Stable (textOf S some) := stable_textOf fun _ _ _ ↦ rfl
  exact ⟨settled_nullable _ htext, settled_nullable _ htext,
    fun _ h ↦ absurd h List.not_mem_nil⟩

theorem settled_serverFields : ∀ f ∈ serverFields S, f.Settled := by
  simp only [serverFields, List.forall_mem_cons]
  refine ⟨settled_of_default (stable_textOf fun _ _ _ ↦ rfl) rfl, ?_, ?_, ?_,
    fun _ h ↦ absurd h List.not_mem_nil⟩
  · refine settled_modelField _ ?_ settled_FiltersConfig ?_
    · simp [FiltersConfig, modelField]
    · simp [FiltersConfig, modelField]
  · refine settled_of_default (stable_dictOf (stable_model ?_ settled_ToolOverrideEntry _)) rfl
    simp [ToolOverrideEntry, nullable]
  · refine settled_modelField _ ?_ settled_TimeoutConfig ?_
    · simp [TimeoutConfig, nullable]
    · simp [TimeoutConfig, nullable]

omit [DecidableEq O] in
theorem keywords_dump (values : List (String × Yaml O)) : keywords (dump values) = some values := by
  induction values with
  | nil => rfl
  | cons e values ih =>
    rw [dump, List.map_cons, keywords, List.mapM_cons, ← keywords, ← dump, ih]
    rfl

theorem lookup_dump (values : List (String × Yaml O)) (n : String) :
    (dump values).lookup (.str n) = values.lookup n :=
  (lookup_keywords (keywords_dump values) n).symm

omit [DecidableEq O] in
theorem eq_of_literal {t : String} {v w : Yaml O} (h : literal [t] v = some w) :
    w = .key (.str t) := by
  rcases v with (s | o) | b | l | d
  · obtain ⟨hs, heq⟩ := Option.ite_none_right_eq_some.mp h
    rw [← Option.some.inj heq, List.mem_singleton.mp (of_decide_eq_true hs)]
  · exact absurd h (by simp [literal])
  · exact absurd h (by simp [literal])
  · exact absurd h (by simp [literal])
  · exact absurd h (by simp [literal])

omit [DecidableEq O] in
theorem lookup_type {t : String} {fields : List (FieldInfo (Yaml O))}
    {kwargs values : List (String × Yaml O)} (hnames : (fields.map FieldInfo.name).Nodup)
    (htype : required "type" (literal [t]) ∈ fields) (h : fill fields kwargs = some values) :
    values.lookup "type" = some (.key (.str t)) := by
  obtain ⟨v, hv⟩ := exists_read_of_fill h htype
  have hlookup := lookup_fill hnames h htype
  rw [hv] at hlookup
  rw [FieldInfo.read] at hv
  split at hv
  · rw [← eq_of_literal hv]
    exact hlookup
  · exact absurd hv (by simp [required])

theorem lookup_type_model {t : String} {fields : List (FieldInfo (Yaml O))}
    {p : List (String × Yaml O) → Bool} {v w : Yaml O} (hnames : (fields.map FieldInfo.name).Nodup)
    (htype : required "type" (literal [t]) ∈ fields) (h : model fields p v = some w) :
    (entries w).bind (List.lookup (.str "type")) = some (.key (.str t)) := by
  obtain ⟨values, hvalues, rfl⟩ := Option.map_eq_some_iff.mp h
  obtain ⟨kwargs, -, hfill⟩ := Option.bind_eq_some_iff.mp hvalues
  rw [entries, Option.bind_some, lookup_dump]
  exact lookup_type hnames htype (Option.filter_eq_some_iff.mp hfill).1

theorem settled_StaticAuthConfig : ∀ f ∈ StaticAuthConfig S, f.Settled := by
  simp only [StaticAuthConfig, List.forall_mem_cons]
  exact ⟨settled_required _ (stable_literal _),
    settled_required _ (stable_filter (stable_dictOf (stable_textOf fun _ _ _ ↦ rfl)) _),
    fun _ h ↦ absurd h List.not_mem_nil⟩

omit [DecidableEq O] in
theorem settled_tokenFields : ∀ f ∈ tokenFields S, f.Settled := by
  simp only [tokenFields, List.forall_mem_cons]
  refine ⟨settled_textsField _, settled_of_default (stable_floatIn _) ?_,
    settled_of_default stable_boolean rfl, fun _ h ↦ absurd h List.not_mem_nil⟩
  rw [floatIn, Scalars.float, dif_pos (S.ofFloat 300).2, Option.bind_some,
    if_pos (S.atLeast_ofFloat 300 0 (by decide))]
  rfl

omit [DecidableEq O] in
theorem settled_OAuth2AuthConfig : ∀ f ∈ OAuth2AuthConfig S, f.Settled := by
  rw [OAuth2AuthConfig, List.forall_mem_append]
  refine ⟨?_, settled_tokenFields⟩
  simp only [List.forall_mem_cons]
  have htext : Stable (textOf S minLength) := stable_textOf stable_minLength
  exact ⟨settled_required _ (stable_literal _), settled_required _ htext,
    settled_required _ htext, settled_required _ htext, fun _ h ↦ absurd h List.not_mem_nil⟩

omit [DecidableEq O] in
theorem settled_PKCEAuthConfig : ∀ f ∈ PKCEAuthConfig S, f.Settled := by
  rw [PKCEAuthConfig, List.forall_mem_append]
  refine ⟨?_, settled_tokenFields⟩
  simp only [List.forall_mem_cons]
  have htext : Stable (textOf S minLength) := stable_textOf stable_minLength
  exact ⟨settled_required _ (stable_literal _), settled_required _ htext,
    settled_required _ htext, settled_required _ htext,
    settled_of_default (stable_textOf fun _ _ _ ↦ rfl) rfl, fun _ h ↦ absurd h List.not_mem_nil⟩

theorem stable_authConfig : Stable (authConfig S) := by
  intro v w h
  rw [authConfig] at h
  split at h
  · have hnames : ((StaticAuthConfig S).map FieldInfo.name).Nodup := by
      simp [StaticAuthConfig, required]
    have htype := lookup_type_model hnames List.mem_cons_self h
    rw [authConfig, htype]
    exact stable_model hnames settled_StaticAuthConfig _ v w h
  · have hnames : ((OAuth2AuthConfig S).map FieldInfo.name).Nodup := by
      simp [OAuth2AuthConfig, tokenFields, textsField, required]
    have htype := lookup_type_model hnames List.mem_cons_self h
    rw [authConfig, htype]
    exact stable_model hnames settled_OAuth2AuthConfig _ v w h
  · have hnames : ((PKCEAuthConfig S).map FieldInfo.name).Nodup := by
      simp [PKCEAuthConfig, tokenFields, textsField, required]
    have htype := lookup_type_model hnames List.mem_cons_self h
    rw [authConfig, htype]
    exact stable_model hnames settled_PKCEAuthConfig _ v w h
  · exact absurd h (by simp)

theorem stable_optional_strippedOr (allowed : String → Bool) :
    Stable (optional S (strippedOr S allowed)) := by
  intro v w h
  have hnull : optional S (strippedOr S allowed) (null S) = some (null S) :=
    if_pos (decide_eq_true rfl)
  rw [optional] at h
  split at h
  · rename_i hv
    obtain rfl := Option.some.inj h
    exact if_pos hv
  · obtain ⟨s, -, h⟩ := Option.bind_eq_some_iff.mp h
    split at h
    · obtain rfl := Option.some.inj h
      exact hnull
    · rename_i hne
      split at h
      · rename_i hallowed
        obtain rfl := Option.some.inj h
        rw [optional, if_neg (by simp [isNull]), strippedOr, Scalars.str, Option.bind_some,
          strip_strip, if_neg hne, if_pos hallowed]
      · exact absurd h (by simp)

theorem settled_ContainerConfig : ∀ f ∈ ContainerConfig S, f.Settled := by
  simp only [ContainerConfig, List.forall_mem_cons]
  have htext : Stable (textOf S some) := stable_textOf fun _ _ _ ↦ rfl
  have hfiltered : ∀ p : String → Bool, Stable fun v ↦ (texts S v).filter (allTexts p) :=
    fun p ↦ stable_filter stable_texts _
  have hstripped : ∀ name allowed, (nullable S name (strippedOr S allowed)).Settled := by
    intro name allowed
    refine ⟨stable_optional_strippedOr allowed, fun v hv ↦ ?_⟩
    obtain rfl := Option.some.inj hv
    exact if_pos (decide_eq_true rfl)
  exact ⟨settled_of_default stable_boolean rfl,
    settled_nullable _ (stable_literal _),
    settled_nullable _ (stable_textOf stable_strip),
    settled_nullable _ htext, settled_nullable _ htext,
    settled_of_default (hfiltered _) rfl, settled_of_default (hfiltered _) rfl,
    settled_textsField _, settled_textsField _,
    settled_nullable _ htext, settled_textsField _,
    settled_nullable _ (stable_textOf stable_transport),
    settled_nullable _ htext, hstripped _ _,
    settled_of_default (hfiltered _) rfl,
    settled_nullable _ (hfiltered _),
    settled_of_default (stable_filter (stable_dictOf htext) _) rfl,
    settled_nullable _ htext, hstripped _ _, fun _ h ↦ absurd h List.not_mem_nil⟩

@[simp] theorem isNull_map (d : List (Key O × Yaml O)) : isNull S (.map d) = false := rfl

theorem stable_containerConfig : Stable (containerConfig S) := by
  intro v w h
  have hnames : ((ContainerConfig S).map FieldInfo.name).Nodup := by
    simp [ContainerConfig, nullable, textsField]
  have hself := stable_model hnames settled_ContainerConfig sourceUrlDeps _ w h
  obtain ⟨values, -, rfl⟩ := Option.map_eq_some_iff.mp h
  rw [containerConfig, isNull_map, if_neg Bool.false_ne_true]
  exact hself

theorem settled_container :
    (⟨"container", some (instanceOf (ContainerConfig S)), containerConfig S⟩ :
      FieldInfo (Yaml O)).Settled := by
  refine settled_of_default stable_containerConfig ?_
  have hnames : ((ContainerConfig S).map FieldInfo.name).Nodup := by
    simp [ContainerConfig, nullable, textsField]
  have hdefaults : ∀ f ∈ ContainerConfig S, f.default ≠ none := by
    simp [ContainerConfig, nullable, textsField]
  have hfill := stable_fill hnames settled_ContainerConfig _ _ (fill_nil hdefaults)
  rw [containerConfig, instanceOf, isNull_map, if_neg Bool.false_ne_true, model, entries,
    Option.map_some, Option.bind_some, arguments_dump, hfill, Option.filter_some]
  rfl

/-! ## Backends and registries are taken again -/

theorem nodup_backendFields (S : Scalars O) (t : BackendType) :
    ((backendFields S t).map FieldInfo.name).Nodup := by
  cases t with
  | stdio =>
    simp [backendFields, StdioBackendConfig, MetadataProvenance, serverFields, required, nullable,
      textsField, modelField]
  | sse =>
    simp [backendFields, SseBackendConfig, MetadataProvenance, serverFields, remoteFields, required,
      nullable, textsField, modelField]
  | streamableHttp =>
    simp [backendFields, StreamableHttpBackendConfig, MetadataProvenance, serverFields,
      remoteFields, required, nullable, modelField]

theorem settled_remoteFields : ∀ f ∈ remoteFields S, f.Settled := by
  simp only [remoteFields, List.forall_mem_cons]
  exact ⟨settled_nullable _ (stable_dictOf (stable_textOf fun _ _ _ ↦ rfl)),
    settled_nullable _ stable_authConfig, fun _ h ↦ absurd h List.not_mem_nil⟩

theorem settled_SseBackendConfig : ∀ f ∈ SseBackendConfig S, f.Settled := by
  rw [SseBackendConfig, List.forall_mem_append, List.forall_mem_append, List.forall_mem_append]
  refine ⟨⟨⟨settled_MetadataProvenance, ?_⟩, settled_remoteFields⟩, settled_serverFields⟩
  simp only [List.forall_mem_cons]
  exact ⟨settled_required _ (stable_literal _), settled_required _ (stable_textOf stable_url),
    settled_nullable _ (stable_textOf stable_sseCommand), settled_textsField _,
    settled_nullable _ (stable_dictOf (stable_textOf fun _ _ _ ↦ rfl)),
    fun _ h ↦ absurd h List.not_mem_nil⟩

theorem settled_StreamableHttpBackendConfig :
    ∀ f ∈ StreamableHttpBackendConfig S, f.Settled := by
  rw [StreamableHttpBackendConfig, List.forall_mem_append, List.forall_mem_append,
    List.forall_mem_append]
  refine ⟨⟨⟨settled_MetadataProvenance, ?_⟩, settled_remoteFields⟩, settled_serverFields⟩
  simp only [List.forall_mem_cons]
  exact ⟨settled_required _ (stable_literal _), settled_required _ (stable_textOf stable_url),
    fun _ h ↦ absurd h List.not_mem_nil⟩

theorem settled_RegistryEntryConfig : ∀ f ∈ RegistryEntryConfig S, f.Settled := by
  rw [RegistryEntryConfig, List.forall_mem_append]
  refine ⟨settled_MetadataProvenance, ?_⟩
  simp only [List.forall_mem_cons]
  refine ⟨settled_required _ (stable_textOf stable_url), settled_of_default (stable_literal _) rfl,
    settled_of_default (stable_intIn _) ?_, settled_of_default (stable_literal _) rfl,
    settled_nullable _ (stable_textOf fun _ _ _ ↦ rfl),
    settled_nullable _ (stable_textOf fun _ _ _ ↦ rfl), fun _ h ↦ absurd h List.not_mem_nil⟩
  rw [intIn, Scalars.int, dif_pos (S.ofInt 100).2, Option.bind_some,
    if_pos (S.atLeast_ofInt 100 0 (by decide))]
  rfl

theorem stable_fill_RegistryEntryConfig : Stable (fill (RegistryEntryConfig S)) := by
  refine stable_fill ?_ settled_RegistryEntryConfig
  simp [RegistryEntryConfig, MetadataProvenance, required, nullable]

theorem fill_StdioBackendConfig_iff {kwargs values : List (String × Yaml O)}
    (h : fill (StdioBackendConfig S) kwargs = some values) :
    fill (StdioBackendConfig S) values = some values ↔
      values.lookup "command" ≠ some (.key (.str "")) := by
  have hnames : ((StdioBackendConfig S).map FieldInfo.name).Nodup := nodup_backendFields S .stdio
  have hcommand : required "command" (textOf S stdioCommand) ∈ StdioBackendConfig S := by
    simp [StdioBackendConfig]
  have hothers : ∀ f ∈ StdioBackendConfig S,
      f.Settled ∨ f = required "command" (textOf S stdioCommand) := by
    rw [StdioBackendConfig]
    simp only [List.forall_mem_append, List.forall_mem_cons]
    exact ⟨⟨fun f hf ↦ Or.inl (settled_MetadataProvenance f hf),
      Or.inl (settled_required _ (stable_literal _)), Or.inr trivial, Or.inl (settled_textsField _),
      Or.inl (settled_nullable _ (stable_dictOf (stable_textOf fun _ _ _ ↦ rfl))),
      Or.inl settled_container, fun _ h ↦ absurd h List.not_mem_nil⟩,
      fun f hf ↦ Or.inl (settled_serverFields f hf)⟩
  obtain ⟨v, hv⟩ := exists_read_of_fill h hcommand
  have hlookup : values.lookup "command" = some v := (lookup_fill hnames h hcommand).trans hv
  rw [fill_eq_self_iff hnames h, hlookup]
  have hread : ∃ s t, stdioCommand s = some t ∧ v = .key (.str t) := by
    rw [FieldInfo.read] at hv
    split at hv
    · obtain ⟨t, ht, rfl⟩ := Option.map_eq_some_iff.mp hv
      obtain ⟨s, -, hs⟩ := Option.bind_eq_some_iff.mp ht
      exact ⟨s, t, hs, rfl⟩
    · exact absurd hv (by simp [required])
  obtain ⟨s, t, ht, rfl⟩ := hread
  have hvalidate : textOf S stdioCommand (.key (.str t)) = some (.key (.str t)) ↔ t ≠ "" := by
    rw [← stdioCommand_iff ht, textOf, Scalars.str, Option.bind_some]
    cases stdioCommand t with
    | none => simp
    | some t' => simp
  constructor
  · intro hall heq
    have ht' := hvalidate.mp (hall _ hcommand _ hv)
    exact ht' (Key.str.inj (Yaml.key.inj (Option.some.inj heq)))
  · intro hne f hf w hw
    rcases hothers f hf with hsettled | rfl
    · exact hsettled.validate_of_read hw
    · obtain rfl := Option.some.inj (hv.symm.trans hw)
      exact hvalidate.mpr fun heq ↦ hne (by rw [heq])

/-- **A backend is taken again as it is**, unless its command is empty. -/
theorem fill_backendFields_iff {t : BackendType} {kwargs values : List (String × Yaml O)}
    (h : fill (backendFields S t) kwargs = some values) :
    fill (backendFields S t) values = some values ↔
      (t = .stdio → values.lookup "command" ≠ some (.key (.str ""))) := by
  cases t with
  | stdio => exact (fill_StdioBackendConfig_iff h).trans ⟨fun hne _ ↦ hne, fun hne ↦ hne rfl⟩
  | sse =>
    exact iff_of_true (stable_fill (nodup_backendFields S .sse) settled_SseBackendConfig _ _ h)
      fun h ↦ absurd h (by simp)
  | streamableHttp =>
    exact iff_of_true (stable_fill (nodup_backendFields S .streamableHttp)
      settled_StreamableHttpBackendConfig _ _ h) fun h ↦ absurd h (by simp)

end

end ConfigSchema

end ArgusMcp
