import ArgusMcp.Library.Dict
import ArgusMcp.Library.Loop
import Mathlib.Data.Int.Notation

/-!
# Importing a configuration

`config/import_handler.py` merges a payload, which is a YAML mapping, into the configuration in
force. Three loops go through its backends, its registries and its feature flags. Each of them
decides, item by item, what becomes of the item, writes it into the configuration unless this is a
dry run, and makes a record of it.

The record comes last, and it takes strings only: for a name that is a number it cannot be made, and
the import ends with an exception. The same happens when an entry has a key that is no string, since
entries are keyword arguments of the classes of the schema, and when no new name is found.
-/

namespace ArgusMcp

namespace Import

/-! ## Payloads -/

/-- A scalar, as it may be the key of a mapping. -/
inductive Key (O : Type) where
  | str (s : String)
  /-- A number, a date, bytes, and so on. -/
  | other (o : O)
  deriving DecidableEq

/-- What a YAML document is read as. -/
inductive Yaml (O : Type) where
  | key (k : Key O)
  | bool (b : Bool)
  | list (l : List (Yaml O))
  | map (d : List (Key O × Yaml O))

/-- What ends an import. -/
inductive Raised where
  | typeError (message : String)
  | validationError (model field message : String)
  | importValidationError (message : String)
  | other (message : String)
  deriving DecidableEq

/-- What a class of the schema makes of its keyword arguments. -/
inductive Parsed (B : Type) where
  | ok (b : B)
  /-- A `ValidationError` or an `ImportValidationError`, with its text. -/
  | invalid (message : String)
  | raises (e : Raised)

inductive BackendType where
  | stdio
  | sse
  | streamableHttp
  deriving DecidableEq

/-- The classes of the schema, and what they make of scalars that are no strings. -/
structure Lib (O B R : Type) where
  /-- What a field of type `str` makes of one. -/
  decode : O → Option String
  /-- `str(v)` for a value that is not a string. -/
  text : Yaml O → String
  /-- `StdioBackendConfig`, `SseBackendConfig` and `StreamableHttpBackendConfig`. -/
  backendClass : BackendType → List (String × Yaml O) → Parsed B
  /-- The fields of `RegistryEntryConfig` other than the name. -/
  registryFields : List (String × Yaml O) → Parsed R

section

variable {O B R : Type} (lib : Lib O B R)

/-- What a field of type `str` makes of a value. -/
def Lib.asStr : Yaml O → Option String
  | .key (.str s) => some s
  | .key (.other o) => lib.decode o
  | _ => none

/-- A value in an f-string. -/
def Lib.format : Yaml O → String
  | .key (.str s) => s
  | v => lib.text v

/-- `**raw`. -/
def keywords (raw : List (Key O × Yaml O)) : Option (List (String × Yaml O)) :=
  raw.mapM fun e ↦
    match e.1 with
    | .str s => some (s, e.2)
    | .other _ => none

/-- A class is called with keyword arguments. -/
def call {A : Type} (make : List (String × Yaml O) → Parsed A) (raw : List (Key O × Yaml O)) :
    Parsed A :=
  match keywords raw with
  | none => .raises (.typeError "keywords must be strings")
  | some kwargs => make kwargs

end

/-! ## The configuration -/

structure RegistryEntryConfig (R : Type) where
  name : String
  fields : R

/-- The sections an import is about. -/
structure ArgusConfig (O B R : Type) where
  backends : Dict (Key O) B
  registries : List (RegistryEntryConfig R)
  featureFlags : Dict (Key O) Bool

/-- How to handle naming conflicts during import. -/
inductive ConflictStrategy where
  | skip
  | update
  | rename
  | fail
  deriving DecidableEq

inductive ImportItemStatus where
  | added
  | updated
  | skipped
  | renamed
  | failed
  deriving DecidableEq

structure ImportItemResult where
  name : String
  entityType : String
  status : ImportItemStatus
  newName : Option String
  error : Option String

structure ImportResult where
  dryRun : Bool
  conflictStrategy : ConflictStrategy
  items : List ImportItemResult
  errors : List String

section Import

variable {O B R : Type} [DecidableEq O] (lib : Lib O B R) (strategy : ConflictStrategy)
  (dryRun : Bool)

omit [DecidableEq O] in
def record (name : Yaml O) (entityType : String) (status : ImportItemStatus)
    (newName error : Option String) : Except Raised ImportItemResult :=
  match lib.asStr name with
  | none =>
    .error (.validationError "ImportItemResult" "name" "Input should be a valid string")
  | some name => .ok ⟨name, entityType, status, newName, error⟩

def generateRename (name : Yaml O) (existingNames : List (Key O)) : Option String :=
  ((List.range' 1 999).map fun i ↦ lib.format name ++ "_" ++ toString i).find?
    fun candidate ↦ Key.str candidate ∉ existingNames

def parseBackend (name : Key O) (raw : List (Key O × Yaml O)) : Parsed B :=
  match raw.lookup (.str "type") with
  | some (.key (.str "stdio")) => call (lib.backendClass .stdio) raw
  | some (.key (.str "sse")) => call (lib.backendClass .sse) raw
  | some (.key (.str "streamable-http")) => call (lib.backendClass .streamableHttp) raw
  | some btype => .invalid
      s!"Backend '{lib.format (.key name)}': unsupported type '{lib.format btype}'"
  | none => .invalid s!"Backend '{lib.format (.key name)}': unsupported type 'None'"

/-- `RegistryEntryConfig(**raw)`. -/
def registryEntryConfig (raw : List (Key O × Yaml O)) : Parsed (RegistryEntryConfig R) :=
  call (fun kwargs ↦
    match lib.registryFields kwargs with
    | .raises e => .raises e
    | .invalid message => .invalid message
    | .ok fields =>
      match (kwargs.lookup "name").bind lib.asStr with
      | none => .invalid "name: Input should be a valid string"
      | some name =>
        if name = "" then .invalid "name: String should have at least 1 character"
        else .ok ⟨name, fields⟩) raw

/-- The local variables of a loop: the configuration, and the names that are taken. -/
structure Locals (O B R : Type) where
  target : ArgusConfig O B R
  existingNames : List (Key O)

/-- `target.backends[name] = validated`, unless this is a dry run. -/
def ArgusConfig.putBackend (target : ArgusConfig O B R) (name : Key O) (validated : B) :
    ArgusConfig O B R :=
  if dryRun then target else { target with backends := target.backends.set name validated }

/-- The body of the loop of `_import_backends`. -/
def importBackend (l : Locals O B R) (entry : Key O × Yaml O) :
    Locals O B R × Except Raised ImportItemResult :=
  let name := entry.1
  let report := record lib (.key name) "backend"
  match entry.2 with
  | .map raw =>
    match parseBackend lib name raw with
    | .raises e => (l, .error e)
    | .invalid message => (l, report .failed none (some message))
    | .ok validated =>
      if name ∈ l.existingNames then
        match strategy with
        | .fail => (l, report .failed none
            (some s!"Backend '{lib.format (.key name)}' already exists"))
        | .skip => (l, report .skipped none none)
        | .rename =>
          match generateRename lib (.key name) l.existingNames with
          | none => (l, .error (.importValidationError
              s!"Cannot generate unique rename for '{lib.format (.key name)}' after 999 attempts"))
          | some newName =>
            (⟨l.target.putBackend dryRun (.str newName) validated, .str newName :: l.existingNames⟩,
              report .renamed (some newName) none)
        | .update =>
          ({ l with target := l.target.putBackend dryRun name validated },
            report .updated none none)
      else
        (⟨l.target.putBackend dryRun name validated, name :: l.existingNames⟩,
          report .added none none)
  | _ => (l, report .failed none (some "Backend config must be a mapping"))

def importBackends (target : ArgusConfig O B R) (rawBackends : Yaml O) :
    ArgusConfig O B R × Except Raised (List ImportItemResult) :=
  match rawBackends with
  | .map d =>
    let r := Loop.loop (importBackend lib strategy dryRun) ⟨target, target.backends.keys⟩ d
    (r.1.target, r.2)
  | _ => (target, .ok [])

omit [DecidableEq O] in
/-- `target.registries.append(validated_reg)`, unless this is a dry run. -/
def ArgusConfig.appendRegistry (target : ArgusConfig O B R) (reg : RegistryEntryConfig R) :
    ArgusConfig O B R :=
  if dryRun then target else { target with registries := target.registries ++ [reg] }

/-- The registries of that name are replaced, unless this is a dry run. -/
def ArgusConfig.updateRegistry (target : ArgusConfig O B R) (name : Key O)
    (reg : RegistryEntryConfig R) : ArgusConfig O B R :=
  if dryRun then target
  else { target with
    registries := target.registries.map fun r ↦ if Key.str r.name = name then reg else r }

/-- The name an entry of `registries` goes by, `raw_reg.get("name", f"registry_{idx}")`. -/
def regName (idx : ℕ) (raw : List (Key O × Yaml O)) : Yaml O :=
  (raw.lookup (.str "name")).getD (.key (.str s!"registry_{idx}"))

/-- The body of the loop of `_import_registries`. -/
def importRegistry (l : Locals O B R) (entry : Yaml O × ℕ) :
    Locals O B R × Except Raised ImportItemResult :=
  match entry.1 with
  | .map raw =>
    let name := regName entry.2 raw
    let report := record lib name "registry"
    match registryEntryConfig lib raw with
    | .raises e => (l, .error e)
    | .invalid message => (l, report .failed none (some message))
    | .ok validated =>
      match name with
      | .key k =>
        if k ∈ l.existingNames then
          match strategy with
          | .fail => (l, report .failed none
              (some s!"Registry '{lib.format name}' already exists"))
          | .skip => (l, report .skipped none none)
          | .update =>
            ({ l with target := l.target.updateRegistry dryRun k validated },
              report .updated none none)
          | .rename =>
            match generateRename lib name l.existingNames with
            | none => (l, .error (.importValidationError
                s!"Cannot generate unique rename for '{lib.format name}' after 999 attempts"))
            | some newName =>
              (⟨l.target.appendRegistry dryRun { validated with name := newName },
                .str newName :: l.existingNames⟩, report .renamed (some newName) none)
        else
          (⟨l.target.appendRegistry dryRun validated, k :: l.existingNames⟩,
            report .added none none)
      | _ => (l, .error (.typeError "unhashable type"))
  | _ => (l, record lib (.key (.str s!"registry[{entry.2}]")) "registry" .failed none
      (some "Registry entry must be a mapping"))

def importRegistries (target : ArgusConfig O B R) (rawRegistries : Yaml O) :
    ArgusConfig O B R × Except Raised (List ImportItemResult) :=
  match rawRegistries with
  | .list l =>
    let r := Loop.loop (importRegistry lib strategy dryRun)
      ⟨target, target.registries.map fun r ↦ .str r.name⟩ l.zipIdx
    (r.1.target, r.2)
  | _ => (target, .ok [])

/-- The body of the loop of `_import_feature_flags`. -/
def importFeatureFlag (target : ArgusConfig O B R) (entry : Key O × Yaml O) :
    ArgusConfig O B R × Except Raised ImportItemResult :=
  let name := entry.1
  let report := record lib (.key name) "feature_flag"
  match entry.2 with
  | .bool value =>
    if name ∈ target.featureFlags.keys ∧ strategy = .skip then
      (target, report .skipped none none)
    else if name ∈ target.featureFlags.keys ∧ strategy = .fail then
      (target, report .failed none
        (some s!"Feature flag '{lib.format (.key name)}' already exists"))
    else
      let status := if name ∈ target.featureFlags.keys then .updated else .added
      (if dryRun then target
        else { target with featureFlags := target.featureFlags.set name value },
        report status none none)
  | _ => (target, report .failed none (some "Feature flag value must be boolean"))

def importFeatureFlags (target : ArgusConfig O B R) (rawFlags : Yaml O) :
    ArgusConfig O B R × Except Raised (List ImportItemResult) :=
  match rawFlags with
  | .map d => Loop.loop (importFeatureFlag lib strategy dryRun) target d
  | _ => (target, .ok [])

def validateImportLimits (payload : List (Key O × Yaml O)) (maxBackends maxRegistries : ℤ) :
    List String :=
  (match payload.lookup (.str "backends") with
    | some (.map d) =>
      if maxBackends < d.length then
        [s!"Too many backends: {d.length} exceeds limit {maxBackends}"]
      else []
    | some _ => []
    -- the default is an empty mapping
    | none => if maxBackends < 0 then [s!"Too many backends: 0 exceeds limit {maxBackends}"] else [])
  ++ match payload.lookup (.str "registries") with
    | some (.list l) =>
      if maxRegistries < l.length then
        [s!"Too many registries: {l.length} exceeds limit {maxRegistries}"]
      else []
    | some _ => []
    | none =>
      if maxRegistries < 0 then [s!"Too many registries: 0 exceeds limit {maxRegistries}"] else []

/-- The value of a section that is to be imported. -/
def sectionOf (payload : List (Key O × Yaml O)) (entityTypes : List String) (name : String) :
    Option (Yaml O) :=
  if name ∈ entityTypes then payload.lookup (.str name) else none

def importSection (raw : Option (Yaml O))
    (imports : ArgusConfig O B R → Yaml O → ArgusConfig O B R × Except Raised (List ImportItemResult))
    (target : ArgusConfig O B R) : ArgusConfig O B R × Except Raised (List ImportItemResult) :=
  match raw with
  | some raw => imports target raw
  | none => (target, .ok [])

def importConfig (target : ArgusConfig O B R) (payload : List (Key O × Yaml O))
    (entityTypes : Option (List String)) (maxBackends maxRegistries : ℤ) :
    ArgusConfig O B R × Except Raised ImportResult :=
  let entityTypes := entityTypes.getD ["backends", "registries", "feature_flags", "plugins"]
  let limitErrors := validateImportLimits payload maxBackends maxRegistries
  if limitErrors = [] then
    let imported :=
      Loop.andThen
        (Loop.andThen
          (importSection (sectionOf payload entityTypes "backends")
            (importBackends lib strategy dryRun) target)
          (importSection (sectionOf payload entityTypes "registries")
            (importRegistries lib strategy dryRun)))
        (importSection (sectionOf payload entityTypes "feature_flags")
          (importFeatureFlags lib strategy dryRun))
    (imported.1, imported.2.map fun items ↦ ⟨dryRun, strategy, items, []⟩)
  else (target, .ok ⟨dryRun, strategy, [], limitErrors⟩)

end Import

/-! ## One item at a time -/

inductive Item (O : Type) where
  | backend (entry : Key O × Yaml O)
  | registry (entry : Yaml O × ℕ)
  | featureFlag (entry : Key O × Yaml O)

/-- The configuration, and the names that are taken. -/
structure State (O B R : Type) where
  target : ArgusConfig O B R
  backendNames : List (Key O)
  registryNames : List (Key O)

section Items

variable {O B R : Type} [DecidableEq O] (lib : Lib O B R) (strategy : ConflictStrategy)
  (dryRun : Bool)

omit [DecidableEq O] in
def State.init (target : ArgusConfig O B R) : State O B R :=
  ⟨target, target.backends.keys, target.registries.map fun r ↦ .str r.name⟩

def importItem (s : State O B R) : Item O → State O B R × Except Raised ImportItemResult
  | .backend entry =>
    let r := importBackend lib strategy dryRun ⟨s.target, s.backendNames⟩ entry
    (⟨r.1.target, r.1.existingNames, s.registryNames⟩, r.2)
  | .registry entry =>
    let r := importRegistry lib strategy dryRun ⟨s.target, s.registryNames⟩ entry
    (⟨r.1.target, s.backendNames, r.1.existingNames⟩, r.2)
  | .featureFlag entry =>
    let r := importFeatureFlag lib strategy dryRun s.target entry
    (⟨r.1, s.backendNames, s.registryNames⟩, r.2)

/-- The items of a section that is a mapping. -/
def mapItems (make : Key O × Yaml O → Item O) : Option (Yaml O) → List (Item O)
  | some (.map d) => d.map make
  | _ => []

def listItems (make : Yaml O × ℕ → Item O) : Option (Yaml O) → List (Item O)
  | some (.list l) => l.zipIdx.map make
  | _ => []

/-- All items of a payload, in the order in which they are imported. -/
def itemsOf (payload : List (Key O × Yaml O)) (entityTypes : Option (List String)) :
    List (Item O) :=
  let entityTypes := entityTypes.getD ["backends", "registries", "feature_flags", "plugins"]
  (mapItems .backend (sectionOf payload entityTypes "backends") ++
    listItems .registry (sectionOf payload entityTypes "registries")) ++
      mapItems .featureFlag (sectionOf payload entityTypes "feature_flags")

theorem registries_importBackend (l : Locals O B R) (entry : Key O × Yaml O) :
    (importBackend lib strategy dryRun l entry).1.target.registries = l.target.registries := by
  have hput : ∀ name (validated : B),
      (l.target.putBackend dryRun name validated).registries = l.target.registries := by
    intro name validated
    rw [ArgusConfig.putBackend]
    split <;> rfl
  rw [importBackend]
  repeat' split
  all_goals first | rfl | exact hput _ _

theorem backends_agree (raw : Option (Yaml O)) {target : ArgusConfig O B R} {s : State O B R}
    (h : target = s.target ∧ s.backendNames = target.backends.keys ∧
      s.registryNames = target.registries.map fun r ↦ .str r.name) :
    (let r := importSection raw (importBackends lib strategy dryRun) target
     let r' := Loop.loop (importItem lib strategy dryRun) s (mapItems .backend raw)
     (r.1 = r'.1.target ∧ r'.1.registryNames = r.1.registries.map fun r ↦ .str r.name) ∧
      r.2 = r'.2) := by
  obtain ⟨rfl, hnames, hregistries⟩ := h
  cases raw with
  | none => exact ⟨⟨rfl, hregistries⟩, rfl⟩
  | some raw =>
    cases raw with
    | key k | bool b | list l => exact ⟨⟨rfl, hregistries⟩, rfl⟩
    | map d =>
      have hloop := @Loop.loop_map _ _ _ _ _ _ (importBackend lib strategy dryRun)
        (importItem lib strategy dryRun) Item.backend
        (fun l t ↦ l.target = t.target ∧ l.existingNames = t.backendNames ∧
          t.registryNames = l.target.registries.map fun r ↦ .str r.name) ?_
        ⟨s.target, s.target.backends.keys⟩ s ⟨rfl, hnames.symm, hregistries⟩ d
      · obtain ⟨⟨htarget, -, hnames'⟩, hyields⟩ := hloop
        exact ⟨⟨htarget, hnames'⟩, hyields⟩
      · rintro l t entry ⟨htarget, hexisting, hregistries'⟩
        obtain ⟨target, existingNames⟩ := l
        obtain rfl := htarget
        obtain rfl := hexisting
        refine ⟨⟨rfl, rfl, ?_⟩, rfl⟩
        rw [registries_importBackend]
        exact hregistries'

theorem registries_agree (raw : Option (Yaml O)) {target : ArgusConfig O B R} {s : State O B R}
    (h : target = s.target ∧ s.registryNames = target.registries.map fun r ↦ .str r.name) :
    (let r := importSection raw (importRegistries lib strategy dryRun) target
     let r' := Loop.loop (importItem lib strategy dryRun) s (listItems .registry raw)
     r.1 = r'.1.target ∧ r.2 = r'.2) := by
  obtain ⟨rfl, hnames⟩ := h
  cases raw with
  | none => exact ⟨rfl, rfl⟩
  | some raw =>
    cases raw with
    | key k | bool b | map d => exact ⟨rfl, rfl⟩
    | list l =>
      have hloop := @Loop.loop_map _ _ _ _ _ _ (importRegistry lib strategy dryRun)
        (importItem lib strategy dryRun) Item.registry
        (fun l t ↦ l.target = t.target ∧ l.existingNames = t.registryNames) ?_
        ⟨s.target, s.target.registries.map fun r ↦ .str r.name⟩ s ⟨rfl, hnames.symm⟩ l.zipIdx
      · exact ⟨hloop.1.1, hloop.2⟩
      · rintro l t entry ⟨htarget, hexisting⟩
        obtain ⟨target, existingNames⟩ := l
        obtain rfl := htarget
        obtain rfl := hexisting
        exact ⟨⟨rfl, rfl⟩, rfl⟩

theorem featureFlags_agree (raw : Option (Yaml O)) {target : ArgusConfig O B R} {s : State O B R}
    (h : target = s.target) :
    (let r := importSection raw (importFeatureFlags lib strategy dryRun) target
     let r' := Loop.loop (importItem lib strategy dryRun) s (mapItems .featureFlag raw)
     r.1 = r'.1.target ∧ r.2 = r'.2) := by
  subst h
  cases raw with
  | none => exact ⟨rfl, rfl⟩
  | some raw =>
    cases raw with
    | key k | bool b | list l => exact ⟨rfl, rfl⟩
    | map d =>
      refine @Loop.loop_map _ _ _ _ _ _ (importFeatureFlag lib strategy dryRun)
        (importItem lib strategy dryRun) Item.featureFlag (fun target t ↦ target = t.target) ?_
        s.target s rfl d
      rintro target t entry rfl
      exact ⟨rfl, rfl⟩

theorem sections_agree (backends registries flags : Option (Yaml O)) (target : ArgusConfig O B R) :
    (let r := Loop.andThen
      (Loop.andThen (importSection backends (importBackends lib strategy dryRun) target)
        (importSection registries (importRegistries lib strategy dryRun)))
      (importSection flags (importFeatureFlags lib strategy dryRun))
     let r' := Loop.loop (importItem lib strategy dryRun) (.init target)
      ((mapItems .backend backends ++ listItems .registry registries) ++
        mapItems .featureFlag flags)
     r.1 = r'.1.target ∧ r.2 = r'.2) := by
  have hfirst := @backends_agree _ _ _ _ lib strategy dryRun backends target (.init target)
    ⟨rfl, rfl, rfl⟩
  dsimp only
  rw [Loop.loop_append, Loop.loop_append]
  refine @Loop.andThen_agree _ _ _ _ (fun t (s : State O B R) ↦ t = s.target)
    (fun t s ↦ t = s.target) _ _ ?_ (fun _ _ h ↦ h) _ _
    fun t s h ↦ featureFlags_agree lib strategy dryRun flags h
  exact @Loop.andThen_agree _ _ _ _ _ (fun t (s : State O B R) ↦ t = s.target) _ _ hfirst
    (fun _ _ h ↦ h.1) _ _ fun t s h ↦ registries_agree lib strategy dryRun registries h

/-- **An import is one loop over all items.** -/
theorem importConfig_eq (target : ArgusConfig O B R) (payload : List (Key O × Yaml O))
    (entityTypes : Option (List String)) (maxBackends maxRegistries : ℤ)
    (hlimits : validateImportLimits payload maxBackends maxRegistries = []) :
    importConfig lib strategy dryRun target payload entityTypes maxBackends maxRegistries =
      let r := Loop.loop (importItem lib strategy dryRun) (.init target)
        (itemsOf payload entityTypes)
      (r.1.target, r.2.map fun items ↦ ⟨dryRun, strategy, items, []⟩) := by
  have hsections := fun backends registries flags ↦
    sections_agree lib strategy dryRun backends registries flags target
  rw [importConfig]
  dsimp only
  rw [if_pos hlimits, (hsections _ _ _).1, (hsections _ _ _).2, itemsOf]

theorem importConfig_of_limits (target : ArgusConfig O B R) (payload : List (Key O × Yaml O))
    (entityTypes : Option (List String)) (maxBackends maxRegistries : ℤ)
    (hlimits : validateImportLimits payload maxBackends maxRegistries ≠ []) :
    importConfig lib strategy dryRun target payload entityTypes maxBackends maxRegistries =
      (target, .ok ⟨dryRun, strategy, [],
        validateImportLimits payload maxBackends maxRegistries⟩) := by
  rw [importConfig]
  exact if_neg hlimits

end Items

/-! ## What becomes of an item -/

section Cases

variable {O B R : Type} [DecidableEq O] {lib : Lib O B R} {strategy : ConflictStrategy}
  {dryRun : Bool}

omit [DecidableEq O] in
theorem record_eq_error_iff {name : Yaml O} {entityType : String} {status : ImportItemStatus}
    {newName error : Option String} :
    (∃ e, record lib name entityType status newName error = .error e) ↔ lib.asStr name = none := by
  rw [record]
  cases lib.asStr name with
  | none => simp
  | some s => simp

omit [DecidableEq O] in
theorem record_eq_ok_iff {name : Yaml O} {entityType : String} {status : ImportItemStatus}
    {newName error : Option String} {r : ImportItemResult} :
    record lib name entityType status newName error = .ok r ↔
      ∃ s, lib.asStr name = some s ∧ ⟨s, entityType, status, newName, error⟩ = r := by
  rw [record]
  cases lib.asStr name with
  | none => simp
  | some s => simp

theorem lookup_keywords {raw : List (Key O × Yaml O)} {kwargs : List (String × Yaml O)}
    (h : keywords raw = some kwargs) (n : String) : kwargs.lookup n = raw.lookup (.str n) := by
  induction raw generalizing kwargs with
  | nil =>
    obtain rfl := Option.some.inj h
    rfl
  | cons e raw ih =>
    obtain ⟨k, v⟩ := e
    rw [keywords, List.mapM_cons] at h
    cases k with
    | other o => exact absurd h (by simp)
    | str s =>
      obtain ⟨e, he, h⟩ := Option.bind_eq_some_iff.mp h
      obtain rfl := Option.some.inj he
      obtain ⟨kwargs', hrest, h⟩ := Option.bind_eq_some_iff.mp h
      obtain rfl := Option.some.inj h
      rw [List.lookup_cons, List.lookup_cons, ih hrest]
      by_cases hs : n = s
      · subst hs
        simp
      · have hk : (Key.str n : Key O) ≠ .str s := fun h ↦ hs (Key.str.inj h)
        rw [beq_eq_false_iff_ne.mpr hs, beq_eq_false_iff_ne.mpr hk]

theorem asStr_regName {raw : List (Key O × Yaml O)} {validated : RegistryEntryConfig R}
    (h : registryEntryConfig lib raw = .ok validated) (idx : ℕ) :
    lib.asStr (regName idx raw) = some validated.name := by
  rw [registryEntryConfig, call] at h
  split at h
  · simp at h
  · rename_i kwargs hkwargs
    split at h
    · simp at h
    · simp at h
    · rename_i fields hfields
      split at h
      · simp at h
      · rename_i name hname
        split at h
        · simp at h
        · obtain rfl := Parsed.ok.inj h
          obtain ⟨v, hv, hstr⟩ := Option.bind_eq_some_iff.mp hname
          rw [lookup_keywords hkwargs] at hv
          rw [regName, hv, Option.getD_some, hstr]

theorem generateRename_notMem {name : Yaml O} {existingNames : List (Key O)} {newName : String}
    (h : generateRename lib name existingNames = some newName) :
    Key.str newName ∉ existingNames := by
  rw [generateRename] at h
  have hfound := List.find?_some h
  exact of_decide_eq_true hfound

variable (lib strategy dryRun) in
/-- **What becomes of an item.** It fails or is skipped, and nothing changes; or it is valid, and is
there in the end. -/
inductive Imported (s : State O B R) :
    Item O → State O B R × Except Raised ImportItemResult → Prop where
  | kept {item : Item O} {result : Except Raised ImportItemResult}
      (h : ∀ r, result = .ok r → r.status = .failed ∨ r.status = .skipped) :
      Imported s item (s, result)
  | addedBackend {name : Key O} {raw : List (Key O × Yaml O)} {validated : B}
      (hparse : parseBackend lib name raw = .ok validated) (hname : name ∉ s.backendNames) :
      Imported s (.backend (name, .map raw))
        (⟨s.target.putBackend dryRun name validated, name :: s.backendNames, s.registryNames⟩,
          record lib (.key name) "backend" .added none none)
  | updatedBackend {name : Key O} {raw : List (Key O × Yaml O)} {validated : B}
      (hparse : parseBackend lib name raw = .ok validated) (hname : name ∈ s.backendNames)
      (hstrategy : strategy = .update) :
      Imported s (.backend (name, .map raw))
        (⟨s.target.putBackend dryRun name validated, s.backendNames, s.registryNames⟩,
          record lib (.key name) "backend" .updated none none)
  | renamedBackend {name : Key O} {raw : List (Key O × Yaml O)} {validated : B} {newName : String}
      (hparse : parseBackend lib name raw = .ok validated) (hstrategy : strategy = .rename)
      (hnew : .str newName ∉ s.backendNames) :
      Imported s (.backend (name, .map raw))
        (⟨s.target.putBackend dryRun (.str newName) validated, .str newName :: s.backendNames,
            s.registryNames⟩,
          record lib (.key name) "backend" .renamed (some newName) none)
  | addedRegistry {raw : List (Key O × Yaml O)} {idx : ℕ} {validated : RegistryEntryConfig R}
      {k : Key O} (hparse : registryEntryConfig lib raw = .ok validated)
      (hname : regName idx raw = .key k) (hk : k ∉ s.registryNames) :
      Imported s (.registry (.map raw, idx))
        (⟨s.target.appendRegistry dryRun validated, s.backendNames, k :: s.registryNames⟩,
          record lib (.key k) "registry" .added none none)
  | updatedRegistry {raw : List (Key O × Yaml O)} {idx : ℕ} {validated : RegistryEntryConfig R}
      {k : Key O} (hparse : registryEntryConfig lib raw = .ok validated)
      (hname : regName idx raw = .key k) (hk : k ∈ s.registryNames)
      (hstrategy : strategy = .update) :
      Imported s (.registry (.map raw, idx))
        (⟨s.target.updateRegistry dryRun k validated, s.backendNames, s.registryNames⟩,
          record lib (.key k) "registry" .updated none none)
  | renamedRegistry {raw : List (Key O × Yaml O)} {idx : ℕ} {validated : RegistryEntryConfig R}
      {k : Key O} {newName : String} (hparse : registryEntryConfig lib raw = .ok validated)
      (hname : regName idx raw = .key k) (hstrategy : strategy = .rename)
      (hnew : .str newName ∉ s.registryNames) :
      Imported s (.registry (.map raw, idx))
        (⟨s.target.appendRegistry dryRun { validated with name := newName }, s.backendNames,
            .str newName :: s.registryNames⟩,
          record lib (.key k) "registry" .renamed (some newName) none)
  | setFlag {name : Key O} {value : Bool}
      (hstrategy : name ∈ s.target.featureFlags.keys → strategy = .update ∨ strategy = .rename) :
      Imported s (.featureFlag (name, .bool value))
        (⟨if dryRun then s.target
            else { s.target with featureFlags := s.target.featureFlags.set name value },
            s.backendNames, s.registryNames⟩,
          record lib (.key name) "feature_flag"
            (if name ∈ s.target.featureFlags.keys then .updated else .added) none none)

section

variable {s : State O B R} {item : Item O}

theorem Imported.failed (name : Yaml O) (entityType : String) (error : Option String) :
    Imported lib strategy dryRun s item (s, record lib name entityType .failed none error) := by
  refine .kept fun r hr ↦ ?_
  obtain ⟨n, -, rfl⟩ := record_eq_ok_iff.mp hr
  exact Or.inl rfl

theorem Imported.skipped (name : Yaml O) (entityType : String) :
    Imported lib strategy dryRun s item (s, record lib name entityType .skipped none none) := by
  refine .kept fun r hr ↦ ?_
  obtain ⟨n, -, rfl⟩ := record_eq_ok_iff.mp hr
  exact Or.inr rfl

theorem Imported.raised (e : Raised) : Imported lib strategy dryRun s item (s, .error e) :=
  .kept fun _ hr ↦ absurd hr (by simp)

end

variable (lib strategy dryRun) in
/-- **Inversion.** -/
theorem imported_importItem (s : State O B R) (item : Item O) :
    Imported lib strategy dryRun s item (importItem lib strategy dryRun s item) := by
  cases item with
  | backend entry =>
    obtain ⟨name, v⟩ := entry
    rw [importItem, importBackend]
    cases v with
    | key k | bool b | list l => exact .failed _ _ _
    | map raw =>
      dsimp only
      cases hparse : parseBackend lib name raw with
      | raises e => exact .raised e
      | invalid message => exact .failed _ _ _
      | ok validated =>
        dsimp only
        by_cases hname : name ∈ s.backendNames
        · rw [if_pos hname]
          cases strategy with
          | fail => exact .failed _ _ _
          | skip => exact .skipped _ _
          | update => exact .updatedBackend hparse hname rfl
          | rename =>
            dsimp only
            cases hnew : generateRename lib (.key name) s.backendNames with
            | none => exact .raised _
            | some newName => exact .renamedBackend hparse rfl (generateRename_notMem hnew)
        · rw [if_neg hname]
          exact .addedBackend hparse hname
  | registry entry =>
    obtain ⟨v, idx⟩ := entry
    rw [importItem, importRegistry]
    cases v with
    | key k | bool b | list l => exact .failed (.key (.str _)) "registry" _
    | map raw =>
      dsimp only
      cases hparse : registryEntryConfig lib raw with
      | raises e => exact .raised e
      | invalid message => exact .failed _ _ _
      | ok validated =>
        dsimp only
        cases hname : regName idx raw with
        | bool b | list l | map d => exact .raised _
        | key k =>
          dsimp only
          by_cases hk : k ∈ s.registryNames
          · rw [if_pos hk]
            cases strategy with
            | fail => exact .failed _ _ _
            | skip => exact .skipped _ _
            | update => exact .updatedRegistry hparse hname hk rfl
            | rename =>
              dsimp only
              cases hnew : generateRename lib (.key k) s.registryNames with
              | none => exact .raised _
              | some newName => exact .renamedRegistry hparse hname rfl (generateRename_notMem hnew)
          · rw [if_neg hk]
            exact .addedRegistry hparse hname hk
  | featureFlag entry =>
    obtain ⟨name, v⟩ := entry
    rw [importItem, importFeatureFlag]
    cases v with
    | key k | list l | map raw => exact .failed _ _ _
    | bool value =>
      dsimp only
      by_cases hskip : name ∈ s.target.featureFlags.keys ∧ strategy = .skip
      · rw [if_pos hskip]
        exact .skipped _ _
      · rw [if_neg hskip]
        by_cases hfail : name ∈ s.target.featureFlags.keys ∧ strategy = .fail
        · rw [if_pos hfail]
          exact .failed _ _ _
        · rw [if_neg hfail]
          refine .setFlag fun hname ↦ ?_
          cases strategy with
          | skip => exact absurd ⟨hname, rfl⟩ hskip
          | fail => exact absurd ⟨hname, rfl⟩ hfail
          | update => exact Or.inl rfl
          | rename => exact Or.inr rfl

theorem importBackend_of_new {l : Locals O B R} {name : Key O} {raw : List (Key O × Yaml O)}
    {validated : B} (hparse : parseBackend lib name raw = .ok validated)
    (hname : name ∉ l.existingNames) :
    importBackend lib strategy dryRun l (name, .map raw) =
      (⟨l.target.putBackend dryRun name validated, name :: l.existingNames⟩,
        record lib (.key name) "backend" .added none none) := by
  rw [importBackend]
  dsimp only
  rw [hparse]
  exact if_neg hname

theorem importRegistry_of_new {l : Locals O B R} {raw : List (Key O × Yaml O)} {idx : ℕ} {k : Key O}
    {validated : RegistryEntryConfig R} (hparse : registryEntryConfig lib raw = .ok validated)
    (hname : regName idx raw = .key k) (hk : k ∉ l.existingNames) :
    importRegistry lib strategy dryRun l (.map raw, idx) =
      (⟨l.target.appendRegistry dryRun validated, k :: l.existingNames⟩,
        record lib (.key k) "registry" .added none none) := by
  rw [importRegistry]
  dsimp only
  rw [hparse, hname]
  exact if_neg hk

theorem importFeatureFlag_of_new {target : ArgusConfig O B R} {name : Key O} {value : Bool}
    (hname : name ∉ target.featureFlags.keys) :
    importFeatureFlag lib strategy dryRun target (name, .bool value) =
      (if dryRun then target
        else { target with featureFlags := target.featureFlags.set name value },
        record lib (.key name) "feature_flag" .added none none) := by
  rw [importFeatureFlag]
  dsimp only
  rw [if_neg (fun h ↦ hname h.1), if_neg (fun h ↦ hname h.1), if_neg hname]

end Cases

end Import

end ArgusMcp
