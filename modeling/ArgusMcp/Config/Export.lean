import ArgusMcp.Config.Schema

/-!
# Exporting a configuration

`config/export.py` turns the sections of a configuration that are asked for into plain data. What
looks like a reference to a secret is masked, taken out, or left as it is.

An export sees the configuration that the program runs with. In this the references have been
replaced by the secrets, so what looks like a reference is what a secret or a default happens to be.
-/

namespace ArgusMcp

namespace Export

open Import ConfigSchema

/-- How to handle secret references during export. -/
inductive SecretHandling where
  | strip
  | mask
  | preserve
  deriving DecidableEq

/-- Controls which config entities are included in an export. -/
structure ExportFilter where
  entityTypes : List String
  backendNames : Option (List String)
  backendGroups : Option (List String)
  backendTypes : Option (List String)

def ExportFilter.default : ExportFilter := ⟨["backends", "registries"], none, none, none⟩

/-- All sections, and all backends. -/
def ExportFilter.all : ExportFilter :=
  ⟨["backends", "registries", "feature_flags", "plugins"], none, none, none⟩

section

variable {O : Type}

/-- The part of a configuration that exports and imports are about. An instance of a class is what
`model_dump` gives for it. -/
structure Config (O : Type) extends
    ArgusConfig O (List (String × Yaml O)) (List (String × Yaml O)) where
  version : String
  plugins : Yaml O

structure ExportResult (O : Type) where
  entityCounts : List (String × ℕ)
  data : List (Key O × Yaml O)

/-- `_SECRET_PATTERN.match`, that is `^secret:.+$`, where `$` lets a last line break pass. -/
def isReference (value : String) : Bool :=
  let rest := value.toList.drop 7
  let name := rest.takeWhile fun c ↦ c ≠ '\n'
  "secret:".toList.isPrefixOf value.toList && !name.isEmpty &&
    rest.drop name.length ∈ [[], ['\n']]

mutual

/-- References are replaced by a text, at any depth. -/
def replaceSecrets (text : String) : Yaml O → Yaml O
  | .map d => .map (replaceEntries text d)
  | .list l => .list (replaceElements text l)
  | .key (.str s) => if isReference s then .key (.str text) else .key (.str s)
  | .key (.other o) => .key (.other o)
  | .bool b => .bool b

def replaceElements (text : String) : List (Yaml O) → List (Yaml O)
  | [] => []
  | v :: l => replaceSecrets text v :: replaceElements text l

def replaceEntries (text : String) : List (Key O × Yaml O) → List (Key O × Yaml O)
  | [] => []
  | (k, v) :: d => (k, replaceSecrets text v) :: replaceEntries text d

end

def maskSecrets : List (Key O × Yaml O) → List (Key O × Yaml O) := replaceEntries "***"

def stripSecrets : List (Key O × Yaml O) → List (Key O × Yaml O) := replaceEntries ""

/-- `value in allowed`, where `allowed` may be `None`. -/
def isAllowed (allowed : Option (List String)) (value : Option (Yaml O)) : Bool :=
  match allowed, value with
  | none, _ => true
  | some allowed, some (.key (.str s)) => s ∈ allowed
  | some _, _ => false

def backendMatchesFilter (name : Key O) (backend : List (String × Yaml O))
    (exportFilter : ExportFilter) : Bool :=
  isAllowed exportFilter.backendNames (some (.key name)) &&
    isAllowed exportFilter.backendGroups
      (some ((backend.lookup "group").getD (.key (.str "default")))) &&
    isAllowed exportFilter.backendTypes
      (some ((backend.lookup "type").getD (.key (.str ""))))

/-- `reg.model_dump`. The order of the entries is of no importance. -/
def dumpRegistry (reg : Import.RegistryEntryConfig (List (String × Yaml O))) : Yaml O :=
  .map (dump (("name", .key (.str reg.name)) :: reg.fields))

/-- A section, if it is asked for. -/
def sectionIf (exportFilter : ExportFilter) (name : String) (content : Yaml O) :
    List (Key O × Yaml O) :=
  if name ∈ exportFilter.entityTypes then [(.str name, content)] else []

def countIf (exportFilter : ExportFilter) (name : String) (count : ℕ) : List (String × ℕ) :=
  if name ∈ exportFilter.entityTypes then [(name, count)] else []

def exportedBackends (config : Config O) (exportFilter : ExportFilter) :
    List (Key O × List (String × Yaml O)) :=
  config.backends.items.filter fun e ↦ backendMatchesFilter e.1 e.2 exportFilter

/-- The data of an export, before secrets are looked at. -/
def exportData (config : Config O) (exportFilter : ExportFilter) : List (Key O × Yaml O) :=
  (.str "version", .key (.str config.version)) ::
    (sectionIf exportFilter "backends"
        (.map ((exportedBackends config exportFilter).map fun e ↦ (e.1, .map (dump e.2)))) ++
      sectionIf exportFilter "registries" (.list (config.registries.map dumpRegistry)) ++
      sectionIf exportFilter "feature_flags"
        (.map (config.featureFlags.items.map fun e ↦ (e.1, .bool e.2))) ++
      sectionIf exportFilter "plugins" config.plugins)

def exportConfig (config : Config O) (exportFilter : ExportFilter)
    (secretHandling : SecretHandling) : ExportResult O where
  entityCounts :=
    countIf exportFilter "backends" (exportedBackends config exportFilter).length ++
      countIf exportFilter "registries" config.registries.length ++
      countIf exportFilter "feature_flags" config.featureFlags.items.length ++
      countIf exportFilter "plugins" 1
  data :=
    match secretHandling with
    | .mask => maskSecrets (exportData config exportFilter)
    | .strip => stripSecrets (exportData config exportFilter)
    | .preserve => exportData config exportFilter

end

end Export

end ArgusMcp
