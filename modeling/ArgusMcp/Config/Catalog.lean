import ArgusMcp.Workflows.Interpolation
import Mathlib.Data.List.DropRight

/-!
# Onboarding from a catalog

`registry/catalog.py` adds the servers of a catalog to the configuration. `stage_catalog` says in
advance what `commit_catalog` is going to do. Both go through the entries one after the other, and
skip those whose name is known. But only the second one learns the names it adds, so that they do
not agree on a name that is in the catalog twice.

An entry is made into the keyword arguments of the class for its transport. The class reads those
it has a field for, and leaves out the others without an error: `groups` and `timeout` are no
fields, which are called `group` and `timeouts`. The URL and the headers of a `stdio` entry are not
passed on, nor is what starts the server of another one.

## The condition

No name that is added comes a second time, and an entry that is added has no groups and no timeouts
but the defaults, and nothing that is not passed on for its transport (`HoldsWhen`). This is exact
(`faithful_iff_holdsWhen`).
-/

namespace ArgusMcp

namespace Catalog

/-! ## Entries and backends -/

/-- The part of an entry that is made into a backend. -/
structure CatalogEntry (O : Type) where
  name : String
  transport : String
  command : Option String
  args : List String
  url : Option String
  env : Option (Dict String String)
  headers : Option (Dict String String)
  groups : List String
  filters : Option (List (String × Value O))
  timeout : Option (List (String × Value O))

/-- Where a backend comes from. -/
structure Provenance where
  createdVia : String
  importBatchId : String
  metadataVersion : ℕ

/-- The keyword arguments with which the class of a backend is called, `none` where one is not
given. -/
structure Kwargs (O : Type) where
  command : Option String := none
  url : Option String := none
  args : Option (List String) := none
  env : Option (Dict String String) := none
  headers : Option (Dict String String) := none
  group : Option String := none
  groups : Option (List String) := none
  filters : Option (List (String × Value O)) := none
  timeout : Option (List (String × Value O)) := none
  timeouts : Option (List (String × Value O)) := none
  provenance : Provenance

/-- Why an entry cannot be converted. -/
inductive ConversionError where
  | valueError (message : String)
  /-- A field of the class is missing, or is not what it should be. -/
  | validationError (field message : String)

section Classes

/-- What `FiltersConfig` and `TimeoutConfig` make of a dictionary, with the defaults, and
`str.lower`. -/
structure Models (O F D : Type) where
  filtersConfig : List (String × Value O) → Except ConversionError F
  noFilters : F
  timeoutConfig : List (String × Value O) → Except ConversionError D
  noTimeouts : D
  lower : String → String

variable {O F D : Type} (models : Models O F D)

def strip (s : String) : String :=
  String.ofList ((s.toList.dropWhile Workflows.isSpace).rdropWhile Workflows.isSpace)

structure StdioBackendConfig (F D : Type) where
  command : String
  args : List String
  env : Option (Dict String String)
  group : String
  filters : F
  timeouts : D
  provenance : Provenance

structure SseBackendConfig (F D : Type) where
  url : String
  command : Option String
  args : List String
  env : Option (Dict String String)
  headers : Option (Dict String String)
  group : String
  filters : F
  timeouts : D
  provenance : Provenance

structure StreamableHttpBackendConfig (F D : Type) where
  url : String
  headers : Option (Dict String String)
  group : String
  filters : F
  timeouts : D
  provenance : Provenance

inductive BackendConfig (F D : Type) where
  | stdio (cfg : StdioBackendConfig F D)
  | sse (cfg : SseBackendConfig F D)
  | streamableHttp (cfg : StreamableHttpBackendConfig F D)

def required (field : String) : Option String → Except ConversionError String
  | none => .error (.validationError field "Field required")
  | some s =>
    if s = "" then .error (.validationError field "String should have at least 1 character")
    else .ok s

/-- The URL starts as it should. -/
def isHttp (url : String) : Bool :=
  "http://".toList.isPrefixOf url.toList || "https://".toList.isPrefixOf url.toList

def validateUrl (url : String) : Except ConversionError String :=
  let url := strip url
  if isHttp url then .ok url
  else .error (.validationError "url" s!"URL '{url}' must start with http:// or https://")

/-- `_strip_command` of an `sse` backend. -/
def stripCommand : Option String → Except ConversionError (Option String)
  | none => .ok none
  | some command =>
    if strip command = "" then
      .error (.validationError "command" "command must be a non-empty string if provided")
    else .ok (some (strip command))

/-- The field `filters`. -/
def filtersOf (kwargs : Kwargs O) : Except ConversionError F :=
  match kwargs.filters with
  | none => .ok models.noFilters
  | some filters => models.filtersConfig filters

/-- The field `timeouts`. -/
def timeoutsOf (kwargs : Kwargs O) : Except ConversionError D :=
  match kwargs.timeouts with
  | none => .ok models.noTimeouts
  | some timeouts => models.timeoutConfig timeouts

/-- `StdioBackendConfig(**kwargs)`. -/
def stdioBackendConfig (kwargs : Kwargs O) : Except ConversionError (BackendConfig F D) :=
  (required "command" kwargs.command).bind fun command ↦
    (filtersOf models kwargs).bind fun filters ↦ (timeoutsOf models kwargs).map fun timeouts ↦
      .stdio ⟨strip command, kwargs.args.getD [], kwargs.env, kwargs.group.getD "default", filters,
        timeouts, kwargs.provenance⟩

/-- `SseBackendConfig(**kwargs)`. -/
def sseBackendConfig (kwargs : Kwargs O) : Except ConversionError (BackendConfig F D) :=
  ((required "url" kwargs.url).bind validateUrl).bind fun url ↦
    (stripCommand kwargs.command).bind fun command ↦
      (filtersOf models kwargs).bind fun filters ↦ (timeoutsOf models kwargs).map fun timeouts ↦
        .sse ⟨url, command, kwargs.args.getD [], kwargs.env, kwargs.headers,
          kwargs.group.getD "default", filters, timeouts, kwargs.provenance⟩

/-- `StreamableHttpBackendConfig(**kwargs)`. -/
def streamableHttpBackendConfig (kwargs : Kwargs O) : Except ConversionError (BackendConfig F D) :=
  ((required "url" kwargs.url).bind validateUrl).bind fun url ↦
    (filtersOf models kwargs).bind fun filters ↦ (timeoutsOf models kwargs).map fun timeouts ↦
      .streamableHttp ⟨url, kwargs.headers, kwargs.group.getD "default", filters, timeouts,
        kwargs.provenance⟩

/-! ## The conversion -/

/-- `if entry.args: kwargs["args"] = entry.args`. -/
def givenList {α : Type} (l : List α) : Option (List α) := if l = [] then none else some l

def givenDict (d : Option (Dict String String)) : Option (Dict String String) :=
  d.filter fun d ↦ !d.items.isEmpty

def givenValues (d : Option (List (String × Value O))) : Option (List (String × Value O)) :=
  d.filter fun d ↦ !d.isEmpty

/-- `not entry.command`, and `not entry.url`. -/
def isBlank (s : Option String) : Bool := s.getD "" = ""

def entryToBackend (entry : CatalogEntry O) (catalogId createdVia : String) :
    Except ConversionError (BackendConfig F D) :=
  let provenance : Provenance := ⟨createdVia, catalogId, 1⟩
  let transport := models.lower entry.transport
  if transport = "stdio" then
    if isBlank entry.command then
      .error (.valueError s!"stdio entry '{entry.name}' requires a 'command'")
    else
      stdioBackendConfig models
        { command := entry.command
          args := givenList entry.args
          env := givenDict entry.env
          groups := givenList entry.groups
          filters := givenValues entry.filters
          timeout := givenValues entry.timeout
          provenance := provenance }
  else if transport = "sse" ∨ transport = "streamable-http" then
    if isBlank entry.url then
      .error (.valueError s!"{transport} entry '{entry.name}' requires a 'url'")
    else
      let kwargs : Kwargs O :=
        { url := entry.url
          headers := givenDict entry.headers
          groups := givenList entry.groups
          filters := givenValues entry.filters
          timeout := givenValues entry.timeout
          provenance := provenance }
      if transport = "sse" then sseBackendConfig models kwargs
      else streamableHttpBackendConfig models kwargs
  else
    .error (.valueError s!"Unsupported transport '{transport}' for entry '{entry.name}'")

end Classes

/-! ## Preview and commit -/

inductive CatalogEntryStatus where
  | staged
  | added
  | skipped
  | failed
  | healthFailed
  deriving DecidableEq

/-- The field `error` of a result. -/
inductive ItemError where
  | text (message : String)
  | conversion (e : ConversionError)

structure CatalogItemResult where
  name : String
  status : CatalogEntryStatus
  backendType : String
  error : Option ItemError

structure CatalogResult where
  catalogId : String
  dryRun : Bool
  totalEntries : ℕ
  items : List CatalogItemResult

/-- The part of the configuration a catalog is added to. -/
structure ArgusConfig (F D : Type) where
  backends : Dict String (BackendConfig F D)

section Loops

variable {O F D : Type} (models : Models O F D) (catalogId : String) (skipExisting : Bool)

def CatalogEntry.result (entry : CatalogEntry O) (status : CatalogEntryStatus)
    (error : Option ItemError) : CatalogItemResult :=
  ⟨entry.name, status, entry.transport, error⟩

def CatalogEntry.skipped (entry : CatalogEntry O) : CatalogItemResult :=
  entry.result .skipped (some (.text "Already exists in config"))

def tooMany (entries : List (CatalogEntry O)) (maxEntries : ℤ) : List CatalogItemResult :=
  entries.map fun entry ↦
    entry.result .failed (some (.text s!"Batch exceeds maximum entries ({maxEntries})"))

/-- The body of the loop of `stage_catalog`. -/
def stageEntry (existingNames : List String) (entry : CatalogEntry O) : CatalogItemResult :=
  if skipExisting ∧ entry.name ∈ existingNames then entry.skipped
  else
    match entryToBackend models entry catalogId "catalog" with
    | .ok _ => entry.result .staged none
    | .error e => entry.result .failed (some (.conversion e))

/-- `stage_catalog`, with the configuration as it leaves it. -/
def stageCatalog (entries : List (CatalogEntry O)) (config : ArgusConfig F D) (maxEntries : ℤ) :
    CatalogResult × ArgusConfig F D :=
  (⟨catalogId, true, entries.length,
    if maxEntries < entries.length then tooMany entries maxEntries
    else entries.map (stageEntry models catalogId skipExisting config.backends.keys)⟩, config)

/-- The loop of `commit_catalog`. A health check that raises counts as one that fails. -/
def commitEntries (healthCheck : Option (String → BackendConfig F D → Bool)) :
    List String → Dict String (BackendConfig F D) → List (CatalogEntry O) →
      List CatalogItemResult × Dict String (BackendConfig F D)
  | _, backends, [] => ([], backends)
  | existingNames, backends, entry :: entries =>
    if skipExisting ∧ entry.name ∈ existingNames then
      let rest := commitEntries healthCheck existingNames backends entries
      (entry.skipped :: rest.1, rest.2)
    else
      match entryToBackend models entry catalogId "catalog" with
      | .error e =>
        let rest := commitEntries healthCheck existingNames backends entries
        (entry.result .failed (some (.conversion e)) :: rest.1, rest.2)
      | .ok backend =>
        if healthCheck.all fun check ↦ check entry.name backend then
          let rest := commitEntries healthCheck (entry.name :: existingNames)
            (backends.set entry.name backend) entries
          (entry.result .added none :: rest.1, rest.2)
        else
          let rest := commitEntries healthCheck existingNames backends entries
          (entry.result .healthFailed (some (.text "Health check failed")) :: rest.1, rest.2)

def commitCatalog (entries : List (CatalogEntry O)) (config : ArgusConfig F D) (maxEntries : ℤ)
    (healthCheck : Option (String → BackendConfig F D → Bool)) :
    CatalogResult × ArgusConfig F D :=
  if maxEntries < entries.length then
    (⟨catalogId, false, entries.length, tooMany entries maxEntries⟩, config)
  else
    let committed := commitEntries models catalogId skipExisting healthCheck config.backends.keys
      config.backends entries
    (⟨catalogId, false, entries.length, committed.1⟩, ⟨committed.2⟩)

end Loops

/-! ## What is expected -/

section Expected

variable {O F D : Type} (models : Models O F D)

/-- What an entry and a backend have in common, with the defaults where nothing is given. -/
structure Fields (F D : Type) where
  command : Option String
  url : Option String
  args : List String
  env : Option (Dict String String)
  headers : Option (Dict String String)
  groups : List String
  filters : Option F
  timeouts : Option D

def BackendConfig.fields : BackendConfig F D → Fields F D
  | .stdio cfg => ⟨some cfg.command, none, cfg.args, cfg.env, none, [cfg.group], some cfg.filters,
      some cfg.timeouts⟩
  | .sse cfg => ⟨cfg.command, some cfg.url, cfg.args, cfg.env, cfg.headers, [cfg.group],
      some cfg.filters, some cfg.timeouts⟩
  | .streamableHttp cfg => ⟨none, some cfg.url, [], none, cfg.headers, [cfg.group],
      some cfg.filters, some cfg.timeouts⟩

def CatalogEntry.askedGroups (entry : CatalogEntry O) : List String :=
  if entry.groups = [] then ["default"] else entry.groups

def CatalogEntry.askedFilters (entry : CatalogEntry O) : Option F :=
  match givenValues entry.filters with
  | none => some models.noFilters
  | some filters => (models.filtersConfig filters).toOption

def CatalogEntry.askedTimeouts (entry : CatalogEntry O) : Option D :=
  match givenValues entry.timeout with
  | none => some models.noTimeouts
  | some timeouts => (models.timeoutConfig timeouts).toOption

def CatalogEntry.fields (entry : CatalogEntry O) : Fields F D where
  command := (entry.command.filter (· ≠ "")).map strip
  url := (entry.url.filter (· ≠ "")).map strip
  args := entry.args
  env := givenDict entry.env
  headers := givenDict entry.headers
  groups := entry.askedGroups
  filters := entry.askedFilters models
  timeouts := entry.askedTimeouts models

/-- What a commit reports where a preview reports this. -/
def CatalogEntryStatus.announced : CatalogEntryStatus → CatalogEntryStatus
  | .staged => .added
  | status => status

variable (catalogId : String) (skipExisting : Bool)

/-- The preview is faithful, and what was added is there. -/
structure Faithful (entries : List (CatalogEntry O)) (config : ArgusConfig F D) (maxEntries : ℤ) :
    Prop where
  unchanged : (stageCatalog models catalogId skipExisting entries config maxEntries).2 = config
  announced :
    (stageCatalog models catalogId skipExisting entries config maxEntries).1.items.map
        (fun item ↦ item.status.announced) =
      (commitCatalog models catalogId skipExisting entries config maxEntries none).1.items.map
        CatalogItemResult.status
  added : ∀ e ∈ entries.zip
      (commitCatalog models catalogId skipExisting entries config maxEntries none).1.items,
    e.2.status = .added → ∃ backend,
      (commitCatalog models catalogId skipExisting entries config maxEntries none).2.backends.get?
          e.1.name = some backend ∧ backend.fields = e.1.fields models

/-! ## The condition -/

/-- The entry can be made into a backend. -/
def Valid (entry : CatalogEntry O) : Prop :=
  ((models.lower entry.transport = "stdio" ∧ isBlank entry.command = false) ∨
    ((models.lower entry.transport = "sse" ∨ models.lower entry.transport = "streamable-http") ∧
      isBlank entry.url = false ∧ isHttp (strip (entry.url.getD "")) = true)) ∧
  (entry.askedFilters models).isSome

/-- The entry has none of what gets lost. -/
def Plain (entry : CatalogEntry O) : Prop :=
  entry.askedGroups = ["default"] ∧ entry.askedTimeouts models = some models.noTimeouts ∧
    if models.lower entry.transport = "stdio" then
      isBlank entry.url = true ∧ givenDict entry.headers = none
    else isBlank entry.command = true ∧ entry.args = [] ∧ givenDict entry.env = none

/-- The entry is one that is added, as far as the configuration goes. -/
def Adds (config : ArgusConfig F D) (entry : CatalogEntry O) : Prop :=
  Valid models entry ∧ (skipExisting = true → entry.name ∉ config.backends.keys)

/-- There are too many entries, or those that are added lose nothing, and where two have the same
name, both are added and specify the same. -/
def HoldsWhen (entries : List (CatalogEntry O)) (config : ArgusConfig F D) (maxEntries : ℤ) :
    Prop :=
  maxEntries < entries.length ∨
    ((∀ entry ∈ entries, Adds models skipExisting config entry → Plain models entry) ∧
      entries.Pairwise fun entry later ↦ entry.name = later.name →
        Adds models skipExisting config entry → skipExisting = false ∧
          (Valid models later → entry.fields models = later.fields models))

end Expected

/-! ## What a conversion keeps -/

section Conversion

variable {O F D : Type} {models : Models O F D} {entry : CatalogEntry O}

@[simp] theorem getD_givenList {α : Type} (l : List α) : (givenList l).getD [] = l := by
  rw [givenList]
  split
  · rename_i hnil
    exact hnil.symm
  · rfl

theorem required_eq_ok_iff {field : String} {s : Option String} {t : String} :
    required field s = .ok t ↔ isBlank s = false ∧ t = s.getD "" := by
  cases s with
  | none => simp [required, isBlank]
  | some s =>
    rw [required, isBlank, Option.getD_some, decide_eq_false_iff_not]
    split
    · rename_i hempty
      exact iff_of_false (by simp) fun h ↦ h.1 hempty
    · rename_i hne
      rw [and_iff_right hne, Except.ok.injEq, eq_comm]

theorem url_eq_ok_iff {url : Option String} {u : String} :
    (required "url" url).bind validateUrl = .ok u ↔
      (isBlank url = false ∧ isHttp (strip (url.getD "")) = true) ∧ u = strip (url.getD "") := by
  rw [bind_eq_ok_iff]
  constructor
  · rintro ⟨raw, hraw, hvalid⟩
    obtain ⟨hblank, rfl⟩ := required_eq_ok_iff.mp hraw
    rw [validateUrl] at hvalid
    split at hvalid
    · rename_i hhttp
      exact ⟨⟨hblank, hhttp⟩, (Except.ok.inj hvalid).symm⟩
    · exact absurd hvalid (by simp)
  · rintro ⟨⟨hblank, hhttp⟩, rfl⟩
    exact ⟨url.getD "", required_eq_ok_iff.mpr ⟨hblank, rfl⟩, if_pos hhttp⟩

theorem filtersOf_eq_ok_iff {kwargs : Kwargs O} (h : kwargs.filters = givenValues entry.filters)
    {filters : F} : filtersOf models kwargs = .ok filters ↔
      entry.askedFilters models = some filters := by
  rw [filtersOf, CatalogEntry.askedFilters, h]
  cases givenValues entry.filters with
  | none => simp
  | some values =>
    cases hvalues : models.filtersConfig values with
    | error e => simp [hvalues, Except.toOption]
    | ok filters' => simp [hvalues, Except.toOption]

theorem map_strip_of_not_blank {s : Option String} (h : isBlank s = false) :
    (s.filter (· ≠ "")).map strip = some (strip (s.getD "")) := by
  cases s with
  | none => exact absurd h (by decide)
  | some s =>
    rw [isBlank, Option.getD_some, decide_eq_false_iff_not] at h
    rw [Option.filter_some, if_pos (by simpa using h)]
    rfl

theorem map_strip_of_blank {s : Option String} (h : isBlank s = true) :
    (s.filter (· ≠ "")).map strip = none := by
  cases s with
  | none => rfl
  | some s =>
    rw [isBlank, Option.getD_some, decide_eq_true_iff] at h
    rw [h]
    rfl

def CatalogEntry.kept (models : Models O F D) (entry : CatalogEntry O) : Fields F D :=
  let asked := { entry.fields models with
    groups := ["default"]
    timeouts := some models.noTimeouts }
  if models.lower entry.transport = "stdio" then { asked with url := none, headers := none }
  else { asked with command := none, args := [], env := none }

theorem entryToBackend_eq_ok {catalogId createdVia : String} {backend : BackendConfig F D}
    (h : entryToBackend models entry catalogId createdVia = .ok backend) :
    Valid models entry ∧ backend.fields = entry.kept models := by
  rw [entryToBackend] at h
  dsimp only at h
  by_cases hstdio : models.lower entry.transport = "stdio"
  · rw [if_pos hstdio] at h
    split at h
    · exact absurd h (by simp)
    · rename_i hblank
      rw [Bool.not_eq_true] at hblank
      obtain ⟨command, hcommand, h⟩ := bind_eq_ok_iff.mp h
      obtain ⟨filters, hfilters, h⟩ := bind_eq_ok_iff.mp h
      obtain ⟨timeouts, htimeouts, rfl⟩ := map_eq_ok_iff.mp h
      obtain ⟨-, rfl⟩ := required_eq_ok_iff.mp hcommand
      obtain rfl := Except.ok.inj htimeouts
      rw [filtersOf_eq_ok_iff rfl] at hfilters
      refine ⟨⟨Or.inl ⟨hstdio, hblank⟩, Option.isSome_of_eq_some hfilters⟩, ?_⟩
      rw [CatalogEntry.kept, CatalogEntry.fields]
      dsimp only
      rw [if_pos hstdio, map_strip_of_not_blank hblank, hfilters]
      simp [BackendConfig.fields]
  · rw [if_neg hstdio] at h
    split at h
    · rename_i htransport
      split at h
      · exact absurd h (by simp)
      · split at h
        · rename_i hsse
          obtain ⟨url, hurl, h⟩ := bind_eq_ok_iff.mp h
          obtain ⟨command, hcommand, h⟩ := bind_eq_ok_iff.mp h
          obtain ⟨filters, hfilters, h⟩ := bind_eq_ok_iff.mp h
          obtain ⟨timeouts, htimeouts, rfl⟩ := map_eq_ok_iff.mp h
          obtain ⟨⟨hblank, hhttp⟩, rfl⟩ := url_eq_ok_iff.mp hurl
          obtain rfl := Except.ok.inj htimeouts
          obtain rfl := Except.ok.inj hcommand
          rw [filtersOf_eq_ok_iff rfl] at hfilters
          refine ⟨⟨Or.inr ⟨htransport, hblank, hhttp⟩, Option.isSome_of_eq_some hfilters⟩, ?_⟩
          rw [CatalogEntry.kept, CatalogEntry.fields]
          dsimp only
          rw [if_neg hstdio, map_strip_of_not_blank hblank, hfilters]
          rfl
        · rename_i hsse
          obtain ⟨url, hurl, h⟩ := bind_eq_ok_iff.mp h
          obtain ⟨filters, hfilters, h⟩ := bind_eq_ok_iff.mp h
          obtain ⟨timeouts, htimeouts, rfl⟩ := map_eq_ok_iff.mp h
          obtain ⟨⟨hblank, hhttp⟩, rfl⟩ := url_eq_ok_iff.mp hurl
          obtain rfl := Except.ok.inj htimeouts
          rw [filtersOf_eq_ok_iff rfl] at hfilters
          refine ⟨⟨Or.inr ⟨htransport, hblank, hhttp⟩, Option.isSome_of_eq_some hfilters⟩, ?_⟩
          rw [CatalogEntry.kept, CatalogEntry.fields]
          dsimp only
          rw [if_neg hstdio, map_strip_of_not_blank hblank, hfilters]
          rfl
    · exact absurd h (by simp)

theorem exists_entryToBackend (h : Valid models entry) (catalogId createdVia : String) :
    ∃ backend, entryToBackend models entry catalogId createdVia = .ok backend := by
  obtain ⟨htransport, hfilters⟩ := h
  obtain ⟨filters, hfilters⟩ := Option.isSome_iff_exists.mp hfilters
  have hok : ∀ kwargs : Kwargs O, kwargs.filters = givenValues entry.filters →
      kwargs.timeouts = none → ∀ make : F → D → BackendConfig F D,
        (filtersOf models kwargs).bind (fun filters ↦
          (timeoutsOf models kwargs).map (make filters)) =
        .ok (make filters models.noTimeouts) := by
    intro kwargs hgiven hnone make
    rw [(filtersOf_eq_ok_iff hgiven).mpr hfilters, timeoutsOf, hnone]
    rfl
  rw [entryToBackend]
  dsimp only
  rcases htransport with ⟨hstdio, hblank⟩ | ⟨hother, hblank, hhttp⟩
  · rw [if_pos hstdio, if_neg (Bool.eq_false_iff.mp hblank)]
    exact ⟨_, bind_eq_ok_iff.mpr ⟨_, required_eq_ok_iff.mpr ⟨hblank, rfl⟩, hok _ rfl rfl _⟩⟩
  · have hstdio : models.lower entry.transport ≠ "stdio" := by
      rcases hother with hsse | hhttp
      · rw [hsse]
        decide
      · rw [hhttp]
        decide
    rw [if_neg hstdio, if_pos hother, if_neg (Bool.eq_false_iff.mp hblank)]
    have hurl := url_eq_ok_iff.mpr ⟨⟨hblank, hhttp⟩, rfl⟩
    split
    · exact ⟨_, bind_eq_ok_iff.mpr ⟨_, hurl, bind_eq_ok_iff.mpr ⟨none, rfl, hok _ rfl rfl _⟩⟩⟩
    · exact ⟨_, bind_eq_ok_iff.mpr ⟨_, hurl, hok _ rfl rfl _⟩⟩

theorem map_strip_eq_none_iff {s : Option String} :
    (s.filter (· ≠ "")).map strip = none ↔ isBlank s = true := by
  cases hblank : isBlank s with
  | true => exact iff_of_true (map_strip_of_blank hblank) rfl
  | false =>
    rw [map_strip_of_not_blank hblank]
    exact iff_of_false (Option.some_ne_none _) Bool.false_ne_true

theorem Plain.kept_eq (h : Plain models entry) : entry.kept models = entry.fields models := by
  obtain ⟨hgroups, htimeouts, htransport⟩ := h
  rw [CatalogEntry.kept, CatalogEntry.fields]
  dsimp only
  rw [hgroups, htimeouts]
  by_cases hstdio : models.lower entry.transport = "stdio"
  · rw [if_pos hstdio] at htransport ⊢
    obtain ⟨hurl, hheaders⟩ := htransport
    rw [map_strip_of_blank hurl, hheaders]
  · rw [if_neg hstdio] at htransport ⊢
    obtain ⟨hcommand, hargs, henv⟩ := htransport
    rw [map_strip_of_blank hcommand, hargs, henv]

theorem kept_eq : (entry.kept models).groups = ["default"] ∧
    (entry.kept models).timeouts = some models.noTimeouts ∧
    ((entry.kept models).url = none ∧ (entry.kept models).headers = none ∨
      (entry.kept models).command = none ∧ (entry.kept models).args = [] ∧
        (entry.kept models).env = none) := by
  rw [CatalogEntry.kept]
  dsimp only
  split
  · exact ⟨rfl, rfl, Or.inl ⟨rfl, rfl⟩⟩
  · exact ⟨rfl, rfl, Or.inr ⟨rfl, rfl, rfl⟩⟩

theorem plain_of_kept_eq {other : CatalogEntry O} (hvalid : Valid models entry)
    (h : other.kept models = entry.fields models) : Plain models entry := by
  have hkept := @kept_eq _ _ _ models other
  rw [h] at hkept
  obtain ⟨hgroups, htimeouts, hsides⟩ := hkept
  refine ⟨hgroups, htimeouts, ?_⟩
  -- an entry that is valid has a command or a URL, whichever its transport is in need of
  by_cases hstdio : models.lower entry.transport = "stdio"
  · rw [if_pos hstdio]
    have hcommand : isBlank entry.command = false := by
      rcases hvalid.1 with ⟨-, hblank⟩ | ⟨hother, -⟩
      · exact hblank
      · rw [hstdio] at hother
        exact absurd hother (by decide)
    obtain ⟨hurl, hheaders⟩ := hsides.resolve_right fun hnone ↦
      absurd (map_strip_eq_none_iff.mp hnone.1) (Bool.eq_false_iff.mp hcommand)
    exact ⟨map_strip_eq_none_iff.mp hurl, hheaders⟩
  · rw [if_neg hstdio]
    have hurl := (hvalid.1.resolve_left fun hleft ↦ hstdio hleft.1).2.1
    obtain ⟨hcommand, hargs, henv⟩ := hsides.resolve_left fun hnone ↦
      absurd (map_strip_eq_none_iff.mp hnone.1) (Bool.eq_false_iff.mp hurl)
    exact ⟨map_strip_eq_none_iff.mp hcommand, hargs, henv⟩

end Conversion

/-! ## The two loops -/

section Zip

variable {α β γ : Type} {f : α → γ} {g : β → γ} {l : List α} {l' : List β}

theorem forall_mem_zip_of_map_eq (h : l.map f = l'.map g) : ∀ p ∈ l.zip l', f p.1 = g p.2 := by
  induction l generalizing l' with
  | nil =>
    intro p hp
    exact absurd hp List.not_mem_nil
  | cons a l ih =>
    cases l' with
    | nil => exact absurd h (by simp)
    | cons b l' =>
      obtain ⟨hhead, htail⟩ := List.cons.inj h
      intro p hp
      rcases List.mem_cons.mp hp with rfl | hp
      · exact hhead
      · exact ih htail p hp

theorem exists_mem_zip_of_map_eq (h : l.map f = l'.map g) {a : α} (ha : a ∈ l) :
    ∃ b, (a, b) ∈ l.zip l' := by
  induction l generalizing l' with
  | nil => exact absurd ha List.not_mem_nil
  | cons a' l ih =>
    cases l' with
    | nil => exact absurd h (by simp)
    | cons b l' =>
      rcases List.mem_cons.mp ha with rfl | ha
      · exact ⟨b, List.mem_cons_self⟩
      · obtain ⟨b', hb'⟩ := ih (List.cons.inj h).2 ha
        exact ⟨b', List.mem_cons_of_mem _ hb'⟩

end Zip

section Loop

variable {O F D : Type} {models : Models O F D} {catalogId : String} {skipExisting : Bool}
  {known existingNames : List String} {backends : Dict String (BackendConfig F D)}
  {entry : CatalogEntry O} {entries : List (CatalogEntry O)}

theorem commitEntries_cons (models : Models O F D) (catalogId : String) (skipExisting : Bool)
    (existingNames : List String) (backends : Dict String (BackendConfig F D))
    (entry : CatalogEntry O) (entries : List (CatalogEntry O)) :
    (∃ item, (item.status = .skipped ∧ (skipExisting = true ∧ entry.name ∈ existingNames) ∨
        item.status = .failed ∧ ¬ (skipExisting = true ∧ entry.name ∈ existingNames) ∧
          ¬ Valid models entry) ∧
      commitEntries models catalogId skipExisting none existingNames backends (entry :: entries) =
        let rest := commitEntries models catalogId skipExisting none existingNames backends entries
        (item :: rest.1, rest.2)) ∨
    ∃ item backend, item.status = .added ∧
      ¬ (skipExisting = true ∧ entry.name ∈ existingNames) ∧ Valid models entry ∧
      backend.fields = entry.kept models ∧
      commitEntries models catalogId skipExisting none existingNames backends (entry :: entries) =
        let rest := commitEntries models catalogId skipExisting none
          (entry.name :: existingNames) (backends.set entry.name backend) entries
        (item :: rest.1, rest.2) := by
  rw [commitEntries]
  by_cases hskip : skipExisting = true ∧ entry.name ∈ existingNames
  · rw [if_pos hskip]
    exact Or.inl ⟨entry.skipped, Or.inl ⟨rfl, hskip⟩, rfl⟩
  · rw [if_neg hskip]
    rcases hconvert : entryToBackend models entry catalogId "catalog" with e | backend
    · refine Or.inl ⟨_, Or.inr ⟨rfl, hskip, fun hvalid ↦ ?_⟩, rfl⟩
      obtain ⟨backend, hbackend⟩ := exists_entryToBackend hvalid catalogId "catalog"
      exact absurd (hconvert.symm.trans hbackend) (by simp)
    · obtain ⟨hvalid, hfields⟩ := entryToBackend_eq_ok hconvert
      exact Or.inr ⟨_, backend, rfl, hskip, hvalid, hfields, rfl⟩

theorem stageEntry_cases (models : Models O F D) (catalogId : String) (skipExisting : Bool)
    (known : List String) (entry : CatalogEntry O) :
    ((skipExisting = true ∧ entry.name ∈ known) ∧
      (stageEntry models catalogId skipExisting known entry).status.announced = .skipped) ∨
    (¬ (skipExisting = true ∧ entry.name ∈ known) ∧ ¬ Valid models entry ∧
      (stageEntry models catalogId skipExisting known entry).status.announced = .failed) ∨
    (¬ (skipExisting = true ∧ entry.name ∈ known) ∧ Valid models entry ∧
      (stageEntry models catalogId skipExisting known entry).status.announced = .added) := by
  rw [stageEntry]
  by_cases hskip : skipExisting = true ∧ entry.name ∈ known
  · rw [if_pos hskip]
    exact Or.inl ⟨hskip, rfl⟩
  · rw [if_neg hskip]
    rcases hconvert : entryToBackend models entry catalogId "catalog" with e | backend
    · refine Or.inr (Or.inl ⟨hskip, fun hvalid ↦ ?_, rfl⟩)
      obtain ⟨backend, hbackend⟩ := exists_entryToBackend hvalid catalogId "catalog"
      exact absurd (hconvert.symm.trans hbackend) (by simp)
    · exact Or.inr (Or.inr ⟨hskip, (entryToBackend_eq_ok hconvert).1, rfl⟩)

theorem announced_iff (hknown : known ⊆ existingNames) :
    (entries.map fun entry ↦
        (stageEntry models catalogId skipExisting known entry).status.announced) =
      (commitEntries models catalogId skipExisting none existingNames backends entries).1.map
        CatalogItemResult.status ↔
    (skipExisting = true → (∀ entry ∈ entries, entry.name ∈ existingNames → entry.name ∈ known) ∧
      entries.Pairwise fun entry later ↦ entry.name = later.name → Valid models entry →
        entry.name ∈ known) := by
  induction entries generalizing existingNames backends with
  | nil => exact iff_of_true rfl fun _ ↦ ⟨fun _ h ↦ absurd h List.not_mem_nil, List.Pairwise.nil⟩
  | cons entry entries ih =>
    rcases commitEntries_cons models catalogId skipExisting existingNames backends entry
        entries with
      ⟨item, ⟨hitem, hskip⟩ | ⟨hitem, hskip, hvalid⟩, hcommit⟩ |
      ⟨item, backend, hitem, hskip, hvalid, -, hcommit⟩
    · rw [hcommit, List.map_cons, List.map_cons, hitem, List.cons.injEq, ih hknown]
      rcases stageEntry_cases models catalogId skipExisting known entry with
        ⟨hstaged, hstage⟩ | ⟨hstaged, -, hstage⟩ | ⟨hstaged, -, hstage⟩
      · rw [hstage, and_iff_right rfl]
        refine forall_congr' fun _ ↦ ?_
        rw [List.forall_mem_cons, List.pairwise_cons]
        constructor
        · exact fun h ↦ ⟨⟨fun _ ↦ hstaged.2, h.1⟩, fun _ _ _ _ ↦ hstaged.2, h.2⟩
        · exact fun h ↦ ⟨h.1.2, h.2.2⟩
      · rw [hstage]
        refine iff_of_false (fun h ↦ absurd h.1 (by decide)) fun h ↦ ?_
        exact hstaged ⟨hskip.1, (h hskip.1).1 entry List.mem_cons_self hskip.2⟩
      · rw [hstage]
        refine iff_of_false (fun h ↦ absurd h.1 (by decide)) fun h ↦ ?_
        exact hstaged ⟨hskip.1, (h hskip.1).1 entry List.mem_cons_self hskip.2⟩
    · have hstage : (stageEntry models catalogId skipExisting known entry).status.announced =
          .failed := by
        rcases stageEntry_cases models catalogId skipExisting known entry with
          ⟨hstaged, -⟩ | ⟨-, -, hstage⟩ | ⟨-, hvalid', -⟩
        · exact absurd ⟨hstaged.1, hknown hstaged.2⟩ hskip
        · exact hstage
        · exact absurd hvalid' hvalid
      rw [hcommit, List.map_cons, List.map_cons, hitem, hstage, List.cons.injEq, ih hknown,
        and_iff_right rfl]
      refine forall_congr' fun hskip' ↦ ?_
      rw [List.forall_mem_cons, List.pairwise_cons]
      constructor
      · exact fun h ↦ ⟨⟨fun hmem ↦ absurd ⟨hskip', hmem⟩ hskip, h.1⟩,
          fun _ _ _ hvalid' ↦ absurd hvalid' hvalid, h.2⟩
      · exact fun h ↦ ⟨h.1.2, h.2.2⟩
    · have hnotin : skipExisting = true → entry.name ∉ existingNames :=
        fun hskip' hmem ↦ hskip ⟨hskip', hmem⟩
      have hstage : (stageEntry models catalogId skipExisting known entry).status.announced =
          .added := by
        rcases stageEntry_cases models catalogId skipExisting known entry with
          ⟨hstaged, -⟩ | ⟨-, hvalid', -⟩ | ⟨-, -, hstage⟩
        · exact absurd ⟨hstaged.1, hknown hstaged.2⟩ hskip
        · exact absurd hvalid hvalid'
        · exact hstage
      rw [hcommit, List.map_cons, List.map_cons, hitem, hstage, List.cons.injEq,
        ih (List.subset_cons_of_subset _ hknown), and_iff_right rfl]
      refine forall_congr' fun hskip' ↦ ?_
      have hnew : entry.name ∉ known := fun hmem ↦ hnotin hskip' (hknown hmem)
      rw [List.forall_mem_cons, List.pairwise_cons]
      constructor
      · rintro ⟨hlater, hpairs⟩
        refine ⟨⟨fun hmem ↦ absurd hmem (hnotin hskip'), fun later hmem hname ↦ ?_⟩,
          fun later hmem hname _ ↦ ?_, hpairs⟩
        · exact hlater later hmem (List.mem_cons_of_mem _ hname)
        · exact hname ▸ hlater later hmem (hname ▸ List.mem_cons_self)
      · rintro ⟨⟨-, hlater⟩, hfirst, hpairs⟩
        refine ⟨fun later hmem hname ↦ ?_, hpairs⟩
        rcases List.mem_cons.mp hname with heq | hname
        · exact absurd (hfirst later hmem heq.symm hvalid) hnew
        · exact hlater later hmem hname

theorem not_added {item : CatalogItemResult} {p q : Prop}
    (h : item.status = .skipped ∧ p ∨ item.status = .failed ∧ q) : item.status ≠ .added := by
  rcases h with ⟨h, -⟩ | ⟨h, -⟩
  · simp [h]
  · simp [h]

theorem exists_of_get?_commitEntries {name : String} {backend : BackendConfig F D}
    (h : (commitEntries models catalogId skipExisting none existingNames backends entries).2.get?
      name = some backend) :
    backends.get? name = some backend ∨
      ∃ entry ∈ entries, backend.fields = entry.kept models := by
  induction entries generalizing existingNames backends with
  | nil => exact Or.inl h
  | cons entry entries ih =>
    rcases commitEntries_cons models catalogId skipExisting existingNames backends entry
        entries with
      ⟨item, -, hcommit⟩ | ⟨item, backend', -, -, -, hfields, hcommit⟩
    · rw [hcommit] at h
      refine (ih h).imp_right ?_
      rintro ⟨entry', hmem, hkept⟩
      exact ⟨entry', List.mem_cons_of_mem _ hmem, hkept⟩
    · rw [hcommit] at h
      rcases ih h with hget | ⟨entry', hmem, hkept⟩
      · by_cases hname : name = entry.name
        · subst hname
          rw [Dict.get?_set_self] at hget
          obtain rfl := Option.some.inj hget
          exact Or.inr ⟨entry, List.mem_cons_self, hfields⟩
        · rw [Dict.get?_set_of_ne _ _ hname] at hget
          exact Or.inl hget
      · exact Or.inr ⟨entry', List.mem_cons_of_mem _ hmem, hkept⟩

/-- What is found under the name of an entry that was added is what some entry was made into. -/
theorem exists_of_added {p : CatalogEntry O × CatalogItemResult}
    (hp : p ∈ entries.zip
      (commitEntries models catalogId skipExisting none existingNames backends entries).1)
    (hadded : p.2.status = .added) {backend : BackendConfig F D}
    (h : (commitEntries models catalogId skipExisting none existingNames backends entries).2.get?
      p.1.name = some backend) : ∃ entry ∈ entries, backend.fields = entry.kept models := by
  induction entries generalizing existingNames backends with
  | nil => exact absurd hp List.not_mem_nil
  | cons entry entries ih =>
    have hlater : (∃ entry' ∈ entries, backend.fields = entry'.kept models) →
        ∃ entry' ∈ entry :: entries, backend.fields = entry'.kept models := by
      rintro ⟨entry', hmem, hkept⟩
      exact ⟨entry', List.mem_cons_of_mem _ hmem, hkept⟩
    rcases commitEntries_cons models catalogId skipExisting existingNames backends entry
        entries with
      ⟨item, hitem, hcommit⟩ | ⟨item, backend', -, -, -, hfields, hcommit⟩
    · rw [hcommit] at hp h
      rcases List.mem_cons.mp hp with rfl | hp
      · exact absurd hadded (not_added hitem)
      · exact hlater (ih hp h)
    · rw [hcommit] at hp h
      rcases List.mem_cons.mp hp with rfl | hp
      · rcases exists_of_get?_commitEntries h with hget | hsome
        · rw [Dict.get?_set_self] at hget
          obtain rfl := Option.some.inj hget
          exact ⟨entry, List.mem_cons_self, hfields⟩
        · exact hlater hsome
      · exact hlater (ih hp h)

theorem exists_get?_of_added {name : String} {fields : Fields F D}
    (hsame : ∀ p ∈ entries.zip
      (commitEntries models catalogId skipExisting none existingNames backends entries).1,
      p.1.name = name → p.2.status = .added → p.1.kept models = fields)
    (h : (∃ backend, backends.get? name = some backend ∧ backend.fields = fields) ∨
      ∃ p ∈ entries.zip
        (commitEntries models catalogId skipExisting none existingNames backends entries).1,
        p.1.name = name ∧ p.2.status = .added) :
    ∃ backend,
      (commitEntries models catalogId skipExisting none existingNames backends entries).2.get?
        name = some backend ∧ backend.fields = fields := by
  induction entries generalizing existingNames backends with
  | nil =>
    rcases h with h | ⟨p, hp, -⟩
    · exact h
    · exact absurd hp List.not_mem_nil
  | cons entry entries ih =>
    rcases commitEntries_cons models catalogId skipExisting existingNames backends entry
        entries with
      ⟨item, hitem, hcommit⟩ | ⟨item, backend, hitem, -, -, hfields, hcommit⟩
    · rw [hcommit] at hsame h ⊢
      refine ih (fun p hp ↦ hsame p (List.mem_cons_of_mem _ hp)) (h.imp_right ?_)
      rintro ⟨p, hp, hname, hadded⟩
      rcases List.mem_cons.mp hp with rfl | hp
      · exact absurd hadded (not_added hitem)
      · exact ⟨p, hp, hname, hadded⟩
    · rw [hcommit] at hsame h ⊢
      refine ih (fun p hp ↦ hsame p (List.mem_cons_of_mem _ hp)) ?_
      by_cases hname : entry.name = name
      · refine Or.inl ⟨backend, hname ▸ Dict.get?_set_self .., ?_⟩
        exact hfields.trans (hsame (entry, item) List.mem_cons_self hname hitem)
      · rcases h with ⟨backend', hget, hsame'⟩ | ⟨p, hp, hname', hadded⟩
        · refine Or.inl ⟨backend', ?_, hsame'⟩
          rw [Dict.get?_set_of_ne _ _ fun heq ↦ hname heq.symm]
          exact hget
        · rcases List.mem_cons.mp hp with rfl | hp
          · exact absurd hname' hname
          · exact Or.inr ⟨p, hp, hname', hadded⟩

end Loop

/-! ## The exact condition -/

section Exact

variable {O F D : Type} {models : Models O F D} {catalogId : String} {skipExisting : Bool}
  {entries : List (CatalogEntry O)} {config : ArgusConfig F D}

/-- What is added is there with what it specifies. -/
def AllKept (models : Models O F D) (catalogId : String) (skipExisting : Bool)
    (entries : List (CatalogEntry O)) (config : ArgusConfig F D) : Prop :=
  ∀ p ∈ entries.zip (commitEntries models catalogId skipExisting none config.backends.keys
      config.backends entries).1,
    p.2.status = .added → ∃ backend,
      (commitEntries models catalogId skipExisting none config.backends.keys config.backends
        entries).2.get? p.1.name = some backend ∧ backend.fields = p.1.fields models

/-- The preview is right. -/
def AllAnnounced (models : Models O F D) (catalogId : String) (skipExisting : Bool)
    (entries : List (CatalogEntry O)) (config : ArgusConfig F D) : Prop :=
  (entries.map fun entry ↦ (stageEntry models catalogId skipExisting config.backends.keys
      entry).status.announced) =
    (commitEntries models catalogId skipExisting none config.backends.keys config.backends
      entries).1.map CatalogItemResult.status

theorem allAnnounced_iff : AllAnnounced models catalogId skipExisting entries config ↔
    (skipExisting = true → entries.Pairwise fun entry later ↦ entry.name = later.name →
      Valid models entry → entry.name ∈ config.backends.keys) := by
  rw [AllAnnounced, announced_iff (List.Subset.refl _)]
  exact forall_congr' fun _ ↦ and_iff_right fun _ _ h ↦ h

theorem adds_iff {entry : CatalogEntry O} : Adds models skipExisting config entry ↔
    (stageEntry models catalogId skipExisting config.backends.keys entry).status.announced =
      .added := by
  rcases stageEntry_cases models catalogId skipExisting config.backends.keys entry with
    ⟨hskip, hstage⟩ | ⟨-, hvalid, hstage⟩ | ⟨hskip, hvalid, hstage⟩
  · rw [hstage]
    exact iff_of_false (fun h ↦ h.2 hskip.1 hskip.2) (by decide)
  · rw [hstage]
    exact iff_of_false (fun h ↦ hvalid h.1) (by decide)
  · rw [hstage]
    exact iff_of_true ⟨hvalid, fun hskip' hmem ↦ hskip ⟨hskip', hmem⟩⟩ rfl

/-- If the preview is right, the entries that are added are those it says. -/
theorem AllAnnounced.adds (h : AllAnnounced models catalogId skipExisting entries config)
    {p : CatalogEntry O × CatalogItemResult}
    (hp : p ∈ entries.zip (commitEntries models catalogId skipExisting none config.backends.keys
      config.backends entries).1) :
    p.2.status = .added ↔ Adds models skipExisting config p.1 := by
  rw [@adds_iff _ _ _ models catalogId, forall_mem_zip_of_map_eq h p hp]

theorem allKept_iff (h : AllAnnounced models catalogId skipExisting entries config) :
    AllKept models catalogId skipExisting entries config ↔
      (∀ entry ∈ entries, Adds models skipExisting config entry → Plain models entry) ∧
        ∀ entry ∈ entries, ∀ later ∈ entries, entry.name = later.name →
          Adds models skipExisting config entry → Adds models skipExisting config later →
            entry.fields models = later.fields models := by
  constructor
  · intro hkept
    have hfound : ∀ entry ∈ entries, Adds models skipExisting config entry → ∃ backend,
        (commitEntries models catalogId skipExisting none config.backends.keys config.backends
          entries).2.get? entry.name = some backend ∧ backend.fields = entry.fields models ∧
          ∃ other : CatalogEntry O, backend.fields = other.kept models := by
      intro entry hentry hadds
      obtain ⟨item, hmem⟩ := exists_mem_zip_of_map_eq h hentry
      have hadded := (h.adds hmem).mpr hadds
      obtain ⟨backend, hget, hfields⟩ := hkept _ hmem hadded
      obtain ⟨other, -, hother⟩ := exists_of_added hmem hadded hget
      exact ⟨backend, hget, hfields, other, hother⟩
    constructor
    · intro entry hentry hadds
      obtain ⟨backend, -, hfields, other, hother⟩ := hfound entry hentry hadds
      exact plain_of_kept_eq hadds.1 (hother.symm.trans hfields)
    · intro entry hentry later hlater hname hadds hadds'
      obtain ⟨backend, hget, hfields, -⟩ := hfound entry hentry hadds
      obtain ⟨backend', hget', hfields', -⟩ := hfound later hlater hadds'
      rw [← hname, hget, Option.some.injEq] at hget'
      rw [← hfields, hget', hfields']
  · rintro ⟨hplain, hsame⟩ p hp hadded
    have hmem := (List.of_mem_zip hp).1
    have hadds := (h.adds hp).mp hadded
    refine exists_get?_of_added (fun p' hp' hname hadded' ↦ ?_) (Or.inr ⟨p, hp, rfl, hadded⟩)
    have hmem' := (List.of_mem_zip hp').1
    have hadds' := (h.adds hp').mp hadded'
    rw [(hplain _ hmem' hadds').kept_eq]
    exact hsame _ hmem' _ hmem hname hadds' hadds

/-- **The preview is faithful and what is added is there, exactly under the condition.** -/
theorem faithful_iff_holdsWhen (models : Models O F D) (catalogId : String) (skipExisting : Bool)
    (entries : List (CatalogEntry O)) (config : ArgusConfig F D) (maxEntries : ℤ) :
    Faithful models catalogId skipExisting entries config maxEntries ↔
      HoldsWhen models skipExisting entries config maxEntries := by
  by_cases hmax : maxEntries < entries.length
  · refine iff_of_true ⟨rfl, ?_, ?_⟩ (Or.inl hmax)
    · rw [stageCatalog, commitCatalog, if_pos hmax, if_pos hmax, tooMany, List.map_map,
        List.map_map]
      rfl
    · rw [commitCatalog, if_pos hmax, tooMany]
      intro p hp hadded
      obtain ⟨entry, -, heq⟩ := List.mem_map.mp (List.of_mem_zip hp).2
      rw [← heq] at hadded
      exact absurd hadded (by simp [CatalogEntry.result])
  · have hfaithful : Faithful models catalogId skipExisting entries config maxEntries ↔
        AllAnnounced models catalogId skipExisting entries config ∧
          AllKept models catalogId skipExisting entries config := by
      constructor
      · rintro ⟨-, hannounced, hadded⟩
        rw [stageCatalog, commitCatalog, if_neg hmax, if_neg hmax, List.map_map] at hannounced
        rw [commitCatalog, if_neg hmax] at hadded
        exact ⟨hannounced, hadded⟩
      · rintro ⟨hannounced, hadded⟩
        refine ⟨rfl, ?_, ?_⟩
        · rw [stageCatalog, commitCatalog, if_neg hmax, if_neg hmax, List.map_map]
          exact hannounced
        · rw [commitCatalog, if_neg hmax]
          exact hadded
    rw [hfaithful, HoldsWhen, or_iff_right hmax]
    constructor
    · rintro ⟨hannounced, hkept⟩
      obtain ⟨hplain, hsame⟩ := (allKept_iff hannounced).mp hkept
      refine ⟨hplain, ?_⟩
      cases hskip : skipExisting with
      | true =>
        refine (allAnnounced_iff.mp hannounced hskip).imp fun hnew hname hadds ↦ ?_
        exact absurd (hnew hname hadds.1) (hadds.2 rfl)
      | false =>
        subst hskip
        refine List.pairwise_of_forall_mem_list fun entry hmem later hmem' hname hadds ↦ ⟨rfl, ?_⟩
        intro hvalid
        exact hsame entry hmem later hmem' hname hadds
          ⟨hvalid, fun h ↦ absurd h Bool.false_ne_true⟩
    · rintro ⟨hplain, hpairs⟩
      have hannounced : AllAnnounced models catalogId skipExisting entries config := by
        refine allAnnounced_iff.mpr fun hskip ↦ hpairs.imp fun hpair hname hvalid ↦ ?_
        by_contra hnew
        exact absurd ((hpair hname ⟨hvalid, fun _ ↦ hnew⟩).1) (by simp [hskip])
      refine ⟨hannounced, (allKept_iff hannounced).mpr ⟨hplain, ?_⟩⟩
      refine List.Pairwise.forall_of_forall_of_flip (fun _ _ _ _ _ ↦ rfl)
        (hpairs.imp fun hpair hname hadds hadds' ↦ ?_)
        (hpairs.imp fun hpair hname hadds' hadds ↦ ?_)
      · exact (hpair hname hadds).2 hadds'.1
      · exact ((hpair hname.symm hadds).2 hadds'.1).symm

/-- A server that is started with `uvx`. -/
private def timeServer : CatalogEntry Empty :=
  ⟨"time", "stdio", some "uvx", ["mcp-server-time"], none, none, none, [], none, none⟩

private def anyModels : Models Empty Unit Unit :=
  ⟨fun _ ↦ .ok (), (), fun _ ↦ .ok (), (), id⟩

/-- It is staged twice, and added once. -/
theorem not_forall_faithful : ¬ ∀ (models : Models Empty Unit Unit) (catalogId : String)
    (skipExisting : Bool) (entries : List (CatalogEntry Empty)) (config : ArgusConfig Unit Unit)
    (maxEntries : ℤ), Faithful models catalogId skipExisting entries config maxEntries := by
  intro h
  have hannounced :=
    (h anyModels "batch" true [timeServer, timeServer] ⟨.empty⟩ 500).announced
  exact absurd hannounced (by decide)

end Exact

end Catalog

end ArgusMcp
