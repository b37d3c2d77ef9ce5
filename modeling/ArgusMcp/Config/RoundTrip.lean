import ArgusMcp.Config.Export
import ArgusMcp.Config.ImportKept

/-!
# Exporting and importing again

A configuration that is exported with its references, all sections of it, and imported into an empty
one should be there again. It is not in three cases. An import does nothing about plugins. Of several
registries with one name, which a configuration may have, only the first is new to an import. And a
`stdio` backend whose command is blank is valid, but the command is stored without the blanks, and an
empty one is refused.

These are the only cases (`roundTrips_iff`).
-/

namespace ArgusMcp

namespace Export

open Import ConfigSchema Schema

section

variable {O : Type} [DecidableEq O] (S : Scalars O)

structure Valid (c : Config O) : Prop where
  backends : ∀ k b, c.backends.get? k = some b →
    (∃ n, k = .str n) ∧ ∃ t kwargs, fill (backendFields S t) kwargs = some b
  registries : ∀ r ∈ c.registries,
    r.name ≠ "" ∧ ∃ kwargs, fill (ConfigSchema.RegistryEntryConfig S) kwargs = some r.fields
  featureFlags : ∀ k ∈ c.featureFlags.keys, ∃ n, k = .str n

omit [DecidableEq O] in
/-- `PluginsConfig()`. -/
def defaultPlugins : Yaml O := .map [(.str "enabled", .bool true), (.str "entries", .list [])]

omit [DecidableEq O] in
/-- `ArgusConfig()`. -/
def emptyConfig : Config O := ⟨⟨.empty, [], .empty⟩, "1", defaultPlugins⟩

def importInto (strategy : Import.ConflictStrategy) (target : Config O) (payload : List (Key O × Yaml O))
    (maxBackends maxRegistries : ℤ) : Config O × Except Raised ImportResult :=
  let r := importConfig (schemaLib S) strategy false target.toArgusConfig payload none maxBackends
    maxRegistries
  ({ target with toArgusConfig := r.1 }, r.2)

/-- The configuration is there again, and everything is reported as added. -/
def RoundTrips (strategy : Import.ConflictStrategy) (c : Config O) (maxBackends maxRegistries : ℤ) :
    Prop :=
  ∃ left result, importInto S strategy emptyConfig (exportConfig c .all .preserve).data maxBackends
      maxRegistries = (left, .ok result) ∧ result.errors = [] ∧
    List.Forall₂ (fun _ r ↦ r.status = .added)
      (itemsOf (exportConfig c .all .preserve).data none) result.items ∧
    left.backends = c.backends ∧ left.registries = c.registries ∧
    left.featureFlags = c.featureFlags ∧ left.plugins = c.plugins

/-! ## The items of an export -/

def backendItem (e : Key O × List (String × Yaml O)) : Item O := .backend (e.1, .map (dump e.2))

def flagItem (e : Key O × Bool) : Item O := .featureFlag (e.1, .bool e.2)

variable {S}

omit [DecidableEq O] in
theorem exportedBackends_all (c : Config O) : exportedBackends c .all = c.backends.items :=
  List.filter_eq_self.mpr fun _ _ ↦ rfl

omit [DecidableEq O] in
theorem exportData_all (c : Config O) : exportData c .all =
    [(.str "version", .key (.str c.version)),
      (.str "backends", .map (c.backends.items.map fun e ↦ (e.1, .map (dump e.2)))),
      (.str "registries", .list (c.registries.map dumpRegistry)),
      (.str "feature_flags", .map (c.featureFlags.items.map fun e ↦ (e.1, .bool e.2))),
      (.str "plugins", c.plugins)] := by
  rw [exportData, exportedBackends_all]
  simp [sectionIf, ExportFilter.all]

@[simp] theorem str_beq_str (a b : String) : ((.str a : Key O) == .str b) = (a == b) := by
  by_cases h : a = b
  · simp [h]
  · simp [h]

theorem itemsOf_exportData (c : Config O) : itemsOf (exportData c .all) none =
    (c.backends.items.map backendItem ++
      (c.registries.map dumpRegistry).zipIdx.map Item.registry) ++
        c.featureFlags.items.map flagItem := by
  have hbackends : Item.backend ∘ (fun e : Key O × List (String × Yaml O) ↦
      (e.1, Yaml.map (dump e.2))) = backendItem := rfl
  have hflags : Item.featureFlag ∘ (fun e : Key O × Bool ↦ (e.1, Yaml.bool e.2)) = flagItem := rfl
  rw [exportData_all, itemsOf]
  simp [sectionOf, List.lookup_cons, mapItems, listItems, hbackends, hflags]

theorem validateImportLimits_exportData {c : Config O} {maxBackends maxRegistries : ℤ}
    (hbackends : (c.backends.items.length : ℤ) ≤ maxBackends)
    (hregistries : (c.registries.length : ℤ) ≤ maxRegistries) :
    validateImportLimits (exportData c .all) maxBackends maxRegistries = [] := by
  have hlookup : ∀ n, (exportData c .all).lookup (.str n) =
      [("version", .key (.str c.version)),
        ("backends", .map (c.backends.items.map fun e ↦ (e.1, .map (dump e.2)))),
        ("registries", .list (c.registries.map dumpRegistry)),
        ("feature_flags", .map (c.featureFlags.items.map fun e ↦ (e.1, .bool e.2))),
        ("plugins", c.plugins)].lookup n := by
    intro n
    rw [exportData_all]
    simp only [List.lookup_cons, str_beq_str, List.lookup_nil]
  rw [validateImportLimits, hlookup, hlookup]
  simp [List.lookup_cons, Int.not_lt.mpr hbackends, Int.not_lt.mpr hregistries]

/-! ## What an export makes of an entry is valid again -/

/-- The type a class is known by. -/
def typeName : BackendType → String
  | .stdio => "stdio"
  | .sse => "sse"
  | .streamableHttp => "streamable-http"

theorem lookup_type_of_fill {t : BackendType} {kwargs values : List (String × Yaml O)}
    (h : fill (backendFields S t) kwargs = some values) :
    values.lookup "type" = some (.key (.str (typeName t))) := by
  refine lookup_type (nodup_backendFields S t) ?_ h
  cases t with
  | stdio => simp [backendFields, StdioBackendConfig, typeName]
  | sse => simp [backendFields, SseBackendConfig, typeName]
  | streamableHttp => simp [backendFields, StreamableHttpBackendConfig, typeName]

theorem parseBackend_dump {t : BackendType} {kwargs values : List (String × Yaml O)}
    (h : fill (backendFields S t) kwargs = some values) (name : Key O) :
    parseBackend (schemaLib S) name (dump values) = (schemaLib S).backendClass t values := by
  have htype := lookup_type_of_fill h
  rw [← lookup_dump] at htype
  have hcall : call ((schemaLib S).backendClass t) (dump values) =
      (schemaLib S).backendClass t values := by rw [call, keywords_dump]
  rw [← hcall]
  cases t with
  | stdio | sse | streamableHttp => simp only [parseBackend, htype, typeName]

def HasCommand (values : List (String × Yaml O)) : Prop :=
  values.lookup "type" = some (.key (.str "stdio")) →
    values.lookup "command" ≠ some (.key (.str ""))

theorem parseBackend_of_hasCommand {t : BackendType} {kwargs values : List (String × Yaml O)}
    (h : fill (backendFields S t) kwargs = some values) (hcommand : HasCommand values)
    (name : Key O) : parseBackend (schemaLib S) name (dump values) = .ok values := by
  have hself : fill (backendFields S t) values = some values := by
    refine (fill_backendFields_iff h).mpr ?_
    rintro rfl
    exact hcommand (lookup_type_of_fill h)
  rw [parseBackend_dump h, schemaLib]
  dsimp only
  rw [hself]

theorem hasCommand_of_parseBackend {t : BackendType} {kwargs values validated : List (String × Yaml O)}
    (h : fill (backendFields S t) kwargs = some values) {name : Key O}
    (hparse : parseBackend (schemaLib S) name (dump values) = .ok validated) :
    HasCommand values := by
  intro htype hcommand
  rw [lookup_type_of_fill h] at htype
  have ht : t = .stdio := by
    cases t with
    | stdio => rfl
    | sse | streamableHttp => exact absurd htype (by simp [typeName])
  subst ht
  rw [parseBackend_dump h, schemaLib] at hparse
  dsimp only at hparse
  split at hparse
  · rename_i values' hfill
    have hfield : required "command" (textOf S stdioCommand) ∈ backendFields S .stdio := by
      simp [backendFields, StdioBackendConfig]
    obtain ⟨v, hv⟩ := exists_read_of_fill hfill hfield
    have hread : (required "command" (textOf S stdioCommand)).read values =
        textOf S stdioCommand (.key (.str "")) := by
      rw [FieldInfo.read, required, hcommand]
    rw [hread] at hv
    exact absurd hv (by simp [textOf, Scalars.str, stdioCommand, minLength])
  · exact absurd hparse (by simp)

theorem registryEntryConfig_dump {r : Import.RegistryEntryConfig (List (String × Yaml O))}
    (hname : r.name ≠ "") {kwargs : List (String × Yaml O)}
    (h : fill (ConfigSchema.RegistryEntryConfig S) kwargs = some r.fields) :
    registryEntryConfig (schemaLib S) (dump (("name", .key (.str r.name)) :: r.fields)) = .ok r := by
  have hnotMem : "name" ∉ (ConfigSchema.RegistryEntryConfig S).map FieldInfo.name := by
    simp [ConfigSchema.RegistryEntryConfig, MetadataProvenance, required, nullable]
  have hself : fill (ConfigSchema.RegistryEntryConfig S) (("name", .key (.str r.name)) :: r.fields) =
      some r.fields := by
    rw [fill_cons_of_notMem hnotMem]
    exact stable_fill_RegistryEntryConfig _ _ h
  rw [registryEntryConfig, call, keywords_dump]
  dsimp only
  rw [schemaLib]
  dsimp only
  rw [hself]
  simp [Lib.asStr, hname]

/-! ## Items that are new -/

variable {strategy : Import.ConflictStrategy}

theorem loop_backends {d : List (Key O × List (String × Yaml O))}
    (hnodup : (d.map Prod.fst).Nodup)
    (hvalid : ∀ e ∈ d, (∃ n, e.1 = .str n) ∧
      parseBackend (schemaLib S) e.1 (dump e.2) = .ok e.2)
    (s : State O (List (String × Yaml O)) (List (String × Yaml O)))
    (hnew : ∀ e ∈ d, e.1 ∉ s.backendNames) :
    ∃ names results, Loop.loop (importItem (schemaLib S) strategy false) s (d.map backendItem) =
        (⟨{ s.target with backends := d.foldl (fun b e ↦ b.set e.1 e.2) s.target.backends }, names,
          s.registryNames⟩, .ok results) ∧
      List.Forall₂ (fun _ r ↦ r.status = .added) (d.map backendItem) results := by
  induction d generalizing s with
  | nil => exact ⟨s.backendNames, [], rfl, .nil⟩
  | cons e d ih =>
    obtain ⟨k, b⟩ := e
    obtain ⟨⟨⟨n, rfl⟩, hparse⟩, hvalid'⟩ := List.forall_mem_cons.mp hvalid
    obtain ⟨hfirst, hnew'⟩ := List.forall_mem_cons.mp hnew
    rw [List.map_cons, List.nodup_cons] at hnodup
    have hitem : importItem (schemaLib S) strategy false s (backendItem (.str n, b)) =
        (⟨s.target.putBackend false (.str n) b, .str n :: s.backendNames, s.registryNames⟩,
          .ok ⟨n, "backend", .added, none, none⟩) := by
      rw [backendItem, importItem, importBackend_of_new hparse hfirst]
      rfl
    have hrest : ∀ e ∈ d, e.1 ∉ Key.str n :: s.backendNames := by
      intro e he hmem
      rcases List.mem_cons.mp hmem with heq | hmem
      · exact hnodup.1 (List.mem_map.mpr ⟨e, he, heq⟩)
      · exact hnew' e he hmem
    obtain ⟨names, results, hloop, hadded⟩ := ih hnodup.2 hvalid'
      ⟨s.target.putBackend false (.str n) b, .str n :: s.backendNames, s.registryNames⟩ hrest
    refine ⟨names, ⟨n, "backend", .added, none, none⟩ :: results, ?_, .cons rfl hadded⟩
    rw [List.map_cons, Loop.loop_cons_of_ok hitem, hloop]
    rfl

theorem loop_registries {regs : List (Import.RegistryEntryConfig (List (String × Yaml O)))}
    (hnodup : (regs.map RegistryEntryConfig.name).Nodup)
    (hvalid : ∀ r ∈ regs, registryEntryConfig (schemaLib S)
      (dump (("name", .key (.str r.name)) :: r.fields)) = .ok r) (idx : ℕ)
    (s : State O (List (String × Yaml O)) (List (String × Yaml O)))
    (hnew : ∀ r ∈ regs, .str r.name ∉ s.registryNames) :
    ∃ names results, Loop.loop (importItem (schemaLib S) strategy false) s
        (((regs.map dumpRegistry).zipIdx idx).map Item.registry) =
        (⟨{ s.target with registries := s.target.registries ++ regs }, s.backendNames, names⟩,
          .ok results) ∧
      List.Forall₂ (fun _ r ↦ r.status = .added)
        (((regs.map dumpRegistry).zipIdx idx).map (Item.registry (O := O))) results := by
  induction regs generalizing s idx with
  | nil => exact ⟨s.registryNames, [], by rw [List.append_nil]; rfl, .nil⟩
  | cons r regs ih =>
    obtain ⟨hparse, hvalid'⟩ := List.forall_mem_cons.mp hvalid
    obtain ⟨hfirst, hnew'⟩ := List.forall_mem_cons.mp hnew
    rw [List.map_cons, List.nodup_cons] at hnodup
    have hname : regName idx (dump (("name", .key (.str r.name)) :: r.fields)) =
        .key (.str r.name) := by
      rw [regName, lookup_dump]
      rfl
    have hitem : importItem (schemaLib S) strategy false s (.registry (dumpRegistry r, idx)) =
        (⟨s.target.appendRegistry false r, s.backendNames, .str r.name :: s.registryNames⟩,
          .ok ⟨r.name, "registry", .added, none, none⟩) := by
      rw [dumpRegistry, importItem, importRegistry_of_new hparse hname hfirst]
      rfl
    have hrest : ∀ r' ∈ regs, Key.str r'.name ∉ Key.str r.name :: s.registryNames := by
      intro r' hr' hmem
      rcases List.mem_cons.mp hmem with heq | hmem
      · exact hnodup.1 (List.mem_map.mpr ⟨r', hr', Key.str.inj heq⟩)
      · exact hnew' r' hr' hmem
    obtain ⟨names, results, hloop, hadded⟩ := ih hnodup.2 hvalid' (idx + 1)
      ⟨s.target.appendRegistry false r, s.backendNames, .str r.name :: s.registryNames⟩ hrest
    refine ⟨names, ⟨r.name, "registry", .added, none, none⟩ :: results, ?_, .cons rfl hadded⟩
    rw [List.map_cons, List.zipIdx_cons, List.map_cons, Loop.loop_cons_of_ok hitem, hloop,
      ArgusConfig.appendRegistry, if_neg Bool.false_ne_true, List.append_assoc,
      List.singleton_append]
    rfl

theorem loop_featureFlags {d : List (Key O × Bool)} (hnodup : (d.map Prod.fst).Nodup)
    (hvalid : ∀ e ∈ d, ∃ n, e.1 = .str n)
    (s : State O (List (String × Yaml O)) (List (String × Yaml O)))
    (hnew : ∀ e ∈ d, e.1 ∉ s.target.featureFlags.keys) :
    ∃ results, Loop.loop (importItem (schemaLib S) strategy false) s (d.map flagItem) =
        (⟨{ s.target with featureFlags := d.foldl (fun b e ↦ b.set e.1 e.2) s.target.featureFlags },
          s.backendNames, s.registryNames⟩, .ok results) ∧
      List.Forall₂ (fun _ r ↦ r.status = .added) (d.map flagItem) results := by
  induction d generalizing s with
  | nil => exact ⟨[], rfl, .nil⟩
  | cons e d ih =>
    obtain ⟨k, b⟩ := e
    obtain ⟨⟨n, rfl⟩, hvalid'⟩ := List.forall_mem_cons.mp hvalid
    obtain ⟨hfirst, hnew'⟩ := List.forall_mem_cons.mp hnew
    rw [List.map_cons, List.nodup_cons] at hnodup
    have hitem : importItem (schemaLib S) strategy false s (flagItem (.str n, b)) =
        (⟨{ s.target with featureFlags := s.target.featureFlags.set (.str n) b }, s.backendNames,
          s.registryNames⟩, .ok ⟨n, "feature_flag", .added, none, none⟩) := by
      rw [flagItem, importItem, importFeatureFlag_of_new hfirst]
      rfl
    have hrest : ∀ e ∈ d, e.1 ∉ (s.target.featureFlags.set (.str n) b).keys := by
      intro e he hmem
      rcases Dict.mem_keys_set.mp hmem with heq | hmem
      · exact hnodup.1 (List.mem_map.mpr ⟨e, he, heq⟩)
      · exact hnew' e he hmem
    obtain ⟨results, hloop, hadded⟩ := ih hnodup.2 hvalid'
      ⟨{ s.target with featureFlags := s.target.featureFlags.set (.str n) b }, s.backendNames,
        s.registryNames⟩ hrest
    refine ⟨⟨n, "feature_flag", .added, none, none⟩ :: results, ?_, .cons rfl hadded⟩
    rw [List.map_cons, Loop.loop_cons_of_ok hitem, hloop]
    rfl

/-! ## Exactly when it comes back -/

omit [DecidableEq O] in
theorem forall₂_append {A B : Type} {R : A → B → Prop} {l m : List A} {l' m' : List B}
    (h : List.Forall₂ R l l') (h' : List.Forall₂ R m m') : List.Forall₂ R (l ++ m) (l' ++ m') := by
  induction h with
  | nil => exact h'
  | cons hr _ ih => exact .cons hr ih

theorem exists_loop_exportData {c : Config O} (hvalid : Valid S c)
    (hnodup : (c.registries.map RegistryEntryConfig.name).Nodup)
    (hcommand : ∀ k b, c.backends.get? k = some b → HasCommand b) :
    ∃ names names' results,
      Loop.loop (importItem (schemaLib S) strategy false) (.init ⟨.empty, [], .empty⟩)
          (itemsOf (exportData c .all) none) =
        (⟨⟨c.backends, c.registries, c.featureFlags⟩, names, names'⟩, .ok results) ∧
      List.Forall₂ (fun _ r ↦ r.status = .added) (itemsOf (exportData c .all) none) results := by
  have hbackends : ∀ e ∈ c.backends.items, (∃ n, e.1 = .str n) ∧
      parseBackend (schemaLib S) e.1 (dump e.2) = .ok e.2 := by
    intro e he
    have hget := Dict.mem_items_iff.mp he
    obtain ⟨hname, t, kwargs, hfill⟩ := hvalid.backends e.1 e.2 hget
    exact ⟨hname, parseBackend_of_hasCommand hfill (hcommand e.1 e.2 hget) e.1⟩
  have hregistries : ∀ r ∈ c.registries, registryEntryConfig (schemaLib S)
      (dump (("name", .key (.str r.name)) :: r.fields)) = .ok r := by
    intro r hr
    obtain ⟨hname, kwargs, hfill⟩ := hvalid.registries r hr
    exact registryEntryConfig_dump hname hfill
  have hflags : ∀ e ∈ c.featureFlags.items, ∃ n, e.1 = .str n :=
    fun e he ↦ hvalid.featureFlags e.1 (List.mem_map_of_mem he)
  obtain ⟨names, results₁, hloop₁, hadded₁⟩ :=
    @loop_backends _ _ S strategy c.backends.items c.backends.nodup_keys hbackends
      (.init ⟨.empty, [], .empty⟩) fun _ _ h ↦ absurd h List.not_mem_nil
  obtain ⟨names', results₂, hloop₂, hadded₂⟩ :=
    @loop_registries _ _ S strategy c.registries hnodup hregistries 0
      ⟨⟨c.backends, [], .empty⟩, names, []⟩ fun _ _ h ↦ absurd h List.not_mem_nil
  obtain ⟨results₃, hloop₃, hadded₃⟩ :=
    @loop_featureFlags _ _ S strategy c.featureFlags.items c.featureFlags.nodup_keys hflags
      ⟨⟨c.backends, c.registries, .empty⟩, names, names'⟩ fun _ _ h ↦ absurd h List.not_mem_nil
  have hfirst : c.backends.items.foldl (fun b e ↦ b.set e.1 e.2) Dict.empty = c.backends :=
    Dict.ofList_items c.backends
  have hthird : c.featureFlags.items.foldl (fun b e ↦ b.set e.1 e.2) Dict.empty =
      c.featureFlags := Dict.ofList_items c.featureFlags
  refine ⟨names, names', (results₁ ++ results₂) ++ results₃, ?_, ?_⟩
  · rw [itemsOf_exportData, Loop.loop_append, Loop.loop_append, hloop₁]
    dsimp only [State.init]
    rw [hfirst, Loop.andThen, List.map_nil, hloop₂]
    dsimp only [Except.map, List.nil_append]
    rw [Loop.andThen, hloop₃, hthird]
    rfl
  · rw [itemsOf_exportData]
    exact forall₂_append (forall₂_append hadded₁ hadded₂) hadded₃

theorem strNamed_exportData {c : Config O} (hvalid : Valid S c) :
    ∀ item ∈ itemsOf (exportData c .all) none, StrNamed (schemaLib S) item := by
  rw [itemsOf_exportData]
  simp only [List.forall_mem_append, List.forall_mem_map]
  refine ⟨⟨fun e he validated _ _ ↦ ?_, fun e he ↦ ?_⟩, fun e he _ ↦ ?_⟩
  · exact (hvalid.backends e.1 e.2 (Dict.mem_items_iff.mp he)).1
  · obtain ⟨v, idx⟩ := e
    obtain ⟨r, hr, rfl⟩ := List.mem_map.mp (List.fst_mem_of_mem_zipIdx he)
    intro validated _
    refine ⟨r.name, ?_⟩
    rw [regName, lookup_dump]
    rfl
  · exact hvalid.featureFlags e.1 (List.mem_map_of_mem he)

/-- **A configuration comes back exactly if** its plugins are the default, no two registries have
one name, and no `stdio` backend has the empty command. -/
theorem roundTrips_iff (S : Scalars O) (strategy : Import.ConflictStrategy) (c : Config O)
    (hvalid : Valid S c) (maxBackends maxRegistries : ℤ)
    (hbackends : (c.backends.items.length : ℤ) ≤ maxBackends)
    (hregistries : (c.registries.length : ℤ) ≤ maxRegistries) :
    RoundTrips S strategy c maxBackends maxRegistries ↔
      c.plugins = defaultPlugins ∧ (c.registries.map RegistryEntryConfig.name).Nodup ∧
        ∀ k b, c.backends.get? k = some b → HasCommand b := by
  have hlimits := validateImportLimits_exportData hbackends hregistries
  have heq := importConfig_eq (schemaLib S) strategy false emptyConfig.toArgusConfig
    (exportData c .all) none maxBackends maxRegistries hlimits
  dsimp only at heq
  rw [RoundTrips, exportConfig]
  dsimp only
  constructor
  · rintro ⟨left, result, himport, -, hadded, -, hleft, -, hplugins⟩
    rw [importInto, heq] at himport
    obtain ⟨rfl, hresult⟩ := Prod.mk.inj himport
    obtain ⟨results, hresults, rfl⟩ := map_eq_ok_iff.mp hresult
    refine ⟨hplugins.symm, ?_, fun k b hk ↦ ?_⟩
    · have hstep : ∀ (s : State O (List (String × Yaml O)) (List (String × Yaml O))) item,
          Import.Consistent s → StrNamed (schemaLib S) item →
          Import.Consistent (importItem (schemaLib S) strategy false s item).1 :=
        fun s item hs hitem ↦ consistent_importItem hs hitem
      have hempty : ((emptyConfig : Config O).registries.map RegistryEntryConfig.name).Nodup :=
        List.nodup_nil
      have hconsistent := Loop.invariant_of_loop hstep (consistent_init hempty)
        (strNamed_exportData hvalid)
      rw [← hleft]
      exact hconsistent.nodup
    · obtain ⟨-, t, kwargs, hfill⟩ := hvalid.backends k b hk
      have hitem : backendItem (k, b) ∈ itemsOf (exportData c .all) none := by
        rw [itemsOf_exportData]
        exact List.mem_append_left _ (List.mem_append_left _
          (List.mem_map_of_mem (Dict.mem_items_iff.mpr hk)))
      have hboth : List.Forall₂ (fun item (_ : ImportItemResult) ↦
          ¬ Offending (schemaLib S) item ∧ True) (itemsOf (exportData c .all) none) results := by
        refine List.Forall₂.mp (fun item r hr hs ↦ ⟨fun hoffending ↦ ?_, trivial⟩) hadded
          (Loop.forall₂_of_loop hresults)
        obtain ⟨s, hs⟩ := hs
        exact absurd ((failed_of_offending hs hoffending).symm.trans hr) (by simp)
      have hnot := ((List.forall₂_and_left _ _).mp hboth).1 _ hitem
      rcases hparse : parseBackend (schemaLib S) k (dump b) with b' | message | e
      · exact hasCommand_of_parseBackend hfill hparse
      · exact absurd ⟨message, hparse⟩ hnot
      · rw [parseBackend_dump hfill, schemaLib] at hparse
        dsimp only at hparse
        split at hparse
        · exact absurd hparse (by simp)
        · exact absurd hparse (by simp)
  · rintro ⟨hplugins, hnodup, hcommand⟩
    obtain ⟨names, names', results, hloop, hadded⟩ :=
      @exists_loop_exportData _ _ S strategy c hvalid hnodup hcommand
    have hloop' : Loop.loop (importItem (schemaLib S) strategy false)
        (.init emptyConfig.toArgusConfig) (itemsOf (exportData c .all) none) = _ := hloop
    refine ⟨⟨⟨c.backends, c.registries, c.featureFlags⟩, "1", defaultPlugins⟩,
      ⟨false, strategy, results, []⟩, ?_, rfl, hadded, rfl, rfl, rfl, hplugins.symm⟩
    rw [importInto, heq, hloop']
    rfl

end

/-- Scalars that are integers, or `None`. -/
def integers : Scalars (Option ℤ) where
  null := none
  decode _ := none
  text
    | .key (.other (some n)) => toString n
    | _ => "None"
  elements _ := none
  isInt o := o.isSome
  isFloat o := o.isSome
  toInt _ := none
  toFloat _ := none
  toBool _ := none
  ofInt n := ⟨some n, rfl⟩
  ofFloat n := ⟨some n, rfl⟩
  atLeast m o := o.any fun n ↦ m ≤ n
  atMost m o := o.any fun n ↦ n ≤ m
  atLeast_ofInt _ _ h := decide_eq_true h
  atLeast_ofFloat _ _ h := decide_eq_true h
  volumeAllowed _ := true
  sourceUrlAllowed _ := true
  message _ := "invalid"

/-- What a backend of each of two types, and a registry, are configured with. -/
def stdioArguments : List (String × Yaml (Option ℤ)) :=
  [("type", .key (.str "stdio")), ("command", .key (.str " uvx ")),
    ("args", .list [.key (.str "mcp-server-time")]),
    ("env", .map [(.str "TZ", .key (.str "UTC"))])]

def sseArguments : List (String × Yaml (Option ℤ)) :=
  [("type", .key (.str "sse")), ("url", .key (.str "http://localhost:9000/sse")),
    ("headers", .map [(.str "X-Team", .key (.str "search"))]), ("group", .key (.str "web"))]

def registryArguments : List (String × Yaml (Option ℤ)) :=
  [("url", .key (.str "https://glama.ai/api")), ("priority", .key (.other (some 10)))]

/-- A configuration with two backends, a registry and a feature flag. -/
def twoBackends : Config (Option ℤ) :=
  ⟨⟨.ofList
      [(.str "time", (fill (backendFields integers .stdio) stdioArguments).getD []),
        (.str "search", (fill (backendFields integers .sse) sseArguments).getD [])],
    [⟨"glama", (fill (ConfigSchema.RegistryEntryConfig integers) registryArguments).getD []⟩],
    .ofList [(.str "hot_reload", true)]⟩, "1", defaultPlugins⟩

theorem fill_getD {fields : List (FieldInfo (Yaml (Option ℤ)))}
    {kwargs : List (String × Yaml (Option ℤ))} (h : (fill fields kwargs).isSome = true) :
    fill fields kwargs = some ((fill fields kwargs).getD []) := by
  obtain ⟨values, hvalues⟩ := Option.isSome_iff_exists.mp h
  rw [hvalues, Option.getD_some]

theorem mem_twoBackends {k : Key (Option ℤ)} {b : List (String × Yaml (Option ℤ))}
    (h : twoBackends.backends.get? k = some b) :
    (k = .str "time" ∧ fill (backendFields integers .stdio) stdioArguments = some b) ∨
      k = .str "search" ∧ fill (backendFields integers .sse) sseArguments = some b := by
  have hmem : (k, b) ∈ twoBackends.backends.items := Dict.mem_items_of_get?_eq_some h
  rcases List.mem_cons.mp hmem with heq | hmem
  · obtain ⟨rfl, rfl⟩ := Prod.mk.inj heq
    exact Or.inl ⟨rfl, fill_getD (by decide +kernel)⟩
  · obtain ⟨rfl, rfl⟩ := Prod.mk.inj (List.mem_singleton.mp hmem)
    exact Or.inr ⟨rfl, fill_getD (by decide +kernel)⟩

theorem valid_twoBackends : Valid integers twoBackends := by
  refine ⟨fun k b h ↦ ?_, fun r hr ↦ ?_, fun k hk ↦ ⟨"hot_reload", List.mem_singleton.mp hk⟩⟩
  · rcases mem_twoBackends h with ⟨rfl, hfill⟩ | ⟨rfl, hfill⟩
    · exact ⟨⟨_, rfl⟩, _, _, hfill⟩
    · exact ⟨⟨_, rfl⟩, _, _, hfill⟩
  · obtain rfl := List.mem_singleton.mp hr
    have hfill : (fill (ConfigSchema.RegistryEntryConfig integers) registryArguments).isSome =
        true := by decide +kernel
    exact ⟨by simp, registryArguments, fill_getD hfill⟩

theorem roundTrips_twoBackends : RoundTrips integers .fail twoBackends 200 50 := by
  refine (roundTrips_iff integers .fail twoBackends valid_twoBackends 200 50 (by decide)
    (by decide)).mpr ⟨rfl, List.nodup_singleton _, fun k b h htype ↦ ?_⟩
  rcases mem_twoBackends h with ⟨rfl, hfill⟩ | ⟨rfl, hfill⟩
  · have hcommand : (fill (backendFields integers .stdio) stdioArguments).bind
        (List.lookup "command") = some (.key (.str "uvx")) := rfl
    rw [hfill, Option.bind_some] at hcommand
    simp [hcommand]
  · have hsse : (fill (backendFields integers .sse) sseArguments).bind
        (List.lookup "type") = some (.key (.str "sse")) := rfl
    rw [hfill, Option.bind_some, htype] at hsse
    simp at hsse

def pluginsOff : Config (Option ℤ) :=
  ⟨⟨.empty, [], .empty⟩, "1", .map [(.str "enabled", .bool false), (.str "entries", .list [])]⟩

/-- They are switched on again. -/
theorem not_forall_roundTrips : ¬ ∀ (strategy : Import.ConflictStrategy) (c : Config (Option ℤ)),
    Valid integers c → ∀ (maxBackends maxRegistries : ℤ),
      (c.backends.items.length : ℤ) ≤ maxBackends → (c.registries.length : ℤ) ≤ maxRegistries →
      RoundTrips integers strategy c maxBackends maxRegistries := by
  intro h
  have hvalid : Valid integers pluginsOff :=
    ⟨fun k b h ↦ absurd h (by simp [pluginsOff]), fun r hr ↦ absurd hr List.not_mem_nil,
      fun k hk ↦ absurd hk List.not_mem_nil⟩
  obtain ⟨left, result, himport, -, -, -, -, -, hplugins⟩ :=
    h .skip pluginsOff hvalid 200 50 (by decide) (by decide)
  have hleft : defaultPlugins = left.plugins := congrArg (fun r ↦ r.1.plugins) himport
  rw [← hleft] at hplugins
  exact absurd hplugins (by simp [pluginsOff, defaultPlugins])

end Export

end ArgusMcp
