import ArgusMcp.Config.Import

/-!
# An import that raises

An import should return with every item that is not valid reported, or raise and leave the
configuration alone. The first holds. An import that raises is left where it is: what was written
before stays, and a backend or a feature flag whose name is no string is written itself before the
record of it cannot be made.

The exact condition is that whatever makes the import raise comes before anything is changed
(`atomic_iff`).
-/

namespace ArgusMcp

namespace Import

variable {O B R : Type} [DecidableEq O] (lib : Lib O B R) (strategy : ConflictStrategy)
  (dryRun : Bool)

/-! ## What is expected -/

def Offending : Item O → Prop
  | .backend (name, .map raw) => ∃ message, parseBackend lib name raw = .invalid message
  | .backend _ => True
  | .registry (.map raw, _) => ∃ message, registryEntryConfig lib raw = .invalid message
  | .registry _ => True
  | .featureFlag (_, .bool _) => False
  | .featureFlag _ => True

/-- The import returns and reports what is not valid, or raises and has changed nothing. A payload
above the limits is refused as a whole. -/
structure Atomic (target : ArgusConfig O B R) (payload : List (Key O × Yaml O))
    (entityTypes : Option (List String)) (maxBackends maxRegistries : ℤ) : Prop where
  reported : ∀ left result,
    importConfig lib strategy dryRun target payload entityTypes maxBackends maxRegistries =
      (left, .ok result) →
    (result.errors ≠ [] ∧ left = target) ∨
      List.Forall₂ (fun item r ↦ Offending lib item → r.status = .failed)
        (itemsOf payload entityTypes) result.items
  unchanged : ∀ left e,
    importConfig lib strategy dryRun target payload entityTypes maxBackends maxRegistries =
      (left, .error e) → left = target

/-! ## The condition -/

/-- No new name is found. -/
def Exhausted (name : Yaml O) (existingNames : List (Key O)) : Prop :=
  strategy = .rename ∧ (∃ k, name = .key k ∧ k ∈ existingNames) ∧
    generateRename lib name existingNames = none

/-- The item makes the import raise: its name is no string, an entry of it has a key that is no
string, its class raises something else, or no new name is found. -/
def Raises (s : State O B R) : Item O → Prop
  | .backend (name, .map raw) =>
    match parseBackend lib name raw with
    | .raises _ => True
    | .invalid _ => lib.asStr (.key name) = none
    | .ok _ => lib.asStr (.key name) = none ∨ Exhausted lib strategy (.key name) s.backendNames
  | .backend (name, _) => lib.asStr (.key name) = none
  | .registry (.map raw, idx) =>
    match registryEntryConfig lib raw with
    | .raises _ => True
    | .invalid _ => lib.asStr (regName idx raw) = none
    | .ok _ => Exhausted lib strategy (regName idx raw) s.registryNames
  | .registry _ => False
  | .featureFlag (name, _) => lib.asStr (.key name) = none

/-- The item is valid, and its name is no string. -/
def Enters : Item O → Prop
  | .backend (name, .map raw) =>
    (∃ validated, parseBackend lib name raw = .ok validated) ∧ lib.asStr (.key name) = none
  | .featureFlag (name, .bool _) => lib.asStr (.key name) = none
  | _ => False

/-- What makes the import raise comes before anything is changed, and is not written. -/
def Untouched (target : ArgusConfig O B R) (s : State O B R) (item : Item O) : Prop :=
  Raises lib strategy s item → s.target = target ∧ (dryRun = true ∨ ¬ Enters lib item)

/-- The names in a configuration are strings. -/
def Named (target : ArgusConfig O B R) : Prop :=
  (∀ k ∈ target.backends.keys, ∃ s, k = .str s) ∧ ∀ k ∈ target.featureFlags.keys, ∃ s, k = .str s

/-! ## What raises -/

variable {lib strategy dryRun}

theorem record_eq_error_iff_of_not_exhausted {name : Yaml O} {existingNames : List (Key O)}
    {entityType : String} {status : ImportItemStatus} {newName error : Option String}
    (h : ¬ Exhausted lib strategy name existingNames) :
    (∃ e, record lib name entityType status newName error = .error e) ↔
      lib.asStr name = none ∨ Exhausted lib strategy name existingNames :=
  record_eq_error_iff.trans (or_iff_left h).symm

theorem importBackend_eq_error_iff {l : Locals O B R} {registryNames : List (Key O)}
    {entry : Key O × Yaml O} :
    (∃ e, (importBackend lib strategy dryRun l entry).2 = .error e) ↔
      Raises lib strategy ⟨l.target, l.existingNames, registryNames⟩ (.backend entry) := by
  obtain ⟨name, v⟩ := entry
  rw [importBackend]
  cases v with
  | key k | bool b | list l => exact record_eq_error_iff
  | map raw =>
    rw [Raises]
    dsimp only
    cases parseBackend lib name raw with
    | raises e => exact iff_of_true ⟨e, rfl⟩ trivial
    | invalid message => exact record_eq_error_iff
    | ok validated =>
      dsimp only
      by_cases hname : name ∈ l.existingNames
      · rw [if_pos hname]
        cases strategy with
        | fail | skip | update => exact record_eq_error_iff_of_not_exhausted (by simp [Exhausted])
        | rename =>
          dsimp only
          cases hnew : generateRename lib (.key name) l.existingNames with
          | none => exact iff_of_true ⟨_, rfl⟩ (Or.inr ⟨rfl, ⟨name, rfl, hname⟩, hnew⟩)
          | some newName => exact record_eq_error_iff_of_not_exhausted (by simp [Exhausted, hnew])
      · rw [if_neg hname]
        exact record_eq_error_iff_of_not_exhausted (by simp [Exhausted, hname])

theorem importRegistry_eq_error_iff {l : Locals O B R} {backendNames : List (Key O)}
    {entry : Yaml O × ℕ} :
    (∃ e, (importRegistry lib strategy dryRun l entry).2 = .error e) ↔
      Raises lib strategy ⟨l.target, backendNames, l.existingNames⟩ (.registry entry) := by
  obtain ⟨v, idx⟩ := entry
  rw [importRegistry]
  have hnamed : ∀ {name : Yaml O} {n : String} {status : ImportItemStatus}
      {newName error : Option String}, lib.asStr name = some n →
      ¬ Exhausted lib strategy name l.existingNames →
      ((∃ e, record lib name "registry" status newName error = .error e) ↔
        Exhausted lib strategy name l.existingNames) := by
    intro name n status newName error hstr hnot
    exact iff_of_false (fun h ↦ by simp [record_eq_error_iff.mp h] at hstr) hnot
  cases v with
  | key k | bool b | list l => exact iff_of_false (fun h ↦ by simp [record, Lib.asStr] at h) id
  | map raw =>
    rw [Raises]
    dsimp only
    cases hparse : registryEntryConfig lib raw with
    | raises e => exact iff_of_true ⟨e, rfl⟩ trivial
    | invalid message => exact record_eq_error_iff
    | ok validated =>
      have hstr := asStr_regName hparse idx
      revert hstr
      dsimp only
      cases regName idx raw with
      | bool b | list l | map d => exact fun hstr ↦ absurd hstr (by simp [Lib.asStr])
      | key k =>
        intro hstr
        dsimp only
        by_cases hk : k ∈ l.existingNames
        · rw [if_pos hk]
          cases strategy with
          | fail | skip | update => exact hnamed hstr (by simp [Exhausted])
          | rename =>
            dsimp only
            cases hnew : generateRename lib (.key k) l.existingNames with
            | none => exact iff_of_true ⟨_, rfl⟩ ⟨rfl, ⟨k, rfl, hk⟩, hnew⟩
            | some newName => exact hnamed hstr (by simp [Exhausted, hnew])
        · rw [if_neg hk]
          exact hnamed hstr (by simp [Exhausted, hk])

theorem importFeatureFlag_eq_error_iff {target : ArgusConfig O B R} {entry : Key O × Yaml O} :
    (∃ e, (importFeatureFlag lib strategy dryRun target entry).2 = .error e) ↔
      lib.asStr (.key entry.1) = none := by
  obtain ⟨name, v⟩ := entry
  rw [importFeatureFlag]
  cases v with
  | key k | list l | map d => exact record_eq_error_iff
  | bool value =>
    dsimp only
    split
    · exact record_eq_error_iff
    · split
      · exact record_eq_error_iff
      · exact record_eq_error_iff

variable (dryRun) in
theorem importItem_eq_error_iff {s : State O B R} {item : Item O} :
    (∃ e, (importItem lib strategy dryRun s item).2 = .error e) ↔ Raises lib strategy s item := by
  cases item with
  | backend entry => exact importBackend_eq_error_iff
  | registry entry => exact importRegistry_eq_error_iff
  | featureFlag entry => exact importFeatureFlag_eq_error_iff

/-! ## What is written by an item that raises -/

variable (lib) in
/-- Records can be made of the names that are taken. -/
def Recordable (s : State O B R) : Prop :=
  (∀ k ∈ s.backendNames, lib.asStr (.key k) ≠ none) ∧
    ∀ k ∈ s.target.featureFlags.keys, lib.asStr (.key k) ≠ none

omit [DecidableEq O] in
theorem recordable_init {target : ArgusConfig O B R} (h : Named target) :
    Recordable lib (.init target) := by
  constructor
  · intro k hk
    obtain ⟨s, rfl⟩ := h.1 k hk
    simp [Lib.asStr]
  · intro k hk
    obtain ⟨s, rfl⟩ := h.2 k hk
    simp [Lib.asStr]

@[simp] theorem featureFlags_putBackend (target : ArgusConfig O B R) (name : Key O) (b : B) :
    (target.putBackend dryRun name b).featureFlags = target.featureFlags := by
  rw [ArgusConfig.putBackend]
  split
  · rfl
  · rfl

omit [DecidableEq O] in
@[simp] theorem featureFlags_appendRegistry (target : ArgusConfig O B R)
    (reg : RegistryEntryConfig R) :
    (target.appendRegistry dryRun reg).featureFlags = target.featureFlags := by
  rw [ArgusConfig.appendRegistry]
  split
  · rfl
  · rfl

@[simp] theorem featureFlags_updateRegistry (target : ArgusConfig O B R) (name : Key O)
    (reg : RegistryEntryConfig R) :
    (target.updateRegistry dryRun name reg).featureFlags = target.featureFlags := by
  rw [ArgusConfig.updateRegistry]
  split
  · rfl
  · rfl

theorem recordable_of_ok {s m : State O B R} {item : Item O} {r : ImportItemResult}
    (hs : Recordable lib s) (h : importItem lib strategy dryRun s item = (m, .ok r)) :
    Recordable lib m := by
  obtain ⟨hbackends, hflags⟩ := hs
  have himported := imported_importItem lib strategy dryRun s item
  generalize importItem lib strategy dryRun s item = out at h himported
  have hrecord := congrArg Prod.snd h
  obtain rfl := congrArg Prod.fst h
  cases himported with
  | kept _ => exact ⟨hbackends, hflags⟩
  | addedBackend _ _ =>
    obtain ⟨n, hn, -⟩ := record_eq_ok_iff.mp hrecord
    exact ⟨List.forall_mem_cons.mpr ⟨by simp [hn], hbackends⟩, by simpa using hflags⟩
  | updatedBackend _ _ _ => exact ⟨hbackends, by simpa using hflags⟩
  | renamedBackend _ _ _ =>
    exact ⟨List.forall_mem_cons.mpr ⟨by simp [Lib.asStr], hbackends⟩, by simpa using hflags⟩
  | addedRegistry _ _ _ | updatedRegistry _ _ _ _ | renamedRegistry _ _ _ _ =>
    exact ⟨hbackends, by simpa using hflags⟩
  | setFlag _ =>
    obtain ⟨n, hn, -⟩ := record_eq_ok_iff.mp hrecord
    refine ⟨hbackends, fun k hk ↦ ?_⟩
    dsimp only at hk
    split at hk
    · exact hflags k hk
    · rcases Dict.mem_keys_set.mp hk with rfl | hk
      · simp [hn]
      · exact hflags k hk

theorem target_of_raises {s : State O B R} {item : Item O} (h : Raises lib strategy s item)
    (hsafe : dryRun = true ∨ ¬ Enters lib item) :
    (importItem lib strategy dryRun s item).1.target = s.target := by
  obtain ⟨e, he⟩ := (importItem_eq_error_iff dryRun).mpr h
  have hput : ∀ {name raw validated} (k : Key O), item = .backend (name, .map raw) →
      parseBackend lib name raw = .ok validated → lib.asStr (.key name) = none →
        (s.target.putBackend dryRun k validated) = s.target := by
    rintro name raw validated k rfl hparse hname
    obtain rfl := hsafe.resolve_right (not_not_intro ⟨⟨validated, hparse⟩, hname⟩)
    rfl
  -- the name of a registry is a string if its entry is valid
  have hrecord : ∀ {raw idx validated k status newName},
      registryEntryConfig lib raw = .ok validated → regName idx raw = .key k →
        record lib (.key k) "registry" status newName none ≠ .error e := by
    intro raw idx validated k status newName hparse hname herror
    have hstr := asStr_regName hparse idx
    rw [hname, record_eq_error_iff.mp ⟨e, herror⟩] at hstr
    exact absurd hstr (by simp)
  have himported := imported_importItem lib strategy dryRun s item
  generalize importItem lib strategy dryRun s item = out at he himported
  cases himported with
  | kept _ => rfl
  | addedBackend hparse _ => exact hput _ rfl hparse (record_eq_error_iff.mp ⟨e, he⟩)
  | updatedBackend hparse _ _ => exact hput _ rfl hparse (record_eq_error_iff.mp ⟨e, he⟩)
  | renamedBackend hparse _ _ => exact hput _ rfl hparse (record_eq_error_iff.mp ⟨e, he⟩)
  | addedRegistry hparse hname _ => exact absurd he (hrecord hparse hname)
  | updatedRegistry hparse hname _ _ => exact absurd he (hrecord hparse hname)
  | renamedRegistry hparse hname _ _ => exact absurd he (hrecord hparse hname)
  | setFlag _ =>
    obtain rfl := hsafe.resolve_right (not_not_intro (record_eq_error_iff.mp ⟨e, he⟩))
    rfl

theorem target_ne_of_enters {target : ArgusConfig O B R} (htarget : Named target)
    {s : State O B R} (hs : Recordable lib s) {item : Item O} (h : Enters lib item) :
    (importItem lib strategy false s item).1.target ≠ target := by
  have hnotStr : ∀ {k : Key O}, lib.asStr (.key k) = none → ¬ ∃ n, k = .str n := by
    rintro k hk ⟨n, rfl⟩
    exact absurd hk (by simp [Lib.asStr])
  cases item with
  | registry entry => exact h.elim
  | backend entry =>
    obtain ⟨name, v⟩ := entry
    cases v with
    | key k | bool b | list l => exact h.elim
    | map raw =>
      obtain ⟨⟨validated, hparse⟩, hname⟩ := h
      have hnew : name ∉ s.backendNames := fun hmem ↦ hs.1 name hmem hname
      rw [importItem, importBackend_of_new hparse hnew]
      rintro rfl
      exact hnotStr hname (htarget.1 name (Dict.mem_keys_set.mpr (Or.inl rfl)))
  | featureFlag entry =>
    obtain ⟨name, v⟩ := entry
    cases v with
    | key k | list l | map d => exact h.elim
    | bool value =>
      have hnew : name ∉ s.target.featureFlags.keys := fun hmem ↦ hs.2 name hmem h
      rw [importItem, importFeatureFlag_of_new hnew]
      rintro rfl
      exact hnotStr h (htarget.2 name (Dict.mem_keys_set.mpr (Or.inl rfl)))

/-- One item that leaves the configuration alone when it raises. -/
theorem untouched_iff {target : ArgusConfig O B R} (htarget : Named target) {s : State O B R}
    (hs : Recordable lib s) {item : Item O} :
    (∀ e, (importItem lib strategy dryRun s item).2 = .error e →
      (importItem lib strategy dryRun s item).1.target = target) ↔
      Untouched lib strategy dryRun target s item := by
  constructor
  · intro h hraises
    obtain ⟨e, he⟩ := (importItem_eq_error_iff dryRun).mpr hraises
    have hleft := h e he
    have hsafe : dryRun = true ∨ ¬ Enters lib item := by
      by_contra hnot
      rw [not_or, not_not, Bool.not_eq_true] at hnot
      obtain ⟨rfl, henters⟩ := hnot
      exact target_ne_of_enters htarget hs henters hleft
    rw [target_of_raises hraises hsafe] at hleft
    exact ⟨hleft, hsafe⟩
  · intro h e he
    have hraises := (importItem_eq_error_iff dryRun).mp ⟨e, he⟩
    obtain ⟨hleft, hsafe⟩ := h hraises
    rw [target_of_raises hraises hsafe, hleft]

/-! ## Reports -/

theorem failed_of_offending {s : State O B R} {item : Item O} {r : ImportItemResult}
    (h : (importItem lib strategy dryRun s item).2 = .ok r) (hitem : Offending lib item) :
    r.status = .failed := by
  have hfailed : ∀ {name entityType error},
      record lib name entityType .failed none error = .ok r → r.status = .failed := by
    intro name entityType error hr
    obtain ⟨n, -, rfl⟩ := record_eq_ok_iff.mp hr
    rfl
  cases item with
  | backend entry =>
    obtain ⟨name, v⟩ := entry
    rw [importItem, importBackend] at h
    cases v with
    | key k | bool b | list l => exact hfailed h
    | map raw =>
      obtain ⟨message, hparse⟩ := hitem
      dsimp only at h
      rw [hparse] at h
      exact hfailed h
  | registry entry =>
    obtain ⟨v, idx⟩ := entry
    rw [importItem, importRegistry] at h
    cases v with
    | key k | bool b | list l =>
      dsimp only at h
      exact hfailed h
    | map raw =>
      obtain ⟨message, hparse⟩ := hitem
      dsimp only at h
      rw [hparse] at h
      exact hfailed h
  | featureFlag entry =>
    obtain ⟨name, v⟩ := entry
    rw [importItem, importFeatureFlag] at h
    cases v with
    | key k => exact hfailed h
    | bool b => exact hitem.elim
    | list l => exact hfailed h
    | map d => exact hfailed h

/-- **An import is atomic exactly if** what makes it raise, if anything, comes before the first
change and is not itself a valid item whose name is no string. -/
theorem atomic_iff (lib : Lib O B R) (strategy : ConflictStrategy) (dryRun : Bool)
    (target : ArgusConfig O B R) (htarget : Named target) (payload : List (Key O × Yaml O))
    (entityTypes : Option (List String)) (maxBackends maxRegistries : ℤ) :
    Atomic lib strategy dryRun target payload entityTypes maxBackends maxRegistries ↔
      validateImportLimits payload maxBackends maxRegistries ≠ [] ∨
        Loop.Guarded (importItem lib strategy dryRun) (Untouched lib strategy dryRun target)
          (.init target) (itemsOf payload entityTypes) := by
  by_cases hlimits : validateImportLimits payload maxBackends maxRegistries = []
  · rw [or_iff_right (not_not_intro hlimits)]
    have hstep : ∀ (s : State O B R) item m r, Recordable lib s →
        importItem lib strategy dryRun s item = (m, .ok r) → Recordable lib m :=
      fun s item m r hs h ↦ recordable_of_ok hs h
    have hitem : ∀ (s : State O B R) item, Recordable lib s →
        ((∀ e, (importItem lib strategy dryRun s item).2 = .error e →
          (importItem lib strategy dryRun s item).1.target = target) ↔
          Untouched lib strategy dryRun target s item) :=
      fun s item hs ↦ untouched_iff htarget hs
    have hguarded := @Loop.forall_error_iff_guarded _ _ _ _ (importItem lib strategy dryRun)
      (fun s ↦ s.target = target) (.init target) (itemsOf payload entityTypes)
    rw [← Loop.guarded_congr hstep hitem (recordable_init htarget), ← hguarded]
    have heq := importConfig_eq lib strategy dryRun target payload entityTypes maxBackends
      maxRegistries hlimits
    dsimp only at heq
    constructor
    · rintro ⟨-, hunchanged⟩ e he
      rw [heq, he] at hunchanged
      exact hunchanged _ e rfl
    · intro h
      refine ⟨fun left result hresult ↦ Or.inr ?_, fun left e he ↦ ?_⟩
      · rw [heq] at hresult
        obtain ⟨items, hitems, rfl⟩ := map_eq_ok_iff.mp (congrArg Prod.snd hresult)
        refine (Loop.forall₂_of_loop hitems).imp fun item r hr hitem ↦ ?_
        obtain ⟨s, hs⟩ := hr
        exact failed_of_offending hs hitem
      · rw [heq] at he
        obtain ⟨rfl, he⟩ := Prod.mk.inj he
        cases hloop : (Loop.loop (importItem lib strategy dryRun) (.init target)
          (itemsOf payload entityTypes)).2 with
        | ok items =>
          rw [hloop] at he
          exact absurd he (by simp [Except.map])
        | error e' => exact h e' hloop
  · refine iff_of_true ?_ (Or.inl hlimits)
    have heq := importConfig_of_limits lib strategy dryRun target payload entityTypes maxBackends
      maxRegistries hlimits
    refine ⟨fun left result hresult ↦ Or.inl ?_, fun left e he ↦ ?_⟩
    · rw [heq] at hresult
      obtain ⟨hleft, hresult⟩ := Prod.mk.inj hresult
      obtain rfl := Except.ok.inj hresult
      exact ⟨hlimits, hleft.symm⟩
    · rw [heq] at he
      exact absurd (congrArg Prod.snd he) (by simp)

/-- Scalars that are integers. -/
def intLib : Lib ℤ Unit Unit where
  decode _ := none
  text
    | .key (.other n) => toString n
    | .bool b => if b then "True" else "False"
    | _ => ""
  backendClass _ _ := .ok ()
  registryFields _ := .ok ()

/-- The feature flags `hot_reload: true` and `1: true`. -/
def numberedFlags : List (Key ℤ × Yaml ℤ) :=
  [(.str "feature_flags", .map [(.str "hot_reload", .bool true), (.other 1, .bool true)])]

omit [DecidableEq O] in
theorem named_empty : Named (⟨.empty, [], .empty⟩ : ArgusConfig O B R) :=
  ⟨fun _ hk ↦ absurd hk List.not_mem_nil, fun _ hk ↦ absurd hk List.not_mem_nil⟩

/-- Classes that keep the fields they are given. -/
def fieldsLib : Lib ℤ (List (String × Yaml ℤ)) (List (String × Yaml ℤ)) where
  decode := intLib.decode
  text := intLib.text
  backendClass _ fields := .ok fields
  registryFields fields := .ok (fields.filter fun e ↦ e.1 ≠ "name")

/-- A backend, a registry and a feature flag. -/
def furnished : ArgusConfig ℤ (List (String × Yaml ℤ)) (List (String × Yaml ℤ)) where
  backends := .ofList [(.str "files",
    [("type", .key (.str "stdio")), ("command", .key (.str "npx"))])]
  registries := [⟨"hub", [("url", .key (.str "https://hub"))]⟩]
  featureFlags := .ofList [(.str "hot_reload", false)]

def filesFields : List (Key ℤ × Yaml ℤ) :=
  [(.str "type", .key (.str "stdio")), (.str "command", .key (.str "uvx"))]

def webFields : List (Key ℤ × Yaml ℤ) :=
  [(.str "type", .key (.str "sse")), (.str "url", .key (.str "https://web"))]

def hubFields : List (Key ℤ × Yaml ℤ) :=
  [(.str "name", .key (.str "hub")), (.str "url", .key (.str "https://other"))]

/-- What an import brings of each kind, in part under names that are there. -/
def delivery : List (Key ℤ × Yaml ℤ) :=
  [(.str "backends", .map [(.str "files", .map filesFields), (.str "web", .map webFields)]),
    (.str "registries", .list [.map hubFields]),
    (.str "feature_flags", .map [(.str "hot_reload", .bool false)])]

theorem itemsOf_delivery : itemsOf delivery none =
    [.backend (.str "files", .map filesFields), .backend (.str "web", .map webFields),
      .registry (.map hubFields, 0), .featureFlag (.str "hot_reload", .bool false)] := rfl

theorem named_furnished : Named furnished := by
  constructor
  · intro k hk
    rw [List.mem_singleton.mp hk]
    exact ⟨_, rfl⟩
  · intro k hk
    rw [List.mem_singleton.mp hk]
    exact ⟨_, rfl⟩

theorem atomic_iff_delivery : Atomic fieldsLib .skip false furnished delivery none 200 50 := by
  refine (atomic_iff fieldsLib .skip false furnished named_furnished delivery none 200 50).mpr
    (Or.inr ?_)
  have hexhausted : ∀ name names, ¬ Exhausted fieldsLib .skip name names :=
    fun _ _ h ↦ absurd h.1 (by decide)
  have hraises : ∀ item ∈ itemsOf delivery none, ∀ s, ¬ Raises fieldsLib .skip s item := by
    rw [itemsOf_delivery]
    simp only [List.forall_mem_cons]
    refine ⟨fun s h ↦ ?_, fun s h ↦ ?_, fun s ↦ hexhausted _ _, fun s h ↦ ?_,
      fun _ h ↦ absurd h List.not_mem_nil⟩
    · exact h.elim (Option.some_ne_none _) (hexhausted _ _)
    · exact h.elim (Option.some_ne_none _) (hexhausted _ _)
    · exact Option.some_ne_none _ h
  exact (Loop.guarded_of_forall hraises _).imp fun s item h hraises ↦ absurd hraises (h s)

/-- The first flag is stored, and the second one too, before the import raises. -/
theorem not_forall_atomic : ¬ ∀ (strategy : ConflictStrategy) (dryRun : Bool)
    (target : ArgusConfig ℤ Unit Unit), Named target →
    ∀ (payload : List (Key ℤ × Yaml ℤ)) (entityTypes : Option (List String))
      (maxBackends maxRegistries : ℤ),
      Atomic intLib strategy dryRun target payload entityTypes maxBackends maxRegistries := by
  intro h
  have hatomic := h .skip false ⟨.empty, [], .empty⟩ named_empty numberedFlags none 200 50
  have hflags := congrArg (fun c ↦ c.featureFlags.keys) (hatomic.unchanged _ _ rfl)
  exact absurd hflags (by decide)

end Import

end ArgusMcp
