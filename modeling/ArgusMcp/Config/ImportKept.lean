import ArgusMcp.Config.ImportAtomic
import Mathlib.Data.List.Forall2

/-!
# What an import keeps

A dry run should leave the configuration alone and report what the real run reports. The real run
should keep what is there unless the strategy is to update it, it should leave distinct names, and
what it does not report as skipped or failed should be in the configuration, under the name it is
reported with.

The dry run is right. The real run is wrong about three things. A feature flag cannot be renamed, so
under the strategy `rename` it is overwritten. Of two registries of one payload with the same name
the second replaces the first under the strategy `update`, although both are reported. And a name
that is given as bytes is reported as a text, while the bytes are what the item is stored under or
looked up by.

For payloads whose names are strings the first two are the only exceptions (`preserves_iff`).
-/

namespace ArgusMcp

namespace Import

def ImportItemResult.finalName (r : ImportItemResult) : String := r.newName.getD r.name

variable {O B R : Type} [DecidableEq O] (lib : Lib O B R) (strategy : ConflictStrategy)

/-! ## What is expected -/

/-- What is there stays there. -/
structure Kept (target left : ArgusConfig O B R) : Prop where
  backends : ∀ k b, target.backends.get? k = some b → left.backends.get? k = some b
  registries : ∀ r ∈ target.registries, r ∈ left.registries
  featureFlags : ∀ k v, target.featureFlags.get? k = some v → left.featureFlags.get? k = some v

/-- The item is valid, and it is there under the name it is reported with. -/
def Present (left : ArgusConfig O B R) : Item O → ImportItemResult → Prop
  | .backend (name, .map raw), r => ∃ validated, parseBackend lib name raw = .ok validated ∧
      left.backends.get? (.str r.finalName) = some validated
  | .registry (.map raw, _), r => ∃ validated, registryEntryConfig lib raw = .ok validated ∧
      { validated with name := r.finalName } ∈ left.registries
  | .featureFlag (_, .bool value), r => left.featureFlags.get? (.str r.finalName) = some value
  | _, _ => False

/-- An import preserves what exists. -/
structure Preserves (target : ArgusConfig O B R) (payload : List (Key O × Yaml O))
    (entityTypes : Option (List String)) (maxBackends maxRegistries : ℤ) : Prop where
  dryRun : (importConfig lib strategy true target payload entityTypes maxBackends
    maxRegistries).1 = target
  sameItems :
    (importConfig lib strategy true target payload entityTypes maxBackends maxRegistries).2.map
        ImportResult.items =
      (importConfig lib strategy false target payload entityTypes maxBackends maxRegistries).2.map
        ImportResult.items
  kept : strategy ≠ .update → Kept target
    (importConfig lib strategy false target payload entityTypes maxBackends maxRegistries).1
  distinct :
    ((importConfig lib strategy false target payload entityTypes maxBackends
      maxRegistries).1.registries.map RegistryEntryConfig.name).Nodup
  present : ∀ left result,
    importConfig lib strategy false target payload entityTypes maxBackends maxRegistries =
      (left, .ok result) →
    result.errors ≠ [] ∨
      List.Forall₂ (fun item r ↦ r.status ≠ .skipped → r.status ≠ .failed →
        Present lib left item r) (itemsOf payload entityTypes) result.items

/-! ## The condition -/

/-- No key of a mapping occurs twice. -/
def Distinct (payload : List (Key O × Yaml O)) : Prop :=
  ∀ name d, payload.lookup (.str name) = some (.map d) → (d.map Prod.fst).Nodup

/-- The name of an item that is valid and can be reported is a string. -/
def StrNamed : Item O → Prop
  | .backend (name, .map raw) => ∀ validated, parseBackend lib name raw = .ok validated →
      lib.asStr (.key name) ≠ none → ∃ n, name = .str n
  | .backend _ => True
  | .registry (.map raw, idx) => ∀ validated, registryEntryConfig lib raw = .ok validated →
      ∃ n, regName idx raw = .key (.str n)
  | .registry _ => True
  | .featureFlag (name, .bool _) => lib.asStr (.key name) ≠ none → ∃ n, name = .str n
  | .featureFlag _ => True

/-- A feature flag that exists is given the value it has. -/
def SameFlag (target : ArgusConfig O B R) : Item O → Prop
  | .featureFlag (name, .bool value) => ∀ v, target.featureFlags.get? name = some v → v = value
  | _ => True

/-- Valid registries with the same name are the same. -/
def Agree (items : List (Item O)) : Prop :=
  ∀ raw idx raw' idx' validated validated', .registry (.map raw, idx) ∈ items →
    .registry (.map raw', idx') ∈ items → registryEntryConfig lib raw = .ok validated →
    registryEntryConfig lib raw' = .ok validated' → validated.name = validated'.name →
    validated = validated'

/-- Under the strategy `rename`, the feature flags that the import comes to are new or have the value
they are given. Under the strategy `update`, the registries of the payload with the same name are the
same, unless the import raises. -/
structure HoldsWhen (target : ArgusConfig O B R) (items : List (Item O)) : Prop where
  sameFlags : strategy = .rename → Loop.Guarded (importItem lib strategy false)
    (fun _ ↦ SameFlag target) (.init target) items
  agree : strategy = .update → Loop.Guarded (importItem lib strategy false)
    (fun s item ↦ ¬ Raises lib strategy s item) (.init target) items → Agree lib items

variable {lib strategy}

/-! ## The dry run -/

theorem importItem_dryRun (s : State O B R) (item : Item O) :
    (importItem lib strategy true s item).1.target = s.target := by
  have himported := imported_importItem lib strategy true s item
  generalize importItem lib strategy true s item = out at himported
  cases himported with
  | kept _ => rfl
  | addedBackend _ _ => rfl
  | updatedBackend _ _ _ => rfl
  | renamedBackend _ _ _ => rfl
  | addedRegistry _ _ _ => rfl
  | updatedRegistry _ _ _ _ => rfl
  | renamedRegistry _ _ _ _ => rfl
  | setFlag _ => rfl

/-! ## What one item does to the others -/

/-- The names that are taken are those in the configuration. -/
structure Consistent (s : State O B R) : Prop where
  backends : ∀ k ∈ s.target.backends.keys, k ∈ s.backendNames
  registries : ∀ k, k ∈ s.registryNames ↔ k ∈ s.target.registries.map fun r ↦ .str r.name
  nodup : (s.target.registries.map RegistryEntryConfig.name).Nodup

omit [DecidableEq O] in
theorem consistent_init {target : ArgusConfig O B R}
    (h : (target.registries.map RegistryEntryConfig.name).Nodup) : Consistent (.init target) :=
  ⟨fun _ hk ↦ hk, fun _ ↦ Iff.rfl, h⟩

theorem get?_backends_importItem {s : State O B R} (hs : Consistent s) {item : Item O} {k : Key O}
    {b : B} (hk : s.target.backends.get? k = some b)
    (hother : strategy = .update → ∀ v, item ≠ .backend (k, v)) :
    (importItem lib strategy false s item).1.target.backends.get? k = some b := by
  have hmem : k ∈ s.backendNames := hs.backends k (Dict.mem_keys_iff.mpr ⟨b, hk⟩)
  have himported := imported_importItem lib strategy false s item
  generalize importItem lib strategy false s item = out at himported
  cases himported with
  | kept _ => exact hk
  | addedBackend _ hname =>
    refine (Dict.get?_set_of_ne _ _ ?_).trans hk
    rintro rfl
    exact hname hmem
  | updatedBackend _ _ hstrategy =>
    refine (Dict.get?_set_of_ne _ _ ?_).trans hk
    rintro rfl
    exact hother hstrategy _ rfl
  | renamedBackend _ _ hnew =>
    refine (Dict.get?_set_of_ne _ _ ?_).trans hk
    rintro rfl
    exact hnew hmem
  | addedRegistry _ _ _ | updatedRegistry _ _ _ _ | renamedRegistry _ _ _ _ | setFlag _ => exact hk

theorem mem_registries_importItem {s : State O B R} {item : Item O} {r : RegistryEntryConfig R}
    (hr : r ∈ s.target.registries)
    (hother : strategy = .update → ∀ raw idx validated, item = .registry (.map raw, idx) →
      registryEntryConfig lib raw = .ok validated → validated.name = r.name → validated = r) :
    r ∈ (importItem lib strategy false s item).1.target.registries := by
  have himported := imported_importItem lib strategy false s item
  generalize importItem lib strategy false s item = out at himported
  cases himported with
  | kept _ | addedBackend _ _ | updatedBackend _ _ _ | renamedBackend _ _ _ => exact hr
  | addedRegistry _ _ _ => exact List.mem_append_left _ hr
  | @updatedRegistry _ idx _ _ hparse hname _ hstrategy =>
    refine List.mem_map.mpr ⟨r, hr, ?_⟩
    split
    · rename_i hk
      have hstr := asStr_regName hparse idx
      rw [hname, ← hk] at hstr
      exact hother hstrategy _ _ _ rfl hparse (Option.some.inj hstr).symm
    · rfl
  | renamedRegistry _ _ _ _ => exact List.mem_append_left _ hr
  | setFlag _ => exact hr

theorem get?_featureFlags_of_ne {dryRun : Bool} {s : State O B R} {item : Item O} {k : Key O}
    (hother : ∀ v, item ≠ .featureFlag (k, v)) :
    (importItem lib strategy dryRun s item).1.target.featureFlags.get? k =
      s.target.featureFlags.get? k := by
  have himported := imported_importItem lib strategy dryRun s item
  generalize importItem lib strategy dryRun s item = out at himported
  cases himported with
  | kept _ => rfl
  | addedBackend _ _ | updatedBackend _ _ _ | renamedBackend _ _ _ => rw [featureFlags_putBackend]
  | addedRegistry _ _ _ => rw [featureFlags_appendRegistry]
  | updatedRegistry _ _ _ _ => rw [featureFlags_updateRegistry]
  | renamedRegistry _ _ _ _ => rw [featureFlags_appendRegistry]
  | setFlag _ =>
    dsimp only
    split
    · rfl
    · refine Dict.get?_set_of_ne _ _ ?_
      rintro rfl
      exact hother _ rfl

theorem get?_featureFlags_importItem {s : State O B R} {item : Item O} {k : Key O} {b : Bool}
    (hk : s.target.featureFlags.get? k = some b)
    (hother : strategy = .update ∨ strategy = .rename →
      ∀ value, item = .featureFlag (k, .bool value) → value = b) :
    (importItem lib strategy false s item).1.target.featureFlags.get? k = some b := by
  by_cases hitem : ∃ v, item = .featureFlag (k, v)
  · obtain ⟨v, rfl⟩ := hitem
    have himported := imported_importItem lib strategy false s (.featureFlag (k, v))
    generalize importItem lib strategy false s (.featureFlag (k, v)) = out at himported
    cases himported with
    | kept _ => exact hk
    | setFlag hstrategy =>
      rw [hother (hstrategy (Dict.mem_keys_iff.mpr ⟨b, hk⟩)) _ rfl]
      exact Dict.get?_set_self _ _ _
  · rw [get?_featureFlags_of_ne fun v hv ↦ hitem ⟨v, hv⟩]
    exact hk

/-! ## Names stay distinct -/

theorem Consistent.put {s : State O B R} (hs : Consistent s) {names : List (Key O)} {name : Key O}
    (hnames : ∀ k ∈ s.backendNames, k ∈ names) (hname : name ∈ names) (b : B) :
    Consistent ⟨s.target.putBackend false name b, names, s.registryNames⟩ := by
  refine ⟨fun k hk ↦ ?_, hs.registries, hs.nodup⟩
  rcases Dict.mem_keys_set.mp hk with rfl | hk
  · exact hname
  · exact hnames k (hs.backends k hk)

omit [DecidableEq O] in
theorem Consistent.append {s : State O B R} (hs : Consistent s) {reg : RegistryEntryConfig R}
    (hreg : .str reg.name ∉ s.registryNames) :
    Consistent ⟨s.target.appendRegistry false reg, s.backendNames,
      .str reg.name :: s.registryNames⟩ := by
  refine ⟨hs.backends, fun k ↦ ?_, ?_⟩
  · rw [List.mem_cons, hs.registries, ArgusConfig.appendRegistry, if_neg Bool.false_ne_true,
      List.map_append, List.mem_append, List.map_singleton, List.mem_singleton, or_comm]
  · rw [ArgusConfig.appendRegistry, if_neg Bool.false_ne_true, List.map_append, List.nodup_append]
    refine ⟨hs.nodup, List.nodup_singleton _, ?_⟩
    rintro a ha b hb rfl
    rw [List.map_singleton, List.mem_singleton] at hb
    subst hb
    obtain ⟨r, hr, hname⟩ := List.mem_map.mp ha
    exact hreg ((hs.registries _).mpr (List.mem_map.mpr ⟨r, hr, congrArg Key.str hname⟩))

theorem Consistent.update {s : State O B R} (hs : Consistent s) (reg : RegistryEntryConfig R) :
    Consistent ⟨s.target.updateRegistry false (.str reg.name) reg, s.backendNames,
      s.registryNames⟩ := by
  have hmap : ∀ {A : Type} (f : String → A),
      (s.target.updateRegistry false (.str reg.name) reg).registries.map (fun r ↦ f r.name) =
        s.target.registries.map fun r ↦ f r.name := by
    intro A f
    rw [ArgusConfig.updateRegistry, if_neg Bool.false_ne_true, List.map_map]
    refine List.map_congr_left fun r _ ↦ ?_
    by_cases h : r.name = reg.name
    · simp [h]
    · simp [h]
  refine ⟨hs.backends, fun k ↦ ?_, ?_⟩
  · rw [hmap]
    exact hs.registries k
  · exact (hmap id).symm ▸ hs.nodup

theorem eq_name_of_strNamed {raw : List (Key O × Yaml O)} {idx : ℕ}
    {validated : RegistryEntryConfig R} {k : Key O}
    (hitem : StrNamed lib (.registry (.map raw, idx)))
    (hparse : registryEntryConfig lib raw = .ok validated) (hname : regName idx raw = .key k) :
    k = .str validated.name := by
  obtain ⟨n, hn⟩ := hitem validated hparse
  have hstr := asStr_regName hparse idx
  rw [hn] at hname hstr
  rw [← Yaml.key.inj hname, ← Option.some.inj hstr]

theorem consistent_importItem {s : State O B R} (hs : Consistent s) {item : Item O}
    (hitem : StrNamed lib item) : Consistent (importItem lib strategy false s item).1 := by
  have himported := imported_importItem lib strategy false s item
  generalize importItem lib strategy false s item = out at himported
  cases himported with
  | kept _ => exact hs
  | addedBackend _ _ =>
    exact hs.put (fun k hk ↦ List.mem_cons_of_mem _ hk) List.mem_cons_self _
  | updatedBackend _ hname _ => exact hs.put (fun k hk ↦ hk) hname _
  | renamedBackend _ _ _ =>
    exact hs.put (fun k hk ↦ List.mem_cons_of_mem _ hk) List.mem_cons_self _
  | addedRegistry hparse hname hk =>
    obtain rfl := eq_name_of_strNamed hitem hparse hname
    exact hs.append hk
  | updatedRegistry hparse hname _ _ =>
    obtain rfl := eq_name_of_strNamed hitem hparse hname
    exact hs.update _
  | @renamedRegistry _ _ validated _ newName hparse _ _ hnew =>
    exact @Consistent.append _ _ _ s hs { validated with name := newName } hnew
  | setFlag _ => exact ⟨hs.backends, hs.registries, hs.nodup⟩

/-! ## What is reported is there -/

variable (lib strategy) in
/-- Unless it is renamed, an item has the name it came with. -/
def OwnName : Item O → ImportItemResult → Prop
  | .backend (name, _), r => strategy = .update → name = .str r.finalName
  | .registry (.map raw, _), r => strategy = .update →
      ∀ validated, registryEntryConfig lib raw = .ok validated → validated.name = r.finalName
  | .registry _, _ => True
  | .featureFlag (name, _), r => name = .str r.finalName

variable (lib strategy) in
/-- What is neither skipped nor failed is there. -/
def Achieved (s : State O B R) (item : Item O) (r : ImportItemResult) : Prop :=
  r.status ≠ .skipped → r.status ≠ .failed →
    Present lib s.target item r ∧ OwnName lib strategy item r

omit [DecidableEq O] in
theorem eq_finalName_of_record {name : Key O} {entityType : String} {status : ImportItemStatus}
    {error : Option String} {r : ImportItemResult}
    (hname : lib.asStr (.key name) ≠ none → ∃ n, name = .str n)
    (h : record lib (.key name) entityType status none error = .ok r) : name = .str r.finalName := by
  obtain ⟨n, hn, rfl⟩ := record_eq_ok_iff.mp h
  obtain ⟨n', rfl⟩ := hname (by simp [hn])
  obtain rfl := Option.some.inj hn
  rfl

omit [DecidableEq O] in
theorem finalName_of_record {name : Yaml O} {entityType newName : String}
    {status : ImportItemStatus} {error : Option String} {r : ImportItemResult}
    (h : record lib name entityType status (some newName) error = .ok r) :
    r.finalName = newName := by
  obtain ⟨n, -, rfl⟩ := record_eq_ok_iff.mp h
  rfl

theorem achieved_of_ok {s m : State O B R} (hs : Consistent s) {item : Item O}
    {r : ImportItemResult} (hitem : StrNamed lib item)
    (h : importItem lib strategy false s item = (m, .ok r)) : Achieved lib strategy m item r := by
  intro hskipped hfailed
  have hown : ∀ {raw idx validated k status}, registryEntryConfig lib raw = .ok validated →
      regName idx raw = .key k → StrNamed lib (.registry (.map raw, idx)) →
      record lib (.key k) "registry" status none none = .ok r → validated.name = r.finalName := by
    intro raw idx validated k status hparse hregName hstr hrecord
    obtain rfl := eq_name_of_strNamed hstr hparse hregName
    exact Key.str.inj (eq_finalName_of_record (fun _ ↦ ⟨_, rfl⟩) hrecord)
  have hname : ∀ {raw idx validated}, registryEntryConfig lib raw = .ok validated →
      validated.name = r.finalName → OwnName lib strategy (.registry (.map raw, idx)) r := by
    intro raw idx validated hparse hfinal _ validated' hparse'
    obtain rfl := Parsed.ok.inj (hparse.symm.trans hparse')
    exact hfinal
  have himported := imported_importItem lib strategy false s item
  generalize importItem lib strategy false s item = out at h himported
  have hrecord := congrArg Prod.snd h
  obtain rfl := congrArg Prod.fst h
  cases himported with
  | kept hr =>
    rcases hr r hrecord with hr | hr
    · exact absurd hr hfailed
    · exact absurd hr hskipped
  | addedBackend hparse _ =>
    obtain rfl := eq_finalName_of_record (hitem _ hparse) hrecord
    exact ⟨⟨_, hparse, Dict.get?_set_self _ _ _⟩, fun _ ↦ rfl⟩
  | updatedBackend hparse _ _ =>
    obtain rfl := eq_finalName_of_record (hitem _ hparse) hrecord
    exact ⟨⟨_, hparse, Dict.get?_set_self _ _ _⟩, fun _ ↦ rfl⟩
  | renamedBackend hparse hstrategy _ =>
    obtain rfl := finalName_of_record hrecord
    exact ⟨⟨_, hparse, Dict.get?_set_self _ _ _⟩, fun h ↦ absurd (hstrategy.symm.trans h) (by simp)⟩
  | addedRegistry hparse hregName _ =>
    have hfinal := hown hparse hregName hitem hrecord
    refine ⟨⟨_, hparse, ?_⟩, hname hparse hfinal⟩
    rw [← hfinal]
    exact List.mem_append_right _ List.mem_cons_self
  | updatedRegistry hparse hregName hk _ =>
    have hfinal := hown hparse hregName hitem hrecord
    refine ⟨⟨_, hparse, ?_⟩, hname hparse hfinal⟩
    rw [← hfinal]
    -- the name is taken by a registry, and it is this one that is replaced
    obtain ⟨old, hold, rfl⟩ := List.mem_map.mp ((hs.registries _).mp hk)
    exact List.mem_map.mpr ⟨old, hold, if_pos rfl⟩
  | renamedRegistry hparse _ hstrategy _ =>
    obtain rfl := finalName_of_record hrecord
    exact ⟨⟨_, hparse, List.mem_append_right _ List.mem_cons_self⟩,
      fun h ↦ absurd (hstrategy.symm.trans h) (by simp)⟩
  | setFlag _ =>
    obtain rfl := eq_finalName_of_record hitem hrecord
    exact ⟨Dict.get?_set_self _ _ _, rfl⟩

/-- Two items of the same kind have different names. -/
def NamesApart : Item O → Item O → Prop
  | .backend (name, _), .backend (name', _) => name ≠ name'
  | .featureFlag (name, _), .featureFlag (name', _) => name ≠ name'
  | _, _ => True

theorem achieved_importItem {s : State O B R} (hs : Consistent s) {item item' : Item O}
    {r : ImportItemResult} (hapart : NamesApart item item')
    (hagree : strategy = .update → Agree lib [item, item']) (h : Achieved lib strategy s item r) :
    Achieved lib strategy (importItem lib strategy false s item').1 item r := by
  intro hskipped hfailed
  obtain ⟨hpresent, hown⟩ := h hskipped hfailed
  refine ⟨?_, hown⟩
  cases item with
  | backend entry =>
    obtain ⟨name, v⟩ := entry
    cases v with
    | key k | bool b | list l => exact hpresent.elim
    | map raw =>
      obtain ⟨validated, hparse, hget⟩ := hpresent
      refine ⟨validated, hparse, get?_backends_importItem hs hget ?_⟩
      rintro hstrategy v rfl
      exact hapart (hown hstrategy)
  | registry entry =>
    obtain ⟨v, idx⟩ := entry
    cases v with
    | key k | bool b | list l => exact hpresent.elim
    | map raw =>
      obtain ⟨validated, hparse, hmem⟩ := hpresent
      refine ⟨validated, hparse, mem_registries_importItem hmem ?_⟩
      rintro hstrategy raw' idx' validated' rfl hparse' hname
      have hfinal := hown hstrategy validated hparse
      rw [← hfinal] at hname ⊢
      exact hagree hstrategy raw' idx' raw idx validated' validated (by simp) (by simp) hparse'
        hparse hname
  | featureFlag entry =>
    obtain ⟨name, v⟩ := entry
    cases v with
    | key k | list l | map d => exact hpresent.elim
    | bool value =>
      refine get?_featureFlags_importItem hpresent ?_
      rintro - value' rfl
      exact absurd hown hapart

/-! ## The items of a payload -/

omit [DecidableEq O] in
theorem pairwise_mapItems {make : Key O × Yaml O → Item O}
    (hmake : ∀ e e', e.1 ≠ e'.1 → NamesApart (make e) (make e')) {raw : Option (Yaml O)}
    (h : ∀ d, raw = some (.map d) → (d.map Prod.fst).Nodup) :
    (mapItems make raw).Pairwise NamesApart := by
  rcases raw with _ | _ | _ | _ | d
  · exact List.Pairwise.nil
  · exact List.Pairwise.nil
  · exact List.Pairwise.nil
  · exact List.Pairwise.nil
  · exact List.pairwise_map.mpr ((List.pairwise_map.mp (h d rfl)).imp fun hne ↦ hmake _ _ hne)

omit [DecidableEq O] in
theorem mem_mapItems {make : Key O × Yaml O → Item O} {raw : Option (Yaml O)} {item : Item O}
    (h : item ∈ mapItems make raw) : ∃ entry, make entry = item := by
  rcases raw with _ | _ | _ | _ | d
  · exact absurd h List.not_mem_nil
  · exact absurd h List.not_mem_nil
  · exact absurd h List.not_mem_nil
  · exact absurd h List.not_mem_nil
  · obtain ⟨entry, -, hentry⟩ := List.mem_map.mp h
    exact ⟨entry, hentry⟩

omit [DecidableEq O] in
theorem mem_listItems {make : Yaml O × ℕ → Item O} {raw : Option (Yaml O)} {item : Item O}
    (h : item ∈ listItems make raw) : ∃ entry, make entry = item := by
  rcases raw with _ | _ | _ | l | _
  · exact absurd h List.not_mem_nil
  · exact absurd h List.not_mem_nil
  · exact absurd h List.not_mem_nil
  · obtain ⟨entry, -, hentry⟩ := List.mem_map.mp h
    exact ⟨entry, hentry⟩
  · exact absurd h List.not_mem_nil

theorem pairwise_itemsOf {payload : List (Key O × Yaml O)} (h : Distinct payload)
    (entityTypes : Option (List String)) : (itemsOf payload entityTypes).Pairwise NamesApart := by
  have hsection : ∀ types name d, sectionOf payload types name = some (.map d) →
      (d.map Prod.fst).Nodup := by
    intro types name d hraw
    rw [sectionOf] at hraw
    split at hraw
    · exact h name d hraw
    · exact absurd hraw (by simp)
  rw [itemsOf]
  refine List.pairwise_append.mpr ⟨List.pairwise_append.mpr ⟨?_, ?_, ?_⟩, ?_, ?_⟩
  · exact @pairwise_mapItems O .backend (fun _ _ hne ↦ hne) _ (hsection _ _)
  · refine List.pairwise_of_forall_mem_list fun x hx y hy ↦ ?_
    obtain ⟨e, rfl⟩ := mem_listItems hx
    obtain ⟨e', rfl⟩ := mem_listItems hy
    trivial
  · intro x hx y hy
    obtain ⟨e, rfl⟩ := mem_mapItems hx
    obtain ⟨e', rfl⟩ := mem_listItems hy
    trivial
  · exact @pairwise_mapItems O .featureFlag (fun _ _ hne ↦ hne) _ (hsection _ _)
  · intro x hx y hy
    obtain ⟨e', rfl⟩ := mem_mapItems hy
    rcases List.mem_append.mp hx with hx | hx
    · obtain ⟨e, rfl⟩ := mem_mapItems hx
      trivial
    · obtain ⟨e, rfl⟩ := mem_listItems hx
      trivial

/-! ## The dry run reports what the real run reports -/

theorem importBackend_agree {dryRun dryRun' : Bool} {target target' : ArgusConfig O B R}
    {names : List (Key O)} {entry : Key O × Yaml O} :
    (importBackend lib strategy dryRun ⟨target, names⟩ entry).2 =
        (importBackend lib strategy dryRun' ⟨target', names⟩ entry).2 ∧
      (importBackend lib strategy dryRun ⟨target, names⟩ entry).1.existingNames =
        (importBackend lib strategy dryRun' ⟨target', names⟩ entry).1.existingNames := by
  obtain ⟨name, v⟩ := entry
  rw [importBackend, importBackend]
  cases v with
  | key k | bool b | list l => exact ⟨rfl, rfl⟩
  | map raw =>
    dsimp only
    cases parseBackend lib name raw with
    | raises e => exact ⟨rfl, rfl⟩
    | invalid message => exact ⟨rfl, rfl⟩
    | ok validated =>
      by_cases hname : name ∈ names
      · dsimp only
        rw [if_pos hname, if_pos hname]
        cases strategy with
        | fail | skip | update => exact ⟨rfl, rfl⟩
        | rename =>
          dsimp only
          cases generateRename lib (.key name) names with
          | none => exact ⟨rfl, rfl⟩
          | some newName => exact ⟨rfl, rfl⟩
      · dsimp only
        rw [if_neg hname, if_neg hname]
        exact ⟨rfl, rfl⟩

theorem importRegistry_agree {dryRun dryRun' : Bool} {target target' : ArgusConfig O B R}
    {names : List (Key O)} {entry : Yaml O × ℕ} :
    (importRegistry lib strategy dryRun ⟨target, names⟩ entry).2 =
        (importRegistry lib strategy dryRun' ⟨target', names⟩ entry).2 ∧
      (importRegistry lib strategy dryRun ⟨target, names⟩ entry).1.existingNames =
        (importRegistry lib strategy dryRun' ⟨target', names⟩ entry).1.existingNames := by
  obtain ⟨v, idx⟩ := entry
  rw [importRegistry, importRegistry]
  cases v with
  | key k | bool b | list l => exact ⟨rfl, rfl⟩
  | map raw =>
    dsimp only
    cases registryEntryConfig lib raw with
    | raises e => exact ⟨rfl, rfl⟩
    | invalid message => exact ⟨rfl, rfl⟩
    | ok validated =>
      dsimp only
      cases regName idx raw with
      | bool b | list l | map d => exact ⟨rfl, rfl⟩
      | key k =>
        dsimp only
        by_cases hk : k ∈ names
        · rw [if_pos hk, if_pos hk]
          cases strategy with
          | fail | skip | update => exact ⟨rfl, rfl⟩
          | rename =>
            dsimp only
            cases generateRename lib (.key k) names with
            | none => exact ⟨rfl, rfl⟩
            | some newName => exact ⟨rfl, rfl⟩
        · rw [if_neg hk, if_neg hk]
          exact ⟨rfl, rfl⟩

theorem importFeatureFlag_agree {dryRun dryRun' : Bool} {target target' : ArgusConfig O B R}
    {entry : Key O × Yaml O}
    (h : entry.1 ∈ target.featureFlags.keys ↔ entry.1 ∈ target'.featureFlags.keys) :
    (importFeatureFlag lib strategy dryRun target entry).2 =
      (importFeatureFlag lib strategy dryRun' target' entry).2 := by
  obtain ⟨name, v⟩ := entry
  rw [importFeatureFlag, importFeatureFlag]
  cases v with
  | key k => rfl
  | list l => rfl
  | map d => rfl
  | bool value =>
    dsimp only at h ⊢
    simp only [h]
    split
    · rfl
    · split
      · rfl
      · rfl

/-- What two runs have in common: the names that are taken, as far as the items that are left are
concerned. -/
structure SameNames (items : List (Item O)) (s t : State O B R) : Prop where
  backendNames : s.backendNames = t.backendNames
  registryNames : s.registryNames = t.registryNames
  featureFlags : ∀ name v, .featureFlag (name, v) ∈ items →
    (name ∈ s.target.featureFlags.keys ↔ name ∈ t.target.featureFlags.keys)
  apart : items.Pairwise NamesApart

theorem sameNames_importItem {dryRun dryRun' : Bool} {item : Item O} {items : List (Item O)}
    {s t : State O B R} (h : SameNames (item :: items) s t) :
    (importItem lib strategy dryRun s item).2 = (importItem lib strategy dryRun' t item).2 ∧
      SameNames items (importItem lib strategy dryRun s item).1
        (importItem lib strategy dryRun' t item).1 := by
  obtain ⟨target, backendNames, registryNames⟩ := s
  obtain ⟨target', backendNames', registryNames'⟩ := t
  obtain ⟨rfl, rfl, hflags, hapart⟩ := h
  obtain ⟨hitem, hitems⟩ := List.pairwise_cons.mp hapart
  have hkeys : ∀ name v, .featureFlag (name, v) ∈ items →
      (name ∈ (importItem lib strategy dryRun ⟨target, backendNames, registryNames⟩
          item).1.target.featureFlags.keys ↔
        name ∈ (importItem lib strategy dryRun' ⟨target', backendNames, registryNames⟩
          item).1.target.featureFlags.keys) := by
    intro name v hmem
    have hother : ∀ v', item ≠ .featureFlag (name, v') := by
      rintro v' rfl
      exact hitem _ hmem rfl
    have hbefore := hflags name v (List.mem_cons_of_mem _ hmem)
    rw [Dict.mem_keys_iff, Dict.mem_keys_iff] at hbefore ⊢
    rw [get?_featureFlags_of_ne hother, get?_featureFlags_of_ne hother]
    exact hbefore
  cases item with
  | backend entry =>
    have hagree := @importBackend_agree _ _ _ _ lib strategy dryRun dryRun' target target'
      backendNames entry
    exact ⟨hagree.1, hagree.2, rfl, hkeys, hitems⟩
  | registry entry =>
    have hagree := @importRegistry_agree _ _ _ _ lib strategy dryRun dryRun' target target'
      registryNames entry
    exact ⟨hagree.1, rfl, hagree.2, hkeys, hitems⟩
  | featureFlag entry =>
    have hkey := hflags entry.1 entry.2 List.mem_cons_self
    exact ⟨importFeatureFlag_agree hkey, rfl, rfl, hkeys, hitems⟩

/-! ## The conditions are needed -/

theorem get?_featureFlags_of_rename (s : State O B R) (name : Key O) (value : Bool) :
    (importItem lib .rename false s (.featureFlag (name, .bool value))).1.target.featureFlags.get?
      name = some value := by
  rw [importItem, importFeatureFlag]
  dsimp only
  rw [if_neg (by simp), if_neg (by simp)]
  exact Dict.get?_set_self _ _ _

/-- The feature flags that are overwritten are seen in the end. -/
theorem sameFlags_of_kept {target : ArgusConfig O B R} {items : List (Item O)}
    (hapart : items.Pairwise NamesApart) (s : State O B R)
    (hkept : ∀ k v, target.featureFlags.get? k = some v →
      (Loop.loop (importItem lib .rename false) s items).1.target.featureFlags.get? k = some v) :
    Loop.Guarded (importItem lib .rename false) (fun _ ↦ SameFlag target) s items := by
  induction items generalizing s with
  | nil => trivial
  | cons item items ih =>
    obtain ⟨hitem, hitems⟩ := List.pairwise_cons.mp hapart
    have hleft : ∀ k v, (importItem lib .rename false s item).1.target.featureFlags.get? k = v →
        (∃ v, item = .featureFlag (k, v)) →
        (Loop.loop (importItem lib .rename false) s (item :: items)).1.target.featureFlags.get? k =
          v := by
      rintro k v hk ⟨v', rfl⟩
      rcases hbody : importItem lib .rename false s (.featureFlag (k, v')) with ⟨m, e | r⟩
      · rw [hbody] at hk
        rw [Loop.loop_cons_of_error hbody]
        exact hk
      · rw [hbody] at hk
        rw [Loop.loop_cons_of_ok hbody]
        refine @Loop.invariant_of_loop _ _ _ _ (importItem lib .rename false) m items
          (fun t ↦ t.target.featureFlags.get? k = v) (NamesApart (.featureFlag (k, v'))) ?_ hk hitem
        intro t z ht hz
        refine (get?_featureFlags_of_ne ?_).trans ht
        rintro v'' rfl
        exact hz rfl
    have hsame : SameFlag target item := by
      rcases item with _ | _ | ⟨name, _ | value | _ | _⟩
      · trivial
      · trivial
      · trivial
      · intro v hv
        have hwritten := hleft name _ (get?_featureFlags_of_rename s name value) ⟨_, rfl⟩
        exact Option.some.inj ((hkept name v hv).symm.trans hwritten)
      · trivial
      · trivial
    rcases hbody : importItem lib .rename false s item with ⟨m, e | r⟩
    · exact (Loop.guarded_cons_of_error hbody).mpr hsame
    · refine (Loop.guarded_cons_of_ok hbody).mpr ⟨hsame, ih hitems m fun k v hv ↦ ?_⟩
      have hend := hkept k v hv
      rwa [Loop.loop_cons_of_ok hbody] at hend

theorem status_registry_of_update {s : State O B R} {raw : List (Key O × Yaml O)} {idx : ℕ}
    {validated : RegistryEntryConfig R} {r : ImportItemResult}
    (hparse : registryEntryConfig lib raw = .ok validated)
    (hitem : StrNamed lib (.registry (.map raw, idx)))
    (h : (importItem lib .update false s (.registry (.map raw, idx))).2 = .ok r) :
    r.status ≠ .skipped ∧ r.status ≠ .failed ∧ r.finalName = validated.name := by
  obtain ⟨n, hn⟩ := hitem validated hparse
  obtain rfl := Key.str.inj (eq_name_of_strNamed hitem hparse hn)
  rw [importItem, importRegistry] at h
  dsimp only at h
  rw [hparse, hn] at h
  dsimp only at h
  split at h
  · dsimp only at h
    obtain ⟨n, hstr, rfl⟩ := record_eq_ok_iff.mp h
    exact ⟨by simp, by simp, (Option.some.inj hstr).symm⟩
  · dsimp only at h
    obtain ⟨n, hstr, rfl⟩ := record_eq_ok_iff.mp h
    exact ⟨by simp, by simp, (Option.some.inj hstr).symm⟩

/-- Registries with the same name that are both there are the same. -/
theorem agree_of_present {items : List (Item O)} {s : State O B R} {left : ArgusConfig O B R}
    {results : List ImportItemResult} (hitems : ∀ item ∈ items, StrNamed lib item)
    (hnodup : (left.registries.map RegistryEntryConfig.name).Nodup)
    (hresults : (Loop.loop (importItem lib .update false) s items).2 = .ok results)
    (hpresent : List.Forall₂ (fun item r ↦ r.status ≠ .skipped → r.status ≠ .failed →
      Present lib left item r) items results) : Agree lib items := by
  have hmem : ∀ item ∈ items, StrNamed lib item → ∀ raw idx validated,
      item = .registry (.map raw, idx) → registryEntryConfig lib raw = .ok validated →
      validated ∈ left.registries := by
    refine ((List.forall₂_and_left items results).mp
      (List.Forall₂.mp (fun item r hp hs ↦ ⟨?_, hs⟩) hpresent (Loop.forall₂_of_loop hresults))).1
    rintro hitem raw idx validated rfl hparse
    obtain ⟨s, hs⟩ := hs
    obtain ⟨hskipped, hfailed, hname⟩ := status_registry_of_update hparse hitem hs
    obtain ⟨validated', hparse', hreg⟩ := hp hskipped hfailed
    obtain rfl := Parsed.ok.inj (hparse.symm.trans hparse')
    rw [hname] at hreg
    exact hreg
  intro raw idx raw' idx' validated validated' hitem hitem' hparse hparse' hname
  exact List.inj_on_of_nodup_map hnodup
    (hmem _ hitem (hitems _ hitem) raw idx validated rfl hparse)
    (hmem _ hitem' (hitems _ hitem') raw' idx' validated' rfl hparse') hname

/-! ## Exactly when it holds -/

theorem preserves_of_limits {target : ArgusConfig O B R}
    (hnodup : (target.registries.map RegistryEntryConfig.name).Nodup)
    {payload : List (Key O × Yaml O)} {entityTypes : Option (List String)}
    {maxBackends maxRegistries : ℤ}
    (hlimits : validateImportLimits payload maxBackends maxRegistries ≠ []) :
    Preserves lib strategy target payload entityTypes maxBackends maxRegistries := by
  have heq := fun dryRun ↦ importConfig_of_limits lib strategy dryRun target payload entityTypes
    maxBackends maxRegistries hlimits
  refine ⟨?_, ?_, fun _ ↦ ?_, ?_, fun left result hresult ↦ Or.inl ?_⟩
  · rw [heq]
  · rw [heq, heq]
    rfl
  · rw [heq]
    exact ⟨fun _ _ h ↦ h, fun _ h ↦ h, fun _ _ h ↦ h⟩
  · rw [heq]
    exact hnodup
  · rw [heq] at hresult
    obtain rfl := Except.ok.inj (congrArg Prod.snd hresult)
    exact hlimits

theorem kept_of_holdsWhen {target : ArgusConfig O B R}
    (hnodup : (target.registries.map RegistryEntryConfig.name).Nodup) {items : List (Item O)}
    (hitems : ∀ item ∈ items, StrNamed lib item) (hwhen : HoldsWhen lib strategy target items)
    (hstrategy : strategy ≠ .update) :
    Kept target (Loop.loop (importItem lib strategy false) (.init target) items).1.target := by
  have hflags : Loop.Guarded (importItem lib strategy false)
      (fun _ item ↦ strategy = .rename → SameFlag target item) (.init target) items := by
    by_cases h : strategy = .rename
    · exact (hwhen.sameFlags h).imp fun _ _ hitem _ ↦ hitem
    · exact Loop.guarded_of_forall (fun _ _ hrename ↦ absurd hrename h) _
  have hstep : ∀ (s : State O B R) item, Consistent s ∧ Kept target s.target →
      (strategy = .rename → SameFlag target item) ∧ StrNamed lib item →
      Consistent (importItem lib strategy false s item).1 ∧
        Kept target (importItem lib strategy false s item).1.target := by
    rintro s item ⟨hs, hkept⟩ ⟨hsame, hitem⟩
    refine ⟨consistent_importItem hs hitem, fun k b hk ↦ ?_, fun r hr ↦ ?_, fun k v hk ↦ ?_⟩
    · exact get?_backends_importItem hs (hkept.backends k b hk) fun h ↦ absurd h hstrategy
    · exact mem_registries_importItem (hkept.registries r hr) fun h ↦ absurd h hstrategy
    · refine get?_featureFlags_importItem (hkept.featureFlags k v hk) ?_
      rintro hupdate value rfl
      exact (hsame (hupdate.resolve_left hstrategy) v hk).symm
  exact (Loop.invariant_of_guarded hstep
    ⟨consistent_init hnodup, fun _ _ h ↦ h, fun _ h ↦ h, fun _ _ h ↦ h⟩
    (hflags.and (Loop.guarded_of_forall hitems _))).2

theorem present_of_holdsWhen {target : ArgusConfig O B R}
    (hnodup : (target.registries.map RegistryEntryConfig.name).Nodup) {items : List (Item O)}
    (hapart : items.Pairwise NamesApart) (hitems : ∀ item ∈ items, StrNamed lib item)
    (hwhen : HoldsWhen lib strategy target items) {results : List ImportItemResult}
    (hresults :
      (Loop.loop (importItem lib strategy false) (.init target) items).2 = .ok results) :
    List.Forall₂ (fun item r ↦ r.status ≠ .skipped → r.status ≠ .failed →
      Present lib (Loop.loop (importItem lib strategy false) (.init target) items).1.target item r)
      items results := by
  have hraises : Loop.Guarded (importItem lib strategy false)
      (fun s item ↦ ¬ Raises lib strategy s item) (.init target) items :=
    ((Loop.exists_ok_iff_guarded _ _).mp ⟨results, hresults⟩).imp
      fun s item h hraises ↦ h ((importItem_eq_error_iff false).mpr hraises)
  have hagree : strategy = .update → Agree lib items := fun h ↦ hwhen.agree h hraises
  have hpairwise : items.Pairwise fun item item' ↦
      NamesApart item item' ∧ (strategy = .update → Agree lib [item, item']) := by
    refine hapart.imp_of_mem fun hx hy h ↦ ⟨h, fun hstrategy ↦ ?_⟩
    have hsub : ∀ z ∈ [_, _], z ∈ items :=
      List.forall_mem_cons.mpr ⟨hx, List.forall_mem_singleton.mpr hy⟩
    intro raw idx raw' idx' validated validated' hmem hmem'
    exact hagree hstrategy raw idx raw' idx' validated validated' (hsub _ hmem) (hsub _ hmem')
  have hachieved := @Loop.forall₂_of_pairwise _ _ _ _ (importItem lib strategy false)
    (.init target) items Consistent (StrNamed lib) (Achieved lib strategy) _
    (fun s item hs hitem ↦ consistent_importItem hs hitem)
    (fun s item m r hs hitem h ↦ achieved_of_ok hs hitem h)
    (fun s item r item' hs _ hC h ↦ achieved_importItem hs hC.1 hC.2 h) results
    (consistent_init hnodup) hitems hpairwise hresults
  exact hachieved.imp fun item r h hskipped hfailed ↦ (h hskipped hfailed).1

/-- **An import preserves what exists**, if no feature flag is to be renamed and no registry comes
twice, for payloads in which no name is given as bytes. For these the condition is exact. -/
theorem preserves_iff (lib : Lib O B R) (strategy : ConflictStrategy) (target : ArgusConfig O B R)
    (hnodup : (target.registries.map RegistryEntryConfig.name).Nodup)
    (payload : List (Key O × Yaml O)) (hdistinct : Distinct payload)
    (entityTypes : Option (List String)) (maxBackends maxRegistries : ℤ) :
    (validateImportLimits payload maxBackends maxRegistries ≠ [] ∨
        (∀ item ∈ itemsOf payload entityTypes, StrNamed lib item) ∧
          HoldsWhen lib strategy target (itemsOf payload entityTypes) →
      Preserves lib strategy target payload entityTypes maxBackends maxRegistries) ∧
    ((∀ item ∈ itemsOf payload entityTypes, StrNamed lib item) →
      Preserves lib strategy target payload entityTypes maxBackends maxRegistries →
      validateImportLimits payload maxBackends maxRegistries ≠ [] ∨
        HoldsWhen lib strategy target (itemsOf payload entityTypes)) := by
  by_cases hlimits : validateImportLimits payload maxBackends maxRegistries = []
  case neg => exact ⟨fun _ ↦ preserves_of_limits hnodup hlimits, fun _ _ ↦ Or.inl hlimits⟩
  have heq := fun dryRun ↦ importConfig_eq lib strategy dryRun target payload entityTypes
    maxBackends maxRegistries hlimits
  dsimp only at heq
  have hapart := pairwise_itemsOf hdistinct entityTypes
  constructor
  · intro h
    obtain ⟨hitems, hwhen⟩ := h.resolve_left (not_not_intro hlimits)
    refine ⟨?_, ?_, fun hstrategy ↦ ?_, ?_, fun left result hresult ↦ Or.inr ?_⟩
    · rw [heq]
      exact @Loop.invariant_of_loop _ _ _ _ (importItem lib strategy true) (.init target) _
        (fun s ↦ s.target = target) (fun _ ↦ True)
        (fun s item hs _ ↦ (importItem_dryRun s item).trans hs) rfl fun _ _ ↦ trivial
    · have hstep : ∀ item items (s t : State O B R), SameNames (item :: items) s t →
          (importItem lib strategy true s item).2 = (importItem lib strategy false t item).2 ∧
            SameNames items (importItem lib strategy true s item).1
              (importItem lib strategy false t item).1 :=
        fun item items s t h ↦ sameNames_importItem h
      have hresults := Loop.results_agree hstep
        (⟨rfl, rfl, fun _ _ _ ↦ Iff.rfl, hapart⟩ : SameNames _ (.init target) (.init target))
      rw [heq, heq, hresults]
      rcases (Loop.loop (importItem lib strategy false) (.init target)
        (itemsOf payload entityTypes)).2 with e | results
      · rfl
      · rfl
    · rw [heq]
      exact kept_of_holdsWhen hnodup hitems hwhen hstrategy
    · rw [heq]
      have hstep : ∀ (s : State O B R) item, Consistent s → StrNamed lib item →
          Consistent (importItem lib strategy false s item).1 :=
        fun s item hs hitem ↦ consistent_importItem hs hitem
      exact (Loop.invariant_of_loop hstep (consistent_init hnodup) hitems).nodup
    · rw [heq] at hresult
      obtain ⟨rfl, hok⟩ := Prod.mk.inj hresult
      obtain ⟨results, hresults, rfl⟩ := map_eq_ok_iff.mp hok
      exact present_of_holdsWhen hnodup hapart hitems hwhen hresults
  · rintro hitems ⟨-, -, hkept, hdistinct', hpresent⟩
    refine Or.inr ⟨?_, ?_⟩
    · rintro rfl
      have hflags := (hkept (by simp)).featureFlags
      rw [heq] at hflags
      exact sameFlags_of_kept hapart _ hflags
    · rintro rfl hraises
      have hguarded := hraises.imp fun s item h ↦ fun hex ↦ h ((importItem_eq_error_iff false).mp hex)
      obtain ⟨results, hresults⟩ := (Loop.exists_ok_iff_guarded _ _).mpr hguarded
      have hends := hpresent _ _ ((heq false).trans (by rw [hresults]; rfl))
      rw [heq] at hdistinct'
      exact agree_of_present hitems hdistinct' hresults (hends.resolve_left (by simp))

/-- The feature flag `hot_reload: true`. -/
def switchedFlag : List (Key ℤ × Yaml ℤ) :=
  [(.str "feature_flags", .map [(.str "hot_reload", .bool true)])]

theorem distinct_switchedFlag : Distinct switchedFlag := by
  intro name d h
  rw [switchedFlag, List.lookup_cons] at h
  split at h
  · obtain rfl := Yaml.map.inj (Option.some.inj h)
    exact List.nodup_singleton _
  · exact absurd h (by simp)

theorem distinct_delivery : Distinct delivery := by
  intro name d h
  rw [delivery, List.lookup_cons] at h
  split at h
  · obtain rfl := Yaml.map.inj (Option.some.inj h)
    decide
  · rw [List.lookup_cons] at h
    split at h
    · exact absurd h (by simp)
    · rw [List.lookup_cons] at h
      split at h
      · obtain rfl := Yaml.map.inj (Option.some.inj h)
        exact List.nodup_singleton _
      · exact absurd h (by simp)

theorem preserves_iff_delivery : Preserves fieldsLib .rename furnished delivery none 200 50 := by
  refine (preserves_iff fieldsLib .rename furnished (List.nodup_singleton _) delivery
    distinct_delivery none 200 50).1 (Or.inr ⟨?_, fun _ ↦ ?_, fun h ↦ absurd h (by decide)⟩)
  · rw [itemsOf_delivery]
    simp only [List.forall_mem_cons]
    exact ⟨fun _ _ _ ↦ ⟨_, rfl⟩, fun _ _ _ ↦ ⟨_, rfl⟩, fun _ _ ↦ ⟨_, rfl⟩, fun _ ↦ ⟨_, rfl⟩,
      fun _ h ↦ absurd h List.not_mem_nil⟩
  · refine Loop.guarded_of_forall ?_ _
    rw [itemsOf_delivery]
    simp only [List.forall_mem_cons]
    exact ⟨trivial, trivial, trivial, fun v hv ↦ (Option.some.inj hv).symm,
      fun _ h ↦ absurd h List.not_mem_nil⟩

/-- The flag is off, and the import is to rename what is there already. It turns the flag on. -/
theorem not_forall_preserves : ¬ ∀ (strategy : ConflictStrategy) (target : ArgusConfig ℤ Unit Unit),
    (target.registries.map RegistryEntryConfig.name).Nodup →
    ∀ (payload : List (Key ℤ × Yaml ℤ)), Distinct payload →
    ∀ (entityTypes : Option (List String)) (maxBackends maxRegistries : ℤ),
      Preserves intLib strategy target payload entityTypes maxBackends maxRegistries := by
  intro h
  have hpreserves := h .rename ⟨.empty, [], .ofList [(.str "hot_reload", false)]⟩ List.nodup_nil
    switchedFlag distinct_switchedFlag none 200 50
  have hkept := (hpreserves.kept (by simp)).featureFlags (.str "hot_reload") false (by decide)
  exact absurd hkept (by decide)

end Import

end ArgusMcp
