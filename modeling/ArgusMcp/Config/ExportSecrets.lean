import ArgusMcp.Config.Export
import ArgusMcp.Config.Secrets

/-!
# Secrets in an export

The loader puts the secrets in place of the references to them before the configuration is
validated, and an export is made of the validated configuration. So what `_mask_secrets` and
`_strip_secrets` look for, texts like `secret:name`, has gone from it.

## Two runs

One configuration file is loaded with two stores of secrets. Where validation takes the same
branches, the two configurations have one *shape*: a tree with places for secrets, each of which
shows what validation makes of one secret (`ConfigShape`). An export is a tree of the same kind, and
the exports of the two runs are equal exactly if the same backends pass the filter and each place in
the sections exported shows the same under both stores (`exports_eq_iff`). That is the case for
secrets that look like references themselves, and otherwise for equal ones only
(`shownAlike_text_iff`).
-/

namespace ArgusMcp

namespace Export

open Import ConfigSchema

/-! ## Trees with places for secrets -/

/-- A scalar: a fixed one, or what becomes of a secret. -/
inductive Leaf (α : Type) where
  | fixed (a : α)
  | secret (name : String) (seen : String → α)

/-- Data of a configuration, with places for secrets. -/
inductive Shape (O : Type) where
  | key (k : Leaf (Key O))
  | bool (b : Leaf Bool)
  | list (l : List (Shape O))
  | map (d : List (Key O × Shape O))

section

variable {O α β : Type}

/-- The scalar under a store. -/
def Leaf.fill (store : String → String) : Leaf α → α
  | fixed a => a
  | secret name seen => seen (store name)

def Leaf.map (f : α → β) : Leaf α → Leaf β
  | fixed a => fixed (f a)
  | secret name seen => secret name (f ∘ seen)

theorem Leaf.fill_map (store : String → String) (f : α → β) (l : Leaf α) :
    (l.map f).fill store = f (l.fill store) := by
  rcases l with a | ⟨name, seen⟩
  · rfl
  · rfl

/-- The place of a secret: its name, and what the configuration has there. -/
abbrev Place (O : Type) := String × (String → Yaml O)

def Leaf.places (f : α → Yaml O) : Leaf α → List (Place O)
  | fixed _ => []
  | secret name seen => [(name, f ∘ seen)]

namespace Shape

mutual

/-- The data under a store. -/
def fill (store : String → String) : Shape O → Yaml O
  | .key k => .key (k.fill store)
  | .bool b => .bool (b.fill store)
  | .list l => .list (fillElements store l)
  | .map d => .map (fillEntries store d)

def fillElements (store : String → String) : List (Shape O) → List (Yaml O)
  | [] => []
  | s :: l => fill store s :: fillElements store l

def fillEntries (store : String → String) : List (Key O × Shape O) → List (Key O × Yaml O)
  | [] => []
  | (k, s) :: d => (k, fill store s) :: fillEntries store d

end

mutual

def places : Shape O → List (Place O)
  | .key k => k.places .key
  | .bool b => b.places .bool
  | .list l => placesElements l
  | .map d => placesEntries d

def placesElements : List (Shape O) → List (Place O)
  | [] => []
  | s :: l => places s ++ placesElements l

def placesEntries : List (Key O × Shape O) → List (Place O)
  | [] => []
  | (_, s) :: d => places s ++ placesEntries d

end

theorem fillElements_eq_map (store : String → String) (l : List (Shape O)) :
    fillElements store l = l.map (fill store) := by
  induction l with
  | nil => rfl
  | cons s l ih => rw [fillElements, ih, List.map_cons]

theorem fillEntries_eq_map (store : String → String) (d : List (Key O × Shape O)) :
    fillEntries store d = d.map fun e ↦ (e.1, fill store e.2) := by
  induction d with
  | nil => rfl
  | cons e d ih => rw [fillEntries, ih, List.map_cons]

end Shape

/-- What an export with references replaced by the text has the text for. -/
def ShownAs (text : String) (v : Yaml O) : Prop :=
  ∃ value, v = .key (.str value) ∧ (isReference value = true ∨ value = text)

/-- Two scalars that such an export does not tell apart. -/
def ShownAlike (text : String) (v w : Yaml O) : Prop := v = w ∨ ShownAs text v ∧ ShownAs text w

def ShowSame (text : String) (s t : String → String) (places : List (Place O)) : Prop :=
  ∀ place ∈ places, ShownAlike text (place.2 (s place.1)) (place.2 (t place.1))

variable {text : String} {s t : String → String}

theorem shownAs_iff (k : Key O) :
    ShownAs text (.key k) ↔ replaceSecrets text (.key k) = .key (.str text) := by
  rcases k with value | o
  · rw [replaceSecrets]
    constructor
    · rintro ⟨_, hvalue, h⟩
      obtain rfl := Key.str.inj (Yaml.key.inj hvalue)
      rcases h with h | rfl
      · rw [if_pos h]
      · exact ite_self _
    · intro h
      by_cases href : isReference value
      · exact ⟨value, rfl, .inl href⟩
      · rw [if_neg href] at h
        exact ⟨value, rfl, .inr (Key.str.inj (Yaml.key.inj h))⟩
  · simp [ShownAs, replaceSecrets]

theorem replaceSecrets_key {k : Key O} (h : ¬ ShownAs text (.key k)) :
    replaceSecrets text (.key k) = .key k := by
  rcases k with value | o
  · rw [replaceSecrets, if_neg fun href ↦ h ⟨value, rfl, .inl href⟩]
  · rfl

theorem replaceSecrets_key_eq_iff (k k' : Key O) :
    replaceSecrets text (.key k) = replaceSecrets text (.key k') ↔
      ShownAlike text (.key k) (.key k') := by
  rw [ShownAlike]
  by_cases h : ShownAs text (.key k)
  · rw [(shownAs_iff k).mp h, and_iff_right h, shownAs_iff k']
    constructor
    · exact fun h' ↦ .inr h'.symm
    · rintro (hsame | h')
      · rw [← hsame, (shownAs_iff k).mp h]
      · exact h'.symm
  · rw [replaceSecrets_key h, or_iff_left fun hboth ↦ h hboth.1]
    by_cases h' : ShownAs text (.key k')
    · rw [(shownAs_iff k').mp h']
      refine iff_of_false (fun hsame ↦ h ?_) fun hsame ↦ h (hsame ▸ h')
      exact hsame ▸ ⟨text, rfl, .inr rfl⟩
    · rw [replaceSecrets_key h']

theorem replaceSecrets_bool_eq_iff (b b' : Bool) :
    replaceSecrets text (.bool b : Yaml O) = replaceSecrets text (.bool b') ↔
      ShownAlike text (.bool b : Yaml O) (.bool b') := by
  simp [ShownAlike, ShownAs, replaceSecrets]

theorem showSame_append_iff {l m : List (Place O)} :
    ShowSame text s t (l ++ m) ↔ ShowSame text s t l ∧ ShowSame text s t m :=
  List.forall_mem_append

theorem showSame_leaf_iff {f : α → Yaml O} (hf : ∀ a a', replaceSecrets text (f a)
      = replaceSecrets text (f a') ↔ ShownAlike text (f a) (f a')) (l : Leaf α) :
    replaceSecrets text (f (l.fill s)) = replaceSecrets text (f (l.fill t)) ↔
      ShowSame text s t (l.places f) := by
  rcases l with a | ⟨name, seen⟩
  · exact iff_of_true rfl fun _ h ↦ absurd h List.not_mem_nil
  · rw [hf, Leaf.places, ShowSame, List.forall_mem_singleton]
    rfl

mutual

/-- **Two exports of one shape** are equal exactly if all places show the same. -/
theorem replaceSecrets_fill_eq_iff (shape : Shape O) :
    replaceSecrets text (shape.fill s) = replaceSecrets text (shape.fill t) ↔
      ShowSame text s t shape.places := by
  match shape with
  | .key k => exact showSame_leaf_iff replaceSecrets_key_eq_iff k
  | .bool b => exact showSame_leaf_iff replaceSecrets_bool_eq_iff b
  | .list l =>
    rw [Shape.fill, Shape.fill, Shape.places, replaceSecrets, replaceSecrets, Yaml.list.injEq]
    exact replaceElements_fill_eq_iff l
  | .map d =>
    rw [Shape.fill, Shape.fill, Shape.places, replaceSecrets, replaceSecrets, Yaml.map.injEq]
    exact replaceEntries_fill_eq_iff d

theorem replaceElements_fill_eq_iff (l : List (Shape O)) :
    replaceElements text (Shape.fillElements s l) = replaceElements text (Shape.fillElements t l) ↔
      ShowSame text s t (Shape.placesElements l) := by
  match l with
  | [] => exact iff_of_true rfl fun _ h ↦ absurd h List.not_mem_nil
  | shape :: l =>
    rw [Shape.fillElements, Shape.fillElements, Shape.placesElements, replaceElements,
      replaceElements, List.cons.injEq, showSame_append_iff, replaceSecrets_fill_eq_iff shape,
      replaceElements_fill_eq_iff l]

theorem replaceEntries_fill_eq_iff (d : List (Key O × Shape O)) :
    replaceEntries text (Shape.fillEntries s d) = replaceEntries text (Shape.fillEntries t d) ↔
      ShowSame text s t (Shape.placesEntries d) := by
  match d with
  | [] => exact iff_of_true rfl fun _ h ↦ absurd h List.not_mem_nil
  | (k, shape) :: d =>
    rw [Shape.fillEntries, Shape.fillEntries, Shape.placesEntries, replaceEntries, replaceEntries,
      List.cons.injEq, showSame_append_iff, Prod.mk.injEq, and_iff_right rfl,
      replaceSecrets_fill_eq_iff shape, replaceEntries_fill_eq_iff d]

end

/-! ## Exports of one shape -/

/-- A configuration with places for secrets. -/
structure ConfigShape (O : Type) where
  version : Leaf String
  backends : Dict (Key O) (List (String × Shape O))
  registries : List (Leaf String × List (String × Shape O))
  featureFlags : Dict (Key O) (Leaf Bool)
  plugins : Shape O

def fillFields (store : String → String) (fields : List (String × Shape O)) :
    List (String × Yaml O) :=
  fields.map fun e ↦ (e.1, e.2.fill store)

/-- The data of `model_dump`. -/
def fieldsShape (fields : List (String × Shape O)) : Shape O :=
  .map (fields.map fun e ↦ (.str e.1, e.2))

theorem fill_fieldsShape (store : String → String) (fields : List (String × Shape O)) :
    (fieldsShape fields).fill store = .map (dump (fillFields store fields)) := by
  rw [fieldsShape, Shape.fill, Shape.fillEntries_eq_map, dump, fillFields, List.map_map,
    List.map_map]
  rfl

namespace ConfigShape

variable (c : ConfigShape O) (exportFilter : ExportFilter)

def fill (store : String → String) : Config O where
  backends := c.backends.mapValues (fillFields store)
  registries := c.registries.map fun r ↦ ⟨r.1.fill store, fillFields store r.2⟩
  featureFlags := c.featureFlags.mapValues (Leaf.fill store)
  version := c.version.fill store
  plugins := c.plugins.fill store

/-- The backends that pass the filter under a store. -/
def kept (store : String → String) : List (Key O × List (String × Shape O)) :=
  c.backends.items.filter fun e ↦ backendMatchesFilter e.1 (fillFields store e.2) exportFilter

def registryShape (r : Leaf String × List (String × Shape O)) : Shape O :=
  fieldsShape (("name", .key (r.1.map .str)) :: r.2)

def sectionShape (name : String) (content : Shape O) : List (Key O × Shape O) :=
  if name ∈ exportFilter.entityTypes then [(.str name, content)] else []

def exportShape (kept : List (Key O × List (String × Shape O))) : List (Key O × Shape O) :=
  (.str "version", .key (c.version.map .str)) ::
    (sectionShape exportFilter "backends"
        (.map (kept.map fun e ↦ (e.1, fieldsShape e.2))) ++
      sectionShape exportFilter "registries" (.list (c.registries.map registryShape)) ++
      sectionShape exportFilter "feature_flags"
        (.map (c.featureFlags.items.map fun e ↦ (e.1, .bool e.2))) ++
      sectionShape exportFilter "plugins" c.plugins)

variable {c exportFilter}

theorem fill_registryShape (store : String → String) (r : Leaf String × List (String × Shape O)) :
    (registryShape r).fill store = dumpRegistry ⟨r.1.fill store, fillFields store r.2⟩ := by
  rw [registryShape, fill_fieldsShape, dumpRegistry, fillFields, List.map_cons, Shape.fill,
    Leaf.fill_map]
  rfl

theorem fill_sectionShape (store : String → String) (name : String) (content : Shape O) :
    Shape.fillEntries store (sectionShape exportFilter name content)
      = sectionIf exportFilter name (content.fill store) := by
  rw [sectionShape, sectionIf]
  split
  · rfl
  · rfl

theorem fillEntries_append (store : String → String) (d d' : List (Key O × Shape O)) :
    Shape.fillEntries store (d ++ d')
      = Shape.fillEntries store d ++ Shape.fillEntries store d' := by
  rw [Shape.fillEntries_eq_map, List.map_append, ← Shape.fillEntries_eq_map,
    ← Shape.fillEntries_eq_map]

theorem exportedBackends_fill (store : String → String) :
    exportedBackends (c.fill store) exportFilter
      = (c.kept exportFilter store).map fun e ↦ (e.1, fillFields store e.2) := by
  rw [exportedBackends, kept, fill]
  exact List.filter_map

theorem exportData_fill (store : String → String) : exportData (c.fill store) exportFilter
    = Shape.fillEntries store (c.exportShape exportFilter (c.kept exportFilter store)) := by
  have hbackends : (Shape.map ((c.kept exportFilter store).map fun e ↦ (e.1, fieldsShape e.2))).fill
      store = .map ((exportedBackends (c.fill store) exportFilter).map fun e ↦
        (e.1, .map (dump e.2))) := by
    rw [exportedBackends_fill, Shape.fill, Shape.fillEntries_eq_map, List.map_map, List.map_map]
    simp only [Function.comp_def, fill_fieldsShape]
  have hregistries : (Shape.list (c.registries.map registryShape)).fill store
      = .list ((c.fill store).registries.map dumpRegistry) := by
    rw [fill, Shape.fill, Shape.fillElements_eq_map, List.map_map, List.map_map]
    simp only [Function.comp_def, fill_registryShape]
  have hflags : (Shape.map (c.featureFlags.items.map fun e ↦ (e.1, Shape.bool e.2))).fill store
      = .map ((c.fill store).featureFlags.items.map fun e ↦ (e.1, .bool e.2)) := by
    have hitems : (c.fill store).featureFlags.items
        = c.featureFlags.items.map fun e ↦ (e.1, e.2.fill store) := rfl
    rw [hitems, Shape.fill, Shape.fillEntries_eq_map, List.map_map, List.map_map]
    rfl
  rw [exportData, exportShape, Shape.fillEntries, fillEntries_append, fillEntries_append,
    fillEntries_append, fill_sectionShape, fill_sectionShape, fill_sectionShape, fill_sectionShape,
    hbackends, hregistries, hflags, Shape.fill, Leaf.fill_map]
  rfl

/-! ## When two exports are equal -/

theorem map_fst_fillEntries (store : String → String) (d : List (Key O × Shape O)) :
    (Shape.fillEntries store d).map Prod.fst = d.map Prod.fst := by
  rw [Shape.fillEntries_eq_map, List.map_map]
  rfl

theorem map_fst_replaceEntries (text : String) (d : List (Key O × Yaml O)) :
    (replaceEntries text d).map Prod.fst = d.map Prod.fst := by
  induction d with
  | nil => rfl
  | cons e d ih => rw [replaceEntries, List.map_cons, List.map_cons, ih]

theorem filter_eq_of_keys {l : List (α × β)} (hl : (l.map Prod.fst).Nodup) {p q : α × β → Bool}
    (h : (l.filter p).map Prod.fst = (l.filter q).map Prod.fst) : l.filter p = l.filter q := by
  have hkeep : ∀ {r r' : α × β → Bool}, (l.filter r).map Prod.fst = (l.filter r').map Prod.fst →
      ∀ e ∈ l, r e = true → r' e = true := by
    intro r r' hkeys e he hr
    have hkey : e.1 ∈ (l.filter r').map Prod.fst :=
      hkeys ▸ List.mem_map_of_mem (List.mem_filter.mpr ⟨he, hr⟩)
    obtain ⟨e', he', hfst⟩ := List.mem_map.mp hkey
    obtain ⟨hmem, hr'⟩ := List.mem_filter.mp he'
    rwa [← List.inj_on_of_nodup_map hl hmem he hfst]
  refine List.filter_congr fun e he ↦ ?_
  rw [Bool.eq_iff_iff]
  exact ⟨hkeep h e he, hkeep h.symm e he⟩

theorem exists_backends_section (hsection : "backends" ∈ exportFilter.entityTypes) (text : String)
    (store : String → String) (kept : List (Key O × List (String × Shape O))) :
    ∃ version rest, replaceEntries text (Shape.fillEntries store (c.exportShape exportFilter kept))
      = version :: (.str "backends", .map (replaceEntries text (Shape.fillEntries store
          (kept.map fun e ↦ (e.1, fieldsShape e.2))))) :: rest := by
  rw [exportShape, sectionShape, if_pos hsection]
  exact ⟨_, _, rfl⟩

theorem kept_eq_of_export_eq (hsection : "backends" ∈ exportFilter.entityTypes)
    (h : replaceEntries text (exportData (c.fill s) exportFilter)
      = replaceEntries text (exportData (c.fill t) exportFilter)) :
    c.kept exportFilter s = c.kept exportFilter t := by
  have hkeys : ∀ store (kept : List (Key O × List (String × Shape O))),
      (replaceEntries text (Shape.fillEntries store
        (kept.map fun e ↦ (e.1, fieldsShape e.2)))).map Prod.fst = kept.map Prod.fst := by
    intro store kept
    rw [map_fst_replaceEntries, map_fst_fillEntries, List.map_map]
    rfl
  rw [exportData_fill, exportData_fill] at h
  obtain ⟨version, rest, hs⟩ :=
    exists_backends_section hsection text s (c.kept exportFilter s)
  obtain ⟨version', rest', ht⟩ :=
    exists_backends_section hsection text t (c.kept exportFilter t)
  rw [hs, ht] at h
  have hbackends := Yaml.map.inj (Prod.mk.inj (List.cons.inj (List.cons.inj h).2).1).2
  refine filter_eq_of_keys c.backends.nodup_keys ?_
  have hsame := congrArg (List.map Prod.fst) hbackends
  rwa [hkeys, hkeys] at hsame

theorem exportShape_congr {kept kept' : List (Key O × List (String × Shape O))}
    (h : "backends" ∈ exportFilter.entityTypes → kept = kept') :
    c.exportShape exportFilter kept = c.exportShape exportFilter kept' := by
  by_cases hsection : "backends" ∈ exportFilter.entityTypes
  · rw [h hsection]
  · have hnone : ∀ content : Shape O, sectionShape exportFilter "backends" content = [] :=
      fun _ ↦ if_neg hsection
    rw [exportShape, exportShape, hnone, hnone]

/-- What an export of one shape lets one tell about two stores. -/
structure Hides (c : ConfigShape O) (exportFilter : ExportFilter) (text : String)
    (s t : String → String) : Prop where
  kept : "backends" ∈ exportFilter.entityTypes → c.kept exportFilter s = c.kept exportFilter t
  places : ShowSame text s t
    (Shape.placesEntries (c.exportShape exportFilter (c.kept exportFilter s)))

theorem replaceEntries_exportData_eq_iff :
    replaceEntries text (exportData (c.fill s) exportFilter)
      = replaceEntries text (exportData (c.fill t) exportFilter) ↔
      c.Hides exportFilter text s t := by
  have hkept (h : "backends" ∈ exportFilter.entityTypes →
      c.kept exportFilter s = c.kept exportFilter t) :
      (replaceEntries text (exportData (c.fill s) exportFilter)
        = replaceEntries text (exportData (c.fill t) exportFilter) ↔ ShowSame text s t
          (Shape.placesEntries (c.exportShape exportFilter (c.kept exportFilter s)))) := by
    rw [exportData_fill, exportData_fill, ← exportShape_congr h, replaceEntries_fill_eq_iff]
  constructor
  · intro h
    have hsame := fun hsection ↦ kept_eq_of_export_eq hsection h
    exact ⟨hsame, (hkept hsame).mp h⟩
  · exact fun h ↦ (hkept h.kept).mpr h.places

end ConfigShape

/-- What is put in place of a reference. -/
def SecretHandling.replacement : SecretHandling → String
  | mask => "***"
  | strip | preserve => ""

theorem data_exportConfig (config : Config O) (exportFilter : ExportFilter)
    {handling : SecretHandling} (h : handling ≠ .preserve) :
    (exportConfig config exportFilter handling).data
      = replaceEntries handling.replacement (exportData config exportFilter) := by
  rcases handling with _ | _ | _
  · rfl
  · rfl
  · exact absurd rfl h

/-- At a place where validation leaves a text as it is, only equal secrets show the same, unless
they look like references. -/
theorem shownAlike_text_iff (text : String) {secret secret' : String}
    (h : isReference secret = false) (h' : isReference secret' = false) :
    ShownAlike text (.key (.str secret) : Yaml O) (.key (.str secret')) ↔ secret = secret' := by
  rw [← replaceSecrets_key_eq_iff, replaceSecrets, replaceSecrets, h, h',
    if_neg Bool.false_ne_true, if_neg Bool.false_ne_true, Yaml.key.injEq, Key.str.injEq]

end

end Export

/-! ## Two runs of the loader -/

namespace Loader

variable {O : Type} {V : Type*} [PyObject O] {P : Type}

/-- `load_argus_config`, with `ArgusConfig.model_validate`. -/
def loadArgusConfig (host : Host O V)
    (modelValidate : Value O → Except (List (List String × String)) (Export.Config P))
    (path : String) (file : ConfigFile) : Except Raised (Export.Config P) :=
  if file.present = false then
    .error (configurationError ("Configuration file does not exist: " ++ path))
  else
    (readConfigFile host path file).bind fun rawData ↦
      (expandEnvVars host rawData).bind fun rawData ↦
        (maybeResolveSecrets host rawData).bind fun rawData ↦
          (modelValidate rawData).mapError fun errors ↦ configurationError
            ("Configuration validation failed (" ++ toString errors.length ++ " error(s)):\n" ++
              formatValidationErrors errors)

/-- The provider that the configuration names has a store, and the store has a secret for every
reference. -/
structure Resolves (host : Host O V) (rawData : Value O) (store : String → Option String) :
    Prop where
  get : ∀ secrets provider, secretsToResolve rawData = some secrets →
    createProvider (providerType secrets) (secrets.get? "path") = .ok provider →
    ∀ name, provider.get host name = .ok (store name)
  all : ∀ name ∈ findSecretReferences rawData, store name ≠ none

def secretOf (store : String → Option String) (name : String) : String := (store name).getD ""

/-- Validation takes the same branches for the secrets of both stores: what comes out has one
shape. -/
structure SameBranches
    (modelValidate : Value O → Except (List (List String × String)) (Export.Config P))
    (rawData : Value O) (shape : Export.ConfigShape P) (s t : String → Option String) : Prop where
  first : modelValidate (rawData.mapStr (resolved s)) = .ok (shape.fill (secretOf s))
  second : modelValidate (rawData.mapStr (resolved t)) = .ok (shape.fill (secretOf t))

variable {host : Host O V} {path : String} {file : ConfigFile} {rawData : Value O}
  {modelValidate : Value O → Except (List (List String × String)) (Export.Config P)}
  {c : Export.Config P} {s : String → Option String}

theorem eq_of_maybeResolveSecrets (hs : Resolves host rawData s) {data : Value O}
    (h : maybeResolveSecrets host rawData = .ok data) :
    data = if secretsToResolve rawData = none then rawData else rawData.mapStr (resolved s) := by
  rw [maybeResolveSecrets] at h
  rcases hsecrets : secretsToResolve rawData with _ | secrets
  · rw [hsecrets] at h
    rw [if_pos rfl]
    exact (Except.ok.inj h).symm
  · rw [hsecrets] at h
    obtain ⟨provider, hprovider, h⟩ := bind_eq_ok_iff.mp h
    dsimp only at h
    rw [if_neg (by simp)]
    rcases hwalk : Value.walk (secretWalker host provider
      ((secrets.get? "strict").any Value.truthy)) "" 0 rawData with e | data'
    · rw [hwalk] at h
      exact absurd h (by simp)
    · rw [hwalk] at h
      rw [← Except.ok.inj h]
      exact eq_mapStr_of_resolveSecrets (hs.get secrets provider hsecrets hprovider) hwalk

theorem modelValidate_of_load
    (hdata : (readConfigFile host path file).bind (expandEnvVars host) = .ok rawData)
    (hs : Resolves host rawData s)
    (hload : loadArgusConfig host modelValidate path file = .ok c) :
    modelValidate (if secretsToResolve rawData = none then rawData
      else rawData.mapStr (resolved s)) = .ok c := by
  obtain ⟨read, hread, hexpand⟩ := bind_eq_ok_iff.mp hdata
  rw [loadArgusConfig] at hload
  split at hload
  · exact absurd hload (by simp)
  rw [hread, Except.bind, hexpand, Except.bind] at hload
  obtain ⟨data, hresolve, hvalidate⟩ := bind_eq_ok_iff.mp hload
  rw [← eq_of_maybeResolveSecrets hs hresolve]
  rcases hmodel : modelValidate data with errors | c'
  · rw [hmodel] at hvalidate
    exact absurd hvalidate (by simp [Except.mapError])
  · rw [hmodel, Except.mapError] at hvalidate
    exact congrArg Except.ok (Except.ok.inj hvalidate)

end Loader

namespace Export

open Loader

/-- **When an export tells nothing about the secrets.** For every configuration file, and two stores
that resolve all references in it and for which validation takes the same branches: the exports with
references masked, or taken out, are equal exactly if secrets are not resolved at all, or the same
backends pass the filter and every place for a secret in the sections exported shows the same. -/
theorem exports_eq_iff {O : Type} {V : Type*} [PyObject O] {P : Type} {host host' : Host O V}
    {modelValidate : Value O → Except (List (List String × String)) (Config P)} {path : String}
    {file : ConfigFile} {rawData : Value O} {shape : ConfigShape P} {c c' : Config P}
    {s t : String → Option String}
    (hdata : (readConfigFile host path file).bind (expandEnvVars host) = .ok rawData)
    (hdata' : (readConfigFile host' path file).bind (expandEnvVars host') = .ok rawData)
    (hs : Resolves host rawData s) (ht : Resolves host' rawData t)
    (hload : loadArgusConfig host modelValidate path file = .ok c)
    (hload' : loadArgusConfig host' modelValidate path file = .ok c')
    (hbranches : SameBranches modelValidate rawData shape s t) (exportFilter : ExportFilter)
    {handling : SecretHandling} (hhandling : handling ≠ .preserve) :
    (exportConfig c exportFilter handling).data = (exportConfig c' exportFilter handling).data ↔
      secretsToResolve rawData = none ∨
        shape.Hides exportFilter handling.replacement (secretOf s) (secretOf t) := by
  have hmodel := modelValidate_of_load hdata hs hload
  have hmodel' := modelValidate_of_load hdata' ht hload'
  by_cases hnone : secretsToResolve rawData = none
  · rw [if_pos hnone] at hmodel hmodel'
    rw [hmodel, Except.ok.injEq] at hmodel'
    exact iff_of_true (by rw [hmodel']) (.inl hnone)
  · rw [if_neg hnone, hbranches.first, Except.ok.injEq] at hmodel
    rw [if_neg hnone, hbranches.second, Except.ok.injEq] at hmodel'
    rw [or_iff_right hnone, ← ConfigShape.replaceEntries_exportData_eq_iff,
      data_exportConfig c exportFilter hhandling, data_exportConfig c' exportFilter hhandling,
      hmodel, hmodel']

/-! ## A registry -/

/-- A registry whose address is a secret in the keyring. -/
def hubData : Value Empty := .dict
  [("registries", .list [.dict [("name", .str "hub"), ("url", .str "secret:hub")]]),
    ("secrets", .dict [("enabled", .bool true), ("provider", .str "keyring")])]

/-- The address has a key of an API in it. -/
def hubStore (key name : String) : Option String :=
  if name = "hub" then some ("https://hub.example/" ++ key) else none

def hubHost (key : String) : Host Empty Unit where
  parseYaml := fun _ ↦ .ok hubData
  environ := fun _ ↦ none
  isWord := Char.isAlphanum
  upper := fun s ↦ s.map Char.toUpper
  fileSecret := fun _ _ ↦ .ok none
  keyringSecret := fun name ↦ .ok (hubStore key name)
  lowerStrip := fun s ↦ s.map Char.toLower
  tagError := Empty.elim
  modelValidate := fun _ ↦ .ok .empty
  truthy := fun _ ↦ false

/-- The configuration with that registry, and else the defaults; a `none` is `None`. -/
def hubShape : ConfigShape (Option ℤ) where
  version := .fixed "1"
  backends := .empty
  registries := [(.fixed "hub",
    [("created_by", .key (.fixed (.other none))), ("updated_by", .key (.fixed (.other none))),
      ("created_via", .key (.fixed (.other none))), ("updated_via", .key (.fixed (.other none))),
      ("import_batch_id", .key (.fixed (.other none))),
      ("metadata_version", .key (.fixed (.other none))), ("url", .key (.secret "hub" .str)),
      ("type", .key (.fixed (.str "auto"))), ("priority", .key (.fixed (.other (some 100)))),
      ("auth", .key (.fixed (.str "none"))), ("api_key_env", .key (.fixed (.other none))),
      ("token_env", .key (.fixed (.other none)))])]
  featureFlags := .empty
  plugins := .map [(.str "enabled", .bool (.fixed true)), (.str "entries", .list [])]

def hubValidate : Value Empty → Except (List (List String × String)) (Config (Option ℤ))
  | .dict [("registries", .list [.dict [("name", .str "hub"), ("url", .str address)]]), _] =>
    match ConfigSchema.url address with
    | some address => .ok (hubShape.fill fun _ ↦ address)
    | none => .error [(["registries", "0", "url"], "Value error")]
  | _ => .error [(["registries"], "Input should be a valid list")]

def hubConfig (key : String) : Config (Option ℤ) := hubShape.fill (secretOf (hubStore key))

theorem resolves_hub (key : String) : Resolves (hubHost key) hubData (hubStore key) where
  get secrets provider hsecrets hprovider name := by
    obtain rfl : Value.dict [("enabled", .bool true), ("provider", .str "keyring")] = secrets :=
      Option.some.inj hsecrets
    obtain rfl : SecretProvider.keyring = provider := Except.ok.inj hprovider
    rfl
  all name hname := by
    have hrefs : findSecretReferences hubData = ["hub"] := by rfl
    rw [hrefs, List.mem_singleton] at hname
    rw [hname]
    exact Option.some_ne_none _

theorem sameBranches_hub : SameBranches hubValidate hubData hubShape (hubStore "k1")
    (hubStore "k2") := ⟨rfl, rfl⟩

def configFile : ConfigFile := ⟨true, .ok ""⟩

theorem hub_data (key : String) : (readConfigFile (hubHost key) "config.yaml" configFile).bind
    (expandEnvVars (hubHost key)) = .ok hubData := rfl

theorem hub_load : loadArgusConfig (hubHost "k1") hubValidate "config.yaml" configFile
      = .ok (hubConfig "k1") ∧
    loadArgusConfig (hubHost "k2") hubValidate "config.yaml" configFile = .ok (hubConfig "k2") :=
  ⟨rfl, rfl⟩

theorem exports_eq_iff_featureFlags :
    (exportConfig (hubConfig "k1") ⟨["feature_flags"], none, none, none⟩ .mask).data
      = (exportConfig (hubConfig "k2") ⟨["feature_flags"], none, none, none⟩ .mask).data := by
  refine (exports_eq_iff (hub_data "k1") (hub_data "k2") (resolves_hub "k1") (resolves_hub "k2")
    hub_load.1 hub_load.2 sameBranches_hub ⟨["feature_flags"], none, none, none⟩
    SecretHandling.noConfusion).mpr (.inr ⟨?_, ?_⟩)
  · exact fun hsection ↦ absurd hsection (by decide)
  · exact fun place hplace ↦ absurd hplace List.not_mem_nil

/-- With the default filter, the address of the registry is exported as it is. -/
theorem not_forall_exports_eq : ¬ ∀ (host host' : Host Empty Unit)
    (modelValidate : Value Empty → Except (List (List String × String)) (Config (Option ℤ)))
    (path : String) (file : ConfigFile) (rawData : Value Empty) (shape : ConfigShape (Option ℤ))
    (c c' : Config (Option ℤ)) (s t : String → Option String),
    (readConfigFile host path file).bind (expandEnvVars host) = .ok rawData →
    (readConfigFile host' path file).bind (expandEnvVars host') = .ok rawData →
    Resolves host rawData s → Resolves host' rawData t →
    loadArgusConfig host modelValidate path file = .ok c →
    loadArgusConfig host' modelValidate path file = .ok c' →
    SameBranches modelValidate rawData shape s t →
    (exportConfig c .default .mask).data = (exportConfig c' .default .mask).data := by
  intro h
  have hsame := h _ _ hubValidate _ _ hubData hubShape _ _ _ _ (hub_data "k1") (hub_data "k2")
    (resolves_hub "k1") (resolves_hub "k2") hub_load.1 hub_load.2 sameBranches_hub
  have hhides := ConfigShape.replaceEntries_exportData_eq_iff.mp hsame
  have hplaces : Shape.placesEntries (hubShape.exportShape .default
      (hubShape.kept .default (secretOf (hubStore "k1"))))
      = [("hub", fun v ↦ .key (.str v))] := rfl
  have hurl := hhides.places ("hub", fun v ↦ .key (.str v)) (hplaces ▸ List.mem_singleton_self _)
  have haddress := (shownAlike_text_iff "***" (by decide) (by decide)).mp hurl
  exact absurd haddress (by decide)

end Export

end ArgusMcp
