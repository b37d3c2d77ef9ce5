import ArgusMcp.Bridge.Policy
import ArgusMcp.Library.Run
import Mathlib.Data.Fintype.Basic
import Mathlib.Logic.Function.Basic

/-!
# The capability registry

The registry keeps three lists of advertised items and one route map, and fills them from the
listings of the backends. Everything between two `list_*` awaits runs without interruption, so the
model has two layers: the *body* of one discovery task, a function on the route map and one list,
and the *system*, a step function whose labels are the calls and the completions of tasks.

## List objects

`discover_and_register` builds new lists and swaps them in at the end, `remove_backend` rebinds the
lists to filtered copies, and a suspended task goes on writing to the list object it captured.
Identity therefore matters. The three lists are always created and rebound together, so an object
is named by the *generation* it was created in and its type, and `live` is the generation the
registry's own attributes point to. The route map, in contrast, is looked up through the registry
at every access, so its value is enough.

## Ghost data

An entry of a list remembers the server whose task appended it and the name it has there, and the
state remembers for which generation the current route map was started. No definition branches on
any of these.
-/

namespace ArgusMcp

/-! ## Listings -/

/-- The three capability types. -/
inductive CapType where
  | tools
  | resources
  | prompts
  deriving DecidableEq, Repr

instance : Fintype CapType where
  elems := {.tools, .resources, .prompts}
  complete := by
    intro capType
    cases capType <;> decide

/-- A capability object as a backend lists it. Only resources have a `uri`. -/
structure Cap where
  name : String
  uri : String
  description : Option String
  deriving DecidableEq, Repr

/-- An element of a listing: an object of one of the three MCP classes, or anything else. -/
inductive RawItem where
  | item (cls : CapType) (cap : Cap)
  | foreign
  deriving DecidableEq, Repr

/-- What a `list_*` method returned: an object with the list as an attribute, a bare list, `None`,
or something else. -/
inductive ListResult where
  | attr (items : List RawItem)
  | bare (items : List RawItem)
  | null
  | unknown
  deriving DecidableEq, Repr

/-- The three ways in which awaiting a `list_*` method fails. -/
inductive ListError where
  | timeout
  | mcpError
  | other
  deriving DecidableEq, Repr

/-- The outcome of one `list_*` await. -/
abbrev ListReply := Except ListError ListResult

/-- The items of a listing; an unparsable result counts as none. -/
def parseListResult : ListResult → List RawItem
  | .attr items => items
  | .bare items => items
  | .null => []
  | .unknown => []

def ListReply.items : ListReply → List RawItem
  | .ok r => parseListResult r
  | .error _ => []

/-! ## The body of a discovery task -/

structure RegistryConfig where
  strategy : ConflictStrategy
  filters : Dict String (Dict CapType CapabilityFilter)
  renameMaps : Dict String RenameMap

/-- What it is constructed with when nothing is configured. -/
def RegistryConfig.default : RegistryConfig := ⟨.firstWinsStrategy, Dict.empty, Dict.empty⟩

/-- The target of an exposed name: the server and the name the capability has there. -/
abbrev Route := String × String

/-- An advertised item, with the server whose listing supplied it and its name in that listing. -/
structure Entry where
  cap : Cap
  supplier : String
  orig : String
  deriving DecidableEq, Repr

/-- The exposed name of an advertised item. -/
abbrev Entry.name (e : Entry) : String := e.cap.name

/-- What a discovery task writes to: the route map, and the one list it was given. -/
structure Tables where
  routeMap : Dict String Route
  aggList : List Entry

section Body

variable (cfg : RegistryConfig) (svrName : String) (capType : CapType)

/-- The server's filter for this type, if there is one, lets the name through. -/
def passesFilter (name : String) : Bool :=
  match (cfg.filters.get? svrName).bind fun svrFilters ↦ svrFilters.get? capType with
  | some capFilter => capFilter.isAllowed name
  | none => true

/-- Filter and rename rules: the original name with the updated item, or nothing. Rename maps act
on tools only. -/
def applyFilterAndRename (capItem : Cap) : Option (String × Cap) :=
  if passesFilter cfg svrName capType capItem.name = false then none
  else match cfg.renameMaps.get? svrName with
    | some renameMap =>
      if capType = .tools then
        some (capItem.name,
          { capItem with
            name := renameMap.getNewName capItem.name
            description := (renameMap.getDescriptionOverride capItem.name).or
              capItem.description })
      else some (capItem.name, capItem)
    | none => some (capItem.name, capItem)

/-- Name collisions. The result carries the tables, which a replacement changes, and the final
exposed name, or none to skip the item. -/
def resolveConflict (expCapName : String) (t : Tables) :
    Except CapabilityConflictError (Tables × Option String) :=
  match t.routeMap.get? expCapName with
  | none => .ok (t, some expCapName)
  | some (existSvrName, _) =>
    if existSvrName = svrName then .ok (t, none)
    else match cfg.strategy.handleConflict expCapName existSvrName svrName with
      | .error e => .error e
      | .ok .skip => .ok (t, none)
      | .ok .replace =>
        -- only the list of the newcomer's own type is searched for the loser
        .ok (⟨t.routeMap.del expCapName, t.aggList.filter fun e ↦ e.name ≠ expCapName⟩,
          some expCapName)
      | .ok (.rename newName) =>
        if (t.routeMap.get? newName).isSome then .ok (t, none) else .ok (t, some newName)
      | .ok .error => .ok (t, none)

/-- One iteration of the registration loop. -/
def registerCap (t : Tables) : RawItem → Except CapabilityConflictError Tables
  | .foreign => .ok t
  | .item cls capItem =>
    if cls ≠ capType then .ok t
    else if capItem.name = "" then .ok t
    else match applyFilterAndRename cfg svrName capType capItem with
      | none => .ok t
      | some (origName, capItem) =>
        match resolveConflict cfg svrName (cfg.strategy.transformName svrName capItem.name) t with
        | .error e => .error e
        | .ok (t, none) => .ok t
        | .ok (t, some resolvedName) =>
          .ok ⟨t.routeMap.set resolvedName (svrName, origName),
            t.aggList ++ [⟨{ capItem with name := resolvedName }, svrName, origName⟩]⟩

/-- The registration loop. An exception of the strategy ends it, and what was written stays. -/
def registerAll : Tables → List RawItem → Tables × Option CapabilityConflictError
  | t, [] => (t, none)
  | t, raw :: raws =>
    match registerCap cfg svrName capType t raw with
    | .ok t' => registerAll t' raws
    | .error e => (t, some e)

/-- The body of a discovery task from its `list_*` await on, with the exception that leaves it.
Every handler logs and none raises again. -/
def discoverCapsByType (reply : ListReply) (t : Tables) :
    Tables × Except CapabilityConflictError Unit :=
  match reply with
  | .error .timeout => (t, .ok ())
  | .error .mcpError => (t, .ok ())
  | .error .other => (t, .ok ())
  | .ok listResult =>
    match registerAll cfg svrName capType t (parseListResult listResult) with
    | (t', none) => (t', .ok ())
    | (t', some _) => (t', .ok ())

end Body

/-! ## Offers

What a listed item amounts to once it has a name, passed its filter and was renamed. The loop body
factors through it, and every later argument is about offers. -/

/-- An item that asks to be registered. -/
structure Offer where
  svr : String
  capType : CapType
  /-- The name the backend gave the item. -/
  orig : String
  /-- The item, renamed. -/
  cap : Cap
  /-- The name it is first offered under. -/
  exp : String
  deriving DecidableEq, Repr

/-- The offer a listed item makes, if any. -/
def offer? (cfg : RegistryConfig) (svrName : String) (capType : CapType) : RawItem → Option Offer
  | .foreign => none
  | .item cls capItem =>
    if cls ≠ capType ∨ capItem.name = "" then none
    else (applyFilterAndRename cfg svrName capType capItem).map fun r ↦
      ⟨svrName, capType, r.1, r.2, cfg.strategy.transformName svrName r.2.name⟩

/-- The offers of a listing, in order. -/
def offersOf (cfg : RegistryConfig) (svrName : String) (capType : CapType) (raws : List RawItem) :
    List Offer :=
  raws.filterMap (offer? cfg svrName capType)

/-- The item after the rename rules of its server. -/
def renameCap (cfg : RegistryConfig) (svrName : String) (capType : CapType) (capItem : Cap) :
    Cap :=
  match cfg.renameMaps.get? svrName with
  | some renameMap =>
    if capType = .tools then
      { capItem with
        name := renameMap.getNewName capItem.name
        description := (renameMap.getDescriptionOverride capItem.name).or capItem.description }
    else capItem
  | none => capItem

/-- The name an item has after the rename rules of its server. -/
def newName (cfg : RegistryConfig) (svrName : String) (capType : CapType) (name : String) :
    String :=
  match cfg.renameMaps.get? svrName with
  | some renameMap => if capType = .tools then renameMap.getNewName name else name
  | none => name

/-- The offer of a named item that passes its filter. -/
def mkOffer (cfg : RegistryConfig) (svrName : String) (capType : CapType) (capItem : Cap) :
    Offer where
  svr := svrName
  capType := capType
  orig := capItem.name
  cap := renameCap cfg svrName capType capItem
  exp := cfg.strategy.transformName svrName (newName cfg svrName capType capItem.name)

theorem renameCap_name (cfg : RegistryConfig) (svrName : String) (capType : CapType)
    (capItem : Cap) :
    (renameCap cfg svrName capType capItem).name = newName cfg svrName capType capItem.name := by
  rw [renameCap, newName]
  cases cfg.renameMaps.get? svrName with
  | none => rfl
  | some renameMap => by_cases h : capType = .tools <;> simp [h]

theorem uri_renameCap (cfg : RegistryConfig) (svrName : String) (capType : CapType)
    (capItem : Cap) : (renameCap cfg svrName capType capItem).uri = capItem.uri := by
  rw [renameCap]
  cases cfg.renameMaps.get? svrName with
  | none => rfl
  | some renameMap => by_cases h : capType = .tools <;> simp [h]

theorem applyFilterAndRename_eq (cfg : RegistryConfig) (svrName : String) (capType : CapType)
    (capItem : Cap) :
    applyFilterAndRename cfg svrName capType capItem
      = if passesFilter cfg svrName capType capItem.name = false then none
        else some (capItem.name, renameCap cfg svrName capType capItem) := by
  rw [applyFilterAndRename, renameCap]
  cases cfg.renameMaps.get? svrName with
  | none => rfl
  | some renameMap => by_cases h : capType = .tools <;> simp [h]

/-- **The offers of a listing** are those of its named items that pass the filter. -/
theorem mem_offersOf_iff {cfg : RegistryConfig} {svrName : String} {capType : CapType}
    {raws : List RawItem} {off : Offer} :
    off ∈ offersOf cfg svrName capType raws ↔
      ∃ capItem, RawItem.item capType capItem ∈ raws ∧ capItem.name ≠ "" ∧
        passesFilter cfg svrName capType capItem.name = true ∧
        off = mkOffer cfg svrName capType capItem := by
  have hmk : ∀ capItem, Option.map (fun r : String × Cap ↦ (⟨svrName, capType, r.1, r.2,
        cfg.strategy.transformName svrName r.2.name⟩ : Offer))
      (some (capItem.name, renameCap cfg svrName capType capItem))
        = some (mkOffer cfg svrName capType capItem) := by
    intro capItem
    rw [Option.map_some, mkOffer, renameCap_name]
  rw [offersOf, List.mem_filterMap]
  constructor
  · rintro ⟨raw, hmem, hraw⟩
    cases raw with
    | foreign => simp [offer?] at hraw
    | item cls capItem =>
      rw [offer?, applyFilterAndRename_eq] at hraw
      by_cases hskip : cls ≠ capType ∨ capItem.name = ""
      · rw [if_pos hskip] at hraw
        exact absurd hraw (by simp)
      · rw [if_neg hskip] at hraw
        rw [not_or, not_not] at hskip
        obtain ⟨rfl, hname⟩ := hskip
        cases hpass : passesFilter cfg svrName cls capItem.name with
        | false =>
          rw [hpass, if_pos rfl] at hraw
          exact absurd hraw (by simp)
        | true =>
          rw [hpass, if_neg (by simp), hmk] at hraw
          exact ⟨capItem, hmem, hname, hpass, (Option.some.inj hraw).symm⟩
  · rintro ⟨capItem, hmem, hname, hpass, rfl⟩
    refine ⟨_, hmem, ?_⟩
    rw [offer?, if_neg (by simp [hname]), applyFilterAndRename_eq, hpass, if_neg (by simp), hmk]

theorem svr_of_mem_offersOf {cfg : RegistryConfig} {svrName : String} {capType : CapType}
    {raws : List RawItem} {off : Offer} (h : off ∈ offersOf cfg svrName capType raws) :
    off.svr = svrName := by
  obtain ⟨capItem, -, -, -, rfl⟩ := mem_offersOf_iff.mp h
  rfl

theorem capType_of_mem_offersOf {cfg : RegistryConfig} {svrName : String} {capType : CapType}
    {raws : List RawItem} {off : Offer} (h : off ∈ offersOf cfg svrName capType raws) :
    off.capType = capType := by
  obtain ⟨capItem, -, -, -, rfl⟩ := mem_offersOf_iff.mp h
  rfl

namespace Tables

/-- Registers an offer under `key`. -/
def place (t : Tables) (key : String) (off : Offer) : Tables :=
  ⟨t.routeMap.set key (off.svr, off.orig),
    t.aggList ++ [⟨{ off.cap with name := key }, off.svr, off.orig⟩]⟩

/-- Takes `key` away from its holder, as far as the one list goes. -/
def evict (t : Tables) (key : String) : Tables :=
  ⟨t.routeMap.del key, t.aggList.filter fun e ↦ e.name ≠ key⟩

end Tables

def enroll (cfg : RegistryConfig) (t : Tables) (off : Offer) :
    Except CapabilityConflictError Tables :=
  match resolveConflict cfg off.svr off.exp t with
  | .error e => .error e
  | .ok (t', none) => .ok t'
  | .ok (t', some key) => .ok (t'.place key off)

/-- Registers offers until the strategy raises. -/
def enrollAll (cfg : RegistryConfig) : Tables → List Offer → Tables × Option CapabilityConflictError
  | t, [] => (t, none)
  | t, off :: offs =>
    match enroll cfg t off with
    | .ok t' => enrollAll cfg t' offs
    | .error e => (t, some e)

theorem registerCap_eq (cfg : RegistryConfig) (svrName : String) (capType : CapType) (t : Tables)
    (raw : RawItem) :
    registerCap cfg svrName capType t raw
      = match offer? cfg svrName capType raw with
        | none => .ok t
        | some off => enroll cfg t off := by
  cases raw with
  | foreign => rfl
  | item cls capItem =>
    rw [registerCap, offer?]
    by_cases hcls : cls = capType
    · by_cases hname : capItem.name = ""
      · rw [if_neg (not_not.mpr hcls), if_pos hname, if_pos (Or.inr hname)]
      · rw [if_neg (not_not.mpr hcls), if_neg hname, if_neg (by simp [hcls, hname])]
        cases applyFilterAndRename cfg svrName capType capItem with
        | none => rfl
        | some r => rfl
    · rw [if_pos hcls, if_pos (Or.inl hcls)]

/-- **The loop factors through offers.** -/
theorem registerAll_eq (cfg : RegistryConfig) (svrName : String) (capType : CapType)
    (raws : List RawItem) (t : Tables) :
    registerAll cfg svrName capType t raws
      = enrollAll cfg t (offersOf cfg svrName capType raws) := by
  induction raws generalizing t with
  | nil => rfl
  | cons raw raws ih =>
    rw [registerAll, registerCap_eq, offersOf, List.filterMap_cons]
    cases offer? cfg svrName capType raw with
    | none => exact ih t
    | some off =>
      dsimp only
      rw [enrollAll]
      cases enroll cfg t off with
      | error e => rfl
      | ok t' => exact ih t'

theorem discoverCapsByType_fst (cfg : RegistryConfig) (svrName : String) (capType : CapType)
    (reply : ListReply) (t : Tables) :
    (discoverCapsByType cfg svrName capType reply t).1
      = (enrollAll cfg t (offersOf cfg svrName capType reply.items)).1 := by
  rcases reply with (_ | _ | _) | r
  · rfl
  · rfl
  · rfl
  · rw [discoverCapsByType, registerAll_eq, ListReply.items]
    rcases enrollAll cfg t (offersOf cfg svrName capType (parseListResult r)) with ⟨t', _ | e⟩
    · rfl
    · rfl

theorem discoverCapsByType_snd (cfg : RegistryConfig) (svrName : String) (capType : CapType)
    (reply : ListReply) (t : Tables) :
    (discoverCapsByType cfg svrName capType reply t).2 = .ok () := by
  rcases reply with (_ | _ | _) | r
  · rfl
  · rfl
  · rfl
  · rw [discoverCapsByType]
    rcases registerAll cfg svrName capType t (parseListResult r) with ⟨t', _ | e⟩
    · rfl
    · rfl

/-! ## What registering one offer can do -/

/-- The strategy lets the offer take its name from another server. -/
def Replaces (strategy : ConflictStrategy) (routeMap : Dict String Route) (off : Offer) : Bool :=
  match routeMap.get? off.exp with
  | none => false
  | some (old, _) =>
    decide (old ≠ off.svr) &&
      match strategy.handleConflict off.exp old off.svr with
      | .ok .replace => true
      | _ => false

/-- The offer gets a name, its own or another one. -/
def Lands (strategy : ConflictStrategy) (routeMap : Dict String Route) (off : Offer) : Bool :=
  match routeMap.get? off.exp with
  | none => true
  | some (old, _) =>
    decide (old ≠ off.svr) &&
      match strategy.handleConflict off.exp old off.svr with
      | .ok .replace => true
      | .ok (.rename newName) => (routeMap.get? newName).isNone
      | _ => false

theorem replaces_iff {strategy : ConflictStrategy} {routeMap : Dict String Route} {off : Offer} :
    Replaces strategy routeMap off = true ↔
      ∃ old orig, routeMap.get? off.exp = some (old, orig) ∧ old ≠ off.svr ∧
        strategy.handleConflict off.exp old off.svr = .ok .replace := by
  rw [Replaces]
  cases hget : routeMap.get? off.exp with
  | none => simp
  | some r =>
    obtain ⟨old, orig⟩ := r
    rcases hact : strategy.handleConflict off.exp old off.svr with e | (_ | _ | _ | n)
    all_goals simp [hact]

/-- A key under which the strategy may expose an offer: the name it asks for, or what the strategy
makes of that name in a conflict. -/
def Offer.Exposes (strategy : ConflictStrategy) (off : Offer) (key : String) : Prop :=
  key = off.exp ∨ ∃ old, strategy.handleConflict off.exp old off.svr = .ok (.rename key)

/-- **Inversion.** Registering an offer changes nothing, or places it under a free key, or takes
its key from another server. -/
theorem enroll_cases {cfg : RegistryConfig} {t t' : Tables} {off : Offer}
    (h : enroll cfg t off = .ok t') :
    (t' = t ∧ Lands cfg.strategy t.routeMap off = false) ∨
    (∃ key, t.routeMap.get? key = none ∧ off.Exposes cfg.strategy key ∧
      Lands cfg.strategy t.routeMap off = true ∧ t' = t.place key off) ∨
    (Replaces cfg.strategy t.routeMap off = true ∧ t' = (t.evict off.exp).place off.exp off) := by
  rw [enroll, resolveConflict] at h
  cases hget : t.routeMap.get? off.exp with
  | none =>
    rw [hget] at h
    exact Or.inr (Or.inl ⟨off.exp, hget, Or.inl rfl, by simp [Lands, hget],
      (Except.ok.inj h).symm⟩)
  | some r =>
    obtain ⟨old, orig⟩ := r
    rw [hget] at h
    dsimp only at h
    by_cases hold : old = off.svr
    · rw [if_pos hold] at h
      exact Or.inl ⟨(Except.ok.inj h).symm, by simp [Lands, hget, hold]⟩
    · rw [if_neg hold] at h
      rcases hact : cfg.strategy.handleConflict off.exp old off.svr with e | (_ | _ | _ | newName)
      all_goals rw [hact] at h
      · exact absurd h (by simp)
      · exact Or.inl ⟨(Except.ok.inj h).symm, by simp [Lands, hget, hact]⟩
      · exact Or.inr (Or.inr ⟨replaces_iff.mpr ⟨old, orig, hget, hold, hact⟩,
          (Except.ok.inj h).symm⟩)
      · exact Or.inl ⟨(Except.ok.inj h).symm, by simp [Lands, hget, hact]⟩
      · dsimp only at h
        cases hnew : t.routeMap.get? newName with
        | none =>
          rw [hnew] at h
          exact Or.inr (Or.inl ⟨newName, hnew, Or.inr ⟨old, hact⟩,
            by simp [Lands, hget, hold, hact, hnew], (Except.ok.inj h).symm⟩)
        | some r =>
          rw [hnew] at h
          exact Or.inl ⟨(Except.ok.inj h).symm, by simp [Lands, hget, hact, hnew]⟩

theorem lands_of_replaces {strategy : ConflictStrategy} {routeMap : Dict String Route}
    {off : Offer} (h : Replaces strategy routeMap off = true) :
    Lands strategy routeMap off = true := by
  obtain ⟨old, orig, hget, hold, hact⟩ := replaces_iff.mp h
  simp [Lands, hget, hold, hact]

theorem enrollAll_fst_of_not_lands {cfg : RegistryConfig} {t : Tables} {offs : List Offer}
    (h : ∀ off ∈ offs, Lands cfg.strategy t.routeMap off = false) :
    (enrollAll cfg t offs).1 = t := by
  induction offs with
  | nil => rfl
  | cons off offs ih =>
    have hoff := h off List.mem_cons_self
    rw [enrollAll]
    cases henr : enroll cfg t off with
    | error e => rfl
    | ok t' =>
      rcases enroll_cases henr with ⟨rfl, -⟩ | ⟨key, -, -, hlands, -⟩ | ⟨hrep, -⟩
      · exact ih fun o ho ↦ h o (List.mem_cons_of_mem off ho)
      · exact absurd (hlands.symm.trans hoff) (by simp)
      · exact absurd ((lands_of_replaces hrep).symm.trans hoff) (by simp)

/-! ## What a task adds -/

/-- Routes and entries of `t'` were in `t`, or come from one of the offers. -/
structure GrowsBy (strategy : ConflictStrategy) (offs : List Offer) (t t' : Tables) : Prop where
  route : ∀ key r, t'.routeMap.get? key = some r → t.routeMap.get? key = some r ∨
    ∃ off ∈ offs, r = (off.svr, off.orig) ∧ off.Exposes strategy key
  entry : ∀ e ∈ t'.aggList, e ∈ t.aggList ∨
    ∃ off ∈ offs, e = ⟨{ off.cap with name := e.name }, off.svr, off.orig⟩ ∧
      off.Exposes strategy e.name

namespace GrowsBy

variable {strategy : ConflictStrategy} {offs : List Offer} {t t' : Tables}

theorem refl (strategy : ConflictStrategy) (offs : List Offer) (t : Tables) :
    GrowsBy strategy offs t t :=
  ⟨fun _ _ h ↦ Or.inl h, fun _ h ↦ Or.inl h⟩

theorem place (h : GrowsBy strategy offs t t') {off : Offer} (hoff : off ∈ offs) {key : String}
    (hexp : off.Exposes strategy key) : GrowsBy strategy offs t (t'.place key off) := by
  refine ⟨fun k r hr ↦ ?_, fun e he ↦ ?_⟩
  · rw [Tables.place, Dict.get?_set] at hr
    by_cases hk : k = key
    · rw [if_pos hk, Option.some.injEq] at hr
      exact Or.inr ⟨off, hoff, hr.symm, hk ▸ hexp⟩
    · rw [if_neg hk] at hr
      exact h.route k r hr
  · rw [Tables.place, List.mem_append, List.mem_singleton] at he
    rcases he with he | rfl
    · exact h.entry e he
    · exact Or.inr ⟨off, hoff, rfl, hexp⟩

theorem evict (h : GrowsBy strategy offs t t') (key : String) :
    GrowsBy strategy offs t (t'.evict key) := by
  refine ⟨fun k r hr ↦ ?_, fun e he ↦ h.entry e (List.mem_of_mem_filter he)⟩
  rw [Tables.evict, Dict.get?_del] at hr
  by_cases hk : k = key
  · rw [if_pos hk] at hr
    exact absurd hr (by simp)
  · rw [if_neg hk] at hr
    exact h.route k r hr

theorem enrollAll {cfg : RegistryConfig} :
    ∀ {offs' : List Offer} {t' : Tables}, (∀ off ∈ offs', off ∈ offs) →
      GrowsBy cfg.strategy offs t t' →
      GrowsBy cfg.strategy offs t (ArgusMcp.enrollAll cfg t' offs').1 := by
  intro offs'
  induction offs' with
  | nil => exact fun _ h ↦ h
  | cons off offs' ih =>
    intro t' hsub h
    have hoff : off ∈ offs := hsub off List.mem_cons_self
    have hsub' : ∀ o ∈ offs', o ∈ offs := fun o ho ↦ hsub o (List.mem_cons_of_mem off ho)
    rw [ArgusMcp.enrollAll]
    cases henr : enroll cfg t' off with
    | error e => exact h
    | ok t'' =>
      rcases enroll_cases henr with ⟨rfl, -⟩ | ⟨key, -, hexp, -, rfl⟩ | ⟨-, rfl⟩
      · exact ih hsub' h
      · exact ih hsub' (h.place hoff hexp)
      · exact ih hsub' ((h.evict off.exp).place hoff (Or.inl rfl))

end GrowsBy

/-! ## The system -/

/-- The call a discovery task belongs to. -/
inductive Origin where
  | gather
  | single
  deriving DecidableEq, Repr

/-- A discovery task suspended at its `list_*` await, with the list object it was given. -/
structure Task where
  svr : String
  capType : CapType
  gen : ℕ
  origin : Origin
  deriving DecidableEq, Repr

/-- The registry and the calls in progress on it. -/
structure RegistryState where
  /-- The contents of the list objects, by generation and type. -/
  lists : ℕ → CapType → List Entry
  /-- The generation the registry's own lists belong to. -/
  live : ℕ
  /-- The next unused generation. -/
  fresh : ℕ
  routeMap : Dict String Route
  /-- Ghost: the generation the current route map was started for. -/
  routesFor : ℕ
  /-- The suspended tasks. -/
  pending : List Task
  /-- The `discover_and_register` calls waiting for their tasks, by generation. -/
  gathers : List ℕ
  /-- What the finished tasks of a gathering call returned. -/
  results : ℕ → List (Except CapabilityConflictError Unit)

/-- An empty registry with nothing in progress. -/
def RegistryState.init : RegistryState where
  lists := fun _ _ ↦ []
  live := 0
  fresh := 1
  routeMap := Dict.empty
  routesFor := 0
  pending := []
  gathers := []
  results := fun _ ↦ []

/-- The calls on the registry and the two ways in which a suspended coroutine goes on. -/
inductive Step where
  /-- `discover_and_register` up to its first suspension; a session may be missing. -/
  | discoverAndRegister (sessions : Dict String Bool)
  /-- `discover_single_backend` up to its first suspension. -/
  | discoverSingleBackend (svrName : String)
  | removeBackend (svrName : String)
  /-- A `list_*` await ends, and the task runs to its end. -/
  | complete (task : Task) (reply : ListReply)
  /-- The gathered tasks of a `discover_and_register` are done, and it runs to its end. -/
  | publish (gen : ℕ)

namespace RegistryState

variable (st : RegistryState)

def advertisedLists : CapType → List Entry := st.lists st.live

def getAggregatedTools : List Entry := st.advertisedLists .tools

def getAggregatedResources : List Entry := st.advertisedLists .resources

def getAggregatedPrompts : List Entry := st.advertisedLists .prompts

/-- The backend server and the original name behind an exposed name. -/
def resolveCapability (expCapName : String) : Option Route := st.routeMap.get? expCapName

/-- Nothing is in progress. -/
def Quiescent : Prop := st.pending = [] ∧ st.gathers = []

instance : Decidable st.Quiescent := instDecidableAnd

/-- Writes one list object. -/
def setList (gen : ℕ) (capType : CapType) (l : List Entry) : ℕ → CapType → List Entry :=
  Function.update st.lists gen (Function.update (st.lists gen) capType l)

/-- Creates the three list objects of a new generation. -/
def newLists (ls : CapType → List Entry) : ℕ → CapType → List Entry :=
  Function.update st.lists st.fresh ls

/-- The tasks of a `discover_and_register` call. Servers without a valid session are left out. -/
def discoverTasks (gen : ℕ) (sessions : Dict String Bool) : List Task :=
  sessions.items.flatMap fun session ↦
    if session.2 then
      [⟨session.1, .tools, gen, .gather⟩, ⟨session.1, .resources, gen, .gather⟩,
        ⟨session.1, .prompts, gen, .gather⟩]
    else []

/-- The swap at the end of `discover_and_register`. The route map was swapped at the start. -/
def publish (gen : ℕ) : RegistryState :=
  { st with live := gen, gathers := st.gathers.erase gen }

/-- `discover_and_register` until it first waits. Gathering no task at all does not suspend. -/
def discoverAndRegister (sessions : Dict String Bool) : RegistryState :=
  let gen := st.fresh
  let started : RegistryState :=
    { st with
      lists := st.newLists fun _ ↦ []
      fresh := gen + 1
      routeMap := Dict.empty
      routesFor := gen }
  match discoverTasks gen sessions with
  | [] => started.publish gen
  | tasks => { started with pending := st.pending ++ tasks, gathers := gen :: st.gathers }

/-- `discover_single_backend` until it first waits. -/
def discoverSingleBackend (svrName : String) : RegistryState :=
  { st with pending := st.pending ++ [⟨svrName, .tools, st.live, .single⟩] }

/-- The keys routed to a server. -/
def keysToRemove (svrName : String) : List String :=
  (st.routeMap.items.filter fun e ↦ decide (e.2.1 = svrName)).map Prod.fst

/-- `remove_backend`: the routes of the server go, and the lists are rebound to copies without
the items of these names. -/
def removeBackend (svrName : String) : RegistryState :=
  let keys := st.keysToRemove svrName
  { st with
    routeMap := keys.foldl Dict.del st.routeMap
    lists := st.newLists fun capType ↦
      (st.advertisedLists capType).filter fun e ↦ decide (e.name ∉ keys)
    live := st.fresh
    fresh := st.fresh + 1
    routesFor := if st.routesFor = st.live then st.fresh else st.routesFor }

/-- The number of capabilities `remove_backend` returns. -/
def removedCount (svrName : String) : ℕ :=
  let after := st.removeBackend svrName
  (st.getAggregatedTools.length - after.getAggregatedTools.length)
    + (st.getAggregatedResources.length - after.getAggregatedResources.length)
    + (st.getAggregatedPrompts.length - after.getAggregatedPrompts.length)

/-- The order in which `discover_single_backend` asks for the types. -/
def nextType : CapType → Option CapType
  | .tools => some .resources
  | .resources => some .prompts
  | .prompts => none

/-- A task runs from its await to its end. A gathered task hands its outcome to the gathering
call; a single re-discovery goes on to the next type, with the list the registry has *then*. -/
def complete (cfg : RegistryConfig) (task : Task) (reply : ListReply) : RegistryState :=
  let done := discoverCapsByType cfg task.svr task.capType reply
    ⟨st.routeMap, st.lists task.gen task.capType⟩
  let written : RegistryState :=
    { st with
      routeMap := done.1.routeMap
      lists := st.setList task.gen task.capType done.1.aggList
      pending := st.pending.erase task }
  match task.origin, done.2, nextType task.capType with
  | .gather, outcome, _ =>
    { written with
      results := Function.update st.results task.gen (st.results task.gen ++ [outcome]) }
  | .single, .ok (), some capType =>
    { written with pending := written.pending ++ [⟨task.svr, capType, st.live, .single⟩] }
  | .single, _, _ => written

end RegistryState

/-- `asyncio.gather`: with `return_exceptions` the exceptions are results like any other, without
it the first one is raised. -/
def gather (returnExceptions : Bool) (results : List (Except CapabilityConflictError Unit)) :
    Except CapabilityConflictError (List (Except CapabilityConflictError Unit)) :=
  if returnExceptions then .ok results
  else results.mapM fun r ↦ r.map .ok

/-- What a `discover_and_register` call comes to once its tasks are done: it raises what gathering
them raises, and otherwise logs the exceptions among the results. -/
def discoverOutcome (results : List (Except CapabilityConflictError Unit)) :
    Except CapabilityConflictError (List CapabilityConflictError) :=
  (gather true results).map fun rs ↦ rs.filterMap fun
    | .ok () => none
    | .error e => some e

/-- One step of the registry. A task completes only while it is suspended, and a gathering call
goes on only when none of its tasks is. -/
def registryStep (cfg : RegistryConfig) (st : RegistryState) : Step → Option RegistryState
  | .discoverAndRegister sessions => some (st.discoverAndRegister sessions)
  | .discoverSingleBackend svrName => some (st.discoverSingleBackend svrName)
  | .removeBackend svrName => some (st.removeBackend svrName)
  | .complete task reply =>
    if task ∈ st.pending then some (st.complete cfg task reply) else none
  | .publish gen =>
    if gen ∈ st.gathers ∧ ∀ task ∈ st.pending, task.origin = .gather → task.gen ≠ gen then
      match discoverOutcome (st.results gen) with
      | .ok _ => some (st.publish gen)
      | .error _ => some { st with gathers := st.gathers.erase gen }
    else none

abbrev registryRun (cfg : RegistryConfig) : RegistryState → List Step → Option RegistryState :=
  Run.run (registryStep cfg)

/-- `discover_and_register` returns whatever its tasks did: gathering with `return_exceptions`
never raises. -/
theorem discoverOutcome_ne_error (results : List (Except CapabilityConflictError Unit))
    (e : CapabilityConflictError) : discoverOutcome results ≠ .error e := by
  rw [discoverOutcome, gather, if_pos rfl]
  exact fun h ↦ by simp [Except.map] at h

theorem registryStep_complete {cfg : RegistryConfig} {st st' : RegistryState} {task : Task}
    {reply : ListReply} :
    registryStep cfg st (.complete task reply) = some st' ↔
      task ∈ st.pending ∧ st' = st.complete cfg task reply := by
  rw [registryStep]
  by_cases hmem : task ∈ st.pending
  · rw [if_pos hmem, Option.some.injEq, eq_comm, and_iff_right hmem]
  · rw [if_neg hmem]
    exact iff_of_false (by simp) fun h ↦ hmem h.1

/-- A gathering call whose tasks are done publishes, because nothing it gathered is raised. -/
theorem registryStep_publish {cfg : RegistryConfig} {st st' : RegistryState} {gen : ℕ} :
    registryStep cfg st (.publish gen) = some st' ↔
      (gen ∈ st.gathers ∧ ∀ task ∈ st.pending, task.origin = .gather → task.gen ≠ gen) ∧
        st' = st.publish gen := by
  rw [registryStep]
  by_cases hready : gen ∈ st.gathers ∧ ∀ task ∈ st.pending, task.origin = .gather → task.gen ≠ gen
  · rw [if_pos hready, and_iff_right hready]
    cases hout : discoverOutcome (st.results gen) with
    | error e => exact absurd hout (discoverOutcome_ne_error _ e)
    | ok logged => rw [Option.some.injEq, eq_comm]
  · rw [if_neg hready]
    exact iff_of_false (by simp) fun h ↦ hready h.1

end ArgusMcp
