import ArgusMcp.Library.Value
import Mathlib.Logic.Function.Basic
import Mathlib.Tactic.Common

/-!
# The cache of the registry

`RegistryCache` keeps the entries that a registry has listed in a file, one for each URL. An entry
is made of a JSON object by `ServerEntry.from_dict`, which is tolerant, and written as another JSON
object by `_entry_to_dict`. Keys that are not known are kept beside the others.

What `from_dict` makes is normal: what was empty is as the default, and no known key is among those
that are kept (`normal_fromDict`). A normal entry comes back with its arguments and its categories
made lists (`fromValue_dictOf`). They are lists already if they were lists in the first object, but
`from_dict` keeps whatever is there (`storedAs_eq_self_iff`).

Numbers that are not integers are opaque. What a file holds is a JSON document, or what reading it
raises. A document that is nested too deep for `json.dump` is not written to its end, and what is in
the file then is no document.
-/

namespace ArgusMcp

namespace RegistryCache

variable {O : Type}

/-! ## Entries -/

inductive PyError where
  | typeError
  | attributeError
  | recursionError
  | valueError
  | unicodeDecodeError
  | jsonDecodeError
  deriving DecidableEq

/-- `data.get(key, default)`. -/
def getD (data : List (String × Value O)) (key : String) (default : Value O) : Value O :=
  (data.lookup key).getD default

/-- `a or b`. -/
def orElse [PyObject O] (a b : Value O) : Value O := if a.truthy then a else b

def iterate : Value O → Except PyError (List (Value O))
  | .list l => .ok l
  | .str s => .ok (s.toList.map fun c ↦ .str (String.singleton c))
  | .dict d => .ok (d.map fun e ↦ .str e.1)
  | .none | .bool _ | .int _ | .obj _ => .error .typeError

structure ToolDefinition (O : Type) where
  name : Value O
  description : Value O
  inputSchema : Value O

structure ServerEntry (O : Type) where
  name : Value O
  description : Value O
  transport : Value O
  url : Value O
  command : Value O
  args : Value O
  version : Value O
  iconUrl : Value O
  categories : Value O
  tools : List (ToolDefinition O)
  extra : List (String × Value O)

def knownKeys : List String :=
  ["name", "description", "transport", "url", "command", "args", "version", "icon_url",
    "categories", "tools"]

/-- The tool that `from_dict` makes of an item, if it is an object. -/
def toolOf [PyObject O] : Value O → Option (ToolDefinition O)
  | .dict t => some ⟨getD t "name" (.str ""), getD t "description" (.str ""),
      orElse (orElse (getD t "inputSchema" .none) (getD t "input_schema" .none)) (.dict [])⟩
  | _ => none

def fromDict [PyObject O] (data : List (String × Value O)) : Except PyError (ServerEntry O) :=
  (iterate (orElse (getD data "tools" .none) (.list []))).map fun toolsRaw ↦
    { name := getD data "name" (.str "")
      description := getD data "description" (.str "")
      transport := getD data "transport" (.str "stdio")
      url := getD data "url" (.str "")
      command := getD data "command" (.str "")
      args := orElse (getD data "args" .none) (.list [])
      version := getD data "version" (.str "")
      iconUrl := getD data "icon_url" (.str "")
      categories := orElse (getD data "categories" .none) (.list [])
      tools := toolsRaw.filterMap toolOf
      extra := data.filter fun e ↦ decide (e.1 ∉ knownKeys) }

/-- `ServerEntry.from_dict`, of a value that need not be an object. -/
def fromValue [PyObject O] : Value O → Except PyError (ServerEntry O)
  | .dict data => fromDict data
  | _ => .error .attributeError

def toolDict (t : ToolDefinition O) : Value O :=
  .dict [("name", t.name), ("description", t.description), ("input_schema", t.inputSchema)]

/-- The dictionary of an entry, with the lists made of its arguments and of its categories. -/
def dictOf (entry : ServerEntry O) (args categories : List (Value O)) : Value O :=
  .dict ([("name", entry.name), ("description", entry.description), ("transport", entry.transport),
    ("url", entry.url), ("command", entry.command), ("args", .list args),
    ("version", entry.version), ("icon_url", entry.iconUrl), ("categories", .list categories),
    ("tools", .list (entry.tools.map toolDict))] ++ entry.extra)

def entryToDict (entry : ServerEntry O) : Except PyError (Value O) :=
  (iterate entry.args).bind fun args ↦ (iterate entry.categories).map (dictOf entry args)

/-! ## The files -/

/-- What there is in a file: what `json.load` makes of it, or what it raises. -/
inductive Content (O : Type) where
  | json (v : Value O)
  | unloadable (e : PyError)

/-- The files in the directory of the cache, by their names. -/
abbrev Files (N O : Type) := N → Option (Content O)

/-- What a cache is made with: how a URL becomes the name of a file, and how deep a document can be
nested for `json.dump`. -/
structure Cache (N : Type) where
  sha256 : String → N
  limit : ℕ

def read : Option (Content O) → Except PyError (Option (Value O))
  | none => .ok none
  | some (.json .none) => .ok none
  | some (.json v) => .ok (some v)
  | some (.unloadable .jsonDecodeError) => .ok none
  | some (.unloadable e) => .error e

def entriesOf [PyObject O] : Value O → Except PyError (List (ServerEntry O))
  | .dict payload => (iterate (getD payload "entries" (.list []))).bind (List.mapM fromValue)
  | _ => .error .attributeError

/-- What becomes of what was read. -/
def decoded [PyObject O] : Option (Value O) → Except PyError (Option (List (ServerEntry O)))
  | none => .ok none
  | some payload => (entriesOf payload).map some

variable {N : Type} [DecidableEq N] (cache : Cache N) (files : Files N O)

def get [PyObject O] (url : String) : Except PyError (Option (List (ServerEntry O))) :=
  (read (files (cache.sha256 url))).bind decoded

/-- The document that is written at a time. -/
def payload (url : String) (now : O) (entries : List (Value O)) : Value O :=
  .dict [("registry_url", .str url), ("fetched_at", .obj now), ("entries", .list entries)]

/-- `put`, and what it raises. -/
def put (url : String) (entries : List (ServerEntry O)) (now : O) :
    Files N O × Except PyError Unit :=
  match entries.mapM entryToDict with
  | .error e => (files, .error e)
  | .ok raw =>
    if (payload url now raw).height ≤ cache.limit then
      (Function.update files (cache.sha256 url) (some (.json (payload url now raw))), .ok ())
    else
      -- The file has been opened and emptied, and written in part.
      (Function.update files (cache.sha256 url) (some (.unloadable .jsonDecodeError)),
        .error .recursionError)

def clear : Option String → Files N O
  | some url =>
    if url ≠ "" then Function.update files (cache.sha256 url) none
    else fun _ ↦ none
  | none => fun _ ↦ none

/-! ## What should be -/

def IsList (v : Value O) : Prop := ∃ l, v = .list l

/-- The entries can be written as they are: what should be lists are lists, and the document is not
nested too deep. -/
def Storable (limit : ℕ) (url : String) (entries : List (ServerEntry O)) (now : O) : Prop :=
  (∀ e ∈ entries, IsList e.args ∧ IsList e.categories) ∧
    ∀ raw, entries.mapM entryToDict = .ok raw → (payload url now raw).height ≤ limit

/-- The entry was made by `from_dict`. -/
def Produced [PyObject O] (entry : ServerEntry O) : Prop := ∃ data, fromDict data = .ok entry

/-- The entries are written, and read again. -/
def RoundTrips [PyObject O] (url : String) (entries : List (ServerEntry O)) (now : O) : Prop :=
  (put cache files url entries now).2 = .ok () ∧
    get cache (put cache files url entries now).1 url = .ok (some entries)

/-- What is done for a URL leaves what is cached for another one. -/
def Apart [PyObject O] (url other : String) (entries : List (ServerEntry O)) (now : O) : Prop :=
  get cache (put cache files url entries now).1 other = get cache files other ∧
    get cache (clear cache files (some url)) other = get cache files other

/-- There is no file, or one that is not JSON. -/
def NoDocument (url : String) : Prop := ∀ v, files (cache.sha256 url) ≠ some (.json v)

/-- The cache is as it should be. -/
def Sound [PyObject O] (url other : String) (entries : List (ServerEntry O)) (now : O) : Prop :=
  RoundTrips cache files url entries now ∧
    (other ≠ url → Apart cache files url other entries now) ∧
    (NoDocument cache files url → get cache files url = .ok none)

/-! ## Lists of computations that may fail -/

section Lists

variable {ε α β γ : Type} {f : α → Except ε β} {l : List α} {m : List β}

theorem mapM_cons_eq (a : α) : (a :: l).mapM f = (f a).bind fun b ↦ (l.mapM f).map (b :: ·) := by
  rw [List.mapM_cons]
  rcases f a with e | b
  · rfl
  · rcases l.mapM f with e | m
    · rfl
    · rfl

theorem mapM_cons_eq_ok_iff {a : α} :
    (a :: l).mapM f = .ok m ↔ ∃ b bs, f a = .ok b ∧ l.mapM f = .ok bs ∧ m = b :: bs := by
  rw [mapM_cons_eq, bind_eq_ok_iff]
  simp only [map_eq_ok_iff]
  constructor
  · rintro ⟨b, hb, bs, hbs, rfl⟩
    exact ⟨b, bs, hb, hbs, rfl⟩
  · rintro ⟨b, bs, hb, hbs, rfl⟩
    exact ⟨b, hb, bs, hbs, rfl⟩

theorem mapM_of_mapM {g : β → Except ε γ} {h : α → Except ε γ}
    (hgh : ∀ a ∈ l, ∀ b, f a = .ok b → g b = h a) (hm : l.mapM f = .ok m) :
    m.mapM g = l.mapM h := by
  induction l generalizing m with
  | nil =>
    rw [← Except.ok.inj hm]
    rfl
  | cons a l ih =>
    obtain ⟨b, bs, hb, hbs, rfl⟩ := mapM_cons_eq_ok_iff.mp hm
    rw [List.forall_mem_cons] at hgh
    rw [mapM_cons_eq, mapM_cons_eq, hgh.1 b hb, ih hgh.2 hbs]

theorem mapM_eq_self_iff {h : α → Except ε α} : l.mapM h = .ok l ↔ ∀ a ∈ l, h a = .ok a := by
  induction l with
  | nil => exact iff_of_true rfl (by simp)
  | cons a l ih =>
    rw [mapM_cons_eq_ok_iff, List.forall_mem_cons, ← ih]
    constructor
    · rintro ⟨b, bs, hb, hbs, heq⟩
      obtain ⟨rfl, rfl⟩ := List.cons.inj heq
      exact ⟨hb, hbs⟩
    · rintro ⟨ha, hl⟩
      exact ⟨a, l, ha, hl, rfl⟩

theorem exists_mapM_iff : (∃ m, l.mapM f = .ok m) ↔ ∀ a ∈ l, ∃ b, f a = .ok b := by
  induction l with
  | nil => exact iff_of_true ⟨[], rfl⟩ (by simp)
  | cons a l ih =>
    rw [List.forall_mem_cons, ← ih]
    simp only [mapM_cons_eq_ok_iff]
    constructor
    · rintro ⟨m, b, bs, hb, hbs, -⟩
      exact ⟨⟨b, hb⟩, bs, hbs⟩
    · rintro ⟨⟨b, hb⟩, bs, hbs⟩
      exact ⟨_, b, bs, hb, hbs, rfl⟩

theorem exists_of_mem_mapM_ok (h : l.mapM f = .ok m) {b : β} (hb : b ∈ m) :
    ∃ a ∈ l, f a = .ok b := by
  induction l generalizing m with
  | nil =>
    rw [← Except.ok.inj h] at hb
    exact absurd hb List.not_mem_nil
  | cons a l ih =>
    obtain ⟨c, bs, hc, hbs, rfl⟩ := mapM_cons_eq_ok_iff.mp h
    rcases List.mem_cons.mp hb with rfl | hmem
    · exact ⟨a, List.mem_cons_self, hc⟩
    · obtain ⟨a', ha', hfa'⟩ := ih hbs hmem
      exact ⟨a', List.mem_cons_of_mem a ha', hfa'⟩

theorem length_of_mapM (h : l.mapM f = .ok m) : m.length = l.length := by
  induction l generalizing m with
  | nil =>
    rw [← Except.ok.inj h]
    rfl
  | cons a l ih =>
    obtain ⟨b, bs, -, hbs, rfl⟩ := mapM_cons_eq_ok_iff.mp h
    rw [List.length_cons, List.length_cons, ih hbs]

end Lists

/-! ## What `from_dict` makes -/

section Entries

variable [PyObject O]

/-- What was empty is as the default, and no known key is kept with the others. -/
structure Normal (entry : ServerEntry O) : Prop where
  inputSchema : ∀ t ∈ entry.tools, t.inputSchema.truthy = true ∨ t.inputSchema = .dict []
  extra : ∀ e ∈ entry.extra, e.1 ∉ knownKeys

theorem orElse_cases (a b : Value O) : (orElse a b).truthy = true ∨ orElse a b = b := by
  rw [orElse]
  split
  · exact .inl ‹_›
  · exact .inr rfl

theorem orElse_eq_self {a b : Value O} (h : a.truthy = true ∨ a = b) : orElse a b = a := by
  rw [orElse]
  split
  · rfl
  · exact (h.resolve_left ‹_›).symm

theorem normal_fromDict {entry : ServerEntry O} (h : Produced entry) : Normal entry := by
  obtain ⟨data, hdata⟩ := h
  obtain ⟨toolsRaw, -, rfl⟩ := map_eq_ok_iff.mp hdata
  constructor
  · intro t ht
    obtain ⟨v, -, hv⟩ := List.mem_filterMap.mp ht
    rcases v with _ | _ | _ | _ | _ | d | _
    case dict =>
      rw [← Option.some.inj hv]
      exact orElse_cases _ _
    all_goals exact absurd hv (by simp [toolOf])
  · intro e he
    exact of_decide_eq_true (List.mem_filter.mp he).2

theorem toolOf_toolDict {t : ToolDefinition O}
    (h : t.inputSchema.truthy = true ∨ t.inputSchema = .dict []) :
    toolOf (toolDict t) = some t := by
  have hold : orElse (.none : Value O) t.inputSchema = t.inputSchema := rfl
  have hself := orElse_eq_self h
  simp [toolOf, toolDict, getD, List.lookup_cons, hold, hself]

theorem filterMap_toolOf {tools : List (ToolDefinition O)}
    (h : ∀ t ∈ tools, t.inputSchema.truthy = true ∨ t.inputSchema = .dict []) :
    (tools.map toolDict).filterMap toolOf = tools := by
  rw [List.filterMap_map]
  refine (List.filterMap_congr fun t ht ↦ toolOf_toolDict (h t ht)).trans List.filterMap_some

theorem orElse_list (l : List (Value O)) : orElse (.list l) (.list []) = .list l := by
  refine orElse_eq_self ?_
  rcases l with _ | ⟨v, l⟩
  · exact .inr rfl
  · exact .inl rfl

/-- **A normal entry comes back** with lists for its arguments and its categories. -/
theorem fromValue_dictOf {entry : ServerEntry O} (h : Normal entry) (args categories) :
    fromValue (dictOf entry args categories) =
      .ok { entry with args := .list args, categories := .list categories } := by
  have htools := filterMap_toolOf h.inputSchema
  have hextra : entry.extra.filter (fun e ↦ decide (e.1 ∉ knownKeys)) = entry.extra :=
    List.filter_eq_self.mpr fun e he ↦ decide_eq_true (h.extra e he)
  rw [dictOf, fromValue, fromDict, List.filter_append, hextra]
  simp [getD, List.lookup_cons, orElse_list, iterate, Except.map, htools, knownKeys]

/-- The entry that comes back. -/
def relist (entry : ServerEntry O) : Except PyError (ServerEntry O) :=
  (iterate entry.args).bind fun args ↦ (iterate entry.categories).map fun categories ↦
    { entry with args := .list args, categories := .list categories }

omit [PyObject O] in
theorem relist_eq_self_iff {entry : ServerEntry O} :
    relist entry = .ok entry ↔ IsList entry.args ∧ IsList entry.categories := by
  rw [relist, bind_eq_ok_iff]
  simp only [map_eq_ok_iff]
  constructor
  · rintro ⟨args, -, categories, -, heq⟩
    rw [← heq]
    exact ⟨⟨args, rfl⟩, categories, rfl⟩
  · rintro ⟨⟨args, hargs⟩, categories, hcategories⟩
    refine ⟨args, by rw [hargs]; rfl, categories, by rw [hcategories]; rfl, ?_⟩
    rw [← hargs, ← hcategories]

theorem fromValue_of_entryToDict {entry : ServerEntry O} (h : Normal entry) (v : Value O)
    (hv : entryToDict entry = .ok v) : fromValue v = relist entry := by
  obtain ⟨args, hargs, hmap⟩ := bind_eq_ok_iff.mp hv
  obtain ⟨categories, hcategories, rfl⟩ := map_eq_ok_iff.mp hmap
  rw [fromValue_dictOf h, relist, hargs, hcategories]
  rfl

end Entries

/-! ## What the cache gives back -/

section Cache

variable [PyObject O] {N : Type} [DecidableEq N] {cache : Cache N} {files : Files N O}

theorem get_update_self (url : String) (content : Option (Content O)) :
    get cache (Function.update files (cache.sha256 url) content) url =
      (read content).bind decoded := by
  rw [get, Function.update_self]

omit [PyObject O] in
theorem put_of_error {url : String} {entries : List (ServerEntry O)} {e : PyError}
    (h : entries.mapM entryToDict = .error e) (now : O) :
    put cache files url entries now = (files, .error e) := by
  rw [put, h]

theorem put_of_lt (files : Files N O) {url : String} {entries : List (ServerEntry O)} {raw : List (Value O)} {now : O}
    (h : entries.mapM entryToDict = .ok raw) (hlt : cache.limit < (payload url now raw).height) :
    (put cache files url entries now).2 = .error .recursionError ∧
      get cache (put cache files url entries now).1 url = .ok none := by
  rw [put, h]
  dsimp only
  rw [if_neg (Nat.not_le_of_gt hlt)]
  refine ⟨rfl, ?_⟩
  rw [get_update_self]
  rfl

/-- **What the cache gives back** of what was written. -/
theorem put_of_le (files : Files N O) {url : String} {entries : List (ServerEntry O)} {raw : List (Value O)} {now : O}
    (hnormal : ∀ e ∈ entries, Normal e) (h : entries.mapM entryToDict = .ok raw)
    (hle : (payload url now raw).height ≤ cache.limit) :
    (put cache files url entries now).2 = .ok () ∧
      get cache (put cache files url entries now).1 url =
        (entries.mapM relist).map some := by
  rw [put, h]
  dsimp only
  rw [if_pos hle]
  refine ⟨rfl, ?_⟩
  rw [get_update_self,
    ← mapM_of_mapM (fun e he ↦ fromValue_of_entryToDict (hnormal e he)) h]
  rfl

omit [PyObject O] in
theorem exists_entryToDict {entry : ServerEntry O}
    (h : IsList entry.args ∧ IsList entry.categories) : ∃ v, entryToDict entry = .ok v := by
  obtain ⟨⟨args, hargs⟩, categories, hcategories⟩ := h
  refine ⟨dictOf entry args categories, ?_⟩
  rw [entryToDict, hargs, hcategories]
  rfl

theorem roundTrips_iff_storable {url : String} {entries : List (ServerEntry O)} {now : O}
    (hnormal : ∀ e ∈ entries, Normal e) :
    RoundTrips cache files url entries now ↔ Storable cache.limit url entries now := by
  rcases hraw : entries.mapM entryToDict with e | raw
  · refine iff_of_false ?_ ?_
    · rintro ⟨hok, -⟩
      rw [put_of_error hraw] at hok
      exact absurd hok (by simp)
    · rintro ⟨hlists, -⟩
      obtain ⟨raw, hok⟩ := exists_mapM_iff.mpr fun e he ↦ exists_entryToDict (hlists e he)
      rw [hok] at hraw
      exact absurd hraw (by simp)
  · have hdepth : (∀ raw', entries.mapM entryToDict = .ok raw' →
        (payload url now raw').height ≤ cache.limit) ↔
          (payload url now raw).height ≤ cache.limit := by
      rw [hraw]
      exact ⟨fun h ↦ h raw rfl, fun h raw' hraw' ↦ Except.ok.inj hraw' ▸ h⟩
    rw [Storable, hdepth]
    by_cases hle : (payload url now raw).height ≤ cache.limit
    · obtain ⟨hok, hget⟩ := put_of_le files hnormal hraw hle
      rw [RoundTrips, and_iff_right hok, hget, and_iff_left hle, map_eq_ok_iff]
      simp only [Option.some.injEq, exists_eq_right]
      rw [mapM_eq_self_iff]
      exact forall₂_congr fun e _ ↦ relist_eq_self_iff
    · obtain ⟨herror, -⟩ := put_of_lt files hraw (Nat.not_le.mp hle)
      refine iff_of_false ?_ fun h ↦ hle h.2
      rintro ⟨hok, -⟩
      rw [herror] at hok
      exact absurd hok (by simp)

theorem not_storable_of_put {url : String} {entries : List (ServerEntry O)} {now : O} {e : PyError}
    (hnormal : ∀ e ∈ entries, Normal e) (h : (put cache files url entries now).2 = .error e) :
    ¬ Storable cache.limit url entries now ∧
      (entries = [] → get cache (put cache files url entries now).1 url = .ok none) := by
  constructor
  · intro hstorable
    have hround : RoundTrips cache files url entries now :=
      (roundTrips_iff_storable hnormal).mpr hstorable
    have hok := hround.1
    rw [hok] at h
    exact absurd h (by simp)
  · rintro rfl
    have hraw : ([] : List (ServerEntry O)).mapM entryToDict = .ok [] := rfl
    by_cases hle : (payload url now ([] : List (Value O))).height ≤ cache.limit
    · rw [(put_of_le files hnormal hraw hle).1] at h
      exact absurd h (by simp)
    · exact (put_of_lt files hraw (Nat.not_le.mp hle)).2

theorem exists_stored {url : String} {entries : List (ServerEntry O)} {now : O}
    (hnormal : ∀ e ∈ entries, Normal e) (h : (put cache files url entries now).2 = .ok ()) :
    ∃ stored, get cache (put cache files url entries now).1 url = .ok (some stored) ∧
      stored.length = entries.length := by
  rcases hraw : entries.mapM entryToDict with e | raw
  · rw [put_of_error hraw] at h
    exact absurd h (by simp)
  · by_cases hle : (payload url now raw).height ≤ cache.limit
    · have hrelist : ∀ e ∈ entries, ∃ e', relist e = .ok e' := by
        intro e he
        obtain ⟨v, hv⟩ := exists_mapM_iff.mp ⟨raw, hraw⟩ e he
        obtain ⟨args, hargs, hmap⟩ := bind_eq_ok_iff.mp hv
        obtain ⟨categories, hcategories, -⟩ := map_eq_ok_iff.mp hmap
        refine ⟨{ e with args := .list args, categories := .list categories }, ?_⟩
        rw [relist, hargs, hcategories]
        rfl
      obtain ⟨stored, hstored⟩ := exists_mapM_iff.mpr hrelist
      refine ⟨stored, ?_, length_of_mapM hstored⟩
      rw [(put_of_le files hnormal hraw hle).2, hstored]
      rfl
    · rw [(put_of_lt files hraw (Nat.not_le.mp hle)).1] at h
      exact absurd h (by simp)

omit [PyObject O] in
theorem height_payload_le_iff {url : String} {now : O} {raw : List (Value O)} {n : ℕ} :
    (payload url now raw).height ≤ n ↔ Value.heightList raw + 1 ≤ n := by
  simp only [payload, Value.height, Value.heightDict]
  omega

omit [PyObject O] in
theorem mapM_append_eq_ok {xs ys : List (ServerEntry O)} {raw : List (Value O)}
    (h : (xs ++ ys).mapM entryToDict = .ok raw) : ∃ before after, raw = before ++ after ∧
      xs.mapM entryToDict = .ok before := by
  induction xs generalizing raw with
  | nil => exact ⟨[], raw, rfl, rfl⟩
  | cons x xs ih =>
    obtain ⟨v, vs, hv, hvs, rfl⟩ := mapM_cons_eq_ok_iff.mp h
    obtain ⟨before, after, rfl, hbefore⟩ := ih hvs
    exact ⟨v :: before, after, rfl, mapM_cons_eq_ok_iff.mpr ⟨v, before, hv, hbefore, rfl⟩⟩

omit [PyObject O] in
theorem Storable.of_append {limit : ℕ} {url : String} {xs ys : List (ServerEntry O)} {now : O}
    (h : Storable limit url (xs ++ ys) now) (began : O) : Storable limit url xs began := by
  obtain ⟨hlists, hdepth⟩ := h
  refine ⟨fun e he ↦ hlists e (List.mem_append_left ys he), fun before hbefore ↦ ?_⟩
  obtain ⟨raw, hraw⟩ := exists_mapM_iff.mpr fun e he ↦ exists_entryToDict (hlists e he)
  have hle := height_payload_le_iff.mp (hdepth raw hraw)
  obtain ⟨before', after, rfl, hbefore'⟩ := mapM_append_eq_ok hraw
  obtain rfl := Except.ok.inj (hbefore.symm.trans hbefore')
  refine height_payload_le_iff.mpr (Nat.le_trans (Nat.succ_le_succ ?_) hle)
  refine Value.heightList_le_iff.mpr fun v hv ↦ ?_
  exact Value.heightList_le_iff.mp Nat.le.refl v (List.mem_append_left after hv)

omit [DecidableEq N] in
theorem produced_of_get {url : String} {entries : List (ServerEntry O)}
    (h : get cache files url = .ok (some entries)) : ∀ e ∈ entries, Produced e := by
  obtain ⟨v, -, hv⟩ := bind_eq_ok_iff.mp h
  rcases v with _ | v
  · exact absurd hv (by simp [decoded])
  · obtain ⟨entries', hentries, hsome⟩ := map_eq_ok_iff.mp hv
    obtain rfl := Option.some.inj hsome
    rcases v with _ | _ | _ | _ | _ | d | _
    case dict =>
      obtain ⟨raw, -, hraw⟩ := bind_eq_ok_iff.mp hentries
      intro e he
      obtain ⟨v, -, hfrom⟩ := exists_of_mem_mapM_ok hraw he
      rcases v with _ | _ | _ | _ | _ | data | _
      case dict => exact ⟨data, hfrom⟩
      all_goals exact absurd hfrom (by simp [fromValue])
    all_goals exact absurd hentries (by simp [entriesOf])

theorem get_update_of_ne (hsha : Function.Injective cache.sha256) {url other : String}
    (hne : other ≠ url) (content : Option (Content O)) :
    get cache (Function.update files (cache.sha256 url) content) other = get cache files other := by
  rw [get, Function.update_of_ne (hsha.ne hne), get]

theorem get_put_of_ne (hsha : Function.Injective cache.sha256) {url other : String}
    (hne : other ≠ url) (entries : List (ServerEntry O)) (now : O) :
    get cache (put cache files url entries now).1 other = get cache files other := by
  rw [put]
  split
  · rfl
  · split
    · exact get_update_of_ne hsha hne _
    · exact get_update_of_ne hsha hne _

omit [DecidableEq N] in
theorem get_eq_none_iff {url : String} :
    get cache files url = .ok none ↔ read (files (cache.sha256 url)) = .ok none := by
  rw [get]
  rcases read (files (cache.sha256 url)) with e | _ | v
  · exact iff_of_false (by simp [Except.bind]) (by simp)
  · exact iff_of_true rfl rfl
  · refine iff_of_false ?_ (by simp)
    intro h
    obtain ⟨entries, -, hsome⟩ := map_eq_ok_iff.mp h
    exact absurd hsome (by simp)

theorem get_clear_iff (hsha : Function.Injective cache.sha256) {url other : String}
    (hne : other ≠ url) :
    get cache (clear cache files (some url)) other = get cache files other ↔
      url ≠ "" ∨ read (files (cache.sha256 other)) = .ok none := by
  rw [clear]
  by_cases hurl : url ≠ ""
  · rw [if_pos hurl, get_update_of_ne hsha hne]
    exact iff_of_true rfl (.inl hurl)
  · rw [if_neg hurl, or_iff_right hurl, ← get_eq_none_iff, eq_comm]
    rfl

theorem apart_iff (hsha : Function.Injective cache.sha256) {url other : String} (hne : other ≠ url)
    (entries : List (ServerEntry O)) (now : O) :
    Apart cache files url other entries now ↔
      url ≠ "" ∨ read (files (cache.sha256 other)) = .ok none := by
  rw [Apart, and_iff_right (get_put_of_ne hsha hne entries now), get_clear_iff hsha hne]

omit [DecidableEq N] in
theorem noDocument_imp_iff {url : String} :
    (NoDocument cache files url → get cache files url = .ok none) ↔
      ∀ e, files (cache.sha256 url) = some (.unloadable e) → e = .jsonDecodeError := by
  rw [get_eq_none_iff, NoDocument]
  rcases files (cache.sha256 url) with _ | v | e
  · exact iff_of_true (fun _ ↦ rfl) (by simp)
  · exact iff_of_true (fun h ↦ absurd rfl (h v)) (by simp)
  · have hno : ∀ v : Value O, some (Content.unloadable e) ≠ some (.json v) := by simp
    rw [forall_prop_of_true hno]
    simp only [Option.some.injEq, Content.unloadable.injEq, forall_eq']
    rcases e with _ | _ | _ | _ | _ | _
    all_goals simp [read]

/-- **The cache is as it should be** exactly if the entries have lists where lists should be and are
not nested too deep, it is not the empty URL that is cleared beside another one, and a file that is
not JSON is text. -/
theorem cache_sound_iff (cache : Cache N) (hsha : Function.Injective cache.sha256) (files : Files N O)
    (url other : String) (entries : List (ServerEntry O)) (now : O)
    (hproduced : ∀ e ∈ entries, Produced e) :
    Sound cache files url other entries now ↔
      Storable cache.limit url entries now ∧
        (other ≠ url → url ≠ "" ∨ read (files (cache.sha256 other)) = .ok none) ∧
        ∀ e, files (cache.sha256 url) = some (.unloadable e) → e = .jsonDecodeError := by
  rw [Sound, roundTrips_iff_storable fun e he ↦ normal_fromDict (hproduced e he), noDocument_imp_iff]
  refine and_congr_right fun _ ↦ and_congr_left fun _ ↦ forall_congr' fun hne ↦ ?_
  exact apart_iff hsha hne entries now

end Cache

/-- A single number that is not an integer, and not zero. -/
instance : PyObject Unit where
  truthy := fun _ ↦ true
  str := fun _ ↦ ""
  dumps := fun _ ↦ .ok ""

/-- Names that are the URLs, and documents that may be nested as deep as they usually may. -/
def plainCache : Cache String := ⟨id, 990⟩

/-- What becomes of `{"name": "files", "args": …}`. -/
def entryWith (args : Value Unit) : ServerEntry Unit :=
  ⟨.str "files", .str "", .str "stdio", .str "", .str "", args, .str "", .str "", .list [], [], []⟩

theorem sound_plainCache_iff :
    Sound plainCache (fun _ ↦ none) "https://a" "https://b" [entryWith (.list [.str "--all"])] () ↔
      Storable plainCache.limit "https://a" [entryWith (.list [.str "--all"])] () ∧
        ("https://b" ≠ "https://a" → "https://a" ≠ "" ∨
          read (none : Option (Content Unit)) = .ok none) ∧
        ∀ e, (none : Option (Content Unit)) = some (.unloadable e) → e = .jsonDecodeError := by
  refine cache_sound_iff plainCache (fun _ _ h ↦ h) (fun _ ↦ none) "https://a" "https://b" _ () ?_
  intro e he
  rw [List.mem_singleton.mp he]
  exact ⟨[("name", .str "files"), ("args", .list [.str "--all"])], rfl⟩

/-- The arguments come back letter by letter. -/
theorem not_sound_text :
    Produced (entryWith (.str "--all")) ∧
      ¬ Sound plainCache (fun _ ↦ none) "https://a" "https://b" [entryWith (.str "--all")] () := by
  refine ⟨⟨[("name", .str "files"), ("args", .str "--all")], rfl⟩, ?_⟩
  rintro ⟨⟨-, hget⟩, -⟩
  have hletters : get plainCache
      (put plainCache (fun _ ↦ none) "https://a" [entryWith (.str "--all")] ()).1 "https://a" =
      .ok (some [entryWith (.list [.str "-", .str "-", .str "a", .str "l", .str "l"])]) := rfl
  rw [hletters] at hget
  exact absurd hget (by simp [entryWith])

end RegistryCache

end ArgusMcp
