import ArgusMcp.Library.Graft
import Mathlib.Algebra.Group.Int.Defs
import Mathlib.Algebra.Group.Nat.Defs
import Mathlib.Data.Rat.Defs
import Mathlib.Tactic.Common

/-!
# Lines of the audit log

An event is written as one line of JSON, by Pydantic or by an extension in Rust, and so is a
dictionary, by `json.dumps` or by the extension. What cannot be written is not: the error is
swallowed.

The extension leaves it to `json.dumps` to make JSON of a dictionary, without `default=str`, and
reads that again with `serde_json`, which refuses what is not JSON after all (`NaN`, surrogates on
their own, too much nesting) and reads a number that is no integer of 64 bits as a float. So a
dictionary with a value of any other class in it is not written at all. And neither way of writing
an event takes a string that UTF-8 has no bytes for, such as a user id with half of a surrogate pair
in it.

**What is not here.** A line is the document that it is the text of. What `str` and Pydantic make of
an object, how floats are written as keys, and how `serde_json` reads numbers are parameters
(`Libraries`).
-/

namespace ArgusMcp

namespace Audit

/-! ## Values -/

/-- A string, of characters, or of code units among which there are surrogates on their own. -/
inductive Text where
  | unicode (s : String)
  | lone (units : List UInt16)
  deriving DecidableEq

/-- It can be written in UTF-8. -/
def Text.isUnicode : Text → Bool
  | .unicode _ => true
  | .lone _ => false

/-- A float that is not a number, or not finite. -/
inductive Special where
  | nan
  | infinity
  | negInfinity
  deriving DecidableEq

def Special.text : Special → String
  | .nan => "NaN"
  | .infinity => "Infinity"
  | .negInfinity => "-Infinity"

/-- What is neither a list nor a dictionary. -/
inductive PyScalar (O : Type) where
  | none
  | bool (b : Bool)
  | int (n : ℤ)
  | float (q : ℚ)
  | special (s : Special)
  | str (t : Text)
  /-- An object of any other class. -/
  | obj (o : O)
  /-- A list or a dictionary that is inside of itself. -/
  | cycle

abbrev PyValue (O : Type) := KeyedTree (PyScalar O)

/-- The scalars of a document of JSON, with those that `json.dumps` writes all the same. -/
inductive Token where
  | null
  | bool (b : Bool)
  | int (n : ℤ)
  | float (q : ℚ)
  | special (s : Special)
  | str (t : Text)
  deriving DecidableEq

abbrev Json := KeyedTree Token

/-- Numbers are the same when their values are. -/
def Token.number : Token → Token
  | .int n => .float n
  | t => t

def sameKey (k l : Token) : Bool := k = l

/-- What a document means: the last one of several members with one name, and numbers by value. -/
def meaning (doc : Json) : Json := (doc.mapLeaves Token.number).collapse sameKey

structure Libraries (O : Type) where
  /-- `str(o)`, if it does not raise. -/
  str : O → Option Text
  /-- `float.__repr__`. -/
  repr : ℚ → String
  recursionLimit : ℕ
  recursionLimit_pos : 0 < recursionLimit
  /-- What Pydantic makes of an object, if it knows how. -/
  model : O → Option Json
  /-- What Pydantic makes of a key which is not a string. -/
  modelKey : PyScalar O → Option String
  modelLimit : ℕ
  modelLimit_pos : 0 < modelLimit
  /-- How `serde_json` reads an integer that does not fit into 64 bits. -/
  readInt : ℤ → Option ℚ
  readFloat : ℚ → Option ℚ

section Serializers

variable {O : Type} (L : Libraries O)

/-! ## The module `json` -/

/-- `sys.get_int_max_str_digits()`. -/
def maxStrDigits : ℕ := 4300

def hasText (n : ℤ) : Bool := n.natAbs < 10 ^ maxStrDigits

def dumpScalar (default : O → Option Text) : PyScalar O → Option Token
  | .none => some .null
  | .bool b => some (.bool b)
  | .int n => if hasText n then some (.int n) else none
  | .float q => some (.float q)
  | .special s => some (.special s)
  | .str t => some (.str t)
  | .obj o => (default o).map .str
  | .cycle => none

/-- There is no default for keys. -/
def dumpKey : PyScalar O → Option Token
  | .none => some (.str (.unicode "null"))
  | .bool b => some (.str (.unicode (if b then "true" else "false")))
  | .int n => if hasText n then some (.str (.unicode (toString n))) else none
  | .float q => some (.str (.unicode (L.repr q)))
  | .special s => some (.str (.unicode s.text))
  | .str t => some (.str t)
  | .obj _ | .cycle => none

def dumps (default : O → Option Text) (v : PyValue O) : Option Json :=
  if v.height ≤ L.recursionLimit then
    v.convert (fun s ↦ (dumpScalar default s).map .scalar) (dumpKey L)
  else none

/-! ## serde_json -/

def isInt64 (n : ℤ) : Bool := -2 ^ 63 ≤ n && n < 2 ^ 64

def readScalar : Token → Option Token
  | .null => some .null
  | .bool b => some (.bool b)
  | .int n => if isInt64 n then some (.int n) else (L.readInt n).map .float
  | .float q => (L.readFloat q).map .float
  | .special _ => none
  | .str (.unicode s) => some (.str (.unicode s))
  | .str (.lone _) => none

def readKey : Token → Option Token
  | .str (.unicode s) => some (.str (.unicode s))
  | _ => none

/-- `serde_json::from_str`, which goes down 127 levels. -/
def fromStr (doc : Json) : Option Json :=
  if doc.height ≤ 127 then
    (doc.convert (fun t ↦ (readScalar L t).map .scalar) readKey).map (KeyedTree.collapse sameKey)
  else none

def pydictToJson (v : PyValue O) : Option Json := (dumps L (fun _ ↦ none) v).bind (fromStr L)

/-! ## Pydantic -/

def modelScalar : PyScalar O → Option Json
  | .none => some (.scalar .null)
  | .bool b => some (.scalar (.bool b))
  | .int n => some (.scalar (.int n))
  | .float q => some (.scalar (.float q))
  | .special _ => some (.scalar .null)
  | .str (.unicode s) => some (.scalar (.str (.unicode s)))
  | .str (.lone _) => none
  | .obj o => L.model o
  | .cycle => none

def modelKey : PyScalar O → Option Token
  | .str (.unicode s) => some (.str (.unicode s))
  | .str (.lone _) => none
  | k => (L.modelKey k).map fun s ↦ .str (.unicode s)

def modelDump (v : PyValue O) : Option Json :=
  if v.height ≤ L.modelLimit then v.convert (modelScalar L) (modelKey L) else none

/-! ## Events -/

structure AuditEvent (μ : Type) where
  timestamp : Text
  eventType : Text
  eventId : Text
  sessionId : Option Text
  clientIp : Option Text
  userId : Option Text
  backend : Option Text
  method : Text
  capabilityName : Text
  originalName : Option Text
  status : Text
  latencyMs : ℚ
  error : Option Text
  errorType : Option Text
  metadata : μ

/-- The strings of an event, apart from its metadata. -/
def AuditEvent.texts {μ : Type} (e : AuditEvent μ) : List Text :=
  [e.timestamp, e.eventType, e.eventId] ++ e.sessionId.toList ++ e.clientIp.toList ++
    e.userId.toList ++ e.backend.toList ++ [e.method, e.capabilityName] ++
    e.originalName.toList ++ [e.status] ++ e.error.toList ++ e.errorType.toList

/-- An event before it is written. -/
abbrev PyEvent (O : Type) := AuditEvent (List (Text × PyValue O))

def PyEvent.dict (e : PyEvent O) : PyValue O := .map (e.metadata.map fun q ↦ (.str q.1, q.2))

def name (s : String) : Token := .str (.unicode s)

def text (t : Text) : Json := .scalar (.str t)

/-- A member that is left out or null where there is nothing. -/
def optional (skip : Bool) (key : String) : Option Text → List (Token × Json)
  | some t => [(name key, text t)]
  | none => if skip then [] else [(name key, .scalar .null)]

def eventDoc {μ : Type} (skip : Bool) (e : AuditEvent μ) (metadata : Json) : Json :=
  .map
    [(name "timestamp", text e.timestamp), (name "event_type", text e.eventType),
      (name "event_id", text e.eventId),
      (name "source", .map (optional skip "session_id" e.sessionId ++
        optional skip "client_ip" e.clientIp ++ optional skip "user_id" e.userId)),
      (name "target", .map (optional skip "backend" e.backend ++
        [(name "method", text e.method), (name "capability_name", text e.capabilityName)] ++
        optional skip "original_name" e.originalName)),
      (name "outcome", .map
        ([(name "status", text e.status), (name "latency_ms", .scalar (.float e.latencyMs))] ++
          optional skip "error" e.error ++ optional skip "error_type" e.errorType)),
      (name "metadata", metadata)]

/-- What is made of an event if all of its strings can be written. -/
def encode {μ : Type} (e : AuditEvent μ) (doc : Option Json) : Option Json :=
  if e.texts.all Text.isUnicode then doc else none

/-- `serialize_audit_event`, which is given no metadata if there is none. -/
def serializeAuditEvent (e : PyEvent O) : Option Json :=
  encode e <|
    (if e.metadata = [] then some (.map []) else pydictToJson L e.dict).map (eventDoc true e)

def serializeAuditDict (data : PyValue O) : Option Json := pydictToJson L data

def modelDumpJson (e : PyEvent O) : Option Json :=
  encode e ((modelDump L e.dict).map (eventDoc false e))

/-! ## The logger -/

/-- The lines of the file, with one more, if there was no error. -/
def log (lines : List Json) (line : Option Json) : List Json := lines ++ line.toList

def emit (useRust : Bool) (lines : List Json) (e : PyEvent O) : List Json :=
  log lines (if useRust then serializeAuditEvent L e else modelDumpJson L e)

def emitDict (useRust : Bool) (lines : List Json) (data : List (PyScalar O × PyValue O)) :
    List Json :=
  log lines (if useRust then serializeAuditDict L (.map data) else dumps L L.str (.map data))

/-! ## Reading an event -/

/-- The last member of a name. -/
def field (key : String) : Json → Option Json
  | .map d => (d.reverse.find? fun q ↦ q.1 = name key).map Prod.snd
  | _ => none

def textField (key : String) (default : Option String) (doc : Json) : Option Text :=
  match field key doc with
  | none => default.map .unicode
  | some (.scalar (.str t)) => some t
  | some _ => none

def optionalField (key : String) (doc : Json) : Option (Option Text) :=
  match field key doc with
  | none | some (.scalar .null) => some none
  | some (.scalar (.str t)) => some (some t)
  | some _ => none

def numberField (key : String) (default : ℚ) (doc : Json) : Option ℚ :=
  match field key doc with
  | none => some default
  | some (.scalar (.int n)) => some n
  | some (.scalar (.float q)) => some q
  | some _ => none

def objectField (key : String) (default : Option Json) (doc : Json) : Option Json :=
  match field key doc with
  | none => default
  | some (.map d) => some (.map d)
  | some _ => none

/-- A line as an event. Where there is no time or no id, a new one would be made up, so it is not
this event. -/
def readEvent (doc : Json) : Option (AuditEvent Json) := do
  let timestamp ← textField "timestamp" none doc
  let eventType ← textField "event_type" (some "mcp_operation") doc
  let eventId ← textField "event_id" none doc
  let source ← objectField "source" (some (.map [])) doc
  let sessionId ← optionalField "session_id" source
  let clientIp ← optionalField "client_ip" source
  let userId ← optionalField "user_id" source
  let target ← objectField "target" none doc
  let backend ← optionalField "backend" target
  let method ← textField "method" none target
  let capabilityName ← textField "capability_name" none target
  let originalName ← optionalField "original_name" target
  let outcome ← objectField "outcome" (some (.map [])) doc
  let status ← textField "status" (some "success") outcome
  let latencyMs ← numberField "latency_ms" 0 outcome
  let error ← optionalField "error" outcome
  let errorType ← optionalField "error_type" outcome
  let metadata ← objectField "metadata" (some (.map [])) doc
  some ⟨timestamp, eventType, eventId, sessionId, clientIp, userId, backend, method,
    capabilityName, originalName, status, latencyMs, error, errorType, metadata⟩

def AuditEvent.withMetadata {μ ν : Type} (e : AuditEvent μ) (metadata : ν) : AuditEvent ν :=
  { e with metadata := metadata }

/-! ## What can be written -/

open KeyedTree (scalarIs keysAre)

def PyScalar.canDump : PyScalar O → Bool
  | .int n => hasText n
  | .obj o => (L.str o).isSome
  | .cycle => false
  | _ => true

def PyScalar.canDumpKey : PyScalar O → Bool
  | .int n => hasText n
  | .obj _ | .cycle => false
  | _ => true

/-- The extension can write it, if perhaps not as it was. -/
def PyScalar.canRead : PyScalar O → Bool
  | .int n => hasText n && (isInt64 n || (L.readInt n).isSome)
  | .float q => (L.readFloat q).isSome
  | .special _ | .str (.lone _) | .obj _ | .cycle => false
  | _ => true

def PyScalar.canReadKey : PyScalar O → Bool
  | .int n => hasText n
  | .str (.lone _) | .obj _ | .cycle => false
  | _ => true

def PyScalar.canModel : PyScalar O → Bool
  | .obj o => (L.model o).isSome
  | .str (.lone _) | .cycle => false
  | _ => true

def PyScalar.canModelKey : PyScalar O → Bool
  | .str (.unicode _) => true
  | .str (.lone _) => false
  | k => (L.modelKey k).isSome

/-- `serde_json` reads it as what it was. -/
def kept (t : Token) : Bool := (readScalar L t).all fun u ↦ u.number = t.number

/-- What `json.dumps` writes, with `default=str`. -/
def form (v : PyValue O) : Json :=
  v.graft (fun s ↦ .scalar ((dumpScalar L.str s).getD .null)) fun k ↦ (dumpKey L k).getD .null

theorem dumps_eq_some_iff {default : O → Option Text}
    (hdefault : ∀ o t, default o = some t → L.str o = some t) {v : PyValue O} {doc : Json} :
    dumps L default v = some doc ↔ v.height ≤ L.recursionLimit ∧
      (v.all (scalarIs fun s ↦ (dumpScalar default s).isSome) = true ∧
        v.all (keysAre fun k ↦ (dumpKey L k).isSome) = true) ∧ doc = form L v := by
  have hscalar : ∀ s u, (dumpScalar default s).map KeyedTree.scalar = some u →
      KeyedTree.scalar ((dumpScalar L.str s).getD .null) = u := by
    intro s u hu
    obtain ⟨t, ht, rfl⟩ := Option.map_eq_some_iff.mp hu
    have hsame : dumpScalar L.str s = some t := by
      rcases s with _ | b | n | q | s | t' | o | _
      · exact ht
      · exact ht
      · exact ht
      · exact ht
      · exact ht
      · exact ht
      · obtain ⟨t', ht', rfl⟩ := Option.map_eq_some_iff.mp ht
        exact Option.map_eq_some_iff.mpr ⟨t', hdefault o t' ht', rfl⟩
      · exact ht
    rw [hsame, Option.getD_some]
  have hkey : ∀ k k', dumpKey L k = some k' → (dumpKey L k).getD .null = k' := by
    intro k k' hk
    rw [hk, Option.getD_some]
  rw [dumps, Option.ite_none_right_eq_some, KeyedTree.convert_eq_some_iff hscalar hkey]
  simp only [Option.isSome_map]
  rfl

def reread (t : Token) : Token := (readScalar L t).getD t

theorem fromStr_eq_some_iff {doc line : Json} : fromStr L doc = some line ↔ doc.height ≤ 127 ∧
    (doc.all (scalarIs fun t ↦ (readScalar L t).isSome) = true ∧
      doc.all (keysAre fun k ↦ (readKey k).isSome) = true) ∧
      line = (doc.mapLeaves (reread L)).collapse sameKey := by
  have hscalar : ∀ t u, (readScalar L t).map KeyedTree.scalar = some u →
      KeyedTree.scalar (reread L t) = u := by
    intro t u hu
    obtain ⟨t', ht', rfl⟩ := Option.map_eq_some_iff.mp hu
    rw [reread, ht', Option.getD_some]
  have hkey : ∀ k k', readKey k = some k' → k = k' := by
    rintro (_ | _ | _ | _ | _ | (_ | _)) k' hk
    all_goals first | exact Option.some.inj hk | exact absurd hk (by simp [readKey])
  have hconvert : ∀ read : Json, (doc.convert (fun t ↦ (readScalar L t).map .scalar) readKey
      = some read ↔ (doc.all (scalarIs fun t ↦ (readScalar L t).isSome) = true ∧
        doc.all (keysAre fun k ↦ (readKey k).isSome) = true) ∧
        read = doc.mapLeaves (reread L)) := by
    intro read
    rw [KeyedTree.convert_eq_some_iff hscalar (hkey : ∀ k k', readKey k = some k' → id k = k')]
    simp only [Option.isSome_map]
    rfl
  rw [fromStr, Option.ite_none_right_eq_some]
  refine and_congr_right fun _ ↦ ?_
  rw [Option.map_eq_some_iff]
  constructor
  · rintro ⟨read, hread, rfl⟩
    obtain ⟨hall, rfl⟩ := (hconvert read).mp hread
    exact ⟨hall, rfl⟩
  · rintro ⟨hall, rfl⟩
    exact ⟨_, (hconvert _).mpr ⟨hall, rfl⟩, rfl⟩

theorem kept_iff (t : Token) : kept L t = true ↔ (reread L t).number = t.number := by
  rw [kept, reread]
  rcases readScalar L t with _ | u
  · exact iff_of_true rfl rfl
  · exact decide_eq_true_iff

theorem meaning_reread_iff (doc : Json) :
    meaning ((doc.mapLeaves (reread L)).collapse sameKey) = meaning doc ↔
      (doc.collapse sameKey).all (scalarIs (kept L)) = true := by
  rw [meaning, meaning, KeyedTree.collapse_mapLeaves, KeyedTree.collapse_collapse,
    KeyedTree.collapse_mapLeaves, KeyedTree.collapse_mapLeaves, KeyedTree.mapLeaves_mapLeaves,
    KeyedTree.mapLeaves_eq_iff]
  have hkept : kept L = fun t ↦ decide ((Token.number ∘ reread L) t = t.number) := by
    funext t
    rw [Bool.eq_iff_iff, kept_iff, decide_eq_true_iff]
    rfl
  rw [hkept]

/-! ## Scalars -/

theorem isSome_dumpScalar (s : PyScalar O) : (dumpScalar L.str s).isSome = s.canDump L := by
  rcases s with _ | b | n | q | s | t | o | _
  case int =>
    rw [dumpScalar, PyScalar.canDump]
    rcases hasText n
    · rfl
    · rfl
  case obj => rw [dumpScalar, PyScalar.canDump, Option.isSome_map]
  all_goals rfl

theorem isSome_dumpKey (k : PyScalar O) : (dumpKey L k).isSome = k.canDumpKey := by
  rcases k with _ | b | n | q | s | t | o | _
  case int =>
    rw [dumpKey, PyScalar.canDumpKey]
    rcases hasText n
    · rfl
    · rfl
  all_goals rfl

theorem isSome_modelScalar (s : PyScalar O) :
    (modelScalar L s).isSome = s.canModel L := by
  rcases s with _ | b | n | q | s | (t | t) | o | _
  all_goals rfl

theorem isSome_modelKey (k : PyScalar O) : (modelKey L k).isSome = k.canModelKey L := by
  rcases k with _ | b | n | q | s | (t | t) | o | _
  all_goals first | rfl | simp [modelKey, PyScalar.canModelKey]

theorem canRead_iff (s : PyScalar O) : s.canRead L = true ↔
    (dumpScalar (fun _ ↦ none) s).isSome = true ∧
      (readScalar L ((dumpScalar L.str s).getD .null)).isSome = true := by
  rcases s with _ | b | n | q | s | (t | t) | o | _
  case int =>
    by_cases hn : hasText n = true
    · by_cases hbits : isInt64 n = true
      · simp [PyScalar.canRead, dumpScalar, readScalar, hn, hbits]
      · simp [PyScalar.canRead, dumpScalar, readScalar, hn, hbits]
    · simp [PyScalar.canRead, dumpScalar, hn]
  all_goals simp [PyScalar.canRead, dumpScalar, readScalar]

theorem canReadKey_iff (k : PyScalar O) : k.canReadKey = true ↔
    (dumpKey L k).isSome = true ∧ (readKey ((dumpKey L k).getD .null)).isSome = true := by
  rcases k with _ | b | n | q | s | (t | t) | o | _
  case int =>
    by_cases hn : hasText n = true
    · simp [PyScalar.canReadKey, dumpKey, readKey, hn]
    · simp [PyScalar.canReadKey, dumpKey, hn]
  all_goals simp [PyScalar.canReadKey, dumpKey, readKey]

/-! ## Dictionaries -/

/-- `json.dumps` can write it, with `default=str`. -/
structure CanDump (v : PyValue O) : Prop where
  height_le : v.height ≤ L.recursionLimit
  scalars : v.all (scalarIs (PyScalar.canDump L)) = true
  keys : v.all (keysAre PyScalar.canDumpKey) = true

/-- The extension can write it, and it means the same. -/
structure RustKeeps (v : PyValue O) : Prop where
  height_le : v.height ≤ min L.recursionLimit 127
  scalars : v.all (scalarIs (PyScalar.canRead L)) = true
  keys : v.all (keysAre PyScalar.canReadKey) = true
  numbers : ((form L v).collapse sameKey).all (scalarIs (kept L)) = true

/-- Pydantic can write it. -/
structure CanModel (v : PyValue O) : Prop where
  height_le : v.height ≤ L.modelLimit
  scalars : v.all (scalarIs (PyScalar.canModel L)) = true
  keys : v.all (keysAre (PyScalar.canModelKey L)) = true

theorem dumps_str_eq_some_iff {v : PyValue O} {doc : Json} :
    dumps L L.str v = some doc ↔ CanDump L v ∧ doc = form L v := by
  rw [dumps_eq_some_iff L fun _ _ h ↦ h]
  simp only [isSome_dumpScalar, isSome_dumpKey]
  exact ⟨fun ⟨hheight, ⟨hscalars, hkeys⟩, hdoc⟩ ↦ ⟨⟨hheight, hscalars, hkeys⟩, hdoc⟩,
    fun ⟨⟨hheight, hscalars, hkeys⟩, hdoc⟩ ↦ ⟨hheight, ⟨hscalars, hkeys⟩, hdoc⟩⟩

theorem exists_modelDump_iff (v : PyValue O) : (∃ m, modelDump L v = some m) ↔ CanModel L v := by
  have hscalar : ∀ s u, modelScalar L s = some u → (modelScalar L s).getD (.scalar .null) = u := by
    intro s u hu
    rw [hu, Option.getD_some]
  have hkey : ∀ k k', modelKey L k = some k' → (modelKey L k).getD .null = k' := by
    intro k k' hk
    rw [hk, Option.getD_some]
  simp only [modelDump, Option.ite_none_right_eq_some,
    KeyedTree.convert_eq_some_iff hscalar hkey, isSome_modelScalar, isSome_modelKey]
  exact ⟨fun ⟨_, hheight, ⟨hscalars, hkeys⟩, _⟩ ↦ ⟨hheight, hscalars, hkeys⟩,
    fun ⟨hheight, hscalars, hkeys⟩ ↦ ⟨_, hheight, ⟨hscalars, hkeys⟩, rfl⟩⟩

theorem pydictToJson_eq_some_iff {v : PyValue O} {line : Json} :
    pydictToJson L v = some line ↔ (v.height ≤ min L.recursionLimit 127 ∧
      v.all (scalarIs (PyScalar.canRead L)) = true ∧ v.all (keysAre PyScalar.canReadKey) = true) ∧
        line = ((form L v).mapLeaves (reread L)).collapse sameKey := by
  have hscalars : PyScalar.canRead L = fun s ↦ (dumpScalar (fun _ ↦ none) s).isSome &&
      (readScalar L ((dumpScalar L.str s).getD .null)).isSome := by
    funext s
    rw [Bool.eq_iff_iff, canRead_iff, Bool.and_eq_true]
  have hkeys : PyScalar.canReadKey = fun k : PyScalar O ↦ (dumpKey L k).isSome &&
      (readKey ((dumpKey L k).getD .null)).isSome := by
    funext k
    rw [Bool.eq_iff_iff, canReadKey_iff, Bool.and_eq_true]
  rw [pydictToJson, Option.bind_eq_some_iff, hscalars, hkeys, KeyedTree.all_scalarIs_and_iff,
    KeyedTree.all_keysAre_and_iff, Nat.le_min]
  simp only [dumps_eq_some_iff L (fun _ _ h ↦ absurd h (Option.some_ne_none _).symm)]
  constructor
  · rintro ⟨doc, ⟨hheight, ⟨hs, hk⟩, rfl⟩, hread⟩
    obtain ⟨hheight', ⟨hs', hk'⟩, hline⟩ := (fromStr_eq_some_iff L).mp hread
    rw [form, KeyedTree.height_graft] at hheight'
    rw [form, KeyedTree.all_scalarIs_graft] at hs'
    rw [form, KeyedTree.all_keysAre_graft] at hk'
    exact ⟨⟨⟨hheight, hheight'⟩, ⟨hs, hs'⟩, hk, hk'⟩, hline⟩
  · rintro ⟨⟨⟨hheight, hheight'⟩, ⟨hs, hs'⟩, hk, hk'⟩, hline⟩
    refine ⟨form L v, ⟨hheight, ⟨hs, hk⟩, rfl⟩, (fromStr_eq_some_iff L).mpr ⟨?_, ⟨?_, ?_⟩, hline⟩⟩
    · rw [form, KeyedTree.height_graft]
      exact hheight'
    · rw [form, KeyedTree.all_scalarIs_graft]
      exact hs'
    · rw [form, KeyedTree.all_keysAre_graft]
      exact hk'

theorem canDump_of_canRead {v : PyValue O} (hheight : v.height ≤ min L.recursionLimit 127)
    (hscalars : v.all (scalarIs (PyScalar.canRead L)) = true)
    (hkeys : v.all (keysAre PyScalar.canReadKey) = true) : CanDump L v where
  height_le := (Nat.le_min.mp hheight).1
  scalars := by
    refine KeyedTree.all_scalarIs_of_imp (fun s hs ↦ ?_) hscalars
    rcases s with _ | b | n | q | s | t | o | _
    · rfl
    · rfl
    · rw [PyScalar.canRead, Bool.and_eq_true] at hs
      rw [PyScalar.canDump, hs.1]
    · rfl
    · rfl
    · rfl
    · exact absurd hs Bool.false_ne_true
    · exact hs
  keys := by
    refine KeyedTree.all_keysAre_of_imp (fun k hk ↦ ?_) hkeys
    rcases k with _ | b | n | q | s | t | o | _
    · rfl
    · rfl
    · exact hk
    · rfl
    · rfl
    · rfl
    · exact hk
    · exact hk

theorem exists_pydictToJson_iff (v : PyValue O) :
    (∃ doc line, dumps L L.str v = some doc ∧ pydictToJson L v = some line ∧
      meaning line = meaning doc) ↔ RustKeeps L v := by
  constructor
  · rintro ⟨doc, line, hdoc, hline, hmeaning⟩
    obtain ⟨-, rfl⟩ := (dumps_str_eq_some_iff L).mp hdoc
    obtain ⟨⟨hheight, hscalars, hkeys⟩, rfl⟩ := (pydictToJson_eq_some_iff L).mp hline
    exact ⟨hheight, hscalars, hkeys, (meaning_reread_iff L _).mp hmeaning⟩
  · rintro ⟨hheight, hscalars, hkeys, hnumbers⟩
    exact ⟨_, _, (dumps_str_eq_some_iff L).mpr ⟨canDump_of_canRead L hheight hscalars hkeys, rfl⟩,
      (pydictToJson_eq_some_iff L).mpr ⟨⟨hheight, hscalars, hkeys⟩, rfl⟩,
      (meaning_reread_iff L _).mpr hnumbers⟩

/-! ## Reading what was written -/

section Fields

variable (skip : Bool) (x y z : Option Text) (s t : Text) (q : ℚ)

theorem optionalField_source :
    let source : Json := .map
      (optional skip "session_id" x ++ optional skip "client_ip" y ++ optional skip "user_id" z)
    optionalField "session_id" source = some x ∧ optionalField "client_ip" source = some y ∧
      optionalField "user_id" source = some z := by
  rcases skip <;> rcases x with _ | x <;> rcases y with _ | y <;> rcases z with _ | z <;>
    exact ⟨rfl, rfl, rfl⟩

theorem fields_target :
    let target : Json := .map (optional skip "backend" x ++
      [(name "method", text s), (name "capability_name", text t)] ++
        optional skip "original_name" y)
    optionalField "backend" target = some x ∧ textField "method" none target = some s ∧
      textField "capability_name" none target = some t ∧
        optionalField "original_name" target = some y := by
  rcases skip <;> rcases x with _ | x <;> rcases y with _ | y <;> exact ⟨rfl, rfl, rfl, rfl⟩

theorem fields_outcome :
    let outcome : Json := .map
      ([(name "status", text s), (name "latency_ms", .scalar (.float q))] ++
        optional skip "error" x ++ optional skip "error_type" y)
    textField "status" (some "success") outcome = some s ∧
      numberField "latency_ms" 0 outcome = some q ∧ optionalField "error" outcome = some x ∧
        optionalField "error_type" outcome = some y := by
  rcases skip <;> rcases x with _ | x <;> rcases y with _ | y <;> exact ⟨rfl, rfl, rfl, rfl⟩

end Fields

theorem readEvent_eventDoc {μ : Type} (skip : Bool) (e : AuditEvent μ) (d : List (Token × Json)) :
    readEvent (eventDoc skip e (.map d)) = some (e.withMetadata (.map d)) := by
  obtain ⟨hsession, hclient, huser⟩ := optionalField_source skip e.sessionId e.clientIp e.userId
  obtain ⟨hbackend, hmethod, hcapability, horiginal⟩ :=
    fields_target skip e.backend e.originalName e.method e.capabilityName
  obtain ⟨hstatus, hlatency, herror, htype⟩ :=
    fields_outcome skip e.error e.errorType e.status e.latencyMs
  -- the members that are always there are looked up by computation
  refine Option.bind_eq_some_iff.mpr ⟨_, hsession, ?_⟩
  refine Option.bind_eq_some_iff.mpr ⟨_, hclient, ?_⟩
  refine Option.bind_eq_some_iff.mpr ⟨_, huser, ?_⟩
  refine Option.bind_eq_some_iff.mpr ⟨_, rfl, ?_⟩
  refine Option.bind_eq_some_iff.mpr ⟨_, hbackend, ?_⟩
  refine Option.bind_eq_some_iff.mpr ⟨_, hmethod, ?_⟩
  refine Option.bind_eq_some_iff.mpr ⟨_, hcapability, ?_⟩
  refine Option.bind_eq_some_iff.mpr ⟨_, horiginal, ?_⟩
  refine Option.bind_eq_some_iff.mpr ⟨_, rfl, ?_⟩
  refine Option.bind_eq_some_iff.mpr ⟨_, hstatus, ?_⟩
  refine Option.bind_eq_some_iff.mpr ⟨_, hlatency, ?_⟩
  refine Option.bind_eq_some_iff.mpr ⟨_, herror, ?_⟩
  refine Option.bind_eq_some_iff.mpr ⟨_, htype, ?_⟩
  exact Option.bind_eq_some_iff.mpr ⟨_, rfl, rfl⟩

/-! ## What is to be written -/

def metadataForm (useRust : Bool) (e : PyEvent O) : Option Json :=
  if useRust then dumps L L.str e.dict else modelDump L e.dict

/-- One line is written, which is the event again, with its metadata in JSON form. -/
def EventWritten (useRust : Bool) (lines : List Json) (e : PyEvent O) : Prop :=
  ∃ form line metadata, metadataForm L useRust e = some form ∧
    emit L useRust lines e = lines ++ [line] ∧
      readEvent line = some (e.withMetadata metadata) ∧ meaning metadata = meaning form

/-- One line is written, which means what `json.dumps(data, default=str)` does. -/
def DictWritten (useRust : Bool) (lines : List Json) (data : List (PyScalar O × PyValue O)) :
    Prop :=
  ∃ doc line, dumps L L.str (.map data) = some doc ∧
    emitDict L useRust lines data = lines ++ [line] ∧ meaning line = meaning doc

theorem log_eq_append_singleton_iff {lines : List Json} {line : Json} {written : Option Json} :
    log lines written = lines ++ [line] ↔ written = some line := by
  rw [log, List.append_cancel_left_eq]
  rcases written with _ | line'
  · exact iff_of_false (List.cons_ne_nil _ _).symm (Option.some_ne_none _).symm
  · exact List.singleton_inj.trans (Option.some_inj).symm

def EventReady (useRust : Bool) (e : PyEvent O) : Prop :=
  e.texts.all Text.isUnicode = true ∧ if useRust then RustKeeps L e.dict else CanModel L e.dict

def DictReady (useRust : Bool) (data : List (PyScalar O × PyValue O)) : Prop :=
  if useRust then RustKeeps L (.map data) else CanDump L (.map data)

theorem dictWritten_iff (useRust : Bool) (lines : List Json)
    (data : List (PyScalar O × PyValue O)) :
    DictWritten L useRust lines data ↔ DictReady L useRust data := by
  rw [DictWritten, DictReady]
  simp only [emitDict, log_eq_append_singleton_iff]
  rcases useRust
  · constructor
    · rintro ⟨doc, -, hdoc, -, -⟩
      exact ((dumps_str_eq_some_iff L).mp hdoc).1
    · intro h
      have hdoc := (dumps_str_eq_some_iff L).mpr ⟨h, rfl⟩
      exact ⟨_, _, hdoc, hdoc, rfl⟩
  · exact exists_pydictToJson_iff L _

theorem exists_written_iff {skip : Bool} {e : PyEvent O} {form : Json} {written : Option Json}
    (hmap : ∀ m, written = some m → ∃ d, m = .map d) :
    (∃ line, encode e (written.map (eventDoc skip e)) = some line ∧ ∃ metadata,
      readEvent line = some (e.withMetadata metadata) ∧ meaning metadata = meaning form) ↔
        e.texts.all Text.isUnicode = true ∧ ∃ m, written = some m ∧ meaning m = meaning form := by
  constructor
  · rintro ⟨line, hline, metadata, hread, hmeaning⟩
    obtain ⟨htexts, hline⟩ := Option.ite_none_right_eq_some.mp hline
    refine ⟨htexts, ?_⟩
    obtain ⟨m, hm, rfl⟩ := Option.map_eq_some_iff.mp hline
    obtain ⟨d, rfl⟩ := hmap m hm
    rw [readEvent_eventDoc] at hread
    have hsame : KeyedTree.map d = metadata := congrArg AuditEvent.metadata (Option.some.inj hread)
    exact ⟨.map d, hm, hsame ▸ hmeaning⟩
  · rintro ⟨htexts, m, hm, hmeaning⟩
    obtain ⟨d, rfl⟩ := hmap m hm
    rw [hm, encode, if_pos htexts]
    exact ⟨_, rfl, .map d, readEvent_eventDoc skip e d, hmeaning⟩

theorem serializeAuditEvent_eq (e : PyEvent O) :
    serializeAuditEvent L e = encode e ((pydictToJson L e.dict).map (eventDoc true e)) := by
  rw [serializeAuditEvent]
  split
  · rename_i hempty
    have hdumps : dumps L (fun _ ↦ none) (.map []) = some (.map []) := if_pos L.recursionLimit_pos
    rw [PyEvent.dict, hempty, List.map_nil, pydictToJson, hdumps]
    rfl
  · rfl

theorem eventWritten_iff (useRust : Bool) (lines : List Json) (e : PyEvent O) :
    EventWritten L useRust lines e ↔ EventReady L useRust e := by
  rw [EventWritten, EventReady]
  simp only [emit, log_eq_append_singleton_iff, metadataForm, exists_and_left]
  rcases useRust
  · have hmap : ∀ m, modelDump L e.dict = some m → ∃ d, m = .map d := by
      intro m hm
      obtain ⟨-, hm⟩ := Option.ite_none_right_eq_some.mp hm
      obtain ⟨d, -, rfl⟩ := Option.map_eq_some_iff.mp hm
      exact ⟨d, rfl⟩
    refine Iff.trans ?_ (and_congr_right fun _ ↦ exists_modelDump_iff L e.dict)
    rw [← exists_and_left]
    refine exists_congr fun form ↦ and_comm.trans ?_
    refine and_congr_left fun hform ↦ (exists_written_iff hmap).trans (and_iff_left ?_)
    exact ⟨form, hform, rfl⟩
  · have hmap : ∀ m, pydictToJson L e.dict = some m → ∃ d, m = .map d := by
      intro m hm
      obtain ⟨-, rfl⟩ := (pydictToJson_eq_some_iff L).mp hm
      exact ⟨_, rfl⟩
    refine Iff.trans ?_ (and_congr_right fun _ ↦ exists_pydictToJson_iff L e.dict)
    rw [← exists_and_left]
    refine exists_congr fun form ↦ ?_
    rw [exists_and_left, and_left_comm]
    refine and_congr_right fun _ ↦ ?_
    rw [if_pos rfl, serializeAuditEvent_eq]
    exact exists_written_iff hmap

/-- **Every line is written** and means what it should, just in case what it is made of can be
written, and means the same when the extension has read it. -/
theorem written_iff (useRust : Bool) (lines : List Json) (e : PyEvent O)
    (data : List (PyScalar O × PyValue O)) :
    (EventWritten L useRust lines e ↔ EventReady L useRust e) ∧
      (DictWritten L useRust lines data ↔ DictReady L useRust data) :=
  ⟨eventWritten_iff L useRust lines e, dictWritten_iff L useRust lines data⟩

end Serializers

/-- The only object is a point in time. -/
def oneDate : Libraries Unit where
  str _ := some (.unicode "2026-01-01 00:00:00")
  repr q := toString q
  recursionLimit := 1000
  recursionLimit_pos := by decide
  model _ := some (text (.unicode "2026-01-01T00:00:00"))
  modelKey _ := some "2026-01-01T00:00:00"
  modelLimit := 255
  modelLimit_pos := by decide
  readInt n := some n
  readFloat q := some q

def someEvent : PyEvent Unit where
  timestamp := .unicode "2026-01-01T00:00:00+00:00"
  eventType := .unicode "mcp_operation"
  eventId := .unicode "1"
  sessionId := none
  clientIp := none
  userId := none
  backend := none
  method := .unicode "tools/call"
  capabilityName := .unicode "echo"
  originalName := none
  status := .unicode "success"
  latencyMs := 0
  error := none
  errorType := none
  metadata := []

/-- A dictionary with a point in time in it is not written by the extension. -/
theorem not_forall_written :
    ¬ ∀ (useRust : Bool) (lines : List Json) (e : PyEvent Unit)
      (data : List (PyScalar Unit × PyValue Unit)),
        EventWritten oneDate useRust lines e ∧ DictWritten oneDate useRust lines data := by
  intro h
  have hdict := (h true [] someEvent [(.str (.unicode "at"), .scalar (.obj ()))]).2
  have hready := (dictWritten_iff oneDate true [] _).mp hdict
  exact absurd hready.scalars (by decide)

end Audit

end ArgusMcp
