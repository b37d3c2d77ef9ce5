import ArgusMcp.Config.Loader
import ArgusMcp.Library.ExtRat
import ArgusMcp.Library.KeyedTree

/-!
# Two parsers for the config file

`_read_config_file` (`config/loader.py`) parses the config file with a parser in Rust
(`config/_yaml_rs/src/lib.rs`) where it is installed, and with `yaml.safe_load` where it is not. Both
are taken to build the same document of a text, or to reject it; what they make of the document is
modelled.

The parser in Rust has limits for the size of the text and the number of nodes. It writes the document
as JSON and has Python read that: keys become strings, if they can, and numbers that are not finite
become `null`. What goes wrong there is not a `YAMLError`, so the loader lets it through.

## When the parsers agree

The two come to the same thing exactly if the text is accepted and within the limits, and, where it
is a mapping, JSON has all that is in it (`sameOutcome_iff`).
-/

namespace ArgusMcp

open KeyedTree Loader

namespace YamlParsers

/-! ## Documents -/

inductive Scalar where
  | null
  | bool (b : Bool)
  | int (n : ℤ)
  | float (x : ExtRat)
  | str (s : String)
  deriving DecidableEq

abbrev Tree := KeyedTree Scalar

/-- What is built of a text that is accepted. No mapping has a key twice. -/
structure Document where
  tree : Tree
  distinct : tree.all distinctKeys = true

/-- The value of a number. Truth values are numbers. -/
def Scalar.number : Scalar → Option ExtRat
  | .bool b => some (.fin (if b then 1 else 0))
  | .int n => some (.fin n)
  | .float x => some x
  | _ => none

/-- What Python holds to be the same key. -/
def Scalar.same (a b : Scalar) : Bool :=
  decide (a = b) || (a.number.isSome && decide (a.number = b.number))

def Scalar.isStr : Scalar → Bool
  | .str _ => true
  | _ => false

def isMap : Tree → Bool
  | .map _ => true
  | _ => false

/-! ## Python -/

section

variable (parse : String → Except String Document)

def safeLoad (text : String) : Except Raised Tree :=
  match parse text with
  | .error e => .error ⟨.yamlError, "YAMLError", e⟩
  | .ok document => .ok (document.tree.collapse Scalar.same)

/-! ## JSON -/

/-- JSON has no numbers that are not finite. -/
def jsonScalar : Scalar → Scalar
  | .float x => if x.isFinite then .float x else .null
  | s => s

variable (floatText : ℚ → String)

/-- `serde_json` writes keys as strings. -/
def jsonKey : Scalar → Except String Scalar
  | .null => .error "key must be a string"
  | .bool b => .ok (.str (if b then "true" else "false"))
  | .int n => .ok (.str (toString n))
  | .float (.fin q) => .ok (.str (floatText q))
  | .float _ => .error "float key must be finite (got NaN or +/-inf)"
  | .str s => .ok (.str s)

/-- Python does not read numbers of more than 4300 digits. -/
def isShort : Scalar → Bool
  | .int n => decide ((Nat.toDigits 10 n.natAbs).length ≤ 4300)
  | _ => true

/-- `json.loads`. -/
def jsonLoads (json : Tree) : Except Raised Tree :=
  if json.all (scalarIs isShort) then .ok (json.collapse Scalar.same)
  else .error (valueError "Exceeds the limit (4300 digits) for integer string conversion")

/-! ## Rust -/

/-- `MAX_YAML_BYTES`, 10 MiB. -/
def maxYamlBytes : ℕ := 10485760

def maxYamlNodes : ℕ := 10000

/-- From the document to the object, by way of JSON. -/
def convert (t : Tree) : Except Raised Tree :=
  match t.rewrite jsonScalar (jsonKey floatText) with
  | .error e => .error ⟨.other, "RuntimeError", "YAML→JSON conversion error: " ++ e⟩
  | .ok json => jsonLoads json

def parseYaml (text : String) : Except Raised Tree :=
  if maxYamlBytes < text.utf8ByteSize then
    .error (valueError ("YAML input exceeds size limit (" ++ toString text.utf8ByteSize ++
      " bytes > " ++ toString maxYamlBytes ++ " bytes)"))
  else
    match parse text with
    | .error e => .error (valueError ("YAML parse error: " ++ e))
    | .ok document =>
      if maxYamlNodes < document.tree.nodes then
        .error (valueError ("YAML node count exceeds limit (" ++ toString document.tree.nodes ++
          " > " ++ toString maxYamlNodes ++ ")"))
      else convert floatText document.tree

/-! ## The loader -/

/-- What is made of an exception. -/
def onError (path : String) (e : Raised) : Raised :=
  if e.cls = .osError ∨ e.cls = .yamlError then
    configurationError ("Error reading configuration file: " ++ path ++ "\n  " ++ e.message)
  else e

/-- `_read_config_file`, with what has come of reading and parsing. The keys of a dictionary may be any
scalars here. -/
def readConfigFile (path : String) (rawData : Except Raised Tree) : Except Raised Tree :=
  if isYaml path = false then
    .error (configurationError ("Unsupported config file extension '" ++
      String.ofList ((extension path).map Char.toLower) ++
      "'. Only YAML files (.yaml, .yml) are supported."))
  else
    match rawData with
    | .error e => .error (onError path e)
    | .ok t =>
      if isMap t then .ok t
      else .error (configurationError
        "Top-level configuration content must be a YAML mapping (dictionary).")

/-! ## What the conversion keeps -/

/-- The two come to the same object, or both to a `ConfigurationError`. -/
def SameOutcome (x y : Except Raised Tree) : Prop :=
  (∃ t, x = .ok t ∧ y = .ok t) ∨
    ∃ e e', x = .error e ∧ y = .error e' ∧
      e.cls = .configurationError ∧ e'.cls = .configurationError

/-- What JSON keeps. -/
def isFiniteScalar : Scalar → Bool
  | .float x => x.isFinite
  | _ => true

/-- What can be written as a key in JSON. -/
def isWritable : Scalar → Bool
  | .null => false
  | .float x => x.isFinite
  | _ => true

/-- The document can be converted: as it is, if it is a mapping, and else in any way. -/
def Convertible (t : Tree) : Prop :=
  t.all (scalarIs isShort) = true ∧
    if isMap t then t.all (keysAre Scalar.isStr) = true ∧ t.all (scalarIs isFiniteScalar) = true
    else t.all (keysAre isWritable) = true

variable {floatText}

theorem isOk_jsonKey (k : Scalar) : (jsonKey floatText k).isOk = isWritable k := by
  rcases k with _ | b | n | x | s
  case float =>
    rcases x with q | _ | _ | _
    all_goals rfl
  all_goals rfl

theorem isStr_of_jsonKey (k k' : Scalar) (h : jsonKey floatText k = .ok k') : k'.isStr = true := by
  rcases k with _ | b | n | x | s
  case null => exact absurd h (by simp [jsonKey])
  case float =>
    rcases x with q | _ | _ | _
    case fin => exact Except.ok.inj h ▸ rfl
    all_goals exact absurd h (by simp [jsonKey])
  all_goals exact Except.ok.inj h ▸ rfl

theorem jsonKey_of_isStr (k : Scalar) (h : k.isStr = true) : jsonKey floatText k = .ok k := by
  rcases k with _ | b | n | x | s
  case str => rfl
  all_goals exact absurd h Bool.false_ne_true

theorem isFiniteScalar_iff (s : Scalar) : isFiniteScalar s = true ↔ jsonScalar s = s := by
  rcases s with _ | b | n | x | s
  case float =>
    rw [isFiniteScalar, jsonScalar]
    rcases x.isFinite with _ | _
    · simp
    · simp
  all_goals exact iff_of_true rfl rfl

theorem isShort_jsonScalar (s : Scalar) : isShort (jsonScalar s) = isShort s := by
  rcases s with _ | b | n | x | s
  case float =>
    rw [jsonScalar]
    split
    · rfl
    · rfl
  all_goals rfl

theorem eq_of_same (a b : Scalar) (ha : a.isStr = true) (hsame : Scalar.same a b = true) :
    a = b := by
  rcases a with _ | c | n | x | s
  case str => simpa [Scalar.same, Scalar.number] using hsame
  all_goals exact absurd ha Bool.false_ne_true

theorem isStr_of_same (a b : Scalar) (h : Scalar.same a b = true) : a.isStr = b.isStr := by
  rw [Scalar.same, Bool.or_eq_true, Bool.and_eq_true, decide_eq_true_iff, decide_eq_true_iff] at h
  rcases h with rfl | ⟨hnumber, heq⟩
  · rfl
  have hnot : ∀ c : Scalar, c.number.isSome = true → c.isStr = false := by
    rintro (_ | _ | _ | _ | _) hc
    case str => exact absurd hc Bool.false_ne_true
    all_goals rfl
  rw [hnot a hnumber, hnot b (heq ▸ hnumber)]

theorem isMap_collapse (t : Tree) : isMap (t.collapse Scalar.same) = isMap t := by
  rcases t with s | l | d
  · rfl
  · rfl
  · rfl

theorem isMap_rewrite {t t' : Tree} (h : t.rewrite jsonScalar (jsonKey floatText) = .ok t') :
    isMap t' = isMap t := by
  rcases t with s | l | d
  · exact Except.ok.inj h ▸ rfl
  · obtain ⟨l', -, rfl⟩ := map_eq_ok_iff.mp h
    rfl
  · obtain ⟨d', -, rfl⟩ := map_eq_ok_iff.mp h
    rfl

theorem convert_eq_ok_iff {t u : Tree} :
    convert floatText t = .ok u ↔ t.all (scalarIs isShort) = true ∧
      ∃ t', t.rewrite jsonScalar (jsonKey floatText) = .ok t' ∧ t'.collapse Scalar.same = u := by
  rw [convert]
  rcases hrewrite : t.rewrite jsonScalar (jsonKey floatText) with e | json
  · simp
  · rw [← all_scalarIs_rewrite isShort_jsonScalar hrewrite]
    dsimp only
    rw [jsonLoads]
    split
    · rename_i hshort
      simp [hshort]
    · rename_i hlong
      simp [hlong]

theorem cls_of_convert {t : Tree} {e : Raised} (h : convert floatText t = .error e) :
    e.cls = .other ∨ e.cls = .valueError := by
  rw [convert] at h
  split at h
  · exact Or.inl (Except.error.inj h ▸ rfl)
  · rw [jsonLoads] at h
    split at h
    · exact absurd h (by simp)
    · exact Or.inr (Except.error.inj h ▸ rfl)

/-- **When the conversion keeps what Python makes of the document.** -/
theorem convert_eq_collapse_iff (document : Document) :
    convert floatText document.tree = .ok (document.tree.collapse Scalar.same) ↔
      document.tree.all (scalarIs isShort) = true ∧
        document.tree.all (keysAre Scalar.isStr) = true ∧
          document.tree.all (scalarIs isFiniteScalar) = true := by
  rw [convert_eq_ok_iff, collapse_rewrite_eq_iff (fun a b ha _ ↦ eq_of_same a b ha) isStr_of_same
    jsonKey_of_isStr isStr_of_jsonKey isFiniteScalar_iff document.tree document.distinct]

/-! ## When the parsers agree -/

/-- The text is accepted and within the limits, and its document can be converted. -/
def Fits (parse : String → Except String Document) (text : String) : Prop :=
  text.utf8ByteSize ≤ maxYamlBytes ∧ ∃ document, parse text = .ok document ∧
    document.tree.nodes ≤ maxYamlNodes ∧ Convertible document.tree

theorem not_sameOutcome {e : Raised} {y : Except Raised Tree} (h : e.cls ≠ .configurationError) :
    ¬ SameOutcome (.error e) y := by
  rintro (⟨t, ht, -⟩ | ⟨e', -, he', -, hcls, -⟩)
  · exact absurd ht (by simp)
  · exact h (Except.error.inj he' ▸ hcls)

theorem readConfigFile_error {path : String} (hpath : isYaml path = true) {e : Raised}
    (h : e.cls = .other ∨ e.cls = .valueError) : readConfigFile path (.error e) = .error e := by
  have hcls : ¬ (e.cls = .osError ∨ e.cls = .yamlError) := by
    rcases h with h | h
    · simp [h]
    · simp [h]
  rw [readConfigFile, if_neg (by simp [hpath]), onError, if_neg hcls]

theorem not_sameOutcome_error {path : String} (hpath : isYaml path = true) {e : Raised}
    {y : Except Raised Tree} (h : e.cls = .other ∨ e.cls = .valueError) :
    ¬ SameOutcome (readConfigFile path (.error e)) y := by
  rw [readConfigFile_error hpath h]
  apply not_sameOutcome
  rcases h with h | h
  · simp [h]
  · simp [h]

theorem readConfigFile_ok {path : String} (hpath : isYaml path = true) (t : Tree) :
    readConfigFile path (.ok t) =
      if isMap t then .ok t
      else .error (configurationError
        "Top-level configuration content must be a YAML mapping (dictionary).") := by
  rw [readConfigFile, if_neg (by simp [hpath])]

/-- **When the converted document has the same outcome** as the document. -/
theorem sameOutcome_convert_iff {path : String} (hpath : isYaml path = true)
    (document : Document) :
    SameOutcome (readConfigFile path (convert floatText document.tree))
        (readConfigFile path (.ok (document.tree.collapse Scalar.same))) ↔
      Convertible document.tree := by
  rw [readConfigFile_ok hpath, isMap_collapse, Convertible]
  rcases hmap : isMap document.tree with _ | _
  · -- both refuse a document that is no mapping, if the conversion goes well
    have hwritable : (fun k ↦ (jsonKey floatText k).isOk) = isWritable := funext isOk_jsonKey
    rw [if_neg Bool.false_ne_true, if_neg Bool.false_ne_true, ← hwritable, ← exists_rewrite_iff]
    rcases hconvert : convert floatText document.tree with e | u
    · refine iff_of_false (not_sameOutcome_error hpath (cls_of_convert hconvert)) ?_
      rintro ⟨hshort, t', ht'⟩
      have hok := convert_eq_ok_iff.mpr ⟨hshort, t', ht', rfl⟩
      exact absurd (hconvert.symm.trans hok) (by simp)
    · obtain ⟨hshort, t', ht', rfl⟩ := convert_eq_ok_iff.mp hconvert
      rw [readConfigFile_ok hpath, isMap_collapse, isMap_rewrite ht', hmap,
        if_neg Bool.false_ne_true]
      exact iff_of_true (Or.inr ⟨_, _, rfl, rfl, rfl, rfl⟩) ⟨hshort, t', ht'⟩
  · rw [if_pos rfl, if_pos rfl, ← convert_eq_collapse_iff]
    rcases hconvert : convert floatText document.tree with e | u
    · exact iff_of_false (not_sameOutcome_error hpath (cls_of_convert hconvert)) (by simp)
    · obtain ⟨-, t', ht', rfl⟩ := convert_eq_ok_iff.mp hconvert
      rw [readConfigFile_ok hpath, isMap_collapse, isMap_rewrite ht', hmap, if_pos rfl]
      constructor
      · rintro (⟨t, ht, ht'⟩ | ⟨e, -, he, -⟩)
        · rw [ht, ht']
        · exact absurd he (by simp)
      · exact fun h ↦ Or.inl ⟨_, h, rfl⟩

/-- **When the parsers agree.** For every text, reading the config file has the same outcome with
both exactly if the file is refused for its name, or the text fits. -/
theorem sameOutcome_iff (parse : String → Except String Document) (floatText : ℚ → String)
    (path text : String) :
    SameOutcome (readConfigFile path (parseYaml parse floatText text))
        (readConfigFile path (safeLoad parse text)) ↔
      isYaml path = false ∨ Fits parse text := by
  rcases hpath : isYaml path with _ | _
  · refine iff_of_true (Or.inr ?_) (Or.inl rfl)
    rw [readConfigFile.eq_def, readConfigFile.eq_def, if_pos hpath, if_pos hpath]
    exact ⟨_, _, rfl, rfl, rfl, rfl⟩
  rw [or_iff_right (by simp), Fits, parseYaml]
  by_cases hsize : maxYamlBytes < text.utf8ByteSize
  · rw [if_pos hsize]
    exact iff_of_false (not_sameOutcome_error hpath (Or.inr rfl)) fun h ↦ by omega
  rw [if_neg hsize, and_iff_right (by omega), safeLoad]
  rcases hparse : parse text with e | document
  · exact iff_of_false (not_sameOutcome_error hpath (Or.inr rfl)) (by simp)
  dsimp only
  by_cases hnodes : maxYamlNodes < document.tree.nodes
  · rw [if_pos hnodes]
    refine iff_of_false (not_sameOutcome_error hpath (Or.inr rfl)) ?_
    rintro ⟨document', hdocument, hle, -⟩
    obtain rfl := Except.ok.inj hdocument
    omega
  · rw [if_neg hnodes, sameOutcome_convert_iff hpath]
    constructor
    · exact fun h ↦ ⟨document, rfl, by omega, h⟩
    · rintro ⟨document', hdocument, -, h⟩
      exact Except.ok.inj hdocument ▸ h

/-- A text that is rejected is a `ConfigurationError` to one of them only. -/
theorem not_forall_sameOutcome :
    ¬ ∀ (parse : String → Except String Document) (floatText : ℚ → String) (path text : String),
      SameOutcome (readConfigFile path (parseYaml parse floatText text))
        (readConfigFile path (safeLoad parse text)) := by
  intro h
  have hread := h (fun _ ↦ .error "did not find expected ',' or ']'") (fun _ ↦ "") "config.yaml"
    "backends: ["
  exact not_sameOutcome_error (by decide) (Or.inr rfl) hread

end

end YamlParsers

end ArgusMcp
