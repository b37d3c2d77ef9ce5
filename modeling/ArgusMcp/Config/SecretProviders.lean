import ArgusMcp.Library.Dict
import ArgusMcp.Library.KeyValue
import ArgusMcp.Library.Value
import Mathlib.Data.List.Sort
import Mathlib.Data.List.Dedup

/-!
# Where secrets are kept

A secret is kept in the environment, in an encrypted file, or in the keyring of the system
(`secrets/providers.py`). The three providers have the same four methods, and are meant to be maps
from names to values: what one gets is what was set last, and the names that are listed are those
that are set.

What they are built on is taken to work. The environment and the keyring are dictionaries, a file
that was written can be decrypted, and what `json.dumps` makes of a list of names is read back by
`json.loads`.

## Names that fold, and a name that is taken

The environment has names of its own: a secret is kept under its name in capitals, with underscores,
and listed in small letters, with hyphens. The provider is a map exactly on names that are listed as
they are (`EnvProvider.faithfulOn_iff`). The keyring has an entry more, for the list of names. The
provider is a map exactly on names other than that of this entry (`KeyringProvider.faithfulOn_iff`).
The file is a map on all names (`FileProvider.faithfulOn`).
-/

namespace ArgusMcp

open KeyValue

/-! ## The environment -/

namespace EnvProvider

/-- `str.upper` and `str.lower`. -/
structure Letters where
  upper : String → String
  lower : String → String

variable (letters : Letters)

/-- `s.replace('-', '_')`. -/
def underscores (s : String) : String :=
  .ofList (s.toList.map fun c ↦ if c = '-' then '_' else c)

/-- `s.replace("_", "-")`. -/
def hyphens (s : String) : String :=
  .ofList (s.toList.map fun c ↦ if c = '_' then '-' else c)

def envKey (name : String) : String := "SECRET_" ++ underscores (letters.upper name)

/-- What `list_names` makes of a variable. -/
def listedName (k : String) : Option String :=
  if "SECRET_".toList.isPrefixOf k.toList then
    some (hyphens (letters.lower (.ofList (k.toList.drop 7))))
  else none

/-- The methods of `EnvProvider`. -/
def step (environ : Dict String String) :
    Op String String → Dict String String × Answer String String
  | .set name value => (environ.set (envKey letters name) value, .done)
  | .get name => (environ, .value (environ.get? (envKey letters name)))
  | .delete name => (environ.del (envKey letters name), .done)
  | .listNames => (environ, .names (environ.keys.filterMap (listedName letters)))

def listedAs (name : String) : String :=
  hyphens (letters.lower (underscores (letters.upper name)))

variable {letters} {S : Set String} {environ : Dict String String}

theorem listedName_envKey (name : String) :
    listedName letters (envKey letters name) = some (listedAs letters name) := by
  have hlist : (envKey letters name).toList
      = "SECRET_".toList ++ (underscores (letters.upper name)).toList := String.toList_append
  have hdrop : (envKey letters name).toList.drop 7
      = (underscores (letters.upper name)).toList := by
    rw [hlist]
    exact List.drop_left' (by decide)
  rw [listedName, hdrop, String.ofList_toList, if_pos, listedAs]
  rw [hlist, List.isPrefixOf_iff_prefix]
  exact List.prefix_append _ _

theorem eq_of_envKey_eq {m n : String} (hm : listedAs letters m = m) (hn : listedAs letters n = n)
    (h : envKey letters m = envKey letters n) : m = n := by
  have hlisted := congrArg (listedName letters) h
  rw [listedName_envKey, listedName_envKey, hm, hn] at hlisted
  exact Option.some.inj hlisted

/-- The variables that hold secrets are those of the names that are set. -/
structure Holds (letters : Letters) (S : Set String) (f : String → Option String)
    (environ : Dict String String) : Prop where
  get : ∀ n ∈ S, environ.get? (envKey letters n) = f n
  outside : ∀ n, n ∉ S → f n = none
  listed : ∀ k ∈ environ.keys, ∀ m, listedName letters k = some m → ∃ n ∈ S, k = envKey letters n

theorem Holds.right_listNames (hS : ∀ n ∈ S, listedAs letters n = n) {f : String → Option String}
    (h : Holds letters S f environ) :
    Right f (.listNames : Op String String) (step letters environ .listNames).2 := by
  refine ⟨_, rfl, ?_, fun n ↦ ?_⟩
  · have hkeys : environ.keys.Pairwise (· ≠ ·) := environ.nodup_keys
    refine List.pairwise_filterMap.mpr (hkeys.imp_of_mem ?_)
    intro k k' hk hk' hne m hm m' hm' heq
    obtain ⟨n, hn, rfl⟩ := h.listed k hk m hm
    obtain ⟨n', hn', rfl⟩ := h.listed k' hk' m' hm'
    rw [listedName_envKey, hS n hn] at hm
    rw [listedName_envKey, hS n' hn'] at hm'
    have hnames : n = n' := by rw [Option.some.inj hm, Option.some.inj hm', heq]
    exact hne (congrArg (envKey letters) hnames)
  · rw [List.mem_filterMap]
    constructor
    · rintro ⟨k, hk, hlisted⟩
      obtain ⟨n', hn', rfl⟩ := h.listed k hk n hlisted
      rw [listedName_envKey, hS n' hn'] at hlisted
      obtain rfl := Option.some.inj hlisted
      obtain ⟨v, hv⟩ := Dict.mem_keys_iff.mp hk
      exact ⟨v, (h.get n' hn').symm.trans hv⟩
    · rintro ⟨v, hv⟩
      have hn : n ∈ S := by
        by_contra hout
        exact absurd ((h.outside n hout).symm.trans hv) (by simp)
      refine ⟨envKey letters n, Dict.mem_keys_iff.mpr ⟨v, (h.get n hn).trans hv⟩, ?_⟩
      rw [listedName_envKey, hS n hn]

theorem Holds.update (hS : ∀ n ∈ S, listedAs letters n = n) {f : String → Option String}
    (h : Holds letters S f environ) {name : String} (hname : name ∈ S) {o : Option String}
    {environ' : Dict String String}
    (hget : ∀ k, environ'.get? k = if k = envKey letters name then o else environ.get? k) :
    Holds letters S (Function.update f name o) environ' where
  get n hn := by
    rw [hget, Function.update_apply, h.get n hn]
    by_cases heq : n = name
    · rw [if_pos (congrArg (envKey letters) heq), if_pos heq]
    · rw [if_neg fun hkey ↦ heq (eq_of_envKey_eq (hS n hn) (hS name hname) hkey), if_neg heq]
  outside n hn := by
    have hne : n ≠ name := fun heq ↦ hn (heq ▸ hname)
    rw [Function.update_of_ne hne]
    exact h.outside n hn
  listed k hk m hm := by
    obtain ⟨v, hv⟩ := Dict.mem_keys_iff.mp hk
    rw [hget] at hv
    split at hv
    · rename_i hkey
      exact ⟨name, hname, hkey⟩
    · exact h.listed k (Dict.mem_keys_iff.mpr ⟨v, hv⟩) m hm

/-- **The environment is a map** exactly on names that are listed as they are. -/
theorem faithfulOn_iff (hclean : ∀ k ∈ environ.keys, listedName letters k = none) :
    FaithfulOn (step letters) environ S ↔ ∀ n ∈ S, listedAs letters n = n := by
  constructor
  · intro h n hn
    -- a single name is set, and so there must be a single name in the listing
    have hright := h [.set n ""] .listNames fun o ho m hm ↦ by
      rcases List.mem_cons.mp ho with rfl | ho
      · exact Option.some.inj hm ▸ hn
      · rcases List.mem_cons.mp ho with rfl | ho
        · exact absurd hm (by simp [Op.name?])
        · exact absurd ho List.not_mem_nil
    obtain ⟨l, hl, -, hmem⟩ := hright
    have hcurrent : current [(.set n "" : Op String String)] n = some "" := by
      rw [current_singleton, apply, Function.update_self]
    have hanswer : (environ.set (envKey letters n) "").keys.filterMap (listedName letters) = l :=
      Answer.names.inj hl
    have hlisted : n ∈ (environ.set (envKey letters n) "").keys.filterMap (listedName letters) := by
      rw [hanswer]
      exact (hmem n).mpr ⟨"", hcurrent⟩
    obtain ⟨k, hk, hname⟩ := List.mem_filterMap.mp hlisted
    rcases Dict.mem_keys_set.mp hk with rfl | hk
    · rw [listedName_envKey] at hname
      exact Option.some.inj hname
    · exact absurd ((hclean k hk).symm.trans hname) (by simp)
  · intro hS
    refine faithfulOn_of_invariant (Holds letters S) ⟨fun n hn ↦ ?_, fun _ _ ↦ rfl, ?_⟩ ?_
    · rcases hget : environ.get? (envKey letters n) with _ | v
      · rfl
      · have hnone := hclean _ (Dict.mem_keys_iff.mpr ⟨v, hget⟩)
        exact absurd ((listedName_envKey n).symm.trans hnone) (by simp)
    · intro k hk m hm
      exact absurd ((hclean k hk).symm.trans hm) (by simp)
    · intro f t op hop hinv
      rcases op with ⟨name, value⟩ | name | name | _
      · exact ⟨hinv.update hS (hop name rfl) fun _ ↦ Dict.get?_set .., rfl⟩
      · exact ⟨hinv, congrArg Answer.value (hinv.get name (hop name rfl))⟩
      · exact ⟨hinv.update hS (hop name rfl) fun _ ↦ Dict.get?_del .., rfl⟩
      · exact ⟨hinv, hinv.right_listNames hS⟩

def asciiLetters : Letters where
  upper s := .ofList (s.toList.map Char.toUpper)
  lower s := .ofList (s.toList.map Char.toLower)

/-- **Two names may share a variable.** What is set under the name `a-b` is there under `A_B`. -/
theorem not_faithfulOn_nonempty :
    ¬ FaithfulOn (step asciiLetters) Dict.empty {name | name ≠ ""} := by
  intro h
  have hwithin : ∀ o ∈ [(.set "a-b" "1" : Op String String)] ++ [.get "A_B"],
      o.Within {name | name ≠ ""} := by
    intro o ho n hn
    rcases List.mem_cons.mp ho with rfl | ho
    · exact Option.some.inj hn ▸ (by decide : "a-b" ≠ "")
    · rcases List.mem_singleton.mp ho with rfl
      exact Option.some.inj hn ▸ (by decide : "A_B" ≠ "")
  have hright := h [.set "a-b" "1"] (.get "A_B") hwithin
  have hgot : (Machine.after (step asciiLetters) Dict.empty [.set "a-b" "1"]).get?
      (envKey asciiLetters "A_B") = some "1" := by decide
  have hnone : current [(.set "a-b" "1" : Op String String)] "A_B" = none := by decide
  exact absurd (hgot.symm.trans ((Answer.value.inj hright).trans hnone)) (by simp)

end EnvProvider

/-! ## The encrypted file -/

namespace FileProvider

/-- `Fernet` and `json`: what was written can be read. -/
structure Codec (B : Type*) where
  encrypt : Dict String String → B
  decrypt : B → Option (Dict String String)
  decrypt_encrypt : ∀ data, decrypt (encrypt data) = some data

variable {B : Type*} (codec : Codec B)

/-- `_load`. There may be no file; a file that cannot be read raises an exception. -/
def load : Option B → Option (Dict String String)
  | none => some Dict.empty
  | some encrypted => codec.decrypt encrypted

/-- The methods of `FileProvider`. -/
def step (file : Option B) : Op String String → Option B × Answer String String
  | .set name value =>
    match load codec file with
    | some data => (some (codec.encrypt (data.set name value)), .done)
    | none => (file, .other)
  | .get name =>
    match load codec file with
    | some data => (file, .value (data.get? name))
    | none => (file, .other)
  | .delete name =>
    match load codec file with
    | some data => (some (codec.encrypt (data.del name)), .done)
    | none => (file, .other)
  | .listNames =>
    match load codec file with
    | some data => (file, .names data.keys)
    | none => (file, .other)

def Holds (f : String → Option String) (file : Option B) : Prop :=
  ∃ data, load codec file = some data ∧ ∀ n, data.get? n = f n

/-- **The file is a map**, on any names. -/
theorem faithfulOn (S : Set String) : FaithfulOn (step codec) none S := by
  refine faithfulOn_of_invariant (Holds codec) ⟨Dict.empty, rfl, fun _ ↦ rfl⟩ ?_
  rintro f file op - ⟨data, hload, hget⟩
  rcases op with ⟨name, value⟩ | name | name | _
  · rw [step, hload]
    refine ⟨⟨data.set name value, codec.decrypt_encrypt _, fun n ↦ ?_⟩, rfl⟩
    rw [Dict.get?_set, apply, Function.update_apply, hget]
  · rw [step, hload]
    exact ⟨⟨data, hload, hget⟩, congrArg Answer.value (hget name)⟩
  · rw [step, hload]
    refine ⟨⟨data.del name, codec.decrypt_encrypt _, fun n ↦ ?_⟩, rfl⟩
    rw [Dict.get?_del, apply, Function.update_apply, hget]
  · rw [step, hload]
    refine ⟨⟨data, hload, hget⟩, data.keys, rfl, data.nodup_keys, fun n ↦ ?_⟩
    rw [Dict.mem_keys_iff, hget]

end FileProvider

/-! ## The keyring -/

namespace KeyringProvider

/-- What `json.loads` raises: what is caught, or something else. -/
inductive LoadsError where
  | jsonDecodeError
  | other

/-- `json`. Of a set that has something else than names in it, `dumpsOther` is what comes of sorting
and writing it. -/
structure Json (O : Type) where
  loads : String → Except LoadsError (Value O)
  dumps : List String → String
  dumpsOther : List (Value O) → Option String
  dumps_ne : ∀ l, dumps l ≠ ""
  loads_dumps : ∀ l, loads (dumps l) = .ok (.list (l.map .str))

/-- The entry that has the list of names. -/
def namesKey : String := "__argus_mcp_secret_names__"

section

variable {O : Type}

def strs : List (Value O) → Option (List String)
  | [] => some []
  | .str s :: l => (strs l).map (s :: ·)
  | _ :: _ => none

/-- `set(v)`, as a list of its elements. A value that is no collection raises an exception. -/
def elements : Value O → Option (List (Value O))
  | .list l => some l
  | .dict d => some (d.map fun e ↦ .str e.1)
  | .str s => some (s.toList.map fun c ↦ .str (.ofList [c]))
  | .none | .bool _ | .int _ | .obj _ => none

def discard (name : String) (l : List (Value O)) : List (Value O) :=
  l.filter fun
    | .str s => decide (s ≠ name)
    | _ => true

/-- `sorted(names)` for a set of strings. -/
def sorted (names : List String) : List String := names.dedup.insertionSort (· ≤ ·)

variable (json : Json O)

/-- `json.dumps(sorted(names))`. -/
def dumpsSorted (l : List (Value O)) : Option String :=
  match strs l with
  | some names => some (json.dumps (sorted names))
  | none => json.dumpsOther l

/-- `list_names`, which is whatever the entry says. -/
def listNames (kr : Dict String String) : Option (Value O) :=
  match kr.get? namesKey with
  | none => some (.list [])
  | some raw =>
    if raw = "" then some (.list [])
    else
      match json.loads raw with
      | .ok loaded => some loaded
      | .error .jsonDecodeError => some (.list [])
      | .error .other => none

/-- The end of `set` and of `delete`: the list of names is written anew. -/
def writeNames (change : List (Value O) → List (Value O)) (kr : Dict String String) :
    Dict String String × Answer String String :=
  match ((listNames json kr).bind elements).bind fun l ↦ dumpsSorted json (change l) with
  | some index => (kr.set namesKey index, .done)
  | none => (kr, .other)

/-- The methods of `KeyringProvider`. That there is nothing to delete is passed over. -/
def step (kr : Dict String String) : Op String String → Dict String String × Answer String String
  | .set name value => writeNames json (fun l ↦ l ++ [.str name]) (kr.set name value)
  | .get name => (kr, .value (kr.get? name))
  | .delete name => writeNames json (discard name) (kr.del name)
  | .listNames =>
    match listNames json kr with
    | some (.list l) => (kr, ((strs l).map Answer.names).getD .other)
    | _ => (kr, .other)

theorem strs_map_str (l : List String) : strs (l.map (Value.str : String → Value O)) = some l := by
  induction l with
  | nil => rfl
  | cons s l ih => rw [List.map_cons, strs, ih, Option.map_some]

theorem discard_map_str (name : String) (l : List String) :
    discard name (l.map (Value.str : String → Value O))
      = (l.filter fun s ↦ decide (s ≠ name)).map .str := by
  rw [discard, List.filter_map]
  rfl

theorem mem_sorted {names : List String} {n : String} : n ∈ sorted names ↔ n ∈ names := by
  rw [sorted, List.mem_insertionSort, List.mem_dedup]

theorem nodup_sorted (names : List String) : (sorted names).Nodup :=
  (List.perm_insertionSort (· ≤ ·) names.dedup).nodup_iff.mpr names.nodup_dedup

variable {json}

/-- The entry has this list, or there is no entry and the list is empty. -/
def HasIndex (json : Json O) (kr : Dict String String) (l : List String) : Prop :=
  (kr.get? namesKey = none ∧ l = []) ∨ kr.get? namesKey = some (json.dumps l)

theorem listNames_of_hasIndex {kr : Dict String String} {l : List String}
    (h : HasIndex json kr l) : listNames json kr = some (.list (l.map .str)) := by
  rcases h with ⟨hnone, rfl⟩ | hsome
  · rw [listNames, hnone]
    rfl
  · rw [listNames, hsome]
    dsimp only
    rw [if_neg (json.dumps_ne l), json.loads_dumps]

theorem writeNames_of_hasIndex {kr : Dict String String} {l : List String} (l' : List String)
    (change : List (Value O) → List (Value O)) (h : HasIndex json kr l)
    (hchange : change (l.map .str) = l'.map .str) :
    writeNames json change kr = (kr.set namesKey (json.dumps (sorted l')), .done) := by
  rw [writeNames, listNames_of_hasIndex h, Option.bind_some, elements, Option.bind_some, hchange,
    dumpsSorted, strs_map_str]

/-- What the keyring holds, apart from the list of names, and the list. -/
structure Holds (json : Json O) (f : String → Option String) (kr : Dict String String) :
    Prop where
  get : ∀ n, n ≠ namesKey → kr.get? n = f n
  reserved : f namesKey = none
  index : ∃ l, HasIndex json kr l ∧ l.Nodup ∧ ∀ n, n ∈ l ↔ ∃ v, f n = some v

theorem Holds.of_writeNames {f : String → Option String} {kr : Dict String String}
    {l : List String} (hget : ∀ n, n ≠ namesKey → kr.get? n = f n)
    (hreserved : f namesKey = none) (hmem : ∀ n, n ∈ l ↔ ∃ v, f n = some v) :
    Holds json f (kr.set namesKey (json.dumps (sorted l))) where
  get n hn := by rw [Dict.get?_set_of_ne _ _ hn, hget n hn]
  reserved := hreserved
  index := ⟨sorted l, Or.inr (Dict.get?_set_self _ _ _), nodup_sorted l,
    fun n ↦ by rw [mem_sorted, hmem]⟩

/-- What is held under one name changes, and the list is written anew in step with it. -/
theorem Holds.update {f : String → Option String} {kr kr' : Dict String String}
    (h : Holds json f kr) {name : String} (hname : name ≠ namesKey) {o : Option String}
    (hget : ∀ n, kr'.get? n = if n = name then o else kr.get? n)
    {change : List (Value O) → List (Value O)} (change' : List String → List String)
    (hchange : ∀ l, change (l.map .str) = (change' l).map .str)
    (hmem : ∀ l n, n ∈ change' l ↔ if n = name then ∃ v, o = some v else n ∈ l) :
    Holds json (Function.update f name o) (writeNames json change kr').1 ∧
      (writeNames json change kr').2 = .done := by
  obtain ⟨l, hindex, -, hmem'⟩ := h.index
  have hkept : HasIndex json kr' l := by
    rw [HasIndex, hget, if_neg hname.symm]
    exact hindex
  rw [writeNames_of_hasIndex _ change hkept (hchange l)]
  refine ⟨Holds.of_writeNames (fun n hn ↦ ?_) ?_ fun n ↦ ?_, rfl⟩
  · rw [hget, Function.update_apply, h.get n hn]
  · rw [Function.update_of_ne hname.symm]
    exact h.reserved
  · rw [hmem, Function.update_apply]
    split
    · rfl
    · exact hmem' n

/-- **The keyring is a map** exactly on names other than that of the list of names. -/
theorem faithfulOn_iff {S : Set String} :
    FaithfulOn (step json) Dict.empty S ↔ namesKey ∉ S := by
  constructor
  · intro h hmem
    -- deleting a name writes the list, and the list is what is then there under the name
    have hright := h [.delete namesKey] (.get namesKey) fun o ho n hn ↦ by
      rcases List.mem_cons.mp ho with rfl | ho
      · exact Option.some.inj hn ▸ hmem
      · rcases List.mem_singleton.mp ho with rfl
        exact Option.some.inj hn ▸ hmem
    have hempty : HasIndex json ((Dict.empty : Dict String String).del namesKey) [] := by
      rw [HasIndex, Dict.get?_del, if_pos rfl]
      exact Or.inl ⟨rfl, rfl⟩
    have hstep := writeNames_of_hasIndex [] (discard namesKey) hempty rfl
    have hafter : (step json Dict.empty (.delete namesKey)).1.get? namesKey
        = some (json.dumps (sorted [])) := by
      rw [step, hstep, Dict.get?_set_self]
    have hnone : current [(.delete namesKey : Op String String)] namesKey = none := by
      rw [current_singleton, apply, Function.update_self]
    have hgot := Answer.value.inj hright
    exact absurd (hafter.symm.trans (hgot.trans hnone)) (by simp)
  · intro hS
    refine faithfulOn_of_invariant (Holds json) ⟨fun _ _ ↦ rfl, rfl, [], ?_, ?_, ?_⟩ ?_
    · exact Or.inl ⟨rfl, rfl⟩
    · exact List.nodup_nil
    · exact fun n ↦ by simp
    · intro f kr op hop hinv
      have hne : ∀ n, op.name? = some n → n ≠ namesKey := fun n hn heq ↦ hS (heq ▸ hop n hn)
      rcases op with ⟨name, value⟩ | name | name | _
      · refine hinv.update (hne name rfl) (fun _ ↦ Dict.get?_set ..) (· ++ [name]) (by simp) ?_
        intro l n
        by_cases hn : n = name <;> simp [hn]
      · exact ⟨hinv, congrArg Answer.value (hinv.get name (hne name rfl))⟩
      · refine hinv.update (hne name rfl) (fun _ ↦ Dict.get?_del ..) _ (discard_map_str name) ?_
        intro l n
        by_cases hn : n = name <;> simp [hn]
      · obtain ⟨l, hindex, hnodup, hmem⟩ := hinv.index
        rw [step, listNames_of_hasIndex hindex]
        dsimp only
        rw [strs_map_str]
        exact ⟨hinv, l, rfl, hnodup, hmem⟩

end

/-! ### A format for lists of names

Strings in quotes, with a backslash before quotes and backslashes. A reader goes through the letters
and does not mind what is between two strings, as long as it is a comma, a blank, or a bracket. -/

def escaped (c : Char) : List Char := if c = '"' ∨ c = '\\' then ['\\', c] else [c]

def quoted (s : String) : List Char := '"' :: (s.toList.flatMap escaped ++ ['"'])

def joined : List String → List Char
  | [] => []
  | [s] => quoted s
  | s :: l => quoted s ++ (", ".toList ++ joined l)

/-- Where a reader is: the strings it has read, and the letters of the one that it is in. -/
inductive Reader where
  | outside (read : List String)
  | inside (read : List String) (letters : List Char)
  | escape (read : List String) (letters : List Char)
  | failed

def Reader.next : Reader → Char → Reader
  | outside read, c =>
    if c = '"' then inside read []
    else if c ∈ "[], ".toList then outside read else failed
  | inside read letters, c =>
    if c = '"' then outside (read ++ [.ofList letters])
    else if c = '\\' then escape read letters else inside read (letters ++ [c])
  | escape read letters, c => inside read (letters ++ [c])
  | failed, _ => failed

theorem foldl_next_escaped (read : List String) (letters cs : List Char) :
    (cs.flatMap escaped).foldl Reader.next (.inside read letters) =
      .inside read (letters ++ cs) := by
  induction cs generalizing letters with
  | nil => rw [List.flatMap_nil, List.foldl_nil, List.append_nil]
  | cons c cs ih =>
    have hc : (escaped c).foldl Reader.next (.inside read letters)
        = .inside read (letters ++ [c]) := by
      rw [escaped]
      split
      · rfl
      · rename_i h
        rw [not_or] at h
        rw [List.foldl_cons, List.foldl_nil, Reader.next, if_neg h.1, if_neg h.2]
    rw [List.flatMap_cons, List.foldl_append, hc, ih, List.append_assoc, List.singleton_append]

theorem foldl_next_quoted (read : List String) (s : String) :
    (quoted s).foldl Reader.next (.outside read) = .outside (read ++ [s]) := by
  have hopen : Reader.next (.outside read) '"' = .inside read [] := rfl
  rw [quoted, List.foldl_cons, hopen, List.foldl_append, foldl_next_escaped, List.nil_append,
    List.foldl_cons, List.foldl_nil, Reader.next, if_pos rfl, String.ofList_toList]

theorem foldl_next_joined (read l : List String) :
    (joined l).foldl Reader.next (.outside read) = .outside (read ++ l) := by
  induction l generalizing read with
  | nil => rw [joined, List.foldl_nil, List.append_nil]
  | cons s l ih =>
    rcases l with _ | ⟨s', l⟩
    · exact foldl_next_quoted read s
    · have hcomma : (", ".toList).foldl Reader.next (.outside (read ++ [s]))
          = .outside (read ++ [s]) := rfl
      rw [joined, List.foldl_append, foldl_next_quoted, List.foldl_append, hcomma, ih,
        List.append_assoc, List.singleton_append]
      exact List.cons_ne_nil _ _

/-- A list of names that is written in this way is read back. -/
def namesJson : Json Empty where
  loads s :=
    match s.toList.foldl Reader.next (.outside []) with
    | .outside read => .ok (.list (read.map .str))
    | _ => .error .jsonDecodeError
  dumps l := .ofList ('[' :: (joined l ++ [']']))
  dumpsOther _ := none
  dumps_ne l h := by
    have hlist := congrArg String.toList h
    rw [String.toList_ofList] at hlist
    exact absurd hlist (List.cons_ne_nil _ _)
  loads_dumps l := by
    have hopen : Reader.next (.outside []) '[' = .outside [] := rfl
    have hclose : Reader.next (.outside l) ']' = .outside l := rfl
    rw [String.toList_ofList, List.foldl_cons, hopen, List.foldl_append, foldl_next_joined,
      List.nil_append, List.foldl_cons, List.foldl_nil, hclose]

end KeyringProvider

/-! ## All three -/

section

variable (letters : EnvProvider.Letters) {environ : Dict String String} {B : Type*}
  (codec : FileProvider.Codec B) {O : Type} (json : KeyringProvider.Json O) (S : Set String)

/-- **When the providers are maps**: the one for the environment on names that are listed as they
are, the one for the file always, and the one for the keyring on names other than that of its own
entry. -/
theorem secretProviders_faithfulOn_iff
    (hclean : ∀ k ∈ environ.keys, EnvProvider.listedName letters k = none) :
    (FaithfulOn (EnvProvider.step letters) environ S ↔
        ∀ n ∈ S, EnvProvider.listedAs letters n = n) ∧
      FaithfulOn (FileProvider.step codec) none S ∧
      (KeyringProvider.namesKey ∉ S → FaithfulOn (KeyringProvider.step json) Dict.empty S) :=
  ⟨EnvProvider.faithfulOn_iff hclean, FileProvider.faithfulOn codec S,
    KeyringProvider.faithfulOn_iff.mpr⟩

/-- In an environment with a variable that is no secret, all names that are listed as they are:
each provider is a map on them. -/
theorem secretProviders_faithfulOn_iff_ascii :
    let S := {n | EnvProvider.listedAs EnvProvider.asciiLetters n = n}
    ("api-key" ∈ S ∧ "db-token-2" ∈ S) ∧
      FaithfulOn (EnvProvider.step EnvProvider.asciiLetters) (Dict.single "PATH" "/bin") S ∧
      FaithfulOn (FileProvider.step ⟨id, some, fun _ ↦ rfl⟩) none S ∧
      FaithfulOn (KeyringProvider.step KeyringProvider.namesJson) Dict.empty S := by
  intro S
  have hclean : ∀ k ∈ (Dict.single "PATH" "/bin").keys,
      EnvProvider.listedName EnvProvider.asciiLetters k = none := by decide
  obtain ⟨henviron, hfile, hkeyring⟩ :=
    secretProviders_faithfulOn_iff EnvProvider.asciiLetters ⟨id, some, fun _ ↦ rfl⟩
      KeyringProvider.namesJson S hclean
  have hnames : KeyringProvider.namesKey ∉ S := fun h ↦ absurd h (by decide)
  exact ⟨⟨by decide, by decide⟩, henviron.mpr fun _ h ↦ h, hfile, hkeyring hnames⟩

end

end ArgusMcp
