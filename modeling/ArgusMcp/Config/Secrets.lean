import ArgusMcp.Config.Loader
import ArgusMcp.Library.ValueMap

/-!
# Resolving references to secrets

`resolve_secrets` (`secrets/resolver.py`) goes through a configuration and puts secrets where there
were references to them; `find_secret_references` lists the references. They are two recursions over
the same tree, and only the first one has a limit of depth.

What the loader does on its way through a value is used here as it is (`Loader.secretWalker`); what
is added is how it relates to the list of references. Each recursion builds its result anew, so that
the configuration itself is an argument that nothing assigns to.

## What comes of it

Up to the limit the strict form fails exactly if a name on the list has no secret, and what is
returned is the configuration with the references that can be resolved replaced by what the store
has for them (`resolveSecrets_exact`). Above the limit nothing is resolved at all
(`resolveSecrets_too_deep`), while the list is as long as ever.
-/

namespace ArgusMcp

namespace Loader

variable {O : Type} {V : Type*} (host : Host O V)

def resolveSecrets (provider : SecretProvider O) (strict : Bool) (config : Value O) :
    Except Raised (Value O) :=
  Value.walk (secretWalker host provider strict) "" 0 config

def findSecretReferences (config : Value O) : List String := collectRefs config

/-- What a string stands for: the secret that it refers to, if the store has it, or itself. -/
def resolved (store : String → Option String) (value : String) : String :=
  ((secretName value).bind store).getD value

/-! ## The list of references -/

mutual

theorem collectRefs_eq (v : Value O) :
    collectRefs v = v.strings.flatMap fun s ↦ (secretName s).toList := by
  match v with
  | .str s => rw [collectRefs, Value.strings, List.flatMap_singleton]
  | .list l => rw [collectRefs, Value.strings, collectRefsList_eq l]
  | .dict d => rw [collectRefs, Value.strings, collectRefsDict_eq d]
  | .none => rfl
  | .bool b => rfl
  | .int n => rfl
  | .obj o => rfl

theorem collectRefsList_eq (l : List (Value O)) :
    collectRefsList l = (Value.stringsList l).flatMap fun s ↦ (secretName s).toList := by
  match l with
  | [] => rfl
  | v :: l =>
    rw [collectRefsList, Value.stringsList, List.flatMap_append, collectRefs_eq v,
      collectRefsList_eq l]

theorem collectRefsDict_eq (d : List (String × Value O)) :
    collectRefsDict d = (Value.stringsDict d).flatMap fun s ↦ (secretName s).toList := by
  match d with
  | [] => rfl
  | (k, v) :: d =>
    rw [collectRefsDict, Value.stringsDict, List.flatMap_append, collectRefs_eq v,
      collectRefsDict_eq d]

end

theorem mem_findSecretReferences {v : Value O} {name : String} :
    name ∈ findSecretReferences v ↔ ∃ s ∈ v.strings, secretName s = some name := by
  rw [findSecretReferences, collectRefs_eq, List.mem_flatMap]
  simp only [Option.mem_toList]

/-! ## Strings -/

section

variable {host} {provider : SecretProvider O} {store : String → Option String}
  (hstore : ∀ name, provider.get host name = .ok (store name))
include hstore

/-- **What becomes of a string**, by what the store has for it. -/
theorem resolveString_eq (strict : Bool) (path value : String) :
    resolveString host provider strict path value =
      if strict = true ∧ ∃ name, secretName value = some name ∧ store name = none then
        .error ⟨.other, "SecretResolutionError",
          "Secret '" ++ (secretName value).getD "" ++ "' not found (referenced at " ++ path ++ ")"⟩
      else .ok (resolved store value) := by
  rw [resolveString, resolved]
  rcases secretName value with _ | name
  · rw [if_neg (by simp)]
    rfl
  dsimp only
  rw [hstore, Option.bind_some]
  rcases hname : store name with _ | secret
  · rcases strict with _ | _
    · exact (if_neg (by simp)).symm
    · exact (if_pos ⟨rfl, name, rfl, hname⟩).symm
  · exact (if_neg (by simp [hname])).symm

theorem eq_resolved_of_resolveString {strict : Bool} {path value t : String}
    (h : resolveString host provider strict path value = .ok t) : t = resolved store value := by
  rw [resolveString_eq hstore] at h
  split at h
  · exact absurd h (by simp)
  · exact (Except.ok.inj h).symm

theorem exists_resolveString_strict_iff (path value : String) :
    (∃ t, resolveString host provider true path value = .ok t) ↔
      ∀ name, secretName value = some name → store name ≠ none := by
  rw [resolveString_eq hstore]
  split
  · rename_i h
    obtain ⟨-, name, hname, hnone⟩ := h
    exact iff_of_false (by simp) fun hall ↦ hall name hname hnone
  · rename_i h
    refine iff_of_true ⟨_, rfl⟩ fun name hname hnone ↦ ?_
    exact h ⟨rfl, name, hname, hnone⟩

theorem name_of_resolveString_eq_error {strict : Bool} {path value : String} {e : Raised}
    (h : resolveString host provider strict path value = .error e) :
    e.name = "SecretResolutionError" := by
  rw [resolveString_eq hstore] at h
  split at h
  · exact Except.error.inj h ▸ rfl
  · exact absurd h (by simp)

/-! ## Configurations -/

theorem exists_resolveSecrets_strict_iff {v : Value O} (hv : v.height ≤ 20) :
    (∃ r, resolveSecrets host provider true v = .ok r) ↔
      ∀ name ∈ findSecretReferences v, store name ≠ none := by
  have hwalk := Value.exists_walk_iff_of_height_le
    (w := secretWalker host provider true) (exists_resolveString_strict_iff hstore) "" 0 v
    (by rw [Nat.zero_add]; exact hv)
  rw [resolveSecrets, hwalk]
  constructor
  · intro h name hname
    obtain ⟨s, hs, href⟩ := mem_findSecretReferences.mp hname
    exact h s hs name href
  · intro h s hs name href
    exact h name (mem_findSecretReferences.mpr ⟨s, hs, href⟩)

theorem name_of_resolveSecrets_eq_error {strict : Bool} {v : Value O} {e : Raised}
    (hv : v.height ≤ 20) (h : resolveSecrets host provider strict v = .error e) :
    e.name = "SecretResolutionError" := by
  obtain ⟨path, s, hs⟩ := Value.exists_onStr_eq_error "" 0 v (by rw [Nat.zero_add]; exact hv) h
  exact name_of_resolveString_eq_error hstore hs

/-- **What is returned** is the configuration with each string replaced by what it stands for. -/
theorem eq_mapStr_of_resolveSecrets {strict : Bool} {v r : Value O}
    (h : resolveSecrets host provider strict v = .ok r) : r = v.mapStr (resolved store) :=
  Value.walk_eq_ok (w := secretWalker host provider strict)
    (fun _ _ _ ht ↦ eq_resolved_of_resolveString hstore ht) "" 0 v h

end

/-- **Resolution is exact.** The strict form raises an error for a missing secret exactly if the
store does not have a name on the list, and returns otherwise. What is returned is the configuration
with every string replaced by what it stands for: at every path where there was a string there is
the secret as the store has it, or the same string. -/
theorem resolveSecrets_exact {provider : SecretProvider O} {store : String → Option String}
    (hstore : ∀ name, provider.get host name = .ok (store name)) {v : Value O}
    (hv : v.height ≤ 20) :
    ((∃ e, resolveSecrets host provider true v = .error e ∧ e.name = "SecretResolutionError") ↔
        ∃ name ∈ findSecretReferences v, store name = none) ∧
      ((∃ r, resolveSecrets host provider true v = .ok r) ↔
        ∀ name ∈ findSecretReferences v, store name ≠ none) ∧
      ∀ strict r, resolveSecrets host provider strict v = .ok r →
        r = v.mapStr (resolved store) ∧
          ∀ path, r.atPath? path = (v.atPath? path).map (Value.mapStr (resolved store)) := by
  have hends := exists_resolveSecrets_strict_iff hstore hv
  refine ⟨?_, hends, fun strict r hr ↦ ?_⟩
  · constructor
    · rintro ⟨e, he, -⟩
      by_contra hnone
      push Not at hnone
      obtain ⟨r, hr⟩ := hends.mpr hnone
      exact absurd (hr.symm.trans he) (by simp)
    · rintro ⟨name, hname, hnone⟩
      rcases hwalk : resolveSecrets host provider true v with e | r
      · exact ⟨e, rfl, name_of_resolveSecrets_eq_error hstore hv hwalk⟩
      · exact absurd hnone (hends.mp ⟨r, hwalk⟩ name hname)
  · have heq := eq_mapStr_of_resolveSecrets hstore hr
    exact ⟨heq, fun path ↦ heq ▸ Value.atPath?_mapStr path v⟩

/-- A host with one secret, in the keyring: its value looks like a reference itself. -/
def oneSecretHost : Host Empty String where
  parseYaml := fun _ ↦ .ok .none
  environ := fun _ ↦ none
  isWord := Char.isAlphanum
  upper := fun s ↦ s.map Char.toUpper
  fileSecret := fun _ _ ↦ .ok none
  keyringSecret := fun name ↦ .ok (if name = "a" then some "secret:b" else none)
  lowerStrip := fun s ↦ s.map Char.toLower
  tagError := Empty.elim
  modelValidate := fun _ ↦ .ok Dict.empty
  truthy := fun s ↦ s ≠ ""

def twoSecrets (name : String) : Option String :=
  if name = "a" then some "secret:b" else if name = "c" then some "t0ken" else none

def twoSecretsHost : Host Empty String :=
  { oneSecretHost with keyringSecret := fun name ↦ .ok (twoSecrets name) }

/-- A backend with an address and a token that are kept as secrets, and other strings. -/
def withReferences (address token : String) : Value Empty :=
  .dict [("url", .str address), ("timeout", .int 5),
    ("auth", .dict [("type", .str "static"), ("headers", .list [.str "X-Token", .str token])])]

theorem resolveSecrets_exact_twoSecrets :
    resolveSecrets twoSecretsHost .keyring true (withReferences "secret:a" "secret:c")
        = .ok (withReferences "secret:b" "t0ken") ∧
      ∃ e, resolveSecrets twoSecretsHost .keyring true (withReferences "secret:a" "secret:b")
        = .error e ∧ e.name = "SecretResolutionError" := by
  have hstore : ∀ name, SecretProvider.keyring.get twoSecretsHost name = .ok (twoSecrets name) :=
    fun _ ↦ rfl
  constructor
  · obtain ⟨-, hreturns, hexact⟩ := resolveSecrets_exact twoSecretsHost hstore
      (show (withReferences "secret:a" "secret:c").height ≤ 20 by decide)
    obtain ⟨r, hr⟩ := hreturns.mpr (by decide)
    rw [hr, (hexact true r hr).1]
    rfl
  · exact (resolveSecrets_exact twoSecretsHost hstore
      (show (withReferences "secret:a" "secret:b").height ≤ 20 by decide)).1.mpr (by decide)

/-- **Above the limit nothing is resolved.** The error is that of the depth, or of a secret that is
missing on the way to it. -/
theorem resolveSecrets_too_deep {provider : SecretProvider O} {store : String → Option String}
    (hstore : ∀ name, provider.get host name = .ok (store name)) {v : Value O}
    (hv : 20 < v.height) :
    ∃ path, resolveSecrets host provider false v = .error (valueError
      ("_walk: recursion depth limit exceeded at path '" ++ path ++ "' (max 20)")) := by
  have htotal : (secretWalker host provider false).Total := by
    intro path s
    exact ⟨resolved store s, (resolveString_eq hstore false path s).trans (if_neg (by simp))⟩
  have hiff := Value.exists_walk_iff htotal "" 0 v
  rcases hwalk : resolveSecrets host provider false v with e | r
  · obtain ⟨path, rfl⟩ := Value.exists_tooDeep htotal "" 0 v hwalk
    exact ⟨path, rfl⟩
  · have hle := hiff.mp ⟨r, hwalk⟩
    rw [Nat.zero_add] at hle
    exact absurd hle (Nat.not_le.mpr hv)

def nested (depth : ℕ) : Value Empty := (fun v ↦ .list [v])^[depth] (.str "secret:a")

theorem resolveSecrets_too_deep_nested :
    ∃ path, resolveSecrets oneSecretHost .keyring false (nested 21) = .error (valueError
      ("_walk: recursion depth limit exceeded at path '" ++ path ++ "' (max 20)")) :=
  @resolveSecrets_too_deep Empty String oneSecretHost .keyring
    (fun name ↦ if name = "a" then some "secret:b" else none) (fun _ ↦ rfl) (nested 21)
    (by decide)

end Loader

end ArgusMcp
