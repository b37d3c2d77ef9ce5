import Mathlib.Data.List.Nodup
import Mathlib.Data.List.Basic
import Mathlib.Logic.Function.Basic
import Mathlib.Tactic.Common

/-!
# Insertion-ordered dictionaries

A dictionary keeps its entries in the order in which their keys were first written: writing an
existing key changes the value in place, and only a new key is appended. This is the order an
iteration over the dictionary follows, and the reason the association lists of Mathlib, which move
a written key to the front, are not used here.

Nothing outside this file looks at the list of items. The interface is `get?`, with one equation
for each operation, so a proof about a dictionary is a proof about the partial function it denotes.
-/

namespace ArgusMcp

/-- A finite map that remembers the order of its keys. The keys are distinct by construction. -/
structure Dict (κ : Type*) (ν : Type*) where
  /-- The entries, oldest key first. -/
  items : List (κ × ν)
  /-- No key is stored twice. -/
  nodup_keys : (items.map Prod.fst).Nodup

namespace Dict

variable {κ ν μ : Type*} [DecidableEq κ]

/-! ## Operations -/

def empty : Dict κ ν := ⟨[], List.nodup_nil⟩

/-- One entry. -/
def single (k : κ) (v : ν) : Dict κ ν := ⟨[(k, v)], List.nodup_singleton k⟩

/-- The keys, oldest first. -/
def keys (d : Dict κ ν) : List κ := d.items.map Prod.fst

/-- The value stored under `k`, if there is one. -/
def get? (d : Dict κ ν) (k : κ) : Option ν := d.items.lookup k

/-- The value stored under `k`, or the default `v`. -/
def getD (d : Dict κ ν) (k : κ) (v : ν) : ν := (d.get? k).getD v

/-- Overwrites in place: the entry for `k` keeps its position. -/
private def overwrite (k : κ) (v : ν) (l : List (κ × ν)) : List (κ × ν) :=
  l.map fun p ↦ if p.1 = k then (k, v) else p

private theorem map_fst_overwrite (k : κ) (v : ν) (l : List (κ × ν)) :
    (overwrite k v l).map Prod.fst = l.map Prod.fst := by
  rw [overwrite, List.map_map]
  refine List.map_congr_left fun p _ ↦ ?_
  by_cases h : p.1 = k
  · simp [h]
  · simp [h]

/-- `d[k] = v`. -/
def set (d : Dict κ ν) (k : κ) (v : ν) : Dict κ ν :=
  if h : k ∈ d.items.map Prod.fst then
    ⟨overwrite k v d.items, by rw [map_fst_overwrite]; exact d.nodup_keys⟩
  else
    ⟨d.items ++ [(k, v)], by
      rw [List.map_append, List.nodup_append]
      refine ⟨d.nodup_keys, List.nodup_singleton _, ?_⟩
      rintro a ha b hb rfl
      rw [List.map_cons, List.map_nil, List.mem_singleton] at hb
      rw [hb] at ha
      exact h ha⟩

/-- The entries that satisfy `p`, in their old order. -/
def filter (d : Dict κ ν) (p : κ → ν → Bool) : Dict κ ν :=
  ⟨d.items.filter fun e ↦ p e.1 e.2,
    d.nodup_keys.sublist (List.filter_sublist.map Prod.fst)⟩

/-- `del d[k]`. -/
def del (d : Dict κ ν) (k : κ) : Dict κ ν := d.filter fun k' _ ↦ decide (k' ≠ k)

/-- The same keys with other values. -/
def mapValues (d : Dict κ ν) (f : ν → μ) : Dict κ μ :=
  ⟨d.items.map fun e ↦ (e.1, f e.2), by
    have hkeys : (d.items.map fun e ↦ (e.1, f e.2)).map Prod.fst = d.items.map Prod.fst := by
      rw [List.map_map]
      rfl
    rw [hkeys]
    exact d.nodup_keys⟩

/-- The dictionary a list of assignments builds, a later assignment to a key winning. -/
def ofList (l : List (κ × ν)) : Dict κ ν := l.foldl (fun d p ↦ d.set p.1 p.2) empty

/-- `d.update(other)`: the entries of the other dictionary are written one after the other. -/
def update (d other : Dict κ ν) : Dict κ ν := other.items.foldl (fun d p ↦ d.set p.1 p.2) d

/-! ## The function a dictionary denotes -/

private theorem lookup_cons_of_ne {k : κ} {p : κ × ν} (h : k ≠ p.1) (l : List (κ × ν)) :
    (p :: l).lookup k = l.lookup k := by
  rw [List.lookup_cons, beq_eq_false_iff_ne.mpr h]

private theorem lookup_cons_eq (p : κ × ν) (l : List (κ × ν)) :
    (p :: l).lookup p.1 = some p.2 := by
  rw [List.lookup_cons, beq_self_eq_true]

private theorem lookup_append_of_notMem {k : κ} {l : List (κ × ν)} (h : k ∉ l.map Prod.fst)
    (m : List (κ × ν)) : (l ++ m).lookup k = m.lookup k := by
  induction l with
  | nil => rfl
  | cons p l ih =>
    rw [List.map_cons, List.mem_cons, not_or] at h
    rw [List.cons_append, lookup_cons_of_ne h.1, ih h.2]

private theorem lookup_append_of_ne {k k' : κ} (hne : k' ≠ k) (v : ν) (l : List (κ × ν)) :
    (l ++ [(k, v)]).lookup k' = l.lookup k' := by
  induction l with
  | nil => exact lookup_cons_of_ne hne []
  | cons p l ih => rw [List.cons_append, List.lookup_cons, List.lookup_cons, ih]

private theorem lookup_overwrite_self {k : κ} (v : ν) {l : List (κ × ν)}
    (h : k ∈ l.map Prod.fst) : (overwrite k v l).lookup k = some v := by
  induction l with
  | nil => simp at h
  | cons p l ih =>
    rw [overwrite, List.map_cons]
    by_cases hp : p.1 = k
    · rw [if_pos hp]
      exact lookup_cons_eq (k, v) _
    · rw [List.map_cons, List.mem_cons] at h
      rw [if_neg hp, lookup_cons_of_ne (Ne.symm hp)]
      exact ih (h.resolve_left (Ne.symm hp))

private theorem lookup_overwrite_of_ne {k k' : κ} (hne : k' ≠ k) (v : ν) (l : List (κ × ν)) :
    (overwrite k v l).lookup k' = l.lookup k' := by
  induction l with
  | nil => rfl
  | cons p l ih =>
    rw [overwrite, List.map_cons]
    by_cases hp : p.1 = k
    · rw [if_pos hp, lookup_cons_of_ne hne, lookup_cons_of_ne (hp ▸ hne)]
      exact ih
    · rw [if_neg hp, List.lookup_cons, List.lookup_cons, ← overwrite, ih]

@[simp] theorem get?_empty (k : κ) : (empty : Dict κ ν).get? k = none := rfl

theorem mem_keys_iff {d : Dict κ ν} {k : κ} : k ∈ d.keys ↔ ∃ v, d.get? k = some v := by
  rw [keys, get?]
  generalize d.items = l
  induction l with
  | nil => simp
  | cons p l ih =>
    rw [List.map_cons, List.mem_cons, ih]
    by_cases hp : k = p.1
    · subst hp
      simp [lookup_cons_eq]
    · rw [lookup_cons_of_ne hp, or_iff_right hp]

theorem get?_set (d : Dict κ ν) (k k' : κ) (v : ν) :
    (d.set k v).get? k' = if k' = k then some v else d.get? k' := by
  by_cases hmem : k ∈ d.items.map Prod.fst
  · rw [set, dif_pos hmem, get?]
    by_cases hk : k' = k
    · rw [if_pos hk, hk]
      exact lookup_overwrite_self v hmem
    · rw [if_neg hk]
      exact lookup_overwrite_of_ne hk v _
  · rw [set, dif_neg hmem, get?]
    by_cases hk : k' = k
    · rw [if_pos hk, hk, lookup_append_of_notMem hmem]
      simp
    · rw [if_neg hk]
      exact lookup_append_of_ne hk v _

@[simp] theorem get?_set_self (d : Dict κ ν) (k : κ) (v : ν) : (d.set k v).get? k = some v := by
  rw [get?_set, if_pos rfl]

theorem get?_set_of_ne (d : Dict κ ν) {k k' : κ} (v : ν) (h : k' ≠ k) :
    (d.set k v).get? k' = d.get? k' := by
  rw [get?_set, if_neg h]

theorem mem_keys_set {d : Dict κ ν} {k k' : κ} {v : ν} :
    k' ∈ (d.set k v).keys ↔ k' = k ∨ k' ∈ d.keys := by
  rw [mem_keys_iff, mem_keys_iff, get?_set]
  by_cases h : k' = k
  · simp [h]
  · simp [h]

theorem get?_set_eq_update (d : Dict κ ν) (k : κ) (v : ν) :
    (d.set k v).get? = Function.update d.get? k (some v) := by
  funext k'
  rw [get?_set, Function.update_apply]

theorem get?_filter (d : Dict κ ν) (p : κ → ν → Bool) (k : κ) :
    (d.filter p).get? k = (d.get? k).filter (p k) := by
  obtain ⟨l, hl⟩ := d
  rw [filter, get?, get?]
  dsimp only
  induction l with
  | nil => rfl
  | cons e l ih =>
    rw [List.map_cons, List.nodup_cons] at hl
    rw [List.filter_cons]
    by_cases hk : k = e.1
    · -- the key occurs once, so a rejected entry leaves no other one behind
      have hnone : (l.filter fun e ↦ p e.1 e.2).lookup e.1 = none := by
        rw [List.lookup_eq_none_iff]
        intro q hq
        rw [bne_iff_ne]
        rintro heq
        exact hl.1 (heq ▸ List.mem_map_of_mem (List.mem_of_mem_filter hq))
      subst hk
      rw [lookup_cons_eq, Option.filter_some]
      by_cases hp : p e.1 e.2 = true
      · rw [if_pos hp, if_pos hp, lookup_cons_eq]
      · rw [if_neg hp, if_neg hp, hnone]
    · rw [lookup_cons_of_ne hk]
      by_cases hp : p e.1 e.2 = true
      · rw [if_pos hp, lookup_cons_of_ne hk]
        exact ih hl.2
      · rw [if_neg hp]
        exact ih hl.2

omit [DecidableEq κ] in
theorem mapValues_mapValues {ξ : Type*} (d : Dict κ ν) (f : ν → μ) (g : μ → ξ) :
    (d.mapValues f).mapValues g = d.mapValues fun v ↦ g (f v) := by
  have hitems : (d.items.map fun e ↦ (e.1, f e.2)).map (fun e ↦ (e.1, g e.2))
      = d.items.map fun e ↦ (e.1, g (f e.2)) := List.map_map
  simp only [mapValues, hitems]

omit [DecidableEq κ] in
theorem map_snd_items_mapValues (d : Dict κ ν) (f : ν → μ) :
    (d.mapValues f).items.map Prod.snd = (d.items.map Prod.snd).map f := by
  rw [mapValues, List.map_map, List.map_map]
  rfl

theorem get?_mapValues (d : Dict κ ν) (f : ν → μ) (k : κ) :
    (d.mapValues f).get? k = (d.get? k).map f := by
  obtain ⟨l, hl⟩ := d
  rw [mapValues, get?, get?]
  dsimp only
  clear hl
  induction l with
  | nil => rfl
  | cons e l ih =>
    rw [List.map_cons]
    by_cases hk : k = e.1
    · subst hk
      rw [lookup_cons_eq, lookup_cons_eq (e.1, f e.2), Option.map_some]
    · have hk' : k ≠ (e.1, f e.2).1 := hk
      rw [lookup_cons_of_ne hk, lookup_cons_of_ne hk']
      exact ih

theorem get?_single (k : κ) (v : ν) : (single k v).get? k = some v := lookup_cons_eq (k, v) []

theorem eq_of_get?_single {k k' : κ} {v v' : ν} (h : (single k v).get? k' = some v') :
    k' = k ∧ v' = v := by
  by_cases hk : k' = k
  · subst hk
    exact ⟨rfl, (Option.some.inj ((get?_single k' v).symm.trans h)).symm⟩
  · have hne : k' ≠ (k, v).1 := hk
    have hnone : (single k v).get? k' = none := lookup_cons_of_ne hne []
    exact absurd (h.symm.trans hnone) (Option.some_ne_none v')

omit [DecidableEq κ] in
theorem filter_single_of_neg {k : κ} {v : ν} {p : κ → ν → Bool} (h : p k v = false) :
    (single k v).filter p = empty := by
  have hitems : [(k, v)].filter (fun e ↦ p e.1 e.2) = [] := by simp [h]
  simp only [filter, single, hitems, empty]

omit [DecidableEq κ] in
theorem filter_filter_self (d : Dict κ ν) (p : κ → ν → Bool) :
    (d.filter p).filter p = d.filter p := by
  simp [filter, List.filter_filter]

theorem get?_del (d : Dict κ ν) (k k' : κ) :
    (d.del k).get? k' = if k' = k then none else d.get? k' := by
  rw [del, get?_filter]
  by_cases h : k' = k
  · rw [if_pos h, h]
    cases d.get? k <;> simp
  · rw [if_neg h]
    cases d.get? k' <;> simp [h]

theorem get?_del_set (d : Dict κ ν) (k : κ) (v : ν) :
    ((d.del k).set k v).get? = Function.update d.get? k (some v) := by
  funext k'
  rw [get?_set, get?_del, Function.update_apply]
  split
  · rfl
  · rfl

theorem get?_foldl_del (ks : List κ) (d : Dict κ ν) (k : κ) :
    (ks.foldl del d).get? k = if k ∈ ks then none else d.get? k := by
  induction ks generalizing d with
  | nil => simp
  | cons a ks ih =>
    rw [List.foldl_cons, ih, get?_del]
    by_cases hk : k ∈ ks
    · rw [if_pos hk, if_pos (List.mem_cons_of_mem a hk)]
    · by_cases ha : k = a
      · rw [if_neg hk, if_pos ha, if_pos (ha ▸ List.mem_cons_self)]
      · rw [if_neg hk, if_neg ha, if_neg (by simp [ha, hk])]

theorem get?_eq_some_of_mem {d : Dict κ ν} {k : κ} {v : ν} (h : (k, v) ∈ d.items) :
    d.get? k = some v := by
  obtain ⟨l, hl⟩ := d
  rw [get?]
  dsimp only at h ⊢
  induction l with
  | nil => simp at h
  | cons e l ih =>
    rw [List.map_cons, List.nodup_cons] at hl
    rcases List.mem_cons.mp h with rfl | h'
    · exact lookup_cons_eq (k, v) l
    · have hne : k ≠ e.1 := by
        rintro rfl
        exact hl.1 (List.mem_map.mpr ⟨_, h', rfl⟩)
      rw [lookup_cons_of_ne hne]
      exact ih hl.2 h'

theorem mem_items_of_get?_eq_some {d : Dict κ ν} {k : κ} {v : ν} (h : d.get? k = some v) :
    (k, v) ∈ d.items := by
  rw [get?] at h
  revert h
  generalize d.items = l
  intro h
  induction l with
  | nil => simp at h
  | cons e l ih =>
    by_cases hk : k = e.1
    · subst hk
      rw [lookup_cons_eq, Option.some.injEq] at h
      rw [← h]
      exact List.mem_cons_self
    · rw [lookup_cons_of_ne hk] at h
      exact List.mem_cons_of_mem e (ih h)

theorem mem_items_iff {d : Dict κ ν} {k : κ} {v : ν} : (k, v) ∈ d.items ↔ d.get? k = some v :=
  ⟨get?_eq_some_of_mem, mem_items_of_get?_eq_some⟩

theorem get?_foldl_set_of_notMem {l : List (κ × ν)} {k : κ} (hk : k ∉ l.map Prod.fst)
    (d : Dict κ ν) : (l.foldl (fun d p ↦ d.set p.1 p.2) d).get? k = d.get? k := by
  induction l generalizing d with
  | nil => rfl
  | cons e l ih =>
    rw [List.map_cons, List.mem_cons, not_or] at hk
    rw [List.foldl_cons, ih hk.2, get?_set_of_ne d e.2 hk.1]

theorem get?_foldl_set_of_mem {l : List (κ × ν)} (hl : (l.map Prod.fst).Nodup) {e : κ × ν}
    (he : e ∈ l) (d : Dict κ ν) :
    (l.foldl (fun d p ↦ d.set p.1 p.2) d).get? e.1 = some e.2 := by
  induction l generalizing d with
  | nil => exact absurd he List.not_mem_nil
  | cons e' l ih =>
    rw [List.map_cons, List.nodup_cons] at hl
    rw [List.foldl_cons]
    rcases List.mem_cons.mp he with rfl | he
    · rw [get?_foldl_set_of_notMem hl.1, get?_set_self]
    · exact ih hl.2 he _

/-- What a key has after some writing was written, or was there before. -/
theorem get?_foldl_set_eq_some {l : List (κ × ν)} {d : Dict κ ν} {k : κ} {v : ν}
    (h : (l.foldl (fun d p ↦ d.set p.1 p.2) d).get? k = some v) :
    (k, v) ∈ l ∨ d.get? k = some v := by
  induction l generalizing d with
  | nil => exact Or.inr h
  | cons e l ih =>
    rw [List.foldl_cons] at h
    rcases ih h with hmem | hget
    · exact Or.inl (List.mem_cons_of_mem e hmem)
    · rw [get?_set] at hget
      split at hget
      · rename_i heq
        rw [Option.some.injEq] at hget
        exact Or.inl (List.mem_cons.mpr (Or.inl (Prod.ext heq hget.symm)))
      · exact Or.inr hget

theorem exists_get?_foldl_set {l : List (κ × ν)} {k : κ} (hk : k ∈ l.map Prod.fst)
    (d : Dict κ ν) : ∃ v, (l.foldl (fun d p ↦ d.set p.1 p.2) d).get? k = some v := by
  induction l generalizing d with
  | nil => exact absurd hk List.not_mem_nil
  | cons e l ih =>
    rw [List.foldl_cons]
    by_cases hlater : k ∈ l.map Prod.fst
    · exact ih hlater _
    · rw [get?_foldl_set_of_notMem hlater]
      obtain rfl := (List.mem_cons.mp hk).resolve_right hlater
      exact ⟨e.2, get?_set_self _ _ _⟩

theorem get?_foldl_set_perm {l l' : List (κ × ν)} (hl : (l.map Prod.fst).Nodup)
    (hperm : l.Perm l') {d d' : Dict κ ν} (hd : ∀ k, d.get? k = d'.get? k) (k : κ) :
    (l.foldl (fun d p ↦ d.set p.1 p.2) d).get? k
      = (l'.foldl (fun d p ↦ d.set p.1 p.2) d').get? k := by
  have hl' : (l'.map Prod.fst).Nodup := (hperm.map Prod.fst).nodup_iff.mp hl
  by_cases hk : k ∈ l.map Prod.fst
  · obtain ⟨e, he, rfl⟩ := List.mem_map.mp hk
    rw [get?_foldl_set_of_mem hl he, get?_foldl_set_of_mem hl' (hperm.mem_iff.mp he)]
  · have hk' : k ∉ l'.map Prod.fst := fun hmem ↦ hk ((hperm.map Prod.fst).mem_iff.mpr hmem)
    rw [get?_foldl_set_of_notMem hk, get?_foldl_set_of_notMem hk', hd]

theorem items_foldl_set (l : List (κ × ν)) (d : Dict κ ν)
    (h : ((d.items ++ l).map Prod.fst).Nodup) :
    (l.foldl (fun d p ↦ d.set p.1 p.2) d).items = d.items ++ l := by
  induction l generalizing d with
  | nil => rw [List.foldl_nil, List.append_nil]
  | cons e l ih =>
    have hnew : e.1 ∉ d.items.map Prod.fst := by
      rw [List.map_append, List.nodup_append] at h
      exact fun hmem ↦ h.2.2 _ hmem _ List.mem_cons_self rfl
    have hset : (d.set e.1 e.2).items = d.items ++ [e] := by rw [set, dif_neg hnew]
    rw [List.foldl_cons, ih, hset, List.append_assoc, List.singleton_append]
    rwa [hset, List.append_assoc, List.singleton_append]

theorem items_ofList {l : List (κ × ν)} (h : (l.map Prod.fst).Nodup) : (ofList l).items = l :=
  items_foldl_set l empty h

theorem ofList_items (d : Dict κ ν) : ofList d.items = d := by
  have hitems := items_ofList d.nodup_keys
  obtain ⟨l, hl⟩ := d
  generalize ofList l = d' at hitems ⊢
  obtain ⟨l', hl'⟩ := d'
  obtain rfl := hitems
  rfl

theorem get?_update (d other : Dict κ ν) (k : κ) :
    (d.update other).get? k = (other.get? k).or (d.get? k) := by
  rw [update]
  rcases h : other.get? k with _ | v
  · refine get?_foldl_set_of_notMem (fun hk ↦ ?_) d
    obtain ⟨v, hv⟩ := mem_keys_iff.mp hk
    exact absurd (h.symm.trans hv) (by simp)
  · exact get?_foldl_set_of_mem other.nodup_keys (mem_items_iff.mpr h) d

theorem set_eq_self {d : Dict κ ν} {k : κ} {v : ν} (h : d.get? k = some v) : d.set k v = d := by
  obtain ⟨l, hl⟩ := d
  have hmem : (k, v) ∈ l := mem_items_iff.mpr h
  rw [set, dif_pos (List.mem_map.mpr ⟨_, hmem, rfl⟩)]
  congr 1
  refine (List.map_congr_left fun p hp ↦ ?_).trans (List.map_id l)
  by_cases hk : p.1 = k
  · have hp' : (⟨l, hl⟩ : Dict κ ν).get? k = some p.2 := hk ▸ get?_eq_some_of_mem hp
    rw [if_pos hk, id_eq, Option.some.inj (h.symm.trans hp'), ← hk]
  · rw [if_neg hk, id_eq]

theorem update_eq_self_iff {d other : Dict κ ν} :
    d.update other = d ↔ ∀ k v, other.get? k = some v → d.get? k = some v := by
  constructor
  · intro h k v hv
    rw [← h, get?_update, hv, Option.some_or]
  · intro h
    have hitems : ∀ l : List (κ × ν), (∀ p ∈ l, d.get? p.1 = some p.2) →
        l.foldl (fun d p ↦ d.set p.1 p.2) d = d := by
      intro l hl
      induction l with
      | nil => rfl
      | cons p l ih =>
        rw [List.foldl_cons, set_eq_self (hl p List.mem_cons_self)]
        exact ih fun q hq ↦ hl q (List.mem_cons_of_mem p hq)
    exact hitems other.items fun p hp ↦ h p.1 p.2 (mem_items_iff.mp hp)

/-! ## The number of entries -/

theorem items_set_ne_nil (d : Dict κ ν) (k : κ) (v : ν) : (d.set k v).items ≠ [] :=
  List.ne_nil_of_mem (mem_items_of_get?_eq_some (get?_set_self d k v))

theorem get?_eq_none_of_items_nil {d : Dict κ ν} (h : d.items = []) (k : κ) :
    d.get? k = none := by
  rw [get?, h]
  rfl

theorem length_items_del_le (d : Dict κ ν) (k : κ) : (d.del k).items.length ≤ d.items.length :=
  List.length_filter_le _ _

theorem length_items_del_lt {d : Dict κ ν} {k : κ} {v : ν} (h : d.get? k = some v) :
    (d.del k).items.length < d.items.length := by
  refine List.length_filter_lt_length_iff_exists.mpr ⟨(k, v), mem_items_iff.mpr h, ?_⟩
  simp

theorem length_items_foldl_del_le (ks : List κ) (d : Dict κ ν) :
    (ks.foldl del d).items.length ≤ d.items.length := by
  induction ks generalizing d with
  | nil => exact Nat.le_refl _
  | cons k ks ih => exact Nat.le_trans (ih (d.del k)) (length_items_del_le d k)

theorem length_items_set_le (d : Dict κ ν) (k : κ) (v : ν) :
    (d.set k v).items.length ≤ d.items.length + 1 := by
  rw [set]
  split
  · have hlength : (overwrite k v d.items).length = d.items.length := List.length_map _
    dsimp only
    omega
  · exact Nat.le_of_eq List.length_append

end Dict

end ArgusMcp
