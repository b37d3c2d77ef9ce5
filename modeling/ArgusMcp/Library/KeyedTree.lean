import ArgusMcp.Library.Value
import Mathlib.Data.List.Basic
import Mathlib.Data.List.Forall2
import Mathlib.Tactic.Common

/-!
# Trees with keys

Documents of scalars, sequences and mappings, where the keys of a mapping are scalars. In a document
a mapping is a list of pairs. A dictionary is a list of pairs too, in which no two keys are held to be
the same: a pair whose key is there already replaces the value behind it (`dictOf`). So a document
stands for an object, in which each mapping is a dictionary (`collapse`).

A document can be rewritten, scalar by scalar and key by key, where some keys cannot be written
(`rewrite`). If the keys that can be written to are *special*, and special keys are kept, then the
object of a document is what it was exactly if every key is special and every scalar is kept
(`collapse_rewrite_eq_iff`).
-/

namespace ArgusMcp

inductive KeyedTree (σ : Type) where
  | scalar (s : σ)
  | seq (l : List (KeyedTree σ))
  | map (d : List (σ × KeyedTree σ))

namespace KeyedTree

variable {σ : Type}

/-! ## Induction -/

theorem induction {P : KeyedTree σ → Prop} (hscalar : ∀ s, P (.scalar s))
    (hseq : ∀ l, (∀ t ∈ l, P t) → P (.seq l)) (hmap : ∀ d, (∀ p ∈ d, P p.2) → P (.map d))
    (t : KeyedTree σ) : P t :=
  @KeyedTree.rec σ P (fun l ↦ ∀ t ∈ l, P t) (fun d ↦ ∀ p ∈ d, P p.2) (fun p ↦ P p.2)
    hscalar hseq hmap
    (fun _ h ↦ absurd h List.not_mem_nil)
    (fun _ _ hhead htail ↦ List.forall_mem_cons.mpr ⟨hhead, htail⟩)
    (fun _ h ↦ absurd h List.not_mem_nil)
    (fun _ _ hhead htail ↦ List.forall_mem_cons.mpr ⟨hhead, htail⟩)
    (fun _ _ h ↦ h) t

/-! ## Nodes -/

mutual

/-- How many nodes there are. A key is one. -/
def nodes : KeyedTree σ → ℕ
  | .scalar _ => 1
  | .seq l => 1 + nodesList l
  | .map d => 1 + nodesPairs d

def nodesList : List (KeyedTree σ) → ℕ
  | [] => 0
  | t :: l => nodes t + nodesList l

def nodesPairs : List (σ × KeyedTree σ) → ℕ
  | [] => 0
  | (_, t) :: d => 1 + nodes t + nodesPairs d

end

mutual

/-- Every node has the property, which may look at what is below the node. -/
def all (p : KeyedTree σ → Bool) : KeyedTree σ → Bool
  | .scalar s => p (.scalar s)
  | .seq l => p (.seq l) && allList p l
  | .map d => p (.map d) && allPairs p d

def allList (p : KeyedTree σ → Bool) : List (KeyedTree σ) → Bool
  | [] => true
  | t :: l => all p t && allList p l

def allPairs (p : KeyedTree σ → Bool) : List (σ × KeyedTree σ) → Bool
  | [] => true
  | (_, t) :: d => all p t && allPairs p d

end

variable {p : KeyedTree σ → Bool}

theorem all_seq_iff {l : List (KeyedTree σ)} :
    all p (.seq l) = true ↔ p (.seq l) = true ∧ ∀ t ∈ l, all p t = true := by
  have hlist : allList p l = true ↔ ∀ t ∈ l, all p t = true := by
    induction l with
    | nil => simp [allList]
    | cons t l ih => rw [allList, Bool.and_eq_true, ih, List.forall_mem_cons]
  rw [all, Bool.and_eq_true, hlist]

theorem all_map_iff {d : List (σ × KeyedTree σ)} :
    all p (.map d) = true ↔ p (.map d) = true ∧ ∀ q ∈ d, all p q.2 = true := by
  have hpairs : allPairs p d = true ↔ ∀ q ∈ d, all p q.2 = true := by
    induction d with
    | nil => simp [allPairs]
    | cons q d ih => rw [allPairs, Bool.and_eq_true, ih, List.forall_mem_cons]
  rw [all, Bool.and_eq_true, hpairs]

/-! ## Dictionaries -/

section

variable {κ ν : Type} (same : κ → κ → Bool)

/-- `d[k] = v`. A key that is there already stays as it is. -/
def setItem : List (κ × ν) → κ × ν → List (κ × ν)
  | [], q => [q]
  | r :: d, q => if same r.1 q.1 then (r.1, q.2) :: d else r :: setItem d q

/-- The dictionary that is made of pairs. -/
def dictOf (l : List (κ × ν)) : List (κ × ν) := l.foldl (setItem same) []

variable {same}

theorem setItem_of_new {d : List (κ × ν)} {q : κ × ν} (h : ∀ r ∈ d, same r.1 q.1 = false) :
    setItem same d q = d ++ [q] := by
  induction d with
  | nil => rfl
  | cons r d ih =>
    rw [List.forall_mem_cons] at h
    rw [setItem, h.1, if_neg Bool.false_ne_true, ih h.2]
    rfl

theorem dictOf_eq_self {l : List (κ × ν)} (h : l.Pairwise fun q r ↦ same q.1 r.1 = false) :
    dictOf same l = l := by
  have hfold : ∀ d : List (κ × ν), (d ++ l).Pairwise (fun q r ↦ same q.1 r.1 = false) →
      l.foldl (setItem same) d = d ++ l := by
    clear h
    induction l with
    | nil => exact fun d _ ↦ (List.append_nil d).symm
    | cons q l ih =>
      intro d hd
      have hnew : ∀ r ∈ d, same r.1 q.1 = false := fun r hr ↦
        (List.pairwise_append.mp hd).2.2 r hr q List.mem_cons_self
      rw [List.append_cons] at hd
      rw [List.foldl_cons, setItem_of_new hnew, ih _ hd, List.append_cons d q l]
  exact hfold [] h

theorem exists_key_setItem {f : κ → Prop} (hf : ∀ a b, same a b = true → (f a ↔ f b))
    {d : List (κ × ν)} {q : κ × ν} :
    (∃ r ∈ setItem same d q, f r.1) ↔ (∃ r ∈ d, f r.1) ∨ f q.1 := by
  induction d with
  | nil => simp [setItem]
  | cons r d ih =>
    rw [setItem]
    split
    · rename_i hsame
      rw [List.exists_mem_cons_iff, List.exists_mem_cons_iff, ← hf r.1 q.1 hsame, or_right_comm,
        or_self]
    · rw [List.exists_mem_cons_iff, List.exists_mem_cons_iff, ih, or_assoc]

theorem exists_key_dictOf {f : κ → Prop} (hf : ∀ a b, same a b = true → (f a ↔ f b))
    (l : List (κ × ν)) : (∃ r ∈ dictOf same l, f r.1) ↔ ∃ r ∈ l, f r.1 := by
  have hfold : ∀ d : List (κ × ν),
      (∃ r ∈ l.foldl (setItem same) d, f r.1) ↔ (∃ r ∈ d, f r.1) ∨ ∃ r ∈ l, f r.1 := by
    induction l with
    | nil => simp
    | cons q l ih =>
      intro d
      rw [List.foldl_cons, ih, exists_key_setItem hf, List.exists_mem_cons_iff, or_assoc]
  rw [dictOf, hfold]
  simp

end

/-! ## Objects -/

section

variable (same : σ → σ → Bool)

mutual

/-- The object that a document stands for. -/
def collapse : KeyedTree σ → KeyedTree σ
  | .scalar s => .scalar s
  | .seq l => .seq (collapseList l)
  | .map d => .map (dictOf same (collapsePairs d))

def collapseList : List (KeyedTree σ) → List (KeyedTree σ)
  | [] => []
  | t :: l => collapse t :: collapseList l

def collapsePairs : List (σ × KeyedTree σ) → List (σ × KeyedTree σ)
  | [] => []
  | (k, t) :: d => (k, collapse t) :: collapsePairs d

end

theorem collapseList_eq_map (l : List (KeyedTree σ)) :
    collapseList same l = l.map (collapse same) := by
  induction l with
  | nil => rfl
  | cons t l ih => rw [collapseList, ih, List.map_cons]

theorem collapsePairs_eq_map (d : List (σ × KeyedTree σ)) :
    collapsePairs same d = d.map fun q ↦ (q.1, collapse same q.2) := by
  induction d with
  | nil => rfl
  | cons q d ih => rw [collapsePairs, ih, List.map_cons]

end

/-! ## Rewriting -/

section

variable {ε : Type} (leaf : σ → σ) (key : σ → Except ε σ)

mutual

/-- The document with other scalars and keys. -/
def rewrite : KeyedTree σ → Except ε (KeyedTree σ)
  | .scalar s => .ok (.scalar (leaf s))
  | .seq l => (rewriteList l).map .seq
  | .map d => (rewritePairs d).map .map

def rewriteList : List (KeyedTree σ) → Except ε (List (KeyedTree σ))
  | [] => .ok []
  | t :: l => (rewrite t).bind fun u ↦ (rewriteList l).map fun us ↦ u :: us

def rewritePairs : List (σ × KeyedTree σ) → Except ε (List (σ × KeyedTree σ))
  | [] => .ok []
  | (k, t) :: d =>
    (key k).bind fun k' ↦ (rewrite t).bind fun u ↦ (rewritePairs d).map fun us ↦ (k', u) :: us

end

variable {leaf : σ → σ} {key : σ → Except ε σ}

theorem rewriteList_eq_ok {l l' : List (KeyedTree σ)} (h : rewriteList leaf key l = .ok l') :
    List.Forall₂ (fun t t' ↦ rewrite leaf key t = .ok t') l l' := by
  induction l generalizing l' with
  | nil => exact Except.ok.inj h ▸ List.Forall₂.nil
  | cons t l ih =>
    obtain ⟨u, hu, h⟩ := bind_eq_ok_iff.mp h
    obtain ⟨us, hus, rfl⟩ := map_eq_ok_iff.mp h
    exact List.Forall₂.cons hu (ih hus)

theorem rewritePairs_eq_ok {d d' : List (σ × KeyedTree σ)} (h : rewritePairs leaf key d = .ok d') :
    List.Forall₂ (fun q q' ↦ key q.1 = .ok q'.1 ∧ rewrite leaf key q.2 = .ok q'.2) d d' := by
  induction d generalizing d' with
  | nil => exact Except.ok.inj h ▸ List.Forall₂.nil
  | cons q d ih =>
    obtain ⟨k, hk, h⟩ := bind_eq_ok_iff.mp h
    obtain ⟨u, hu, h⟩ := bind_eq_ok_iff.mp h
    obtain ⟨us, hus, rfl⟩ := map_eq_ok_iff.mp h
    exact List.Forall₂.cons ⟨hk, hu⟩ (ih hus)

theorem exists_bind_iff {α β : Type} {x : Except ε α} {f : α → Except ε β} :
    (∃ b, x.bind f = .ok b) ↔ ∃ a, x = .ok a ∧ ∃ b, f a = .ok b := by
  simp only [bind_eq_ok_iff]
  exact ⟨fun ⟨b, a, ha, hb⟩ ↦ ⟨a, ha, b, hb⟩, fun ⟨a, ha, b, hb⟩ ↦ ⟨b, a, ha, hb⟩⟩

theorem exists_map_ok_iff {α β : Type} {x : Except ε α} {f : α → β} :
    (∃ b, x.map f = .ok b) ↔ ∃ a, x = .ok a := by
  simp [map_eq_ok_iff]

theorem exists_rewriteList_iff {l : List (KeyedTree σ)} :
    (∃ l', rewriteList leaf key l = .ok l') ↔ ∀ t ∈ l, ∃ t', rewrite leaf key t = .ok t' := by
  induction l with
  | nil => exact iff_of_true ⟨[], rfl⟩ fun t ht ↦ absurd ht List.not_mem_nil
  | cons t l ih =>
    rw [rewriteList, exists_bind_iff, List.forall_mem_cons, ← ih]
    simp only [exists_map_ok_iff, exists_and_right]

theorem exists_rewritePairs_iff {d : List (σ × KeyedTree σ)} :
    (∃ d', rewritePairs leaf key d = .ok d') ↔
      (∀ q ∈ d, ∃ k, key q.1 = .ok k) ∧ ∀ q ∈ d, ∃ t', rewrite leaf key q.2 = .ok t' := by
  induction d with
  | nil => exact iff_of_true ⟨[], rfl⟩ (by simp)
  | cons q d ih =>
    rw [rewritePairs, exists_bind_iff, List.forall_mem_cons, List.forall_mem_cons]
    simp only [exists_bind_iff, exists_map_ok_iff, exists_and_right, ih]
    exact ⟨fun ⟨hk, ht, hks, hts⟩ ↦ ⟨⟨hk, hks⟩, ht, hts⟩,
      fun ⟨⟨hk, hks⟩, ht, hts⟩ ↦ ⟨hk, ht, hks, hts⟩⟩

/-- The keys of a mapping are all like this. -/
def keysAre (f : σ → Bool) : KeyedTree σ → Bool
  | .map d => d.all fun q ↦ f q.1
  | _ => true

/-- **A document can be rewritten** exactly if all its keys can. -/
theorem exists_rewrite_iff (t : KeyedTree σ) :
    (∃ t', rewrite leaf key t = .ok t') ↔ t.all (keysAre fun k ↦ (key k).isOk) = true := by
  have hkey : ∀ k, (key k).isOk = true ↔ ∃ k', key k = .ok k' := by
    intro k
    rcases key k with e | k'
    · simp [Except.isOk, Except.toBool]
    · simp [Except.isOk, Except.toBool]
  induction t using KeyedTree.induction with
  | hscalar s => exact iff_of_true ⟨_, rfl⟩ rfl
  | hseq l ih =>
    rw [rewrite, exists_map_ok_iff, exists_rewriteList_iff, all_seq_iff]
    exact ⟨fun h ↦ ⟨rfl, fun t ht ↦ (ih t ht).mp (h t ht)⟩, fun h t ht ↦ (ih t ht).mpr (h.2 t ht)⟩
  | hmap d ih =>
    rw [rewrite, exists_map_ok_iff, exists_rewritePairs_iff, all_map_iff, keysAre, List.all_eq_true]
    simp only [hkey]
    exact and_congr_right fun _ ↦
      ⟨fun h q hq ↦ (ih q hq).mp (h q hq), fun h q hq ↦ (ih q hq).mpr (h q hq)⟩

def scalarIs (f : σ → Bool) : KeyedTree σ → Bool
  | .scalar s => f s
  | _ => true

/-! ## What rewriting keeps -/

/-- No key is there twice. -/
def distinctKeys [DecidableEq σ] : KeyedTree σ → Bool
  | .map d => decide (d.map Prod.fst).Nodup
  | _ => true

variable {same : σ → σ → Bool} {special kept : σ → Bool}

theorem rewriteList_eq_self {l : List (KeyedTree σ)}
    (h : ∀ t ∈ l, rewrite leaf key t = .ok t) : rewriteList leaf key l = .ok l := by
  induction l with
  | nil => rfl
  | cons t l ih =>
    rw [List.forall_mem_cons] at h
    rw [rewriteList, h.1, ih h.2]
    rfl

theorem rewritePairs_eq_self {d : List (σ × KeyedTree σ)} (hkey : ∀ q ∈ d, key q.1 = .ok q.1)
    (h : ∀ q ∈ d, rewrite leaf key q.2 = .ok q.2) : rewritePairs leaf key d = .ok d := by
  induction d with
  | nil => rfl
  | cons q d ih =>
    rw [List.forall_mem_cons] at hkey h
    rw [rewritePairs, hkey.1, h.1, ih hkey.2 h.2]
    rfl

theorem rewrite_eq_self (hkey : ∀ k, special k = true → key k = .ok k)
    (hleaf : ∀ s, kept s = true → leaf s = s) {t : KeyedTree σ}
    (hspecial : t.all (keysAre special) = true) (hkept : t.all (scalarIs kept) = true) :
    rewrite leaf key t = .ok t := by
  induction t using KeyedTree.induction with
  | hscalar s => rw [rewrite, hleaf s hkept]
  | hseq l ih =>
    rw [all_seq_iff] at hspecial hkept
    rw [rewrite, rewriteList_eq_self fun t ht ↦ ih t ht (hspecial.2 t ht) (hkept.2 t ht)]
    rfl
  | hmap d ih =>
    rw [all_map_iff] at hspecial hkept
    have hkeys : ∀ q ∈ d, key q.1 = .ok q.1 := fun q hq ↦
      hkey q.1 (List.all_eq_true.mp hspecial.1 q hq)
    rw [rewrite, rewritePairs_eq_self hkeys fun q hq ↦ ih q hq (hspecial.2 q hq) (hkept.2 q hq)]
    rfl

theorem all_scalarIs_rewrite {f : σ → Bool} (hf : ∀ s, f (leaf s) = f s) {t : KeyedTree σ} :
    ∀ {t'}, rewrite leaf key t = .ok t' →
      (t'.all (scalarIs f) = true ↔ t.all (scalarIs f) = true) := by
  induction t using KeyedTree.induction with
  | hscalar s =>
    intro t' ht'
    rw [← Except.ok.inj ht', all, all, scalarIs, scalarIs, hf]
  | hseq l ih =>
    intro t' ht'
    obtain ⟨l', hl', rfl⟩ := map_eq_ok_iff.mp ht'
    have hlist := rewriteList_eq_ok hl'
    rw [all_seq_iff, all_seq_iff]
    refine and_congr Iff.rfl ?_
    clear hl' ht'
    induction hlist with
    | nil => rfl
    | cons ht _ ihlist =>
      rw [List.forall_mem_cons] at ih
      rw [List.forall_mem_cons, List.forall_mem_cons, ih.1 ht, ihlist ih.2]
  | hmap d ih =>
    intro t' ht'
    obtain ⟨d', hd', rfl⟩ := map_eq_ok_iff.mp ht'
    have hpairs := rewritePairs_eq_ok hd'
    rw [all_map_iff, all_map_iff]
    refine and_congr Iff.rfl ?_
    clear hd' ht'
    induction hpairs with
    | nil => rfl
    | cons hq _ ihpairs =>
      rw [List.forall_mem_cons] at ih
      rw [List.forall_mem_cons, List.forall_mem_cons, ih.1 hq.2, ihpairs ih.2]

theorem exists_of_forall₂ {α β γ : Type} {R : α → β → Prop} {f : α → γ} {g : β → γ} {l : List α}
    {l' : List β} (h : List.Forall₂ R l l') (himage : l'.map g = l.map f) :
    ∀ a ∈ l, ∃ b, R a b ∧ g b = f a := by
  induction h with
  | nil => exact fun a ha ↦ absurd ha List.not_mem_nil
  | cons hab _ ih =>
    rw [List.map_cons, List.map_cons] at himage
    obtain ⟨hhead, htail⟩ := List.cons.inj himage
    exact List.forall_mem_cons.mpr ⟨⟨_, hab, hhead⟩, ih htail⟩

theorem special_of_rewritePairs (hwritten : ∀ k k', key k = .ok k' → special k' = true)
    {d d' : List (σ × KeyedTree σ)} (h : rewritePairs leaf key d = .ok d') :
    ∀ q ∈ d', special q.1 = true := by
  have hpairs := rewritePairs_eq_ok h
  clear h
  induction hpairs with
  | nil => exact fun q hq ↦ absurd hq List.not_mem_nil
  | cons hq _ ih => exact List.forall_mem_cons.mpr ⟨hwritten _ _ hq.1, ih⟩

theorem map_fst_of_rewritePairs (hkey : ∀ k, special k = true → key k = .ok k)
    {d d' : List (σ × KeyedTree σ)} (h : rewritePairs leaf key d = .ok d')
    (hspecial : ∀ q ∈ d, special q.1 = true) : d'.map Prod.fst = d.map Prod.fst := by
  have hpairs := rewritePairs_eq_ok h
  clear h
  induction hpairs with
  | nil => rfl
  | cons hq _ ih =>
    rw [List.forall_mem_cons] at hspecial
    rw [List.map_cons, List.map_cons, ih hspecial.2,
      Except.ok.inj (hq.1.symm.trans (hkey _ hspecial.1))]

theorem dictOf_collapsePairs
    (hsame : ∀ a b, special a = true → special b = true → same a b = true → a = b)
    {d : List (σ × KeyedTree σ)} (hspecial : ∀ q ∈ d, special q.1 = true)
    (hdistinct : (d.map Prod.fst).Nodup) :
    dictOf same (collapsePairs same d) = collapsePairs same d := by
  apply dictOf_eq_self
  rw [collapsePairs_eq_map, List.pairwise_map]
  rw [List.nodup_iff_pairwise_ne, List.pairwise_map] at hdistinct
  refine hdistinct.imp_of_mem fun {q r} hq hr hne ↦ Bool.eq_false_iff.mpr fun h ↦ ?_
  exact hne (hsame _ _ (hspecial q hq) (hspecial r hr) h)

/-- **When rewriting keeps the object** of a document without keys that are there twice: exactly if
its keys are special and its scalars are kept. -/
theorem collapse_rewrite_eq_iff [DecidableEq σ]
    (hsame : ∀ a b, special a = true → special b = true → same a b = true → a = b)
    (hclosed : ∀ a b, same a b = true → special a = special b)
    (hkey : ∀ k, special k = true → key k = .ok k)
    (hwritten : ∀ k k', key k = .ok k' → special k' = true)
    (hleaf : ∀ s, kept s = true ↔ leaf s = s) (t : KeyedTree σ)
    (hdistinct : t.all distinctKeys = true) :
    (∃ t', rewrite leaf key t = .ok t' ∧ collapse same t' = collapse same t) ↔
      t.all (keysAre special) = true ∧ t.all (scalarIs kept) = true := by
  constructor
  · induction t using KeyedTree.induction with
    | hscalar s =>
      rintro ⟨t', ht', h⟩
      rw [← Except.ok.inj ht'] at h
      exact ⟨rfl, (hleaf s).mpr (scalar.inj h)⟩
    | hseq l ih =>
      rintro ⟨t', ht', h⟩
      rw [all_seq_iff] at hdistinct
      obtain ⟨l', hl', rfl⟩ := map_eq_ok_iff.mp ht'
      rw [collapse, collapse, collapseList_eq_map, collapseList_eq_map] at h
      have hall := exists_of_forall₂ (rewriteList_eq_ok hl') (seq.inj h)
      rw [all_seq_iff, all_seq_iff]
      exact ⟨⟨rfl, fun t ht ↦ (ih t ht (hdistinct.2 t ht) (hall t ht)).1⟩,
        ⟨rfl, fun t ht ↦ (ih t ht (hdistinct.2 t ht) (hall t ht)).2⟩⟩
    | hmap d ih =>
      rintro ⟨t', ht', h⟩
      rw [all_map_iff] at hdistinct
      obtain ⟨d', hd', rfl⟩ := map_eq_ok_iff.mp ht'
      rw [collapse, collapse] at h
      have h := map.inj h
      have hwrittenKeys := special_of_rewritePairs hwritten hd'
      -- a key that is not special would still be in the object of the document
      have hspecial : ∀ q ∈ d, special q.1 = true := by
        intro q hq
        by_contra hother
        have hiff : ∀ a b, same a b = true → (special a ≠ true ↔ special b ≠ true) := by
          intro a b hab
          rw [hclosed a b hab]
        have hmem : ∃ r ∈ dictOf same (collapsePairs same d), special r.1 ≠ true := by
          rw [exists_key_dictOf hiff, collapsePairs_eq_map]
          exact ⟨_, List.mem_map_of_mem hq, hother⟩
        rw [← h, exists_key_dictOf hiff, collapsePairs_eq_map] at hmem
        obtain ⟨r, hr, hother⟩ := hmem
        obtain ⟨q', hq', rfl⟩ := List.mem_map.mp hr
        exact hother (hwrittenKeys q' hq')
      have hkeys := map_fst_of_rewritePairs hkey hd' hspecial
      have hnodup : (d.map Prod.fst).Nodup := of_decide_eq_true hdistinct.1
      rw [dictOf_collapsePairs hsame hspecial hnodup,
        dictOf_collapsePairs hsame hwrittenKeys (hkeys ▸ hnodup), collapsePairs_eq_map,
        collapsePairs_eq_map] at h
      have hall : ∀ q ∈ d, ∃ t', rewrite leaf key q.2 = .ok t' ∧
          collapse same t' = collapse same q.2 := by
        intro q hq
        obtain ⟨q', ⟨-, hq'⟩, himage⟩ := exists_of_forall₂ (rewritePairs_eq_ok hd') h q hq
        exact ⟨q'.2, hq', (Prod.ext_iff.mp himage).2⟩
      rw [all_map_iff, all_map_iff]
      exact ⟨⟨List.all_eq_true.mpr hspecial,
          fun q hq ↦ (ih q hq (hdistinct.2 q hq) (hall q hq)).1⟩,
        ⟨rfl, fun q hq ↦ (ih q hq (hdistinct.2 q hq) (hall q hq)).2⟩⟩
  · rintro ⟨hspecial, hkept⟩
    exact ⟨t, rewrite_eq_self hkey (fun s hs ↦ (hleaf s).mp hs) hspecial hkept, rfl⟩

end

end KeyedTree

end ArgusMcp
