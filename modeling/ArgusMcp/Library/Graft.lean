import ArgusMcp.Library.KeyedTree
import Mathlib.Tactic.Common

/-!
# Trees in place of scalars

What a serializer does to a document: each scalar is written as a tree, and each key as a key
(`graft`). Where some scalars or keys cannot be written, the document cannot either (`convert`), and
that is the only way it can fail (`convert_eq_some_iff`).

Where the scalars are written as scalars and the keys stay as they are (`mapLeaves`), two ways to
write a document agree exactly if they agree on its scalars (`mapLeaves_eq_iff`), and it makes no
difference if the object that the document stands for is made before or after
(`collapse_mapLeaves`).
-/

namespace ArgusMcp

namespace KeyedTree

variable {σ τ υ : Type}

section Graft

variable (leaf : σ → KeyedTree τ) (key : σ → τ)

mutual

def graft : KeyedTree σ → KeyedTree τ
  | .scalar s => leaf s
  | .seq l => .seq (graftList l)
  | .map d => .map (graftPairs d)

def graftList : List (KeyedTree σ) → List (KeyedTree τ)
  | [] => []
  | t :: l => graft t :: graftList l

def graftPairs : List (σ × KeyedTree σ) → List (τ × KeyedTree τ)
  | [] => []
  | (k, t) :: d => (key k, graft t) :: graftPairs d

end

variable {leaf : σ → KeyedTree τ} {key : σ → τ}

theorem graftList_eq_map (l : List (KeyedTree σ)) :
    graftList leaf key l = l.map (graft leaf key) := by
  induction l with
  | nil => rfl
  | cons t l ih => rw [graftList, ih, List.map_cons]

theorem graftPairs_eq_map (d : List (σ × KeyedTree σ)) :
    graftPairs leaf key d = d.map fun q ↦ (key q.1, graft leaf key q.2) := by
  induction d with
  | nil => rfl
  | cons q d ih => rw [graftPairs, ih, List.map_cons]

end Graft

section Convert

variable (leaf : σ → Option (KeyedTree τ)) (key : σ → Option τ)

mutual

def convert : KeyedTree σ → Option (KeyedTree τ)
  | .scalar s => leaf s
  | .seq l => (convertList l).map .seq
  | .map d => (convertPairs d).map .map

def convertList : List (KeyedTree σ) → Option (List (KeyedTree τ))
  | [] => some []
  | t :: l => (convert t).bind fun u ↦ (convertList l).map fun us ↦ u :: us

def convertPairs : List (σ × KeyedTree σ) → Option (List (τ × KeyedTree τ))
  | [] => some []
  | (k, t) :: d =>
    (key k).bind fun k' ↦ (convert t).bind fun u ↦ (convertPairs d).map fun us ↦ (k', u) :: us

end

variable {leaf : σ → Option (KeyedTree τ)} {key : σ → Option τ}

theorem convertList_eq_some_iff {p : KeyedTree σ → Prop} {g : KeyedTree σ → KeyedTree τ}
    {l : List (KeyedTree σ)} {l' : List (KeyedTree τ)}
    (h : ∀ t ∈ l, ∀ u, convert leaf key t = some u ↔ p t ∧ u = g t) :
    convertList leaf key l = some l' ↔ (∀ t ∈ l, p t) ∧ l' = l.map g := by
  induction l generalizing l' with
  | nil =>
    rw [convertList, Option.some.injEq, eq_comm]
    exact (and_iff_right fun t ht ↦ absurd ht List.not_mem_nil).symm
  | cons t l ih =>
    rw [List.forall_mem_cons] at h
    rw [convertList, Option.bind_eq_some_iff, List.forall_mem_cons, List.map_cons]
    constructor
    · rintro ⟨u, hu, hrest⟩
      obtain ⟨us, hus, rfl⟩ := Option.map_eq_some_iff.mp hrest
      obtain ⟨ht, rfl⟩ := (h.1 u).mp hu
      obtain ⟨hl, rfl⟩ := (ih h.2).mp hus
      exact ⟨⟨ht, hl⟩, rfl⟩
    · rintro ⟨⟨ht, hl⟩, rfl⟩
      exact ⟨g t, (h.1 _).mpr ⟨ht, rfl⟩, Option.map_eq_some_iff.mpr
        ⟨l.map g, (ih h.2).mpr ⟨hl, rfl⟩, rfl⟩⟩

theorem convertPairs_eq_some_iff {p : KeyedTree σ → Prop} {g : KeyedTree σ → KeyedTree τ}
    {f : σ → τ} (hf : ∀ k k', key k = some k' → f k = k') {d : List (σ × KeyedTree σ)}
    {d' : List (τ × KeyedTree τ)}
    (h : ∀ q ∈ d, ∀ u, convert leaf key q.2 = some u ↔ p q.2 ∧ u = g q.2) :
    convertPairs leaf key d = some d' ↔
      (∀ q ∈ d, (key q.1).isSome = true ∧ p q.2) ∧ d' = d.map fun q ↦ (f q.1, g q.2) := by
  induction d generalizing d' with
  | nil =>
    rw [convertPairs, Option.some.injEq, eq_comm]
    exact (and_iff_right fun q hq ↦ absurd hq List.not_mem_nil).symm
  | cons q d ih =>
    obtain ⟨k, t⟩ := q
    rw [List.forall_mem_cons] at h
    rw [convertPairs, Option.bind_eq_some_iff, List.forall_mem_cons, List.map_cons]
    constructor
    · rintro ⟨k', hk, hrest⟩
      obtain ⟨u, hu, hrest⟩ := Option.bind_eq_some_iff.mp hrest
      obtain ⟨us, hus, rfl⟩ := Option.map_eq_some_iff.mp hrest
      obtain ⟨ht, rfl⟩ := (h.1 u).mp hu
      obtain ⟨hd, rfl⟩ := (ih h.2).mp hus
      rw [hf k k' hk]
      exact ⟨⟨⟨Option.isSome_iff_exists.mpr ⟨k', hk⟩, ht⟩, hd⟩, rfl⟩
    · rintro ⟨⟨⟨hk, ht⟩, hd⟩, rfl⟩
      obtain ⟨k', hk⟩ := Option.isSome_iff_exists.mp hk
      refine ⟨k', hk, Option.bind_eq_some_iff.mpr ⟨g t, (h.1 _).mpr ⟨ht, rfl⟩, ?_⟩⟩
      rw [(ih h.2).mpr ⟨hd, rfl⟩, hf k k' hk]
      rfl

/-- **A document can be converted** exactly if its scalars and keys can. -/
theorem convert_eq_some_iff {leaf' : σ → KeyedTree τ} {key' : σ → τ}
    (hleaf : ∀ s u, leaf s = some u → leaf' s = u) (hkey : ∀ k k', key k = some k' → key' k = k')
    {t : KeyedTree σ} {t' : KeyedTree τ} :
    convert leaf key t = some t' ↔
      (t.all (scalarIs fun s ↦ (leaf s).isSome) = true ∧
        t.all (keysAre fun k ↦ (key k).isSome) = true) ∧ t' = graft leaf' key' t := by
  induction t using KeyedTree.induction generalizing t' with
  | hscalar s =>
    constructor
    · exact fun h ↦ ⟨⟨Option.isSome_iff_exists.mpr ⟨t', h⟩, rfl⟩, (hleaf s t' h).symm⟩
    · rintro ⟨⟨hs, -⟩, rfl⟩
      obtain ⟨u, hu⟩ := Option.isSome_iff_exists.mp hs
      rw [convert, graft, hleaf s u hu, hu]
  | hseq l ih =>
    rw [convert, Option.map_eq_some_iff, all_seq_iff, all_seq_iff, graft, graftList_eq_map]
    constructor
    · rintro ⟨l', hl', rfl⟩
      obtain ⟨hall, rfl⟩ := (convertList_eq_some_iff fun t ht u ↦ ih t ht).mp hl'
      exact ⟨⟨⟨rfl, fun t ht ↦ (hall t ht).1⟩, ⟨rfl, fun t ht ↦ (hall t ht).2⟩⟩, rfl⟩
    · rintro ⟨⟨hs, hk⟩, rfl⟩
      exact ⟨_, (convertList_eq_some_iff fun t ht u ↦ ih t ht).mpr
        ⟨fun t ht ↦ ⟨hs.2 t ht, hk.2 t ht⟩, rfl⟩, rfl⟩
  | hmap d ih =>
    rw [convert, Option.map_eq_some_iff, all_map_iff, all_map_iff, graft, graftPairs_eq_map,
      keysAre, List.all_eq_true]
    have hpairs : ∀ {d'}, convertPairs leaf key d = some d' ↔ _ ∧ d' = _ :=
      convertPairs_eq_some_iff (g := graft leaf' key')
        (p := fun t ↦ t.all (scalarIs fun s ↦ (leaf s).isSome) = true ∧
          t.all (keysAre fun k ↦ (key k).isSome) = true) hkey fun q hq u ↦ ih q hq
    constructor
    · rintro ⟨d', hd', rfl⟩
      obtain ⟨hall, rfl⟩ := hpairs.mp hd'
      exact ⟨⟨⟨rfl, fun q hq ↦ (hall q hq).2.1⟩,
        ⟨fun q hq ↦ (hall q hq).1, fun q hq ↦ (hall q hq).2.2⟩⟩, rfl⟩
    · rintro ⟨⟨hs, hk⟩, rfl⟩
      exact ⟨_, hpairs.mpr
        ⟨fun q hq ↦ ⟨hk.1 q hq, hs.2 q hq, hk.2 q hq⟩, rfl⟩, rfl⟩

end Convert

/-! ## What grafting keeps -/

mutual

/-- How many sequences and mappings there are around each other. -/
def height : KeyedTree σ → ℕ
  | .scalar _ => 0
  | .seq l => heightList l + 1
  | .map d => heightPairs d + 1

def heightList : List (KeyedTree σ) → ℕ
  | [] => 0
  | t :: l => max (height t) (heightList l)

def heightPairs : List (σ × KeyedTree σ) → ℕ
  | [] => 0
  | (_, t) :: d => max (height t) (heightPairs d)

end

theorem height_graft (leaf : σ → τ) (key : σ → τ) (t : KeyedTree σ) :
    (graft (fun s ↦ .scalar (leaf s)) key t).height = t.height := by
  induction t using KeyedTree.induction with
  | hscalar s => rfl
  | hseq l ih =>
    rw [graft, height, height, Nat.add_right_cancel_iff]
    induction l with
    | nil => rfl
    | cons t l ihl =>
      rw [List.forall_mem_cons] at ih
      rw [graftList, heightList, heightList, ih.1, ihl ih.2]
  | hmap d ih =>
    rw [graft, height, height, Nat.add_right_cancel_iff]
    induction d with
    | nil => rfl
    | cons q d ihd =>
      rw [List.forall_mem_cons] at ih
      rw [graftPairs, heightPairs, heightPairs, ih.1, ihd ih.2]

theorem all_and_iff {p q : KeyedTree σ → Bool} (t : KeyedTree σ) :
    t.all (fun u ↦ p u && q u) = true ↔ t.all p = true ∧ t.all q = true := by
  induction t using KeyedTree.induction with
  | hscalar s => exact Bool.and_eq_true_iff
  | hseq l ih =>
    rw [all_seq_iff, all_seq_iff, all_seq_iff, Bool.and_eq_true, and_and_and_comm, ← forall₂_and]
    exact and_congr_right fun _ ↦ forall₂_congr ih
  | hmap d ih =>
    rw [all_map_iff, all_map_iff, all_map_iff, Bool.and_eq_true, and_and_and_comm, ← forall₂_and]
    exact and_congr_right fun _ ↦ forall₂_congr ih

theorem all_scalarIs_and_iff {p q : σ → Bool} (t : KeyedTree σ) :
    t.all (scalarIs fun s ↦ p s && q s) = true ↔
      t.all (scalarIs p) = true ∧ t.all (scalarIs q) = true := by
  rw [← all_and_iff]
  refine Eq.congr (congrArg (all · t) (funext fun u ↦ ?_)) rfl
  rcases u with _ | _ | _
  · rfl
  · rfl
  · rfl

theorem all_keysAre_and_iff {p q : σ → Bool} (t : KeyedTree σ) :
    t.all (keysAre fun s ↦ p s && q s) = true ↔
      t.all (keysAre p) = true ∧ t.all (keysAre q) = true := by
  rw [← all_and_iff]
  refine Eq.congr (congrArg (all · t) (funext fun u ↦ ?_)) rfl
  rcases u with _ | _ | d
  · rfl
  · rfl
  · rw [keysAre, keysAre, keysAre, Bool.eq_iff_iff, Bool.and_eq_true]
    simp only [List.all_eq_true, Bool.and_eq_true]
    exact forall₂_and

theorem eq_and_of_imp {p q : σ → Bool} (h : ∀ s, p s = true → q s = true) :
    p = fun s ↦ p s && q s := by
  funext s
  rw [Bool.eq_iff_iff, Bool.and_eq_true]
  exact ⟨fun hp ↦ ⟨hp, h s hp⟩, And.left⟩

theorem all_scalarIs_of_imp {p q : σ → Bool} (h : ∀ s, p s = true → q s = true)
    {t : KeyedTree σ} (ht : t.all (scalarIs p) = true) : t.all (scalarIs q) = true := by
  rw [eq_and_of_imp h, all_scalarIs_and_iff] at ht
  exact ht.2

theorem all_keysAre_of_imp {p q : σ → Bool} (h : ∀ s, p s = true → q s = true)
    {t : KeyedTree σ} (ht : t.all (keysAre p) = true) : t.all (keysAre q) = true := by
  rw [eq_and_of_imp h, all_keysAre_and_iff] at ht
  exact ht.2

theorem all_scalarIs_graft {leaf : σ → τ} {key : σ → τ} {p : τ → Bool} (t : KeyedTree σ) :
    (graft (fun s ↦ .scalar (leaf s)) key t).all (scalarIs p) =
      t.all (scalarIs fun s ↦ p (leaf s)) := by
  rw [Bool.eq_iff_iff]
  induction t using KeyedTree.induction with
  | hscalar s => rfl
  | hseq l ih =>
    rw [graft, graftList_eq_map, all_seq_iff, all_seq_iff, List.forall_mem_map]
    exact and_congr_right fun _ ↦ forall₂_congr ih
  | hmap d ih =>
    rw [graft, graftPairs_eq_map, all_map_iff, all_map_iff, List.forall_mem_map]
    exact and_congr_right fun _ ↦ forall₂_congr ih

theorem all_keysAre_graft {leaf : σ → τ} {key : σ → τ} {p : τ → Bool} (t : KeyedTree σ) :
    (graft (fun s ↦ .scalar (leaf s)) key t).all (keysAre p) =
      t.all (keysAre fun k ↦ p (key k)) := by
  rw [Bool.eq_iff_iff]
  induction t using KeyedTree.induction with
  | hscalar s => rfl
  | hseq l ih =>
    rw [graft, graftList_eq_map, all_seq_iff, all_seq_iff, List.forall_mem_map]
    exact and_congr_right fun _ ↦ forall₂_congr ih
  | hmap d ih =>
    rw [graft, graftPairs_eq_map, all_map_iff, all_map_iff, List.forall_mem_map, keysAre, keysAre,
      List.all_map]
    exact and_congr_right fun _ ↦ forall₂_congr ih

/-- Other scalars, and the same keys. -/
def mapLeaves (f : σ → σ) (t : KeyedTree σ) : KeyedTree σ := graft (fun s ↦ .scalar (f s)) id t

section Leaves

variable {f g : σ → σ}

theorem mapLeaves_seq (l : List (KeyedTree σ)) :
    mapLeaves f (.seq l) = .seq (l.map (mapLeaves f)) := by
  rw [mapLeaves, graft, graftList_eq_map]
  rfl

theorem mapLeaves_map (d : List (σ × KeyedTree σ)) :
    mapLeaves f (.map d) = .map (d.map fun q ↦ (q.1, mapLeaves f q.2)) := by
  rw [mapLeaves, graft, graftPairs_eq_map]
  rfl

theorem mapLeaves_mapLeaves (t : KeyedTree σ) :
    mapLeaves f (mapLeaves g t) = mapLeaves (f ∘ g) t := by
  induction t using KeyedTree.induction with
  | hscalar s => rfl
  | hseq l ih =>
    rw [mapLeaves_seq, mapLeaves_seq, mapLeaves_seq, List.map_map]
    exact congrArg _ (List.map_congr_left ih)
  | hmap d ih =>
    rw [mapLeaves_map, mapLeaves_map, mapLeaves_map, List.map_map]
    refine congrArg _ (List.map_congr_left fun q hq ↦ ?_)
    exact congrArg _ (ih q hq)

/-- **Two ways to write a document** agree exactly if they agree on its scalars. -/
theorem mapLeaves_eq_iff [DecidableEq σ] {t : KeyedTree σ} :
    mapLeaves f t = mapLeaves g t ↔ t.all (scalarIs fun s ↦ f s = g s) = true := by
  induction t using KeyedTree.induction with
  | hscalar s =>
    change KeyedTree.scalar (f s) = .scalar (g s) ↔ decide (f s = g s) = true
    rw [scalar.injEq, decide_eq_true_iff]
  | hseq l ih =>
    rw [mapLeaves_seq, mapLeaves_seq, seq.injEq, all_seq_iff, List.map_inj_left]
    exact ⟨fun h ↦ ⟨rfl, fun t ht ↦ (ih t ht).mp (h t ht)⟩,
      fun h t ht ↦ (ih t ht).mpr (h.2 t ht)⟩
  | hmap d ih =>
    rw [mapLeaves_map, mapLeaves_map, map.injEq, all_map_iff, List.map_inj_left]
    exact ⟨fun h ↦ ⟨rfl, fun q hq ↦ (ih q hq).mp (Prod.ext_iff.mp (h q hq)).2⟩,
      fun h q hq ↦ Prod.ext rfl ((ih q hq).mpr (h.2 q hq))⟩

variable {same : σ → σ → Bool}

theorem dictOf_map {κ ν ν' : Type} {same : κ → κ → Bool} (f : ν → ν') (l : List (κ × ν)) :
    dictOf same (l.map fun q ↦ (q.1, f q.2)) = (dictOf same l).map fun q ↦ (q.1, f q.2) := by
  have hset : ∀ (d : List (κ × ν)) q,
      setItem same (d.map fun r ↦ (r.1, f r.2)) (q.1, f q.2) =
        (setItem same d q).map fun r ↦ (r.1, f r.2) := by
    intro d q
    induction d with
    | nil => rfl
    | cons r d ih =>
      rw [List.map_cons, setItem, setItem]
      dsimp only
      split
      · rfl
      · rw [ih, List.map_cons]
  have hfold : ∀ d : List (κ × ν),
      (l.map fun q ↦ (q.1, f q.2)).foldl (setItem same) (d.map fun r ↦ (r.1, f r.2)) =
        (l.foldl (setItem same) d).map fun r ↦ (r.1, f r.2) := by
    induction l with
    | nil => exact fun _ ↦ rfl
    | cons q l ih =>
      intro d
      rw [List.map_cons, List.foldl_cons, List.foldl_cons, hset, ih]
  exact hfold []

theorem fst_of_mem_setItem {κ ν : Type} {same : κ → κ → Bool} {d : List (κ × ν)} {q r : κ × ν}
    (h : r ∈ setItem same d q) : r.1 = q.1 ∨ ∃ r' ∈ d, r'.1 = r.1 := by
  induction d with
  | nil => exact Or.inl (congrArg _ (List.mem_singleton.mp h))
  | cons s d ih =>
    rw [setItem] at h
    split at h
    · rcases List.mem_cons.mp h with rfl | hr
      · exact Or.inr ⟨s, List.mem_cons_self, rfl⟩
      · exact Or.inr ⟨r, List.mem_cons_of_mem _ hr, rfl⟩
    · rcases List.mem_cons.mp h with rfl | hr
      · exact Or.inr ⟨r, List.mem_cons_self, rfl⟩
      · rcases ih hr with heq | ⟨r', hr', heq⟩
        · exact Or.inl heq
        · exact Or.inr ⟨r', List.mem_cons_of_mem _ hr', heq⟩

theorem pairwise_dictOf {κ ν : Type} {same : κ → κ → Bool} (l : List (κ × ν)) :
    (dictOf same l).Pairwise fun q r ↦ same q.1 r.1 = false := by
  have hset : ∀ (d : List (κ × ν)) q, d.Pairwise (fun q r ↦ same q.1 r.1 = false) →
      (setItem same d q).Pairwise fun q r ↦ same q.1 r.1 = false := by
    intro d q hd
    induction d with
    | nil => exact List.pairwise_singleton _ _
    | cons r d ih =>
      rw [List.pairwise_cons] at hd
      rw [setItem]
      split
      · exact List.pairwise_cons.mpr hd
      · rename_i hne
        refine List.pairwise_cons.mpr ⟨fun x hx ↦ ?_, ih hd.2⟩
        rcases fst_of_mem_setItem hx with heq | ⟨r', hr', heq⟩
        · rw [heq]
          exact Bool.eq_false_iff.mpr hne
        · rw [← heq]
          exact hd.1 r' hr'
  have hfold : ∀ d : List (κ × ν), d.Pairwise (fun q r ↦ same q.1 r.1 = false) →
      (l.foldl (setItem same) d).Pairwise fun q r ↦ same q.1 r.1 = false := by
    induction l with
    | nil => exact fun _ hd ↦ hd
    | cons q l ih => exact fun d hd ↦ ih _ (hset d q hd)
  exact hfold [] List.Pairwise.nil

/-- The object can be made before or after. -/
theorem collapse_mapLeaves (t : KeyedTree σ) :
    collapse same (mapLeaves f t) = mapLeaves f (collapse same t) := by
  induction t using KeyedTree.induction with
  | hscalar s => rfl
  | hseq l ih =>
    rw [mapLeaves_seq, collapse, collapse, mapLeaves_seq, collapseList_eq_map,
      collapseList_eq_map, List.map_map, List.map_map]
    exact congrArg _ (List.map_congr_left ih)
  | hmap d ih =>
    rw [mapLeaves_map, collapse, collapse, mapLeaves_map, collapsePairs_eq_map,
      collapsePairs_eq_map, ← dictOf_map, List.map_map, List.map_map]
    refine congrArg _ (congrArg _ (List.map_congr_left fun q hq ↦ ?_))
    exact congrArg _ (ih q hq)

/-- An object stands for itself. -/
theorem collapse_collapse (t : KeyedTree σ) :
    collapse same (collapse same t) = collapse same t := by
  induction t using KeyedTree.induction with
  | hscalar s => rfl
  | hseq l ih =>
    rw [collapse, collapse, collapseList_eq_map, collapseList_eq_map, List.map_map]
    exact congrArg _ (List.map_congr_left ih)
  | hmap d ih =>
    have hpairs : collapsePairs same (dictOf same (collapsePairs same d)) =
        dictOf same (collapsePairs same d) := by
      rw [collapsePairs_eq_map, ← dictOf_map, collapsePairs_eq_map, List.map_map]
      refine congrArg _ (List.map_congr_left fun q hq ↦ ?_)
      exact congrArg _ (ih q hq)
    rw [collapse, collapse, hpairs, dictOf_eq_self (pairwise_dictOf _)]

end Leaves

end KeyedTree

end ArgusMcp
