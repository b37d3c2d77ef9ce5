import Mathlib.Data.List.Infix
import Mathlib.Tactic.Common

/-!
# Regular expressions, as backtracking engines run them

The fragment with character classes, sequence, ordered choice, repetition of a class, as often or as
rarely as possible, and assertions about a position: the two anchors, and any other that can be said
by how much of the text is left. An engine looks for a match at the leftmost position where there
is one, and takes the first one there in the order of its alternatives; `run` lists all matches at a
position in that order, each as the text that is left behind it. What an expression matches does not
depend on the order, and is said once more without it by `Matches`.

`sub` replaces the matches of an expression from left to right. A replaced text may still contain
a match: the replacement can become part of one, or make a neighbour one. `not_occurs_sub` is about
expressions for which it cannot, because the replacement is fenced by characters they never
consume.
-/

namespace ArgusMcp

/-- Regular expressions over an alphabet. -/
inductive Regex (α : Type*) where
  | empty
  | cls (p : α → Bool)
  | seq (a b : Regex α)
  /-- The first alternative is preferred. -/
  | alt (a b : Regex α)
  /-- As many letters of the class as possible, at least `lo` and at most `hi`. -/
  | many (p : α → Bool) (lo : ℕ) (hi : Option ℕ)
  /-- As few letters of the class as possible, at least `lo` and at most `hi`. -/
  | few (p : α → Bool) (lo : ℕ) (hi : Option ℕ)
  /-- A position with a property, which is given by the number of letters that are left. -/
  | here (p : ℕ → Bool)
  /-- The beginning of the text. -/
  | start
  /-- The end of the text, or the position before the letter if that is the last one. -/
  | stop (trailing : Option α)

namespace Regex

variable {α : Type*}

/-- As many copies of an expression as possible, and at most `n`. -/
def upTo (r : Regex α) : ℕ → Regex α
  | 0 => empty
  | n + 1 => alt (seq r (upTo r n)) empty

/-- As many copies of an expression as possible, at least `lo` and at most `lo + n`. -/
def times (r : Regex α) (lo n : ℕ) : Regex α :=
  (List.replicate lo r).foldr seq (upTo r n)

/-- A position where a letter of the class stands on one side and none on the other. -/
def boundary (p : α → Bool) (text : List α) : Regex α :=
  here fun left ↦
    let pos := text.length - left
    (decide (0 < pos) && (text[pos - 1]?.any p)) != text[pos]?.any p

/-! ## Matching -/

/-- The greedy repetition: the longest possibility first. -/
def runMany (p : α → Bool) : ℕ → Option ℕ → List α → List (List α)
  | lo, _, [] => if lo = 0 then [[]] else []
  | lo, hi, c :: s =>
    (if hi ≠ some 0 ∧ p c = true then runMany p (lo - 1) (hi.map (· - 1)) s else [])
      ++ (if lo = 0 then [c :: s] else [])

section

variable [DecidableEq α]

/-- All matches at the beginning of a suffix of a text of length `len`, in the order in which they
are tried. A match is given by what it leaves of the suffix. -/
def run (len : ℕ) : Regex α → List α → List (List α)
  | empty, s => [s]
  | cls _, [] => []
  | cls p, c :: s => if p c then [s] else []
  | seq a b, s => (run len a s).flatMap (run len b)
  | alt a b, s => run len a s ++ run len b s
  | many p lo hi, s => runMany p lo hi s
  | few p lo hi, s => (runMany p lo hi s).reverse
  | here p, s => if p s.length then [s] else []
  | start, s => if s.length = len then [s] else []
  | stop trailing, s => if s = [] ∨ s = trailing.toList then [s] else []

/-- There is a match somewhere in the text. -/
def search (r : Regex α) (text : List α) : Bool :=
  text.tails.any fun s ↦ !(run text.length r s).isEmpty

end

/-- The expression matches what `s` has and `t` has not: `t` is what it leaves of `s`, a suffix of
a text of length `len`. -/
def Matches (len : ℕ) : Regex α → List α → List α → Prop
  | empty, s, t => s = t
  | cls p, s, t => ∃ c, p c = true ∧ s = c :: t
  | seq a b, s, t => ∃ m, a.Matches len s m ∧ b.Matches len m t
  | alt a b, s, t => a.Matches len s t ∨ b.Matches len s t
  | many p lo hi, s, t => ∃ w, s = w ++ t ∧ (∀ c ∈ w, p c = true) ∧ lo ≤ w.length ∧
      ∀ n, hi = some n → w.length ≤ n
  | few p lo hi, s, t => ∃ w, s = w ++ t ∧ (∀ c ∈ w, p c = true) ∧ lo ≤ w.length ∧
      ∀ n, hi = some n → w.length ≤ n
  | here p, s, t => s = t ∧ p s.length = true
  | start, s, t => s = t ∧ s.length = len
  | stop trailing, s, t => s = t ∧ (s = [] ∨ s = trailing.toList)

/-- The expression matches somewhere in the text. -/
def Occurs (r : Regex α) (text : List α) : Prop :=
  ∃ s t, s <:+ text ∧ r.Matches text.length s t

/-- The words a repetition matches. -/
def ManyWord (p : α → Bool) (lo : ℕ) (hi : Option ℕ) (w : List α) : Prop :=
  (∀ c ∈ w, p c = true) ∧ lo ≤ w.length ∧ ∀ n, hi = some n → w.length ≤ n

theorem manyWord_nil_iff {p : α → Bool} {lo : ℕ} {hi : Option ℕ} :
    ManyWord p lo hi [] ↔ lo = 0 := by
  constructor
  · rintro ⟨-, hlo, -⟩
    exact Nat.le_zero.mp hlo
  · rintro rfl
    exact ⟨fun c hc ↦ absurd hc List.not_mem_nil, le_refl 0, fun n _ ↦ Nat.zero_le n⟩

theorem manyWord_cons_iff {p : α → Bool} {lo : ℕ} {hi : Option ℕ} {c : α} {w : List α} :
    ManyWord p lo hi (c :: w) ↔
      (hi ≠ some 0 ∧ p c = true) ∧ ManyWord p (lo - 1) (hi.map (· - 1)) w := by
  constructor
  · rintro ⟨hp, hlo, hhi⟩
    rw [List.length_cons] at hlo hhi
    have h0 : hi ≠ some 0 := fun h0 ↦ absurd (hhi 0 h0) (by omega)
    refine ⟨⟨h0, hp c List.mem_cons_self⟩, fun d hd ↦ hp d (List.mem_cons_of_mem c hd), by omega,
      fun n hn ↦ ?_⟩
    obtain ⟨m, hm, rfl⟩ := Option.map_eq_some_iff.mp hn
    have := hhi m hm
    omega
  · rintro ⟨⟨h0, hc⟩, hp, hlo, hhi⟩
    refine ⟨fun d hd ↦ ?_, ?_, ?_⟩
    · rcases List.mem_cons.mp hd with rfl | hd
      · exact hc
      · exact hp d hd
    · rw [List.length_cons]
      omega
    · rintro n rfl
      have hn := hhi (n - 1) rfl
      have hpos : n ≠ 0 := fun h ↦ h0 (h ▸ rfl)
      rw [List.length_cons]
      omega

theorem mem_runMany_iff {p : α → Bool} {lo : ℕ} {hi : Option ℕ} {s t : List α} :
    t ∈ runMany p lo hi s ↔ ∃ w, s = w ++ t ∧ ManyWord p lo hi w := by
  -- A word is empty, and then it leaves everything, or it begins with the first letter.
  induction s generalizing lo hi with
  | nil =>
    rw [runMany, List.mem_ite_nil_right, List.mem_singleton]
    constructor
    · rintro ⟨hlo, rfl⟩
      exact ⟨[], rfl, manyWord_nil_iff.mpr hlo⟩
    · rintro ⟨w, hw, hword⟩
      obtain ⟨rfl, rfl⟩ := List.append_eq_nil_iff.mp hw.symm
      exact ⟨manyWord_nil_iff.mp hword, rfl⟩
  | cons c s ih =>
    rw [runMany, List.mem_append, List.mem_ite_nil_right, List.mem_ite_nil_right, ih,
      List.mem_singleton]
    constructor
    · rintro (⟨hc, w, rfl, hword⟩ | ⟨hlo, rfl⟩)
      · exact ⟨c :: w, rfl, manyWord_cons_iff.mpr ⟨hc, hword⟩⟩
      · exact ⟨[], rfl, manyWord_nil_iff.mpr hlo⟩
    · rintro ⟨_ | ⟨d, w⟩, hw, hword⟩
      · exact .inr ⟨manyWord_nil_iff.mp hword, hw.symm⟩
      · obtain ⟨rfl, rfl⟩ := List.cons.inj hw
        obtain ⟨hc, hword⟩ := manyWord_cons_iff.mp hword
        exact .inl ⟨hc, w, rfl, hword⟩

section

variable [DecidableEq α]

/-- The engine finds exactly the matches. -/
theorem mem_run_iff {len : ℕ} {r : Regex α} {s t : List α} :
    t ∈ run len r s ↔ r.Matches len s t := by
  induction r generalizing s t with
  | empty => rw [run, List.mem_singleton, Matches, eq_comm]
  | cls p =>
    rcases s with _ | ⟨c, s⟩
    · simp [run, Matches]
    · rw [run, Matches]
      split
      · rename_i hc
        rw [List.mem_singleton]
        constructor
        · rintro rfl
          exact ⟨c, hc, rfl⟩
        · rintro ⟨d, -, heq⟩
          exact (List.cons.inj heq).2.symm
      · rename_i hc
        refine iff_of_false List.not_mem_nil ?_
        rintro ⟨d, hd, heq⟩
        exact hc ((List.cons.inj heq).1 ▸ hd)
  | seq a b iha ihb => simp only [run, Matches, List.mem_flatMap, iha, ihb]
  | alt a b iha ihb => simp only [run, Matches, List.mem_append, iha, ihb]
  | many p lo hi => exact mem_runMany_iff
  | few p lo hi => exact List.mem_reverse.trans mem_runMany_iff
  | here p | start | stop trailing =>
    rw [run, Matches]
    split
    · rename_i h
      simp [h, eq_comm]
    · rename_i h
      simp [h]

theorem matches_word_iff {len : ℕ} {w s t : List α} :
    (w.foldr (fun c r ↦ seq (cls fun d ↦ decide (d = c)) r) empty).Matches len s t ↔
      s = w ++ t := by
  induction w generalizing s with
  | nil => exact Iff.rfl
  | cons c w ih =>
    rw [List.foldr_cons, Matches]
    constructor
    · rintro ⟨m, ⟨d, hd, rfl⟩, hm⟩
      rw [of_decide_eq_true hd, ih.mp hm]
      rfl
    · rintro rfl
      exact ⟨w ++ t, ⟨c, decide_eq_true rfl, rfl⟩, ih.mpr rfl⟩

theorem search_iff_occurs {r : Regex α} {text : List α} :
    r.search text = true ↔ r.Occurs text := by
  rw [search, List.any_eq_true, Occurs]
  refine exists_congr fun s ↦ ?_
  rw [List.mem_tails, Bool.not_eq_true', List.isEmpty_eq_false_iff_exists_mem]
  simp only [mem_run_iff, exists_and_left]

end

/-! ## What a match consists of -/

/-- Every match of the expression has a letter. -/
def consumes : Regex α → Bool
  | empty => false
  | cls _ => true
  | seq a b => a.consumes || b.consumes
  | alt a b => a.consumes && b.consumes
  | many _ lo _ => decide (0 < lo)
  | few _ lo _ => decide (0 < lo)
  | here _ => false
  | start => false
  | stop _ => false

def anchorFree : Regex α → Bool
  | seq a b => a.anchorFree && b.anchorFree
  | alt a b => a.anchorFree && b.anchorFree
  | here _ => false
  | start => false
  | stop _ => false
  | _ => true

/-- One of the classes of the expression has the letter. -/
def accepts (c : α) : Regex α → Bool
  | cls p => p c
  | seq a b => a.accepts c || b.accepts c
  | alt a b => a.accepts c || b.accepts c
  | many p _ _ => p c
  | few p _ _ => p c
  | _ => false

/-- The word an expression matches is made of letters it accepts. It is not empty if the expression
consumes, and without anchors it is matched wherever it stands. -/
theorem Matches.exists_word {len : ℕ} {r : Regex α} {s t : List α} (h : r.Matches len s t) :
    ∃ w, s = w ++ t ∧ (∀ c ∈ w, r.accepts c = true) ∧ (r.consumes = true → w ≠ []) ∧
      (r.anchorFree = true → ∀ len' t', r.Matches len' (w ++ t') t') := by
  -- The words of the parts of a sequence are put together; an anchor matches the empty word.
  induction r generalizing s t with
  | empty =>
    obtain rfl := h
    exact ⟨[], rfl, by simp, by simp [consumes], fun _ _ _ ↦ rfl⟩
  | cls p =>
    obtain ⟨c, hc, rfl⟩ := h
    refine ⟨[c], rfl, ?_, by simp, fun _ _ t' ↦ ⟨c, hc, rfl⟩⟩
    intro d hd
    rw [List.mem_singleton.mp hd]
    exact hc
  | seq a b iha ihb =>
    obtain ⟨m, ha, hb⟩ := h
    obtain ⟨w, rfl, hacc, hne, hfree⟩ := iha ha
    obtain ⟨w', rfl, hacc', hne', hfree'⟩ := ihb hb
    refine ⟨w ++ w', (List.append_assoc ..).symm, ?_, ?_, ?_⟩
    · intro c hc
      rw [accepts, Bool.or_eq_true]
      exact (List.mem_append.mp hc).imp (hacc c) (hacc' c)
    · intro hcons hnil
      rw [consumes, Bool.or_eq_true] at hcons
      obtain ⟨hw, hw'⟩ := List.append_eq_nil_iff.mp hnil
      exact hcons.elim (fun h ↦ hne h hw) (fun h ↦ hne' h hw')
    · intro hanchor len' t'
      rw [anchorFree, Bool.and_eq_true] at hanchor
      rw [List.append_assoc]
      exact ⟨w' ++ t', hfree hanchor.1 len' _, hfree' hanchor.2 len' t'⟩
  | alt a b iha ihb =>
    rcases h with h | h
    · obtain ⟨w, rfl, hacc, hne, hfree⟩ := iha h
      refine ⟨w, rfl, fun c hc ↦ ?_, fun hcons ↦ ?_, fun hanchor len' t' ↦ ?_⟩
      · rw [accepts, hacc c hc, Bool.true_or]
      · rw [consumes, Bool.and_eq_true] at hcons
        exact hne hcons.1
      · rw [anchorFree, Bool.and_eq_true] at hanchor
        exact .inl (hfree hanchor.1 len' t')
    · obtain ⟨w, rfl, hacc, hne, hfree⟩ := ihb h
      refine ⟨w, rfl, fun c hc ↦ ?_, fun hcons ↦ ?_, fun hanchor len' t' ↦ ?_⟩
      · rw [accepts, hacc c hc, Bool.or_true]
      · rw [consumes, Bool.and_eq_true] at hcons
        exact hne hcons.2
      · rw [anchorFree, Bool.and_eq_true] at hanchor
        exact .inr (hfree hanchor.2 len' t')
  | many p lo hi | few p lo hi =>
    obtain ⟨w, rfl, hp, hlo, hhi⟩ := h
    refine ⟨w, rfl, hp, fun hcons hnil ↦ ?_, fun _ _ t' ↦ ⟨w, rfl, hp, hlo, hhi⟩⟩
    rw [consumes, decide_eq_true_iff] at hcons
    rw [hnil, List.length_nil] at hlo
    omega
  | here p | start | stop trailing =>
    obtain ⟨rfl, -⟩ := h
    exact ⟨[], rfl, by simp, by simp [consumes], by simp [anchorFree]⟩

/-! ## Replacing -/

section

variable [DecidableEq α]

/-- Replaces the matches in a suffix of a text of length `len`, from left to right. -/
def subFrom (len : ℕ) (r : Regex α) (repl : List α) : ℕ → List α → List α
  | 0, s => s
  | _ + 1, [] => []
  | fuel + 1, c :: s =>
    match run len r (c :: s) with
    | t :: _ => repl ++ subFrom len r repl fuel t
    | [] => c :: subFrom len r repl fuel s

/-- Replaces the leftmost matches that do not overlap, for an expression that consumes. -/
def sub (r : Regex α) (repl text : List α) : List α :=
  subFrom text.length r repl text.length text

/-- How many matches are replaced in a suffix of a text of length `len`. -/
def countFrom (len : ℕ) (r : Regex α) : ℕ → List α → ℕ
  | 0, _ => 0
  | _ + 1, [] => 0
  | fuel + 1, c :: s =>
    match run len r (c :: s) with
    | t :: _ => countFrom len r fuel t + 1
    | [] => countFrom len r fuel s

/-- How many matches are replaced. -/
def count (r : Regex α) (text : List α) : ℕ := countFrom text.length r text.length text

/-- The matches in a suffix of a text of length `len`, from left to right. -/
def findAllFrom (len : ℕ) (r : Regex α) : ℕ → List α → List (List α)
  | 0, _ => []
  | _ + 1, [] => []
  | fuel + 1, c :: s =>
    match run len r (c :: s) with
    | t :: _ => (c :: s).take ((c :: s).length - t.length) :: findAllFrom len r fuel t
    | [] => findAllFrom len r fuel s

/-- The leftmost matches that do not overlap, for an expression that consumes. -/
def findAll (r : Regex α) (text : List α) : List (List α) :=
  findAllFrom text.length r text.length text

variable {r : Regex α} {x y : α} {mid : List α}

theorem exists_matches_of_mem_findAllFrom {len fuel : ℕ} {s u : List α}
    (h : u ∈ findAllFrom len r fuel s) : ∃ s' t, s' = u ++ t ∧ s' <:+ s ∧ r.Matches len s' t := by
  induction fuel generalizing s with
  | zero => exact absurd h List.not_mem_nil
  | succ fuel ih =>
    rcases s with _ | ⟨c, s⟩
    · exact absurd h List.not_mem_nil
    · rw [findAllFrom] at h
      split at h
      · rename_i t ts hrun
        have hmatch : r.Matches len (c :: s) t := mem_run_iff.mp (hrun ▸ List.mem_cons_self)
        obtain ⟨w, hw, -⟩ := hmatch.exists_word
        rcases List.mem_cons.mp h with rfl | hmem
        · refine ⟨c :: s, t, ?_, List.suffix_rfl, hmatch⟩
          rw [hw, List.length_append, Nat.add_sub_cancel, List.take_left]
        · obtain ⟨s', t', heq, hsuffix, hmatches⟩ := ih hmem
          exact ⟨s', t', heq, hsuffix.trans ⟨w, hw.symm⟩, hmatches⟩
      · obtain ⟨s', t', heq, hsuffix, hmatches⟩ := ih h
        exact ⟨s', t', heq, hsuffix.trans (List.suffix_cons c s), hmatches⟩

/-- Words without the first letter of the replacement are not made by replacing. -/
theorem prefix_of_prefix_subFrom {len fuel : ℕ} {s w : List α} (hx : x ∉ w)
    (h : w <+: subFrom len r (x :: mid ++ [y]) fuel s) : w <+: s := by
  induction fuel generalizing s w with
  | zero => exact h
  | succ fuel ih =>
    rcases s with _ | ⟨c, s⟩
    · exact h
    · rcases w with _ | ⟨d, w⟩
      · exact List.nil_prefix
      · rw [List.mem_cons, not_or] at hx
        rw [subFrom] at h
        split at h
        · rw [List.cons_append, List.cons_append, List.cons_prefix_cons] at h
          exact absurd h.1.symm hx.1
        · rw [List.cons_prefix_cons] at h
          exact List.cons_prefix_cons.mpr ⟨h.1, ih hx.2 h.2⟩

omit [DecidableEq α] in
theorem prefix_of_prefix_append_cons {w v l : List α} (hy : y ∉ w) (h : w <+: v ++ y :: l) :
    w <+: v := by
  rcases List.prefix_or_prefix_of_prefix h (List.prefix_append v (y :: l)) with h' | ⟨l', rfl⟩
  · exact h'
  · rw [List.prefix_append_right_inj] at h
    rcases l' with _ | ⟨d, l'⟩
    · rw [List.append_nil]
    · rw [List.cons_prefix_cons] at h
      exact absurd (h.1 ▸ List.mem_append_right v List.mem_cons_self) hy

omit [DecidableEq α] in
/-- The positions in a replacement and what follows it: behind the replacement, at its first letter,
or between its outer letters, the last of them included. -/
theorem suffix_fence_cases {u o : List α} (h : u <:+ (x :: mid ++ [y]) ++ o) :
    u <:+ o ∨ (∃ l, u = x :: l) ∨ ∃ v, v <:+ mid ∧ u = v ++ y :: o := by
  rcases List.suffix_or_suffix_of_suffix h (List.suffix_append _ _) with h' | ⟨v, rfl⟩
  · exact .inl h'
  rw [List.suffix_append_self_iff, List.cons_append, List.suffix_cons_iff] at h
  rcases h with rfl | h
  · exact .inr (.inl ⟨_, rfl⟩)
  rcases List.suffix_concat_iff.mp h with rfl | ⟨v, rfl, hv⟩
  · exact .inl (List.suffix_refl _)
  · exact .inr (.inr ⟨v, hv, by rw [List.append_assoc, List.singleton_append]⟩)

theorem length_lt_of_mem_run (hconsumes : r.consumes = true) {len : ℕ} {s t : List α}
    (h : t ∈ run len r s) : t.length < s.length := by
  obtain ⟨w, rfl, -, hne, -⟩ := (mem_run_iff.mp h).exists_word
  have hpos := List.length_pos_iff.mpr (hne hconsumes)
  rw [List.length_append]
  omega

section Fenced

variable (hconsumes : r.consumes = true) (hfree : r.anchorFree = true)
  (hx : r.accepts x = false) (hy : r.accepts y = false) (hmid : ¬ r.Occurs mid)

include hconsumes hfree hx hy hmid

/-- After replacing, there is no match at any position. -/
theorem not_matches_subFrom {len fuel : ℕ} {s : List α} (hfuel : s.length ≤ fuel) {u : List α}
    (hu : u <:+ subFrom len r (x :: mid ++ [y]) fuel s) {len' : ℕ} {t : List α} :
    ¬ r.Matches len' u t := by
  intro hmatch
  obtain ⟨w, rfl, hacc, hne, hword⟩ := hmatch.exists_word
  have hxw : x ∉ w := fun h ↦ absurd ((hacc x h).symm.trans hx) (by simp)
  have hyw : y ∉ w := fun h ↦ absurd ((hacc y h).symm.trans hy) (by simp)
  obtain ⟨d, w, rfl⟩ := List.exists_cons_of_ne_nil (hne hconsumes)
  specialize hword hfree
  induction fuel generalizing s with
  | zero =>
    rw [Nat.le_zero, List.length_eq_zero_iff] at hfuel
    rw [hfuel, subFrom, List.suffix_nil] at hu
    exact absurd hu (by simp)
  | succ fuel ih =>
    rcases s with _ | ⟨c, s⟩
    · rw [subFrom, List.suffix_nil] at hu
      exact absurd hu (by simp)
    rw [List.length_cons] at hfuel
    rw [subFrom] at hu
    split at hu
    · rename_i t' ts hrun
      have hshort := length_lt_of_mem_run hconsumes (hrun ▸ List.mem_cons_self)
      rw [List.length_cons] at hshort
      rcases suffix_fence_cases hu with hu | ⟨l, hl⟩ | ⟨v, hv, heq⟩
      · exact ih (by omega) hu
      · -- The match begins with the replacement.
        obtain ⟨rfl, -⟩ := List.cons.inj hl
        exact hxw List.mem_cons_self
      · -- The match begins inside the fence, and does not get out.
        obtain ⟨t'', rfl⟩ := prefix_of_prefix_append_cons hyw (heq ▸ List.prefix_append _ t)
        exact hmid ⟨_, t'', hv, hword _ t''⟩
    · rename_i hrun
      rcases List.suffix_cons_iff.mp hu with heq | hu
      · -- A match at a letter that was kept would have been there before.
        rw [List.cons_append, List.cons.injEq] at heq
        obtain ⟨rfl, htail⟩ := heq
        rw [List.mem_cons, not_or] at hxw
        obtain ⟨t'', rfl⟩ := prefix_of_prefix_subFrom hxw.2 (htail ▸ List.prefix_append w t)
        have hmem := mem_run_iff.mpr (hword len t'')
        exact absurd (hrun ▸ hmem) List.not_mem_nil
      · exact ih (by omega) hu

/-- **A fenced replacement removes every match.** For an expression without anchors that does not
accept the outer letters of the replacement and does not occur between them. -/
theorem not_occurs_sub (text : List α) : ¬ r.Occurs (r.sub (x :: mid ++ [y]) text) := by
  rintro ⟨u, t, hu, hmatch⟩
  exact not_matches_subFrom hconsumes hfree hx hy hmid (le_refl _) hu hmatch

end Fenced

end

end Regex

end ArgusMcp
