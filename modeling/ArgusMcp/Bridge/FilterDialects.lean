import ArgusMcp.Bridge.Policy
import Mathlib.Data.List.Infix
import Mathlib.Data.List.TakeDrop
import Mathlib.Data.List.TakeWhile
import Mathlib.Tactic.Common

/-!
# Two dialects of patterns

The patterns of `fnmatch` and those of the crate `globset` have much in common, and more that they
do not: braces and backslashes are special to `globset` only, two stars are more than one to it, and
it refuses a pattern that it cannot make sense of, where `fnmatch` takes the characters for
themselves.

What they have in common is here given by the tokens of `fnmatch` and how they are written
(`render`). Of the rest there are the patterns that `globset` is documented to refuse (`Refused`)
and those it is documented to read otherwise (`Reread`).

## What is read otherwise matches less

A character that is special to `globset` only matches nothing there, and is one more character of
the name here. So the shortest names that `globset` finds are too short for `fnmatch`
(`Reread.size_lt`).
-/

namespace ArgusMcp

namespace FilterSwap

open Fnmatch (Token tokens seqRanges seqSplit matchTokens fnmatch)

/-! ## What the dialects have in common -/

/-- A character that stands for itself, to `fnmatch`. -/
def rawChar (c : Char) : Bool := c ∉ ['*', '?', '[']

/-- A character that stands for itself, to both. -/
def plainChar (c : Char) : Bool := rawChar c && c ∉ ['{', '}', '\\']

/-- A character that stands for itself between brackets. -/
def classChar (c : Char) : Bool := c ∉ [']', '-', '\\']

def renderRange (r : Char × Char) : List Char := if r.1 = r.2 then [r.1] else [r.1, '-', r.2]

def renderClass (negated : Bool) (ranges : List (Char × Char)) : List Char :=
  '[' :: ((if negated then ['!'] else []) ++ ranges.flatMap renderRange ++ [']'])

def render : Token → List Char
  | .star => ['*']
  | .anyChar => ['?']
  | .lit c => [c]
  | .seq negated ranges => renderClass negated ranges

def renderAll (ts : List Token) : List Char := ts.flatMap render

/-- What is between brackets is not taken for anything else. -/
def isClass (negated : Bool) (ranges : List (Char × Char)) : Bool :=
  ranges ≠ [] && ranges.all (fun r ↦ classChar r.1 && classChar r.2) &&
    (negated || ranges.head?.all fun r ↦ r.1 ∉ ['!', '^'])

/-- What is written for it is read as it, by `fnmatch`. -/
def isRaw : Token → Bool
  | .star | .anyChar => true
  | .lit c => rawChar c
  | .seq negated ranges => isClass negated ranges

/-- What is written for it is read as it, by both. -/
def isText : Token → Bool
  | .lit c => plainChar c
  | t => isRaw t

def isAscending : Token → Bool
  | .seq _ ranges => ranges.all fun r ↦ r.1 ≤ r.2
  | _ => true

structure WellFormed (ts : List Token) : Prop where
  text : ∀ t ∈ ts, isText t = true
  ascending : ∀ t ∈ ts, isAscending t = true
  /-- There are no two stars in a row. -/
  single : ts.IsChain fun t u ↦ ¬ (t = .star ∧ u = .star)

/-- A pattern that both dialects read in the same way. -/
def Plain (p : String) : Prop := p = "**" ∨ ∃ ts, WellFormed ts ∧ p.toList = renderAll ts

/-! ## What they have not -/

/-- A pattern that makes no sense to `globset`, behind one that does. -/
inductive Refused : List Char → Prop where
  | unclosedClass {ts : List Token} (h : WellFormed ts) {rest : List Char} (hrest : ']' ∉ rest) :
    Refused (renderAll ts ++ '[' :: rest)
  | invalidRange {ts : List Token} (h : WellFormed ts) {negated : Bool}
    {ranges : List (Char × Char)} (hclass : isClass negated ranges = true)
    (hrange : ∃ r ∈ ranges, r.2 < r.1) (rest : List Char) :
    Refused (renderAll ts ++ (renderClass negated ranges ++ rest))
  | unopenedAlternates {ts : List Token} (h : WellFormed ts) (rest : List Char) :
    Refused (renderAll ts ++ '}' :: rest)
  | unclosedAlternates {ts : List Token} (h : WellFormed ts) {rest : List Char}
    (hrest : '}' ∉ rest) : Refused (renderAll ts ++ '{' :: rest)
  | danglingEscape {ts : List Token} (h : WellFormed ts) : Refused (renderAll ts ++ ['\\'])

/-- How `fnmatch` reads a character that is not at the beginning of anything. -/
def single (c : Char) : Token := if c = '?' then .anyChar else .lit c

/-- What `fnmatch` reads as the first, `globset` reads as any of the others: the character behind a
backslash stands for itself, and between braces there are alternates, with commas. -/
inductive Reread : List Token → List (List Token) → Prop where
  | escape {ts us : List Token} (hts : WellFormed ts) (hus : WellFormed us) {c : Char}
    (hc : c ∉ ['*', '[']) : Reread (ts ++ .lit '\\' :: single c :: us) [ts ++ .lit c :: us]
  | alternates {ts us : List Token} (hts : WellFormed ts) (hus : WellFormed us)
    {alts : List (List Token)} (hne : alts ≠ [])
    (halts : ∀ a ∈ alts, WellFormed a ∧ a ≠ [] ∧ .lit ',' ∉ a) :
    Reread (ts ++ .lit '{' :: ([.lit ','].intercalate alts ++ .lit '}' :: us))
      (alts.map fun a ↦ ts ++ a ++ us)

/-! ## How `fnmatch` reads them -/

theorem isRaw_of_isText {t : Token} (h : isText t = true) : isRaw t = true := by
  rcases t with _ | _ | c | ⟨negated, ranges⟩
  · exact h
  · exact h
  · exact (Bool.and_eq_true_iff.mp h).1
  · exact h

theorem WellFormed.raw {ts : List Token} (h : WellFormed ts) : ∀ t ∈ ts, isRaw t = true :=
  fun t ht ↦ isRaw_of_isText (h.text t ht)

theorem seqRanges_cons {c : Char} {cs : List Char} (h : cs.head? ≠ some '-') :
    seqRanges (c :: cs) = (c, c) :: seqRanges cs := by
  rcases cs with _ | ⟨d, _ | ⟨e, cs⟩⟩
  · rfl
  · rw [seqRanges]
    rintro e cs heq
    exact absurd heq (by simp)
  · rw [seqRanges]
    rintro e' cs' heq
    exact h (by rw [heq]; rfl)

theorem head?_flatMap_renderRange {ranges : List (Char × Char)}
    (h : ∀ r ∈ ranges, classChar r.1 = true ∧ classChar r.2 = true) :
    (ranges.flatMap renderRange).head? = ranges.head?.map Prod.fst := by
  rcases ranges with _ | ⟨r, ranges⟩
  · rfl
  · rw [List.flatMap_cons, renderRange]
    split
    · rfl
    · rfl

theorem seqRanges_renderRange {ranges : List (Char × Char)}
    (h : ∀ r ∈ ranges, classChar r.1 = true ∧ classChar r.2 = true) :
    seqRanges (ranges.flatMap renderRange) = ranges := by
  induction ranges with
  | nil => rfl
  | cons r ranges ih =>
    obtain ⟨lo, hi⟩ := r
    rw [List.forall_mem_cons] at h
    rw [List.flatMap_cons, renderRange]
    by_cases heq : lo = hi
    · have hhead : (ranges.flatMap renderRange).head? ≠ some '-' := by
        rw [head?_flatMap_renderRange h.2]
        rintro hdash
        obtain ⟨r, hr, hdash⟩ := Option.map_eq_some_iff.mp hdash
        have hchar := (h.2 r (List.mem_of_mem_head? hr)).1
        rw [hdash] at hchar
        exact absurd hchar (by decide)
      rw [if_pos heq, List.singleton_append, seqRanges_cons hhead, ih h.2, heq]
    · rw [if_neg heq]
      exact congrArg _ (ih h.2)

theorem isClass_iff {negated : Bool} {ranges : List (Char × Char)} :
    isClass negated ranges = true ↔ ranges ≠ [] ∧
      (∀ r ∈ ranges, classChar r.1 = true ∧ classChar r.2 = true) ∧
        (negated = true ∨ ∀ r ∈ ranges.head?, r.1 ∉ ['!', '^']) := by
  rw [isClass, Bool.and_eq_true, Bool.and_eq_true, Bool.or_eq_true, decide_eq_true_iff, and_assoc,
    List.all_eq_true, Option.all_eq_true]
  simp only [Bool.and_eq_true, decide_eq_true_eq]
  rfl

theorem span_append_cons {α : Type} {p : α → Bool} {l : List α} (h : ∀ x ∈ l, p x = true) {b : α}
    (hb : p b = false) (rest : List α) : (l ++ b :: rest).span p = (l, b :: rest) := by
  rw [List.span_eq_takeWhile_dropWhile, List.takeWhile_append_of_pos h,
    List.dropWhile_append_of_pos h]
  simp [hb]

theorem seqSplit_renderClass {negated : Bool} {ranges : List (Char × Char)}
    (h : isClass negated ranges = true) (rest : List Char) :
    seqSplit ((if negated then ['!'] else []) ++ (ranges.flatMap renderRange ++ ']' :: rest)) =
      some (negated, ranges.flatMap renderRange, rest) := by
  obtain ⟨hne, hchars, hfirst⟩ := isClass_iff.mp h
  have hmem : ']' ∉ ranges.flatMap renderRange := by
    intro hmem
    obtain ⟨r, hr, hc⟩ := List.mem_flatMap.mp hmem
    obtain ⟨hlo, hhi⟩ := hchars r hr
    have hcases : ']' = r.1 ∨ ']' = '-' ∨ ']' = r.2 := by
      rw [renderRange] at hc
      split at hc
      · exact Or.inl (List.mem_singleton.mp hc)
      · simpa using hc
    rcases hcases with heq | heq | heq
    · rw [← heq] at hlo
      exact absurd hlo (by decide)
    · exact absurd heq (by decide)
    · rw [← heq] at hhi
      exact absurd hhi (by decide)
  obtain ⟨r, ranges, rfl⟩ := List.exists_cons_of_ne_nil hne
  obtain ⟨c, hc⟩ : ∃ body, (r :: ranges).flatMap renderRange = r.1 :: body := by
    rw [List.flatMap_cons, renderRange]
    split
    · exact ⟨_, rfl⟩
    · exact ⟨_, rfl⟩
  have hinside : ∀ c ∈ (r :: ranges).flatMap renderRange, decide (c ≠ ']') = true :=
    fun c hc ↦ decide_eq_true fun heq ↦ hmem (heq ▸ hc)
  have hspan := span_append_cons hinside (decide_eq_false (not_not_intro rfl)) rest
  rw [hc] at hspan ⊢
  have hbracket : r.1 ≠ ']' := by
    intro heq
    have hlo := (hchars r List.mem_cons_self).1
    rw [heq] at hlo
    exact absurd hlo (by decide)
  have hlead : ∀ cs, r.1 :: (c ++ ']' :: rest) = ']' :: cs → False :=
    fun cs heq ↦ hbracket (List.cons.inj heq).1
  rw [List.cons_append] at hspan ⊢
  rcases negated
  · have hbang : r.1 ≠ '!' := by
      intro heq
      rcases hfirst with hfalse | hfirst
      · exact Bool.false_ne_true hfalse
      · exact hfirst r rfl (heq ▸ List.mem_cons_self)
    rw [if_neg Bool.false_ne_true, List.nil_append, seqSplit]
    · rw [hspan]
      rfl
    · exact fun cs heq ↦ hbang (List.cons.inj heq).1
    · exact hlead
  · rw [if_pos rfl, List.singleton_append, seqSplit]
    · rw [hspan]
      rfl
    · exact hlead

/-- What has been written is read again, whatever comes after it. -/
theorem tokens_renderAll_append {ts : List Token} (h : ∀ t ∈ ts, isRaw t = true) (k : ℕ)
    (s : List Char) : tokens (k + ts.length) (renderAll ts ++ s) = ts ++ tokens k s := by
  induction ts with
  | nil => rfl
  | cons t ts ih =>
    rw [List.forall_mem_cons] at h
    rw [renderAll, List.flatMap_cons, List.append_assoc, List.length_cons, ← Nat.add_assoc,
      List.cons_append, ← ih h.2]
    rcases t with _ | _ | c | ⟨negated, ranges⟩
    · rfl
    · rfl
    · have hc : c ∉ ['*', '?', '['] := of_decide_eq_true h.1
      rw [render, List.singleton_append, tokens]
      · rfl
      · rintro rfl
        exact hc (by decide)
      · rintro rfl
        exact hc (by decide)
      · rintro rfl
        exact hc (by decide)
    · have hsplit := seqSplit_renderClass h.1 (ts.flatMap render ++ s)
      rw [render, renderClass, List.cons_append, List.append_assoc, List.append_assoc,
        List.singleton_append, tokens, hsplit]
      dsimp only
      rw [seqRanges_renderRange (isClass_iff.mp h.1).2.1]
      rfl

theorem render_ne_nil (t : Token) : render t ≠ [] := by
  rcases t with _ | _ | c | ⟨negated, ranges⟩
  · exact List.cons_ne_nil _ _
  · exact List.cons_ne_nil _ _
  · exact List.cons_ne_nil _ _
  · exact List.cons_ne_nil _ _

theorem length_le_length_renderAll (ts : List Token) : ts.length ≤ (renderAll ts).length := by
  induction ts with
  | nil => exact le_rfl
  | cons t ts ih =>
    have hpos : 0 < (render t).length := List.length_pos_iff.mpr (render_ne_nil t)
    rw [renderAll] at ih
    rw [renderAll, List.flatMap_cons, List.length_append, List.length_cons]
    omega

theorem tokens_renderAll {ts : List Token} (h : ∀ t ∈ ts, isRaw t = true) {k : ℕ}
    (hk : ts.length ≤ k) : tokens k (renderAll ts) = ts := by
  obtain ⟨j, rfl⟩ := Nat.exists_eq_add_of_le' hk
  have hnil : tokens j [] = [] := by
    rcases j with _ | j
    · rfl
    · rfl
  rw [← List.append_nil (renderAll ts), tokens_renderAll_append h, hnil, List.append_nil]

theorem tokens_of_renderAll {ts : List Token} (h : ∀ t ∈ ts, isRaw t = true) {p : String}
    (hp : p.toList = renderAll ts) : tokens p.length p.toList = ts := by
  rw [← String.length_toList, hp]
  exact tokens_renderAll h (length_le_length_renderAll ts)

theorem matchTokens_star_star (cs : List Char) : matchTokens [.star, .star] cs = true := by
  have hnil : [] ∈ cs.tails := (List.mem_tails _ _).mpr List.nil_suffix
  have hself : cs ∈ cs.tails := (List.mem_tails _ _).mpr List.suffix_rfl
  rw [matchTokens]
  refine List.any_eq_true.mpr ⟨cs, hself, ?_⟩
  rw [matchTokens]
  exact List.any_eq_true.mpr ⟨[], hnil, rfl⟩

/-! ## The shortest names -/

/-- How long a name has to be. -/
def size (ts : List Token) : ℕ := ts.countP (· ≠ .star)

theorem size_append (ts us : List Token) : size (ts ++ us) = size ts + size us :=
  List.countP_append

theorem size_cons_of_ne {t : Token} (h : t ≠ .star) (ts : List Token) :
    size (t :: ts) = size ts + 1 :=
  List.countP_cons_of_pos (decide_eq_true h)

theorem size_star_cons (ts : List Token) : size (.star :: ts) = size ts :=
  List.countP_cons_of_neg (by simp)

theorem matchTokens_cons_nil {t : Token} (h : t ≠ .star) (ts : List Token) :
    matchTokens (t :: ts) [] = false := by
  rcases t with _ | _ | d | ⟨negated, ranges⟩
  · exact absurd rfl h
  · rfl
  · rfl
  · rfl

theorem matchTokens_cons_cons {t : Token} (h : t ≠ .star) (ts : List Token) (c : Char)
    (cs : List Char) :
    matchTokens (t :: ts) (c :: cs) = (matchTokens [t] [c] && matchTokens ts cs) := by
  rcases t with _ | _ | d | ⟨negated, ranges⟩
  · exact absurd rfl h
  · rfl
  · simp [matchTokens]
  · simp [matchTokens]

theorem size_le_of_matchTokens {ts : List Token} {cs : List Char}
    (h : matchTokens ts cs = true) : size ts ≤ cs.length := by
  induction ts generalizing cs with
  | nil => exact Nat.zero_le _
  | cons t ts ih =>
    by_cases ht : t = .star
    · rw [ht, matchTokens] at h
      obtain ⟨ds, hds, hmatch⟩ := List.any_eq_true.mp h
      have hlen := ((List.mem_tails _ _).mp hds).length_le
      have hsize := ih hmatch
      rw [ht, size_star_cons]
      omega
    · rcases cs with _ | ⟨c, cs⟩
      · rw [matchTokens_cons_nil ht] at h
        exact absurd h Bool.false_ne_true
      · rw [matchTokens_cons_cons ht, Bool.and_eq_true] at h
        have hsize := ih h.2
        rw [size_cons_of_ne ht, List.length_cons]
        omega

/-- Where there is a name, there is one without anything for the stars. -/
theorem exists_length_eq_size {ts : List Token} {cs : List Char}
    (h : matchTokens ts cs = true) :
    ∃ ds, matchTokens ts ds = true ∧ ds.length = size ts := by
  induction ts generalizing cs with
  | nil => exact ⟨[], rfl, rfl⟩
  | cons t ts ih =>
    by_cases ht : t = .star
    · rw [ht, matchTokens] at h
      obtain ⟨ds, -, hmatch⟩ := List.any_eq_true.mp h
      obtain ⟨ds, hds, hlen⟩ := ih hmatch
      refine ⟨ds, ?_, ?_⟩
      · rw [ht, matchTokens]
        exact List.any_eq_true.mpr ⟨ds, (List.mem_tails _ _).mpr List.suffix_rfl, hds⟩
      · rw [ht, size_star_cons, hlen]
    · rcases cs with _ | ⟨c, cs⟩
      · rw [matchTokens_cons_nil ht] at h
        exact absurd h Bool.false_ne_true
      · rw [matchTokens_cons_cons ht, Bool.and_eq_true] at h
        obtain ⟨ds, hds, hlen⟩ := ih h.2
        refine ⟨c :: ds, ?_, ?_⟩
        · rw [matchTokens_cons_cons ht, h.1, hds]
          rfl
        · rw [size_cons_of_ne ht, List.length_cons, hlen]

theorem isRaw_single {c : Char} (h : c ∉ ['*', '[']) : isRaw (single c) = true := by
  rw [single]
  split
  · rfl
  · rename_i hne
    refine decide_eq_true fun hmem ↦ ?_
    simp only [List.mem_cons, List.not_mem_nil, or_false] at h hmem
    tauto

theorem single_ne_star (c : Char) : single c ≠ .star := by
  rw [single]
  split
  · exact Token.noConfusion
  · exact Token.noConfusion

theorem sublist_intercalate {α : Type} {parts : List (List α)} {part : List α}
    (h : part ∈ parts) (sep : List α) : part.Sublist (sep.intercalate parts) := by
  induction parts with
  | nil => exact absurd h List.not_mem_nil
  | cons first parts ih =>
    rcases parts with _ | ⟨next, parts⟩
    · rw [List.mem_singleton.mp h, List.intercalate_singleton]
    · rw [List.intercalate_cons_cons]
      rcases List.mem_cons.mp h with rfl | h
      · rw [List.append_assoc]
        exact List.sublist_append_left _ _
      · exact (ih h).trans (List.sublist_append_right _ _)

theorem mem_of_mem_intercalate {α : Type} {parts : List (List α)} {sep : List α} {x : α}
    (h : x ∈ sep.intercalate parts) : x ∈ sep ∨ ∃ part ∈ parts, x ∈ part := by
  induction parts with
  | nil => exact absurd h List.not_mem_nil
  | cons first parts ih =>
    rcases parts with _ | ⟨next, parts⟩
    · rw [List.intercalate_singleton] at h
      exact Or.inr ⟨first, List.mem_cons_self, h⟩
    · rw [List.intercalate_cons_cons, List.mem_append, List.mem_append] at h
      rcases h with (h | h) | h
      · exact Or.inr ⟨first, List.mem_cons_self, h⟩
      · exact Or.inl h
      · rcases ih h with h | ⟨part, hpart, h⟩
        · exact Or.inl h
        · exact Or.inr ⟨part, List.mem_cons_of_mem _ hpart, h⟩

theorem of_mem_alternates {alts : List (List Token)} (halts : ∀ a ∈ alts, WellFormed a)
    {t : Token} (ht : t ∈ [.lit ','].intercalate alts) :
    isText t = true ∧ isAscending t = true := by
  rcases mem_of_mem_intercalate ht with ht | ⟨a, ha, ht⟩
  · rw [List.mem_singleton.mp ht]
    decide
  · exact ⟨(halts a ha).text t ht, (halts a ha).ascending t ht⟩

namespace Reread

variable {l : List Token} {readings : List (List Token)} (h : Reread l readings)

include h

theorem raw : ∀ t ∈ l, isRaw t = true := by
  rcases h with ⟨hts, hus, hc⟩ | ⟨hts, hus, hne, halts⟩
  · rw [List.forall_mem_append, List.forall_mem_cons, List.forall_mem_cons]
    exact ⟨hts.raw, by decide, isRaw_single hc, hus.raw⟩
  · rw [List.forall_mem_append, List.forall_mem_cons, List.forall_mem_append, List.forall_mem_cons]
    refine ⟨hts.raw, by decide, fun t ht ↦ ?_, by decide, hus.raw⟩
    exact isRaw_of_isText (of_mem_alternates (fun a ha ↦ (halts a ha).1) ht).1

theorem ascending : ∀ t ∈ l, isAscending t = true := by
  rcases h with ⟨hts, hus, hc⟩ | ⟨hts, hus, hne, halts⟩
  · rw [List.forall_mem_append, List.forall_mem_cons, List.forall_mem_cons]
    refine ⟨hts.ascending, rfl, ?_, hus.ascending⟩
    rw [single]
    split
    · rfl
    · rfl
  · rw [List.forall_mem_append, List.forall_mem_cons, List.forall_mem_append, List.forall_mem_cons]
    refine ⟨hts.ascending, rfl, fun t ht ↦ ?_, rfl, hus.ascending⟩
    exact (of_mem_alternates (fun a ha ↦ (halts a ha).1) ht).2

/-- The shortest names that `globset` finds are too short for `fnmatch`. -/
theorem size_lt {r : List Token} (hr : r ∈ readings) : size r < size l := by
  rcases h with ⟨hts, hus, hc⟩ | ⟨hts, hus, hne, halts⟩
  · rename_i c
    rw [List.mem_singleton.mp hr, size_append, size_append, size_cons_of_ne Token.noConfusion,
      size_cons_of_ne Token.noConfusion, size_cons_of_ne (single_ne_star c)]
    omega
  · obtain ⟨a, ha, rfl⟩ := List.mem_map.mp hr
    rename_i alts
    have hle : size a ≤ size ([.lit ','].intercalate alts) :=
      (sublist_intercalate ha _).countP_le
    rw [size_append, size_append, size_append, size_cons_of_ne Token.noConfusion, size_append,
      size_cons_of_ne Token.noConfusion]
    omega

end Reread

end FilterSwap

end ArgusMcp
