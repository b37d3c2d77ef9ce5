import Mathlib.Data.List.Infix
import Mathlib.Tactic.Common

/-!
# UTF-8 that may be broken

Bytes are decoded one after another. What begins a character is kept until the character is
complete; where the next byte does not belong to it, or there is none, there is a replacement for
what was kept, and so there is for a byte that begins nothing.

Bytes of ASCII are never a part of anything else. So words of ASCII are in the text exactly where
they are in the bytes (`infix_decodeFrom_iff`), whatever else there is.
-/

namespace ArgusMcp

namespace Utf8

/-! ## Decoding -/

/-- What is still owed of a character: how many bytes, the least and the greatest that the next one
can be, and the bits so far. -/
structure Pending where
  owed : ℕ
  low : ℕ
  high : ℕ
  bits : ℕ
  low_ge : 128 ≤ low

def replacement : Char := Char.ofNat 0xFFFD

/-- The character of a code point that takes several bytes, and is above ASCII for this reason. -/
def wideChar (n : ℕ) : Char :=
  if 128 ≤ (Char.ofNat n).toNat then Char.ofNat n else replacement

/-- The character of a byte, as far as it is one of ASCII. -/
def toChar (b : UInt8) : Char := Char.ofNat b.toNat

/-- What a byte above ASCII begins. -/
def lead (n : ℕ) : Option Pending :=
  if 0xC2 ≤ n ∧ n ≤ 0xDF then some ⟨1, 0x80, 0xBF, n - 0xC0, by decide⟩
  else if n = 0xE0 then some ⟨2, 0xA0, 0xBF, 0, by decide⟩
  else if n = 0xED then some ⟨2, 0x80, 0x9F, 0xD, by decide⟩
  else if 0xE1 ≤ n ∧ n ≤ 0xEF then some ⟨2, 0x80, 0xBF, n - 0xE0, by decide⟩
  else if n = 0xF0 then some ⟨3, 0x90, 0xBF, 0, by decide⟩
  else if 0xF1 ≤ n ∧ n ≤ 0xF3 then some ⟨3, 0x80, 0xBF, n - 0xF0, by decide⟩
  else if n = 0xF4 then some ⟨3, 0x80, 0x8F, 4, by decide⟩
  else none

/-- A byte with nothing pending. -/
def start (b : UInt8) : List Char × Option Pending :=
  if b.toNat < 128 then ([toChar b], none)
  else
    match lead b.toNat with
    | some p => ([], some p)
    | none => ([replacement], none)

def step : Option Pending → UInt8 → List Char × Option Pending
  | none, b => start b
  | some p, b =>
    if p.low ≤ b.toNat ∧ b.toNat ≤ p.high then
      let bits := p.bits * 64 + (b.toNat - 0x80)
      if p.owed = 1 then ([wideChar bits], none)
      else ([], some ⟨p.owed - 1, 0x80, 0xBF, bits, by decide⟩)
    else (replacement :: (start b).1, (start b).2)

def decodeFrom : Option Pending → List UInt8 → List Char
  | none, [] => []
  | some _, [] => [replacement]
  | p, b :: bs => (step p b).1 ++ decodeFrom (step p b).2 bs

def decode (bytes : List UInt8) : List Char := decodeFrom none bytes

example : decode [0x73, 0xC3, 0xA9, 0xE2, 0x82, 0x41, 0xFF] =
    ['s', 'é', replacement, 'A', replacement] := by decide

/-! ## What is in the text -/

theorem toNat_toChar (b : UInt8) : (toChar b).toNat = b.toNat := by
  have hlt := b.toNat_lt
  have hvalid : b.toNat.isValidChar := Or.inl (by omega)
  rw [toChar, Char.ofNat, dif_pos hvalid]
  rfl

theorem toChar_inj {a b : UInt8} (h : toChar a = toChar b) : a = b := by
  have hnat := congrArg Char.toNat h
  rw [toNat_toChar, toNat_toChar] at hnat
  exact UInt8.toNat_inj.mp hnat

theorem wide_replacement : 128 ≤ replacement.toNat := by decide

theorem wide_wideChar (n : ℕ) : 128 ≤ (wideChar n).toNat := by
  rw [wideChar]
  split
  · assumption
  · exact wide_replacement

/-- A byte of ASCII is a character of its own, and no other byte is a part of one. -/
theorem step_cases (p : Option Pending) (b : UInt8) :
    (b.toNat < 128 ∧ ∃ before, (∀ c ∈ before, 128 ≤ c.toNat) ∧
      step p b = (before ++ [toChar b], none)) ∨
    128 ≤ b.toNat ∧ ∀ c ∈ (step p b).1, 128 ≤ c.toNat := by
  have hstart : 128 ≤ b.toNat → ∀ c ∈ (start b).1, 128 ≤ c.toNat := by
    intro hwide c hc
    rw [start, if_neg (not_lt_of_ge hwide)] at hc
    split at hc
    · exact absurd hc List.not_mem_nil
    · rw [List.mem_singleton.mp hc]
      exact wide_replacement
  by_cases hascii : b.toNat < 128
  · refine Or.inl ⟨hascii, ?_⟩
    rcases p with _ | p
    · exact ⟨[], by simp, if_pos hascii⟩
    · refine ⟨[replacement], by simpa using wide_replacement, ?_⟩
      have hnot : ¬ (p.low ≤ b.toNat ∧ b.toNat ≤ p.high) :=
        fun h ↦ absurd (p.low_ge.trans h.1) (not_le_of_gt hascii)
      rw [step, if_neg hnot, start, if_pos hascii]
      rfl
  · have hwide := not_lt.mp hascii
    refine Or.inr ⟨hwide, ?_⟩
    rcases p with _ | p
    · exact hstart hwide
    · rw [step]
      split
      · dsimp only
        split
        · simpa using wide_wideChar _
        · simp
      · rw [List.forall_mem_cons]
        exact ⟨wide_replacement, hstart hwide⟩

theorem decodeFrom_cons_ascii {b : UInt8} (h : b.toNat < 128) (bs : List UInt8) :
    decodeFrom none (b :: bs) = toChar b :: decodeFrom none bs := by
  rw [decodeFrom, step, start, if_pos h]
  rfl

/-- What is pending becomes a character that is not of ASCII. -/
theorem exists_wide_of_pending (p : Pending) (bs : List UInt8) :
    ∃ c cs, decodeFrom (some p) bs = c :: cs ∧ 128 ≤ c.toNat := by
  induction bs generalizing p with
  | nil => exact ⟨replacement, [], rfl, wide_replacement⟩
  | cons b bs ih =>
    rw [decodeFrom, step]
    split
    · dsimp only
      split
      · exact ⟨_, _, rfl, wide_wideChar _⟩
      · exact ih _
    · exact ⟨_, _, rfl, wide_replacement⟩

theorem exists_wide_of_wide {b : UInt8} (h : 128 ≤ b.toNat) (bs : List UInt8) :
    ∃ c cs, decodeFrom none (b :: bs) = c :: cs ∧ 128 ≤ c.toNat := by
  rw [decodeFrom, step, start, if_neg (not_lt_of_ge h)]
  split
  · exact exists_wide_of_pending _ bs
  · exact ⟨_, _, rfl, wide_replacement⟩

section Words

variable {w : List UInt8} (hw : ∀ b ∈ w, b.toNat < 128)

include hw

theorem not_prefix_of_wide (hne : w ≠ []) {c : Char} (hc : 128 ≤ c.toNat) (cs : List Char) :
    ¬ w.map toChar <+: c :: cs := by
  obtain ⟨a, w, rfl⟩ := List.exists_cons_of_ne_nil hne
  rintro hprefix
  rw [List.map_cons, List.cons_prefix_cons] at hprefix
  have hlt := hw a List.mem_cons_self
  rw [← hprefix.1, toNat_toChar] at hc
  omega

theorem prefix_decodeFrom_iff {bs : List UInt8} :
    w.map toChar <+: decodeFrom none bs ↔ w <+: bs := by
  induction w generalizing bs with
  | nil => exact iff_of_true List.nil_prefix List.nil_prefix
  | cons a w ih =>
    rcases bs with _ | ⟨b, bs⟩
    · exact iff_of_false (by simp [decodeFrom]) (by simp)
    · by_cases hb : b.toNat < 128
      · rw [decodeFrom_cons_ascii hb, List.map_cons, List.cons_prefix_cons,
          List.cons_prefix_cons, ih (List.forall_mem_cons.mp hw).2]
        exact and_congr_left fun _ ↦ ⟨toChar_inj, congrArg toChar⟩
      · obtain ⟨c, cs, hdecode, hc⟩ := exists_wide_of_wide (not_lt.mp hb) bs
        rw [hdecode]
        refine iff_of_false (not_prefix_of_wide hw (List.cons_ne_nil a w) hc cs) ?_
        intro hprefix
        have hlt := hw a List.mem_cons_self
        rw [(List.cons_prefix_cons.mp hprefix).1] at hlt
        exact hb hlt

theorem infix_append_wide (hne : w ≠ []) {before : List Char}
    (hbefore : ∀ c ∈ before, 128 ≤ c.toNat) (cs : List Char) :
    w.map toChar <:+: before ++ cs ↔ w.map toChar <:+: cs := by
  induction before with
  | nil => rfl
  | cons c before ih =>
    rw [List.forall_mem_cons] at hbefore
    rw [List.cons_append, List.infix_cons_iff, ih hbefore.2,
      or_iff_right (not_prefix_of_wide hw hne hbefore.1 _)]

/-- **Words of ASCII** are in the text where they are in the bytes. -/
theorem infix_decodeFrom_iff (hne : w ≠ []) (p : Option Pending) (bs : List UInt8) :
    w.map toChar <:+: decodeFrom p bs ↔ w <:+: bs := by
  induction bs generalizing p with
  | nil =>
    refine iff_of_false ?_ (by simpa using hne)
    rcases p with _ | p
    · simpa [decodeFrom] using hne
    · have hwide : ∀ c ∈ [replacement], 128 ≤ c.toNat := by simpa using wide_replacement
      have hmore := infix_append_wide hw hne hwide []
      rw [List.append_nil] at hmore
      rw [decodeFrom, hmore]
      simpa using hne
  | cons b bs ih =>
    rw [List.infix_cons_iff]
    rcases step_cases p b with ⟨hb, before, hbefore, hstep⟩ | ⟨hb, hall⟩
    · rw [decodeFrom, hstep]
      dsimp only
      rw [List.append_assoc, infix_append_wide hw hne hbefore, List.singleton_append,
        List.infix_cons_iff, ih, ← decodeFrom_cons_ascii hb, prefix_decodeFrom_iff hw]
    · rw [decodeFrom, infix_append_wide hw hne hall, ih, or_iff_right]
      obtain ⟨a, w, rfl⟩ := List.exists_cons_of_ne_nil hne
      intro hprefix
      have hlt := hw a List.mem_cons_self
      rw [(List.cons_prefix_cons.mp hprefix).1] at hlt
      omega

end Words

/-- What is dropped at the beginning of the text can be dropped from the bytes. -/
theorem dropWhile_decodeFrom {q : Char → Bool} (hq : ∀ c, q c = true → c.toNat < 128)
    (bs : List UInt8) :
    (decodeFrom none bs).dropWhile q = decodeFrom none (bs.dropWhile fun b ↦ q (toChar b)) := by
  induction bs with
  | nil => rfl
  | cons b bs ih =>
    by_cases hb : b.toNat < 128
    · rw [decodeFrom_cons_ascii hb]
      by_cases hdrop : q (toChar b) = true
      · have hbytes := List.dropWhile_cons_of_pos (p := fun b ↦ q (toChar b)) (l := bs) hdrop
        rw [List.dropWhile_cons_of_pos hdrop, hbytes, ih]
      · have hbytes := List.dropWhile_cons_of_neg (p := fun b ↦ q (toChar b)) (l := bs) hdrop
        rw [List.dropWhile_cons_of_neg hdrop, hbytes, decodeFrom_cons_ascii hb]
    · obtain ⟨c, cs, hdecode, hc⟩ := exists_wide_of_wide (not_lt.mp hb) bs
      have hcs : ¬ q c = true := fun h ↦ absurd (hq c h) (not_lt_of_ge hc)
      have hdrop : ¬ q (toChar b) = true := by
        intro h
        have hlt := hq _ h
        rw [toNat_toChar] at hlt
        exact hb hlt
      have hbytes := List.dropWhile_cons_of_neg (p := fun b ↦ q (toChar b)) (l := bs) hdrop
      rw [hdecode, List.dropWhile_cons_of_neg hcs, hbytes, hdecode]

end Utf8

end ArgusMcp
