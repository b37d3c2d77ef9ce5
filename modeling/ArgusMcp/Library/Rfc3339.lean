import Mathlib.Algebra.Group.Nat.Defs
import Mathlib.Data.List.TakeWhile
import Mathlib.Tactic.Common

/-!
# Times on the internet

A time as RFC 3339 writes it: a date, a time of day with any number of decimals, and an offset.
Programs read a little more than that, or a little less, so there is one reader for a *dialect*,
which says what is allowed where they differ. What one dialect reads, another that allows more reads
in the same way (`parse_of_within`).

Three dialects are here: that of the standard (`rfc`), the part of it without small letters and leap
seconds (`capitals`), and what `time.Parse` of Go reads when it is given the layout `RFC3339Nano`
(`go`).
-/

namespace ArgusMcp

namespace Rfc3339

/-- A time with its fields as they are written; the decimals are cut to nanoseconds. -/
structure Time where
  year : ℕ
  month : ℕ
  day : ℕ
  hour : ℕ
  minute : ℕ
  second : ℕ
  nanosecond : ℕ
  /-- The seconds ahead of UTC. -/
  offset : ℤ
  deriving DecidableEq

def isLeapYear (year : ℕ) : Bool := year % 4 = 0 && (year % 100 ≠ 0 || year % 400 = 0)

def daysIn (month year : ℕ) : ℕ :=
  if month = 2 then (if isLeapYear year then 29 else 28)
  else if month ∈ [4, 6, 9, 11] then 30
  else 31

/-- The last minute of June or December, in UTC. -/
def Time.inLastMinute (t : Time) : Bool :=
  let minutes := (t.hour * 60 + t.minute : ℤ) - t.offset / 60
  (minutes = 1439 && (t.month, t.day) ∈ [(6, 30), (12, 31)])
    || (minutes = -1 && (t.month, t.day) ∈ [(7, 1), (1, 1)])
    || (minutes = 2879 && (t.month, t.day) ∈ [(6, 29), (12, 30)])

/-- What is allowed. Bytes are given by their values. -/
structure Dialect where
  /-- Between date and time. -/
  tees : List UInt8
  /-- For an offset of zero. -/
  zulus : List UInt8
  /-- Before decimals. -/
  points : List UInt8
  shortHour : Bool
  maxOffsetHour : ℕ
  maxOffsetMinute : ℕ
  leapSeconds : Bool

def rfc : Dialect := ⟨[84, 116], [90, 122], [46], false, 23, 59, true⟩

def capitals : Dialect := ⟨[84], [90], [46], false, 23, 59, false⟩

def go : Dialect := ⟨[84], [90], [46, 44], true, 24, 60, false⟩

/-! ## Reading -/

def digit (b : UInt8) : Option ℕ :=
  if 48 ≤ b ∧ b ≤ 57 then some (b.toNat - 48) else none

/-- A number of so many digits, behind those that have been read. -/
def digits : ℕ → ℕ → List UInt8 → Option (ℕ × List UInt8)
  | 0, acc, s => some (acc, s)
  | _ + 1, _, [] => none
  | n + 1, acc, b :: s => (digit b).bind fun d ↦ digits n (acc * 10 + d) s

def byte (allowed : List UInt8) : List UInt8 → Option (List UInt8)
  | [] => none
  | b :: s => if b ∈ allowed then some s else none

def hourDigits (short : Bool) (s : List UInt8) : Option (ℕ × List UInt8) :=
  (digits 2 0 s).or (if short then digits 1 0 s else none)

def nanoseconds (ds : List UInt8) : ℕ :=
  (ds.take 9).foldl (fun n b ↦ n * 10 + (b.toNat - 48)) 0 * 10 ^ (9 - ds.length)

/-- The decimals, if there are any. -/
def fraction (points : List UInt8) : List UInt8 → ℕ × List UInt8
  | [] => (0, [])
  | b :: s =>
    let ds := s.takeWhile fun c ↦ (digit c).isSome
    if b ∈ points ∧ ds ≠ [] then (nanoseconds ds, s.drop ds.length) else (0, b :: s)

def sign (b : UInt8) : Option ℤ := if b = 43 then some 1 else if b = 45 then some (-1) else none

def zone (d : Dialect) : List UInt8 → Option (ℤ × List UInt8)
  | [] => none
  | b :: s =>
    if b ∈ d.zulus then some (0, s)
    else do
      let sgn ← sign b
      let (hour, s) ← digits 2 0 s
      let s ← byte [58] s
      let (minute, s) ← digits 2 0 s
      if hour ≤ d.maxOffsetHour ∧ minute ≤ d.maxOffsetMinute then
        some (sgn * ((hour * 60 + minute) * 60), s)
      else none

/-- The fields are in their ranges. -/
def Time.valid (d : Dialect) (t : Time) : Bool :=
  1 ≤ t.month && t.month ≤ 12 && 1 ≤ t.day && t.day ≤ daysIn t.month t.year && t.hour < 24
    && t.minute < 60 && (t.second < 60 || (d.leapSeconds && t.second = 60 && t.inLastMinute))

def parse (d : Dialect) (s : List UInt8) : Option Time := do
  let (year, s) ← digits 4 0 s
  let s ← byte [45] s
  let (month, s) ← digits 2 0 s
  let s ← byte [45] s
  let (day, s) ← digits 2 0 s
  let s ← byte d.tees s
  let (hour, s) ← hourDigits d.shortHour s
  let s ← byte [58] s
  let (minute, s) ← digits 2 0 s
  let s ← byte [58] s
  let (second, s) ← digits 2 0 s
  let (nanosecond, s) := fraction d.points s
  let (offset, s) ← zone d s
  let t : Time := ⟨year, month, day, hour, minute, second, nanosecond, offset⟩
  if s = [] ∧ t.valid d then some t else none

/-! ## Dialects that allow more -/

/-- The second dialect allows what the first one does, and its decimals begin with nothing that an
offset begins with. -/
structure Dialect.Within (d e : Dialect) : Prop where
  tees : ∀ b ∈ d.tees, b ∈ e.tees
  zulus : ∀ b ∈ d.zulus, b ∈ e.zulus
  points : ∀ b ∈ d.points, b ∈ e.points
  signs : ∀ b ∈ e.zulus, sign b = none
  pointed : ∀ b ∈ e.points, b ∉ e.zulus ∧ sign b = none
  shortHour : d.shortHour = true → e.shortHour = true
  maxOffsetHour : d.maxOffsetHour ≤ e.maxOffsetHour
  maxOffsetMinute : d.maxOffsetMinute ≤ e.maxOffsetMinute
  leapSeconds : d.leapSeconds = true → e.leapSeconds = true

theorem capitals_within_go : capitals.Within go := by
  constructor <;> simp [capitals, go, sign]

section Within

variable {d e : Dialect} (h : d.Within e) {s rest : List UInt8}

theorem byte_of_subset {allowed allowed' : List UInt8} (h : ∀ b ∈ allowed, b ∈ allowed')
    (hs : byte allowed s = some rest) : byte allowed' s = some rest := by
  rcases s with _ | ⟨b, s⟩
  · exact absurd hs (by simp [byte])
  · obtain ⟨hb, hrest⟩ := Option.ite_none_right_eq_some.mp hs
    rw [byte, if_pos (h b hb), hrest]

theorem hourDigits_of_imp {short short' : Bool} (h : short = true → short' = true) {n : ℕ}
    (hs : hourDigits short s = some (n, rest)) : hourDigits short' s = some (n, rest) := by
  rw [hourDigits] at hs ⊢
  rcases hshort : short
  · rw [hshort, if_neg Bool.false_ne_true, Option.or_none] at hs
    rw [hs, Option.some_or]
  · rw [if_pos (h hshort)]
    rwa [hshort, if_pos rfl] at hs

include h

theorem zone_of_within {offset : ℤ} (hs : zone d s = some (offset, rest)) :
    zone e s = some (offset, rest) := by
  rcases s with _ | ⟨b, s⟩
  · exact absurd hs (by simp [zone])
  rw [zone] at hs ⊢
  by_cases hd : b ∈ d.zulus
  · rw [if_pos hd] at hs
    rw [if_pos (h.zulus b hd), hs]
  rw [if_neg hd] at hs
  obtain ⟨sgn, hsgn, hs⟩ := Option.bind_eq_some_iff.mp hs
  have he : b ∉ e.zulus := by
    intro he
    rw [h.signs b he] at hsgn
    exact absurd hsgn (by simp)
  rw [if_neg he, hsgn]
  obtain ⟨⟨hour, s₁⟩, hhour, hs⟩ := Option.bind_eq_some_iff.mp hs
  obtain ⟨s₂, hcolon, hs⟩ := Option.bind_eq_some_iff.mp hs
  obtain ⟨⟨minute, s₃⟩, hminute, hs⟩ := Option.bind_eq_some_iff.mp hs
  obtain ⟨⟨hmaxHour, hmaxMinute⟩, hs⟩ := Option.ite_none_right_eq_some.mp hs
  refine Option.bind_eq_some_iff.mpr ⟨sgn, rfl, ?_⟩
  refine Option.bind_eq_some_iff.mpr ⟨(hour, s₁), hhour, ?_⟩
  refine Option.bind_eq_some_iff.mpr ⟨s₂, hcolon, ?_⟩
  refine Option.bind_eq_some_iff.mpr ⟨(minute, s₃), hminute, ?_⟩
  dsimp only
  rw [if_pos ⟨hmaxHour.trans h.maxOffsetHour, hmaxMinute.trans h.maxOffsetMinute⟩, hs]

theorem fraction_of_within {offset : ℤ} (hzone : zone d (fraction d.points s).2
    = some (offset, rest)) : fraction e.points s = fraction d.points s := by
  rcases s with _ | ⟨b, s⟩
  · rfl
  simp only [fraction] at hzone ⊢
  by_cases hd : b ∈ d.points ∧ (s.takeWhile fun c ↦ (digit c).isSome) ≠ []
  · rw [if_pos hd, if_pos ⟨h.points b hd.1, hd.2⟩]
  · rw [if_neg hd] at hzone ⊢
    refine if_neg fun he ↦ ?_
    obtain ⟨hzulu, hsign⟩ := h.pointed b he.1
    have hnot : b ∉ d.zulus := fun hmem ↦ hzulu (h.zulus b hmem)
    rw [zone, if_neg hnot, hsign] at hzone
    exact absurd hzone (by simp)

theorem Time.valid_of_within {t : Time} (ht : t.valid d = true) : t.valid e = true := by
  rw [Time.valid, Bool.and_eq_true] at ht ⊢
  refine ⟨ht.1, ?_⟩
  rcases Bool.or_eq_true_iff.mp ht.2 with hsecond | hleap
  · rw [hsecond, Bool.true_or]
  · rw [Bool.and_assoc, Bool.and_eq_true] at hleap
    rw [Bool.and_assoc, h.leapSeconds hleap.1, hleap.2, Bool.true_and, Bool.or_true]

/-- **What a dialect reads**, one that allows more reads in the same way. -/
theorem parse_of_within {t : Time} (ht : parse d s = some t) : parse e s = some t := by
  obtain ⟨⟨year, s₁⟩, hyear, ht⟩ := Option.bind_eq_some_iff.mp ht
  obtain ⟨s₂, hdash, ht⟩ := Option.bind_eq_some_iff.mp ht
  obtain ⟨⟨month, s₃⟩, hmonth, ht⟩ := Option.bind_eq_some_iff.mp ht
  obtain ⟨s₄, hdash', ht⟩ := Option.bind_eq_some_iff.mp ht
  obtain ⟨⟨day, s₅⟩, hday, ht⟩ := Option.bind_eq_some_iff.mp ht
  obtain ⟨s₆, htee, ht⟩ := Option.bind_eq_some_iff.mp ht
  obtain ⟨⟨hour, s₇⟩, hhour, ht⟩ := Option.bind_eq_some_iff.mp ht
  obtain ⟨s₈, hcolon, ht⟩ := Option.bind_eq_some_iff.mp ht
  obtain ⟨⟨minute, s₉⟩, hminute, ht⟩ := Option.bind_eq_some_iff.mp ht
  obtain ⟨s₁₀, hcolon', ht⟩ := Option.bind_eq_some_iff.mp ht
  obtain ⟨⟨second, s₁₁⟩, hsecond, ht⟩ := Option.bind_eq_some_iff.mp ht
  obtain ⟨⟨offset, s₁₂⟩, hzone, ht⟩ := Option.bind_eq_some_iff.mp ht
  obtain ⟨⟨hend, hvalid⟩, ht⟩ := Option.ite_none_right_eq_some.mp ht
  have hfraction := fraction_of_within h hzone
  refine Option.bind_eq_some_iff.mpr ⟨(year, s₁), hyear, ?_⟩
  refine Option.bind_eq_some_iff.mpr ⟨s₂, hdash, ?_⟩
  refine Option.bind_eq_some_iff.mpr ⟨(month, s₃), hmonth, ?_⟩
  refine Option.bind_eq_some_iff.mpr ⟨s₄, hdash', ?_⟩
  refine Option.bind_eq_some_iff.mpr ⟨(day, s₅), hday, ?_⟩
  refine Option.bind_eq_some_iff.mpr ⟨s₆, byte_of_subset h.tees htee, ?_⟩
  refine Option.bind_eq_some_iff.mpr ⟨(hour, s₇), hourDigits_of_imp h.shortHour hhour, ?_⟩
  refine Option.bind_eq_some_iff.mpr ⟨s₈, hcolon, ?_⟩
  refine Option.bind_eq_some_iff.mpr ⟨(minute, s₉), hminute, ?_⟩
  refine Option.bind_eq_some_iff.mpr ⟨s₁₀, hcolon', ?_⟩
  refine Option.bind_eq_some_iff.mpr ⟨(second, s₁₁), hsecond, ?_⟩
  dsimp only
  rw [hfraction]
  refine Option.bind_eq_some_iff.mpr ⟨(offset, s₁₂), zone_of_within h hzone, ?_⟩
  exact (if_pos ⟨hend, Time.valid_of_within h hvalid⟩).trans ht

end Within

example : parse go "2026-01-01T5:04:05,25+24:00".toUTF8.toList
    = some ⟨2026, 1, 1, 5, 4, 5, 250000000, 86400⟩ := by decide +kernel

example : parse rfc "2016-12-31t23:59:60z".toUTF8.toList
    = some ⟨2016, 12, 31, 23, 59, 60, 0, 0⟩ := by decide +kernel

end Rfc3339

end ArgusMcp
