import ArgusMcp.Library.Machine
import Mathlib.Algebra.Order.Group.Defs
import Mathlib.Algebra.Order.Group.Unbundled.Basic

/-!
# Counting in windows of a fixed length

A counter belongs to a window, which is opened by the first event after the one before it has run
out. Each event is stamped with the counter it leaves behind. An event is admitted if the counter
does not exceed a limit; those that are not are counted like the others.

In a log of stamps whose times do not decrease, the windows are a window apart (`Windowed`), and the
count of an event is its number within its window (`Counted`). The first says that an interval of
the length of a window meets at most two of them, and the second that a window has as many admitted
events as it has events, but not more than the limit.
-/

namespace ArgusMcp

namespace FixedWindow

/-- The window that is open, and how many events there have been in it. -/
structure Counter (T : Type*) where
  start : T
  count : ℕ

/-- An event: its time, and the counter behind it. -/
structure Stamp (T : Type*) where
  time : T
  counter : Counter T

variable {T : Type*} [AddCommGroup T] [LinearOrder T]

/-- One more event. It opens a window if there is none, or the one there is has run out. -/
def tick (window : T) (c : Option (Counter T)) (now : T) : Counter T :=
  match c with
  | none => ⟨now, 1⟩
  | some c => if window ≤ now - c.start then ⟨now, 1⟩ else ⟨c.start, c.count + 1⟩

/-- The counter as a machine whose answers are the stamps. -/
def step (window : T) (c : Option (Counter T)) (now : T) : Option (Counter T) × Stamp T :=
  (some (tick window c now), ⟨now, tick window c now⟩)

def log (window : T) (times : List T) : List (Stamp T) := Machine.trace (step window) none times

/-! ## Logs -/

/-- Every event is in its window, and different windows do not overlap. -/
structure Windowed (window : T) (l : List (Stamp T)) : Prop where
  mem : ∀ e ∈ l, e.counter.start ≤ e.time ∧ e.time < e.counter.start + window
  spaced : ∀ e ∈ l, ∀ e' ∈ l, e.counter.start < e'.counter.start →
    e.counter.start + window ≤ e'.counter.start

/-- How many events there are in the window that starts at `s`. -/
def countAt (l : List (Stamp T)) (s : T) : ℕ := l.countP fun e ↦ e.counter.start = s

/-- How many of them are admitted. -/
def admittedAt (limit : ℕ) (l : List (Stamp T)) (s : T) : ℕ :=
  l.countP fun e ↦ e.counter.start = s ∧ e.counter.count ≤ limit

/-- The count of an event is its number within its window. -/
def Counted (l : List (Stamp T)) : Prop :=
  ∀ before e after, l = before ++ e :: after →
    e.counter.count = countAt before e.counter.start + 1

omit [AddCommGroup T] in
theorem countAt_concat (l : List (Stamp T)) (e : Stamp T) (s : T) :
    countAt (l ++ [e]) s = countAt l s + if e.counter.start = s then 1 else 0 := by
  rw [countAt, List.countP_append, List.countP_singleton, ← countAt]
  congr 1
  by_cases hs : e.counter.start = s
  · rw [if_pos (decide_eq_true hs), if_pos hs]
  · rw [if_neg (mt of_decide_eq_true hs), if_neg hs]

omit [AddCommGroup T] in
theorem counted_concat {l : List (Stamp T)} {e : Stamp T} :
    Counted (l ++ [e]) ↔ Counted l ∧ e.counter.count = countAt l e.counter.start + 1 := by
  constructor
  · intro h
    refine ⟨fun before e' after hl ↦ h before e' (after ++ [e]) ?_, h l e [] rfl⟩
    rw [hl, List.append_assoc, List.cons_append]
  · rintro ⟨h, he⟩ before e' after hl
    induction after using List.reverseRecOn with
    | nil =>
      obtain ⟨rfl, heq⟩ := List.append_inj' hl rfl
      obtain rfl := (List.cons.inj heq).1
      exact he
    | append_singleton after e'' _ =>
      have hsplit : l ++ [e] = (before ++ e' :: after) ++ [e''] := by
        rw [hl, List.append_assoc, List.cons_append]
      exact h before e' after (List.append_inj' hsplit rfl).1

omit [AddCommGroup T] in
/-- **The admitted events of a window** are its first ones, up to the limit. -/
theorem admittedAt_eq_min (limit : ℕ) {l : List (Stamp T)} (h : Counted l) (s : T) :
    admittedAt limit l s = min limit (countAt l s) := by
  induction l using List.reverseRecOn with
  | nil => exact (Nat.min_zero limit).symm
  | append_singleton l e ih =>
    obtain ⟨hl, he⟩ := counted_concat.mp h
    have hadmitted : admittedAt limit (l ++ [e]) s = admittedAt limit l s +
        if e.counter.start = s ∧ e.counter.count ≤ limit then 1 else 0 := by
      rw [admittedAt, List.countP_append, List.countP_singleton, ← admittedAt]
      simp only [decide_eq_true_eq]
    rw [hadmitted, countAt_concat, ih hl]
    by_cases hs : e.counter.start = s
    · subst hs
      rw [if_pos rfl]
      by_cases hlimit : e.counter.count ≤ limit
      · rw [if_pos ⟨rfl, hlimit⟩]
        omega
      · rw [if_neg (fun hand ↦ hlimit hand.2)]
        omega
    · rw [if_neg (fun hand ↦ hs hand.1), if_neg hs, Nat.add_zero, Nat.add_zero]

omit [AddCommGroup T] in
theorem admittedAt_le (limit : ℕ) {l : List (Stamp T)} (h : Counted l) (s : T) :
    admittedAt limit l s ≤ limit := by
  rw [admittedAt_eq_min limit h]
  exact Nat.min_le_left _ _

omit [AddCommGroup T] in
/-- What is turned away is turned away from a full window. -/
theorem admittedAt_of_lt {limit : ℕ} {l before after : List (Stamp T)} {e : Stamp T}
    (h : Counted l) (hl : l = before ++ e :: after) (hlt : limit < e.counter.count) :
    admittedAt limit before e.counter.start = limit := by
  have hcount := h before e after hl
  have hbefore : Counted before := by
    intro before' e' after' hb
    apply h before' e' (after' ++ e :: after)
    rw [hl, hb, List.append_assoc, List.cons_append]
  rw [admittedAt_eq_min limit hbefore]
  omega

/-! ## Intervals -/

/-- How many admitted events there are from `x` on, for the length of a window. -/
def admittedFrom (window : T) (limit : ℕ) (l : List (Stamp T)) (x : T) : ℕ :=
  l.countP fun e ↦ e.counter.count ≤ limit ∧ x ≤ e.time ∧ e.time < x + window

omit [AddCommGroup T] in
/-- Admitted events are not more than the limit if none of them is in an earlier window than
another. -/
theorem countP_le_of_not_lt {limit : ℕ} {l : List (Stamp T)} (h : Counted l) {p : Stamp T → Bool}
    (hadmitted : ∀ e ∈ l, p e = true → e.counter.count ≤ limit)
    (hnot : ∀ e ∈ l, p e = true → ∀ e' ∈ l, p e' = true → ¬ e.counter.start < e'.counter.start) :
    l.countP p ≤ limit := by
  by_cases hex : ∃ e ∈ l, p e = true
  · obtain ⟨e, he, hpe⟩ := hex
    have hle : l.countP p ≤ admittedAt limit l e.counter.start := by
      apply List.countP_mono_left
      intro e' he' hpe'
      have hsame : e'.counter.start = e.counter.start := by
        apply le_antisymm
        · exact not_lt.mp (hnot e he hpe e' he' hpe')
        · exact not_lt.mp (hnot e' he' hpe' e he hpe)
      exact decide_eq_true ⟨hsame, hadmitted e' he' hpe'⟩
    exact hle.trans (admittedAt_le limit h _)
  · have hzero : l.countP p = 0 := List.countP_eq_zero.mpr fun e he hpe ↦ hex ⟨e, he, hpe⟩
    rw [hzero]
    exact Nat.zero_le limit

section

variable [IsOrderedAddMonoid T]

/-- **An interval as long as a window meets two of them at most**: one that is open when it begins,
and one that opens in it. -/
theorem admittedFrom_le {window : T} {limit : ℕ} {l : List (Stamp T)} (hw : Windowed window l)
    (h : Counted l) (x : T) : admittedFrom window limit l x ≤ 2 * limit := by
  let within : Stamp T → Bool := fun e ↦
    e.counter.count ≤ limit ∧ x ≤ e.time ∧ e.time < x + window
  have hsplit : admittedFrom window limit l x =
      (l.countP fun e ↦ within e && decide (e.counter.start ≤ x)) +
        l.countP fun e ↦ within e && !decide (e.counter.start ≤ x) := by
    rw [admittedFrom, List.countP_eq_countP_filter_add _ _ fun e ↦ decide (e.counter.start ≤ x),
      List.countP_filter, List.countP_filter]
  have hopen : (l.countP fun e ↦ within e && decide (e.counter.start ≤ x)) ≤ limit := by
    apply countP_le_of_not_lt h
    · intro e _ hp
      exact (of_decide_eq_true (Bool.and_eq_true_iff.mp hp).1).1
    · -- a window before another one that has opened has run out
      intro e he hp e' he' hp' hlt
      have hx : x ≤ e.time := (of_decide_eq_true (Bool.and_eq_true_iff.mp hp).1).2.1
      have hx' : e'.counter.start ≤ x := of_decide_eq_true (Bool.and_eq_true_iff.mp hp').2
      have hout := hw.spaced e he e' he' hlt
      exact absurd (hx.trans_lt (hw.mem e he).2) (not_lt.mpr (hout.trans hx'))
  have hopened : (l.countP fun e ↦ within e && !decide (e.counter.start ≤ x)) ≤ limit := by
    apply countP_le_of_not_lt h
    · intro e _ hp
      exact (of_decide_eq_true (Bool.and_eq_true_iff.mp hp).1).1
    · -- a window behind one that opens in the interval opens behind the interval
      intro e he hp e' he' hp' hlt
      have hx : x < e.counter.start := by
        have hnot := (Bool.and_eq_true_iff.mp hp).2
        rw [Bool.not_eq_true', decide_eq_false_iff_not, not_le] at hnot
        exact hnot
      have hx' : e'.time < x + window :=
        (of_decide_eq_true (Bool.and_eq_true_iff.mp hp').1).2.2
      have hlate : x + window < e'.counter.start :=
        (add_lt_add_left hx window).trans_le (hw.spaced e he e' he' hlt)
      exact absurd ((hw.mem e' he').1.trans_lt hx') (not_lt.mpr hlate.le)
  omega

end

/-! ## The log of a counter -/

theorem log_concat (window : T) (times : List T) (now : T) :
    log window (times ++ [now]) = log window times ++
      [⟨now, tick window (Machine.after (step window) none times) now⟩] :=
  Machine.trace_concat none times now

theorem time_mem_of_mem_log {window : T} {times : List T} {e : Stamp T}
    (h : e ∈ log window times) : e.time ∈ times := by
  induction times using List.reverseRecOn with
  | nil => exact absurd h List.not_mem_nil
  | append_singleton times now ih =>
    rw [log_concat] at h
    rcases List.mem_append.mp h with h | h
    · exact List.mem_append_left _ (ih h)
    · obtain rfl := List.mem_singleton.mp h
      exact List.mem_append_right _ List.mem_cons_self

/-- What is known of a counter behind some events: it has counted those of its window, which is the
last one. -/
structure Inv (window : T) (times : List T) (c : Option (Counter T)) : Prop where
  windowed : Windowed window (log window times)
  counted : Counted (log window times)
  eq_nil : c = none → log window times = []
  count_eq : ∀ d, c = some d → d.count = countAt (log window times) d.start
  le_start : ∀ d, c = some d → ∀ e ∈ log window times, e.counter.start ≤ d.start
  exists_mem : ∀ d, c = some d → ∃ e ∈ log window times, e.counter.start = d.start

variable [IsOrderedAddMonoid T] {window : T}

theorem Inv.append {times : List T} {c : Option (Counter T)} (h : Inv window times c) {now : T}
    {d : Counter T} (hlog : log window (times ++ [now]) = log window times ++ [⟨now, d⟩])
    (hmem : d.start ≤ now ∧ now < d.start + window)
    (hspaced : ∀ e ∈ log window times,
      e.counter.start = d.start ∨ e.counter.start + window ≤ d.start)
    (hcount : d.count = countAt (log window times) d.start + 1) (hwindow : 0 < window) :
    Inv window (times ++ [now]) (some d) := by
  have hle : ∀ e ∈ log window times, e.counter.start ≤ d.start := by
    intro e he
    rcases hspaced e he with heq | hle
    · exact heq.le
    · exact (le_add_of_nonneg_right hwindow.le).trans hle
  constructor
  · rw [hlog]
    constructor
    · intro e he
      rcases List.mem_append.mp he with he | he
      · exact h.windowed.mem e he
      · obtain rfl := List.mem_singleton.mp he
        exact hmem
    · intro e he e' he' hlt
      rcases List.mem_append.mp he with he | he
      · rcases List.mem_append.mp he' with he' | he'
        · exact h.windowed.spaced e he e' he' hlt
        · obtain rfl := List.mem_singleton.mp he'
          exact (hspaced e he).resolve_left hlt.ne
      · obtain rfl := List.mem_singleton.mp he
        rcases List.mem_append.mp he' with he' | he'
        · exact absurd hlt (not_lt.mpr (hle e' he'))
        · obtain rfl := List.mem_singleton.mp he'
          exact absurd hlt (lt_irrefl _)
  · rw [hlog]
    exact counted_concat.mpr ⟨h.counted, hcount⟩
  · intro hnone
    exact absurd hnone (Option.some_ne_none d)
  · rintro _ ⟨⟩
    rw [hlog, countAt_concat, if_pos rfl, hcount]
  · rintro _ ⟨⟩ e he
    rw [hlog] at he
    rcases List.mem_append.mp he with he | he
    · exact hle e he
    · obtain rfl := List.mem_singleton.mp he
      exact le_rfl
  · rintro _ ⟨⟩
    rw [hlog]
    exact ⟨_, List.mem_append_right _ List.mem_cons_self, rfl⟩

/-- **What a log is like**, if the times do not decrease. -/
theorem inv_after (hwindow : 0 < window) {times : List T} (hsorted : times.Pairwise (· ≤ ·)) :
    Inv window times (Machine.after (step window) none times) := by
  induction times using List.reverseRecOn with
  | nil =>
    constructor
    · exact ⟨fun e he ↦ absurd he List.not_mem_nil, fun e he ↦ absurd he List.not_mem_nil⟩
    · intro before e after hl
      exact absurd hl.symm (List.append_ne_nil_of_right_ne_nil _ (List.cons_ne_nil _ _))
    · exact fun _ ↦ rfl
    · exact fun d hd ↦ absurd hd (Option.some_ne_none d).symm
    · exact fun d hd ↦ absurd hd (Option.some_ne_none d).symm
    · exact fun d hd ↦ absurd hd (Option.some_ne_none d).symm
  | append_singleton times now ih =>
    obtain ⟨hsorted, -, hnow⟩ := List.pairwise_append.mp hsorted
    have h := ih hsorted
    have hlog := log_concat window times now
    rw [Machine.after_concat, step]
    dsimp only
    generalize Machine.after (step window) none times = c at h hlog
    rcases c with _ | c
    · -- the first event
      have hnil := h.eq_nil rfl
      apply h.append hlog ⟨le_rfl, lt_add_of_pos_right now hwindow⟩
      · intro e he
        rw [hnil] at he
        exact absurd he List.not_mem_nil
      · rw [hnil]
        rfl
      · exact hwindow
    · obtain ⟨last, hlast, hc⟩ := h.exists_mem c rfl
      have hle := h.le_start c rfl
      have hstart : c.start ≤ now := by
        rw [← hc]
        apply (h.windowed.mem last hlast).1.trans
        exact hnow _ (time_mem_of_mem_log hlast) now List.mem_cons_self
      rw [tick] at hlog ⊢
      split at hlog
      · rename_i hover
        rw [if_pos hover]
        have hover : c.start + window ≤ now := by
          rw [add_comm]
          exact le_sub_iff_add_le.mp hover
        have hspaced : ∀ e ∈ log window times, e.counter.start + window ≤ now :=
          fun e he ↦ (add_le_add_left (hle e he) window).trans hover
        apply h.append hlog ⟨le_rfl, lt_add_of_pos_right now hwindow⟩
        · exact fun e he ↦ Or.inr (hspaced e he)
        · -- nothing has been counted in the new window
          have hzero : countAt (log window times) now = 0 := by
            apply List.countP_eq_zero.mpr
            intro e he heq
            have hlt : e.counter.start < now :=
              (lt_add_of_pos_right _ hwindow).trans_le (hspaced e he)
            exact hlt.ne (of_decide_eq_true heq)
          rw [hzero]
        · exact hwindow
      · rename_i hopen
        rw [if_neg hopen]
        apply h.append hlog
        · refine ⟨hstart, ?_⟩
          rw [add_comm]
          exact sub_lt_iff_lt_add.mp (not_le.mp hopen)
        · -- the last window goes on
          intro e he
          rcases (hle e he).lt_or_eq with hlt | heq
          · rw [← hc] at hlt ⊢
            exact Or.inr (h.windowed.spaced e he last hlast hlt)
          · exact Or.inl heq
        · rw [h.count_eq c rfl]
        · exact hwindow

theorem windowed_log (hwindow : 0 < window) {times : List T} (hsorted : times.Pairwise (· ≤ ·)) :
    Windowed window (log window times) := (inv_after hwindow hsorted).windowed

theorem counted_log (hwindow : 0 < window) {times : List T} (hsorted : times.Pairwise (· ≤ ·)) :
    Counted (log window times) := (inv_after hwindow hsorted).counted

end FixedWindow

end ArgusMcp
