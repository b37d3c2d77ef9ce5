import Mathlib.Algebra.Order.Group.Defs
import Mathlib.Algebra.Order.Group.Unbundled.Basic
import Mathlib.Data.List.Basic

/-!
# Counting in a window that slides

Times are listed with the newest first, or in any order where that does not matter. A list is
`Gated` if each of its times came when fewer than a limit of the times before it were in the window
that ends with it. No window then holds more than the limit, wherever it starts
(`countIn_le_of_gated`).

A list is `Crowded` if some window holds a number of its times. A list that is not stays so when a
time is added, unless enough of the others are not older than a window before that time
(`length_since_of_crowded`).
-/

namespace ArgusMcp

namespace SlidingWindow

section Since

variable {T : Type*} [LinearOrder T] {l : List T} {x y : T}

/-- How many of the times lie between two, which count themselves. -/
def countIn (times : List T) (x y : T) : ℕ := times.countP fun t ↦ x ≤ t ∧ t ≤ y

def since (times : List T) (x : T) : List T := times.filter fun t ↦ x ≤ t

theorem since_append (l l' : List T) (x : T) : since (l ++ l') x = since l x ++ since l' x :=
  List.filter_append l l'

theorem since_reverse (l : List T) (x : T) : since l.reverse x = (since l x).reverse :=
  List.filter_reverse

theorem since_sublist (l : List T) (x : T) : (since l x).Sublist l := List.filter_sublist

theorem since_since (h : x ≤ y) : since (since l x) y = since l y := by
  rw [since, since, since, List.filter_filter]
  apply List.filter_congr
  intro t _
  rw [← Bool.decide_and]
  exact decide_eq_decide.mpr ⟨And.left, fun hy ↦ ⟨hy, h.trans hy⟩⟩

theorem since_eq_nil (h : ∀ t ∈ l, t < x) : since l x = [] := by
  apply List.filter_eq_nil_iff.mpr
  intro t ht
  rw [decide_eq_true_eq, not_le]
  exact h t ht

theorem length_since_eq_countIn (h : ∀ t ∈ l, t ≤ y) : (since l x).length = countIn l x y := by
  rw [since, ← List.countP_eq_length_filter, countIn]
  apply List.countP_congr
  intro t ht
  rw [decide_eq_true_eq, decide_eq_true_eq, and_iff_left (h t ht)]

theorem countIn_cons_of_mem {t : T} (h : x ≤ t ∧ t ≤ y) :
    countIn (t :: l) x y = countIn l x y + 1 := List.countP_cons_of_pos (decide_eq_true h)

theorem countIn_cons_of_not_mem {t : T} (h : ¬ (x ≤ t ∧ t ≤ y)) :
    countIn (t :: l) x y = countIn l x y :=
  List.countP_cons_of_neg fun ht ↦ h (of_decide_eq_true ht)

end Since

variable {T : Type*} [AddCommGroup T] [LinearOrder T] [IsOrderedAddMonoid T] {l : List T}
  {limit : ℕ} {window : T}

/-! ## Lists that were let in -/

/-- Each time came when fewer than `limit` of those before it were in the window up to it. -/
def Gated (limit : ℕ) (window : T) : List T → Prop
  | [] => True
  | t :: l => countIn l (t - window) t < limit ∧ Gated limit window l

/-- **No window holds more than the limit.** The newest time is in the window, or it is not; if it
is, then all others in the window are also in the one that ends with it. -/
theorem countIn_le_of_gated (hsorted : l.Pairwise fun t t' ↦ t' ≤ t)
    (h : Gated limit window l) (x : T) : countIn l x (x + window) ≤ limit := by
  induction l with
  | nil => exact Nat.zero_le limit
  | cons t l ih =>
    obtain ⟨hnewest, hsorted⟩ := List.pairwise_cons.mp hsorted
    obtain ⟨hlt, h⟩ := h
    by_cases ht : x ≤ t ∧ t ≤ x + window
    · have hle : countIn l x (x + window) ≤ countIn l (t - window) t := by
        apply List.countP_mono_left
        intro t' ht' hmem
        have hx := (of_decide_eq_true hmem).1
        exact decide_eq_true ⟨(sub_le_iff_le_add.mpr ht.2).trans hx, hnewest t' ht'⟩
      rw [countIn_cons_of_mem ht]
      omega
    · rw [countIn_cons_of_not_mem ht]
      exact ih hsorted h

/-! ## Lists that are crowded -/

/-- `k` of the times lie in one window. -/
def Crowded (k : ℕ) (window : T) (times : List T) : Prop :=
  ∃ x ∈ times, k ≤ countIn times x (x + window)

instance (k : ℕ) (window : T) (times : List T) : Decidable (Crowded k window times) :=
  inferInstanceAs (Decidable (∃ x ∈ times, k ≤ countIn times x (x + window)))

/-- If a list gets crowded by one more time, then that time is in the window. -/
theorem length_since_of_crowded {k : ℕ} {t : T} (hwindow : 0 ≤ window)
    (h : Crowded k window (t :: l)) (hl : ¬ Crowded k window l) :
    k ≤ (since l (t - window)).length + 1 := by
  obtain ⟨x, hx, hk⟩ := h
  have hmem : x ≤ t ∧ t ≤ x + window := by
    by_contra hnot
    rw [countIn_cons_of_not_mem hnot] at hk
    rcases List.mem_cons.mp hx with rfl | hx
    · exact hnot ⟨le_rfl, le_add_of_nonneg_right hwindow⟩
    · exact hl ⟨x, hx, hk⟩
  rw [countIn_cons_of_mem hmem] at hk
  have hle : countIn l x (x + window) ≤ (since l (t - window)).length := by
    rw [since, ← List.countP_eq_length_filter]
    apply List.countP_mono_left
    intro t' _ ht'
    exact decide_eq_true ((sub_le_iff_le_add.mpr hmem.2).trans (of_decide_eq_true ht').1)
  omega

end SlidingWindow

end ArgusMcp
