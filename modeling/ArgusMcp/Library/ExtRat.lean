import Mathlib.Algebra.Order.Field.Rat
import Mathlib.Data.Rat.Floor
import Mathlib.Tactic.Linarith

/-!
# Numbers with infinities

Rational numbers with the values that floating-point arithmetic adds to them: the two infinities and
the result of operations that have none. The operations are exact on rational numbers. Comparisons
with `nan` are false, and this is why a maximum of two numbers is not the same thing everywhere: one
that compares (`maxOf`) keeps its first argument, and one that is told to avoid `nan` (`fmax`) takes
the other one.

A duration is a natural number of units, and the number of units in a rational is rounded to the
nearest one, and to the even one of two. Times that are whole numbers do not notice the fraction of
a unit that a bound is rounded up by (`lt_of_lt_roundEven`).
-/

namespace ArgusMcp

/-- A rational number, an infinity, or none of these. -/
inductive ExtRat where
  | fin (q : ℚ)
  | inf
  | negInf
  | nan
  deriving DecidableEq

namespace ExtRat

instance instZero : Zero ExtRat := ⟨fin 0⟩

def isFinite : ExtRat → Bool
  | fin _ => true
  | _ => false

/-- `a - b`. -/
def sub : ExtRat → ExtRat → ExtRat
  | fin a, fin b => fin (a - b)
  | nan, _ | _, nan => nan
  | inf, inf | negInf, negInf => nan
  | inf, _ | _, negInf => inf
  | negInf, _ | _, inf => negInf

instance instSub : Sub ExtRat := ⟨sub⟩

/-- `a + b`. -/
def add : ExtRat → ExtRat → ExtRat
  | fin a, fin b => fin (a + b)
  | nan, _ | _, nan => nan
  | inf, negInf | negInf, inf => nan
  | inf, _ | _, inf => inf
  | negInf, _ | _, negInf => negInf

instance instAdd : Add ExtRat := ⟨add⟩

/-- `a < b`. -/
def blt : ExtRat → ExtRat → Bool
  | fin a, fin b => decide (a < b)
  | negInf, fin _ | negInf, inf | fin _, inf => true
  | _, _ => false

/-- `a ≤ b`. -/
def ble : ExtRat → ExtRat → Bool
  | fin a, fin b => decide (a ≤ b)
  | nan, _ | _, nan => false
  | negInf, _ | _, inf => true
  | _, _ => false

theorem ble_of_blt {a b : ExtRat} (h : blt a b = true) : ble b a = false := by
  rcases a with p | _ | _ | _
  · rcases b with q | _ | _ | _
    · rw [ble, decide_eq_false_iff_not, not_le]
      exact of_decide_eq_true h
    · rfl
    · exact absurd h Bool.false_ne_true
    · rfl
  · rcases b with q | _ | _ | _
    · exact absurd h Bool.false_ne_true
    · exact absurd h Bool.false_ne_true
    · exact absurd h Bool.false_ne_true
    · exact absurd h Bool.false_ne_true
  · rcases b with q | _ | _ | _
    · rfl
    · rfl
    · exact absurd h Bool.false_ne_true
    · rfl
  · rcases b with q | _ | _ | _
    · exact absurd h Bool.false_ne_true
    · exact absurd h Bool.false_ne_true
    · exact absurd h Bool.false_ne_true
    · exact absurd h Bool.false_ne_true

/-- `b` if it is greater, and `a` otherwise. -/
def maxOf (a b : ExtRat) : ExtRat := if blt a b then b else a

/-- The greater one, and the other one of `nan`. -/
def fmax : ExtRat → ExtRat → ExtRat
  | nan, b => b
  | a, nan => a
  | a, b => if blt a b then b else a

theorem maxOf_zero_fin (q : ℚ) : maxOf 0 (fin q) = fin (max 0 q) := by
  rw [maxOf]
  change (if decide (0 < q) = true then fin q else fin 0) = fin (max 0 q)
  by_cases h : 0 < q
  · rw [if_pos (decide_eq_true h), max_eq_right h.le]
  · rw [if_neg (mt of_decide_eq_true h), max_eq_left (not_lt.mp h)]

theorem fmax_fin_zero (q : ℚ) : fmax (fin q) 0 = fin (max 0 q) := by
  change (if decide (q < 0) = true then fin 0 else fin q) = fin (max 0 q)
  by_cases h : q < 0
  · rw [if_pos (decide_eq_true h), max_eq_left h.le]
  · rw [if_neg (mt of_decide_eq_true h), max_eq_right (not_lt.mp h)]

theorem maxOf_zero_eq_fmax (a : ExtRat) : maxOf 0 a = fmax a 0 := by
  rcases a with q | _ | _ | _
  · rw [maxOf_zero_fin, fmax_fin_zero]
  · rfl
  · rfl
  · rfl

/-! ## Rounding -/

/-- The nearest natural number to one that is not negative, and the even one of two. -/
def roundEven (q : ℚ) : ℕ :=
  if q - ⌊q⌋₊ < 1 / 2 then ⌊q⌋₊
  else if 1 / 2 < q - ⌊q⌋₊ then ⌊q⌋₊ + 1
  else if ⌊q⌋₊ % 2 = 0 then ⌊q⌋₊
  else ⌊q⌋₊ + 1

theorem roundEven_eq_or (q : ℚ) : roundEven q = ⌊q⌋₊ ∨ roundEven q = ⌊q⌋₊ + 1 ∧ (⌊q⌋₊ : ℚ) < q := by
  rw [roundEven]
  split
  · exact Or.inl rfl
  · rename_i hhalf
    have hlt : (⌊q⌋₊ : ℚ) < q := by linarith
    split
    · exact Or.inr ⟨rfl, hlt⟩
    · split
      · exact Or.inl rfl
      · exact Or.inr ⟨rfl, hlt⟩

theorem lt_of_lt_roundEven {q : ℚ} (hq : 0 ≤ q) {k : ℕ} (h : k < roundEven q) : (k : ℚ) < q := by
  have hfloor : (⌊q⌋₊ : ℚ) ≤ q := Nat.floor_le hq
  rcases roundEven_eq_or q with heq | ⟨heq, hlt⟩
  · rw [heq] at h
    have hk : (k : ℚ) < (⌊q⌋₊ : ℕ) := by exact_mod_cast h
    exact hk.trans_le hfloor
  · rw [heq] at h
    have hk : (k : ℚ) ≤ (⌊q⌋₊ : ℕ) := by exact_mod_cast Nat.lt_succ_iff.mp h
    exact hk.trans_lt hlt

end ExtRat

end ArgusMcp
