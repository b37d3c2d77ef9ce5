import Mathlib.Data.List.Basic
import Mathlib.Data.Nat.Digits.Defs
import Mathlib.Order.Basic
import Mathlib.Tactic.Common

/-!
# Numbers of a fixed width, in order

A number that is written with leading zeros, so that all numbers have as many digits, is before
another one in the order of texts exactly if it is smaller. With something behind the numbers, they
are compared first (`fixed_append_lt_iff`). This is what makes times in a format such as that of
ISO 8601 sort as texts.
-/

namespace ArgusMcp

namespace FixedWidth

abbrev Text := List Char

/-- **Texts of the same length** are compared before what is behind them. -/
theorem append_lt_append_iff {α : Type*} [LT α] {l l' s t : List α} (h : l.length = l'.length) :
    l ++ s < l' ++ t ↔ l < l' ∨ l = l' ∧ s < t := by
  induction l generalizing l' with
  | nil =>
    obtain rfl := List.length_eq_zero_iff.mp h.symm
    simp
  | cons a l ih =>
    obtain ⟨b, l', rfl⟩ := List.exists_cons_of_length_eq_add_one h.symm
    have hlen := Nat.succ.inj h
    rw [List.cons_append, List.cons_append, List.cons_lt_cons_iff, List.cons_lt_cons_iff, ih hlen,
      List.cons.injEq]
    tauto

/-- A number with so many digits. -/
def fixed : ℕ → ℕ → Text
  | 0, _ => []
  | w + 1, n => fixed w (n / 10) ++ [Nat.digitChar (n % 10)]

@[simp] theorem length_fixed (w n : ℕ) : (fixed w n).length = w := by
  induction w generalizing n with
  | zero => rfl
  | succ w ih => rw [fixed, List.length_append, ih, List.length_singleton]

theorem digitChar_lt_iff {c d : ℕ} (hc : c < 10) (hd : d < 10) :
    Nat.digitChar c < Nat.digitChar d ↔ c < d := by
  have hall : ∀ c < 10, ∀ d < 10, (Nat.digitChar c < Nat.digitChar d ↔ c < d) := by decide
  exact hall c hc d hd

theorem fixed_injective {w m n : ℕ} (hm : m < 10 ^ w) (hn : n < 10 ^ w)
    (h : fixed w m = fixed w n) : m = n := by
  induction w generalizing m n with
  | zero => omega
  | succ w ih =>
    rw [pow_succ] at hm hn
    obtain ⟨hinit, hlast⟩ := List.append_inj' h rfl
    have hquot := ih (by omega) (by omega) hinit
    have hall : ∀ c < 10, ∀ d < 10, Nat.digitChar c = Nat.digitChar d → c = d := by decide
    have hrem := hall _ (Nat.mod_lt m (by decide)) _ (Nat.mod_lt n (by decide))
      (List.cons.inj hlast).1
    omega

/-- **Numbers of the same width** are in the order of their texts. -/
theorem fixed_lt_fixed_iff {w m n : ℕ} (hm : m < 10 ^ w) (hn : n < 10 ^ w) :
    fixed w m < fixed w n ↔ m < n := by
  induction w generalizing m n with
  | zero =>
    have heq : m = n := by omega
    exact heq ▸ iff_of_false (List.lt_irrefl _) (lt_irrefl m)
  | succ w ih =>
    rw [pow_succ] at hm hn
    have hlen : (fixed w (m / 10)).length = (fixed w (n / 10)).length := by
      rw [length_fixed, length_fixed]
    have hinj : fixed w (m / 10) = fixed w (n / 10) ↔ m / 10 = n / 10 :=
      ⟨fixed_injective (by omega) (by omega), congrArg _⟩
    rw [fixed, fixed, append_lt_append_iff hlen, ih (by omega) (by omega), hinj,
      List.cons_lt_cons_iff, digitChar_lt_iff (Nat.mod_lt m (by decide)) (Nat.mod_lt n (by decide))]
    simp only [List.lt_irrefl, and_false, or_false]
    omega

/-- **A number and what is behind it** are compared one after the other. -/
theorem fixed_append_lt_iff {w m n : ℕ} (hm : m < 10 ^ w) (hn : n < 10 ^ w) (s t : Text) :
    fixed w m ++ s < fixed w n ++ t ↔ m < n ∨ m = n ∧ s < t := by
  have hlen : (fixed w m).length = (fixed w n).length := by rw [length_fixed, length_fixed]
  have hinj : fixed w m = fixed w n ↔ m = n := ⟨fixed_injective hm hn, congrArg _⟩
  rw [append_lt_append_iff hlen, fixed_lt_fixed_iff hm hn, hinj]

end FixedWidth

end ArgusMcp
