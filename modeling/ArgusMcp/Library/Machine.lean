import Mathlib.Data.List.Basic
import Mathlib.Data.List.Induction
import Mathlib.Tactic.Common

/-!
# Machines with output

A machine takes one input after the other, and answers each of them. Unlike the step functions of
`Run` it is total. Statements about a machine are made about everything it has been given so far:
an invariant may mention the inputs taken, and it may be asked for only as long as these are
admissible, where admissible means a property that a list of inputs inherits from every list that
continues it.

Two machines are compared in lockstep. If a relation between their states holds at the start, is
kept by every input, and makes the two answers equal, then the machines cannot be told apart.
-/

namespace ArgusMcp

namespace Machine

variable {σ τ ι ο : Type*}

def after (step : σ → ι → σ × ο) : σ → List ι → σ
  | s, [] => s
  | s, i :: is => after step (step s i).1 is

/-- The answers to a list of inputs. -/
def trace (step : σ → ι → σ × ο) : σ → List ι → List ο
  | _, [] => []
  | s, i :: is => (step s i).2 :: trace step (step s i).1 is

variable {step : σ → ι → σ × ο} {step' : τ → ι → τ × ο}

@[simp] theorem after_nil (s : σ) : after step s [] = s := rfl

@[simp] theorem trace_nil (s : σ) : trace step s [] = [] := rfl

theorem after_append (s : σ) (is is' : List ι) :
    after step s (is ++ is') = after step (after step s is) is' := by
  induction is generalizing s with
  | nil => rfl
  | cons i is ih => exact ih (step s i).1

theorem after_concat (s : σ) (is : List ι) (i : ι) :
    after step s (is ++ [i]) = (step (after step s is) i).1 :=
  after_append s is [i]

theorem trace_append (s : σ) (is is' : List ι) :
    trace step s (is ++ is') = trace step s is ++ trace step (after step s is) is' := by
  induction is generalizing s with
  | nil => rfl
  | cons i is ih => rw [List.cons_append, trace, trace, ih, List.cons_append, after]

theorem trace_concat (s : σ) (is : List ι) (i : ι) :
    trace step s (is ++ [i]) = trace step s is ++ [(step (after step s is) i).2] :=
  trace_append s is [i]

section Admissible

variable {Ok : List ι → Prop} (hok : ∀ {is i}, Ok (is ++ [i]) → Ok is)

include hok

/-- **The history rule.** What holds at the start, and is kept by every input that leaves the
inputs admissible, holds after every admissible list of inputs. -/
theorem invariant_of_after (Inv : List ι → σ → Prop) {s : σ} (hinit : Inv [] s)
    (hstep : ∀ {is i m}, Ok (is ++ [i]) → Inv is m → Inv (is ++ [i]) (step m i).1) {is : List ι}
    (his : Ok is) : Inv is (after step s is) := by
  induction is using List.reverseRecOn with
  | nil => exact hinit
  | append_singleton is i ih =>
    rw [after_concat]
    exact hstep his (ih (hok his))

/-- **Lockstep.** Machines that start in related states, and whose states stay related while they
give the same answers, give the same answers to every admissible list of inputs. -/
theorem trace_eq_of_lockstep (R : List ι → σ → τ → Prop) {s : σ} {t : τ} (hinit : R [] s t)
    (hstep : ∀ {is i m n}, Ok (is ++ [i]) → R is m n →
      R (is ++ [i]) (step m i).1 (step' n i).1 ∧ (step m i).2 = (step' n i).2)
    {is : List ι} (his : Ok is) :
    R is (after step s is) (after step' t is) ∧ trace step s is = trace step' t is := by
  induction is using List.reverseRecOn with
  | nil => exact ⟨hinit, rfl⟩
  | append_singleton is i ih =>
    obtain ⟨hrel, htrace⟩ := ih (hok his)
    obtain ⟨hrel', hreply⟩ := hstep his hrel
    rw [after_concat, after_concat, trace_concat, trace_concat, htrace, hreply]
    exact ⟨hrel', rfl⟩

end Admissible

/-- **Exact lockstep.** If related machines give the same answer to an input exactly if it is all
right behind the inputs before it, and are then related again, they give the same answers to a list
of inputs exactly if all of them are all right where they come. -/
theorem trace_eq_iff_of_lockstep {R : List ι → σ → τ → Prop} {ok : List ι → ι → Prop}
    (hstep : ∀ {is i m n}, R is m n → ((step m i).2 = (step' n i).2 ↔ ok is i) ∧
      (ok is i → R (is ++ [i]) (step m i).1 (step' n i).1))
    {hist : List ι} {s : σ} {t : τ} (hst : R hist s t) (is : List ι) :
    trace step s is = trace step' t is ↔
      ∀ before i after, is = before ++ i :: after → ok (hist ++ before) i := by
  induction is generalizing hist s t with
  | nil =>
    refine iff_of_true rfl fun before i after h ↦ ?_
    exact absurd h.symm (List.append_ne_nil_of_right_ne_nil _ (List.cons_ne_nil _ _))
  | cons i is ih =>
    obtain ⟨hreply, hrel⟩ := hstep (i := i) hst
    rw [trace, trace, List.cons.injEq, hreply]
    constructor
    · rintro ⟨hok, hrest⟩ before j after h
      rcases before with _ | ⟨i', before⟩
      · obtain ⟨rfl, rfl⟩ := List.cons.inj h
        rwa [List.append_nil]
      · obtain ⟨rfl, rfl⟩ := List.cons.inj h
        have hnext := (ih (hrel hok)).mp hrest before j after rfl
        rwa [List.append_assoc, List.singleton_append] at hnext
    · intro h
      have hok : ok hist i := by
        have hfirst := h [] i is rfl
        rwa [List.append_nil] at hfirst
      refine ⟨hok, (ih (hrel hok)).mpr fun before j after hsplit ↦ ?_⟩
      rw [List.append_assoc, List.singleton_append]
      exact h (i :: before) j after (by rw [hsplit, List.cons_append])

end Machine

end ArgusMcp
