import ArgusMcp.Library.Machine
import Mathlib.Logic.Function.Basic

/-!
# Key-value stores

A store is a machine that takes four kinds of operations: it sets the value of a name, gets it,
deletes it, and lists the names. What it ought to answer depends on nothing but the operations
before, and what these come to is a partial function, from names to the values last set and not
deleted since.

A store is *faithful* on a set of names if it answers that way whatever is done to it with these
names. This is proved with an invariant that relates the state of the store to the partial function
(`faithfulOn_of_invariant`).
-/

namespace ArgusMcp

namespace KeyValue

variable {N V σ : Type*}

/-- What is done to a store. -/
inductive Op (N V : Type*) where
  | set (n : N) (v : V)
  | get (n : N)
  | delete (n : N)
  | listNames

/-- What a store answers. An exception is `other`, and so is a listing that is no list of names. -/
inductive Answer (N V : Type*) where
  | done
  | value (v : Option V)
  | names (l : List N)
  | other

namespace Op

def name? : Op N V → Option N
  | set n _ | get n | delete n => some n
  | listNames => none

/-- The operation is about a name of the set. -/
def Within (S : Set N) (op : Op N V) : Prop := ∀ n, op.name? = some n → n ∈ S

end Op

/-! ## What the operations come to -/

section Current

variable [DecidableEq N]

/-- What an operation does to the partial function. -/
def apply (f : N → Option V) : Op N V → N → Option V
  | .set n v => Function.update f n (some v)
  | .delete n => Function.update f n none
  | .get _ | .listNames => f

/-- The partial function that a list of operations comes to. -/
def current (ops : List (Op N V)) : N → Option V := ops.foldl apply fun _ ↦ none

theorem current_singleton (op : Op N V) : current [op] = apply (fun _ ↦ none) op := rfl

theorem current_concat (ops : List (Op N V)) (op : Op N V) :
    current (ops ++ [op]) = apply (current ops) op := by
  rw [current, List.foldl_append, List.foldl_cons, List.foldl_nil, ← current]

end Current

/-! ## Faithful stores -/

/-- The answer that an operation ought to get. A listing names each name once. -/
def Right (f : N → Option V) : Op N V → Answer N V → Prop
  | .set _ _, a | .delete _, a => a = .done
  | .get n, a => a = .value (f n)
  | .listNames, a => ∃ l, a = .names l ∧ l.Nodup ∧ ∀ n, n ∈ l ↔ ∃ v, f n = some v

variable [DecidableEq N] {step : σ → Op N V → σ × Answer N V} {s : σ} {S : Set N}

/-- Whatever was done before with names of the set, the answer is right. -/
def FaithfulOn (step : σ → Op N V → σ × Answer N V) (s : σ) (S : Set N) : Prop :=
  ∀ ops op, (∀ o ∈ ops ++ [op], o.Within S) →
    Right (current ops) op (step (Machine.after step s ops) op).2

/-- **The invariant rule.** A relation between the partial function and the state that every
operation keeps, and that makes its answer right, makes the store faithful. -/
theorem faithfulOn_of_invariant (Inv : (N → Option V) → σ → Prop) (hinit : Inv (fun _ ↦ none) s)
    (hstep : ∀ f t (op : Op N V), op.Within S → Inv f t →
      Inv (apply f op) (step t op).1 ∧ Right f op (step t op).2) : FaithfulOn step s S := by
  have hrun : ∀ ops : List (Op N V), (∀ o ∈ ops, o.Within S) →
      Inv (current ops) (Machine.after step s ops) := by
    intro ops
    induction ops using List.reverseRecOn with
    | nil => exact fun _ ↦ hinit
    | append_singleton ops op ih =>
      intro hwithin
      rw [current_concat, Machine.after_concat]
      have hbefore := ih fun o ho ↦ hwithin o (List.mem_append_left _ ho)
      exact (hstep _ _ op (hwithin op (by simp)) hbefore).1
  intro ops op hwithin
  have hinv := hrun ops fun o ho ↦ hwithin o (List.mem_append_left _ ho)
  exact (hstep _ _ op (hwithin op (by simp)) hinv).2

end KeyValue

end ArgusMcp
