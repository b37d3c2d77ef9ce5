import Mathlib.Data.Finset.Lattice.Fold
import Mathlib.Data.Fintype.EquivFin
import Mathlib.Data.List.Forall2
import Mathlib.Logic.Relation
import Mathlib.Order.Lattice.Nat
import Mathlib.Order.WellFounded

/-!
# Peeling a finite dependency graph into layers

Every node has a list of nodes it depends on. The nodes are taken off in rounds: a round takes all
nodes whose dependencies went in earlier rounds, and if a round finds none while nodes are left,
the graph is stuck. The nodes left over are a set, so a round meets them in an order nobody
promises; the order is a parameter here and may be another one in every round.

`Layered` says what a list of rounds is, without an algorithm. From it follow the three facts a
caller wants: the rounds hold every node exactly as often as it was given, the round of a node is
the least number above the rounds of its dependencies, and two lists of rounds of one graph differ
only in the order inside a round. `peel` is the algorithm, and `layers_error_iff` says that it gets
stuck exactly on the graphs with a cycle.
-/

namespace ArgusMcp

namespace Layers

variable {ι : Type*} [DecidableEq ι] {deps : ι → List ι}

/-! ## Rounds -/

/-- The nodes of `l` whose dependencies are all completed, in the order of `l`. -/
def ready (deps : ι → List ι) (completed l : List ι) : List ι :=
  l.filter fun i ↦ decide (∀ d ∈ deps i, d ∈ completed)

/-- A list of rounds that takes off `remaining` when `completed` went before. -/
inductive Layered (deps : ι → List ι) : List ι → List ι → List (List ι) → Prop
  | nil (completed : List ι) : Layered deps completed [] []
  | cons {completed remaining batch : List ι} {rest : List (List ι)} (hne : batch ≠ [])
      (hbatch : batch.Perm (ready deps completed remaining))
      (hrest : Layered deps (completed ++ batch) (remaining.filter (· ∉ batch)) rest) :
      Layered deps completed remaining (batch :: rest)

/-- Nodes none of which will ever be ready: each waits for one that is neither completed nor going
to be. -/
def Stuck (deps : ι → List ι) (completed remaining stuck : List ι) : Prop :=
  stuck ≠ [] ∧ stuck ⊆ remaining ∧
    ∀ i ∈ stuck, ∃ d ∈ deps i, d ∉ completed ∧ (d ∈ remaining → d ∈ stuck)

/-- The number of the round that took `i`. -/
def levelOf (levels : List (List ι)) (i : ι) : ℕ := levels.findIdx (i ∈ ·)

theorem mem_ready {completed l : List ι} {i : ι} :
    i ∈ ready deps completed l ↔ i ∈ l ∧ ∀ d ∈ deps i, d ∈ completed := by
  rw [ready, List.mem_filter, decide_eq_true_iff]

theorem mem_batch_iff {completed remaining batch : List ι}
    (hbatch : batch.Perm (ready deps completed remaining)) {i : ι} :
    i ∈ batch ↔ i ∈ remaining ∧ ∀ d ∈ deps i, d ∈ completed := by
  rw [hbatch.mem_iff, mem_ready]

theorem levelOf_cons_of_mem {batch : List ι} {i : ι} (h : i ∈ batch) (rest : List (List ι)) :
    levelOf (batch :: rest) i = 0 := by
  rw [levelOf, List.findIdx_cons, decide_eq_true h, cond_true]

theorem levelOf_cons_of_notMem {batch : List ι} {i : ι} (h : i ∉ batch) (rest : List (List ι)) :
    levelOf (batch :: rest) i = levelOf rest i + 1 := by
  rw [levelOf, List.findIdx_cons, decide_eq_false h, cond_false, ← levelOf]

theorem levelOf_append_cons {pre : List (List ι)} {batch : List ι} {i : ι}
    (hpre : i ∉ pre.flatten) (h : i ∈ batch) (post : List (List ι)) :
    levelOf (pre ++ batch :: post) i = pre.length := by
  induction pre with
  | nil => exact levelOf_cons_of_mem h post
  | cons first pre ih =>
    rw [List.flatten_cons, List.mem_append, not_or] at hpre
    rw [List.cons_append, levelOf_cons_of_notMem hpre.1, ih hpre.2, List.length_cons]

/-- The round of a node is one of the first exactly when one of them has it. -/
theorem levelOf_append_lt_iff {pre post : List (List ι)} {i : ι} :
    levelOf (pre ++ post) i < pre.length ↔ i ∈ pre.flatten := by
  induction pre with
  | nil => simp
  | cons first pre ih =>
    rw [List.flatten_cons, List.mem_append, List.cons_append, List.length_cons]
    by_cases hi : i ∈ first
    · rw [levelOf_cons_of_mem hi]
      exact iff_of_true (Nat.succ_pos _) (.inl hi)
    · rw [levelOf_cons_of_notMem hi, or_iff_right hi, ← ih, Nat.add_lt_add_iff_right]

namespace Layered

theorem flatten_perm {completed remaining : List ι} {levels : List (List ι)}
    (h : Layered deps completed remaining levels) : levels.flatten.Perm remaining := by
  induction h with
  | nil => exact .refl []
  | @cons completed remaining batch rest hne hbatch hrest ih =>
    -- What stays behind is what was not ready, so batch and rest split the nodes in two.
    have hleft : remaining.filter (· ∉ batch)
        = remaining.filter fun i ↦ !decide (∀ d ∈ deps i, d ∈ completed) := by
      refine List.filter_congr fun i hi ↦ ?_
      rw [← decide_not, decide_eq_decide, mem_batch_iff hbatch, and_iff_right hi]
    rw [List.flatten_cons]
    calc (batch ++ rest.flatten).Perm (ready deps completed remaining
          ++ remaining.filter (· ∉ batch)) := hbatch.append ih
      _ = ready deps completed remaining
          ++ remaining.filter (fun i ↦ !decide (∀ d ∈ deps i, d ∈ completed)) := by rw [hleft]
      List.Perm _ remaining := List.filter_append_perm _ remaining

theorem levelOf_le_iff {completed remaining : List ι} {levels : List (List ι)}
    (h : Layered deps completed remaining levels) {i : ι} (hi : i ∈ remaining) (n : ℕ) :
    levelOf levels i ≤ n ↔ ∀ d ∈ deps i, d ∈ completed ∨ levelOf levels d < n := by
  induction h generalizing n with
  | nil => exact absurd hi List.not_mem_nil
  | @cons completed remaining batch rest hne hbatch hrest ih =>
    by_cases hib : i ∈ batch
    · rw [levelOf_cons_of_mem hib]
      exact iff_of_true n.zero_le fun d hd ↦ .inl (((mem_batch_iff hbatch).mp hib).2 d hd)
    · have hi' : i ∈ remaining.filter (· ∉ batch) := List.mem_filter.mpr ⟨hi, decide_eq_true hib⟩
      rw [levelOf_cons_of_notMem hib]
      cases n with
      | zero =>
        refine iff_of_false (Nat.not_succ_le_zero _) fun hall ↦ hib ?_
        exact (mem_batch_iff hbatch).mpr
          ⟨hi, fun d hd ↦ (hall d hd).resolve_right (Nat.not_lt_zero _)⟩
      | succ m =>
        rw [Nat.add_le_add_iff_right, ih hi' m]
        refine forall₂_congr fun d _ ↦ ?_
        rw [List.mem_append, or_assoc]
        refine or_congr_right ?_
        by_cases hdb : d ∈ batch
        · rw [levelOf_cons_of_mem hdb]
          exact iff_of_true (.inl hdb) m.succ_pos
        · rw [levelOf_cons_of_notMem hdb, Nat.add_lt_add_iff_right]
          exact or_iff_right hdb

/-- **The round of a node** is one more than the last round of its dependencies, and `0` when it
has none: the supremum of no numbers is `0`. -/
theorem levelOf_eq_sup {ids : List ι} {levels : List (List ι)} (h : Layered deps [] ids levels)
    {i : ι} (hi : i ∈ ids) :
    levelOf levels i = (deps i).toFinset.sup fun d ↦ levelOf levels d + 1 := by
  refine eq_of_forall_ge_iff fun n ↦ ?_
  rw [h.levelOf_le_iff hi, Finset.sup_le_iff]
  simp only [List.not_mem_nil, false_or, List.mem_toFinset, Nat.succ_le_iff]

theorem levelOf_lt {ids : List ι} {levels : List (List ι)} (h : Layered deps [] ids levels)
    {i d : ι} (hi : i ∈ ids) (hd : d ∈ deps i) : levelOf levels d < levelOf levels i :=
  ((h.levelOf_le_iff hi _).mp le_rfl d hd).resolve_left List.not_mem_nil

/-- **Rounds are unique up to order**: whatever order the nodes were met in, the same rounds hold
the same nodes. -/
theorem forall₂_perm {completed completed' remaining remaining' : List ι}
    {levels levels' : List (List ι)} (h : Layered deps completed remaining levels)
    (h' : Layered deps completed' remaining' levels') (hperm : remaining.Perm remaining')
    (hmem : ∀ i, i ∈ completed ↔ i ∈ completed') :
    List.Forall₂ List.Perm levels levels' := by
  induction h generalizing completed' remaining' levels' with
  | nil =>
    obtain rfl := hperm.nil_eq
    rcases h' with _ | ⟨hne, hbatch, -⟩
    · exact .nil
    · exact absurd hbatch.eq_nil hne
  | @cons completed remaining batch rest hne hbatch hrest ih =>
    rcases h' with _ | @⟨_, _, batch', rest', hne', hbatch', hrest'⟩
    · rw [hperm.eq_nil] at hbatch
      exact absurd hbatch.eq_nil hne
    · have hready : (ready deps completed remaining).Perm (ready deps completed' remaining') := by
        rw [ready, ready]
        simp only [hmem]
        exact hperm.filter _
      have hbb : batch.Perm batch' := hbatch.trans (hready.trans hbatch'.symm)
      refine .cons hbb (ih hrest' ?_ fun i ↦ ?_)
      · simp only [hbb.mem_iff]
        exact hperm.filter _
      · rw [List.mem_append, List.mem_append, hmem, hbb.mem_iff]

end Layered

/-! ## Cycles -/

/-- Some node depends on itself, directly or through others. -/
def Cyclic (deps : ι → List ι) (ids : List ι) : Prop :=
  ∃ i ∈ ids, Relation.TransGen (fun a b ↦ b ∈ deps a) i i

/-- Every dependency of a node is a node. -/
def Closed (deps : ι → List ι) (ids : List ι) : Prop := ∀ i ∈ ids, deps i ⊆ ids

/-- Levels fall along every path, so a graph with rounds has no cycle. -/
theorem Layered.not_cyclic {ids : List ι} {levels : List (List ι)}
    (h : Layered deps [] ids levels) (hclosed : Closed deps ids) : ¬ Cyclic deps ids := by
  have hpath : ∀ {a b : ι}, Relation.TransGen (fun a b ↦ b ∈ deps a) a b → a ∈ ids →
      b ∈ ids ∧ levelOf levels b < levelOf levels a := by
    intro a b hab ha
    induction hab with
    | single hb => exact ⟨hclosed a ha hb, h.levelOf_lt ha hb⟩
    | tail _ hc ih => exact ⟨hclosed _ ih.1 hc, (h.levelOf_lt ih.1 hc).trans ih.2⟩
  rintro ⟨i, hi, hcycle⟩
  exact lt_irrefl _ (hpath hcycle hi).2

/-- Nodes that all wait for one another close a cycle, there being finitely many of them. -/
theorem Stuck.cyclic {ids stuck : List ι} (h : Stuck deps [] ids stuck)
    (hclosed : Closed deps ids) : Cyclic deps ids := by
  obtain ⟨hne, hsub, hwait⟩ := h
  by_contra hacyclic
  let after : {i // i ∈ stuck} → {i // i ∈ stuck} → Prop :=
    fun a b ↦ Relation.TransGen (fun a b ↦ b ∈ deps a) b.1 a.1
  have : IsTrans _ after := ⟨fun _ _ _ hab hbc ↦ hbc.trans hab⟩
  have : Std.Irrefl after := ⟨fun a ha ↦ hacyclic ⟨a.1, hsub a.2, ha⟩⟩
  have hwf : WellFounded after := Finite.wellFounded_of_trans_of_irrefl after
  obtain ⟨i, hi⟩ := List.exists_mem_of_ne_nil stuck hne
  -- A node that waits for no other stuck node contradicts its being stuck.
  obtain ⟨m, -, hmin⟩ := hwf.has_min Set.univ ⟨⟨i, hi⟩, trivial⟩
  obtain ⟨d, hd, -, hds⟩ := hwait m.1 m.2
  exact hmin ⟨d, hds (hclosed m.1 (hsub m.2) hd)⟩ trivial (.single hd)

/-! ## The algorithm -/

/-- The order in which an iteration over a set meets its members, one for every round. -/
structure SetOrder (ι : Type*) where
  /-- The members of the set in the order round `n` meets them. -/
  iter : ℕ → List ι → List ι
  /-- An iteration meets every member and nothing else. -/
  perm : ∀ n l, (iter n l).Perm l

/-- The order in which the members were written down. -/
def SetOrder.asGiven : SetOrder ι := ⟨fun _ l ↦ l, fun _ l ↦ .refl l⟩

variable (order : SetOrder ι)

/-- Takes off round after round, for at most `fuel` of them; `none` means that it is still
running. A round that finds nothing ready ends with the nodes it was left with. -/
def peel (deps : ι → List ι) :
    ℕ → ℕ → List ι → List ι → Option (Except (List ι) (List (List ι)))
  | _, _, _, [] => some (.ok [])
  | 0, _, _, _ :: _ => none
  | fuel + 1, round, completed, i :: l =>
    match ready deps completed (order.iter round (i :: l)) with
    | [] => some (.error (order.iter round (i :: l)))
    | j :: batch =>
      (peel deps fuel (round + 1) (completed ++ j :: batch)
        ((i :: l).filter (· ∉ j :: batch))).map (Except.map ((j :: batch) :: ·))

theorem ready_iter_perm (round : ℕ) (completed l : List ι) :
    (ready deps completed (order.iter round l)).Perm (ready deps completed l) :=
  (order.perm round l).filter _

/-- Every round takes at least one node, so as many rounds as there are nodes are enough. -/
theorem isSome_peel {fuel : ℕ} (round : ℕ) (completed : List ι) {remaining : List ι}
    (h : remaining.length ≤ fuel) : (peel order deps fuel round completed remaining).isSome := by
  fun_induction peel order deps fuel round completed remaining with
  | case1 => rfl
  | case2 => exact absurd h (Nat.not_succ_le_zero _)
  | case3 => rfl
  | case4 fuel round completed i l j batch hready ih =>
    rw [Option.isSome_map]
    refine ih (Nat.lt_succ_iff.mp (lt_of_lt_of_le ?_ h))
    have hj : j ∈ ready deps completed (order.iter round (i :: l)) := hready ▸ List.mem_cons_self
    rw [(ready_iter_perm order round completed (i :: l)).mem_iff, mem_ready] at hj
    refine List.length_filter_lt_length_iff_exists.mpr ⟨j, hj.1, ?_⟩
    simp

/-- What the algorithm ends with, either way. -/
theorem peel_spec {fuel round : ℕ} {completed remaining : List ι}
    {r : Except (List ι) (List (List ι))}
    (h : peel order deps fuel round completed remaining = some r) :
    (∃ levels, r = .ok levels ∧ Layered deps completed remaining levels) ∨
      ∃ stuck, r = .error stuck ∧ Stuck deps completed remaining stuck := by
  fun_induction peel order deps fuel round completed remaining generalizing r with
  | case1 _ _ completed =>
    rw [Option.some.injEq] at h
    exact .inl ⟨[], h.symm, .nil completed⟩
  | case2 => exact absurd h (Option.some_ne_none r).symm
  | case3 fuel round completed i l hready =>
    have hmem : ∀ {k}, k ∈ order.iter round (i :: l) ↔ k ∈ i :: l :=
      (order.perm round (i :: l)).mem_iff
    rw [Option.some.injEq] at h
    refine .inr ⟨_, h.symm, fun hnil ↦ ?_, fun k hk ↦ hmem.mp hk, fun k hk ↦ ?_⟩
    · exact List.not_mem_nil (hnil ▸ hmem.mpr (List.mem_cons_self (a := i) (l := l)))
    · have hk' : ¬ ∀ d ∈ deps k, d ∈ completed :=
        fun hall ↦ List.not_mem_nil (hready ▸ mem_ready.mpr ⟨hk, hall⟩)
      rw [not_forall₂] at hk'
      obtain ⟨d, hd, hdc⟩ := hk'
      exact ⟨d, hd, hdc, hmem.mpr⟩
  | case4 fuel round completed i l j batch hready ih =>
    have hbatch : (j :: batch).Perm (ready deps completed (i :: l)) :=
      hready ▸ ready_iter_perm order round completed (i :: l)
    obtain ⟨r', hr', rfl⟩ := Option.map_eq_some_iff.mp h
    obtain ⟨levels, rfl, hlay⟩ | ⟨stuck, rfl, hne, hsub, hwait⟩ := ih hr'
    · exact .inl ⟨_, rfl, .cons (List.cons_ne_nil j batch) hbatch hlay⟩
    · refine .inr ⟨stuck, rfl, hne, fun k hk ↦ List.mem_of_mem_filter (hsub hk), fun k hk ↦ ?_⟩
      obtain ⟨d, hd, hdc, hds⟩ := hwait k hk
      rw [List.mem_append, not_or] at hdc
      exact ⟨d, hd, hdc.1, fun hdr ↦ hds (List.mem_filter.mpr ⟨hdr, decide_eq_true hdc.2⟩)⟩

/-- The rounds of a whole graph, or the nodes they got stuck with. -/
def layers (deps : ι → List ι) (ids : List ι) : Except (List ι) (List (List ι)) :=
  (peel order deps ids.length 0 [] ids).get (isSome_peel order 0 [] le_rfl)

theorem layers_spec (deps : ι → List ι) (ids : List ι) :
    (∃ levels, layers order deps ids = .ok levels ∧ Layered deps [] ids levels) ∨
      ∃ stuck, layers order deps ids = .error stuck ∧ Stuck deps [] ids stuck :=
  peel_spec order (Option.some_get _).symm

theorem layered_of_layers {ids : List ι} {levels : List (List ι)}
    (h : layers order deps ids = .ok levels) : Layered deps [] ids levels := by
  obtain ⟨levels', h', hlay⟩ | ⟨stuck, h', -⟩ := layers_spec order deps ids
  · rw [h, Except.ok.injEq] at h'
    exact h' ▸ hlay
  · rw [h] at h'
    exact absurd h' (by simp)

/-- **Stuck means cyclic.** On a graph whose dependencies are all nodes, the rounds end without
taking every node exactly when some node depends on itself. -/
theorem layers_error_iff {ids : List ι} (hclosed : Closed deps ids) :
    (∃ stuck, layers order deps ids = .error stuck) ↔ Cyclic deps ids := by
  obtain ⟨levels, h, hlay⟩ | ⟨stuck, h, hstuck⟩ := layers_spec order deps ids
  · rw [h]
    exact iff_of_false (by simp) (hlay.not_cyclic hclosed)
  · exact iff_of_true ⟨stuck, h⟩ (hstuck.cyclic hclosed)

end Layers

end ArgusMcp
