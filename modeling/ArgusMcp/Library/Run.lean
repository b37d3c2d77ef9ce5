import Mathlib.Data.List.Basic
import Mathlib.Tactic.Common

/-!
# Runs of a partial step function

A system is a step function on states and labels that may be undefined; a run follows a list of
labels as long as every step is defined. One induction is packaged here, for invariants that may
mention the labels taken so far, under a *guard*: a condition on the state before a step and on the
label taken. A run is guarded when every one of its steps meets the guard in the state it starts
from. The rules for invariants of the state alone, and for runs without a guard, are cases of it.

`Visits` is for statements about one step of a run: it names the state in which a label is met and
the labels behind it. A run is undefined exactly when it visits a label whose step is, and a label
where it stops is the last one it visits.
-/

namespace ArgusMcp

namespace Run

variable {σ : Type*} {α : Type*}

/-- Follows the labels from left to right, and is undefined as soon as one step is. -/
def run (step : σ → α → Option σ) : σ → List α → Option σ
  | s, [] => some s
  | s, a :: tr => (step s a).bind fun s' ↦ run step s' tr

/-- Every step of the run meets the guard in the state it starts from. -/
def Guarded (step : σ → α → Option σ) (ok : σ → α → Prop) : σ → List α → Prop
  | _, [] => True
  | s, a :: tr => ok s a ∧ match step s a with
    | none => True
    | some s' => Guarded step ok s' tr

variable {step : σ → α → Option σ} {ok : σ → α → Prop}

instance decidableGuarded [∀ s a, Decidable (ok s a)] :
    ∀ (s : σ) (tr : List α), Decidable (Guarded step ok s tr)
  | _, [] => instDecidableTrue
  | s, a :: tr =>
    match h : step s a with
    | none => decidable_of_iff (ok s a) (by simp [Guarded, h])
    | some s' =>
      have := decidableGuarded s' tr
      decidable_of_iff (ok s a ∧ Guarded step ok s' tr) (by simp [Guarded, h])

@[simp] theorem run_nil (s : σ) : run step s [] = some s := rfl

theorem run_cons_eq_some {s s' : σ} {a : α} {tr : List α} :
    run step s (a :: tr) = some s' ↔ ∃ m, step s a = some m ∧ run step m tr = some s' := by
  rw [run, Option.bind_eq_some_iff]

theorem run_append (s : σ) (tr tr' : List α) :
    run step s (tr ++ tr') = (run step s tr).bind fun m ↦ run step m tr' := by
  induction tr generalizing s with
  | nil => rfl
  | cons a tr ih =>
    rw [List.cons_append, run, run, Option.bind_assoc]
    exact congrArg _ (funext fun m ↦ ih m)

theorem run_eq_some_getD {s : σ} {tr : List α} (h : (run step s tr).isSome) (d : σ) :
    run step s tr = some ((run step s tr).getD d) := by
  obtain ⟨m, hm⟩ := Option.isSome_iff_exists.mp h
  rw [hm, Option.getD_some]

theorem guarded_cons {s m : σ} {a : α} {tr : List α} (h : step s a = some m) :
    Guarded step ok s (a :: tr) ↔ ok s a ∧ Guarded step ok m tr := by
  rw [Guarded, h]

theorem guarded_of_forall_mem (s : σ) {tr : List α} (h : ∀ a ∈ tr, ∀ s, ok s a) :
    Guarded step ok s tr := by
  induction tr generalizing s with
  | nil => trivial
  | cons a tr ih =>
    obtain ⟨ha, htr⟩ := List.forall_mem_cons.mp h
    refine ⟨ha s, ?_⟩
    rcases step s a with _ | m
    · trivial
    · exact ih m htr

theorem Guarded.and {ok' : σ → α → Prop} {s : σ} {tr : List α} (h : Guarded step ok s tr)
    (h' : Guarded step ok' s tr) : Guarded step (fun s a ↦ ok s a ∧ ok' s a) s tr := by
  induction tr generalizing s with
  | nil => trivial
  | cons a tr ih =>
    rcases hs : step s a with _ | m
    · rw [Guarded, hs] at h h' ⊢
      exact ⟨⟨h.1, h'.1⟩, trivial⟩
    · rw [guarded_cons hs] at h h' ⊢
      exact ⟨⟨h.1, h'.1⟩, ih h.2 h'.2⟩

theorem guarded_true (s : σ) (tr : List α) : Guarded step (fun _ _ ↦ True) s tr :=
  guarded_of_forall_mem s fun _ _ _ ↦ trivial

theorem guarded_singleton {s : σ} {a : α} : Guarded step ok s [a] ↔ ok s a := by
  rw [Guarded]
  rcases step s a with _ | m
  · exact iff_of_eq (and_true _)
  · exact iff_of_eq (and_true _)

theorem guarded_append {s : σ} {tr tr' : List α} : Guarded step ok s (tr ++ tr') ↔
    Guarded step ok s tr ∧ ∀ m, run step s tr = some m → Guarded step ok m tr' := by
  induction tr generalizing s with
  | nil => simp [Guarded]
  | cons a tr ih =>
    rw [List.cons_append, Guarded, Guarded, run, and_assoc]
    refine and_congr_right fun _ ↦ ?_
    rcases step s a with _ | m
    · simp
    · exact ih

/-- **The guarded history rule.** What may mention the labels taken so far, holds at the start and
is kept by every guarded step holds wherever a guarded run ends. -/
theorem guarded_history_invariant_of_run {Inv : List α → σ → Prop}
    (hstep : ∀ hist s a s', Inv hist s → ok s a → step s a = some s' → Inv (hist ++ [a]) s') :
    ∀ {tr : List α} {hist : List α} {s s' : σ}, Inv hist s → Guarded step ok s tr →
      run step s tr = some s' → Inv (hist ++ tr) s' := by
  intro tr
  induction tr with
  | nil =>
    rintro hist s s' hs - hrun
    rw [run_nil, Option.some.injEq] at hrun
    rw [List.append_nil]
    exact hrun ▸ hs
  | cons a tr ih =>
    intro hist s s' hs hg hrun
    obtain ⟨m, hm, hrun⟩ := run_cons_eq_some.mp hrun
    obtain ⟨hok, hg⟩ := (guarded_cons hm).mp hg
    have h := ih (hstep hist s a m hs hok hm) hg hrun
    rwa [List.append_assoc, List.singleton_append] at h

/-- **The invariant rule.** What holds at the start and is kept by every guarded step holds
wherever a guarded run ends. -/
theorem invariant_of_run {Inv : σ → Prop}
    (hstep : ∀ s a s', Inv s → ok s a → step s a = some s' → Inv s') {tr : List α} {s s' : σ}
    (hs : Inv s) (hg : Guarded step ok s tr) (hrun : run step s tr = some s') : Inv s' :=
  @guarded_history_invariant_of_run _ _ step ok (fun _ ↦ Inv) (fun _ s a s' ↦ hstep s a s') tr []
    s s' hs hg hrun

/-- **The history rule.** The invariant may mention the labels taken so far; no guard is asked
for. -/
theorem history_invariant_of_run {Inv : List α → σ → Prop}
    (hstep : ∀ hist s a s', Inv hist s → step s a = some s' → Inv (hist ++ [a]) s')
    {tr : List α} {hist : List α} {s s' : σ} (hs : Inv hist s) (hrun : run step s tr = some s') :
    Inv (hist ++ tr) s' :=
  guarded_history_invariant_of_run (fun hist s a s' h _ ↦ hstep hist s a s' h) hs
    (guarded_true s tr) hrun

/-- The history rule for an invariant of the state alone. -/
theorem inv_of_run {Inv : σ → Prop}
    (hstep : ∀ s a s', Inv s → step s a = some s' → Inv s') {tr : List α} {s s' : σ}
    (hs : Inv s) (hrun : run step s tr = some s') : Inv s' :=
  @history_invariant_of_run _ _ step (fun _ ↦ Inv) (fun _ s a s' ↦ hstep s a s') tr [] s s' hs hrun

/-- **The exact guard rule**, for labels that are promised something. If the property holds after a
step exactly if the step meets the guard, and a step that is not defined meets it anyway, then the
property holds in every state a run comes to exactly if the run is guarded. -/
theorem forall_reached_iff_guarded_of_labels {Inv P : σ → Prop} {L : α → Prop}
    (hstep : ∀ s a m, L a → Inv s → P s → step s a = some m → Inv m ∧ (P m ↔ ok s a))
    (hnone : ∀ s a, Inv s → P s → step s a = none → ok s a) :
    ∀ {tr : List α} {s : σ}, (∀ a ∈ tr, L a) → Inv s → P s →
      ((∀ pre m, pre <+: tr → run step s pre = some m → P m) ↔ Guarded step ok s tr) := by
  intro tr
  induction tr with
  | nil =>
    intro s _ _ hP
    refine iff_of_true (fun pre m hpre hrun ↦ ?_) trivial
    rw [List.prefix_nil.mp hpre, run_nil, Option.some.injEq] at hrun
    exact hrun ▸ hP
  | cons a tr ih =>
    intro s hL hs hP
    obtain ⟨ha, hL⟩ := List.forall_mem_cons.mp hL
    -- what is reached is the first state, or reached from the second one
    have hfirst : ∀ pre m, pre <+: a :: tr → run step s pre = some m →
        m = s ∨ ∃ pre' n, pre = a :: pre' ∧ pre' <+: tr ∧ step s a = some n ∧
          run step n pre' = some m := by
      intro pre m hpre hrun
      rcases List.prefix_cons_iff.mp hpre with rfl | ⟨pre', rfl, hpre'⟩
      · exact Or.inl (Option.some.inj hrun).symm
      · obtain ⟨n, hn, hrun⟩ := run_cons_eq_some.mp hrun
        exact Or.inr ⟨pre', n, rfl, hpre', hn, hrun⟩
    rcases hn : step s a with _ | n
    · rw [Guarded, hn]
      refine iff_of_true (fun pre m hpre hrun ↦ ?_) ⟨hnone s a hs hP hn, trivial⟩
      rcases hfirst pre m hpre hrun with rfl | ⟨pre', n, -, -, hn', -⟩
      · exact hP
      · exact absurd (hn.symm.trans hn') (Option.some_ne_none n).symm
    · obtain ⟨hInv, hiff⟩ := hstep s a n ha hs hP hn
      rw [guarded_cons hn]
      constructor
      · intro h
        have hPn : P n := h [a] n ⟨tr, rfl⟩ (run_cons_eq_some.mpr ⟨n, hn, run_nil n⟩)
        refine ⟨hiff.mp hPn, (ih hL hInv hPn).mp fun pre m hpre hrun ↦ ?_⟩
        exact h (a :: pre) m (List.cons_prefix_cons.mpr ⟨rfl, hpre⟩)
          (run_cons_eq_some.mpr ⟨n, hn, hrun⟩)
      · rintro ⟨hok, hg⟩ pre m hpre hrun
        rcases hfirst pre m hpre hrun with rfl | ⟨pre', n', -, hpre', hn', hrun'⟩
        · exact hP
        · rw [hn, Option.some.injEq] at hn'
          subst hn'
          exact (ih hL hInv (hiff.mpr hok)).mpr hg pre' m hpre' hrun'

/-- The exact guard rule, with nothing promised. -/
theorem forall_reached_iff_guarded {Inv P : σ → Prop}
    (hstep : ∀ s a m, Inv s → P s → step s a = some m → Inv m ∧ (P m ↔ ok s a))
    (hnone : ∀ s a, Inv s → P s → step s a = none → ok s a) {tr : List α} {s : σ} :
    Inv s → P s →
      ((∀ pre m, pre <+: tr → run step s pre = some m → P m) ↔ Guarded step ok s tr) :=
  @forall_reached_iff_guarded_of_labels _ _ step ok Inv P (fun _ ↦ True)
    (fun s a m _ ↦ hstep s a m) hnone tr s fun _ _ ↦ trivial

/-! ## The steps of a run -/

/-- The run from the first state with the first labels comes to the label `a` in the state `m`,
with the labels `post` behind it. -/
inductive Visits (step : σ → α → Option σ) : σ → List α → σ → α → List α → Prop
  | here (s : σ) (a : α) (tr : List α) : Visits step s (a :: tr) s a tr
  | later {s s' m : σ} {a b : α} {tr post : List α} (h : step s b = some s')
      (hv : Visits step s' tr m a post) : Visits step s (b :: tr) m a post

/-- The labels before the one that is met are a defined run, and lead to where it is met. -/
theorem Visits.exists_run {s m : σ} {tr post : List α} {a : α}
    (h : Visits step s tr m a post) : ∃ pre, tr = pre ++ a :: post ∧ run step s pre = some m := by
  induction h with
  | here => exact ⟨[], rfl, rfl⟩
  | @later _ _ _ _ b _ _ hs _ ih =>
    obtain ⟨pre, rfl, hrun⟩ := ih
    exact ⟨b :: pre, rfl, run_cons_eq_some.mpr ⟨_, hs, hrun⟩⟩

theorem visits_of_run {s m : σ} {pre : List α} (h : run step s pre = some m) (a : α)
    (post : List α) : Visits step s (pre ++ a :: post) m a post := by
  induction pre generalizing s with
  | nil =>
    rw [run_nil, Option.some.injEq] at h
    exact h ▸ .here s a post
  | cons b pre ih =>
    obtain ⟨n, hn, hrun⟩ := run_cons_eq_some.mp h
    exact .later hn (ih hrun)

theorem Visits.exists_split {s m : σ} {tr post : List α} {a : α}
    (h : Visits step s tr m a post) : ∃ pre, tr = pre ++ a :: post := by
  obtain ⟨pre, hpre, -⟩ := h.exists_run
  exact ⟨pre, hpre⟩

theorem Visits.append {s m : σ} {tr post : List α} {a : α} (h : Visits step s tr m a post)
    (tr' : List α) : Visits step s (tr ++ tr') m a (post ++ tr') := by
  induction h with
  | here => exact .here _ _ _
  | later hs _ ih => exact .later hs ih

theorem Visits.run_eq {s m : σ} {tr post : List α} {a : α} (h : Visits step s tr m a post) :
    run step s tr = run step m (a :: post) := by
  induction h with
  | here => rfl
  | later hs _ ih => rw [run, hs, Option.bind_some, ih]

theorem Visits.trans {s m m' m'' : σ} {tr post post' : List α} {a b : α}
    (h : Visits step s tr m a post) (hstep : step m a = some m')
    (h' : Visits step m' post m'' b post') : Visits step s tr m'' b post' := by
  induction h with
  | here => exact .later hstep h'
  | later hs _ ih => exact .later hs (ih hstep h')

theorem exists_visits_of_run {s s' : σ} {tr : List α} (h : run step s tr = some s') {a : α}
    (ha : a ∈ tr) : ∃ m post, Visits step s tr m a post := by
  induction tr generalizing s with
  | nil => exact absurd ha List.not_mem_nil
  | cons b tr ih =>
    obtain ⟨m, hm, hrun⟩ := run_cons_eq_some.mp h
    rcases List.mem_cons.mp ha with rfl | ha
    · exact ⟨s, tr, .here s a tr⟩
    · obtain ⟨m', post, hv⟩ := ih hrun ha
      exact ⟨m', post, .later hm hv⟩

theorem run_eq_none_iff {s : σ} {tr : List α} :
    run step s tr = none ↔ ∃ m a post, Visits step s tr m a post ∧ step m a = none := by
  constructor
  · intro h
    induction tr generalizing s with
    | nil => exact absurd h (Option.some_ne_none s)
    | cons b tr ih =>
      cases hs : step s b with
      | none => exact ⟨s, b, tr, .here s b tr, hs⟩
      | some s' =>
        rw [run, hs, Option.bind_some] at h
        obtain ⟨m, a, post, hv, hnone⟩ := ih h
        exact ⟨m, a, post, .later hs hv, hnone⟩
  · rintro ⟨m, a, post, hv, hnone⟩
    induction hv with
    | here => rw [run, hnone, Option.bind_none]
    | later hs _ ih => rw [run, hs, Option.bind_some, ih hnone]

/-- Where a run stops, it has visited nothing of what is behind. -/
theorem Visits.mem_of_stop {s m m' : σ} {tr post post' : List α} {a b : α}
    (h : Visits step s tr m a post) (hstop : step m a = none)
    (h' : Visits step s tr m' b post') : ∃ pre, tr = pre ++ a :: post ∧ b ∈ pre ++ [a] := by
  induction h with
  | here s a tr =>
    rcases h' with _ | ⟨hs, -⟩
    · exact ⟨[], rfl, List.mem_singleton_self _⟩
    · rw [hstop] at hs
      exact absurd hs (Option.some_ne_none _).symm
  | @later s s' m a c tr post hs hv ih =>
    rcases h' with _ | ⟨hs', hv'⟩
    · obtain ⟨pre, rfl⟩ := hv.exists_split
      exact ⟨b :: pre, rfl, List.mem_cons_self⟩
    · rw [hs, Option.some.injEq] at hs'
      obtain ⟨pre, rfl, hb⟩ := ih hstop (hs' ▸ hv')
      exact ⟨c :: pre, rfl, List.mem_cons_of_mem c hb⟩

/-! ## Simulations -/

section Simulation

variable {σ' α' : Type*} {step' : σ' → α' → Option σ'} {R : σ → σ' → Prop} {S : α → α' → Prop}
  (hstep : ∀ {s s' a a' m}, R s s' → S a a' → step s a = some m →
    ∃ m', step' s' a' = some m' ∧ R m m')

include hstep

/-- What a run visits, a run that follows it step by step visits too. -/
theorem Visits.simulate {s m : σ} {s' : σ'} {tr post : List α} {tr' : List α'} {a : α}
    (hv : Visits step s tr m a post) (hs : R s s') (htr : List.Forall₂ S tr tr') :
    ∃ m' a' post', Visits step' s' tr' m' a' post' ∧ R m m' ∧ S a a' ∧
      List.Forall₂ S post post' := by
  induction hv generalizing s' tr' with
  | here s a tr =>
    rcases htr with _ | @⟨_, a', _, post', ha, hpost⟩
    exact ⟨s', a', post', .here s' a' post', hs, ha, hpost⟩
  | later hdef _ ih =>
    rcases htr with _ | ⟨hb, hrest⟩
    obtain ⟨n', hn', hR⟩ := hstep hs hb hdef
    obtain ⟨m', a', post', hv', hm, ha, hpost⟩ := ih hR hrest
    exact ⟨m', a', post', .later hn' hv', hm, ha, hpost⟩

theorem run_simulate {s m : σ} {s' : σ'} {tr : List α} {tr' : List α'}
    (hrun : run step s tr = some m) (hs : R s s') (htr : List.Forall₂ S tr tr') :
    ∃ m', run step' s' tr' = some m' ∧ R m m' := by
  induction htr generalizing s s' with
  | nil =>
    rw [run_nil, Option.some.injEq] at hrun
    exact ⟨s', rfl, hrun ▸ hs⟩
  | cons ha _ ih =>
    obtain ⟨n, hn, hrun⟩ := run_cons_eq_some.mp hrun
    obtain ⟨n', hn', hR⟩ := hstep hs ha hn
    obtain ⟨m', hm', hmR⟩ := ih hrun hR
    exact ⟨m', run_cons_eq_some.mpr ⟨n', hn', hm'⟩, hmR⟩

end Simulation

end Run

end ArgusMcp
