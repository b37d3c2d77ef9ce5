import ArgusMcp.Library.Value
import Mathlib.Tactic.Common

/-!
# Loops that may raise

A loop goes through a list, changes a state with each item and collects what the items yield. An
item may raise an exception: then the loop ends, what was collected is lost, and the state is left
as it is at that moment.

What is true of the state where a loop raises depends on the item that raises and on the state
before it. `Guarded` says of all items that the loop comes to that they meet a condition in the
state they meet, and `forall_error_iff_guarded` that this is exact.
-/

namespace ArgusMcp

namespace Loop

variable {σ τ X X' Y E : Type}

/-- The loop, with the state it leaves and what it has collected. -/
def loop (body : σ → X → σ × Except E Y) : σ → List X → σ × Except E (List Y)
  | s, [] => (s, .ok [])
  | s, x :: xs =>
    match body s x with
    | (m, .error e) => (m, .error e)
    | (m, .ok y) => ((loop body m xs).1, (loop body m xs).2.map (y :: ·))

/-- One loop after another. The second one is not entered if the first one raises. -/
def andThen (r : σ × Except E (List Y)) (f : σ → σ × Except E (List Y)) : σ × Except E (List Y) :=
  match r with
  | (m, .error e) => (m, .error e)
  | (m, .ok ys) => ((f m).1, (f m).2.map (ys ++ ·))

/-- Every item the loop comes to meets the guard in the state it is met in. -/
def Guarded (body : σ → X → σ × Except E Y) (ok : σ → X → Prop) : σ → List X → Prop
  | _, [] => True
  | s, x :: xs => ok s x ∧ match body s x with
    | (_, .error _) => True
    | (m, .ok _) => Guarded body ok m xs

variable {body : σ → X → σ × Except E Y} {s m : σ} {x : X} {y : Y} {e : E} {xs : List X}

@[simp] theorem loop_nil (s : σ) : loop body s [] = (s, .ok []) := rfl

theorem loop_cons_of_error (h : body s x = (m, .error e)) :
    loop body s (x :: xs) = (m, .error e) := by
  rw [loop, h]

theorem loop_cons_of_ok (h : body s x = (m, .ok y)) :
    loop body s (x :: xs) = ((loop body m xs).1, (loop body m xs).2.map (y :: ·)) := by
  rw [loop, h]

theorem guarded_cons_of_error {ok : σ → X → Prop} (h : body s x = (m, .error e)) :
    Guarded body ok s (x :: xs) ↔ ok s x := by
  rw [Guarded, h, and_iff_left trivial]

theorem guarded_cons_of_ok {ok : σ → X → Prop} (h : body s x = (m, .ok y)) :
    Guarded body ok s (x :: xs) ↔ ok s x ∧ Guarded body ok m xs := by
  rw [Guarded, h]

theorem loop_append (body : σ → X → σ × Except E Y) (s : σ) (xs xs' : List X) :
    loop body s (xs ++ xs') = andThen (loop body s xs) fun m ↦ loop body m xs' := by
  induction xs generalizing s with
  | nil =>
    rw [List.nil_append, loop_nil, andThen]
    rcases loop body s xs' with ⟨m, e | ys⟩
    · rfl
    · rfl
  | cons x xs ih =>
    rw [List.cons_append]
    rcases hbody : body s x with ⟨m, e | y⟩
    · rw [loop_cons_of_error hbody, loop_cons_of_error hbody, andThen]
    · rw [loop_cons_of_ok hbody, loop_cons_of_ok hbody, ih]
      rcases loop body m xs with ⟨n, e | ys⟩
      · rfl
      · rw [andThen, Except.map, andThen]
        rcases loop body n xs' with ⟨o, e | zs⟩
        · rfl
        · rfl

/-- Two loops that keep their states in step end in the same way. -/
theorem loop_map {body' : τ → X' → τ × Except E Y} {f : X → X'} {R : σ → τ → Prop}
    (h : ∀ s t x, R s t → R (body s x).1 (body' t (f x)).1 ∧ (body s x).2 = (body' t (f x)).2)
    {s : σ} {t : τ} (hst : R s t) (xs : List X) :
    R (loop body s xs).1 (loop body' t (xs.map f)).1 ∧
      (loop body s xs).2 = (loop body' t (xs.map f)).2 := by
  induction xs generalizing s t with
  | nil => exact ⟨hst, rfl⟩
  | cons x xs ih =>
    obtain ⟨hR, heq⟩ := h s t x hst
    rw [List.map_cons]
    rcases hbody : body s x with ⟨m, e | y⟩
    · rw [hbody] at hR heq
      have hbody' : body' t (f x) = ((body' t (f x)).1, .error e) := Prod.ext rfl heq.symm
      rw [loop_cons_of_error hbody, loop_cons_of_error hbody']
      exact ⟨hR, rfl⟩
    · rw [hbody] at hR heq
      have hbody' : body' t (f x) = ((body' t (f x)).1, .ok y) := Prod.ext rfl heq.symm
      rw [loop_cons_of_ok hbody, loop_cons_of_ok hbody']
      obtain ⟨hrest, hyields⟩ := ih hR
      rw [hyields]
      exact ⟨hrest, rfl⟩

theorem andThen_agree {R S : σ → τ → Prop} {r : σ × Except E (List Y)} {r' : τ × Except E (List Y)}
    (hr : R r.1 r'.1 ∧ r.2 = r'.2) (hRS : ∀ s t, R s t → S s t)
    {f : σ → σ × Except E (List Y)} {g : τ → τ × Except E (List Y)}
    (h : ∀ s t, R s t → S (f s).1 (g t).1 ∧ (f s).2 = (g t).2) :
    S (andThen r f).1 (andThen r' g).1 ∧ (andThen r f).2 = (andThen r' g).2 := by
  obtain ⟨m, ys⟩ := r
  obtain ⟨m', ys'⟩ := r'
  obtain ⟨hR, rfl⟩ := hr
  cases ys with
  | error e => exact ⟨hRS m m' hR, rfl⟩
  | ok ys =>
    obtain ⟨hS, heq⟩ := h m m' hR
    exact ⟨hS, congrArg (Except.map (ys ++ ·)) heq⟩

theorem Guarded.imp {ok ok' : σ → X → Prop} (h : ∀ s x, ok s x → ok' s x)
    (hok : Guarded body ok s xs) : Guarded body ok' s xs := by
  induction xs generalizing s with
  | nil => trivial
  | cons x xs ih =>
    rcases hbody : body s x with ⟨m, e | y⟩
    · rw [guarded_cons_of_error hbody] at hok ⊢
      exact h s x hok
    · rw [guarded_cons_of_ok hbody] at hok ⊢
      exact ⟨h s x hok.1, ih hok.2⟩

theorem Guarded.and {ok ok' : σ → X → Prop} (hok : Guarded body ok s xs)
    (hok' : Guarded body ok' s xs) : Guarded body (fun s x ↦ ok s x ∧ ok' s x) s xs := by
  induction xs generalizing s with
  | nil => trivial
  | cons x xs ih =>
    rcases hbody : body s x with ⟨m, e | y⟩
    · rw [guarded_cons_of_error hbody] at hok hok' ⊢
      exact ⟨hok, hok'⟩
    · rw [guarded_cons_of_ok hbody] at hok hok' ⊢
      exact ⟨⟨hok.1, hok'.1⟩, ih hok.2 hok'.2⟩

theorem guarded_of_forall {ok : X → Prop} (hok : ∀ x ∈ xs, ok x) (s : σ) :
    Guarded body (fun _ ↦ ok) s xs := by
  induction xs generalizing s with
  | nil => trivial
  | cons x xs ih =>
    obtain ⟨hx, hxs⟩ := List.forall_mem_cons.mp hok
    rcases hbody : body s x with ⟨m, e | y⟩
    · exact (guarded_cons_of_error hbody).mpr hx
    · exact (guarded_cons_of_ok hbody).mpr ⟨hx, ih hxs m⟩

/-- What one item leaves is left by the whole loop, however it ends. -/
theorem invariant_of_guarded {Inv : σ → Prop} {ok : σ → X → Prop}
    (hstep : ∀ s x, Inv s → ok s x → Inv (body s x).1) (hs : Inv s)
    (hok : Guarded body ok s xs) : Inv (loop body s xs).1 := by
  induction xs generalizing s with
  | nil => exact hs
  | cons x xs ih =>
    rcases hbody : body s x with ⟨m, e | y⟩
    · rw [guarded_cons_of_error hbody] at hok
      have hnext := hstep s x hs hok
      rw [hbody] at hnext
      rw [loop_cons_of_error hbody]
      exact hnext
    · rw [guarded_cons_of_ok hbody] at hok
      have hnext := hstep s x hs hok.1
      rw [hbody] at hnext
      rw [loop_cons_of_ok hbody]
      exact ih hnext hok.2

theorem invariant_of_loop {Inv : σ → Prop} {ok : X → Prop}
    (hstep : ∀ s x, Inv s → ok x → Inv (body s x).1) (hs : Inv s) (hok : ∀ x ∈ xs, ok x) :
    Inv (loop body s xs).1 :=
  invariant_of_guarded hstep hs (guarded_of_forall hok s)

/-- A loop raises exactly if an item that it comes to does. -/
theorem exists_ok_iff_guarded (s : σ) (xs : List X) :
    (∃ ys, (loop body s xs).2 = .ok ys) ↔
      Guarded body (fun s x ↦ ¬ ∃ e, (body s x).2 = .error e) s xs := by
  induction xs generalizing s with
  | nil => exact iff_of_true ⟨[], rfl⟩ trivial
  | cons x xs ih =>
    rcases hbody : body s x with ⟨m, e | y⟩
    · rw [loop_cons_of_error hbody, guarded_cons_of_error hbody, hbody]
      simp
    · have hok : ¬ ∃ e : E, (Except.ok y : Except E Y) = .error e := by simp
      rw [loop_cons_of_ok hbody, guarded_cons_of_ok hbody, hbody, ← ih m, and_iff_right hok]
      rcases (loop body m xs).2 with e | ys
      · simp [Except.map]
      · simp [Except.map]

/-- Two loops over the same items yield the same. The relation between their states may depend on
the items that are left. -/
theorem results_agree {body' : τ → X → τ × Except E Y} {R : List X → σ → τ → Prop}
    (h : ∀ x xs s t, R (x :: xs) s t →
      (body s x).2 = (body' t x).2 ∧ R xs (body s x).1 (body' t x).1) {t : τ} (hst : R xs s t) :
    (loop body s xs).2 = (loop body' t xs).2 := by
  induction xs generalizing s t with
  | nil => rfl
  | cons x xs ih =>
    obtain ⟨heq, hR⟩ := h x xs s t hst
    rcases hbody : body s x with ⟨m, e | y⟩
    · rw [hbody] at heq
      have hbody' : body' t x = ((body' t x).1, .error e) := Prod.ext rfl heq.symm
      rw [loop_cons_of_error hbody, loop_cons_of_error hbody']
    · rw [hbody] at heq hR
      have hbody' : body' t x = ((body' t x).1, .ok y) := Prod.ext rfl heq.symm
      rw [loop_cons_of_ok hbody, loop_cons_of_ok hbody', ih hR]

/-- The rule for what an item has achieved: it holds in the end if the later items keep it. -/
theorem forall₂_of_pairwise {Inv : σ → Prop} {ok : X → Prop} {P : σ → X → Y → Prop}
    {C : X → X → Prop}
    (hInv : ∀ s x, Inv s → ok x → Inv (body s x).1)
    (hstep : ∀ s x m y, Inv s → ok x → body s x = (m, .ok y) → P m x y)
    (hkeep : ∀ s x y z, Inv s → ok z → C x z → P s x y → P (body s z).1 x y) {ys : List Y}
    (hs : Inv s) (hok : ∀ x ∈ xs, ok x) (hxs : xs.Pairwise C)
    (h : (loop body s xs).2 = .ok ys) : List.Forall₂ (P (loop body s xs).1) xs ys := by
  induction xs generalizing s ys with
  | nil =>
    obtain rfl := Except.ok.inj h
    exact .nil
  | cons x xs ih =>
    obtain ⟨hx, hxs'⟩ := List.forall_mem_cons.mp hok
    obtain ⟨hC, hpairwise⟩ := List.pairwise_cons.mp hxs
    rcases hbody : body s x with ⟨m, e | y⟩
    · rw [loop_cons_of_error hbody] at h
      exact absurd h (by simp)
    · rw [loop_cons_of_ok hbody] at h ⊢
      obtain ⟨zs, hrest, rfl⟩ := map_eq_ok_iff.mp h
      have hm := hInv s x hs hx
      rw [hbody] at hm
      refine .cons ?_ (ih hm hxs' hpairwise hrest)
      have hkept : ∀ s z, Inv s ∧ P s x y → ok z ∧ C x z →
          Inv (body s z).1 ∧ P (body s z).1 x y :=
        fun s z hs hz ↦ ⟨hInv s z hs.1 hz.1, hkeep s x y z hs.1 hz.1 hz.2 hs.2⟩
      exact (invariant_of_loop hkept ⟨hm, hstep s x m y hs hx hbody⟩
        fun z hz ↦ ⟨hxs' z hz, hC z hz⟩).2

/-- **What holds where a loop raises** is decided by the items that raise. -/
theorem forall_error_iff_guarded {Q : σ → Prop} (s : σ) (xs : List X) :
    (∀ e, (loop body s xs).2 = .error e → Q (loop body s xs).1) ↔
      Guarded body (fun s x ↦ ∀ e, (body s x).2 = .error e → Q (body s x).1) s xs := by
  induction xs generalizing s with
  | nil => exact iff_of_true (fun e h ↦ absurd h (by simp)) trivial
  | cons x xs ih =>
    rcases hbody : body s x with ⟨m, e | y⟩
    · rw [loop_cons_of_error hbody, guarded_cons_of_error hbody, hbody]
      refine forall_congr' fun e' ↦ imp_congr_left ?_
      rw [Except.error.injEq, Except.error.injEq]
    · rw [loop_cons_of_ok hbody, guarded_cons_of_ok hbody, hbody]
      have hfirst : ∀ e : E, (Except.ok y : Except E Y) = .error e → Q m :=
        fun e h ↦ absurd h (by simp)
      rw [and_iff_right hfirst, ← ih m]
      refine forall_congr' fun e ↦ imp_congr_left ?_
      rcases (loop body m xs).2 with e' | ys
      · simp [Except.map]
      · simp [Except.map]

/-- Guards that say the same of every item in the states that can be met. -/
theorem guarded_congr {Inv : σ → Prop} {ok ok' : σ → X → Prop}
    (hstep : ∀ s x m y, Inv s → body s x = (m, .ok y) → Inv m)
    (h : ∀ s x, Inv s → (ok s x ↔ ok' s x)) (hs : Inv s) :
    Guarded body ok s xs ↔ Guarded body ok' s xs := by
  induction xs generalizing s with
  | nil => exact Iff.rfl
  | cons x xs ih =>
    rcases hbody : body s x with ⟨m, e | y⟩
    · rw [guarded_cons_of_error hbody, guarded_cons_of_error hbody, h s x hs]
    · rw [guarded_cons_of_ok hbody, guarded_cons_of_ok hbody, h s x hs,
        ih (hstep s x m y hs hbody)]

theorem forall₂_of_loop {ys : List Y} (h : (loop body s xs).2 = .ok ys) :
    List.Forall₂ (fun x y ↦ ∃ s, (body s x).2 = .ok y) xs ys := by
  induction xs generalizing s ys with
  | nil =>
    obtain rfl := Except.ok.inj h
    exact .nil
  | cons x xs ih =>
    rcases hbody : body s x with ⟨m, e | y⟩
    · rw [loop_cons_of_error hbody] at h
      exact absurd h (by simp)
    · rw [loop_cons_of_ok hbody] at h
      obtain ⟨zs, hrest, rfl⟩ := map_eq_ok_iff.mp h
      exact .cons ⟨s, congrArg Prod.snd hbody⟩ (ih hrest)

end Loop

end ArgusMcp
