import ArgusMcp.Library.Run

/-!
# Interleavings of tasks that only read what they share

A pool holds tasks and a state they share. Each task goes in segments; a schedule says whose segment
comes next, and a segment may change the shared state, move its own task on and put something into
the log. A task has ended when it has no further segment.

Segments that leave the shared state alone cannot disturb one another. Whatever the schedule,
every task then goes exactly as far as it would have gone by itself, with the same output
(`advances_of_run`), so that two schedules under which all tasks end leave the same tasks and, task
by task, the same output behind. A pool whose tasks end by themselves has such a schedule
(`exists_schedule`).
-/

namespace ArgusMcp

namespace Interleave

variable {σ τ β : Type*}

/-- A state, the tasks that share it, and what they have put out so far, each output with the
position of its task. -/
structure Pool (σ τ β : Type*) where
  shared : σ
  tasks : List τ
  log : List (ℕ × β)

variable (next : σ → τ → Option (σ × τ × List β))

/-- The next segment of the task at a position. -/
def segment (pool : Pool σ τ β) (i : ℕ) : Option (Pool σ τ β) :=
  pool.tasks[i]?.bind fun t ↦ (next pool.shared t).map fun (s, t', out) ↦
    ⟨s, pool.tasks.set i t', pool.log ++ out.map fun b ↦ (i, b)⟩

/-- Nothing is left to do. -/
def Pool.Ended (pool : Pool σ τ β) : Prop := ∀ t ∈ pool.tasks, next pool.shared t = none

/-- The segments write to their task and to the log only. -/
def ReadOnly : Prop := ∀ s t s' t' out, next s t = some (s', t', out) → s' = s

/-- The output of the task at a position. -/
def outputOf (i : ℕ) (log : List (ℕ × β)) : List β :=
  log.filterMap fun e ↦ if e.1 = i then some e.2 else none

/-- What a task does by itself. -/
inductive Advances (s : σ) : τ → τ → List β → Prop
  | refl (t : τ) : Advances s t t []
  | head {t t' t'' : τ} {out outs : List β} (h : next s t = some (s, t', out))
      (h' : Advances s t' t'' outs) : Advances s t t'' (out ++ outs)

variable {next}

theorem outputOf_append (i : ℕ) (log log' : List (ℕ × β)) :
    outputOf i (log ++ log') = outputOf i log ++ outputOf i log' := List.filterMap_append

theorem outputOf_map_self (i : ℕ) (out : List β) :
    outputOf i (out.map fun b ↦ (i, b)) = out := by
  rw [outputOf, List.filterMap_map]
  simp

theorem outputOf_map_of_ne {i j : ℕ} (h : j ≠ i) (out : List β) :
    outputOf i (out.map fun b ↦ (j, b)) = [] := by
  rw [outputOf, List.filterMap_map]
  simp [h]

theorem mem_outputOf {i : ℕ} {b : β} {log : List (ℕ × β)} : b ∈ outputOf i log ↔ (i, b) ∈ log := by
  rw [outputOf, List.mem_filterMap]
  constructor
  · rintro ⟨⟨j, b'⟩, he, h⟩
    dsimp only at h
    by_cases hj : j = i
    · rw [if_pos hj, Option.some.injEq] at h
      exact hj ▸ h ▸ he
    · rw [if_neg hj] at h
      exact absurd h (Option.some_ne_none b).symm
  · intro h
    exact ⟨(i, b), h, if_pos rfl⟩

/-- When the outputs carry a key that tells the tasks apart, the output of a task can be read off
the log without the positions. -/
theorem filter_log {κ : Type*} [DecidableEq κ] (key : β → κ) {keys : List κ} (hkeys : keys.Nodup)
    {log : List (ℕ × β)} (hlog : ∀ e ∈ log, keys[e.1]? = some (key e.2)) {i : ℕ} {k : κ}
    (hi : keys[i]? = some k) : (log.map Prod.snd).filter (fun b ↦ key b = k) = outputOf i log := by
  have hiff : ∀ e ∈ log, (key e.2 = k ↔ e.1 = i) := by
    intro e he
    constructor
    · intro hk
      refine (List.getElem?_inj (List.getElem?_eq_some_iff.mp (hlog e he)).1 hkeys).mp ?_
      rw [hlog e he, hi, hk]
    · intro heq
      have hei := hlog e he
      rw [heq, hi, Option.some.injEq] at hei
      exact hei.symm
  rw [outputOf, List.filter_map, ← List.filterMap_eq_map, List.filterMap_filter]
  refine List.filterMap_congr fun e he ↦ ?_
  by_cases hk : key e.2 = k
  · rw [if_pos ((hiff e he).mp hk)]
    simp [hk]
  · rw [if_neg (mt (hiff e he).mpr hk)]
    simp [hk]

theorem segment_eq_some_iff (hread : ReadOnly next) {pool pool' : Pool σ τ β} {i : ℕ} :
    segment next pool i = some pool' ↔ ∃ t t' out, pool.tasks[i]? = some t ∧
      next pool.shared t = some (pool.shared, t', out) ∧
      pool' = ⟨pool.shared, pool.tasks.set i t', pool.log ++ out.map fun b ↦ (i, b)⟩ := by
  simp only [segment, Option.bind_eq_some_iff, Option.map_eq_some_iff, Prod.exists]
  constructor
  · rintro ⟨t, ht, s, t', out, hnext, rfl⟩
    obtain rfl := hread _ _ _ _ _ hnext
    exact ⟨t, t', out, ht, hnext, rfl⟩
  · rintro ⟨t, t', out, ht, hnext, rfl⟩
    exact ⟨t, ht, _, t', out, hnext, rfl⟩

/-- **Tasks do not disturb one another.** After any schedule the shared state is what it was, and
the task at a position, with its output, is where it could have got by itself. -/
theorem advances_of_run (hread : ReadOnly next) {sched : List ℕ} {pool pool' : Pool σ τ β}
    (hrun : Run.run (segment next) pool sched = some pool') :
    pool'.shared = pool.shared ∧ pool'.tasks.length = pool.tasks.length ∧
      ∀ i t, pool.tasks[i]? = some t → ∃ t' outs, pool'.tasks[i]? = some t' ∧
        Advances next pool.shared t t' outs ∧
        outputOf i pool'.log = outputOf i pool.log ++ outs := by
  induction sched generalizing pool with
  | nil =>
    rw [Run.run_nil, Option.some.injEq] at hrun
    subst hrun
    exact ⟨rfl, rfl, fun i t ht ↦ ⟨t, [], ht, .refl t, (List.append_nil _).symm⟩⟩
  | cons j sched ih =>
    obtain ⟨m, hm, hrun⟩ := Run.run_cons_eq_some.mp hrun
    obtain ⟨u, u', out, hu, hnext, rfl⟩ := (segment_eq_some_iff hread).mp hm
    obtain ⟨hshared, hlength, htasks⟩ := ih hrun
    -- the task that takes the first step has this step before its others
    refine ⟨hshared, hlength.trans (List.length_set ..), fun i t ht ↦ ?_⟩
    by_cases hij : j = i
    · subst hij
      rw [hu, Option.some.injEq] at ht
      subst ht
      have hset : (pool.tasks.set j u')[j]? = some u' :=
        List.getElem?_set_self (List.getElem?_eq_some_iff.mp hu).1
      obtain ⟨t'', outs, ht'', hadv, hout⟩ := htasks j u' hset
      refine ⟨t'', out ++ outs, ht'', .head hnext hadv, ?_⟩
      rw [hout, outputOf_append, outputOf_map_self, List.append_assoc]
    · have hset : (pool.tasks.set j u')[i]? = some t := by
        rw [List.getElem?_set_ne hij, ht]
      obtain ⟨t'', outs, ht'', hadv, hout⟩ := htasks i t hset
      refine ⟨t'', outs, ht'', hadv, ?_⟩
      rw [hout, outputOf_append, outputOf_map_of_ne hij, List.append_nil]

/-- The log of a run holds nothing but the output of its tasks. -/
theorem fst_lt_of_mem_log (hread : ReadOnly next) {sched : List ℕ} {pool pool' : Pool σ τ β}
    (hlog : ∀ e ∈ pool.log, e.1 < pool.tasks.length)
    (hrun : Run.run (segment next) pool sched = some pool') :
    ∀ e ∈ pool'.log, e.1 < pool'.tasks.length := by
  let Inv : Pool σ τ β → Prop := fun pool ↦ ∀ e ∈ pool.log, e.1 < pool.tasks.length
  refine @Run.inv_of_run _ _ (segment next) Inv ?_ _ _ _ hlog hrun
  intro pool i pool' hpool hstep
  obtain ⟨t, t', out, ht, -, rfl⟩ := (segment_eq_some_iff hread).mp hstep
  intro e he
  rw [List.length_set]
  rcases List.mem_append.mp he with he | he
  · exact hpool e he
  · obtain ⟨b, -, rfl⟩ := List.mem_map.mp he
    exact (List.getElem?_eq_some_iff.mp ht).1

/-! ## Schedules under which all tasks end -/

/-- The task ends by itself, as `t'` and with the output `outs`. -/
def EndsAs (next : σ → τ → Option (σ × τ × List β)) (s : σ) (t t' : τ) (outs : List β) : Prop :=
  Advances next s t t' outs ∧ next s t' = none

/-- A task that ends does so from wherever it has got to, with what is left of its output. -/
theorem Advances.exists_endsAs {s : σ} {t t₁ t₂ : τ} {outs₁ outs₂ : List β}
    (h : Advances next s t t₁ outs₁) (hend : EndsAs next s t t₂ outs₂) :
    ∃ outs, EndsAs next s t₁ t₂ outs ∧ outs₂ = outs₁ ++ outs := by
  induction h generalizing outs₂ with
  | refl => exact ⟨outs₂, hend, rfl⟩
  | head hnext _ ih =>
    obtain ⟨hadv, hnone⟩ := hend
    rcases hadv with _ | ⟨hnext', hadv⟩
    · rw [hnext] at hnone
      exact absurd hnone (Option.some_ne_none _)
    · rw [hnext, Option.some.injEq, Prod.mk.injEq, Prod.mk.injEq] at hnext'
      obtain ⟨-, rfl, rfl⟩ := hnext'
      obtain ⟨outs, hends, rfl⟩ := ih ⟨hadv, hnone⟩
      exact ⟨outs, hends, (List.append_assoc _ _ _).symm⟩

theorem EndsAs.unique {s : σ} {t t₁ t₂ : τ} {outs₁ outs₂ : List β}
    (h₁ : EndsAs next s t t₁ outs₁) (h₂ : EndsAs next s t t₂ outs₂) :
    t₁ = t₂ ∧ outs₁ = outs₂ := by
  obtain ⟨outs, ⟨hadv, -⟩, rfl⟩ := h₁.1.exists_endsAs h₂
  rcases hadv with _ | ⟨hnext, -⟩
  · exact ⟨rfl, (List.append_nil _).symm⟩
  · rw [h₁.2] at hnext
    exact absurd hnext (Option.some_ne_none _).symm

/-- One task can be run to its end while the others wait. -/
theorem exists_schedule_of_advances (hread : ReadOnly next) {s : σ} {t t' : τ} {outs : List β}
    (h : Advances next s t t' outs) {tasks : List τ} {i : ℕ} (ht : tasks[i]? = some t)
    (log : List (ℕ × β)) : ∃ sched, Run.run (segment next) ⟨s, tasks, log⟩ sched
      = some ⟨s, tasks.set i t', log ++ outs.map fun b ↦ (i, b)⟩ := by
  induction h generalizing tasks log with
  | refl t =>
    refine ⟨[], ?_⟩
    have hset : tasks.set i t = tasks := by
      obtain ⟨hi, rfl⟩ := List.getElem?_eq_some_iff.mp ht
      exact List.set_getElem_self hi
    rw [Run.run_nil, hset, List.map_nil, List.append_nil]
  | @head t t₁ t₂ out outs hnext _ ih =>
    have hlt : i < tasks.length := (List.getElem?_eq_some_iff.mp ht).1
    obtain ⟨sched, hsched⟩ := ih (List.getElem?_set_self hlt)
      (log ++ out.map fun b ↦ (i, b))
    refine ⟨i :: sched, Run.run_cons_eq_some.mpr ⟨_, (segment_eq_some_iff hread).mpr
      ⟨t, t₁, out, ht, hnext, rfl⟩, ?_⟩⟩
    rw [hsched, List.set_set, List.append_assoc, ← List.map_append]

/-- The tasks before position `k` are run to their ends, and the others wait. -/
theorem exists_schedule_upTo (hread : ReadOnly next) {pool : Pool σ τ β}
    (hends : ∀ t ∈ pool.tasks, ∃ t' outs, EndsAs next pool.shared t t' outs) {k : ℕ}
    (hk : k ≤ pool.tasks.length) : ∃ sched tasks log,
      Run.run (segment next) pool sched = some ⟨pool.shared, tasks, log⟩ ∧
        (∀ i t, i < k → tasks[i]? = some t → next pool.shared t = none) ∧
        ∀ i, k ≤ i → tasks[i]? = pool.tasks[i]? := by
  induction k with
  | zero =>
    exact ⟨[], pool.tasks, pool.log, rfl, fun i t hi ↦ absurd hi i.not_lt_zero, fun _ _ ↦ rfl⟩
  | succ k ih =>
    -- the first `k` tasks have ended; the next one goes on alone until it has too
    obtain ⟨sched, tasks, log, hrun, hdone, hrest⟩ := ih (Nat.le_of_succ_le hk)
    have ht : tasks[k]? = some (pool.tasks.get ⟨k, hk⟩) :=
      (hrest k k.le_refl).trans (List.getElem?_eq_getElem hk)
    obtain ⟨t', outs, hadv, hnone⟩ := hends _ (List.get_mem pool.tasks ⟨k, hk⟩)
    obtain ⟨sched', hsched'⟩ := exists_schedule_of_advances hread hadv ht log
    refine ⟨sched ++ sched', tasks.set k t', log ++ outs.map fun b ↦ (k, b), ?_, ?_, ?_⟩
    · rw [Run.run_append, hrun, Option.bind_some, hsched']
    · intro i t hi hti
      by_cases hik : k = i
      · subst hik
        rw [List.getElem?_set_self (List.getElem?_eq_some_iff.mp ht).1,
          Option.some.injEq] at hti
        exact hti ▸ hnone
      · rw [List.getElem?_set_ne hik] at hti
        exact hdone i t (by omega) hti
    · intro i hi
      rw [List.getElem?_set_ne (by omega)]
      exact hrest i (Nat.le_of_succ_le hi)

/-- **Tasks that end can be scheduled to**, one after another. -/
theorem exists_schedule (hread : ReadOnly next) {pool : Pool σ τ β}
    (hends : ∀ t ∈ pool.tasks, ∃ t' outs, EndsAs next pool.shared t t' outs) :
    ∃ sched pool', Run.run (segment next) pool sched = some pool' ∧ pool'.Ended next := by
  obtain ⟨sched, tasks, log, hrun, hdone, -⟩ :=
    exists_schedule_upTo hread hends (Nat.le_refl pool.tasks.length)
  refine ⟨sched, _, hrun, fun t ht ↦ ?_⟩
  obtain ⟨i, hi, rfl⟩ := List.mem_iff_getElem.mp ht
  refine hdone i _ ?_ (List.getElem?_eq_getElem hi)
  rwa [← (advances_of_run hread hrun).2.1]

/-- No schedule goes astray: whatever has been done so far, all tasks can still end. -/
theorem exists_schedule_of_run (hread : ReadOnly next) {pool pool' : Pool σ τ β} {sched : List ℕ}
    (hends : ∀ t ∈ pool.tasks, ∃ t' outs, EndsAs next pool.shared t t' outs)
    (hrun : Run.run (segment next) pool sched = some pool') :
    ∃ sched' pool'', Run.run (segment next) pool (sched ++ sched') = some pool'' ∧
      pool''.Ended next := by
  obtain ⟨hshared, hlength, htasks⟩ := advances_of_run hread hrun
  have hends' : ∀ t ∈ pool'.tasks, ∃ t' outs, EndsAs next pool'.shared t t' outs := by
    intro t ht
    obtain ⟨i, hi, rfl⟩ := List.mem_iff_getElem.mp ht
    have hi' : i < pool.tasks.length := hlength ▸ hi
    obtain ⟨t', outs, ht', hadv, -⟩ := htasks i _ (List.getElem?_eq_getElem hi')
    rw [List.getElem?_eq_getElem hi, Option.some.injEq] at ht'
    obtain ⟨t'', outs', hend⟩ := hends _ (List.getElem_mem hi')
    obtain ⟨outs'', hend', -⟩ := hadv.exists_endsAs hend
    exact ⟨t'', outs'', by rwa [ht', hshared]⟩
  obtain ⟨sched', pool'', hrun', hended⟩ := exists_schedule hread hends'
  refine ⟨sched', pool'', ?_, hended⟩
  rw [Run.run_append, hrun, Option.bind_some, hrun']

/-- **All schedules agree.** Once all tasks have ended, each of them and its output are what they
would be if it had been alone. -/
theorem endsAs_of_run (hread : ReadOnly next) {sched : List ℕ} {pool pool' : Pool σ τ β}
    (hlog : pool.log = []) (hrun : Run.run (segment next) pool sched = some pool')
    (hended : pool'.Ended next) {i : ℕ} {t : τ} (ht : pool.tasks[i]? = some t) :
    ∃ t', pool'.tasks[i]? = some t' ∧ EndsAs next pool.shared t t' (outputOf i pool'.log) := by
  obtain ⟨hshared, -, htasks⟩ := advances_of_run hread hrun
  obtain ⟨t', outs, ht', hadv, hout⟩ := htasks i t ht
  rw [hlog] at hout
  refine ⟨t', ht', hout ▸ hadv, ?_⟩
  rw [← hshared]
  exact hended t' (List.mem_of_getElem? ht')

end Interleave

end ArgusMcp
