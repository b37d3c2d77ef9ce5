import ArgusMcp.Library.Run
import Mathlib.Algebra.GroupWithZero.Nat

/-!
# The watcher of the config file

`ConfigWatcher` (`config/watcher.py`) looks at the modification time of the config file again and
again. When the time is another one than the last it has seen, it sleeps once more, so that the
writes of an editor are over, and looks again: if nothing has changed since, it calls `on_change`.
If something has, it goes back to polling.

The loop is suspended in three places, in the two sleeps and in the callback, and the file may be
written in each of them.

## What is lost

Before it goes back to polling, the loop takes the new time for the last one seen. So the next poll
finds no change, and the last write is never followed by a call. This is the only way a write is
missed (`noLostChange_iff`).
-/

namespace ArgusMcp

namespace Watcher

/-! ## The watcher -/

/-- Where the loop is suspended. -/
inductive Phase (M : Type*) where
  /-- In the sleep between polls. -/
  | polling
  /-- In the sleep after a change, with the time that was read. -/
  | debouncing (mtime : M)
  /-- In the callback. -/
  | calling
  deriving DecidableEq, Repr

/-- The watcher and its file. Times of modification are of any type; zero stands for a file that is
missing. -/
structure ConfigWatcher (M : Type*) where
  lastMtime : M
  stopEvent : Bool
  /-- The loop, unless it has ended or was never started. -/
  task : Option (Phase M)
  fileMtime : M
  /-- Whether `os.stat` finds the file. -/
  accessible : Bool
  /-- Ghost: the times the file has had, and zero. -/
  seen : List M
  /-- Ghost: what the last `start` that began a loop has read. -/
  startMtime : Option M
  /-- Ghost: the callback was called after the last modification. -/
  called : Bool
  deriving DecidableEq, Repr

/-- A call of the watcher, a time at which the loop goes on, or something that happens to the
file. -/
inductive Event (M : Type*) where
  | modify (mtime : M)
  | access (accessible : Bool)
  | start
  | stop
  /-- The loop has ended, and `stop` returns. -/
  | stopReturns
  /-- The sleep between polls is over. -/
  | poll
  /-- The sleep after a change is over. -/
  | recheck
  /-- The callback returns, or raises an exception that the loop logs. -/
  | callbackReturns
  /-- The callback raises what is no `Exception`, and the loop ends. -/
  | callbackCancelled
  deriving DecidableEq, Repr

namespace ConfigWatcher

variable {M : Type*} [Zero M]

/-- A new watcher, of a file that has a modification time or is missing. -/
def new (fileMtime : M) : ConfigWatcher M where
  lastMtime := 0
  stopEvent := false
  task := none
  fileMtime := fileMtime
  accessible := true
  seen := [0, fileMtime]
  startMtime := none
  called := false

def currentMtime (w : ConfigWatcher M) : M := if w.accessible then w.fileMtime else 0

variable [DecidableEq M] (w : ConfigWatcher M)

/-- The file is written. Every write gives a time that it has not had. -/
def modify (mtime : M) : Option (ConfigWatcher M) :=
  if mtime ∈ w.seen then none
  else some { w with fileMtime := mtime, seen := mtime :: w.seen, called := false }

def start : ConfigWatcher M :=
  if w.task.isSome then w
  else
    { w with
      stopEvent := false
      lastMtime := w.currentMtime
      task := some .polling
      startMtime := some w.currentMtime }

/-- `stop`, up to where it waits for the loop, which it has cancelled. -/
def stop : ConfigWatcher M := { w with stopEvent := true }

/-- The loop after the sleep between polls. -/
def poll : ConfigWatcher M :=
  -- a file that cannot be looked at is passed over
  if w.currentMtime = 0 then w
  else if w.currentMtime ≠ w.lastMtime then
    { w with lastMtime := w.currentMtime, task := some (.debouncing w.currentMtime) }
  else w

/-- The loop after the sleep that follows a change. -/
def recheck (mtime : M) : ConfigWatcher M :=
  if w.currentMtime ≠ mtime then
    { w with lastMtime := w.currentMtime, task := some .polling }
  else { w with task := some .calling, called := true }

/-- What can happen. A loop that was cancelled does not go on. -/
def step : Event M → Option (ConfigWatcher M)
  | .modify mtime => w.modify mtime
  | .access accessible => some { w with accessible := accessible }
  | .start => some w.start
  | .stop => some w.stop
  | .stopReturns => if w.stopEvent then some { w with task := none } else none
  | .poll => if w.task = some .polling ∧ w.stopEvent = false then some w.poll else none
  | .recheck =>
    match w.task with
    | some (.debouncing mtime) => if w.stopEvent then none else some (w.recheck mtime)
    | _ => none
  | .callbackReturns =>
    if w.task = some .calling ∧ w.stopEvent = false then some { w with task := some .polling }
    else none
  | .callbackCancelled => if w.task = some .calling then some { w with task := none } else none

/-! ## No change is lost -/

/-- Between polls, if the time of the file is the last one seen, then the callback was called after
the modification, or `start` has read this time. -/
def Triggered : Prop :=
  w.task = some .polling → w.currentMtime ≠ 0 → w.currentMtime = w.lastMtime →
    w.called = true ∨ w.startMtime = some w.currentMtime

/-- **No config change is lost** in a run from a new watcher. -/
def NoLostChange (fileMtime : M) (events : List (Event M)) : Prop :=
  ∀ pre w, pre <+: events → Run.run step (new fileMtime) pre = some w → w.Triggered

/-- If the loop looks again after a change, the file is as it was, or is missing. -/
def Undisturbed (ev : Event M) : Prop :=
  ∀ mtime, ev = .recheck → w.task = some (.debouncing mtime) → w.stopEvent = false →
    w.currentMtime = mtime ∨ w.currentMtime = 0

/-- What holds of the watcher whatever happens. -/
structure Inv (w : ConfigWatcher M) : Prop where
  zero_mem : 0 ∈ w.seen
  file_mem : w.fileMtime ∈ w.seen
  last_mem : w.lastMtime ∈ w.seen
  start_mem : ∀ mtime, w.startMtime = some mtime → mtime ∈ w.seen
  /-- A write during the second sleep was followed by no call. -/
  debouncing : ∀ mtime, w.task = some (.debouncing mtime) → mtime ≠ 0 ∧ w.lastMtime = mtime ∧
    (w.fileMtime ≠ mtime → w.called = false ∧ w.startMtime ≠ some w.fileMtime)
  calling : w.task = some .calling → w.fileMtime = w.lastMtime → w.called = true
  /-- A file that is out of sight may come back as it was. -/
  hidden : w.accessible = false → w.task = some .polling → w.fileMtime ≠ 0 →
    w.fileMtime = w.lastMtime → w.called = true ∨ w.startMtime = some w.fileMtime

variable {w} {w' : ConfigWatcher M}

omit [DecidableEq M] in
theorem Inv.new (fileMtime : M) : Inv (new fileMtime) where
  zero_mem := List.mem_cons_self
  file_mem := List.mem_cons_of_mem _ (List.mem_singleton_self fileMtime)
  last_mem := List.mem_cons_self
  start_mem := by simp [ConfigWatcher.new]
  debouncing := by simp [ConfigWatcher.new]
  calling := by simp [ConfigWatcher.new]
  hidden := by simp [ConfigWatcher.new]

omit [DecidableEq M] in
theorem currentMtime_eq (h : w.currentMtime ≠ 0) :
    w.accessible = true ∧ w.currentMtime = w.fileMtime := by
  rw [currentMtime] at h ⊢
  split at h
  · rename_i haccessible
    exact ⟨haccessible, if_pos haccessible⟩
  · exact absurd rfl h

omit [DecidableEq M] in
theorem Inv.current_mem (h : Inv w) : w.currentMtime ∈ w.seen := by
  rw [currentMtime]
  split
  · exact h.file_mem
  · exact h.zero_mem

omit [DecidableEq M] in
theorem Inv.covered (h : Inv w) (htriggered : w.Triggered) (htask : w.task = some .polling)
    (hne : w.fileMtime ≠ 0) (hlast : w.fileMtime = w.lastMtime) :
    w.called = true ∨ w.startMtime = some w.fileMtime := by
  rcases haccessible : w.accessible with _ | _
  · exact h.hidden haccessible htask hne hlast
  · have hcurrent : w.currentMtime = w.fileMtime := if_pos haccessible
    rw [Triggered, hcurrent] at htriggered
    exact htriggered htask hne hlast

theorem Inv.modify (h : Inv w) {mtime : M} (hs : w.modify mtime = some w') :
    Inv w' ∧ w'.Triggered := by
  rw [ConfigWatcher.modify] at hs
  split at hs
  · exact absurd hs (by simp)
  rename_i hfresh
  obtain rfl := Option.some.inj hs
  -- The new time is neither the last one seen nor what `start` has read.
  have hlast : mtime ≠ w.lastMtime := fun heq ↦ hfresh (heq ▸ h.last_mem)
  refine ⟨⟨List.mem_cons_of_mem _ h.zero_mem, List.mem_cons_self, List.mem_cons_of_mem _ h.last_mem,
    fun m hm ↦ List.mem_cons_of_mem _ (h.start_mem m hm), fun m hm ↦ ?_, fun _ heq ↦ ?_,
    fun _ _ _ heq ↦ ?_⟩, fun _ hne heq ↦ ?_⟩
  · obtain ⟨hne, heq, -⟩ := h.debouncing m hm
    exact ⟨hne, heq, fun _ ↦ ⟨rfl, fun hstart ↦ hfresh (h.start_mem _ hstart)⟩⟩
  · exact absurd heq hlast
  · exact absurd heq hlast
  · exact absurd ((currentMtime_eq hne).2.symm.trans heq) hlast

omit [DecidableEq M] in
theorem Inv.access (h : Inv w) (htriggered : w.Triggered) (accessible : Bool) :
    Inv { w with accessible := accessible } ∧
      Triggered { w with accessible := accessible } := by
  refine ⟨{ h with hidden := fun _ htask ↦ h.covered htriggered htask }, fun htask hne heq ↦ ?_⟩
  obtain ⟨-, hcurrent⟩ := currentMtime_eq hne
  rw [hcurrent] at hne heq ⊢
  exact h.covered htriggered htask hne heq

omit [DecidableEq M] in
theorem Inv.start (h : Inv w) (htriggered : w.Triggered) : Inv w.start ∧ w.start.Triggered := by
  rw [ConfigWatcher.start]
  split
  · exact ⟨h, htriggered⟩
  · refine ⟨⟨h.zero_mem, h.file_mem, h.current_mem, fun mtime hm ↦ ?_, by simp, by simp,
      fun hhidden _ hne heq ↦ ?_⟩, fun _ _ _ ↦ Or.inr rfl⟩
    · exact Option.some.inj hm ▸ h.current_mem
    · have hcurrent : w.currentMtime = 0 := if_neg (ne_true_of_eq_false hhidden)
      exact absurd (heq.trans hcurrent) hne

omit [DecidableEq M] in
theorem Inv.stop (h : Inv w) (htriggered : w.Triggered) : Inv w.stop ∧ w.stop.Triggered :=
  ⟨{ h with }, htriggered⟩

omit [DecidableEq M] in
theorem Inv.ended (h : Inv w) :
    Inv { w with task := none } ∧ Triggered { w with task := none } := by
  refine ⟨{ h with debouncing := by simp, calling := by simp, hidden := by simp }, ?_⟩
  exact fun htask ↦ absurd htask (by simp)

theorem Inv.poll (h : Inv w) (htriggered : w.Triggered) : Inv w.poll ∧ w.poll.Triggered := by
  rw [ConfigWatcher.poll]
  split
  · exact ⟨h, htriggered⟩
  rename_i hne
  split
  · refine ⟨⟨h.zero_mem, h.file_mem, h.current_mem, h.start_mem, fun mtime hm ↦ ?_, by simp,
      by simp⟩, fun htask ↦ absurd htask (by simp)⟩
    rw [Option.some.injEq, Phase.debouncing.injEq] at hm
    subst hm
    -- the time just read is that of the file, and so nothing was written behind it
    exact ⟨hne, rfl, fun hfile ↦ absurd (currentMtime_eq hne).2.symm hfile⟩
  · exact ⟨h, htriggered⟩

/-- After a change that was looked at again, nothing is lost exactly if the file is as it was, or is
missing. -/
theorem Inv.recheck (h : Inv w) {mtime : M} (htask : w.task = some (.debouncing mtime)) :
    Inv (w.recheck mtime) ∧
      ((w.recheck mtime).Triggered ↔ w.currentMtime = mtime ∨ w.currentMtime = 0) := by
  obtain ⟨hmtime, hlast, hwritten⟩ := h.debouncing mtime htask
  rw [ConfigWatcher.recheck]
  split
  · rename_i hchanged
    refine ⟨⟨h.zero_mem, h.file_mem, h.current_mem, h.start_mem, by simp, by simp,
      fun hhidden _ hne heq ↦ ?_⟩, fun htriggered ↦ Or.inr ?_, ?_⟩
    · have hcurrent : w.currentMtime = 0 := if_neg (ne_true_of_eq_false hhidden)
      exact absurd (heq.trans hcurrent) hne
    · -- the time becomes the last one seen, and nobody has been called for it
      by_contra hne
      obtain ⟨-, hcurrent⟩ := currentMtime_eq hne
      obtain ⟨hcalled, hstart⟩ := hwritten (hcurrent ▸ hchanged)
      rcases htriggered rfl hne rfl with htrue | hread
      · exact absurd (hcalled.symm.trans htrue) Bool.false_ne_true
      · exact hstart (hread.trans (congrArg some hcurrent))
    · intro hsame
      have hzero := hsame.resolve_left hchanged
      exact fun _ hne _ ↦ absurd hzero hne
  · rename_i hsame
    -- the callback is called now, behind every write so far
    refine ⟨⟨h.zero_mem, h.file_mem, h.last_mem, h.start_mem, by simp, fun _ _ ↦ rfl, by simp⟩, ?_⟩
    exact iff_of_true (fun hpolling ↦ absurd hpolling (by simp)) (Or.inl (not_not.mp hsame))

omit [DecidableEq M] in
theorem Inv.callbackReturns (h : Inv w) (htask : w.task = some .calling) :
    Inv { w with task := some .polling } ∧ Triggered { w with task := some .polling } := by
  refine ⟨{ h with debouncing := by simp, calling := by simp, hidden := ?_ }, fun _ hne heq ↦ ?_⟩
  · exact fun _ _ _ heq ↦ Or.inl (h.calling htask heq)
  · exact Or.inl (h.calling htask ((currentMtime_eq hne).2.symm.trans heq))

/-- One step: nothing is lost by it exactly if it is undisturbed. -/
theorem Inv.step (h : Inv w) (htriggered : w.Triggered) {ev : Event M} (hs : w.step ev = some w') :
    Inv w' ∧ (w'.Triggered ↔ w.Undisturbed ev) := by
  -- all other steps are undisturbed, and lose nothing
  have hother : ev ≠ .recheck → Inv w' ∧ w'.Triggered →
      Inv w' ∧ (w'.Triggered ↔ w.Undisturbed ev) := by
    rintro hne ⟨hinv, hw'⟩
    exact ⟨hinv, iff_of_true hw' fun _ heq ↦ absurd heq hne⟩
  rcases ev with mtime | accessible | _ | _ | _ | _ | _ | _ | _
  · exact hother (by simp) (h.modify hs)
  · exact hother (by simp) (Option.some.inj hs ▸ h.access htriggered accessible)
  · exact hother (by simp) (Option.some.inj hs ▸ h.start htriggered)
  · exact hother (by simp) (Option.some.inj hs ▸ h.stop htriggered)
  · rw [ConfigWatcher.step] at hs
    split at hs
    · exact hother (by simp) (Option.some.inj hs ▸ h.ended)
    · exact absurd hs (by simp)
  · rw [ConfigWatcher.step] at hs
    split at hs
    · exact hother (by simp) (Option.some.inj hs ▸ h.poll htriggered)
    · exact absurd hs (by simp)
  · rw [ConfigWatcher.step] at hs
    split at hs
    · rename_i mtime htask
      split at hs
      · exact absurd hs (by simp)
      · rename_i hstop
        obtain ⟨hinv, hiff⟩ := h.recheck htask
        rw [← Option.some.inj hs, hiff]
        refine ⟨hinv, fun hsame mtime' _ htask' _ ↦ ?_, fun hundisturbed ↦ ?_⟩
        · rw [htask, Option.some.injEq, Phase.debouncing.injEq] at htask'
          exact htask' ▸ hsame
        · exact hundisturbed mtime rfl htask (Bool.not_eq_true _ ▸ hstop)
    · exact absurd hs (by simp)
  · rw [ConfigWatcher.step] at hs
    split at hs
    · rename_i hguard
      exact hother (by simp) (Option.some.inj hs ▸ h.callbackReturns hguard.1)
    · exact absurd hs (by simp)
  · rw [ConfigWatcher.step] at hs
    split at hs
    · exact hother (by simp) (Option.some.inj hs ▸ h.ended)
    · exact absurd hs (by simp)

theorem undisturbed_of_step_eq_none {ev : Event M} (hs : w.step ev = none) : w.Undisturbed ev := by
  rintro mtime rfl htask hstop
  rw [ConfigWatcher.step, htask] at hs
  exact absurd hs (by simp [hstop])

/-- **No config change is lost** in a run exactly if the file is never found with yet another time
when it is looked at after a change. -/
theorem noLostChange_iff (fileMtime : M) (events : List (Event M)) :
    NoLostChange fileMtime events ↔
      Run.Guarded ConfigWatcher.step Undisturbed (new fileMtime) events := by
  refine @Run.forall_reached_iff_guarded _ _ ConfigWatcher.step Undisturbed Inv Triggered ?_ ?_
    events _ (.new fileMtime) ?_
  · intro w ev w' h htriggered hs
    exact h.step htriggered hs
  · intro w ev _ _ hs
    exact undisturbed_of_step_eq_none hs
  · exact fun htask ↦ absurd htask (by simp [ConfigWatcher.new])

/-! ### Two writes -/

/-- The file is written twice, the second time while the loop sleeps after the first. -/
def twoWrites : List (Event ℕ) := [.start, .modify 2, .poll, .modify 3, .recheck]

theorem not_noLostChange_twoWrites : ¬ NoLostChange 1 twoWrites := by
  intro h
  have hrun : Run.run ConfigWatcher.step (new 1) twoWrites
      = some ((Run.run ConfigWatcher.step (new 1) twoWrites).getD (new 1)) :=
    Run.run_eq_some_getD (by decide) _
  rcases h twoWrites _ List.prefix_rfl hrun (by decide) (by decide) (by decide) with
    hcalled | hstart
  · exact absurd hcalled (by decide)
  · exact absurd hstart (by decide)

end ConfigWatcher

end Watcher

end ArgusMcp
