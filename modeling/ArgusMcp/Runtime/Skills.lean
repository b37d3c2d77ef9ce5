import ArgusMcp.Library.Dict
import ArgusMcp.Library.Run
import ArgusMcp.Library.Value

/-!
# Installed skills

`SkillManager` keeps skills in a directory, each in a directory of its own with a manifest, and a
file that says which of them are disabled. A manager has all skills it knows of in memory, and
writes the whole file from there whenever it changes one of them. It knows those it has installed
itself, and all of them once it has looked for them. Any number of managers may be used on one
directory; each of them starts with an empty memory, and has what it saw last.

## The condition

A skill that was disabled stays so as long as every manager that writes the file has it disabled in
its memory, and nobody disables what is not installed (`Preserving`). The run theorem says that this
is exact (`disabled_iff_preserving`).
-/

namespace ArgusMcp

namespace Skills

variable {O : Type}

/-! ## Manifests -/

/-- The part of a `SkillManifest` that it is validated by. -/
structure SkillManifest (O : Type) where
  name : String
  version : String
  tools : List (Value O)

def SkillManifest.validate (manifest : SkillManifest O) : List String :=
  (if manifest.name = "" then ["Missing 'name'"] else []) ++
    (if manifest.version = "" then ["Missing 'version'"] else []) ++
    manifest.tools.zipIdx.flatMap fun tool ↦
      match tool.1 with
      | .dict d =>
        if (d.lookup "name").isSome then [] else [s!"Tool {tool.2}: must be an object with 'name'"]
      | _ => [s!"Tool {tool.2}: must be an object with 'name'"]

/-! ## Managers -/

inductive SkillStatus where
  | enabled
  | disabled
  deriving DecidableEq

def SkillStatus.value : SkillStatus → String
  | enabled => "enabled"
  | disabled => "disabled"

structure InstalledSkill (O : Type) where
  manifest : SkillManifest O
  status : SkillStatus

abbrev Memory (O : Type) := Dict String (InstalledSkill O)

/-- What is in `skills_dir`: the manifests of its directories, by the names of these, and the file
for the state, if there is one that can be read. -/
structure Disk (O : Type) where
  dirs : Dict String (SkillManifest O)
  stateFile : Option (Dict String String)

namespace Disk

variable (disk : Disk O)

def loadState : Dict String String := disk.stateFile.getD .empty

def saveState (skills : Memory O) : Disk O :=
  { disk with stateFile := some (skills.mapValues fun skill ↦ skill.status.value) }

def status (name : String) : SkillStatus :=
  if disk.loadState.getD name "enabled" = "disabled" then .disabled else .enabled

/-- `discover`: the directories in the order of their names. -/
def discover : Memory O :=
  (disk.dirs.items.mergeSort fun a b ↦ a.1 ≤ b.1).foldl
    (fun skills e ↦ skills.set e.2.name ⟨e.2, disk.status e.2.name⟩) .empty

end Disk

/-- What is asked of a manager. -/
inductive Op (O : Type) where
  | discover
  /-- The directory has a manifest that can be read, or it has not. -/
  | install (source : Option (SkillManifest O))
  | uninstall (name : String)
  | enable (name : String)
  | disable (name : String)

/-- What an operation does with memory and disk, or nothing if it raises. -/
def Op.perform (disk : Disk O) (skills : Memory O) : Op O → Option (Disk O × Memory O)
  | discover => some (disk, disk.discover)
  | install none => none
  | install (some manifest) =>
    if manifest.validate = [] then
      let skills := skills.set manifest.name ⟨manifest, .enabled⟩
      some ({ disk with dirs := disk.dirs.set manifest.name manifest }.saveState skills, skills)
    else none
  | uninstall name => (skills.get? name).map fun _ ↦
    let skills := skills.del name
    ({ disk with dirs := disk.dirs.del name }.saveState skills, skills)
  | enable name => (skills.get? name).map fun skill ↦
    let skills := skills.set name { skill with status := .enabled }
    (disk.saveState skills, skills)
  | disable name => (skills.get? name).map fun skill ↦
    let skills := skills.set name { skill with status := .disabled }
    (disk.saveState skills, skills)

/-! ## Runs -/

/-- The skill an operation is for, if it is for one. -/
def Op.target : Op O → Option String
  | discover => none
  | install source => source.map SkillManifest.name
  | uninstall name => some name
  | enable name => some name
  | disable name => some name

def Op.isDisable : Op O → Bool
  | disable _ => true
  | _ => false

/-- A directory and the managers that were created for it. What was done last with a skill is kept
as well, for what has to be said about it. -/
structure State (M O : Type) where
  disk : Disk O
  memory : M → Memory O
  /-- Whether the last operation on a skill that did not raise was `disable`. -/
  disabledLast : String → Bool

variable {M : Type} [DecidableEq M]

/-- Nothing has been done yet. -/
def State.init (disk : Disk O) : State M O := ⟨disk, fun _ ↦ .empty, fun _ ↦ false⟩

/-- A manager is asked for something. If it raises, nothing has changed. -/
def step (s : State M O) (e : M × Op O) : Option (State M O) :=
  match e.2.perform s.disk (s.memory e.1) with
  | none => some s
  | some (disk, skills) => some
    { disk
      memory := Function.update s.memory e.1 skills
      disabledLast := fun name ↦
        if e.2.target = some name then e.2.isDisable else s.disabledLast name }

/-- What was disabled last is disabled when any manager looks for it. -/
def Disabled (s : State M O) : Prop :=
  ∀ name, s.disabledLast name → ((s.disk.discover).get? name).map InstalledSkill.status =
    some .disabled

/-- A manager that writes the file has the other skills that were disabled last as disabled in its
memory, and a skill that is disabled is installed. -/
def Preserving (s : State M O) (e : M × Op O) : Prop :=
  ∀ target, e.2.target = some target → (e.2.perform s.disk (s.memory e.1)).isSome →
    (∀ name, name ≠ target → s.disabledLast name →
      ((s.memory e.1).get? name).map InstalledSkill.status = some .disabled) ∧
    (e.2.isDisable → (s.disk.dirs.get? target).isSome)

/-! ## What is discovered -/

/-- Directories have the names of the skills in them. -/
def Named (disk : Disk O) : Prop :=
  ∀ name manifest, disk.dirs.get? name = some manifest → manifest.name = name

theorem get?_discover {disk : Disk O} (h : Named disk) (name : String) :
    disk.discover.get? name =
      (disk.dirs.get? name).map fun manifest ↦ ⟨manifest, disk.status name⟩ := by
  have hperm := List.mergeSort_perm disk.dirs.items fun a b ↦ decide (a.1 ≤ b.1)
  have hname : ∀ e ∈ disk.dirs.items, e.2.name = e.1 :=
    fun e he ↦ h e.1 e.2 (Dict.get?_eq_some_of_mem he)
  have hkeys : (disk.dirs.items.mergeSort fun a b ↦ a.1 ≤ b.1).map (fun e ↦ e.2.name)
      |>.Perm disk.dirs.keys := by
    refine (hperm.map _).trans (List.Perm.of_eq (List.map_congr_left hname))
  have hdiscover : disk.discover =
      ((disk.dirs.items.mergeSort fun a b ↦ a.1 ≤ b.1).map fun e ↦
        (e.2.name, (⟨e.2, disk.status e.2.name⟩ : InstalledSkill O))).foldl
          (fun d p ↦ d.set p.1 p.2) .empty := by
    rw [List.foldl_map]
    rfl
  rw [hdiscover]
  rcases hget : disk.dirs.get? name with _ | manifest
  · rw [Option.map_none, Dict.get?_foldl_set_of_notMem, Dict.get?_empty]
    rw [List.map_map]
    intro hmem
    obtain ⟨v, hv⟩ := Dict.mem_keys_iff.mp (hkeys.mem_iff.mp hmem)
    exact absurd (hget.symm.trans hv) (Option.some_ne_none v).symm
  · have hmem := (hperm.mem_iff).mpr (Dict.mem_items_of_get?_eq_some hget)
    have hitem := List.mem_map_of_mem (f := fun e : String × SkillManifest O ↦
      (e.2.name, (⟨e.2, disk.status e.2.name⟩ : InstalledSkill O))) hmem
    rw [h name manifest hget] at hitem
    refine Dict.get?_foldl_set_of_mem ?_ hitem _
    rw [List.map_map]
    exact hkeys.nodup_iff.mpr disk.dirs.nodup_keys

omit [DecidableEq M] in
theorem disabled_iff {s : State M O} (h : Named s.disk) : Disabled s ↔
    ∀ name, s.disabledLast name →
      (s.disk.dirs.get? name).isSome ∧ s.disk.status name = .disabled := by
  refine forall₂_congr fun name _ ↦ ?_
  rw [get?_discover h]
  cases s.disk.dirs.get? name with
  | none => simp
  | some manifest => simp

theorem status_saveState (disk : Disk O) (skills : Memory O) (name : String) :
    (disk.saveState skills).status name = .disabled ↔
      (skills.get? name).map InstalledSkill.status = some .disabled := by
  rw [Disk.status, Disk.loadState, Disk.saveState, Option.getD_some, Dict.getD, Dict.get?_mapValues]
  cases skills.get? name with
  | none => simp
  | some skill =>
    rw [Option.map_some, Option.map_some, Option.getD_some]
    cases skill.status with
    | enabled => simp [SkillStatus.value]
    | disabled => simp [SkillStatus.value]

/-! ## What an operation does -/

/-- An operation that does not raise either looks for skills, or it is for one of them: that one is
written to memory or taken out of it, and then the state is saved. -/
theorem perform_eq_some {disk disk' : Disk O} {skills skills' : Memory O} {op : Op O}
    (h : op.perform disk skills = some (disk', skills')) :
    (op.target = none ∧ disk' = disk) ∨
      ∃ target dirs, op.target = some target ∧
        disk' = ({ disk with dirs } : Disk O).saveState skills' ∧
        (∀ name, name ≠ target → dirs.get? name = disk.dirs.get? name ∧
          skills'.get? name = skills.get? name) ∧
        (∀ manifest, dirs.get? target = some manifest → manifest.name = target ∨
          disk.dirs.get? target = some manifest) ∧
        (op.isDisable → dirs = disk.dirs ∧
          (skills'.get? target).map InstalledSkill.status = some .disabled) := by
  cases op with
  | discover =>
    obtain ⟨rfl, -⟩ := Prod.mk.inj (Option.some.inj h)
    exact Or.inl ⟨rfl, rfl⟩
  | install source =>
    cases source with
    | none => exact absurd h (Option.some_ne_none _).symm
    | some manifest =>
      rw [Op.perform] at h
      split at h
      · obtain ⟨rfl, rfl⟩ := Prod.mk.inj (Option.some.inj h)
        refine Or.inr ⟨manifest.name, disk.dirs.set manifest.name manifest, rfl, rfl, ?_, ?_, ?_⟩
        · exact fun name hne ↦ ⟨Dict.get?_set_of_ne _ _ hne, Dict.get?_set_of_ne _ _ hne⟩
        · intro manifest' hget
          rw [Dict.get?_set_self] at hget
          exact Or.inl (congrArg SkillManifest.name (Option.some.inj hget)).symm
        · exact fun h ↦ absurd h Bool.false_ne_true
      · exact absurd h (Option.some_ne_none _).symm
  | uninstall name =>
    obtain ⟨skill, -, heq⟩ := Option.map_eq_some_iff.mp h
    obtain ⟨rfl, rfl⟩ := Prod.mk.inj heq
    refine Or.inr ⟨name, disk.dirs.del name, rfl, rfl, ?_, ?_, ?_⟩
    · intro name' hne
      rw [Dict.get?_del, Dict.get?_del, if_neg hne, if_neg hne]
      exact ⟨rfl, rfl⟩
    · intro manifest hget
      rw [Dict.get?_del, if_pos rfl] at hget
      exact absurd hget (Option.some_ne_none _).symm
    · exact fun h ↦ absurd h Bool.false_ne_true
  | enable name =>
    obtain ⟨skill, -, heq⟩ := Option.map_eq_some_iff.mp h
    obtain ⟨rfl, rfl⟩ := Prod.mk.inj heq
    refine Or.inr ⟨name, disk.dirs, rfl, rfl, ?_, fun _ ↦ Or.inr, ?_⟩
    · exact fun name' hne ↦ ⟨rfl, Dict.get?_set_of_ne _ _ hne⟩
    · exact fun h ↦ absurd h Bool.false_ne_true
  | disable name =>
    obtain ⟨skill, -, heq⟩ := Option.map_eq_some_iff.mp h
    obtain ⟨rfl, rfl⟩ := Prod.mk.inj heq
    refine Or.inr ⟨name, disk.dirs, rfl, rfl, ?_, fun _ ↦ Or.inr, fun _ ↦ ⟨rfl, ?_⟩⟩
    · exact fun name' hne ↦ ⟨rfl, Dict.get?_set_of_ne _ _ hne⟩
    · rw [Dict.get?_set_self]
      rfl

variable {s s' : State M O} {e : M × Op O}

theorem named_step (hnamed : Named s.disk) (h : step s e = some s') : Named s'.disk := by
  rw [step] at h
  rcases hperform : e.2.perform s.disk (s.memory e.1) with _ | ⟨disk, skills⟩
  · rw [hperform] at h
    obtain rfl := Option.some.inj h
    exact hnamed
  · rw [hperform] at h
    obtain rfl := Option.some.inj h
    rcases perform_eq_some hperform with ⟨-, rfl⟩ | ⟨target, dirs, -, rfl, hother, hname, -⟩
    · exact hnamed
    · intro name manifest hget
      by_cases hne : name = target
      · subst hne
        exact (hname manifest hget).elim id (hnamed name manifest)
      · exact hnamed name manifest ((hother name hne).1 ▸ hget)

/-- **Exactly the steps that preserve it** keep disabled what was disabled last. -/
theorem disabled_step_iff (hnamed : Named s.disk) (hdisabled : Disabled s)
    (h : step s e = some s') : Disabled s' ↔ Preserving s e := by
  have hnamed' := named_step hnamed h
  rw [step] at h
  rcases hperform : e.2.perform s.disk (s.memory e.1) with _ | ⟨disk, skills⟩
  · rw [hperform] at h
    obtain rfl := Option.some.inj h
    refine iff_of_true hdisabled fun target _ hsome ↦ ?_
    rw [hperform] at hsome
    exact absurd hsome Bool.false_ne_true
  · rw [hperform] at h
    obtain rfl := Option.some.inj h
    rw [disabled_iff hnamed']
    rw [disabled_iff hnamed] at hdisabled
    rcases perform_eq_some hperform with ⟨htarget, rfl⟩ |
      ⟨target, dirs, htarget, rfl, hother, -, hdisable⟩
    · refine iff_of_true ?_ fun target htarget' _ ↦ ?_
      · intro name hlast
        dsimp only at hlast
        rw [htarget, if_neg (Option.some_ne_none name).symm] at hlast
        exact hdisabled name hlast
      · exact absurd (htarget.symm.trans htarget') (Option.some_ne_none target).symm
    · have hstatus := status_saveState ({ s.disk with dirs } : Disk O) skills
      have hne_target : ∀ name, name ≠ target → e.2.target ≠ some name :=
        fun name hne h ↦ hne (Option.some.inj (h.symm.trans htarget))
      constructor
      · intro hnew target' htarget' _
        obtain rfl := Option.some.inj (htarget.symm.trans htarget')
        refine ⟨fun name hne hlast ↦ ?_, fun hisDisable ↦ ?_⟩
        · have hlast' : (if e.2.target = some name then e.2.isDisable
              else s.disabledLast name) = true := by
            rw [if_neg (hne_target name hne), hlast]
          rw [← (hother name hne).2]
          exact (hstatus name).mp (hnew name hlast').2
        · have hlast' : (if e.2.target = some target then e.2.isDisable
              else s.disabledLast target) = true := by
            rw [if_pos htarget, hisDisable]
          rw [← (hdisable hisDisable).1]
          exact (hnew target hlast').1
      · intro hpreserving name hlast
        obtain ⟨hmemory, hinstalled⟩ := hpreserving target htarget (by rw [hperform]; rfl)
        dsimp only at hlast ⊢
        by_cases hne : name = target
        · subst hne
          rw [if_pos htarget] at hlast
          obtain ⟨rfl, hdisabled'⟩ := hdisable hlast
          exact ⟨hinstalled hlast, (hstatus name).mpr hdisabled'⟩
        · rw [if_neg (hne_target name hne)] at hlast
          obtain ⟨hdirs, hskills⟩ := hother name hne
          refine ⟨?_, (hstatus name).mpr ?_⟩
          · exact (congrArg Option.isSome hdirs).trans (hdisabled name hlast).1
          · rw [hskills]
            exact hmemory name hne hlast

/-- **Status persists exactly if it is preserved.** In every state that a sequence of operations
comes to, what was disabled last is disabled for whoever looks for it, if and only if every operation
preserves it. -/
theorem disabled_iff_preserving (disk : Disk O) (h : Named disk) (ops : List (M × Op O)) :
    (∀ before s, before <+: ops → Run.run step (State.init disk) before = some s → Disabled s) ↔
      Run.Guarded step Preserving (State.init disk) ops := by
  refine @Run.forall_reached_iff_guarded _ _ step Preserving (fun s ↦ Named s.disk) Disabled ?_ ?_
    ops (State.init disk) h ?_
  · exact fun s e s' hnamed hdisabled hstep ↦
      ⟨named_step hnamed hstep, disabled_step_iff hnamed hdisabled hstep⟩
  · intro s e _ _ hnone
    rw [step] at hnone
    split at hnone
    · exact absurd hnone (Option.some_ne_none _)
    · exact absurd hnone (Option.some_ne_none _)
  · exact fun name h ↦ absurd h Bool.false_ne_true

/-- A skill without tools. -/
def plain (name : String) : SkillManifest Empty := ⟨name, "1.0.0", []⟩

/-- Nothing is installed. -/
def emptyDisk : Disk Empty := ⟨.empty, none⟩

theorem named_emptyDisk : Named emptyDisk :=
  fun _ _ h ↦ absurd h (Option.some_ne_none _).symm

/-- A manager disables a skill, and a second one installs another without looking for skills. -/
def forgotten : List (ℕ × Op Empty) :=
  [(1, .install (some (plain "a"))), (1, .disable "a"), (2, .install (some (plain "b")))]

theorem not_forall_disabled : ¬ ∀ (disk : Disk Empty) (ops : List (ℕ × Op Empty)), Named disk →
    ∀ before s, before <+: ops → Run.run step (State.init disk) before = some s → Disabled s := by
  intro h
  have hrun : Run.run step (State.init emptyDisk) forgotten = some _ := rfl
  have hnamed := Run.inv_of_run (fun _ _ _ hs hstep ↦ named_step hs hstep) named_emptyDisk hrun
  have hdisabled := h emptyDisk forgotten named_emptyDisk forgotten _ (List.prefix_refl _) hrun
  rw [disabled_iff hnamed] at hdisabled
  exact absurd (hdisabled "a" rfl).2 (by decide)

/-- The same manager installs another skill. -/
def remembered : List (ℕ × Op Empty) :=
  [(1, .install (some (plain "a"))), (1, .disable "a"), (1, .install (some (plain "b")))]

theorem disabled_iff_preserving_remembered :
    Run.Guarded step Preserving (State.init emptyDisk) remembered ∧
      ∀ before s, before <+: remembered → Run.run step (State.init emptyDisk) before = some s →
        Disabled s := by
  have hguarded : Run.Guarded step Preserving (State.init emptyDisk) remembered := by
    refine ⟨?_, ?_, ?_, trivial⟩
    · intro target _ _
      exact ⟨fun _ _ h ↦ absurd h Bool.false_ne_true, fun h ↦ absurd h Bool.false_ne_true⟩
    · intro target htarget _
      obtain rfl := Option.some.inj htarget
      refine ⟨fun name hne hlast ↦ ?_, fun _ ↦ rfl⟩
      simp [Op.isDisable, State.init] at hlast
    · intro target htarget _
      refine ⟨fun name hne hlast ↦ ?_, fun h ↦ absurd h Bool.false_ne_true⟩
      -- only one skill was disabled
      have hname : name = "a" := by
        by_contra hne
        simp [Op.isDisable, Op.target, State.init, Ne.symm hne] at hlast
      subst hname
      rfl
  exact ⟨hguarded,
    (disabled_iff_preserving emptyDisk named_emptyDisk remembered).mpr hguarded⟩

end Skills

end ArgusMcp
