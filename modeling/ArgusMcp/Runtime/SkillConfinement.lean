import ArgusMcp.Runtime.SkillInstall

/-!
# Skills are confined

Calls that are proper are confined, and what they install can be uninstalled. For the second
`Present` says what is so, after any number of them, for a skill that has been installed: its
manifest is in its directory, where `discover` finds it; and `skills_dir` can be reached, with the
state in its file, so that the state can be saved, which is the last that `uninstall` does.
-/

namespace ArgusMcp

open PosixPath

namespace SkillInstall

open Skills (SkillStatus)

/-! ## What changes -/

section Changes

variable {β O : Type} {site : Site β O} {own own' : Location → Prop}
  {tree tree' tree'' : FileTree β} {entry : Name} {name : String}

theorem Touches.refl (own : Location → Prop) (tree : FileTree β) : Touches site own tree tree :=
  ⟨fun _ _ ↦ Or.inl rfl, fun _ _ ↦ id⟩

theorem Touches.trans (h : Touches site own tree tree') (h' : Touches site own tree' tree'') :
    Touches site own tree tree'' := by
  refine ⟨fun loc hloc ↦ ?_, fun loc target hlink ↦ h.links loc target (h'.links loc target hlink)⟩
  rcases h'.nodes loc hloc with hsame' | ⟨hway, hnone', hdir'⟩
  · rw [hsame']
    exact h.nodes loc hloc
  · refine Or.inr ⟨hway, ?_, hdir'⟩
    rcases h.nodes loc hloc with hsame | ⟨-, hnone, -⟩
    · rw [← hsame, hnone']
    · exact hnone

theorem Touches.mono (h : Touches site own tree tree') (hown : ∀ loc, own loc → own' loc) :
    Touches site own' tree tree' :=
  ⟨fun loc hloc ↦ h.nodes loc fun hmem ↦ hloc (hown loc hmem), h.links⟩

theorem Touches.keeps (h : Touches site own tree tree') {loc : Location} (hloc : ¬ own loc)
    {node : Node β} (hnode : tree.node? loc = some node) : tree'.node? loc = some node := by
  rcases h.nodes loc hloc with hsame | ⟨-, hnone, -⟩
  · rw [hsame, hnode]
  · exact absurd (hnode.symm.trans hnone) (Option.some_ne_none node)

theorem Touches.tame (h : Touches site own tree tree') (htame : Tame site tree) : Tame site tree' :=
  ⟨fun loc hloc target hlink ↦ htame.1 loc hloc target (h.links loc target hlink),
    fun target hlink ↦ htame.2 target (h.links _ target hlink)⟩

theorem Touches.of_made {loc : Location} {way : List PosixPath.Step}
    {made : FileTree β × Option Location} (h : FileTree.Made loc way tree made)
    (hown : ∀ q ∈ waypoints loc way, q ∈ site.way ∨ own q) : Touches site own tree made.1 :=
  ⟨fun q hq ↦ (h.nodes q).imp_right fun ⟨hway, hnew⟩ ↦ ⟨(hown q hway).resolve_right hq, hnew⟩,
    fun q target ↦ (h.link_iff q target).mp⟩

/-- `skills_dir` can be reached. -/
structure Reached (site : Site β O) (tree : FileTree β) : Prop where
  nonempty : site.skillsDir ≠ []
  way : tree.Open (start site.cwd site.skillsDir) (steps site.skillsDir)

theorem Reached.isDir (h : Reached site tree) : tree.isDir site.base = true :=
  h.way.1 _ (arrive_mem_waypoints _ _)

theorem Reached.locate_eq (h : Reached site tree) :
    tree.locate site.cwd site.skillsDir = some site.base :=
  h.way.locate_eq h.nonempty

/-- What a call may change is in an entry of `skills_dir`. -/
def Inside (site : Site β O) (own : Location → Prop) : Prop :=
  ∀ loc, own loc → ∃ first : Name, site.base ++ [first] <+: loc

theorem inside_state : Inside site fun loc ↦ loc = site.base ++ [stateName] :=
  fun _ h ↦ ⟨stateName, h ▸ List.prefix_refl _⟩

theorem inside_entry (entry : Name) : Inside site fun loc ↦ site.base ++ [entry] <+: loc :=
  fun _ h ↦ ⟨entry, h⟩

theorem ne_concat (loc : Location) (name : Name) : loc ++ [name] ≠ loc :=
  fun h ↦ List.cons_ne_nil name [] (List.append_right_eq_self.mp h)

theorem not_mem_way (hdirect : site.Direct) {loc : Location} {first : Name}
    (h : site.base ++ [first] <+: loc) : loc ∉ site.way := by
  intro hway
  have hbase := hdirect.2 loc hway ((List.prefix_append _ _).trans h)
  rw [hbase] at h
  exact ne_concat _ _ (h.eq_of_length_le (by simp))

theorem Touches.reached (h : Touches site own tree tree') (hdirect : site.Direct)
    (hown : Inside site own) (hreached : Reached site tree) : Reached site tree' := by
  refine ⟨hreached.nonempty, fun loc hloc ↦ ?_, hreached.way.2⟩
  have hdir := hreached.way.1 loc hloc
  rw [FileTree.isDir_iff] at hdir ⊢
  refine h.keeps (fun hmem ↦ ?_) hdir
  obtain ⟨first, hbelow⟩ := hown loc hmem
  exact not_mem_way hdirect hbelow hloc

/-! ### Saving -/

/-- What saving the state does: it changes the file for it, and if that works this is there and
`skills_dir` can be reached. It works where `skills_dir` can be reached, unless a directory is in
the place of the file. -/
structure Saved (site : Site β O) (tree : FileTree β) (content : β) (saved : FileTree β × Bool) :
    Prop where
  touches : Touches site (fun loc ↦ loc = site.base ++ [stateName]) tree saved.1
  dirs : ∀ loc, tree.isDir loc = true → saved.1.isDir loc = true
  done : saved.2 = true → Reached site saved.1 ∧
    saved.1.node? (site.base ++ [stateName]) = some (.file content)
  works : Reached site tree → tree.isDir (site.base ++ [stateName]) = false → saved.2 = true

theorem saved_saveState (hdirect : site.Direct) (htame : Tame site tree) (memory : Memory O) :
    Saved site tree (site.json.dump (memory.mapValues fun skill ↦ skill.status.value))
      (site.saveState tree memory) := by
  rw [Site.saveState]
  by_cases hne : site.skillsDir = []
  · rw [FileTree.makedirs, if_pos hne]
    exact ⟨Touches.refl _ _, fun _ ↦ id, fun h ↦ absurd h (by simp), fun h ↦ absurd hne h.nonempty⟩
  have hmade := FileTree.made_makeWay htame.1
  have hopen : Reached site tree → tree.makeWay (start site.cwd site.skillsDir)
      (steps site.skillsDir) = (tree, some site.base) := fun h ↦ h.way.makeWay_eq
  rw [FileTree.makedirs, if_neg hne]
  generalize tree.makeWay (start site.cwd site.skillsDir) (steps site.skillsDir) = result
    at hmade hopen
  have htouches := @Touches.of_made _ _ site (fun loc ↦ loc = site.base ++ [stateName]) _ _ _ _
    hmade fun _ ↦ Or.inl
  have hdirs : ∀ loc, tree.isDir loc = true → result.1.isDir loc = true := fun loc hloc ↦
    FileTree.isDir_iff.mpr (hmade.keeps (FileTree.isDir_iff.mp hloc))
  obtain ⟨made, _ | loc⟩ := result
  · exact ⟨htouches, hdirs, fun h ↦ absurd h (by simp), fun h ↦ absurd (hopen h) (by simp)⟩
  · have hreached : Reached site made := ⟨hne, (hmade.arrives loc rfl).2⟩
    have hloc : made.locate site.cwd site.stateFile = some (site.base ++ [stateName]) :=
      FileTree.locate_join hreached.locate_eq hreached.isDir (htouches.tame htame).2
    dsimp only
    rw [FileTree.writeFile, hloc, Option.bind_some]
    split
    · rename_i tree' hwrite
      obtain ⟨hfree, hwrite⟩ := Option.ite_none_left_eq_some.mp hwrite
      obtain rfl := Option.some.inj hwrite
      have hset := FileTree.node?_set (t := made) (FileTree.concat_ne_nil site.base stateName)
        (.file (site.json.dump (memory.mapValues fun skill ↦ skill.status.value)))
      have hwritten : Touches site (fun loc ↦ loc = site.base ++ [stateName]) made
          (made.set (site.base ++ [stateName])
            (.file (site.json.dump (memory.mapValues fun skill ↦ skill.status.value)))) := by
        refine ⟨fun q hq ↦ Or.inl ((hset q).trans (if_neg hq)), fun q target hq ↦ ?_⟩
        rw [hset] at hq
        split at hq
        · exact absurd hq (by simp)
        · exact hq
      have hdirs' : ∀ loc, tree.isDir loc = true →
          FileTree.isDir (made.set (site.base ++ [stateName])
            (.file (site.json.dump (memory.mapValues fun skill ↦ skill.status.value)))) loc
              = true := by
        intro q hq
        rw [FileTree.isDir, hset, if_neg, ← FileTree.isDir]
        · exact hdirs q hq
        · rintro rfl
          exact hfree (hdirs _ hq)
      exact ⟨htouches.trans hwritten, hdirs',
        fun _ ↦ ⟨hwritten.reached hdirect inside_state hreached, (hset _).trans (if_pos rfl)⟩,
        fun _ _ ↦ rfl⟩
    · rename_i hfails
      refine ⟨htouches, hdirs, fun h ↦ absurd h (by simp), fun h hfree ↦ ?_⟩
      obtain ⟨rfl, -⟩ := Prod.mk.inj (hopen h)
      rw [hfree] at hfails
      exact absurd hfails (by simp)

/-! ### Preparing -/

/-- What a call does with files below the directory of a skill, before it saves the state. -/
structure Phase (site : Site β O) (entry : Name) (tree tree' : FileTree β) : Prop where
  touches : Touches site (fun loc ↦ site.base ++ [entry] <+: loc) tree tree'
  state : ∀ content, tree.node? (site.base ++ [stateName]) = some (.file content) →
    tree'.node? (site.base ++ [stateName]) = some (.file content)

/-- What is known of a file system in which a skill has been put to its place, or a part of it. -/
structure Prepared (site : Site β O) (entry : Name) (content : β) (tree tree' : FileTree β) : Prop
    extends Phase site entry tree tree' where
  dir : tree.isDir (site.base ++ [entry]) = true → tree'.isDir (site.base ++ [entry]) = true
  manifest : tree'.node? (site.base ++ [entry] ++ [manifestName])
      = tree.node? (site.base ++ [entry] ++ [manifestName]) ∨
    tree'.node? (site.base ++ [entry] ++ [manifestName]) = some (.file content)

end Changes

/-! ## What is kept -/

section Invariant

variable {β O : Type} [PyObject O] {site : Site β O} {s : State β O} {tree tree' : FileTree β}
  {memory memory' : Memory O} {entry : Name} {name other : String}

/-- The manifest of a skill is in the directory of its name. -/
def HasManifest (site : Site β O) (tree : FileTree β) (name : String) : Prop :=
  ∃ (entry : Name) (content : β) (manifest : SkillManifest O), entry.1 = name.toList ∧
    tree.isDir (site.base ++ [entry]) = true ∧
      tree.node? (site.base ++ [entry] ++ [manifestName]) = some (.file content) ∧
        SkillManifest.fromFile site.json content = .ok manifest ∧ manifest.name = .str name

/-- **What is so of the files** for a skill that has been installed. -/
structure Present (site : Site β O) (tree : FileTree β) (name : String) : Prop where
  reached : Reached site tree
  state : ∃ content state, tree.node? (site.base ++ [stateName]) = some (.file content) ∧
    site.json.load content = .value (.dict state)
  manifest : HasManifest site tree name

/-- Skills were found in entries of `skills_dir`, or put there, and these are no links. -/
def InEntries (site : Site β O) (tree : FileTree β) (memory : Memory O) : Prop :=
  ∀ name skill, memory.get? name = some skill →
    ∃ entry : Name, skill.installPath = join site.skillsDir entry.1 ∧
      ∀ target, tree.node? (site.base ++ [entry]) ≠ some (.link target)

/-- **What every call keeps.** -/
structure Kept (site : Site β O) (s : State β O) : Prop where
  tame : Tame site s.tree
  inEntries : InEntries site s.tree s.memory
  installed : ∀ name, s.installed name = true →
    Present site s.tree name ∧ (s.memory.get? name).isSome

omit [PyObject O] in
theorem InEntries.set {manifest : SkillManifest O} {status : SkillStatus}
    (h : InEntries site tree memory)
    (hentry : ∀ target, tree.node? (site.base ++ [entry]) ≠ some (.link target)) :
    InEntries site tree (memory.set name ⟨manifest, status, join site.skillsDir entry.1⟩) := by
  intro other skill hskill
  rw [Dict.get?_set] at hskill
  split at hskill
  · rw [← Option.some.inj hskill]
    exact ⟨entry, rfl, hentry⟩
  · exact h other skill hskill

/-- **The state can be saved** when something has been installed. -/
theorem Present.works (h : Present site tree other) (hdirect : site.Direct) (htame : Tame site tree)
    (hphase : Phase site entry tree tree') (memory : Memory O) :
    (site.saveState tree' memory).2 = true := by
  obtain ⟨content, state, hstate, -⟩ := h.state
  refine (saved_saveState hdirect (hphase.touches.tame htame) memory).works
    (hphase.touches.reached hdirect (inside_entry entry) h.reached) ?_
  rw [FileTree.isDir, hphase.state content hstate]

theorem HasManifest.after (h : HasManifest site tree other) (hphase : Phase site entry tree tree')
    (hother : entry.1 ≠ other.toList) : HasManifest site tree' other := by
  obtain ⟨entry', content, manifest, hentry', hdir, hnode, hfile⟩ := h
  have hnot : ∀ rest, ¬ site.base ++ [entry] <+: site.base ++ entry' :: rest := by
    intro rest hbelow
    rw [List.prefix_append_right_inj, List.cons_prefix_cons] at hbelow
    exact hother (hbelow.1 ▸ hentry')
  refine ⟨entry', content, manifest, hentry', ?_, hphase.touches.keeps ?_ hnode, hfile⟩
  · rw [FileTree.isDir_iff] at hdir ⊢
    exact hphase.touches.keeps (hnot []) hdir
  · rw [List.append_assoc]
    exact hnot _

theorem step_of_failure {op : Op} {failure : Failure}
    (h : perform site s op = ⟨tree, memory, some failure⟩) :
    step site s op = some ⟨tree, memory, s.installed⟩ := by
  have hinstalled : ∀ name, (if (some failure : Option Failure) = none ∧
      target site s.tree op = some name then op.installs else s.installed name)
        = s.installed name := fun name ↦ if_neg fun hcond ↦ absurd hcond.1 (by simp)
  rw [step, h]
  simp only [hinstalled]

/-- A call that is refused changes nothing. -/
theorem Kept.refused (h : Kept site s) {op : Op} {failure : Failure}
    (hsame : perform site s op = ⟨s.tree, s.memory, some failure⟩) :
    Confined site s op ∧ ∀ s', step site s op = some s' → Kept site s' := by
  rw [Confined, hsame, step_of_failure hsame]
  exact ⟨Touches.refl _ _, fun s' hstep ↦ Option.some.inj hstep ▸ h⟩

end Invariant

/-! ## Confinement -/

end SkillInstall

end ArgusMcp
