import ArgusMcp.Library.FileTree

/-!
# Copying a directory

`shutil.copytree` goes through a directory and copies what it finds, each directory in the same way;
links are followed on either side. An error does not end it, and is raised when everything else has
been copied. It takes down what is in a directory before it copies, and not what is in the
directories there: a directory can be copied into itself, and then there is no end to it but the
depth of calls, which is given.

Where no links are below the target, only what is below it changes (`grows_copytree`). A file is
where it should be in the end, if there was no error and it does not come from below the target
(`copytree_file`).
-/

namespace ArgusMcp

open PosixPath

namespace FileTree

variable {β : Type*}

/-- Where a name in a directory leads. -/
def enter (t : FileTree β) (loc : Location) (name : Name) : Option Location :=
  t.follow true maxLinks loc [.down name]

/-- `shutil.copy2`, of a file to a name in a directory. -/
def copy2 (t : FileTree β) (src dst : Location) (name : Name) : Option (FileTree β) :=
  (t.enter dst name).bind fun target ↦
    (if t.isDir target then t.enter target name else some target).bind fun target ↦
      if target = src ∨ t.isDir target = true then none
      else
        match t.node? src with
        | some (.file content) => some (t.set target (.file content))
        | _ => none

/-- How a copy ends. Errors are collected, and raised at the end. -/
inductive CopyStatus where
  | ok
  | error
  | recursionError
deriving DecidableEq

/-- What is left of it when more is copied. -/
def CopyStatus.and : CopyStatus → CopyStatus → CopyStatus
  | .error, .ok => .error
  | _, later => later

/-- Copies one after another. Only a `RecursionError` ends it. -/
def copyEntries (copy : FileTree β → Name → FileTree β × CopyStatus) :
    FileTree β → List Name → FileTree β × CopyStatus
  | t, [] => (t, .ok)
  | t, entry :: entries =>
    let first := copy t entry
    if first.2 = .recursionError then first
    else
      let rest := copyEntries copy first.1 entries
      (rest.1, first.2.and rest.2)

/-- One entry of a directory, which leads to a directory or to a file. -/
def copyEntry (copyDir : FileTree β → Location → Location → List Step → FileTree β × CopyStatus)
    (src dst : Location) (t : FileTree β) (entry : Name) : FileTree β × CopyStatus :=
  match t.enter src entry with
  | none => (t, .error)
  | some loc =>
    if t.isDir loc then copyDir t loc dst [.down entry]
    else
      match t.copy2 loc dst entry with
      | some t' => (t', .ok)
      | none => (t, .error)

/-- `shutil.copytree`, with `dirs_exist_ok`, to where a way leads. -/
def copytree : ℕ → FileTree β → Location → Location → List Step → FileTree β × CopyStatus
  | 0, t, _, _, _ => (t, .recursionError)
  | depth + 1, t, src, loc, way =>
    if t.isDir src then
      match t.makeWay loc way with
      | (t', some dst) => copyEntries (copyEntry (copytree depth) src dst) t' (t.children src)
      | (t', none) => (t', .error)
    else (t, .error)

/-! ## Where copies go -/

section Copies

variable {t t' u : FileTree β} {src dst loc : Location} {name : Name} {entries : List Name}
  {way : List Step}

/-- No links at a location, nor below it. -/
def NoLinks (t : FileTree β) (loc : Location) : Prop :=
  ∀ q, loc <+: q → ∀ target, t.node? q ≠ some (.link target)

theorem NoLinks.below (h : t.NoLinks loc) (name : Name) : t.NoLinks (loc ++ [name]) :=
  fun q hq ↦ h q ((List.prefix_append _ _).trans hq)

theorem NoLinks.grows (h : t.NoLinks loc) {loc' : Location} (hgrows : Grows loc' t t') :
    t'.NoLinks loc :=
  fun q hq ↦ hgrows.not_link (h q hq)

theorem enter_eq (hdir : t.isDir loc = true) (h : t.NoLinks (loc ++ [name])) :
    t.enter loc name = some (loc ++ [name]) :=
  follow_of_walk (walk_down hdir (h _ (List.prefix_refl _)))

theorem enter_grows (hgrows : Grows loc t t') (h : t.enter src name = some dst) :
    t'.enter src name = some dst :=
  follow_mono hgrows.dirs hgrows.links h

theorem grows_copy2 (hdir : t.isDir dst = true) (hlinks : t.NoLinks (dst ++ [name]))
    (h : t.copy2 src dst name = some t') : Grows (dst ++ [name]) t t' := by
  rw [copy2, enter_eq hdir hlinks, Option.bind_some] at h
  obtain ⟨target, htarget, h⟩ := Option.bind_eq_some_iff.mp h
  -- the name itself, or the same name in the directory there
  obtain ⟨hbelow, hne⟩ : dst ++ [name] <+: target ∧ target ≠ [] := by
    split at htarget
    · rename_i hinner
      rw [enter_eq hinner (hlinks.below name)] at htarget
      exact Option.some.inj htarget ▸ ⟨List.prefix_append _ _, concat_ne_nil _ _⟩
    · exact Option.some.inj htarget ▸ ⟨List.prefix_refl _, concat_ne_nil _ _⟩
  split at h
  · exact absurd h (by simp)
  · rename_i hfree
    split at h
    · obtain rfl := Option.some.inj h
      have hfree' : t.isDir target = false := Bool.eq_false_iff.mpr fun hd ↦ hfree (Or.inr hd)
      exact (grows_set hne hfree' (hlinks target hbelow) (by simp)).mono hbelow
    · exact absurd h (by simp)

theorem makeWay_down (hdir : t.isDir loc = true) (h : t.NoLinks (loc ++ [name])) :
    Grows (loc ++ [name]) t (t.makeWay loc [.down name]).1 ∧
      ∀ dst, (t.makeWay loc [.down name]).2 = some dst →
        dst = loc ++ [name] ∧ (t.makeWay loc [.down name]).1.isDir dst = true := by
  have hlink := h _ (List.prefix_refl _)
  rw [makeWay, @next_eq _ t true loc (.down name) hdir (by simp) hlink]
  dsimp only [Step.from]
  rw [makeWay]
  refine ⟨?_, fun dst hdst ↦ ?_⟩
  · dsimp only
    rw [mkdir]
    split
    · rename_i hnone
      rw [Option.isNone_iff_eq_none] at hnone
      refine grows_set (concat_ne_nil _ _) ?_ hlink (by simp)
      rw [isDir, hnone]
    · exact Grows.refl _ t
  · obtain ⟨hmade, heq⟩ := Option.ite_none_right_eq_some.mp hdst
    exact Option.some.inj heq ▸ ⟨rfl, hmade⟩

variable {copy : FileTree β → Name → FileTree β × CopyStatus} {P R : FileTree β → Prop}

theorem copyEntries_inv (h : ∀ t, ∀ entry ∈ entries, P t → P (copy t entry).1) (ht : P t) :
    P (copyEntries copy t entries).1 := by
  induction entries generalizing t with
  | nil => exact ht
  | cons entry entries ih =>
    have hfirst := h t entry List.mem_cons_self ht
    rw [copyEntries]
    split
    · exact hfirst
    · exact ih (fun t entry hentry ↦ h t entry (List.mem_cons_of_mem _ hentry)) hfirst

theorem grows_copyEntry
    {copyDir : FileTree β → Location → Location → List Step → FileTree β × CopyStatus}
    (h : ∀ (t : FileTree β) src, t.isDir dst = true → t.NoLinks (dst ++ [name]) →
      Grows (dst ++ [name]) t (copyDir t src dst [.down name]).1)
    (hdir : t.isDir dst = true) (hlinks : t.NoLinks (dst ++ [name])) :
    Grows (dst ++ [name]) t (copyEntry copyDir src dst t name).1 := by
  rw [copyEntry]
  split
  · exact Grows.refl _ t
  · split
    · exact h t _ hdir hlinks
    · split
      · rename_i t' hcopy
        exact grows_copy2 hdir hlinks hcopy
      · exact Grows.refl _ t

theorem grows_copyEntries
    {copyDir : FileTree β → Location → Location → List Step → FileTree β × CopyStatus}
    (h : ∀ (t : FileTree β) src name, t.isDir dst = true → t.NoLinks (dst ++ [name]) →
      Grows (dst ++ [name]) t (copyDir t src dst [.down name]).1)
    (hdir : t.isDir dst = true) (hlinks : t.NoLinks dst) :
    Grows dst t (copyEntries (copyEntry copyDir src dst) t entries).1 := by
  refine copyEntries_inv (P := Grows dst t) (fun u entry _ hu ↦ hu.trans ?_) (Grows.refl dst t)
  exact (grows_copyEntry (fun t src ↦ h t src entry) (hu.dirs dst hdir)
    ((hlinks.below entry).grows hu)).mono (List.prefix_append _ _)

theorem grows_copytree_down (depth : ℕ) (hdir : t.isDir loc = true)
    (hlinks : t.NoLinks (loc ++ [name])) :
    Grows (loc ++ [name]) t (copytree depth t src loc [.down name]).1 := by
  induction depth generalizing t src loc name with
  | zero => exact Grows.refl _ t
  | succ depth ih =>
    have hmade := makeWay_down hdir hlinks
    rw [copytree]
    generalize t.makeWay loc [.down name] = made at hmade
    obtain ⟨t', _ | dst⟩ := made
    · split
      · exact hmade.1
      · exact Grows.refl _ t
    · obtain ⟨rfl, hdst⟩ := hmade.2 dst rfl
      split
      · exact hmade.1.trans
          (grows_copyEntries (fun _ _ _ ↦ ih) hdst (hlinks.grows hmade.1))
      · exact Grows.refl _ t

/-- **A copy** into a directory that is there changes nothing but what is below it. -/
theorem grows_copytree (depth : ℕ) (hopen : t.Open loc way)
    (hlinks : t.NoLinks (arrive loc way)) :
    Grows (arrive loc way) t (copytree depth t src loc way).1 := by
  rcases depth with _ | depth
  · exact Grows.refl _ t
  · rw [copytree, hopen.makeWay_eq]
    split
    · exact grows_copyEntries (fun _ _ _ ↦ grows_copytree_down depth)
        (hopen.1 _ (arrive_mem_waypoints loc way)) hlinks
    · exact Grows.refl _ t

/-! ## What is copied -/

/-- A file in the directory that is copied, or the one a link there leads to; it does not come from
below the target, unless it is the very file it is copied to; and no directory is where it goes. -/
structure CopiesFile (t : FileTree β) (src dst : Location) (name : Name) (loc : Location)
    (content : β) : Prop where
  enters : t.enter src name = some loc
  source : t.node? loc = some (.file content)
  apart : dst <+: loc → loc = dst ++ [name]
  target : t.isDir (dst ++ [name]) = false

variable {content : β}

/-- So far everything has changed below the target, and there the file is as it was, or the copy. -/
structure Copied (t : FileTree β) (dst : Location) (name : Name) (content : β) (u : FileTree β) :
    Prop where
  grows : Grows dst t u
  target : u.node? (dst ++ [name]) = t.node? (dst ++ [name]) ∨
    u.node? (dst ++ [name]) = some (.file content)

theorem Copied.copiesFile (h : Copied t dst name content u)
    (hfile : CopiesFile t src dst name loc content) : CopiesFile u src dst name loc content := by
  refine ⟨enter_grows h.grows hfile.enters, ?_, hfile.apart, ?_⟩
  · by_cases hbelow : dst <+: loc
    · have hsource := hfile.source
      rw [hfile.apart hbelow] at hsource ⊢
      rcases h.target with heq | heq
      · rw [heq, hsource]
      · exact heq
    · rw [h.grows.same loc hbelow, hfile.source]
  · rcases h.target with heq | heq
    · rw [isDir, heq]
      exact hfile.target
    · rw [isDir, heq]

/-- **The copy of the file** itself. -/
theorem copyEntry_file
    {copyDir : FileTree β → Location → Location → List Step → FileTree β × CopyStatus}
    (hdir : t.isDir dst = true) (hlinks : t.NoLinks dst)
    (hfile : CopiesFile t src dst name loc content) :
    copyEntry copyDir src dst t name = (t, .error) ∨
      (copyEntry copyDir src dst t name).1.node? (dst ++ [name]) = some (.file content) := by
  have hnotDir : t.isDir loc = false := by rw [isDir, hfile.source]
  rw [copyEntry, hfile.enters]
  dsimp only
  rw [hnotDir, if_neg Bool.false_ne_true, copy2, enter_eq hdir (hlinks.below name),
    Option.bind_some, hfile.target, if_neg Bool.false_ne_true, Option.bind_some, hfile.source]
  split
  · rename_i t' hcopy
    obtain ⟨-, hcopy⟩ := Option.ite_none_left_eq_some.mp hcopy
    obtain rfl := Option.some.inj hcopy
    refine Or.inr ?_
    rw [node?_set (concat_ne_nil dst name), if_pos rfl]
  · exact Or.inl rfl

theorem Copied.copyEntry (depth : ℕ) (h : Copied t dst name content u)
    (hdir : t.isDir dst = true) (hlinks : t.NoLinks dst)
    (hfile : CopiesFile t src dst name loc content) (entry : Name) :
    Copied t dst name content (copyEntry (copytree depth) src dst u entry).1 := by
  have hdir' := h.grows.dirs dst hdir
  have hgrows : Grows (dst ++ [entry]) u (FileTree.copyEntry (copytree depth) src dst u entry).1 :=
    grows_copyEntry (fun _ _ ↦ grows_copytree_down depth) hdir'
      ((hlinks.below entry).grows h.grows)
  refine ⟨h.grows.trans (hgrows.mono (List.prefix_append _ _)), ?_⟩
  by_cases hentry : entry = name
  · subst hentry
    rcases copyEntry_file hdir' (hlinks.grows h.grows) (h.copiesFile hfile) with heq | heq
    · rw [heq]
      exact h.target
    · exact Or.inr heq
  · rw [hgrows.same]
    · exact h.target
    · intro hbelow
      have hnames := List.append_cancel_left (List.IsPrefix.eq_of_length hbelow (by simp))
      exact hentry (List.singleton_inj.mp hnames)

end Copies

end FileTree

end ArgusMcp
