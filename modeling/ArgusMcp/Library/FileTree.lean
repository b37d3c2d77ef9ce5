import ArgusMcp.Library.Dict
import ArgusMcp.Library.PosixPath

/-!
# Trees of files

Directories, files and symbolic links by their locations. A link is a path, and leads where this
path leads from the directory that the link is in; the way along a path follows links wherever they
stand, also at its end, and comes to its end if there are not too many of them.

Operations are those of `os` and `shutil`, with the reasons to fail that lie in the tree itself, and
the zero byte. One that fails may have done a part of its work.
-/

namespace ArgusMcp

open PosixPath

/-- What is at a location. -/
inductive Node (β : Type*) where
  | dir
  | file (content : β)
  | link (target : Path)

/-- What is in no directory cannot be reached. -/
abbrev FileTree (β : Type*) := Dict Location (Node β)

namespace FileTree

variable {β : Type*}

/-- What is at a location. The root is a directory. -/
def node? (t : FileTree β) (loc : Location) : Option (Node β) :=
  if loc = [] then some .dir else t.get? loc

def isDir (t : FileTree β) (loc : Location) : Bool :=
  match t.node? loc with
  | some .dir => true
  | _ => false

/-- The names of what is in a directory. -/
def children (t : FileTree β) (loc : Location) : List Name :=
  t.keys.filterMap fun q ↦ if q.dropLast = loc then q.getLast? else none

/-- Nothing at a location, nor below it. -/
def remove (t : FileTree β) (loc : Location) : FileTree β :=
  t.filter fun q _ ↦ !loc.isPrefixOf q

/-- Nothing below a location. -/
def clear (t : FileTree β) (loc : Location) : FileTree β :=
  t.filter fun q _ ↦ !loc.isPrefixOf q || q == loc

/-! ## Ways -/

/-- Where a way ends, or is interrupted by a link. -/
inductive Stop where
  | at (loc : Location)
  | link (dir : Location) (target : Path) (rest : List Step)
  | fails

/-- One step of the way. -/
inductive Next where
  | to (loc : Location)
  | link (target : Path)
  | fails

/-- For the system the way leads from one directory to the next, and for `os.path.realpath` over
anything. -/
def next (t : FileTree β) (strict : Bool) (loc : Location) (step : Step) : Next :=
  if t.isDir loc || !strict then
    match step with
    | .nowhere => .fails
    | .up => .to loc.dropLast
    | .down name =>
      match t.node? (loc ++ [name]) with
      | some (.link target) => .link target
      | _ => .to (loc ++ [name])
  else .fails

/-- The way up to the first link. -/
def walk (t : FileTree β) (strict : Bool) : Location → List Step → Stop
  | loc, [] => .at loc
  | loc, step :: way =>
    match t.next strict loc step with
    | .to loc => t.walk strict loc way
    | .link target => .link loc target way
    | .fails => .fails

/-- The way with so many links in it. -/
def follow (t : FileTree β) (strict : Bool) : ℕ → Location → List Step → Option Location
  | 0, _, _ => none
  | links + 1, loc, way =>
    match t.walk strict loc way with
    | .at loc => some loc
    | .link dir target rest => t.follow strict links (start dir target) (steps target ++ rest)
    | .fails => none

/-- `MAXSYMLINKS`, and the way behind the last one. -/
def maxLinks : ℕ := 41

/-- The location of a path that can be reached. There need not be anything at its end. -/
def locate (t : FileTree β) (cwd : Location) (path : Path) : Option Location :=
  if path = [] then none else t.follow true maxLinks (start cwd path) (steps path)

/-- `os.path.realpath`. -/
def realpath (t : FileTree β) (cwd : Location) (path : Path) : Location :=
  (t.follow false maxLinks (start cwd path) (steps path)).getD (resolve cwd path)

/-- `os.path.isdir`. -/
def pathIsDir (t : FileTree β) (cwd : Location) (path : Path) : Bool :=
  (t.locate cwd path).any t.isDir

/-- The last step is a name, and a link has this name. -/
def endsInLink (t : FileTree β) (cwd : Location) (path : Path) : Bool :=
  match (steps path).getLast?, t.follow true maxLinks (start cwd path) (steps path).dropLast with
  | some (.down name), some loc =>
    match t.node? (loc ++ [name]) with
    | some (.link _) => true
    | _ => false
  | _, _ => false

/-- The content of a file that can be read. -/
def read (t : FileTree β) (cwd : Location) (path : Path) : Option β :=
  match (t.locate cwd path).bind t.node? with
  | some (.file content) => some content
  | _ => none

/-! ## Operations -/

/-- A directory, where nothing is. -/
def mkdir (t : FileTree β) (loc : Location) : FileTree β :=
  if (t.node? loc).isNone then t.set loc .dir else t

/-- Makes the directories that are missing on the way, and returns the one it leads to. -/
def makeWay : FileTree β → Location → List Step → FileTree β × Option Location
  | t, loc, [] => (t, if t.isDir loc then some loc else none)
  | t, loc, step :: way =>
    match t.next true loc step with
    | .to loc => makeWay (t.mkdir loc) loc way
    | .link target =>
      match t.follow true maxLinks (start loc target) (steps target) with
      | some loc => makeWay t loc way
      | none => (t, none)
    | .fails => (t, none)

/-- `os.makedirs`, with `exist_ok`. -/
def makedirs (t : FileTree β) (cwd : Location) (path : Path) : FileTree β × Option Location :=
  if path = [] then (t, none) else t.makeWay (start cwd path) (steps path)

/-- Opens a file to write it anew. -/
def writeFile (t : FileTree β) (cwd : Location) (path : Path) (content : β) :
    Option (FileTree β) :=
  (t.locate cwd path).bind fun loc ↦
    if t.isDir loc then none else some (t.set loc (.file content))

/-- `shutil.rmtree`. It refuses a link, which a path with something behind the name is not. What is
named by dots, or by a link, is emptied and cannot be removed then. -/
def rmtree (t : FileTree β) (cwd : Location) (path : Path) : FileTree β × Bool :=
  let last := (path.splitOn '/').getLast?.getD []
  if t.endsInLink cwd path ∧ IsName last then (t, false)
  else
    match t.locate cwd path with
    | none => (t, false)
    | some loc =>
      if t.endsInLink cwd path ∨ last = ['.'] ∨ last = ['.', '.'] then (t.clear loc, false)
      else (t.remove loc, true)

/-! ## What is at a location -/

section

variable {t t' : FileTree β} {loc q : Location}

theorem isDir_iff : t.isDir loc = true ↔ t.node? loc = some .dir := by
  rw [isDir]
  rcases t.node? loc with _ | _ | content | target
  · simp
  · simp
  · simp
  · simp

theorem node?_of_ne_nil (t : FileTree β) (h : loc ≠ []) : t.node? loc = t.get? loc := if_neg h

theorem concat_ne_nil (loc : Location) (name : Name) : loc ++ [name] ≠ [] :=
  List.append_ne_nil_of_right_ne_nil _ (List.cons_ne_nil name [])

theorem node?_set (h : loc ≠ []) (node : Node β) (q : Location) :
    node? (t.set loc node) q = if q = loc then some node else t.node? q := by
  by_cases hq : q = []
  · rw [hq, if_neg h.symm]
    rfl
  · rw [node?_of_ne_nil _ hq, node?_of_ne_nil _ hq]
    exact Dict.get?_set _ _ _ _

/-- Below a location there may be more than before, and other files, and nothing else changes. -/
structure Grows (loc : Location) (t t' : FileTree β) : Prop where
  same : ∀ q, ¬ loc <+: q → t'.node? q = t.node? q
  dirs : ∀ q, t.isDir q = true → t'.isDir q = true
  links : ∀ q target, t'.node? q = some (.link target) ↔ t.node? q = some (.link target)

theorem Grows.refl (loc : Location) (t : FileTree β) : Grows loc t t :=
  ⟨fun _ _ ↦ rfl, fun _ ↦ id, fun _ _ ↦ Iff.rfl⟩

theorem Grows.trans {t'' : FileTree β} (h : Grows loc t t') (h' : Grows loc t' t'') :
    Grows loc t t'' :=
  ⟨fun q hq ↦ (h'.same q hq).trans (h.same q hq), fun q hq ↦ h'.dirs q (h.dirs q hq),
    fun q target ↦ (h'.links q target).trans (h.links q target)⟩

theorem Grows.mono {loc' : Location} (h : Grows loc' t t') (hloc : loc <+: loc') :
    Grows loc t t' :=
  ⟨fun q hq ↦ h.same q fun hbelow ↦ hq (hloc.trans hbelow), h.dirs, h.links⟩

theorem Grows.not_link (h : Grows loc t t') (hq : ∀ target, t.node? q ≠ some (.link target)) :
    ∀ target, t'.node? q ≠ some (.link target) :=
  fun target hlink ↦ hq target ((h.links q target).mp hlink)

/-- Something that is no link takes the place of what is neither a directory nor a link. -/
theorem grows_set {node : Node β} (hloc : loc ≠ []) (hdir : t.isDir loc = false)
    (hlink : ∀ target, t.node? loc ≠ some (.link target)) (hnode : ∀ target, node ≠ .link target) :
    Grows loc t (t.set loc node) := by
  refine ⟨fun q hq ↦ ?_, fun q hq ↦ ?_, fun q target ↦ ?_⟩
  · rw [node?_set hloc, if_neg]
    rintro rfl
    exact hq (List.prefix_refl q)
  · rw [isDir_iff, node?_set hloc, if_neg, isDir_iff.mp hq]
    rintro rfl
    exact absurd (hq.symm.trans hdir) (by decide)
  · rw [node?_set hloc]
    split
    · rename_i heq
      rw [heq]
      exact iff_of_false (fun h ↦ hnode target (Option.some.inj h)) (hlink target)
    · exact Iff.rfl

end

/-! ## Ways through links -/

section

variable {t t' : FileTree β} {strict : Bool} {cwd loc loc' : Location} {way rest : List Step}
  {name : Name} {links : ℕ} {path : Path}

/-- **One step** where no link is. -/
theorem next_eq {step : Step} (hdir : t.isDir loc = true) (hstep : step ≠ .nowhere)
    (hlink : ∀ target, t.node? (step.from loc) ≠ some (.link target)) :
    t.next strict loc step = .to (step.from loc) := by
  rw [next.eq_def, hdir, Bool.true_or, if_pos rfl]
  rcases step with _ | name | _
  · rfl
  · dsimp only
    split
    · rename_i target htarget
      exact absurd htarget (hlink target)
    · rfl
  · exact absurd rfl hstep

theorem of_next_eq {step : Step} (h : t.next true loc step = .to loc') :
    t.isDir loc = true ∧ step ≠ .nowhere ∧ loc' = step.from loc := by
  rw [next.eq_def, Bool.not_true, Bool.or_false] at h
  split at h
  · rename_i hdir
    rcases step with _ | name | _
    · exact ⟨hdir, by simp, (Next.to.inj h).symm⟩
    · dsimp only at h
      split at h
      · exact absurd h (by simp)
      · exact ⟨hdir, by simp, (Next.to.inj h).symm⟩
    · exact absurd h (by simp)
  · exact absurd h (by simp)

theorem of_next_eq_link {step : Step} {target : Path}
    (h : t.next strict loc step = .link target) :
    t.node? (step.from loc) = some (.link target) := by
  rw [next.eq_def] at h
  split at h
  · rcases step with _ | name | _
    · exact absurd h (by simp)
    · dsimp only at h
      split at h
      · rename_i htarget
        exact Next.link.inj h ▸ htarget
      · exact absurd h (by simp)
    · exact absurd h (by simp)
  · exact absurd h (by simp)

theorem walk_append (way rest : List Step) : t.walk strict loc (way ++ rest) =
    match t.walk strict loc way with
    | .at loc => t.walk strict loc rest
    | .link dir target rest' => .link dir target (rest' ++ rest)
    | .fails => .fails := by
  induction way generalizing loc with
  | nil => rfl
  | cons step way ih =>
    rw [List.cons_append, walk, walk]
    rcases t.next strict loc step with loc' | target | _
    · exact ih
    · rfl
    · rfl

theorem walk_down (hdir : t.isDir loc = true)
    (hlink : ∀ target, t.node? (loc ++ [name]) ≠ some (.link target)) :
    t.walk strict loc [.down name] = .at (loc ++ [name]) := by
  rw [walk, @next_eq _ t strict loc (.down name) hdir (by simp) hlink]
  rfl

theorem follow_of_walk (h : t.walk strict loc way = .at loc') :
    t.follow strict (links + 1) loc way = some loc' := by
  rw [follow, h]

/-- **One more step.** -/
theorem follow_append (h : t.follow strict links loc way = some loc') {loc'' : Location}
    (hrest : t.walk strict loc' rest = .at loc'') :
    t.follow strict links loc (way ++ rest) = some loc'' := by
  induction links generalizing loc way with
  | zero => exact absurd h (by simp [follow])
  | succ links ih =>
    rw [follow] at h ⊢
    rw [walk_append]
    rcases hwalk : t.walk strict loc way with m | ⟨dir, target, rest'⟩ | _
    · rw [hwalk] at h
      obtain rfl := Option.some.inj h
      dsimp only
      rw [hrest]
    · rw [hwalk] at h
      dsimp only
      rw [← List.append_assoc]
      exact ih h
    · rw [hwalk] at h
      exact absurd h (by simp)

/-- **Ways stay open** as long as directories stay, and links neither come nor go. -/
theorem follow_mono (hdirs : ∀ q, t.isDir q = true → t'.isDir q = true)
    (hlinks : ∀ q target, t'.node? q = some (.link target) ↔ t.node? q = some (.link target))
    (h : t.follow true links loc way = some loc') : t'.follow true links loc way = some loc' := by
  have hnext : ∀ loc step, t.next true loc step ≠ .fails →
      t'.next true loc step = t.next true loc step := by
    intro loc step hstep
    rw [next.eq_def, Bool.not_true, Bool.or_false] at hstep ⊢
    rw [next.eq_def, Bool.not_true, Bool.or_false]
    split at hstep
    · rename_i hdir
      rw [if_pos hdir, if_pos (hdirs loc hdir)]
      rcases step with _ | name | _
      · rfl
      · dsimp only
        split
        · rename_i target htarget
          rw [(hlinks _ target).mp htarget]
        · rename_i hnone
          split
          · rename_i target htarget
            exact absurd ((hlinks _ target).mpr htarget) (hnone target)
          · rfl
      · rfl
    · exact absurd rfl hstep
  have hwalk : ∀ way loc, t.walk true loc way ≠ .fails →
      t'.walk true loc way = t.walk true loc way := by
    intro way
    induction way with
    | nil => exact fun _ _ ↦ rfl
    | cons step way ih =>
      intro loc hfails
      rw [walk] at hfails ⊢
      rw [walk]
      rcases hstep : t.next true loc step with m | target | _
      · rw [hstep] at hfails
        rw [hnext loc step (by simp [hstep]), hstep]
        exact ih m hfails
      · rw [hnext loc step (by simp [hstep]), hstep]
      · rw [hstep] at hfails
        exact absurd rfl hfails
  induction links generalizing loc way with
  | zero => exact absurd h (by simp [follow])
  | succ links ih =>
    rw [follow] at h ⊢
    rcases hway : t.walk true loc way with m | ⟨dir, target, rest'⟩ | _
    · rw [hway] at h
      rw [hwalk way loc (by simp [hway]), hway]
      exact h
    · rw [hway] at h
      rw [hwalk way loc (by simp [hway]), hway]
      exact ih h
    · rw [hway] at h
      exact absurd h (by simp)

/-- The way leads through directories only, so that no link is in it. -/
def Open (t : FileTree β) (loc : Location) (way : List Step) : Prop :=
  (∀ q ∈ waypoints loc way, t.isDir q = true) ∧ ∀ step ∈ way, step ≠ .nowhere

theorem first_mem_waypoints (loc : Location) (way : List Step) : loc ∈ waypoints loc way := by
  rcases way with _ | ⟨step, way⟩
  · exact List.mem_singleton_self _
  · exact List.mem_cons_self

theorem Open.next_eq {step : Step} (h : t.Open loc (step :: way)) :
    t.next strict loc step = .to (step.from loc) ∧ t.Open (step.from loc) way := by
  obtain ⟨hdirs, hsteps⟩ := h
  rw [waypoints, List.forall_mem_cons] at hdirs
  rw [List.forall_mem_cons] at hsteps
  refine ⟨FileTree.next_eq hdirs.1 hsteps.1 fun target htarget ↦ ?_, hdirs.2, hsteps.2⟩
  have hnext := hdirs.2 _ (first_mem_waypoints _ way)
  rw [isDir_iff, htarget] at hnext
  exact absurd hnext (by simp)

theorem Open.walk_eq (h : t.Open loc way) : t.walk strict loc way = .at (arrive loc way) := by
  induction way generalizing loc with
  | nil => rfl
  | cons step way ih =>
    rw [walk, h.next_eq.1]
    exact ih (@Open.next_eq _ t strict _ _ _ h).2

/-- **A way through directories** leads where its text says. -/
theorem Open.locate_eq (h : t.Open (start cwd path) (steps path)) (hpath : path ≠ []) :
    t.locate cwd path = some (resolve cwd path) := by
  rw [locate, if_neg hpath]
  exact follow_of_walk h.walk_eq

theorem locate_join (h : t.locate cwd path = some loc) (hdir : t.isDir loc = true)
    (hlink : ∀ target, t.node? (loc ++ [name]) ≠ some (.link target)) :
    t.locate cwd (join path name.1) = some (loc ++ [name]) := by
  rw [locate, if_neg (join_ne_nil path name), start_join, steps_join]
  exact follow_append (Option.ite_none_left_eq_some.mp h).2 (walk_down hdir hlink)

/-- What is made on a way without links. -/
structure Made (loc : Location) (way : List Step) (t : FileTree β)
    (made : FileTree β × Option Location) : Prop where
  nodes : ∀ q, made.1.node? q = t.node? q ∨
    q ∈ waypoints loc way ∧ t.node? q = none ∧ made.1.node? q = some .dir
  arrives : ∀ loc', made.2 = some loc' → loc' = arrive loc way ∧ made.1.Open loc way

theorem Made.keeps {made : FileTree β × Option Location} (h : Made loc way t made) {q : Location}
    {node : Node β} (hq : t.node? q = some node) : made.1.node? q = some node := by
  rcases h.nodes q with heq | ⟨-, hnone, -⟩
  · rw [heq, hq]
  · exact absurd (hq.symm.trans hnone) (by simp)

theorem Made.link_iff {made : FileTree β × Option Location} (h : Made loc way t made) (q : Location)
    (target : Path) : made.1.node? q = some (.link target) ↔ t.node? q = some (.link target) := by
  refine ⟨fun hq ↦ ?_, h.keeps⟩
  rcases h.nodes q with heq | ⟨-, -, heq⟩
  · rw [← heq, hq]
  · exact absurd (heq.symm.trans hq) (by simp)

theorem node?_mkdir (t : FileTree β) (loc q : Location) : (t.mkdir loc).node? q = t.node? q ∨
    q = loc ∧ t.node? q = none ∧ (t.mkdir loc).node? q = some .dir := by
  rw [mkdir]
  split
  · rename_i hnone
    have hne : loc ≠ [] := by
      rintro rfl
      exact absurd hnone (by simp [node?])
    rw [node?_set hne]
    split
    · rename_i hq
      exact Or.inr ⟨hq, hq ▸ Option.isNone_iff_eq_none.mp hnone, rfl⟩
    · exact Or.inl rfl
  · exact Or.inl rfl

/-- **What is made on the way** are directories. -/
theorem made_makeWay (h : ∀ q ∈ waypoints loc way, ∀ target, t.node? q ≠ some (.link target)) :
    Made loc way t (t.makeWay loc way) := by
  induction way generalizing t loc with
  | nil =>
    refine ⟨fun q ↦ Or.inl rfl, fun loc' hloc' ↦ ?_⟩
    obtain ⟨hdir, heq⟩ := Option.ite_none_right_eq_some.mp hloc'
    obtain rfl := Option.some.inj heq
    refine ⟨rfl, fun q hq ↦ ?_, fun _ hstep ↦ absurd hstep List.not_mem_nil⟩
    rw [List.mem_singleton.mp hq]
    exact hdir
  | cons step way ih =>
    rw [waypoints, List.forall_mem_cons] at h
    rw [makeWay]
    rcases hnext : t.next true loc step with m | target | _
    · obtain ⟨hdir, hstep, rfl⟩ := of_next_eq hnext
      have hmkdir := node?_mkdir t (step.from loc)
      have hmade := @ih (t.mkdir (step.from loc)) (step.from loc) fun q hq target hlink ↦ by
        rcases hmkdir q with heq | ⟨-, -, heq⟩
        · exact h.2 q hq target (heq ▸ hlink)
        · exact absurd (heq.symm.trans hlink) (by simp)
      dsimp only
      have hnodes : ∀ q, ((t.mkdir (step.from loc)).makeWay (step.from loc) way).1.node? q
            = t.node? q ∨ q ∈ waypoints loc (step :: way) ∧ t.node? q = none ∧
          ((t.mkdir (step.from loc)).makeWay (step.from loc) way).1.node? q = some .dir := by
        intro q
        rcases hmade.nodes q with heq | ⟨hq, hnone, hq'⟩
        · rcases hmkdir q with heq' | ⟨rfl, hnone, hq'⟩
          · exact Or.inl (heq.trans heq')
          · exact Or.inr ⟨List.mem_cons_of_mem loc (first_mem_waypoints _ way), hnone,
              heq.trans hq'⟩
        · refine Or.inr ⟨List.mem_cons_of_mem loc hq, ?_, hq'⟩
          rcases hmkdir q with heq' | ⟨-, hnone', -⟩
          · exact heq'.symm.trans hnone
          · exact hnone'
      refine ⟨hnodes, fun loc' hloc' ↦ ?_⟩
      obtain ⟨rfl, hdirs, hsteps⟩ := hmade.arrives loc' hloc'
      refine ⟨rfl, ?_, List.forall_mem_cons.mpr ⟨hstep, hsteps⟩⟩
      rw [waypoints, List.forall_mem_cons]
      refine ⟨?_, hdirs⟩
      rcases hnodes loc with heq | ⟨-, -, heq⟩
      · rw [isDir, heq]
        exact hdir
      · exact isDir_iff.mpr heq
    · exact absurd (of_next_eq_link hnext) (h.2 _ (first_mem_waypoints _ way) target)
    · exact ⟨fun q ↦ Or.inl rfl, fun loc' hloc' ↦ absurd hloc' (by simp)⟩

/-- **A way that is open** need not be made. -/
theorem Open.makeWay_eq (h : t.Open loc way) : t.makeWay loc way = (t, some (arrive loc way)) := by
  induction way generalizing loc with
  | nil =>
    rw [makeWay, h.1 loc (List.mem_singleton_self loc)]
    rfl
  | cons step way ih =>
    obtain ⟨hnext, hopen⟩ := @Open.next_eq _ t true _ _ _ h
    have hmkdir : t.mkdir (step.from loc) = t := by
      rw [mkdir, isDir_iff.mp (hopen.1 _ (first_mem_waypoints _ way))]
      rfl
    rw [makeWay, hnext]
    dsimp only
    rw [hmkdir]
    exact ih hopen

/-! ## Files and directories of a path -/

end

end FileTree

end ArgusMcp
