import ArgusMcp.Library.FileCopy
import ArgusMcp.Runtime.Skills
import Mathlib.Data.Char
import Mathlib.Data.List.Lex
import Mathlib.Data.List.Sort

/-!
# Where skills are installed

`SkillManager.install` makes a directory for a skill below `skills_dir`, under the name that its
manifest has, and copies the skill there. The name may be any text. `uninstall` removes the
directory a skill was found in, or installed to, if its real path is one below `skills_dir`. In
between `discover` forgets what is in memory and looks for manifests in the directories of
`skills_dir`.

Files are a `FileTree`, with links, which these calls follow and do not make. Of JSON there is what
a file is read as, and that what is written is read again.

## Confinement

A call for a skill changes nothing but what is below the directory of its name, the file for the
state, and directories that are missing on the way to `skills_dir` (`Confined`). And what has been
installed can be uninstalled. Both are so as long as names are single components, no links are where
skills are, a directory has the manifest of the skill that is uninstalled with it, and nothing makes
`discover` raise (`confined_of_guarded`).
-/

namespace ArgusMcp

open PosixPath

namespace SkillInstall

open Skills (SkillStatus)

/-- What a file is read as. -/
inductive Loaded (O : Type) where
  | value (v : Value O)
  | jsonDecodeError
  /-- Any other one: it is not UTF-8, or has an integer with too many digits. -/
  | valueError
  | recursionError

/-- The texts of JSON values, among the contents of files. -/
structure Json (β O : Type) where
  load : β → Loaded O
  dump : Dict String String → β
  load_dump : ∀ d, load (dump d) = .value (.dict (d.items.map fun e ↦ (e.1, .str e.2)))

/-- What is raised. -/
inductive Failure where
  | skillManifestError
  | valueError
  | typeError
  | attributeError
  /-- Or the `ValueError` that a zero byte in a path leads to. -/
  | osError
  | recursionError
deriving DecidableEq

/-! ## Manifests -/

/-- The part of a `SkillManifest` that is used to install it. Nothing checks of what types these
are. -/
structure SkillManifest (O : Type) where
  name : Value O
  version : Value O
  tools : Value O
  dependencies : Value O

section Manifests

variable {O : Type} [PyObject O]

/-- `SkillManifest.from_dict`. -/
def SkillManifest.fromDict (data : List (String × Value O)) : Except Failure (SkillManifest O) :=
  match data.lookup "name" with
  | none => .error .skillManifestError
  | some name =>
    if name.truthy then
      .ok
        { name
          version := (data.lookup "version").getD (.str "0.0.0")
          tools := (data.lookup "tools").getD (.list [])
          dependencies := (data.lookup "dependencies").getD (.list []) }
    else .error .skillManifestError

/-- `SkillManifest.from_file`, of a file that can be opened. -/
def SkillManifest.fromFile {β : Type} (json : Json β O) (content : β) :
    Except Failure (SkillManifest O) :=
  match json.load content with
  | .valueError => .error .valueError
  | .recursionError => .error .recursionError
  | .jsonDecodeError => .error .skillManifestError
  | .value (.dict data) => fromDict data
  | .value _ => .error .skillManifestError

/-- What a `for` loop goes through. Numbers cannot be iterated over. -/
def iterate : Value O → Option (List (Value O))
  | .list l => some l
  | .str s => some (s.toList.map fun c ↦ .str (String.singleton c))
  | .dict d => some (d.map fun e ↦ .str e.1)
  | _ => none

/-- It can be looked up in a dictionary. -/
def hashable : Value O → Bool
  | .list _ | .dict _ => false
  | _ => true

/-- `SkillManifest.validate`. -/
def SkillManifest.validate (manifest : SkillManifest O) : Except Failure (List String) :=
  match iterate manifest.tools with
  | none => .error .typeError
  | some tools => .ok <|
    (if manifest.name.truthy then [] else ["Missing 'name'"]) ++
      (if manifest.version.truthy then [] else ["Missing 'version'"]) ++
      tools.zipIdx.flatMap fun tool ↦
        if (tool.1.get? "name").isSome then [] else
          [s!"Tool {tool.2}: must be an object with 'name'"]

end Manifests

/-! ## The manager -/

structure InstalledSkill (O : Type) where
  manifest : SkillManifest O
  status : SkillStatus
  installPath : Path

abbrev Memory (O : Type) := Dict String (InstalledSkill O)

/-- What a manager is given, and where it runs. -/
structure Site (β O : Type) where
  skillsDir : Path
  cwd : Location
  json : Json β O
  /-- How deep `copytree` can go. -/
  depth : ℕ

/-- What is left by a call, and what it raises. -/
structure Outcome (β O : Type) where
  tree : FileTree β
  memory : Memory O
  failure : Option Failure

def stateName : Name := ⟨"skills-state.json".toList, by decide⟩

def manifestName : Name := ⟨"manifest.json".toList, by decide⟩

namespace Site

variable {β O : Type} [PyObject O] (site : Site β O)

def stateFile : Path := join site.skillsDir stateName.1

def loadState (tree : FileTree β) : Except Failure (Value O) :=
  match (tree.read site.cwd site.stateFile).map site.json.load with
  | some (.value loaded) => .ok loaded
  | some .recursionError => .error .recursionError
  | _ => .ok (.dict [])

def saveState (tree : FileTree β) (memory : Memory O) : FileTree β × Bool :=
  match tree.makedirs site.cwd site.skillsDir with
  | (made, none) => (made, false)
  | (made, some _) =>
    match made.writeFile site.cwd site.stateFile
        (site.json.dump (memory.mapValues fun skill ↦ skill.status.value)) with
    | some tree => (tree, true)
    | none => (made, false)

/-- The status in the file for the state. -/
def status (state : List (String × Value O)) (name : String) : SkillStatus :=
  match state.lookup name with
  | some (.str "disabled") => .disabled
  | _ => .enabled

/-- What `discover` does with an entry of `skills_dir`. A skill whose name is not a text is kept
where no name leads to. -/
def discoverEntry (tree : FileTree β) (state : Value O) (memory : Memory O) (entry : Name) :
    Except Failure (Memory O) :=
  let skillPath := join site.skillsDir entry.1
  match (tree.read site.cwd (join skillPath manifestName.1)).map
      (SkillManifest.fromFile site.json) with
  | none => .ok memory
  | some (.error .skillManifestError) => .ok memory
  | some (.error failure) => .error failure
  | some (.ok manifest) =>
    match state with
    | .dict state =>
      if hashable manifest.name then
        match manifest.name with
        | .str name => .ok (memory.set name ⟨manifest, status state name, skillPath⟩)
        | _ => .ok memory
      else .error .typeError
    | _ => .error .attributeError

/-- One entry after another, until one raises. -/
def discoverAll (tree : FileTree β) (state : Value O) :
    Memory O → List Name → Memory O × Option Failure
  | memory, [] => (memory, none)
  | memory, entry :: entries =>
    match site.discoverEntry tree state memory entry with
    | .ok memory => discoverAll tree state memory entries
    | .error failure => (memory, some failure)

def discover (tree : FileTree β) : Memory O × Option Failure :=
  match tree.locate site.cwd site.skillsDir with
  | some loc =>
    if tree.isDir loc then
      match site.loadState tree with
      | .ok state =>
        site.discoverAll tree state .empty
          ((tree.children loc).insertionSort fun a b ↦ a.1 ≤ b.1)
      | .error failure => (.empty, some failure)
    else (.empty, none)
  | none => (.empty, none)

/-- The checks that `install` makes of a manifest, and the name it has. -/
def accept (tree : FileTree β) (source : Path) : Except Failure (String × SkillManifest O) :=
  match tree.read site.cwd (join source manifestName.1) with
  | none => .error .skillManifestError
  | some content =>
    (SkillManifest.fromFile site.json content).bind fun manifest ↦
      manifest.validate.bind fun errors ↦
        if errors = [] then
          match iterate manifest.dependencies with
          | none => .error .typeError
          | some dependencies =>
            if dependencies.all hashable then
              match manifest.name with
              | .str name => .ok (name, manifest)
              | _ => .error .typeError
            else .error .typeError
        else .error .skillManifestError

/-- What `install` does with files, but for the state. -/
def prepare (tree : FileTree β) (source dest : Path) : FileTree β × Option Failure :=
  match tree.makedirs site.cwd dest with
  | (made, none) => (made, some .osError)
  | (made, some _) =>
    if abspath site.cwd source = abspath site.cwd dest then (made, none)
    else
      match made.locate site.cwd source with
      | none => (made, some .osError)
      | some src =>
        match FileTree.copytree site.depth made src (start site.cwd dest) (steps dest) with
        | (tree, .ok) => (tree, none)
        | (tree, .error) => (tree, some .osError)
        | (tree, .recursionError) => (tree, some .recursionError)

/-- What both end with. -/
def finish (tree : FileTree β) (memory : Memory O) : Outcome β O :=
  let saved := site.saveState tree memory
  ⟨saved.1, memory, if saved.2 then none else some .osError⟩

def install (tree : FileTree β) (memory : Memory O) (source : Path) : Outcome β O :=
  match site.accept tree source with
  | .error failure => ⟨tree, memory, some failure⟩
  | .ok (name, manifest) =>
    let dest := join site.skillsDir name.toList
    match site.prepare tree source dest with
    | (tree, some failure) => ⟨tree, memory, some failure⟩
    | (tree, none) => site.finish tree (memory.set name ⟨manifest, .enabled, dest⟩)

/-- The real path is one below that of `skills_dir`. -/
def within (tree : FileTree β) (path : Path) : Bool :=
  (render (tree.realpath site.cwd site.skillsDir) ++ ['/']).isPrefixOf
    (render (tree.realpath site.cwd path))

def uninstall (tree : FileTree β) (memory : Memory O) (name : String) : Outcome β O :=
  match memory.get? name with
  | none => ⟨tree, memory, some .valueError⟩
  | some skill =>
    if skill.installPath ≠ [] ∧ tree.pathIsDir site.cwd skill.installPath then
      if site.within tree skill.installPath then
        let removed := tree.rmtree site.cwd skill.installPath
        if removed.2 then site.finish removed.1 (memory.del name)
        else ⟨removed.1, memory, some .osError⟩
      else ⟨tree, memory, some .valueError⟩
    else site.finish tree (memory.del name)

end Site

/-! ## Runs -/

section Runs

inductive Op where
  | discover
  | install (source : Path)
  | uninstall (name : String)

/-- The files, what the manager has in memory, and which skills have been installed, and not
uninstalled since. -/
structure State (β O : Type) where
  tree : FileTree β
  memory : Memory O
  installed : String → Bool

variable {β O : Type} [PyObject O] (site : Site β O)

/-- A manager is created. -/
def State.init (tree : FileTree β) : State β O := ⟨tree, .empty, fun _ ↦ false⟩

/-- The skill a call is for, if it is for one. -/
def target (tree : FileTree β) : Op → Option String
  | .discover => none
  | .install source => (site.accept tree source).toOption.map Prod.fst
  | .uninstall name => some name

def perform (s : State β O) : Op → Outcome β O
  | .discover =>
    let found := site.discover s.tree
    ⟨s.tree, found.1, found.2⟩
  | .install source => site.install s.tree s.memory source
  | .uninstall name => site.uninstall s.tree s.memory name

def Op.installs : Op → Bool
  | .install _ => true
  | _ => false

def step (s : State β O) (op : Op) : Option (State β O) :=
  let outcome := perform site s op
  some
    { tree := outcome.tree
      memory := outcome.memory
      installed := fun name ↦
        if outcome.failure = none ∧ target site s.tree op = some name then op.installs
        else s.installed name }

/-! ## What should be -/

/-- Where `skills_dir` is. -/
def Site.base : Location := resolve site.cwd site.skillsDir

/-- The locations on the way to `skills_dir`. -/
def Site.way : List Location := waypoints (start site.cwd site.skillsDir) (steps site.skillsDir)

/-- Nothing but what is in `own` changes, except for directories that were missing on the way to
`skills_dir`; and no links are made. -/
structure Touches (own : Location → Prop) (tree tree' : FileTree β) : Prop where
  nodes : ∀ loc, ¬ own loc → tree'.node? loc = tree.node? loc ∨
    loc ∈ site.way ∧ tree.node? loc = none ∧ tree'.node? loc = some .dir
  links : ∀ loc target, tree'.node? loc = some (.link target) →
    tree.node? loc = some (.link target)

/-- At or below the entry of `skills_dir` with this name, which is a single component. -/
def Below (name : String) (loc : Location) : Prop :=
  ∃ entry : Name, entry.1 = name.toList ∧ site.base ++ [entry] <+: loc

/-- A call changes only what is below the directory of its skill, and the file for the state. -/
def Confined (s : State β O) (op : Op) : Prop :=
  Touches site
    (fun loc ↦ (∃ name, target site s.tree op = some name ∧ Below site name loc) ∨
      loc = site.base ++ [stateName])
    s.tree (perform site s op).tree

/-- `skills_dir` is not the root, and the way there does not lead through one of its directories. -/
def Site.Direct : Prop := site.base ≠ [] ∧ ∀ loc ∈ site.way, site.base <+: loc → loc = site.base

/-- No link is on the way to `skills_dir`, nor in the place of the file for the state. -/
def Tame (tree : FileTree β) : Prop :=
  (∀ loc ∈ site.way, ∀ target, tree.node? loc ≠ some (.link target)) ∧
    ∀ target, tree.node? (site.base ++ [stateName]) ≠ some (.link target)

/-- The manifest of an entry, if there is one, does not make `discover` raise. -/
def Readable (tree : FileTree β) (entry : Name) : Prop :=
  ∀ content, tree.read site.cwd (join (join site.skillsDir entry.1) manifestName.1) = some content →
    SkillManifest.fromFile site.json content = .error .skillManifestError ∨
      ∃ manifest, SkillManifest.fromFile site.json content = .ok manifest ∧
        hashable manifest.name = true

/-- **What keeps skills apart.** The name of what is installed is a component, no links are in the
place of its directory or below it, and no directory in the place of its manifest; and the manifest
does not come from there, unless it is there already. When `discover` is called, no entry of
`skills_dir` is a link, and no manifest makes it raise. A skill is uninstalled that was found in the
directory of its name. -/
def Proper (s : State β O) : Op → Prop
  | .discover => ∀ entry ∈ s.tree.children site.base,
      (∀ target, s.tree.node? (site.base ++ [entry]) ≠ some (.link target)) ∧
        Readable site s.tree entry
  | .install source => ∀ name manifest, site.accept s.tree source = .ok (name, manifest) →
      ∃ entry : Name, entry.1 = name.toList ∧ s.tree.NoLinks (site.base ++ [entry]) ∧
        s.tree.isDir (site.base ++ [entry] ++ [manifestName]) = false ∧
          ∀ loc, s.tree.locate site.cwd (join source manifestName.1) = some loc →
            (site.base ++ [entry] <+: loc ∨
              abspath site.cwd source = abspath site.cwd (join site.skillsDir entry.1)) →
            loc = site.base ++ [entry] ++ [manifestName]
  | .uninstall name => ∀ skill, s.memory.get? name = some skill →
      skill.installPath = join site.skillsDir name.toList ∧ IsName name.toList

end Runs

end SkillInstall

end ArgusMcp
