import Mathlib.Data.List.Infix
import Mathlib.Tactic.Common

/-!
# Paths

The text of a path, and the steps along it: down by a name, or up. Nothing between two slashes, and
a dot, are no step. The location a path means where there are no links is what the steps lead to
(`resolve`). A path that does not begin with a slash begins where the process is.

Joined to any path at all, a name is one more step (`steps_join`), and only then does the directory
it is joined to say where that is.
-/

namespace ArgusMcp

namespace PosixPath

abbrev Path := List Char

/-- The byte that ends a path for the system. -/
def nul : Char := '\x00'

/-- A single component of a path, which a file can be called. -/
def IsName (s : List Char) : Prop :=
  s ≠ [] ∧ s ≠ ['.'] ∧ s ≠ ['.', '.'] ∧ '/' ∉ s ∧ nul ∉ s

instance (s : List Char) : Decidable (IsName s) := inferInstanceAs (Decidable (_ ∧ _))

/-- What a file is called. -/
abbrev Name := { s : List Char // IsName s }

/-- The names on the way from the root. -/
abbrev Location := List Name

/-! ## Where a path leads -/

inductive Step where
  | up
  | down (name : Name)
  /-- What has the zero byte in it is no path. -/
  | nowhere

/-- What is between two slashes, as a step. -/
def step? (s : List Char) : Option Step :=
  if s = [] ∨ s = ['.'] then none
  else if s = ['.', '.'] then some .up
  else if h : IsName s then some (.down ⟨s, h⟩)
  else some .nowhere

def steps (path : Path) : List Step := (path.splitOn '/').filterMap step?

def isAbsolute (path : Path) : Bool := path.head? == some '/'

/-- Where the way along a path begins. -/
def start (cwd : Location) (path : Path) : Location := if isAbsolute path then [] else cwd

/-- Where one step leads. -/
def Step.from (loc : Location) : Step → Location
  | up => loc.dropLast
  | down name => loc ++ [name]
  | nowhere => loc

/-- Where the way leads. -/
def arrive (loc : Location) (way : List Step) : Location := way.foldl Step.from loc

/-- The location of a path where there are no links. -/
def resolve (cwd : Location) (path : Path) : Location := arrive (start cwd path) (steps path)

/-- All locations on the way, from where it begins to where it leads. -/
def waypoints : Location → List Step → List Location
  | loc, [] => [loc]
  | loc, step :: way => loc :: waypoints (step.from loc) way

/-- The text of a location. -/
def render (loc : Location) : Path := '/' :: ['/'].intercalate (loc.map Subtype.val)

/-- `os.path.join`. -/
def join (path other : Path) : Path :=
  if isAbsolute other then other
  else if path = [] ∨ path.getLast? = some '/' then path ++ other
  else path ++ '/' :: other

/-- `os.path.abspath`: two slashes at the beginning are kept, three are not. -/
def abspath (cwd : Location) (path : Path) : Bool × Location :=
  (['/', '/'].isPrefixOf path && !(['/', '/', '/'].isPrefixOf path), resolve cwd path)

/-! ## Steps -/

theorem step?_name (name : Name) : step? name.1 = some (.down name) := by
  obtain ⟨s, h⟩ := name
  rw [step?, if_neg (not_or.mpr ⟨h.1, h.2.1⟩), if_neg h.2.2.1, dif_pos h]

theorem not_isAbsolute (name : Name) : isAbsolute name.1 = false := by
  obtain ⟨_ | ⟨c, cs⟩, h⟩ := name
  · rfl
  · refine beq_false_of_ne fun hc ↦ h.2.2.2.1 ?_
    rw [← Option.some.inj hc]
    exact List.mem_cons_self

theorem join_ne_nil (path : Path) (name : Name) : join path name.1 ≠ [] := by
  rw [join, not_isAbsolute, if_neg Bool.false_ne_true]
  split
  · exact List.append_ne_nil_of_right_ne_nil _ name.2.1
  · exact List.append_ne_nil_of_right_ne_nil _ (List.cons_ne_nil _ _)

/-- **A name is one more part** between slashes. -/
theorem exists_splitOn_join (path : Path) (name : Name) : ∃ parts,
    (join path name.1).splitOn '/' = parts ++ [name.1] ∧ parts.filterMap step? = steps path := by
  have hname : name.1.splitOn '/' = [name.1] := List.splitOn_eq_singleton name.2.2.2.2.1
  have hslash : ∀ front : Path,
      (front ++ '/' :: name.1).splitOn '/' = front.splitOn '/' ++ [name.1] := fun front ↦ by
    rw [List.splitOn_append_cons_self, hname]
  rw [join, not_isAbsolute, if_neg Bool.false_ne_true]
  rcases List.eq_nil_or_concat path with rfl | ⟨front, c, rfl⟩
  · rw [if_pos (Or.inl rfl)]
    exact ⟨[], hname, rfl⟩
  · rw [List.concat_eq_append, List.getLast?_concat]
    split
    · rename_i hc
      obtain rfl : c = '/' := Option.some.inj (hc.resolve_left (by simp))
      refine ⟨front.splitOn '/', by rw [List.append_assoc]; exact hslash front, ?_⟩
      rw [steps, List.splitOn_append_cons_self, List.filterMap_append]
      exact (List.append_nil _).symm
    · exact ⟨_, hslash _, rfl⟩

/-- **A name is one more step.** -/
theorem steps_join (path : Path) (name : Name) :
    steps (join path name.1) = steps path ++ [.down name] := by
  obtain ⟨parts, hsplit, hparts⟩ := exists_splitOn_join path name
  rw [steps, hsplit, List.filterMap_append, hparts, List.filterMap_cons, step?_name]
  rfl

theorem start_join (cwd : Location) (path : Path) (name : Name) :
    start cwd (join path name.1) = start cwd path := by
  have habsolute : isAbsolute (join path name.1) = isAbsolute path := by
    rw [join, not_isAbsolute, if_neg Bool.false_ne_true]
    rcases path with _ | ⟨c, cs⟩
    · exact not_isAbsolute name
    · split
      · rfl
      · rfl
  rw [start, start, habsolute]

theorem arrive_mem_waypoints (loc : Location) (way : List Step) :
    arrive loc way ∈ waypoints loc way := by
  induction way generalizing loc with
  | nil => exact List.mem_singleton_self loc
  | cons step way ih => exact List.mem_cons_of_mem loc (ih (step.from loc))

end PosixPath

end ArgusMcp
