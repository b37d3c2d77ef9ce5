import ArgusMcp.Library.Dict

/-!
# Naming policy: conflict strategies, filters and rename maps

The pure part of capability registration. A backend's item passes its server's filter under the
name the backend gave it, is renamed by the server's rename map, and is then offered under the name
the conflict strategy makes of it; only when that name is already taken is the strategy asked again.

The modules modelled are `bridge/conflict.py`, `bridge/filter.py` and `bridge/rename.py`. Of the
shell-style patterns of the standard library's `fnmatch` the whole grammar is kept (`*`, `?`,
`[seq]`, `[!seq]` with ranges), as it is documented for a case-sensitive platform.
-/

namespace ArgusMcp

/-! ## Conflict resolution -/

/-- The result of conflict resolution. -/
inductive ConflictAction where
  | skip
  | replace
  | error
  | rename (newName : String)
  deriving DecidableEq, Repr

/-- Raised when capability names conflict while aggregating from different backend servers. -/
structure CapabilityConflictError where
  capName : String
  svr1Name : String
  svr2Name : String
  deriving DecidableEq, Repr

/-- The text of the exception. -/
def CapabilityConflictError.message (e : CapabilityConflictError) : String :=
  "Capability name conflict: '" ++ e.capName ++ "' is provided by both '" ++ e.svr1Name ++
    "' and '" ++ e.svr2Name ++ "'. Ensure server names or capability prefixes are unique, or " ++
    "configure a conflict resolution strategy."

/-- The four configurable strategies, each with the values its constructor takes. -/
inductive ConflictStrategy where
  | firstWinsStrategy
  | prefixStrategy (separator : String)
  | priorityStrategy (order : List String) (separator : String)
  | errorStrategy
  deriving DecidableEq, Repr

namespace ConflictStrategy

/-- The priority lookup built from the configured order: a server listed twice keeps its last
index. -/
def priority (order : List String) : Dict String ℕ :=
  Dict.ofList (order.zipIdx)

/-- The priority of a server, lower being higher. Unlisted servers get the length of the order. -/
def getPriority (order : List String) (serverName : String) : ℕ :=
  (priority order).getD serverName order.length

/-- The name under which a capability is first offered, asked for *every* capability. -/
def transformName : ConflictStrategy → String → String → String
  | firstWinsStrategy, _, originalName => originalName
  | prefixStrategy separator, serverName, originalName => serverName ++ separator ++ originalName
  | priorityStrategy _ _, _, originalName => originalName
  | errorStrategy, _, originalName => originalName

/-- What to do when `exposedName` is already registered by `existingServer`. -/
def handleConflict : ConflictStrategy → String → String → String →
    Except CapabilityConflictError ConflictAction
  | firstWinsStrategy, _, _, _ => .ok .skip
  | prefixStrategy _, _, _, _ => .ok .skip
  | priorityStrategy order separator, exposedName, existingServer, newServer =>
    if getPriority order newServer < getPriority order existingServer then .ok .replace
    else .ok (.rename (newServer ++ separator ++ exposedName))
  | errorStrategy, exposedName, existingServer, newServer =>
    .error ⟨exposedName, existingServer, newServer⟩

end ConflictStrategy

/-! ## Shell-style patterns -/

namespace Fnmatch

/-- One element of a translated pattern. -/
inductive Token where
  | star
  | anyChar
  | lit (c : Char)
  | seq (negated : Bool) (ranges : List (Char × Char))
  deriving DecidableEq, Repr

/-- The contents of `[...]` as ranges, a single character being a range of its own. A hyphen makes
a range when it stands between two characters. -/
def seqRanges : List Char → List (Char × Char)
  | [] => []
  | c :: '-' :: d :: cs => (c, d) :: seqRanges cs
  | c :: cs => (c, c) :: seqRanges cs

/-- Splits what follows `[` at the closing bracket. A bracket in first place, after an optional
`!`, is a member of the set; without a closing bracket there is no set at all. -/
def seqSplit (cs : List Char) : Option (Bool × List Char × List Char) :=
  let (negated, cs) := match cs with
    | '!' :: cs => (true, cs)
    | cs => (false, cs)
  let (lead, cs) := match cs with
    | ']' :: cs => ([']'], cs)
    | cs => ([], cs)
  match cs.span (· ≠ ']') with
  | (_, []) => none
  | (body, _ :: rest) => some (negated, lead ++ body, rest)

/-- The tokens of a pattern. The first argument bounds the number of tokens, and the length of the
pattern is enough. -/
def tokens : ℕ → List Char → List Token
  | 0, _ => []
  | _ + 1, [] => []
  | n + 1, '*' :: cs => .star :: tokens n cs
  | n + 1, '?' :: cs => .anyChar :: tokens n cs
  | n + 1, '[' :: cs =>
    match seqSplit cs with
    | none => .lit '[' :: tokens n cs
    | some (negated, body, rest) => .seq negated (seqRanges body) :: tokens n rest
  | n + 1, c :: cs => .lit c :: tokens n cs

/-- A whole name against a whole token list. -/
def matchTokens : List Token → List Char → Bool
  | [], cs => cs.isEmpty
  | .star :: ts, cs => cs.tails.any (matchTokens ts)
  | .anyChar :: ts, _ :: cs => matchTokens ts cs
  | .lit d :: ts, c :: cs => decide (c = d) && matchTokens ts cs
  | .seq negated ranges :: ts, c :: cs =>
    (ranges.any (fun r ↦ decide (r.1 ≤ c ∧ c ≤ r.2)) != negated) && matchTokens ts cs
  | _ :: _, [] => false

def fnmatch (name pat : String) : Bool :=
  matchTokens (tokens pat.length pat.toList) name.toList

example : fnmatch "read_file" "read_*" = true ∧ fnmatch "b" "[!a-c]" = false := by decide

end Fnmatch

/-! ## Filters -/

/-- Allow and deny glob patterns of one server for one capability type. -/
structure CapabilityFilter where
  allow : List String
  deny : List String
  deriving DecidableEq, Repr

/-- Deny takes precedence over allow; an empty allow list lets everything else through. -/
def CapabilityFilter.isAllowed (f : CapabilityFilter) (name : String) : Bool :=
  if f.deny ≠ [] ∧ f.deny.any (Fnmatch.fnmatch name) then false
  else if f.allow ≠ [] then f.allow.any (Fnmatch.fnmatch name)
  else true

theorem CapabilityFilter.isAllowed_eq_false_of_deny {f : CapabilityFilter} {name pat : String}
    (hpat : pat ∈ f.deny) (hmatch : Fnmatch.fnmatch name pat = true) :
    f.isAllowed name = false := by
  rw [isAllowed, if_pos]
  exact ⟨List.ne_nil_of_mem hpat, List.any_eq_true.mpr ⟨pat, hpat, hmatch⟩⟩

/-! ## Rename maps -/

/-- One entry of a rename map: a new name, a new description, or both. -/
structure Override where
  name : Option String
  description : Option String
  deriving DecidableEq, Repr

/-- Per-server overrides, from original capability names to their replacements. -/
structure RenameMap where
  overrides : Dict String Override

namespace RenameMap

/-- The rename lookup: only the entries with a name. -/
def forward (m : RenameMap) : Dict String String :=
  Dict.ofList (m.overrides.items.filterMap fun e ↦ e.2.name.map fun n ↦ (e.1, n))

def getNewName (m : RenameMap) (originalName : String) : String :=
  m.forward.getD originalName originalName

def getDescriptionOverride (m : RenameMap) (originalName : String) : Option String :=
  (m.overrides.get? originalName).bind Override.description

end RenameMap

end ArgusMcp
