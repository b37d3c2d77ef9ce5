import Mathlib.Data.Int.Basic
import Mathlib.Data.List.Infix

/-!
# Recognising authentication failures

When a backend does not start, `looks_like_auth_failure` (`bridge/auth_discovery.py`) decides
whether it is worth trying to log in there. What it looks at is an exception, and often a group of
exceptions: the task groups of the client wrap what goes wrong in one of their tasks, and a task
group inside of a task group wraps it twice.

## How far it looks

The function looks at the exception, and at what a group holds, but not at what the groups inside of
a group hold. What it reads of a group is the text, which is the message and the number of
exceptions. So it finds every failure that a group holds itself (`of_directAuth`), and may miss one
that is further down or report one that is not there (`looksLikeAuthFailure_correct_iff`).
-/

namespace ArgusMcp

namespace AuthDiscovery

/-! ## Exceptions -/

/-- An exception: the name of its class, the status of its response if it has one, and its text; or
a group, with a message and at least one exception. -/
inductive Exc where
  | leaf (typeName : String) (status : Option ℤ) (text : String)
  | group (message : String) (first : Exc) (rest : List Exc)

namespace Exc

/-- `type(e).__name__`. -/
def typeName : Exc → String
  | leaf typeName _ _ => typeName
  | group _ _ _ => "ExceptionGroup"

/-- `getattr(getattr(e, "response", None), "status_code", 0)`. -/
def statusCode : Exc → ℤ
  | leaf _ status _ => status.getD 0
  | group _ _ _ => 0

/-- `str(e)`. A group tells how many exceptions it has. -/
def str : Exc → String
  | leaf _ _ text => text
  | group message _ rest =>
    message ++ " (" ++ toString (rest.length + 1) ++
      (if rest.length = 0 then " sub-exception)" else " sub-exceptions)")

/-- `getattr(exc, "exceptions", None)`. -/
def exceptions : Exc → List Exc
  | leaf _ _ _ => []
  | group _ first rest => first :: rest

def isGroup : Exc → Bool
  | leaf _ _ _ => false
  | group _ _ _ => true

mutual

/-- The exceptions that are no groups, at any depth. -/
def leaves : Exc → List Exc
  | leaf typeName status text => [leaf typeName status text]
  | group _ first rest => leaves first ++ leavesList rest

def leavesList : List Exc → List Exc
  | [] => []
  | e :: l => leaves e ++ leavesList l

end

theorem mem_leavesList {x : Exc} {l : List Exc} : x ∈ leavesList l ↔ ∃ e ∈ l, x ∈ e.leaves := by
  induction l with
  | nil => simp [leavesList]
  | cons e l ih => rw [leavesList, List.mem_append, ih, List.exists_mem_cons_iff]

theorem mem_leaves_group {x : Exc} {message : String} {first : Exc} {rest : List Exc} :
    x ∈ (group message first rest).leaves ↔
      ∃ e ∈ (group message first rest).exceptions, x ∈ e.leaves := by
  rw [leaves, List.mem_append, mem_leavesList, exceptions, List.exists_mem_cons_iff]

theorem leaves_eq_of_not_isGroup {e : Exc} (h : e.isGroup = false) : e.leaves = [e] := by
  rcases e with ⟨typeName, status, text⟩ | ⟨message, first, rest⟩
  · rw [leaves]
  · exact absurd h (by simp [isGroup])

end Exc

/-! ## The test -/

/-- A text has `401`, `403` or `unauthorized` in it. Of `str.lower` only the letters of ASCII
matter. -/
def mentionsAuth (text : String) : Bool :=
  let msg := text.toList.map Char.toLower
  ["401".toList, "unauthorized".toList, "403".toList].any fun word ↦ decide (word <:+: msg)

def isAuthStatus (e : Exc) : Bool :=
  if e.typeName = "HTTPStatusError" then decide (e.statusCode ∈ [401, 403]) else mentionsAuth e.str

def looksLikeAuthFailure (exc : Exc) : Bool :=
  if isAuthStatus exc then true else exc.exceptions.any isAuthStatus

/-! ## What it is to find -/

/-- Somewhere in the tree there is a failure to authenticate: a response with status 401 or 403, or
another exception whose text says so. -/
def HasAuthLeaf (exc : Exc) : Prop := ∃ e ∈ exc.leaves, isAuthStatus e = true

/-- The group itself holds one. -/
def DirectAuth (exc : Exc) : Prop :=
  ∃ e ∈ exc.exceptions, e.isGroup = false ∧ isAuthStatus e = true

/-- A group inside of the group has one. -/
def NestedAuth (exc : Exc) : Prop :=
  ∃ e ∈ exc.exceptions, e.isGroup = true ∧ ∃ x ∈ e.leaves, isAuthStatus x = true

/-- The group, or a group that it holds, has a text that sounds like one. -/
def GroupMentionsAuth (exc : Exc) : Prop :=
  (exc.isGroup = true ∧ mentionsAuth exc.str = true) ∨
    ∃ e ∈ exc.exceptions, e.isGroup = true ∧ mentionsAuth e.str = true

theorem isAuthStatus_group {e : Exc} (h : e.isGroup = true) : isAuthStatus e = mentionsAuth e.str := by
  rcases e with ⟨typeName, status, text⟩ | ⟨message, first, rest⟩
  · exact absurd h (by simp [Exc.isGroup])
  · exact if_neg (by decide : ¬ "ExceptionGroup" = "HTTPStatusError")

/-- What is tested of the exceptions of a group: those that are groups by their text. -/
theorem exists_isAuthStatus_iff {exc : Exc} :
    (∃ e ∈ exc.exceptions, isAuthStatus e = true) ↔
      DirectAuth exc ∨ ∃ e ∈ exc.exceptions, e.isGroup = true ∧ mentionsAuth e.str = true := by
  constructor
  · rintro ⟨e, he, hauth⟩
    by_cases hgroup : e.isGroup = true
    · rw [isAuthStatus_group hgroup] at hauth
      exact Or.inr ⟨e, he, hgroup, hauth⟩
    · exact Or.inl ⟨e, he, Bool.eq_false_iff.mpr hgroup, hauth⟩
  · rintro (⟨e, he, -, hauth⟩ | ⟨e, he, hgroup, hauth⟩)
    · exact ⟨e, he, hauth⟩
    · rw [← isAuthStatus_group hgroup] at hauth
      exact ⟨e, he, hauth⟩

theorem looksLikeAuthFailure_iff {exc : Exc} :
    looksLikeAuthFailure exc = true ↔
      isAuthStatus exc = true ∨ ∃ e ∈ exc.exceptions, isAuthStatus e = true := by
  rw [looksLikeAuthFailure, Bool.ite_eq_true_distrib, List.any_eq_true]
  by_cases hexc : isAuthStatus exc = true
  · simp [hexc]
  · simp [hexc]

/-- **What the function finds**, in a group: failures that the group holds itself, and texts. -/
theorem looksLikeAuthFailure_group_iff {exc : Exc} (h : exc.isGroup = true) :
    looksLikeAuthFailure exc = true ↔ DirectAuth exc ∨ GroupMentionsAuth exc := by
  rw [looksLikeAuthFailure_iff, isAuthStatus_group h, exists_isAuthStatus_iff, GroupMentionsAuth,
    or_left_comm, and_iff_right h]

theorem hasAuthLeaf_group_iff {exc : Exc} (h : exc.isGroup = true) :
    HasAuthLeaf exc ↔ DirectAuth exc ∨ NestedAuth exc := by
  rcases exc with ⟨typeName, status, text⟩ | ⟨message, first, rest⟩
  · exact absurd h (by simp [Exc.isGroup])
  constructor
  · rintro ⟨x, hx, hauth⟩
    obtain ⟨e, he, hxe⟩ := Exc.mem_leaves_group.mp hx
    by_cases hgroup : e.isGroup = true
    · exact Or.inr ⟨e, he, hgroup, x, hxe, hauth⟩
    · have hleaf : e.isGroup = false := Bool.eq_false_iff.mpr hgroup
      -- an exception that is no group is its own only leaf
      rw [Exc.leaves_eq_of_not_isGroup hleaf, List.mem_singleton] at hxe
      exact Or.inl ⟨e, he, hleaf, hxe ▸ hauth⟩
  · rintro (⟨e, he, hleaf, hauth⟩ | ⟨e, he, -, x, hx, hauth⟩)
    · refine ⟨e, Exc.mem_leaves_group.mpr ⟨e, he, ?_⟩, hauth⟩
      rw [Exc.leaves_eq_of_not_isGroup hleaf, List.mem_singleton]
    · exact ⟨x, Exc.mem_leaves_group.mpr ⟨e, he, hx⟩, hauth⟩

theorem looksLikeAuthFailure_iff_of_not_isGroup {exc : Exc} (h : exc.isGroup = false) :
    looksLikeAuthFailure exc = true ↔ HasAuthLeaf exc := by
  have hsubs : exc.exceptions = [] := by
    rcases exc with ⟨typeName, status, text⟩ | ⟨message, first, rest⟩
    · rfl
    · exact absurd h (by simp [Exc.isGroup])
  rw [looksLikeAuthFailure_iff, hsubs, HasAuthLeaf, Exc.leaves_eq_of_not_isGroup h]
  simp

/-- **A failure that a group holds itself is found.** -/
theorem of_directAuth {exc : Exc} (h : DirectAuth exc) : looksLikeAuthFailure exc = true := by
  obtain ⟨e, he, -, hauth⟩ := h
  exact looksLikeAuthFailure_iff.mpr (Or.inr ⟨e, he, hauth⟩)

/-- The function and the tree agree. -/
def Correct (exc : Exc) : Prop := looksLikeAuthFailure exc = true ↔ HasAuthLeaf exc

/-- **When the function is right**: the exception is no group, or the group holds a failure itself,
or the texts of the group and of the groups in it sound like one exactly if there is one further
down. -/
theorem looksLikeAuthFailure_correct_iff (exc : Exc) :
    Correct exc ↔
      exc.isGroup = false ∨ DirectAuth exc ∨ (GroupMentionsAuth exc ↔ NestedAuth exc) := by
  by_cases hgroup : exc.isGroup = true
  · rw [Correct, looksLikeAuthFailure_group_iff hgroup, hasAuthLeaf_group_iff hgroup, hgroup]
    by_cases hdirect : DirectAuth exc
    · simp [hdirect]
    · simp [hdirect]
  · have hleaf : exc.isGroup = false := Bool.eq_false_iff.mpr hgroup
    exact iff_of_true (looksLikeAuthFailure_iff_of_not_isGroup hleaf) (Or.inl hleaf)

/-- What two task groups make of a response with status 401. -/
def wrappedTwice : Exc :=
  .group "unhandled errors in a TaskGroup"
    (.group "unhandled errors in a TaskGroup"
      (.leaf "HTTPStatusError" (some 401) "Client error") []) []

/-- **A failure in a group in a group is missed.** -/
theorem not_forall_looksLikeAuthFailure_iff :
    ¬ ∀ exc, looksLikeAuthFailure exc = true ↔ HasAuthLeaf exc := by
  intro h
  have hleaf : HasAuthLeaf wrappedTwice :=
    ⟨.leaf "HTTPStatusError" (some 401) "Client error", by simp [wrappedTwice, Exc.leaves,
      Exc.leavesList], by decide⟩
  have hmissed : looksLikeAuthFailure wrappedTwice = false := by decide
  exact absurd ((h wrappedTwice).mpr hleaf) (by rw [hmissed]; decide)

end AuthDiscovery

end ArgusMcp
