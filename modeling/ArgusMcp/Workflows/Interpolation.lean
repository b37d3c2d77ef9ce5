import ArgusMcp.Library.Dict
import ArgusMcp.Library.Value
import Mathlib.Data.List.TakeWhile

/-!
# References in arguments and conditions

A string may refer to the inputs of a workflow or to what a step left behind, by a token of the
form `${scope.path}`. The regular expression for it is

  `\$\{([a-zA-Z0-9_]+)\.([a-zA-Z0-9_.]+)\}`,

and since the character after each of its two runs cannot belong to the run, there is at most one
way to match it at a position: `matchRef_eq_some_iff` says that a match succeeds exactly on the
text of a reference. A `Ref` therefore carries the two runs together with their being runs.
-/

namespace ArgusMcp

namespace Workflows

variable {O : Type}

/-! ## Characters -/

-- Texts are looked for among others by one instance, in all modules that do so.
instance lawfulBEqText : LawfulBEq (List Char) := inferInstance

/-- `[a-zA-Z0-9_]`. -/
def isWord (c : Char) : Bool := c.isAlphanum || c = '_'

/-- `[a-zA-Z0-9_.]`. -/
def isPath (c : Char) : Bool := isWord c || c = '.'

/-- `\s`, which is also what `str.strip` removes. -/
def isSpace (c : Char) : Bool :=
  let n := c.toNat
  (9 ≤ n && n ≤ 13) || (28 ≤ n && n ≤ 32) || n = 0x85 || n = 0xa0 || n = 0x1680 ||
    (0x2000 ≤ n && n ≤ 0x200a) || n = 0x2028 || n = 0x2029 || n = 0x202f || n = 0x205f ||
    n = 0x3000

def quote : Char := Char.ofNat 39

/-! ## Matching -/

/-- A non-empty run of characters of one kind. -/
structure Chunk (p : Char → Bool) where
  chars : List Char
  ne_nil : chars ≠ []
  all : ∀ c ∈ chars, p c = true

theorem Chunk.ext {p : Char → Bool} {w w' : Chunk p} (h : w.chars = w'.chars) : w = w' := by
  cases w
  cases w'
  congr

/-- A reference `${scope.path}`. -/
structure Ref where
  scope : Chunk isWord
  path : Chunk isPath

/-- The whole token. -/
def Ref.text (r : Ref) : List Char :=
  '$' :: '\x7b' :: (r.scope.chars ++ '.' :: (r.path.chars ++ ['\x7d']))

/-- One given character. -/
def expect (c : Char) : List Char → Option (List Char)
  | [] => none
  | d :: cs => if d = c then some cs else none

/-- The longest run of characters of a kind, if it is not empty. -/
def munch (p : Char → Bool) (cs : List Char) : Option (Chunk p × List Char) :=
  if h : cs.takeWhile p = [] then none
  else some (⟨cs.takeWhile p, h, fun _ hc ↦ List.mem_takeWhile_imp hc⟩, cs.dropWhile p)

/-- A reference at the start of the text, and what follows it. -/
def matchRef (cs : List Char) : Option (Ref × List Char) :=
  (expect '$' cs).bind fun cs ↦ (expect '\x7b' cs).bind fun cs ↦
    (munch isWord cs).bind fun m ↦ (expect '.' m.2).bind fun cs ↦
      (munch isPath cs).bind fun m' ↦ (expect '\x7d' m'.2).map fun rest ↦ (⟨m.1, m'.1⟩, rest)

/-- A comparison `${scope.path} op 'literal'` at the start of the text, where `op` has the two
characters `a` and `b`; it yields the reference and the literal. -/
def matchComparison (a b : Char) (cs : List Char) : Option (Ref × List Char) :=
  (matchRef cs).bind fun m ↦
    (expect a (m.2.dropWhile isSpace)).bind fun cs ↦ (expect b cs).bind fun cs ↦
      (expect quote (cs.dropWhile isSpace)).bind fun cs ↦
        (expect quote (cs.dropWhile (· ≠ quote))).map fun _ ↦ (m.1, cs.takeWhile (· ≠ quote))

theorem expect_eq_some_iff {c : Char} {cs rest : List Char} :
    expect c cs = some rest ↔ cs = c :: rest := by
  rcases cs with _ | ⟨d, cs⟩
  · simp [expect]
  · by_cases h : d = c
    · simp [expect, h]
    · simp [expect, h]

theorem munch_eq_some_iff {p : Char → Bool} {cs rest : List Char} {w : Chunk p} :
    munch p cs = some (w, rest) ↔ cs = w.chars ++ rest ∧ rest.takeWhile p = [] := by
  rw [munch]
  constructor
  · intro h
    split at h
    · exact absurd h (by simp)
    · rw [Option.some.injEq, Prod.mk.injEq] at h
      obtain ⟨rfl, rfl⟩ := h
      refine ⟨List.takeWhile_append_dropWhile.symm, ?_⟩
      rw [List.takeWhile_eq_nil_iff]
      exact fun hl ↦ List.dropWhile_get_zero_not p cs hl
  · rintro ⟨rfl, hrest⟩
    -- the chunk is all of what may be taken, because what follows takes no more
    have htake : (w.chars ++ rest).takeWhile p = w.chars := by
      rw [List.takeWhile_append_of_pos w.all, hrest, List.append_nil]
    have hdrop : (w.chars ++ rest).dropWhile p = rest := by
      have hsplit := @List.takeWhile_append_dropWhile _ p (w.chars ++ rest)
      rw [htake] at hsplit
      exact List.append_cancel_left hsplit
    have hne : (w.chars ++ rest).takeWhile p ≠ [] := htake.trans_ne w.ne_nil
    rw [dif_neg hne, hdrop, Option.some.injEq, Prod.mk.injEq]
    exact ⟨Chunk.ext htake, rfl⟩

/-- **A match is the text of a reference**, at the start of the input. -/
theorem matchRef_eq_some_iff {cs rest : List Char} {r : Ref} :
    matchRef cs = some (r, rest) ↔ cs = r.text ++ rest := by
  simp only [matchRef, Option.bind_eq_some_iff, Option.map_eq_some_iff, expect_eq_some_iff,
    Prod.exists, munch_eq_some_iff]
  constructor
  · rintro ⟨_, rfl, _, rfl, scope, _, ⟨rfl, -⟩, _, rfl, path, _, ⟨rfl, -⟩, _, rfl, heq⟩
    rw [Prod.mk.injEq] at heq
    obtain ⟨rfl, rfl⟩ := heq
    simp [Ref.text]
  · rintro rfl
    refine ⟨_, rfl, r.scope.chars ++ '.' :: (r.path.chars ++ '\x7d' :: rest), ?_, r.scope, _,
      ⟨rfl, rfl⟩, _, rfl, r.path, _, ⟨rfl, rfl⟩, rest, rfl, rfl⟩
    simp

/-! ## Resolving -/

/-- What the references of a workflow resolve against. -/
abbrev Context (O : Type) := Dict String (Value O)

/-- `_resolve_ref`: follows the path through dictionaries, and is `None` where there is nothing. -/
def resolveRef (r : Ref) (context : Context O) : Value O :=
  match context.get? (String.ofList r.scope.chars) with
  | none => .none
  | some obj => (r.path.chars.splitOn '.').foldl
      (fun obj part ↦ (obj.get? (String.ofList part)).getD .none) obj

/-- The value, unless it is `None`. -/
def notNone : Value O → Option (Value O)
  | .none => none
  | v => some v

/-! ## Interpolation -/

/-- `re.sub` from left to right: a reference is replaced, or stays as it is where the replacement
is undefined, and the scan goes on behind it; `skip` counts the characters of it still to pass. -/
def substitute (replacement : Ref → Option (List Char)) : ℕ → List Char → List Char
  | _, [] => []
  | skip + 1, _ :: cs => substitute replacement skip cs
  | 0, c :: cs =>
    match matchRef (c :: cs) with
    | none => c :: substitute replacement 0 cs
    | some (r, _) =>
      (replacement r).getD r.text ++ substitute replacement (r.text.length - 1) cs

/-- `_replacer`: the text of the value referred to. -/
def replacer [PyObject O] (context : Context O) (r : Ref) : Option (List Char) :=
  (notNone (resolveRef r context)).map fun v ↦ (PyObject.str v).toList

/-- `_interpolate_string`. A string that is nothing but one reference becomes the value itself. -/
def interpolateString [PyObject O] (value : String) (context : Context O) : Value O :=
  let partially := Value.str (String.ofList (substitute (replacer context) 0 value.toList))
  match matchRef value.toList with
  | some (r, []) => (notNone (resolveRef r context)).getD partially
  | _ => partially

mutual

/-- What `_interpolate` does with one value. Only the strings directly in a list are looked at. -/
def interpolateValue [PyObject O] (context : Context O) : Value O → Value O
  | .str s => interpolateString s context
  | .dict d => .dict (interpolate context d)
  | .list l => .list (l.map fun v ↦ match v with
    | .str s => interpolateString s context
    | v => v)
  | v => v

/-- `_interpolate`: the tokens in argument values replaced. -/
def interpolate [PyObject O] (context : Context O) :
    List (String × Value O) → List (String × Value O)
  | [] => []
  | (k, v) :: args => (k, interpolateValue context v) :: interpolate context args

end

/-! ## Conditions -/

/-- `_evaluate_condition`: an equality, an inequality, a bare reference, or any other text, which
holds unless it is blank. The three patterns are only looked for at the start. -/
def evaluateCondition [PyObject O] (condition : String) (context : Context O) : Bool :=
  let cs := condition.toList
  match matchComparison '=' '=' cs with
  | some (r, literal) => PyObject.str (resolveRef r context) = String.ofList literal
  | none =>
    match matchComparison '!' '=' cs with
    | some (r, literal) => PyObject.str (resolveRef r context) ≠ String.ofList literal
    | none =>
      match matchRef cs with
      | some (r, _) => (resolveRef r context).truthy
      | none => !cs.all isSpace

/-! ## What a scan does -/

theorem substitute_skip (replacement : Ref → Option (List Char)) (l cs : List Char) :
    substitute replacement l.length (l ++ cs) = substitute replacement 0 cs := by
  induction l with
  | nil => rfl
  | cons c l ih => rw [List.length_cons, List.cons_append, substitute, ih]

/-- A reference is replaced as a whole and the scan goes on behind it: what was put in its place is
never looked at again. -/
theorem substitute_text_append (replacement : Ref → Option (List Char)) (r : Ref)
    (cs : List Char) :
    substitute replacement 0 (r.text ++ cs)
      = (replacement r).getD r.text ++ substitute replacement 0 cs := by
  have hmatch : matchRef (r.text ++ cs) = some (r, cs) := matchRef_eq_some_iff.mpr rfl
  obtain ⟨c, l, htext⟩ : ∃ c l, r.text = c :: l := ⟨_, _, rfl⟩
  rw [htext, List.cons_append] at hmatch ⊢
  rw [substitute, hmatch]
  dsimp only
  rw [htext, List.length_cons, Nat.add_sub_cancel, substitute_skip]

theorem substitute_cons (replacement : Ref → Option (List Char)) {c : Char} {cs : List Char}
    (h : ∀ (r : Ref) rest, c :: cs ≠ r.text ++ rest) :
    substitute replacement 0 (c :: cs) = c :: substitute replacement 0 cs := by
  have hmatch : matchRef (c :: cs) = none := by
    rw [Option.eq_none_iff_forall_ne_some]
    rintro ⟨r, rest⟩ heq
    exact h r rest (matchRef_eq_some_iff.mp heq)
  rw [substitute, hmatch]

/-! ## What interpolation looks at -/

section Congruence

variable [PyObject O] {c c' : Context O}

omit [PyObject O] in
theorem resolveRef_congr (h : ∀ k, c.get? k = c'.get? k) (r : Ref) :
    resolveRef r c = resolveRef r c' := by
  rw [resolveRef, resolveRef, h]

theorem interpolateString_congr (h : ∀ k, c.get? k = c'.get? k) (s : String) :
    interpolateString s c = interpolateString s c' := by
  have hreplacer : replacer c = replacer c' := by
    funext r
    rw [replacer, replacer, resolveRef_congr h]
  simp only [interpolateString, hreplacer, resolveRef_congr h]

mutual

theorem interpolateValue_congr (h : ∀ k, c.get? k = c'.get? k) (v : Value O) :
    interpolateValue c v = interpolateValue c' v := by
  match v with
  | .str s => rw [interpolateValue, interpolateValue, interpolateString_congr h]
  | .dict d => rw [interpolateValue, interpolateValue, interpolate_congr h d]
  | .list l =>
    rw [interpolateValue, interpolateValue]
    simp only [interpolateString_congr h]
  | .none | .bool _ | .int _ | .obj _ => rw [interpolateValue, interpolateValue] <;> simp

theorem interpolate_congr (h : ∀ k, c.get? k = c'.get? k) (args : List (String × Value O)) :
    interpolate c args = interpolate c' args := by
  match args with
  | [] => rw [interpolate, interpolate]
  | (k, v) :: args =>
    rw [interpolate, interpolate, interpolateValue_congr h v, interpolate_congr h args]

end

theorem evaluateCondition_congr (h : ∀ k, c.get? k = c'.get? k) (condition : String) :
    evaluateCondition condition c = evaluateCondition condition c' := by
  simp only [evaluateCondition, resolveRef_congr h]

end Congruence

end Workflows

end ArgusMcp
