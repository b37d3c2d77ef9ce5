import ArgusMcp.Workflows.Completeness

/-!
# Interpolation is a single pass

What a tool returns may look like a reference itself. It is put where a reference to it stands and
is not looked at again: the text of an argument is cut into characters and references (`Cuts`)
before any value is known, there is only one way to do so, and the values come in afterwards
(`filled`), the same pieces whatever the context is.

A text that is nothing but one reference becomes the value itself, which need not be a string.
-/

namespace ArgusMcp

namespace Workflows

/-! ## Pieces of a text -/

/-- A piece of a text: a character that stays, or a reference. -/
inductive Segment where
  | literal (c : Char)
  | token (r : Ref)

/-- The pieces of a text, from left to right. Where the text goes on with a reference, that is the
next piece. -/
inductive Cuts : List Segment → List Char → Prop
  | nil : Cuts [] []
  | literal {l : List Segment} {c : Char} {cs : List Char}
      (hnone : ∀ (r : Ref) (rest : List Char), c :: cs ≠ r.text ++ rest) (hl : Cuts l cs) :
      Cuts (.literal c :: l) (c :: cs)
  | token {l : List Segment} {cs : List Char} (r : Ref) (hl : Cuts l cs) :
      Cuts (.token r :: l) (r.text ++ cs)

namespace Segment

def text : Segment → List Char
  | literal c => [c]
  | token r => r.text

/-- What the piece contributes to the result: the text of the value for a reference that has one,
and itself otherwise. -/
def inserted {O : Type} [PyObject O] (context : Context O) : Segment → List Char
  | literal c => [c]
  | token r =>
    ((notNone (resolveRef r context)).map fun v ↦ (PyObject.str v).toList).getD r.text

end Segment

theorem Ref.text_ne_nil (r : Ref) : r.text ≠ [] := List.cons_ne_nil _ _

theorem Ref.text_append_inj {r r' : Ref} {cs cs' : List Char} (h : r.text ++ cs = r'.text ++ cs') :
    r = r' ∧ cs = cs' := by
  have hmatch : matchRef (r.text ++ cs) = some (r, cs) := matchRef_eq_some_iff.mpr rfl
  rw [matchRef_eq_some_iff.mpr h, Option.some.injEq, Prod.mk.injEq] at hmatch
  exact ⟨hmatch.1.symm, hmatch.2.symm⟩

namespace Cuts

variable {l l' : List Segment} {cs : List Char}

theorem flatMap_text (h : Cuts l cs) : l.flatMap Segment.text = cs := by
  induction h with
  | nil => rfl
  | literal _ _ ih => rw [List.flatMap_cons, ih, Segment.text, List.singleton_append]
  | token r _ ih => rw [List.flatMap_cons, ih, Segment.text]

theorem unique (h : Cuts l cs) (h' : Cuts l' cs) : l = l' := by
  induction h generalizing l' with
  | nil =>
    generalize hcs : ([] : List Char) = cs at h'
    rcases h' with _ | _ | ⟨r, _⟩
    · rfl
    · exact absurd hcs (List.cons_ne_nil _ _).symm
    · exact absurd (List.append_eq_nil_iff.mp hcs.symm).1 r.text_ne_nil
  | @literal _ c cs hnone _ ih =>
    generalize hcs : c :: cs = cs' at h'
    rcases h' with _ | ⟨_, hl'⟩ | ⟨r, _⟩
    · exact absurd hcs (List.cons_ne_nil _ _)
    · obtain ⟨rfl, rfl⟩ := List.cons_eq_cons.mp hcs
      rw [ih hl']
    · exact absurd hcs (hnone r _)
  | @token _ cs r _ ih =>
    generalize hcs : r.text ++ cs = cs' at h'
    rcases h' with _ | ⟨hnone', _⟩ | ⟨r', hl'⟩
    · exact absurd (List.append_eq_nil_iff.mp hcs).1 r.text_ne_nil
    · exact absurd hcs.symm (hnone' r cs)
    · obtain ⟨rfl, rfl⟩ := Ref.text_append_inj hcs
      rw [ih hl']

end Cuts

theorem exists_cuts (cs : List Char) : ∃ l, Cuts l cs := by
  -- a reference is a step over several characters
  induction hn : cs.length using Nat.strong_induction_on generalizing cs with
  | _ n ih =>
    rcases cs with _ | ⟨c, cs⟩
    · exact ⟨[], .nil⟩
    · by_cases href : ∃ (r : Ref) (rest : List Char), c :: cs = r.text ++ rest
      · obtain ⟨r, rest, hrest⟩ := href
        have hpos : 0 < r.text.length := List.length_pos_iff.mpr r.text_ne_nil
        have hlength : (c :: cs).length = r.text.length + rest.length := by
          rw [hrest, List.length_append]
        obtain ⟨l, hl⟩ := ih rest.length (by omega) rest rfl
        rw [hrest]
        exact ⟨_, .token r hl⟩
      · push Not at href
        obtain ⟨l, hl⟩ := ih cs.length (by rw [← hn, List.length_cons]; omega) cs rfl
        exact ⟨_, .literal href hl⟩

/-! ## Filling in the values -/

section Filling

variable {O : Type} [PyObject O] (context : Context O)

/-- What becomes of the pieces: the value itself if they are one reference that has a value, and
otherwise the text of all of them one after the other. -/
def filled : List Segment → Value O
  | [.token r] => (notNone (resolveRef r context)).getD (.str (String.ofList r.text))
  | l => .str (String.ofList (l.flatMap (Segment.inserted context)))

theorem substitute_of_cuts {l : List Segment} {cs : List Char} (h : Cuts l cs) :
    substitute (replacer context) 0 cs = l.flatMap (Segment.inserted context) := by
  induction h with
  | nil => rfl
  | literal hnone _ ih =>
    rw [substitute_cons _ hnone, ih, List.flatMap_cons, Segment.inserted, List.singleton_append]
  | token r _ ih =>
    rw [substitute_text_append, ih, List.flatMap_cons, Segment.inserted, replacer]

/-- Both ways through `_interpolate_string` fill in the pieces. -/
theorem interpolateString_of_cuts {l : List Segment} {s : String} (h : Cuts l s.toList) :
    interpolateString s context = filled context l := by
  rcases hmatch : matchRef s.toList with _ | ⟨r, rest⟩
  · rw [interpolateString, hmatch]
    dsimp only
    rw [substitute_of_cuts context h]
    -- one reference alone would have matched
    unfold filled
    split
    · rename_i r
      have htext := h.flatMap_text
      rw [List.flatMap_cons, List.flatMap_nil, Segment.text] at htext
      rw [matchRef_eq_some_iff.mpr htext.symm] at hmatch
      exact absurd hmatch (Option.some_ne_none _)
    · rfl
  · have hs := matchRef_eq_some_iff.mp hmatch
    rcases rest with _ | ⟨c, rest⟩
    · -- the whole text is the reference, so it is the only piece
      have hl : l = [.token r] := by
        refine h.unique ?_
        rw [hs]
        exact .token r .nil
      rw [interpolateString, hmatch, substitute_of_cuts context h, hl, filled]
      dsimp only
      rcases hvalue : notNone (resolveRef r context) with _ | v
      · rw [Option.getD_none, Option.getD_none, List.flatMap_cons, List.flatMap_nil,
          List.append_nil, Segment.inserted, hvalue, Option.map_none, Option.getD_none]
      · rfl
    · rw [interpolateString, hmatch]
      dsimp only
      rw [substitute_of_cuts context h]
      unfold filled
      split
      · rename_i r'
        have htext := h.flatMap_text
        rw [List.flatMap_cons, List.flatMap_nil, Segment.text, hs] at htext
        have hrest := (Ref.text_append_inj htext).2
        exact absurd hrest (List.cons_ne_nil _ _).symm
      · rfl

end Filling

/-- **No second expansion.** For every string in the arguments that interpolation gets to there are
pieces, the only ones the string can be cut into, and whatever the context is, these are filled in
with its values and nothing else happens to them. -/
theorem interpolate_of_cuts {O : Type} [PyObject O] (args : List (String × Value O))
    {place : List ℕ} {s : String} (hs : (Value.dict args).at? place = some (.str s))
    (hreaches : reaches place (Value.dict args)) :
    ∃ l, (∀ l', Cuts l' s.toList ↔ l' = l) ∧ ∀ context : Context O,
      (Value.dict (interpolate context args)).at? place = some (filled context l) := by
  obtain ⟨l, hl⟩ := exists_cuts s.toList
  refine ⟨l, fun l' ↦ ⟨fun hl' ↦ hl'.unique hl, fun h ↦ h ▸ hl⟩, fun context ↦ ?_⟩
  have hplace := at?_interpolateValue context hs
  rw [interpolateValue, if_pos hreaches, interpolateString_of_cuts context hl] at hplace
  exact hplace

theorem interpolate_of_cuts_between :
    ∃ l, (∀ l', Cuts l' "<$\x7binputs.p\x7d>".toList ↔ l' = l) ∧ ∀ context : Context Empty,
      (Value.dict (interpolate context [("x", .str "<$\x7binputs.p\x7d>")])).at? [0] =
        some (filled context l) :=
  interpolate_of_cuts [("x", .str "<$\x7binputs.p\x7d>")] rfl rfl

/-- The result need not be a text: a reference to a number, and nothing else, is that number. -/
theorem not_forall_flatMap_inserted : ¬ ∀ (context : Context Empty)
    (args : List (String × Value Empty)) (place : List ℕ) (s : String),
    (Value.dict args).at? place = some (.str s) → reaches place (Value.dict args) →
      ∃ l, Cuts l s.toList ∧ (Value.dict (interpolate context args)).at? place =
        some (.str (String.ofList (l.flatMap (Segment.inserted context)))) := by
  intro h
  let context : Context Empty := Dict.empty.set "inputs" (.dict [("p", .int 5)])
  obtain ⟨l, -, hplace⟩ := h context [("x", .str "$\x7binputs.p\x7d")] [0] _ rfl rfl
  have hnumber : (Value.dict (interpolate context [("x", .str "$\x7binputs.p\x7d")])).at? [0] =
      some (.int 5) := rfl
  rw [hnumber] at hplace
  exact absurd (Option.some.inj hplace) (by simp)

end Workflows

end ArgusMcp
