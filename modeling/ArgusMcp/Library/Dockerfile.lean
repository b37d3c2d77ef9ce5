import Mathlib.Data.List.DropRight
import Mathlib.Data.List.Infix
import Mathlib.Tactic.Common

/-!
# Reading Dockerfiles

A Dockerfile is read line by line. Blank lines and comments are passed over, also in the middle of
an instruction. A line whose last character is a backslash is continued by the next one. An
instruction is a line and those that continue it, and its keyword is its first word. Here-documents
are not read.

A file may be put together from blocks, each of them a comment or the lines of one instruction. Read
back, it gives the instructions it was made of exactly if each of them goes on to its last line and
ends there (`instructions_eq_iff`). The rest of the module is about blocks with a text in them that
may be anything. The text does no harm as long as its line breaks are `Escaped`, which has to be
said together with what comes after it on the line: something that ends the line, something that
continues it, or nothing at all.
-/

namespace ArgusMcp

namespace Dockerfile

section Decide

-- Claims about the characters of a line are decided on the line, not on all characters there are.

variable {p : Char → Prop} [DecidablePred p] (line : List Char)

scoped instance (priority := high) decidableForallMem : Decidable (∀ c ∈ line, p c) :=
  List.decidableBAll p line

scoped instance (priority := high) decidableExistsMem : Decidable (∃ c ∈ line, p c) :=
  List.decidableBEx p line

end Decide

/-- Blanks may follow a backslash that continues a line. -/
def isBlank (c : Char) : Bool := c = ' ' || c = '\t' || c = '\r'

/-- White space, as it is passed over before a comment. -/
def isSpace (c : Char) : Bool :=
  let n := c.toNat
  (9 ≤ n && n ≤ 13) || n = 32 || n = 0x85 || n = 0xa0 || n = 0x1680 ||
    (0x2000 ≤ n && n ≤ 0x200a) || n = 0x2028 || n = 0x2029 || n = 0x202f || n = 0x205f ||
    n = 0x3000

/-- Comments and blank lines are passed over. -/
def skipped (line : List Char) : Bool := (line.dropWhile isSpace).head?.all fun c ↦ c = '#'

def isComment (line : List Char) : Bool := (line.dropWhile isSpace).head?.any fun c ↦ c = '#'

def continued (line : List Char) : Bool := (line.rdropWhile isBlank).getLast?.any fun c ↦ c = '\\'

/-- In an instruction, the next line belongs to it as well. -/
def goesOn (line : List Char) : Bool := skipped line || continued line

/-- The instructions of a file, each as its lines. What there is of one that has not ended is given
with the lines that are left. -/
def instructionsFrom : Option (List (List Char)) → List (List Char) → List (List (List Char))
  | none, [] => []
  | some lines, [] => [lines]
  | none, line :: rest =>
    if skipped line then instructionsFrom none rest
    else if continued line then instructionsFrom (some [line]) rest
    else [line] :: instructionsFrom none rest
  | some lines, line :: rest =>
    if goesOn line then instructionsFrom (some (lines ++ [line])) rest
    else (lines ++ [line]) :: instructionsFrom none rest

def splitLines (text : List Char) : List (List Char) := text.splitOn '\n'

/-- The lines of a file, in which every line is ended. -/
def fileLines (file : List Char) : List (List Char) :=
  let lines := splitLines file
  if lines.getLast? = some [] then lines.dropLast else lines

def instructions (file : List Char) : List (List (List Char)) :=
  instructionsFrom none (fileLines file)

/-- The first word of an instruction. -/
def keyword (lines : List (List Char)) : List Char :=
  ((lines.head?.getD []).dropWhile isSpace).takeWhile fun c ↦ !isSpace c

/-! ## Instructions that end where they should -/

/-- All lines but the last go on. -/
def Whole : List (List Char) → Prop
  | [] => True
  | [_] => True
  | line :: rest => goesOn line ∧ Whole rest

/-- All lines but the last go on, and that does not. -/
def Closed : List (List Char) → Prop
  | [] => False
  | [line] => ¬ goesOn line
  | line :: rest => goesOn line ∧ Closed rest

instance decidableClosed : ∀ lines, Decidable (Closed lines)
  | [] => instDecidableFalse
  | [line] => inferInstanceAs (Decidable (¬ goesOn line))
  | line :: next :: rest =>
    have := decidableClosed (next :: rest)
    inferInstanceAs (Decidable (goesOn line ∧ Closed (next :: rest)))

theorem whole_cons {line : List Char} {rest : List (List Char)} (h : rest ≠ []) :
    Whole (line :: rest) ↔ goesOn line ∧ Whole rest := by
  cases rest with
  | nil => exact absurd rfl h
  | cons => rfl

theorem closed_cons {line : List Char} {rest : List (List Char)} (h : rest ≠ []) :
    Closed (line :: rest) ↔ goesOn line ∧ Closed rest := by
  cases rest with
  | nil => exact absurd rfl h
  | cons => rfl

theorem closed_append {lines tail : List (List Char)} (htail : tail ≠ []) :
    Closed (lines ++ tail) ↔ (∀ line ∈ lines, goesOn line) ∧ Closed tail := by
  induction lines with
  | nil => simp
  | cons line lines ih =>
    rw [List.cons_append, closed_cons (List.append_ne_nil_of_right_ne_nil lines htail), ih,
      List.forall_mem_cons, and_assoc]

theorem closed_concat {lines : List (List Char)} {line : List Char} :
    Closed (lines ++ [line]) ↔ (∀ line ∈ lines, goesOn line) ∧ ¬ goesOn line :=
  closed_append (List.cons_ne_nil line [])

theorem whole_concat {lines : List (List Char)} {line : List Char} :
    Whole (lines ++ [line]) ↔ ∀ line ∈ lines, goesOn line := by
  induction lines with
  | nil => simp [Whole]
  | cons head lines ih =>
    rw [List.cons_append, whole_cons (List.append_ne_nil_of_right_ne_nil lines
      (List.cons_ne_nil line [])), ih, List.forall_mem_cons]

theorem length_lt_of_instructionsFrom {lines : List (List Char)} {line : List Char}
    {rest : List (List Char)} {first : List (List Char)} {others : List (List (List Char))}
    (h : instructionsFrom (some lines) (line :: rest) = first :: others) :
    lines.length < first.length := by
  induction rest generalizing lines line with
  | nil =>
    rw [instructionsFrom] at h
    split at h
    · obtain ⟨rfl, -⟩ := List.cons_eq_cons.mp h
      simp
    · obtain ⟨rfl, -⟩ := List.cons_eq_cons.mp h
      simp
  | cons next rest ih =>
    rw [instructionsFrom] at h
    split at h
    · have hlt := ih h
      rw [List.length_append, List.length_singleton] at hlt
      omega
    · obtain ⟨rfl, -⟩ := List.cons_eq_cons.mp h
      simp

/-- An instruction is read up to where it closes. -/
theorem instructionsFrom_append_iff {cur lines rest : List (List Char)}
    {others : List (List (List Char))} (hrest : rest ≠ []) :
    instructionsFrom (some cur) (lines ++ rest) = (cur ++ lines) :: others ↔
      Closed lines ∧ instructionsFrom none rest = others := by
  induction lines generalizing cur with
  | nil =>
    obtain ⟨line, rest, rfl⟩ := List.exists_cons_of_ne_nil hrest
    refine iff_of_false (fun h ↦ ?_) fun h ↦ h.1
    rw [List.append_nil] at h
    exact absurd (length_lt_of_instructionsFrom h) (lt_irrefl _)
  | cons line lines ih =>
    rw [List.cons_append, instructionsFrom]
    by_cases hline : goesOn line
    · have hcur : cur ++ line :: lines = cur ++ [line] ++ lines := by simp
      rw [if_pos hline, hcur, ih]
      cases lines with
      | nil => exact iff_of_false (fun h ↦ h.1) fun h ↦ h.1 hline
      | cons => rw [closed_cons (List.cons_ne_nil _ _), and_iff_right hline]
    · rw [if_neg hline, List.cons_eq_cons]
      cases lines with
      | nil => exact and_congr (iff_of_true rfl hline) Iff.rfl
      | cons next lines =>
        refine iff_of_false (fun h ↦ ?_) fun h ↦ hline h.1.1
        have := congrArg List.length h.1
        simp at this

theorem instructionsFrom_iff_whole {cur lines : List (List Char)} (hlines : lines ≠ []) :
    instructionsFrom (some cur) lines = [cur ++ lines] ↔ Whole lines := by
  induction lines generalizing cur with
  | nil => exact absurd rfl hlines
  | cons line lines ih =>
    cases lines with
    | nil =>
      rw [instructionsFrom]
      refine iff_of_true ?_ trivial
      split
      · rfl
      · rfl
    | cons next lines =>
      rw [instructionsFrom, whole_cons (List.cons_ne_nil _ _)]
      by_cases hline : goesOn line
      · have hcur : cur ++ line :: next :: lines = cur ++ [line] ++ next :: lines := by simp
        rw [if_pos hline, hcur, ih (List.cons_ne_nil _ _), and_iff_right hline]
      · refine iff_of_false (fun h ↦ ?_) fun h ↦ hline h.1
        rw [if_neg hline, List.cons_eq_cons] at h
        have := congrArg List.length h.1
        simp at this

theorem instructionsFrom_none {line : List Char} {rest : List (List Char)}
    (h : skipped line = false) :
    instructionsFrom none (line :: rest) = instructionsFrom (some []) (line :: rest) := by
  rw [instructionsFrom, instructionsFrom, goesOn, h, Bool.false_or, if_neg Bool.false_ne_true]
  rfl

/-! ## Files made of blocks -/

/-- What a file is made of. A text in a block may have more than one line. -/
inductive Block where
  | note (line : List Char)
  | instruction (keyword body : List Char) (more : List (List Char))

namespace Block

def texts : Block → List (List Char)
  | note line => [line]
  | instruction keyword body more => (keyword ++ ' ' :: body) :: more

def lines (b : Block) : List (List Char) := b.texts.flatMap splitLines

def instruction? : Block → Option (List (List Char))
  | note _ => none
  | instruction keyword body more => some (instruction keyword body more).lines

def keyword? : Block → Option (List Char)
  | note _ => none
  | instruction keyword _ _ => some keyword

/-- Notes are passed over, and keywords are words. -/
def Valid : Block → Prop
  | note line => '\n' ∉ line ∧ skipped line
  | instruction keyword _ _ => keyword ≠ [] ∧ ∀ c ∈ keyword, isSpace c = false ∧ c ≠ '#'

def Closes : Block → Prop
  | note _ => True
  | instruction keyword body more => Closed (instruction keyword body more).lines

instance : DecidablePred Valid
  | note line => inferInstanceAs (Decidable ('\n' ∉ line ∧ skipped line))
  | instruction keyword _ _ =>
    inferInstanceAs (Decidable (keyword ≠ [] ∧ ∀ c ∈ keyword, isSpace c = false ∧ c ≠ '#'))

instance : DecidablePred Closes
  | note _ => instDecidableTrue
  | instruction keyword body more =>
    inferInstanceAs (Decidable (Closed (instruction keyword body more).lines))

end Block

def render (blocks : List Block) : List Char :=
  (blocks.flatMap Block.texts).flatMap fun text ↦ text ++ ['\n']

theorem splitLines_append_cons (l l' : List Char) :
    splitLines (l ++ '\n' :: l') = splitLines l ++ splitLines l' :=
  List.splitOn_append_cons_self l l'

theorem splitLines_of_not_mem {l : List Char} (h : '\n' ∉ l) : splitLines l = [l] :=
  List.splitOn_eq_singleton h

theorem splitLines_ne_nil (l : List Char) : splitLines l ≠ [] := List.splitOn_ne_nil '\n' l

theorem fileLines_render (blocks : List Block) :
    fileLines (render blocks) = blocks.flatMap Block.lines := by
  have hsplit : ∀ texts : List (List Char),
      splitLines (texts.flatMap fun text ↦ text ++ ['\n']) = texts.flatMap splitLines ++ [[]] := by
    intro texts
    induction texts with
    | nil => rfl
    | cons text texts ih =>
      rw [List.flatMap_cons, List.append_assoc, List.singleton_append, splitLines_append_cons, ih,
        List.flatMap_cons, List.append_assoc]
  rw [fileLines, render, hsplit, List.getLast?_concat, if_pos rfl, List.dropLast_concat,
    List.flatMap_assoc]
  rfl

theorem splitLines_append_left {x : List Char} (hx : '\n' ∉ x) (l : List Char) :
    splitLines (x ++ l) = (splitLines l).modifyHead (x ++ ·) := by
  induction x with
  | nil =>
    rw [List.nil_append]
    rcases splitLines l with _ | _ <;> rfl
  | cons c x ih =>
    rw [List.mem_cons, not_or] at hx
    have hc : (c == '\n') = false := beq_false_of_ne fun h ↦ hx.1 h.symm
    rw [List.cons_append, splitLines, List.splitOn_cons_eq_if_modifyHead, hc,
      if_neg Bool.false_ne_true]
    exact (congrArg _ (ih hx.2)).trans (List.modifyHead_modifyHead ..)

theorem lines_instruction (keyword body : List Char) (more : List (List Char))
    (h : ∀ c ∈ keyword, isSpace c = false ∧ c ≠ '#') : ∃ line rest,
      (Block.instruction keyword body more).lines = (keyword ++ ' ' :: line) :: rest := by
  have hkeyword : '\n' ∉ keyword ++ [' '] := by
    rw [List.mem_append, List.mem_singleton]
    rintro (hmem | hmem)
    · exact absurd (h _ hmem).1 (by decide)
    · exact absurd hmem (by decide)
  obtain ⟨line, rest, hbody⟩ := List.exists_cons_of_ne_nil (splitLines_ne_nil body)
  have hfirst := splitLines_append_left hkeyword body
  rw [hbody, List.append_assoc] at hfirst
  refine ⟨line, rest ++ more.flatMap splitLines, ?_⟩
  rw [Block.lines, Block.texts, List.flatMap_cons]
  refine (congrArg (· ++ _) hfirst).trans ?_
  simp

theorem splitLines_between {x y : List Char} (hx : '\n' ∉ x) (hy : '\n' ∉ y) (l : List Char) :
    '\n' ∉ l ∨ ∃ first middle last, splitLines l = first :: (middle ++ [last]) ∧
      splitLines (x ++ l ++ y) = (x ++ first) :: (middle ++ [last ++ y]) := by
  by_cases hl : '\n' ∈ l
  · obtain ⟨last, init, hrev, hlast⟩ := List.eq_append_cons_of_mem (List.mem_reverse.mpr hl)
    have heq : l = init.reverse ++ '\n' :: last.reverse := by
      rw [← List.reverse_reverse l, hrev]
      simp
    rw [← List.mem_reverse] at hlast
    obtain ⟨first, middle, hinit⟩ := List.exists_cons_of_ne_nil (splitLines_ne_nil init.reverse)
    refine Or.inr ⟨first, middle, last.reverse, ?_, ?_⟩
    · rw [heq, splitLines_append_cons, hinit, splitLines_of_not_mem hlast, List.cons_append]
    · have hy' : '\n' ∉ last.reverse ++ y := fun h ↦ (List.mem_append.mp h).elim hlast hy
      rw [heq, List.append_assoc, List.append_assoc, splitLines_append_left hx,
        List.cons_append, splitLines_append_cons, hinit, splitLines_of_not_mem hy']
      rfl
  · exact Or.inl hl

/-! ## Reading back what was rendered -/

theorem skipped_of_head {c : Char} (hc : isSpace c = false ∧ c ≠ '#') (l : List Char) :
    skipped (c :: l) = false := by
  rw [skipped, List.dropWhile_cons_of_neg (by rw [hc.1]; exact Bool.false_ne_true)]
  exact decide_eq_false hc.2

theorem Block.Valid.lines {b : Block} (h : b.Valid) : b.lines ≠ [] ∧
    (b.instruction? = none → ∀ line ∈ b.lines, skipped line) ∧
    (b.instruction? ≠ none → ∃ line rest, b.lines = line :: rest ∧ skipped line = false) := by
  cases b with
  | note line =>
    have hlines : (Block.note line).lines = [line] := by
      rw [Block.lines, Block.texts, List.flatMap_singleton, splitLines_of_not_mem h.1]
    rw [hlines]
    refine ⟨List.cons_ne_nil _ _, fun _ ↦ List.forall_mem_singleton.mpr h.2, fun hne ↦ ?_⟩
    exact absurd rfl hne
  | instruction keyword body more =>
    obtain ⟨hne, hkeyword⟩ := h
    obtain ⟨line, rest, hlines⟩ := lines_instruction keyword body more hkeyword
    obtain ⟨c, keyword, rfl⟩ := List.exists_cons_of_ne_nil hne
    rw [hlines]
    refine ⟨List.cons_ne_nil _ _, fun h ↦ absurd h (Option.some_ne_none _), fun _ ↦ ?_⟩
    exact ⟨_, _, rfl, skipped_of_head (hkeyword c List.mem_cons_self) _⟩

theorem instructionsFrom_skipped {lines rest : List (List Char)} (h : ∀ line ∈ lines, skipped line) :
    instructionsFrom none (lines ++ rest) = instructionsFrom none rest := by
  induction lines with
  | nil => rfl
  | cons line lines ih =>
    obtain ⟨hline, h⟩ := List.forall_mem_cons.mp h
    rw [List.cons_append, instructionsFrom, if_pos hline, ih h]

/-- **Reading back.** A file gives back the instructions it was made of if and only if every one of
them closes, but for the last one, which has to be whole. -/
theorem instructions_eq_iff {blocks : List Block} {last : Block} (hblocks : ∀ b ∈ blocks, b.Valid)
    (hlast : last.Valid) (hinstruction : last.instruction? = some last.lines) :
    instructions (render (blocks ++ [last])) = (blocks ++ [last]).filterMap Block.instruction? ↔
      (∀ b ∈ blocks, b.Closes) ∧ Whole last.lines := by
  rw [instructions, fileLines_render]
  induction blocks with
  | nil =>
    obtain ⟨line, rest, hlines, hskipped⟩ :=
      hlast.lines.2.2 (hinstruction ▸ Option.some_ne_none _)
    rw [List.nil_append, List.flatMap_singleton, List.filterMap_cons, hinstruction, hlines,
      instructionsFrom_none hskipped]
    refine (instructionsFrom_iff_whole (List.cons_ne_nil _ _)).trans ?_
    simp
  | cons b blocks ih =>
    obtain ⟨hb, hblocks⟩ := List.forall_mem_cons.mp hblocks
    have hrest : (blocks ++ [last]).flatMap Block.lines ≠ [] := by
      rw [List.flatMap_append, List.flatMap_singleton]
      exact List.append_ne_nil_of_right_ne_nil _ hlast.lines.1
    rw [List.cons_append, List.flatMap_cons, List.forall_mem_cons, and_assoc, ← ih hblocks]
    cases b with
    | note line =>
      rw [instructionsFrom_skipped (hb.lines.2.1 rfl)]
      exact (and_iff_right trivial).symm
    | instruction keyword body more =>
      obtain ⟨line, rest, hlines, hskipped⟩ := hb.lines.2.2 (Option.some_ne_none _)
      have hread := @instructionsFrom_append_iff [] (Block.instruction keyword body more).lines _
        ((blocks ++ [last]).filterMap Block.instruction?) hrest
      rw [hlines, List.cons_append, instructionsFrom_none hskipped, ← List.cons_append, ← hlines]
      exact hread

theorem map_keyword_filterMap {blocks : List Block} (hblocks : ∀ b ∈ blocks, b.Valid) :
    (blocks.filterMap Block.instruction?).map keyword = blocks.filterMap Block.keyword? := by
  rw [List.map_filterMap]
  apply List.filterMap_congr
  intro b hb
  cases b with
  | note line => rfl
  | instruction word body more =>
    obtain ⟨hne, hword⟩ := hblocks _ hb
    obtain ⟨line, rest, hlines⟩ := lines_instruction word body more hword
    refine congrArg some ?_
    rw [hlines]
    obtain ⟨c, word, rfl⟩ := List.exists_cons_of_ne_nil hne
    have hc := (hword c List.mem_cons_self).1
    have hdrop : (c :: word ++ ' ' :: line).dropWhile isSpace = c :: word ++ ' ' :: line :=
      List.dropWhile_cons_of_neg (by rw [hc]; exact Bool.false_ne_true)
    rw [keyword, List.head?_cons, Option.getD_some, hdrop, List.takeWhile_append_of_pos]
    · simp [isSpace]
    · intro c hc
      rw [(hword c hc).1]
      rfl

/-! ## Blocks that close under a condition -/

/-- The blocks are valid, and all of them close if and only if something is so. -/
structure ClosesIff (blocks : List Block) (p : Prop) : Prop where
  valid : ∀ b ∈ blocks, b.Valid
  closes : (∀ b ∈ blocks, b.Closes) ↔ p

theorem closesIff_singleton {b : Block} {p : Prop} (hvalid : b.Valid) (h : b.Closes ↔ p) :
    ClosesIff [b] p :=
  ⟨List.forall_mem_singleton.mpr hvalid, List.forall_mem_singleton.trans h⟩

/-- Blocks without a text that may be anything. -/
theorem closesIff_true {blocks : List Block} (h : ∀ b ∈ blocks, b.Valid ∧ b.Closes) :
    ClosesIff blocks True :=
  ⟨fun b hb ↦ (h b hb).1, iff_of_true (fun b hb ↦ (h b hb).2) trivial⟩

theorem ClosesIff.append {blocks blocks' : List Block} {p q : Prop} (h : ClosesIff blocks p)
    (h' : ClosesIff blocks' q) : ClosesIff (blocks ++ blocks') (p ∧ q) :=
  ⟨List.forall_mem_append.mpr ⟨h.valid, h'.valid⟩,
    List.forall_mem_append.trans (and_congr h.closes h'.closes)⟩

theorem ClosesIff.flatMap {ι : Type*} {l : List ι} {f : ι → List Block} {p : ι → Prop}
    (h : ∀ i ∈ l, ClosesIff (f i) (p i)) : ClosesIff (l.flatMap f) (∀ i ∈ l, p i) := by
  refine ⟨List.forall_mem_flatMap.mpr fun i hi ↦ (h i hi).valid, ?_⟩
  exact List.forall_mem_flatMap.trans (forall₂_congr fun i hi ↦ (h i hi).closes)

theorem ClosesIff.map {ι : Type*} {l : List ι} {f : ι → Block} {p : ι → Prop}
    (h : ∀ i ∈ l, ClosesIff [f i] (p i)) : ClosesIff (l.map f) (∀ i ∈ l, p i) := by
  rw [List.map_eq_flatMap]
  exact ClosesIff.flatMap h

theorem ClosesIff.congr {blocks : List Block} {p q : Prop} (h : ClosesIff blocks p)
    (hpq : p ↔ q) : ClosesIff blocks q := ⟨h.valid, h.closes.trans hpq⟩

/-! ## Texts in a line -/

theorem skipped_append {x : List Char} (hx : ∃ c ∈ x, isSpace c = false) (l : List Char) :
    skipped (x ++ l) = skipped x := by
  have hne : x.dropWhile isSpace ≠ [] := by
    obtain ⟨c, hc, hspace⟩ := hx
    intro hnil
    exact absurd (List.dropWhile_eq_nil_iff.mp hnil c hc) (hspace ▸ Bool.false_ne_true)
  rw [skipped, skipped, List.dropWhile_append, if_neg (by simpa using hne),
    List.head?_append_of_ne_nil _ hne]

theorem skipped_append_of_not_skipped {y : List Char} (hy : skipped y = false) (l : List Char) :
    skipped (l ++ y) = isComment l := by
  rw [skipped, isComment, List.dropWhile_append]
  by_cases hne : l.dropWhile isSpace = []
  · rw [hne]
    exact hy
  · obtain ⟨c, rest, hl⟩ := List.exists_cons_of_ne_nil hne
    rw [hl]
    rfl

theorem rdropWhile_append (p : Char → Bool) (l l' : List Char) : (l ++ l').rdropWhile p =
    if l'.rdropWhile p = [] then l.rdropWhile p else l ++ l'.rdropWhile p := by
  simp only [List.rdropWhile, List.reverse_append, List.dropWhile_append, List.isEmpty_iff,
    List.reverse_eq_nil_iff]
  split
  · rfl
  · simp

theorem continued_append {y : List Char} (hy : ∃ c ∈ y, isBlank c = false) (l : List Char) :
    continued (l ++ y) = continued y := by
  have hne : y.rdropWhile isBlank ≠ [] := by
    obtain ⟨c, hc, hblank⟩ := hy
    intro hnil
    exact absurd (List.rdropWhile_eq_nil_iff.mp hnil c hc) (hblank ▸ Bool.false_ne_true)
  rw [continued, continued, rdropWhile_append, if_neg hne, List.getLast?_append_of_ne_nil _ hne]

theorem continued_append_of_not_continued {x : List Char} (hx : continued x = false)
    (l : List Char) : continued (x ++ l) = continued l := by
  rw [continued, continued, rdropWhile_append]
  by_cases hne : l.rdropWhile isBlank = []
  · rw [if_pos hne, hne]
    exact hx
  · rw [if_neg hne, List.getLast?_append_of_ne_nil _ hne]

theorem continued_of_not_mem {l : List Char} (h : '\\' ∉ l) : continued l = false := by
  rw [continued]
  rcases hlast : (l.rdropWhile isBlank).getLast? with _ | c
  · rfl
  · refine decide_eq_false fun hc ↦ h ?_
    exact (List.rdropWhile_prefix isBlank l).subset (hc ▸ List.mem_of_getLast? hlast)

/-- Every line break in the text is in a line that goes on, and the first one is after a
backslash. -/
def Escaped (text : List Char) : Prop :=
  (∀ first ∈ (splitLines text).dropLast.head?, continued first) ∧
    ∀ line ∈ (splitLines text).dropLast, goesOn line

/-- The text does no harm where something follows on the line. -/
def Inside (text : List Char) : Prop :=
  Escaped text ∧ ∀ last ∈ (splitLines text).tail.getLast?, ¬ isComment last

/-- The text does no harm at the end of an instruction. -/
def AtEnd (text : List Char) : Prop :=
  Escaped text ∧ (∀ last ∈ (splitLines text).getLast?, ¬ continued last) ∧
    ∀ last ∈ (splitLines text).tail.getLast?, ¬ skipped last

theorem AtEnd.inside {text : List Char} (h : AtEnd text) : Inside text := by
  refine ⟨h.1, fun last hlast hcomment ↦ h.2.2 last hlast ?_⟩
  rw [isComment] at hcomment
  rw [skipped]
  rcases hhead : (last.dropWhile isSpace).head? with _ | c
  · rfl
  · rwa [hhead] at hcomment

instance (text : List Char) : Decidable (Escaped text) := inferInstanceAs (Decidable (_ ∧ _))

instance (text : List Char) : Decidable (Inside text) := inferInstanceAs (Decidable (_ ∧ _))

instance (text : List Char) : Decidable (AtEnd text) := inferInstanceAs (Decidable (_ ∧ _))

section Between

variable {text : List Char} {first last : List Char} {middle : List (List Char)}

theorem escaped_of_not_mem (h : '\n' ∉ text) : Escaped text := by
  rw [Escaped, splitLines_of_not_mem h]
  exact ⟨fun _ h ↦ absurd h (Option.not_mem_none _), fun _ h ↦ absurd h List.not_mem_nil⟩

theorem escaped_iff (h : splitLines text = first :: (middle ++ [last])) :
    Escaped text ↔ continued first ∧ ∀ line ∈ middle, goesOn line := by
  rw [Escaped, h, ← List.cons_append, List.dropLast_concat, List.head?_cons, List.forall_mem_cons]
  constructor
  · rintro ⟨hfirst, -, hmiddle⟩
    exact ⟨hfirst first rfl, hmiddle⟩
  · rintro ⟨hfirst, hmiddle⟩
    refine ⟨fun line hline ↦ Option.some.inj hline ▸ hfirst, ?_, hmiddle⟩
    rw [goesOn, hfirst, Bool.or_true]

theorem inside_of_not_mem (h : '\n' ∉ text) : Inside text := by
  refine ⟨escaped_of_not_mem h, ?_⟩
  rw [splitLines_of_not_mem h]
  exact fun _ h ↦ absurd h (Option.not_mem_none _)

theorem inside_iff (h : splitLines text = first :: (middle ++ [last])) :
    Inside text ↔ Escaped text ∧ ¬ isComment last := by
  rw [Inside, h, List.tail_cons, List.getLast?_concat]
  refine and_congr_right fun _ ↦ ⟨fun h ↦ h last rfl, fun h line hline ↦ ?_⟩
  exact Option.some.inj hline ▸ h

theorem atEnd_of_not_mem (h : '\n' ∉ text) : AtEnd text ↔ ¬ continued text := by
  rw [AtEnd, splitLines_of_not_mem h, and_iff_right (escaped_of_not_mem h)]
  constructor
  · rintro ⟨hlast, -⟩
    exact hlast text rfl
  · refine fun h ↦ ⟨fun line hline ↦ ?_, fun _ h ↦ absurd h (Option.not_mem_none _)⟩
    exact Option.some.inj hline ▸ h

theorem atEnd_iff (h : splitLines text = first :: (middle ++ [last])) :
    AtEnd text ↔ Escaped text ∧ ¬ goesOn last := by
  rw [AtEnd, h, List.tail_cons, List.getLast?_concat, ← List.cons_append, List.getLast?_concat,
    goesOn, Bool.or_eq_true, not_or]
  refine and_congr_right fun _ ↦ ⟨fun h ↦ ⟨h.2 last rfl, h.1 last rfl⟩, fun h ↦ ?_⟩
  exact ⟨fun line hline ↦ Option.some.inj hline ▸ h.2,
    fun line hline ↦ Option.some.inj hline ▸ h.1⟩

/-! ### Between two others -/

/-- What begins a line of an instruction and leaves open how it ends. -/
def Opens (x : List Char) : Prop :=
  '\n' ∉ x ∧ (∃ c ∈ x, isSpace c = false) ∧ skipped x = false ∧ continued x = false

/-- What ends a line, and the instruction with it. -/
def Ends (y : List Char) : Prop :=
  '\n' ∉ y ∧ (∃ c ∈ y, isBlank c = false) ∧ skipped y = false ∧ continued y = false

/-- What ends a line that is continued. -/
def Continues (y : List Char) : Prop :=
  '\n' ∉ y ∧ (∃ c ∈ y, isBlank c = false) ∧ continued y

instance (x : List Char) : Decidable (Opens x) := inferInstanceAs (Decidable (_ ∧ _))

instance (y : List Char) : Decidable (Ends y) := inferInstanceAs (Decidable (_ ∧ _))

instance (y : List Char) : Decidable (Continues y) := inferInstanceAs (Decidable (_ ∧ _))

variable {x y : List Char}

theorem Opens.goesOn (hx : Opens x) (l : List Char) : goesOn (x ++ l) = continued l := by
  obtain ⟨-, hspace, hskipped, hcontinued⟩ := hx
  rw [Dockerfile.goesOn, skipped_append hspace, hskipped,
    continued_append_of_not_continued hcontinued, Bool.false_or]

theorem Opens.closed_inside_iff (hx : Opens x) (hy : Ends y) :
    Closed (splitLines (x ++ text ++ y)) ↔ Inside text := by
  obtain ⟨hyline, hyblank, hyskipped, hycontinued⟩ := hy
  rcases splitLines_between hx.1 hyline text with htext | ⟨first, middle, last, htext, hlines⟩
  · have hmem : '\n' ∉ x ++ text ++ y := by simp [hx.1, hyline, htext]
    rw [splitLines_of_not_mem hmem, List.append_assoc]
    refine iff_of_true ?_ (inside_of_not_mem htext)
    rw [Closed, hx.goesOn, continued_append hyblank, hycontinued]
    exact Bool.false_ne_true
  · rw [hlines, ← List.cons_append, closed_concat, List.forall_mem_cons, inside_iff htext,
      escaped_iff htext, hx.goesOn, Dockerfile.goesOn, skipped_append_of_not_skipped hyskipped,
      continued_append hyblank, hycontinued, Bool.or_false]

theorem Opens.closed_escaped_iff (hx : Opens x) (hy : Continues y) {tail : List (List Char)}
    (htail : Closed tail) : Closed (splitLines (x ++ text ++ y) ++ tail) ↔ Escaped text := by
  obtain ⟨hyline, hyblank, hycontinued⟩ := hy
  have hne : tail ≠ [] := by
    rintro rfl
    exact htail
  rw [closed_append hne, and_iff_left htail]
  rcases splitLines_between hx.1 hyline text with htext | ⟨first, middle, last, htext, hlines⟩
  · have hmem : '\n' ∉ x ++ text ++ y := by simp [hx.1, hyline, htext]
    rw [splitLines_of_not_mem hmem, List.append_assoc, List.forall_mem_singleton, hx.goesOn,
      continued_append hyblank]
    exact iff_of_true hycontinued (escaped_of_not_mem htext)
  · rw [hlines, List.forall_mem_cons, List.forall_mem_append, List.forall_mem_singleton,
      escaped_iff htext, hx.goesOn]
    refine and_congr_right fun _ ↦ and_iff_left ?_
    rw [Dockerfile.goesOn, continued_append hyblank, hycontinued, Bool.or_true]

theorem Opens.closed_atEnd_iff (hx : Opens x) : Closed (splitLines (x ++ text)) ↔ AtEnd text := by
  rcases @splitLines_between x [] hx.1 List.not_mem_nil text with
    htext | ⟨first, middle, last, htext, hlines⟩
  · have hmem : '\n' ∉ x ++ text := by simp [hx.1, htext]
    rw [splitLines_of_not_mem hmem, atEnd_of_not_mem htext, Closed, hx.goesOn]
  · rw [List.append_nil, List.append_nil] at hlines
    rw [hlines, ← List.cons_append, closed_concat, List.forall_mem_cons, atEnd_iff htext,
      escaped_iff htext, hx.goesOn]

/-- In the last instruction of a file, it is enough that the line breaks are escaped. -/
theorem Opens.whole_iff (hx : Opens x) (hy : '\n' ∉ y) :
    Whole (splitLines (x ++ text ++ y)) ↔ Escaped text := by
  rcases splitLines_between hx.1 hy text with htext | ⟨first, middle, last, htext, hlines⟩
  · have hmem : '\n' ∉ x ++ text ++ y := by simp [hx.1, hy, htext]
    rw [splitLines_of_not_mem hmem]
    exact iff_of_true trivial (escaped_of_not_mem htext)
  · rw [hlines, ← List.cons_append, whole_concat, List.forall_mem_cons, escaped_iff htext,
      hx.goesOn]

end Between

/-! ## Blocks with a text in them -/

section Text

variable {keyword before after text : List Char} {tail : List (List Char)}

theorem not_escaped_of_break {first rest : List Char} (hfirst : '\n' ∉ first)
    (hcontinued : continued first = false) : ¬ Escaped (first ++ '\n' :: rest) := by
  rintro ⟨hescaped, -⟩
  obtain ⟨line, lines, hrest⟩ := List.exists_cons_of_ne_nil (splitLines_ne_nil rest)
  rw [splitLines_append_cons, splitLines_of_not_mem hfirst, hrest] at hescaped
  exact absurd (hescaped first rfl) (hcontinued ▸ Bool.false_ne_true)

theorem closes_instruction {more : List (List Char)} :
    (Block.instruction keyword text more).Closes ↔
      Closed (splitLines (keyword ++ ' ' :: text) ++ more.flatMap splitLines) := by
  rw [Block.Closes, Block.lines, Block.texts, List.flatMap_cons]

variable (hvalid : keyword ≠ [] ∧ ∀ c ∈ keyword, isSpace c = false ∧ c ≠ '#')

include hvalid

theorem closesIff_inside (hopens : Opens (keyword ++ ' ' :: before)) (hends : Ends after) :
    ClosesIff [.instruction keyword (before ++ text ++ after) []] (Inside text) := by
  refine closesIff_singleton hvalid ?_
  rw [closes_instruction, List.flatMap_nil, List.append_nil, ← hopens.closed_inside_iff hends]
  simp

theorem closesIff_atEnd (hopens : Opens (keyword ++ ' ' :: before)) :
    ClosesIff [.instruction keyword (before ++ text) []] (AtEnd text) := by
  refine closesIff_singleton hvalid ?_
  rw [closes_instruction, List.flatMap_nil, List.append_nil, ← hopens.closed_atEnd_iff]
  simp

theorem closesIff_escaped {head : List Char} (hhead : Continues (keyword ++ ' ' :: head))
    (hopens : Opens before) (hafter : Continues after) (htail : Closed (tail.flatMap splitLines)) :
    ClosesIff [.instruction keyword head ((before ++ text ++ after) :: tail)] (Escaped text) := by
  refine closesIff_singleton hvalid ?_
  have hne : splitLines (before ++ text ++ after) ++ tail.flatMap splitLines ≠ [] :=
    List.append_ne_nil_of_left_ne_nil (splitLines_ne_nil _) _
  rw [closes_instruction, List.flatMap_cons, closed_append hne,
    hopens.closed_escaped_iff hafter htail, splitLines_of_not_mem hhead.1,
    List.forall_mem_singleton, goesOn, hhead.2.2, Bool.or_true]
  exact and_iff_right rfl

theorem closesIff_lines {body last : List Char} {init : List (List Char)}
    (hgo : ∀ line ∈ (keyword ++ ' ' :: body) :: init, '\n' ∉ line ∧ goesOn line)
    (hlast : '\n' ∉ last ∧ ¬ goesOn last) :
    ClosesIff [.instruction keyword body (init ++ [last])] True := by
  refine closesIff_singleton hvalid (iff_of_true ?_ trivial)
  have hsplit : ∀ texts : List (List Char), (∀ text ∈ texts, '\n' ∉ text) →
      texts.flatMap splitLines = texts := by
    intro texts htexts
    induction texts with
    | nil => rfl
    | cons text texts ih =>
      obtain ⟨htext, htexts⟩ := List.forall_mem_cons.mp htexts
      rw [List.flatMap_cons, splitLines_of_not_mem htext, ih htexts, List.singleton_append]
  rw [Block.Closes, Block.lines, Block.texts, ← List.cons_append, hsplit, closed_concat]
  · exact ⟨fun line hline ↦ (hgo line hline).2, hlast.2⟩
  · rw [List.forall_mem_append, List.forall_mem_singleton]
    exact ⟨fun line hline ↦ (hgo line hline).1, hlast.1⟩

end Text

theorem Continues.append {y : List Char} (hy : Continues y) {x : List Char} (hx : '\n' ∉ x) :
    '\n' ∉ x ++ y ∧ goesOn (x ++ y) := by
  obtain ⟨hbreak, hblank, hcontinued⟩ := hy
  refine ⟨fun hmem ↦ (List.mem_append.mp hmem).elim hx hbreak, ?_⟩
  rw [goesOn, continued_append hblank, hcontinued, Bool.or_true]

/-! ## Files that are read back under a condition -/

/-- The blocks are valid, and the file they make is read back as it was made if and only if something
is so. -/
structure ReadBackIff (blocks : List Block) (p : Prop) : Prop where
  valid : ∀ b ∈ blocks, b.Valid
  instructions_eq_iff :
    instructions (render blocks) = blocks.filterMap Block.instruction? ↔ p

theorem ReadBackIff.congr {blocks : List Block} {p q : Prop} (h : ReadBackIff blocks p)
    (hpq : p ↔ q) : ReadBackIff blocks q := ⟨h.valid, h.instructions_eq_iff.trans hpq⟩

theorem ReadBackIff.keywords_iff {blocks : List Block} {p : Prop} (h : ReadBackIff blocks p) :
    instructions (render blocks) = blocks.filterMap Block.instruction? ∧
      (instructions (render blocks)).map keyword = blocks.filterMap Block.keyword? ↔ p := by
  rw [← h.instructions_eq_iff]
  refine and_iff_left_of_imp fun hread ↦ ?_
  rw [hread, map_keyword_filterMap h.valid]

theorem ClosesIff.readBackIff {blocks : List Block} {p : Prop} (h : ClosesIff blocks p)
    {keyword before text after : List Char}
    (hvalid : keyword ≠ [] ∧ ∀ c ∈ keyword, isSpace c = false ∧ c ≠ '#')
    (hopens : Opens (keyword ++ ' ' :: before)) (hafter : '\n' ∉ after) :
    ReadBackIff (blocks ++ [.instruction keyword (before ++ text ++ after) []])
      (p ∧ Escaped text) := by
  have hlast : (Block.instruction keyword (before ++ text ++ after) []).Valid := hvalid
  refine ⟨List.forall_mem_append.mpr ⟨h.valid, List.forall_mem_singleton.mpr hlast⟩, ?_⟩
  refine (Dockerfile.instructions_eq_iff h.valid hlast rfl).trans (and_congr h.closes ?_)
  rw [← hopens.whole_iff hafter]
  simp [Block.lines, Block.texts]

theorem ClosesIff.readBackIff_of_not_mem {blocks : List Block} {p : Prop} (h : ClosesIff blocks p)
    {keyword body : List Char} (hvalid : keyword ≠ [] ∧ ∀ c ∈ keyword, isSpace c = false ∧ c ≠ '#')
    (hbody : '\n' ∉ keyword ++ ' ' :: body) :
    ReadBackIff (blocks ++ [.instruction keyword body []]) p := by
  have hlast : (Block.instruction keyword body []).Valid := hvalid
  refine ⟨List.forall_mem_append.mpr ⟨h.valid, List.forall_mem_singleton.mpr hlast⟩, ?_⟩
  refine (Dockerfile.instructions_eq_iff h.valid hlast rfl).trans ?_
  rw [h.closes, Block.lines, Block.texts, List.flatMap_singleton, splitLines_of_not_mem hbody]
  exact and_iff_left trivial

end Dockerfile

end ArgusMcp
