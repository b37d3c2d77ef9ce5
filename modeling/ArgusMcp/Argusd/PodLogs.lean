import ArgusMcp.Argusd.Kubernetes
import ArgusMcp.Argusd.LogFrames
import ArgusMcp.Library.LineScanner

/-!
# The log of a pod in pieces

`StreamPodLogs` takes what it gets from one read for whole lines: it trims off the newlines at its
end, and splits the rest. So a line that is read in two pieces comes out as two, an empty line at
the end of a piece does not come out, and a newline that is read on its own comes out as an empty
line, also when it is the end of a line.

What the pieces have to be like is said by a walk over them (`Place.next`), which knows at the end
of each piece whether the next one begins a line. Empty lines that do not come out can make up for
empty lines that should not have come out, when there is nothing between them.

**Times** are those of Docker logs (`parseTime`), and an entry whose time cannot be written stops
the log as well.
-/

namespace ArgusMcp

namespace Argusd

open LineScanner (newline lines)

def PodLogEntry.marshals (e : PodLogEntry Rfc3339.Time) : Bool := e.timestamp.all Argusd.marshals

def podLines (pieces : List (List UInt8)) : List (List UInt8) :=
  pieces.flatMap fun piece ↦ if piece = [] then [] else splitNewlines (trimNewlines piece)

def podEntry (pod container : String) (line : List UInt8) : PodLogEntry Rfc3339.Time :=
  let parts := splitTimestamp parseTime line
  ⟨parts.1, pod, container, parts.2⟩

/-- The loop of `StreamPodLogs`, over what it reads, with the entries that are written. -/
def readPodLog (pod container : String) (broken : Option String) :
    List (List UInt8) → List (PodLogEntry Rfc3339.Time) × Option Failure
  | [] => ([], broken.map .plain)
  | piece :: rest =>
    let entries := podEntries parseTime pod container [piece]
    if entries.all PodLogEntry.marshals then
      let later := readPodLog pod container broken rest
      (entries ++ later.1, later.2)
    else (entries.takeWhile PodLogEntry.marshals, some offsetError)

theorem podLines_cons (piece : List UInt8) (rest : List (List UInt8)) :
    podLines (piece :: rest) = podLines [piece] ++ podLines rest := by
  rw [podLines, podLines, podLines, List.flatMap_cons, List.flatMap_singleton]

theorem podEntries_eq (pod container : String) (pieces : List (List UInt8)) :
    podEntries parseTime pod container pieces = (podLines pieces).map (podEntry pod container) := by
  rw [podEntries, podLines, List.map_flatMap]
  refine congrArg₂ _ (funext fun piece ↦ ?_) rfl
  split
  · rfl
  · rfl

/-- What is shown is shown line by line, up to a time that cannot be written. -/
theorem readPodLog_eq_takeWhile (pod container : String) (broken : Option String)
    (pieces : List (List UInt8)) : (readPodLog pod container broken pieces).1 =
      (podEntries parseTime pod container pieces).takeWhile PodLogEntry.marshals := by
  induction pieces with
  | nil => rfl
  | cons piece rest ih =>
    have hcons : podEntries parseTime pod container (piece :: rest) =
        podEntries parseTime pod container [piece] ++ podEntries parseTime pod container rest := by
      rw [podEntries_eq, podEntries_eq, podEntries_eq, podLines_cons, List.map_append]
    rw [readPodLog, hcons]
    by_cases hall : (podEntries parseTime pod container [piece]).all PodLogEntry.marshals = true
    · rw [if_pos hall, List.takeWhile_append_of_pos (List.all_eq_true.mp hall), ← ih]
    · rw [if_neg hall, List.takeWhile_append, if_neg fun hlength ↦ hall ?_]
      have hself := (List.takeWhile_prefix PodLogEntry.marshals).eq_of_length hlength
      exact List.all_eq_true.mpr (List.takeWhile_eq_self_iff.mp hself)

/-! ## The walk over the pieces -/

/-- Where a piece ends. -/
inductive Place where
  | lineStart
  | inLine
  /-- An empty line has been shown in place of the end of a line. -/
  | ahead
  deriving DecidableEq

def trimmed (piece : List UInt8) : ℕ := piece.length - (trimNewlines piece).length

/-- Where so many newlines may end that are read on their own. -/
def Place.afterNewlines : Place → ℕ → Option Place
  | place, 0 => some place
  | .lineStart, 1 => some .lineStart
  | .inLine, 1 | .ahead, 1 => some .ahead
  | .inLine, 2 | .ahead, 2 => some .lineStart
  | _, _ => none

/-- Where text may end, with so many newlines behind it. -/
def Place.afterText : Place → ℕ → Option Place
  | .lineStart, 0 => some .inLine
  | .lineStart, 1 => some .lineStart
  | _, _ => none

/-- Where a piece may end that begins here. -/
def Place.next (place : Place) (piece : List UInt8) : Option Place :=
  if trimNewlines piece = [] then place.afterNewlines (trimmed piece)
  else place.afterText (trimmed piece)

/-- The pieces are such that each line comes out. -/
def fits : Place → List (List UInt8) → Bool
  | place, [] => place ≠ .ahead
  | place, piece :: rest => (place.next piece).any fun later ↦ fits later rest

/-- What it takes for the rest of the pieces to be shown right. -/
def Place.Meant (rest : List (List UInt8)) : Place → Prop
  | .lineStart => podLines rest = lines rest.flatten
  | .inLine =>
    rest.flatten = [] ∨ ∃ stream, rest.flatten = newline :: stream ∧ podLines rest = lines stream
  | .ahead => [] :: podLines rest = lines rest.flatten

section Pieces

variable {piece : List UInt8} {rest : List (List UInt8)}

theorem eq_trimNewlines_append (piece : List UInt8) :
    piece = trimNewlines piece ++ List.replicate (trimmed piece) newline := by
  obtain ⟨n, hn⟩ := exists_eq_trimNewlines_append piece
  have hlength := congrArg List.length hn
  rw [List.length_append, List.length_replicate] at hlength
  have htrimmed : trimmed piece = n := by
    rw [trimmed]
    omega
  rw [htrimmed]
  exact hn

theorem podLines_of_newlines {n : ℕ} (h : trimNewlines piece = []) (hn : trimmed piece = n + 1) :
    podLines (piece :: rest) = [] :: podLines rest := by
  have hne : piece ≠ [] := by
    rintro rfl
    exact absurd hn (by simp [trimmed])
  rw [podLines_cons, podLines, List.flatMap_singleton, if_neg hne, h]
  rfl

theorem podLines_of_text (h : trimNewlines piece ≠ []) :
    podLines (piece :: rest) = lines (trimNewlines piece) ++ podLines rest := by
  have hne : piece ≠ [] := by
    rintro rfl
    exact h rfl
  rw [podLines_cons, podLines, List.flatMap_singleton, if_neg hne,
    LineScanner.lines_eq_splitOn h (getLast?_trimNewlines piece)]
  rfl

theorem podLines_of_flatten_eq_nil (h : rest.flatten = []) : podLines rest = [] := by
  rw [podLines, List.flatMap_eq_nil_iff]
  intro piece hpiece
  rw [if_pos (List.flatten_eq_nil_iff.mp h piece hpiece)]

theorem replicate_append_cons_inj {m n : ℕ} {a b : List UInt8} (ha : a ≠ []) (hb : b ≠ [])
    {as bs : List (List UInt8)}
    (h : List.replicate m [] ++ a :: as = List.replicate n [] ++ b :: bs) : m = n := by
  induction m generalizing n with
  | zero =>
    rcases n with _ | n
    · rfl
    · exact absurd (List.cons.inj h).1 ha
  | succ m ih =>
    rcases n with _ | n
    · exact absurd (List.cons.inj h).1.symm hb
    · rw [ih (List.cons.inj h).2]

theorem exists_text {text : List UInt8} (hne : text ≠ []) (hlast : text.getLast? ≠ some newline) :
    ∃ n c later, c ≠ newline ∧ text = List.replicate n newline ++ c :: later := by
  induction text with
  | nil => exact absurd rfl hne
  | cons c later ih =>
    by_cases hc : c = newline
    · have hlater : later ≠ [] := by
        rintro rfl
        exact hlast (congrArg some hc)
      rw [List.getLast?_cons_of_ne_nil hlater] at hlast
      obtain ⟨n, c', later', hc', rfl⟩ := ih hlater hlast
      exact ⟨n + 1, c', later', hc', congrArg₂ _ hc rfl⟩
    · exact ⟨0, c, later, hc, rfl⟩

theorem eq_of_replicate_append {m n : ℕ} (htext : trimNewlines piece ≠ [])
    (h : List.replicate m [] ++ podLines (piece :: rest) =
      List.replicate n [] ++ lines (piece :: rest).flatten) : m = n := by
  obtain ⟨k, c, later, hc, ht⟩ := exists_text htext (getLast?_trimNewlines piece)
  have hshown : podLines (piece :: rest) = List.replicate k [] ++
      (c :: (lines later).headD []) :: ((lines later).tail ++ podLines rest) := by
    rw [podLines_of_text htext, ht, LineScanner.lines_replicate_append, LineScanner.lines_cons hc,
      List.append_assoc, List.cons_append]
  have hstream : (piece :: rest).flatten = List.replicate k newline ++
      c :: (later ++ (List.replicate (trimmed piece) newline ++ rest.flatten)) := by
    have hpiece := eq_trimNewlines_append piece
    rw [ht, List.append_assoc, List.cons_append] at hpiece
    rw [List.flatten_cons]
    conv_lhs => rw [hpiece]
    rw [List.append_assoc, List.cons_append, List.append_assoc]
  rw [hshown, hstream, LineScanner.lines_replicate_append, LineScanner.lines_cons hc,
    ← List.append_assoc, ← List.append_assoc, List.replicate_append_replicate,
    List.replicate_append_replicate] at h
  have := replicate_append_cons_inj (List.cons_ne_nil c _) (List.cons_ne_nil c _) h
  omega

theorem eq_zero_of_eq_replicate_append {m : ℕ}
    (h : podLines rest = List.replicate m [] ++ lines rest.flatten) : m = 0 := by
  induction rest generalizing m with
  | nil => exact (List.replicate_eq_nil_iff _).mp (List.append_eq_nil_iff.mp h.symm).1
  | cons piece rest ih =>
    by_cases htext : trimNewlines piece = []
    · have hpiece := eq_trimNewlines_append piece
      rw [htext, List.nil_append] at hpiece
      rcases hn : trimmed piece with _ | n
      · rw [hn] at hpiece
        rw [hpiece] at h
        exact ih h
      · rw [podLines_of_newlines htext hn, List.flatten_cons, hpiece, hn,
          LineScanner.lines_replicate_append, ← List.append_assoc,
          List.replicate_append_replicate] at h
        have hzero : m + n = 0 := ih (List.cons.inj h).2
        omega
    · exact (eq_of_replicate_append (m := 0) htext h).symm

theorem eq_replicate_append_iff {m : ℕ} :
    podLines rest = List.replicate m [] ++ lines rest.flatten ↔
      m = 0 ∧ podLines rest = lines rest.flatten := by
  refine ⟨fun h ↦ ?_, ?_⟩
  · obtain rfl := eq_zero_of_eq_replicate_append h
    exact ⟨rfl, h⟩
  · rintro ⟨rfl, h⟩
    exact h

/-! ### One piece -/

theorem meant_of_empty (place : Place) (htext : trimNewlines piece = []) (hn : trimmed piece = 0) :
    place.Meant (piece :: rest) ↔ place.Meant rest := by
  have hpiece := eq_trimNewlines_append piece
  rw [htext, hn] at hpiece
  rw [hpiece]
  rcases place
  · rfl
  · rfl
  · rfl

section Newlines

variable {n : ℕ} (htext : trimNewlines piece = []) (hn : trimmed piece = n + 1)

include htext hn

theorem flatten_of_newlines :
    (piece :: rest).flatten = newline :: (List.replicate n newline ++ rest.flatten) := by
  have hpiece := eq_trimNewlines_append piece
  rw [htext, hn, List.nil_append] at hpiece
  rw [List.flatten_cons, hpiece, List.replicate_succ, List.cons_append]

theorem meant_lineStart_of_newlines :
    Place.lineStart.Meant (piece :: rest) ↔ n = 0 ∧ Place.lineStart.Meant rest := by
  rw [Place.Meant, podLines_of_newlines htext hn, flatten_of_newlines htext hn, ← List.cons_append,
    ← List.replicate_succ, LineScanner.lines_replicate_append, List.replicate_succ,
    List.cons_append, List.cons_inj_right]
  exact eq_replicate_append_iff

/-- The end of a line comes out as an empty line. -/
theorem meant_inLine_of_newlines : Place.inLine.Meant (piece :: rest) ↔
    [] :: podLines rest = List.replicate n [] ++ lines rest.flatten := by
  rw [Place.Meant, podLines_of_newlines htext hn, flatten_of_newlines htext hn,
    ← LineScanner.lines_replicate_append]
  constructor
  · rintro (h | ⟨stream, h, hlines⟩)
    · exact absurd h (List.cons_ne_nil _ _)
    · rw [hlines, (List.cons.inj h).2]
  · exact fun h ↦ Or.inr ⟨_, rfl, h⟩

theorem meant_ahead_of_newlines : Place.ahead.Meant (piece :: rest) ↔
    [] :: podLines rest = List.replicate n [] ++ lines rest.flatten := by
  rw [Place.Meant, podLines_of_newlines htext hn, flatten_of_newlines htext hn, ← List.cons_append,
    ← List.replicate_succ, LineScanner.lines_replicate_append, List.replicate_succ,
    List.cons_append, List.cons_inj_right]

end Newlines

section Text

variable (htext : trimNewlines piece ≠ [])

include htext

theorem meant_lineStart_of_open (hn : trimmed piece = 0) :
    Place.lineStart.Meant (piece :: rest) ↔ Place.inLine.Meant rest := by
  have hlast := getLast?_trimNewlines piece
  have hpiece := eq_trimNewlines_append piece
  rw [hn, List.replicate_zero, List.append_nil] at hpiece
  rw [Place.Meant, podLines_of_text htext, List.flatten_cons, ← hpiece, Place.Meant]
  rw [← hpiece] at htext hlast
  rcases hrest : rest.flatten with _ | ⟨c, stream⟩
  · rw [podLines_of_flatten_eq_nil hrest, List.append_nil, List.append_nil]
    exact iff_of_true rfl (Or.inl rfl)
  by_cases hc : c = newline
  · rw [hc, LineScanner.lines_append_newline_cons, LineScanner.lines_eq_splitOn htext hlast,
      List.append_cancel_left_eq]
    constructor
    · exact fun h ↦ Or.inr ⟨stream, rfl, h⟩
    · rintro (h | ⟨stream', h, hlines⟩)
      · exact absurd h (List.cons_ne_nil _ _)
      · rw [hlines, (List.cons.inj h).2]
  · refine iff_of_false (LineScanner.lines_append_cons_ne htext hlast hc stream _).symm ?_
    rintro (h | ⟨stream', h, -⟩)
    · exact List.cons_ne_nil _ _ h
    · exact hc (List.cons.inj h).1

theorem meant_lineStart_of_ended {n : ℕ} (hn : trimmed piece = n + 1) :
    Place.lineStart.Meant (piece :: rest) ↔ n = 0 ∧ Place.lineStart.Meant rest := by
  have hpiece := eq_trimNewlines_append piece
  rw [hn, List.replicate_succ] at hpiece
  have hstream : (piece :: rest).flatten =
      trimNewlines piece ++ newline :: (List.replicate n newline ++ rest.flatten) := by
    rw [List.flatten_cons]
    conv_lhs => rw [hpiece]
    rw [List.append_assoc, List.cons_append]
  rw [Place.Meant, podLines_of_text htext, hstream, LineScanner.lines_append_newline_cons,
    LineScanner.lines_eq_splitOn htext (getLast?_trimNewlines piece), List.append_cancel_left_eq,
    LineScanner.lines_replicate_append]
  exact eq_replicate_append_iff

theorem not_meant_of_text {place : Place} (hplace : place ≠ .lineStart) :
    ¬ place.Meant (piece :: rest) := by
  have hahead : ¬ Place.ahead.Meant (piece :: rest) := by
    intro h
    exact Nat.one_ne_zero (@eq_of_replicate_append piece rest 1 0 htext h)
  rcases place
  · exact absurd rfl hplace
  · rintro (h | ⟨stream, hstream, hlines⟩)
    · refine htext ?_
      rw [(List.append_eq_nil_iff.mp h).1]
      rfl
    · refine hahead ?_
      have hempty := LineScanner.lines_append_cons List.not_mem_nil stream
      rw [List.nil_append] at hempty
      rw [Place.Meant, hstream, hempty, hlines]
  · exact hahead

end Text

end Pieces

theorem fits_iff (place : Place) (pieces : List (List UInt8)) :
    fits place pieces ↔ place.Meant pieces := by
  induction pieces generalizing place with
  | nil =>
    rcases place
    · exact iff_of_true rfl rfl
    · exact iff_of_true rfl (Or.inl rfl)
    · exact iff_of_false (by decide) (List.cons_ne_nil _ _)
  | cons piece rest ih =>
    have hbehind : ∀ n, Option.any (fits · rest) (Place.afterNewlines .ahead (n + 1)) = true ↔
        [] :: podLines rest = List.replicate n [] ++ lines rest.flatten := by
      intro n
      rcases n with _ | _ | n
      · exact ih .ahead
      · exact (ih .lineStart).trans (List.cons_inj_right []).symm
      · refine iff_of_false (by simp [Place.afterNewlines]) fun h ↦ ?_
        exact absurd (eq_zero_of_eq_replicate_append (List.cons.inj h).2) (Nat.succ_ne_zero n)
    have hlineStart : ∀ n, (n = 0 ∧ Place.lineStart.Meant rest) ↔
        n = 0 ∧ fits .lineStart rest = true :=
      fun n ↦ and_congr_right fun _ ↦ (ih .lineStart).symm
    rw [fits, Place.next]
    by_cases htext : trimNewlines piece = []
    · rw [if_pos htext]
      rcases hn : trimmed piece with _ | n
      · rw [meant_of_empty place htext hn, ← ih]
        rfl
      rcases place
      · rw [meant_lineStart_of_newlines htext hn, hlineStart]
        rcases n with _ | n
        · exact (and_iff_right rfl).symm
        · exact iff_of_false (by simp [Place.afterNewlines]) fun h ↦ absurd h.1 (Nat.succ_ne_zero n)
      · rw [meant_inLine_of_newlines htext hn, ← hbehind]
        rcases n with _ | _ | n
        · rfl
        · rfl
        · rfl
      · rw [meant_ahead_of_newlines htext hn, ← hbehind]
    · rw [if_neg htext]
      rcases place
      · rcases hn : trimmed piece with _ | n
        · rw [meant_lineStart_of_open htext hn, ← ih]
          rfl
        · rw [meant_lineStart_of_ended htext hn, hlineStart]
          rcases n with _ | n
          · exact (and_iff_right rfl).symm
          · exact iff_of_false Bool.false_ne_true fun h ↦ absurd h.1 (Nat.succ_ne_zero n)
      · exact iff_of_false Bool.false_ne_true (not_meant_of_text htext (by decide))
      · exact iff_of_false Bool.false_ne_true (not_meant_of_text htext (by decide))

/-! ## Entries -/

/-- Lines of which one begins with the other are told apart by their entries. -/
theorem podEntry_inj {pod container : String} {line line' : List UInt8} (hstart : line <+: line')
    (h : podEntry pod container line = podEntry pod container line') : line = line' := by
  have hsays := says_splitTimestamp (rfl : parseTime [] = none) line
  have hsays' := says_splitTimestamp (rfl : parseTime [] = none) line'
  obtain ⟨htime, -, -, hmessage⟩ := PodLogEntry.mk.injEq .. ▸ h
  rw [← htime, ← hmessage] at hsays'
  rcases ht : (splitTimestamp parseTime line).1 with _ | t
  · rw [ht] at hsays hsays'
    exact hsays.1.symm.trans hsays'.1
  · rw [ht] at hsays hsays'
    obtain ⟨word, hword, hline, -⟩ := hsays
    obtain ⟨word', hword', hline', -⟩ := hsays'
    obtain ⟨more, hmore⟩ := hstart
    have hsame : word = word' := by
      rw [← LineScanner.takeWhile_append_cons hword' (splitTimestamp parseTime line).2, ← hline',
        ← hmore, hline, List.append_assoc, List.cons_append,
        LineScanner.takeWhile_append_cons hword]
    rw [hline, hline', hsame]

theorem eq_of_map_eq {β : Type} {f : List UInt8 → β}
    (hf : ∀ line line', line <+: line' → f line = f line' → line = line')
    {shown wanted : List (List UInt8)} (hstart : shown.flatten <+: wanted.flatten)
    (h : shown.map f = wanted.map f) : shown = wanted := by
  induction shown generalizing wanted with
  | nil => exact (List.map_eq_nil_iff.mp h.symm).symm
  | cons line shown ih =>
    rcases wanted with _ | ⟨line', wanted⟩
    · exact absurd h (List.cons_ne_nil _ _)
    · obtain ⟨hline, hrest⟩ := List.cons.inj h
      rw [List.flatten_cons, List.flatten_cons] at hstart
      have heq : line = line' := by
        rcases List.prefix_or_prefix_of_prefix ((List.prefix_append _ _).trans hstart)
          (List.prefix_append line' _) with hle | hle
        · exact hf _ _ hle hline
        · exact (hf _ _ hle hline.symm).symm
      subst heq
      rw [ih ((List.prefix_append_right_inj line).mp hstart) hrest]

theorem flatten_podLines (pieces : List (List UInt8)) :
    (podLines pieces).flatten = pieces.flatten.filter (· ≠ newline) := by
  induction pieces with
  | nil => rfl
  | cons piece rest ih =>
    rw [List.flatten_cons, List.filter_append, ← ih]
    have hpiece : piece.filter (· ≠ newline) = (trimNewlines piece).filter (· ≠ newline) := by
      conv_lhs => rw [eq_trimNewlines_append piece]
      rw [List.filter_append, List.filter_replicate_of_neg (by simp), List.append_nil]
    rw [hpiece]
    by_cases htext : trimNewlines piece = []
    · rw [htext, List.filter_nil, List.nil_append]
      rcases hn : trimmed piece with _ | n
      · have hempty := eq_trimNewlines_append piece
        rw [htext, hn] at hempty
        rw [hempty]
        rfl
      · rw [podLines_of_newlines htext hn, List.flatten_cons, List.nil_append]
    · rw [podLines_of_text htext, List.flatten_append, LineScanner.flatten_lines]

/-- **One entry for each line**, just in case the pieces fit and every time can be written. -/
theorem readPodLog_eq_lines_iff (pod container : String) (broken : Option String)
    (pieces : List (List UInt8)) :
    (readPodLog pod container broken pieces).1 =
        (lines pieces.flatten).map (podEntry pod container) ↔
      fits .lineStart pieces ∧
        ∀ line ∈ lines pieces.flatten, (podEntry pod container line).marshals := by
  rw [readPodLog_eq_takeWhile, podEntries_eq, fits_iff, Place.Meant, List.takeWhile_map]
  constructor
  · intro h
    obtain ⟨more, hmore⟩ :=
      List.takeWhile_prefix (l := podLines pieces) (PodLogEntry.marshals ∘ podEntry pod container)
    have hflatten := congrArg List.flatten hmore
    rw [List.flatten_append, flatten_podLines, ← LineScanner.flatten_lines] at hflatten
    have hshown := eq_of_map_eq (fun _ _ ↦ podEntry_inj) ⟨_, hflatten⟩ h
    rw [hshown, List.append_right_eq_self] at hflatten
    have hall : ∀ line ∈ podLines pieces, (podEntry pod container line).marshals = true := by
      intro line hline
      rw [← hmore, List.mem_append] at hline
      rcases hline with hline | hline
      · have hmarshals := List.mem_takeWhile_imp hline
        exact hmarshals
      · rw [List.flatten_eq_nil_iff.mp hflatten line hline]
        rfl
    have hlines : podLines pieces = lines pieces.flatten :=
      (List.takeWhile_eq_self_iff.mpr hall).symm.trans hshown
    exact ⟨hlines, hlines ▸ hall⟩
  · rintro ⟨hlines, hall⟩
    rw [hlines]
    exact congrArg _ (List.takeWhile_eq_self_iff.mpr hall)

/-- A line in two pieces. -/
theorem not_forall_readPodLog_eq_lines :
    ¬ ∀ (pod container : String) (pieces : List (List UInt8)),
      (∀ piece ∈ pieces, piece.length ≤ 32 * 1024) →
        (readPodLog pod container none pieces).1 =
          (lines pieces.flatten).map (podEntry pod container) := by
  intro h
  have hlength := congrArg List.length (h "" "" [[97], [98]] (by decide))
  exact absurd hlength (by decide)

end Argusd

end ArgusMcp
