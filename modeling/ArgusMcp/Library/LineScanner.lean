import Mathlib.Data.List.TakeWhile
import Mathlib.Tactic.Common

/-!
# Lines through a buffer

A scanner hands out the lines of a stream one after another. It keeps what it has read and not
handed out in a buffer of a fixed size, and reads more when there is no whole line in it, as much
as the reader gives, which is at least one byte and no more than there is room for. If the buffer is
full without a line end in it, it stops with an error. At the end of the stream, what is left is a
line as well.

How much a reader gives at a time makes no difference (`scan_eq`): the lines that come out are those
before the first one that does not fit into the buffer together with its end.
-/

namespace ArgusMcp

namespace LineScanner

abbrev Byte := UInt8

def newline : Byte := 10

def carriageReturn : Byte := 13

/-- A carriage return at the end of a line is not part of it. -/
def dropCR (line : List Byte) : List Byte :=
  if line.getLast? = some carriageReturn then line.dropLast else line

/-- The split function for lines: how much of the data is used up, and the line in it, if there is
one. -/
def scanLines (data : List Byte) (atEOF : Bool) : Option (ℕ × List Byte) :=
  if atEOF ∧ data = [] then none
  else if newline ∈ data then
    let line := data.takeWhile (· ≠ newline)
    some (line.length + 1, dropCR line)
  else if atEOF then some (data.length, dropCR data)
  else none

theorem decide_ne_of_notMem {sep : Byte} {line : List Byte} (h : sep ∉ line) :
    ∀ c ∈ line, decide (c ≠ sep) = true :=
  fun _ hc ↦ decide_eq_true fun heq ↦ h (heq ▸ hc)

theorem takeWhile_append_cons {sep : Byte} {line : List Byte} (h : sep ∉ line)
    (stream : List Byte) : (line ++ sep :: stream).takeWhile (· ≠ sep) = line := by
  rw [List.takeWhile_append_of_pos (decide_ne_of_notMem h)]
  simp

/-- How a scan ends. -/
inductive Ending where
  | eof
  | tooLong
  deriving DecidableEq

/-- As much as the reader gives, of what there is, where there is room. -/
def given (wanted room : ℕ) (stream : List Byte) : ℕ := min (max 1 wanted) (min room stream.length)

theorem scanLines_eq_some_iff {data line : List Byte} {advance : ℕ} :
    scanLines data false = some (advance, line) ↔ newline ∈ data ∧
      advance = (data.takeWhile (· ≠ newline)).length + 1 ∧
      line = dropCR (data.takeWhile (· ≠ newline)) := by
  rw [scanLines, if_neg (by simp)]
  by_cases hmem : newline ∈ data
  · rw [if_pos hmem, Option.some.injEq, Prod.mk.injEq, eq_comm, and_iff_right hmem]
    exact and_congr_right fun _ ↦ eq_comm
  · rw [if_neg hmem]
    exact iff_of_false (by simp) fun h ↦ hmem h.1

theorem scanLines_eq_none_iff {data : List Byte} :
    scanLines data false = none ↔ newline ∉ data := by
  rw [scanLines, if_neg (by simp)]
  by_cases hmem : newline ∈ data
  · rw [if_pos hmem]
    exact iff_of_false (Option.some_ne_none _) (not_not.mpr hmem)
  · rw [if_neg hmem]
    exact iff_of_true rfl hmem

/-- The lines that are handed out, and how the scan ends. The reader gives `reads n` bytes the
`n`-th time, if it can. -/
def scan (size : ℕ) (reads : ℕ → ℕ) (n : ℕ) (buffer stream : List Byte) :
    List (List Byte) × Ending :=
  match _h : scanLines buffer false with
  | some (advance, line) =>
    let rest := scan size reads n (buffer.drop advance) stream
    (line :: rest.1, rest.2)
  | none =>
    if buffer.length < size then
      match stream with
      | [] => (((scanLines buffer true).map Prod.snd).toList, .eof)
      | c :: stream =>
        let k := given (reads n) (size - buffer.length) (c :: stream)
        scan size reads (n + 1) (buffer ++ (c :: stream).take k) ((c :: stream).drop k)
    else ([], .tooLong)
termination_by (stream.length, buffer.length)
decreasing_by
  · obtain ⟨hmem, rfl, -⟩ := scanLines_eq_some_iff.mp _h
    have := List.length_pos_of_mem hmem
    rw [Prod.lex_def, List.length_drop]
    exact Or.inr ⟨rfl, by omega⟩
  · rw [Prod.lex_def, List.length_drop, given]
    refine Or.inl ?_
    dsimp only [List.length_cons]
    omega

section Equations

variable {size : ℕ} {reads : ℕ → ℕ} {n : ℕ} {buffer stream : List Byte}

theorem scan_of_line {advance : ℕ} {line : List Byte}
    (h : scanLines buffer false = some (advance, line)) : (scan size reads n buffer stream).1 =
      line :: (scan size reads n (buffer.drop advance) stream).1 := by
  rw [scan.eq_def]
  split
  · rename_i heq
    obtain ⟨rfl, rfl⟩ := Prod.mk.inj (Option.some.inj (h.symm.trans heq))
    rfl
  · rename_i heq
    exact absurd (h.symm.trans heq) (Option.some_ne_none _)

theorem scan_of_full (h : newline ∉ buffer) (hfull : ¬ buffer.length < size) :
    (scan size reads n buffer stream).1 = [] := by
  rw [scan.eq_def]
  split
  · rename_i heq
    exact absurd (scanLines_eq_some_iff.mp heq).1 h
  · rw [if_neg hfull]

theorem scan_nil (h : newline ∉ buffer) (hroom : buffer.length < size) :
    (scan size reads n buffer []).1 = ((scanLines buffer true).map Prod.snd).toList := by
  rw [scan.eq_def]
  split
  · rename_i heq
    exact absurd (scanLines_eq_some_iff.mp heq).1 h
  · rw [if_pos hroom]

theorem scan_read (h : newline ∉ buffer) (hroom : buffer.length < size) (hne : stream ≠ []) :
    (scan size reads n buffer stream).1 =
      (scan size reads (n + 1)
        (buffer ++ stream.take (given (reads n) (size - buffer.length) stream))
        (stream.drop (given (reads n) (size - buffer.length) stream))).1 := by
  rw [scan.eq_def]
  split
  · rename_i heq
    exact absurd (scanLines_eq_some_iff.mp heq).1 h
  · rw [if_pos hroom]
    cases stream with
    | nil => exact absurd rfl hne
    | cons c stream => rfl

end Equations

/-! ## Lines -/

/-- The lines of a stream, with the one that is not ended. -/
def lines (stream : List Byte) : List (List Byte) :=
  let parts := stream.splitOn newline
  if parts.getLast? = some [] then parts.dropLast else parts

theorem lines_append_newline_cons (s stream : List Byte) :
    lines (s ++ newline :: stream) = s.splitOn newline ++ lines stream := by
  have hne := List.splitOn_ne_nil newline stream
  obtain ⟨last, hlast⟩ := Option.isSome_iff_exists.mp (List.getLast?_isSome.mpr hne)
  rw [lines, lines, List.splitOn_append_cons_self, List.getLast?_append, hlast, Option.some_or,
    List.dropLast_append_of_ne_nil hne]
  split
  · rfl
  · rfl

theorem lines_append_cons {line : List Byte} (h : newline ∉ line) (stream : List Byte) :
    lines (line ++ newline :: stream) = line :: lines stream := by
  rw [lines_append_newline_cons, List.splitOn_eq_singleton h, List.singleton_append]

theorem lines_replicate_append (n : ℕ) (stream : List Byte) :
    lines (List.replicate n newline ++ stream) = List.replicate n [] ++ lines stream := by
  induction n with
  | zero => rfl
  | succ n ih =>
    rw [List.replicate_succ, List.cons_append, List.replicate_succ, List.cons_append, ← ih]
    exact lines_append_cons List.not_mem_nil _

theorem lines_of_not_mem {stream : List Byte} (h : newline ∉ stream) :
    lines stream = if stream = [] then [] else [stream] := by
  rw [lines, List.splitOn_eq_singleton h]
  by_cases hstream : stream = []
  · subst hstream
    rfl
  · have hlast : [stream].getLast? ≠ some [] :=
      fun hlast ↦ hstream (Option.some.inj hlast)
    rw [if_neg hstream]
    exact if_neg hlast

theorem lines_cons {c : Byte} (h : c ≠ newline) (stream : List Byte) :
    lines (c :: stream) = (c :: (lines stream).headD []) :: (lines stream).tail := by
  have hcons : ∀ {line}, newline ∉ line → newline ∉ c :: line :=
    fun hline hmem ↦ (List.mem_cons.mp hmem).elim (fun heq ↦ h heq.symm) hline
  by_cases hmem : newline ∈ stream
  · obtain ⟨line, rest, rfl, hline⟩ := List.eq_append_cons_of_mem hmem
    rw [← List.cons_append, lines_append_cons (hcons hline), lines_append_cons hline]
    rfl
  · rw [lines_of_not_mem (hcons hmem), lines_of_not_mem hmem, if_neg (List.cons_ne_nil c stream)]
    split
    · rename_i hstream
      rw [hstream]
      rfl
    · rfl

theorem flatten_lines (stream : List Byte) :
    (lines stream).flatten = stream.filter (· ≠ newline) := by
  induction stream with
  | nil => rfl
  | cons c stream ih =>
    by_cases hc : c = newline
    · have hlines := lines_append_cons List.not_mem_nil stream
      rw [List.nil_append] at hlines
      rw [hc, hlines, List.flatten_cons, List.nil_append, ih, List.filter_cons_of_neg (by simp)]
    · rw [lines_cons hc, List.filter_cons_of_pos (by simpa using hc), ← ih]
      rcases lines stream with _ | ⟨line, rest⟩
      · rfl
      · rfl

theorem head?_lines {stream : List Byte} (hne : stream ≠ []) :
    (lines stream).head? = some (stream.takeWhile (· ≠ newline)) := by
  by_cases hmem : newline ∈ stream
  · obtain ⟨line, rest, rfl, hline⟩ := List.eq_append_cons_of_mem hmem
    rw [lines_append_cons hline, takeWhile_append_cons hline, List.head?_cons]
  · rw [lines_of_not_mem hmem, if_neg hne, List.head?_cons,
      List.takeWhile_eq_self_iff.mpr (decide_ne_of_notMem hmem)]

theorem exists_last_line {stream : List Byte} (hne : stream ≠ [])
    (hlast : stream.getLast? ≠ some newline) :
    ∃ before line, line ≠ [] ∧ newline ∉ line ∧ stream.splitOn newline = before ++ [line] ∧
      ∀ rest, lines (stream ++ rest) = before ++ lines (line ++ rest) := by
  by_cases hmem : newline ∈ stream
  · obtain ⟨line, before, hreverse, hline⟩ :=
      List.eq_append_cons_of_mem (List.mem_reverse.mpr hmem)
    have hstream : stream = before.reverse ++ newline :: line.reverse := by
      rw [← List.reverse_reverse stream, hreverse]
      simp
    have hline' : newline ∉ line.reverse := fun h ↦ hline (List.mem_reverse.mp h)
    refine ⟨before.reverse.splitOn newline, line.reverse, ?_, hline', ?_, fun rest ↦ ?_⟩
    · rintro hempty
      rw [hstream, hempty, List.getLast?_append] at hlast
      exact hlast rfl
    · rw [hstream, List.splitOn_append_cons_self, List.splitOn_eq_singleton hline']
    · rw [hstream, List.append_assoc, List.cons_append, lines_append_newline_cons]
  · exact ⟨[], stream, hne, hmem, List.splitOn_eq_singleton hmem, fun _ ↦ rfl⟩

theorem lines_eq_splitOn {stream : List Byte} (hne : stream ≠ [])
    (hlast : stream.getLast? ≠ some newline) : lines stream = stream.splitOn newline := by
  obtain ⟨before, line, hline, hmem, hsplit, hlines⟩ := exists_last_line hne hlast
  have := hlines []
  rw [List.append_nil, List.append_nil, lines_of_not_mem hmem, if_neg hline] at this
  rw [this, hsplit]

theorem lines_append_cons_ne {stream : List Byte} (hne : stream ≠ [])
    (hlast : stream.getLast? ≠ some newline) {c : Byte} (hc : c ≠ newline)
    (rest : List Byte) (more : List (List Byte)) :
    lines (stream ++ c :: rest) ≠ lines stream ++ more := by
  obtain ⟨before, line, hline, hmem, hsplit, hlines⟩ := exists_last_line hne hlast
  intro h
  rw [hlines, lines_eq_splitOn hne hlast, hsplit, List.append_assoc] at h
  have hnext : (c :: rest).takeWhile (· ≠ newline) = c :: rest.takeWhile (· ≠ newline) :=
    List.takeWhile_cons_of_pos (decide_eq_true hc)
  have hhead := head?_lines (List.append_ne_nil_of_left_ne_nil hline (c :: rest))
  rw [List.append_cancel_left h, List.singleton_append, List.head?_cons,
    List.takeWhile_append_of_pos (decide_ne_of_notMem hmem), hnext] at hhead
  have := congrArg List.length (Option.some.inj hhead)
  rw [List.length_append, List.length_cons] at this
  omega

/-- The line fits into the buffer, together with its end. -/
def Fits (size : ℕ) (line : List Byte) : Bool := line.length < size

/-- What is too long without an end does not get shorter. -/
theorem takeWhile_lines_eq_nil {size : ℕ} {buffer : List Byte} (h : newline ∉ buffer)
    (hsize : size ≤ buffer.length) (stream : List Byte) :
    (lines (buffer ++ stream)).takeWhile (Fits size) = [] := by
  have hlong : ∀ rest, Fits size (buffer ++ rest) = false := by
    intro rest
    rw [Fits, List.length_append, decide_eq_false_iff_not]
    omega
  by_cases hmem : newline ∈ stream
  · obtain ⟨line, rest, rfl, hline⟩ := List.eq_append_cons_of_mem hmem
    have hfirst : newline ∉ buffer ++ line :=
      fun hmem ↦ (List.mem_append.mp hmem).elim h hline
    rw [← List.append_assoc, lines_append_cons hfirst, List.takeWhile_cons_of_neg]
    rw [hlong line]
    exact Bool.false_ne_true
  · rw [lines_of_not_mem fun hmem' ↦ (List.mem_append.mp hmem').elim h hmem]
    split
    · rfl
    · rw [List.takeWhile_cons_of_neg]
      rw [hlong stream]
      exact Bool.false_ne_true

theorem toList_scanLines_true {data : List Byte} (h : newline ∉ data) :
    ((scanLines data true).map Prod.snd).toList = (lines data).map dropCR := by
  rw [scanLines, lines_of_not_mem h, if_neg h]
  by_cases hdata : data = []
  · rw [if_pos ⟨rfl, hdata⟩, if_pos hdata]
    rfl
  · rw [if_neg fun h ↦ hdata h.2, if_neg hdata]
    rfl

/-- **How much is read at a time makes no difference.** -/
theorem scan_eq (size : ℕ) (reads : ℕ → ℕ) (n : ℕ) (buffer stream : List Byte)
    (h : buffer.length ≤ size) : (scan size reads n buffer stream).1 =
      ((lines (buffer ++ stream)).takeWhile (Fits size)).map dropCR := by
  induction n, buffer, stream using scan.induct size reads with
  | case1 n buffer stream advance line hline ih =>
    obtain ⟨hmem, hadvance, hdrop⟩ := scanLines_eq_some_iff.mp hline
    obtain ⟨first, rest, rfl, hfirst⟩ := List.eq_append_cons_of_mem hmem
    rw [takeWhile_append_cons hfirst] at hadvance hdrop
    have hrest : (first ++ newline :: rest).drop advance = rest := by
      rw [hadvance, List.drop_append, List.drop_eq_nil_of_le (Nat.le_succ _)]
      simp
    have hfits : Fits size first := by
      rw [List.length_append, List.length_cons] at h
      exact decide_eq_true (by omega)
    have hsize : rest.length ≤ size := by
      rw [List.length_append, List.length_cons] at h
      omega
    rw [hrest] at ih
    rw [scan_of_line hline, hrest, ih hsize, List.append_assoc, List.cons_append,
      lines_append_cons hfirst, List.takeWhile_cons_of_pos hfits, List.map_cons, hdrop]
  | case2 n buffer hline hroom =>
    have hnone := scanLines_eq_none_iff.mp hline
    have hfits : Fits size buffer := decide_eq_true hroom
    rw [scan_nil hnone hroom, toList_scanLines_true hnone, List.append_nil, lines_of_not_mem hnone]
    split
    · rfl
    · rw [List.takeWhile_cons_of_pos hfits, List.takeWhile_nil]
  | case3 n buffer hline hroom c stream k ih =>
    have hroom' : k ≤ size - buffer.length :=
      (Nat.min_le_right _ _).trans (Nat.min_le_left _ _)
    rw [scan_read (scanLines_eq_none_iff.mp hline) hroom (List.cons_ne_nil c stream)]
    refine (ih ?_).trans ?_
    · rw [List.length_append, List.length_take]
      omega
    · rw [List.append_assoc, List.take_append_drop]
  | case4 n buffer stream hline hfull =>
    have hnone := scanLines_eq_none_iff.mp hline
    rw [scan_of_full hnone hfull, takeWhile_lines_eq_nil hnone (Nat.le_of_not_lt hfull)]
    rfl

end LineScanner

end ArgusMcp
