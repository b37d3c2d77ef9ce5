import ArgusMcp.Library.LineScanner

/-!
# Forwarding in the stdio wrapper

`mcp-stdio-wrapper` stands between a client and a child process, and forwards what the one writes to
the other line by line: empty lines are left out, and on the way to the child those that are not
valid JSON as well. Such a line is skipped, and the loop goes on with the next one. A line that does
not fit into the buffer is the end of the loop: the scanner stops, and what comes after it is not
forwarded either (`received_eq_wire_iff`).
-/

namespace ArgusMcp

namespace StdioWrapper

open LineScanner

/-- What the loops do not decide themselves, each time around. -/
structure Env where
  /-- The context is done. -/
  done : ℕ → Bool
  writeFails : ℕ → Bool

/-- The wrapper is not signalled, and whoever it writes to lives. -/
def Env.Quiet (env : Env) : Prop := ∀ n, env.done n = false ∧ env.writeFails n = false

/-- The loop of `forwardStdin` and `forwardStdout`: what is written, write by write. Lines that are
not kept are skipped. -/
def forward (keep : List Byte → Bool) (env : Env) : ℕ → List (List Byte) → List (List Byte)
  | _, [] => []
  | n, line :: rest =>
    if env.done n then []
    else if line = [] then forward keep env (n + 1) rest
    else if keep line = false then forward keep env (n + 1) rest
    else if env.writeFails n then []
    else (line ++ [newline]) :: forward keep env (n + 1) rest

/-- `valid` stands for `json.Valid`, and `reads` for how much there is to read at a time. -/
def forwardStdin (valid : List Byte → Bool) (env : Env) (bufSize : ℕ) (reads : ℕ → ℕ)
    (src : List Byte) : List (List Byte) :=
  forward valid env 0 (scan bufSize reads 0 [] src).1

def forwardStdout (env : Env) (bufSize : ℕ) (reads : ℕ → ℕ) (src : List Byte) : List (List Byte) :=
  forward (fun _ ↦ true) env 0 (scan bufSize reads 0 [] src).1

def defaultBufSize : ℕ := 256 * 1024

/-! ## What should come out -/

def deliverable (keep : List Byte → Bool) (line : List Byte) : Bool := line ≠ [] ∧ keep line

/-- The lines of a stream that are to be forwarded. -/
def delivered (keep : List Byte → Bool) (src : List Byte) : List (List Byte) :=
  ((lines src).map dropCR).filter (deliverable keep)

/-- Lines as they are written. -/
def wire (messages : List (List Byte)) : List Byte := (messages.map (· ++ [newline])).flatten

theorem wire_append (first second : List (List Byte)) :
    wire (first ++ second) = wire first ++ wire second := by
  rw [wire, List.map_append, List.flatten_append, wire, wire]

theorem wire_eq_nil_iff (messages : List (List Byte)) : wire messages = [] ↔ messages = [] := by
  cases messages with
  | nil => exact iff_of_true rfl rfl
  | cons message rest =>
    refine iff_of_false (fun h ↦ ?_) (List.cons_ne_nil message rest)
    rw [wire, List.map_cons, List.flatten_cons] at h
    exact absurd (List.append_eq_nil_iff.mp (List.append_eq_nil_iff.mp h).1).2
      (List.cons_ne_nil newline [])

/-! ## What comes out -/

/-- Without a signal or an error, the loop itself loses nothing. -/
theorem forward_of_quiet (keep : List Byte → Bool) {env : Env} (h : env.Quiet) (n : ℕ)
    (scanned : List (List Byte)) : forward keep env n scanned =
      (scanned.filter (deliverable keep)).map (· ++ [newline]) := by
  induction scanned generalizing n with
  | nil => rfl
  | cons line rest ih =>
    rw [forward, if_neg (Bool.eq_false_iff.mp (h n).1)]
    by_cases hempty : line = []
    · have hskip : ¬ deliverable keep line := fun hline ↦ (of_decide_eq_true hline).1 hempty
      rw [if_pos hempty, ih, List.filter_cons_of_neg hskip]
    rw [if_neg hempty]
    by_cases hkeep : keep line = false
    · have hskip : ¬ deliverable keep line :=
        fun hline ↦ Bool.eq_false_iff.mp hkeep (of_decide_eq_true hline).2
      rw [if_pos hkeep, ih, List.filter_cons_of_neg hskip]
    · have hsend : deliverable keep line :=
        decide_eq_true ⟨hempty, eq_true_of_ne_false hkeep⟩
      rw [if_neg hkeep, if_neg (Bool.eq_false_iff.mp (h n).2), ih, List.filter_cons_of_pos hsend,
        List.map_cons]

/-- **What is received is what was sent, exactly if nothing is to be forwarded from the first line
on that does not fit into the buffer.** -/
theorem received_eq_wire_iff (keep : List Byte → Bool) {env : Env} (h : env.Quiet) (bufSize : ℕ)
    (reads : ℕ → ℕ) (src : List Byte) :
    (forward keep env 0 (scan bufSize reads 0 [] src).1).flatten = wire (delivered keep src) ↔
      ∀ line ∈ (lines src).dropWhile (Fits bufSize), deliverable keep (dropCR line) = false := by
  have hsplit : delivered keep src =
      (((lines src).takeWhile (Fits bufSize)).map dropCR).filter (deliverable keep) ++
        (((lines src).dropWhile (Fits bufSize)).map dropCR).filter (deliverable keep) := by
    rw [← List.filter_append, ← List.map_append, List.takeWhile_append_dropWhile, delivered]
  rw [forward_of_quiet keep h, scan_eq bufSize reads 0 [] src (Nat.zero_le _), List.nil_append,
    hsplit, wire_append, wire, List.self_eq_append_right, wire_eq_nil_iff, List.filter_eq_nil_iff]
  constructor
  · intro hlost line hline
    exact Bool.eq_false_iff.mpr (hlost _ (List.mem_map_of_mem hline))
  · intro hlost line hline
    obtain ⟨whole, hwhole, rfl⟩ := List.mem_map.mp hline
    exact Bool.eq_false_iff.mp (hlost whole hwhole)

/-! ## The wrapper -/

/-- The child receives the client's lines, and the client the child's. -/
def ForwardsAll (valid : List Byte → Bool) (env : Env) (bufSize : ℕ) (reads : ℕ → ℕ)
    (stdin childOut : List Byte) : Prop :=
  (forwardStdin valid env bufSize reads stdin).flatten = wire (delivered valid stdin) ∧
    (forwardStdout env bufSize reads childOut).flatten = wire (delivered (fun _ ↦ true) childOut)

/-- **The wrapper forwards everything, exactly if in either direction nothing is to be forwarded
from the first line on that does not fit into the buffer.** -/
theorem forwardsAll_iff (valid : List Byte → Bool) (env : Env) (h : env.Quiet) (bufSize : ℕ)
    (reads : ℕ → ℕ) (stdin childOut : List Byte) :
    ForwardsAll valid env bufSize reads stdin childOut ↔
      (∀ line ∈ (lines stdin).dropWhile (Fits bufSize),
          ¬ (dropCR line ≠ [] ∧ valid (dropCR line))) ∧
        ∀ line ∈ (lines childOut).dropWhile (Fits bufSize), dropCR line = [] := by
  rw [ForwardsAll, forwardStdin, forwardStdout, received_eq_wire_iff valid h,
    received_eq_wire_iff _ h]
  refine and_congr (forall₂_congr fun line _ ↦ ?_) (forall₂_congr fun line _ ↦ ?_)
  · rw [deliverable, decide_eq_false_iff_not]
  · rw [deliverable, decide_eq_false_iff_not, and_iff_left rfl, not_not]

private def quiet : Env := ⟨fun _ ↦ false, fun _ ↦ false⟩

private theorem quiet_quiet : quiet.Quiet := fun _ ↦ ⟨rfl, rfl⟩

/-- `{}`, an empty line, `x`, `[]` behind a carriage return, and `{}` without an end. -/
private def fiveLines : List Byte := [123, 125, 10, 10, 120, 13, 10, 91, 93, 13, 10, 123, 125]

/-- What is JSON among them. -/
private def bracketed (line : List Byte) : Bool := line = [123, 125] || line = [91, 93]

/-- All of it is forwarded in both directions that should be, also if it is read byte by byte. -/
theorem forwardsAll_iff_fiveLines :
    delivered bracketed fiveLines = [[123, 125], [91, 93], [123, 125]] ∧
      ForwardsAll bracketed quiet defaultBufSize (fun _ ↦ 1) fiveLines fiveLines := by
  have hlines : (lines fiveLines).dropWhile (Fits defaultBufSize) = [] := by decide
  refine ⟨by decide,
    (forwardsAll_iff _ quiet quiet_quiet defaultBufSize (fun _ ↦ 1) _ _).mpr ?_⟩
  rw [hlines]
  exact ⟨by simp, by simp⟩

/-- A line of the child's as long as the buffer, and a short one after it. -/
private def overlong : List Byte := List.replicate defaultBufSize 120 ++ newline :: [49, 10]

private theorem not_mem_overlong : newline ∉ List.replicate defaultBufSize (120 : Byte) := by
  rw [List.mem_replicate]
  exact fun h ↦ absurd h.2 (by decide)

/-- Neither of them comes out. -/
theorem not_forall_forwardsAll : ¬ ∀ (valid : List Byte → Bool) (env : Env), env.Quiet →
    ∀ (reads : ℕ → ℕ) (stdin childOut : List Byte),
      ForwardsAll valid env defaultBufSize reads stdin childOut := by
  intro h
  have hall := (h (fun _ ↦ true) quiet quiet_quiet id [] overlong).2
  rw [forwardStdout, received_eq_wire_iff _ quiet_quiet] at hall
  have hlong : ¬ Fits defaultBufSize (List.replicate defaultBufSize 120) := by
    rw [Fits, List.length_replicate, decide_eq_true_iff]
    exact lt_irrefl _
  have hlost := hall [49] (by
    rw [overlong, lines_append_cons not_mem_overlong, List.dropWhile_cons_of_neg hlong]
    exact List.mem_cons_of_mem _ (by decide))
  exact absurd hlost (by decide)

end StdioWrapper

end ArgusMcp
