import ArgusMcp.Argusd.Docker
import ArgusMcp.Library.LineScanner
import ArgusMcp.Library.Rfc3339
import Mathlib.Order.MinMax

/-!
# The frames of a log

The log of a container comes from Docker in frames: a header of eight bytes, with the stream and the
size, and the payload. `StreamLogs` reads each header and each payload in full, however the
connection cuts them into pieces, so that its loop is the reader of the whole bytes (`frames`), as
long as it is not stopped by an entry that cannot be written (`readFrames_eq`).

**Times.** A payload begins with a time, read by `time.Parse`, which is not quite what RFC 3339 has:
it knows no leap seconds, and it reads offsets of a day or more, which the encoder of the entries
refuses.
-/

namespace ArgusMcp

namespace Argusd

open Rfc3339 (Time)

/-! ## Reading in full -/

/-- `io.ReadFull`: so many bytes, or those that there were, and what is still to be read. -/
def readFull : ℕ → List (List UInt8) → List UInt8 × List (List UInt8)
  | _, [] => ([], [])
  | n, piece :: rest =>
    if n ≤ piece.length then (piece.take n, piece.drop n :: rest)
    else (piece ++ (readFull (n - piece.length) rest).1, (readFull (n - piece.length) rest).2)

theorem readFull_eq (n : ℕ) (pieces : List (List UInt8)) :
    (readFull n pieces).1 = pieces.flatten.take n ∧
      (readFull n pieces).2.flatten = pieces.flatten.drop n := by
  induction pieces generalizing n with
  | nil => simp [readFull]
  | cons piece rest ih =>
    rw [readFull, List.flatten_cons]
    by_cases h : n ≤ piece.length
    · rw [if_pos h, List.flatten_cons, List.take_append_of_le_length h,
        List.drop_append_of_le_length h]
      exact ⟨rfl, rfl⟩
    · obtain ⟨hbytes, hrest⟩ := ih (n - piece.length)
      rw [if_neg h, List.take_append, List.drop_append, List.take_of_length_le (by omega),
        List.drop_eq_nil_of_le (by omega), hbytes, hrest]
      exact ⟨rfl, rfl⟩

/-! ## Entries -/

/-- `Time.MarshalJSON` writes no offset of a day or more. -/
def marshals (t : Time) : Bool := t.offset.natAbs < 86400

def LogEntry.marshals (e : LogEntry Time) : Bool := e.timestamp.all Argusd.marshals

def offsetError : Failure :=
  .plain ("json: error calling MarshalJSON for type time.Time: " ++
    "Time.MarshalJSON: timezone hour outside of range [0,23]")

/-- `time.Parse(time.RFC3339Nano, s)`. -/
def parseTime : List UInt8 → Option Time := Rfc3339.parse Rfc3339.go

def payloadEntry (isStderr : Bool) (payload : List UInt8) : LogEntry Time :=
  let line := splitTimestamp parseTime (trimNewlines payload)
  ⟨line.1, isStderr, line.2⟩

/-- The loop of `StreamLogs`, over the pieces that the connection gives, with the entries that are
written. A request that is cancelled ends without an error where a header is to be read. -/
def readFrames (cancelled : Bool) (broken : Option String) (pieces : List (List UInt8)) :
    List (LogEntry Time) × Option Failure :=
  let header := readFull 8 pieces
  match _h : header.1 with
  | [stream, _, _, _, a, b, c, d] =>
    let payload := readFull (frameSize a b c d) header.2
    if payload.1.length < frameSize a b c d then
      ([], some (shortRead (!payload.1.isEmpty) broken))
    else
      let entry := payloadEntry (stream = 2) payload.1
      if entry.marshals then
        let later := readFrames cancelled broken payload.2
        (entry :: later.1, later.2)
      else ([], some offsetError)
  | short =>
    if (short = [] ∧ broken = none) ∨ cancelled then ([], none)
    else ([], some (shortRead (!short.isEmpty) broken))
termination_by pieces.flatten.length
decreasing_by
  have hlength := congrArg List.length _h
  rw [(readFull_eq 8 pieces).1, List.length_take] at hlength
  rw [(readFull_eq _ _).2, (readFull_eq 8 pieces).2, List.length_drop, List.length_drop]
  dsimp only [List.length_cons, List.length_nil] at hlength
  omega

section Reading

variable {cancelled : Bool} {broken : Option String} {pieces : List (List UInt8)}

theorem readFrames_of_header {stream x y z a b c d : UInt8}
    (h : (readFull 8 pieces).1 = [stream, x, y, z, a, b, c, d]) :
    readFrames cancelled broken pieces =
      let payload := readFull (frameSize a b c d) (readFull 8 pieces).2
      if payload.1.length < frameSize a b c d then
        ([], some (shortRead (!payload.1.isEmpty) broken))
      else if (payloadEntry (stream = 2) payload.1).marshals then
        (payloadEntry (stream = 2) payload.1 :: (readFrames cancelled broken payload.2).1,
          (readFrames cancelled broken payload.2).2)
      else ([], some offsetError) := by
  rw [readFrames.eq_def]
  dsimp only
  split
  · rename_i heq
    obtain ⟨rfl, rfl, rfl, rfl, rfl, rfl, rfl, rfl, -⟩ := by simpa using heq.symm.trans h
    rfl
  · rename_i hne
    exact absurd h (hne _ _ _ _ _ _ _ _)

theorem readFrames_of_short (h : (readFull 8 pieces).1.length < 8) :
    readFrames cancelled broken pieces =
      if ((readFull 8 pieces).1 = [] ∧ broken = none) ∨ cancelled then ([], none)
      else ([], some (shortRead (!(readFull 8 pieces).1.isEmpty) broken)) := by
  rw [readFrames.eq_def]
  dsimp only
  split
  · rename_i heq
    rw [heq] at h
    exact absurd h (by simp)
  · rfl

theorem exists_header {bytes : List UInt8} (h : 8 ≤ bytes.length) :
    ∃ stream x y z a b c d rest, bytes = stream :: x :: y :: z :: a :: b :: c :: d :: rest := by
  match bytes with
  | stream :: x :: y :: z :: a :: b :: c :: d :: rest =>
    exact ⟨stream, x, y, z, a, b, c, d, rest, rfl⟩
  | [] | [_] | [_, _] | [_, _, _] | [_, _, _, _] | [_, _, _, _, _] | [_, _, _, _, _, _]
  | [_, _, _, _, _, _, _] =>
    dsimp only [List.length_cons, List.length_nil] at h
    omega

theorem frames_of_short {bytes : List UInt8} (h : bytes.length < 8) :
    frames parseTime broken bytes =
      if bytes = [] ∧ broken = none then ([], none)
      else ([], some (shortRead (!bytes.isEmpty) broken)) := by
  rw [frames.eq_def]
  split
  · rcases broken with _ | e
    · rfl
    · rfl
  · dsimp only [List.length_cons] at h
    omega
  · rename_i hne _
    rw [if_neg fun hempty ↦ hne hempty.1, List.isEmpty_eq_false_iff.mpr hne]
    rfl

/-- **The pieces** make no difference, while every entry can be written. -/
theorem readFrames_eq (h : ∀ e ∈ (frames parseTime broken pieces.flatten).1, e.marshals) :
    readFrames false broken pieces = frames parseTime broken pieces.flatten := by
  induction hlength : pieces.flatten.length using Nat.strong_induction_on generalizing pieces with
  | _ n ih =>
    obtain ⟨hheader, hafter⟩ := readFull_eq 8 pieces
    by_cases hshort : pieces.flatten.length < 8
    · rw [List.take_of_length_le hshort.le] at hheader
      rw [frames_of_short hshort, readFrames_of_short (hheader ▸ hshort), hheader]
      simp only [Bool.false_eq_true, or_false]
    obtain ⟨stream, x, y, z, a, b, c, d, rest, hbytes⟩ := exists_header (Nat.le_of_not_lt hshort)
    obtain ⟨hpayload, hrest⟩ := readFull_eq (frameSize a b c d) (readFull 8 pieces).2
    rw [hafter, hbytes] at hpayload hrest
    rw [hbytes] at hheader h hlength
    rw [readFrames_of_header hheader, hbytes]
    change _ = rest.take _ at hpayload
    change _ = rest.drop _ at hrest
    dsimp only
    rw [frames] at h ⊢
    rw [hpayload, List.length_take]
    by_cases hcut : rest.length < frameSize a b c d
    · rw [if_pos hcut, if_pos (min_lt_of_right_lt hcut), List.take_of_length_le hcut.le]
    rw [if_neg hcut] at h ⊢
    obtain ⟨hentry, hlater⟩ := List.forall_mem_cons.mp h
    have hless : (rest.drop (frameSize a b c d)).length < n := by
      rw [← hlength, List.length_drop]
      dsimp only [List.length_cons]
      omega
    rw [if_neg (by omega), payloadEntry, if_pos hentry,
      ih _ (hrest ▸ hless) (hrest.symm ▸ hlater) rfl, hrest]

end Reading

/-! ## What Docker sends -/

/-- What a container wrote to one of its streams. -/
structure LogFrame where
  isStderr : Bool
  payload : List UInt8
  size_lt : payload.length < 2 ^ 32

/-- Four bytes of a size, most significant first. -/
def sizeBytes (n : ℕ) : UInt8 × UInt8 × UInt8 × UInt8 :=
  ((n / 2 ^ 24).toUInt8, (n / 2 ^ 16).toUInt8, (n / 2 ^ 8).toUInt8, n.toUInt8)

theorem frameSize_sizeBytes {n : ℕ} (h : n < 2 ^ 32) :
    frameSize (sizeBytes n).1 (sizeBytes n).2.1 (sizeBytes n).2.2.1 (sizeBytes n).2.2.2 = n := by
  simp only [frameSize, sizeBytes, Nat.toUInt8_eq, UInt8.toNat_ofNat']
  omega

namespace LogFrame

variable (f : LogFrame)

def header : List UInt8 :=
  let size := sizeBytes f.payload.length
  [if f.isStderr then 2 else 1, 0, 0, 0, size.1, size.2.1, size.2.2.1, size.2.2.2]

def encode : List UInt8 := f.header ++ f.payload

def entry : LogEntry Time := payloadEntry f.isStderr f.payload

/-- The time in front of the payload, if there is one, can be written. -/
def Marshals : Prop :=
  ∀ t, (splitTimestamp parseTime (trimNewlines f.payload)).1 = some t → marshals t

theorem length_encode : f.encode.length = 8 + f.payload.length := by
  rw [encode, List.length_append]
  rfl

variable {f} {broken : Option String}

theorem marshals_entry (h : f.Marshals) : f.entry.marshals = true :=
  Option.all_eq_true_iff_get _ _ |>.mpr fun hsome ↦ h _ (Option.some_get hsome).symm

theorem frames_encode_append (rest : List UInt8) :
    frames parseTime broken (f.encode ++ rest) =
      (f.entry :: (frames parseTime broken rest).1, (frames parseTime broken rest).2) := by
  have hstream : decide ((if f.isStderr then 2 else 1 : UInt8) = 2) = f.isStderr := by
    rcases f.isStderr
    · decide
    · decide
  rw [encode, header, List.append_assoc]
  dsimp only [List.cons_append, List.nil_append]
  rw [frames, frameSize_sizeBytes f.size_lt, if_neg (by simp), List.take_left, List.drop_left,
    hstream, entry, payloadEntry]

theorem frames_take_encode {k : ℕ} (hpos : 0 < k) (hlt : k < f.encode.length) :
    ∃ failure, frames parseTime broken (f.encode.take k) = ([], some failure) := by
  rw [length_encode] at hlt
  have hheader : f.header.length = 8 := rfl
  by_cases hshort : k < 8
  · have hne : (f.encode.take k) ≠ [] := by
      refine List.ne_nil_of_length_pos ?_
      rw [List.length_take, length_encode]
      omega
    rw [frames_of_short (by rw [List.length_take]; omega), if_neg fun h ↦ hne h.1]
    exact ⟨_, rfl⟩
  · rw [encode, List.take_append, List.take_of_length_le (hheader.trans_le (by omega)), hheader,
      header]
    dsimp only [List.cons_append, List.nil_append]
    rw [frames, frameSize_sizeBytes f.size_lt, if_pos (by rw [List.length_take]; omega)]
    exact ⟨_, rfl⟩

end LogFrame

/-! ## What is to come out -/

/-- What a line says: a time, if its first word is one, and what comes after it. -/
def Says (read : List UInt8 → Option Time) (line : List UInt8) :
    Option Time → List UInt8 → Prop
  | some t, message => ∃ word, 32 ∉ word ∧ line = word ++ 32 :: message ∧ read word = some t
  | none, message =>
    message = line ∧ ∀ word rest, 32 ∉ word → line = word ++ 32 :: rest → read word = none

theorem says_splitTimestamp {read : List UInt8 → Option Time} (hnil : read [] = none)
    (line : List UInt8) :
    Says read line (splitTimestamp read line).1 (splitTimestamp read line).2 := by
  by_cases hspace : 32 ∈ line
  · obtain ⟨word, rest, rfl, hword⟩ := List.eq_append_cons_of_mem hspace
    have hfirst := LineScanner.takeWhile_append_cons hword rest
    have hsame : ∀ word' rest', 32 ∉ word' → word ++ 32 :: rest = word' ++ 32 :: rest' →
        word' = word := by
      intro word' rest' hword' heq
      rw [← LineScanner.takeWhile_append_cons hword' rest', ← heq, hfirst]
    have hlength : word.length < (word ++ 32 :: rest).length := by
      rw [List.length_append, List.length_cons]
      omega
    rw [splitTimestamp, hfirst]
    by_cases hempty : word = []
    · rw [if_neg fun h ↦ h.1 hempty]
      refine ⟨rfl, fun word' rest' hword' heq ↦ ?_⟩
      rw [hsame word' rest' hword' heq, hempty, hnil]
    rw [if_pos ⟨hempty, hlength⟩]
    rcases hread : read word with _ | t
    · refine ⟨rfl, fun word' rest' hword' heq ↦ ?_⟩
      rw [hsame word' rest' hword' heq, hread]
    · refine ⟨word, hword, ?_, hread⟩
      rw [List.drop_append, List.drop_eq_nil_of_le (Nat.le_succ _)]
      simp
  · have hfirst : line.takeWhile (· ≠ 32) = line := by
      refine List.takeWhile_eq_self_iff.mpr fun b hb ↦ decide_eq_true fun heq ↦ ?_
      exact hspace (heq ▸ hb)
    rw [splitTimestamp, hfirst, if_neg fun h ↦ lt_irrefl _ h.2]
    refine ⟨rfl, fun word rest _ heq ↦ absurd ?_ hspace⟩
    rw [heq]
    exact List.mem_append_right word List.mem_cons_self

structure LogFrame.Shown (read : List UInt8 → Option Time) (f : LogFrame) (e : LogEntry Time) :
    Prop where
  stream : e.isStderr = f.isStderr
  line : ∃ line n, f.payload = line ++ List.replicate n 10 ∧ line.getLast? ≠ some 10 ∧
    Says read line e.timestamp e.message

/-- One entry for each frame, and an error if the last one is cut off, behind so many bytes. -/
def Demultiplexed (read : List UInt8 → Option Time) (fs : List LogFrame) (cut : ℕ)
    (out : List (LogEntry Time) × Option Failure) : Prop :=
  List.Forall₂ (LogFrame.Shown read) fs out.1 ∧ (out.2 = none ↔ cut = 0)

theorem LogFrame.shown_entry (f : LogFrame) : f.Shown parseTime f.entry := by
  obtain ⟨n, hn⟩ := exists_eq_trimNewlines_append f.payload
  exact ⟨rfl, _, n, hn, getLast?_trimNewlines f.payload, says_splitTimestamp rfl _⟩

theorem frames_flatMap_encode {last : LogFrame} {cut : ℕ} (hcut : cut < last.encode.length)
    (fs : List LogFrame) :
    let out := frames parseTime none (fs.flatMap LogFrame.encode ++ last.encode.take cut)
    out.1 = fs.map LogFrame.entry ∧ (out.2 = none ↔ cut = 0) := by
  induction fs with
  | nil =>
    by_cases hzero : cut = 0
    · rw [hzero, List.take_zero, List.flatMap_nil, List.append_nil, frames]
      exact ⟨rfl, iff_of_true rfl rfl⟩
    · obtain ⟨failure, hframes⟩ :=
        @LogFrame.frames_take_encode last none cut (Nat.pos_of_ne_zero hzero) hcut
      rw [List.flatMap_nil, List.nil_append, hframes]
      exact ⟨rfl, iff_of_false (Option.some_ne_none _) hzero⟩
  | cons f fs ih =>
    rw [List.flatMap_cons, List.append_assoc, LogFrame.frames_encode_append]
    exact ⟨congrArg _ ih.1, ih.2⟩

/-- **Every frame is shown** by one entry, however the connection cuts the bytes into pieces, and a
log that ends in the middle of a frame ends with an error. -/
theorem demultiplexed (fs : List LogFrame) (last : LogFrame) (cut : ℕ)
    (hcut : cut < last.encode.length) (pieces : List (List UInt8))
    (hpieces : pieces.flatten = fs.flatMap LogFrame.encode ++ last.encode.take cut)
    (hmarshals : ∀ f ∈ fs, f.Marshals) :
    Demultiplexed parseTime fs cut (readFrames false none pieces) ∧
      ∀ word t, Rfc3339.parse Rfc3339.capitals word = some t → parseTime word = some t := by
  refine ⟨?_, fun word t ↦ Rfc3339.parse_of_within Rfc3339.capitals_within_go⟩
  obtain ⟨hentries, herror⟩ := frames_flatMap_encode hcut fs
  rw [readFrames_eq, hpieces, Demultiplexed, hentries]
  · refine ⟨List.forall₂_map_right_iff.mpr (List.forall₂_same.mpr fun f _ ↦ f.shown_entry), herror⟩
  · rw [hpieces, hentries]
    intro e he
    obtain ⟨f, hf, rfl⟩ := List.mem_map.mp he
    exact LogFrame.marshals_entry (hmarshals f hf)

def greeting : LogFrame := ⟨true, "2026-01-01T00:00:00.5Z hi\n".toUTF8.toList, by decide +kernel⟩

/-- A line, and two bytes of the next header. -/
theorem demultiplexed_greeting :
    Demultiplexed parseTime [greeting] 2
      (readFrames false none [greeting.encode.take 5, greeting.encode.drop 5, [2, 0]]) := by
  refine (demultiplexed [greeting] greeting 2 (by decide +kernel) _ (by decide +kernel) ?_).1
  intro f hf t ht
  obtain rfl := List.mem_singleton.mp hf
  have htime : (splitTimestamp parseTime (trimNewlines greeting.payload)).1 =
      some ⟨2026, 1, 1, 0, 0, 0, 500000000, 0⟩ := by decide +kernel
  obtain rfl := Option.some.inj (htime.symm.trans ht)
  decide

def leapSecond : LogFrame := ⟨false, "2016-12-31T23:59:60Z x".toUTF8.toList, by decide +kernel⟩

/-- A leap second is a time of RFC 3339, but not one of `time.Parse`. -/
theorem not_forall_demultiplexed :
    ¬ ∀ (fs : List LogFrame) (last : LogFrame) (cut : ℕ), cut < last.encode.length →
      ∀ pieces : List (List UInt8),
        pieces.flatten = fs.flatMap LogFrame.encode ++ last.encode.take cut →
          Demultiplexed (Rfc3339.parse Rfc3339.rfc) fs cut (readFrames false none pieces) := by
  intro h
  have hpieces : [leapSecond.encode].flatten =
      [leapSecond].flatMap LogFrame.encode ++ leapSecond.encode.take 0 := by decide +kernel
  have hcut : 0 < leapSecond.encode.length := by decide +kernel
  obtain ⟨hentries, -⟩ := frames_flatMap_encode hcut [leapSecond]
  have htime : leapSecond.entry.timestamp = none := by decide +kernel
  have hread : readFrames false none [leapSecond.encode] =
      frames parseTime none [leapSecond.encode].flatten := by
    refine readFrames_eq ?_
    rw [hpieces, hentries]
    intro e he
    rw [List.mem_singleton.mp he, LogEntry.marshals, htime]
    rfl
  have hshown := (h [leapSecond] leapSecond 0 hcut [leapSecond.encode] hpieces).1
  rw [hread, hpieces, hentries] at hshown
  obtain ⟨line, n, -, -, hsays⟩ := (List.forall₂_cons.mp hshown).1.line
  rw [htime] at hsays
  obtain ⟨hmessage, hnone⟩ := hsays
  have hline : leapSecond.entry.message = "2016-12-31T23:59:60Z".toUTF8.toList ++ 32 :: [120] := by
    decide +kernel
  have hrfc := hnone _ [120] (by decide +kernel) (hmessage.symm.trans hline)
  exact absurd hrfc (by decide +kernel)

end Argusd

end ArgusMcp
