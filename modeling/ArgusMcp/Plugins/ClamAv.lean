import ArgusMcp.Library.Utf8
import ArgusMcp.Plugins.Filters
import Mathlib.Data.List.DropRight

/-!
# What is said to the daemon, and what is understood of its answer

`ClamAVPlugin` sends the data that are to be scanned to a daemon. They go out as a command, then in
chunks, each with its length before it, then as a chunk of length zero. `Instream` is the grammar of
this. Data can be read from what was sent in one way, and it is the data that were to be scanned
(`instream_sent_iff`).

The answer arrives in segments. It is read once, up to 4096 bytes, and what is read is taken for all
of it. So a scan is as the whole answer says unless the answer has the word `FOUND` in a part that
was not read (`faithful_iff`). That something was found is said by the whole answer when it begins
with `stream: ` and has that word somewhere; white space and null bytes at its ends do not count.
-/

namespace ArgusMcp

namespace ClamAv

open Hooks
open Filters (ClamdReply slice isFound scan)
open Secrets (lit)

/-! ## The data on their way out -/

def ascii (text : String) : List UInt8 := text.toList.map fun c ↦ UInt8.ofNat c.toNat

def instreamCmd : List UInt8 := ascii "zINSTREAM" ++ [0]

def maxChunk : ℕ := 8192

/-- `n.to_bytes(4, "big")`. -/
def bytes4 (n : ℕ) : List UInt8 :=
  [UInt8.ofNat (n / 16777216), UInt8.ofNat (n / 65536), UInt8.ofNat (n / 256), UInt8.ofNat n]

/-- The loop over the data, from an offset on. -/
def chunksFrom (data : List UInt8) (offset : ℕ) : List UInt8 :=
  if offset < data.length then
    let chunk := (data.drop offset).take maxChunk
    bytes4 chunk.length ++ chunk ++ chunksFrom data (offset + maxChunk)
  else []
termination_by data.length - offset
decreasing_by rw [maxChunk]; omega

/-- All that is written. -/
def sent (data : List UInt8) : List UInt8 := instreamCmd ++ chunksFrom data 0 ++ [0, 0, 0, 0]

/-! ## The answer -/

inductive Exchange where
  /-- Something is raised on the way, which may be a `TimeoutError`. -/
  | fails
  /-- It takes longer than the hook may. -/
  | late
  /-- An answer, in the segments in which it arrives. -/
  | answers (segments : List (List UInt8))

/-- `reader.read(4096)`: what there is when there is something. -/
def firstRead (segments : List (List UInt8)) : List UInt8 :=
  ((segments.find? fun s ↦ !s.isEmpty).getD []).take 4096

/-- The characters that are stripped from the answer. -/
def isBlank (c : Char) : Bool := "\x00\n\r ".toList.contains c

/-- `response.decode("utf-8", errors="replace").strip("\x00\n\r ")`. -/
def answerText (response : List UInt8) : String :=
  .ofList (((Utf8.decode response).dropWhile isBlank).rdropWhile isBlank)

/-- `_clamd_instream`, with a daemon. -/
def clamdInstream (daemon : List UInt8 → Exchange) (data : List UInt8) : ClamdReply :=
  match daemon (sent data) with
  | .fails => .unreachable
  | .late => .late
  | .answers segments => .reply (answerText (firstRead segments))

/-! ## What should be -/

/-- The grammar of `INSTREAM`, behind the command: the bytes, and the data they carry. -/
inductive Chunks : List UInt8 → List UInt8 → Prop
  | stop : Chunks (bytes4 0) []
  | chunk {c bytes data : List UInt8} (hne : c ≠ []) (hlength : c.length < 4294967296)
      (hrest : Chunks bytes data) : Chunks (bytes4 c.length ++ c ++ bytes) (c ++ data)

/-- The bytes are the command and chunks with these data. -/
def Instream (bytes data : List UInt8) : Prop :=
  ∃ chunks, bytes = instreamCmd ++ chunks ∧ Chunks chunks data

def ReportsFound (answer : List UInt8) : Prop :=
  ascii "stream: " <+: answer.dropWhile (fun b ↦ isBlank (Utf8.toChar b)) ∧ ascii "FOUND" <:+: answer

/-- The data can be read from what is sent, and nothing else can, and the scan raises if the answer
says that something was found, and only then. -/
def Faithful {O : Type} (maxScanBytes : ℤ) (ctx : HookContext O) (phase : Hook) (data : List UInt8)
    (segments : List (List UInt8)) : Prop :=
  (∀ read, Instream (sent (slice data maxScanBytes)) read ↔ read = data) ∧
    ((∃ e, (scan maxScanBytes true (clamdInstream fun _ ↦ .answers segments) ctx data phase []).1 =
      .raises e) ↔ ReportsFound segments.flatten)

/-! ## One reading only -/

theorem bytes4_inj {m n : ℕ} (hm : m < 4294967296) (hn : n < 4294967296)
    (h : bytes4 m = bytes4 n) : m = n := by
  rw [bytes4, bytes4] at h
  simp only [List.cons.injEq, ← UInt8.toNat_inj, UInt8.toNat_ofNat', and_true] at h
  omega

theorem bytes4_append_inj {m n : ℕ} (hm : m < 4294967296) (hn : n < 4294967296)
    {s t : List UInt8} (h : bytes4 m ++ s = bytes4 n ++ t) : m = n ∧ s = t := by
  obtain ⟨hlengths, hrests⟩ := List.append_inj h rfl
  exact ⟨bytes4_inj hm hn hlengths, hrests⟩

theorem Chunks.eq {bytes read data : List UInt8} (h : Chunks bytes read) (h' : Chunks bytes data) :
    read = data := by
  induction h generalizing data with
  | stop =>
    generalize hbytes : bytes4 0 = bytes at h'
    rcases h' with _ | @⟨c, bytes, data, hne, hlength, hrest⟩
    · rfl
    · rw [← List.append_nil (bytes4 0), List.append_assoc] at hbytes
      have hzero := (bytes4_append_inj (by omega) hlength hbytes).1
      exact absurd (List.length_eq_zero_iff.mp hzero.symm) hne
  | @chunk c bytes read hne hlength hrest ih =>
    generalize hbytes : bytes4 c.length ++ c ++ bytes = all at h'
    rcases h' with _ | @⟨c', bytes', data', hne', hlength', hrest'⟩
    · rw [← List.append_nil (bytes4 0), List.append_assoc] at hbytes
      have hzero := (bytes4_append_inj hlength (by omega) hbytes).1
      exact absurd (List.length_eq_zero_iff.mp hzero) hne
    · rw [List.append_assoc, List.append_assoc] at hbytes
      obtain ⟨hlengths, hrests⟩ := bytes4_append_inj hlength hlength' hbytes
      obtain ⟨rfl, rfl⟩ := List.append_inj hrests hlengths
      rw [ih hrest']

theorem chunks_chunksFrom (data : List UInt8) (offset : ℕ) :
    Chunks (chunksFrom data offset ++ [0, 0, 0, 0]) (data.drop offset) := by
  induction offset using chunksFrom.induct data with
  | case1 offset hlt ih =>
    rw [chunksFrom, if_pos hlt]
    have hlength : ((data.drop offset).take maxChunk).length =
        min 8192 (data.length - offset) := by
      rw [List.length_take, List.length_drop, maxChunk]
    have hdata : data.drop offset =
        (data.drop offset).take maxChunk ++ data.drop (offset + maxChunk) := by
      rw [← List.drop_drop, List.take_append_drop]
    have hchunk := Chunks.chunk (c := (data.drop offset).take maxChunk)
      (List.ne_nil_of_length_pos (by omega)) (by omega) ih
    rw [← hdata] at hchunk
    rwa [List.append_assoc]
  | case2 offset hge =>
    rw [chunksFrom, if_neg hge, List.drop_eq_nil_of_le (not_lt.mp hge)]
    exact .stop

theorem instream_sent_iff {data read : List UInt8} : Instream (sent data) read ↔ read = data := by
  have hsent : sent data = instreamCmd ++ (chunksFrom data 0 ++ [0, 0, 0, 0]) :=
    List.append_assoc ..
  constructor
  · rintro ⟨chunks, hchunks, hread⟩
    rw [hsent] at hchunks
    rw [← List.append_cancel_left hchunks] at hread
    exact hread.eq (chunks_chunksFrom data 0)
  · rintro rfl
    exact ⟨_, hsent, chunks_chunksFrom read 0⟩

/-! ## What is read of the answer -/

theorem firstRead_is_start (segments : List (List UInt8)) :
    firstRead segments <+: segments.flatten := by
  rw [firstRead]
  refine (List.take_prefix _ _).trans ?_
  induction segments with
  | nil => exact List.prefix_rfl
  | cons s segments ih =>
    rcases s with _ | ⟨b, s⟩
    · exact ih
    · exact List.prefix_append _ _

theorem ascii_lt {text : String} (h : ∀ c ∈ text.toList, c.toNat < 128) :
    ∀ b ∈ ascii text, b.toNat < 128 := by
  intro b hb
  obtain ⟨c, hc, rfl⟩ := List.mem_map.mp hb
  have hlt := h c hc
  rw [UInt8.toNat_ofNat']
  omega

theorem map_toChar_ascii {text : String} (h : ∀ c ∈ text.toList, c.toNat < 128) :
    (ascii text).map Utf8.toChar = text.toList := by
  rw [ascii, List.map_map]
  refine (List.map_congr_left fun c hc ↦ ?_).trans (List.map_id _)
  have hlt := h c hc
  rw [Function.comp_apply, Utf8.toChar, UInt8.toNat_ofNat', Nat.mod_eq_of_lt (by omega),
    Char.ofNat_toNat]
  rfl

section Lists

variable {α : Type} {u w s t : List α}

theorem prefix_and_infix_iff (hnot : ¬ w <:+: u) (ht : t <+: s) :
    u <+: t ∧ w <:+: t ↔ u <+: s ∧ w <:+: t := by
  refine and_congr_left fun hword ↦ ⟨fun h ↦ h.trans ht, fun h ↦ ?_⟩
  rcases List.prefix_or_prefix_of_prefix h ht with hu | hu
  · exact hu
  · exact absurd (hword.trans hu.isInfix) hnot

variable {p : α → Bool} (hne : w ≠ []) (hw : ∀ a ∈ w, p a = false)

include hne hw

theorem infix_dropWhile_iff : w <:+: s.dropWhile p ↔ w <:+: s := by
  induction s with
  | nil => rfl
  | cons a s ih =>
    by_cases ha : p a = true
    · rw [List.dropWhile_cons_of_pos ha, ih, List.infix_cons_iff, or_iff_right]
      obtain ⟨b, w, rfl⟩ := List.exists_cons_of_ne_nil hne
      intro hprefix
      rw [← (List.cons_prefix_cons.mp hprefix).1, hw b List.mem_cons_self] at ha
      exact Bool.false_ne_true ha
    · rw [List.dropWhile_cons_of_neg ha]

theorem infix_rdropWhile_iff : w <:+: s.rdropWhile p ↔ w <:+: s := by
  rw [List.rdropWhile, ← List.reverse_infix, List.reverse_reverse,
    infix_dropWhile_iff (List.reverse_ne_nil_iff.mpr hne) fun a ha ↦ hw a (List.mem_reverse.mp ha),
    List.reverse_infix]

end Lists

theorem search_lit_iff {word : String} {text : List Char} :
    (lit word).search text = true ↔ word.toList <:+: text := by
  rw [Regex.search_iff_occurs, Regex.Occurs]
  constructor
  · rintro ⟨s, t, hs, hmatch⟩
    rw [lit, Regex.matches_word_iff] at hmatch
    exact (hmatch ▸ List.prefix_append _ _ : word.toList <+: s).isInfix.trans hs.isInfix
  · rintro ⟨before, after, rfl⟩
    refine ⟨word.toList ++ after, after, ?_, ?_⟩
    · rw [List.append_assoc]
      exact List.suffix_append _ _
    · rw [lit, Regex.matches_word_iff]

theorem lt_of_isBlank {c : Char} (h : isBlank c = true) : c.toNat < 128 := by
  have hc : c ∈ "\x00\n\r ".toList := List.contains_iff_mem.mp h
  simp only [String.reduceToList, List.mem_cons, List.not_mem_nil, or_false] at hc
  rcases hc with rfl | rfl | rfl | rfl
  all_goals decide

theorem isFound_answerText_iff (read : List UInt8) :
    isFound (answerText read) = true ↔ ReportsFound read := by
  have hstream : ∀ c ∈ "stream: ".toList, c.toNat < 128 := by simp
  have hfound : ∀ c ∈ "FOUND".toList, c.toNat < 128 := by simp
  have hne : "FOUND".toList ≠ [] := by simp
  have hblank : ∀ c ∈ "FOUND".toList, isBlank c = false := by simp [isBlank]
  have hnot : ¬ "FOUND".toList <:+: "stream: ".toList := by decide
  have hwords : ascii "FOUND" ≠ [] := by simp [ascii]
  have htext : (answerText read).toList =
    ((Utf8.decode read).dropWhile isBlank).rdropWhile isBlank := String.toList_ofList
  rw [isFound, Bool.and_eq_true, List.isPrefixOf_iff_prefix, search_lit_iff, htext,
    prefix_and_infix_iff hnot (List.rdropWhile_prefix _ _),
    infix_rdropWhile_iff hne hblank, infix_dropWhile_iff hne hblank, Utf8.decode,
    Utf8.dropWhile_decodeFrom fun _ ↦ lt_of_isBlank, ← map_toChar_ascii hstream,
    ← map_toChar_ascii hfound, Utf8.prefix_decodeFrom_iff (ascii_lt hstream),
    Utf8.infix_decodeFrom_iff (ascii_lt hfound) hwords]
  exact Iff.rfl

theorem isBlank_ascii_found : ∀ b ∈ ascii "FOUND", isBlank (Utf8.toChar b) = false := by
  simp [ascii, isBlank, Utf8.toChar]

theorem reportsFound_of_prefix_iff {read answer : List UInt8} (h : read <+: answer) :
    ReportsFound read ↔ ReportsFound answer ∧ ascii "FOUND" <:+: read := by
  have hnot : ¬ ascii "FOUND" <:+: ascii "stream: " := by decide
  have hne : ascii "FOUND" ≠ [] := by simp [ascii]
  have hkept {bytes : List UInt8} := infix_dropWhile_iff (s := bytes) hne isBlank_ascii_found
  have hlonger : ascii "FOUND" <:+: read → ascii "FOUND" <:+: answer :=
    fun hread ↦ hread.trans h.isInfix
  rw [ReportsFound, ReportsFound, and_assoc, and_iff_right_of_imp hlonger]
  by_cases hread : ascii "FOUND" <:+: read
  · have hstripped : read.dropWhile (fun b ↦ isBlank (Utf8.toChar b)) <+:
        answer.dropWhile fun b ↦ isBlank (Utf8.toChar b) := by
      obtain ⟨rest, rfl⟩ := h
      have hsome : ¬ (read.dropWhile fun b ↦ isBlank (Utf8.toChar b)).isEmpty = true := by
        intro hempty
        have hnil := hkept.mpr hread
        rw [List.isEmpty_iff.mp hempty, List.infix_nil] at hnil
        exact hne hnil
      rw [List.dropWhile_append, if_neg hsome]
      exact List.prefix_append _ _
    have hreadKept : ascii "FOUND" <:+: read.dropWhile (fun b ↦ isBlank (Utf8.toChar b)) ↔
        ascii "FOUND" <:+: read := hkept
    rw [← hreadKept]
    exact prefix_and_infix_iff hnot hstripped
  · exact iff_of_false (fun hread' ↦ hread hread'.2) fun hread' ↦ hread hread'.2

/-! ## The exchange -/

variable {O : Type}

theorem raises_scan_iff {maxScanBytes : ℤ} {ctx : HookContext O} {data : List UInt8} {phase : Hook}
    {segments : List (List UInt8)} :
    (∃ e, (scan maxScanBytes true (clamdInstream fun _ ↦ .answers segments) ctx data phase []).1 =
      .raises e) ↔ ReportsFound (firstRead segments) := by
  rw [← isFound_answerText_iff, scan, clamdInstream]
  dsimp only
  by_cases hfound : isFound (answerText (firstRead segments)) = true
  · rw [if_pos hfound, if_pos rfl]
    exact iff_of_true ⟨_, rfl⟩ hfound
  · rw [if_neg hfound]
    refine iff_of_false ?_ hfound
    rintro ⟨e, he⟩
    simp at he

/-- **The exchange is as it should be** exactly if the word that tells is in what is read at once,
where there is one. What is sent is always right. -/
theorem faithful_iff (maxScanBytes : ℤ) (ctx : HookContext O) (phase : Hook) (data : List UInt8)
    (segments : List (List UInt8)) (hdata : (data.length : ℤ) ≤ maxScanBytes) :
    Faithful maxScanBytes ctx phase data segments ↔
      (ReportsFound segments.flatten → ascii "FOUND" <:+: firstRead segments) := by
  have hslice : slice data maxScanBytes = data := by
    rw [slice, if_pos (by omega), List.take_of_length_le (by omega)]
  have hsent : ∀ read, Instream (sent (slice data maxScanBytes)) read ↔ read = data := by
    intro read
    rw [hslice, instream_sent_iff]
  rw [Faithful, and_iff_right hsent, raises_scan_iff,
    reportsFound_of_prefix_iff (firstRead_is_start segments), and_iff_left_iff_imp]

/-- What was found, in two segments. -/
def splitAnswer : List (List UInt8) := [ascii "stream: ", ascii "Eicar-Signature FOUND" ++ [0]]

def download : HookContext Unit := ⟨"fetch", .callTool, [], "files", Dict.empty, .text "X5O!P%"⟩

theorem faithful_split_iff :
    Faithful 10485760 download .toolPostInvoke (ascii "X5O!P%") splitAnswer ↔
      (ReportsFound splitAnswer.flatten → ascii "FOUND" <:+: firstRead splitAnswer) :=
  faithful_iff 10485760 download .toolPostInvoke (ascii "X5O!P%") splitAnswer (by decide)

theorem not_faithful_split :
    ¬ Faithful 10485760 download .toolPostInvoke (ascii "X5O!P%") splitAnswer := by
  rintro ⟨-, hraises⟩
  rw [raises_scan_iff] at hraises
  have hwhole : ReportsFound splitAnswer.flatten := by
    constructor
    · decide
    · decide
  have hread : ¬ ReportsFound (firstRead splitAnswer) := by
    rintro ⟨-, hfound⟩
    exact absurd hfound (by decide)
  exact hread (hraises.mpr hwhole)

end ClamAv

end ArgusMcp
