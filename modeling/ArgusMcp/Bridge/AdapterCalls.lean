import ArgusMcp.Library.LineScanner
import ArgusMcp.Library.Run
import Mathlib.Algebra.Group.Nat.Defs

/-!
# Calls of the Docker adapter

`GoDockerAdapter._call` writes a request to the adapter, as a line, and reads a line, with a lock
held from before the first to behind the second. The adapter answers every request with one line, in
order. Neither names the request it belongs to: what belongs together is what is at the same place
in the two streams.

## What shifts the answers

A call that is cancelled once its request has been written leaves an answer behind, which is what
the next call reads. And a reader that has more than its limit of an answer, but not its end, throws
away what it has: the rest of the answer is then read as a line of its own. Where neither happens,
every call that returns has its own answer (`returned_own`).
-/

namespace ArgusMcp

namespace AdapterCalls

open LineScanner

/-- The calls are numbered as they are made. -/
abbrev Call := ℕ

/-- Where the call with the lock waits. -/
inductive Stage where
  | draining
  | reading
  deriving DecidableEq

structure State where
  calls : ℕ
  /-- Those that wait for the lock. -/
  waiting : List Call
  holder : Option (Call × Stage)
  /-- The calls whose requests have been written and not been answered. -/
  unanswered : List Call
  /-- The lines the adapter has answered calls with. -/
  answers : List (Call × List Byte)
  /-- What has been answered and has not arrived yet. -/
  wire : List Byte
  /-- The buffer of the reader. -/
  buffer : List Byte
  /-- The lines that calls have returned, as JSON. -/
  returned : List (Call × List Byte)
  deriving DecidableEq

def init : State := ⟨0, [], none, [], [], [], [], []⟩

inductive Event where
  | call
  /-- A call gets the lock, and writes its request. -/
  | acquire (call : Call)
  | drained
  | answer (line : List Byte)
  /-- Some bytes arrive. -/
  | feed (n : ℕ)
  /-- `readline` is over. -/
  | read
  | cancel (call : Call)
  deriving DecidableEq

section Model

variable (limit : ℕ) (parses : List Byte → Bool)

def State.release (s : State) : State := { s with holder := none }

/-- `readline`, and what the call does with what it gives. -/
def State.readLine (s : State) (call : Call) : Option State :=
  if newline ∈ s.buffer then
    let line := s.buffer.takeWhile (· ≠ newline)
    let rest := { s with buffer := s.buffer.drop (line.length + 1) }
    some (if line.length ≤ limit ∧ parses line then
      { rest.release with returned := s.returned ++ [(call, line)] }
    else rest.release)
  else if limit < s.buffer.length then some { s.release with buffer := [] }
  else none

def step (s : State) : Event → Option State
  | .call => some { s with calls := s.calls + 1, waiting := s.waiting ++ [s.calls] }
  | .acquire call =>
    if call ∈ s.waiting ∧ s.holder = none then
      some { s with
        waiting := s.waiting.erase call
        holder := some (call, .draining)
        unanswered := s.unanswered ++ [call] }
    else none
  | .drained =>
    match s.holder with
    | some (call, .draining) => some { s with holder := some (call, .reading) }
    | _ => none
  | .answer line =>
    match s.unanswered with
    | [] => none
    | call :: rest =>
      if newline ∉ line then
        some { s with
          unanswered := rest
          answers := s.answers ++ [(call, line)]
          wire := s.wire ++ line ++ [newline] }
      else none
  | .feed n => some { s with buffer := s.buffer ++ s.wire.take n, wire := s.wire.drop n }
  | .read =>
    match s.holder with
    | some (call, .reading) => s.readLine limit parses call
    | _ => none
  | .cancel call =>
    if call ∈ s.waiting then some { s with waiting := s.waiting.erase call }
    else if s.holder.map Prod.fst = some call then some s.release
    else none

/-- No call is cancelled that has the lock, and the reader does not throw away what it has. -/
def Undisturbed (s : State) : Event → Prop
  | .cancel call => s.holder.map Prod.fst ≠ some call
  | .read => newline ∈ s.buffer
  | _ => True

instance (s : State) (e : Event) : Decidable (Undisturbed s e) := by
  rcases e <;> unfold Undisturbed <;> infer_instance

/-- Every call that has returned has returned the answer to its own request. -/
def Own (s : State) : Prop := ∀ entry ∈ s.returned, entry ∈ s.answers

/-! ## The invariant -/

/-- What is under way: nothing, if no call has the lock, and else its request or its answer. -/
inductive Alternating (s : State) : Prop
  | idle (hholder : s.holder = none) (hunanswered : s.unanswered = []) (hwire : s.wire = [])
      (hbuffer : s.buffer = [])
  | requested (call : Call) (hholder : s.holder.map Prod.fst = some call)
      (hunanswered : s.unanswered = [call]) (hwire : s.wire = []) (hbuffer : s.buffer = [])
  | answered (call : Call) (line : List Byte) (hholder : s.holder.map Prod.fst = some call)
      (hunanswered : s.unanswered = []) (hline : newline ∉ line)
      (hbytes : s.buffer ++ s.wire = line ++ [newline]) (hanswer : (call, line) ∈ s.answers)

variable {limit parses} {s m : State}

/-- Nothing that matters is touched while a call waits for the lock. -/
theorem Alternating.of_calls (h : Alternating s) (calls : ℕ) (waiting : List Call) :
    Alternating { s with calls := calls, waiting := waiting } := by
  rcases h with ⟨hholder, hunanswered, hwire, hbuffer⟩ |
    ⟨call, hholder, hunanswered, hwire, hbuffer⟩ |
    ⟨call, line, hholder, hunanswered, hline, hbytes, hanswer⟩
  · exact .idle hholder hunanswered hwire hbuffer
  · exact .requested call hholder hunanswered hwire hbuffer
  · exact .answered call line hholder hunanswered hline hbytes hanswer

theorem Alternating.of_stage (h : Alternating s) {call : Call} {stage : Stage}
    (hholder : s.holder = some (call, stage)) (stage' : Stage) :
    Alternating { s with holder := some (call, stage') } := by
  rcases h with ⟨hnone, -⟩ | ⟨call', hcall, hunanswered, hwire, hbuffer⟩ |
    ⟨call', line, hcall, hunanswered, hline, hbytes, hanswer⟩
  · exact absurd (hholder.symm.trans hnone) (Option.some_ne_none _)
  · rw [hholder] at hcall
    exact .requested call' hcall hunanswered hwire hbuffer
  · rw [hholder] at hcall
    exact .answered call' line hcall hunanswered hline hbytes hanswer

theorem Alternating.unanswered_eq_nil (h : Alternating s) (hholder : s.holder = none) :
    s.unanswered = [] ∧ s.wire = [] ∧ s.buffer = [] := by
  rcases h with ⟨-, hunanswered, hwire, hbuffer⟩ | ⟨call, hcall, -⟩ | ⟨call, line, hcall, -⟩
  · exact ⟨hunanswered, hwire, hbuffer⟩
  · rw [hholder] at hcall
    exact absurd hcall (by simp)
  · rw [hholder] at hcall
    exact absurd hcall (by simp)

/-- A line that has arrived to its end is the answer, and nothing else is under way. -/
theorem Alternating.answer_of_mem (h : Alternating s) (hmem : newline ∈ s.buffer) :
    ∃ call line, s.holder.map Prod.fst = some call ∧ s.unanswered = [] ∧ s.wire = [] ∧
      s.buffer = line ++ [newline] ∧ newline ∉ line ∧ (call, line) ∈ s.answers := by
  rcases h with ⟨-, -, -, hbuffer⟩ | ⟨call, -, -, -, hbuffer⟩ |
    ⟨call, line, hholder, hunanswered, hline, hbytes, hanswer⟩
  · exact absurd hmem (by simp [hbuffer])
  · exact absurd hmem (by simp [hbuffer])
  · obtain ⟨before, after, hbuffer, hbefore⟩ := List.eq_append_cons_of_mem hmem
    rw [hbuffer, List.append_assoc, List.cons_append] at hbytes
    have hfirst := congrArg (List.takeWhile (· ≠ newline)) hbytes
    rw [takeWhile_append_cons hbefore, takeWhile_append_cons hline] at hfirst
    subst hfirst
    have hrest := (List.cons.inj (List.append_cancel_left hbytes)).2
    obtain ⟨rfl, hwire⟩ := List.append_eq_nil_iff.mp hrest
    exact ⟨call, before, hholder, hunanswered, hwire, hbuffer, hline, hanswer⟩

theorem own_of_read (h : Own s) (halternating : Alternating s) {call : Call} {stage : Stage}
    (hholder : s.holder = some (call, stage)) (hmem : newline ∈ s.buffer)
    (hread : s.readLine limit parses call = some m) : Alternating m ∧ Own m := by
  obtain ⟨call', line, hcall, hunanswered, hwire, hbuffer, hline, hanswer⟩ :=
    halternating.answer_of_mem hmem
  obtain rfl : call = call' := by
    rw [hholder] at hcall
    exact Option.some.inj hcall
  have htake : s.buffer.takeWhile (· ≠ newline) = line := by
    rw [hbuffer, takeWhile_append_cons hline]
  have hdrop : s.buffer.drop (line.length + 1) = [] := by
    rw [hbuffer]
    simp
  rw [State.readLine, if_pos hmem, htake] at hread
  dsimp only at hread
  rw [hdrop] at hread
  obtain rfl := Option.some.inj hread
  split_ifs
  · refine ⟨.idle rfl hunanswered hwire rfl, fun entry hentry ↦ ?_⟩
    rcases List.mem_append.mp hentry with hentry | hentry
    · exact h entry hentry
    · rw [List.mem_singleton.mp hentry]
      exact hanswer
  · exact ⟨.idle rfl hunanswered hwire rfl, h⟩

theorem own_of_answer (h : Own s) (halternating : Alternating s) {line : List Byte}
    (hstep : step limit parses s (.answer line) = some m) : Alternating m ∧ Own m := by
  rw [step] at hstep
  rcases halternating with ⟨-, hnone, -⟩ | ⟨call, hholder, hone, hwire, hbuffer⟩ |
    ⟨_, _, -, hnone, -⟩
  · rw [hnone] at hstep
    exact absurd hstep.symm (Option.some_ne_none m)
  · rw [hone] at hstep
    obtain ⟨hline, hm⟩ := Option.ite_none_right_eq_some.mp hstep
    obtain rfl := Option.some.inj hm
    refine ⟨.answered call line hholder rfl hline ?_ (List.mem_append_right _ ?_), ?_⟩
    · dsimp only
      rw [hwire, hbuffer, List.nil_append, List.nil_append]
    · exact List.mem_singleton_self _
    · exact fun entry hentry ↦ List.mem_append_left _ (h entry hentry)
  · rw [hnone] at hstep
    exact absurd hstep.symm (Option.some_ne_none m)

/-- **One step** that is not disturbed keeps requests and answers together. -/
theorem own_of_step {e : Event} (halternating : Alternating s) (h : Own s)
    (hok : Undisturbed s e) (hstep : step limit parses s e = some m) : Alternating m ∧ Own m := by
  rcases e with _ | call | _ | line | n | _ | call
  · rw [step] at hstep
    obtain rfl := Option.some.inj hstep
    exact ⟨halternating.of_calls _ _, h⟩
  · rw [step] at hstep
    obtain ⟨⟨-, hholder⟩, hm⟩ := Option.ite_none_right_eq_some.mp hstep
    obtain rfl := Option.some.inj hm
    obtain ⟨hunanswered, hwire, hbuffer⟩ := halternating.unanswered_eq_nil hholder
    refine ⟨.requested call rfl ?_ hwire hbuffer, h⟩
    dsimp only
    rw [hunanswered, List.nil_append]
  · rw [step] at hstep
    split at hstep
    · rename_i call hholder
      obtain rfl := Option.some.inj hstep
      exact ⟨halternating.of_stage hholder .reading, h⟩
    · exact absurd hstep.symm (Option.some_ne_none m)
  · exact own_of_answer h halternating hstep
  · rw [step] at hstep
    obtain rfl := Option.some.inj hstep
    refine ⟨?_, h⟩
    rcases halternating with ⟨hholder, hunanswered, hwire, hbuffer⟩ |
      ⟨call, hholder, hunanswered, hwire, hbuffer⟩ |
      ⟨call, line, hholder, hunanswered, hline, hbytes, hanswer⟩
    · exact .idle hholder hunanswered (by simp [hwire]) (by simp [hwire, hbuffer])
    · exact .requested call hholder hunanswered (by simp [hwire]) (by simp [hwire, hbuffer])
    · refine .answered call line hholder hunanswered hline ?_ hanswer
      dsimp only
      rw [List.append_assoc, List.take_append_drop, hbytes]
  · rw [step] at hstep
    split at hstep
    · rename_i call hholder
      exact own_of_read h halternating hholder hok hstep
    · exact absurd hstep.symm (Option.some_ne_none m)
  · rw [step] at hstep
    by_cases hwaiting : call ∈ s.waiting
    · rw [if_pos hwaiting] at hstep
      obtain rfl := Option.some.inj hstep
      exact ⟨halternating.of_calls _ _, h⟩
    · rw [if_neg hwaiting, if_neg hok] at hstep
      exact absurd hstep.symm (Option.some_ne_none m)

/-- **When every call has its own answer**: wherever a run comes to in which no call is cancelled
that has the lock, and the reader throws nothing away, the calls that have returned have returned
the answers to their own requests. -/
theorem returned_own {events : List Event}
    (hok : Run.Guarded (step limit parses) Undisturbed init events)
    (hrun : Run.run (step limit parses) init events = some s) : Own s := by
  have hinit : Alternating init ∧ Own init :=
    ⟨.idle rfl rfl rfl rfl, fun _ h ↦ absurd h List.not_mem_nil⟩
  have hkept : ∀ s e m, Alternating s ∧ Own s → Undisturbed s e →
      step limit parses s e = some m → Alternating m ∧ Own m :=
    fun _ _ _ h hok hstep ↦ own_of_step h.1 h.2 hok hstep
  exact (Run.invariant_of_run hkept hinit hok hrun).2

end Model

/-! ## Two calls -/

/-- The number of bytes that a reader keeps, if nothing else is said. -/
def defaultLimit : ℕ := 2 ^ 16

/-- Three calls are made. The second one is cancelled while the first one has the lock; the others
are answered, with `{}` and `[]`. -/
def threeCalls : List Event :=
  [.call, .call, .call, .acquire 0, .drained, .cancel 1, .answer [123, 125], .feed 2, .feed 1,
    .read, .acquire 2, .drained, .answer [91, 93], .feed 3, .read]

theorem returned_own_threeCalls :
    Own ⟨3, [], none, [], [(0, [123, 125]), (2, [91, 93])], [], [],
      [(0, [123, 125]), (2, [91, 93])]⟩ := by
  have hok : Run.Guarded (step defaultLimit fun _ ↦ true) Undisturbed init threeCalls := by decide
  exact returned_own hok (by decide)

/-- A call times out, and the next one gets its answer. -/
def timedOut : List Event :=
  [.call, .acquire 0, .drained, .cancel 0, .answer [48], .feed 2, .call, .acquire 1, .drained,
    .read]

theorem not_forall_returned_own : ¬ ∀ (limit : ℕ) (parses : List Byte → Bool)
    (events : List Event) (s : State), Run.run (step limit parses) init events = some s → Own s := by
  intro h
  have hown := h defaultLimit (fun _ ↦ true) timedOut
    ⟨2, [], none, [1], [(0, [48])], [], [], [(1, [48])]⟩ (by decide)
  exact absurd (hown (1, [48]) (by decide)) (by decide)

end AdapterCalls

end ArgusMcp
