import ArgusMcp.Library.Machine
import Mathlib.Algebra.Group.Nat.Defs
import Mathlib.Algebra.Order.Group.Int
import Mathlib.Algebra.Order.Group.Unbundled.Basic
import Mathlib.Order.WithBot
import Mathlib.Data.List.Pairwise

/-!
# The circuit breaker of a backend

A breaker is closed until its backend has failed a number of times in a row, then it is open for a
cooldown, and after that half-open until it is told how a trial went. There are two of them, one in
Python (`bridge/health/circuit_breaker.py`) and one in Rust (`_circuit_breaker_rs/src/lib.rs`,
behind the wrapper in `_circuit_breaker_rs/__init__.py`); which one runs depends on what is
installed.

They are not written alike. In Rust a failure of a half-open breaker opens it at once, in Python
only if the failures have reached the threshold; in Rust there may be no time of a last failure, in
Python it begins at zero; the counter of Rust has 32 bits, and its clock cannot run backwards. Both
are compared here with a third one, `Spec`, that has nothing but the list of calls made so far and
the state, and computes the rest from the list. The three differences vanish on what can be reached:
a breaker that is not closed has counted up to the threshold (`Sound`).

Readings of the clock are elements of an ordered group. A cooldown may be infinite; one that is not
a number behaves so, no elapsed time being as long as it.
-/

namespace ArgusMcp

namespace Breaker

/-! ## Calls -/

inductive CircuitState where
  | closed
  | opened
  | halfOpen
  deriving DecidableEq, Repr

/-- What can be asked of a breaker. -/
inductive Op where
  | recordSuccess
  | recordFailure
  | reset
  | state
  | consecutiveFailures
  | allowsRequest
  | toDict
  deriving DecidableEq, Repr

/-- A call on a breaker, with the reading of the clock at which it is made. -/
structure Call (T : Type*) where
  now : T
  op : Op

/-- What a call returns. -/
inductive Reply (T : Type*) where
  | none
  | state (s : CircuitState)
  | failures (n : ℕ)
  | allows (b : Bool)
  | dict (s : CircuitState) (consecutiveFailures failureThreshold : ℕ)
      (cooldownSeconds : WithTop T)

variable {T : Type*} [AddCommGroup T] [LinearOrder T]

/-! ## Python -/

/-- `CircuitBreaker`, without its name. -/
structure CircuitBreaker (T : Type*) where
  failureThreshold : ℕ
  cooldownSeconds : WithTop T
  state : CircuitState
  consecutiveFailures : ℕ
  lastFailureTime : T
  lastSuccessTime : T

namespace CircuitBreaker

def new (failureThreshold : ℕ) (cooldownSeconds : WithTop T) : CircuitBreaker T where
  failureThreshold := failureThreshold
  cooldownSeconds := cooldownSeconds
  state := .closed
  consecutiveFailures := 0
  lastFailureTime := 0
  lastSuccessTime := 0

/-- What reading the property `state` does: an open breaker may become half-open. -/
def observe (b : CircuitBreaker T) (now : T) : CircuitBreaker T :=
  if b.state = .opened ∧ b.cooldownSeconds ≤ ((now - b.lastFailureTime : T) : WithTop T) then
    { b with state := .halfOpen }
  else b

def recordSuccess (b : CircuitBreaker T) (now : T) : CircuitBreaker T :=
  { b with state := .closed, consecutiveFailures := 0, lastSuccessTime := now }

def recordFailure (b : CircuitBreaker T) (now : T) : CircuitBreaker T :=
  let b := { b with consecutiveFailures := b.consecutiveFailures + 1, lastFailureTime := now }
  if (b.state = .closed ∨ b.state = .halfOpen) ∧ b.failureThreshold ≤ b.consecutiveFailures then
    { b with state := .opened }
  else b

def reset (b : CircuitBreaker T) : CircuitBreaker T :=
  { b with state := .closed, consecutiveFailures := 0 }

/-- `allows_request`, once the state has been read. -/
def allowsRequest (b : CircuitBreaker T) : Bool := b.state = .closed || b.state = .halfOpen

omit [AddCommGroup T] [LinearOrder T] in
theorem allowsRequest_eq (b : CircuitBreaker T) :
    b.allowsRequest = decide (b.state ≠ .opened) := by
  rw [allowsRequest]
  rcases b.state with _ | _ | _ <;> rfl

def call (b : CircuitBreaker T) (c : Call T) : CircuitBreaker T × Reply T :=
  match c.op with
  | .recordSuccess => (b.recordSuccess c.now, .none)
  | .recordFailure => (b.recordFailure c.now, .none)
  | .reset => (b.reset, .none)
  | .state => (b.observe c.now, .state (b.observe c.now).state)
  | .consecutiveFailures => (b, .failures b.consecutiveFailures)
  | .allowsRequest => (b.observe c.now, .allows (b.observe c.now).allowsRequest)
  | .toDict =>
    (b.observe c.now, .dict (b.observe c.now).state b.consecutiveFailures b.failureThreshold
      b.cooldownSeconds)

end CircuitBreaker

/-! ## Rust -/

/-- `RustCircuitBreaker` with its `Inner`. The three constants for the state are the three states;
the counter wraps. -/
structure RustCircuitBreaker (T : Type*) where
  failureThreshold : UInt32
  cooldownSecs : WithTop T
  state : CircuitState
  consecutiveFailures : UInt32
  lastFailure : Option T
  lastSuccess : Option T

namespace RustCircuitBreaker

/-- A new breaker, for a threshold that fits. -/
def new (failureThreshold : ℕ) (cooldownSeconds : WithTop T) : RustCircuitBreaker T where
  failureThreshold := UInt32.ofNat failureThreshold
  cooldownSecs := cooldownSeconds
  state := .closed
  consecutiveFailures := 0
  lastFailure := none
  lastSuccess := none

/-- `Instant::elapsed`, which is never negative. -/
def elapsed (now t : T) : T := max (now - t) 0

def checkTransition (b : RustCircuitBreaker T) (now : T) : RustCircuitBreaker T :=
  if b.state = .opened then
    match b.lastFailure with
    | some t =>
      if b.cooldownSecs ≤ ((elapsed now t : T) : WithTop T) then { b with state := .halfOpen }
      else b
    | none => b
  else b

def recordSuccess (b : RustCircuitBreaker T) (now : T) : RustCircuitBreaker T :=
  { b with state := .closed, consecutiveFailures := 0, lastSuccess := some now }

def recordFailure (b : RustCircuitBreaker T) (now : T) : RustCircuitBreaker T :=
  let b := { b with consecutiveFailures := b.consecutiveFailures + 1, lastFailure := some now }
  if b.state = .halfOpen then { b with state := .opened }
  else if b.state = .closed ∧ b.failureThreshold ≤ b.consecutiveFailures then
    { b with state := .opened }
  else b

def reset (b : RustCircuitBreaker T) : RustCircuitBreaker T :=
  { b with state := .closed, consecutiveFailures := 0 }

/-- One call, through the wrapper. -/
def call (b : RustCircuitBreaker T) (c : Call T) : RustCircuitBreaker T × Reply T :=
  match c.op with
  | .recordSuccess => (b.recordSuccess c.now, .none)
  | .recordFailure => (b.recordFailure c.now, .none)
  | .reset => (b.reset, .none)
  | .state => (b.checkTransition c.now, .state (b.checkTransition c.now).state)
  | .consecutiveFailures => (b, .failures b.consecutiveFailures.toNat)
  | .allowsRequest =>
    (b.checkTransition c.now, .allows (decide ((b.checkTransition c.now).state ≠ .opened)))
  | .toDict =>
    (b.checkTransition c.now, .dict (b.checkTransition c.now).state b.consecutiveFailures.toNat
      b.failureThreshold.toNat b.cooldownSecs)

end RustCircuitBreaker

/-! ## What the calls made so far say -/

section History

omit [AddCommGroup T] [LinearOrder T]

/-- The failures since the last success or reset. -/
def streak (calls : List (Call T)) : ℕ :=
  calls.foldl (fun n c ↦
    match c.op with
    | .recordFailure => n + 1
    | .recordSuccess => 0
    | .reset => 0
    | _ => n) 0

def lastFailure (calls : List (Call T)) : Option T :=
  ((calls.filter fun c ↦ c.op = .recordFailure).getLast?).map Call.now

def failureCount (calls : List (Call T)) : ℕ := calls.countP fun c ↦ c.op = .recordFailure

theorem streak_concat (calls : List (Call T)) (c : Call T) :
    streak (calls ++ [c]) = match c.op with
      | .recordFailure => streak calls + 1
      | .recordSuccess => 0
      | .reset => 0
      | _ => streak calls := by
  rw [streak, List.foldl_append]
  rfl

theorem lastFailure_concat (calls : List (Call T)) (c : Call T) :
    lastFailure (calls ++ [c])
      = if c.op = .recordFailure then some c.now else lastFailure calls := by
  rw [lastFailure, List.filter_append, lastFailure]
  by_cases h : c.op = .recordFailure
  · rw [if_pos h, List.filter_cons_of_pos (by simpa using h), List.filter_nil,
      List.getLast?_concat]
    rfl
  · rw [if_neg h, List.filter_cons_of_neg (by simpa using h), List.filter_nil, List.append_nil]

theorem mem_of_lastFailure {calls : List (Call T)} {t : T} (h : lastFailure calls = some t) :
    ∃ c ∈ calls, c.now = t := by
  obtain ⟨c, hc, rfl⟩ := Option.map_eq_some_iff.mp h
  exact ⟨c, List.mem_of_mem_filter (List.mem_of_getLast? hc), rfl⟩

theorem streak_le_failureCount (calls : List (Call T)) :
    streak calls ≤ failureCount calls := by
  induction calls using List.reverseRecOn with
  | nil => exact le_rfl
  | append_singleton calls c ih =>
    rw [streak_concat, failureCount, List.countP_append, ← failureCount, List.countP_singleton]
    rcases c.op with _ | _ | _ | _ | _ | _ | _ <;> simp <;> omega

theorem exists_lastFailure {calls : List (Call T)} (h : 0 < streak calls) :
    ∃ t, lastFailure calls = some t := by
  induction calls using List.reverseRecOn with
  | nil => exact absurd h (lt_irrefl 0)
  | append_singleton calls c ih =>
    rw [lastFailure_concat]
    by_cases hop : c.op = .recordFailure
    · exact ⟨c.now, if_pos hop⟩
    · rw [if_neg hop]
      refine ih (lt_of_lt_of_le h ?_)
      rw [streak_concat]
      rcases hop' : c.op with _ | _ | _ | _ | _ | _ | _ <;> simp_all

end History

/-! ## The specification -/

/-- A breaker that remembers every call. -/
structure Spec (T : Type*) where
  history : List (Call T)
  state : CircuitState

namespace Spec

def new : Spec T := ⟨[], .closed⟩

variable (threshold : ℕ) (cooldown : WithTop T)

/-- The cooldown has passed since the last failure. -/
def cooled (history : List (Call T)) (now : T) : Bool :=
  match lastFailure history with
  | some t => decide (cooldown ≤ ((now - t : T) : WithTop T))
  | none => false

def next (m : Spec T) (c : Call T) : CircuitState :=
  match c.op with
  | .recordSuccess => .closed
  | .reset => .closed
  | .recordFailure =>
    if m.state = .closed ∧ streak m.history + 1 < threshold then .closed else .opened
  | .consecutiveFailures => m.state
  | _ => if m.state = .opened ∧ cooled cooldown m.history c.now = true then .halfOpen else m.state

def call (m : Spec T) (c : Call T) : Spec T × Reply T :=
  (⟨m.history ++ [c], m.next threshold cooldown c⟩,
    match c.op with
    | .state => .state (m.next threshold cooldown c)
    | .consecutiveFailures => .failures (streak m.history)
    | .allowsRequest => .allows (decide (m.next threshold cooldown c ≠ .opened))
    | .toDict => .dict (m.next threshold cooldown c) (streak m.history) threshold cooldown
    | _ => .none)

/-- A breaker that is not closed has counted up to the threshold, and one that is half-open has
seen the end of a cooldown. -/
structure Sound (m : Spec T) : Prop where
  counted : m.state ≠ .closed → threshold ≤ streak m.history
  waited : m.state = .halfOpen → ∃ c ∈ m.history, ∀ t, lastFailure m.history = some t →
    cooldown ≤ ((c.now - t : T) : WithTop T)

variable {threshold cooldown}

theorem Sound.query {m : Spec T} (h : m.Sound threshold cooldown) {c : Call T}
    (hstreak : streak (m.history ++ [c]) = streak m.history) (hop : c.op ≠ .recordFailure)
    (hnext : m.next threshold cooldown c = if m.state = .opened ∧
      cooled cooldown m.history c.now = true then .halfOpen else m.state) :
    (m.call threshold cooldown c).1.Sound threshold cooldown := by
  have hlast : lastFailure (m.history ++ [c]) = lastFailure m.history := by
    rw [lastFailure_concat, if_neg hop]
  refine ⟨fun hstate ↦ ?_, fun hstate ↦ ?_⟩
  · rw [call] at hstate ⊢
    dsimp only at hstate ⊢
    rw [hstreak]
    rw [hnext] at hstate
    split at hstate
    · rename_i hopened
      exact h.counted (by simp [hopened.1])
    · exact h.counted hstate
  · rw [call] at hstate ⊢
    dsimp only at hstate ⊢
    rw [hlast]
    rw [hnext] at hstate
    split at hstate
    · -- This is the call that sees the end of the cooldown.
      rename_i hopened
      refine ⟨c, List.mem_append_right _ (List.mem_singleton_self c), fun t ht ↦ ?_⟩
      have hcooled := hopened.2
      rw [cooled, ht] at hcooled
      exact of_decide_eq_true hcooled
    · obtain ⟨c', hc', hwaited⟩ := h.waited hstate
      exact ⟨c', List.mem_append_left _ hc', hwaited⟩

theorem Sound.call {m : Spec T} (h : m.Sound threshold cooldown) (c : Call T) :
    (m.call threshold cooldown c).1.Sound threshold cooldown := by
  obtain ⟨now, op⟩ := c
  rcases op with _ | _ | _ | _ | _ | _ | _
  · exact ⟨fun hstate ↦ absurd rfl hstate, fun hstate ↦ absurd hstate (by simp [Spec.call, next])⟩
  · refine ⟨fun hstate ↦ ?_, fun hstate ↦ ?_⟩
    · rw [Spec.call] at hstate ⊢
      dsimp only [next] at hstate ⊢
      rw [streak_concat]
      dsimp only
      by_contra hlt
      refine hstate (if_pos ⟨?_, not_le.mp hlt⟩)
      by_contra hstate'
      have := h.counted hstate'
      omega
    · rw [Spec.call] at hstate
      dsimp only [next] at hstate
      split at hstate
      · exact absurd hstate (by simp)
      · exact absurd hstate (by simp)
  · exact ⟨fun hstate ↦ absurd rfl hstate, fun hstate ↦ absurd hstate (by simp [Spec.call, next])⟩
  · exact h.query (streak_concat _ _) (by simp) rfl
  · refine ⟨fun hstate ↦ ?_, fun hstate ↦ ?_⟩
    · rw [Spec.call, streak_concat]
      exact h.counted hstate
    · obtain ⟨c', hc', hwaited⟩ := h.waited hstate
      rw [Spec.call, lastFailure_concat]
      exact ⟨c', List.mem_append_left _ hc', hwaited⟩
  · exact h.query (streak_concat _ _) (by simp) rfl
  · exact h.query (streak_concat _ _) (by simp) rfl

end Spec

/-! ## The two breakers do what the specification says -/

section Python

variable {threshold : ℕ} {cooldown : WithTop T}

/-- The fields of the breaker in Python are what the calls made so far say. -/
structure CircuitBreaker.Implements (threshold : ℕ) (cooldown : WithTop T) (b : CircuitBreaker T)
    (m : Spec T) : Prop where
  failureThreshold : b.failureThreshold = threshold
  cooldownSeconds : b.cooldownSeconds = cooldown
  state : b.state = m.state
  consecutiveFailures : b.consecutiveFailures = streak m.history
  lastFailureTime : ∀ t, lastFailure m.history = some t → b.lastFailureTime = t

namespace CircuitBreaker

variable {b : CircuitBreaker T} {m : Spec T}

theorem Implements.observe (h : b.Implements threshold cooldown m)
    (hsound : m.Sound threshold cooldown) (hpos : 1 ≤ threshold) (now : T) :
    b.observe now = { b with
      state := if m.state = .opened ∧ Spec.cooled cooldown m.history now = true then .halfOpen
        else m.state } := by
  have hcond : (b.state = .opened ∧ b.cooldownSeconds ≤ ((now - b.lastFailureTime : T) : WithTop T))
      ↔ m.state = .opened ∧ Spec.cooled cooldown m.history now = true := by
    rw [h.state, h.cooldownSeconds]
    refine and_congr_right fun hopened ↦ ?_
    -- An open breaker has a time of a last failure, and it is the one that was stored.
    have hcount := hsound.counted (by simp [hopened])
    obtain ⟨t, ht⟩ := exists_lastFailure (lt_of_lt_of_le hpos hcount)
    rw [h.lastFailureTime t ht, Spec.cooled, ht]
    exact (decide_eq_true_iff).symm
  rw [CircuitBreaker.observe]
  simp only [hcond]
  split
  · rfl
  · rw [← h.state]

theorem Implements.recordFailure (h : b.Implements threshold cooldown m)
    (hsound : m.Sound threshold cooldown) (now : T) :
    b.recordFailure now = { b with
      state := if m.state = .closed ∧ streak m.history + 1 < threshold then .closed else .opened
      consecutiveFailures := streak m.history + 1
      lastFailureTime := now } := by
  rw [CircuitBreaker.recordFailure]
  dsimp only
  rw [h.state, h.failureThreshold, h.consecutiveFailures]
  rcases hstate : m.state with _ | _ | _
  · by_cases hlt : streak m.history + 1 < threshold
    · simp [hlt]
    · simp [hlt, not_lt.mp hlt]
  · simp
  · have hcount := hsound.counted (by simp [hstate])
    simp [Nat.le_succ_of_le hcount]

theorem Implements.call (h : b.Implements threshold cooldown m)
    (hsound : m.Sound threshold cooldown) (hpos : 1 ≤ threshold) (c : Call T) :
    (b.call c).1.Implements threshold cooldown (m.call threshold cooldown c).1 ∧
      (b.call c).2 = (m.call threshold cooldown c).2 := by
  obtain ⟨now, op⟩ := c
  have hobserve := h.observe hsound hpos now
  have hfailure := h.recordFailure hsound now
  have hlast : ∀ {op}, op ≠ .recordFailure → ∀ t,
      lastFailure (m.history ++ [⟨now, op⟩]) = some t → b.lastFailureTime = t := by
    intro op hop t ht
    rw [lastFailure_concat, if_neg hop] at ht
    exact h.lastFailureTime t ht
  have hstreak := fun op ↦ streak_concat m.history ⟨now, op⟩
  rcases op with _ | _ | _ | _ | _ | _ | _
  · exact ⟨⟨h.1, h.2, rfl, (hstreak .recordSuccess).symm, hlast (by simp)⟩, rfl⟩
  · rw [CircuitBreaker.call, Spec.call]
    dsimp only
    rw [hfailure]
    refine ⟨⟨h.1, h.2, rfl, (hstreak .recordFailure).symm, fun t ht ↦ ?_⟩, rfl⟩
    rw [lastFailure_concat, if_pos rfl] at ht
    exact Option.some.inj ht
  · exact ⟨⟨h.1, h.2, rfl, (hstreak .reset).symm, hlast (by simp)⟩, rfl⟩
  · rw [CircuitBreaker.call, Spec.call]
    dsimp only
    rw [hobserve]
    exact ⟨⟨h.1, h.2, rfl, h.4.trans (hstreak .state).symm, hlast (by simp)⟩, rfl⟩
  · refine ⟨⟨h.1, h.2, h.3, h.4.trans (hstreak .consecutiveFailures).symm, hlast (by simp)⟩, ?_⟩
    exact congrArg Reply.failures h.consecutiveFailures
  · rw [CircuitBreaker.call, Spec.call]
    dsimp only
    rw [hobserve]
    refine ⟨⟨h.1, h.2, rfl, h.4.trans (hstreak .allowsRequest).symm, hlast (by simp)⟩, ?_⟩
    rw [allowsRequest_eq]
    rfl
  · rw [CircuitBreaker.call, Spec.call]
    dsimp only
    rw [hobserve, h.consecutiveFailures, h.failureThreshold, h.cooldownSeconds]
    exact ⟨⟨rfl, rfl, rfl, (hstreak .toDict).symm, hlast (by simp)⟩, rfl⟩

end CircuitBreaker

end Python

section Rust

variable {threshold : ℕ} {cooldown : WithTop T}

/-- The fields of the breaker in Rust are what the calls made so far say. -/
structure RustCircuitBreaker.Implements (threshold : ℕ) (cooldown : WithTop T)
    (b : RustCircuitBreaker T) (m : Spec T) : Prop where
  failureThreshold : b.failureThreshold.toNat = threshold
  cooldownSecs : b.cooldownSecs = cooldown
  state : b.state = m.state
  consecutiveFailures : b.consecutiveFailures.toNat = streak m.history
  lastFailure : b.lastFailure = Breaker.lastFailure m.history

namespace RustCircuitBreaker

variable {b : RustCircuitBreaker T} {m : Spec T}

theorem elapsed_eq [IsOrderedAddMonoid T] {now t : T} (h : t ≤ now) : elapsed now t = now - t := by
  rw [elapsed, max_eq_left (sub_nonneg.mpr h)]

/-- The clock not having run backwards, the time elapsed is the difference of two readings. -/
theorem Implements.checkTransition [IsOrderedAddMonoid T] (h : b.Implements threshold cooldown m)
    {now : T} (hclock : ∀ t, Breaker.lastFailure m.history = some t → t ≤ now) :
    b.checkTransition now = { b with
      state := if m.state = .opened ∧ Spec.cooled cooldown m.history now = true then .halfOpen
        else m.state } := by
  obtain ⟨bt, bc, bs, bn, bl, bsucc⟩ := b
  obtain ⟨-, rfl, rfl, -, rfl⟩ := h
  rw [RustCircuitBreaker.checkTransition, Spec.cooled]
  dsimp only
  by_cases hopened : m.state = .opened
  · rw [if_pos hopened]
    rcases hlast : Breaker.lastFailure m.history with _ | t
    · rw [if_neg (fun hand ↦ Bool.false_ne_true hand.2)]
    · dsimp only
      rw [elapsed_eq (hclock t hlast)]
      simp only [hopened, true_and, decide_eq_true_iff]
      split
      · rfl
      · rfl
  · rw [if_neg hopened, if_neg (fun hand ↦ hopened hand.1)]

omit [AddCommGroup T] [LinearOrder T] in
/-- As long as the counter does not overflow, counting is counting. -/
theorem Implements.recordFailure (h : b.Implements threshold cooldown m)
    (hfits : streak m.history + 1 < 2 ^ 32) (now : T) :
    (b.recordFailure now).failureThreshold = b.failureThreshold ∧
      (b.recordFailure now).cooldownSecs = b.cooldownSecs ∧
      (b.recordFailure now).state
        = (if m.state = .closed ∧ streak m.history + 1 < threshold then .closed else .opened) ∧
      (b.recordFailure now).consecutiveFailures.toNat = streak m.history + 1 ∧
      (b.recordFailure now).lastFailure = some now := by
  have hcount : (b.consecutiveFailures + 1).toNat = streak m.history + 1 := by
    rw [UInt32.toNat_add, h.consecutiveFailures]
    exact Nat.mod_eq_of_lt hfits
  have hle : b.failureThreshold ≤ b.consecutiveFailures + 1 ↔
      ¬ streak m.history + 1 < threshold := by
    rw [UInt32.le_iff_toNat_le, hcount, h.failureThreshold, not_lt]
  rw [RustCircuitBreaker.recordFailure]
  dsimp only
  rw [h.state]
  simp only [hle]
  rcases hstate : m.state with _ | _ | _
  · by_cases hlt : streak m.history + 1 < threshold
    · simp [hlt, hcount]
    · simp [hlt, hcount]
  · simp [hcount]
  · simp [hcount]

theorem Implements.call [IsOrderedAddMonoid T] (h : b.Implements threshold cooldown m)
    {c : Call T} (hfits : streak m.history + 1 < 2 ^ 32 ∨ c.op ≠ .recordFailure)
    (hclock : ∀ t, Breaker.lastFailure m.history = some t → t ≤ c.now) :
    (b.call c).1.Implements threshold cooldown (m.call threshold cooldown c).1 ∧
      (b.call c).2 = (m.call threshold cooldown c).2 := by
  obtain ⟨now, op⟩ := c
  have hcheck := h.checkTransition hclock
  have hlast : ∀ {op}, op ≠ .recordFailure →
      b.lastFailure = Breaker.lastFailure (m.history ++ [⟨now, op⟩]) := by
    intro op hop
    rw [lastFailure_concat, if_neg hop]
    exact h.lastFailure
  have hstreak := fun op ↦ streak_concat m.history ⟨now, op⟩
  rcases op with _ | _ | _ | _ | _ | _ | _
  · exact ⟨⟨h.1, h.2, rfl, (hstreak .recordSuccess).symm, hlast (by simp)⟩, rfl⟩
  · obtain ⟨hthreshold, hcooldown, hstate, hcount, hlast'⟩ :=
      h.recordFailure (hfits.resolve_right fun hop ↦ hop rfl) now
    refine ⟨⟨(congrArg _ hthreshold).trans h.1, hcooldown.trans h.2, hstate,
      hcount.trans (hstreak .recordFailure).symm, hlast'.trans ?_⟩, rfl⟩
    rw [Spec.call, lastFailure_concat, if_pos rfl]
  · exact ⟨⟨h.1, h.2, rfl, (hstreak .reset).symm, hlast (by simp)⟩, rfl⟩
  · rw [RustCircuitBreaker.call, Spec.call]
    dsimp only
    rw [hcheck]
    exact ⟨⟨h.1, h.2, rfl, h.4.trans (hstreak .state).symm, hlast (by simp)⟩, rfl⟩
  · refine ⟨⟨h.1, h.2, h.3, h.4.trans (hstreak .consecutiveFailures).symm, hlast (by simp)⟩, ?_⟩
    exact congrArg Reply.failures h.consecutiveFailures
  · rw [RustCircuitBreaker.call, Spec.call]
    dsimp only
    rw [hcheck]
    exact ⟨⟨h.1, h.2, rfl, h.4.trans (hstreak .allowsRequest).symm, hlast (by simp)⟩, rfl⟩
  · rw [RustCircuitBreaker.call, Spec.call]
    dsimp only
    rw [hcheck, h.consecutiveFailures, h.failureThreshold, h.cooldownSecs]
    exact ⟨⟨h.1, rfl, rfl, h.4.trans (hstreak .toDict).symm, hlast (by simp)⟩, rfl⟩

end RustCircuitBreaker

end Rust

/-! ## Equivalence -/

/-- The clock does not run backwards, and there are fewer failures than the counter of Rust can
hold. -/
def Admissible (calls : List (Call T)) : Prop :=
  calls.Pairwise (fun a b ↦ a.now ≤ b.now) ∧ failureCount calls < 2 ^ 32

section Admissible

omit [AddCommGroup T]

theorem Admissible.of_concat {calls : List (Call T)} {c : Call T}
    (h : Admissible (calls ++ [c])) : Admissible calls := by
  refine ⟨(List.pairwise_append.mp h.1).1, lt_of_le_of_lt ?_ h.2⟩
  rw [failureCount, failureCount, List.countP_append]
  exact Nat.le_add_right _ _

theorem Admissible.le_now {calls : List (Call T)} {c : Call T}
    (h : Admissible (calls ++ [c])) {d : Call T} (hd : d ∈ calls) : d.now ≤ c.now :=
  (List.pairwise_append.mp h.1).2.2 d hd c (List.mem_singleton_self c)

theorem Admissible.lastFailure_le {calls : List (Call T)} {c : Call T}
    (h : Admissible (calls ++ [c])) {t : T} (ht : lastFailure calls = some t) : t ≤ c.now := by
  obtain ⟨d, hd, rfl⟩ := mem_of_lastFailure ht
  exact h.le_now hd

theorem Admissible.fits {calls : List (Call T)} {c : Call T}
    (h : Admissible (calls ++ [c])) : streak calls + 1 < 2 ^ 32 ∨ c.op ≠ .recordFailure := by
  by_cases hop : c.op = .recordFailure
  · have hlt := h.2
    have hle := streak_le_failureCount calls
    rw [failureCount, List.countP_append, ← failureCount, List.countP_singleton, hop] at hlt
    left
    simp only [decide_true, if_true] at hlt
    omega
  · exact .inr hop

end Admissible

/-- What a breaker is for, said about all calls made on it. -/
structure Lawful {σ : Type*} (step : σ → Call T → σ × Reply T)
    (state : σ → CircuitState) (init : σ) (threshold : ℕ) (cooldown : WithTop T)
    (calls : List (Call T)) : Prop where
  /-- It leaves the closed state only after as many consecutive failures as the threshold says. -/
  leaves_closed : ∀ pre c post, calls = pre ++ c :: post →
    state (Machine.after step init pre) = .closed →
    state (Machine.after step init (pre ++ [c])) ≠ .closed →
      c.op = .recordFailure ∧ threshold ≤ streak (pre ++ [c])
  /-- Once opened, it rejects every request until the cooldown has elapsed since the last
  failure. -/
  rejects : ∀ pre c post, calls = pre ++ c :: post →
    state (Machine.after step init pre) ≠ .closed → c.op = .allowsRequest →
    ∀ t, lastFailure pre = some t → ((c.now - t : T) : WithTop T) < cooldown →
      (step (Machine.after step init pre) c).2 = .allows false
  /-- The first failure of a half-open breaker opens it again. -/
  reopens : ∀ pre c post, calls = pre ++ c :: post →
    state (Machine.after step init pre) = .halfOpen → c.op = .recordFailure →
      state (Machine.after step init (pre ++ [c])) = .opened

section Spec

variable {threshold : ℕ} {cooldown : WithTop T}

abbrev specAfter (threshold : ℕ) (cooldown : WithTop T) (calls : List (Call T)) : Spec T :=
  Machine.after (Spec.call threshold cooldown) .new calls

theorem specAfter_sound (threshold : ℕ) (cooldown : WithTop T) (calls : List (Call T)) :
    (specAfter threshold cooldown calls).history = calls ∧
      (specAfter threshold cooldown calls).Sound threshold cooldown := by
  induction calls using List.reverseRecOn with
  | nil => exact ⟨rfl, fun h ↦ absurd rfl h, fun h ↦ absurd h (by simp [Spec.new])⟩
  | append_singleton calls c ih =>
    rw [specAfter, Machine.after_concat]
    exact ⟨congrArg (· ++ [c]) ih.1, ih.2.call c⟩

variable [IsOrderedAddMonoid T]

/-- A half-open breaker has waited, and so a request that comes before the end of the cooldown finds
it open. -/
theorem next_allowsRequest_eq {pre : List (Call T)} {c : Call T}
    (hok : Admissible (pre ++ [c])) (hstate : (specAfter threshold cooldown pre).state ≠ .closed)
    (hop : c.op = .allowsRequest) {t : T} (ht : lastFailure pre = some t)
    (hearly : ((c.now - t : T) : WithTop T) < cooldown) :
    (specAfter threshold cooldown pre).next threshold cooldown c = .opened := by
  obtain ⟨hhist, hsound⟩ := specAfter_sound threshold cooldown pre
  rcases hstate' : (specAfter threshold cooldown pre).state with _ | _ | _
  · exact absurd hstate' hstate
  · rw [Spec.next, hop]
    dsimp only
    rw [if_neg, hstate']
    rintro ⟨-, hcooled⟩
    rw [Spec.cooled, hhist, ht] at hcooled
    exact absurd (of_decide_eq_true hcooled) (not_le.mpr hearly)
  · obtain ⟨d, hd, hwaited⟩ := hsound.waited hstate'
    rw [hhist] at hd hwaited
    have hle : ((d.now - t : T) : WithTop T) ≤ ((c.now - t : T) : WithTop T) :=
      WithTop.coe_le_coe.mpr (sub_le_sub_right (hok.le_now hd) t)
    exact absurd ((hwaited t ht).trans hle) (not_le.mpr hearly)

/-- **Following the specification is enough.** -/
theorem lawful_of_lockstep {σ : Type*} {step : σ → Call T → σ × Reply T}
    {state : σ → CircuitState} {init : σ}
    (hstate : ∀ {calls}, Admissible calls →
      state (Machine.after step init calls) = (specAfter threshold cooldown calls).state)
    (hreply : ∀ {calls c}, Admissible (calls ++ [c]) → (step (Machine.after step init calls) c).2
      = ((specAfter threshold cooldown calls).call threshold cooldown c).2)
    {calls : List (Call T)} (hcalls : Admissible calls) :
    Lawful step state init threshold cooldown calls := by
  have hpre : ∀ {pre c post}, calls = pre ++ c :: post → Admissible (pre ++ [c]) := by
    rintro pre c post rfl
    refine ⟨hcalls.1.sublist ?_, lt_of_le_of_lt ?_ hcalls.2⟩
    · exact List.Sublist.append_left (List.cons_sublist_cons.mpr (List.nil_sublist post)) pre
    · rw [failureCount, failureCount, List.countP_append, List.countP_append,
        List.countP_cons, List.countP_cons, List.countP_nil]
      omega
  have hnext : ∀ {pre c}, Admissible (pre ++ [c]) → state (Machine.after step init (pre ++ [c]))
      = (specAfter threshold cooldown pre).next threshold cooldown c := by
    intro pre c hok
    rw [hstate hok, specAfter, Machine.after_concat]
    rfl
  refine ⟨fun pre c post hcalls' hclosed hleft ↦ ?_,
    fun pre c post hcalls' hopened hop t ht hearly ↦ ?_,
    fun pre c post hcalls' hhalf hop ↦ ?_⟩
  · have hok := hpre hcalls'
    rw [hstate hok.of_concat] at hclosed
    rw [hnext hok, Spec.next] at hleft
    rw [streak_concat]
    rcases hop : c.op with _ | _ | _ | _ | _ | _ | _
    all_goals rw [hop] at hleft
    · exact absurd rfl hleft
    · dsimp only at hleft ⊢
      refine ⟨rfl, ?_⟩
      by_contra hlt
      rw [(specAfter_sound threshold cooldown pre).1] at hleft
      exact hleft (if_pos ⟨hclosed, not_le.mp hlt⟩)
    · exact absurd rfl hleft
    all_goals simp [hclosed] at hleft
  · have hok := hpre hcalls'
    rw [hstate hok.of_concat] at hopened
    rw [hreply hok, Spec.call, hop]
    dsimp only
    rw [next_allowsRequest_eq hok hopened hop ht hearly]
    rfl
  · have hok := hpre hcalls'
    rw [hstate hok.of_concat] at hhalf
    rw [hnext hok, Spec.next, hop]
    dsimp only
    rw [if_neg (fun hand ↦ absurd (hhalf.symm.trans hand.1) (by simp))]

end Spec

section Equivalence

variable [IsOrderedAddMonoid T] {threshold : ℕ} {cooldown : WithTop T}

omit [IsOrderedAddMonoid T] in
theorem CircuitBreaker.lockstep (hpos : 1 ≤ threshold) {calls : List (Call T)}
    (hcalls : Admissible calls) :
    (Machine.after CircuitBreaker.call (.new threshold cooldown) calls).Implements threshold
        cooldown (specAfter threshold cooldown calls) ∧
      Machine.trace CircuitBreaker.call (.new threshold cooldown) calls
        = Machine.trace (Spec.call threshold cooldown) .new calls := by
  have hinit : (CircuitBreaker.new threshold cooldown : CircuitBreaker T).Implements threshold
      cooldown .new := ⟨rfl, rfl, rfl, rfl, fun t ht ↦ absurd ht (by simp [Spec.new, lastFailure])⟩
  refine And.imp_left And.left (Machine.trace_eq_of_lockstep Admissible.of_concat
    (fun _ (b : CircuitBreaker T) (m : Spec T) ↦
      b.Implements threshold cooldown m ∧ m.Sound threshold cooldown)
    ⟨hinit, (specAfter_sound threshold cooldown []).2⟩ ?_ hcalls)
  rintro is i b m - ⟨himpl, hsound⟩
  obtain ⟨hnext, hreply⟩ := himpl.call hsound hpos i
  exact ⟨⟨hnext, hsound.call i⟩, hreply⟩

theorem RustCircuitBreaker.lockstep (hfits : threshold < 2 ^ 32) {calls : List (Call T)}
    (hcalls : Admissible calls) :
    (Machine.after RustCircuitBreaker.call (.new threshold cooldown) calls).Implements threshold
        cooldown (specAfter threshold cooldown calls) ∧
      Machine.trace RustCircuitBreaker.call (.new threshold cooldown) calls
        = Machine.trace (Spec.call threshold cooldown) .new calls := by
  have hinit : (RustCircuitBreaker.new threshold cooldown : RustCircuitBreaker T).Implements
      threshold cooldown .new := ⟨UInt32.toNat_ofNat_of_lt hfits, rfl, rfl, rfl, rfl⟩
  refine And.imp_left And.left (Machine.trace_eq_of_lockstep Admissible.of_concat
    (fun is (b : RustCircuitBreaker T) (m : Spec T) ↦
      b.Implements threshold cooldown m ∧ m.history = is)
    ⟨hinit, rfl⟩ ?_ hcalls)
  rintro is i b m hok ⟨himpl, rfl⟩
  obtain ⟨hnext, hreply⟩ := himpl.call hok.fits fun t ↦ hok.lastFailure_le
  exact ⟨⟨hnext, rfl⟩, hreply⟩

/-- **The two breakers are equivalent, and lawful.** -/
theorem circuitBreakers_equivalent (hpos : 1 ≤ threshold) (hfits : threshold < 2 ^ 32)
    {calls : List (Call T)} (hclock : calls.Pairwise fun a b ↦ a.now ≤ b.now)
    (hfailures : failureCount calls < 2 ^ 32) :
    Machine.trace CircuitBreaker.call (.new threshold cooldown) calls
        = Machine.trace RustCircuitBreaker.call (.new threshold cooldown) calls ∧
      Lawful CircuitBreaker.call CircuitBreaker.state (.new threshold cooldown) threshold cooldown
        calls ∧
      Lawful RustCircuitBreaker.call RustCircuitBreaker.state (.new threshold cooldown) threshold
        cooldown calls := by
  have hcalls : Admissible calls := ⟨hclock, hfailures⟩
  refine ⟨?_, lawful_of_lockstep (fun h ↦ ?_) (fun h ↦ ?_) hcalls,
    lawful_of_lockstep (fun h ↦ ?_) (fun h ↦ ?_) hcalls⟩
  · exact (CircuitBreaker.lockstep hpos hcalls).2.trans
      (RustCircuitBreaker.lockstep hfits hcalls).2.symm
  · exact (CircuitBreaker.lockstep hpos h).1.state
  · exact ((CircuitBreaker.lockstep hpos h.of_concat).1.call
      (specAfter_sound threshold cooldown _).2 hpos _).2
  · exact (RustCircuitBreaker.lockstep hfits h).1.state
  · refine ((RustCircuitBreaker.lockstep hfits h.of_concat).1.call ?_ fun t ht ↦ ?_).2
    · rw [(specAfter_sound threshold cooldown _).1]
      exact h.fits
    · rw [(specAfter_sound threshold cooldown _).1] at ht
      exact h.lastFailure_le ht

/-- Two failures open a breaker with threshold two; it rejects until ten seconds have passed, is
half-open then, and opens again with the next failure. -/
def tripCalls : List (Call ℤ) :=
  [⟨1, .recordFailure⟩, ⟨2, .recordFailure⟩, ⟨11, .allowsRequest⟩, ⟨12, .toDict⟩,
    ⟨13, .recordFailure⟩, ⟨13, .state⟩]

theorem circuitBreakers_equivalent_tripCalls :
    Machine.trace CircuitBreaker.call (.new 2 ((10 : ℤ) : WithTop ℤ)) tripCalls
        = Machine.trace RustCircuitBreaker.call (.new 2 ((10 : ℤ) : WithTop ℤ)) tripCalls ∧
      Lawful CircuitBreaker.call CircuitBreaker.state (.new 2 ((10 : ℤ) : WithTop ℤ)) 2
        ((10 : ℤ) : WithTop ℤ) tripCalls ∧
      Lawful RustCircuitBreaker.call RustCircuitBreaker.state (.new 2 ((10 : ℤ) : WithTop ℤ)) 2
        ((10 : ℤ) : WithTop ℤ) tripCalls :=
  circuitBreakers_equivalent (by decide) (by decide) (by decide) (by decide)

end Equivalence

end Breaker

end ArgusMcp
