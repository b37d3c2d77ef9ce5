import ArgusMcp.Library.ExtRat
import Mathlib.Algebra.Order.Field.Basic
import Mathlib.Data.List.Range
import Mathlib.Tactic.FieldSimp
import Mathlib.Tactic.Linarith
import Mathlib.Tactic.Positivity

/-!
# Requests that are sent again

`RetryManager` sends a request again, up to a number of times, when it fails in a way that may pass:
with an error of the transport, or with a status that says so. Between two attempts it waits, for as
long as `Retry-After` says, or else for a time that grows with each attempt, with some jitter.

What becomes of a request is decided by the first attempt that is not repeated (`execute_eq`). Times
are exact here. The header is read by `float`, which is a parameter.

## Waits

A wait is cut to `max_delay`, and so is the time that the jitter is added to, but not what comes of
it: it can be longer by the jitter (`disciplined_iff`).
-/

namespace ArgusMcp

namespace Retry

/-! ## Outcomes -/

structure Response where
  status : ℤ
  retryAfter : Option String
  deriving DecidableEq

/-- What comes of sending a request: an `httpx.HTTPError`, or a response. -/
inductive Outcome (ε : Type) where
  | transportError (exc : ε)
  | response (r : Response)

def retryableStatusCodes : List ℤ := [408, 429, 502, 503, 504]

def nonRetryableStatusCodes : List ℤ := [400, 401, 403, 404]

/-- What `execute` ends with. The last one is the `raise` behind the loop. -/
inductive Result (ε : Type) where
  | returned (r : Response)
  | nonRetryableError (statusCode : ℤ) (message : String)
  | retriesExhaustedError (lastStatus : ℤ) (attempts : ℕ)
  | httpError (exc : ε)
  | fallback (lastStatus : ℤ) (attempts : ℕ)

/-- The requests that were sent, how long it waited after them, and what it ended with. -/
structure Execution (ε : Type) where
  requests : ℕ
  waits : List ℚ
  result : Result ε

/-! ## The manager -/

structure RetryManager where
  maxRetries : ℕ
  baseDelay : ℚ
  backoffFactor : ℚ
  maxDelay : ℚ
  jitter : ℚ

/-- What the attempts meet: the outcome of each and a random number between 0 and 1, and how the
header is read. -/
structure World (ε : Type) where
  outcome : ℕ → Outcome ε
  random : ℕ → ℚ
  /-- `float(raw)`, unless it raises. -/
  float : String → Option ExtRat

def uniform (a b random : ℚ) : ℚ := a + (b - a) * random

namespace RetryManager

variable (m : RetryManager)

/-- The delay of an attempt, before the jitter. -/
def cappedDelay (attempt : ℕ) : ℚ :=
  min (m.baseDelay * m.backoffFactor ^ (attempt - 1)) m.maxDelay

def jitteredDelay (attempt : ℕ) (random : ℚ) : ℚ :=
  let delay := m.cappedDelay attempt
  let jitterAmount := delay * m.jitter
  max (1 / 100) (delay + uniform (-jitterAmount) jitterAmount random)

/-- `_wait`. No comparison with `nan` is true. -/
def wait (attempt : ℕ) (retryAfter : Option ExtRat) (random : ℚ) : ℚ :=
  match retryAfter with
  | some (.fin q) => if 0 < q then min q m.maxDelay else m.jitteredDelay attempt random
  | some .inf => m.maxDelay
  | _ => m.jitteredDelay attempt random

end RetryManager

def parseRetryAfter (float : String → Option ExtRat) (r : Response) : Option ExtRat :=
  r.retryAfter.bind float

section Execute

variable {ε : Type} (w : World ε) (m : RetryManager)

/-- One attempt more, and the wait behind it. -/
def Execution.after (e : Execution ε) (wait : ℚ) : Execution ε :=
  { e with requests := e.requests + 1, waits := wait :: e.waits }

/-- The loop of `execute`, with the attempts that are left. -/
def loop : List ℕ → ℤ → Execution ε
  | [], lastStatus => ⟨0, [], .fallback lastStatus (m.maxRetries + 1)⟩
  | attempt :: rest, lastStatus =>
    match w.outcome attempt with
    | .transportError exc =>
      if m.maxRetries < attempt then ⟨1, [], .httpError exc⟩
      else (loop rest lastStatus).after (m.wait attempt none (w.random attempt))
    | .response r =>
      if 200 ≤ r.status ∧ r.status < 300 then ⟨1, [], .returned r⟩
      else if r.status ∈ nonRetryableStatusCodes then
        ⟨1, [], .nonRetryableError r.status s!"Non-retryable HTTP {r.status}"⟩
      else if r.status ∈ retryableStatusCodes then
        if m.maxRetries < attempt then ⟨1, [], .retriesExhaustedError r.status attempt⟩
        else (loop rest r.status).after
          (m.wait attempt (parseRetryAfter w.float r) (w.random attempt))
      else ⟨1, [], .nonRetryableError r.status s!"Unexpected HTTP {r.status}"⟩

def execute : Execution ε := loop w m (List.range' 1 (m.maxRetries + 1)) 0

end Execute

/-! ## What a run comes to -/

section Runs

variable {ε : Type} (w : World ε) (m : RetryManager)

/-- An outcome that is not repeated in any case. -/
def Outcome.Decisive : Outcome ε → Prop
  | transportError _ => False
  | response r => r.status ∉ retryableStatusCodes

def Retried (attempt : ℕ) : Prop := attempt ≤ m.maxRetries ∧ ¬ (w.outcome attempt).Decisive

instance Outcome.instDecidable : DecidablePred (Outcome.Decisive (ε := ε))
  | transportError _ => .isFalse id
  | response r => inferInstanceAs (Decidable (r.status ∉ retryableStatusCodes))

instance instDecidableRetried : DecidablePred (Retried w m) :=
  fun _ ↦ inferInstanceAs (Decidable (_ ∧ _))

/-- What the last attempt ends with. -/
def verdict (attempt : ℕ) : Result ε :=
  match w.outcome attempt with
  | .transportError exc => .httpError exc
  | .response r =>
    if 200 ≤ r.status ∧ r.status < 300 then .returned r
    else if r.status ∈ nonRetryableStatusCodes then
      .nonRetryableError r.status s!"Non-retryable HTTP {r.status}"
    else if r.status ∈ retryableStatusCodes then .retriesExhaustedError r.status attempt
    else .nonRetryableError r.status s!"Unexpected HTTP {r.status}"

/-- What the response asks for, if there is one. -/
def asked (float : String → Option ExtRat) : Outcome ε → Option ExtRat
  | .transportError _ => none
  | .response r => parseRetryAfter float r

/-- How long it waits after an attempt. -/
def waitAfter (attempt : ℕ) : ℚ :=
  m.wait attempt (asked w.float (w.outcome attempt)) (w.random attempt)

/-- The attempt is the first one with an outcome that is not repeated. -/
def FirstDecisive (attempt : ℕ) : Prop :=
  1 ≤ attempt ∧ (w.outcome attempt).Decisive ∧
    ∀ i, 1 ≤ i → i < attempt → ¬ (w.outcome i).Decisive

/-- What is promised of the requests and of how a run ends. -/
structure Settled : Prop where
  requests : (execute w m).requests ≤ m.maxRetries + 1
  returned : ∀ r, (execute w m).result = .returned r ↔
    ∃ k, k ≤ m.maxRetries + 1 ∧ FirstDecisive w k ∧ w.outcome k = .response r ∧
      200 ≤ r.status ∧ r.status < 300
  nonRetryableError : (∃ status message, (execute w m).result =
      .nonRetryableError status message) ↔
    ∃ k r, k ≤ m.maxRetries + 1 ∧ FirstDecisive w k ∧ w.outcome k = .response r ∧
      ¬ (200 ≤ r.status ∧ r.status < 300)
  exhausted : (∀ k, k ≤ m.maxRetries + 1 → ¬ FirstDecisive w k) →
    (∃ exc, w.outcome (m.maxRetries + 1) = .transportError exc ∧
      (execute w m).result = .httpError exc) ∨
    ∃ r, w.outcome (m.maxRetries + 1) = .response r ∧
      (execute w m).result = .retriesExhaustedError r.status (m.maxRetries + 1)
  fallback : ∀ status attempts, (execute w m).result ≠ .fallback status attempts

/-- What is promised of a run. -/
structure Disciplined : Prop extends Settled w m where
  waits : ∀ delay ∈ (execute w m).waits, 0 < delay ∧ delay ≤ m.maxDelay

variable {w m}

theorem not_final_of_retryable {r : Response} (h : r.status ∈ retryableStatusCodes) :
    ¬ (200 ≤ r.status ∧ r.status < 300) ∧ r.status ∉ nonRetryableStatusCodes := by
  simp only [retryableStatusCodes, nonRetryableStatusCodes, List.mem_cons, List.not_mem_nil,
    or_false] at h ⊢
  omega

theorem loop_cons_of_retried {attempt : ℕ} (h : Retried w m attempt) (rest : List ℕ)
    (lastStatus : ℤ) : ∃ status, loop w m (attempt :: rest) lastStatus =
      (loop w m rest status).after (waitAfter w m attempt) := by
  obtain ⟨hle, hdecisive⟩ := h
  rw [loop, waitAfter]
  rcases houtcome : w.outcome attempt with exc | r
  · exact ⟨lastStatus, if_neg (not_lt_of_ge hle)⟩
  · have hretryable : r.status ∈ retryableStatusCodes := by
      rw [houtcome] at hdecisive
      exact not_not.mp hdecisive
    obtain ⟨hsuccess, hfatal⟩ := not_final_of_retryable hretryable
    refine ⟨r.status, ?_⟩
    dsimp only
    rw [if_neg hsuccess, if_neg hfatal, if_pos hretryable, if_neg (not_lt_of_ge hle)]
    rfl

theorem loop_cons_of_not_retried {attempt : ℕ} (h : ¬ Retried w m attempt) (rest : List ℕ)
    (lastStatus : ℤ) : loop w m (attempt :: rest) lastStatus = ⟨1, [], verdict w attempt⟩ := by
  rw [loop, verdict]
  rcases houtcome : w.outcome attempt with exc | r
  · have hlt : m.maxRetries < attempt := by
      by_contra hle
      exact h ⟨not_lt.mp hle, by rw [houtcome]; exact id⟩
    exact if_pos hlt
  · dsimp only
    split
    · rfl
    · split
      · rfl
      · split
        · rename_i hretryable
          have hlt : m.maxRetries < attempt := by
            by_contra hle
            exact h ⟨not_lt.mp hle, by rw [houtcome]; exact not_not_intro hretryable⟩
          exact if_pos hlt
        · rfl

theorem requests_loop_le (l : List ℕ) (lastStatus : ℤ) :
    (loop w m l lastStatus).requests ≤ l.length := by
  induction l generalizing lastStatus with
  | nil => exact le_rfl
  | cons attempt rest ih =>
    by_cases h : Retried w m attempt
    · obtain ⟨status, heq⟩ := loop_cons_of_retried h rest lastStatus
      rw [heq, List.length_cons]
      exact Nat.succ_le_succ (ih status)
    · rw [loop_cons_of_not_retried h, List.length_cons]
      exact Nat.le_add_left 1 _

theorem waits_loop (l : List ℕ) (lastStatus : ℤ) :
    (loop w m l lastStatus).waits =
      (l.takeWhile fun attempt ↦ decide (Retried w m attempt)).map (waitAfter w m) := by
  induction l generalizing lastStatus with
  | nil => rfl
  | cons attempt rest ih =>
    by_cases h : Retried w m attempt
    · obtain ⟨status, heq⟩ := loop_cons_of_retried h rest lastStatus
      have hkeep := List.takeWhile_cons_of_pos (p := fun k ↦ decide (Retried w m k)) (l := rest)
        (decide_eq_true h)
      rw [heq, hkeep, List.map_cons, ← ih status]
      rfl
    · have hdrop := List.takeWhile_cons_of_neg (p := fun k ↦ decide (Retried w m k)) (l := rest)
        (mt of_decide_eq_true h)
      rw [loop_cons_of_not_retried h, hdrop]
      rfl

theorem result_loop {l : List ℕ} {attempt : ℕ}
    (h : l.find? (fun k ↦ !decide (Retried w m k)) = some attempt) (lastStatus : ℤ) :
    (loop w m l lastStatus).result = verdict w attempt := by
  induction l generalizing lastStatus with
  | nil => exact absurd h (by simp)
  | cons k rest ih =>
    by_cases hk : Retried w m k
    · obtain ⟨status, heq⟩ := loop_cons_of_retried hk rest lastStatus
      rw [List.find?_cons_of_neg (by simpa using hk)] at h
      rw [heq]
      exact ih h status
    · rw [List.find?_cons_of_pos (by simpa using hk)] at h
      rw [loop_cons_of_not_retried hk, Option.some.inj h]

theorem mem_takeWhile_range' {p : ℕ → Bool} {s n k : ℕ} :
    k ∈ (List.range' s n).takeWhile p ↔
      (s ≤ k ∧ k < s + n) ∧ ∀ i, s ≤ i → i ≤ k → p i = true := by
  induction n generalizing s with
  | zero =>
    refine iff_of_false (by simp) ?_
    rintro ⟨hk, -⟩
    omega
  | succ n ih =>
    rw [List.range'_succ]
    by_cases hs : p s = true
    · rw [List.takeWhile_cons_of_pos hs, List.mem_cons, ih]
      constructor
      · rintro (rfl | ⟨hk, hall⟩)
        · refine ⟨by omega, fun i hle hge ↦ ?_⟩
          rwa [le_antisymm hge hle]
        · refine ⟨by omega, fun i hle hge ↦ ?_⟩
          rcases Nat.eq_or_lt_of_le hle with rfl | hlt
          · exact hs
          · exact hall i hlt hge
      · rintro ⟨hk, hall⟩
        rcases Nat.eq_or_lt_of_le hk.1 with heq | hlt
        · exact Or.inl heq.symm
        · exact Or.inr ⟨by omega, fun i hle hge ↦ hall i (by omega) hge⟩
    · rw [List.takeWhile_cons_of_neg hs]
      refine iff_of_false List.not_mem_nil ?_
      rintro ⟨hk, hall⟩
      exact hs (hall s le_rfl hk.1)

/-- The attempt that decides is the first one that is not repeated. -/
theorem result_execute {k : ℕ} (hpos : 1 ≤ k) (hle : k ≤ m.maxRetries + 1)
    (hlast : ¬ Retried w m k) (hfirst : ∀ i, 1 ≤ i → i < k → Retried w m i) :
    (execute w m).result = verdict w k := by
  refine result_loop (List.find?_range'_eq_some.mpr ⟨?_, ?_, fun i hi hlt ↦ ?_⟩) 0
  · simpa using hlast
  · exact List.mem_range'_1.mpr ⟨hpos, by omega⟩
  · simpa using hfirst i hi hlt

theorem result_of_firstDecisive {k : ℕ} (hle : k ≤ m.maxRetries + 1) (h : FirstDecisive w k) :
    (execute w m).result = verdict w k := by
  obtain ⟨hpos, hdecisive, hfirst⟩ := h
  refine result_execute hpos hle (fun hretried ↦ hretried.2 hdecisive) fun i hi hlt ↦ ?_
  exact ⟨by omega, hfirst i hi hlt⟩

theorem result_of_not_firstDecisive (h : ∀ k, k ≤ m.maxRetries + 1 → ¬ FirstDecisive w k) :
    (execute w m).result = verdict w (m.maxRetries + 1) ∧
      ¬ (w.outcome (m.maxRetries + 1)).Decisive := by
  have hall : ∀ k, 1 ≤ k → k ≤ m.maxRetries + 1 → ¬ (w.outcome k).Decisive := by
    intro k
    induction k using Nat.strong_induction_on with
    | _ k ih =>
      intro hpos hle hdecisive
      exact h k hle ⟨hpos, hdecisive, fun i hi hlt ↦ ih i hlt hi (by omega)⟩
  refine ⟨?_, hall _ (by omega) le_rfl⟩
  refine result_execute (by omega) le_rfl (fun hretried ↦ ?_) fun i hi hlt ↦ ?_
  · have hle := hretried.1
    omega
  · exact ⟨by omega, hall i hi (by omega)⟩

theorem verdict_of_decisive {k : ℕ} {r : Response} (houtcome : w.outcome k = .response r)
    (h : (w.outcome k).Decisive) :
    (200 ≤ r.status ∧ r.status < 300 ∧ verdict w k = .returned r) ∨
      ¬ (200 ≤ r.status ∧ r.status < 300) ∧
        ∃ message, verdict w k = .nonRetryableError r.status message := by
  have hnot : r.status ∉ retryableStatusCodes := by rwa [houtcome] at h
  rw [verdict, houtcome]
  dsimp only
  by_cases hsuccess : 200 ≤ r.status ∧ r.status < 300
  · exact Or.inl ⟨hsuccess.1, hsuccess.2, if_pos hsuccess⟩
  · rw [if_neg hsuccess]
    refine Or.inr ⟨hsuccess, ?_⟩
    by_cases hfatal : r.status ∈ nonRetryableStatusCodes
    · exact ⟨_, if_pos hfatal⟩
    · rw [if_neg hfatal, if_neg hnot]
      exact ⟨_, rfl⟩

theorem verdict_of_not_decisive {k : ℕ} (h : ¬ (w.outcome k).Decisive) :
    (∃ exc, w.outcome k = .transportError exc ∧ verdict w k = .httpError exc) ∨
      ∃ r, w.outcome k = .response r ∧ verdict w k = .retriesExhaustedError r.status k := by
  rw [verdict]
  rcases houtcome : w.outcome k with exc | r
  · exact Or.inl ⟨exc, rfl, rfl⟩
  · have hretryable : r.status ∈ retryableStatusCodes := by
      rw [houtcome] at h
      exact not_not.mp h
    obtain ⟨hsuccess, hfatal⟩ := not_final_of_retryable hretryable
    refine Or.inr ⟨r, rfl, ?_⟩
    dsimp only
    rw [if_neg hsuccess, if_neg hfatal, if_pos hretryable]

theorem result_cases :
    (∃ k r, k ≤ m.maxRetries + 1 ∧ FirstDecisive w k ∧ w.outcome k = .response r ∧
      ((200 ≤ r.status ∧ r.status < 300 ∧ (execute w m).result = .returned r) ∨
        ¬ (200 ≤ r.status ∧ r.status < 300) ∧
          ∃ message, (execute w m).result = .nonRetryableError r.status message)) ∨
    (∀ k, k ≤ m.maxRetries + 1 → ¬ FirstDecisive w k) ∧
      ((∃ exc, w.outcome (m.maxRetries + 1) = .transportError exc ∧
        (execute w m).result = .httpError exc) ∨
      ∃ r, w.outcome (m.maxRetries + 1) = .response r ∧
        (execute w m).result = .retriesExhaustedError r.status (m.maxRetries + 1)) := by
  by_cases h : ∃ k, k ≤ m.maxRetries + 1 ∧ FirstDecisive w k
  · obtain ⟨k, hle, hk⟩ := h
    rcases houtcome : w.outcome k with exc | r
    · have hdecisive := hk.2.1
      rw [houtcome] at hdecisive
      exact absurd hdecisive id
    · refine Or.inl ⟨k, r, hle, hk, houtcome, ?_⟩
      rw [result_of_firstDecisive hle hk]
      exact verdict_of_decisive houtcome hk.2.1
  · have hnone : ∀ k, k ≤ m.maxRetries + 1 → ¬ FirstDecisive w k :=
      fun k hle hk ↦ h ⟨k, hle, hk⟩
    obtain ⟨hresult, hlast⟩ := result_of_not_firstDecisive hnone
    rw [hresult]
    exact Or.inr ⟨hnone, verdict_of_not_decisive hlast⟩

end Runs

/-! ## How long it waits -/

/-- A header that is honoured. -/
def Positive : Option ExtRat → Prop
  | some (.fin q) => 0 < q
  | some .inf => True
  | _ => False

section Delays

variable {m : RetryManager}

theorem wait_of_not_positive {retryAfter : Option ExtRat} (h : ¬ Positive retryAfter)
    (attempt : ℕ) (random : ℚ) :
    m.wait attempt retryAfter random = m.jitteredDelay attempt random := by
  rcases retryAfter with _ | q | _ | _ | _
  · rfl
  · exact if_neg h
  · exact absurd trivial h
  · rfl
  · rfl

theorem jitteredDelay_eq (attempt : ℕ) (random : ℚ) : m.jitteredDelay attempt random =
    max (1 / 100) (m.cappedDelay attempt * (1 + m.jitter * (2 * random - 1))) := by
  rw [RetryManager.jitteredDelay, uniform]
  ring_nf

variable (hmax : 1 / 100 ≤ m.maxDelay)

include hmax

theorem wait_of_positive {retryAfter : Option ExtRat} (h : Positive retryAfter)
    (attempt : ℕ) (random : ℚ) : 0 < m.wait attempt retryAfter random ∧
      m.wait attempt retryAfter random ≤ m.maxDelay := by
  have hpos : 0 < m.maxDelay := by linarith
  rcases retryAfter with _ | q | _ | _ | _
  · exact absurd h id
  · have hwait : m.wait attempt (some (.fin q)) random = min q m.maxDelay := if_pos h
    rw [hwait]
    exact ⟨lt_min h hpos, min_le_right _ _⟩
  · exact ⟨hpos, le_rfl⟩
  · exact absurd h id
  · exact absurd h id

theorem wait_pos (attempt : ℕ) (retryAfter : Option ExtRat) (random : ℚ) :
    0 < m.wait attempt retryAfter random := by
  by_cases h : Positive retryAfter
  · exact (wait_of_positive hmax h attempt random).1
  · rw [wait_of_not_positive h, RetryManager.jitteredDelay]
    exact lt_max_of_lt_left (by norm_num)

variable (hjitter : 0 ≤ m.jitter)

include hjitter

/-- **What the jitter adds** has to fit below the bound, unless there is none. -/
theorem jitteredDelay_le (hone : m.jitter ≤ 1) {attempt : ℕ} {random : ℚ} (hzero : 0 ≤ random)
    (hlt : random < 1) (h : m.jitter = 0 ∨
      m.baseDelay * m.backoffFactor ^ (attempt - 1) * (1 + m.jitter) ≤ m.maxDelay) :
    m.jitteredDelay attempt random ≤ m.maxDelay := by
  rw [jitteredDelay_eq]
  refine max_le hmax ?_
  have hcap : m.cappedDelay attempt ≤ m.maxDelay := min_le_right _ _
  have hdelay : m.cappedDelay attempt ≤ m.baseDelay * m.backoffFactor ^ (attempt - 1) :=
    min_le_left _ _
  rcases h with hnone | hfits
  · rw [hnone, zero_mul, add_zero, mul_one]
    exact hcap
  · have hlow : 0 ≤ 1 + m.jitter * (2 * random - 1) := by nlinarith
    have hhigh : 1 + m.jitter * (2 * random - 1) ≤ 1 + m.jitter := by nlinarith
    rcases le_total (m.cappedDelay attempt) 0 with hneg | hpos
    · have hle := mul_nonpos_of_nonpos_of_nonneg hneg hlow
      linarith
    · calc m.cappedDelay attempt * (1 + m.jitter * (2 * random - 1))
          ≤ m.cappedDelay attempt * (1 + m.jitter) := mul_le_mul_of_nonneg_left hhigh hpos
        _ ≤ m.baseDelay * m.backoffFactor ^ (attempt - 1) * (1 + m.jitter) :=
          mul_le_mul_of_nonneg_right hdelay (by linarith)
        _ ≤ m.maxDelay := hfits

theorem exists_lt_jitteredDelay {attempt : ℕ} (hne : m.jitter ≠ 0)
    (h : m.maxDelay < m.baseDelay * m.backoffFactor ^ (attempt - 1) * (1 + m.jitter)) :
    ∃ random, 0 ≤ random ∧ random < 1 ∧ m.maxDelay < m.jitteredDelay attempt random := by
  have hpos : 0 < m.jitter := lt_of_le_of_ne hjitter hne.symm
  have hmaxPos : 0 < m.maxDelay := by linarith
  -- what is cut to the bound is above zero, and above the bound with the jitter
  have hcapPos : 0 < m.cappedDelay attempt := by
    refine lt_min ?_ hmaxPos
    by_contra hle
    have hle := mul_nonpos_of_nonpos_of_nonneg (not_lt.mp hle) (by linarith : 0 ≤ 1 + m.jitter)
    linarith
  have hcap : m.cappedDelay attempt ≤ m.maxDelay := min_le_right _ _
  have hover : m.maxDelay < m.cappedDelay attempt * (1 + m.jitter) := by
    rw [RetryManager.cappedDelay]
    rcases min_choice (m.baseDelay * m.backoffFactor ^ (attempt - 1)) m.maxDelay with heq | heq
    · rw [heq]
      exact h
    · rw [heq]
      nlinarith
  -- close enough to one, half of the excess is left
  obtain ⟨t, ht⟩ : ∃ t, t = (m.cappedDelay attempt * (1 + m.jitter) - m.maxDelay) /
      (4 * m.jitter * m.cappedDelay attempt) := ⟨_, rfl⟩
  have hden : 0 < 4 * m.jitter * m.cappedDelay attempt := by positivity
  have htpos : 0 < t := by
    rw [ht]
    exact div_pos (by linarith) hden
  have htle : t ≤ 1 := by
    rw [ht, div_le_one hden]
    nlinarith
  have hmul : t * (4 * m.jitter * m.cappedDelay attempt) =
      m.cappedDelay attempt * (1 + m.jitter) - m.maxDelay := by
    rw [ht, div_mul_cancel₀ _ hden.ne']
  refine ⟨1 - t, by linarith, by linarith, ?_⟩
  rw [jitteredDelay_eq]
  refine lt_max_of_lt_right ?_
  nlinarith

end Delays

/-! ## The discipline -/

section Discipline

variable {ε : Type} {outcome : ℕ → Outcome ε} {float : String → Option ExtRat} {m : RetryManager}

theorem mem_waits_iff {w : World ε} {delay : ℚ} : delay ∈ (execute w m).waits ↔
    ∃ k, 1 ≤ k ∧ k ≤ m.maxRetries ∧ (∀ i, 1 ≤ i → i ≤ k → ¬ (w.outcome i).Decisive) ∧
      waitAfter w m k = delay := by
  rw [execute, waits_loop, List.mem_map]
  refine exists_congr fun k ↦ ?_
  rw [mem_takeWhile_range']
  constructor
  · rintro ⟨⟨⟨hpos, -⟩, hall⟩, heq⟩
    refine ⟨hpos, (of_decide_eq_true (hall k hpos le_rfl)).1, fun i hi hle ↦ ?_, heq⟩
    exact (of_decide_eq_true (hall i hi hle)).2
  · rintro ⟨hpos, hle, hall, heq⟩
    refine ⟨⟨⟨hpos, by omega⟩, fun i hi hik ↦ decide_eq_true ⟨?_, hall i hi hik⟩⟩, heq⟩
    omega

/-- **Everything but the length of the waits** is as promised. -/
theorem settled (w : World ε) (m : RetryManager) : Settled w m where
  requests := by
    have hle := requests_loop_le (w := w) (m := m) (List.range' 1 (m.maxRetries + 1)) 0
    rwa [List.length_range'] at hle
  returned r := by
    constructor
    · intro hreturned
      rcases result_cases (w := w) (m := m) with ⟨k, r', hle, hk, houtcome, hcases⟩ | ⟨-, hcases⟩
      · rcases hcases with ⟨hlow, hhigh, hresult⟩ | ⟨-, message, hresult⟩
        · rw [hresult] at hreturned
          obtain rfl := Result.returned.inj hreturned
          exact ⟨k, hle, hk, houtcome, hlow, hhigh⟩
        · exact absurd (hresult.symm.trans hreturned) (by simp)
      · rcases hcases with ⟨exc, -, hresult⟩ | ⟨r', -, hresult⟩
        · exact absurd (hresult.symm.trans hreturned) (by simp)
        · exact absurd (hresult.symm.trans hreturned) (by simp)
    · rintro ⟨k, hle, hk, houtcome, hsuccess⟩
      rw [result_of_firstDecisive hle hk, verdict, houtcome]
      exact if_pos hsuccess
  nonRetryableError := by
    constructor
    · rintro ⟨status, message, hraised⟩
      rcases result_cases (w := w) (m := m) with ⟨k, r, hle, hk, houtcome, hcases⟩ | ⟨-, hcases⟩
      · rcases hcases with ⟨-, -, hresult⟩ | ⟨hnot, -⟩
        · exact absurd (hresult.symm.trans hraised) (by simp)
        · exact ⟨k, r, hle, hk, houtcome, hnot⟩
      · rcases hcases with ⟨exc, -, hresult⟩ | ⟨r, -, hresult⟩
        · exact absurd (hresult.symm.trans hraised) (by simp)
        · exact absurd (hresult.symm.trans hraised) (by simp)
    · rintro ⟨k, r, hle, hk, houtcome, hnot⟩
      rw [result_of_firstDecisive hle hk]
      rcases verdict_of_decisive houtcome hk.2.1 with ⟨hlow, hhigh, -⟩ | ⟨-, message, hverdict⟩
      · exact absurd ⟨hlow, hhigh⟩ hnot
      · exact ⟨r.status, message, hverdict⟩
  exhausted hnone := by
    rcases result_cases (w := w) (m := m) with ⟨k, r, hle, hk, -⟩ | ⟨-, hcases⟩
    · exact absurd hk (hnone k hle)
    · exact hcases
  fallback status attempts hfallback := by
    rcases result_cases (w := w) (m := m) with ⟨k, r, -, -, -, hcases⟩ | ⟨-, hcases⟩
    · rcases hcases with ⟨-, -, hresult⟩ | ⟨-, message, hresult⟩
      · exact absurd (hresult.symm.trans hfallback) (by simp)
      · exact absurd (hresult.symm.trans hfallback) (by simp)
    · rcases hcases with ⟨exc, -, hresult⟩ | ⟨r, -, hresult⟩
      · exact absurd (hresult.symm.trans hfallback) (by simp)
      · exact absurd (hresult.symm.trans hfallback) (by simp)

/-- **When every run is as promised.** The requests and the end of a run always are. The waits are,
where `max_delay` is at least a hundredth, exactly if, for every attempt that is repeated and has no
`Retry-After` above zero, there is no jitter or room for it below the bound. -/
theorem disciplined_iff (hjitter : 0 ≤ m.jitter) (hone : m.jitter ≤ 1) :
    (∀ random, Settled ⟨outcome, random, float⟩ m) ∧
    (1 / 100 ≤ m.maxDelay →
      ((∀ random : ℕ → ℚ, (∀ k, 0 ≤ random k ∧ random k < 1) →
        Disciplined ⟨outcome, random, float⟩ m) ↔
      ∀ k, 1 ≤ k → k ≤ m.maxRetries → (∀ i, 1 ≤ i → i ≤ k → ¬ (outcome i).Decisive) →
        ¬ Positive (asked float (outcome k)) → m.jitter = 0 ∨
          m.baseDelay * m.backoffFactor ^ (k - 1) * (1 + m.jitter) ≤ m.maxDelay)) := by
  refine ⟨fun random ↦ settled _ m, fun hmax ↦ ?_⟩
  constructor
  · intro h k hpos hle hall hasked
    by_contra hfits
    rw [not_or, not_le] at hfits
    obtain ⟨random, hzero, hlt, hover⟩ := exists_lt_jitteredDelay hmax hjitter hfits.1 hfits.2
    have hrun := h (fun _ ↦ random) fun _ ↦ ⟨hzero, hlt⟩
    have hmem := mem_waits_iff (w := ⟨outcome, fun _ ↦ random, float⟩).mpr
      ⟨k, hpos, hle, hall, rfl⟩
    have hbound := (hrun.waits _ hmem).2
    rw [waitAfter, wait_of_not_positive hasked] at hbound
    exact absurd hover (not_lt_of_ge hbound)
  · intro h random hrandom
    refine ⟨settled _ m, fun delay hdelay ↦ ?_⟩
    obtain ⟨k, hpos, hle, hall, rfl⟩ := mem_waits_iff.mp hdelay
    refine ⟨wait_pos hmax _ _ _, ?_⟩
    rw [waitAfter]
    by_cases hasked : Positive (asked float (outcome k))
    · exact (wait_of_positive hmax hasked k (random k)).2
    · rw [wait_of_not_positive hasked]
      exact jitteredDelay_le hmax hjitter hone (hrandom k).1 (hrandom k).2
        (h k hpos hle hall hasked)

/-- One request fails with 503, and the next one does not. -/
def failsOnce : ℕ → Outcome Unit
  | 1 => .response ⟨503, none⟩
  | _ => .response ⟨200, none⟩

theorem disciplined_failsOnce :
    Disciplined ⟨failsOnce, fun _ ↦ 1 / 2, fun _ ↦ none⟩ ⟨3, 1, 2, 60, 1 / 2⟩ := by
  refine ((disciplined_iff (by norm_num) (by norm_num)).2 (by norm_num)).mpr ?_ (fun _ ↦ 1 / 2)
    fun _ ↦ by norm_num
  intro k hpos hle hall _
  have hone : k = 1 := by
    by_contra hne
    refine hall 2 (by omega) (by omega) ?_
    change (200 : ℤ) ∉ retryableStatusCodes
    decide
  rw [hone]
  norm_num

/-- A wait of seventy-five seconds, where sixty is the bound. -/
theorem not_disciplined_failsOnce :
    ¬ Disciplined ⟨failsOnce, fun _ ↦ 3 / 4, fun _ ↦ none⟩ ⟨3, 60, 2, 60, 1 / 2⟩ := by
  intro h
  have hwait : waitAfter ⟨failsOnce, fun _ ↦ 3 / 4, fun _ ↦ none⟩ ⟨3, 60, 2, 60, 1 / 2⟩ 1 = 75 := by
    norm_num [waitAfter, failsOnce, asked, parseRetryAfter, RetryManager.wait,
      RetryManager.jitteredDelay, RetryManager.cappedDelay, uniform]
  have hmem := mem_waits_iff (w := ⟨failsOnce, fun _ ↦ 3 / 4, fun _ ↦ none⟩)
    (m := ⟨3, 60, 2, 60, 1 / 2⟩).mpr ⟨1, le_rfl, by norm_num, fun i hi hle ↦ ?_, hwait⟩
  · have hbound := (h.waits 75 hmem).2
    norm_num at hbound
  · rw [le_antisymm hle hi]
    change ¬ (503 : ℤ) ∉ retryableStatusCodes
    decide

end Discipline

end Retry

end ArgusMcp
