import ArgusMcp.Library.Run
import ArgusMcp.Library.SlidingWindow
import ArgusMcp.Library.TtlCache
import Mathlib.Algebra.Order.Field.Rat

/-!
# The rate limiter

Every request goes through the rate limiter first. A client that is locked out gets 429, and so does
one that has had its share of requests in the window; all other requests are passed on to the app.
When the app has answered 401 or 403, the failure goes into the log of the client, and a client with
too many failures in the window is locked out. What is kept about clients is kept in three caches,
each with its own lifetime: the requests, the failures, and the lockouts.

The app may take its time. A request that was passed on is suspended until the app returns or
raises, and any number of other requests may come in meanwhile. What the limiter does in between goes
through without interruption, at one reading of the clock. Clients are known by their address. The
state also records what cannot be seen from outside, in the caches or anywhere else: what was
answered to whom, and which failures there were.

The library behind the caches is open here. Two libraries that keep their entries make the limiter
behave alike (`Twin.run`), so that it can be looked at with the ideal one.
-/

namespace ArgusMcp

namespace RateLimit

open SlidingWindow TtlCache

/-- So many requests in so many seconds. -/
structure RateLimitRouteConfig where
  requests : ℕ
  windowSeconds : ℕ
  requests_mem : 1 ≤ requests ∧ requests ≤ 100000
  windowSeconds_mem : 1 ≤ windowSeconds ∧ windowSeconds ≤ 86400

structure RateLimitsConfig where
  default : RateLimitRouteConfig
  authLockoutThreshold : ℕ
  authLockoutWindowSeconds : ℕ
  authLockoutDurationSeconds : ℕ
  authLockoutThreshold_mem : 1 ≤ authLockoutThreshold ∧ authLockoutThreshold ≤ 1000
  authLockoutWindowSeconds_mem :
    10 ≤ authLockoutWindowSeconds ∧ authLockoutWindowSeconds ≤ 86400
  authLockoutDurationSeconds_mem :
    10 ≤ authLockoutDurationSeconds ∧ authLockoutDurationSeconds ≤ 86400

/-- Two requests and two failures in ten seconds. -/
def RateLimitsConfig.small : RateLimitsConfig where
  default := ⟨2, 10, by decide, by decide⟩
  authLockoutThreshold := 2
  authLockoutWindowSeconds := 10
  authLockoutDurationSeconds := 10
  authLockoutThreshold_mem := by decide
  authLockoutWindowSeconds_mem := by decide
  authLockoutDurationSeconds_mem := by decide

/-- What becomes of a request. -/
inductive Verdict where
  | forwarded
  | lockedOut
  | rateLimited
  deriving DecidableEq

structure Answer where
  client : String
  time : ℚ
  verdict : Verdict
  deriving DecidableEq

/-- A request to which the app answered 401 or 403. -/
structure Failure where
  client : String
  start : ℚ
  finish : ℚ

/-- The answers and the failures are listed with the newest first. -/
structure State (lib : TtlCacheLib String ℚ) where
  requestLog : lib.Cache (List ℚ)
  authFailureLog : lib.Cache (List ℚ)
  lockouts : lib.Cache Bool
  clock : ℚ
  suspended : List (String × ℚ)
  answers : List Answer
  failures : List Failure

inductive Action where
  | request (ip : String)
  | returned (ip : String) (start : ℚ) (capturedStatus : List ℕ)
  | raised (ip : String) (start : ℚ)

structure Event where
  time : ℚ
  action : Action

def Action.client : Action → String
  | .request ip => ip
  | .returned ip _ _ => ip
  | .raised ip _ => ip

/-- The addresses that requests come from. -/
def clients (events : List Event) : Finset String :=
  (events.map fun e ↦ e.action.client).toFinset

def maxsize : ℕ := 10000

variable {lib : TtlCacheLib String ℚ} (config : RateLimitsConfig)

def State.init (lib : TtlCacheLib String ℚ) (clock : ℚ) : State lib where
  requestLog := lib.new maxsize (config.default.windowSeconds * 2)
  authFailureLog := lib.new maxsize config.authLockoutWindowSeconds
  lockouts := lib.new maxsize config.authLockoutDurationSeconds
  clock := clock
  suspended := []
  answers := []
  failures := []

def State.isLockedOut (s : State lib) (ip : String) : Bool :=
  (lib.get? s.lockouts ip s.clock).isSome

def pruneWindow (timestamps : List ℚ) (windowStart : ℚ) : List ℚ := since timestamps windowStart

def State.checkRateLimit (s : State lib) (ip : String) : Bool × State lib :=
  let windowStart := s.clock - config.default.windowSeconds
  let timestamps := pruneWindow ((lib.get? s.requestLog ip s.clock).getD []) windowStart
  if config.default.requests ≤ timestamps.length then
    (false, { s with requestLog := lib.set s.requestLog ip timestamps s.clock })
  else
    (true, { s with requestLog := lib.set s.requestLog ip (timestamps ++ [s.clock]) s.clock })

def State.recordAuthFailure (s : State lib) (ip : String) (start : ℚ) : State lib :=
  let windowStart := start - config.authLockoutWindowSeconds
  let timestamps := pruneWindow ((lib.get? s.authFailureLog ip s.clock).getD []) windowStart
  let timestamps := timestamps ++ [start]
  let authFailureLog := lib.set s.authFailureLog ip timestamps s.clock
  if config.authLockoutThreshold ≤ timestamps.length then
    { s with
      lockouts := lib.set s.lockouts ip true s.clock
      authFailureLog := lib.pop authFailureLog ip s.clock }
  else
    { s with authFailureLog := authFailureLog }

def State.answer (s : State lib) (ip : String) (verdict : Verdict) : State lib :=
  { s with answers := ⟨ip, s.clock, verdict⟩ :: s.answers }

/-- What goes on before the app is called. -/
def State.request (s : State lib) (ip : String) : State lib :=
  if s.isLockedOut ip then
    s.answer ip .lockedOut
  else
    match s.checkRateLimit config ip with
    | (false, s) => s.answer ip .rateLimited
    | (true, s) => { s.answer ip .forwarded with suspended := (ip, s.clock) :: s.suspended }

/-- Only the first status that was sent counts. -/
def authFailed (capturedStatus : List ℕ) : Bool :=
  capturedStatus.head?.any fun status ↦ status = 401 || status = 403

/-- What goes on after the app has returned. -/
def State.returned (s : State lib) (ip : String) (start : ℚ) (capturedStatus : List ℕ) :
    State lib :=
  let s := { s with suspended := s.suspended.erase (ip, start) }
  if authFailed capturedStatus then
    { s.recordAuthFailure config ip start with failures := ⟨ip, start, s.clock⟩ :: s.failures }
  else
    s

/-- The clock does not go back, and only what is suspended can return or raise. -/
def step (s : State lib) (e : Event) : Option (State lib) :=
  if s.clock ≤ e.time then
    let s := { s with clock := e.time }
    match e.action with
    | .request ip => some (s.request config ip)
    | .returned ip start capturedStatus =>
      if (ip, start) ∈ s.suspended then some (s.returned config ip start capturedStatus) else none
    | .raised ip start =>
      if (ip, start) ∈ s.suspended then
        some { s with suspended := s.suspended.erase (ip, start) }
      else
        none
  else
    none

theorem clock_step {config : RateLimitsConfig} {s m : State lib} {e : Event}
    (hm : step config s e = some m) : s.clock ≤ e.time ∧ m.clock = e.time := by
  rw [step, Option.ite_none_right_eq_some] at hm
  obtain ⟨ht, hm⟩ := hm
  refine ⟨ht, ?_⟩
  rcases hact : e.action with ip | ⟨ip, start, capturedStatus⟩ | ⟨ip, start⟩
  · rw [hact] at hm
    obtain rfl := Option.some.inj hm
    rw [State.request, State.checkRateLimit]
    split
    · rfl
    · split
      · rename_i heq
        split at heq
        · obtain rfl := (Prod.mk.inj heq).2
          rfl
        · exact absurd (Prod.mk.inj heq).1 Bool.noConfusion
      · rename_i heq
        split at heq
        · exact absurd (Prod.mk.inj heq).1 Bool.noConfusion
        · obtain rfl := (Prod.mk.inj heq).2
          rfl
  · rw [hact] at hm
    obtain ⟨-, hm⟩ := Option.ite_none_right_eq_some.mp hm
    obtain rfl := Option.some.inj hm
    rw [State.returned, State.recordAuthFailure]
    split
    · split
      · rfl
      · rfl
    · rfl
  · rw [hact] at hm
    obtain ⟨-, hm⟩ := Option.ite_none_right_eq_some.mp hm
    obtain rfl := Option.some.inj hm
    rfl

/-! ## Two libraries -/

section Twin

variable {lib' : TtlCacheLib String ℚ} {config} {keys : Finset String} {s : State lib}
  {d : State lib'}

/-- The same has happened in both. -/
structure Twin (config : RateLimitsConfig) (keys : Finset String) (s : State lib)
    (d : State lib') : Prop where
  requestLog : Mirrors lib lib' maxsize (config.default.windowSeconds * 2) keys s.clock
    s.requestLog d.requestLog
  authFailureLog : Mirrors lib lib' maxsize config.authLockoutWindowSeconds keys s.clock
    s.authFailureLog d.authFailureLog
  lockouts : Mirrors lib lib' maxsize config.authLockoutDurationSeconds keys s.clock
    s.lockouts d.lockouts
  clock : d.clock = s.clock
  suspended : d.suspended = s.suspended
  answers : d.answers = s.answers
  failures : d.failures = s.failures

theorem twin_init (keys : Finset String) (clock : ℚ) :
    Twin config keys (State.init config lib clock) (State.init config lib' clock) :=
  ⟨mirrors_new keys clock, mirrors_new keys clock, mirrors_new keys clock, rfl, rfl, rfl, rfl⟩

theorem Twin.tick (h : Twin config keys s d) {t : ℚ} (ht : s.clock ≤ t) :
    Twin config keys { s with clock := t } { d with clock := t } :=
  ⟨h.requestLog.mono ht, h.authFailureLog.mono ht, h.lockouts.mono ht, rfl, h.suspended,
    h.answers, h.failures⟩

theorem Twin.answer (h : Twin config keys s d) (ip : String) (verdict : Verdict) :
    Twin config keys (s.answer ip verdict) (d.answer ip verdict) := by
  refine { h with answers := ?_ }
  rw [State.answer, State.answer, h.clock, h.answers]

variable (hlib : Keeps lib) (hlib' : Keeps lib') (hroom : keys.card ≤ maxsize)

include hlib hlib' hroom

theorem Twin.isLockedOut (h : Twin config keys s d) (ip : String) :
    d.isLockedOut ip = s.isLockedOut ip := by
  rw [State.isLockedOut, State.isLockedOut, h.clock, h.lockouts.get? hlib hlib' hroom]

theorem Twin.checkRateLimit (h : Twin config keys s d) {ip : String} (hip : ip ∈ keys) :
    (d.checkRateLimit config ip).1 = (s.checkRateLimit config ip).1 ∧
      Twin config keys (s.checkRateLimit config ip).2 (d.checkRateLimit config ip).2 := by
  rw [State.checkRateLimit, State.checkRateLimit, h.clock,
    ← h.requestLog.get? hlib hlib' hroom]
  split
  · exact ⟨rfl, { h with clock := rfl, requestLog := h.requestLog.set hip _ }⟩
  · exact ⟨rfl, { h with clock := rfl, requestLog := h.requestLog.set hip _ }⟩

theorem Twin.recordAuthFailure (h : Twin config keys s d) {ip : String} (hip : ip ∈ keys)
    (start : ℚ) :
    Twin config keys (s.recordAuthFailure config ip start)
      (d.recordAuthFailure config ip start) := by
  rw [State.recordAuthFailure, State.recordAuthFailure, h.clock,
    ← h.authFailureLog.get? hlib hlib' hroom]
  split
  · exact { h with
      clock := rfl
      authFailureLog := (h.authFailureLog.set hip _).pop hip
      lockouts := h.lockouts.set hip true }
  · exact { h with clock := rfl, authFailureLog := h.authFailureLog.set hip _ }

theorem Twin.request (h : Twin config keys s d) {ip : String} (hip : ip ∈ keys) :
    Twin config keys (s.request config ip) (d.request config ip) := by
  rw [State.request, State.request, h.isLockedOut hlib hlib' hroom]
  split
  · exact h.answer ip .lockedOut
  · obtain ⟨hfst, hsnd⟩ := h.checkRateLimit hlib hlib' hroom hip
    rcases hs : s.checkRateLimit config ip with ⟨_ | _, s'⟩
    · rcases hd : d.checkRateLimit config ip with ⟨_ | _, d'⟩
      · rw [hs, hd] at hsnd
        exact hsnd.answer ip .rateLimited
      · rw [hs, hd] at hfst
        exact absurd hfst Bool.noConfusion
    · rcases hd : d.checkRateLimit config ip with ⟨_ | _, d'⟩
      · rw [hs, hd] at hfst
        exact absurd hfst Bool.noConfusion
      · rw [hs, hd] at hsnd
        change Twin config keys s' d' at hsnd
        exact { hsnd.answer ip .forwarded with
          suspended := congrArg₂ _ (congrArg _ hsnd.clock) hsnd.suspended }

theorem Twin.returned (h : Twin config keys s d) {ip : String} (hip : ip ∈ keys) (start : ℚ)
    (capturedStatus : List ℕ) :
    Twin config keys (s.returned config ip start capturedStatus)
      (d.returned config ip start capturedStatus) := by
  have h' : Twin config keys { s with suspended := s.suspended.erase (ip, start) }
      { d with suspended := d.suspended.erase (ip, start) } :=
    { h with suspended := congrArg (List.erase · (ip, start)) h.suspended }
  rw [State.returned, State.returned]
  dsimp only
  split
  · refine { h'.recordAuthFailure hlib hlib' hroom hip start with failures := ?_ }
    rw [h.clock, h.failures]
  · exact h'

theorem Twin.step (h : Twin config keys s d) {e : Event} (he : e.action.client ∈ keys)
    {m : State lib} (hm : step config s e = some m) :
    ∃ m', RateLimit.step config d e = some m' ∧ Twin config keys m m' := by
  rw [RateLimit.step, Option.ite_none_right_eq_some] at hm
  obtain ⟨ht, hm⟩ := hm
  rw [RateLimit.step, h.clock, if_pos ht]
  have ht := h.tick ht
  rcases hact : e.action with ip | ⟨ip, start, capturedStatus⟩ | ⟨ip, start⟩
  · rw [hact] at hm he
    obtain rfl := Option.some.inj hm
    exact ⟨_, rfl, ht.request hlib hlib' hroom he⟩
  · rw [hact] at hm he
    obtain ⟨hmem, hm⟩ := Option.ite_none_right_eq_some.mp hm
    obtain rfl := Option.some.inj hm
    refine ⟨_, if_pos ?_, ht.returned hlib hlib' hroom he start capturedStatus⟩
    rw [ht.suspended]
    exact hmem
  · rw [hact] at hm
    obtain ⟨hmem, hm⟩ := Option.ite_none_right_eq_some.mp hm
    obtain rfl := Option.some.inj hm
    refine ⟨_, if_pos ?_, { ht with suspended := congrArg (List.erase · (ip, start)) h.suspended }⟩
    rw [ht.suspended]
    exact hmem

/-- Two libraries that keep their entries make the limiter behave alike, as long as there are not
more clients than there is room for. -/
theorem Twin.run (h : Twin config keys s d) {events : List Event} (hkeys : clients events ⊆ keys)
    {m : State lib} (hm : Run.run (RateLimit.step config) s events = some m) :
    ∃ m', Run.run (RateLimit.step config) d events = some m' ∧ Twin config keys m m' := by
  apply @Run.run_simulate _ _ _ _ _ _ (Twin config keys)
    (fun e e' ↦ e' = e ∧ e.action.client ∈ keys) _ _ _ _ _ _ hm h
  · apply List.forall₂_same.mpr
    intro e he
    exact ⟨rfl, hkeys (List.mem_toFinset.mpr (List.mem_map_of_mem he))⟩
  · rintro s d e _ m h ⟨rfl, he⟩ hm
    exact h.step hlib hlib' hroom he hm

end Twin

end RateLimit

end ArgusMcp
