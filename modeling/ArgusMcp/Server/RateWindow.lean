import ArgusMcp.Server.RateLimit
import Mathlib.Tactic.Linarith

/-!
# The sliding window of the rate limiter

The log of a client is pruned whenever the client is heard of, and its lifetime in the cache is
counted from then on. What can be read from it still is what was forwarded in the last window, no
more and no less (`Covers.read`): the lifetime is two windows, so that nothing expires in one.

Hence a request is forwarded exactly if fewer than the limit were in the window before it, and no
window can hold more. What other clients do has no part in it: for the answers to one client, it is
enough to run the limiter on what that client did.
-/

namespace ArgusMcp

namespace RateLimit

open SlidingWindow TtlCache

/-- When requests of the client were forwarded, the newest first. -/
def forwardedTimes (client : String) (answers : List Answer) : List ℚ :=
  (answers.filter fun a ↦ a.client = client ∧ a.verdict = .forwarded).map Answer.time

/-- What is answered to a client that is not locked out depends on the window before. -/
def Exact (config : RateLimitRouteConfig) (answers : List Answer) : Prop :=
  ∀ a older, a :: older <:+ answers → a.verdict ≠ .lockedOut →
    (a.verdict = .forwarded ↔
      countIn (forwardedTimes a.client older) (a.time - config.windowSeconds) a.time <
        config.requests)

variable {config : RateLimitsConfig} {client : String} {a : Answer} {answers : List Answer}

theorem forwardedTimes_cons_of_forwarded (hclient : a.client = client)
    (h : a.verdict = .forwarded) :
    forwardedTimes client (a :: answers) = a.time :: forwardedTimes client answers :=
  congrArg (List.map Answer.time) (List.filter_cons_of_pos (decide_eq_true ⟨hclient, h⟩))

theorem forwardedTimes_cons_of_not (h : ¬ (a.client = client ∧ a.verdict = .forwarded)) :
    forwardedTimes client (a :: answers) = forwardedTimes client answers :=
  congrArg (List.map Answer.time) (List.filter_cons_of_neg fun ha ↦ h (of_decide_eq_true ha))

theorem forall_mem_forwardedTimes {now : ℚ} (h : ∀ a ∈ answers, a.time ≤ now) :
    ∀ t ∈ forwardedTimes client answers, t ≤ now := by
  intro t ht
  obtain ⟨a, ha, rfl⟩ := List.mem_map.mp ht
  exact h a (List.mem_of_mem_filter ha)

/-! ## What the log holds -/

/-- An entry that was written at some time up to now, when the last of the times was over, holds
the same as they in every window from then on. -/
def Covers (window now : ℚ) (e : Option (List ℚ × ℚ)) (times : List ℚ) : Prop :=
  match e with
  | none => times = []
  | some (l, written) => written ≤ now ∧ (∀ t ∈ times, t ≤ written) ∧
      ∀ x, written - window ≤ x → since l x = since times.reverse x

variable {window now : ℚ} {e : Option (List ℚ × ℚ)} {times : List ℚ}

theorem Covers.mono (h : Covers window now e times) {now' : ℚ} (hle : now ≤ now') :
    Covers window now' e times := by
  rcases e with _ | ⟨l, written⟩
  · exact h
  · exact ⟨h.1.trans hle, h.2⟩

/-- **The log, pruned.** An entry that has expired is older than the window. -/
theorem Covers.read (h : Covers window now e times) (hwindow : 0 < window) :
    pruneWindow ((readAt (window * 2) e now).getD []) (now - window) =
      since times.reverse (now - window) := by
  rcases e with _ | ⟨l, written⟩
  · obtain rfl : times = [] := h
    rfl
  · obtain ⟨hwritten, htimes, hl⟩ := h
    by_cases hlive : now < written + window * 2
    · rw [readAt_of_lt hlive]
      exact hl _ (by linarith)
    · rw [readAt_of_not_lt hlive]
      refine (since_eq_nil fun t ht ↦ ?_).symm
      have := htimes t (List.mem_reverse.mp ht)
      linarith

theorem covers_pruned (htimes : ∀ t ∈ times, t ≤ now) :
    Covers window now (some (since times.reverse (now - window), now)) times :=
  ⟨le_rfl, htimes, fun _ hx ↦ since_since hx⟩

theorem covers_appended (htimes : ∀ t ∈ times, t ≤ now) :
    Covers window now (some (since times.reverse (now - window) ++ [now], now)) (now :: times) := by
  refine ⟨le_rfl, List.forall_mem_cons.mpr ⟨le_rfl, htimes⟩, fun x hx ↦ ?_⟩
  rw [since_append, since_since hx, List.reverse_cons, since_append]

theorem covers_put {c : Table String ℚ (List ℚ)} {times times' : String → List ℚ}
    (h : ∀ ip, Covers window now (c.entries ip) (times ip)) {client : String}
    (hclient : Covers window now e (times' client))
    (hother : ∀ ip, ip ≠ client → times' ip = times ip) (ip : String) :
    Covers window now ((c.put client e).entries ip) (times' ip) := by
  by_cases hip : ip = client
  · rw [hip, entries_put_self]
    exact hclient
  · rw [entries_put_of_ne c hip, hother ip hip]
    exact h ip

/-! ## What is answered -/

variable {s m : State (ideal String ℚ)}

theorem windowSeconds_pos : (0 : ℚ) < config.default.windowSeconds :=
  Nat.cast_pos.mpr config.default.windowSeconds_mem.1

/-- The answers are in order, what was forwarded is in the log, and so the answers are exact. -/
structure Logged (config : RateLimitsConfig) (s : State (ideal String ℚ)) : Prop where
  ordered : s.answers.Pairwise fun a b ↦ b.time ≤ a.time
  past : ∀ a ∈ s.answers, a.time ≤ s.clock
  lifetime : s.requestLog.ttl = config.default.windowSeconds * 2
  covers : ∀ ip, Covers config.default.windowSeconds s.clock (s.requestLog.entries ip)
    (forwardedTimes ip s.answers)
  exact : Exact config.default s.answers

theorem logged_init (clock : ℚ) : Logged config (State.init config (ideal String ℚ) clock) :=
  ⟨List.Pairwise.nil, fun _ h ↦ absurd h List.not_mem_nil, rfl, fun _ ↦ rfl, by
    intro a older h
    exact absurd (List.suffix_nil.mp h) (List.cons_ne_nil a older)⟩

theorem Logged.tick (h : Logged config s) {t : ℚ} (ht : s.clock ≤ t) :
    Logged config { s with clock := t } :=
  { h with
    past := fun a ha ↦ (h.past a ha).trans ht
    covers := fun ip ↦ (h.covers ip).mono ht }

theorem Logged.congr (h : Logged config s) (hlog : m.requestLog = s.requestLog)
    (hclock : m.clock = s.clock) (hanswers : m.answers = s.answers) : Logged config m := by
  obtain ⟨hordered, hpast, hlifetime, hcovers, hexact⟩ := h
  rw [← hlog] at hlifetime
  rw [← hlog, ← hclock, ← hanswers] at hcovers
  rw [← hanswers, ← hclock] at hpast
  rw [← hanswers] at hordered hexact
  exact ⟨hordered, hpast, hlifetime, hcovers, hexact⟩

theorem Exact.cons (h : Exact config.default answers) (ha : a.verdict ≠ .lockedOut →
    (a.verdict = .forwarded ↔ countIn (forwardedTimes a.client answers)
      (a.time - config.default.windowSeconds) a.time < config.default.requests)) :
    Exact config.default (a :: answers) := by
  intro b older hb
  rcases List.suffix_cons_iff.mp hb with hb | hb
  · obtain ⟨rfl, rfl⟩ := List.cons_eq_cons.mp hb
    exact ha
  · exact h b older hb

theorem Logged.answer (h : Logged config s) {ip : String} {verdict : Verdict}
    (hm : m = { s.answer ip verdict with requestLog := m.requestLog, suspended := m.suspended })
    (hlifetime : m.requestLog.ttl = s.requestLog.ttl)
    (hcovers : ∀ ip', Covers config.default.windowSeconds s.clock (m.requestLog.entries ip')
      (forwardedTimes ip' (⟨ip, s.clock, verdict⟩ :: s.answers)))
    (hexact : verdict ≠ .lockedOut → (verdict = .forwarded ↔
      countIn (forwardedTimes ip s.answers) (s.clock - config.default.windowSeconds) s.clock <
        config.default.requests)) : Logged config m := by
  rw [hm]
  refine ⟨?_, ?_, hlifetime.trans h.lifetime, hcovers, h.exact.cons hexact⟩
  · exact List.pairwise_cons.mpr ⟨h.past, h.ordered⟩
  · exact List.forall_mem_cons.mpr ⟨le_rfl, h.past⟩

theorem Logged.timestamps (h : Logged config s) (ip : String) :
    pruneWindow (((ideal String ℚ).get? s.requestLog ip s.clock).getD [])
      (s.clock - config.default.windowSeconds) =
        since (forwardedTimes ip s.answers).reverse (s.clock - config.default.windowSeconds) := by
  have hread := (h.covers ip).read windowSeconds_pos
  rwa [← h.lifetime] at hread

theorem Logged.length_timestamps (h : Logged config s) (ip : String) :
    (since (forwardedTimes ip s.answers).reverse
      (s.clock - config.default.windowSeconds)).length =
        countIn (forwardedTimes ip s.answers) (s.clock - config.default.windowSeconds) s.clock := by
  rw [since_reverse, List.length_reverse]
  exact length_since_eq_countIn (forall_mem_forwardedTimes h.past)

theorem Logged.request (h : Logged config s) (ip : String) :
    Logged config (s.request config ip) := by
  have hpast : ∀ t ∈ forwardedTimes ip s.answers, t ≤ s.clock := forall_mem_forwardedTimes h.past
  rw [State.request]
  split
  · refine h.answer rfl rfl (fun ip' ↦ ?_) fun hne ↦ absurd rfl hne
    rw [forwardedTimes_cons_of_not fun h ↦ Verdict.noConfusion h.2]
    exact h.covers ip'
  · rw [State.checkRateLimit, h.timestamps, h.length_timestamps]
    by_cases hlimit : config.default.requests ≤ countIn (forwardedTimes ip s.answers)
        (s.clock - config.default.windowSeconds) s.clock
    · rw [if_pos hlimit]
      refine h.answer rfl rfl (covers_put h.covers ?_ fun ip' _ ↦ ?_) fun _ ↦ ?_
      · rw [forwardedTimes_cons_of_not fun h ↦ Verdict.noConfusion h.2]
        exact covers_pruned hpast
      · exact forwardedTimes_cons_of_not fun h ↦ Verdict.noConfusion h.2
      · exact iff_of_false Verdict.noConfusion (Nat.not_lt.mpr hlimit)
    · rw [if_neg hlimit]
      refine h.answer rfl rfl (covers_put h.covers ?_ fun ip' hip' ↦ ?_) fun _ ↦ ?_
      · rw [forwardedTimes_cons_of_forwarded (a := ⟨ip, s.clock, .forwarded⟩) rfl rfl]
        exact covers_appended hpast
      · exact forwardedTimes_cons_of_not fun h ↦ hip' h.1.symm
      · exact iff_of_true rfl (Nat.not_le.mp hlimit)

theorem Logged.step (h : Logged config s) {ev : Event} (hm : step config s ev = some m) :
    Logged config m := by
  rw [RateLimit.step, Option.ite_none_right_eq_some] at hm
  obtain ⟨ht, hm⟩ := hm
  have ht := h.tick ht
  rcases hact : ev.action with ip | ⟨ip, start, capturedStatus⟩ | ⟨ip, start⟩
  · rw [hact] at hm
    obtain rfl := Option.some.inj hm
    exact ht.request ip
  · rw [hact] at hm
    obtain ⟨-, hm⟩ := Option.ite_none_right_eq_some.mp hm
    obtain rfl := Option.some.inj hm
    rw [State.returned]
    split
    · rw [State.recordAuthFailure]
      split
      · exact ht.congr rfl rfl rfl
      · exact ht.congr rfl rfl rfl
    · exact ht.congr rfl rfl rfl
  · rw [hact] at hm
    obtain ⟨-, hm⟩ := Option.ite_none_right_eq_some.mp hm
    obtain rfl := Option.some.inj hm
    exact ht.congr rfl rfl rfl

theorem logged_of_run {clock : ℚ} {events : List Event}
    (hrun : Run.run (RateLimit.step config) (State.init config (ideal String ℚ) clock) events =
      some s) : Logged config s :=
  Run.inv_of_run (fun _ _ _ h hm ↦ h.step hm) (logged_init clock) hrun

/-! ## No window holds more than the limit -/

/-- What was forwarded to one client came in when there was room for it. -/
theorem gated_of_exact (h : Exact config.default answers) :
    Gated config.default.requests (config.default.windowSeconds : ℚ)
      (forwardedTimes client answers) := by
  induction answers with
  | nil => trivial
  | cons a answers ih =>
    have ih := ih fun b older hb ↦ h b older (hb.trans (List.suffix_cons a answers))
    by_cases ha : a.client = client ∧ a.verdict = .forwarded
    · obtain ⟨rfl, ha⟩ := ha
      rw [forwardedTimes_cons_of_forwarded rfl ha]
      refine ⟨(h a answers List.suffix_rfl ?_).mp ha, ih⟩
      rw [ha]
      exact Verdict.noConfusion
    · rw [forwardedTimes_cons_of_not ha]
      exact ih

theorem ordered_forwardedTimes (h : answers.Pairwise fun a b ↦ b.time ≤ a.time) :
    (forwardedTimes client answers).Pairwise fun t t' ↦ t' ≤ t :=
  List.pairwise_map.mpr (h.sublist List.filter_sublist)

/-! ## What one client sees -/

/-- What there is of one client, at some time. -/
def State.only (s : State (ideal String ℚ)) (client : String) (t : ℚ) :
    State (ideal String ℚ) where
  requestLog := s.requestLog.only client
  authFailureLog := s.authFailureLog.only client
  lockouts := s.lockouts.only client
  clock := t
  suspended := s.suspended.filter fun r ↦ r.1 = client
  answers := s.answers.filter fun a ↦ a.client = client
  failures := s.failures.filter fun f ↦ f.client = client

section Only

variable (s) (client) {ip : String} {t : ℚ}

theorem isLockedOut_only :
    (s.only client s.clock).isLockedOut client = s.isLockedOut client :=
  congrArg Option.isSome (get?_only s.lockouts client s.clock)

theorem only_answer (verdict : Verdict) : (s.answer client verdict).only client s.clock =
    (s.only client s.clock).answer client verdict := by
  simp [State.only, State.answer]

theorem only_answer_of_ne (hip : ip ≠ client) (verdict : Verdict) :
    (s.answer ip verdict).only client t = s.only client t := by
  simp [State.only, State.answer, hip]

theorem only_request : (s.request config client).only client s.clock =
    (s.only client s.clock).request config client := by
  rw [State.request, State.request, isLockedOut_only]
  split
  · exact only_answer client s .lockedOut
  · have hclock : (s.only client s.clock).clock = s.clock := rfl
    have hread : (ideal String ℚ).get? (s.only client s.clock).requestLog client s.clock =
      (ideal String ℚ).get? s.requestLog client s.clock := get?_only s.requestLog client s.clock
    rw [State.checkRateLimit, State.checkRateLimit, hclock, hread]
    by_cases hlimit : config.default.requests ≤
        (pruneWindow (((ideal String ℚ).get? s.requestLog client s.clock).getD [])
          (s.clock - config.default.windowSeconds)).length
    · rw [if_pos hlimit, if_pos hlimit]
      simp [State.answer, State.only, only_put]
    · rw [if_neg hlimit, if_neg hlimit]
      simp [State.answer, State.only, only_put]

theorem only_request_of_ne (hip : ip ≠ client) :
    (s.request config ip).only client t = s.only client t := by
  rw [State.request]
  split
  · exact only_answer_of_ne client s hip .lockedOut
  · rw [State.checkRateLimit]
    by_cases hlimit : config.default.requests ≤
        (pruneWindow (((ideal String ℚ).get? s.requestLog ip s.clock).getD [])
          (s.clock - config.default.windowSeconds)).length
    · rw [if_pos hlimit]
      simp [State.answer, State.only, only_put_of_ne, hip]
    · rw [if_neg hlimit]
      simp [State.answer, State.only, only_put_of_ne, hip]

theorem only_recordAuthFailure (start : ℚ) :
    (s.recordAuthFailure config client start).only client s.clock =
      (s.only client s.clock).recordAuthFailure config client start := by
  have hclock : (s.only client s.clock).clock = s.clock := rfl
  have hread : (ideal String ℚ).get? (s.only client s.clock).authFailureLog client s.clock =
    (ideal String ℚ).get? s.authFailureLog client s.clock :=
      get?_only s.authFailureLog client s.clock
  rw [State.recordAuthFailure, State.recordAuthFailure, hclock, hread]
  dsimp only
  split
  · simp [State.only, only_put]
  · simp [State.only, only_put]

theorem only_recordAuthFailure_of_ne (hip : ip ≠ client) (start : ℚ) :
    (s.recordAuthFailure config ip start).only client t = s.only client t := by
  rw [State.recordAuthFailure]
  split
  · simp [State.only, only_put_of_ne, hip]
  · simp [State.only, only_put_of_ne, hip]

/-- The request that returns or raises is not suspended any longer. -/
theorem only_erase (start : ℚ) :
    { s with suspended := s.suspended.erase (client, start) }.only client t =
      { s.only client t with
        suspended := (s.only client t).suspended.erase (client, start) } :=
  congrArg (State.mk _ _ _ _ · _ _) List.erase_filter.symm

theorem only_erase_of_ne (hip : ip ≠ client) (start : ℚ) :
    { s with suspended := s.suspended.erase (ip, start) }.only client t = s.only client t := by
  refine congrArg (State.mk _ _ _ _ · _ _) (List.erase_filter.symm.trans (List.erase_of_not_mem ?_))
  rw [List.mem_filter, decide_eq_true_eq]
  exact fun h ↦ hip h.2

theorem only_returned (start : ℚ) (capturedStatus : List ℕ) :
    (s.returned config client start capturedStatus).only client s.clock =
      (s.only client s.clock).returned config client start capturedStatus := by
  rw [State.returned, State.returned, ← only_erase]
  split
  · have hfailures : (⟨client, start, s.clock⟩ :: s.failures).filter (fun f ↦ f.client = client) =
        ⟨client, start, s.clock⟩ :: (s.only client s.clock).failures :=
      List.filter_cons_of_pos (decide_eq_true rfl)
    have hrecord := @only_recordAuthFailure config client
      { s with suspended := s.suspended.erase (client, start) } start
    exact congrArg₂ (fun (s : State (ideal String ℚ)) l ↦ { s with failures := l }) hrecord hfailures
  · rfl

theorem only_returned_of_ne (hip : ip ≠ client) (start : ℚ) (capturedStatus : List ℕ) :
    (s.returned config ip start capturedStatus).only client t = s.only client t := by
  rw [State.returned]
  split
  · have hfailures : (⟨ip, start, s.clock⟩ :: s.failures).filter (fun f ↦ f.client = client) =
        (s.only client t).failures :=
      List.filter_cons_of_neg fun h ↦ hip (of_decide_eq_true h)
    have hrecord := (@only_recordAuthFailure_of_ne config client
      { s with suspended := s.suspended.erase (ip, start) } ip t hip start).trans
        (only_erase_of_ne client s hip start)
    exact congrArg₂ (fun (s : State (ideal String ℚ)) l ↦ { s with failures := l }) hrecord hfailures
  · exact only_erase_of_ne client s hip start

end Only

theorem only_step {ev : Event} {t : ℚ} (hm : RateLimit.step config s ev = some m)
    (hclient : ev.action.client = client) (ht : t ≤ s.clock) :
    RateLimit.step config (s.only client t) ev = some (m.only client ev.time) := by
  rw [RateLimit.step, Option.ite_none_right_eq_some] at hm
  obtain ⟨htime, hm⟩ := hm
  have hle : (s.only client t).clock ≤ ev.time := ht.trans htime
  rw [RateLimit.step, if_pos hle]
  rcases hact : ev.action with ip | ⟨ip, start, capturedStatus⟩ | ⟨ip, start⟩
  · rw [hact] at hm hclient
    obtain rfl := Option.some.inj hm
    obtain rfl : ip = client := hclient
    exact congrArg some (only_request ip { s with clock := ev.time }).symm
  · rw [hact] at hm hclient
    obtain ⟨hmem, hm⟩ := Option.ite_none_right_eq_some.mp hm
    obtain rfl := Option.some.inj hm
    obtain rfl : ip = client := hclient
    have hmem' : (ip, start) ∈ (s.only ip ev.time).suspended :=
      List.mem_filter.mpr ⟨hmem, decide_eq_true rfl⟩
    refine (if_pos hmem').trans (congrArg some ?_)
    exact (only_returned ip { s with clock := ev.time } start capturedStatus).symm
  · rw [hact] at hm hclient
    obtain ⟨hmem, hm⟩ := Option.ite_none_right_eq_some.mp hm
    obtain rfl := Option.some.inj hm
    obtain rfl : ip = client := hclient
    have hmem' : (ip, start) ∈ (s.only ip ev.time).suspended :=
      List.mem_filter.mpr ⟨hmem, decide_eq_true rfl⟩
    refine (if_pos hmem').trans (congrArg some ?_)
    exact (only_erase ip { s with clock := ev.time } start).symm

theorem only_step_of_ne {ev : Event} {t : ℚ} (hm : RateLimit.step config s ev = some m)
    (hclient : ev.action.client ≠ client) : m.only client t = s.only client t := by
  rw [RateLimit.step, Option.ite_none_right_eq_some] at hm
  obtain ⟨-, hm⟩ := hm
  rcases hact : ev.action with ip | ⟨ip, start, capturedStatus⟩ | ⟨ip, start⟩
  · rw [hact] at hm hclient
    obtain rfl := Option.some.inj hm
    exact only_request_of_ne client { s with clock := ev.time } hclient
  · rw [hact] at hm hclient
    obtain ⟨-, hm⟩ := Option.ite_none_right_eq_some.mp hm
    obtain rfl := Option.some.inj hm
    exact only_returned_of_ne client { s with clock := ev.time } hclient start capturedStatus
  · rw [hact] at hm hclient
    obtain ⟨-, hm⟩ := Option.ite_none_right_eq_some.mp hm
    obtain rfl := Option.some.inj hm
    exact only_erase_of_ne client { s with clock := ev.time } hclient start

/-- For one client, the limiter goes on as if there were no other. -/
theorem only_run {events : List Event} {t : ℚ}
    (hm : Run.run (RateLimit.step config) s events = some m) (ht : t ≤ s.clock) :
    ∃ t', Run.run (RateLimit.step config) (s.only client t)
      (events.filter fun e ↦ e.action.client = client) = some (m.only client t') := by
  induction events generalizing s t with
  | nil =>
    obtain rfl := Option.some.inj hm
    exact ⟨t, rfl⟩
  | cons ev events ih =>
    obtain ⟨n, hn, hm⟩ := Run.run_cons_eq_some.mp hm
    obtain ⟨htime, hclock⟩ := clock_step hn
    by_cases hclient : ev.action.client = client
    · obtain ⟨t', ht'⟩ := ih hm hclock.ge
      have hfilter : (ev :: events).filter (fun e ↦ e.action.client = client) =
          ev :: events.filter fun e ↦ e.action.client = client :=
        List.filter_cons_of_pos (decide_eq_true hclient)
      rw [hfilter]
      exact ⟨t', Run.run_cons_eq_some.mpr ⟨_, only_step hn hclient ht, ht'⟩⟩
    · obtain ⟨t', ht'⟩ := ih hm (ht.trans (htime.trans hclock.ge))
      have hfilter : (ev :: events).filter (fun e ↦ e.action.client = client) =
          events.filter fun e ↦ e.action.client = client :=
        List.filter_cons_of_neg fun h ↦ hclient (of_decide_eq_true h)
      rw [only_step_of_ne hn hclient, ← hfilter] at ht'
      exact ⟨t', ht'⟩

/-! ## Exactness -/

variable {lib : TtlCacheLib String ℚ}

/-- **The window is exact.** A request of a client that is not locked out is forwarded if and only if
fewer than the limit were forwarded to it in the window before; no window holds more than the limit;
and what is answered to a client does not depend on what the others do. -/
theorem sliding_window_exact (hlib : Keeps lib) {clock : ℚ} {events : List Event} {s : State lib}
    (hrun : Run.run (step config) (State.init config lib clock) events = some s)
    (hroom : (clients events).card ≤ 10000) :
    (∀ a older, a :: older <:+ s.answers → a.verdict ≠ .lockedOut →
      (a.verdict = .forwarded ↔
        countIn (forwardedTimes a.client older) (a.time - config.default.windowSeconds) a.time <
          config.default.requests)) ∧
    (∀ client x, countIn (forwardedTimes client s.answers) x (x + config.default.windowSeconds) ≤
      config.default.requests) ∧
    ∀ client events' s', Run.run (step config) (State.init config lib clock) events' = some s' →
      (clients events').card ≤ 10000 →
      (events'.filter fun e ↦ e.action.client = client) =
        (events.filter fun e ↦ e.action.client = client) →
      (s'.answers.filter fun a ↦ a.client = client) =
        (s.answers.filter fun a ↦ a.client = client) := by
  have hideal : ∀ {events : List Event} {s : State lib},
      Run.run (step config) (State.init config lib clock) events = some s →
      (clients events).card ≤ 10000 → ∃ d, d.answers = s.answers ∧
        Run.run (RateLimit.step config) (State.init config (ideal String ℚ) clock) events =
          some d := by
    intro events s hrun hroom
    obtain ⟨d, hd, htwin⟩ := Twin.run hlib keeps_ideal hroom (twin_init _ clock)
      (Finset.Subset.refl (clients events)) hrun
    exact ⟨d, htwin.answers, hd⟩
  obtain ⟨d, hanswers, hd⟩ := hideal hrun hroom
  have hlogged := logged_of_run hd
  rw [← hanswers]
  refine ⟨hlogged.exact, fun client x ↦ ?_, fun client events' s' hrun' hroom' heq ↦ ?_⟩
  · exact countIn_le_of_gated (ordered_forwardedTimes hlogged.ordered) (gated_of_exact hlogged.exact) x
  · obtain ⟨d', hanswers', hd'⟩ := hideal hrun' hroom'
    obtain ⟨t, ht⟩ := @only_run config client _ _ _ clock hd le_rfl
    obtain ⟨t', ht'⟩ := @only_run config client _ _ _ clock hd' le_rfl
    rw [heq, ht, Option.some.injEq] at ht'
    rw [← hanswers']
    exact (congrArg State.answers ht').symm

/-- The third one is too many. -/
def fourRequests : List Event :=
  [⟨0, .request "10.0.0.1"⟩, ⟨10, .request "10.0.0.1"⟩, ⟨10, .request "10.0.0.1"⟩,
    ⟨11, .request "10.0.0.1"⟩]

theorem sliding_window_exact_fourRequests : ∃ s : State (ideal String ℚ),
    Run.run (step .small) (.init .small (ideal String ℚ) 0) fourRequests = some s ∧
    s.answers = [⟨"10.0.0.1", 11, .forwarded⟩, ⟨"10.0.0.1", 10, .rateLimited⟩,
      ⟨"10.0.0.1", 10, .forwarded⟩, ⟨"10.0.0.1", 0, .forwarded⟩] ∧
    ∀ x, countIn (forwardedTimes "10.0.0.1" s.answers) x
      (x + RateLimitsConfig.small.default.windowSeconds) ≤ 2 := by
  have hrun := Run.run_eq_some_getD
    (show (Run.run (step .small) (.init .small (ideal String ℚ) 0) fourRequests).isSome by
      decide +kernel) (.init .small (ideal String ℚ) 0)
  exact ⟨_, hrun, by decide +kernel,
    (sliding_window_exact keeps_ideal hrun (by decide +kernel)).2.1 "10.0.0.1"⟩

end RateLimit

end ArgusMcp
