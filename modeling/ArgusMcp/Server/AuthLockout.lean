import ArgusMcp.Server.RateLimit

/-!
# The lockout after failed authentication

Once enough requests of a client that started within a window of each other have failed, the client
should be locked out for a while, and then start afresh. `standing` goes through the failures and
keeps for each client which of them are pending, and when it was last to be locked out.

The log of the limiter is not as exact. Its entry expires a window after it was last written, which
is when a request finished, but the failures in it are stamped with the start of the request, so that
a failure may be lost that is still in the window. And when requests do not finish in the order in
which they started, a failure is pruned that a request with an earlier start would need, or one is
counted that started more than a window later.

## The condition

`Counted` asks for this not to matter when a request fails: if enough of the pending failures are not
older than the window, there must be enough in the log, and they must be within a window of each
other. In a run all of whose steps meet the condition, clients are locked out exactly when they
should (`locksOut_of_counted`).
-/

namespace ArgusMcp

namespace RateLimit

open SlidingWindow TtlCache

/-- Where a client stands: the starts of its failures since it was last to be locked out, and when
that was. -/
structure Standing where
  pending : List ℚ
  lockedAt : Option ℚ

variable (config : RateLimitsConfig)

/-- Enough failures in a window lock the client out. -/
def Standing.fail (st : Standing) (f : Failure) : Standing :=
  if Crowded config.authLockoutThreshold (config.authLockoutWindowSeconds : ℚ)
      (f.start :: st.pending) then
    ⟨[], some f.finish⟩
  else
    ⟨f.start :: st.pending, st.lockedAt⟩

def standing (client : String) : List Failure → Standing
  | [] => ⟨[], none⟩
  | f :: older =>
    if f.client = client then (standing client older).fail config f else standing client older

variable {lib : TtlCacheLib String ℚ}

/-- The lockout that was last due is not over. -/
def State.DueLockout (s : State lib) (client : String) (now : ℚ) : Prop :=
  ∃ w, (standing config client s.failures).lockedAt = some w ∧
    now < w + config.authLockoutDurationSeconds

/-- A request that comes in next is answered with a lockout if and only if one is due, and is then
not passed on. -/
def LocksOut (s : State lib) : Prop :=
  ∀ ip t m, s.clock ≤ t → step config s ⟨t, .request ip⟩ = some m →
    ∃ verdict, m.answers = ⟨ip, t, verdict⟩ :: s.answers ∧
      (verdict = .lockedOut ↔ s.DueLockout config ip t) ∧
      (verdict = .lockedOut → m.suspended = s.suspended)

/-- If the event has a request fail and enough pending failures are not too old, they have not been
lost from the log, and some window has them together. -/
def Counted (s : State lib) (e : Event) : Prop :=
  match e.action with
  | .returned ip start capturedStatus =>
    let pending := (standing config ip s.failures).pending
    let logged := (lib.get? s.authFailureLog ip e.time).getD []
    let windowStart := start - config.authLockoutWindowSeconds
    authFailed capturedStatus = true →
      config.authLockoutThreshold ≤ (pruneWindow pending windowStart).length + 1 →
        config.authLockoutThreshold ≤ (pruneWindow logged windowStart).length + 1 ∧
          Crowded config.authLockoutThreshold (config.authLockoutWindowSeconds : ℚ)
            (start :: pending)
  | _ => True

instance (s : State lib) (e : Event) : Decidable (Counted config s e) := by
  unfold Counted
  split <;> infer_instance

variable {config}

theorem standing_cons_self (f : Failure) (failures : List Failure) :
    standing config f.client (f :: failures) =
      (standing config f.client failures).fail config f := if_pos rfl

theorem standing_cons_of_ne {f : Failure} {client : String} (h : f.client ≠ client)
    (failures : List Failure) :
    standing config client (f :: failures) = standing config client failures := if_neg h

/-! ## What the caches hold -/

/-- The log holds pending failures only, which do not suffice to lock the client out, and the
lockout is the one that was due. -/
structure Tracks (config : RateLimitsConfig) (log : Option (List ℚ × ℚ))
    (lockout : Option (Bool × ℚ)) (st : Standing) : Prop where
  log : ((log.map Prod.fst).getD []).Sublist st.pending.reverse
  sparse : ¬ Crowded config.authLockoutThreshold (config.authLockoutWindowSeconds : ℚ) st.pending
  lockout : lockout = st.lockedAt.map fun w ↦ (true, w)

structure Tracked (config : RateLimitsConfig) (s : State (ideal String ℚ)) : Prop where
  lifetime : s.lockouts.ttl = config.authLockoutDurationSeconds
  tracks : ∀ ip, Tracks config (s.authFailureLog.entries ip) (s.lockouts.entries ip)
    (standing config ip s.failures)

variable {s m : State (ideal String ℚ)}

theorem tracked_init (clock : ℚ) : Tracked config (State.init config (ideal String ℚ) clock) := by
  refine ⟨rfl, fun ip ↦ ⟨List.Sublist.refl [], ?_, rfl⟩⟩
  rintro ⟨x, hx, -⟩
  exact absurd hx List.not_mem_nil

theorem Tracked.congr (h : Tracked config s) (hlog : m.authFailureLog = s.authFailureLog)
    (hlockouts : m.lockouts = s.lockouts) (hfailures : m.failures = s.failures) :
    Tracked config m := by
  obtain ⟨hlifetime, htracks⟩ := h
  rw [← hlockouts] at hlifetime htracks
  rw [← hlog, ← hfailures] at htracks
  exact ⟨hlifetime, htracks⟩

theorem Tracks.read {log : Option (List ℚ × ℚ)} {lockout : Option (Bool × ℚ)} {st : Standing}
    (h : Tracks config log lockout st) (ttl now : ℚ) :
    ((readAt ttl log now).getD []).Sublist st.pending.reverse := by
  rcases log with _ | ⟨l, written⟩
  · exact List.nil_sublist _
  · by_cases hlive : now < written + ttl
    · rw [readAt_of_lt hlive]
      exact h.log
    · rw [readAt_of_not_lt hlive]
      exact List.nil_sublist _

section Fail

variable {log : Option (List ℚ × ℚ)} {lockout : Option (Bool × ℚ)} {st : Standing} {f : Failure}
  {logged : List ℚ}
  (hcounted : config.authLockoutThreshold ≤
      (since st.pending (f.start - config.authLockoutWindowSeconds)).length + 1 →
    config.authLockoutThreshold ≤ logged.length + 1 ∧
      Crowded config.authLockoutThreshold (config.authLockoutWindowSeconds : ℚ)
        (f.start :: st.pending))

include hcounted

/-- Where the limiter locks the client out, it should. -/
theorem tracks_fail_of_le
    (hle : logged.length ≤ (since st.pending (f.start - config.authLockoutWindowSeconds)).length)
    (hlimit : config.authLockoutThreshold ≤ (logged ++ [f.start]).length) :
    Tracks config none (some (true, f.finish)) (st.fail config f) := by
  rw [List.length_append, List.length_singleton] at hlimit
  rw [Standing.fail, if_pos (hcounted (by omega)).2]
  refine ⟨List.Sublist.refl [], ?_, rfl⟩
  rintro ⟨x, hx, -⟩
  exact absurd hx List.not_mem_nil

/-- Where it does not, it should not. -/
theorem Tracks.fail_of_lt (h : Tracks config log lockout st)
    (hlogged : logged.Sublist st.pending.reverse)
    (hlimit : ¬ config.authLockoutThreshold ≤ (logged ++ [f.start]).length) :
    Tracks config (some (logged ++ [f.start], f.finish)) lockout (st.fail config f) := by
  rw [List.length_append, List.length_singleton] at hlimit
  have hsparse : ¬ Crowded config.authLockoutThreshold (config.authLockoutWindowSeconds : ℚ)
      (f.start :: st.pending) := by
    intro hcrowded
    have hlen := length_since_of_crowded (Nat.cast_nonneg _) hcrowded h.sparse
    exact hlimit (hcounted hlen).1
  rw [Standing.fail, if_neg hsparse]
  refine ⟨?_, hsparse, h.lockout⟩
  rw [List.reverse_cons]
  exact hlogged.append (List.Sublist.refl [f.start])

end Fail

theorem tracks_cons {log log' : Table String ℚ (List ℚ)} {lockouts lockouts' : Table String ℚ Bool}
    {failures : List Failure} {f : Failure}
    (h : ∀ ip, Tracks config (log.entries ip) (lockouts.entries ip) (standing config ip failures))
    (hself : Tracks config (log'.entries f.client) (lockouts'.entries f.client)
      ((standing config f.client failures).fail config f))
    (hlog : ∀ ip, ip ≠ f.client → log'.entries ip = log.entries ip)
    (hlockouts : ∀ ip, ip ≠ f.client → lockouts'.entries ip = lockouts.entries ip) (ip : String) :
    Tracks config (log'.entries ip) (lockouts'.entries ip)
      (standing config ip (f :: failures)) := by
  by_cases hip : ip = f.client
  · rw [hip, standing_cons_self]
    exact hself
  · rw [hlog ip hip, hlockouts ip hip, standing_cons_of_ne fun h ↦ hip h.symm]
    exact h ip

/-- Pending failures that are not lost from the log are counted once. -/
theorem Tracks.length_since_read {log : Option (List ℚ × ℚ)} {lockout : Option (Bool × ℚ)}
    {st : Standing} (h : Tracks config log lockout st) (ttl now windowStart : ℚ) :
    (since ((readAt ttl log now).getD []) windowStart).length ≤
      (since st.pending windowStart).length := by
  have hsub := (h.read ttl now).filter fun t ↦ decide (windowStart ≤ t)
  rw [List.filter_reverse] at hsub
  have hlen := hsub.length_le
  rwa [List.length_reverse] at hlen

theorem Tracked.returned (h : Tracked config s) {ip : String} {start : ℚ}
    {capturedStatus : List ℕ}
    (hcounted : Counted config s ⟨s.clock, .returned ip start capturedStatus⟩) :
    Tracked config (s.returned config ip start capturedStatus) := by
  rw [State.returned]
  split
  · rename_i hfailed
    have hcounted := hcounted hfailed
    rw [State.recordAuthFailure]
    split
    · rename_i hlimit
      refine ⟨h.lifetime, tracks_cons h.tracks ?_ (fun ip' hip' ↦ ?_) fun ip' hip' ↦ ?_⟩
      · dsimp only
        rw [entries_put_self, entries_put_self]
        exact @tracks_fail_of_le config _ ⟨ip, start, s.clock⟩ _ hcounted
          ((h.tracks ip).length_since_read _ _ _) hlimit
      · exact (entries_put_of_ne _ hip' _).trans (entries_put_of_ne _ hip' _)
      · exact entries_put_of_ne _ hip' _
    · rename_i hlimit
      refine ⟨h.lifetime, tracks_cons h.tracks ?_ (fun ip' hip' ↦ ?_) fun _ _ ↦ rfl⟩
      · dsimp only
        rw [entries_put_self]
        refine @Tracks.fail_of_lt config _ _ _ ⟨ip, start, s.clock⟩ _ hcounted (h.tracks ip) ?_ hlimit
        exact (since_sublist _ _).trans ((h.tracks ip).read _ _)
      · exact entries_put_of_ne _ hip' _
  · exact h.congr rfl rfl rfl

theorem tracked_request (h : Tracked config s) (ip : String) :
    Tracked config (s.request config ip) := by
  rw [State.request]
  split
  · exact h.congr rfl rfl rfl
  · rw [State.checkRateLimit]
    by_cases hlimit : config.default.requests ≤
        (pruneWindow (((ideal String ℚ).get? s.requestLog ip s.clock).getD [])
          (s.clock - config.default.windowSeconds)).length
    · rw [if_pos hlimit]
      exact h.congr rfl rfl rfl
    · rw [if_neg hlimit]
      exact h.congr rfl rfl rfl

theorem Tracked.step (h : Tracked config s) {e : Event} (hcounted : Counted config s e)
    (hm : step config s e = some m) : Tracked config m := by
  rw [RateLimit.step, Option.ite_none_right_eq_some] at hm
  obtain ⟨-, hm⟩ := hm
  have ht : Tracked config { s with clock := e.time } := h.congr rfl rfl rfl
  rcases hact : e.action with ip | ⟨ip, start, capturedStatus⟩ | ⟨ip, start⟩
  · rw [hact] at hm
    obtain rfl := Option.some.inj hm
    exact tracked_request ht ip
  · rw [hact] at hm
    obtain ⟨-, hm⟩ := Option.ite_none_right_eq_some.mp hm
    obtain rfl := Option.some.inj hm
    rw [Counted, hact] at hcounted
    exact ht.returned hcounted
  · rw [hact] at hm
    obtain ⟨-, hm⟩ := Option.ite_none_right_eq_some.mp hm
    obtain rfl := Option.some.inj hm
    exact ht.congr rfl rfl rfl

/-! ## Lockouts -/

theorem answers_request (s : State lib) (ip : String) :
    ∃ verdict, (s.request config ip).answers = ⟨ip, s.clock, verdict⟩ :: s.answers ∧
      (verdict = .lockedOut ↔ s.isLockedOut ip) ∧
      (verdict = .lockedOut → (s.request config ip).suspended = s.suspended) := by
  rw [State.request]
  split
  · rename_i hlocked
    exact ⟨.lockedOut, rfl, iff_of_true rfl hlocked, fun _ ↦ rfl⟩
  · rename_i hlocked
    rw [State.checkRateLimit]
    by_cases hlimit : config.default.requests ≤
        (pruneWindow ((lib.get? s.requestLog ip s.clock).getD [])
          (s.clock - config.default.windowSeconds)).length
    · rw [if_pos hlimit]
      exact ⟨.rateLimited, rfl, iff_of_false Verdict.noConfusion hlocked, fun h ↦ Verdict.noConfusion h⟩
    · rw [if_neg hlimit]
      exact ⟨.forwarded, rfl, iff_of_false Verdict.noConfusion hlocked, fun h ↦ Verdict.noConfusion h⟩

theorem Tracked.isLockedOut_iff (h : Tracked config s) (ip : String) :
    s.isLockedOut ip ↔ s.DueLockout config ip s.clock := by
  have hlockout := (h.tracks ip).lockout
  rw [State.isLockedOut, State.DueLockout]
  dsimp only
  rw [hlockout, h.lifetime]
  rcases (standing config ip s.failures).lockedAt with _ | w
  · simp [readAt]
  · simp [readAt]

/-- A limiter with any library that keeps its entries, next to the ideal one. -/
def Follows (config : RateLimitsConfig) (keys : Finset String) (s : State lib) : Prop :=
  ∃ d : State (ideal String ℚ), Twin config keys s d ∧ Tracked config d

theorem Follows.step (hlib : Keeps lib) {keys : Finset String} (hroom : keys.card ≤ maxsize)
    {s m : State lib} (h : Follows config keys s) {e : Event} (he : e.action.client ∈ keys)
    (hcounted : Counted config s e) (hm : step config s e = some m) : Follows config keys m := by
  obtain ⟨d, htwin, htracked⟩ := h
  obtain ⟨m', hm', htwin'⟩ := htwin.step hlib keeps_ideal hroom he hm
  refine ⟨m', htwin', htracked.step ?_ hm'⟩
  have htime := htwin.authFailureLog.mono (clock_step hm).1
  rw [Counted] at hcounted ⊢
  rcases hact : e.action with ip | ⟨ip, start, capturedStatus⟩ | ⟨ip, start⟩
  · trivial
  · rw [hact] at hcounted
    dsimp only at hcounted
    rw [htime.get? hlib keeps_ideal hroom, ← htwin.failures] at hcounted
    exact hcounted
  · trivial

theorem Follows.locksOut (hlib : Keeps lib) {keys : Finset String} (hroom : keys.card ≤ maxsize)
    {s : State lib} (h : Follows config keys s) : LocksOut config s := by
  obtain ⟨d, htwin, htracked⟩ := h
  intro ip t m ht hm
  rw [RateLimit.step, if_pos ht] at hm
  obtain rfl := Option.some.inj hm
  obtain ⟨verdict, hanswers, hlocked, hsuspended⟩ :=
    @answers_request config lib { s with clock := t } ip
  refine ⟨verdict, hanswers, hlocked.trans ?_, hsuspended⟩
  have htracked : Tracked config { d with clock := t } := htracked.congr rfl rfl rfl
  rw [← (htwin.tick ht).isLockedOut hlib keeps_ideal hroom, htracked.isLockedOut_iff,
    State.DueLockout, State.DueLockout, ← htwin.failures]

/-- **Lockouts.** In a run in which every failure is counted that should be, and none that should
not, a client is locked out if and only if enough of its requests that started within a window have
failed, and for as long as it should be. -/
theorem locksOut_of_counted (hlib : Keeps lib) {clock : ℚ} {events : List Event} {s : State lib}
    (hrun : Run.run (step config) (State.init config lib clock) events = some s)
    (hroom : (clients events).card ≤ 10000)
    (hcounted : Run.Guarded (step config) (Counted config) (State.init config lib clock) events) :
    LocksOut config s := by
  have hclients : ∀ e ∈ events, ∀ _ : State lib, e.action.client ∈ clients events :=
    fun e he _ ↦ List.mem_toFinset.mpr (List.mem_map_of_mem he)
  have hguard := (Run.guarded_of_forall_mem (State.init config lib clock) hclients).and hcounted
  have hinit : Follows config (clients events) (State.init config lib clock) :=
    ⟨_, twin_init _ clock, tracked_init clock⟩
  exact (Run.invariant_of_run (fun _ _ _ h hok hm ↦ h.step hlib hroom hok.1 hok.2 hm)
    hinit hguard hrun).locksOut hlib hroom

/-- The second failure comes twelve seconds after the first one, of a request that started seven
seconds earlier. -/
def slowFailure : List Event :=
  [⟨0, .request "10.0.0.1"⟩, ⟨0, .returned "10.0.0.1" 0 [401]⟩, ⟨5, .request "10.0.0.1"⟩,
    ⟨12, .returned "10.0.0.1" 5 [401]⟩]

/-- The first failure is lost from the log by then, and the client is let in. -/
theorem not_forall_locksOut : ¬ ∀ (lib : TtlCacheLib String ℚ) (config : RateLimitsConfig)
    (clock : ℚ) (events : List Event) (s : State lib), Keeps lib →
      Run.run (step config) (State.init config lib clock) events = some s →
        (clients events).card ≤ 10000 → LocksOut config s := by
  intro h
  have hrun := Run.run_eq_some_getD
    (show (Run.run (step .small) (.init .small (ideal String ℚ) 0) slowFailure).isSome by
      decide +kernel) (.init .small (ideal String ℚ) 0)
  obtain ⟨verdict, hanswers, hlocked, -⟩ := h (ideal String ℚ) .small 0 slowFailure _ keeps_ideal
    hrun (by decide +kernel) "10.0.0.1" 12 _ (by decide +kernel) (Option.some_get (by decide +kernel)).symm
  have hverdict := hlocked.mpr ⟨12, by decide +kernel, by decide +kernel⟩
  rw [hverdict] at hanswers
  exact absurd hanswers (by decide +kernel)

/-- Two failures of requests that follow one another, after which the client is locked out. -/
def quickFailures : List Event :=
  [⟨0, .request "10.0.0.1"⟩, ⟨1, .returned "10.0.0.1" 0 [401]⟩, ⟨5, .request "10.0.0.1"⟩,
    ⟨6, .returned "10.0.0.1" 5 [403]⟩]

theorem locksOut_of_counted_quickFailures : ∃ s : State (ideal String ℚ),
    Run.run (step .small) (.init .small (ideal String ℚ) 0) quickFailures = some s ∧
      s.DueLockout .small "10.0.0.1" 15 ∧ LocksOut .small s := by
  have hrun := Run.run_eq_some_getD
    (show (Run.run (step .small) (.init .small (ideal String ℚ) 0) quickFailures).isSome by
      decide +kernel) (.init .small (ideal String ℚ) 0)
  exact ⟨_, hrun, ⟨6, by decide +kernel, by decide +kernel⟩,
    locksOut_of_counted keeps_ideal hrun (by decide +kernel) (by decide +kernel)⟩

end RateLimit

end ArgusMcp
