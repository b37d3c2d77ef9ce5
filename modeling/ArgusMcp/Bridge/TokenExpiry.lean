import ArgusMcp.Bridge.Tokens
import Mathlib.Algebra.Order.Field.Basic

/-!
# Tokens that have expired

A token should not be handed out after the lifetime that was reported with it. The memory keeps it
for that lifetime less a buffer, the file together with the time it was written at, and `load` does
not return a token from the file that is within a minute of its end.

What `load` returns, though, is put into memory with the whole lifetime once more, as if it had just
been issued. And a lifetime of zero is not a lifetime to `load` but a missing number, so such a
token is returned at any time.

## The condition

`Timely` asks for these two not to matter at the moment a file is read, and for a token that has
just been written to be returned while it lives. `sound_iff_timely` says that this is exactly what
is needed, not only for the tokens that were handed out but for those that a call coming in next
would be given.
-/

namespace ArgusMcp

namespace Tokens

/-- No token was handed out after its end, and none would be if a call came in next. -/
def Sound (p : Provider) (s : State) : Prop :=
  ∀ t, s.clock ≤ t → ∀ d ∈ ({ s with clock := t }.getHeaders p .request).deliveries,
    d.time ≤ d.grant.endOfLife

/-- A token from the file may be kept for its whole lifetime from now on. -/
def Saved.Recent (data : Saved) (expiryBuffer now : ℚ) : Prop :=
  (data.grant.expiresIn = 0 ∨ data.savedAt = 0 → now ≤ data.savedAt + data.grant.expiresIn) ∧
    (data.grant.expiresIn ≤ expiryBuffer ∨ now ≤ data.savedAt + expiryBuffer)

/-- If the event has a call read a token that counts as valid, the token is recent. If it ends the
writing of a token, the token lives. -/
def Timely (p : Provider) (s : State) (e : Event) : Prop :=
  s.clock ≤ e.time →
    match e.action with
    | .loaded i true => ∀ c data, s.calls[i]? = some c → c.stage = .loading →
        s.file = .record data → ¬ data.Expired e.time → data.grant.accessToken ≠ "" →
          data.Recent p.expiryBuffer e.time
    | .saved i _ => ∀ c data, s.calls[i]? = some c → c.stage = .saving data → c.origin ≠ .reauth →
        e.time ≤ data.savedAt + data.grant.expiresIn
    | _ => True

theorem Stage.saving_of_data {stage : Stage} {data : Saved} (h : stage.data = some data) :
    stage = .saving data := by
  cases stage with
  | saving data' => rw [Option.some.inj h]
  | _ => exact absurd h.symm (Option.some_ne_none data)

instance (data : Saved) (expiryBuffer now : ℚ) : Decidable (data.Recent expiryBuffer now) :=
  inferInstanceAs (Decidable (_ ∧ _))

instance (p : Provider) (s : State) : DecidablePred (Timely p s)
  | ⟨t, .loaded i true⟩ =>
    match hfile : s.file with
    | .record data =>
      decidable_of_iff (s.clock ≤ t → ∀ c ∈ s.calls[i]?, c.stage = .loading → ¬ data.Expired t →
          data.grant.accessToken ≠ "" → data.Recent p.expiryBuffer t)
        (by simp [Timely, hfile])
    | .missing => isTrue (by simp [Timely, hfile])
    | .corrupt => isTrue (by simp [Timely, hfile])
  | ⟨t, .saved i _⟩ =>
    decidable_of_iff (s.clock ≤ t → ∀ c ∈ s.calls[i]?, ∀ data ∈ c.stage.data, c.origin ≠ .reauth →
        t ≤ data.savedAt + data.grant.expiresIn)
      ⟨fun h ht c data hc hsaving ↦ h ht c hc data (hsaving ▸ rfl),
        fun h ht c hc data hdata ↦ h ht c data hc (Stage.saving_of_data hdata)⟩
  | ⟨_, .loaded _ false⟩ => isTrue fun _ ↦ trivial
  | ⟨_, .getHeaders _⟩ => isTrue fun _ ↦ trivial
  | ⟨_, .triggerReauth⟩ => isTrue fun _ ↦ trivial
  | ⟨_, .acquire⟩ => isTrue fun _ ↦ trivial
  | ⟨_, .replied _ _⟩ => isTrue fun _ ↦ trivial
  | ⟨_, .answered _ _⟩ => isTrue fun _ ↦ trivial
  | ⟨_, .invalidate⟩ => isTrue fun _ ↦ trivial
  | ⟨_, .restart _⟩ => isTrue fun _ ↦ trivial

/-- The lifetime that is reported with a token is not negative. -/
def Event.Reported (e : Event) : Prop :=
  match e.action with
  | .replied _ (.granted tokens) => 0 ≤ tokens.expiresIn
  | _ => True

instance : DecidablePred Event.Reported := fun e ↦ by
  unfold Event.Reported
  split <;> infer_instance

/-! ## Soundness, read off the memory -/

/-- The memory gives nobody a token after its end. -/
def CacheSound (p : Provider) (s : State) : Prop :=
  ∀ t, s.clock ≤ t → ∀ g, { s with clock := t }.cached p = some g → t ≤ g.endOfLife

variable {p : Provider} {s : State}

theorem deliveries_getHeaders : (s.getHeaders p .request).deliveries =
    ((s.cached p).toList.map fun g ↦ ⟨s.calls.length, g, s.clock⟩) ++ s.deliveries := by
  rw [State.getHeaders]
  split
  · rename_i g hg
    rw [State.deliveries_deliver (State.getElem?_push .request), if_neg Origin.noConfusion, hg]
    rfl
  · rename_i hg
    have hnone : (s.push .request).cached p = none := hg
    rw [State.lockOrWait, hg]
    split
    · rfl
    · rw [State.enter, if_neg Origin.noConfusion, hnone]
      rfl

theorem sound_split_iff : Sound p s ↔
    (∀ d ∈ s.deliveries, d.time ≤ d.grant.endOfLife) ∧ CacheSound p s := by
  constructor
  · intro h
    constructor
    · intro d hd
      apply h s.clock le_rfl
      rw [deliveries_getHeaders]
      exact List.mem_append_right _ hd
    · intro t ht g hg
      refine h t ht ⟨s.calls.length, g, t⟩ ?_
      rw [deliveries_getHeaders, hg]
      exact List.mem_append_left _ (List.mem_singleton_self _)
  · rintro ⟨hold, hcache⟩ t ht d hd
    rw [deliveries_getHeaders] at hd
    rcases List.mem_append.mp hd with hd | hd
    · obtain ⟨g, hg, rfl⟩ := List.mem_map.mp hd
      exact hcache t ht g (Option.mem_toList.mp hg)
    · exact hold d hd

theorem CacheSound.congr {s' : State} (h : CacheSound p s) (hclock : s.clock ≤ s'.clock)
    (hcache : s'.cache = s.cache) : CacheSound p s' := by
  intro t ht g hg
  apply h t (hclock.trans ht) g
  rw [← hg]
  exact State.cached_congr rfl hcache.symm

theorem cacheSound_of_empty (h : ∀ t, s.cache.get t = none) : CacheSound p s := by
  intro t _ g hg
  rw [State.cached, h, Option.filter_none] at hg
  exact absurd hg (Option.some_ne_none g).symm

/-- What was just put into memory is given to those who come before the buffer. -/
theorem cached_set {cache : TokenCache} {g g' : Grant} {e now t : ℚ} {s : State}
    (hs : s.cache = cache.set g e now) : { s with clock := t }.cached p = some g' ↔
      (t < now + max 0 (e - cache.expiryBuffer) ∧ g = g') ∧
        (p.kind = .oauth2 ∨ g'.accessToken ≠ "") := by
  rw [State.cached, hs, Option.filter_eq_some_iff, TokenCache.get_set, decide_eq_true_eq]

theorem cacheSound_of_fresh {cache : TokenCache} {g : Grant} (hbuffer : 0 ≤ cache.expiryBuffer)
    (he : 0 ≤ g.expiresIn) (hs : s.cache = cache.set g g.expiresIn s.clock)
    (hissued : g.issuedAt = s.clock) : CacheSound p s := by
  intro t _ g' hg
  obtain ⟨⟨ht, rfl⟩, -⟩ := (cached_set hs).mp hg
  have hmax : max 0 (g.expiresIn - cache.expiryBuffer) ≤ g.expiresIn := by
    apply max_le he
    linarith
  rw [Grant.endOfLife, hissued]
  linarith

/-- A token from the file: its whole lifetime ends early enough exactly if the token is recent. -/
theorem cacheSound_of_loaded {cache : TokenCache} {g : Grant} (hne : g.accessToken ≠ "")
    (hs : s.cache = cache.set g g.expiresIn s.clock) : CacheSound p s ↔
      (g.expiresIn ≤ cache.expiryBuffer ∨ s.clock ≤ g.issuedAt + cache.expiryBuffer) := by
  constructor
  · intro h
    by_contra hnot
    obtain ⟨hlong, hlate⟩ := not_or.mp hnot
    rw [not_le] at hlong hlate
    have hgap : g.issuedAt + g.expiresIn < s.clock + (g.expiresIn - cache.expiryBuffer) := by
      linarith
    -- a moment after the end of the token and before that of its place in memory
    obtain ⟨t, ht, ht'⟩ := exists_between (max_lt hgap
      (show s.clock < s.clock + (g.expiresIn - cache.expiryBuffer) by linarith))
    obtain ⟨hend, hclock⟩ := max_lt_iff.mp ht
    have hmem : t < s.clock + max 0 (g.expiresIn - cache.expiryBuffer) :=
      ht'.trans_le (by gcongr; exact le_max_right _ _)
    have := h t hclock.le g ((cached_set hs).mpr ⟨⟨hmem, rfl⟩, Or.inr hne⟩)
    exact absurd this (not_le.mpr hend)
  · intro h t ht g' hg
    obtain ⟨⟨hmem, rfl⟩, -⟩ := (cached_set hs).mp hg
    rw [Grant.endOfLife]
    rcases h with h | h
    · rw [max_eq_left (by linarith), add_zero] at hmem
      exact absurd ht (not_le.mpr hmem)
    · rcases le_total 0 (g.expiresIn - cache.expiryBuffer) with he | he
      · rw [max_eq_right he] at hmem
        linarith
      · rw [max_eq_left he, add_zero] at hmem
        exact absurd ht (not_le.mpr hmem)

/-! ## What the file and its writers hold -/

/-- The data was written when its token was issued. -/
structure Saved.Dated (data : Saved) (now : ℚ) : Prop where
  savedAt : data.savedAt = data.grant.issuedAt
  past : data.savedAt ≤ now
  nonneg : 0 ≤ data.grant.expiresIn

theorem Saved.Dated.mono {data : Saved} {now now' : ℚ} (h : data.Dated now) (hle : now ≤ now') :
    data.Dated now' :=
  ⟨h.savedAt, h.past.trans hle, h.nonneg⟩

/-- What is known of a call at its stage. -/
structure Call.Dated (c : Call) (now : ℚ) : Prop where
  saving : ∀ data, c.stage = .saving data → data.Dated now
  loading : c.stage = .loading → c.origin ≠ .reauth

theorem Call.Quiet.dated {c : Call} (h : c.Quiet) (now : ℚ) : c.Dated now where
  saving := by
    intro data hdata
    have := h.1
    rw [hdata] at this
    exact absurd this (Option.some_ne_none data)
  loading := h.2

structure Dated (p : Provider) (s : State) : Prop where
  buffer : s.cache.expiryBuffer = p.expiryBuffer
  file : ∀ data, s.file = .record data → data.Dated s.clock
  calls : ∀ c ∈ s.calls, c.Dated s.clock

theorem dated_init (p : Provider) (t : ℚ) : Dated p (.init p t) :=
  ⟨rfl, fun _ h ↦ TokenFile.noConfusion h, fun _ h ↦ absurd h List.not_mem_nil⟩

theorem Dated.tick (h : Dated p s) {t : ℚ} (ht : s.clock ≤ t) : Dated p { s with clock := t } where
  buffer := h.buffer
  file := fun data hdata ↦ (h.file data hdata).mono ht
  calls := fun c hc ↦
    ⟨fun data hdata ↦ ((h.calls c hc).saving data hdata).mono ht, (h.calls c hc).loading⟩

theorem Dated.served {s' : State} (h : Dated p s) (hs : Served p s s') : Dated p s' where
  buffer := by
    rw [hs.cache]
    exact h.buffer
  file := by
    rw [hs.file, hs.clock]
    exact h.file
  calls := by
    intro c hc
    rw [hs.clock]
    rcases hs.calls c hc with hc | hc
    · exact h.calls c hc
    · exact hc.dated s.clock

theorem Dated.setStage (h : Dated p s) (i : ℕ) {stage : Stage}
    (hsaving : ∀ data, stage = .saving data → data.Dated s.clock) (hload : stage ≠ .loading) :
    ∀ c ∈ (s.setStage i stage).calls, c.Dated s.clock := by
  apply State.forall_mem_setStage h.calls
  intro c _
  exact ⟨hsaving, fun hl ↦ absurd hl hload⟩

theorem Dated.deliver (h : Dated p s) (i : ℕ) (g : Grant) :
    Dated p (s.deliver i g).release where
  buffer := (congrArg TokenCache.expiryBuffer State.cache_deliver).trans h.buffer
  file := by
    have hfile : (s.deliver i g).release.file = s.file := State.file_deliver
    have hclock : (s.deliver i g).release.clock = s.clock := State.clock_deliver
    rw [hfile, hclock]
    exact h.file
  calls := by
    have hcalls : (s.deliver i g).release.calls = (s.setStage i (.returned g)).calls :=
      State.calls_deliver
    have hclock : (s.deliver i g).release.clock = s.clock := State.clock_deliver
    rw [hcalls, hclock]
    exact h.setStage i (fun _ hd ↦ Stage.noConfusion hd) Stage.noConfusion

theorem Dated.remember (h : Dated p s) (g : Grant) : Dated p (s.remember g) :=
  ⟨h.buffer, h.file, h.calls⟩

theorem Dated.grant (h : Dated p s) (tokens : TokenSet) : Dated p (s.grant tokens) :=
  ⟨h.buffer, h.file, h.calls⟩

theorem Dated.write (h : Dated p s) {data : Saved} (hdata : data.Dated s.clock)
    (outcome : WriteOutcome) : Dated p (s.write data outcome) where
  buffer := h.buffer
  file := by
    intro data' hdata'
    cases outcome with
    | written => exact TokenFile.record.inj hdata' ▸ hdata
    | truncated => exact TokenFile.noConfusion hdata'
    | failed => exact h.file data' hdata'
  calls := h.calls

/-! ## One event -/

theorem Sound.tick (h : Sound p s) {t : ℚ} (ht : s.clock ≤ t) : Sound p { s with clock := t } :=
  fun t' ht' ↦ h t' (ht.trans ht')

theorem Sound.served {s' : State} (h : Sound p s) (hs : Served p s s') : Sound p s' := by
  obtain ⟨hold, hcache⟩ := sound_split_iff.mp h
  refine sound_split_iff.mpr ⟨?_, hcache.congr hs.clock.ge hs.cache⟩
  rcases hs.deliveries with hd | ⟨i, g, hg, hd⟩
  · rw [hd]
    exact hold
  · rw [hd]
    exact List.forall_mem_cons.mpr ⟨hcache s.clock le_rfl g hg, hold⟩

theorem Sound.forget {s' : State} (h : Sound p s) (hd : s'.deliveries = s.deliveries)
    (hempty : ∀ t, s'.cache.get t = none) : Sound p s' := by
  refine sound_split_iff.mpr ⟨?_, cacheSound_of_empty hempty⟩
  rw [hd]
  exact (sound_split_iff.mp h).1

theorem Dated.invalidate (h : Dated p s) : Dated p s.invalidate := ⟨h.buffer, h.file, h.calls⟩

theorem Dated.restart (h : Dated p s) (outcome : WriteOutcome) :
    Dated p (s.restart p outcome) where
  buffer := rfl
  file := by
    intro data hdata
    rcases s.fileAfter_eq outcome with hfile | ⟨c, hc, data', hsaving, hfile⟩
    · exact h.file data (hfile.symm.trans hdata)
    · exact (h.write ((h.calls c hc).saving data' hsaving) outcome).file data
        (hfile.symm.trans hdata)
  calls := by
    intro c hc
    obtain ⟨c₀, -, rfl⟩ := List.mem_map.mp hc
    rw [State.kill]
    split
    · rename_i g hg
      exact ⟨fun data hd ↦ Stage.noConfusion (hg.symm.trans hd),
        fun hl ↦ Stage.noConfusion (hg.symm.trans hl)⟩
    · exact ⟨fun data hd ↦ Stage.noConfusion hd, fun hl ↦ Stage.noConfusion hl⟩

/-- A token that was read from the file: it is in order exactly if it is recent. -/
theorem sound_loaded (h : Dated p s) (hP : Sound p s) {i : ℕ} {c : Call} {data : Saved}
    (hc : s.calls[i]? = some c) (hload : c.stage = .loading) (hu : s.Usable data) {m : State}
    (hm : m = ((s.remember data.grant).deliver i data.grant).release) :
    Dated p m ∧ (Sound p m ↔ data.Recent p.expiryBuffer s.clock) := by
  obtain ⟨hfile, hexp, hne⟩ := hu
  have hdated := h.file data hfile
  have hcache : m.cache = s.cache.set data.grant data.grant.expiresIn s.clock :=
    hm ▸ State.cache_deliver
  have hclock : m.clock = s.clock := hm ▸ State.clock_deliver
  have hdel : m.deliveries = ⟨i, data.grant, s.clock⟩ :: s.deliveries := by
    have horigin := (h.calls c (List.mem_of_getElem? hc)).loading hload
    rw [hm]
    exact (State.deliveries_deliver (s := s.remember data.grant) hc).trans (if_neg horigin)
  constructor
  · rw [hm]
    exact (h.remember data.grant).deliver i data.grant
  · have hmem : CacheSound p m ↔ _ := cacheSound_of_loaded hne (hclock ▸ hcache)
    rw [sound_split_iff, hmem, hdel, List.forall_mem_cons, Saved.Recent, hclock, h.buffer,
      ← hdated.savedAt, and_iff_left (sound_split_iff.mp hP).1]
    refine and_congr_left fun _ ↦ ?_
    rw [Grant.endOfLife, ← hdated.savedAt]
    refine ⟨fun hlive _ ↦ hlive, fun hzero ↦ ?_⟩
    -- with neither number zero, the test of `load` was made
    by_cases hnonzero : data.grant.expiresIn = 0 ∨ data.savedAt = 0
    · exact hzero hnonzero
    · obtain ⟨he, ha⟩ := not_or.mp hnonzero
      have hlive : ¬ data.grant.expiresIn - 60 ≤ s.clock - data.savedAt :=
        fun hle ↦ hexp ⟨ha, he, hle⟩
      linarith

/-- A token that was just issued is in order, whether it is returned or written first. -/
theorem sound_granted (h : Dated p s) (hP : Sound p s) (hbuffer : 0 ≤ p.expiryBuffer) {i : ℕ}
    {tokens : TokenSet} (he : 0 ≤ tokens.expiresIn) {m : State}
    (hm : m = ((s.grant tokens).deliver i (s.nextGrant tokens)).release ∨ m = s.store i tokens) :
    Dated p m ∧ Sound p m := by
  have hdata : (⟨s.nextGrant tokens, s.clock⟩ : Saved).Dated s.clock := ⟨rfl, le_rfl, he⟩
  have hlive : s.clock ≤ (s.nextGrant tokens).endOfLife := le_add_of_nonneg_right he
  have hcache : ∀ s' : State, s'.clock = s.clock → s'.cache = (s.grant tokens).cache →
      CacheSound p s' := by
    intro s' hclock hs'
    refine @cacheSound_of_fresh p s' s.cache (s.nextGrant tokens) (h.buffer ▸ hbuffer) he ?_
      hclock.symm
    rw [hclock]
    exact hs'
  have hold := (sound_split_iff.mp hP).1
  rcases hm with rfl | rfl
  · constructor
    · exact (h.grant tokens).deliver i (s.nextGrant tokens)
    · refine sound_split_iff.mpr ⟨?_, hcache _ State.clock_deliver State.cache_deliver⟩
      intro d hd
      rcases State.mem_deliveries_deliver hd with rfl | hd
      · exact hlive
      · exact hold d hd
  · refine ⟨⟨h.buffer, h.file, ?_⟩, sound_split_iff.mpr ⟨hold, hcache _ rfl rfl⟩⟩
    refine h.setStage i (fun data hd ↦ ?_) Stage.noConfusion
    rw [Stage.saving.injEq] at hd
    exact hd ▸ hdata

/-- A token that was just written: it is in order exactly if it lives, or nobody sends it. -/
theorem sound_saved (h : Dated p s) (hP : Sound p s) {i : ℕ} {c : Call} {data : Saved}
    {outcome : WriteOutcome} (hc : s.calls[i]? = some c) (hsaving : c.stage = .saving data)
    {m : State} (hm : m = ((s.write data outcome).deliver i data.grant).release) :
    Dated p m ∧ (Sound p m ↔
      (c.origin ≠ .reauth → s.clock ≤ data.savedAt + data.grant.expiresIn)) := by
  have hdated := (h.calls c (List.mem_of_getElem? hc)).saving data hsaving
  have hclock : m.clock = s.clock := hm ▸ State.clock_deliver
  have hcache : m.cache = s.cache := hm ▸ State.cache_deliver
  have hdel : m.deliveries =
      if c.origin = .reauth then s.deliveries else ⟨i, data.grant, s.clock⟩ :: s.deliveries := by
    rw [hm]
    exact State.deliveries_deliver (s := s.write data outcome) hc
  constructor
  · rw [hm]
    exact (h.write hdated outcome).deliver i data.grant
  · obtain ⟨hold, hmem⟩ := sound_split_iff.mp hP
    rw [sound_split_iff, and_iff_left (hmem.congr hclock.ge hcache), hdel]
    by_cases ho : c.origin = .reauth
    · rw [if_pos ho]
      exact iff_of_true hold fun hne ↦ absurd ho hne
    · rw [if_neg ho, List.forall_mem_cons, and_iff_left hold, Grant.endOfLife, ← hdated.savedAt]
      exact ⟨fun hlive _ ↦ hlive, fun hlive ↦ hlive ho⟩

theorem sound_answered (h : Dated p s) (hP : Sound p s) {i : ℕ} {c : Call} {unauthorized : Bool}
    (hc : s.calls[i]? = some c) {m : State} (hm : s.answered p i unauthorized c = some m) :
    Dated p m ∧ Sound p m := by
  rcases State.answered_cases hc hm with hs | ⟨g, hg, -, -, -, -, rfl⟩
  · exact ⟨h.served hs, hP.served hs⟩
  · have hanswer : Served p s (s.answer i) := State.served_answer hc hg
    have hD : Dated p ((s.answer i).rejected g) := by
      have := h.served hanswer
      exact ⟨this.buffer, this.file, this.calls⟩
    have hS : Sound p ((s.answer i).rejected g) :=
      (hP.served hanswer).forget rfl (TokenCache.get_invalidate _)
    have hserved := State.served_getHeaders (p := p) (s := (s.answer i).rejected g) (.retry i)
    exact ⟨hD.served hserved, hS.served hserved⟩

theorem sound_act (h : Dated p s) (hP : Sound p s) (hbuffer : 0 ≤ p.expiryBuffer) {a : Action}
    (hrep : Event.Reported ⟨s.clock, a⟩) {m : State} (hm : State.act p s a = some m) :
    Dated p m ∧ (Sound p m ↔ Timely p s ⟨s.clock, a⟩) := by
  have hserved : Served p s m → Timely p s ⟨s.clock, a⟩ →
      Dated p m ∧ (Sound p m ↔ Timely p s ⟨s.clock, a⟩) :=
    fun hs ht ↦ ⟨h.served hs, iff_of_true (hP.served hs) ht⟩
  cases a with
  | getHeaders http =>
    obtain rfl := Option.some.inj hm
    exact hserved (State.served_getHeaders _) fun _ ↦ trivial
  | triggerReauth =>
    rw [State.act, Option.ite_none_right_eq_some] at hm
    obtain rfl := Option.some.inj hm.2
    have hs := State.served_lockOrWait (p := p) (s := s.invalidate) .reauth
    have hS : Sound p s.invalidate := hP.forget rfl (TokenCache.get_invalidate _)
    exact ⟨h.invalidate.served hs, iff_of_true (hS.served hs) fun _ ↦ trivial⟩
  | acquire => exact hserved (State.served_acquire hm) fun _ ↦ trivial
  | loaded i readable =>
    obtain ⟨c, hc, hm⟩ := Option.bind_eq_some_iff.mp hm
    rw [Option.ite_none_right_eq_some] at hm
    obtain ⟨hload, hm⟩ := hm
    rcases State.loaded_cases p s i readable with ⟨data, rfl, hu, heq⟩ | ⟨hno, hs⟩
    · obtain ⟨hD, hiff⟩ := sound_loaded h hP hc hload hu ((Option.some.inj hm).symm.trans heq)
      refine ⟨hD, hiff.trans ⟨fun hr _ c' data' _ _ hfile' _ _ ↦ ?_, fun ht ↦ ?_⟩⟩
      · obtain rfl := TokenFile.record.inj (hu.1.symm.trans hfile')
        exact hr
      · exact ht le_rfl c data hc hload hu.1 hu.2.1 hu.2.2
    · refine hserved (Option.some.inj hm ▸ hs) fun _ ↦ ?_
      cases readable with
      | false => trivial
      | true => exact fun c' data' _ _ hfile hexp hne ↦ absurd ⟨hfile, hexp, hne⟩ (hno rfl data')
  | replied i reply =>
    obtain ⟨c, -, hm⟩ := Option.bind_eq_some_iff.mp hm
    rcases State.replied_cases (p := p) hm with ⟨tokens, rfl, hm'⟩ | hs
    · obtain ⟨hD, hS⟩ := sound_granted h hP hbuffer hrep hm'
      exact ⟨hD, iff_of_true hS fun _ ↦ trivial⟩
    · exact hserved hs fun _ ↦ trivial
  | saved i outcome =>
    obtain ⟨c, hc, hm⟩ := Option.bind_eq_some_iff.mp hm
    obtain ⟨data, hsaving, hm⟩ := State.saved_eq_some.mp hm
    obtain ⟨hD, hiff⟩ := sound_saved h hP hc hsaving hm
    refine ⟨hD, hiff.trans ⟨fun hl _ c' data' hc' hsaving' ho ↦ ?_, fun ht ↦ ?_⟩⟩
    · obtain rfl := Option.some.inj (hc.symm.trans hc')
      rw [hsaving, Stage.saving.injEq] at hsaving'
      exact hsaving' ▸ hl ho
    · exact ht le_rfl c data hc hsaving
  | answered i unauthorized =>
    obtain ⟨c, hc, hm⟩ := Option.bind_eq_some_iff.mp hm
    obtain ⟨hD, hS⟩ := sound_answered h hP hc hm
    exact ⟨hD, iff_of_true hS fun _ ↦ trivial⟩
  | invalidate =>
    obtain rfl := Option.some.inj hm
    exact ⟨h.invalidate, iff_of_true (hP.forget rfl (TokenCache.get_invalidate _)) fun _ ↦ trivial⟩
  | restart outcome =>
    obtain rfl := Option.some.inj hm
    exact ⟨h.restart outcome, iff_of_true (hP.forget rfl (TokenCache.get_new _)) fun _ ↦ trivial⟩

/-! ## Runs -/

theorem sound_init (p : Provider) (t : ℚ) : Sound p (.init p t) :=
  sound_split_iff.mpr ⟨fun _ hd ↦ absurd hd List.not_mem_nil, cacheSound_of_empty (TokenCache.get_new _)⟩

theorem timely_of_none {e : Event} (h : step p s e = none) : Timely p s e := by
  intro ht
  rw [step, if_neg ht.not_gt] at h
  obtain ⟨t, a⟩ := e
  dsimp only at h ht ⊢
  split
  · rename_i i
    intro c data hc hload
    have hact : State.act p { s with clock := t } (.loaded i true) =
        some (State.loaded { s with clock := t } i true) := by
      rw [State.act]
      exact (congrArg (Option.bind · _) hc).trans (if_pos hload)
    exact absurd (hact.symm.trans h) (Option.some_ne_none _)
  · rename_i i outcome
    intro c data hc hsaving
    have hact : State.act p { s with clock := t } (.saved i outcome) =
        some (((State.write { s with clock := t } data outcome).deliver i data.grant).release) := by
      rw [State.act]
      exact (congrArg (Option.bind · _) hc).trans (State.saved_eq_some.mpr ⟨data, hsaving, rfl⟩)
    exact absurd (hact.symm.trans h) (Option.some_ne_none _)
  · trivial

/-- **No expired tokens, exactly.** Whatever events come in whatever order, from a provider without
a token on, no token is handed out after the lifetime that was reported with it, nor would one be if
a call came in next, exactly if every event is timely. -/
theorem sound_iff_timely (p : Provider) (hbuffer : 0 ≤ p.expiryBuffer) (start : ℚ)
    (events : List Event) (hrep : ∀ e ∈ events, e.Reported) :
    (∀ pre m, pre <+: events → Run.run (step p) (.init p start) pre = some m → Sound p m) ↔
      Run.Guarded (step p) (Timely p) (.init p start) events := by
  refine @Run.forall_reached_iff_guarded_of_labels _ _ (step p) (Timely p) (Dated p) (Sound p)
    Event.Reported ?_ (fun s e _ _ ↦ timely_of_none) events _ hrep (dated_init p start)
    (sound_init p start)
  intro s e m he hD hS hm
  obtain ⟨ht, hm⟩ := step_eq_some.mp hm
  obtain ⟨hD', hiff⟩ := sound_act (hD.tick ht) (hS.tick ht) hbuffer he hm
  refine ⟨hD', hiff.trans ?_⟩
  -- the guard reads the clock off the event only
  exact ⟨fun h _ ↦ h le_rfl, fun h _ ↦ h ht⟩

/-- A provider as it is configured, with a buffer of a minute. -/
def pkceProvider : Provider := ⟨.pkce, 60, true⟩

/-- A token for an hour is issued at once and written, and read again by the next process, fifty
minutes later. Another call comes in after the hour. -/
def readAgain : List Event :=
  [⟨1000, .getHeaders true⟩, ⟨1000, .replied 0 (.granted ⟨"first", "", 3600⟩)⟩,
    ⟨1000, .saved 0 .written⟩, ⟨4000, .restart .failed⟩, ⟨4000, .getHeaders true⟩,
    ⟨4000, .loaded 1 true⟩, ⟨5000, .getHeaders true⟩]

/-- The token is handed out when it has been expired for some time. -/
theorem not_forall_unexpired : ¬ ∀ (p : Provider) (start : ℚ) (events : List Event) (m : State),
    p.kind = .pkce → 0 ≤ p.expiryBuffer → (∀ e ∈ events, e.Reported) →
      Run.run (step p) (.init p start) events = some m →
        ∀ d ∈ m.deliveries, d.time ≤ d.grant.endOfLife := by
  intro h
  have hrun := Run.run_eq_some_getD
    (show (Run.run (step pkceProvider) (.init pkceProvider 1000) readAgain).isSome by decide +kernel)
    (.init pkceProvider 1000)
  have hlate := h pkceProvider 1000 readAgain _ rfl (by decide) (by decide) hrun
    ⟨2, ⟨⟨"first", "", 3600⟩, 1000, 0⟩, 5000⟩ (by decide +kernel)
  exact absurd hlate (by decide +kernel)

/-- The same with the next process half a minute later: the token is read within the buffer, kept in
memory, and handed out once more before its end. -/
def readEarly : List Event :=
  readAgain.take 3 ++ [⟨1030, .restart .failed⟩, ⟨1030, .getHeaders true⟩, ⟨1040, .loaded 1 true⟩,
    ⟨4500, .getHeaders true⟩]

theorem sound_iff_timely_readEarly :
    ((Run.run (step pkceProvider) (.init pkceProvider 1000) readEarly).map
        fun m ↦ m.deliveries.map Delivery.time) = some [4500, 1040, 1000] ∧
      ∀ pre m, pre <+: readEarly →
        Run.run (step pkceProvider) (.init pkceProvider 1000) pre = some m → Sound pkceProvider m :=
  ⟨by decide +kernel, (sound_iff_timely pkceProvider (by decide) 1000 readEarly (by decide)).mpr
    (by decide +kernel)⟩

end Tokens

end ArgusMcp
