import ArgusMcp.Bridge.Tokens

/-!
# Tokens that were rejected

After an answer of 401 `McpBearerAuth` invalidates the token and asks for another one. A token can
be in three places by then: in memory, in the file, and with a call that is still writing it.
`invalidate` clears the memory. The providers that keep no file need no more than that.

The provider that keeps one looks there next, and finds the token that was just rejected.

## The condition

`Forgotten` asks, where a token is invalidated, that neither the file nor a call that is writing has
a token of that string. In a run of such events a string that was rejected is handed out again only
if it was issued again, `not_resent`.

The other half, that a request is retried at most once, holds of every run. It only looks at who
called and whether the answer was there, which no operation but these two changes.
-/

namespace ArgusMcp

namespace Tokens

/-- Of the rejected string, the token is a later issue. -/
def Rejection.Allows (r : Rejection) (g : Grant) : Prop :=
  g.accessToken = r.accessToken → r.issued ≤ g.serial

/-- What was handed out after a rejection was not what was rejected. -/
def NotResent (s : State) : Prop :=
  ∀ r ∈ s.rejections, ∀ d ∈ s.deliveries.take (s.deliveries.length - r.delivered), r.Allows d.grant

/-- If the event has a token invalidated, it is neither in the file nor about to be. -/
def Forgotten (p : Provider) (s : State) (e : Event) : Prop :=
  match e.action with
  | .answered i true => ∀ c g, s.calls[i]? = some c → c.stage = .returned g →
      c.origin = .request → p.retryOn401 = true →
        (∀ data, { s with clock := e.time }.Usable data → data.grant.accessToken ≠ g.accessToken) ∧
        ∀ c ∈ s.calls, ∀ data, c.stage = .saving data → data.grant.accessToken ≠ g.accessToken
  | _ => True

/-! ## Where a rejected token may be -/

/-- The token is in none of the three places, and was not handed out since. -/
structure Rejection.Kept (r : Rejection) (s : State) : Prop where
  issued : r.issued ≤ s.issued
  delivered : r.delivered ≤ s.deliveries.length
  cache : ∀ g, s.cache.token = some g → r.Allows g
  file : ∀ data, s.Usable data → r.Allows data.grant
  saving : ∀ c ∈ s.calls, ∀ data, c.stage = .saving data → r.Allows data.grant
  deliveries : ∀ d ∈ s.deliveries.take (s.deliveries.length - r.delivered), r.Allows d.grant

variable {p : Provider} {s : State} {r : Rejection}

theorem Saved.Expired.mono {data : Saved} {now now' : ℚ} (h : data.Expired now) (hle : now ≤ now') :
    data.Expired now' := by
  obtain ⟨ha, he, hexp⟩ := h
  exact ⟨ha, he, hexp.trans (by linarith)⟩

theorem State.Usable.of_tick {data : Saved} {t : ℚ} (ht : s.clock ≤ t)
    (h : { s with clock := t }.Usable data) : s.Usable data :=
  ⟨h.1, fun hexp ↦ h.2.1 (hexp.mono ht), h.2.2⟩

theorem State.cached_eq_some {g : Grant} (h : s.cached p = some g) : s.cache.token = some g := by
  obtain ⟨hget, -⟩ := Option.filter_eq_some_iff.mp h
  exact (TokenCache.get_eq_some.mp hget).2

namespace Rejection.Kept

theorem tick (h : r.Kept s) {t : ℚ} (ht : s.clock ≤ t) : r.Kept { s with clock := t } :=
  ⟨h.issued, h.delivered, h.cache, fun data hu ↦ h.file data (hu.of_tick ht), h.saving, h.deliveries⟩

theorem cons {ds : List Delivery} (hle : r.delivered ≤ ds.length)
    (h : ∀ d ∈ ds.take (ds.length - r.delivered), r.Allows d.grant) {d : Delivery}
    (hd : r.Allows d.grant) :
    ∀ d' ∈ (d :: ds).take ((d :: ds).length - r.delivered), r.Allows d'.grant := by
  rw [List.length_cons, Nat.succ_sub hle, List.take_succ_cons]
  exact List.forall_mem_cons.mpr ⟨hd, h⟩

theorem served {s' : State} (h : r.Kept s) (hs : Served p s s') : r.Kept s' := by
  have hold : r.delivered ≤ s'.deliveries.length ∧
      ∀ d ∈ s'.deliveries.take (s'.deliveries.length - r.delivered), r.Allows d.grant := by
    rcases hs.deliveries with hd | ⟨i, g, hg, hd⟩
    · rw [hd]
      exact ⟨h.delivered, h.deliveries⟩
    · rw [hd]
      exact ⟨h.delivered.trans (Nat.le_succ _),
        cons h.delivered h.deliveries (h.cache g (State.cached_eq_some hg))⟩
  refine ⟨hs.issued ▸ h.issued, hold.1, hs.cache ▸ h.cache, ?_, ?_, hold.2⟩
  · intro data hu
    rw [State.Usable, hs.file, hs.clock] at hu
    exact h.file data hu
  · intro c hc data hdata
    rcases hs.calls c hc with hc | hc
    · exact h.saving c hc data hdata
    · have := hc.1
      rw [hdata] at this
      exact absurd this (Option.some_ne_none data)

theorem setStage (h : r.Kept s) (i : ℕ) {stage : Stage}
    (hstage : ∀ data, stage = .saving data → r.Allows data.grant) : r.Kept (s.setStage i stage) where
  issued := h.issued
  delivered := h.delivered
  cache := h.cache
  file := h.file
  saving := by
    apply State.forall_mem_setStage h.saving
    intro c _
    exact hstage
  deliveries := h.deliveries

theorem deliver (h : r.Kept s) (i : ℕ) {g : Grant} (hg : r.Allows g) :
    r.Kept (s.deliver i g).release := by
  have hstage : r.Kept (s.setStage i (.returned g)) :=
    h.setStage i fun data hd ↦ Stage.noConfusion hd
  rw [State.deliver]
  split
  · exact ⟨h.issued, h.delivered, h.cache, h.file, hstage.saving, h.deliveries⟩
  · exact ⟨h.issued, h.delivered.trans (Nat.le_succ _), h.cache, h.file, hstage.saving,
      cons h.delivered h.deliveries hg⟩

theorem remember (h : r.Kept s) {g : Grant} (hg : r.Allows g) : r.Kept (s.remember g) where
  issued := h.issued
  delivered := h.delivered
  cache := by
    intro g' hg'
    obtain rfl := Option.some.inj hg'
    exact hg
  file := h.file
  saving := h.saving
  deliveries := h.deliveries

theorem allows_nextGrant (h : r.Kept s) (tokens : TokenSet) : r.Allows (s.nextGrant tokens) :=
  fun _ ↦ h.issued

theorem grant (h : r.Kept s) (tokens : TokenSet) : r.Kept (s.grant tokens) := by
  have := h.remember (h.allows_nextGrant tokens)
  exact ⟨h.issued.trans (Nat.le_succ _), h.delivered, this.cache, h.file, h.saving, h.deliveries⟩

theorem write (h : r.Kept s) {data : Saved} (hdata : r.Allows data.grant)
    (outcome : WriteOutcome) : r.Kept (s.write data outcome) where
  issued := h.issued
  delivered := h.delivered
  cache := h.cache
  file := by
    intro data' hu
    cases outcome with
    | written => exact TokenFile.record.inj hu.1 ▸ hdata
    | truncated => exact TokenFile.noConfusion hu.1
    | failed => exact h.file data' hu
  saving := h.saving
  deliveries := h.deliveries

theorem forget (h : r.Kept s) {cache : TokenCache} (hcache : cache.token = none) :
    r.Kept { s with cache := cache } := by
  refine ⟨h.issued, h.delivered, fun g hg ↦ ?_, h.file, h.saving, h.deliveries⟩
  exact absurd (hcache.symm.trans hg) (Option.some_ne_none g).symm

theorem restart (h : r.Kept s) (outcome : WriteOutcome) : r.Kept (s.restart p outcome) where
  issued := h.issued
  delivered := h.delivered
  cache := fun g hg ↦ absurd hg (Option.some_ne_none g).symm
  file := by
    intro data hu
    rcases s.fileAfter_eq outcome with hfile | ⟨c, hc, data', hsaving, hfile⟩
    · exact h.file data ⟨hfile.symm.trans hu.1, hu.2⟩
    · exact (h.write (h.saving c hc data' hsaving) outcome).file data
        ⟨hfile.symm.trans hu.1, hu.2⟩
  saving := by
    intro c hc data hdata
    obtain ⟨c₀, -, rfl⟩ := List.mem_map.mp hc
    rw [State.kill] at hdata
    split at hdata
    · rename_i g hg
      exact Stage.noConfusion (hg.symm.trans hdata)
    · exact Stage.noConfusion hdata
  deliveries := h.deliveries

end Rejection.Kept

/-! ## One event -/

/-- Nothing that was rejected can be handed out. -/
def AllKept (s : State) : Prop := ∀ r ∈ s.rejections, r.Kept s

theorem AllKept.notResent (h : AllKept s) : NotResent s := fun r hr ↦ (h r hr).deliveries

theorem AllKept.of_forall {s' : State} (h : AllKept s) (hr : s'.rejections = s.rejections)
    (hkept : ∀ r : Rejection, r.Kept s → r.Kept s') : AllKept s' := by
  intro r hr'
  rw [hr] at hr'
  exact hkept r (h r hr')

theorem AllKept.served {s' : State} (h : AllKept s) (hs : Served p s s') : AllKept s' :=
  h.of_forall hs.rejections fun _ hk ↦ hk.served hs

/-- The rejection itself, if the token is nowhere but in memory. -/
theorem allKept_rejected (h : AllKept s) {g : Grant}
    (hfile : ∀ data, s.Usable data → data.grant.accessToken ≠ g.accessToken)
    (hsaving : ∀ c ∈ s.calls, ∀ data, c.stage = .saving data →
      data.grant.accessToken ≠ g.accessToken) : AllKept (s.rejected g) := by
  intro r hr
  rcases List.mem_cons.mp hr with rfl | hr
  · refine ⟨le_rfl, le_rfl, ?_, ?_, ?_, ?_⟩
    · intro g' hg'
      exact absurd hg' (Option.some_ne_none g').symm
    · intro data hu heq
      exact absurd heq (hfile data hu)
    · intro c hc data hdata heq
      exact absurd heq (hsaving c hc data hdata)
    · intro d hd
      have htake : (s.rejected g).deliveries.length - s.deliveries.length = 0 := Nat.sub_self _
      rw [htake, List.take_zero] at hd
      exact absurd hd List.not_mem_nil
  · have hempty : s.cache.invalidate.token = none := rfl
    have := (h r hr).forget hempty
    exact ⟨this.issued, this.delivered, this.cache, this.file, this.saving, this.deliveries⟩

theorem allKept_act (h : AllKept s) {a : Action} (hok : Forgotten p s ⟨s.clock, a⟩) {m : State}
    (hm : State.act p s a = some m) : AllKept m := by
  cases a with
  | getHeaders http =>
    obtain rfl := Option.some.inj hm
    exact h.served (State.served_getHeaders _)
  | triggerReauth =>
    rw [State.act, Option.ite_none_right_eq_some] at hm
    obtain rfl := Option.some.inj hm.2
    have hforget : AllKept s.invalidate := h.of_forall rfl fun _ hk ↦ hk.forget rfl
    exact hforget.served (State.served_lockOrWait (p := p) .reauth)
  | acquire => exact h.served (State.served_acquire hm)
  | loaded i readable =>
    obtain ⟨c, -, hm⟩ := Option.bind_eq_some_iff.mp hm
    rw [Option.ite_none_right_eq_some, Option.some.injEq] at hm
    obtain ⟨-, rfl⟩ := hm
    rcases State.loaded_cases p s i readable with ⟨data, -, hu, heq⟩ | ⟨-, hs⟩
    · rw [heq]
      refine h.of_forall State.rejections_deliver fun r hk ↦ ?_
      exact (hk.remember (hk.file data hu)).deliver i (hk.file data hu)
    · exact h.served hs
  | replied i reply =>
    obtain ⟨c, -, hm⟩ := Option.bind_eq_some_iff.mp hm
    rcases State.replied_cases (p := p) hm with ⟨tokens, -, rfl | rfl⟩ | hs
    · refine h.of_forall State.rejections_deliver fun r hk ↦ ?_
      exact (hk.grant tokens).deliver i (hk.allows_nextGrant tokens)
    · refine h.of_forall rfl fun r hk ↦ ?_
      apply (hk.grant tokens).setStage i
      intro data hdata
      rw [Stage.saving.injEq] at hdata
      rw [← hdata]
      exact hk.allows_nextGrant tokens
    · exact h.served hs
  | saved i outcome =>
    obtain ⟨c, hc, hm⟩ := Option.bind_eq_some_iff.mp hm
    obtain ⟨data, hsaving, rfl⟩ := State.saved_eq_some.mp hm
    refine h.of_forall State.rejections_deliver fun r hk ↦ ?_
    have hdata := hk.saving c (List.mem_of_getElem? hc) data hsaving
    exact (hk.write hdata outcome).deliver i hdata
  | answered i unauthorized =>
    obtain ⟨c, hc, hm⟩ := Option.bind_eq_some_iff.mp hm
    rcases State.answered_cases hc hm with hs | ⟨g, hg, ho, -, rfl, hp, rfl⟩
    · exact h.served hs
    · have hanswer : Served p s (s.answer i) := State.served_answer hc hg
      obtain ⟨hfile, hsaving⟩ := hok c g hc hg ho hp
      have hrej : AllKept ((s.answer i).rejected g) := by
        apply allKept_rejected (h.served hanswer) hfile
        intro c' hc' data hdata
        rcases hanswer.calls c' hc' with hc' | hc'
        · exact hsaving c' hc' data hdata
        · have := hc'.1
          rw [hdata] at this
          exact absurd this (Option.some_ne_none data)
      exact hrej.served (State.served_getHeaders _)
  | invalidate =>
    obtain rfl := Option.some.inj hm
    exact h.of_forall rfl fun _ hk ↦ hk.forget rfl
  | restart outcome =>
    obtain rfl := Option.some.inj hm
    exact h.of_forall rfl fun _ hk ↦ hk.restart outcome

theorem allKept_step (h : AllKept s) {e : Event} (hok : Forgotten p s e) {m : State}
    (hm : step p s e = some m) : AllKept m := by
  obtain ⟨ht, hm⟩ := step_eq_some.mp hm
  have htick : AllKept { s with clock := e.time } := h.of_forall rfl fun _ hk ↦ hk.tick ht
  exact allKept_act htick hok hm

theorem forgotten_of_inMemory (h : InMemory s) (e : Event) : Forgotten p s e := by
  unfold Forgotten
  split
  · intro c g hc hg _ _
    constructor
    · intro data hu
      exact TokenFile.noConfusion (h.file.symm.trans hu.1)
    · intro c' hc' data hdata
      obtain ⟨j, hj⟩ := List.mem_iff_getElem?.mp hc'
      have := h.stage_eq hj (by rw [hdata]; rfl)
      exact Stage.noConfusion (hdata.symm.trans this)
  · trivial

/-! ## At most one retry -/

/-- What a retry is decided by: who called, and whether the request was answered. -/
def Call.head (c : Call) : Origin × Bool := (c.origin, c.answered)

/-- How often the request of a call was sent again. -/
def State.retries (s : State) (i : ℕ) : ℕ := s.calls.countP fun c ↦ c.origin = .retry i

/-- Each request is sent again at most once, and only after an answer; a retry never is. -/
def OneRetry (s : State) : Prop :=
  ∀ i, s.retries i ≤ 1 ∧
    (s.retries i ≠ 0 → (s.calls[i]?).map Call.head = some (.request, true))

/-- The operation moves calls to other stages. -/
def SameHeads (s s' : State) : Prop := s'.calls.map Call.head = s.calls.map Call.head

theorem retries_eq (s : State) (i : ℕ) :
    s.retries i = (s.calls.map Call.head).countP fun h ↦ h.1 = .retry i := by
  rw [List.countP_map]
  rfl

theorem SameHeads.retries {s' : State} (h : SameHeads s s') (i : ℕ) : s'.retries i = s.retries i := by
  rw [retries_eq, retries_eq, h]

theorem SameHeads.head {s' : State} (h : SameHeads s s') (i : ℕ) :
    (s'.calls[i]?).map Call.head = (s.calls[i]?).map Call.head := by
  rw [← List.getElem?_map, ← List.getElem?_map, h]

theorem OneRetry.congr {s' : State} (h : OneRetry s) (hs : SameHeads s s') : OneRetry s' := by
  intro i
  rw [hs.retries, hs.head]
  exact h i

theorem map_modify {β : Type*} {f : Call → Call} {φ : Call → β} (h : ∀ c, φ (f c) = φ c)
    (calls : List Call) (i : ℕ) : (calls.modify i f).map φ = calls.map φ := by
  induction calls generalizing i with
  | nil => rw [List.modify_nil]
  | cons c calls ih =>
    cases i with
    | zero => rw [List.modify_zero_cons, List.map_cons, List.map_cons, h]
    | succ i => rw [List.modify_succ_cons, List.map_cons, List.map_cons, ih]

theorem sameHeads_setStage (s : State) (i : ℕ) (stage : Stage) :
    SameHeads s (s.setStage i stage) := by
  apply map_modify
  intro c
  rfl

theorem sameHeads_deliver (s : State) (i : ℕ) (g : Grant) : SameHeads s (s.deliver i g) := by
  rw [SameHeads, State.calls_deliver]
  exact sameHeads_setStage s i (.returned g)

theorem sameHeads_enter (s : State) (i : ℕ) (origin : Origin) :
    SameHeads s (s.enter p i origin) := by
  rw [State.enter]
  split
  · exact sameHeads_deliver s i _
  · exact sameHeads_setStage s i _

theorem OneRetry.push (h : OneRetry s) {origin : Origin} (ho : ∀ i, origin ≠ .retry i) :
    OneRetry (s.push origin) := by
  intro i
  have hcount : (s.push origin).retries i = s.retries i := by
    rw [State.retries, State.push, List.countP_append, List.countP_singleton,
      if_neg (by simpa using ho i)]
    rfl
  rw [hcount]
  refine ⟨(h i).1, fun hne ↦ ?_⟩
  obtain ⟨c, hc, hhead⟩ := Option.map_eq_some_iff.mp ((h i).2 hne)
  have hi : i < s.calls.length := (List.getElem?_eq_some_iff.mp hc).1
  rw [State.push, List.getElem?_append_left hi, hc, Option.map_some, hhead]

theorem OneRetry.push_retry (h : OneRetry s) {i : ℕ} (hzero : s.retries i = 0)
    (hi : (s.calls[i]?).map Call.head = some (.request, true)) :
    OneRetry (s.push (.retry i)) := by
  have hkeep : ∀ j : ℕ, (s.calls[j]?).map Call.head = some (.request, true) →
      ((s.push (.retry i)).calls[j]?).map Call.head = some (.request, true) := by
    intro j hj
    obtain ⟨c, hc, hhead⟩ := Option.map_eq_some_iff.mp hj
    have hlt : j < s.calls.length := (List.getElem?_eq_some_iff.mp hc).1
    rw [State.push, List.getElem?_append_left hlt, hc, Option.map_some, hhead]
  intro j
  rw [State.retries, State.push, List.countP_append, List.countP_singleton]
  by_cases hij : i = j
  · subst hij
    rw [State.retries] at hzero
    rw [hzero, if_pos (by simp)]
    exact ⟨le_rfl, fun _ ↦ hkeep i hi⟩
  · rw [if_neg (by simpa using hij), Nat.add_zero]
    exact ⟨(h j).1, fun hne ↦ hkeep j ((h j).2 hne)⟩

theorem retries_answer (s : State) (i j : ℕ) : (s.answer i).retries j = s.retries j := by
  have horigins : (s.answer i).calls.map Call.origin = s.calls.map Call.origin := by
    apply map_modify
    intro c
    rfl
  have hcount : ∀ s : State, s.retries j =
      (s.calls.map Call.origin).countP fun o ↦ o = .retry j := by
    intro s
    rw [List.countP_map]
    rfl
  rw [hcount, hcount, horigins]

theorem OneRetry.answer (h : OneRetry s) (i : ℕ) : OneRetry (s.answer i) := by
  intro j
  rw [retries_answer]
  refine ⟨(h j).1, fun hne ↦ ?_⟩
  obtain ⟨c, hc, hhead⟩ := Option.map_eq_some_iff.mp ((h j).2 hne)
  obtain ⟨ho, ha⟩ := Prod.mk.inj hhead
  rw [State.answer, List.getElem?_modify, hc, Option.map_eq_map, Option.map_some, Option.map_some]
  split
  · exact congrArg some (Prod.ext ho rfl)
  · exact congrArg some hhead

theorem oneRetry_lockOrWait {origin : Origin} (hpush : OneRetry (s.push origin)) :
    OneRetry (s.lockOrWait p origin) := by
  rw [State.lockOrWait]
  split
  · exact hpush
  · exact hpush.congr (sameHeads_enter _ _ _)

theorem oneRetry_getHeaders {origin : Origin} (hpush : OneRetry (s.push origin)) :
    OneRetry (s.getHeaders p origin) := by
  rw [State.getHeaders]
  split
  · exact hpush.congr (sameHeads_deliver _ _ _)
  · exact oneRetry_lockOrWait hpush

theorem sameHeads_raised (s : State) (i : ℕ) : SameHeads s (s.setStage i .raised).release :=
  sameHeads_setStage s i .raised

theorem sameHeads_loaded (s : State) (i : ℕ) (readable : Bool) :
    SameHeads s (s.loaded i readable) := by
  rw [State.loaded]
  split
  · cases s.file.load s.clock with
    | none => exact sameHeads_setStage s i _
    | some stored =>
      rw [State.resolve]
      split
      · exact sameHeads_deliver (s.remember stored) i stored
      · split
        · exact sameHeads_setStage s i _
        · exact sameHeads_setStage s i _
  · exact sameHeads_raised s i

theorem sameHeads_replied {i : ℕ} {reply : Reply} {stage : Stage} {m : State}
    (hm : s.replied i reply stage = some m) : SameHeads s m := by
  have hstore : ∀ tokens, SameHeads s (s.store i tokens) :=
    fun tokens ↦ sameHeads_setStage (s.grant tokens) i _
  cases stage with
  | fetching =>
    obtain rfl := Option.some.inj hm
    cases reply with
    | granted tokens => exact sameHeads_deliver (s.grant tokens) i (s.nextGrant tokens)
    | unreachable => exact sameHeads_raised s i
    | refused => exact sameHeads_raised s i
  | refreshing =>
    obtain rfl := Option.some.inj hm
    cases reply with
    | granted tokens => exact hstore tokens
    | unreachable => exact sameHeads_setStage s i _
    | refused => exact sameHeads_raised s i
  | authorizing =>
    obtain rfl := Option.some.inj hm
    cases reply with
    | granted tokens => exact hstore tokens
    | unreachable => exact sameHeads_raised s i
    | refused => exact sameHeads_raised s i
  | _ => exact absurd hm (Option.some_ne_none m).symm

theorem OneRetry.retries_eq_zero (h : OneRetry s) {i : ℕ} {c : Call} (hc : s.calls[i]? = some c)
    (ha : c.answered = false) : s.retries i = 0 := by
  by_contra hne
  have := (h i).2 hne
  rw [hc, Option.map_some, Option.some.injEq] at this
  exact Bool.noConfusion (ha.symm.trans (Prod.mk.inj this).2)

theorem oneRetry_answered (h : OneRetry s) {i : ℕ} {unauthorized : Bool} {c : Call}
    (hc : s.calls[i]? = some c) {m : State} (hm : s.answered p i unauthorized c = some m) :
    OneRetry m := by
  rw [State.answered] at hm
  split at hm
  · rename_i g _
    split at hm
    · exact absurd hm (Option.some_ne_none m).symm
    · rename_i hopen
      rw [not_or, Bool.not_eq_true] at hopen
      split at hm
      · rename_i hretry
        obtain rfl := Option.some.inj hm
        have hanswer : OneRetry ((s.answer i).rejected g) := h.answer i
        apply oneRetry_getHeaders
        apply hanswer.push_retry
        · have hmono : ((s.answer i).rejected g).retries i = (s.answer i).retries i := rfl
          by_contra hne
          -- the answer is new, so nobody had retried
          have hold : s.retries i = 0 := h.retries_eq_zero hc hopen.1
          exact hne ((retries_answer s i i).trans hold)
        · have hmark : (s.answer i).calls[i]? = some { c with answered := true } := by
            rw [State.answer, List.getElem?_modify_eq, hc, Option.map_eq_map, Option.map_some]
          exact (congrArg (Option.map Call.head) hmark).trans
            (congrArg some (Prod.ext hretry.2.2 rfl))
      · obtain rfl := Option.some.inj hm
        exact h.answer i
  · exact absurd hm (Option.some_ne_none m).symm

theorem OneRetry.restart (h : OneRetry s) (outcome : WriteOutcome) :
    OneRetry (s.restart p outcome) := by
  have horigin : ∀ c, (State.kill c).origin = c.origin := by
    intro c
    rw [State.kill]
    split <;> rfl
  intro i
  have hcount : (s.restart p outcome).retries i = s.retries i := by
    rw [State.retries, State.restart, List.countP_map, State.retries]
    congr 1
    funext c
    rw [Function.comp_apply, horigin]
  rw [hcount]
  refine ⟨(h i).1, fun hne ↦ ?_⟩
  obtain ⟨c, hc, hhead⟩ := Option.map_eq_some_iff.mp ((h i).2 hne)
  obtain ⟨ho, ha⟩ := Prod.mk.inj hhead
  rw [State.restart, List.getElem?_map, hc, Option.map_some, Option.map_some]
  refine congrArg some (Prod.ext ((horigin c).trans ho) ?_)
  rw [Call.head, State.kill]
  split
  · rfl
  · exact ha

theorem oneRetry_act (h : OneRetry s) {a : Action} {m : State} (hm : State.act p s a = some m) :
    OneRetry m := by
  cases a with
  | getHeaders http =>
    obtain rfl := Option.some.inj hm
    exact oneRetry_getHeaders (h.push fun i ↦ by cases http <;> exact Origin.noConfusion)
  | triggerReauth =>
    rw [State.act, Option.ite_none_right_eq_some] at hm
    obtain rfl := Option.some.inj hm.2
    have hforget : OneRetry s.invalidate := h
    exact oneRetry_lockOrWait (hforget.push fun i ↦ Origin.noConfusion)
  | acquire =>
    rw [State.act, State.acquire] at hm
    split at hm
    · exact absurd hm (Option.some_ne_none m).symm
    · obtain ⟨i, -, hm⟩ := Option.bind_eq_some_iff.mp hm
      obtain ⟨c, -, rfl⟩ := Option.map_eq_some_iff.mp hm
      exact h.congr (sameHeads_enter s i c.origin)
  | loaded i readable =>
    obtain ⟨c, -, hm⟩ := Option.bind_eq_some_iff.mp hm
    rw [Option.ite_none_right_eq_some, Option.some.injEq] at hm
    exact hm.2 ▸ h.congr (sameHeads_loaded s i readable)
  | replied i reply =>
    obtain ⟨c, -, hm⟩ := Option.bind_eq_some_iff.mp hm
    exact h.congr (sameHeads_replied hm)
  | saved i outcome =>
    obtain ⟨c, -, hm⟩ := Option.bind_eq_some_iff.mp hm
    obtain ⟨data, -, rfl⟩ := State.saved_eq_some.mp hm
    exact h.congr (sameHeads_deliver (s.write data outcome) i data.grant)
  | answered i unauthorized =>
    obtain ⟨c, hc, hm⟩ := Option.bind_eq_some_iff.mp hm
    exact oneRetry_answered h hc hm
  | invalidate =>
    obtain rfl := Option.some.inj hm
    exact h
  | restart outcome =>
    obtain rfl := Option.some.inj hm
    exact h.restart outcome

/-! ## Runs -/

theorem oneRetry_run {start : ℚ} {events : List Event} {m : State}
    (hm : Run.run (step p) (.init p start) events = some m) : OneRetry m := by
  have hinit : OneRetry (.init p start) := fun i ↦ ⟨Nat.zero_le 1, fun h ↦ absurd rfl h⟩
  refine Run.inv_of_run (fun s e m h hstep ↦ ?_) hinit hm
  exact oneRetry_act (s := { s with clock := e.time }) h (step_eq_some.mp hstep).2

theorem guarded_of_oauth2 (hp : p.kind = .oauth2) {s : State} (h : InMemory s)
    (events : List Event) : Run.Guarded (step p) (Forgotten p) s events := by
  induction events generalizing s with
  | nil => trivial
  | cons e events ih =>
    refine ⟨forgotten_of_inMemory h e, ?_⟩
    split
    · trivial
    · rename_i m hm
      exact ih (h.step hp hm)

/-- **A rejected token is not sent again.** In every run, of a provider that keeps no file or of one
that does and in which a token that is invalidated is not in the file, a string that was rejected is
handed out later only as a later issue; and in every run each request is retried at most once. -/
theorem not_resent (p : Provider) (start : ℚ) (events : List Event)
    (hok : p.kind = .oauth2 ∨ Run.Guarded (step p) (Forgotten p) (.init p start) events) {m : State}
    (hm : Run.run (step p) (.init p start) events = some m) : NotResent m ∧ OneRetry m := by
  have hguard : Run.Guarded (step p) (Forgotten p) (.init p start) events := by
    rcases hok with hp | hok
    · exact guarded_of_oauth2 hp (InMemory.init p start) events
    · exact hok
  have hinit : AllKept (.init p start) := fun r hr ↦ absurd hr List.not_mem_nil
  have hkept : AllKept m :=
    Run.invariant_of_run (fun s e m h hok hstep ↦ allKept_step h hok hstep) hinit hguard hm
  exact ⟨hkept.notResent, oneRetry_run hm⟩

/-- A token is issued, and the backend rejects it. The second one it takes. -/
def rejectedOnce : List Event :=
  [⟨0, .getHeaders true⟩, ⟨1, .replied 0 (.granted ⟨"first", "", 3600⟩)⟩, ⟨2, .answered 0 true⟩,
    ⟨3, .replied 1 (.granted ⟨"second", "", 3600⟩)⟩, ⟨4, .answered 1 false⟩]

theorem not_resent_rejectedOnce : (Run.run (step ⟨.oauth2, 300, true⟩)
    (.init ⟨.oauth2, 300, true⟩ 0) rejectedOnce).isSome ∧
      ∀ m, Run.run (step ⟨.oauth2, 300, true⟩) (.init ⟨.oauth2, 300, true⟩ 0) rejectedOnce = some m →
        NotResent m ∧ OneRetry m :=
  ⟨by decide +kernel, fun _ hm ↦ not_resent _ 0 rejectedOnce (Or.inl rfl) hm⟩

/-- The same with a file: the token that was rejected is the one that was written. -/
def rejectedAfterSave : List Event :=
  [⟨10, .getHeaders true⟩, ⟨11, .replied 0 (.granted ⟨"first", "", 3600⟩)⟩, ⟨11, .saved 0 .written⟩,
    ⟨12, .answered 0 true⟩, ⟨12, .loaded 1 true⟩]

/-- The retry carries the token that was just rejected. -/
theorem not_forall_notResent : ¬ ∀ (p : Provider) (start : ℚ) (events : List Event) (m : State),
    Run.run (step p) (.init p start) events = some m → NotResent m := by
  intro h
  have hrun := Run.run_eq_some_getD
    (show (Run.run (step ⟨.pkce, 300, true⟩) (.init ⟨.pkce, 300, true⟩ 0)
      rejectedAfterSave).isSome by decide +kernel) (.init ⟨.pkce, 300, true⟩ 0)
  have hlater := h ⟨.pkce, 300, true⟩ 0 rejectedAfterSave _ hrun ⟨"first", 1, 1⟩
    (by decide +kernel) ⟨1, ⟨⟨"first", "", 3600⟩, 11, 0⟩, 12⟩ (by decide +kernel)
  exact absurd (hlater rfl) (by decide)

end Tokens

end ArgusMcp
