import ArgusMcp.Bridge.Tokens

/-!
# One request for a token at a time

`OAuth2Provider.get_headers` looks into the memory, waits for the lock, looks again, and only then
asks the authorization server. So of the calls that find the memory empty at the same time one asks,
and the others find its token when they get the lock, as long as nobody has invalidated it.

## What a step can do

Seen from outside, a call is at a stage, and there are eight things that can happen to the calls of
this provider. `Effect` lists them, with what is known before and what holds after. Everything else
here is about `Effect`: that the lock is held exactly while a call fetches, and while the memory is
empty; what the calls do while a token is valid; what they do after a request has failed.
-/

namespace ArgusMcp

namespace Tokens

namespace State

variable {p : Provider} {s : State}

def stageOf (s : State) (i : ℕ) : Option Stage := (s.calls[i]?).map Call.stage

theorem stageOf_setStage {i : ℕ} {c : Call} (hc : s.calls[i]? = some c) (stage : Stage) (j : ℕ) :
    (s.setStage i stage).stageOf j = if j = i then some stage else s.stageOf j := by
  by_cases h : j = i
  · subst h
    rw [stageOf, setStage, List.getElem?_modify_eq, hc, if_pos rfl]
    rfl
  · rw [stageOf, setStage, List.getElem?_modify_ne _ _ (Ne.symm h), if_neg h]
    rfl

theorem stageOf_deliver {i : ℕ} {c : Call} (hc : s.calls[i]? = some c) (g : Grant) (j : ℕ) :
    (s.deliver i g).stageOf j = if j = i then some (.returned g) else s.stageOf j := by
  rw [← stageOf_setStage hc, stageOf, calls_deliver]
  rfl

theorem stageOf_push (origin : Origin) (j : ℕ) : (s.push origin).stageOf j =
    if j = s.calls.length then some .waiting else s.stageOf j := by
  rw [stageOf, push]
  split
  · rename_i h
    subst h
    rw [List.getElem?_concat_length]
    rfl
  · rename_i h
    rcases lt_or_gt_of_ne h with hlt | hgt
    · rw [List.getElem?_append_left hlt]
      rfl
    · have hlong : (s.calls ++ [(⟨origin, .waiting, false⟩ : Call)])[j]? = none :=
        List.getElem?_eq_none (by rw [List.length_append, List.length_singleton]; omega)
      rw [hlong, stageOf, List.getElem?_eq_none hgt.le]

theorem stageOf_length (s : State) : s.stageOf s.calls.length = none := by
  rw [stageOf, List.getElem?_eq_none le_rfl]
  rfl

/-- Memory, lock and numbering are as before. -/
structure SameMemory (s m : State) : Prop where
  clock : m.clock = s.clock
  cache : m.cache = s.cache
  locked : m.locked = s.locked
  issued : m.issued = s.issued

/-- Someone is waiting for the lock. -/
def HasWaiter (s : State) : Prop := ∃ i, s.stageOf i = some .waiting

theorem hasWaiter_iff : s.HasWaiter ↔ ∃ c ∈ s.calls, c.stage = .waiting := by
  constructor
  · rintro ⟨i, hi⟩
    obtain ⟨c, hc, hstage⟩ := Option.map_eq_some_iff.mp hi
    exact ⟨c, List.mem_of_getElem? hc, hstage⟩
  · rintro ⟨c, hc, hstage⟩
    obtain ⟨i, hi⟩ := List.mem_iff_getElem?.mp hc
    exact ⟨i, by rw [stageOf, hi, Option.map_some, hstage]⟩

end State

/-- The event clears the memory. An answer of 401 does, unless it is to a retry. -/
def Action.Clears (p : Provider) (s : State) : Action → Prop
  | .invalidate | .restart _ => True
  | .answered i unauthorized => unauthorized = true ∧ p.retryOn401 = true ∧
      ∃ c, s.calls[i]? = some c ∧ c.origin = .request
  | _ => False

def Action.IsReply : Action → Prop
  | .replied _ _ => True
  | _ => False

/-- What an event of a provider that keeps no file does to its calls. -/
inductive Effect (p : Provider) (s : State) : Action → State → Prop
  /-- A call that is new, or was waiting, finds a token in memory. -/
  | served {a m i g} (ha : ¬ a.IsReply) (hg : s.cached p = some g)
      (hi : s.stageOf i = some .waiting ∨ s.stageOf i = none)
      (hst : ∀ j, m.stageOf j = if j = i then some (.returned g) else s.stageOf j)
      (hsame : s.SameMemory m) : Effect p s a m
  /-- A call that is new joins those that wait. -/
  | queued {a m i} (ha : ¬ a.IsReply) (hi : s.stageOf i = none) (hbusy : s.locked = true ∨ s.HasWaiter)
      (hst : ∀ j, m.stageOf j = if j = i then some .waiting else s.stageOf j)
      (hclock : m.clock = s.clock) (hlocked : m.locked = s.locked) (hissued : m.issued = s.issued)
      (hcache : m.cache = s.cache ∧ s.cached p = none ∨
        m.cache = s.cache.invalidate ∧ a.Clears p s) : Effect p s a m
  /-- A call that is new, or was waiting, finds no token and asks for one. -/
  | fetching {a m i} (ha : ¬ a.IsReply) (hi : s.stageOf i = some .waiting ∨ s.stageOf i = none)
      (hfree : s.locked = false)
      (hst : ∀ j, m.stageOf j = if j = i then some .fetching else s.stageOf j)
      (hclock : m.clock = s.clock) (hlocked : m.locked = true) (hissued : m.issued = s.issued)
      (hcache : m.cache = s.cache ∧ s.cached p = none ∨
        m.cache = s.cache.invalidate ∧ a.Clears p s) : Effect p s a m
  /-- The request is answered with a token. -/
  | granted {i tokens m} (hi : s.stageOf i = some .fetching)
      (hst : ∀ j, m.stageOf j = if j = i then some (.returned (s.nextGrant tokens))
        else s.stageOf j)
      (hclock : m.clock = s.clock) (hlocked : m.locked = false) (hissued : m.issued = s.issued + 1)
      (hcache : m.cache = s.cache.set (s.nextGrant tokens) tokens.expiresIn s.clock) :
      Effect p s (.replied i (.granted tokens)) m
  /-- The request fails. -/
  | failed {i reply m} (hi : s.stageOf i = some .fetching) (hreply : ∀ tokens, reply ≠ .granted tokens)
      (hst : ∀ j, m.stageOf j = if j = i then some .raised else s.stageOf j)
      (hclock : m.clock = s.clock) (hlocked : m.locked = false) (hissued : m.issued = s.issued)
      (hcache : m.cache = s.cache) : Effect p s (.replied i reply) m
  /-- Nothing happens to any call. -/
  | idle {a m} (ha : ¬ a.IsReply) (hst : ∀ j, m.stageOf j = s.stageOf j) (hsame : s.SameMemory m) : Effect p s a m
  /-- The memory is cleared. -/
  | cleared {m} (hst : ∀ j, m.stageOf j = s.stageOf j) (hclock : m.clock = s.clock)
      (hlocked : m.locked = s.locked) (hissued : m.issued = s.issued)
      (hcache : m.cache = s.cache.invalidate) : Effect p s .invalidate m
  /-- The process ends, and every call with it. -/
  | restarted {outcome m} (hst : ∀ j, m.stageOf j ≠ some .waiting ∧ m.stageOf j ≠ some .fetching)
      (hclock : m.clock = s.clock) (hlocked : m.locked = false) (hissued : m.issued = s.issued)
      (hcache : m.cache = .new p.expiryBuffer) : Effect p s (.restart outcome) m

variable {p : Provider} {s : State}

theorem State.enter_of_cached {origin : Origin} (ho : origin ≠ .reauth) {g : Grant}
    (hg : s.cached p = some g) (i : ℕ) : s.enter p i origin = s.deliver i g := by
  rw [enter, if_neg ho, hg]

theorem State.enter_of_none (hp : p.kind = .oauth2) {origin : Origin} (ho : origin ≠ .reauth)
    (hg : s.cached p = none) (i : ℕ) :
    s.enter p i origin = { s.setStage i .fetching with locked := true } := by
  rw [enter, if_neg ho, hg, InMemory.firstAwait hp ho]

theorem State.sameMemory_deliver (s : State) (i : ℕ) (g : Grant) : s.SameMemory (s.deliver i g) :=
  ⟨clock_deliver, cache_deliver, locked_deliver, issued_deliver⟩

theorem State.acquire_eq_some {m : State} (h : s.acquire p = some m) :
    s.locked = false ∧ ∃ i c, s.calls[i]? = some c ∧ c.stage = .waiting ∧
      m = s.enter p i c.origin := by
  rw [acquire] at h
  split at h
  · exact absurd h (Option.some_ne_none m).symm
  · rename_i hfree
    obtain ⟨i, hi, h⟩ := Option.bind_eq_some_iff.mp h
    obtain ⟨c, hc, rfl⟩ := Option.map_eq_some_iff.mp h
    obtain ⟨hlt, hwait, -⟩ := List.findIdx?_eq_some_iff_getElem.mp hi
    rw [List.getElem?_eq_getElem hlt, Option.some.injEq] at hc
    rw [hc] at hwait
    exact ⟨Bool.eq_false_iff.mpr hfree, i, c, by rw [List.getElem?_eq_getElem hlt, hc],
      of_decide_eq_true hwait, rfl⟩

theorem effect_acquire (hmem : InMemory s) (hp : p.kind = .oauth2) {m : State}
    (h : s.acquire p = some m) : Effect p s .acquire m := by
  obtain ⟨hfree, i, c, hc, hwait, rfl⟩ := State.acquire_eq_some h
  have ho := (hmem.calls c (List.mem_of_getElem? hc)).1
  have hi : s.stageOf i = some .waiting ∨ s.stageOf i = none :=
    Or.inl (by rw [State.stageOf, hc, Option.map_some, hwait])
  cases hg : s.cached p with
  | some g =>
    rw [State.enter_of_cached ho hg]
    exact .served id hg hi (State.stageOf_deliver hc g) (s.sameMemory_deliver i g)
  | none =>
    rw [State.enter_of_none hp ho hg]
    exact .fetching id hi hfree (State.stageOf_setStage hc .fetching) rfl rfl rfl (Or.inl ⟨rfl, hg⟩)

theorem effect_getHeaders (hp : p.kind = .oauth2) {origin : Origin} (ho : origin ≠ .reauth)
    {a : Action} (ha : ¬ a.IsReply) {s' : State} (hst : ∀ j, s'.stageOf j = s.stageOf j)
    (hclock : s'.clock = s.clock) (hlocked : s'.locked = s.locked) (hissued : s'.issued = s.issued)
    (hcache : s'.cache = s.cache ∨ s'.cache = s.cache.invalidate ∧ a.Clears p s) :
    Effect p s a (s'.getHeaders p origin) := by
  have hpush := State.getElem?_push (s := s') origin
  have hnew : s.stageOf s'.calls.length = none := hst _ ▸ s'.stageOf_length
  rw [State.getHeaders]
  cases hg : s'.cached p with
  | some g =>
    -- a memory that was cleared has no token
    have hsame : s'.cache = s.cache := by
      rcases hcache with h | ⟨h, -⟩
      · exact h
      · rw [State.cached, h, TokenCache.get_invalidate, Option.filter_none] at hg
        exact absurd hg (Option.some_ne_none g).symm
    have hg' : s.cached p = some g := by
      rw [← hg]
      exact (State.cached_congr hclock hsame).symm
    refine .served ha hg' (Or.inr hnew) (fun j ↦ ?_) ?_
    · rw [State.stageOf_deliver hpush, State.stageOf_push, hst]
      split <;> rfl
    · have := (s'.push origin).sameMemory_deliver s'.calls.length g
      exact ⟨this.clock.trans hclock, this.cache.trans hsame, this.locked.trans hlocked,
        this.issued.trans hissued⟩
  | none =>
    have hempty : s'.cache = s.cache ∧ s.cached p = none ∨
        s'.cache = s.cache.invalidate ∧ a.Clears p s := by
      rcases hcache with h | h
      · exact Or.inl ⟨h, (State.cached_congr hclock h).symm.trans hg⟩
      · exact Or.inr h
    change Effect p s a (s'.lockOrWait p origin)
    rw [State.lockOrWait]
    split
    · rename_i hbusy
      rw [← State.hasWaiter_iff, hlocked] at hbusy
      have hbusy' : s.locked = true ∨ s.HasWaiter :=
        hbusy.imp_right (Exists.imp fun j hj ↦ (hst j).symm.trans hj)
      refine .queued ha hnew hbusy' (fun j ↦ ?_) hclock hlocked hissued hempty
      rw [State.stageOf_push, hst]
    · rename_i hbusy
      have hfree : s.locked = false :=
        Bool.eq_false_iff.mpr fun hl ↦ hbusy (Or.inl (hlocked.trans hl))
      have hnone : (s'.push origin).cached p = none := hg
      rw [State.enter_of_none hp ho hnone]
      refine .fetching ha (Or.inr hnew) hfree (fun j ↦ ?_) hclock rfl hissued hempty
      have hstage := State.stageOf_setStage hpush .fetching j
      rw [State.stageOf_push, hst] at hstage
      refine hstage.trans ?_
      split <;> rfl

theorem State.stageOf_answer (s : State) (i j : ℕ) : (s.answer i).stageOf j = s.stageOf j := by
  by_cases h : i = j
  · subst h
    rw [stageOf, answer, List.getElem?_modify_eq, Option.map_eq_map, Option.map_map]
    rfl
  · rw [stageOf, answer, List.getElem?_modify_ne _ _ h]
    rfl

theorem State.stageOf_restart (s : State) (outcome : WriteOutcome) (j : ℕ) :
    (s.restart p outcome).stageOf j ≠ some .waiting ∧
      (s.restart p outcome).stageOf j ≠ some .fetching := by
  rw [stageOf, restart, List.getElem?_map, Option.map_map]
  have hkill : ∀ c, (kill c).stage ≠ .waiting ∧ (kill c).stage ≠ .fetching := by
    intro c
    rw [kill]
    split
    · rename_i g hg
      rw [hg]
      exact ⟨Stage.noConfusion, Stage.noConfusion⟩
    · exact ⟨Stage.noConfusion, Stage.noConfusion⟩
  constructor
  · intro h
    obtain ⟨c, -, hc⟩ := Option.map_eq_some_iff.mp h
    exact (hkill c).1 hc
  · intro h
    obtain ⟨c, -, hc⟩ := Option.map_eq_some_iff.mp h
    exact (hkill c).2 hc

/-- **What one event does.** -/
theorem effect_of_act (hmem : InMemory s) (hp : p.kind = .oauth2) {a : Action} {m : State}
    (hm : State.act p s a = some m) : Effect p s a m := by
  cases a with
  | getHeaders http =>
    obtain rfl := Option.some.inj hm
    exact effect_getHeaders hp (by cases http <;> exact Origin.noConfusion) id (fun _ ↦ rfl) rfl rfl
      rfl (Or.inl rfl)
  | triggerReauth =>
    rw [State.act, hp, if_neg Kind.noConfusion] at hm
    exact absurd hm (Option.some_ne_none m).symm
  | acquire => exact effect_acquire hmem hp hm
  | loaded i readable =>
    obtain ⟨c, hc, hm⟩ := Option.bind_eq_some_iff.mp hm
    rw [Option.ite_none_right_eq_some] at hm
    have := hmem.stage_eq hc (by rw [hm.1]; rfl)
    exact Stage.noConfusion (hm.1.symm.trans this)
  | replied i reply =>
    obtain ⟨c, hc, hm⟩ := Option.bind_eq_some_iff.mp hm
    have hfetch : c.stage = .fetching := by
      rcases (hmem.calls c (List.mem_of_getElem? hc)).2 with hs | hs | hs | ⟨g, hs⟩
      · rw [hs] at hm
        exact absurd hm (Option.some_ne_none m).symm
      · exact hs
      · rw [hs] at hm
        exact absurd hm (Option.some_ne_none m).symm
      · rw [hs] at hm
        exact absurd hm (Option.some_ne_none m).symm
    have hi : s.stageOf i = some .fetching := by
      rw [State.stageOf, hc, Option.map_some, hfetch]
    rw [hfetch] at hm
    obtain rfl := Option.some.inj hm
    have hraised : ∀ reply, (∀ tokens, reply ≠ .granted tokens) →
        Effect p s (.replied i reply) (s.setStage i .raised).release :=
      fun reply hr ↦ .failed hi hr (State.stageOf_setStage hc .raised) rfl rfl rfl rfl
    cases reply with
    | granted tokens =>
      have hd := (s.grant tokens).sameMemory_deliver i (s.nextGrant tokens)
      exact .granted hi (State.stageOf_deliver (s := s.grant tokens) hc _) hd.clock rfl hd.issued
        hd.cache
    | unreachable => exact hraised .unreachable fun _ ↦ Reply.noConfusion
    | refused => exact hraised .refused fun _ ↦ Reply.noConfusion
  | saved i outcome =>
    obtain ⟨c, hc, hm⟩ := Option.bind_eq_some_iff.mp hm
    obtain ⟨data, hsaving, -⟩ := State.saved_eq_some.mp hm
    have := hmem.stage_eq hc (by rw [hsaving]; rfl)
    exact Stage.noConfusion (hsaving.symm.trans this)
  | answered i unauthorized =>
    obtain ⟨c, hc, hm⟩ := Option.bind_eq_some_iff.mp hm
    rw [State.answered] at hm
    split at hm
    · rename_i g _
      split at hm
      · exact absurd hm (Option.some_ne_none m).symm
      · split at hm
        · rename_i hretry
          obtain rfl := Option.some.inj hm
          have hstages : ∀ j, ((s.answer i).rejected g).stageOf j = s.stageOf j :=
            s.stageOf_answer i
          exact effect_getHeaders hp Origin.noConfusion id hstages rfl rfl rfl
            (Or.inr ⟨rfl, hretry.1, hretry.2.1, c, hc, hretry.2.2⟩)
        · obtain rfl := Option.some.inj hm
          exact .idle id (s.stageOf_answer i) ⟨rfl, rfl, rfl, rfl⟩
    · exact absurd hm (Option.some_ne_none m).symm
  | invalidate =>
    obtain rfl := Option.some.inj hm
    exact .cleared (fun _ ↦ rfl) rfl rfl rfl rfl
  | restart outcome =>
    obtain rfl := Option.some.inj hm
    exact .restarted (s.stageOf_restart outcome) rfl rfl rfl rfl

/-! ## The lock -/

theorem State.cached_of_tick {t : ℚ} (ht : s.clock ≤ t) {g : Grant}
    (h : { s with clock := t }.cached p = some g) : s.cached p = some g := by
  obtain ⟨hget, hg⟩ := Option.filter_eq_some_iff.mp h
  obtain ⟨hlt, htoken⟩ := TokenCache.get_eq_some.mp hget
  exact Option.filter_eq_some_iff.mpr
    ⟨TokenCache.get_eq_some.mpr ⟨ht.trans_lt hlt, htoken⟩, hg⟩

theorem State.cached_none_of_tick {t : ℚ} (ht : s.clock ≤ t) (h : s.cached p = none) :
    { s with clock := t }.cached p = none := by
  rw [Option.eq_none_iff_forall_ne_some]
  intro g hg
  exact Option.some_ne_none g ((cached_of_tick ht hg).symm.trans h)

/-- The lock is held exactly while one call fetches, and the memory gives nobody a token then. -/
structure FetchInv (p : Provider) (s : State) : Prop where
  free : s.locked = false → ∀ i, s.stageOf i ≠ some .fetching
  held : s.locked = true → ∃ i, ∀ j, s.stageOf j = some .fetching ↔ j = i
  empty : s.locked = true → s.cached p = none

theorem fetching_iff {m : State} {i : ℕ} {stage : Stage}
    (hst : ∀ j, m.stageOf j = if j = i then some stage else s.stageOf j)
    (hstage : stage ≠ .fetching) (hi : s.stageOf i ≠ some .fetching) (j : ℕ) :
    m.stageOf j = some .fetching ↔ s.stageOf j = some .fetching := by
  rw [hst]
  split
  · rename_i h
    subst h
    exact iff_of_false (fun h ↦ hstage (Option.some.inj h)) hi
  · exact Iff.rfl

namespace FetchInv

theorem congr {m : State} (h : FetchInv p s) (hlocked : m.locked = s.locked)
    (hst : ∀ j, m.stageOf j = some .fetching ↔ s.stageOf j = some .fetching)
    (hempty : s.cached p = none → m.cached p = none) : FetchInv p m where
  free := fun hl i hi ↦ h.free (hlocked ▸ hl) i ((hst i).mp hi)
  held := by
    intro hl
    obtain ⟨i, hi⟩ := h.held (hlocked ▸ hl)
    exact ⟨i, fun j ↦ (hst j).trans (hi j)⟩
  empty := fun hl ↦ hempty (h.empty (hlocked ▸ hl))

theorem leave {m : State} (h : FetchInv p s) {i : ℕ} {stage : Stage}
    (hi : s.stageOf i = some .fetching) (hlocked : m.locked = false) (hstage : stage ≠ .fetching)
    (hst : ∀ j, m.stageOf j = if j = i then some stage else s.stageOf j) : FetchInv p m where
  free := by
    intro _ j hj
    have hheld : s.locked = true := by
      by_contra hfree
      exact h.free (Bool.eq_false_iff.mpr hfree) i hi
    obtain ⟨k, hk⟩ := h.held hheld
    rw [hst] at hj
    split at hj
    · exact hstage (Option.some.inj hj)
    · rename_i hne
      exact hne (((hk j).mp hj).trans ((hk i).mp hi).symm)
  held := fun hl ↦ Bool.noConfusion (hlocked.symm.trans hl)
  empty := fun hl ↦ Bool.noConfusion (hlocked.symm.trans hl)

theorem cached_none {m : State} {a : Action} (hclock : m.clock = s.clock)
    (hcache : m.cache = s.cache ∧ s.cached p = none ∨
      m.cache = s.cache.invalidate ∧ a.Clears p s) : m.cached p = none := by
  rcases hcache with ⟨hc, hnone⟩ | ⟨hc, -⟩
  · exact (State.cached_congr hclock hc).trans hnone
  · rw [State.cached, hc, TokenCache.get_invalidate, Option.filter_none]

theorem effect {a : Action} {m : State} (h : FetchInv p s) (hE : Effect p s a m) :
    FetchInv p m := by
  have hidle : ∀ {i : ℕ}, s.stageOf i = some .waiting ∨ s.stageOf i = none →
      s.stageOf i ≠ some .fetching := by
    rintro i (hi | hi) hf
    · exact Stage.noConfusion (Option.some.inj (hi.symm.trans hf))
    · exact Option.some_ne_none _ (hf.symm.trans hi)
  cases hE with
  | served _ hg hi hst hsame =>
    refine h.congr hsame.locked (fetching_iff hst Stage.noConfusion (hidle hi)) fun hnone ↦ ?_
    exact (State.cached_congr hsame.clock hsame.cache).trans hnone
  | queued _ hi _ hst hclock hlocked _ hcache =>
    exact h.congr hlocked (fetching_iff hst Stage.noConfusion (hidle (Or.inr hi)))
      fun _ ↦ cached_none hclock hcache
  | @fetching a m i _ hi hfree hst hclock hlocked _ hcache =>
    refine ⟨fun hl ↦ Bool.noConfusion (hlocked.symm.trans hl), fun _ ↦ ⟨i, fun j ↦ ?_⟩,
      fun _ ↦ cached_none hclock hcache⟩
    rw [hst]
    split
    · rename_i hj
      exact iff_of_true rfl hj
    · rename_i hj
      exact iff_of_false (h.free hfree j) hj
  | granted hi hst _ hlocked => exact h.leave hi hlocked Stage.noConfusion hst
  | failed hi _ hst _ hlocked => exact h.leave hi hlocked Stage.noConfusion hst
  | idle _ hst hsame =>
    refine h.congr hsame.locked (fun j ↦ by rw [hst]) fun hnone ↦ ?_
    exact (State.cached_congr hsame.clock hsame.cache).trans hnone
  | cleared hst hclock hlocked _ hcache =>
    refine h.congr hlocked (fun j ↦ by rw [hst]) fun _ ↦ ?_
    rw [State.cached, hcache, TokenCache.get_invalidate, Option.filter_none]
  | restarted hst _ hlocked =>
    exact ⟨fun _ i ↦ (hst i).2, fun hl ↦ Bool.noConfusion (hlocked.symm.trans hl),
      fun hl ↦ Bool.noConfusion (hlocked.symm.trans hl)⟩

theorem tick (h : FetchInv p s) {t : ℚ} (ht : s.clock ≤ t) : FetchInv p { s with clock := t } :=
  ⟨h.free, h.held, fun hl ↦ State.cached_none_of_tick ht (h.empty hl)⟩

theorem init (p : Provider) (t : ℚ) : FetchInv p (.init p t) :=
  ⟨fun _ _ h ↦ absurd h (Option.some_ne_none _).symm, fun h ↦ Bool.noConfusion h,
    fun h ↦ Bool.noConfusion h⟩

end FetchInv

theorem effect_of_step (hmem : InMemory s) (hp : p.kind = .oauth2) {e : Event} {m : State}
    (hm : step p s e = some m) : s.clock ≤ e.time ∧
      Effect p { s with clock := e.time } e.action m := by
  obtain ⟨ht, hm⟩ := step_eq_some.mp hm
  exact ⟨ht, effect_of_act (s := { s with clock := e.time }) ⟨hmem.file, hmem.calls⟩ hp hm⟩

theorem clock_of_effect {a : Action} {m : State} (hE : Effect p s a m) : m.clock = s.clock := by
  cases hE with
  | served _ _ _ _ hsame => exact hsame.clock
  | queued _ _ _ _ hclock => exact hclock
  | fetching _ _ _ _ hclock => exact hclock
  | granted _ _ hclock => exact hclock
  | failed _ _ _ hclock => exact hclock
  | idle _ _ hsame => exact hsame.clock
  | cleared _ hclock => exact hclock
  | restarted _ hclock => exact hclock

theorem buffer_of_effect {a : Action} {m : State} (h : s.cache.expiryBuffer = p.expiryBuffer)
    (hE : Effect p s a m) : m.cache.expiryBuffer = p.expiryBuffer := by
  have hkept : ∀ {m : State}, m.cache = s.cache ∧ s.cached p = none ∨
      m.cache = s.cache.invalidate ∧ a.Clears p s → m.cache.expiryBuffer = p.expiryBuffer := by
    rintro m (⟨hc, -⟩ | ⟨hc, -⟩)
    · rw [hc, h]
    · rw [hc]
      exact h
  cases hE with
  | served _ _ _ _ hsame => rw [hsame.cache, h]
  | queued _ _ _ _ _ _ _ hcache => exact hkept hcache
  | fetching _ _ _ _ _ _ _ hcache => exact hkept hcache
  | granted _ _ _ _ _ hcache =>
    rw [hcache]
    exact h
  | failed _ _ _ _ _ _ hcache => rw [hcache, h]
  | idle _ _ hsame => rw [hsame.cache, h]
  | cleared _ _ _ _ hcache =>
    rw [hcache]
    exact h
  | restarted _ _ _ _ hcache =>
    rw [hcache]
    rfl

/-- What is known in every state of a run. -/
structure Known (p : Provider) (s : State) : Prop where
  mem : InMemory s
  fetch : FetchInv p s
  buffer : s.cache.expiryBuffer = p.expiryBuffer

theorem Known.init (p : Provider) (t : ℚ) : Known p (.init p t) :=
  ⟨InMemory.init p t, FetchInv.init p t, rfl⟩

theorem Known.step (h : Known p s) (hp : p.kind = .oauth2) {e : Event} {m : State}
    (hm : Tokens.step p s e = some m) : Known p m := by
  obtain ⟨ht, hE⟩ := effect_of_step h.mem hp hm
  exact ⟨h.mem.step hp hm, (h.fetch.tick ht).effect hE,
    buffer_of_effect (s := { s with clock := e.time }) h.buffer hE⟩

theorem Known.run (h : Known p s) (hp : p.kind = .oauth2) {events : List Event} {m : State}
    (hm : Run.run (Tokens.step p) s events = some m) : Known p m :=
  Run.inv_of_run (fun _ _ _ h hstep ↦ h.step hp hstep) h hm

theorem acquire_isSome (h : s.locked = false) (hwait : s.HasWaiter) : (s.acquire p).isSome := by
  rw [State.acquire, if_neg (by rw [h]; exact Bool.noConfusion)]
  obtain ⟨c, hc, hw⟩ := State.hasWaiter_iff.mp hwait
  have hfind : (s.calls.findIdx? fun c ↦ c.stage = .waiting).isSome := by
    rw [List.findIdx?_isSome, List.any_eq_true]
    exact ⟨c, hc, decide_eq_true hw⟩
  obtain ⟨i, hi⟩ := Option.isSome_iff_exists.mp hfind
  obtain ⟨hlt, -, -⟩ := List.findIdx?_eq_some_iff_getElem.mp hi
  rw [hi, Option.bind_some, List.getElem?_eq_getElem hlt, Option.map_some]
  rfl

/-! ## While a token is valid -/

/-- The memory gives everybody this token until then, nobody asks for one, and whoever waited has it
or waits. -/
structure Settled (p : Provider) (g : Grant) (deadline : ℚ) (W : ℕ → Prop) (m : State) : Prop where
  cached : ∀ t, m.clock ≤ t → t < deadline → { m with clock := t }.cached p = some g
  free : m.locked = false
  waiters : ∀ j, W j → m.stageOf j = some .waiting ∨ m.stageOf j = some (.returned g)

namespace Settled

variable {g : Grant} {deadline : ℚ} {W : ℕ → Prop}

theorem tick (h : Settled p g deadline W s) {t : ℚ} (ht : s.clock ≤ t) :
    Settled p g deadline W { s with clock := t } :=
  ⟨fun t' ht' ↦ h.cached t' (ht.trans ht'), h.free, h.waiters⟩

/-- The stage of those that waited, when another call has moved. -/
theorem waiters_of (h : Settled p g deadline W s) {m : State} {i : ℕ} {stage : Stage}
    (hst : ∀ j, m.stageOf j = if j = i then some stage else s.stageOf j)
    (hi : W i → stage = .waiting ∨ stage = .returned g) (j : ℕ) (hj : W j) :
    m.stageOf j = some .waiting ∨ m.stageOf j = some (.returned g) := by
  rw [hst]
  split
  · rename_i hji
    subst hji
    exact (hi hj).imp (congrArg some) (congrArg some)
  · exact h.waiters j hj

theorem effect (h : Settled p g deadline W s) (hF : FetchInv p s) (hvalid : s.clock < deadline)
    {a : Action} {m : State} (hE : Effect p s a m) (ha : ¬ a.Clears p s) :
    Settled p g deadline W m := by
  have hg : s.cached p = some g := h.cached s.clock le_rfl hvalid
  have hcached : ∀ {m : State}, m.clock = s.clock → m.cache = s.cache → ∀ t, m.clock ≤ t →
      t < deadline → { m with clock := t }.cached p = some g := by
    intro m hclock hcache t ht hlt
    rw [← h.cached t (hclock ▸ ht) hlt]
    exact State.cached_congr rfl hcache
  -- the memory has a token and is not cleared, so nobody has to wait or to ask
  have hnever : ∀ {m : State}, ¬ (m.cache = s.cache ∧ s.cached p = none ∨
      m.cache = s.cache.invalidate ∧ a.Clears p s) := by
    rintro m (⟨-, hnone⟩ | ⟨-, hc⟩)
    · exact Option.some_ne_none g (hg.symm.trans hnone)
    · exact ha hc
  cases hE with
  | served _ hg' hi hst hsame =>
    obtain rfl := Option.some.inj (hg.symm.trans hg')
    exact ⟨hcached hsame.clock hsame.cache, hsame.locked.trans h.free,
      h.waiters_of hst fun _ ↦ Or.inr rfl⟩
  | queued _ _ _ _ _ _ _ hcache => exact absurd hcache hnever
  | fetching _ _ _ _ _ _ _ hcache => exact absurd hcache hnever
  | granted hi => exact absurd hi (hF.free h.free _)
  | failed hi => exact absurd hi (hF.free h.free _)
  | idle _ hst hsame =>
    refine ⟨hcached hsame.clock hsame.cache, hsame.locked.trans h.free, fun j hj ↦ ?_⟩
    rw [hst]
    exact h.waiters j hj
  | cleared => exact absurd trivial ha
  | restarted => exact absurd trivial ha

theorem of_granted (hp : p.kind = .oauth2) {i : ℕ} {tokens : TokenSet}
    (hlife : s.cache.expiryBuffer < tokens.expiresIn) {m : State}
    (hE : Effect p s (.replied i (.granted tokens)) m) :
    m.stageOf i = some (.returned (s.nextGrant tokens)) ∧
      Settled p (s.nextGrant tokens) (s.clock + (tokens.expiresIn - s.cache.expiryBuffer))
        (fun j ↦ s.stageOf j = some .waiting) m := by
  cases hE with
  | served ha => exact absurd trivial ha
  | queued ha => exact absurd trivial ha
  | fetching ha => exact absurd trivial ha
  | idle ha => exact absurd trivial ha
  | failed _ hreply => exact absurd rfl (hreply tokens)
  | granted hi hst hclock hlocked _ hcache =>
    refine ⟨by rw [hst, if_pos rfl], fun t _ ht ↦ ?_, hlocked, fun j hj ↦ ?_⟩
    · have hget : m.cache.get t = some (s.nextGrant tokens) := by
        rw [hcache, TokenCache.get_set, max_eq_right (by linarith)]
        exact ⟨ht, rfl⟩
      rw [State.cached, hget, Option.filter_some, hp]
      rfl
    · rw [hst, if_neg]
      · exact Or.inl hj
      · rintro rfl
        exact Stage.noConfusion (Option.some.inj (hi.symm.trans hj))

/-- **Until it ends.** In a run of events that do not clear the memory, the matter stays settled as
long as the token is valid. -/
theorem run (hp : p.kind = .oauth2) (hK : Known p s) (h : Settled p g deadline W s)
    {events : List Event} {m : State}
    (hclear : Run.Guarded (step p) (fun s e ↦ ¬ e.action.Clears p s) s events)
    (hm : Run.run (step p) s events = some m) (hvalid : m.clock < deadline) :
    Settled p g deadline W m := by
  have hInv : Known p m ∧ (m.clock < deadline → Settled p g deadline W m) := by
    refine @Run.invariant_of_run _ _ (step p) (fun s e ↦ ¬ e.action.Clears p s)
      (fun m ↦ Known p m ∧ (m.clock < deadline → Settled p g deadline W m)) ?_ events s m
      ⟨hK, fun _ ↦ h⟩ hclear hm
    rintro s e m ⟨hK, hs⟩ hok hstep
    obtain ⟨ht, hE⟩ := effect_of_step hK.mem hp hstep
    refine ⟨hK.step hp hstep, fun hlt ↦ ?_⟩
    have hclock : m.clock = e.time := clock_of_effect hE
    rw [hclock] at hlt
    exact ((hs (ht.trans_lt hlt)).tick ht).effect (hK.fetch.tick ht) hlt hE hok
  exact hInv.2 hvalid

end Settled

/-! ## Handing the lock on -/

/-- How many calls wait for the lock. -/
def State.waiting (s : State) : ℕ := s.calls.countP fun c ↦ c.stage = .waiting

theorem countP_modify {P : Call → Bool} {f : Call → Call} (hf : ∀ c, P (f c) = false)
    (calls : List Call) {i : ℕ} {c : Call} (hc : calls[i]? = some c) (hP : P c = true) :
    (calls.modify i f).countP P + 1 = calls.countP P := by
  induction calls generalizing i with
  | nil => exact absurd hc (Option.some_ne_none c).symm
  | cons b calls ih =>
    cases i with
    | zero =>
      obtain rfl := Option.some.inj hc
      rw [List.modify_zero_cons, List.countP_cons_of_neg (by rw [hf]; exact Bool.noConfusion),
        List.countP_cons_of_pos hP]
    | succ i =>
      rw [List.modify_succ_cons, List.countP_cons, List.countP_cons, ← ih hc]
      omega

theorem waiting_deliver {i : ℕ} {c : Call} (hc : s.calls[i]? = some c) (hw : c.stage = .waiting)
    (g : Grant) : (s.deliver i g).waiting + 1 = s.waiting := by
  rw [State.waiting, State.calls_deliver]
  apply countP_modify
  · intro c
    exact decide_eq_false Stage.noConfusion
  · exact hc
  · exact decide_eq_true hw

theorem hasWaiter_of_waiting {n : ℕ} (h : s.waiting = n + 1) : s.HasWaiter := by
  have hpos : 0 < s.waiting := by omega
  obtain ⟨c, hc, hw⟩ := List.countP_pos_iff.mp hpos
  exact State.hasWaiter_iff.mpr ⟨c, hc, of_decide_eq_true hw⟩

/-- While the matter is settled, each time the lock is handed on one call fewer waits, until none
does. -/
theorem drain (hp : p.kind = .oauth2) {g : Grant} {deadline : ℚ} {W : ℕ → Prop} (n : ℕ) {s : State}
    (hK : Known p s) (h : Settled p g deadline W s) (hvalid : s.clock < deadline)
    (hn : s.waiting = n) :
    ∃ m, Run.run (step p) s (List.replicate n ⟨s.clock, .acquire⟩) = some m ∧
      ∀ j, W j → m.stageOf j = some (.returned g) := by
  induction n generalizing s with
  | zero =>
    refine ⟨s, rfl, fun j hj ↦ ?_⟩
    rcases h.waiters j hj with hw | hr
    · obtain ⟨c, hc, hstage⟩ := Option.map_eq_some_iff.mp hw
      have hnone := List.countP_eq_zero.mp hn c (List.mem_of_getElem? hc)
      exact absurd (decide_eq_true hstage) hnone
    · exact hr
  | succ n ih =>
    obtain ⟨m, hacq⟩ :=
      Option.isSome_iff_exists.mp (acquire_isSome (p := p) h.free (hasWaiter_of_waiting hn))
    have hm : step p s ⟨s.clock, .acquire⟩ = some m := step_eq_some.mpr ⟨le_rfl, hacq⟩
    have hE := (effect_of_step hK.mem hp hm).2
    have hclock : m.clock = s.clock := clock_of_effect hE
    have hcount : m.waiting = n := by
      obtain ⟨-, i, c, hc, hwait, rfl⟩ := State.acquire_eq_some hacq
      have ho := (hK.mem.calls c (List.mem_of_getElem? hc)).1
      have hone : (s.deliver i g).waiting + 1 = s.waiting := waiting_deliver hc hwait g
      have hserved : State.enter p { s with clock := s.clock } i c.origin = s.deliver i g :=
        State.enter_of_cached ho (h.cached s.clock le_rfl hvalid) i
      rw [hserved]
      omega
    obtain ⟨m', hrun, hret⟩ := ih (hK.step hp hm) (h.effect hK.fetch hvalid hE id)
      (hclock ▸ hvalid) hcount
    rw [hclock] at hrun
    exact ⟨m', Run.run_cons_eq_some.mpr ⟨m, hm, hrun⟩, hret⟩

/-! ## After a request has failed -/

/-- The failure of a request that the call itself has made. -/
def Event.Fails (e : Event) (j : ℕ) : Prop :=
  ∃ reply, e.action = .replied j reply ∧ ∀ tokens, reply ≠ .granted tokens

/-- Whoever waited waits, asks, has a token that was issued since, or has had a request of its own
fail. -/
structure Later (p : Provider) (n : ℕ) (W : ℕ → Prop) (hist : List Event) (m : State) : Prop where
  issued : n ≤ m.issued
  cached : ∀ g, m.cached p = some g → n ≤ g.serial
  waiters : ∀ j, W j → m.stageOf j = some .waiting ∨ m.stageOf j = some .fetching ∨
    (∃ g, m.stageOf j = some (.returned g) ∧ n ≤ g.serial) ∨
    m.stageOf j = some .raised ∧ ∃ e ∈ hist, e.Fails j

namespace Later

variable {n : ℕ} {W : ℕ → Prop} {hist : List Event}

theorem tick (h : Later p n W hist s) {t : ℚ} (ht : s.clock ≤ t) :
    Later p n W hist { s with clock := t } :=
  ⟨h.issued, fun g hg ↦ h.cached g (State.cached_of_tick ht hg), h.waiters⟩

theorem mono (h : Later p n W hist s) (e : Event) : Later p n W (hist ++ [e]) s := by
  refine ⟨h.issued, h.cached, fun j hj ↦ ?_⟩
  rcases h.waiters j hj with hs | hs | hs | ⟨hs, e', he', hf⟩
  · exact Or.inl hs
  · exact Or.inr (Or.inl hs)
  · exact Or.inr (Or.inr (Or.inl hs))
  · exact Or.inr (Or.inr (Or.inr ⟨hs, e', List.mem_append_left _ he', hf⟩))

theorem waiters_of (h : Later p n W hist s) {m : State} {i : ℕ} {stage : Stage}
    (hst : ∀ j, m.stageOf j = if j = i then some stage else s.stageOf j)
    (hi : stage = .waiting ∨ stage = .fetching ∨ (∃ g, stage = .returned g ∧ n ≤ g.serial) ∨
      stage = .raised ∧ ∃ e ∈ hist, e.Fails i) (j : ℕ) (hj : W j) :
    m.stageOf j = some .waiting ∨ m.stageOf j = some .fetching ∨
      (∃ g, m.stageOf j = some (.returned g) ∧ n ≤ g.serial) ∨
      m.stageOf j = some .raised ∧ ∃ e ∈ hist, e.Fails j := by
  rw [hst]
  split
  · rename_i hji
    subst hji
    rcases hi with rfl | rfl | ⟨g, rfl, hg⟩ | ⟨rfl, he⟩
    · exact Or.inl rfl
    · exact Or.inr (Or.inl rfl)
    · exact Or.inr (Or.inr (Or.inl ⟨g, rfl, hg⟩))
    · exact Or.inr (Or.inr (Or.inr ⟨rfl, he⟩))
  · exact h.waiters j hj

theorem effect (h : Later p n W hist s) {a : Action} {m : State} (hE : Effect p s a m)
    (hrestart : ∀ outcome, a ≠ .restart outcome) :
    Later p n W (hist ++ [⟨s.clock, a⟩]) m := by
  have h' := h.mono ⟨s.clock, a⟩
  have hempty : m.cached p = none → ∀ g, m.cached p = some g → n ≤ g.serial :=
    fun hnone g hg ↦ absurd (hnone.symm.trans hg) (Option.some_ne_none g).symm
  cases hE with
  | @served _ _ i g _ hg _ hst hsame =>
    refine ⟨hsame.issued ▸ h.issued, fun g' hg' ↦ ?_, h'.waiters_of hst ?_⟩
    · exact h.cached g' ((State.cached_congr hsame.clock hsame.cache).symm.trans hg')
    · exact Or.inr (Or.inr (Or.inl ⟨g, rfl, h.cached g hg⟩))
  | queued _ _ _ hst hclock _ hissued hcache =>
    exact ⟨hissued ▸ h.issued, hempty (FetchInv.cached_none hclock hcache),
      h'.waiters_of hst (Or.inl rfl)⟩
  | fetching _ _ _ hst hclock _ hissued hcache =>
    exact ⟨hissued ▸ h.issued, hempty (FetchInv.cached_none hclock hcache),
      h'.waiters_of hst (Or.inr (Or.inl rfl))⟩
  | @granted i tokens _ _ hst _ _ hissued hcache =>
    refine ⟨hissued ▸ h.issued.trans (Nat.le_succ _), fun g hg ↦ ?_, h'.waiters_of hst ?_⟩
    · obtain ⟨hget, -⟩ := Option.filter_eq_some_iff.mp hg
      rw [hcache, TokenCache.get_set] at hget
      exact hget.2 ▸ h.issued
    · exact Or.inr (Or.inr (Or.inl ⟨_, rfl, h.issued⟩))
  | @failed i reply _ _ hreply hst hclock _ hissued hcache =>
    refine ⟨hissued ▸ h.issued, fun g hg ↦ ?_, h'.waiters_of hst ?_⟩
    · exact h.cached g ((State.cached_congr hclock hcache).symm.trans hg)
    · exact Or.inr (Or.inr (Or.inr ⟨rfl, _, List.mem_append_right _ (List.mem_singleton_self _),
        reply, rfl, hreply⟩))
  | idle _ hst hsame =>
    refine ⟨hsame.issued ▸ h.issued, fun g hg ↦ ?_, fun j hj ↦ ?_⟩
    · exact h.cached g ((State.cached_congr hsame.clock hsame.cache).symm.trans hg)
    · rw [hst]
      exact h'.waiters j hj
  | cleared hst _ _ hissued hcache =>
    refine ⟨hissued ▸ h.issued, hempty ?_, fun j hj ↦ ?_⟩
    · rw [State.cached, hcache, TokenCache.get_invalidate, Option.filter_none]
    · rw [hst]
      exact h'.waiters j hj
  | restarted => exact absurd rfl (hrestart _)

/-- A failure: nobody has a token, and those that wait go on waiting. -/
theorem of_failed (hF : FetchInv p s) {i : ℕ} {reply : Reply}
    (hreply : ∀ tokens, reply ≠ .granted tokens) {m : State}
    (hE : Effect p s (.replied i reply) m) : m.stageOf i = some .raised ∧
      Later p s.issued (fun j ↦ s.stageOf j = some .waiting) [] m := by
  cases hE with
  | served ha => exact absurd trivial ha
  | queued ha => exact absurd trivial ha
  | fetching ha => exact absurd trivial ha
  | idle ha => exact absurd trivial ha
  | granted => exact absurd rfl (hreply _)
  | failed hi _ hst hclock _ hissued hcache =>
    refine ⟨by rw [hst, if_pos rfl], hissued.ge, fun g hg ↦ ?_, fun j hj ↦ Or.inl ?_⟩
    · have hheld : s.locked = true := by
        by_contra hfree
        exact hF.free (Bool.eq_false_iff.mpr hfree) i hi
      have hnone := (State.cached_congr hclock hcache).trans (hF.empty hheld)
      exact absurd (hnone.symm.trans hg) (Option.some_ne_none g).symm
    · rw [hst, if_neg]
      · exact hj
      · rintro rfl
        exact Stage.noConfusion (Option.some.inj (hi.symm.trans hj))

/-- **Ever after**, as long as the process lives. -/
theorem run (hp : p.kind = .oauth2) (hK : Known p s) (h : Later p n W [] s)
    {events : List Event} (hrestart : ∀ e ∈ events, ∀ outcome, e.action ≠ .restart outcome)
    {m : State} (hm : Run.run (step p) s events = some m) : Later p n W events m := by
  have hInv : Known p m ∧ Later p n W ([] ++ events) m := by
    refine @Run.guarded_history_invariant_of_run _ _ (step p)
      (fun _ e ↦ ∀ outcome, e.action ≠ .restart outcome)
      (fun hist m ↦ Known p m ∧ Later p n W hist m) ?_ events [] s m ⟨hK, h⟩
      (Run.guarded_of_forall_mem s fun e he _ ↦ hrestart e he) hm
    rintro hist s e m ⟨hK, hs⟩ hok hstep
    obtain ⟨ht, hE⟩ := effect_of_step hK.mem hp hstep
    exact ⟨hK.step hp hstep, (hs.tick ht).effect hE hok⟩
  exact hInv.2

end Later

/-! ## Runs -/

/-- **One fetch, shared.** In every state a run of an `OAuth2Provider` comes to:

* at most one request for a token is in flight;
* if a call waits, one is in flight or the lock can be handed on at any time;
* if the request is answered with a token that lives beyond the buffer, every call that waits gets
  that token when the lock is handed on to it, and as long as the token is valid and the memory is
  not cleared nobody asks for another one and whoever waited has this one or still waits;
* if the request fails, then for as long as the process lives every call that waits goes on waiting,
  asks for itself, returns a token that was issued since, or has raised for a request of its own. -/
theorem single_token_fetch (p : Provider) (hp : p.kind = .oauth2) (start : ℚ) (events : List Event)
    {s : State} (hs : Run.run (step p) (.init p start) events = some s) :
    (∀ i j, s.stageOf i = some .fetching → s.stageOf j = some .fetching → i = j) ∧
    (∀ j, s.stageOf j = some .waiting → (∃ i, s.stageOf i = some .fetching) ∨
      ∀ t, s.clock ≤ t → (step p s ⟨t, .acquire⟩).isSome) ∧
    (∀ t i tokens m, step p s ⟨t, .replied i (.granted tokens)⟩ = some m →
      p.expiryBuffer < tokens.expiresIn →
        m.stageOf i = some (.returned ⟨tokens, t, s.issued⟩) ∧
        (∃ m', Run.run (step p) m (List.replicate m.waiting ⟨t, .acquire⟩) = some m' ∧
          ∀ j, s.stageOf j = some .waiting →
            m'.stageOf j = some (.returned ⟨tokens, t, s.issued⟩)) ∧
        ∀ tr m', Run.run (step p) m tr = some m' →
          Run.Guarded (step p) (fun s e ↦ ¬ e.action.Clears p s) m tr →
          m'.clock < t + (tokens.expiresIn - p.expiryBuffer) →
            (∀ i, m'.stageOf i ≠ some .fetching) ∧
            ∀ j, s.stageOf j = some .waiting → m'.stageOf j = some .waiting ∨
              m'.stageOf j = some (.returned ⟨tokens, t, s.issued⟩)) ∧
    (∀ t i reply m, step p s ⟨t, .replied i reply⟩ = some m → (∀ tokens, reply ≠ .granted tokens) →
        m.stageOf i = some .raised ∧
        ∀ tr m', Run.run (step p) m tr = some m' →
          (∀ e ∈ tr, ∀ outcome, e.action ≠ .restart outcome) →
            ∀ j, s.stageOf j = some .waiting →
              m'.stageOf j = some .waiting ∨ m'.stageOf j = some .fetching ∨
              (∃ g, m'.stageOf j = some (.returned g) ∧ s.issued ≤ g.serial) ∨
              m'.stageOf j = some .raised ∧ ∃ e ∈ tr, e.Fails j) := by
  have hK := (Known.init p start).run hp hs
  have hheld : ∀ i, s.stageOf i = some .fetching → s.locked = true := by
    intro i hi
    by_contra hfree
    exact hK.fetch.free (Bool.eq_false_iff.mpr hfree) i hi
  refine ⟨?_, ?_, ?_, ?_⟩
  · intro i j hi hj
    obtain ⟨k, hk⟩ := hK.fetch.held (hheld i hi)
    exact ((hk i).mp hi).trans ((hk j).mp hj).symm
  · intro j hj
    cases hl : s.locked with
    | true =>
      obtain ⟨i, hi⟩ := hK.fetch.held hl
      exact Or.inl ⟨i, (hi i).mpr rfl⟩
    | false =>
      refine Or.inr fun t ht ↦ ?_
      rw [step, if_neg ht.not_gt]
      exact acquire_isSome hl ⟨j, hj⟩
  · intro t i tokens m hm hlife
    obtain ⟨ht, hE⟩ := effect_of_step hK.mem hp hm
    have hbuffer := hK.buffer
    have hclock : m.clock = t := clock_of_effect hE
    obtain ⟨hret, hset⟩ := Settled.of_granted hp (hbuffer ▸ hlife) hE
    have hvalid : m.clock < t + (tokens.expiresIn - s.cache.expiryBuffer) := by
      rw [hclock, hbuffer]
      linarith
    have hK' := hK.step hp hm
    refine ⟨hret, ?_, fun tr m' hrun hclear hlt ↦ ?_⟩
    · obtain ⟨m', hrun, hall⟩ := drain hp m.waiting hK' hset hvalid rfl
      rw [hclock] at hrun
      exact ⟨m', hrun, hall⟩
    · have hset' := hset.run hp hK' hclear hrun (hbuffer ▸ hlt)
      exact ⟨(hK'.run hp hrun).fetch.free hset'.free, hset'.waiters⟩
  · intro t i reply m hm hreply
    obtain ⟨ht, hE⟩ := effect_of_step hK.mem hp hm
    obtain ⟨hraised, hlater⟩ := Later.of_failed (hK.fetch.tick ht) hreply hE
    refine ⟨hraised, fun tr m' hrun hrestart j hj ↦ ?_⟩
    exact (hlater.run hp (hK.step hp hm) hrestart hrun).waiters j hj

/-- A provider with a buffer of five minutes. -/
def oauth2Provider : Provider := ⟨.oauth2, 300, true⟩

/-- Three calls find the memory empty. One asks, and the others wait. -/
def threeCalls : List Event :=
  [⟨0, .getHeaders true⟩, ⟨0, .getHeaders false⟩, ⟨1, .getHeaders true⟩]

/-- The answer is for all three, and nobody asks again. -/
theorem single_token_fetch_threeCalls :
    ∃ s m m', Run.run (step oauth2Provider) (.init oauth2Provider 0) threeCalls = some s ∧
      step oauth2Provider s ⟨2, .replied 0 (.granted ⟨"first", "", 3600⟩)⟩ = some m ∧
      Run.run (step oauth2Provider) m (List.replicate m.waiting ⟨2, .acquire⟩) = some m' ∧
      (∀ i j, s.stageOf i = some .fetching → s.stageOf j = some .fetching → i = j) ∧
      m.stageOf 0 = some (.returned ⟨⟨"first", "", 3600⟩, 2, 0⟩) ∧
      m'.stageOf 1 = some (.returned ⟨⟨"first", "", 3600⟩, 2, 0⟩) ∧
      m'.stageOf 2 = some (.returned ⟨⟨"first", "", 3600⟩, 2, 0⟩) := by
  have hs := Run.run_eq_some_getD
    (show (Run.run (step oauth2Provider) (.init oauth2Provider 0) threeCalls).isSome by
      decide +kernel) (.init oauth2Provider 0)
  obtain ⟨m, hm⟩ := Option.isSome_iff_exists.mp
    (show (step oauth2Provider
      ((Run.run (step oauth2Provider) (.init oauth2Provider 0) threeCalls).getD
        (.init oauth2Provider 0))
      ⟨2, .replied 0 (.granted ⟨"first", "", 3600⟩)⟩).isSome by decide +kernel)
  obtain ⟨hone, -, hshared, -⟩ := single_token_fetch oauth2Provider rfl 0 threeCalls hs
  obtain ⟨hfirst, ⟨m', hm', hwaiting⟩, -⟩ := hshared 2 0 ⟨"first", "", 3600⟩ m hm (by decide +kernel)
  exact ⟨_, m, m', hs, hm, hm', hone, hfirst, hwaiting 1 (by decide +kernel),
    hwaiting 2 (by decide +kernel)⟩

end Tokens

end ArgusMcp
