import ArgusMcp.Bridge.SessionPool

/-!
# Conservation in the pool of sessions

An entry that was added to the pool is in it, or closed, or with an operation that is about to close
it. The last case ends when the operation goes on; but an operation that is cancelled never does. So
entries can be lost: `stop` cancels the reaper, and what the reaper had taken out of the pool and
not yet closed is closed by nobody. Besides, `add` looks neither at whether the pool is closed, nor,
when nothing is idle, at how many entries there are.

Nothing is lost, and the pool stays within its bound, as long as `add` finds room or something idle,
nothing is added behind a `stop`, and the reaper has nothing left to close when it is cancelled
(`conserved_of_run`).
-/

namespace ArgusMcp

namespace SessionPool

open Breaker

namespace Pool

section Property

variable {T : Type*}

/-- The entry is in the pool under its key, once, and under no other. -/
def PooledOnce (s : Pool T) (i : ℕ) : Prop :=
  ∃ key, s.keyOf i = some key ∧ (s.entriesOf key).count i = 1 ∧
    ∀ key', key' ≠ key → i ∉ s.entriesOf key'

/-- **Conservation and capacity.** If no operation has entries left to close, every entry that was
added is in the pool or closed; there are no more under a key than are allowed; and when `stop` has
returned the pool is empty and everything closed. -/
structure Conserved (cfg : Settings T) (s : Pool T) : Prop where
  accounted : s.transit = [] → ∀ i < s.added.length, s.PooledOnce i ∨ i ∈ s.closed
  capacity : ∀ key, (s.entriesOf key).length ≤ cfg.perKeyMax
  stopped : s.stopped = true →
    (∀ key, s.entriesOf key = []) ∧ ∀ i < s.added.length, i ∈ s.closed

/-- The step lets a call of `stop` return. -/
def stopReturns (s : Pool T) : Event T → Bool
  | .stop => s.reaperTask.isNone && (s.pool.items.flatMap Prod.snd).isEmpty
  | .stopResumes => (s.pool.items.flatMap Prod.snd).isEmpty
  | .resume n => decide (s.closings[n]? = some ⟨.stop, []⟩)
  | _ => false

/-- **What keeps entries from being lost.** `add` finds room or something idle, and no `stop` has
emptied the pool before it; the reaper has nothing left to close when it is cancelled; and no other
operation has when a `stop` returns. -/
def Safe (cfg : Settings T) (s : Pool T) (ev : Event T) : Prop :=
  (s.stopReturns ev = true → s.transit = []) ∧
    match ev with
    | .add key _ =>
      s.stopped = false ∧ (∀ c ∈ s.closings, c.caller ≠ .stop) ∧
        ((s.entriesOf key).length < cfg.perKeyMax ∨ ∃ i ∈ s.entriesOf key, s.inUse i = false)
    | .cancelReaper => s.reaperTask = some (.closing [])
    | _ => True

instance decidableSafe (cfg : Settings T) (s : Pool T) : ∀ ev, Decidable (Safe cfg s ev)
  | .add _ _ => instDecidableAnd
  | .cancelReaper => instDecidableAnd
  | .acquire _ _ _ | .release _ _ _ | .reapExpired _ | .reaperResumes | .resume _ | .start
  | .removeAll _ | .stop | .stopResumes => instDecidableAnd

/-- Where an entry may be. -/
def Whereabouts (s : Pool T) (i : ℕ) : Prop :=
  (∃ key, i ∈ s.entriesOf key) ∨ i ∈ s.closed ∨ i ∈ s.transit

/-- What is kept while an operation has the entries `ids` in its hands. -/
structure Kept (cfg : Settings T) (s : Pool T) (ids : List ℕ) : Prop where
  accounted : ∀ i < s.added.length, s.Whereabouts i ∨ i ∈ ids
  capacity : ∀ key, (s.entriesOf key).length ≤ cfg.perKeyMax
  /-- Nothing is added once a `stop` has emptied the pool. -/
  emptied : (s.stopped = true ∨ ∃ c ∈ s.closings, c.caller = .stop) → ∀ key, s.entriesOf key = []
  stopped : s.stopped = true → s.transit = [] ∧ ids.length ≤ 1

end Property

section Kept

variable {T : Type*} {cfg : Settings T} {s s' : Pool T} {ids : List ℕ}

theorem transit_closes (caller : Caller) (i : ℕ) (rest : List ℕ) :
    (s.startClosing caller (i :: rest)).transit = s.transit ++ rest := by
  rw [Pool.startClosing, Pool.transit, Pool.transit, List.flatMap_append, List.append_assoc]
  simp

theorem Kept.startClosing (h : Kept cfg s ids) {caller : Caller}
    (hstop : caller = .stop → (∀ key, s.entriesOf key = []) ∧ (ids = [] → s.transit = [])) :
    Kept cfg (s.startClosing caller ids) [] := by
  rcases ids with _ | ⟨i, rest⟩
  · rw [Pool.startClosing]
    split
    · rename_i hcaller
      obtain ⟨hpool, htransit⟩ := hstop hcaller
      exact ⟨h.accounted, h.capacity, fun _ ↦ hpool, fun _ ↦ ⟨htransit rfl, Nat.zero_le 1⟩⟩
    · exact h
  refine ⟨fun j hj ↦ Or.inl ?_, fun key ↦ ?_, fun hemptied key ↦ ?_, fun hstopped ↦ ?_⟩
  · rw [Whereabouts, transit_closes]
    rcases h.accounted j hj with (hpooled | hclosed | htransit) | hids
    · exact Or.inl hpooled
    · exact Or.inr (Or.inl (List.mem_append_left _ hclosed))
    · exact Or.inr (Or.inr (List.mem_append_left _ htransit))
    · rcases List.mem_cons.mp hids with rfl | hrest
      · exact Or.inr (Or.inl (List.mem_append_right _ (List.mem_singleton_self _)))
      · exact Or.inr (Or.inr (List.mem_append_right _ hrest))
  · rw [entriesOf_startClosing]
    exact h.capacity key
  · rw [entriesOf_startClosing]
    rcases hemptied with hstopped | ⟨c, hc, hcaller⟩
    · exact h.emptied (Or.inl hstopped) key
    · rcases List.mem_append.mp hc with hold | hnew
      · exact h.emptied (Or.inr ⟨c, hold, hcaller⟩) key
      · rw [List.mem_singleton] at hnew
        subst hnew
        exact (hstop hcaller).1 key
  · obtain ⟨htransit, hlength⟩ := h.stopped hstopped
    rw [transit_closes, htransit, List.nil_append]
    rw [List.length_cons] at hlength
    exact ⟨List.length_eq_zero_iff.mp (by omega), Nat.zero_le 1⟩

theorem Kept.reaperCloses (h : Kept cfg s ids)
    (hreaper : ∀ rest, s.reaperTask = some (.closing rest) → rest ⊆ ids) :
    Kept cfg (s.reaperCloses ids) [] := by
  -- What the reaper had left is among what it goes on with.
  have hplace : ∀ j < s.added.length, (∃ key, j ∈ s.entriesOf key) ∨ j ∈ s.closed ∨ j ∈ ids ∨
      ∃ c ∈ s.closings, j ∈ c.rest := by
    intro j hj
    rcases h.accounted j hj with (hpooled | hclosed | htransit) | hids
    · exact Or.inl hpooled
    · exact Or.inr (Or.inl hclosed)
    · rcases mem_transit_iff.mp htransit with ⟨rest, hrest, hj⟩ | hclosing
      · exact Or.inr (Or.inr (Or.inl (hreaper rest hrest hj)))
      · exact Or.inr (Or.inr (Or.inr hclosing))
    · exact Or.inr (Or.inr (Or.inl hids))
  have hnone : s.stopped = true → ∀ j, ¬∃ c ∈ s.closings, j ∈ c.rest := by
    intro hstopped j hclosing
    have htransit := mem_transit_iff.mpr (Or.inr hclosing)
    rw [(h.stopped hstopped).1] at htransit
    exact List.not_mem_nil htransit
  rcases ids with _ | ⟨i, rest⟩
  · refine ⟨fun j hj ↦ Or.inl ?_, h.capacity, h.emptied, fun hstopped ↦ ⟨?_, Nat.zero_le 1⟩⟩
    · rcases hplace j hj with hpooled | hclosed | hids | hclosing
      · exact Or.inl hpooled
      · exact Or.inr (Or.inl hclosed)
      · exact absurd hids List.not_mem_nil
      · exact Or.inr (Or.inr (mem_transit_iff.mpr (Or.inr hclosing)))
    · refine List.eq_nil_iff_forall_not_mem.mpr fun j hj ↦ ?_
      rcases mem_transit_iff.mp hj with ⟨rest, hrest, -⟩ | hclosing
      · rw [Pool.reaperCloses] at hrest
        split at hrest <;> cases hrest
      · exact hnone hstopped j hclosing
  · refine ⟨fun j hj ↦ Or.inl ?_, h.capacity, h.emptied, fun hstopped ↦ ⟨?_, Nat.zero_le 1⟩⟩
    · rcases hplace j hj with hpooled | hclosed | hids | hclosing
      · exact Or.inl hpooled
      · exact Or.inr (Or.inl (List.mem_append_left _ hclosed))
      · rcases List.mem_cons.mp hids with rfl | hrest
        · exact Or.inr (Or.inl (List.mem_append_right _ (List.mem_singleton_self _)))
        · exact Or.inr (Or.inr (mem_transit_iff.mpr (Or.inl ⟨rest, rfl, hrest⟩)))
      · exact Or.inr (Or.inr (mem_transit_iff.mpr (Or.inr hclosing)))
    · refine List.eq_nil_iff_forall_not_mem.mpr fun j hj ↦ ?_
      have hlength := (h.stopped hstopped).2
      rw [List.length_cons] at hlength
      have hnil : rest = [] := List.length_eq_zero_iff.mp (by omega)
      rcases mem_transit_iff.mp hj with ⟨rest', hrest', hj⟩ | hclosing
      · rw [Pool.reaperCloses, Option.some.injEq, Reaper.closing.injEq] at hrest'
        rw [← hrest', hnil] at hj
        exact List.not_mem_nil hj
      · exact hnone hstopped j hclosing

/-- An operation takes entries into its hands. -/
theorem Kept.withdraw (h : Kept cfg s []) (hlength : s'.added.length = s.added.length)
    (hpool : ∀ key, (s'.entriesOf key).Sublist (s.entriesOf key))
    (hids : ∀ key, ∀ i ∈ s.entriesOf key, i ∈ s'.entriesOf key ∨ i ∈ ids)
    (hclosed : s'.closed = s.closed) (htransit : ∀ i ∈ s.transit, i ∈ s'.transit ∨ i ∈ ids)
    (hless : s'.transit ⊆ s.transit) (hstopped : s'.stopped = s.stopped)
    (hclosings : s'.closings ⊆ s.closings) (hone : s.stopped = true → ids.length ≤ 1) :
    Kept cfg s' ids where
  accounted := by
    intro i hi
    rcases h.accounted i (hlength ▸ hi) with (⟨key, hpooled⟩ | hmem | hmem) | hmem
    · exact (hids key i hpooled).imp_left fun hkept ↦ Or.inl ⟨key, hkept⟩
    · exact Or.inl (Or.inr (Or.inl (hclosed ▸ hmem)))
    · exact (htransit i hmem).imp_left fun hkept ↦ Or.inr (Or.inr hkept)
    · exact absurd hmem List.not_mem_nil
  capacity := fun key ↦ (hpool key).length_le.trans (h.capacity key)
  emptied := by
    intro hemptied key
    have hnil : s.entriesOf key = [] := by
      refine h.emptied ?_ key
      rcases hemptied with hs | ⟨c, hc, hcaller⟩
      · exact Or.inl (hstopped ▸ hs)
      · exact Or.inr ⟨c, hclosings hc, hcaller⟩
    exact List.sublist_nil.mp (hnil ▸ hpool key)
  stopped := by
    intro hs
    rw [hstopped] at hs
    refine ⟨List.eq_nil_iff_forall_not_mem.mpr fun i hi ↦ ?_, hone hs⟩
    have hold := hless hi
    rw [(h.stopped hs).1] at hold
    exact List.not_mem_nil hold

theorem Kept.congr (h : Kept cfg s []) (hlength : s'.added.length = s.added.length)
    (hpool : s'.pool = s.pool) (hclosed : s'.closed = s.closed) (htransit : s'.transit = s.transit)
    (hstopped : s'.stopped = s.stopped) (hclosings : s'.closings = s.closings) :
    Kept cfg s' [] := by
  have hentries : ∀ key, s'.entriesOf key = s.entriesOf key := by
    intro key
    rw [entriesOf, hpool, entriesOf]
  refine h.withdraw hlength (fun key ↦ ?_) (fun key i hi ↦ Or.inl ?_) hclosed
    (fun i hi ↦ Or.inl (htransit ▸ hi)) (htransit ▸ List.Subset.refl _) hstopped
    (hclosings ▸ List.Subset.refl _) fun _ ↦ Nat.zero_le 1
  · rw [hentries]
  · rw [hentries]
    exact hi

theorem Kept.removeAll (h : Kept cfg s []) (key : SessionKey) : Kept cfg (s.removeAll key) [] := by
  have htaken : Kept cfg { s with pool := s.pool.del key } (s.entriesOf key) := by
    refine h.withdraw rfl (fun key' ↦ ?_) (fun key' i hi ↦ ?_) rfl (fun _ ↦ Or.inl)
      (List.Subset.refl _) rfl (List.Subset.refl _) fun hstopped ↦ ?_
    · rw [entriesOf_del]
      split
      · exact List.nil_sublist _
      · exact .refl _
    · rw [entriesOf_del]
      split
      · rename_i hkey
        exact Or.inr (hkey ▸ hi)
      · exact Or.inl hi
    · rw [h.emptied (Or.inl hstopped)]
      exact Nat.zero_le 1
  exact htaken.startClosing fun hstop ↦ absurd hstop (by simp)

theorem Kept.clear (h : Kept cfg s [])
    (hreturns : s.pool.items.flatMap Prod.snd = [] → s.transit = []) : Kept cfg s.clear [] := by
  have htaken : Kept cfg { s with pool := Dict.empty, circuitBreakers := Dict.empty }
      (s.pool.items.flatMap Prod.snd) := by
    refine h.withdraw rfl (fun _ ↦ List.nil_sublist _) (fun key i hi ↦ ?_) rfl (fun _ ↦ Or.inl)
      (List.Subset.refl _) rfl (List.Subset.refl _) fun hstopped ↦ ?_
    · exact Or.inr (mem_pooled_iff.mpr ⟨key, hi⟩)
    · have hnil : s.pool.items.flatMap Prod.snd = [] := by
        refine List.eq_nil_iff_forall_not_mem.mpr fun i hi ↦ ?_
        obtain ⟨key, hi⟩ := mem_pooled_iff.mp hi
        rw [h.emptied (Or.inl hstopped)] at hi
        exact List.not_mem_nil hi
      rw [hnil]
      exact Nat.zero_le 1
  exact htaken.startClosing fun _ ↦ ⟨fun _ ↦ rfl, hreturns⟩

theorem transit_of_reaper (h : ∀ rest, s.reaperTask = some (.closing rest) → rest = []) :
    s.transit = s.closings.flatMap Closing.rest := by
  rw [Pool.transit]
  split
  · rename_i hreaper
    rw [h _ hreaper, List.nil_append]
  · rfl

theorem transit_congr (hclosings : s'.closings = s.closings)
    (hold : ∀ rest, s.reaperTask = some (.closing rest) → rest = [])
    (hnew : ∀ rest, s'.reaperTask = some (.closing rest) → rest = []) :
    s'.transit = s.transit := by
  rw [transit_of_reaper hold, transit_of_reaper hnew, hclosings]

theorem Kept.start (h : Kept cfg s []) : Kept cfg s.start [] := by
  rw [Pool.start]
  split
  · exact h
  · rename_i hreaper
    have htransit : ∀ i ∈ s.transit, i ∈ Pool.transit
        { s with isClosed := false, reaperTask := some .sleeping, stopped := false } := by
      intro i hi
      rw [mem_transit_iff] at hi ⊢
      refine hi.imp_left ?_
      rintro ⟨rest, hrest, -⟩
      rw [hrest] at hreaper
      exact absurd rfl hreaper
    refine ⟨fun i hi ↦ Or.inl ?_, h.capacity, fun hemptied ↦ h.emptied (Or.inr ?_), ?_⟩
    · rcases h.accounted i hi with (hpooled | hclosed | hmem) | hmem
      · exact Or.inl hpooled
      · exact Or.inr (Or.inl hclosed)
      · exact Or.inr (Or.inr (htransit i hmem))
      · exact absurd hmem List.not_mem_nil
    · exact hemptied.resolve_left Bool.false_ne_true
    · exact fun hstopped ↦ absurd hstopped Bool.false_ne_true

theorem Kept.stop (h : Kept cfg s []) (hsafe : s.stopReturns .stop = true → s.transit = []) :
    Kept cfg s.stop [] := by
  rw [Pool.stop]
  split
  · rename_i hreaper
    refine Kept.clear (h.congr rfl rfl rfl rfl rfl rfl) fun hnil ↦ hsafe ?_
    rw [stopReturns, hreaper, hnil]
    rfl
  · rename_i hreaper
    refine h.congr rfl rfl rfl (transit_congr rfl (fun rest hrest ↦ ?_) fun rest hrest ↦ ?_) rfl rfl
    · exact absurd (hreaper.symm.trans hrest) (by simp)
    · exact absurd hrest (by simp)
  · exact h.congr rfl rfl rfl rfl rfl rfl

theorem Kept.stopResumes (h : Kept cfg s []) (hs : s.stopResumes = some s')
    (hsafe : s.stopReturns .stopResumes = true → s.transit = []) : Kept cfg s' [] := by
  obtain ⟨hreaper, rfl⟩ := stopResumes_eq_some hs
  have htransit : Pool.transit { s with reaperTask := none, stopping := s.stopping - 1 }
      = s.transit := by
    refine transit_congr rfl (fun rest hrest ↦ ?_) fun rest hrest ↦ ?_
    · exact absurd hrest (hreaper rest)
    · exact absurd hrest (by simp)
  have hended : Kept cfg { s with reaperTask := none, stopping := s.stopping - 1 } [] :=
    h.congr rfl rfl rfl htransit rfl rfl
  refine hended.clear fun hnil ↦ ?_
  rw [htransit]
  apply hsafe
  rw [stopReturns]
  exact List.isEmpty_iff.mpr hnil

theorem Kept.cancelReaper (h : Kept cfg s []) (hs : s.cancelReaper = some s')
    (hsafe : s.reaperTask = some (.closing [])) : Kept cfg s' [] := by
  obtain ⟨-, rfl⟩ := cancelReaper_eq_some hs
  refine h.congr rfl rfl rfl (transit_congr rfl (fun rest hrest ↦ ?_) fun rest hrest ↦ ?_) rfl rfl
  · rw [hsafe, Option.some.injEq, Reaper.closing.injEq] at hrest
    exact hrest.symm
  · exact absurd hrest (by simp)

/-- An operation that was suspended is gone from the list; every other one is still there. -/
theorem mem_eraseIdx_or_eq {n : ℕ} {c c' : Closing} (hc : s.closings[n]? = some c)
    (hc' : c' ∈ s.closings) : c' ∈ s.closings.eraseIdx n ∨ c' = c := by
  obtain ⟨m, hm⟩ := List.mem_iff_getElem?.mp hc'
  rcases eq_or_ne m n with rfl | hne
  · exact Or.inr (Option.some.inj (hm.symm.trans hc))
  · exact Or.inl (List.mem_eraseIdx_iff_getElem?.mpr ⟨m, hne, hm⟩)

theorem Kept.resume (h : Kept cfg s []) {n : ℕ} (hs : s.resume n = some s')
    (hsafe : s.stopReturns (.resume n) = true → s.transit = []) : Kept cfg s' [] := by
  obtain ⟨c, hc, rfl⟩ := resume_eq_some hs
  have hmem : c ∈ s.closings := List.mem_of_getElem? hc
  have hless : Pool.transit { s with closings := s.closings.eraseIdx n } ⊆ s.transit := by
    intro i hi
    rw [mem_transit_iff] at hi ⊢
    refine hi.imp_right ?_
    rintro ⟨c', hc', hi⟩
    exact ⟨c', (List.eraseIdx_sublist _ _).subset hc', hi⟩
  have hrest : c.rest ⊆ s.transit := fun i hi ↦ mem_transit_iff.mpr (Or.inr ⟨c, hmem, hi⟩)
  have htaken : Kept cfg { s with closings := s.closings.eraseIdx n } c.rest := by
    refine h.withdraw rfl (fun _ ↦ .refl _) (fun _ _ ↦ Or.inl) rfl (fun i hi ↦ ?_) hless rfl
      (List.eraseIdx_sublist _ _).subset fun hstopped ↦ ?_
    · rcases mem_transit_iff.mp hi with hreaper | ⟨c', hc', hi⟩
      · exact Or.inl (mem_transit_iff.mpr (Or.inl hreaper))
      · rcases mem_eraseIdx_or_eq hc hc' with hother | rfl
        · exact Or.inl (mem_transit_iff.mpr (Or.inr ⟨c', hother, hi⟩))
        · exact Or.inr hi
    · rw [(h.stopped hstopped).1] at hrest
      rw [List.subset_nil.mp hrest]
      exact Nat.zero_le 1
  refine htaken.startClosing fun hcaller ↦ ⟨h.emptied (Or.inr ⟨c, hmem, hcaller⟩), fun hnil ↦ ?_⟩
  -- The call of `stop` returns here.
  have hreturns : s.stopReturns (.resume n) = true := by
    rw [stopReturns, hc, decide_eq_true_eq, Option.some.injEq]
    rcases c with ⟨caller, rest⟩
    rw [Closing.mk.injEq]
    exact ⟨hcaller, hnil⟩
  rw [hsafe hreturns] at hless
  exact List.subset_nil.mp hless

theorem Kept.reaperResumes (h : Kept cfg s []) (hs : s.reaperResumes = some s') :
    Kept cfg s' [] := by
  obtain ⟨rest, hrest, rfl⟩ := reaperResumes_eq_some hs
  have hless : rest ⊆ s.transit := fun i hi ↦ mem_transit_iff.mpr (Or.inl ⟨rest, hrest, hi⟩)
  have htaken : Kept cfg s rest := by
    refine h.withdraw rfl (fun _ ↦ .refl _) (fun _ _ ↦ Or.inl) rfl (fun _ ↦ Or.inl)
      (List.Subset.refl _) rfl (List.Subset.refl _) fun hstopped ↦ ?_
    rw [(h.stopped hstopped).1] at hless
    rw [List.subset_nil.mp hless]
    exact Nat.zero_le 1
  refine htaken.reaperCloses fun rest' hrest' ↦ ?_
  rw [hrest, Option.some.injEq, Reaper.closing.injEq] at hrest'
  exact hrest' ▸ List.Subset.refl _

end Kept

/-! ## The operations of clients and of the reaper -/

section Operations

variable {T : Type*} [AddCommGroup T] [LinearOrder T] {cfg : Settings T} {s s' : Pool T}

theorem Kept.reapExpired (h : Kept cfg s []) (hinv : Inv s) (now : T)
    (hreaper : s.reaperTask = some .sleeping) : Kept cfg (s.reapExpired cfg now) [] := by
  have htaken : Kept cfg (s.reaped cfg now)
      (s.pool.items.flatMap fun e : SessionKey × List ℕ ↦ s.expired cfg now e.2) := by
    refine h.withdraw rfl (hinv.reaped_sublist now) (fun key i hi ↦ ?_) rfl (fun _ ↦ Or.inl)
      (List.Subset.refl _) rfl (List.Subset.refl _) fun hstopped ↦ ?_
    · by_cases hexp : i ∈ s.expired cfg now (s.entriesOf key)
      · exact Or.inr (mem_reaperTakes_iff.mpr ⟨key, hexp⟩)
      · exact Or.inl (hinv.mem_entriesOf_reaped.mpr ⟨hi, hexp⟩)
    · have hnil : (s.pool.items.flatMap fun e : SessionKey × List ℕ ↦
          s.expired cfg now e.2) = [] := by
        refine List.eq_nil_iff_forall_not_mem.mpr fun i hi ↦ ?_
        obtain ⟨key, hexp⟩ := mem_reaperTakes_iff.mp hi
        have hmem := (mem_expired_iff.mp hexp).1
        rw [h.emptied (Or.inl hstopped)] at hmem
        exact List.not_mem_nil hmem
      rw [hnil]
      exact Nat.zero_le 1
  refine htaken.reaperCloses fun rest hrest ↦ ?_
  exact absurd (hreaper.symm.trans hrest) (by simp)

theorem Kept.acquire (h : Kept cfg s []) (client : ℕ) (key : SessionKey) (now : T) :
    Kept cfg (s.acquire cfg client key now) [] := by
  rw [Pool.acquire]
  split
  · exact h
  dsimp only
  split
  · exact h.congr rfl rfl rfl rfl rfl rfl
  · exact h.congr (List.length_modify _ _ _) rfl rfl rfl rfl rfl

theorem Kept.release (h : Kept cfg s []) (hinv : Inv s) {x : Holding} {failed : Bool} {now : T}
    (hs : s.release cfg x failed now = some s') : Kept cfg s' [] := by
  obtain ⟨-, rfl⟩ := hinv.release_eq_some hs
  rcases failed with _ | _
  · exact h.congr (List.length_modify _ _ _) rfl rfl rfl rfl rfl
  · rw [if_pos rfl]
    have htaken : Kept cfg (s.dropped cfg x now) [x.entry] := by
      refine h.withdraw rfl (entriesOf_dropped_sublist x now) (fun key i hi ↦ ?_) rfl
        (fun _ ↦ Or.inl) (List.Subset.refl _) rfl (List.Subset.refl _) fun _ ↦ le_refl 1
      rw [entriesOf_dropped, List.mem_singleton]
      by_cases heq : i = x.entry
      · exact Or.inr heq
      · left
        split
        · rename_i hkey
          exact (List.mem_erase_of_ne heq).mpr (hkey ▸ hi)
        · exact hi
    exact htaken.startClosing fun hstop ↦ absurd hstop (by simp)

/-- Under a key where there is room or something idle, there is room once the loop of `add` has
ended. -/
theorem length_evict_lt (h : Kept cfg s []) (hinv : Inv s) {key : SessionKey}
    (hroom : (s.entriesOf key).length < cfg.perKeyMax ∨ ∃ i ∈ s.entriesOf key, s.inUse i = false) :
    (s.evict cfg key).1.length < cfg.perKeyMax := by
  obtain ⟨hperm, hsub, -, hend⟩ := @Inv.evict _ _ _ cfg s hinv key
  rcases hend with hlt | huse
  · exact hlt
  rcases hroom with hroom | ⟨i, hi, hidle⟩
  · exact hsub.length_le.trans_lt hroom
  · -- The idle entry was not kept, so that one fewer is there than before.
    have hnot : i ∉ (s.evict cfg key).1 :=
      fun hkept ↦ absurd (hidle.symm.trans (huse i hkept)) Bool.false_ne_true
    have hev := (List.mem_append.mp (hperm.mem_iff.mpr hi)).resolve_right hnot
    have hlength := hperm.length_eq
    rw [List.length_append] at hlength
    have hpos := List.length_pos_of_mem hev
    have hcapacity := h.capacity key
    omega

theorem Kept.add (h : Kept cfg s []) (hinv : Inv s) {key : SessionKey} {now : T}
    (hsafe : Safe cfg s (.add key now)) : Kept cfg (s.add cfg key now) [] := by
  obtain ⟨-, hstopped, hclosings, hroom⟩ := hsafe
  obtain ⟨hperm, hsub, -, -⟩ := @Inv.evict _ _ _ cfg s hinv key
  have hplaced : Kept cfg (s.place key (s.evict cfg key).1 ⟨s.added.length, s.added.length, now,
      now, false⟩) (s.evict cfg key).2 := by
    refine ⟨fun i hi ↦ ?_, fun key' ↦ ?_, fun hemptied ↦ ?_, fun hs ↦ ?_⟩
    · rw [Pool.place, List.length_append, List.length_singleton] at hi
      rcases Nat.lt_succ_iff_lt_or_eq.mp hi with hlt | rfl
      · rcases h.accounted i hlt with (⟨key', hpooled⟩ | hclosed | htransit) | hmem
        · by_cases hkey : key' = key
          · subst hkey
            rcases List.mem_append.mp (hperm.mem_iff.mpr hpooled) with hev | hkept
            · exact Or.inr hev
            · refine Or.inl (Or.inl ⟨key', ?_⟩)
              rw [entriesOf_place, if_pos rfl]
              exact List.mem_append_left _ hkept
          · refine Or.inl (Or.inl ⟨key', ?_⟩)
            rw [entriesOf_place, if_neg hkey]
            exact hpooled
        · exact Or.inl (Or.inr (Or.inl hclosed))
        · exact Or.inl (Or.inr (Or.inr htransit))
        · exact absurd hmem List.not_mem_nil
      · refine Or.inl (Or.inl ⟨key, ?_⟩)
        rw [entriesOf_place, if_pos rfl]
        exact List.mem_append_right _ (List.mem_singleton_self _)
    · rw [entriesOf_place]
      split
      · have hlt := length_evict_lt h hinv hroom
        rw [List.length_append, List.length_singleton]
        omega
      · exact h.capacity key'
    · rcases hemptied with hs | ⟨c, hc, hcaller⟩
      · exact absurd (hstopped.symm.trans hs) Bool.false_ne_true
      · exact absurd hcaller (hclosings c hc)
    · exact absurd (hstopped.symm.trans hs) Bool.false_ne_true
  exact hplaced.startClosing fun hstop ↦ absurd hstop (by simp)

theorem Kept.step (h : Kept cfg s []) (hinv : Inv s) {ev : Event T} (hsafe : Safe cfg s ev)
    (hs : s.step cfg ev = some s') : Kept cfg s' [] := by
  rcases ev with ⟨client, key, now⟩ | ⟨x, failed, now⟩ | ⟨key, now⟩ | now | _ | n | _ | key | _ |
    _ | _
  · exact Option.some.inj hs ▸ h.acquire client key now
  · exact h.release hinv hs
  · exact Option.some.inj hs ▸ h.add hinv hsafe
  · rw [Pool.step] at hs
    split at hs
    · exact Option.some.inj hs ▸ h.reapExpired hinv now ‹_›
    · exact absurd hs (by simp)
  · exact h.reaperResumes hs
  · exact h.resume hs hsafe.1
  · exact Option.some.inj hs ▸ h.start
  · exact Option.some.inj hs ▸ h.removeAll key
  · exact Option.some.inj hs ▸ h.stop hsafe.1
  · exact h.stopResumes hs hsafe.1
  · exact h.cancelReaper hs hsafe.2

omit [AddCommGroup T] [LinearOrder T] in
theorem Kept.init : Kept cfg (Pool.init : Pool T) [] where
  accounted := fun i hi ↦ absurd hi (Nat.not_lt_zero i)
  capacity := fun _ ↦ Nat.zero_le _
  emptied := fun _ _ ↦ rfl
  stopped := fun hstopped ↦ absurd hstopped Bool.false_ne_true

omit [AddCommGroup T] [LinearOrder T] in
theorem Inv.pooledOnce (h : Inv s) {key : SessionKey} {i : ℕ} (hi : i ∈ s.entriesOf key) :
    s.PooledOnce i :=
  ⟨key, h.keyOf key i hi, List.count_eq_one_of_mem (h.nodup key) hi,
    fun _ hne hmem ↦ hne (h.key_unique hmem hi)⟩

omit [AddCommGroup T] [LinearOrder T] in
theorem Kept.conserved (h : Kept cfg s []) (hinv : Inv s) : Conserved cfg s where
  accounted := by
    intro htransit i hi
    rcases h.accounted i hi with (⟨key, hpooled⟩ | hclosed | hmem) | hmem
    · exact Or.inl (hinv.pooledOnce hpooled)
    · exact Or.inr hclosed
    · rw [htransit] at hmem
      exact absurd hmem List.not_mem_nil
    · exact absurd hmem List.not_mem_nil
  capacity := h.capacity
  stopped := by
    intro hstopped
    have hpool := h.emptied (Or.inl hstopped)
    refine ⟨hpool, fun i hi ↦ ?_⟩
    rcases h.accounted i hi with (⟨key, hpooled⟩ | hclosed | hmem) | hmem
    · rw [hpool] at hpooled
      exact absurd hpooled List.not_mem_nil
    · exact hclosed
    · rw [(h.stopped hstopped).1] at hmem
      exact absurd hmem List.not_mem_nil
    · exact absurd hmem List.not_mem_nil

/-- In every run whose steps are safe, entries are conserved and the bound is kept. -/
theorem conserved_of_run {events : List (Event T)}
    (hsafe : Run.Guarded (Pool.step cfg) (Safe cfg) Pool.init events)
    (hrun : Run.run (Pool.step cfg) Pool.init events = some s) : Conserved cfg s := by
  have hinit : Inv (Pool.init : Pool T) ∧ Kept cfg (Pool.init : Pool T) [] := ⟨.init, .init⟩
  have hend : Inv s ∧ Kept cfg s [] := by
    refine @Run.invariant_of_run _ _ (Pool.step cfg) _ (fun s ↦ Inv s ∧ Kept cfg s []) ?_ _ _ _
      hinit hsafe hrun
    exact fun s ev s' h hev hs ↦ ⟨h.1.step hs, h.2.step h.1 hev hs⟩
  exact hend.2.conserved hend.1

end Operations

/-! ### Runs that lose entries, and one that does not -/

/-- An entry is used, goes back, and is closed by `stop`. -/
def usedAndStopped : List (Event ℤ) :=
  [.start, .add filesKey 0, .acquire 1 filesKey 1, .release ⟨1, filesKey, 0⟩ false 2, .stop,
    .stopResumes, .resume 0]

/-- The only entry is in use when another is added. -/
def addedWhenFull : List (Event ℤ) :=
  [.start, .add filesKey 0, .acquire 1 filesKey 1, .add filesKey 2]

/-- A request that was in flight adds its entry behind `stop`. -/
def addedAfterStop : List (Event ℤ) := [.start, .stop, .stopResumes, .add filesKey 0]

/-- The reaper is cancelled while it closes the first of two entries. -/
def cancelledReaper : List (Event ℤ) :=
  [.start, .add filesKey 0, .add ⟨"http://mail", "anonymous", "sse"⟩ 0, .reapExpired 20, .stop,
    .cancelReaper, .stopResumes]

theorem conserved_usedAndStopped :
    Run.Guarded (Pool.step oneForTen) (Safe oneForTen) Pool.init usedAndStopped ∧
      Run.run (Pool.step oneForTen) Pool.init usedAndStopped = some (poolAfter usedAndStopped) ∧
      (poolAfter usedAndStopped).stopped = true ∧ (poolAfter usedAndStopped).closed = [0] ∧
      Conserved oneForTen (poolAfter usedAndStopped) := by
  have hsafe : Run.Guarded (Pool.step oneForTen) (Safe oneForTen) Pool.init usedAndStopped := by
    decide
  have hrun : Run.run (Pool.step oneForTen) Pool.init usedAndStopped
      = some (poolAfter usedAndStopped) := Run.run_eq_some_getD (by decide) _
  exact ⟨hsafe, hrun, by decide, by decide, conserved_of_run hsafe hrun⟩

/-- The bound is passed, and entries stay open behind a `stop`: one that is added after it, and one
that the cancelled reaper had taken. -/
theorem not_conserved_runs :
    ¬(∀ events : List (Event ℤ), ∀ s, Run.run (Pool.step oneForTen) Pool.init events = some s →
      ∀ key, (s.entriesOf key).length ≤ oneForTen.perKeyMax) ∧
    ¬(∀ events : List (Event ℤ), ∀ s, Run.run (Pool.step oneForTen) Pool.init events = some s →
      s.stopped = true → ∀ key, s.entriesOf key = []) ∧
    ¬(∀ events : List (Event ℤ), ∀ s, Run.run (Pool.step oneForTen) Pool.init events = some s →
      s.transit = [] → ∀ i < s.added.length, s.PooledOnce i ∨ i ∈ s.closed) := by
  have hrun : ∀ events, (Run.run (Pool.step oneForTen) Pool.init events).isSome →
      Run.run (Pool.step oneForTen) Pool.init events = some (poolAfter events) :=
    fun _ hdefined ↦ Run.run_eq_some_getD hdefined _
  refine ⟨fun h ↦ ?_, fun h ↦ ?_, fun h ↦ ?_⟩
  · exact absurd (h _ _ (hrun addedWhenFull (by decide)) filesKey) (by decide)
  · exact absurd (h _ _ (hrun addedAfterStop (by decide)) (by decide) filesKey) (by decide)
  · rcases h _ _ (hrun cancelledReaper (by decide)) (by decide) 1 (by decide) with
      ⟨key, -, hcount, -⟩ | hclosed
    · have hnil : (poolAfter cancelledReaper).entriesOf key = [] := rfl
      rw [hnil] at hcount
      exact absurd hcount (by decide)
    · exact absurd hclosed (by decide)

end Pool

end SessionPool

end ArgusMcp
