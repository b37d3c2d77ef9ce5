import ArgusMcp.Bridge.Consistency

/-!
# What becomes of a route

A route is there because a backend was listed, and goes when the backend is removed or another one
takes its name. This file says what registering a listing does to each name on its own: who held it
holds it still, or has lost it to the server whose listing it was. Which names a server takes can
be read off the routes before the listing and the listing itself (`takes_iff`), though the names
are given one after another.
-/

namespace ArgusMcp

/-! ## Routes after a task -/

section Routes

variable {cfg : RegistryConfig} {t t' : Tables} {off : Offer} {offs : List Offer}

/-- A name has a route to someone else than the server. -/
def HeldByOther (routeMap : Dict String Route) (svrName key : String) : Prop :=
  ∃ other orig, routeMap.get? key = some (other, orig) ∧ other ≠ svrName

theorem get?_enroll (h : enroll cfg t off = .ok t') (key : String) :
    t'.routeMap.get? key = t.routeMap.get? key ∨
      ∃ orig, t'.routeMap.get? key = some (off.svr, orig) := by
  rcases enroll_cases h with ⟨rfl, -⟩ | ⟨k, -, -, -, rfl⟩ | ⟨-, rfl⟩
  · exact Or.inl rfl
  · rw [Tables.place, Dict.get?_set]
    split
    · exact Or.inr ⟨_, rfl⟩
    · exact Or.inl rfl
  · rw [Tables.place, Tables.evict, Dict.get?_set]
    split
    · exact Or.inr ⟨_, rfl⟩
    · rename_i hne
      rw [Dict.get?_del, if_neg hne]
      exact Or.inl rfl

theorem route_enroll (h : enroll cfg t off = .ok t') {key : String} {r : Route}
    (hkey : t.routeMap.get? key = some r) :
    t'.routeMap.get? key = some r ∨ ∃ orig, t'.routeMap.get? key = some (off.svr, orig) :=
  (get?_enroll h key).imp_left fun heq ↦ heq.trans hkey

theorem heldByOther_of_enroll (h : enroll cfg t off = .ok t') {key : String}
    (hheld : HeldByOther t'.routeMap off.svr key) : HeldByOther t.routeMap off.svr key := by
  obtain ⟨other, orig, hget, hne⟩ := hheld
  rcases get?_enroll h key with heq | ⟨orig', hget'⟩
  · exact ⟨other, orig, heq ▸ hget, hne⟩
  · rw [hget, Option.some.injEq, Prod.mk.injEq] at hget'
    exact absurd hget'.1 hne

theorem exp_enroll (h : enroll cfg t off = .ok t') :
    (∃ orig, t'.routeMap.get? off.exp = some (off.svr, orig)) ∨
      HeldByOther t.routeMap off.svr off.exp := by
  rcases hget : t.routeMap.get? off.exp with _ | ⟨old, orig⟩
  · rw [enroll, resolveConflict, hget] at h
    rw [← Except.ok.inj h]
    exact Or.inl ⟨off.orig, Dict.get?_set_self _ _ _⟩
  · by_cases hold : old = off.svr
    · rcases route_enroll h hget with hkept | htaken
      · exact Or.inl ⟨orig, hold ▸ hkept⟩
      · exact Or.inl htaken
    · exact Or.inr ⟨old, orig, hget, hold⟩

theorem ConflictStrategy.eq_errorStrategy {strategy : ConflictStrategy} {exp old new : String}
    {e : CapabilityConflictError} (h : strategy.handleConflict exp old new = .error e) :
    strategy = errorStrategy := by
  rcases strategy with _ | _ | ⟨order, separator⟩ | _
  · exact absurd h (by simp [handleConflict])
  · exact absurd h (by simp [handleConflict])
  · rw [handleConflict] at h
    split at h
    · exact absurd h (by simp)
    · exact absurd h (by simp)
  · rfl

theorem enroll_error {e : CapabilityConflictError} (h : enroll cfg t off = .error e) :
    cfg.strategy = .errorStrategy ∧ HeldByOther t.routeMap off.svr off.exp := by
  rw [enroll, resolveConflict] at h
  rcases hget : t.routeMap.get? off.exp with _ | ⟨old, orig⟩
  · rw [hget] at h
    exact absurd h (by simp)
  rw [hget] at h
  dsimp only at h
  by_cases hold : old = off.svr
  · rw [if_pos hold] at h
    exact absurd h (by simp)
  refine ⟨?_, old, orig, hget, hold⟩
  rw [if_neg hold] at h
  rcases hact : cfg.strategy.handleConflict off.exp old off.svr with e | (_ | _ | _ | newName)
  all_goals rw [hact] at h
  · exact ConflictStrategy.eq_errorStrategy hact
  · exact absurd h (by simp)
  · exact absurd h (by simp)
  · exact absurd h (by simp)
  · dsimp only at h
    split at h
    · rename_i htaken
      split at htaken
      · exact absurd htaken (by simp)
      · exact absurd htaken (by simp)
    · exact absurd h (by simp)
    · exact absurd h (by simp)

/-- The listing of a server is in conflict over one of its names: someone else holds the name, or,
where a conflict ends the registration, any name of the listing. -/
def InConflict (cfg : RegistryConfig) (held : String → Prop) (offs : List Offer) (off : Offer) :
    Prop :=
  held off.exp ∨ cfg.strategy = .errorStrategy ∧ ∃ off' ∈ offs, held off'.exp

theorem InConflict.imp {held held' : String → Prop} {offs' : List Offer}
    (h : InConflict cfg held offs off) (himp : ∀ key, held key → held' key)
    (hsub : ∀ o ∈ offs, o ∈ offs') : InConflict cfg held' offs' off := by
  rcases h with hheld | ⟨hstrategy, off', hmem, hheld⟩
  · exact Or.inl (himp _ hheld)
  · exact Or.inr ⟨hstrategy, off', hsub off' hmem, himp _ hheld⟩

theorem route_enrollAll {svr : String} {key : String} {r : Route} :
    ∀ {offs : List Offer} {t : Tables}, (∀ off ∈ offs, off.svr = svr) →
      t.routeMap.get? key = some r ∨ (∃ orig, t.routeMap.get? key = some (svr, orig)) →
      (enrollAll cfg t offs).1.routeMap.get? key = some r ∨
        ∃ orig, (enrollAll cfg t offs).1.routeMap.get? key = some (svr, orig) := by
  intro offs
  induction offs with
  | nil => exact fun _ h ↦ h
  | cons off offs ih =>
    intro t hsvr h
    have hoff : off.svr = svr := hsvr off List.mem_cons_self
    rw [enrollAll]
    rcases henr : enroll cfg t off with e | t'
    · exact h
    · apply ih fun o ho ↦ hsvr o (List.mem_cons_of_mem off ho)
      rcases h with hkey | ⟨orig, hkey⟩
      · exact hoff ▸ route_enroll henr hkey
      · rcases route_enroll henr hkey with hkept | htaken
        · exact Or.inr ⟨orig, hkept⟩
        · exact Or.inr (hoff ▸ htaken)

theorem entry_enrollAll {svr : String} {e : Entry} :
    ∀ {offs : List Offer} {t : Tables}, (∀ off ∈ offs, off.svr = svr) →
      e ∈ (enrollAll cfg t offs).1.aggList → e ∈ t.aggList ∨
        (¬∃ orig, t.routeMap.get? e.name = some (svr, orig)) ∧
          ∃ orig, (enrollAll cfg t offs).1.routeMap.get? e.name = some (svr, orig) := by
  intro offs
  induction offs with
  | nil => exact fun _ he ↦ Or.inl he
  | cons off offs ih =>
    intro t hsvr he
    obtain ⟨rfl, hsvr⟩ := List.forall_mem_cons.mp hsvr
    rw [enrollAll] at he ⊢
    rcases henr : enroll cfg t off with err | t'
    · rw [henr] at he
      exact Or.inl he
    rw [henr] at he
    dsimp only at he ⊢
    -- the names the server has are its names throughout
    have hkept : ∀ {orig}, t'.routeMap.get? e.name = some (off.svr, orig) →
        ∃ orig, (enrollAll cfg t' offs).1.routeMap.get? e.name = some (off.svr, orig) :=
      fun horig ↦ (route_enrollAll hsvr (Or.inl horig)).elim (fun h ↦ ⟨_, h⟩) id
    have hplaced : ∀ {u : Tables} {key : String}, t' = u.place key off → e ∈ t'.aggList →
        (¬∃ orig, t.routeMap.get? key = some (off.svr, orig)) →
        (e ∈ u.aggList ∨ (¬∃ orig, t.routeMap.get? e.name = some (off.svr, orig)) ∧
          ∃ orig, (enrollAll cfg t' offs).1.routeMap.get? e.name = some (off.svr, orig)) := by
      rintro u key rfl he' hkey
      rw [Tables.place, List.mem_append, List.mem_singleton] at he'
      rcases he' with he' | rfl
      · exact Or.inl he'
      · exact Or.inr ⟨hkey, hkept (Dict.get?_set_self _ _ _)⟩
    rcases ih hsvr he with he' | ⟨hnot, hheld⟩
    · rcases enroll_cases henr with ⟨rfl, -⟩ | ⟨key, hfree, -, -, hplace⟩ | ⟨hrep, hplace⟩
      · exact Or.inl he'
      · exact hplaced hplace he' (by simp [hfree])
      · obtain ⟨old, orig, hget, hne, -⟩ := replaces_iff.mp hrep
        refine (hplaced hplace he' ?_).imp_left List.mem_of_mem_filter
        rintro ⟨orig', horig'⟩
        rw [hget, Option.some.injEq, Prod.mk.injEq] at horig'
        exact hne horig'.1
    · refine Or.inr ⟨?_, hheld⟩
      rintro ⟨orig, horig⟩
      rcases route_enroll henr horig with hsame | htaken
      · exact hnot ⟨orig, hsame⟩
      · exact hnot htaken

/-- **What a task leaves behind.** Each name of the listing is the server's, or was in conflict
when the task began. -/
theorem exp_enrollAll {svr : String} :
    ∀ {offs : List Offer} {t : Tables}, (∀ off ∈ offs, off.svr = svr) → ∀ off ∈ offs,
      (∃ orig, (enrollAll cfg t offs).1.routeMap.get? off.exp = some (svr, orig)) ∨
        InConflict cfg (HeldByOther t.routeMap svr) offs off := by
  intro offs
  induction offs with
  | nil => exact fun _ off h ↦ absurd h List.not_mem_nil
  | cons first offs ih =>
    intro t hsvr off hmem
    obtain rfl : first.svr = svr := hsvr first List.mem_cons_self
    have hsvr' : ∀ o ∈ offs, o.svr = first.svr := fun o ho ↦
      hsvr o (List.mem_cons_of_mem first ho)
    rw [enrollAll]
    rcases henr : enroll cfg t first with e | t'
    · obtain ⟨hstrategy, hheld⟩ := enroll_error henr
      exact Or.inr (Or.inr ⟨hstrategy, first, List.mem_cons_self, hheld⟩)
    rcases List.mem_cons.mp hmem with rfl | hmem
    · rcases exp_enroll henr with ⟨orig, hkey⟩ | hheld
      · left
        rcases route_enrollAll hsvr' (Or.inl hkey) with hkept | htaken
        · exact ⟨orig, hkept⟩
        · exact htaken
      · exact Or.inr (Or.inl hheld)
    · refine (ih hsvr' off hmem).imp_right fun h ↦ ?_
      exact h.imp (fun key ↦ heldByOther_of_enroll henr) fun o ↦ List.mem_cons_of_mem first

/-! ### The names a listing takes -/

/-- Registering the offer ends the registration. -/
def Raises (strategy : ConflictStrategy) (routeMap : Dict String Route) (off : Offer) : Prop :=
  strategy = .errorStrategy ∧ HeldByOther routeMap off.svr off.exp

/-- The offer is given the name: it asks for it, and nobody holds it or whoever does gives way; or
it asks for one that someone else keeps, and is given this one instead. -/
def Gets (strategy : ConflictStrategy) (routeMap : Dict String Route) (off : Offer)
    (key : String) : Prop :=
  off.exp = key ∧ (routeMap.get? key = none ∨ Replaces strategy routeMap off = true) ∨
    routeMap.get? key = none ∧ ∃ old orig, routeMap.get? off.exp = some (old, orig) ∧
      old ≠ off.svr ∧ strategy.handleConflict off.exp old off.svr = .ok (.rename key)

/-- One of the offers is given the name, and none before it ends the registration. -/
def Takes (strategy : ConflictStrategy) (routeMap : Dict String Route) (offs : List Offer)
    (key : String) : Prop :=
  ∃ pre off post, offs = pre ++ off :: post ∧ (∀ o ∈ pre, ¬Raises strategy routeMap o) ∧
    Gets strategy routeMap off key

theorem takes_cons {strategy : ConflictStrategy} {routeMap : Dict String Route} {key : String} :
    Takes strategy routeMap (off :: offs) key ↔
      Gets strategy routeMap off key ∨
        ¬Raises strategy routeMap off ∧ Takes strategy routeMap offs key := by
  constructor
  · rintro ⟨_ | ⟨first, pre⟩, o, post, heq, hpre, hgets⟩
    · obtain ⟨rfl, -⟩ := List.cons.inj heq
      exact Or.inl hgets
    · obtain ⟨rfl, rfl⟩ := List.cons.inj heq
      obtain ⟨hfirst, hpre⟩ := List.forall_mem_cons.mp hpre
      exact Or.inr ⟨hfirst, pre, o, post, rfl, hpre, hgets⟩
  · rintro (hgets | ⟨hfirst, pre, o, post, rfl, hpre, hgets⟩)
    · exact ⟨[], off, offs, rfl, by simp, hgets⟩
    · exact ⟨off :: pre, o, post, rfl, List.forall_mem_cons.mpr ⟨hfirst, hpre⟩, hgets⟩

theorem not_gets_of_raises {strategy : ConflictStrategy} {routeMap : Dict String Route}
    {key : String} (h : Raises strategy routeMap off) : ¬Gets strategy routeMap off key := by
  obtain ⟨rfl, other, orig, hget, hne⟩ := h
  rintro (⟨rfl, hfree | hreplaces⟩ | ⟨-, old, orig', hget', -, hact⟩)
  · rw [hget] at hfree
    exact absurd hfree (by simp)
  · obtain ⟨old, orig', -, -, hact⟩ := replaces_iff.mp hreplaces
    exact absurd hact (by simp [ConflictStrategy.handleConflict])
  · exact absurd hact (by simp [ConflictStrategy.handleConflict])

theorem not_raises_of_enroll (h : enroll cfg t off = .ok t') :
    ¬Raises cfg.strategy t.routeMap off := by
  rintro ⟨hstrategy, other, orig, hget, hne⟩
  rw [enroll, resolveConflict, hget, hstrategy] at h
  dsimp only at h
  rw [if_neg hne, ConflictStrategy.handleConflict] at h
  exact absurd h (by simp)

theorem gets_of_free {strategy : ConflictStrategy} {routeMap : Dict String Route} {key : String}
    (hget : routeMap.get? off.exp = none) :
    Gets strategy routeMap off key ↔ off.exp = key := by
  constructor
  · rintro (⟨heq, -⟩ | ⟨-, old, orig, hget', -⟩)
    · exact heq
    · exact absurd (hget.symm.trans hget') (by simp)
  · rintro rfl
    exact Or.inl ⟨rfl, Or.inl hget⟩

theorem gets_of_held {strategy : ConflictStrategy} {routeMap : Dict String Route} {key : String}
    {old orig : String} (hget : routeMap.get? off.exp = some (old, orig)) :
    Gets strategy routeMap off key ↔ old ≠ off.svr ∧
      (off.exp = key ∧ strategy.handleConflict off.exp old off.svr = .ok .replace ∨
        routeMap.get? key = none ∧
          strategy.handleConflict off.exp old off.svr = .ok (.rename key)) := by
  constructor
  · rintro (⟨rfl, hfree | hreplaces⟩ | ⟨hfree, old', orig', hget', hne, hact⟩)
    · exact absurd (hget.symm.trans hfree) (by simp)
    · obtain ⟨old', orig', hget', hne, hact⟩ := replaces_iff.mp hreplaces
      rw [hget, Option.some.injEq, Prod.mk.injEq] at hget'
      obtain ⟨rfl, -⟩ := hget'
      exact ⟨hne, Or.inl ⟨rfl, hact⟩⟩
    · rw [hget, Option.some.injEq, Prod.mk.injEq] at hget'
      obtain ⟨rfl, -⟩ := hget'
      exact ⟨hne, Or.inr ⟨hfree, hact⟩⟩
  · rintro ⟨hne, ⟨rfl, hact⟩ | ⟨hfree, hact⟩⟩
    · exact Or.inl ⟨rfl, Or.inr (replaces_iff.mpr ⟨old, orig, hget, hne, hact⟩)⟩
    · exact Or.inr ⟨hfree, old, orig, hget, hne, hact⟩

theorem gets_iff (h : enroll cfg t off = .ok t') {key : String}
    (hkey : ∀ orig, t.routeMap.get? key ≠ some (off.svr, orig)) :
    (∃ orig, t'.routeMap.get? key = some (off.svr, orig)) ↔
      Gets cfg.strategy t.routeMap off key := by
  have hsame : ¬∃ orig, t.routeMap.get? key = some (off.svr, orig) := fun ⟨orig, horig⟩ ↦
    hkey orig horig
  have hplace : ∀ {u : Tables} {new : String},
      (∀ k, k ≠ new → u.routeMap.get? k = t.routeMap.get? k) →
      ((∃ orig, (u.place new off).routeMap.get? key = some (off.svr, orig)) ↔ new = key) := by
    intro u new hother
    rw [Tables.place, Dict.get?_set]
    split
    · rename_i heq
      exact iff_of_true ⟨_, rfl⟩ heq.symm
    · rename_i hne
      rw [hother key hne]
      exact iff_of_false hsame (Ne.symm hne)
  rw [enroll, resolveConflict] at h
  rcases hget : t.routeMap.get? off.exp with _ | ⟨old, orig⟩
  · rw [hget] at h
    rw [gets_of_free hget, ← Except.ok.inj h, hplace fun _ _ ↦ rfl]
  rw [hget] at h
  rw [gets_of_held hget]
  dsimp only at h
  by_cases hold : old = off.svr
  · rw [if_pos hold] at h
    rw [← Except.ok.inj h]
    exact iff_of_false hsame fun hgets ↦ hgets.1 hold
  rw [if_neg hold] at h
  rw [and_iff_right hold]
  rcases hact : cfg.strategy.handleConflict off.exp old off.svr with e | (_ | _ | _ | newName)
  all_goals rw [hact] at h
  · exact absurd h (by simp)
  · rw [← Except.ok.inj h]
    exact iff_of_false hsame (by simp)
  · have hevict : ∀ k, k ≠ off.exp → (t.evict off.exp).routeMap.get? k = t.routeMap.get? k := by
      intro k hne
      rw [Tables.evict, Dict.get?_del, if_neg hne]
    rw [← Except.ok.inj h]
    exact (hplace hevict).trans (by simp)
  · rw [← Except.ok.inj h]
    exact iff_of_false hsame (by simp)
  · dsimp only at h
    rcases hnew : t.routeMap.get? newName with _ | r
    · rw [hnew] at h
      rw [← Except.ok.inj h, hplace fun _ _ ↦ rfl]
      constructor
      · rintro rfl
        exact Or.inr ⟨hnew, rfl⟩
      · rintro (⟨-, hreplace⟩ | ⟨-, hrename⟩)
        · exact absurd hreplace (by simp)
        · simpa using hrename
    · rw [hnew] at h
      rw [← Except.ok.inj h]
      refine iff_of_false hsame ?_
      rintro (⟨-, hreplace⟩ | ⟨hfree, hrename⟩)
      · exact absurd hreplace (by simp)
      · obtain rfl : newName = key := by simpa using hrename
        exact absurd (hnew.symm.trans hfree) (by simp)

section Later

variable {o : Offer} (h : enroll cfg t off = .ok t') (hsvr : o.svr = off.svr)

include h hsvr

theorem get?_of_not_replace {old orig : String}
    (hget : t.routeMap.get? o.exp = some (old, orig)) (hne : old ≠ o.svr)
    (hact : cfg.strategy.handleConflict o.exp old o.svr ≠ .ok .replace) :
    t'.routeMap.get? o.exp = some (old, orig) := by
  have hother : ∀ orig, t.routeMap.get? o.exp ≠ some (off.svr, orig) := by
    intro orig' horig
    rw [hget, Option.some.injEq, Prod.mk.injEq, ← hsvr] at horig
    exact hne horig.1
  rcases get?_enroll h o.exp with heq | htaken
  · exact heq.trans hget
  rcases (gets_iff h hother).mp htaken with ⟨heq, hfree | hreplaces⟩ | ⟨hfree, -⟩
  · exact absurd (hget.symm.trans hfree) (by simp)
  · obtain ⟨old', orig', hget', -, hact'⟩ := replaces_iff.mp hreplaces
    rw [heq, hget, Option.some.injEq, Prod.mk.injEq] at hget'
    rw [heq, ← hsvr, ← hget'.1] at hact'
    exact absurd hact' hact
  · exact absurd (hget.symm.trans hfree) (by simp)

/-- Whether an offer ends the registration can be told before those ahead of it are registered. -/
theorem raises_enroll : Raises cfg.strategy t'.routeMap o ↔ Raises cfg.strategy t.routeMap o := by
  refine and_congr_right fun hstrategy ↦ ⟨fun hheld ↦ ?_, ?_⟩
  · rw [hsvr] at hheld ⊢
    exact heldByOther_of_enroll h hheld
  · rintro ⟨other, orig, hget, hne⟩
    refine ⟨other, orig, get?_of_not_replace h hsvr hget hne ?_, hne⟩
    rw [hstrategy, ConflictStrategy.handleConflict]
    simp

theorem gets_enroll {key : String}
    (hkey : ¬∃ orig, t'.routeMap.get? key = some (off.svr, orig)) :
    Gets cfg.strategy t'.routeMap o key ↔ Gets cfg.strategy t.routeMap o key := by
  have hsame : t'.routeMap.get? key = t.routeMap.get? key :=
    (get?_enroll h key).resolve_right hkey
  rcases hget : t.routeMap.get? o.exp with _ | ⟨old, orig⟩
  · rw [gets_of_free hget]
    rcases get?_enroll h o.exp with heq | ⟨orig', htaken⟩
    · exact gets_of_free (heq.trans hget)
    · rw [gets_of_held htaken]
      refine iff_of_false (fun hgets ↦ hgets.1 hsvr.symm) ?_
      rintro rfl
      exact hkey ⟨orig', htaken⟩
  · rw [gets_of_held hget]
    rcases get?_enroll h o.exp with heq | ⟨orig', htaken⟩
    · rw [gets_of_held (heq.trans hget), hsame]
    · rw [gets_of_held htaken]
      refine iff_of_false (fun hgets ↦ hgets.1 hsvr.symm) ?_
      rintro ⟨hne, ⟨rfl, -⟩ | ⟨-, hact⟩⟩
      · exact hkey ⟨orig', htaken⟩
      · have hkept := get?_of_not_replace h hsvr hget hne (by rw [hact]; simp)
        rw [htaken, Option.some.injEq, Prod.mk.injEq] at hkept
        exact hne (hkept.1 ▸ hsvr.symm)

end Later

/-- **The names a listing takes.** A server has a name after its listing that it did not have before
exactly if the listing takes it. -/
theorem takes_iff {svr key : String} :
    ∀ {offs : List Offer} {t : Tables}, (∀ off ∈ offs, off.svr = svr) →
      (¬∃ orig, t.routeMap.get? key = some (svr, orig)) →
      ((∃ orig, (enrollAll cfg t offs).1.routeMap.get? key = some (svr, orig)) ↔
        Takes cfg.strategy t.routeMap offs key) := by
  intro offs
  induction offs with
  | nil =>
    intro t _ hkey
    refine iff_of_false hkey ?_
    rintro ⟨pre, off, post, hnil, -⟩
    exact absurd hnil (by simp)
  | cons off offs ih =>
    intro t hsvr hkey
    obtain ⟨rfl, hsvr⟩ := List.forall_mem_cons.mp hsvr
    rw [enrollAll, takes_cons]
    rcases henr : enroll cfg t off with e | t'
    · have hraises := enroll_error henr
      refine iff_of_false hkey ?_
      rintro (hgets | ⟨hnot, -⟩)
      · exact not_gets_of_raises hraises hgets
      · exact hnot hraises
    have hgets := gets_iff henr fun orig horig ↦ hkey ⟨orig, horig⟩
    by_cases htaken : ∃ orig, t'.routeMap.get? key = some (off.svr, orig)
    · obtain ⟨orig, horig⟩ := htaken
      refine iff_of_true ?_ (Or.inl (hgets.mp ⟨orig, horig⟩))
      rcases route_enrollAll hsvr (Or.inl horig) with hkept | hagain
      · exact ⟨orig, hkept⟩
      · exact hagain
    · rw [or_iff_right (hgets.not.mp htaken), and_iff_right (not_raises_of_enroll henr)]
      refine (ih hsvr htaken).trans ?_
      have hlater : ∀ {o}, o ∈ offs → (Raises cfg.strategy t'.routeMap o ↔
          Raises cfg.strategy t.routeMap o) ∧ (Gets cfg.strategy t'.routeMap o key ↔
          Gets cfg.strategy t.routeMap o key) := fun ho ↦
        ⟨raises_enroll henr (hsvr _ ho), gets_enroll henr (hsvr _ ho) htaken⟩
      constructor
      · rintro ⟨pre, o, post, rfl, hpre, hgets'⟩
        refine ⟨pre, o, post, rfl, fun x hx ↦ ?_, (hlater (by simp)).2.mp hgets'⟩
        exact (hlater (List.mem_append_left _ hx)).1.not.mp (hpre x hx)
      · rintro ⟨pre, o, post, rfl, hpre, hgets'⟩
        refine ⟨pre, o, post, rfl, fun x hx ↦ ?_, (hlater (by simp)).2.mpr hgets'⟩
        exact (hlater (List.mem_append_left _ hx)).1.not.mpr (hpre x hx)

end Routes

/-! ## Routes of a registry -/

namespace RegistryState

variable {cfg : RegistryConfig} {st : RegistryState} {task : Task} {reply : ListReply}

theorem mem_keysToRemove {svrName key : String} :
    key ∈ st.keysToRemove svrName ↔ ∃ orig, st.routeMap.get? key = some (svrName, orig) := by
  rw [keysToRemove, List.mem_map]
  constructor
  · rintro ⟨⟨k, r⟩, hmem, rfl⟩
    obtain ⟨hitem, hsvr⟩ := List.mem_filter.mp hmem
    obtain rfl := of_decide_eq_true hsvr
    exact ⟨r.2, Dict.get?_eq_some_of_mem hitem⟩
  · rintro ⟨orig, hget⟩
    refine ⟨(key, (svrName, orig)), List.mem_filter.mpr ⟨?_, decide_eq_true rfl⟩, rfl⟩
    exact Dict.mem_items_of_get?_eq_some hget

theorem route_removeBackend_iff {svrName key : String} {r : Route} :
    (st.removeBackend svrName).routeMap.get? key = some r ↔
      st.routeMap.get? key = some r ∧ r.1 ≠ svrName := by
  have hget : (st.removeBackend svrName).routeMap.get? key
      = if key ∈ st.keysToRemove svrName then none else st.routeMap.get? key :=
    Dict.get?_foldl_del _ _ _
  rw [hget]
  split
  · rename_i hmem
    obtain ⟨orig, hkey⟩ := mem_keysToRemove.mp hmem
    refine iff_of_false (by simp) fun h ↦ h.2 ?_
    rw [hkey, Option.some.injEq] at h
    exact h.1 ▸ rfl
  · rename_i hmem
    refine ⟨fun h ↦ ⟨h, ?_⟩, fun h ↦ h.1⟩
    rintro rfl
    exact hmem (mem_keysToRemove.mpr ⟨r.2, h⟩)

theorem route_of_complete {key : String} {r : Route} (hsvr : r.1 ≠ task.svr)
    (h : (st.complete cfg task reply).routeMap.get? key = some r) :
    st.routeMap.get? key = some r := by
  rw [(complete_tables cfg st task reply).1] at h
  have hgrows := GrowsBy.enrollAll (fun off hoff ↦ hoff) (GrowsBy.refl cfg.strategy
    (taskOffers cfg task reply) ⟨st.routeMap, st.lists task.gen task.capType⟩)
  rcases hgrows.route key r h with hold | ⟨off, hoff, rfl, -⟩
  · exact hold
  · exact absurd (svr_of_mem_offersOf hoff) hsvr

theorem route_complete {key : String} {r : Route} (h : st.routeMap.get? key = some r) :
    (st.complete cfg task reply).routeMap.get? key = some r ∨
      ∃ orig, (st.complete cfg task reply).routeMap.get? key = some (task.svr, orig) := by
  rw [(complete_tables cfg st task reply).1]
  exact route_enrollAll (fun off hoff ↦ svr_of_mem_offersOf hoff) (Or.inl h)

theorem takes_complete {key : String}
    (hkey : ¬∃ orig, st.routeMap.get? key = some (task.svr, orig)) :
    (∃ orig, (st.complete cfg task reply).routeMap.get? key = some (task.svr, orig)) ↔
      Takes cfg.strategy st.routeMap (taskOffers cfg task reply) key := by
  rw [(complete_tables cfg st task reply).1]
  exact takes_iff (fun off hoff ↦ svr_of_mem_offersOf hoff) hkey

theorem exp_complete {off : Offer} (hoff : off ∈ taskOffers cfg task reply) :
    (∃ orig, (st.complete cfg task reply).routeMap.get? off.exp = some (task.svr, orig)) ∨
      InConflict cfg (HeldByOther st.routeMap task.svr) (taskOffers cfg task reply) off := by
  rw [(complete_tables cfg st task reply).1]
  exact exp_enrollAll (fun off hoff ↦ svr_of_mem_offersOf hoff) off hoff

end RegistryState

end ArgusMcp
