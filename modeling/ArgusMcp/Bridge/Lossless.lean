import ArgusMcp.Bridge.Discovery

/-!
# Strategies that never yield

The first-wins, prefix and error strategies have one thing in common: a name, once taken, stays
with its holder, and no item is registered under a name it did not ask for. For these strategies a
`discover_and_register` call loses nothing exactly when no two different items ask for one name,
and this does not depend on the order in which the listings arrive.

What is left is to say, strategy by strategy, when two items ask for one name. With the prefix
strategy it happens within one backend, whose tools, resources and prompts share the key space, and
across backends, because a server name may extend another one across the separator. With the error
strategy the names are the backends' own, and the exception meant to report a clash is swallowed by
the task it is raised in.
-/

namespace ArgusMcp

/-- The item is advertised under the name it asks for, and routed to its own server and name. -/
structure Registered (v : View) (off : Offer) : Prop where
  advertised : (⟨{ off.cap with name := off.exp }, off.svr, off.orig⟩ : Entry) ∈ v.lists off.capType
  routed : v.routeMap.get? off.exp = some (off.svr, off.orig)

/-- The strategy leaves a name with its holder and gives no other name out. -/
def NeverYields (strategy : ConflictStrategy) : Prop :=
  ∀ exp old new, strategy.handleConflict exp old new = .ok .skip ∨
    ∃ e, strategy.handleConflict exp old new = .error e

theorem neverYields_prefixStrategy (separator : String) :
    NeverYields (.prefixStrategy separator) :=
  fun _ _ _ ↦ Or.inl rfl

theorem neverYields_errorStrategy : NeverYields .errorStrategy :=
  fun _ _ _ ↦ Or.inr ⟨_, rfl⟩

theorem NeverYields.replaces {strategy : ConflictStrategy} (h : NeverYields strategy)
    (routeMap : Dict String Route) (off : Offer) : Replaces strategy routeMap off = false := by
  by_contra hrep
  rw [Bool.not_eq_false] at hrep
  obtain ⟨old, orig, -, -, hact⟩ := replaces_iff.mp hrep
  rcases h off.exp old off.svr with hskip | ⟨e, herr⟩
  · rw [hact] at hskip
    exact absurd hskip (by simp)
  · rw [hact] at herr
    exact absurd herr (by simp)

/-! ## Distinct names are enough -/

/-- Every route was made by an item of `S` that is registered. -/
def Sourced (S : Offer → Prop) (v : View) : Prop :=
  ∀ key, (v.routeMap.get? key).isSome → ∃ off, S off ∧ off.exp = key ∧ Registered v off

section Distinct

variable {cfg : RegistryConfig} {S : Offer → Prop} {ls : CapType → List Entry}
  {capType : CapType} {t : Tables} {off : Offer}

/-- The view a task has while it works on its own list. -/
abbrev Tables.viewIn (t : Tables) (ls : CapType → List Entry) (capType : CapType) : View :=
  ⟨t.routeMap, Function.update ls capType t.aggList⟩

theorem Registered.place {o : Offer} {key : String} (hfree : t.routeMap.get? key = none)
    (h : Registered (t.viewIn ls capType) o) :
    Registered ((t.place key off).viewIn ls capType) o := by
  have hne : o.exp ≠ key := by
    intro heq
    have hrouted := h.routed
    rw [heq, hfree] at hrouted
    exact absurd hrouted (by simp)
  constructor
  · have hmem := h.advertised
    dsimp only at hmem ⊢
    by_cases htype : o.capType = capType
    · rw [htype, Function.update_self] at hmem ⊢
      exact List.mem_append_left _ hmem
    · rwa [Function.update_of_ne htype] at hmem ⊢
  · rw [← h.routed]
    exact Dict.get?_set_of_ne _ _ hne

theorem registered_place_self (t : Tables) (ls : CapType → List Entry)
    (htype : off.capType = capType) :
    Registered ((t.place off.exp off).viewIn ls capType) off := by
  constructor
  · dsimp only
    rw [htype, Function.update_self, Tables.place, List.mem_append]
    exact Or.inr List.mem_cons_self
  · exact Dict.get?_set_self _ _ _

/-- Among items that ask for distinct names, each one is registered when its turn comes: its name
is free, or it has been registered already. -/
theorem enroll_of_sourced (hinj : ∀ p q, S p → S q → p.exp = q.exp → p = q)
    (hsrc : Sourced S (t.viewIn ls capType)) (hoff : S off) (htype : off.capType = capType) :
    ∃ t', enroll cfg t off = .ok t' ∧ Sourced S (t'.viewIn ls capType) ∧
      Registered (t'.viewIn ls capType) off ∧
      ∀ o, Registered (t.viewIn ls capType) o → Registered (t'.viewIn ls capType) o := by
  cases hget : t.routeMap.get? off.exp with
  | none =>
    have henr : enroll cfg t off = .ok (t.place off.exp off) := by
      rw [enroll, resolveConflict, hget]
    have hself := registered_place_self t ls htype
    refine ⟨_, henr, ?_, hself, fun o ho ↦ ho.place hget⟩
    intro key hkey
    by_cases hk : key = off.exp
    · exact ⟨off, hoff, hk.symm, hself⟩
    · rw [Tables.place, Dict.get?_set_of_ne _ _ hk] at hkey
      obtain ⟨o, hS, hexp, hreg⟩ := hsrc key hkey
      exact ⟨o, hS, hexp, hreg.place hget⟩
  | some r =>
    obtain ⟨o, hS, hexp, hreg⟩ := hsrc off.exp (by rw [hget]; rfl)
    have hsame : o = off := hinj o off hS hoff hexp
    subst hsame
    have henr : enroll cfg t o = .ok t := by
      rw [enroll, resolveConflict, hreg.routed]
      dsimp only
      rw [if_pos rfl]
    exact ⟨t, henr, hsrc, hreg, fun o' ho' ↦ ho'⟩

theorem enrollAll_of_sourced (hinj : ∀ p q, S p → S q → p.exp = q.exp → p = q) :
    ∀ {offs : List Offer} {t : Tables}, (∀ off ∈ offs, S off ∧ off.capType = capType) →
      Sourced S (t.viewIn ls capType) →
      Sourced S ((enrollAll cfg t offs).1.viewIn ls capType) ∧
        (∀ off ∈ offs, Registered ((enrollAll cfg t offs).1.viewIn ls capType) off) ∧
        ∀ o, Registered (t.viewIn ls capType) o →
          Registered ((enrollAll cfg t offs).1.viewIn ls capType) o := by
  intro offs
  induction offs with
  | nil => exact fun _ hsrc ↦ ⟨hsrc, by simp, fun _ ho ↦ ho⟩
  | cons off offs ih =>
    intro t hoffs hsrc
    obtain ⟨hoff, htype⟩ := hoffs off List.mem_cons_self
    obtain ⟨t', henr, hsrc', hself, hkeep⟩ := enroll_of_sourced hinj hsrc hoff htype
    obtain ⟨hsrc'', hall, hkeep'⟩ := ih (fun o ho ↦ hoffs o (List.mem_cons_of_mem off ho)) hsrc'
    rw [enrollAll, henr]
    refine ⟨hsrc'', fun o ho ↦ ?_, fun o ho ↦ hkeep' o (hkeep o ho)⟩
    rcases List.mem_cons.mp ho with rfl | ho
    · exact hkeep' o hself
    · exact hall o ho

/-- The run lemma, over the tasks that have completed. -/
theorem registered_discovered {replies : Listings} {order : List Task}
    (hinj : ∀ p q, S p → S q → p.exp = q.exp → p = q)
    (hS : ∀ task ∈ order, ∀ off ∈ taskOffers cfg task (replies task.svr task.capType), S off) :
    Sourced S (discovered cfg replies order) ∧
      ∀ task ∈ order, ∀ off ∈ taskOffers cfg task (replies task.svr task.capType),
        Registered (discovered cfg replies order) off := by
  induction order using List.reverseRecOn with
  | nil => exact ⟨fun key hkey ↦ absurd hkey (by simp [discovered, View.empty]), by simp⟩
  | append_singleton order task ih =>
    obtain ⟨hsrc, hreg⟩ := ih fun t ht ↦ hS t (List.mem_append_left _ ht)
    have hview : Tables.viewIn ⟨(discovered cfg replies order).routeMap,
        (discovered cfg replies order).lists task.capType⟩
        (discovered cfg replies order).lists task.capType = discovered cfg replies order := by
      rw [Tables.viewIn, Function.update_eq_self]
    obtain ⟨hsrc', hall, hkeep⟩ := enrollAll_of_sourced hinj
      (fun off hoff ↦ ⟨hS task (by simp) off hoff, capType_of_mem_offersOf hoff⟩)
      (hview.symm ▸ hsrc)
    rw [discovered_concat]
    refine ⟨hsrc', fun t ht off hoff ↦ ?_⟩
    rcases List.mem_append.mp ht with ht | ht
    · exact hkeep off (hview.symm ▸ hreg t ht off hoff)
    · rw [List.mem_singleton.mp ht] at hoff
      exact hall off hoff

end Distinct

/-! ## Distinct names are needed -/

theorem Consistent.entry_unique {ls : CapType → List Entry} {routeMap : Dict String Route}
    (h : Consistent ls routeMap) {capType capType' : CapType} {e e' : Entry}
    (he : e ∈ ls capType) (he' : e' ∈ ls capType') (hname : e.name = e'.name) :
    capType = capType' ∧ e = e' := by
  have hnodup := h.nodup
  have hsame : e = e' := List.inj_on_of_nodup_map hnodup (mem_allEntries.mpr ⟨capType, he⟩)
    (mem_allEntries.mpr ⟨capType', he'⟩) hname
  refine ⟨?_, hsame⟩
  subst hsame
  rw [allEntries, List.map_append, List.map_append, List.nodup_append, List.nodup_append] at hnodup
  obtain ⟨⟨-, -, htr⟩, -, hp⟩ := hnodup
  have hmem : ∀ {c : CapType}, e ∈ ls c → e.name ∈ (ls c).map Entry.name :=
    fun hc ↦ List.mem_map_of_mem hc
  rcases capType with _ | _ | _ <;> rcases capType' with _ | _ | _
  · rfl
  · exact absurd rfl (htr _ (hmem he) _ (hmem he'))
  · exact absurd rfl (hp _ (List.mem_append_left _ (hmem he)) _ (hmem he'))
  · exact absurd rfl (htr _ (hmem he') _ (hmem he))
  · rfl
  · exact absurd rfl (hp _ (List.mem_append_right _ (hmem he)) _ (hmem he'))
  · exact absurd rfl (hp _ (List.mem_append_left _ (hmem he')) _ (hmem he))
  · exact absurd rfl (hp _ (List.mem_append_right _ (hmem he')) _ (hmem he))
  · rfl

theorem NeverYields.consistent_discovered {cfg : RegistryConfig} (h : NeverYields cfg.strategy)
    (replies : Listings) (order : List Task) :
    Consistent (discovered cfg replies order).lists (discovered cfg replies order).routeMap := by
  induction order using List.reverseRecOn with
  | nil => exact Consistent.empty
  | append_singleton order task ih =>
    rw [discovered_concat]
    refine Consistent.enrollAll task.svr (discovered cfg replies order).routeMap
      (fun off hoff ↦ svr_of_mem_offersOf hoff) (fun off _ hrep ↦ ?_)
      (fun _ _ _ hget _ ↦ hget) ?_
    · rw [h.replaces] at hrep
      exact absurd hrep (by simp)
    · rw [Function.update_eq_self]
      exact ih

theorem Registered.unique {cfg : RegistryConfig} {sessions : Dict String Bool}
    {replies : Listings} {v : View} (hcons : Consistent v.lists v.routeMap) {p q : Offer}
    (hp : Offered cfg sessions replies p) (hq : Offered cfg sessions replies q)
    (hregp : Registered v p) (hregq : Registered v q) (hexp : p.exp = q.exp) : p = q := by
  obtain ⟨htype, hentry⟩ := hcons.entry_unique hregp.advertised hregq.advertised hexp
  have hroute := hregp.routed
  rw [hexp, hregq.routed, Option.some.injEq, Prod.mk.injEq] at hroute
  obtain ⟨hsvr, horig⟩ := hroute
  -- the item itself is not in the view, but its server, type and original name determine its name
  have hcapName : p.cap.name = q.cap.name := by
    obtain ⟨s, c, -, hp⟩ := hp
    obtain ⟨s', c', -, hq⟩ := hq
    obtain ⟨capItem, -, -, -, rfl⟩ := mem_offersOf_iff.mp hp
    obtain ⟨capItem', -, -, -, rfl⟩ := mem_offersOf_iff.mp hq
    dsimp only [mkOffer] at hsvr horig htype ⊢
    rw [renameCap_name, renameCap_name, hsvr, horig, htype]
  obtain ⟨ps, pt, po, ⟨pn, pu, pd⟩, pe⟩ := p
  obtain ⟨qs, qt, qo, ⟨qn, qu, qd⟩, qe⟩ := q
  simp only [Entry.mk.injEq, Cap.mk.injEq] at hentry
  dsimp only at hsvr horig htype hcapName hexp
  rw [hsvr, horig, htype, hcapName, hexp, hentry.1.2.1, hentry.1.2.2]

/-- **Nothing is lost exactly when names are distinct**, for every order of completions. -/
theorem NeverYields.registered_iff {cfg : RegistryConfig} (h : NeverYields cfg.strategy)
    {sessions : Dict String Bool} (replies : Listings) {gen : ℕ} {order : List Task}
    (horder : order.Perm (RegistryState.discoverTasks gen sessions)) :
    (∀ off, Offered cfg sessions replies off → Registered (discovered cfg replies order) off) ↔
      ∀ p q, Offered cfg sessions replies p → Offered cfg sessions replies q →
        p.exp = q.exp → p = q := by
  constructor
  · intro hall p q hp hq hexp
    exact Registered.unique (h.consistent_discovered replies order) hp hq (hall p hp) (hall q hq)
      hexp
  · intro hinj off hoff
    obtain ⟨task, htask, hmem⟩ := (offered_iff horder).mp hoff
    exact (registered_discovered hinj fun t ht o ho ↦
      (offered_iff horder).mpr ⟨t, ht, ho⟩).2 task htask off hmem

theorem exp_of_offered {cfg : RegistryConfig} {sessions : Dict String Bool} {replies : Listings}
    {off : Offer} (h : Offered cfg sessions replies off) :
    off.exp = cfg.strategy.transformName off.svr off.cap.name := by
  obtain ⟨svrName, capType, -, hmem⟩ := h
  obtain ⟨capItem, -, -, -, rfl⟩ := mem_offersOf_iff.mp hmem
  rw [mkOffer, renameCap_name]

/-- **Nothing at all is lost** exactly when, besides, every item let through has a name: an item
without one is passed over. -/
theorem NeverYields.registered_listed_iff {cfg : RegistryConfig} (h : NeverYields cfg.strategy)
    {sessions : Dict String Bool} (replies : Listings) {gen : ℕ} {order : List Task}
    (horder : order.Perm (RegistryState.discoverTasks gen sessions)) :
    (∀ svrName capType capItem, Listed cfg sessions replies svrName capType capItem →
        Registered (discovered cfg replies order) (mkOffer cfg svrName capType capItem)) ↔
      (∀ p q, Offered cfg sessions replies p → Offered cfg sessions replies q →
        p.exp = q.exp → p = q) ∧
      ∀ svrName capType capItem, Listed cfg sessions replies svrName capType capItem →
        capItem.name ≠ "" := by
  rw [← h.registered_iff replies horder]
  constructor
  · intro hall
    refine ⟨fun off hoff ↦ ?_, fun svrName capType capItem hlisted hname ↦ ?_⟩
    · obtain ⟨svrName, capType, capItem, hlisted, -, rfl⟩ := offered_iff_listed.mp hoff
      exact hall svrName capType capItem hlisted
    · -- no route leads to an item without a name
      obtain ⟨task, htask, off, hoff, hr⟩ :=
        exists_offer_of_discovered (hall svrName capType capItem hlisted).routed
      obtain ⟨capItem', -, hname', -, rfl⟩ := mem_offersOf_iff.mp hoff
      exact hname' ((congrArg Prod.snd hr).symm.trans hname)
  · rintro ⟨hoff, hnamed⟩ svrName capType capItem hlisted
    refine hoff _ (offered_iff_listed.mpr ⟨svrName, capType, capItem, hlisted, ?_, rfl⟩)
    exact hnamed svrName capType capItem hlisted

/-! ## The prefix strategy -/

/-- When prefixing keeps the items of a call apart. -/
structure PrefixApart (cfg : RegistryConfig) (separator : String) (sessions : Dict String Bool)
    (replies : Listings) : Prop where
  /-- Within a backend no two items, of whatever types, have one name after renaming. -/
  within : ∀ p q, Offered cfg sessions replies p → Offered cfg sessions replies q →
    p.svr = q.svr → p.cap.name = q.cap.name → p = q
  /-- No server name extends another one across the separator so as to meet in one name. -/
  across : ∀ p q, Offered cfg sessions replies p → Offered cfg sessions replies q →
    p.svr ≠ q.svr → p.svr ++ separator ++ p.cap.name ≠ q.svr ++ separator ++ q.cap.name
  /-- Every item that is let through has a name. -/
  named : ∀ svrName capType capItem, Listed cfg sessions replies svrName capType capItem →
    capItem.name ≠ ""

theorem prefixApart_iff {cfg : RegistryConfig} {separator : String}
    (hstrategy : cfg.strategy = .prefixStrategy separator) {sessions : Dict String Bool}
    {replies : Listings} :
    PrefixApart cfg separator sessions replies ↔
      (∀ p q, Offered cfg sessions replies p → Offered cfg sessions replies q →
        p.exp = q.exp → p = q) ∧
      ∀ svrName capType capItem, Listed cfg sessions replies svrName capType capItem →
        capItem.name ≠ "" := by
  have hexp : ∀ p, Offered cfg sessions replies p → p.exp = p.svr ++ separator ++ p.cap.name := by
    intro p hp
    rw [exp_of_offered hp, hstrategy]
    rfl
  constructor
  · refine fun h ↦ ⟨fun p q hp hq heq ↦ ?_, h.named⟩
    rw [hexp p hp, hexp q hq] at heq
    by_cases hsvr : p.svr = q.svr
    · rw [hsvr] at heq
      exact h.within p q hp hq hsvr (String.append_right_inj _ |>.mp heq)
    · exact absurd heq (h.across p q hp hq hsvr)
  · rintro ⟨h, hnamed⟩
    refine ⟨fun p q hp hq hsvr hname ↦ ?_, fun p q hp hq hsvr heq ↦ ?_, hnamed⟩
    · refine h p q hp hq ?_
      rw [hexp p hp, hexp q hq, hsvr, hname]
    · rw [← hexp p hp, ← hexp q hq] at heq
      exact hsvr (congrArg Offer.svr (h p q hp hq heq))

/-- **What the prefix strategy keeps.** From any reachable state and for any order of completions,
a call returns, and it has registered everything it was asked to, under the prefixed name and
routed to its own server, exactly when prefixing keeps the items apart. -/
theorem registered_prefixStrategy_iff {cfg : RegistryConfig} {separator : String}
    (hstrategy : cfg.strategy = .prefixStrategy separator) {tr : List Step} {st : RegistryState}
    (hreach : registryRun cfg RegistryState.init tr = some st) {sessions : Dict String Bool}
    {replies : Listings} {order : List Task}
    (horder : order.Perm (RegistryState.discoverTasks st.fresh sessions)) :
    ∃ after logged, discoverCall cfg st sessions replies order = some (after, .ok logged) ∧
      ((∀ svrName capType capItem, Listed cfg sessions replies svrName capType capItem →
          let off := mkOffer cfg svrName capType capItem
          off.exp = svrName ++ separator ++ off.cap.name ∧ Registered after.view off) ↔
        PrefixApart cfg separator sessions replies) := by
  obtain ⟨after, logged, hcall, -, hview⟩ :=
    exists_discoverCall cfg replies (stamped_of_run hreach) horder
  have hnever : NeverYields cfg.strategy := hstrategy ▸ neverYields_prefixStrategy separator
  refine ⟨after, logged, hcall, ?_⟩
  rw [hview, prefixApart_iff hstrategy, ← hnever.registered_listed_iff replies horder]
  constructor
  · exact fun h svrName capType capItem hlisted ↦ (h svrName capType capItem hlisted).2
  · refine fun h svrName capType capItem hlisted ↦ ⟨?_, h svrName capType capItem hlisted⟩
    dsimp only [mkOffer]
    rw [hstrategy, renameCap_name]
    rfl

def twoSessions (svr₁ svr₂ : String) : Dict String Bool :=
  Dict.ofList [(svr₁, true), (svr₂, true)]

def oneToolEach (tool : String → String) : Listings := fun svrName capType ↦
  namedReply capType (if capType = .tools then [tool svrName] else [])

/-- A strategy without filters and renames. -/
def plainConfig (strategy : ConflictStrategy) : RegistryConfig where
  strategy := strategy
  filters := Dict.empty
  renameMaps := Dict.empty

theorem named_of_oneToolEach {cfg : RegistryConfig} {sessions : Dict String Bool}
    {tool : String → String} {svrName : String} (htool : tool svrName ≠ "") {capType : CapType}
    {capItem : Cap} (h : Listed cfg sessions (oneToolEach tool) svrName capType capItem) :
    capItem.name ≠ "" := by
  obtain ⟨-, hitem, -⟩ := h
  cases capType with
  | tools =>
    simp [oneToolEach, namedReply, ListReply.items, parseListResult] at hitem
    rw [hitem]
    exact htool
  | resources | prompts => simp [oneToolEach, namedReply, ListReply.items, parseListResult] at hitem

/-- Two backends `a` and `b` with a tool `x` each keep both. -/
theorem registered_prefixStrategy_a_b :
    ∃ after logged, discoverCall (plainConfig (.prefixStrategy "_")) RegistryState.init
        (twoSessions "a" "b") (oneToolEach fun _ ↦ "x")
        (RegistryState.discoverTasks 1 (twoSessions "a" "b")) = some (after, .ok logged) ∧
      ∀ svrName capType capItem, Listed (plainConfig (.prefixStrategy "_")) (twoSessions "a" "b")
          (oneToolEach fun _ ↦ "x") svrName capType capItem →
        let off := mkOffer (plainConfig (.prefixStrategy "_")) svrName capType capItem
        off.exp = svrName ++ "_" ++ off.cap.name ∧ Registered after.view off := by
  obtain ⟨after, logged, hcall, hiff⟩ := @registered_prefixStrategy_iff
    (plainConfig (.prefixStrategy "_")) "_" rfl [] RegistryState.init rfl (twoSessions "a" "b")
    (oneToolEach fun _ ↦ "x") _ (List.Perm.refl _)
  have hapart : ∀ p ∈ callOffers (plainConfig (.prefixStrategy "_")) (twoSessions "a" "b")
      (oneToolEach fun _ ↦ "x"), ∀ q ∈ callOffers (plainConfig (.prefixStrategy "_"))
        (twoSessions "a" "b") (oneToolEach fun _ ↦ "x"),
      (p.svr = q.svr → p.cap.name = q.cap.name → p = q) ∧
        (p.svr ≠ q.svr → p.svr ++ "_" ++ p.cap.name ≠ q.svr ++ "_" ++ q.cap.name) := by
    decide
  refine ⟨after, logged, hcall, hiff.mpr ⟨fun p q hp hq ↦ ?_, fun p q hp hq ↦ ?_, ?_⟩⟩
  · exact (hapart p (mem_callOffers.mpr hp) q (mem_callOffers.mpr hq)).1
  · exact (hapart p (mem_callOffers.mpr hp) q (mem_callOffers.mpr hq)).2
  · exact fun svrName capType capItem hlisted ↦ named_of_oneToolEach (by simp) hlisted

def listedNames (capType : CapType) (raws : List RawItem) : List String :=
  raws.filterMap fun
    | .item cls capItem => if cls = capType then some capItem.name else none
    | .foreign => none

/-- The backends `a`, with a tool `b_x`, and `a_b`, with a tool `x`, do not: both ask for
`a_b_x`. -/
theorem not_registered_prefixStrategy_a_a_b :
    ¬∀ (cfg : RegistryConfig) (separator : String) (tr : List Step) (st : RegistryState)
      (sessions : Dict String Bool) (replies : Listings) (order : List Task)
      (after : RegistryState) (logged : List CapabilityConflictError),
      cfg.strategy = .prefixStrategy separator →
      registryRun cfg RegistryState.init tr = some st →
      (∀ svrName capType, (listedNames capType (replies svrName capType).items).Nodup) →
      order.Perm (RegistryState.discoverTasks st.fresh sessions) →
      discoverCall cfg st sessions replies order = some (after, .ok logged) →
      ∀ svrName capType capItem, Listed cfg sessions replies svrName capType capItem →
        let off := mkOffer cfg svrName capType capItem
        off.exp = svrName ++ separator ++ off.cap.name ∧ Registered after.view off := by
  intro h
  have hnodup : ∀ svrName capType, (listedNames capType (oneToolEach
      (fun svr ↦ if svr = "a" then "b_x" else "x") svrName capType).items).Nodup := by
    intro svrName capType
    cases capType <;> simp [oneToolEach, namedReply, ListReply.items, parseListResult, listedNames]
  obtain ⟨after, logged, hcall, -, -⟩ := exists_discoverCall (plainConfig (.prefixStrategy "_"))
    (oneToolEach fun svr ↦ if svr = "a" then "b_x" else "x") Stamped.init
    (List.Perm.refl (RegistryState.discoverTasks 1 (twoSessions "a" "a_b")))
  have hall := h (plainConfig (.prefixStrategy "_")) "_" [] RegistryState.init _ _ _ after logged
    rfl rfl hnodup (List.Perm.refl _) hcall
  have h₁ : after.view.routeMap.get? "a_b_x" = some ("a", "b_x") :=
    (hall "a" .tools ⟨"b_x", "b_x", none⟩ ⟨by decide, by decide, by decide⟩).2.routed
  have h₂ : after.view.routeMap.get? "a_b_x" = some ("a_b", "x") :=
    (hall "a_b" .tools ⟨"x", "x", none⟩ ⟨by decide, by decide, by decide⟩).2.routed
  rw [h₁] at h₂
  exact absurd h₂ (by decide)

/-! ## The error strategy -/

/-- What a call is meant to do with the error strategy: raise exactly when two backends expose one
name, and otherwise register everything. -/
structure RefusesClashes (cfg : RegistryConfig) (sessions : Dict String Bool) (replies : Listings)
    (after : RegistryState)
    (outcome : Except CapabilityConflictError (List CapabilityConflictError)) : Prop where
  raises_iff : (∃ e, outcome = .error e) ↔ ∃ p q, Offered cfg sessions replies p ∧
    Offered cfg sessions replies q ∧ p.svr ≠ q.svr ∧ p.exp = q.exp
  registers : (∀ e, outcome ≠ .error e) → ∀ svrName capType capItem,
    Listed cfg sessions replies svrName capType capItem →
      Registered after.view (mkOffer cfg svrName capType capItem)

/-- **When the error strategy does what it is meant to**: exactly when no two items of the call
have one name after renaming, so that there is nothing to refuse, and every item has a name. -/
theorem refusesClashes_iff {cfg : RegistryConfig} (hstrategy : cfg.strategy = .errorStrategy)
    {tr : List Step} {st : RegistryState}
    (hreach : registryRun cfg RegistryState.init tr = some st) {sessions : Dict String Bool}
    {replies : Listings} {order : List Task}
    (horder : order.Perm (RegistryState.discoverTasks st.fresh sessions)) :
    ∃ after outcome, discoverCall cfg st sessions replies order = some (after, outcome) ∧
      (RefusesClashes cfg sessions replies after outcome ↔
        (∀ p q, Offered cfg sessions replies p → Offered cfg sessions replies q →
          p.cap.name = q.cap.name → p = q) ∧
        ∀ svrName capType capItem, Listed cfg sessions replies svrName capType capItem →
          capItem.name ≠ "") := by
  obtain ⟨after, logged, hcall, -, hview⟩ :=
    exists_discoverCall cfg replies (stamped_of_run hreach) horder
  have hnever : NeverYields cfg.strategy := hstrategy ▸ neverYields_errorStrategy
  have hregistered := hnever.registered_listed_iff replies horder
  have hexp : ∀ p, Offered cfg sessions replies p → p.exp = p.cap.name := by
    intro p hp
    rw [exp_of_offered hp, hstrategy]
    rfl
  have hreturns : ∀ e, (.ok logged : Except CapabilityConflictError _) ≠ .error e := by simp
  refine ⟨after, .ok logged, hcall, ?_⟩
  constructor
  · intro h
    have hall := h.registers hreturns
    rw [hview] at hall
    obtain ⟨hinj, hnamed⟩ := hregistered.mp hall
    refine ⟨fun p q hp hq hname ↦ hinj p q hp hq ?_, hnamed⟩
    rw [hexp p hp, hexp q hq, hname]
  · rintro ⟨hinj, hnamed⟩
    have hinj' : ∀ p q, Offered cfg sessions replies p → Offered cfg sessions replies q →
        p.exp = q.exp → p = q := by
      intro p q hp hq heq
      rw [hexp p hp, hexp q hq] at heq
      exact hinj p q hp hq heq
    refine ⟨iff_of_false (by simp) ?_, fun _ ↦ ?_⟩
    · rintro ⟨p, q, hp, hq, hsvr, heq⟩
      exact hsvr (congrArg Offer.svr (hinj' p q hp hq heq))
    · rw [hview]
      exact hregistered.mpr ⟨hinj', hnamed⟩

/-- Two backends with tools of different names: nothing to refuse. -/
theorem refusesClashes_a_b :
    ∃ after outcome, discoverCall (plainConfig .errorStrategy) RegistryState.init
        (twoSessions "a" "b") (oneToolEach id)
        (RegistryState.discoverTasks 1 (twoSessions "a" "b")) = some (after, outcome) ∧
      RefusesClashes (plainConfig .errorStrategy) (twoSessions "a" "b") (oneToolEach id) after
        outcome := by
  obtain ⟨after, outcome, hcall, hiff⟩ := @refusesClashes_iff (plainConfig .errorStrategy) rfl []
    RegistryState.init rfl (twoSessions "a" "b") (oneToolEach id) _ (List.Perm.refl _)
  have hapart : ∀ p ∈ callOffers (plainConfig .errorStrategy) (twoSessions "a" "b")
      (oneToolEach id), ∀ q ∈ callOffers (plainConfig .errorStrategy) (twoSessions "a" "b")
        (oneToolEach id), p.cap.name = q.cap.name → p = q := by
    decide
  refine ⟨after, outcome, hcall, hiff.mpr ⟨fun p q hp hq ↦ ?_, fun svrName capType capItem h ↦ ?_⟩⟩
  · exact hapart p (mem_callOffers.mpr hp) q (mem_callOffers.mpr hq)
  · refine named_of_oneToolEach ?_ h
    rintro rfl
    exact absurd h.1 (by decide)

/-- Two backends with a tool `x` each: the call should raise, and returns. -/
theorem not_refusesClashes_x :
    ¬∀ (cfg : RegistryConfig) (tr : List Step) (st : RegistryState)
      (sessions : Dict String Bool) (replies : Listings) (order : List Task)
      (after : RegistryState)
      (outcome : Except CapabilityConflictError (List CapabilityConflictError)),
      cfg.strategy = .errorStrategy →
      registryRun cfg RegistryState.init tr = some st →
      order.Perm (RegistryState.discoverTasks st.fresh sessions) →
      discoverCall cfg st sessions replies order = some (after, outcome) →
      RefusesClashes cfg sessions replies after outcome := by
  intro h
  obtain ⟨after, logged, hcall, -, -⟩ := exists_discoverCall (plainConfig .errorStrategy)
    (oneToolEach fun _ ↦ "x") Stamped.init
    (List.Perm.refl (RegistryState.discoverTasks 1 (twoSessions "a" "b")))
  have hrefuses := h (plainConfig .errorStrategy) [] RegistryState.init _ _ _ after _ rfl rfl
    (List.Perm.refl _) hcall
  obtain ⟨e, he⟩ := hrefuses.raises_iff.mpr
    ⟨⟨"a", .tools, "x", ⟨"x", "x", none⟩, "x"⟩, ⟨"b", .tools, "x", ⟨"x", "x", none⟩, "x"⟩,
      mem_callOffers.mp (by decide), mem_callOffers.mp (by decide), by decide, rfl⟩
  exact absurd he (by simp)

end ArgusMcp
