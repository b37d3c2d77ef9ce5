import ArgusMcp.Bridge.Lossless
import ArgusMcp.Library.Contest

/-!
# The priority strategy

The strategy compares a newcomer with the holder of the name it asks for. A newcomer of higher
priority takes the name, and the holder is dropped; any other newcomer is renamed with its server
as a prefix. Seen from the route map a `discover_and_register` call is a contest for names in the
sense of `Contest`, and the rules for the outcome of contests apply.

## What the order of arrival decides

The strategy is documented as one where others are prefixed, but it prefixes only those that come
after the winner. All orders of completion give every tool its due exactly when nobody is ever
prefixed for good: every name has a server that is ahead of all others (a server that is configured
twice is first by one position and ranked by the other, and servers that are not configured are
tied), and the prefixed name of everybody else goes to somebody who asks for it.
-/

namespace ArgusMcp

/-! ## A call as a contest -/

/-- The contest for names that the strategy holds. -/
def priorityRules (priorityOrder : List String) (separator : String) :
    Contest.Rules Offer String String String where
  bidder := Offer.svr
  key := Offer.exp
  value := Offer.orig
  rank := ConflictStrategy.getPriority priorityOrder
  fallback := fun svrName name ↦ svrName ++ separator ++ name

section Contest

variable {cfg : RegistryConfig} {priorityOrder : List String} {separator : String}

theorem enroll_priorityStrategy
    (hstrategy : cfg.strategy = .priorityStrategy priorityOrder separator) (t : Tables)
    (off : Offer) : ∃ t', enroll cfg t off = .ok t' ∧
      t'.routeMap.get?
        = Contest.bid (priorityRules priorityOrder separator) t.routeMap.get? off := by
  rw [enroll, resolveConflict]
  cases hget : t.routeMap.get? off.exp with
  | none =>
    refine ⟨_, rfl, ?_⟩
    rw [Contest.bid_of_none hget]
    exact Dict.get?_set_eq_update _ _ _
  | some r =>
    obtain ⟨holder, orig⟩ := r
    dsimp only
    by_cases hsame : holder = off.svr
    · rw [if_pos hsame]
      exact ⟨t, rfl, (Contest.bid_of_own hget hsame).symm⟩
    · rw [if_neg hsame, hstrategy, ConflictStrategy.handleConflict]
      by_cases hrank : ConflictStrategy.getPriority priorityOrder off.svr
          < ConflictStrategy.getPriority priorityOrder holder
      · rw [if_pos hrank]
        refine ⟨_, rfl, ?_⟩
        rw [Contest.bid_of_rank_lt hget hsame hrank]
        exact Dict.get?_del_set _ _ _
      · rw [if_neg hrank]
        dsimp only
        cases hspare : t.routeMap.get? (off.svr ++ separator ++ off.exp) with
        | none =>
          refine ⟨_, rfl, ?_⟩
          rw [Contest.bid_of_spare_none hget hsame hrank hspare]
          exact Dict.get?_set_eq_update _ _ _
        | some r => exact ⟨t, rfl, (Contest.bid_of_spare_some hget hsame hrank hspare).symm⟩

theorem enrollAll_priorityStrategy
    (hstrategy : cfg.strategy = .priorityStrategy priorityOrder separator) (offs : List Offer)
    (t : Tables) : (enrollAll cfg t offs).1.routeMap.get?
      = offs.foldl (Contest.bid (priorityRules priorityOrder separator)) t.routeMap.get? := by
  induction offs generalizing t with
  | nil => rfl
  | cons off offs ih =>
    obtain ⟨t', henr, hbid⟩ := enroll_priorityStrategy hstrategy t off
    rw [enrollAll, henr, List.foldl_cons, ← hbid]
    exact ih t'

/-- **The routes a call builds are the outcome of a contest** among its offers, in the order in
which they arrive. -/
theorem get?_discovered (hstrategy : cfg.strategy = .priorityStrategy priorityOrder separator)
    (replies : Listings) (order : List Task) :
    (discovered cfg replies order).routeMap.get?
      = Contest.outcome (priorityRules priorityOrder separator) (arrivals cfg replies order) := by
  induction order using List.reverseRecOn with
  | nil => rfl
  | append_singleton order task ih =>
    have harr : arrivals cfg replies (order ++ [task]) = arrivals cfg replies order
        ++ taskOffers cfg task (replies task.svr task.capType) := by
      rw [arrivals, List.flatMap_append, List.flatMap_singleton, ← arrivals]
    rw [discovered_concat, View.enrollTask, harr, Contest.outcome, List.foldl_append,
      ← Contest.outcome, ← ih]
    exact enrollAll_priorityStrategy hstrategy _ _

end Contest

/-! ## What is claimed for the strategy -/

section Contract

variable (cfg : RegistryConfig) (priorityOrder : List String) (separator : String)
  (sessions : Dict String Bool) (replies : Listings)

/-- The server of the offer comes before every other one that offers the same name. -/
def Earliest (w : Offer) : Prop :=
  ∀ o, Offered cfg sessions replies o → o.exp = w.exp → o.svr ≠ w.svr →
    priorityOrder.idxOf w.svr < priorityOrder.idxOf o.svr

/-- Contested names go to the earliest server, and everybody else is found under the prefixed name
unless some other server offers that. -/
structure Awarded (resolve : String → Option Route) : Prop where
  contested : ∀ p q, Offered cfg sessions replies p → Offered cfg sessions replies q →
    p.exp = q.exp → p.svr ≠ q.svr →
    ∃ w, Offered cfg sessions replies w ∧ w.exp = p.exp ∧
      Earliest cfg priorityOrder sessions replies w ∧ resolve p.exp = some (w.svr, w.orig)
  losers : ∀ p, Offered cfg sessions replies p → ¬Earliest cfg priorityOrder sessions replies p →
    (∀ o, Offered cfg sessions replies o → o.exp = p.svr ++ separator ++ p.exp → o.svr = p.svr) →
    resolve (p.svr ++ separator ++ p.exp) = some (p.svr, p.orig)

/-- The routes are the same after both calls, and as they should be. -/
structure OrderIndependent (after₁ after₂ : RegistryState) : Prop where
  same : ∀ name, after₁.resolveCapability name = after₂.resolveCapability name
  first : Awarded cfg priorityOrder separator sessions replies after₁.resolveCapability
  second : Awarded cfg priorityOrder separator sessions replies after₂.resolveCapability

/-- This is so whatever two orders the tasks of the call are completed in. -/
def AlwaysIndependent (st : RegistryState) : Prop :=
  ∀ order₁ order₂, order₁.Perm (RegistryState.discoverTasks st.fresh sessions) →
    order₂.Perm (RegistryState.discoverTasks st.fresh sessions) →
    ∃ after₁ logged₁ after₂ logged₂,
      discoverCall cfg st sessions replies order₁ = some (after₁, .ok logged₁) ∧
      discoverCall cfg st sessions replies order₂ = some (after₂, .ok logged₂) ∧
      OrderIndependent cfg priorityOrder separator sessions replies after₁ after₂

/-- The server of the offer is strictly ahead of every other one that offers the same name, by its
first position in the configured order and by the priority on record, which is its last one. -/
def Ahead (w : Offer) : Prop :=
  ∀ o, Offered cfg sessions replies o → o.exp = w.exp → o.svr ≠ w.svr →
    priorityOrder.idxOf w.svr < priorityOrder.idxOf o.svr ∧
    ConflictStrategy.getPriority priorityOrder w.svr
      < ConflictStrategy.getPriority priorityOrder o.svr

/-- **The condition.** Every name on offer has a server ahead of all others, and the prefixed name
of everybody else is on offer as well: by some other server, and the one that is ahead of all there
is of higher priority than the loser, or is the loser's own, which lists that name first. -/
structure LosersCovered : Prop where
  ahead : ∀ p, Offered cfg sessions replies p → ∃ w, Offered cfg sessions replies w ∧
    Ahead cfg priorityOrder sessions replies w ∧ w.exp = p.exp
  offered : ∀ p, Offered cfg sessions replies p → ¬Ahead cfg priorityOrder sessions replies p →
    ∃ c, Offered cfg sessions replies c ∧ c.svr ≠ p.svr ∧ c.exp = p.svr ++ separator ++ p.exp
  covered : ∀ p, Offered cfg sessions replies p → ¬Ahead cfg priorityOrder sessions replies p →
    ∃ w, Offered cfg sessions replies w ∧ Ahead cfg priorityOrder sessions replies w ∧
      w.exp = p.svr ++ separator ++ p.exp ∧
      (ConflictStrategy.getPriority priorityOrder w.svr
          < ConflictStrategy.getPriority priorityOrder p.svr ∨
        [w, p].Sublist (offersOf cfg p.svr p.capType (replies p.svr p.capType).items))

end Contract

section Award

variable {cfg : RegistryConfig} {priorityOrder : List String} {separator : String}
  {sessions : Dict String Bool} {replies : Listings} {gen : ℕ} {order : List Task}

theorem mem_arrivals (horder : order.Perm (RegistryState.discoverTasks gen sessions))
    {off : Offer} : off ∈ arrivals cfg replies order ↔ Offered cfg sessions replies off := by
  rw [(arrivals_perm horder).mem_iff, mem_callOffers]

/-- Two different offers of one name come from different servers. -/
theorem svr_ne_of_exp_eq
    (hexposed : ((callOffers cfg sessions replies).map fun o ↦ (o.svr, o.exp)).Nodup)
    {p q : Offer} (hp : Offered cfg sessions replies p) (hq : Offered cfg sessions replies q)
    (hexp : p.exp = q.exp) (hne : p ≠ q) : p.svr ≠ q.svr := fun hsvr ↦
  hne (List.inj_on_of_nodup_map hexposed (mem_callOffers.mpr hp) (mem_callOffers.mpr hq)
    (Prod.ext hsvr hexp))

theorem eq_of_route_eq
    (hlisted : ((callOffers cfg sessions replies).map fun o ↦ (o.svr, o.orig)).Nodup)
    {p q : Offer} (hp : Offered cfg sessions replies p) (hq : Offered cfg sessions replies q)
    (hroute : (p.svr, p.orig) = (q.svr, q.orig)) : p = q :=
  List.inj_on_of_nodup_map hlisted (mem_callOffers.mpr hp) (mem_callOffers.mpr hq) hroute

theorem Ahead.earliest {w : Offer} (h : Ahead cfg priorityOrder sessions replies w) :
    Earliest cfg priorityOrder sessions replies w := fun o ho hexp hsvr ↦ (h o ho hexp hsvr).1

theorem exists_rival_of_not_ahead {p : Offer} (h : ¬Ahead cfg priorityOrder sessions replies p) :
    ∃ o, Offered cfg sessions replies o ∧ o.exp = p.exp ∧ o.svr ≠ p.svr := by
  by_contra hnone
  exact h fun o ho hexp hsvr ↦ absurd ⟨o, ho, hexp, hsvr⟩ hnone

theorem Earliest.eq
    (hexposed : ((callOffers cfg sessions replies).map fun o ↦ (o.svr, o.exp)).Nodup)
    {w o : Offer} (hw : Offered cfg sessions replies w) (ho : Offered cfg sessions replies o)
    (hexp : o.exp = w.exp) (hearw : Earliest cfg priorityOrder sessions replies w)
    (hearo : Earliest cfg priorityOrder sessions replies o) : o = w := by
  by_contra hne
  have hsvr := svr_ne_of_exp_eq hexposed ho hw hexp hne
  have h₁ := hearw o ho hexp hsvr
  have h₂ := hearo w hw hexp.symm (Ne.symm hsvr)
  omega

/-! ### Where losers are covered -/

theorem best_iff_ahead
    (hexposed : ((callOffers cfg sessions replies).map fun o ↦ (o.svr, o.exp)).Nodup)
    (hcov : LosersCovered cfg priorityOrder separator sessions replies)
    (horder : order.Perm (RegistryState.discoverTasks gen sessions)) {w : Offer} :
    Contest.Best (priorityRules priorityOrder separator) (arrivals cfg replies order) w ↔
      Offered cfg sessions replies w ∧ Ahead cfg priorityOrder sessions replies w := by
  have hbest : ∀ {c : Offer}, Offered cfg sessions replies c →
      Ahead cfg priorityOrder sessions replies c →
      Contest.Best (priorityRules priorityOrder separator) (arrivals cfg replies order) c := by
    intro c hc hahead
    refine ⟨(mem_arrivals horder).mpr hc, fun o ho hkey hne ↦ ?_⟩
    have ho' := (mem_arrivals horder).mp ho
    exact (hahead o ho' hkey (svr_ne_of_exp_eq hexposed ho' hc hkey hne)).2
  constructor
  · intro hw
    have hoff := (mem_arrivals horder).mp hw.1
    obtain ⟨c, hc, hahead, hexp⟩ := hcov.ahead w hoff
    rw [hw.unique (hbest hc hahead) hexp] at hahead
    exact ⟨hoff, hahead⟩
  · rintro ⟨hoff, hahead⟩
    exact hbest hoff hahead

theorem taskOffers_sublist_arrivals {task : Task} (htask : task ∈ order) :
    (taskOffers cfg task (replies task.svr task.capType)).Sublist (arrivals cfg replies order) := by
  obtain ⟨before, behind, rfl⟩ := List.append_of_mem htask
  rw [arrivals, List.flatMap_append, List.flatMap_cons]
  exact (List.sublist_append_left _ _).trans (List.sublist_append_right _ _)

/-- What comes earlier in a listing is heard earlier. -/
theorem sublist_arrivals (horder : order.Perm (RegistryState.discoverTasks gen sessions))
    {p : Offer} (hp : Offered cfg sessions replies p) {offs : List Offer}
    (h : offs.Sublist (offersOf cfg p.svr p.capType (replies p.svr p.capType).items)) :
    offs.Sublist (arrivals cfg replies order) := by
  obtain ⟨task, htask, hmem⟩ := (offered_iff horder).mp hp
  rw [svr_of_mem_offersOf hmem, capType_of_mem_offersOf hmem] at h
  exact h.trans (taskOffers_sublist_arrivals htask)

theorem covered_arrivals
    (hexposed : ((callOffers cfg sessions replies).map fun o ↦ (o.svr, o.exp)).Nodup)
    (hcov : LosersCovered cfg priorityOrder separator sessions replies)
    (horder : order.Perm (RegistryState.discoverTasks gen sessions)) :
    Contest.Covered (priorityRules priorityOrder separator) (arrivals cfg replies order) := by
  constructor
  · intro b hb
    obtain ⟨w, hw, hahead, hexp⟩ := hcov.ahead b ((mem_arrivals horder).mp hb)
    exact ⟨w, (best_iff_ahead hexposed hcov horder).mpr ⟨hw, hahead⟩, hexp⟩
  · intro done p rest hsplit hnot
    have hp : Offered cfg sessions replies p := (mem_arrivals horder).mp (hsplit ▸ by simp)
    have hbehind : ¬Ahead cfg priorityOrder sessions replies p := fun hahead ↦
      hnot ((best_iff_ahead hexposed hcov horder).mpr ⟨hp, hahead⟩)
    obtain ⟨w, hw, hahead, hexp, hcase⟩ := hcov.covered p hp hbehind
    refine ⟨w, (best_iff_ahead hexposed hcov horder).mpr ⟨hw, hahead⟩, hexp, ?_⟩
    refine hcase.imp_right fun hlist ↦ ?_
    have hnodup := (arrivals_perm horder).nodup_iff.mpr (hexposed.of_map _)
    have hsub := sublist_arrivals horder hp hlist
    rw [← hsplit] at hnodup hsub
    exact Contest.mem_of_pair_sublist hnodup hsub

theorem get?_discovered_iff (hstrategy : cfg.strategy = .priorityStrategy priorityOrder separator)
    (hexposed : ((callOffers cfg sessions replies).map fun o ↦ (o.svr, o.exp)).Nodup)
    (hcov : LosersCovered cfg priorityOrder separator sessions replies)
    (horder : order.Perm (RegistryState.discoverTasks gen sessions)) {name : String} {r : Route} :
    (discovered cfg replies order).routeMap.get? name = some r ↔
      ∃ w, (Offered cfg sessions replies w ∧ Ahead cfg priorityOrder sessions replies w) ∧
        w.exp = name ∧ r = (w.svr, w.orig) := by
  rw [get?_discovered hstrategy,
    Contest.outcome_eq_some_iff (covered_arrivals hexposed hcov horder)]
  exact exists_congr fun w ↦ and_congr_left fun _ ↦ best_iff_ahead hexposed hcov horder

/-- Every item then gets its due: there is nobody to be found under a prefixed name. -/
theorem awarded_discovered (hstrategy : cfg.strategy = .priorityStrategy priorityOrder separator)
    (hexposed : ((callOffers cfg sessions replies).map fun o ↦ (o.svr, o.exp)).Nodup)
    (hcov : LosersCovered cfg priorityOrder separator sessions replies)
    (horder : order.Perm (RegistryState.discoverTasks gen sessions)) :
    Awarded cfg priorityOrder separator sessions replies
      (discovered cfg replies order).routeMap.get? := by
  constructor
  · intro p q hp _ _ _
    obtain ⟨w, hw, hahead, hexp⟩ := hcov.ahead p hp
    exact ⟨w, hw, hexp, hahead.earliest,
      (get?_discovered_iff hstrategy hexposed hcov horder).mpr ⟨w, ⟨hw, hahead⟩, hexp, rfl⟩⟩
  · intro p hp hear halone
    obtain ⟨c, hc, hsvr, hexp⟩ := hcov.offered p hp fun hahead ↦ hear hahead.earliest
    exact absurd (halone c hc hexp) hsvr

/-! ### Why they must be -/

theorem exists_order (front : List Task) (hnodup : front.Nodup)
    (hfront : ∀ task ∈ front, task ∈ RegistryState.discoverTasks gen sessions) :
    ∃ rest, (front ++ rest).Perm (RegistryState.discoverTasks gen sessions) := by
  obtain ⟨moved, hmoved, hsub⟩ := hnodup.subperm hfront
  obtain ⟨rest, hrest⟩ := hsub.exists_perm_append
  exact ⟨rest, ((hmoved.symm.append_right rest).trans hrest.symm)⟩

theorem exists_task (gen : ℕ) {p : Offer} (hp : Offered cfg sessions replies p) :
    ∃ task ∈ RegistryState.discoverTasks gen sessions, task.svr = p.svr ∧
      p ∈ taskOffers cfg task (replies task.svr task.capType) := by
  obtain ⟨task, htask, hmem⟩ := (offered_iff (List.Perm.refl _)).mp hp
  exact ⟨task, htask, (svr_of_mem_offersOf hmem).symm, hmem⟩

/-- What a backend lists of one type has different names. -/
theorem nodup_exp_taskOffers
    (hexposed : ((callOffers cfg sessions replies).map fun o ↦ (o.svr, o.exp)).Nodup) {task : Task}
    (htask : task ∈ RegistryState.discoverTasks gen sessions) :
    ((taskOffers cfg task (replies task.svr task.capType)).map Offer.exp).Nodup := by
  have hnodup := ((arrivals_perm (List.Perm.refl (RegistryState.discoverTasks gen sessions))).map
    fun o : Offer ↦ (o.svr, o.exp)).nodup_iff.mpr hexposed
  have hpairs := hnodup.sublist ((taskOffers_sublist_arrivals htask).map _)
  refine List.Nodup.of_map (fun name ↦ (task.svr, name)) ?_
  rw [List.map_map]
  refine (List.map_congr_left fun o ho ↦ ?_) ▸ hpairs
  exact Prod.ext (svr_of_mem_offersOf ho) rfl

section Always

variable (hstrategy : cfg.strategy = .priorityStrategy priorityOrder separator)
  (hlisted : ((callOffers cfg sessions replies).map fun o ↦ (o.svr, o.orig)).Nodup)
  (hexposed : ((callOffers cfg sessions replies).map fun o ↦ (o.svr, o.exp)).Nodup)
  (haward : ∀ order, order.Perm (RegistryState.discoverTasks gen sessions) →
    Awarded cfg priorityOrder separator sessions replies
      (discovered cfg replies order).routeMap.get?)

include hstrategy hexposed haward

/-- Every name has a server ahead of the others: a rival that is heard first is replaced. -/
theorem exists_ahead_of_awarded {p : Offer} (hp : Offered cfg sessions replies p) :
    ∃ w, Offered cfg sessions replies w ∧ Ahead cfg priorityOrder sessions replies w ∧
      w.exp = p.exp := by
  by_cases hahead : Ahead cfg priorityOrder sessions replies p
  · exact ⟨p, hp, hahead, rfl⟩
  obtain ⟨q, hq, hqexp, hqsvr⟩ := exists_rival_of_not_ahead hahead
  obtain ⟨w, hw, hwexp, hear, -⟩ :=
    (haward _ (List.Perm.refl _)).contested p q hp hq hqexp.symm (Ne.symm hqsvr)
  refine ⟨w, hw, fun o ho hexp hsvr ↦ ⟨hear o ho hexp hsvr, ?_⟩, hwexp⟩
  obtain ⟨task, htask, -, hmem⟩ := exists_task gen ho
  obtain ⟨rest, horder⟩ := exists_order [task] (List.nodup_singleton task) (by simpa using htask)
  obtain ⟨w', hw', hexp', hear', hroute⟩ := (haward _ horder).contested o w ho hw hexp hsvr
  obtain rfl : w' = w := Earliest.eq hexposed hw hw' (hexp'.trans hexp) hear hear'
  rw [get?_discovered hstrategy, arrivals, List.singleton_append, List.flatMap_cons] at hroute
  obtain ⟨r, hr, hcase⟩ := Contest.outcome_of_first (R := priorityRules priorityOrder separator)
    (nodup_exp_taskOffers hexposed htask) hmem (arrivals cfg replies rest)
  obtain rfl : r = (w'.svr, w'.orig) := Option.some.inj (hr.symm.trans hroute)
  rcases hcase with heq | ⟨c, -, -, heq, hlt⟩
  · exact absurd (congrArg Prod.fst heq).symm hsvr
  · have hsvr' : w'.svr = c.svr := congrArg Prod.fst heq
    rw [hsvr']
    exact hlt

/-- Whoever is ahead has its name in the end. -/
theorem get?_of_ahead (hsame : ∀ order₁ order₂,
      order₁.Perm (RegistryState.discoverTasks gen sessions) →
      order₂.Perm (RegistryState.discoverTasks gen sessions) →
      ∀ name, (discovered cfg replies order₁).routeMap.get? name
        = (discovered cfg replies order₂).routeMap.get? name) {w : Offer}
    (hw : Offered cfg sessions replies w) (hahead : Ahead cfg priorityOrder sessions replies w)
    (horder : order.Perm (RegistryState.discoverTasks gen sessions)) :
    (discovered cfg replies order).routeMap.get? w.exp = some (w.svr, w.orig) := by
  by_cases hrival : ∃ o, Offered cfg sessions replies o ∧ o.exp = w.exp ∧ o.svr ≠ w.svr
  · obtain ⟨o, ho, hexp, hsvr⟩ := hrival
    obtain ⟨w', hw', hexp', hear', hroute⟩ :=
      (haward _ horder).contested w o hw ho hexp.symm (Ne.symm hsvr)
    rw [hroute, Earliest.eq hexposed hw hw' hexp' hahead.earliest hear']
  · obtain ⟨task, htask, -, hmem⟩ := exists_task gen hw
    obtain ⟨rest, hfirst⟩ := exists_order [task] (List.nodup_singleton task) (by simpa using htask)
    rw [hsame _ _ horder hfirst, get?_discovered hstrategy, arrivals, List.singleton_append,
      List.flatMap_cons]
    obtain ⟨r, hr, rfl | ⟨c, hc, hkey, -, hlt⟩⟩ := Contest.outcome_of_first
      (R := priorityRules priorityOrder separator) (nodup_exp_taskOffers hexposed htask) hmem
      (arrivals cfg replies rest)
    · exact hr
    · -- nobody else asks for the name
      have hc' : Offered cfg sessions replies c := (mem_arrivals hfirst).mp
        (by rw [arrivals, List.flatMap_append]; exact List.mem_append_right _ hc)
      have hsvr : c.svr = w.svr := not_not.mp fun hne ↦ hrival ⟨c, hc', hkey, hne⟩
      exact absurd (congrArg (ConflictStrategy.getPriority priorityOrder) hsvr) hlt.ne

include hlisted

/-- A loser that is heard first is dropped, so nobody must ask where it is. -/
theorem exists_other_of_awarded {p : Offer} (hp : Offered cfg sessions replies p)
    (hbehind : ¬Ahead cfg priorityOrder sessions replies p) :
    ∃ c, Offered cfg sessions replies c ∧ c.svr ≠ p.svr ∧
      c.exp = p.svr ++ separator ++ p.exp := by
  by_contra hnone
  have halone : ∀ o, Offered cfg sessions replies o → o.exp = p.svr ++ separator ++ p.exp →
      o.svr = p.svr := fun o ho hexp ↦ not_not.mp fun hsvr ↦ hnone ⟨o, ho, hsvr, hexp⟩
  obtain ⟨w, hw, hahead, hwexp⟩ := exists_ahead_of_awarded hstrategy hexposed haward hp
  have hear : ¬Earliest cfg priorityOrder sessions replies p := fun hear ↦
    hbehind (Earliest.eq hexposed hw hp hwexp.symm hahead.earliest hear ▸ hahead)
  obtain ⟨task, htask, -, hmem⟩ := exists_task gen hp
  obtain ⟨rest, horder⟩ := exists_order [task] (List.nodup_singleton task) (by simpa using htask)
  have hroute := (haward _ horder).losers p hp hear halone
  have hnodup := (arrivals_perm horder).nodup_iff.mpr (hexposed.of_map _)
  have harrive : ∀ {b : Offer}, b ∈ arrivals cfg replies rest → Offered cfg sessions replies b :=
    fun hb ↦ (mem_arrivals horder).mp
      (by rw [arrivals, List.flatMap_append]; exact List.mem_append_right _ hb)
  rw [get?_discovered hstrategy] at hroute
  rw [arrivals, List.singleton_append, List.flatMap_cons] at hroute hnodup
  rw [Contest.outcome, List.foldl_append] at hroute
  rcases Contest.of_foldl_eq_some hroute with hfirst | ⟨b, hb, hmark⟩
  · obtain ⟨b, hb, hkey, hmark⟩ :=
      (Contest.outcome_of_apart (nodup_exp_taskOffers hexposed htask)).mp hfirst
    have hb' : Offered cfg sessions replies b :=
      (offered_iff (List.Perm.refl _)).mpr ⟨task, htask, hb⟩
    obtain rfl : p = b := eq_of_route_eq hlisted hp hb' hmark
    obtain ⟨o, ho, hexp, hsvr⟩ := exists_rival_of_not_ahead hbehind
    exact hsvr (halone o ho (hexp.trans hkey))
  · obtain rfl : p = b := eq_of_route_eq hlisted hp (harrive hb) hmark
    exact (List.nodup_append.mp hnodup).2.2 p hmem p hb rfl

/-- The spare name of a loser has somebody ahead who is of higher priority, or whom the loser's
server lists first: the winner is heard first, then the loser, and then all others. -/
theorem exists_cover_of_awarded (hsame : ∀ order₁ order₂,
      order₁.Perm (RegistryState.discoverTasks gen sessions) →
      order₂.Perm (RegistryState.discoverTasks gen sessions) →
      ∀ name, (discovered cfg replies order₁).routeMap.get? name
        = (discovered cfg replies order₂).routeMap.get? name) {p : Offer}
    (hp : Offered cfg sessions replies p) (hbehind : ¬Ahead cfg priorityOrder sessions replies p) :
    ∃ w, Offered cfg sessions replies w ∧ Ahead cfg priorityOrder sessions replies w ∧
      w.exp = p.svr ++ separator ++ p.exp ∧
      (ConflictStrategy.getPriority priorityOrder w.svr
          < ConflictStrategy.getPriority priorityOrder p.svr ∨
        [w, p].Sublist (offersOf cfg p.svr p.capType (replies p.svr p.capType).items)) := by
  obtain ⟨c, hc, -, hcexp⟩ :=
    exists_other_of_awarded hstrategy hlisted hexposed haward hp hbehind
  obtain ⟨w, hw, hwahead, hwexp⟩ := exists_ahead_of_awarded hstrategy hexposed haward hc
  obtain ⟨n, hn, hnahead, hnexp⟩ := exists_ahead_of_awarded hstrategy hexposed haward hp
  have hne : n ≠ p := fun heq ↦ hbehind (heq ▸ hnahead)
  have hnsvr := svr_ne_of_exp_eq hexposed hn hp hnexp hne
  have hrank := (hnahead p hp hnexp.symm (Ne.symm hnsvr)).2
  obtain ⟨task₁, htask₁, hsvr₁, hmem₁⟩ := exists_task gen hn
  obtain ⟨task₂, htask₂, hsvr₂, hmem₂⟩ := exists_task gen hp
  have hapart : task₁ ≠ task₂ := fun heq ↦ hnsvr (by rw [← hsvr₁, ← hsvr₂, heq])
  obtain ⟨rest, horder⟩ := exists_order [task₁, task₂] (by simpa using hapart)
    (List.forall_mem_cons.mpr ⟨htask₁, List.forall_mem_singleton.mpr htask₂⟩)
  have hoffered : ∀ {task : Task} {b : Offer}, task ∈ RegistryState.discoverTasks gen sessions →
      b ∈ taskOffers cfg task (replies task.svr task.capType) → Offered cfg sessions replies b :=
    fun htask hb ↦ (offered_iff (List.Perm.refl _)).mpr ⟨_, htask, hb⟩
  obtain ⟨between, behind, hsplit⟩ := List.append_of_mem hmem₂
  have hfinal := get?_of_ahead hstrategy hexposed haward hsame hw hwahead horder
  rw [get?_discovered hstrategy, arrivals, List.cons_append, List.flatMap_cons, List.cons_append,
    List.flatMap_cons, List.nil_append, hsplit, List.append_assoc, List.cons_append,
    ← List.append_assoc, hwexp, hcexp] at hfinal
  obtain ⟨b, hb, r, hr, hcase⟩ := Contest.exists_spare
    (R := priorityRules priorityOrder separator) (nodup_exp_taskOffers hexposed htask₁) hmem₁
    hnexp hrank between (behind ++ arrivals cfg replies rest)
  obtain rfl : r = (w.svr, w.orig) := Option.some.inj (hr.symm.trans hfinal)
  refine ⟨w, hw, hwahead, hwexp.trans hcexp, ?_⟩
  rw [List.append_assoc, List.mem_append] at hb
  rcases hb with hb | hb
  · -- it came with the winner of the contested name
    have hbsvr : b.svr = n.svr := (svr_of_mem_offersOf hb).trans hsvr₁
    refine Or.inl (lt_of_le_of_lt ?_ hrank)
    rcases hcase with heq | hlt
    · exact ((congrArg Prod.fst heq : w.svr = b.svr).trans hbsvr) ▸ le_refl _
    · exact (hbsvr ▸ hlt : ConflictStrategy.getPriority priorityOrder w.svr < _).le
  · have hb₂ : b ∈ taskOffers cfg task₂ (replies task₂.svr task₂.capType) := by
      rw [hsplit]
      rcases List.mem_append.mp hb with hb | hb
      · exact List.mem_append_left _ hb
      · exact List.mem_append_right _ (List.mem_singleton.mp hb ▸ List.mem_cons_self)
    rcases hcase with heq | hlt
    · obtain rfl : w = b := eq_of_route_eq hlisted hw (hoffered htask₂ hb₂) heq
      have hwp : w ≠ p := fun h ↦ hbehind (h ▸ hwahead)
      have hbetween : w ∈ between :=
        (List.mem_append.mp hb).resolve_right fun h ↦ hwp (List.mem_singleton.mp h)
      refine Or.inr ?_
      have hlist : offersOf cfg p.svr p.capType (replies p.svr p.capType).items
          = between ++ p :: behind := by
        rw [svr_of_mem_offersOf hmem₂, capType_of_mem_offersOf hmem₂]
        exact hsplit
      rw [hlist]
      exact (List.singleton_sublist.mpr hbetween).append
        (List.singleton_sublist.mpr List.mem_cons_self)
    · exact Or.inl ((svr_of_mem_offersOf hb₂).trans hsvr₂ ▸ hlt)

end Always

/-- **When the priority strategy is order independent and loses nothing.** From any reachable
state, for backends that list, and expose, their items under different names: whatever two orders
the tasks are completed in, they lead to the same routes, with contested names at the earliest
server and all losers under their prefixed names, exactly when there is nobody who is to be found
under a prefixed name. -/
theorem orderIndependent_iff
    (hstrategy : cfg.strategy = .priorityStrategy priorityOrder separator) {tr : List Step}
    {st : RegistryState} (hreach : registryRun cfg RegistryState.init tr = some st)
    (hlisted : ((callOffers cfg sessions replies).map fun o ↦ (o.svr, o.orig)).Nodup)
    (hexposed : ((callOffers cfg sessions replies).map fun o ↦ (o.svr, o.exp)).Nodup) :
    AlwaysIndependent cfg priorityOrder separator sessions replies st ↔
      LosersCovered cfg priorityOrder separator sessions replies := by
  have hstamp := stamped_of_run hreach
  have hcall : ∀ {order : List Task}, order.Perm (RegistryState.discoverTasks st.fresh sessions) →
      ∃ after logged, discoverCall cfg st sessions replies order = some (after, .ok logged) ∧
        after.resolveCapability = (discovered cfg replies order).routeMap.get? := by
    intro order horder
    obtain ⟨after, logged, hcall, -, hview⟩ := exists_discoverCall cfg replies hstamp horder
    exact ⟨after, logged, hcall, congrArg (fun v : View ↦ v.routeMap.get?) hview⟩
  constructor
  · intro halways
    have hboth : ∀ order₁ order₂, order₁.Perm (RegistryState.discoverTasks st.fresh sessions) →
        order₂.Perm (RegistryState.discoverTasks st.fresh sessions) →
        (∀ name, (discovered cfg replies order₁).routeMap.get? name
          = (discovered cfg replies order₂).routeMap.get? name) ∧
        Awarded cfg priorityOrder separator sessions replies
          (discovered cfg replies order₁).routeMap.get? := by
      intro order₁ order₂ horder₁ horder₂
      obtain ⟨after₁, logged₁, hcall₁, hres₁⟩ := hcall horder₁
      obtain ⟨after₂, logged₂, hcall₂, hres₂⟩ := hcall horder₂
      obtain ⟨a₁, l₁, a₂, l₂, ha₁, ha₂, hind⟩ := halways order₁ order₂ horder₁ horder₂
      rw [hcall₁, Option.some.injEq, Prod.mk.injEq] at ha₁
      rw [hcall₂, Option.some.injEq, Prod.mk.injEq] at ha₂
      rw [← ha₁.1, ← ha₂.1] at hind
      rw [← hres₁, ← hres₂]
      exact ⟨hind.same, hind.first⟩
    have haward := fun order horder ↦ (hboth order order horder horder).2
    have hsame := fun order₁ order₂ h₁ h₂ ↦ (hboth order₁ order₂ h₁ h₂).1
    constructor
    · exact fun p hp ↦ exists_ahead_of_awarded hstrategy hexposed haward hp
    · exact fun p hp hbehind ↦
        exists_other_of_awarded hstrategy hlisted hexposed haward hp hbehind
    · exact fun p hp hbehind ↦
        exists_cover_of_awarded hstrategy hlisted hexposed haward hsame hp hbehind
  · intro hcov order₁ order₂ horder₁ horder₂
    obtain ⟨after₁, logged₁, hcall₁, hres₁⟩ := hcall horder₁
    obtain ⟨after₂, logged₂, hcall₂, hres₂⟩ := hcall horder₂
    refine ⟨after₁, logged₁, after₂, logged₂, hcall₁, hcall₂, ?_, ?_, ?_⟩
    · intro name
      rw [hres₁, hres₂]
      refine Option.ext fun r ↦ ?_
      rw [get?_discovered_iff hstrategy hexposed hcov horder₁,
        get?_discovered_iff hstrategy hexposed hcov horder₂]
    · rw [hres₁]
      exact awarded_discovered hstrategy hexposed hcov horder₁
    · rw [hres₂]
      exact awarded_discovered hstrategy hexposed hcov horder₂

end Award

/-! ### Servers with one tool each -/

/-- Two servers list `x`, and a third one, of higher priority, lists the prefixed name. -/
def threeSessions : Dict String Bool := Dict.ofList [("low", true), ("high", true), ("c", true)]

def coveredListings : Listings := oneToolEach fun svr ↦ if svr = "c" then "low_x" else "x"

def coveredConfig : RegistryConfig := plainConfig (.priorityStrategy ["c", "high", "low"] "_")

/-- The loser's tool is then found under neither name, whatever the order. -/
theorem orderIndependent_covered :
    AlwaysIndependent coveredConfig ["c", "high", "low"] "_" threeSessions coveredListings
      RegistryState.init := by
  have hahead : ∀ w ∈ callOffers coveredConfig threeSessions coveredListings, w.svr ≠ "low" →
      ∀ o ∈ callOffers coveredConfig threeSessions coveredListings, o.exp = w.exp → o.svr ≠ w.svr →
        ["c", "high", "low"].idxOf w.svr < ["c", "high", "low"].idxOf o.svr ∧
        ConflictStrategy.getPriority ["c", "high", "low"] w.svr
          < ConflictStrategy.getPriority ["c", "high", "low"] o.svr := by decide
  have hname : ∀ p ∈ callOffers coveredConfig threeSessions coveredListings,
      ∃ w ∈ callOffers coveredConfig threeSessions coveredListings,
        w.svr ≠ "low" ∧ w.exp = p.exp := by decide
  have hspare : ∀ p ∈ callOffers coveredConfig threeSessions coveredListings, p.svr = "low" →
      ∃ w ∈ callOffers coveredConfig threeSessions coveredListings, w.svr ≠ "low" ∧
        w.exp = p.svr ++ "_" ++ p.exp ∧ ConflictStrategy.getPriority ["c", "high", "low"] w.svr
          < ConflictStrategy.getPriority ["c", "high", "low"] p.svr := by decide
  have hlow : ∀ p, Offered coveredConfig threeSessions coveredListings p →
      ¬Ahead coveredConfig ["c", "high", "low"] threeSessions coveredListings p →
      p.svr = "low" := by
    intro p hp hbehind
    by_contra hne
    exact hbehind fun o ho ↦ hahead p (mem_callOffers.mpr hp) hne o (mem_callOffers.mpr ho)
  refine (@orderIndependent_iff coveredConfig ["c", "high", "low"] "_" threeSessions
    coveredListings rfl [] RegistryState.init rfl (by decide) (by decide)).mpr ⟨?_, ?_, ?_⟩
  · intro p hp
    obtain ⟨w, hw, hne, hexp⟩ := hname p (mem_callOffers.mpr hp)
    exact ⟨w, mem_callOffers.mp hw, fun o ho ↦ hahead w hw hne o (mem_callOffers.mpr ho), hexp⟩
  · intro p hp hbehind
    obtain ⟨w, hw, hne, hexp, -⟩ := hspare p (mem_callOffers.mpr hp) (hlow p hp hbehind)
    exact ⟨w, mem_callOffers.mp hw, hlow p hp hbehind ▸ hne, hexp⟩
  · intro p hp hbehind
    obtain ⟨w, hw, hne, hexp, hrank⟩ := hspare p (mem_callOffers.mpr hp) (hlow p hp hbehind)
    exact ⟨w, mem_callOffers.mp hw, fun o ho ↦ hahead w hw hne o (mem_callOffers.mpr ho), hexp,
      Or.inl hrank⟩

/-- With the loser heard first in one of two calls, its tool is gone after that call only. -/
theorem not_orderIndependent_low_first :
    ¬∀ (cfg : RegistryConfig) (priorityOrder : List String) (separator : String) (tr : List Step)
      (st : RegistryState) (sessions : Dict String Bool) (replies : Listings)
      (order₁ order₂ : List Task) (after₁ after₂ : RegistryState)
      (logged₁ logged₂ : List CapabilityConflictError),
      cfg.strategy = .priorityStrategy priorityOrder separator →
      registryRun cfg RegistryState.init tr = some st →
      (∀ off ∈ callOffers cfg sessions replies, off.capType = .tools) →
      (∀ svrName capType, (listedNames capType (replies svrName capType).items).Nodup) →
      ((callOffers cfg sessions replies).map fun o ↦ (o.svr, o.exp)).Nodup →
      order₁.Perm (RegistryState.discoverTasks st.fresh sessions) →
      order₂.Perm (RegistryState.discoverTasks st.fresh sessions) →
      discoverCall cfg st sessions replies order₁ = some (after₁, .ok logged₁) →
      discoverCall cfg st sessions replies order₂ = some (after₂, .ok logged₂) →
      OrderIndependent cfg priorityOrder separator sessions replies after₁ after₂ := by
  intro h
  have hnodup : ∀ svrName capType, (listedNames capType
      (oneToolEach (fun _ ↦ "x") svrName capType).items).Nodup := by
    intro svrName capType
    cases capType <;> simp [oneToolEach, namedReply, ListReply.items, parseListResult, listedNames]
  obtain ⟨after₁, logged₁, hcall₁, -, hview₁⟩ := exists_discoverCall highLowConfig
    (oneToolEach fun _ ↦ "x") Stamped.init
    (List.Perm.refl (RegistryState.discoverTasks 1 (twoSessions "low" "high")))
  obtain ⟨after₂, logged₂, hcall₂, -, hview₂⟩ := exists_discoverCall highLowConfig
    (oneToolEach fun _ ↦ "x") Stamped.init
    (List.reverse_perm (RegistryState.discoverTasks 1 (twoSessions "low" "high")))
  have hsame := (h highLowConfig ["high", "low"] "_" [] RegistryState.init _ _ _ _ after₁ after₂
    logged₁ logged₂ rfl rfl (by decide) hnodup (by decide) (List.Perm.refl _)
    (List.reverse_perm _) hcall₁ hcall₂).same "low_x"
  have hres₁ : after₁.resolveCapability "low_x" = none :=
    congrArg (fun v : View ↦ v.routeMap.get? "low_x") hview₁
  have hres₂ : after₂.resolveCapability "low_x" = some ("low", "x") :=
    congrArg (fun v : View ↦ v.routeMap.get? "low_x") hview₂
  rw [hres₁, hres₂] at hsame
  exact absurd hsame (by simp)

end ArgusMcp
