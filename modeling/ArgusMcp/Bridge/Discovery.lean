import ArgusMcp.Bridge.Consistency

/-!
# One `discover_and_register` call

The call starts with an empty route map and three empty lists, hands them to its tasks, and shows
the lists once all tasks are done. What it builds is a fold over its tasks in the order in which
they complete, and that fold does not look at the registry as it was before: every question about
the outcome of a call is a question about `discovered`.

## What readers see meanwhile

The three lists are swapped at the end and the route map at the start. Between the two a reader
gets the old lists with the routes found so far, which is neither what was there before nor what
will be there after, unless there is nothing to discover and nothing to forget.
-/

namespace ArgusMcp

/-! ## Views -/

/-- The four pieces of state the reading methods return. -/
structure View where
  routeMap : Dict String Route
  lists : CapType → List Entry

/-- What a reader gets in a state. -/
def RegistryState.view (st : RegistryState) : View := ⟨st.routeMap, st.advertisedLists⟩

/-- What the backends answer, by server and type. -/
abbrev Listings := String → CapType → ListReply

namespace View

def empty : View := ⟨Dict.empty, fun _ ↦ []⟩

def enrollTask (cfg : RegistryConfig) (replies : Listings) (v : View) (task : Task) : View :=
  let t := (enrollAll cfg ⟨v.routeMap, v.lists task.capType⟩
    (taskOffers cfg task (replies task.svr task.capType))).1
  ⟨t.routeMap, Function.update v.lists task.capType t.aggList⟩

end View

/-- What tasks build from nothing when they complete in the given order. -/
def discovered (cfg : RegistryConfig) (replies : Listings) (order : List Task) : View :=
  order.foldl (View.enrollTask cfg replies) View.empty

theorem discovered_concat (cfg : RegistryConfig) (replies : Listings) (order : List Task)
    (task : Task) : discovered cfg replies (order ++ [task])
      = (discovered cfg replies order).enrollTask cfg replies task := by
  rw [discovered, List.foldl_append]
  rfl

/-- A backend with a valid session lists the item, and its filter lets it through. -/
def Listed (cfg : RegistryConfig) (sessions : Dict String Bool) (replies : Listings)
    (svrName : String) (capType : CapType) (capItem : Cap) : Prop :=
  sessions.get? svrName = some true ∧
    RawItem.item capType capItem ∈ (replies svrName capType).items ∧
    passesFilter cfg svrName capType capItem.name = true

/-- What the call is asked to register: the offer of a listed item that has a name. -/
def Offered (cfg : RegistryConfig) (sessions : Dict String Bool) (replies : Listings)
    (off : Offer) : Prop :=
  ∃ svrName capType, sessions.get? svrName = some true ∧
    off ∈ offersOf cfg svrName capType (replies svrName capType).items

theorem offered_iff_listed {cfg : RegistryConfig} {sessions : Dict String Bool}
    {replies : Listings} {off : Offer} : Offered cfg sessions replies off ↔
      ∃ svrName capType capItem, Listed cfg sessions replies svrName capType capItem ∧
        capItem.name ≠ "" ∧ off = mkOffer cfg svrName capType capItem := by
  constructor
  · rintro ⟨svrName, capType, hget, hmem⟩
    obtain ⟨capItem, hitem, hname, hpass, hoff⟩ := mem_offersOf_iff.mp hmem
    exact ⟨svrName, capType, capItem, ⟨hget, hitem, hpass⟩, hname, hoff⟩
  · rintro ⟨svrName, capType, capItem, ⟨hget, hitem, hpass⟩, hname, hoff⟩
    exact ⟨svrName, capType, hget, mem_offersOf_iff.mpr ⟨capItem, hitem, hname, hpass, hoff⟩⟩

theorem mem_discoverTasks {gen : ℕ} {sessions : Dict String Bool} {task : Task} :
    task ∈ RegistryState.discoverTasks gen sessions ↔
      sessions.get? task.svr = some true ∧ task.gen = gen ∧ task.origin = .gather := by
  rw [RegistryState.discoverTasks, List.mem_flatMap]
  constructor
  · rintro ⟨⟨svrName, valid⟩, hmem, htask⟩
    cases valid with
    | false => exact absurd htask (by simp)
    | true =>
      rw [if_pos rfl] at htask
      simp only [List.mem_cons, List.not_mem_nil, or_false] at htask
      have hget := Dict.get?_eq_some_of_mem hmem
      rcases htask with rfl | rfl | rfl
      · exact ⟨hget, rfl, rfl⟩
      · exact ⟨hget, rfl, rfl⟩
      · exact ⟨hget, rfl, rfl⟩
  · rintro ⟨hget, rfl, horigin⟩
    refine ⟨_, Dict.mem_items_of_get?_eq_some hget, ?_⟩
    rw [if_pos rfl]
    obtain ⟨svrName, capType, gen, origin⟩ := task
    cases horigin
    cases capType <;> simp

theorem offered_iff {cfg : RegistryConfig} {sessions : Dict String Bool} {replies : Listings}
    {gen : ℕ} {order : List Task} (horder : order.Perm (RegistryState.discoverTasks gen sessions))
    {off : Offer} : Offered cfg sessions replies off ↔
      ∃ task ∈ order, off ∈ taskOffers cfg task (replies task.svr task.capType) := by
  constructor
  · rintro ⟨svrName, capType, hget, hoff⟩
    refine ⟨⟨svrName, capType, gen, .gather⟩, horder.mem_iff.mpr ?_, hoff⟩
    exact mem_discoverTasks.mpr ⟨hget, rfl, rfl⟩
  · rintro ⟨task, htask, hoff⟩
    exact ⟨task.svr, task.capType, (mem_discoverTasks.mp (horder.mem_iff.mp htask)).1, hoff⟩

/-- The offers of tasks in the order in which the tasks complete. -/
def arrivals (cfg : RegistryConfig) (replies : Listings) (order : List Task) : List Offer :=
  order.flatMap fun task ↦ taskOffers cfg task (replies task.svr task.capType)

/-- The offers of a call, server by server. -/
def callOffers (cfg : RegistryConfig) (sessions : Dict String Bool) (replies : Listings) :
    List Offer :=
  arrivals cfg replies (RegistryState.discoverTasks 0 sessions)

theorem mem_callOffers {cfg : RegistryConfig} {sessions : Dict String Bool} {replies : Listings}
    {off : Offer} : off ∈ callOffers cfg sessions replies ↔ Offered cfg sessions replies off := by
  rw [callOffers, arrivals, List.mem_flatMap, offered_iff (List.Perm.refl _)]

theorem arrivals_perm {cfg : RegistryConfig} {sessions : Dict String Bool} {replies : Listings}
    {gen : ℕ} {order : List Task}
    (horder : order.Perm (RegistryState.discoverTasks gen sessions)) :
    (arrivals cfg replies order).Perm (callOffers cfg sessions replies) := by
  have hgen : arrivals cfg replies (RegistryState.discoverTasks gen sessions)
      = callOffers cfg sessions replies := by
    rw [callOffers, arrivals, arrivals, RegistryState.discoverTasks, RegistryState.discoverTasks,
      List.flatMap_assoc, List.flatMap_assoc]
    refine congrArg (fun f ↦ List.flatMap f sessions.items) (funext fun session ↦ ?_)
    cases session.2 with
    | false => rfl
    | true => rfl
  rw [← hgen]
  exact horder.flatMap_right _

theorem taskOffers_eq_nil {cfg : RegistryConfig} {sessions : Dict String Bool}
    {replies : Listings} {gen : ℕ} {order : List Task}
    (horder : order.Perm (RegistryState.discoverTasks gen sessions))
    (hnone : ∀ off, ¬Offered cfg sessions replies off) :
    ∀ task ∈ order, taskOffers cfg task (replies task.svr task.capType) = [] := by
  intro task htask
  refine List.eq_nil_iff_forall_not_mem.mpr fun off hmem ↦ hnone off ?_
  exact (offered_iff horder).mpr ⟨task, htask, hmem⟩

/-! ## The steps of a call -/

/-- The tasks complete, each with the listing of its server. -/
def completions (replies : Listings) (order : List Task) : List Step :=
  order.map fun task ↦ .complete task (replies task.svr task.capType)

/-- The steps of a call from `st` on. A call without tasks does not suspend. -/
def discoveryTrace (st : RegistryState) (sessions : Dict String Bool) (replies : Listings)
    (order : List Task) : List Step :=
  .discoverAndRegister sessions ::
    (completions replies order ++ if order = [] then [] else [.publish st.fresh])

/-- A whole call, and what it comes to: the state it leaves, and the exception it raises or those
it logs. -/
def discoverCall (cfg : RegistryConfig) (st : RegistryState) (sessions : Dict String Bool)
    (replies : Listings) (order : List Task) :
    Option (RegistryState × Except CapabilityConflictError (List CapabilityConflictError)) :=
  (registryRun cfg st (.discoverAndRegister sessions :: completions replies order)).bind fun m ↦
    (if order = [] then some m else registryStep cfg m (.publish st.fresh)).map fun after ↦
      (after, discoverOutcome (m.results st.fresh))

/-- A call that started in `st` is suspended: the tasks in `done` have completed and those in
`rest` have not. -/
structure InProgress (cfg : RegistryConfig) (replies : Listings) (st : RegistryState)
    (done rest : List Task) (m : RegistryState) : Prop where
  routeMap : m.routeMap = (discovered cfg replies done).routeMap
  lists : m.lists st.fresh = (discovered cfg replies done).lists
  advertised : m.advertisedLists = st.advertisedLists
  live : m.live = st.live
  pending : m.pending.Perm (st.pending ++ rest)
  gathering : st.fresh ∈ m.gathers

namespace InProgress

variable {cfg : RegistryConfig} {replies : Listings} {st m : RegistryState}
  {sessions : Dict String Bool} {done rest order : List Task} {task : Task}

theorem start (cfg : RegistryConfig) (replies : Listings) (hstamp : Stamped st)
    (horder : order.Perm (RegistryState.discoverTasks st.fresh sessions)) (hne : order ≠ []) :
    InProgress cfg replies st [] order (st.discoverAndRegister sessions) := by
  have hadv : st.newLists (fun _ ↦ []) st.live = st.lists st.live :=
    Function.update_of_ne hstamp.live_lt.ne _ _
  rw [RegistryState.discoverAndRegister]
  split
  · rename_i htasks
    rw [htasks, List.perm_nil] at horder
    exact absurd horder hne
  · exact ⟨rfl, Function.update_self _ _ _, hadv, rfl, horder.symm.append_left _,
      List.mem_cons_self⟩

theorem complete (hstamp : Stamped st) (h : InProgress cfg replies st done (task :: rest) m)
    (hgen : task.gen = st.fresh) (horigin : task.origin = .gather) :
    ∃ m', registryStep cfg m (.complete task (replies task.svr task.capType)) = some m' ∧
      InProgress cfg replies st (done ++ [task]) rest m' := by
  have hmem : task ∈ m.pending := h.pending.mem_iff.mpr (by simp)
  refine ⟨_, registryStep_complete.mpr ⟨hmem, rfl⟩, ?_⟩
  obtain ⟨hmap, hlists, hlive, -, -, hgathers⟩ :=
    complete_tables cfg m task (replies task.svr task.capType)
  -- the task is one of the call's own, so it was not pending before the call
  have hnew : task ∉ st.pending := fun hin ↦ (hstamp.pending_lt task hin).ne hgen
  have hne : st.live ≠ task.gen := fun heq ↦ hstamp.live_lt.ne (heq.trans hgen)
  rw [h.routeMap, hgen, h.lists] at hmap hlists
  constructor
  · rw [hmap, discovered_concat]
    rfl
  · rw [hlists, discovered_concat, RegistryState.setList, Function.update_self, h.lists]
    rfl
  · rw [RegistryState.advertisedLists, hlive, h.live, hlists, RegistryState.setList,
      Function.update_of_ne (hgen ▸ hne), ← h.live]
    exact h.advertised
  · rw [hlive, h.live]
  · have hpending : (m.complete cfg task (replies task.svr task.capType)).pending
        = m.pending.erase task := by
      rw [RegistryState.complete, horigin]
    rw [hpending]
    have herase := h.pending.erase task
    rwa [List.erase_append_right _ hnew, List.erase_cons_head] at herase
  · rw [hgathers]
    exact h.gathering

theorem completions (hstamp : Stamped st) :
    ∀ {mid done : List Task} {m : RegistryState}, InProgress cfg replies st done (mid ++ rest) m →
      (∀ task ∈ mid, task.gen = st.fresh ∧ task.origin = .gather) →
      ∃ m', registryRun cfg m (ArgusMcp.completions replies mid) = some m' ∧
        InProgress cfg replies st (done ++ mid) rest m' := by
  intro mid
  induction mid with
  | nil =>
    intro done m h _
    exact ⟨m, rfl, by rwa [List.append_nil]⟩
  | cons task mid ih =>
    intro done m h hmid
    obtain ⟨hgen, horigin⟩ := hmid task List.mem_cons_self
    obtain ⟨m₁, hstep, h₁⟩ := h.complete hstamp hgen horigin
    obtain ⟨m₂, hrun, h₂⟩ := ih h₁ fun t ht ↦ hmid t (List.mem_cons_of_mem task ht)
    refine ⟨m₂, Run.run_cons_eq_some.mpr ⟨m₁, hstep, hrun⟩, ?_⟩
    rwa [List.append_assoc, List.singleton_append] at h₂

theorem publish (hstamp : Stamped st) (h : InProgress cfg replies st done [] m) :
    registryStep cfg m (.publish st.fresh) = some (m.publish st.fresh) ∧
      (m.publish st.fresh).view = discovered cfg replies done := by
  constructor
  · refine registryStep_publish.mpr ⟨⟨h.gathering, fun task htask _ ↦ ?_⟩, rfl⟩
    rw [h.pending.mem_iff, List.append_nil] at htask
    exact (hstamp.pending_lt task htask).ne
  · rw [RegistryState.view, RegistryState.publish, RegistryState.advertisedLists]
    dsimp only
    rw [h.routeMap, h.lists]

end InProgress

section Call

variable {cfg : RegistryConfig} {st : RegistryState} {sessions : Dict String Bool}
  {replies : Listings} {order : List Task}

theorem view_discoverAndRegister_of_nil
    (htasks : RegistryState.discoverTasks st.fresh sessions = []) :
    (st.discoverAndRegister sessions).view = View.empty := by
  rw [RegistryState.discoverAndRegister, htasks]
  dsimp only
  rw [RegistryState.view, RegistryState.publish, RegistryState.advertisedLists,
    RegistryState.newLists]
  dsimp only
  rw [Function.update_self]
  rfl

theorem exists_inProgress (cfg : RegistryConfig) (replies : Listings) (hstamp : Stamped st)
    (horder : order.Perm (RegistryState.discoverTasks st.fresh sessions)) (hne : order ≠ [])
    {done rest : List Task} (hsplit : done ++ rest = order) :
    ∃ m, registryRun cfg st (.discoverAndRegister sessions :: completions replies done) = some m ∧
      InProgress cfg replies st done rest m := by
  subst hsplit
  have hstart := InProgress.start cfg replies hstamp horder hne
  have hdone : ∀ task ∈ done, task.gen = st.fresh ∧ task.origin = .gather := fun task htask ↦
    (mem_discoverTasks.mp (horder.mem_iff.mp (List.mem_append_left rest htask))).2
  obtain ⟨m, hrun, hm⟩ := hstart.completions hstamp hdone
  exact ⟨m, Run.run_cons_eq_some.mpr ⟨_, rfl, hrun⟩, hm⟩

/-- **What a call comes to.** It returns, whatever its tasks met, and readers then see what the
tasks have built in the order in which they completed. -/
theorem exists_discoverCall (cfg : RegistryConfig) (replies : Listings) (hstamp : Stamped st)
    (horder : order.Perm (RegistryState.discoverTasks st.fresh sessions)) :
    ∃ after logged, discoverCall cfg st sessions replies order = some (after, .ok logged) ∧
      registryRun cfg st (discoveryTrace st sessions replies order) = some after ∧
      after.view = discovered cfg replies order := by
  have hreturns : ∀ results, ∃ logged, discoverOutcome results = .ok logged := by
    intro results
    cases hout : discoverOutcome results with
    | error e => exact absurd hout (discoverOutcome_ne_error _ e)
    | ok logged => exact ⟨logged, rfl⟩
  by_cases hne : order = []
  · subst hne
    obtain ⟨logged, hlogged⟩ := hreturns ((st.discoverAndRegister sessions).results st.fresh)
    refine ⟨st.discoverAndRegister sessions, logged, ?_, rfl, ?_⟩
    · rw [← hlogged]
      rfl
    · exact view_discoverAndRegister_of_nil (List.nil_perm.mp horder)
  · obtain ⟨m, hrun, hm⟩ := exists_inProgress cfg replies hstamp horder hne (List.append_nil order)
    obtain ⟨hpub, hview⟩ := hm.publish hstamp
    obtain ⟨logged, hlogged⟩ := hreturns (m.results st.fresh)
    refine ⟨m.publish st.fresh, logged, ?_, ?_, hview⟩
    · rw [discoverCall, hrun, Option.bind_some, if_neg hne, hpub, Option.map_some, hlogged]
    · rw [registryRun] at hrun ⊢
      rw [discoveryTrace, if_neg hne, ← List.cons_append, Run.run_append, hrun, Option.bind_some]
      exact Run.run_cons_eq_some.mpr ⟨_, hpub, rfl⟩

end Call

/-! ## Routes stay, and every route is advertised -/

section Growth

variable {cfg : RegistryConfig} {t t' : Tables} {off : Offer} {offs : List Offer}

/-- A name that is routed stays routed, though not always to the same server. -/
theorem isSome_of_enroll (h : enroll cfg t off = .ok t') {key : String}
    (hkey : (t.routeMap.get? key).isSome) : (t'.routeMap.get? key).isSome := by
  rcases enroll_cases h with ⟨rfl, -⟩ | ⟨k, -, -, -, rfl⟩ | ⟨-, rfl⟩
  · exact hkey
  · rw [Tables.place, Dict.get?_set]
    split
    · rfl
    · exact hkey
  · rw [Tables.place, Tables.evict, Dict.get?_set]
    split
    · rfl
    · rename_i hne
      rw [Dict.get?_del, if_neg hne]
      exact hkey

theorem isSome_exp_of_enroll (h : enroll cfg t off = .ok t') :
    (t'.routeMap.get? off.exp).isSome := by
  cases hget : t.routeMap.get? off.exp with
  | some r => exact isSome_of_enroll h (by rw [hget]; rfl)
  | none =>
    rw [enroll, resolveConflict, hget] at h
    rw [← Except.ok.inj h, Tables.place, Dict.get?_set_self]
    rfl

theorem isSome_exp_of_enroll_error {e : CapabilityConflictError} (h : enroll cfg t off = .error e) :
    (t.routeMap.get? off.exp).isSome := by
  cases hget : t.routeMap.get? off.exp with
  | some r => rfl
  | none =>
    rw [enroll, resolveConflict, hget] at h
    exact absurd h (by simp)

theorem isSome_of_enrollAll {key : String} (hkey : (t.routeMap.get? key).isSome) :
    ((enrollAll cfg t offs).1.routeMap.get? key).isSome := by
  induction offs generalizing t with
  | nil => exact hkey
  | cons off offs ih =>
    rw [enrollAll]
    cases henr : enroll cfg t off with
    | error e => exact hkey
    | ok t' => exact ih (isSome_of_enroll henr hkey)

theorem isSome_exp_of_enrollAll_cons :
    ((enrollAll cfg t (off :: offs)).1.routeMap.get? off.exp).isSome := by
  rw [enrollAll]
  cases henr : enroll cfg t off with
  | error e => exact isSome_exp_of_enroll_error henr
  | ok t' => exact isSome_of_enrollAll (isSome_exp_of_enroll henr)

end Growth

/-- Every route has an advertised item of its name. -/
def View.Covered (v : View) : Prop :=
  ∀ key, (v.routeMap.get? key).isSome → ∃ capType, ∃ e ∈ v.lists capType, e.name = key

namespace View

variable {cfg : RegistryConfig} {replies : Listings}

theorem covered_enrollAll {ls : CapType → List Entry} {capType : CapType} :
    ∀ {offs : List Offer} {t : Tables}, Covered ⟨t.routeMap, Function.update ls capType t.aggList⟩ →
      Covered ⟨(enrollAll cfg t offs).1.routeMap,
        Function.update ls capType (enrollAll cfg t offs).1.aggList⟩ := by
  intro offs
  induction offs with
  | nil => exact fun h ↦ h
  | cons off offs ih =>
    intro t h
    -- a key other than the new one keeps its entry, the new one has the last
    have hplace : ∀ {u : Tables} {new : String},
        (∀ key, key ≠ new → (u.routeMap.get? key).isSome →
          ∃ c, ∃ e ∈ Function.update ls capType u.aggList c, e.name = key) →
        Covered ⟨(u.place new off).routeMap,
          Function.update ls capType (u.place new off).aggList⟩ := by
      intro u new hold key hkey
      by_cases hnew : key = new
      · refine ⟨capType, ⟨{ off.cap with name := new }, off.svr, off.orig⟩, ?_, hnew.symm⟩
        dsimp only
        rw [Function.update_self, Tables.place, List.mem_append]
        exact Or.inr List.mem_cons_self
      · rw [Tables.place, Dict.get?_set_of_ne _ _ hnew] at hkey
        obtain ⟨c, e, he, hname⟩ := hold key hnew hkey
        refine ⟨c, e, ?_, hname⟩
        dsimp only
        by_cases hc : c = capType
        · subst hc
          rw [Function.update_self] at he ⊢
          exact List.mem_append_left _ he
        · rwa [Function.update_of_ne hc] at he ⊢
    rw [enrollAll]
    cases henr : enroll cfg t off with
    | error e => exact h
    | ok t' =>
      rcases enroll_cases henr with ⟨rfl, -⟩ | ⟨new, -, -, -, rfl⟩ | ⟨-, rfl⟩
      · exact ih h
      · exact ih (hplace fun key _ hkey ↦ h key hkey)
      · refine ih (hplace fun key hne hkey ↦ ?_)
        rw [Tables.evict, Dict.get?_del, if_neg hne] at hkey
        obtain ⟨c, e, he, hname⟩ := h key hkey
        refine ⟨c, e, ?_, hname⟩
        dsimp only at he
        by_cases hc : c = capType
        · subst hc
          rw [Function.update_self] at he ⊢
          rw [Tables.evict, List.mem_filter]
          exact ⟨he, by simp [hname, hne]⟩
        · rwa [Function.update_of_ne hc] at he ⊢

theorem Covered.enrollTask {v : View} (h : v.Covered) (task : Task) :
    (v.enrollTask cfg replies task).Covered := by
  refine covered_enrollAll ?_
  rw [Function.update_eq_self]
  exact h

end View

section Discovered

variable {cfg : RegistryConfig} {replies : Listings} {order : List Task}

theorem covered_discovered : (discovered cfg replies order).Covered := by
  induction order using List.reverseRecOn with
  | nil => exact fun key hkey ↦ absurd hkey (by simp [discovered, View.empty])
  | append_singleton order task ih =>
    rw [discovered_concat]
    exact ih.enrollTask task

theorem discovered_eq_empty
    (h : ∀ task ∈ order, taskOffers cfg task (replies task.svr task.capType) = []) :
    discovered cfg replies order = View.empty := by
  induction order using List.reverseRecOn with
  | nil => rfl
  | append_singleton order task ih =>
    rw [discovered_concat, ih fun t ht ↦ h t (List.mem_append_left _ ht), View.enrollTask,
      h task (by simp), enrollAll, Function.update_eq_self]

theorem exists_offer_of_discovered {key : String} {r : Route}
    (h : (discovered cfg replies order).routeMap.get? key = some r) :
    ∃ task ∈ order, ∃ off ∈ taskOffers cfg task (replies task.svr task.capType),
      r = (off.svr, off.orig) := by
  induction order using List.reverseRecOn generalizing key r with
  | nil => simp [discovered, View.empty] at h
  | append_singleton order task ih =>
    rw [discovered_concat, View.enrollTask] at h
    have hgrows := GrowsBy.enrollAll (fun _ hoff ↦ hoff) (GrowsBy.refl cfg.strategy
      (taskOffers cfg task (replies task.svr task.capType))
      ⟨(discovered cfg replies order).routeMap, (discovered cfg replies order).lists task.capType⟩)
    rcases hgrows.route key r h with hold | ⟨off, hoff, hr, -⟩
    · obtain ⟨t, ht, off, hoff, hr⟩ := ih hold
      exact ⟨t, List.mem_append_left _ ht, off, hoff, hr⟩
    · exact ⟨task, by simp, off, hoff, hr⟩

theorem exists_route_discovered {task : Task} (htask : task ∈ order) {off : Offer}
    (hoff : off ∈ taskOffers cfg task (replies task.svr task.capType)) :
    ∃ key, ((discovered cfg replies order).routeMap.get? key).isSome := by
  induction order using List.reverseRecOn with
  | nil => exact absurd htask (by simp)
  | append_singleton order last ih =>
    rw [discovered_concat]
    rcases List.mem_append.mp htask with htask | htask
    · obtain ⟨key, hkey⟩ := ih htask
      exact ⟨key, isSome_of_enrollAll hkey⟩
    · rw [← List.mem_singleton.mp htask, View.enrollTask]
      obtain ⟨first, offs, hcons⟩ := List.exists_cons_of_ne_nil (List.ne_nil_of_mem hoff)
      rw [hcons]
      exact ⟨first.exp, isSome_exp_of_enrollAll_cons⟩

end Discovered

/-! ## Every advertised item is routed -/

/-- Every advertised item has a route of its name. -/
def View.NamesRouted (v : View) : Prop :=
  ∀ capType, ∀ e ∈ v.lists capType, (v.routeMap.get? e.name).isSome

section NamesRouted

variable {cfg : RegistryConfig} {t : Tables} {offs : List Offer}

def Tables.NamesRouted (t : Tables) : Prop := ∀ e ∈ t.aggList, (t.routeMap.get? e.name).isSome

theorem Tables.NamesRouted.place (h : t.NamesRouted) (key : String) (off : Offer) :
    (t.place key off).NamesRouted := by
  intro e he
  rw [Tables.place, List.mem_append, List.mem_singleton] at he
  rw [Tables.place, Dict.get?_set]
  split
  · rfl
  · rename_i hne
    rcases he with he | rfl
    · exact h e he
    · exact absurd rfl hne

theorem Tables.NamesRouted.evict (h : t.NamesRouted) (key : String) :
    (t.evict key).NamesRouted := by
  intro e he
  obtain ⟨he, hne⟩ := List.mem_filter.mp he
  rw [Tables.evict, Dict.get?_del, if_neg (of_decide_eq_true hne)]
  exact h e he

theorem Tables.NamesRouted.enrollAll (h : t.NamesRouted) :
    (ArgusMcp.enrollAll cfg t offs).1.NamesRouted := by
  induction offs generalizing t with
  | nil => exact h
  | cons off offs ih =>
    rw [ArgusMcp.enrollAll]
    rcases henr : enroll cfg t off with e | t'
    · exact h
    · rcases enroll_cases henr with ⟨rfl, -⟩ | ⟨key, -, -, -, rfl⟩ | ⟨-, rfl⟩
      · exact ih h
      · exact ih (h.place key off)
      · exact ih ((h.evict off.exp).place off.exp off)

theorem View.NamesRouted.enrollAll {v : View} (h : v.NamesRouted) (capType : CapType) :
    View.NamesRouted ⟨(ArgusMcp.enrollAll cfg ⟨v.routeMap, v.lists capType⟩ offs).1.routeMap,
      Function.update v.lists capType
        (ArgusMcp.enrollAll cfg ⟨v.routeMap, v.lists capType⟩ offs).1.aggList⟩ := by
  intro other e he
  dsimp only at he ⊢
  by_cases hother : other = capType
  · subst hother
    have hlist : Tables.NamesRouted ⟨v.routeMap, v.lists other⟩ := h other
    rw [Function.update_self] at he
    exact hlist.enrollAll e he
  · rw [Function.update_of_ne hother] at he
    exact isSome_of_enrollAll (h other e he)

theorem namesRouted_discovered {replies : Listings} {order : List Task} :
    (discovered cfg replies order).NamesRouted := by
  induction order using List.reverseRecOn with
  | nil => exact fun capType e he ↦ absurd he List.not_mem_nil
  | append_singleton order task ih =>
    rw [discovered_concat]
    exact ih.enrollAll task.capType

namespace RegistryState

variable {st : RegistryState}

/-- The route map only loses names that are withdrawn as well. -/
theorem namesRouted_removeBackend (h : st.view.NamesRouted) (svrName : String) :
    (st.removeBackend svrName).view.NamesRouted := by
  intro capType e he
  have hlists : (st.removeBackend svrName).view.lists = fun capType ↦
      (st.advertisedLists capType).filter fun e ↦ decide (e.name ∉ st.keysToRemove svrName) :=
    Function.update_self _ _ _
  rw [hlists, List.mem_filter, decide_eq_true_eq] at he
  have hget : (st.removeBackend svrName).routeMap.get? e.name
      = if e.name ∈ st.keysToRemove svrName then none else st.routeMap.get? e.name :=
    Dict.get?_foldl_del _ _ _
  rw [view, hget, if_neg he.2]
  exact h capType e he.1

/-- A task adds to the list it was given, advertised or not, and takes no route away. -/
theorem namesRouted_complete (h : st.view.NamesRouted) (cfg : RegistryConfig) (task : Task)
    (reply : ListReply) : (st.complete cfg task reply).view.NamesRouted := by
  obtain ⟨hmap, hlists, hlive, -⟩ := complete_tables cfg st task reply
  rw [view, advertisedLists, hmap, hlists, hlive, setList]
  by_cases hgen : st.live = task.gen
  · rw [← hgen, Function.update_self]
    exact h.enrollAll task.capType
  · rw [Function.update_of_ne hgen]
    exact fun capType e he ↦ isSome_of_enrollAll (h capType e he)

end RegistryState

end NamesRouted

/-! ## Publication -/

/-- At every point of the call a reader sees all of what was there before or all of what is there
after, and every advertised tool is resolvable. -/
def AtomicPublication (cfg : RegistryConfig) (st : RegistryState) (sessions : Dict String Bool)
    (replies : Listings) (order : List Task) : Prop :=
  ∀ pre m after, pre ≠ [] → pre <+: discoveryTrace st sessions replies order →
    registryRun cfg st pre = some m →
    registryRun cfg st (discoveryTrace st sessions replies order) = some after →
    (m.view = st.view ∨ m.view = after.view) ∧
      ∀ e ∈ m.getAggregatedTools, (m.resolveCapability e.name).isSome

section Publication

variable {cfg : RegistryConfig} {st : RegistryState} {sessions : Dict String Bool}
  {replies : Listings} {order : List Task}

theorem point_cases (hstamp : Stamped st)
    (horder : order.Perm (RegistryState.discoverTasks st.fresh sessions)) {pre : List Step}
    {m : RegistryState} (hne : pre ≠ []) (hpre : pre <+: discoveryTrace st sessions replies order)
    (hrun : registryRun cfg st pre = some m) :
    (∃ done rest, done ++ rest = order ∧ InProgress cfg replies st done rest m) ∨
      pre = discoveryTrace st sessions replies order := by
  rw [discoveryTrace] at hpre ⊢
  rcases List.prefix_cons_iff.mp hpre with rfl | ⟨tail, rfl, htail⟩
  · exact absurd rfl hne
  · by_cases hnil : order = []
    · subst hnil
      rw [if_pos rfl] at htail ⊢
      exact Or.inr (congrArg _ (List.prefix_nil.mp htail))
    · rw [if_neg hnil] at htail ⊢
      rcases List.prefix_concat_iff.mp htail with rfl | htail
      · exact Or.inr rfl
      · obtain ⟨done, ⟨rest, hsplit⟩, rfl⟩ := List.prefix_map_iff.mp htail
        obtain ⟨m', hrun', hm'⟩ := exists_inProgress cfg replies hstamp horder hnil hsplit
        rw [completions, hrun, Option.some.injEq] at hrun'
        exact Or.inl ⟨done, rest, hsplit, hrun' ▸ hm'⟩

/-- Without a backend to ask, the call swaps everything in one step. -/
theorem atomicPublication_of_no_session (hstamp : Stamped st)
    (horder : order.Perm (RegistryState.discoverTasks st.fresh sessions))
    (hnone : ∀ svrName, sessions.get? svrName ≠ some true) :
    AtomicPublication cfg st sessions replies order := by
  have htasks : RegistryState.discoverTasks st.fresh sessions = [] :=
    List.eq_nil_iff_forall_not_mem.mpr fun task htask ↦ hnone _ (mem_discoverTasks.mp htask).1
  have hnil : order = [] := List.perm_nil.mp (htasks ▸ horder)
  intro pre m after hne hpre hrun hafter
  have hall : pre = discoveryTrace st sessions replies order := by
    rw [discoveryTrace, hnil, if_pos rfl] at hpre ⊢
    rcases List.prefix_cons_iff.mp hpre with rfl | ⟨tail, rfl, htail⟩
    · exact absurd rfl hne
    · exact congrArg _ (List.prefix_nil.mp htail)
  rw [hall, hafter, Option.some.injEq] at hrun
  subst hrun
  obtain ⟨after', -, -, hrun', hview⟩ := exists_discoverCall cfg replies hstamp horder
  rw [hafter, Option.some.injEq] at hrun'
  subst hrun'
  refine ⟨Or.inr rfl, fun e he ↦ ?_⟩
  have hempty : after.getAggregatedTools = [] := by
    rw [hnil] at hview
    exact congrArg (fun v : View ↦ v.lists .tools) hview
  rw [hempty] at he
  exact absurd he (by simp)

/-- With nothing to discover and nothing advertised, there is only one view. -/
theorem atomicPublication_of_nothing (hstamp : Stamped st)
    (horder : order.Perm (RegistryState.discoverTasks st.fresh sessions))
    (hoff : ∀ off, ¬Offered cfg sessions replies off)
    (hadv : ∀ capType, st.advertisedLists capType = []) :
    AtomicPublication cfg st sessions replies order := by
  have hnil := taskOffers_eq_nil horder hoff
  obtain ⟨after', -, -, hrun', hview⟩ := exists_discoverCall cfg replies hstamp horder
  rw [discovered_eq_empty hnil] at hview
  intro pre m after hne hpre hrun hafter
  rw [hafter, Option.some.injEq] at hrun'
  subst hrun'
  have hm : m.view = View.empty := by
    rcases point_cases hstamp horder hne hpre hrun with ⟨done, rest, hsplit, hprog⟩ | hall
    · have hdone : discovered cfg replies done = View.empty :=
        discovered_eq_empty fun task htask ↦ hnil task (hsplit ▸ List.mem_append_left rest htask)
      rw [RegistryState.view, hprog.routeMap, hdone, hprog.advertised, funext hadv]
      rfl
    · rw [hall, hafter, Option.some.injEq] at hrun
      rw [← hrun, hview]
  refine ⟨Or.inr (hm.trans hview.symm), fun e he ↦ ?_⟩
  have hempty : m.getAggregatedTools = [] := congrArg (fun v : View ↦ v.lists .tools) hm
  rw [hempty] at he
  exact absurd he (by simp)

theorem exists_route_of_offered
    (horder : order.Perm (RegistryState.discoverTasks st.fresh sessions))
    {off : Offer} (hoff : Offered cfg sessions replies off) :
    ∃ key, ((discovered cfg replies order).routeMap.get? key).isSome := by
  obtain ⟨task, htask, hmem⟩ := (offered_iff horder).mp hoff
  exact exists_route_discovered htask hmem

/-- A call that does ask a backend is seen at two points at least: before its first task is done,
with no routes and the old lists, and before it publishes, with all routes and the old lists. -/
theorem nothing_of_atomicPublication (hstamp : Stamped st)
    (horder : order.Perm (RegistryState.discoverTasks st.fresh sessions)) (hne : order ≠ [])
    (hrouted : ∀ capType, ∀ e ∈ st.advertisedLists capType, (st.resolveCapability e.name).isSome)
    (hatomic : AtomicPublication cfg st sessions replies order) :
    (∀ off, ¬Offered cfg sessions replies off) ∧ ∀ capType, st.advertisedLists capType = [] := by
  obtain ⟨after, -, -, hafter, hview⟩ := exists_discoverCall cfg replies hstamp horder
  obtain ⟨first, hfirst, hfirstProg⟩ := exists_inProgress cfg replies hstamp horder hne
    (List.nil_append order)
  obtain ⟨last, hlast, hlastProg⟩ := exists_inProgress cfg replies hstamp horder hne
    (List.append_nil order)
  have hfirstPre : [Step.discoverAndRegister sessions] <+:
      discoveryTrace st sessions replies order := ⟨_, rfl⟩
  have hlastPre : Step.discoverAndRegister sessions :: completions replies order <+:
      discoveryTrace st sessions replies order := ⟨_, rfl⟩
  have hoffers : (discovered cfg replies order).routeMap = Dict.empty →
      ∀ off, ¬Offered cfg sessions replies off := by
    intro hempty off hoff
    obtain ⟨key, hkey⟩ := exists_route_of_offered horder hoff
    rw [hempty] at hkey
    exact absurd hkey (by simp)
  have hfirstView : first.view = ⟨Dict.empty, st.advertisedLists⟩ := by
    rw [RegistryState.view, hfirstProg.routeMap, hfirstProg.advertised]
    rfl
  have hlastView : last.view = ⟨(discovered cfg replies order).routeMap, st.advertisedLists⟩ := by
    rw [RegistryState.view, hlastProg.routeMap, hlastProg.advertised]
  rcases (hatomic _ first after (by simp) hfirstPre hfirst hafter).1 with hbefore | hsame
  · -- there were no routes before, hence nothing advertised
    have hempty : st.routeMap = Dict.empty := by
      rw [hfirstView] at hbefore
      exact (congrArg View.routeMap hbefore).symm
    have hadv : ∀ capType, st.advertisedLists capType = [] := by
      intro capType
      refine List.eq_nil_iff_forall_not_mem.mpr fun e he ↦ ?_
      have hsome := hrouted capType e he
      rw [RegistryState.resolveCapability, hempty] at hsome
      exact absurd hsome (by simp)
    refine ⟨?_, hadv⟩
    rcases (hatomic _ last after (by simp) hlastPre hlast hafter).1 with hlastBefore | hlastAfter
    · rw [hlastView] at hlastBefore
      exact hoffers ((congrArg View.routeMap hlastBefore).trans hempty)
    · -- the lists to be published are empty, so no task has made a route
      have hlists : (discovered cfg replies order).lists = st.advertisedLists := by
        rw [hlastView, hview] at hlastAfter
        exact (congrArg View.lists hlastAfter).symm
      intro off hoff
      obtain ⟨key, hkey⟩ := exists_route_of_offered horder hoff
      obtain ⟨capType, e, he, -⟩ := covered_discovered key hkey
      rw [hlists, hadv capType] at he
      exact absurd he (by simp)
  · rw [hfirstView, hview] at hsame
    have hnone := hoffers (congrArg View.routeMap hsame).symm
    refine ⟨hnone, fun capType ↦ ?_⟩
    rw [discovered_eq_empty (taskOffers_eq_nil horder hnone)] at hsame
    exact congrFun (congrArg View.lists hsame) capType

/-- **Atomic publication.** From any reachable state and for any order of completions, a call
publishes atomically when it has no backend to ask, or nothing to register and nothing to withdraw;
and only then, if what was advertised before the call was routed. -/
theorem atomicPublication_iff {tr : List Step}
    (hreach : registryRun cfg RegistryState.init tr = some st)
    (horder : order.Perm (RegistryState.discoverTasks st.fresh sessions)) :
    ((∀ svrName, sessions.get? svrName ≠ some true) ∨
        ((∀ off, ¬Offered cfg sessions replies off) ∧
          ∀ capType, st.advertisedLists capType = []) →
      AtomicPublication cfg st sessions replies order) ∧
    ((∀ capType, ∀ e ∈ st.advertisedLists capType, (st.resolveCapability e.name).isSome) →
      AtomicPublication cfg st sessions replies order →
      (∀ svrName, sessions.get? svrName ≠ some true) ∨
        ((∀ off, ¬Offered cfg sessions replies off) ∧
          ∀ capType, st.advertisedLists capType = [])) := by
  have hstamp := stamped_of_run hreach
  constructor
  · rintro (hnone | ⟨hoff, hadv⟩)
    · exact atomicPublication_of_no_session hstamp horder hnone
    · exact atomicPublication_of_nothing hstamp horder hoff hadv
  · intro hrouted hatomic
    by_cases hnil : order = []
    · refine Or.inl fun svrName hget ↦ ?_
      have hmem : (⟨svrName, .tools, st.fresh, .gather⟩ : Task)
          ∈ RegistryState.discoverTasks st.fresh sessions :=
        mem_discoverTasks.mpr ⟨hget, rfl, rfl⟩
      rw [hnil] at horder
      rw [List.nil_perm.mp horder] at hmem
      exact absurd hmem (by simp)
    · exact Or.inr (nothing_of_atomicPublication hstamp horder hnil hrouted hatomic)

end Publication

/-! ### A tool that is discovered again -/

/-- One backend, which lists the given tools and nothing else. -/
def toolListing (names : List String) : Listings := fun _ capType ↦
  namedReply capType (if capType = .tools then names else [])

def oneSession : Dict String Bool := Dict.ofList [("files", true)]

/-- The registry after a first call, which has found the given tools. -/
def discoveredOnce (names : List String) : RegistryState :=
  (registryRun highLowConfig RegistryState.init (discoveryTrace RegistryState.init oneSession
    (toolListing names) (RegistryState.discoverTasks 1 oneSession))).getD RegistryState.init

/-- A backend without capabilities is discovered again atomically. -/
theorem atomicPublication_discoveredOnce_nil :
    AtomicPublication highLowConfig (discoveredOnce []) oneSession (toolListing [])
      (RegistryState.discoverTasks (discoveredOnce []).fresh oneSession) := by
  have hreach : registryRun highLowConfig RegistryState.init (discoveryTrace RegistryState.init
      oneSession (toolListing []) (RegistryState.discoverTasks 1 oneSession))
        = some (discoveredOnce []) := Run.run_eq_some_getD (by decide) RegistryState.init
  refine (atomicPublication_iff hreach (List.Perm.refl _)).1 (Or.inr ⟨?_, by decide⟩)
  rintro off ⟨svrName, capType, -, hoff⟩
  cases capType <;> simp [toolListing, namedReply, ListReply.items, parseListResult,
    offersOf] at hoff

/-- A tool that is discovered again is advertised, and not resolvable, while the call waits for its
first listing. -/
theorem not_atomicPublication_discoveredOnce :
    ¬∀ (cfg : RegistryConfig) (tr : List Step) (st : RegistryState) (sessions : Dict String Bool)
      (replies : Listings) (order : List Task),
      registryRun cfg RegistryState.init tr = some st →
      (∀ capType, ∀ e ∈ st.advertisedLists capType, (st.resolveCapability e.name).isSome) →
      order.Perm (RegistryState.discoverTasks st.fresh sessions) →
      AtomicPublication cfg st sessions replies order := by
  intro h
  have hreach : registryRun highLowConfig RegistryState.init (discoveryTrace RegistryState.init
      oneSession (toolListing ["x"]) (RegistryState.discoverTasks 1 oneSession))
        = some (discoveredOnce ["x"]) := Run.run_eq_some_getD (by decide) RegistryState.init
  have hatomic := h highLowConfig _ _ oneSession (toolListing ["x"]) _ hreach (by decide)
    (List.Perm.refl _)
  obtain ⟨after, -, -, hafter, -⟩ := exists_discoverCall highLowConfig (toolListing ["x"])
    (stamped_of_run hreach) (List.Perm.refl (RegistryState.discoverTasks
      (discoveredOnce ["x"]).fresh oneSession))
  have htools := (hatomic [.discoverAndRegister oneSession] _ after (by simp) ⟨_, rfl⟩ rfl
    hafter).2
  exact absurd (htools ⟨⟨"x", "x", none⟩, "files", "x"⟩ (by decide)) (by decide)

end ArgusMcp
