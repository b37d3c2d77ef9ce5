import ArgusMcp.Bridge.Registry

/-!
# Consistency of the advertised lists with the route map

A registry is consistent when the advertised names, over the three lists together, are the keys of
the route map, each once, and every name is routed to the server that supplied the item.

## Which lists go with the route map

While a `discover_and_register` is in progress the route map is already the new one and the
advertised lists are still the old ones, so consistency cannot be an invariant of what readers see.
The invariant is about the lists of the generation the route map was *started for*; that generation
is advertised whenever nothing is in progress.

## The guard

Four things break the invariant, and `SafeStep` names them: a task that writes to lists the route
map does not belong to; a replacement of a name advertised under another type; a removal that
deletes routes of a map still being built; an older `discover_and_register` that publishes its lists
over the route map of a newer one which is already published.
-/

namespace ArgusMcp

/-! ## The three lists as one -/

/-- All advertised items. -/
def allEntries (ls : CapType → List Entry) : List Entry :=
  ls .tools ++ ls .resources ++ ls .prompts

theorem mem_allEntries {ls : CapType → List Entry} {e : Entry} :
    e ∈ allEntries ls ↔ ∃ capType, e ∈ ls capType := by
  rw [allEntries, List.mem_append, List.mem_append]
  constructor
  · rintro ((h | h) | h)
    · exact ⟨.tools, h⟩
    · exact ⟨.resources, h⟩
    · exact ⟨.prompts, h⟩
  · rintro ⟨capType, h⟩
    cases capType with
    | tools => exact Or.inl (Or.inl h)
    | resources => exact Or.inl (Or.inr h)
    | prompts => exact Or.inr h

theorem allEntries_append_perm (ls : CapType → List Entry) (capType : CapType) (e : Entry) :
    (allEntries (Function.update ls capType (ls capType ++ [e]))).Perm (e :: allEntries ls) := by
  rw [allEntries, allEntries]
  cases capType with
  | tools =>
    simp only [Function.update_self, ne_eq, reduceCtorEq, not_false_eq_true,
      Function.update_of_ne, List.append_assoc, List.singleton_append]
    exact List.perm_middle
  | resources =>
    simp only [Function.update_self, ne_eq, reduceCtorEq, not_false_eq_true,
      Function.update_of_ne, List.append_assoc, List.singleton_append]
    rw [← List.append_assoc, ← List.append_assoc]
    exact List.perm_middle
  | prompts =>
    simp only [Function.update_self, ne_eq, reduceCtorEq, not_false_eq_true,
      Function.update_of_ne, ← List.append_assoc]
    exact List.perm_append_singleton e _

theorem allEntries_sublist {ls ls' : CapType → List Entry}
    (h : ∀ capType, (ls' capType).Sublist (ls capType)) :
    (allEntries ls').Sublist (allEntries ls) :=
  ((h .tools).append (h .resources)).append (h .prompts)

/-! ## Consistency -/

/-- The advertised names are the route keys, each once, and every advertised item is routed to the
server that supplied it. -/
structure Consistent (ls : CapType → List Entry) (routeMap : Dict String Route) : Prop where
  /-- The bijection between advertised names and route keys. -/
  names_perm_keys : ((allEntries ls).map Entry.name).Perm routeMap.keys
  /-- The route leads to the supplier, under the name the item has there. -/
  routed : ∀ e ∈ allEntries ls, routeMap.get? e.name = some (e.supplier, e.orig)

namespace Consistent

variable {ls : CapType → List Entry} {routeMap : Dict String Route}

theorem nodup (h : Consistent ls routeMap) : ((allEntries ls).map Entry.name).Nodup :=
  h.names_perm_keys.nodup_iff.mpr routeMap.nodup_keys

theorem exists_entry (h : Consistent ls routeMap) {key : String} {r : Route}
    (hkey : routeMap.get? key = some r) : ∃ e ∈ allEntries ls, e.name = key := by
  have hmem : key ∈ routeMap.keys := Dict.mem_keys_iff.mpr ⟨r, hkey⟩
  exact List.mem_map.mp (h.names_perm_keys.mem_iff.mpr hmem)

theorem of_nodup (hnodup : ((allEntries ls).map Entry.name).Nodup)
    (hrouted : ∀ e ∈ allEntries ls, routeMap.get? e.name = some (e.supplier, e.orig))
    (hkeys : ∀ key r, routeMap.get? key = some r → ∃ e ∈ allEntries ls, e.name = key) :
    Consistent ls routeMap := by
  refine ⟨(List.perm_ext_iff_of_nodup hnodup routeMap.nodup_keys).mpr fun key ↦ ?_, hrouted⟩
  rw [← Dict.keys, Dict.mem_keys_iff, List.mem_map]
  constructor
  · rintro ⟨e, he, rfl⟩
    exact ⟨_, hrouted e he⟩
  · rintro ⟨r, hr⟩
    exact hkeys key r hr

theorem empty : Consistent (fun _ ↦ []) Dict.empty :=
  of_nodup (by simp [allEntries]) (by simp [allEntries]) (by simp)

theorem append (h : Consistent ls routeMap) {e : Entry} (capType : CapType)
    (hfree : routeMap.get? e.name = none) :
    Consistent (Function.update ls capType (ls capType ++ [e]))
      (routeMap.set e.name (e.supplier, e.orig)) := by
  have hperm := allEntries_append_perm ls capType e
  have hnew : ∀ e' ∈ allEntries ls, e'.name ≠ e.name := by
    intro e' he' heq
    have hrouted := h.routed e' he'
    rw [heq, hfree] at hrouted
    exact absurd hrouted (by simp)
  refine of_nodup ?_ ?_ ?_
  · rw [(hperm.map Entry.name).nodup_iff, List.map_cons, List.nodup_cons]
    refine ⟨fun hmem ↦ ?_, h.nodup⟩
    obtain ⟨e', he', heq⟩ := List.mem_map.mp hmem
    exact hnew e' he' heq
  · intro e' he'
    rcases List.mem_cons.mp (hperm.mem_iff.mp he') with rfl | he'
    · exact Dict.get?_set_self _ _ _
    · rw [Dict.get?_set_of_ne _ _ (hnew e' he')]
      exact h.routed e' he'
  · intro key r hr
    by_cases hkey : key = e.name
    · exact ⟨e, hperm.mem_iff.mpr List.mem_cons_self, hkey.symm⟩
    · rw [Dict.get?_set_of_ne _ _ hkey] at hr
      obtain ⟨e', he', heq⟩ := h.exists_entry hr
      exact ⟨e', hperm.mem_iff.mpr (List.mem_cons_of_mem e he'), heq⟩

theorem remove (h : Consistent ls routeMap) {ls' : CapType → List Entry}
    {routeMap' : Dict String Route} (gone : String → Prop)
    (hsub : ∀ capType, (ls' capType).Sublist (ls capType))
    (hmem : ∀ capType, ∀ e ∈ ls capType, e ∈ ls' capType ↔ ¬gone e.name)
    (hgone : ∀ key, gone key → routeMap'.get? key = none)
    (hkept : ∀ key, ¬gone key → routeMap'.get? key = routeMap.get? key) :
    Consistent ls' routeMap' := by
  have hkeep : ∀ e ∈ allEntries ls', e ∈ allEntries ls ∧ ¬gone e.name := by
    intro e he
    obtain ⟨capType, he'⟩ := mem_allEntries.mp he
    have hold := (hsub capType).subset he'
    exact ⟨mem_allEntries.mpr ⟨capType, hold⟩, (hmem capType e hold).mp he'⟩
  refine of_nodup ?_ ?_ ?_
  · exact h.nodup.sublist ((allEntries_sublist hsub).map Entry.name)
  · intro e he
    obtain ⟨hold, hng⟩ := hkeep e he
    rw [hkept e.name hng]
    exact h.routed e hold
  · intro key r hr
    have hng : ¬gone key := fun hg ↦ by
      rw [hgone key hg] at hr
      exact absurd hr (by simp)
    rw [hkept key hng] at hr
    obtain ⟨e, he, rfl⟩ := h.exists_entry hr
    obtain ⟨capType, he'⟩ := mem_allEntries.mp he
    exact ⟨e, mem_allEntries.mpr ⟨capType, (hmem capType e he').mpr hng⟩, rfl⟩

end Consistent

/-! ## One task -/

/-- Everything a task of `svr` finds under another server's name was there when it started. -/
private def ForeignFrom (svr : String) (start routeMap : Dict String Route) : Prop :=
  ∀ key old orig, routeMap.get? key = some (old, orig) → old ≠ svr →
    start.get? key = some (old, orig)

private theorem ForeignFrom.replaces {strategy : ConflictStrategy} {off : Offer}
    {start routeMap : Dict String Route} (h : ForeignFrom off.svr start routeMap)
    (hrep : Replaces strategy routeMap off = true) : Replaces strategy start off = true := by
  obtain ⟨old, orig, hget, hold, hact⟩ := replaces_iff.mp hrep
  exact replaces_iff.mpr ⟨old, orig, h _ _ _ hget hold, hold, hact⟩

private theorem ForeignFrom.set {svr : String} {start routeMap : Dict String Route}
    (h : ForeignFrom svr start routeMap) (key orig : String) :
    ForeignFrom svr start (routeMap.set key (svr, orig)) := by
  intro k old o hget hold
  by_cases hk : k = key
  · rw [hk, Dict.get?_set_self, Option.some.injEq, Prod.mk.injEq] at hget
    exact absurd hget.1.symm hold
  · rw [Dict.get?_set_of_ne _ _ hk] at hget
    exact h k old o hget hold

private theorem ForeignFrom.del {svr : String} {start routeMap : Dict String Route}
    (h : ForeignFrom svr start routeMap) (key : String) :
    ForeignFrom svr start (routeMap.del key) := by
  intro k old o hget hold
  rw [Dict.get?_del] at hget
  by_cases hk : k = key
  · rw [if_pos hk] at hget
    exact absurd hget (by simp)
  · rw [if_neg hk] at hget
    exact h k old o hget hold

theorem Consistent.place {ls : CapType → List Entry} {t : Tables} {off : Offer} {key : String}
    {capType : CapType} (h : Consistent (Function.update ls capType t.aggList) t.routeMap)
    (hfree : t.routeMap.get? key = none) :
    Consistent (Function.update ls capType (t.place key off).aggList)
      (t.place key off).routeMap := by
  have happ := h.append (e := ⟨{ off.cap with name := key }, off.svr, off.orig⟩) capType hfree
  rwa [Function.update_self, Function.update_idem] at happ

theorem Consistent.evict {ls : CapType → List Entry} {t : Tables} {key : String}
    {capType : CapType} (h : Consistent (Function.update ls capType t.aggList) t.routeMap)
    (hother : ∀ other, other ≠ capType → ∀ e ∈ ls other, e.name ≠ key) :
    Consistent (Function.update ls capType (t.evict key).aggList) (t.evict key).routeMap := by
  refine h.remove (fun k ↦ k = key) ?_ ?_ ?_ ?_
  · intro other
    by_cases hoth : other = capType
    · subst hoth
      rw [Function.update_self, Function.update_self]
      exact List.filter_sublist
    · rw [Function.update_of_ne hoth, Function.update_of_ne hoth]
  · intro other e he
    by_cases hoth : other = capType
    · subst hoth
      rw [Function.update_self] at he
      rw [Function.update_self, Tables.evict, List.mem_filter]
      simp [he]
    · rw [Function.update_of_ne hoth] at he
      rw [Function.update_of_ne hoth]
      exact iff_of_true he (hother other hoth e he)
  · intro k hk
    rw [Tables.evict, Dict.get?_del, if_pos hk]
  · intro k hk
    rw [Tables.evict, Dict.get?_del, if_neg hk]

/-- **A task keeps consistency**, provided no name it takes from another server is advertised under
another type. The induction is on the offers; what the guard says about the route map at the start
of the task carries over to every iteration, because the task only adds routes of its own server. -/
theorem Consistent.enrollAll {cfg : RegistryConfig} {ls : CapType → List Entry} (svr : String)
    {capType : CapType} (start : Dict String Route) :
    ∀ {offs : List Offer} {t : Tables}, (∀ off ∈ offs, off.svr = svr) →
      (∀ off ∈ offs, Replaces cfg.strategy start off = true →
        ∀ other, other ≠ capType → ∀ e ∈ ls other, e.name ≠ off.exp) →
      ForeignFrom svr start t.routeMap →
      Consistent (Function.update ls capType t.aggList) t.routeMap →
      Consistent (Function.update ls capType (enrollAll cfg t offs).1.aggList)
        (enrollAll cfg t offs).1.routeMap := by
  intro offs
  induction offs with
  | nil => exact fun _ _ _ h ↦ h
  | cons off offs ih =>
    intro t hsvr hguard hforeign h
    have hsvrOff : off.svr = svr := hsvr off List.mem_cons_self
    have hsvr' : ∀ o ∈ offs, o.svr = svr := fun o ho ↦ hsvr o (List.mem_cons_of_mem off ho)
    have hguard' := fun o (ho : o ∈ offs) ↦ hguard o (List.mem_cons_of_mem off ho)
    rw [ArgusMcp.enrollAll]
    cases henr : enroll cfg t off with
    | error e => exact h
    | ok t' =>
      rcases enroll_cases henr with ⟨rfl, -⟩ | ⟨key, hfree, -, -, rfl⟩ | ⟨hrep, rfl⟩
      · exact ih hsvr' hguard' hforeign h
      · refine ih hsvr' hguard' ?_ (h.place hfree)
        rw [Tables.place, hsvrOff]
        exact hforeign.set key off.orig
      · -- the entry that loses has to be on the list that is searched for it
        have hother := hguard off List.mem_cons_self
          (ForeignFrom.replaces (hsvrOff ▸ hforeign) hrep)
        have hfree : (t.evict off.exp).routeMap.get? off.exp = none := by
          rw [Tables.evict, Dict.get?_del, if_pos rfl]
        refine ih hsvr' hguard' ?_ ((h.evict hother).place hfree)
        rw [Tables.place, hsvrOff]
        exact (hforeign.del off.exp).set off.exp off.orig

/-! ## The system -/

def taskOffers (cfg : RegistryConfig) (task : Task) (reply : ListReply) : List Offer :=
  offersOf cfg task.svr task.capType reply.items

/-- What completing a task does to the lists and the route map; the calls in progress do not
change but for the task itself. -/
theorem complete_tables (cfg : RegistryConfig) (st : RegistryState) (task : Task)
    (reply : ListReply) :
    (st.complete cfg task reply).routeMap
        = (enrollAll cfg ⟨st.routeMap, st.lists task.gen task.capType⟩
            (taskOffers cfg task reply)).1.routeMap ∧
      (st.complete cfg task reply).lists = st.setList task.gen task.capType
          (enrollAll cfg ⟨st.routeMap, st.lists task.gen task.capType⟩
            (taskOffers cfg task reply)).1.aggList ∧
      (st.complete cfg task reply).live = st.live ∧
      (st.complete cfg task reply).fresh = st.fresh ∧
      (st.complete cfg task reply).routesFor = st.routesFor ∧
      (st.complete cfg task reply).gathers = st.gathers := by
  rw [taskOffers, ← discoverCapsByType_fst, RegistryState.complete]
  obtain ⟨svr, capType, gen, _ | _⟩ := task
  · exact ⟨rfl, rfl, rfl, rfl, rfl, rfl⟩
  · rw [discoverCapsByType_snd]
    cases capType with
    | tools | resources | prompts => exact ⟨rfl, rfl, rfl, rfl, rfl, rfl⟩

/-! ## Stamps -/

/-- Generations are handed out in order: whatever refers to one refers to one already made. -/
structure Stamped (st : RegistryState) : Prop where
  live_lt : st.live < st.fresh
  gathers_lt : ∀ gen ∈ st.gathers, gen < st.fresh
  pending_lt : ∀ task ∈ st.pending, task.gen < st.fresh

namespace Stamped

variable {cfg : RegistryConfig} {st : RegistryState}

theorem init : Stamped RegistryState.init where
  live_lt := Nat.zero_lt_one
  gathers_lt := by simp [RegistryState.init]
  pending_lt := by simp [RegistryState.init]

theorem gen_of_mem_discoverTasks {gen : ℕ} {sessions : Dict String Bool} {task : Task}
    (h : task ∈ RegistryState.discoverTasks gen sessions) : task.gen = gen := by
  obtain ⟨session, -, h⟩ := List.mem_flatMap.mp h
  split at h
  · simp only [List.mem_cons, List.not_mem_nil, or_false] at h
    rcases h with rfl | rfl | rfl <;> rfl
  · exact absurd h (by simp)

theorem discoverAndRegister (h : Stamped st) (sessions : Dict String Bool) :
    Stamped (st.discoverAndRegister sessions) := by
  have hgathers : ∀ gen ∈ st.gathers, gen < st.fresh + 1 := fun gen hgen ↦
    (h.gathers_lt gen hgen).trans (Nat.lt_succ_self _)
  have hpending : ∀ task ∈ st.pending, task.gen < st.fresh + 1 := fun task htask ↦
    (h.pending_lt task htask).trans (Nat.lt_succ_self _)
  rw [RegistryState.discoverAndRegister]
  split
  · exact ⟨Nat.lt_succ_self _, fun gen hgen ↦ hgathers gen (List.mem_of_mem_erase hgen), hpending⟩
  · refine ⟨h.live_lt.trans (Nat.lt_succ_self _), fun gen hgen ↦ ?_, fun task htask ↦ ?_⟩
    · rcases List.mem_cons.mp hgen with rfl | hgen
      · exact Nat.lt_succ_self _
      · exact hgathers gen hgen
    · rcases List.mem_append.mp htask with htask | htask
      · exact hpending task htask
      · rw [gen_of_mem_discoverTasks htask]
        exact Nat.lt_succ_self _

theorem mem_pending_complete {task t : Task} {reply : ListReply}
    (h : t ∈ (st.complete cfg task reply).pending) : t ∈ st.pending ∨ t.gen = st.live := by
  rw [RegistryState.complete] at h
  dsimp only at h
  split at h
  · exact Or.inl (List.mem_of_mem_erase h)
  · rcases List.mem_append.mp h with h | h
    · exact Or.inl (List.mem_of_mem_erase h)
    · rw [List.mem_singleton.mp h]
      exact Or.inr rfl
  · exact Or.inl (List.mem_of_mem_erase h)

theorem complete (h : Stamped st) (task : Task) (reply : ListReply) :
    Stamped (st.complete cfg task reply) := by
  obtain ⟨-, -, hlive, hfresh, -, hgathers⟩ := complete_tables cfg st task reply
  refine ⟨?_, ?_, fun t ht ↦ ?_⟩
  · rw [hlive, hfresh]
    exact h.live_lt
  · rw [hgathers, hfresh]
    exact h.gathers_lt
  · rw [hfresh]
    rcases mem_pending_complete ht with ht | ht
    · exact h.pending_lt t ht
    · exact ht ▸ h.live_lt

theorem step {step : Step} {st' : RegistryState} (h : Stamped st)
    (hstep : registryStep cfg st step = some st') : Stamped st' := by
  cases step with
  | discoverAndRegister sessions =>
    rw [← Option.some.inj hstep]
    exact h.discoverAndRegister sessions
  | discoverSingleBackend svrName =>
    rw [← Option.some.inj hstep]
    refine ⟨h.live_lt, h.gathers_lt, fun task htask ↦ ?_⟩
    rcases List.mem_append.mp htask with htask | htask
    · exact h.pending_lt task htask
    · rw [List.mem_singleton.mp htask]
      exact h.live_lt
  | removeBackend svrName =>
    rw [← Option.some.inj hstep]
    exact ⟨Nat.lt_succ_self _, fun gen hgen ↦ (h.gathers_lt gen hgen).trans (Nat.lt_succ_self _),
      fun task htask ↦ (h.pending_lt task htask).trans (Nat.lt_succ_self _)⟩
  | complete task reply =>
    obtain ⟨-, rfl⟩ := registryStep_complete.mp hstep
    exact h.complete task reply
  | publish gen =>
    obtain ⟨hready, rfl⟩ := registryStep_publish.mp hstep
    exact ⟨h.gathers_lt gen hready.1,
      fun g hg ↦ h.gathers_lt g (List.mem_of_mem_erase hg), h.pending_lt⟩

end Stamped

theorem stamped_of_run {cfg : RegistryConfig} {tr : List Step} {st : RegistryState}
    (hrun : registryRun cfg RegistryState.init tr = some st) : Stamped st :=
  Run.inv_of_run (fun _ _ _ h hs ↦ h.step hs) Stamped.init hrun

/-! ## The invariant -/

/-- The steps that keep the lists and the route map together, told from the state before. -/
def SafeStep (cfg : RegistryConfig) (st : RegistryState) : Step → Prop
  | .discoverAndRegister _ => True
  | .discoverSingleBackend _ => True
  | .removeBackend svrName => st.routesFor = st.live ∨ st.keysToRemove svrName = []
  | .complete task reply =>
    (task.gen = st.routesFor ∨
      ∀ off ∈ taskOffers cfg task reply, Lands cfg.strategy st.routeMap off = false) ∧
    ∀ off ∈ taskOffers cfg task reply, Replaces cfg.strategy st.routeMap off = true →
      ∀ other, other ≠ task.capType → ∀ e ∈ st.lists st.routesFor other, e.name ≠ off.exp
  | .publish gen => gen = st.routesFor ∨ st.routesFor ∈ st.gathers

instance (cfg : RegistryConfig) (st : RegistryState) :
    ∀ step : Step, Decidable (SafeStep cfg st step)
  | .discoverAndRegister _ => instDecidableTrue
  | .discoverSingleBackend _ => instDecidableTrue
  | .removeBackend _ => inferInstanceAs (Decidable (_ ∨ _))
  | .complete _ _ => inferInstanceAs (Decidable (_ ∧ _))
  | .publish _ => inferInstanceAs (Decidable (_ ∨ _))

/-- **The invariant.** The lists of the generation the route map was started for are consistent
with it, and that generation is advertised or about to be published. -/
structure RegistryInv (st : RegistryState) : Prop where
  consistent : Consistent (st.lists st.routesFor) st.routeMap
  current : st.routesFor = st.live ∨ st.routesFor ∈ st.gathers

namespace RegistryInv

variable {cfg : RegistryConfig} {st : RegistryState}

theorem init : RegistryInv RegistryState.init where
  consistent := Consistent.empty
  current := Or.inl rfl

theorem routesFor_lt (h : RegistryInv st) (hstamp : Stamped st) : st.routesFor < st.fresh := by
  rcases h.current with hc | hc
  · exact hc ▸ hstamp.live_lt
  · exact hstamp.gathers_lt _ hc

theorem discoverAndRegister (st : RegistryState) (sessions : Dict String Bool) :
    RegistryInv (st.discoverAndRegister sessions) := by
  have hnew : Consistent (st.newLists (fun _ ↦ []) st.fresh) Dict.empty := by
    rw [RegistryState.newLists, Function.update_self]
    exact Consistent.empty
  rw [RegistryState.discoverAndRegister]
  split
  · exact ⟨hnew, Or.inl rfl⟩
  · exact ⟨hnew, Or.inr List.mem_cons_self⟩

theorem removeBackend (cfg : RegistryConfig) (h : RegistryInv st) (hstamp : Stamped st)
    (svrName : String) (hsafe : SafeStep cfg st (.removeBackend svrName)) :
    RegistryInv (st.removeBackend svrName) := by
  have hroutes : ∀ key, (st.removeBackend svrName).routeMap.get? key
      = if key ∈ st.keysToRemove svrName then none else st.routeMap.get? key := fun key ↦
    Dict.get?_foldl_del _ _ _
  by_cases hlive : st.routesFor = st.live
  · -- the lists advertised are those of the route map, and both lose the same names
    refine ⟨?_, Or.inl (if_pos hlive)⟩
    have hlists : (st.removeBackend svrName).lists (st.removeBackend svrName).routesFor
        = fun capType ↦ (st.lists st.routesFor capType).filter
            fun e ↦ decide (e.name ∉ st.keysToRemove svrName) := by
      rw [RegistryState.removeBackend]
      dsimp only
      rw [if_pos hlive, RegistryState.newLists, Function.update_self, hlive]
      rfl
    rw [hlists]
    refine h.consistent.remove (fun key ↦ key ∈ st.keysToRemove svrName)
      (fun _ ↦ List.filter_sublist) (fun _ e he ↦ by simp [he]) ?_ ?_
    · intro key hkey
      rw [hroutes, if_pos hkey]
    · intro key hkey
      rw [hroutes, if_neg hkey]
  · have hkeys : st.keysToRemove svrName = [] := hsafe.resolve_left hlive
    have hne : st.routesFor ≠ st.fresh := (h.routesFor_lt hstamp).ne
    have hmap : (st.removeBackend svrName).routeMap = st.routeMap := by
      rw [RegistryState.removeBackend, hkeys]
      rfl
    have hfor : (st.removeBackend svrName).routesFor = st.routesFor := if_neg hlive
    have hlists : (st.removeBackend svrName).lists st.routesFor = st.lists st.routesFor :=
      Function.update_of_ne hne _ _
    refine ⟨?_, Or.inr ?_⟩
    · rw [hfor, hlists, hmap]
      exact h.consistent
    · rw [hfor]
      exact h.current.resolve_left hlive

theorem complete (h : RegistryInv st) {task : Task} {reply : ListReply}
    (hsafe : SafeStep cfg st (.complete task reply)) :
    RegistryInv (st.complete cfg task reply) := by
  obtain ⟨hmap, hlists, hlive, -, hfor, hgathers⟩ :=
    complete_tables cfg st task reply
  obtain ⟨htarget, hcross⟩ := hsafe
  have hcons : Consistent ((st.complete cfg task reply).lists st.routesFor)
      (st.complete cfg task reply).routeMap := by
    rw [hlists, hmap, RegistryState.setList]
    rcases htarget with hgen | hnone
    · rw [hgen, Function.update_self]
      refine Consistent.enrollAll task.svr st.routeMap (fun off hoff ↦ svr_of_mem_offersOf hoff)
        hcross (fun _ _ _ hget _ ↦ hget) ?_
      rw [Function.update_eq_self]
      exact h.consistent
    · rw [enrollAll_fst_of_not_lands hnone, Function.update_eq_self, Function.update_eq_self]
      exact h.consistent
  constructor
  · rw [hfor]
    exact hcons
  · rw [hfor, hlive, hgathers]
    exact h.current

theorem publish (cfg : RegistryConfig) (h : RegistryInv st) {gen : ℕ}
    (hsafe : SafeStep cfg st (.publish gen)) : RegistryInv (st.publish gen) := by
  refine ⟨h.consistent, ?_⟩
  by_cases hgen : st.routesFor = gen
  · exact Or.inl hgen
  · exact Or.inr ((List.mem_erase_of_ne hgen).mpr (hsafe.resolve_left (Ne.symm hgen)))

theorem step {step : Step} {st' : RegistryState} (h : RegistryInv st) (hstamp : Stamped st)
    (hsafe : SafeStep cfg st step) (hstep : registryStep cfg st step = some st') :
    RegistryInv st' := by
  cases step with
  | discoverAndRegister sessions =>
    rw [← Option.some.inj hstep]
    exact RegistryInv.discoverAndRegister st sessions
  | discoverSingleBackend svrName =>
    rw [← Option.some.inj hstep]
    exact ⟨h.consistent, h.current⟩
  | removeBackend svrName =>
    rw [← Option.some.inj hstep]
    exact h.removeBackend cfg hstamp svrName hsafe
  | complete task reply =>
    obtain ⟨-, rfl⟩ := registryStep_complete.mp hstep
    exact h.complete hsafe
  | publish gen =>
    obtain ⟨-, rfl⟩ := registryStep_publish.mp hstep
    exact h.publish cfg hsafe

end RegistryInv

/-- The invariant holds along every safe run, and where such a run leaves nothing in progress the
route map is the one of the advertised lists. -/
theorem inv_of_safe_run {cfg : RegistryConfig} {tr : List Step} {st : RegistryState}
    (hsafe : Run.Guarded (registryStep cfg) (SafeStep cfg) RegistryState.init tr)
    (hrun : registryRun cfg RegistryState.init tr = some st) (hquiet : st.Quiescent) :
    RegistryInv st ∧ Stamped st ∧ st.routesFor = st.live := by
  have hstep : ∀ s step s', RegistryInv s ∧ Stamped s → SafeStep cfg s step →
      registryStep cfg s step = some s' → RegistryInv s' ∧ Stamped s' :=
    fun _ _ _ h hok hs ↦ ⟨h.1.step h.2 hok hs, h.2.step hs⟩
  obtain ⟨hinv, hstamp⟩ := Run.invariant_of_run hstep ⟨RegistryInv.init, Stamped.init⟩ hsafe hrun
  refine ⟨hinv, hstamp, hinv.current.resolve_right fun hmem ↦ ?_⟩
  rw [hquiet.2] at hmem
  exact absurd hmem (by simp)

/-- **Registry consistency.** In every run whose steps are safe, whenever nothing is in progress
the advertised names are the route keys, each once, and each is routed to its supplier. -/
theorem consistent_of_safe_run {cfg : RegistryConfig} {tr : List Step} {st : RegistryState}
    (hsafe : Run.Guarded (registryStep cfg) (SafeStep cfg) RegistryState.init tr)
    (hrun : registryRun cfg RegistryState.init tr = some st) (hquiet : st.Quiescent) :
    Consistent st.advertisedLists st.routeMap := by
  obtain ⟨hinv, -, hlive⟩ := inv_of_safe_run hsafe hrun hquiet
  rw [RegistryState.advertisedLists, ← hlive]
  exact hinv.consistent

/-! ### Two servers, one name -/

/-- Two servers in priority order, without filters and renames. -/
def highLowConfig : RegistryConfig where
  strategy := .priorityStrategy ["high", "low"] "_"
  filters := Dict.empty
  renameMaps := Dict.empty

/-- A reply that lists items of one type by name. -/
def namedReply (capType : CapType) (names : List String) : ListReply :=
  .ok (.attr (names.map fun name ↦ .item capType ⟨name, name, none⟩))

/-- One `discover_and_register` call in which `low` lists the tool `x` and is answered first, and
`high` then lists an item `x` of the given type. -/
def highLowTrace (capType : CapType) : List Step :=
  let reply := fun asked ↦ namedReply asked (if asked = capType then ["x"] else [])
  [.discoverAndRegister (Dict.ofList [("low", true), ("high", true)]),
    .complete ⟨"low", .tools, 1, .gather⟩ (namedReply .tools ["x"]),
    .complete ⟨"low", .resources, 1, .gather⟩ (namedReply .resources []),
    .complete ⟨"low", .prompts, 1, .gather⟩ (namedReply .prompts []),
    .complete ⟨"high", .tools, 1, .gather⟩ (reply .tools),
    .complete ⟨"high", .resources, 1, .gather⟩ (reply .resources),
    .complete ⟨"high", .prompts, 1, .gather⟩ (reply .prompts),
    .publish 1]

/-- The state the call ends in. -/
def highLowFinal (capType : CapType) : RegistryState :=
  (registryRun highLowConfig RegistryState.init (highLowTrace capType)).getD RegistryState.init

theorem registryRun_highLowTrace (capType : CapType) :
    registryRun highLowConfig RegistryState.init (highLowTrace capType)
      = some (highLowFinal capType) := by
  have hdef : ∀ capType,
      (registryRun highLowConfig RegistryState.init (highLowTrace capType)).isSome := by decide
  exact Run.run_eq_some_getD (hdef capType) RegistryState.init

/-- When both items are tools the run is safe and ends consistent. -/
theorem consistent_highLowFinal_tools :
    registryRun highLowConfig RegistryState.init (highLowTrace .tools)
        = some (highLowFinal .tools) ∧ (highLowFinal .tools).Quiescent ∧
      Consistent (highLowFinal .tools).advertisedLists (highLowFinal .tools).routeMap :=
  ⟨registryRun_highLowTrace .tools, by decide,
    consistent_of_safe_run (by decide) (registryRun_highLowTrace .tools) (by decide)⟩

/-- When the newcomer is a prompt, the tool it replaces stays advertised: two items of one name,
and one route. -/
theorem not_consistent_highLowFinal_prompts :
    ¬∀ (cfg : RegistryConfig) (tr : List Step) (st : RegistryState),
      registryRun cfg RegistryState.init tr = some st → st.Quiescent →
        Consistent st.advertisedLists st.routeMap := by
  intro h
  have hcons := h highLowConfig _ _ (registryRun_highLowTrace .prompts) (by decide)
  have hlen : ((allEntries (highLowFinal .prompts).advertisedLists).map Entry.name).length
      = (highLowFinal .prompts).routeMap.keys.length := hcons.names_perm_keys.length_eq
  exact absurd hlen (by decide)

end ArgusMcp
