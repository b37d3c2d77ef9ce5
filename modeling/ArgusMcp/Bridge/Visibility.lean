import ArgusMcp.Bridge.Health
import ArgusMcp.Bridge.Routes

/-!
# What health checks show and hide

A check that ends `UNHEALTHY` on a failed probe takes the backend out of the registry at once. A
check that finds the backend well again, after one that did not, schedules a re-discovery, which
runs on its own and lists the three types one after the other.

## When the registry follows the checks

Hiding happens in the check itself, showing does not. So a re-discovery may come back when the
backend is down again; it may fail, and is not tried again; it may write to lists that the registry
has replaced meanwhile; and it is scheduled on one edge only, which a reset takes away. `Orderly`
says of each step that it is none of these. A check that finds no session hides nothing, as its test
says (`test_no_session_does_not_reach_hide`), and is not among them.

## The invariant

It has three parts beside the consistency of the registry. No route leads to a backend whose last
probe failed. A backend that was hidden and is well again has, for each type, listed it since or a
re-discovery under way that will. And each name that it listed since is routed to it, unless another
backend has held that name meanwhile.
-/

namespace ArgusMcp

/-! ## A registry between two checks -/

namespace RegistryState

variable {cfg : RegistryConfig} {st : RegistryState} {task : Task} {reply : ListReply}

/-- A re-discovery that has listed one type goes on to the next. -/
theorem pending_complete (hsingle : task.origin = .single) :
    (st.complete cfg task reply).pending = st.pending.erase task ++
      match nextType task.capType with
      | some capType => [⟨task.svr, capType, st.live, .single⟩]
      | none => [] := by
  rw [complete, hsingle, discoverCapsByType_snd]
  dsimp only
  rcases nextType task.capType with _ | capType
  · exact (List.append_nil _).symm
  · rfl

/-- Only re-discoveries are in progress, and the registry is consistent. -/
structure Settled (st : RegistryState) : Prop where
  inv : RegistryInv st
  stamped : Stamped st
  current : st.routesFor = st.live
  gathers : st.gathers = []
  single : ∀ task ∈ st.pending, task.origin = .single

namespace Settled

theorem consistent (h : st.Settled) : Consistent st.advertisedLists st.routeMap := by
  rw [advertisedLists, ← h.current]
  exact h.inv.consistent

theorem of_run {tr : List Step}
    (hsafe : Run.Guarded (registryStep cfg) (SafeStep cfg) RegistryState.init tr)
    (hrun : registryRun cfg RegistryState.init tr = some st) (hquiet : st.Quiescent) :
    st.Settled := by
  obtain ⟨hinv, hstamped, hlive⟩ := inv_of_safe_run hsafe hrun hquiet
  refine ⟨hinv, hstamped, hlive, hquiet.2, fun task htask ↦ ?_⟩
  rw [hquiet.1] at htask
  exact absurd htask List.not_mem_nil

theorem discoverSingleBackend (cfg : RegistryConfig) (h : st.Settled) (svrName : String) :
    (st.discoverSingleBackend svrName).Settled := by
  have hstep : registryStep cfg st (.discoverSingleBackend svrName)
      = some (st.discoverSingleBackend svrName) := rfl
  have hsafe : SafeStep cfg st (.discoverSingleBackend svrName) := trivial
  refine ⟨h.inv.step h.stamped hsafe hstep, h.stamped.step hstep, h.current, h.gathers,
    fun task htask ↦ ?_⟩
  rcases List.mem_append.mp htask with htask | htask
  · exact h.single task htask
  · rw [List.mem_singleton.mp htask]

theorem removeBackend (cfg : RegistryConfig) (h : st.Settled) (svrName : String) :
    (st.removeBackend svrName).Settled := by
  have hstep : registryStep cfg st (.removeBackend svrName) = some (st.removeBackend svrName) :=
    rfl
  have hsafe : SafeStep cfg st (.removeBackend svrName) := Or.inl h.current
  exact ⟨h.inv.step h.stamped hsafe hstep, h.stamped.step hstep, if_pos h.current, h.gathers,
    h.single⟩

theorem complete (h : st.Settled) (htask : task ∈ st.pending)
    (hsafe : SafeStep cfg st (.complete task reply)) :
    (st.complete cfg task reply).Settled := by
  have hstep : registryStep cfg st (.complete task reply) = some (st.complete cfg task reply) :=
    registryStep_complete.mpr ⟨htask, rfl⟩
  obtain ⟨-, -, hlive, -, hfor, hgathers⟩ := complete_tables cfg st task reply
  refine ⟨h.inv.step h.stamped hsafe hstep, h.stamped.step hstep, ?_, ?_, fun t ht ↦ ?_⟩
  · rw [hfor, hlive]
    exact h.current
  · rw [hgathers]
    exact h.gathers
  · rw [pending_complete (h.single task htask)] at ht
    rcases List.mem_append.mp ht with ht | ht
    · exact h.single t (List.mem_of_mem_erase ht)
    · split at ht
      · rw [List.mem_singleton.mp ht]
      · exact absurd ht List.not_mem_nil

end Settled

end RegistryState

namespace Health

variable {T : Type*} [AddCommGroup T] [LinearOrder T]

/-! ## What of the system matters -/

/-- The registry with the re-discoveries, and the ghost data. -/
structure Scene where
  registry : RegistryState
  restoring : List String
  ended : Dict String Ended
  relisted : Dict String (CapType → Option (List RawItem))

def System.scene (st : System T) : Scene := ⟨st.registry, st.restoring, st.ended, st.relisted⟩

namespace System

omit [AddCommGroup T] [LinearOrder T] in
@[simp] theorem scene_updateRecord (st : System T) (name : String)
    (f : BackendStatusRecord T → BackendStatusRecord T) :
    (st.updateRecord name f).scene = st.scene := by
  rw [updateRecord]
  rcases st.records.get? name with _ | record <;> rfl

omit [AddCommGroup T] [LinearOrder T] in
theorem scene_conclude (cfg : CheckerConfig T) (st : System T) (name : String)
    (health : BackendHealth T) (probed : Bool) : (st.conclude cfg name health probed).scene
      = { st.scene with ended := st.ended.set name ⟨health.state, probed⟩ } := by
  rw [conclude, scene_updateRecord]
  rfl

end System

theorem BackendHealth.state_probed (cfg : CheckerConfig T) (health : BackendHealth T) (start : T)
    (clock : ℕ → T) (probe : Except String Unit)
    (h : (health.probed cfg start clock probe).state ≠ .unhealthy) :
    (health.probed cfg start clock probe).state = .healthy ∨
      (health.probed cfg start clock probe).state = .degraded := by
  rcases hstate : (health.probed cfg start clock probe).state with _ | _ | _ | _
  · exact Or.inl rfl
  · exact Or.inr rfl
  · exact absurd hstate h
  · rcases probe with e | ⟨⟩
    all_goals
      rw [probed] at hstate
      dsimp only at hstate
      split at hstate <;> exact absurd hstate (by simp)

/-- **How a check ends.** The backend is hidden, or its re-discovery is scheduled, or neither. -/
theorem System.scene_finishCheck (cfg : CheckerConfig T) (s : System T) (name : String)
    (check : Check T) (health : BackendHealth T) (clock : ℕ → T) (probe : Except String Unit) :
    let state := (health.probed cfg check.start clock probe).state
    let s' := s.finishCheck cfg name check health clock probe
    (state = .unhealthy ∧ s'.scene =
      { s.scene with
        registry := s.registry.removeBackend name
        ended := s.ended.set name ⟨.unhealthy, true⟩
        relisted := s.relisted.set name fun _ ↦ none }) ∨
    (state ≠ .unhealthy ∧ check.oldState = .unhealthy ∧ s.sessions.get? name = some () ∧
      s'.scene =
        { s.scene with
          restoring := s.restoring ++ [name]
          ended := s.ended.set name ⟨state, true⟩ }) ∨
    (state ≠ .unhealthy ∧ ¬(check.oldState = .unhealthy ∧ s.sessions.get? name = some ()) ∧
      s'.scene = { s.scene with ended := s.ended.set name ⟨state, true⟩ }) := by
  dsimp only
  rw [finishCheck, scene_conclude, showOrHide]
  by_cases hdown : (health.probed cfg check.start clock probe).state = .unhealthy
  · refine Or.inl ⟨hdown, ?_⟩
    rw [if_pos hdown, hdown]
    rfl
  right
  rw [if_neg hdown]
  by_cases hold : check.oldState = .unhealthy
  · rw [if_pos ⟨hold, BackendHealth.state_probed cfg health _ clock probe hdown⟩,
      restoreBackendCapabilities]
    dsimp only
    rcases s.sessions.get? name with _ | ⟨⟩
    · exact Or.inr ⟨hdown, by simp, rfl⟩
    · exact Or.inl ⟨hdown, hold, rfl, rfl⟩
  · rw [if_neg (fun hand ↦ hold hand.1)]
    exact Or.inr ⟨hdown, fun hand ↦ hold hand.1, rfl⟩

/-- **Inversion.** What a step does to the registry and to what is known of the checks. -/
theorem step_cases {cfg : CheckerConfig T} {rcfg : RegistryConfig} {s s' : System T}
    {ev : Event T} (h : step cfg rcfg s ev = some s') :
    s'.scene = s.scene ∨
    (∃ name clock, ev = .beginCheck name clock ∧
      s'.scene = { s.scene with ended := s.ended.set name ⟨.unhealthy, false⟩ }) ∨
    (∃ name clock probe check health, ev = .finishCheck name clock probe ∧
      s.checks.get? name = some check ∧ s.health.get? name = some health ∧
      let state := (health.probed cfg check.start clock probe).state
      (state = .unhealthy ∧ s'.scene =
        { s.scene with
          registry := s.registry.removeBackend name
          ended := s.ended.set name ⟨.unhealthy, true⟩
          relisted := s.relisted.set name fun _ ↦ none }) ∨
      (state ≠ .unhealthy ∧ check.oldState = .unhealthy ∧ s.sessions.get? name = some () ∧
        s'.scene = { s.scene with
          restoring := s.restoring ++ [name]
          ended := s.ended.set name ⟨state, true⟩ }) ∨
      (state ≠ .unhealthy ∧ ¬(check.oldState = .unhealthy ∧ s.sessions.get? name = some ()) ∧
        s'.scene = { s.scene with ended := s.ended.set name ⟨state, true⟩ })) ∨
    (∃ name, ev = .restore name ∧ name ∈ s.restoring ∧ s'.scene =
      { s.scene with
        registry := s.registry.discoverSingleBackend name
        restoring := s.restoring.erase name }) ∨
    (∃ task reply, ev = .relist task reply ∧ task ∈ s.registry.pending ∧ s'.scene =
      { s.scene with
        registry := s.registry.complete rcfg task reply
        relisted := s.noteListing task reply }) := by
  cases ev with
  | beginCheck name clock =>
    rw [step] at h
    rcases hcheck : s.checks.get? name with _ | check
    · rw [hcheck, Option.some.injEq, System.beginCheck] at h
      split at h
      · exact Or.inl (h ▸ rfl)
      · rcases hsession : s.sessions.get? name with _ | ⟨⟩
        · rw [hsession] at h
          refine Or.inr (Or.inl ⟨name, clock, rfl, ?_⟩)
          rw [← h]
          exact System.scene_conclude cfg s name _ false
        · rw [hsession] at h
          exact Or.inl (h ▸ rfl)
    · rw [hcheck] at h
      exact absurd h (by simp)
  | finishCheck name clock probe =>
    rw [step] at h
    rcases hcheck : s.checks.get? name with _ | check
    · rw [hcheck] at h
      exact absurd h (by simp)
    rcases hhealth : s.health.get? name with _ | health
    · rw [hcheck, hhealth] at h
      exact absurd h (by simp)
    rw [hcheck, hhealth, Option.some.injEq] at h
    refine Or.inr (Or.inr (Or.inl ⟨name, clock, probe, check, health, rfl, hcheck, hhealth, ?_⟩))
    rw [← h]
    exact s.scene_finishCheck cfg name check health clock probe
  | restore name =>
    rw [step] at h
    split at h
    · rename_i hmem
      rw [Option.some.injEq] at h
      exact Or.inr (Or.inr (Or.inr (Or.inl ⟨name, rfl, hmem, h ▸ rfl⟩)))
    · exact absurd h (by simp)
  | relist task reply =>
    obtain ⟨registry, hregistry, rfl⟩ := Option.map_eq_some_iff.mp h
    obtain ⟨hmem, rfl⟩ := registryStep_complete.mp hregistry
    exact Or.inr (Or.inr (Or.inr (Or.inr ⟨task, reply, rfl, hmem, rfl⟩)))
  | connecting name svrType => exact Or.inl (Option.some.inj h ▸ rfl)
  | connected name =>
    rw [← Option.some.inj h, System.connected, System.scene_updateRecord]
    exact Or.inl rfl
  | connectFailed name message | authPending name message =>
    rw [← Option.some.inj h, System.scene_updateRecord]
    exact Or.inl rfl
  | retrying name attempt maxRetries =>
    rw [← Option.some.inj h, System.retrying, System.scene_updateRecord]
    exact Or.inl rfl
  | disconnected name | shuttingDown => exact Or.inl (Option.some.inj h ▸ rfl)
  | resetBackend name =>
    rw [← Option.some.inj h, System.resetBackend]
    rcases s.health.get? name with _ | health
    · exact Or.inl rfl
    · exact Or.inl rfl

/-! ## Hidden and shown -/

/-- The backend has no capability in the registry. -/
def Hidden (registry : RegistryState) (name : String) : Prop :=
  (∀ key orig, registry.resolveCapability key ≠ some (name, orig)) ∧
    ∀ capType, ∀ e ∈ registry.advertisedLists capType, e.supplier ≠ name

/-- The name an offer asks for is advertised for its backend, and leads to it. -/
def Advertised (registry : RegistryState) (off : Offer) : Prop :=
  (∃ orig, registry.resolveCapability off.exp = some (off.svr, orig)) ∧
    ∃ capType, ∃ e ∈ registry.advertisedLists capType, e.name = off.exp ∧ e.supplier = off.svr

section History

variable (cfg : CheckerConfig T) (rcfg : RegistryConfig) (s₀ : System T)

/-- In some state of the run, from the one after the first events on, someone else holds the
name. -/
def HeldSince (tr first : List (Event T)) (name key : String) : Prop :=
  ∃ mid post m, tr = first ++ mid ++ post ∧ Run.run (step cfg rcfg) s₀ (first ++ mid) = some m ∧
    HeldByOther m.registry.routeMap name key

/-- A backend that was hidden has listed the type since, and each name it listed is advertised
for it, unless the name has been in conflict with another backend from that moment on. -/
def Relisted (tr : List (Event T)) (s : System T) (name : String)
    (listed : CapType → Option (List RawItem)) (capType : CapType) : Prop :=
  ∃ first task listResult post, tr = first ++ .relist task (.ok listResult) :: post ∧
    task.svr = name ∧ task.capType = capType ∧
    listed capType = some (parseListResult listResult) ∧
    ∀ off ∈ offersOf rcfg name capType (parseListResult listResult),
      Advertised s.registry off ∨
        InConflict rcfg (HeldSince cfg rcfg s₀ tr first name)
          (offersOf rcfg name capType (parseListResult listResult)) off

/-- A backend that was hidden, whose last check ended well, and that has a session, is shown. -/
def Shown (tr : List (Event T)) (s : System T) : Prop :=
  ∀ name listed e, s.relisted.get? name = some listed → s.ended.get? name = some e →
    e.state = .healthy ∨ e.state = .degraded → s.sessions.get? name = some () →
    ∀ capType, Relisted cfg rcfg s₀ tr s name listed capType

/-- **Health visibility**, for the checks that are told to hide: all that end badly, or only those
that could probe. -/
structure Visible (hides : Ended → Prop) (tr : List (Event T)) (s : System T) : Prop where
  hidden : ∀ name e, s.ended.get? name = some e → hides e → Hidden s.registry name
  shown : Shown cfg rcfg s₀ tr s

end History

/-- The check ended badly. -/
def Ended.Bad (e : Ended) : Prop := e.state = .unhealthy

def Ended.ProbeFailed (e : Ended) : Prop := e.state = .unhealthy ∧ e.probed = true

/-! ## Orderly steps -/

/-- The backend was hidden, and has not listed the type since. -/
def Scene.awaits (v : Scene) (name : String) (capType : CapType) : Bool :=
  match v.relisted.get? name with
  | some listed => (listed capType).isNone
  | none => false

/-- A check that finds a hidden backend well, when the last one did not, finds its state as the last
one left it, and its session. -/
abbrev KeepsEdge (cfg : CheckerConfig T) (s : System T) (name : String) (clock : ℕ → T)
    (probe : Except String Unit) : Prop :=
  ∀ check ∈ s.checks.get? name, ∀ health ∈ s.health.get? name, ∀ e ∈ s.ended.get? name,
    (health.probed cfg check.start clock probe).state ≠ .unhealthy →
      (s.relisted.get? name).isSome = true → e.state = .unhealthy →
      check.oldState = .unhealthy ∧ s.sessions.get? name = some ()

/-- A listing of a backend whose last probe failed adds nothing, and one that a backend which is
well again still owes does not fail. -/
abbrev ListsInTime (rcfg : RegistryConfig) (s : System T) (task : Task) (reply : ListReply) :
    Prop :=
  ∀ e ∈ s.ended.get? task.svr,
    (e.state = .unhealthy → e.probed = true → ∀ off ∈ taskOffers rcfg task reply,
      Lands rcfg.strategy s.registry.routeMap off = false) ∧
    (e.state ≠ .unhealthy → s.scene.awaits task.svr task.capType = true → reply.isOk = true)

/-- The steps after which the registry still follows the checks, told from the state before. A
listing, besides, is registered where it is advertised, and takes no name from an item of another
type. -/
def Orderly (cfg : CheckerConfig T) (rcfg : RegistryConfig) (s : System T) : Event T → Prop
  | .finishCheck name clock probe => KeepsEdge cfg s name clock probe
  | .relist task reply =>
    SafeStep rcfg s.registry (.complete task reply) ∧ ListsInTime rcfg s task reply
  | _ => True

instance (cfg : CheckerConfig T) (rcfg : RegistryConfig) (s : System T) :
    ∀ ev : Event T, Decidable (Orderly cfg rcfg s ev)
  | .finishCheck name clock probe =>
    inferInstanceAs (Decidable (KeepsEdge cfg s name clock probe))
  | .relist task reply =>
    inferInstanceAs (Decidable (_ ∧ ListsInTime rcfg s task reply))
  | .connecting _ _ => instDecidableTrue
  | .connected _ => instDecidableTrue
  | .connectFailed _ _ => instDecidableTrue
  | .authPending _ _ => instDecidableTrue
  | .retrying _ _ _ => instDecidableTrue
  | .disconnected _ => instDecidableTrue
  | .shuttingDown => instDecidableTrue
  | .beginCheck _ _ => instDecidableTrue
  | .resetBackend _ => instDecidableTrue
  | .restore _ => instDecidableTrue

/-! ## Re-discoveries under way -/

/-- The order in which the types are listed. -/
def rank : CapType → ℕ
  | .tools => 0
  | .resources => 1
  | .prompts => 2

theorem rank_nextType {capType other : CapType} (hle : rank capType ≤ rank other)
    (hne : capType ≠ other) :
    ∃ next, RegistryState.nextType capType = some next ∧ rank next ≤ rank other := by
  rcases capType with _ | _ | _ <;> rcases other with _ | _ | _ <;>
    simp [rank, RegistryState.nextType] at hle hne ⊢

/-- A re-discovery of the backend is scheduled or under way that will come to the type. -/
def Scene.Underway (v : Scene) (name : String) (capType : CapType) : Prop :=
  name ∈ v.restoring ∨
    ∃ task ∈ v.registry.pending, task.svr = name ∧ rank task.capType ≤ rank capType

namespace Scene.Underway

variable {v v' : Scene} {name : String} {capType : CapType}

theorem mono (h : v.Underway name capType) (hrestoring : ∀ n ∈ v.restoring, n ∈ v'.restoring)
    (hpending : ∀ task ∈ v.registry.pending, task ∈ v'.registry.pending) :
    v'.Underway name capType := by
  rcases h with hmem | ⟨task, hmem, hsvr, hle⟩
  · exact Or.inl (hrestoring name hmem)
  · exact Or.inr ⟨task, hpending task hmem, hsvr, hle⟩

theorem restore (h : v.Underway name capType) (other : String) :
    Scene.Underway
      { v with
        registry := v.registry.discoverSingleBackend other
        restoring := v.restoring.erase other } name capType := by
  rcases h with hmem | ⟨task, hmem, hsvr, hle⟩
  · by_cases heq : name = other
    · right
      exact ⟨_, List.mem_append_right _ (List.mem_singleton_self _), heq.symm, Nat.zero_le _⟩
    · exact Or.inl ((List.mem_erase_of_ne heq).mpr hmem)
  · exact Or.inr ⟨task, List.mem_append_left _ hmem, hsvr, hle⟩

/-- A re-discovery is told one type: it was this one, or it goes on. -/
theorem relist {rcfg : RegistryConfig} {task : Task} {reply : ListReply}
    (h : v.Underway name capType) (hsingle : task.origin = .single)
    (hregistry : v'.registry = v.registry.complete rcfg task reply)
    (hrestoring : v'.restoring = v.restoring) :
    task.svr = name ∧ task.capType = capType ∨ v'.Underway name capType := by
  rcases h with hmem | ⟨t, hmem, hsvr, hle⟩
  · exact Or.inr (Or.inl (hrestoring ▸ hmem))
  by_cases heq : t = task
  · subst heq
    by_cases hty : t.capType = capType
    · exact Or.inl ⟨hsvr, hty⟩
    · obtain ⟨next, hnext, hle'⟩ := rank_nextType hle hty
      refine Or.inr (Or.inr ⟨⟨t.svr, next, v.registry.live, .single⟩, ?_, hsvr, hle'⟩)
      rw [hregistry, RegistryState.pending_complete hsingle, hnext]
      exact List.mem_append_right _ (List.mem_singleton_self _)
  · refine Or.inr (Or.inr ⟨t, ?_, hsvr, hle⟩)
    rw [hregistry, RegistryState.pending_complete hsingle]
    exact List.mem_append_left _ ((List.mem_erase_of_ne heq).mpr hmem)

end Scene.Underway

omit [AddCommGroup T] [LinearOrder T] in
/-- What has been listed after a listing: what had been before, and the type that was owed. -/
theorem System.noteListing_cases {s : System T} {task : Task} {reply : ListReply} {name : String}
    {listed' : CapType → Option (List RawItem)}
    (h : (s.noteListing task reply).get? name = some listed') :
    ∃ listed, s.relisted.get? name = some listed ∧
      ((listed' = listed ∧
          (task.svr = name → reply.isOk = true → (listed task.capType).isSome = true)) ∨
        task.svr = name ∧ ∃ listResult, reply = .ok listResult ∧ listed task.capType = none ∧
          listed' = Function.update listed task.capType (some (parseListResult listResult))) := by
  unfold noteListing at h
  rcases hget : s.relisted.get? task.svr with _ | listed
  · rw [hget] at h
    refine ⟨listed', h, Or.inl ⟨rfl, fun heq ↦ ?_⟩⟩
    subst heq
    exact absurd (hget.symm.trans h) (by simp)
  rcases reply with e | listResult
  · rw [hget] at h
    exact ⟨listed', h, Or.inl ⟨rfl, fun _ hok ↦ absurd hok (by simp [Except.isOk, Except.toBool])⟩⟩
  rw [hget] at h
  dsimp only at h
  split at h
  · rename_i howed
    rw [Dict.get?_set] at h
    split at h
    · rename_i hname
      subst hname
      exact ⟨listed, hget, Or.inr ⟨rfl, listResult, rfl, howed, (Option.some.inj h).symm⟩⟩
    · rename_i hname
      exact ⟨listed', h, Or.inl ⟨rfl, fun heq ↦ absurd heq.symm hname⟩⟩
  · rename_i howed
    refine ⟨listed', h, Or.inl ⟨rfl, fun heq _ ↦ ?_⟩⟩
    subst heq
    obtain rfl := Option.some.inj (hget.symm.trans h)
    exact Option.isSome_iff_ne_none.mpr howed

/-! ## The invariant -/

section Invariant

variable (cfg : CheckerConfig T) (rcfg : RegistryConfig) (s₀ : System T)

/-- A listing that is part of the history: each of its names is routed to the backend, or has been
in conflict since. -/
def Noted (hist : List (Event T)) (routeMap : Dict String Route) (name : String)
    (capType : CapType) (raws : List RawItem) : Prop :=
  ∃ first task listResult post, hist = first ++ .relist task (.ok listResult) :: post ∧
    task.svr = name ∧ task.capType = capType ∧ raws = parseListResult listResult ∧
    ∀ off ∈ offersOf rcfg name capType raws,
      (∃ orig, routeMap.get? off.exp = some (name, orig)) ∨
        InConflict rcfg (HeldSince cfg rcfg s₀ hist first name)
          (offersOf rcfg name capType raws) off

/-- **The invariant.** -/
structure Inv (hist : List (Event T)) (s : System T) : Prop where
  run : Run.run (step cfg rcfg) s₀ hist = some s
  settled : s.registry.Settled
  hidden : ∀ name e, s.ended.get? name = some e → e.ProbeFailed →
    ∀ key orig, s.registry.routeMap.get? key ≠ some (name, orig)
  known : ∀ name listed, s.relisted.get? name = some listed → ∃ e, s.ended.get? name = some e
  progress : ∀ name listed e, s.relisted.get? name = some listed → s.ended.get? name = some e →
    e.state ≠ .unhealthy → ∀ capType,
      (listed capType).isSome = true ∨ s.scene.Underway name capType
  noted : ∀ name listed capType raws, s.relisted.get? name = some listed →
    listed capType = some raws → Noted cfg rcfg s₀ hist s.registry.routeMap name capType raws

variable {cfg rcfg s₀} {hist : List (Event T)} {s s' : System T} {ev : Event T} {name : String}

theorem HeldSince.concat {tr first : List (Event T)} {key : String}
    (h : HeldSince cfg rcfg s₀ tr first name key) (ev : Event T) :
    HeldSince cfg rcfg s₀ (tr ++ [ev]) first name key := by
  obtain ⟨mid, post, m, rfl, hrun, hheld⟩ := h
  exact ⟨mid, post ++ [ev], m, List.append_assoc _ _ _, hrun, hheld⟩

/-- What is noted stays so while the backend keeps its names, or loses them to others. -/
theorem Noted.concat {routeMap : Dict String Route} {capType : CapType} {raws : List RawItem}
    (h : Noted cfg rcfg s₀ hist routeMap name capType raws)
    (hrun : Run.run (step cfg rcfg) s₀ (hist ++ [ev]) = some s')
    (hkeep : ∀ key orig, routeMap.get? key = some (name, orig) →
      (∃ orig', s'.registry.routeMap.get? key = some (name, orig')) ∨
        HeldByOther s'.registry.routeMap name key) :
    Noted cfg rcfg s₀ (hist ++ [ev]) s'.registry.routeMap name capType raws := by
  obtain ⟨first, task, listResult, post, rfl, hsvr, hty, hraws, hoffs⟩ := h
  refine ⟨first, task, listResult, post ++ [ev], ?_, hsvr, hty, hraws, fun off hoff ↦ ?_⟩
  · rw [List.append_assoc, List.cons_append]
  rcases hoffs off hoff with ⟨orig, hroute⟩ | hconflict
  · rcases hkeep off.exp orig hroute with hkept | hheld
    · exact Or.inl hkept
    · refine Or.inr (Or.inl ⟨.relist task (.ok listResult) :: post ++ [ev], [], s', ?_, ?_, hheld⟩)
      · rw [List.append_nil, ← List.append_assoc]
      · rw [← List.append_assoc]
        exact hrun
  · exact Or.inr (hconflict.imp (fun key h ↦ h.concat ev) fun o ho ↦ ho)

theorem Inv.init {registry : RegistryState} (h : registry.Settled) :
    Inv cfg rcfg (System.init registry) [] (System.init registry) where
  run := rfl
  settled := h
  hidden := fun name e hended ↦ absurd hended (by simp [System.init])
  known := fun name listed hlisted ↦ absurd hlisted (by simp [System.init])
  progress := fun name listed e hlisted ↦ absurd hlisted (by simp [System.init])
  noted := fun name listed capType raws hlisted ↦ absurd hlisted (by simp [System.init])

theorem run_concat (h : Inv cfg rcfg s₀ hist s) (hstep : step cfg rcfg s ev = some s') :
    Run.run (step cfg rcfg) s₀ (hist ++ [ev]) = some s' := by
  rw [Run.run_append, h.run, Option.bind_some, Run.run, hstep]
  rfl

/-- A step that only concludes a check, or nothing, with its result. -/
theorem Inv.of_ended (h : Inv cfg rcfg s₀ hist s) (hstep : step cfg rcfg s ev = some s')
    (hregistry : s'.registry = s.registry) (hrestoring : ∀ n ∈ s.restoring, n ∈ s'.restoring)
    (hrelisted : s'.relisted = s.relisted)
    (hended : ∀ n, (∃ e, s.ended.get? n = some e) → ∃ e, s'.ended.get? n = some e)
    (hfailed : ∀ n e, s'.ended.get? n = some e → e.ProbeFailed → s.ended.get? n = some e)
    (hwell : ∀ n listed e, s.relisted.get? n = some listed → s'.ended.get? n = some e →
      e.state ≠ .unhealthy → (∃ e', s.ended.get? n = some e' ∧ e'.state ≠ .unhealthy) ∨
        n ∈ s'.restoring) :
    Inv cfg rcfg s₀ (hist ++ [ev]) s' where
  run := run_concat h hstep
  settled := hregistry ▸ h.settled
  hidden := by
    intro n e he hbad
    rw [hregistry]
    exact h.hidden n e (hfailed n e he hbad) hbad
  known := by
    intro n listed hlisted
    rw [hrelisted] at hlisted
    exact hended n (h.known n listed hlisted)
  progress := by
    intro n listed e hlisted he hgood capType
    rw [hrelisted] at hlisted
    rcases hwell n listed e hlisted he hgood with ⟨e', he', hgood'⟩ | hmem
    · refine (h.progress n listed e' hlisted he' hgood' capType).imp_right fun hunder ↦ ?_
      refine hunder.mono ?_ fun task htask ↦ ?_
      · exact hrestoring
      · rw [System.scene, hregistry]
        exact htask
    · exact Or.inr (Or.inl hmem)
  noted := by
    intro n listed capType raws hlisted hraws
    rw [hrelisted] at hlisted
    refine (h.noted n listed capType raws hlisted hraws).concat (run_concat h hstep) ?_
    intro key orig hroute
    rw [hregistry]
    exact Or.inl ⟨orig, hroute⟩

/-- A check is concluded without hiding its backend: one that ends well, after one that did not,
has its re-discovery scheduled. -/
theorem Inv.conclude {restoring : List String} {e₀ : Ended} (h : Inv cfg rcfg s₀ hist s)
    (hstep : step cfg rcfg s ev = some s')
    (hscene : s'.scene =
      { s.scene with restoring := restoring, ended := s.ended.set name e₀ })
    (hsub : ∀ n ∈ s.restoring, n ∈ restoring) (hfailed : ¬e₀.ProbeFailed)
    (hwell : e₀.state ≠ .unhealthy → (s.relisted.get? name).isSome = true →
      (∃ e, s.ended.get? name = some e ∧ e.state ≠ .unhealthy) ∨ name ∈ restoring) :
    Inv cfg rcfg s₀ (hist ++ [ev]) s' := by
  have hended : s'.ended = s.ended.set name e₀ := congrArg Scene.ended hscene
  have hrestoring : s'.restoring = restoring := congrArg Scene.restoring hscene
  refine h.of_ended hstep (congrArg Scene.registry hscene) (hrestoring ▸ hsub)
    (congrArg Scene.relisted hscene) ?_ ?_ ?_
  · intro n he
    rw [hended, Dict.get?_set]
    split
    · exact ⟨e₀, rfl⟩
    · exact he
  · intro n e he hbad
    rw [hended, Dict.get?_set] at he
    split at he
    · rw [← Option.some.inj he] at hbad
      exact absurd hbad hfailed
    · exact he
  · intro n listed e hlisted he hgood
    rw [hended, Dict.get?_set] at he
    split at he
    · rename_i hname
      subst hname
      rw [← Option.some.inj he] at hgood
      rw [hrestoring]
      exact hwell hgood (Option.isSome_iff_exists.mpr ⟨listed, hlisted⟩)
    · exact Or.inl ⟨e, he, hgood⟩

theorem Inv.hide (h : Inv cfg rcfg s₀ hist s) (hstep : step cfg rcfg s ev = some s')
    (hscene : s'.scene =
      { s.scene with
        registry := s.registry.removeBackend name
        ended := s.ended.set name ⟨.unhealthy, true⟩
        relisted := s.relisted.set name fun _ ↦ none }) :
    Inv cfg rcfg s₀ (hist ++ [ev]) s' := by
  have hregistry : s'.registry = s.registry.removeBackend name := congrArg Scene.registry hscene
  have hended : s'.ended = s.ended.set name ⟨.unhealthy, true⟩ := congrArg Scene.ended hscene
  have hrelisted : s'.relisted = s.relisted.set name fun _ ↦ none :=
    congrArg Scene.relisted hscene
  refine ⟨run_concat h hstep, hregistry ▸ h.settled.removeBackend rcfg name, ?_, ?_, ?_, ?_⟩
  · intro n e he hbad key orig hroute
    rw [hregistry] at hroute
    obtain ⟨hroute, hne⟩ := RegistryState.route_removeBackend_iff.mp hroute
    rw [hended, Dict.get?_set_of_ne _ _ hne] at he
    exact h.hidden n e he hbad key orig hroute
  · intro n listed hlisted
    rw [hended, Dict.get?_set]
    split
    · exact ⟨_, rfl⟩
    · rename_i hne
      rw [hrelisted, Dict.get?_set_of_ne _ _ hne] at hlisted
      exact h.known n listed hlisted
  · intro n listed e hlisted he hgood capType
    rw [hended, Dict.get?_set] at he
    split at he
    · exact absurd (congrArg Ended.state (Option.some.inj he)).symm hgood
    · rename_i hne
      rw [hrelisted, Dict.get?_set_of_ne _ _ hne] at hlisted
      refine (h.progress n listed e hlisted he hgood capType).imp_right fun hunder ↦ ?_
      rw [hscene]
      exact hunder.mono (fun _ hmem ↦ hmem) fun _ htask ↦ htask
  · intro n listed capType raws hlisted hraws
    rw [hrelisted, Dict.get?_set] at hlisted
    split at hlisted
    · rw [← Option.some.inj hlisted] at hraws
      exact absurd hraws (by simp)
    · rename_i hne
      refine (h.noted n listed capType raws hlisted hraws).concat (run_concat h hstep) ?_
      intro key orig hroute
      rw [hregistry]
      exact Or.inl ⟨orig, RegistryState.route_removeBackend_iff.mpr ⟨hroute, hne⟩⟩

theorem Inv.restore (h : Inv cfg rcfg s₀ hist s) (hstep : step cfg rcfg s ev = some s')
    (hscene : s'.scene =
      { s.scene with
        registry := s.registry.discoverSingleBackend name
        restoring := s.restoring.erase name }) :
    Inv cfg rcfg s₀ (hist ++ [ev]) s' := by
  have hregistry : s'.registry = s.registry.discoverSingleBackend name :=
    congrArg Scene.registry hscene
  have hended : s'.ended = s.ended := congrArg Scene.ended hscene
  have hrelisted : s'.relisted = s.relisted := congrArg Scene.relisted hscene
  have hroutes : s'.registry.routeMap = s.registry.routeMap := by
    rw [hregistry]
    rfl
  refine ⟨run_concat h hstep, hregistry ▸ h.settled.discoverSingleBackend rcfg name, ?_, ?_, ?_, ?_⟩
  · rw [hended, hroutes]
    exact h.hidden
  · rw [hended, hrelisted]
    exact h.known
  · rw [hended, hrelisted]
    intro n listed e hlisted he hgood capType
    refine (h.progress n listed e hlisted he hgood capType).imp_right fun hunder ↦ ?_
    rw [hscene]
    exact hunder.restore name
  · rw [hrelisted]
    intro n listed capType raws hlisted hraws
    refine (h.noted n listed capType raws hlisted hraws).concat (run_concat h hstep) ?_
    intro key orig hroute
    rw [hroutes]
    exact Or.inl ⟨orig, hroute⟩

section Relist

variable {task : Task} {reply : ListReply}

/-- The type that a listing was owed for has come, or the re-discovery goes on. -/
theorem Inv.progress_relist (h : Inv cfg rcfg s₀ hist s) (htask : task ∈ s.registry.pending)
    (hintime : ListsInTime rcfg s task reply)
    (hscene : s'.scene =
      { s.scene with
        registry := s.registry.complete rcfg task reply
        relisted := s.noteListing task reply })
    {listed' : CapType → Option (List RawItem)} {e : Ended}
    (hlisted' : (s.noteListing task reply).get? name = some listed')
    (he : s.ended.get? name = some e) (hgood : e.state ≠ .unhealthy) (capType : CapType) :
    (listed' capType).isSome = true ∨ s'.scene.Underway name capType := by
  obtain ⟨listed, hlisted, hcases⟩ := System.noteListing_cases hlisted'
  have hmono : (listed capType).isSome = true → (listed' capType).isSome = true := by
    intro hsome
    rcases hcases with ⟨rfl, -⟩ | ⟨-, listResult, -, howed, rfl⟩
    · exact hsome
    · rw [Function.update_apply]
      split
      · rfl
      · exact hsome
  rcases h.progress name listed e hlisted he hgood capType with hsome | hunder
  · exact Or.inl (hmono hsome)
  have hregistry : s'.scene.registry = s.scene.registry.complete rcfg task reply :=
    congrArg Scene.registry hscene
  have hrestoring : s'.scene.restoring = s.scene.restoring := by rw [hscene]
  rcases hunder.relist (h.settled.single task htask) hregistry hrestoring
    with ⟨rfl, rfl⟩ | hunder
  · left
    rcases hcases with ⟨rfl, hdone⟩ | ⟨-, listResult, -, -, rfl⟩
    · by_contra hnone
      have hget : s.scene.relisted.get? task.svr = some listed' := hlisted
      have hawaits : s.scene.awaits task.svr task.capType = true := by
        rw [Scene.awaits, hget]
        exact Option.isNone_iff_eq_none.mpr (Option.not_isSome_iff_eq_none.mp hnone)
      exact hnone (hdone rfl ((hintime e he).2 hgood hawaits))
    · rw [Function.update_self]
      rfl
  · exact Or.inr hunder

/-- The names of earlier listings stay or are lost to the server of the task; those of this one are
the backend's now, or were in conflict when the task began. -/
theorem Inv.noted_relist (h : Inv cfg rcfg s₀ hist s)
    (hstep : step cfg rcfg s (.relist task reply) = some s')
    (hregistry : s'.registry = s.registry.complete rcfg task reply)
    {listed' : CapType → Option (List RawItem)} {capType : CapType} {raws : List RawItem}
    (hlisted' : (s.noteListing task reply).get? name = some listed')
    (hraws : listed' capType = some raws) :
    Noted cfg rcfg s₀ (hist ++ [.relist task reply]) s'.registry.routeMap name capType raws := by
  have hkeep : ∀ key orig, s.registry.routeMap.get? key = some (name, orig) →
      (∃ orig', s'.registry.routeMap.get? key = some (name, orig')) ∨
        HeldByOther s'.registry.routeMap name key := by
    intro key orig hroute
    rw [hregistry]
    rcases @RegistryState.route_complete rcfg _ task reply _ _ hroute with hkept | ⟨orig', htaken⟩
    · exact Or.inl ⟨orig, hkept⟩
    · by_cases hsvr : task.svr = name
      · exact Or.inl ⟨orig', hsvr ▸ htaken⟩
      · exact Or.inr ⟨task.svr, orig', htaken, hsvr⟩
  obtain ⟨listed, hlisted, ⟨rfl, -⟩ | ⟨hsvr, listResult, rfl, howed, rfl⟩⟩ :=
    System.noteListing_cases hlisted'
  · exact (h.noted name listed' capType raws hlisted hraws).concat (run_concat h hstep) hkeep
  rw [Function.update_apply] at hraws
  split at hraws
  · rename_i hty
    subst hsvr hty
    refine ⟨hist, task, listResult, [], rfl, rfl, rfl, (Option.some.inj hraws).symm, ?_⟩
    rw [← Option.some.inj hraws]
    intro off hoff
    rw [hregistry]
    refine (RegistryState.exp_complete hoff).imp_right fun hconflict ↦ ?_
    refine hconflict.imp (fun key hheld ↦ ?_) fun o ho ↦ ho
    exact ⟨[], [.relist task (.ok listResult)], s, by simp, by simpa using h.run, hheld⟩
  · exact (h.noted name listed capType raws hlisted hraws).concat (run_concat h hstep) hkeep

theorem Inv.relist (h : Inv cfg rcfg s₀ hist s)
    (hstep : step cfg rcfg s (.relist task reply) = some s') (htask : task ∈ s.registry.pending)
    (hsafe : SafeStep rcfg s.registry (.complete task reply))
    (hintime : ListsInTime rcfg s task reply)
    (hscene : s'.scene =
      { s.scene with
        registry := s.registry.complete rcfg task reply
        relisted := s.noteListing task reply }) :
    Inv cfg rcfg s₀ (hist ++ [.relist task reply]) s' := by
  have hregistry : s'.registry = s.registry.complete rcfg task reply :=
    congrArg Scene.registry hscene
  have hended : s'.ended = s.ended := congrArg Scene.ended hscene
  have hrelisted : s'.relisted = s.noteListing task reply := congrArg Scene.relisted hscene
  refine ⟨run_concat h hstep, hregistry ▸ h.settled.complete htask hsafe, ?_, ?_, ?_, ?_⟩
  · -- a backend whose last probe failed gets nothing, from its own listing or from another's
    rw [hended, hregistry]
    intro n e he hbad key orig hroute
    by_cases hsvr : n = task.svr
    · subst hsvr
      rw [(complete_tables rcfg s.registry task reply).1,
        enrollAll_fst_of_not_lands ((hintime e he).1 hbad.1 hbad.2)] at hroute
      exact h.hidden _ e he hbad key orig hroute
    · exact h.hidden n e he hbad key orig (RegistryState.route_of_complete hsvr hroute)
  · rw [hended, hrelisted]
    intro n listed' hlisted'
    obtain ⟨listed, hlisted, -⟩ := System.noteListing_cases hlisted'
    exact h.known n listed hlisted
  · rw [hended, hrelisted]
    intro n listed' e hlisted' he hgood capType
    exact h.progress_relist htask hintime hscene hlisted' he hgood capType
  · rw [hrelisted]
    intro n listed' capType raws hlisted' hraws
    exact h.noted_relist hstep hregistry hlisted' hraws

end Relist

theorem Inv.step (h : Inv cfg rcfg s₀ hist s) (hok : Orderly cfg rcfg s ev)
    (hstep : Health.step cfg rcfg s ev = some s') : Inv cfg rcfg s₀ (hist ++ [ev]) s' := by
  rcases step_cases hstep with hscene | ⟨name, clock, rfl, hscene⟩ |
    ⟨name, clock, probe, check, health, rfl, hcheck, hhealth, hend⟩ | ⟨name, rfl, -, hscene⟩ |
    ⟨task, reply, rfl, htask, hscene⟩
  · have hended : s'.ended = s.ended := congrArg Scene.ended hscene
    have hrestoring : s'.restoring = s.restoring := congrArg Scene.restoring hscene
    refine h.of_ended hstep (congrArg Scene.registry hscene) ?_ (congrArg Scene.relisted hscene)
      ?_ ?_ ?_
    · rw [hrestoring]
      exact fun n hn ↦ hn
    · rw [hended]
      exact fun n he ↦ he
    · rw [hended]
      exact fun n e he _ ↦ he
    · rw [hended]
      exact fun n listed e _ he hgood ↦ Or.inl ⟨e, he, hgood⟩
  · refine h.conclude hstep hscene (fun n hn ↦ hn) (fun hbad ↦ ?_) fun hgood ↦ absurd rfl hgood
    exact absurd hbad.2 (by simp)
  · rcases hend with ⟨-, hscene⟩ | ⟨hgood, -, -, hscene⟩ | ⟨hgood, hedge, hscene⟩
    · exact h.hide hstep hscene
    · refine h.conclude hstep hscene (fun n hn ↦ List.mem_append_left _ hn)
        (fun hbad ↦ hgood hbad.1) fun _ _ ↦ Or.inr ?_
      exact List.mem_append_right _ (List.mem_singleton_self name)
    · refine h.conclude hstep hscene (fun n hn ↦ hn) (fun hbad ↦ hgood hbad.1) fun _ hhidden ↦ ?_
      obtain ⟨listed, hlisted⟩ := Option.isSome_iff_exists.mp hhidden
      obtain ⟨e, he⟩ := h.known name listed hlisted
      refine Or.inl ⟨e, he, fun hbad ↦ hedge ?_⟩
      exact hok check hcheck health hhealth e he hgood hhidden hbad
  · exact h.restore hstep hscene
  · exact h.relist hstep htask hok.1 hok.2 hscene

end Invariant

/-- **The registry follows the checks.** After a safe start, in every run whose steps are orderly,
whenever no check and no re-discovery is pending: a backend whose last probe failed has nothing in
the registry, and one that was hidden and is well again, with a session, is shown. -/
theorem visible_of_orderly_run {cfg : CheckerConfig T} {rcfg : RegistryConfig}
    {start : List Step} {registry : RegistryState} {tr : List (Event T)} {s : System T}
    (hsafe : Run.Guarded (registryStep rcfg) (SafeStep rcfg) RegistryState.init start)
    (hstart : registryRun rcfg RegistryState.init start = some registry)
    (hidle : registry.Quiescent)
    (horderly : Run.Guarded (step cfg rcfg) (Orderly cfg rcfg) (.init registry) tr)
    (hrun : Run.run (step cfg rcfg) (.init registry) tr = some s) (hquiet : s.Quiescent) :
    Visible cfg rcfg (.init registry) Ended.ProbeFailed tr s := by
  have hinv : Inv cfg rcfg (.init registry) ([] ++ tr) s :=
    Run.guarded_history_invariant_of_run (fun _ _ _ _ h hok hstep ↦ h.step hok hstep)
      (Inv.init (RegistryState.Settled.of_run hsafe hstart hidle)) horderly hrun
  rw [List.nil_append] at hinv
  have hconsistent := hinv.settled.consistent
  refine ⟨fun name e he hbad ↦ ⟨hinv.hidden name e he hbad, fun capType entry hmem hsupplier ↦ ?_⟩,
    fun name listed e hlisted he hstate _ capType ↦ ?_⟩
  · have hroute := hconsistent.routed entry (mem_allEntries.mpr ⟨capType, hmem⟩)
    rw [hsupplier] at hroute
    exact hinv.hidden name e he hbad _ _ hroute
  · have hgood : e.state ≠ .unhealthy := by
      rcases hstate with hstate | hstate <;> rw [hstate] <;> simp
    have hsome : (listed capType).isSome = true := by
      refine (hinv.progress name listed e hlisted he hgood capType).resolve_right ?_
      rintro (hmem | ⟨task, hmem, -⟩)
      · rw [System.scene, hquiet.2.1] at hmem
        exact absurd hmem List.not_mem_nil
      · rw [System.scene, hquiet.2.2.1] at hmem
        exact absurd hmem List.not_mem_nil
    obtain ⟨raws, hraws⟩ := Option.isSome_iff_exists.mp hsome
    obtain ⟨first, task, listResult, post, htr, hsvr, hty, rfl, hoffs⟩ :=
      hinv.noted name listed capType raws hlisted hraws
    refine ⟨first, task, listResult, post, htr, hsvr, hty, hraws, fun off hoff ↦ ?_⟩
    refine (hoffs off hoff).imp_left ?_
    rintro ⟨orig, hroute⟩
    have hname : off.svr = name := svr_of_mem_offersOf hoff
    refine ⟨⟨orig, hname ▸ hroute⟩, ?_⟩
    obtain ⟨entry, hmem, hentry⟩ := hconsistent.exists_entry hroute
    obtain ⟨capType', hmem'⟩ := mem_allEntries.mp hmem
    refine ⟨capType', entry, hmem', hentry, ?_⟩
    have hrouted := hconsistent.routed entry hmem
    rw [hentry, hroute, Option.some.injEq, Prod.mk.injEq] at hrouted
    rw [hname]
    exact hrouted.1.symm

/-! ### One backend -/

/-- A backend with one tool is discovered. -/
def filesStart : List Step :=
  [.discoverAndRegister (Dict.ofList [("files", true)]),
    .complete ⟨"files", .tools, 1, .gather⟩ (namedReply .tools ["read"]),
    .complete ⟨"files", .resources, 1, .gather⟩ (namedReply .resources []),
    .complete ⟨"files", .prompts, 1, .gather⟩ (namedReply .prompts []),
    .publish 1]

def filesRegistry : RegistryState :=
  (registryRun .default RegistryState.init filesStart).getD RegistryState.init

theorem registryRun_filesStart :
    registryRun .default RegistryState.init filesStart = some filesRegistry :=
  Run.run_eq_some_getD (by decide) _

/-- It stops to answer, is hidden, answers again, and lists its tool again. -/
def hiddenAndShown : List (Event ℤ) :=
  recovery ++ [.restore "files",
    .relist ⟨"files", .tools, 2, .single⟩ (namedReply .tools ["read"]),
    .relist ⟨"files", .resources, 2, .single⟩ (namedReply .resources []),
    .relist ⟨"files", .prompts, 2, .single⟩ (namedReply .prompts [])]

/-- The system after a run over the registry with this backend. -/
def filesAfter (tr : List (Event ℤ)) : System ℤ :=
  (Run.run (step defaultConfig .default) (.init filesRegistry) tr).getD
    (.init filesRegistry)

theorem visible_hiddenAndShown : (filesAfter hiddenAndShown).Quiescent ∧
    Visible defaultConfig .default (.init filesRegistry) Ended.ProbeFailed hiddenAndShown
      (filesAfter hiddenAndShown) :=
  ⟨by decide, visible_of_orderly_run (by decide) registryRun_filesStart (by decide) (by decide)
    (Run.run_eq_some_getD (by decide) _) (by decide)⟩

/-- It is connected and disconnected again, and then checked. -/
def noSession : List (Event ℤ) :=
  [.connecting "files" "stdio", .connected "files", .disconnected "files",
    .beginCheck "files" fun _ ↦ 30]

/-- A check that finds no session ends badly and hides nothing. -/
theorem not_visible_noSession :
    ¬∀ (cfg : CheckerConfig ℤ) (rcfg : RegistryConfig) (start : List Step)
        (registry : RegistryState) (tr : List (Event ℤ)) (s : System ℤ),
      registryRun rcfg RegistryState.init start = some registry → registry.Quiescent →
        Run.run (step cfg rcfg) (.init registry) tr = some s → s.Quiescent →
        Visible cfg rcfg (.init registry) Ended.Bad tr s := by
  intro h
  have hvisible := h defaultConfig .default filesStart filesRegistry noSession
    (filesAfter noSession) registryRun_filesStart (by decide) (Run.run_eq_some_getD (by decide) _)
    (by decide)
  have hhidden := hvisible.hidden "files" ⟨.unhealthy, false⟩ (by decide) rfl
  exact hhidden.1 "read" "read" (by decide)

end Health

end ArgusMcp
