import ArgusMcp.Argusd.Server

/-!
# What argusd keeps to itself

Two states of the world agree if they have the same containers, pods and deployments with the label,
and the same events about them. A request is `Scoped` if such states give the same response, up to
error texts that repeat what was asked for, and if it leaves everything without the label as it is.

The second half holds of all requests (`untouched_serve`). The first one is a matter of what a
handler looks at. Four routes read the log, the statistics or the events of anything. They are
scoped only as far as there is nothing to read. The others look at the label of what they are given;
but what Docker gives them for a reference may depend on containers without the label. The beginning
of an id finds a container only as long as no other id begins so. `scoped_iff` says that nothing
else goes wrong.
-/

namespace ArgusMcp

namespace Argusd

variable {δ ρ τ σ : Type}

/-! ## Responses up to what was asked for -/

def Payload.upToRef : Payload δ → Payload δ
  | .failure f => .failure f.upToRef
  | payload => payload

def Event.upToRef : Event τ σ → Event τ σ
  | .failure f => .failure f.upToRef
  | event => event

/-- A response without the texts that repeat what was asked for. -/
def Response.upToRef : Response δ τ σ → Response δ τ σ
  | .json status payload => .json status payload.upToRef
  | .stream events => .stream (events.map Event.upToRef)
  | response => response

/-- A failure that repeats what was asked for. -/
def Failure.ofRef : Failure := ⟨"", true⟩

/-- A result without the texts that repeat what was asked for. -/
def resultUpToRef {α : Type} (result : Except Failure α) : Except Failure α :=
  result.mapError Failure.upToRef

theorem upToRef_respond {α : Type} {n : ℕ} {payload : α → Payload δ} (result : Except Failure α)
    (hpayload : ∀ a, (payload a).upToRef = payload a) :
    (respond n payload result : Response δ τ σ).upToRef =
      respond n payload (resultUpToRef result) := by
  cases result with
  | error f => rfl
  | ok a => exact congrArg (Response.json 200) (hpayload a)

theorem upToRef_streamed {α : Type} {event : α → Event τ σ} (result : List α × Option Failure)
    (hevent : ∀ a, (event a).upToRef = event a) :
    (streamed event result : Response δ τ σ).upToRef =
      streamed event (result.1, result.2.map Failure.upToRef) := by
  have hevents : (result.1.map event).map Event.upToRef = result.1.map event := by
    rw [List.map_map]
    exact List.map_congr_left fun a _ ↦ hevent a
  rw [streamed, Response.upToRef, List.map_append, hevents]
  cases result.2 with
  | none => rfl
  | some f => rfl

/-! ## Worlds that agree -/

/-- The container with the label that is found under a reference. -/
def managedAt (E : Engine δ ρ) (cs : Dict String (Container δ)) (ref : String) :
    Option (String × Container δ) :=
  match E.inspect cs ref with
  | .error _ => none
  | .ok found => if found.2.isManaged then some found else none

/-- The object of an event has the label. -/
def World.concerns (w : World δ) (e : PodEvent) : Bool :=
  match e.involvedKind with
  | "Pod" => (w.pods.get? (e.nameSpace, e.involvedName)).any Pod.isManaged
  | "Deployment" => (w.deployments.get? (e.nameSpace, e.involvedName)).any Deployment.isManaged
  | _ => false

structure Agree (w w' : World δ) : Prop where
  containers : (w.containers.filter fun _ c ↦ c.isManaged) =
    w'.containers.filter fun _ c ↦ c.isManaged
  containerEvents : (w.containerEvents.filter fun e ↦ isManaged e.attributes) =
    w'.containerEvents.filter fun e ↦ isManaged e.attributes
  pods : (w.pods.filter fun _ p ↦ p.isManaged) = w'.pods.filter fun _ p ↦ p.isManaged
  deployments : (w.deployments.filter fun _ d ↦ d.isManaged) =
    w'.deployments.filter fun _ d ↦ d.isManaged
  podEvents : w.podEvents.filter w.concerns = w'.podEvents.filter w'.concerns

/-- What has no label is as before. -/
structure Untouched (w w' : World δ) : Prop where
  containers : ∀ id c, w.containers.get? id = some c → c.isManaged = false →
    w'.containers.get? id = some c
  pods : ∀ key p, w.pods.get? key = some p → p.isManaged = false → w'.pods.get? key = some p
  deployments : ∀ key d, w.deployments.get? key = some d → d.isManaged = false →
    w'.deployments.get? key = some d

theorem Untouched.refl (w : World δ) : Untouched w w :=
  ⟨fun _ _ h _ ↦ h, fun _ _ h _ ↦ h, fun _ _ h _ ↦ h⟩

/-- A request sees nothing of what has no label, and does nothing to it. -/
def Scoped (H : Handler δ ρ τ σ) (clock : Clock) (r : Request) : Prop :=
  (∀ w w', Agree w w' → (serve H clock r w).1.upToRef = (serve H clock r w').1.upToRef) ∧
    ∀ w, Untouched w (serve H clock r w).2

/-! ## Containers -/

section Containers

variable {E : Engine δ ρ} {cs : Dict String (Container δ)} {ref : String}

theorem get?_of_inspect {found : String × Container δ} (h : E.inspect cs ref = .ok found) :
    E.resolve cs ref = some found.1 ∧ cs.get? found.1 = some found.2 := by
  rw [Engine.inspect] at h
  split at h
  · exact absurd h (by simp)
  · rename_i found' heq
    obtain rfl := Except.ok.inj h
    obtain ⟨id, hid, hmap⟩ := Option.bind_eq_some_iff.mp heq
    obtain ⟨c, hc, rfl⟩ := Option.map_eq_some_iff.mp hmap
    exact ⟨hid, hc⟩

theorem resultUpToRef_inspectContainer :
    resultUpToRef (inspectContainer E cs ref) =
      match managedAt E cs ref with
      | none => .error .ofRef
      | some found => .ok found := by
  rw [inspectContainer, managedAt]
  cases E.inspect cs ref with
  | error e => rfl
  | ok found =>
    dsimp only
    by_cases h : found.2.isManaged = true
    · rw [if_pos h, if_pos h]
      rfl
    · rw [if_neg h, if_neg h]
      rfl

theorem control_cases (a : Action) :
    (managedAt E cs ref = none ∧ ∃ f, f.upToRef = .ofRef ∧ control E a cs ref = (.error f, cs)) ∨
      ∃ found, managedAt E cs ref = some found ∧ cs.get? found.1 = some found.2 ∧
        found.2.isManaged = true ∧ control E a cs ref =
          match E.act a found.2 with
          | .error e => (.error (.plain e), cs)
          | .ok none => (.ok (), cs.del found.1)
          | .ok (some c) => (.ok (), cs.set found.1 c) := by
  rw [control, verifyManaged, managedAt]
  cases hinspect : E.inspect cs ref with
  | error e => exact Or.inl ⟨rfl, _, rfl, rfl⟩
  | ok found =>
    dsimp only
    by_cases h : found.2.isManaged = true
    · rw [if_pos h, if_pos h]
      refine Or.inr ⟨found, rfl, (get?_of_inspect hinspect).2, h, ?_⟩
      rw [Engine.run, hinspect]
      dsimp only
      cases E.act a found.2 with
      | error e => rfl
      | ok left => cases left <;> rfl
    · rw [if_neg h, if_neg h]
      exact Or.inl ⟨rfl, _, rfl, rfl⟩

theorem resultUpToRef_control (a : Action) :
    resultUpToRef (control E a cs ref).1 =
      match managedAt E cs ref with
      | none => .error .ofRef
      | some found => ((E.act a found.2).map fun _ ↦ ()).mapError .plain := by
  obtain ⟨hnone, f, hf, hcontrol⟩ | ⟨found, hsome, -, -, hcontrol⟩ := control_cases a
  · rw [hnone, hcontrol]
    exact congrArg Except.error hf
  · rw [hsome, hcontrol]
    dsimp only
    cases E.act a found.2 with
    | error e => rfl
    | ok left => cases left <;> rfl

theorem get?_control (a : Action) {id : String} {c : Container δ} (h : cs.get? id = some c)
    (hc : c.isManaged = false) : (control E a cs ref).2.get? id = some c := by
  obtain ⟨-, f, -, hcontrol⟩ | ⟨found, -, hfound, hmanaged, hcontrol⟩ := control_cases a
  · rw [hcontrol]
    exact h
  · have hne : id ≠ found.1 := by
      rintro rfl
      obtain rfl := Option.some.inj (h.symm.trans hfound)
      exact absurd hmanaged (ne_true_of_eq_false hc)
    rw [hcontrol]
    cases E.act a found.2 with
    | error e => exact h
    | ok left =>
      cases left with
      | none =>
        dsimp only
        rw [Dict.get?_del, if_neg hne]
        exact h
      | some c' =>
        dsimp only
        rw [Dict.get?_set_of_ne _ _ hne]
        exact h

end Containers

/-! ## Pods and deployments -/

section Kubernetes

variable {A : Api δ} {clock : Clock} {key : Key}

theorem resultUpToRef_getPod (pods : Dict Key (Pod δ)) :
    resultUpToRef (getPod A pods key) =
      match (pods.filter fun _ p ↦ p.isManaged).get? key with
      | none => .error .ofRef
      | some pod => .ok pod := by
  rw [getPod, Dict.get?_filter]
  cases pods.get? key with
  | none => rfl
  | some pod =>
    dsimp only
    by_cases h : pod.isManaged = true
    · rw [if_pos h, Option.filter_some, if_pos h]
      rfl
    · rw [if_neg h, Option.filter_some, if_neg h]
      rfl

theorem resultUpToRef_describePod (pods : Dict Key (Pod δ)) :
    resultUpToRef (describePod A clock pods key) =
      (resultUpToRef (getPod A pods key)).map (podToInfo clock key) := by
  rw [describePod]
  cases getPod A pods key <;> rfl

theorem resultUpToRef_deletePod (pods : Dict Key (Pod δ)) :
    resultUpToRef (deletePod A pods key).1 =
      match resultUpToRef (getPod A pods key) with
      | .error f => .error f
      | .ok pod => ((A.delete pod).map fun _ ↦ ()).mapError .plain := by
  rw [deletePod]
  cases getPod A pods key with
  | error f => rfl
  | ok pod =>
    dsimp only
    cases hdelete : A.delete pod with
    | error e => simp [resultUpToRef, Except.mapError, Except.map, hdelete]
    | ok left => cases left <;> simp [resultUpToRef, Except.mapError, Except.map, hdelete]

theorem get?_deletePod {pods : Dict Key (Pod δ)} {key' : Key} {p : Pod δ}
    (h : pods.get? key' = some p) (hp : p.isManaged = false) :
    (deletePod A pods key).2.get? key' = some p := by
  rw [deletePod]
  cases hget : getPod A pods key with
  | error f => exact h
  | ok pod =>
    have hne : key' ≠ key := by
      rintro rfl
      rw [getPod, h] at hget
      dsimp only at hget
      rw [if_neg (ne_true_of_eq_false hp)] at hget
      exact absurd hget (by simp)
    dsimp only
    cases A.delete pod with
    | error e => exact h
    | ok left =>
      cases left with
      | none =>
        dsimp only
        rw [Dict.get?_del, if_neg hne]
        exact h
      | some left =>
        dsimp only
        rw [Dict.get?_set_of_ne _ _ hne]
        exact h

theorem resultUpToRef_rolloutRestart (deployments : Dict Key (Deployment δ)) :
    resultUpToRef ((rolloutRestart A clock deployments key).1.mapError (rolloutFailure key)) =
      match (deployments.filter fun _ d ↦ d.isManaged).get? key with
      | none => .error .ofRef
      | some d =>
        ((A.update { d with annotations := d.annotations.set "argus.restart-at" clock.stamp }).map
          fun _ ↦ ()).mapError fun _ ↦ .ofRef := by
  rw [rolloutRestart, Dict.get?_filter]
  cases deployments.get? key with
  | none => rfl
  | some d =>
    dsimp only
    by_cases h : d.isManaged = true
    · rw [if_pos h, Option.filter_some, if_pos h]
      dsimp only
      cases A.update { d with annotations := d.annotations.set "argus.restart-at" clock.stamp } with
      | error e => rfl
      | ok stored => rfl
    · rw [if_neg h, Option.filter_some, if_neg h]
      rfl

theorem get?_rolloutRestart {deployments : Dict Key (Deployment δ)} {key' : Key}
    {d : Deployment δ} (h : deployments.get? key' = some d) (hd : d.isManaged = false) :
    (rolloutRestart A clock deployments key).2.get? key' = some d := by
  rw [rolloutRestart]
  cases hget : deployments.get? key with
  | none => exact h
  | some d' =>
    dsimp only
    by_cases hmanaged : d'.isManaged = true
    · have hne : key' ≠ key := by
        rintro rfl
        obtain rfl := Option.some.inj (h.symm.trans hget)
        exact absurd hmanaged (ne_true_of_eq_false hd)
      rw [if_pos hmanaged]
      cases A.update { d' with annotations := d'.annotations.set "argus.restart-at" clock.stamp } with
      | error e => exact h
      | ok stored =>
        dsimp only
        rw [Dict.get?_set_of_ne _ _ hne]
        exact h
    · rw [if_neg hmanaged]
      exact h

end Kubernetes

/-! ## Nothing else is touched -/

section Requests

variable {H : Handler δ ρ τ σ} {clock : Clock} {r : Request}

theorem untouched_controlled (w : World δ) (answer : String) (a : Action) (id : String) :
    Untouched w (controlled w answer (control H.docker a w.containers id) :
      Response δ τ σ × World δ).2 :=
  ⟨fun _ _ h hc ↦ get?_control a h hc, fun _ _ h _ ↦ h, fun _ _ h _ ↦ h⟩

theorem untouched_serve (w : World δ) : Untouched w (serve H clock r w).2 := by
  rw [serve]
  cases route H.k8s r.method r.path with
  | startContainer id => exact untouched_controlled w "started" .start id
  | stopContainer id => exact untouched_controlled w "stopped" (.stop 10) id
  | restartContainer id => exact untouched_controlled w "restarted" (.restart 10) id
  | removeContainer id => exact untouched_controlled w "removed" (.remove true) id
  | deletePod key => exact ⟨fun _ _ h _ ↦ h, fun _ _ h hp ↦ get?_deletePod h hp, fun _ _ h _ ↦ h⟩
  | rolloutRestart key =>
    exact ⟨fun _ _ h _ ↦ h, fun _ _ h _ ↦ h, fun _ _ h hd ↦ get?_rolloutRestart h hd⟩
  | _ => exact Untouched.refl w

/-! ## What responses depend on -/

/-- A container without the label is found, when there are no others. -/
def findsAlone (H : Handler δ ρ τ σ) (ref id : String) (c : Container δ) : Prop :=
  c.isManaged = false ∧ H.docker.resolve (.single id c) ref = some id

def managedOnly (cs : Dict String (Container δ)) : Dict String (Container δ) :=
  cs.filter fun _ c ↦ c.isManaged

/-- Whatever containers there are, those without the label do not keep Docker from finding what the
reference finds among the others, as far as it matters. -/
def Unhidden (H : Handler δ ρ τ σ) (ref : String) (matters : Container δ → Prop) : Prop :=
  ∀ cs id c, H.docker.resolve (managedOnly cs) ref = some id → (managedOnly cs).get? id = some c →
    matters c → H.docker.resolve cs ref = some id

/-- There is nothing to be read of a container without the label, and what there is to be read of
the others is not hidden. -/
structure ReadsOwn {α : Type} (H : Handler δ ρ τ σ) (ref : String)
    (read : Container δ → Except String α) : Prop where
  foreign : ∀ id c, findsAlone H ref id c → ∃ e, read c = .error e
  unhidden : Unhidden H ref fun c ↦ ∃ a, read c = .ok a

/-- **What keeps argusd in its scope**: a reference finds what it finds without the containers that
have no label, and where nobody looks at the label, there is nothing to read of what has none. -/
def Silent (H : Handler δ ρ τ σ) (r : Request) : Route → Prop
  | .inspectContainer ref => Unhidden H ref fun _ ↦ True
  | .startContainer ref => Unhidden H ref fun _ ↦ True
  | .stopContainer ref => Unhidden H ref fun _ ↦ True
  | .restartContainer ref => Unhidden H ref fun _ ↦ True
  | .removeContainer ref => Unhidden H ref fun _ ↦ True
  | .containerLogs ref => ReadsOwn H ref fun c ↦
      H.docker.logs c (logsOptions true (r.queryValue "since") (r.queryValue "tail"))
  | .containerStats ref => ReadsOwn H ref H.docker.stats
  | .podLogs key => ∀ pod : Pod δ, pod.isManaged = false →
    ∃ e, H.api.logs key pod (podLogOptions H.parseDuration (r.queryValue "container") true
      (r.queryValue "since") (podLogTail r)) = .error e
  | .podEvents key => H.api.eventsError ≠ none ∨
    ∀ e : PodEvent, e.nameSpace = key.1 → H.api.selects ("involvedObject.name=" ++ key.2) e = false
  | _ => True

def forgetError {α : Type} (result : Except String α) : Except Unit α := result.mapError fun _ ↦ ()

/-- Docker finds a container by a reference also when some of the others are gone. -/
def FindsAmongFewer (E : Engine δ ρ) : Prop :=
  ∀ cs cs' ref id c, E.resolve cs ref = some id → cs.get? id = some c → cs'.get? id = some c →
    (∀ k v, cs'.get? k = some v → cs.get? k = some v) → E.resolve cs' ref = some id

section References

variable {cs : Dict String (Container δ)} {ref : String}

theorem inspect_of_get? {id : String} {c : Container δ}
    (hresolve : H.docker.resolve cs ref = some id) (hget : cs.get? id = some c) :
    H.docker.inspect cs ref = .ok (id, c) := by
  rw [Engine.inspect, hresolve, Option.bind_some, hget]
  rfl

theorem get?_managedOnly {id : String} {c : Container δ} :
    (managedOnly cs).get? id = some c ↔ cs.get? id = some c ∧ c.isManaged = true := by
  rw [managedOnly, Dict.get?_filter, Option.filter_eq_some_iff]

theorem managedOnly_managedOnly (cs : Dict String (Container δ)) :
    managedOnly (managedOnly cs) = managedOnly cs :=
  Dict.filter_filter_self cs _

theorem inspect_managedOnly (hE : FindsAmongFewer H.docker) {found : String × Container δ}
    (hinspect : H.docker.inspect cs ref = .ok found) (hmanaged : found.2.isManaged = true) :
    H.docker.inspect (managedOnly cs) ref = .ok found := by
  obtain ⟨hresolve, hget⟩ := get?_of_inspect hinspect
  have hget' := get?_managedOnly.mpr ⟨hget, hmanaged⟩
  exact inspect_of_get? (hE cs (managedOnly cs) ref found.1 found.2 hresolve hget hget'
    fun _ _ h ↦ (get?_managedOnly.mp h).1) hget'

/-- If nothing is hidden, a reference finds the same container with the label as without the
others. -/
theorem managedAt_managedOnly (hE : FindsAmongFewer H.docker)
    (hunhidden : Unhidden H ref fun _ ↦ True) (cs : Dict String (Container δ)) :
    managedAt H.docker cs ref = managedAt H.docker (managedOnly cs) ref := by
  cases hmanaged : H.docker.inspect (managedOnly cs) ref with
  | ok found =>
    obtain ⟨hresolve, hget⟩ := get?_of_inspect hmanaged
    have hfound := inspect_of_get? (hunhidden cs found.1 found.2 hresolve hget trivial)
      (get?_managedOnly.mp hget).1
    rw [managedAt, managedAt, hmanaged, hfound]
  | error e =>
    rw [managedAt, managedAt, hmanaged]
    cases hinspect : H.docker.inspect cs ref with
    | error e' => rfl
    | ok found =>
      refine if_neg fun h ↦ ?_
      exact absurd (hmanaged.symm.trans (inspect_managedOnly hE hinspect h)) (by simp)

theorem managedAt_agree (hE : FindsAmongFewer H.docker) {w w' : World δ} (h : Agree w w')
    (hunhidden : Unhidden H ref fun _ ↦ True) :
    managedAt H.docker w.containers ref = managedAt H.docker w'.containers ref := by
  have hsame : managedOnly w.containers = managedOnly w'.containers := h.containers
  rw [managedAt_managedOnly hE hunhidden w.containers, hsame,
    ← managedAt_managedOnly hE hunhidden w'.containers]

theorem controlled_agree (hE : FindsAmongFewer H.docker) {w w' : World δ} (h : Agree w w')
    (answer : String) (a : Action) (hunhidden : Unhidden H ref fun _ ↦ True) :
    (controlled w answer (control H.docker a w.containers ref) :
        Response δ τ σ × World δ).1.upToRef =
      (controlled w' answer (control H.docker a w'.containers ref) :
        Response δ τ σ × World δ).1.upToRef := by
  dsimp only [controlled]
  rw [upToRef_respond _ fun _ ↦ rfl, upToRef_respond _ fun _ ↦ rfl, resultUpToRef_control,
    resultUpToRef_control, managedAt_agree hE h hunhidden]

theorem forgetError_read {α : Type} {read : Container δ → Except String α}
    (hE : FindsAmongFewer H.docker) (hsilent : ReadsOwn H ref read)
    (cs : Dict String (Container δ)) :
    forgetError ((H.docker.inspect cs ref).bind fun found ↦ read found.2) =
      forgetError ((H.docker.inspect (managedOnly cs) ref).bind fun found ↦ read found.2) := by
  -- a container without the label that is found gives nothing
  have hforeign : ∀ found, H.docker.inspect cs ref = .ok found → found.2.isManaged = false →
      ∃ e, read found.2 = .error e := by
    intro found hinspect hmanaged
    obtain ⟨hresolve, hget⟩ := get?_of_inspect hinspect
    refine hsilent.foreign found.1 found.2 ⟨hmanaged, ?_⟩
    refine hE cs _ ref found.1 found.2 hresolve hget (Dict.get?_single _ _) fun k v h ↦ ?_
    obtain ⟨rfl, rfl⟩ := Dict.eq_of_get?_single h
    exact hget
  -- without something to read among the others there is nothing
  have hnothing : (∀ found, H.docker.inspect (managedOnly cs) ref = .ok found →
      ∃ e, read found.2 = .error e) →
      forgetError ((H.docker.inspect cs ref).bind fun found ↦ read found.2) = .error () := by
    intro hnone
    cases hinspect : H.docker.inspect cs ref with
    | error e => rfl
    | ok found =>
      have hread : ∃ e, read found.2 = .error e := by
        by_cases hmanaged : found.2.isManaged = true
        · exact hnone found (inspect_managedOnly hE hinspect hmanaged)
        · exact hforeign found hinspect (eq_false_of_ne_true hmanaged)
      obtain ⟨e, he⟩ := hread
      dsimp only [Except.bind]
      rw [he]
      rfl
  cases hmanaged : H.docker.inspect (managedOnly cs) ref with
  | error e => exact hnothing fun found h ↦ absurd (hmanaged.symm.trans h) (by simp)
  | ok found =>
    cases hread : read found.2 with
    | ok a =>
      obtain ⟨hresolve, hget⟩ := get?_of_inspect hmanaged
      rw [inspect_of_get? (hsilent.unhidden cs found.1 found.2 hresolve hget ⟨a, hread⟩)
        (get?_managedOnly.mp hget).1]
    | error e =>
      have herror : forgetError ((Except.ok found).bind fun found ↦ read found.2) = .error () := by
        dsimp only [Except.bind]
        rw [hread]
        rfl
      rw [herror]
      refine hnothing fun found' h ↦ ⟨e, ?_⟩
      obtain rfl := Except.ok.inj (hmanaged.symm.trans h)
      exact hread

theorem forgetError_read_agree {α : Type} {read : Container δ → Except String α}
    (hE : FindsAmongFewer H.docker) {w w' : World δ} (h : Agree w w')
    (hsilent : ReadsOwn H ref read) :
    forgetError ((H.docker.inspect w.containers ref).bind fun found ↦ read found.2) =
      forgetError ((H.docker.inspect w'.containers ref).bind fun found ↦ read found.2) := by
  have hsame : managedOnly w.containers = managedOnly w'.containers := h.containers
  rw [forgetError_read hE hsilent w.containers, hsame, ← forgetError_read hE hsilent w'.containers]

theorem managedAt_of_hidden (hE : FindsAmongFewer H.docker) {id : String} {c : Container δ}
    (hresolve : H.docker.resolve (managedOnly cs) ref = some id)
    (hget : (managedOnly cs).get? id = some c) (hhidden : H.docker.resolve cs ref ≠ some id) :
    managedAt H.docker cs ref = none ∧
      managedAt H.docker (managedOnly cs) ref = some (id, c) := by
  have hmanaged := inspect_of_get? hresolve hget
  refine ⟨?_, ?_⟩
  · rw [managedAt]
    cases hinspect : H.docker.inspect cs ref with
    | error e => rfl
    | ok found =>
      refine if_neg fun h ↦ hhidden ?_
      obtain rfl := Except.ok.inj (hmanaged.symm.trans (inspect_managedOnly hE hinspect h))
      exact (get?_of_inspect hinspect).1
  · rw [managedAt, hmanaged]
    exact if_pos (get?_managedOnly.mp hget).2

end References

theorem streamed_readOut_congr {α β : Type} {what ref : String} {event : α → Event τ σ}
    {reading : β → List α × Option Failure} {result result' : Except String β}
    (hevent : ∀ a, (event a).upToRef = event a) (h : forgetError result = forgetError result') :
    (streamed event (readOut what ref reading result) : Response δ τ σ).upToRef =
      (streamed event (readOut what ref reading result') : Response δ τ σ).upToRef := by
  rw [upToRef_streamed _ hevent, upToRef_streamed _ hevent]
  cases result with
  | error e =>
    cases result' with
    | error e' => rfl
    | ok b' => exact absurd h (by simp [forgetError, Except.mapError])
  | ok b =>
    cases result' with
    | error e' => exact absurd h (by simp [forgetError, Except.mapError])
    | ok b' =>
      obtain rfl := Except.ok.inj h
      rfl

theorem listContainers_agree {w w' : World δ} (h : Agree w w') :
    listContainers H.docker w.containers = listContainers H.docker w'.containers := by
  rw [listContainers, listContainers, h.containers]

theorem streamEvents_agree {w w' : World δ} (h : Agree w w') :
    streamEvents H.docker w.containerEvents = streamEvents H.docker w'.containerEvents := by
  have hselected (events : List DaemonEvent) : events.filter DaemonEvent.selected =
      (events.filter fun e ↦ isManaged e.attributes).filter fun e ↦ e.type = "container" := by
    rw [List.filter_filter]
    refine List.filter_congr fun e _ ↦ ?_
    rw [DaemonEvent.selected, Bool.and_comm]
  rw [streamEvents, streamEvents, hselected, hselected, h.containerEvents]

theorem listPods_agree {w w' : World δ} (h : Agree w w') :
    listPods H.api clock w.pods = listPods H.api clock w'.pods := by
  rw [listPods, listPods, h.pods]

theorem getPod_agree {w w' : World δ} (h : Agree w w') (key : Key) :
    resultUpToRef (getPod H.api w.pods key) = resultUpToRef (getPod H.api w'.pods key) := by
  rw [resultUpToRef_getPod, resultUpToRef_getPod, h.pods]

theorem forgetError_stream {key : Key} {opts : PodLogOptions}
    (hsilent : ∀ pod : Pod δ, pod.isManaged = false → ∃ e, H.api.logs key pod opts = .error e)
    (pods : Dict Key (Pod δ)) :
    forgetError (H.api.stream pods key opts) =
      match (pods.filter fun _ p ↦ p.isManaged).get? key with
      | none => .error ()
      | some pod => forgetError (H.api.logs key pod opts) := by
  rw [Api.stream, Dict.get?_filter]
  cases pods.get? key with
  | none => rfl
  | some pod =>
    rw [Option.filter_some]
    dsimp only
    by_cases h : pod.isManaged = true
    · rw [if_pos h]
    · obtain ⟨e, he⟩ := hsilent pod (eq_false_of_ne_true h)
      rw [if_neg h, he]
      rfl

theorem podEvents_of_none {key : Key} (h : H.api.eventsError = none) (events : List PodEvent) :
    podEvents H.api events key = .ok ((events.filter fun e ↦
        e.nameSpace = key.1 && H.api.selects ("involvedObject.name=" ++ key.2) e).map fun e ↦
      ⟨e.type, e.reason, e.message, e.count, e.firstTimestamp, e.lastTimestamp, e.component⟩) := by
  rw [podEvents, h]

theorem podEvents_agree {w w' : World δ} {key : Key} (hsilent : Silent H r (.podEvents key)) :
    podEvents H.api w.podEvents key = podEvents H.api w'.podEvents key := by
  cases herror : H.api.eventsError with
  | some e => rw [podEvents, podEvents, herror]
  | none =>
    have hnone (events : List PodEvent) : events.filter (fun e ↦ e.nameSpace = key.1 &&
        H.api.selects ("involvedObject.name=" ++ key.2) e) = [] := by
      rw [List.filter_eq_nil_iff]
      intro e _ h
      obtain ⟨hspace, hselects⟩ := Bool.and_eq_true_iff.mp h
      rcases hsilent with hfails | hsilent
      · exact hfails herror
      · exact absurd hselects (ne_true_of_eq_false (hsilent e (of_decide_eq_true hspace)))
    rw [podEvents_of_none herror, podEvents_of_none herror, hnone, hnone]

theorem serve_agree (hE : FindsAmongFewer H.docker)
    (hsilent : Silent H r (route H.k8s r.method r.path)) {w w' : World δ}
    (h : Agree w w') :
    (serve H clock r w).1.upToRef = (serve H clock r w').1.upToRef := by
  rw [serve, serve]
  cases hroute : route H.k8s r.method r.path with
  | health => rfl
  | notFound => rfl
  | methodNotAllowed => rfl
  | listContainers => rw [handle, handle, listContainers_agree h]
  | inspectContainer id =>
    dsimp only [handle]
    rw [hroute] at hsilent
    rw [upToRef_respond _ fun _ ↦ rfl, upToRef_respond _ fun _ ↦ rfl,
      resultUpToRef_inspectContainer, resultUpToRef_inspectContainer, managedAt_agree hE h hsilent]
  | startContainer id =>
    rw [hroute] at hsilent
    exact controlled_agree hE h "started" .start hsilent
  | stopContainer id =>
    rw [hroute] at hsilent
    exact controlled_agree hE h "stopped" (.stop 10) hsilent
  | restartContainer id =>
    rw [hroute] at hsilent
    exact controlled_agree hE h "restarted" (.restart 10) hsilent
  | removeContainer id =>
    rw [hroute] at hsilent
    exact controlled_agree hE h "removed" (.remove true) hsilent
  | containerLogs id =>
    rw [hroute] at hsilent
    have hevent : ∀ a, (Event.log a : Event τ σ).upToRef = .log a := fun _ ↦ rfl
    refine streamed_readOut_congr hevent ?_
    exact forgetError_read_agree hE h hsilent
  | containerStats id =>
    rw [hroute] at hsilent
    have hevent : ∀ a, (Event.stats a : Event τ σ).upToRef = .stats a := fun _ ↦ rfl
    refine streamed_readOut_congr hevent ?_
    exact forgetError_read_agree hE h hsilent
  | dockerEvents => rw [handle, handle, streamEvents_agree h]
  | listPods => rw [handle, handle, listPods_agree h]
  | describePod key =>
    dsimp only [handle]
    rw [upToRef_respond _ fun _ ↦ rfl, upToRef_respond _ fun _ ↦ rfl, resultUpToRef_describePod,
      resultUpToRef_describePod, getPod_agree h]
  | deletePod key =>
    dsimp only [handle]
    rw [upToRef_respond _ fun _ ↦ rfl, upToRef_respond _ fun _ ↦ rfl, resultUpToRef_deletePod,
      resultUpToRef_deletePod, getPod_agree h]
  | podLogs key =>
    rw [hroute] at hsilent
    have hevent : ∀ a, (Event.podLog a : Event τ σ).upToRef = .podLog a := fun _ ↦ rfl
    refine streamed_readOut_congr hevent ?_
    rw [forgetError_stream hsilent, forgetError_stream hsilent, h.pods]
  | podEvents key =>
    rw [hroute] at hsilent
    rw [handle, handle, podEvents_agree hsilent]
  | rolloutRestart key =>
    dsimp only [handle]
    rw [upToRef_respond _ fun _ ↦ rfl, upToRef_respond _ fun _ ↦ rfl,
      resultUpToRef_rolloutRestart, resultUpToRef_rolloutRestart, h.deployments]

/-! ## What is read without the label -/

/-- Nothing at all. -/
def World.empty : World δ := ⟨.empty, [], .empty, .empty, []⟩

theorem agree_managedOnly (cs : Dict String (Container δ)) :
    Agree { World.empty with containers := cs } { World.empty with containers := managedOnly cs }
    where
  containers := (managedOnly_managedOnly cs).symm
  containerEvents := rfl
  pods := rfl
  deployments := rfl
  podEvents := rfl

theorem agree_container {id : String} {c : Container δ} (hc : c.isManaged = false) :
    Agree { World.empty with containers := .single id c } World.empty where
  containers := Dict.filter_single_of_neg hc
  containerEvents := rfl
  pods := rfl
  deployments := rfl
  podEvents := rfl

theorem agree_pod {key : Key} {pod : Pod δ} (hpod : pod.isManaged = false) :
    Agree { World.empty with pods := .single key pod } World.empty where
  containers := rfl
  containerEvents := rfl
  pods := Dict.filter_single_of_neg hpod
  deployments := rfl
  podEvents := rfl

theorem agree_podEvent (e : PodEvent) :
    Agree ({ World.empty with podEvents := [e] } : World δ) World.empty where
  containers := rfl
  containerEvents := rfl
  pods := rfl
  deployments := rfl
  podEvents := by
    have hconcerns : ({ World.empty with podEvents := [e] } : World δ).concerns e = false := by
      rw [World.concerns]
      split
      · rfl
      · rfl
      · rfl
    exact List.filter_cons_of_neg (ne_true_of_eq_false hconcerns)

/-- The only error of a stream that repeats what was asked for is that there is none. -/
theorem upToRef_streamed_ne {α : Type} {event : α → Event τ σ} {result : List α × Option Failure}
    (hevent : ∀ a, (event a).upToRef = event a) (hne : ∀ a f, event a ≠ .failure f)
    (hplain : ∀ f ∈ result.2, f.namesRef = false) :
    (streamed event result : Response δ τ σ).upToRef ≠ .stream [.failure .ofRef] := by
  rw [upToRef_streamed result hevent, streamed]
  intro h
  have hevents := Response.stream.inj h
  cases hlist : result.1 with
  | nil =>
    rw [hlist] at hevents
    cases hfailure : result.2 with
    | none =>
      rw [hfailure] at hevents
      exact absurd hevents (List.cons_ne_nil _ _).symm
    | some f =>
      rw [hfailure] at hevents
      obtain hf := Event.failure.inj (List.cons.inj hevents).1
      have hf' : f.upToRef = f := if_neg (ne_true_of_eq_false (hplain f hfailure))
      have hnames : f.namesRef = true := by
        rw [← hf', hf]
        rfl
      exact absurd hnames (ne_true_of_eq_false (hplain f hfailure))
  | cons a l =>
    rw [hlist] at hevents
    exact hne a .ofRef (List.cons.inj hevents).1

theorem frames_plain {parseTime : List UInt8 → Option τ} {broken : Option String}
    {bytes : List UInt8} : ∀ f ∈ (frames parseTime broken bytes).2, f.namesRef = false := by
  fun_induction frames parseTime broken bytes with
  | case1 =>
    intro f hf
    obtain ⟨e, -, rfl⟩ := Option.map_eq_some_iff.mp hf
    rfl
  | case2 stream _ _ _ a b c d rest hshort =>
    intro f hf
    obtain rfl := Option.some.inj hf
    rfl
  | case3 stream _ _ _ a b c d rest hlong line later ih => exact ih
  | case4 =>
    intro f hf
    obtain rfl := Option.some.inj hf
    rfl

theorem inspect_empty (E : Engine δ ρ) (ref : String) :
    E.inspect .empty ref = .error (E.reason .empty ref) := by
  rw [Engine.inspect]
  cases E.resolve .empty ref with
  | none => rfl
  | some id => rfl

theorem inspect_single {E : Engine δ ρ} {ref id : String} {c : Container δ}
    (h : E.resolve (.single id c) ref = some id) : E.inspect (.single id c) ref = .ok (id, c) := by
  rw [Engine.inspect, h, Option.bind_some, Dict.get?_single]
  rfl

/-- Worlds of which one has something to read, and one has nothing, can be told apart. -/
theorem streamed_readOut_ne {α β : Type} {what ref : String} {event : α → Event τ σ}
    {reading : β → List α × Option Failure} {result result' : Except String β} {e : String} {b : β}
    (hevent : ∀ a, (event a).upToRef = event a) (hne : ∀ a f, event a ≠ .failure f)
    (hplain : ∀ f ∈ (reading b).2, f.namesRef = false) (h : result = .ok b)
    (h' : result' = .error e) :
    (streamed event (readOut what ref reading result) : Response δ τ σ).upToRef ≠
      (streamed event (readOut what ref reading result') : Response δ τ σ).upToRef := by
  rw [h, h']
  exact upToRef_streamed_ne hevent hne hplain

theorem read_single {α : Type} {E : Engine δ ρ} (read : Container δ → Except String α)
    {ref id : String} {c : Container δ} (h : E.resolve (.single id c) ref = some id) :
    ((E.inspect (.single id c) ref).bind fun found ↦ read found.2) = read c ∧
      ((E.inspect .empty ref).bind fun found ↦ read found.2) = .error (E.reason .empty ref) := by
  rw [inspect_single h, inspect_empty]
  exact ⟨rfl, rfl⟩

theorem unhidden_of_controlled (hE : FindsAmongFewer H.docker) {ref answer : String} {a : Action}
    (h : ∀ w w' : World δ, Agree w w' →
      (controlled w answer (control H.docker a w.containers ref) :
          Response δ τ σ × World δ).1.upToRef =
        (controlled w' answer (control H.docker a w'.containers ref) :
          Response δ τ σ × World δ).1.upToRef) : Unhidden H ref fun _ ↦ True := by
  intro cs id c hresolve hget _
  by_contra hhidden
  obtain ⟨hnone, hsome⟩ := managedAt_of_hidden hE hresolve hget hhidden
  have hsame := h _ _ (agree_managedOnly cs)
  dsimp only [controlled] at hsame
  rw [upToRef_respond _ fun _ ↦ rfl, upToRef_respond _ fun _ ↦ rfl, resultUpToRef_control,
    resultUpToRef_control, hnone, hsome] at hsame
  dsimp only at hsame
  cases hact : H.docker.act a c with
  | error e =>
    rw [hact] at hsame
    exact absurd hsame (by simp [respond, Except.map, Except.mapError, Failure.ofRef, Failure.plain])
  | ok left =>
    rw [hact] at hsame
    exact absurd hsame (by simp [respond, Except.map, Except.mapError])

theorem unhidden_of_inspect (hE : FindsAmongFewer H.docker) {ref : String}
    (h : ∀ w w' : World δ, Agree w w' →
      (respond 404 (fun found ↦ .container found.1 found.2)
          (inspectContainer H.docker w.containers ref) : Response δ τ σ).upToRef =
        (respond 404 (fun found ↦ .container found.1 found.2)
          (inspectContainer H.docker w'.containers ref) : Response δ τ σ).upToRef) :
    Unhidden H ref fun _ ↦ True := by
  intro cs id c hresolve hget _
  by_contra hhidden
  obtain ⟨hnone, hsome⟩ := managedAt_of_hidden hE hresolve hget hhidden
  have hsame := h _ _ (agree_managedOnly cs)
  rw [upToRef_respond _ fun _ ↦ rfl, upToRef_respond _ fun _ ↦ rfl,
    resultUpToRef_inspectContainer, resultUpToRef_inspectContainer, hnone, hsome] at hsame
  exact absurd hsame (by simp [respond])

/-- A reading tells whether there is something to read of a container without the label, or whether
one with something to read is hidden. -/
theorem readsOwn_of_streamed {α β : Type} (hE : FindsAmongFewer H.docker) {what ref : String}
    {event : α → Event τ σ} {reading : β → List α × Option Failure}
    {read : Container δ → Except String β} (hevent : ∀ a, (event a).upToRef = event a)
    (hne : ∀ a f, event a ≠ .failure f)
    (hplain : ∀ b, ∀ f ∈ (reading b).2, f.namesRef = false)
    (h : ∀ w w' : World δ, Agree w w' →
      (streamed event (readOut what ref reading
          ((H.docker.inspect w.containers ref).bind fun found ↦ read found.2)) :
          Response δ τ σ).upToRef =
        (streamed event (readOut what ref reading
          ((H.docker.inspect w'.containers ref).bind fun found ↦ read found.2)) :
          Response δ τ σ).upToRef) : ReadsOwn H ref read := by
  have hforeign : ∀ id c, findsAlone H ref id c → ∃ e, read c = .error e := by
    rintro id c ⟨hc, hresolve⟩
    cases hread : read c with
    | error e => exact ⟨e, rfl⟩
    | ok b =>
      obtain ⟨hsome, hnone⟩ := read_single read hresolve
      exact absurd (h _ _ (agree_container hc))
        (streamed_readOut_ne hevent hne (hplain b) (hsome.trans hread) hnone)
  refine ⟨hforeign, fun cs id c hresolve hget ⟨b, hb⟩ ↦ ?_⟩
  by_contra hhidden
  -- what is found instead, if anything, has no label
  have hnone : ∃ e, ((H.docker.inspect cs ref).bind fun found ↦ read found.2) = .error e := by
    obtain ⟨hnone, -⟩ := managedAt_of_hidden hE hresolve hget hhidden
    rw [managedAt] at hnone
    cases hinspect : H.docker.inspect cs ref with
    | error e => exact ⟨e, rfl⟩
    | ok found =>
      rw [hinspect] at hnone
      dsimp only at hnone
      have hmanaged : found.2.isManaged = false := by
        by_contra hmanaged
        rw [Bool.not_eq_false] at hmanaged
        rw [if_pos hmanaged] at hnone
        exact Option.some_ne_none found hnone
      obtain ⟨hfound, hcontainer⟩ := get?_of_inspect hinspect
      refine hforeign found.1 found.2 ⟨hmanaged, ?_⟩
      refine hE cs _ ref found.1 found.2 hfound hcontainer (Dict.get?_single _ _) fun k v hk ↦ ?_
      obtain ⟨rfl, rfl⟩ := Dict.eq_of_get?_single hk
      exact hcontainer
  obtain ⟨e, he⟩ := hnone
  have hsome : ((H.docker.inspect (managedOnly cs) ref).bind fun found ↦ read found.2) = .ok b := by
    rw [inspect_of_get? hresolve hget]
    exact hb
  exact absurd (h _ _ (agree_managedOnly cs)).symm
    (streamed_readOut_ne hevent hne (hplain b) hsome he)

theorem silent_of_scoped (hE : FindsAmongFewer H.docker) (h : Scoped H clock r) :
    Silent H r (route H.k8s r.method r.path) := by
  have hserve : ∀ w w', Agree w w' →
      (serve H clock r w).1.upToRef = (serve H clock r w').1.upToRef := h.1
  dsimp only [serve] at hserve
  have hbroken {broken : Option String} : ∀ f ∈ broken.map Failure.plain, f.namesRef = false := by
    intro f hf
    obtain ⟨e, -, rfl⟩ := Option.map_eq_some_iff.mp hf
    rfl
  cases hroute : route H.k8s r.method r.path with
  | inspectContainer ref =>
    rw [hroute] at hserve
    exact unhidden_of_inspect hE hserve
  | startContainer ref | stopContainer ref | restartContainer ref | removeContainer ref =>
    rw [hroute] at hserve
    exact unhidden_of_controlled hE hserve
  | containerLogs ref =>
    rw [hroute] at hserve
    exact readsOwn_of_streamed hE (fun _ ↦ rfl) (fun a f ↦ by simp) (fun _ ↦ frames_plain) hserve
  | containerStats ref =>
    rw [hroute] at hserve
    exact readsOwn_of_streamed hE (fun _ ↦ rfl) (fun a f ↦ by simp) (fun _ ↦ hbroken) hserve
  | podLogs key =>
    rw [hroute] at hserve
    intro pod hpod
    cases hlogs : H.api.logs key pod (podLogOptions H.parseDuration (r.queryValue "container") true
        (r.queryValue "since") (podLogTail r)) with
    | error e => exact ⟨e, rfl⟩
    | ok log =>
      have hevent : ∀ a, (Event.podLog a : Event τ σ).upToRef = .podLog a := fun _ ↦ rfl
      have hread (opts : PodLogOptions) :
          H.api.stream (.single key pod) key opts = H.api.logs key pod opts := by
        rw [Api.stream, Dict.get?_single]
      exact absurd (hserve _ _ (agree_pod hpod))
        (streamed_readOut_ne hevent (fun a f ↦ by simp) hbroken ((hread _).trans hlogs) rfl)
  | podEvents key =>
    rw [hroute] at hserve
    cases herror : H.api.eventsError with
    | some e => exact Or.inl (by rw [herror]; exact Option.some_ne_none e)
    | none =>
      refine Or.inr fun e hspace ↦ eq_false_of_ne_true fun hselect ↦ ?_
      have hsame := hserve _ _ (agree_podEvent e)
      dsimp only [handle] at hsame
      rw [podEvents_of_none herror, podEvents_of_none herror] at hsame
      have hpick : ∀ e' ∈ [e], (e'.nameSpace = key.1 &&
          H.api.selects ("involvedObject.name=" ++ key.2) e') = true := by
        intro e' he'
        obtain rfl := List.mem_singleton.mp he'
        exact Bool.and_eq_true_iff.mpr ⟨decide_eq_true hspace, hselect⟩
      rw [List.filter_eq_self.mpr hpick] at hsame
      obtain hlist := Payload.podEvents.inj (Response.json.inj hsame).2
      exact absurd hlist (List.cons_ne_nil _ _)
  | _ => trivial

/-- A request is scoped exactly if containers without the label do not hide what its reference finds,
and if it could read nothing of what has no label: it is none of the four that do not look at the
label, or there is nothing to read under its path values. -/
theorem scoped_iff (hE : FindsAmongFewer H.docker) :
    Scoped H clock r ↔ Silent H r (route H.k8s r.method r.path) :=
  ⟨silent_of_scoped hE, fun hsilent ↦ ⟨fun _ _ h ↦ serve_agree hE hsilent h, untouched_serve⟩⟩

end Requests

/-- A Docker with full ids only, in which all commands work. What it keeps about a container is the
log. -/
def plainEngine : Engine (List UInt8) Unit where
  resolve cs ref := if (cs.get? ref).isSome then some ref else none
  reason _ ref := "No such container: " ++ ref
  listError := none
  act
    | .remove _, _ => .ok none
    | _, c => .ok (some c)
  logs c _ := .ok ⟨c.detail, none⟩
  stats _ := .ok ⟨[], none⟩
  eventsError := none

/-- A Kubernetes without anything in it. -/
def plainApi : Api (List UInt8) where
  getError kind key := kind ++ " \"" ++ key.2 ++ "\" not found"
  listError := none
  delete _ := .ok none
  logs _ pod _ := .ok ⟨[pod.detail], none⟩
  eventsError := none
  selects selector e := selector = "involvedObject.name=" ++ e.involvedName
  update d := .ok d

def plainHandler : Handler (List UInt8) Unit Unit Unit where
  docker := plainEngine
  api := plainApi
  k8s := true
  parseTime _ := none
  parseDuration _ := none
  computeStats _ _ _ := ()
  zeroStats := ()

theorem resolve_plainEngine {cs : Dict String (Container (List UInt8))} {ref id : String} :
    plainEngine.resolve cs ref = some id ↔ ref = id ∧ (cs.get? ref).isSome = true := by
  dsimp only [plainEngine]
  rw [Option.ite_none_right_eq_some, Option.some.injEq, and_comm]

theorem findsAmongFewer_plainEngine : FindsAmongFewer plainEngine := by
  intro cs cs' ref id c hresolve _ hget _
  obtain ⟨rfl, -⟩ := resolve_plainEngine.mp hresolve
  exact resolve_plainEngine.mpr ⟨rfl, by rw [hget]; rfl⟩

/-- `GET` of a path below one container. -/
def containerRequest (path : List String) : Request :=
  ⟨.get, ["v1", "containers", "db"] ++ path, .empty⟩

theorem scoped_inspect : Scoped plainHandler ⟨0, ""⟩ (containerRequest []) := by
  refine (scoped_iff findsAmongFewer_plainEngine).mpr fun cs id c hresolve hget _ ↦ ?_
  obtain ⟨rfl, -⟩ := resolve_plainEngine.mp hresolve
  exact resolve_plainEngine.mpr ⟨rfl, by rw [(get?_managedOnly.mp hget).1]; rfl⟩

/-- The log of a container that does not belong to Argus is given to whoever asks for it. -/
theorem not_forall_scoped : ¬ ∀ (H : Handler (List UInt8) Unit Unit Unit) (clock : Clock)
    (r : Request), FindsAmongFewer H.docker → Scoped H clock r := by
  intro h
  let c : Container (List UInt8) := ⟨["/db"], "postgres", "running", "Up", 0, none, [], []⟩
  have hscoped := h plainHandler ⟨0, ""⟩ (containerRequest ["logs"]) findsAmongFewer_plainEngine
  have hsilent : Silent plainHandler (containerRequest ["logs"]) (.containerLogs "db") :=
    silent_of_scoped findsAmongFewer_plainEngine hscoped
  obtain ⟨e, he⟩ := hsilent.foreign "db" c ⟨rfl, rfl⟩
  exact absurd he (by simp [plainHandler, plainEngine])

end Argusd

end ArgusMcp
