import ArgusMcp.Config.Schema
import ArgusMcp.Library.Machine

/-!
# The choice of a container runtime

`RuntimeFactory` is made once for the process. `detect` takes the runtime that is asked for, by the
call or by `ARGUS_RUNTIME`, and else the first one that is there, in the order of their priorities.

## The cache

What a call has found is kept and returned to every later call, whatever that asks for. So a history
of calls has one answer, that of its first call (`trace_detect`), and every call gets what it asks
for exactly if all of them ask for what the first call came to (`honoured_iff`).
-/

namespace ArgusMcp

namespace Runtimes

open ConfigSchema

inductive RuntimeType where
  | docker
  | podman
  | kubernetes
  deriving DecidableEq

/-- A runtime that has been made: `DockerRuntime`, for one of two binaries, or
`KubernetesRuntime`. -/
inductive ContainerRuntime where
  | docker (binary : String)
  | kubernetes
  deriving DecidableEq

def ContainerRuntime.runtimeType : ContainerRuntime → RuntimeType
  | docker binary => if binary = "podman" then .podman else .docker
  | kubernetes => .kubernetes

/-- What does not change while the process runs. -/
structure Surroundings where
  /-- `shutil.which(name) is not None`. -/
  which : String → Bool
  /-- `KUBERNETES_SERVICE_HOST` is set, and not empty. -/
  inCluster : Bool
  /-- `ARGUS_RUNTIME`, empty if it is not set. -/
  argusRuntime : String
  lower : String → String

section Factory

variable (env : Surroundings)

inductive RuntimeClass where
  | dockerRuntime
  | kubernetesRuntime

structure RuntimeEntry where
  runtimeCls : RuntimeClass
  priority : ℕ
  detector : Surroundings → Bool

/-- What `_register_defaults` registers, in the order of the priorities. -/
def registry : List RuntimeEntry :=
  [⟨.dockerRuntime, 100, fun env ↦ env.which "docker"⟩,
    ⟨.dockerRuntime, 110, fun env ↦ env.which "podman"⟩,
    ⟨.kubernetesRuntime, 200, Surroundings.inCluster⟩]

def createExplicit (name : String) : Option ContainerRuntime :=
  let normalised := env.lower (strip name)
  if normalised ∈ ["docker", "podman"] then
    if env.which normalised then some (.docker normalised) else none
  else if normalised ∈ ["kubernetes", "k8s", "kube"] then
    if env.inCluster then some .kubernetes else none
  else none

def createFromEntry (entry : RuntimeEntry) : Option ContainerRuntime :=
  match entry.runtimeCls with
  | .dockerRuntime =>
    if entry.priority = 100 ∧ env.which "docker" then some (.docker "docker")
    else if entry.priority = 110 ∧ env.which "podman" then some (.docker "podman")
    else none
  | .kubernetesRuntime => some .kubernetes

/-- `override or os.environ.get("ARGUS_RUNTIME", "").strip()`. -/
def explicitName (override : Option String) : String :=
  match override with
  | none | some "" => strip env.argusRuntime
  | some name => name

/-- The part of `detect` that looks for a runtime. -/
def lookFor (override : Option String) : Option ContainerRuntime :=
  let explicit := explicitName env override
  let requested := if explicit = "" then none else createExplicit env explicit
  requested.or (registry.findSome? fun entry ↦
    if entry.detector env then createFromEntry env entry else none)

/-- `detect`: what is in the cache afterwards, and what is returned. -/
def detect (cachedRuntime : Option ContainerRuntime) (override : Option String) :
    Option ContainerRuntime × Option ContainerRuntime :=
  match cachedRuntime with
  | some rt => (some rt, some rt)
  | none => (lookFor env override, lookFor env override)

/-- What the calls of a process return, one after another. -/
def detectAll (overrides : List (Option String)) : List (Option ContainerRuntime) :=
  Machine.trace (detect env) none overrides

/-! ## Kinds of runtimes -/

def kindOf (name : String) : Option RuntimeType :=
  let normalised := env.lower (strip name)
  if normalised = "docker" then some .docker
  else if normalised = "podman" then some .podman
  else if normalised ∈ ["kubernetes", "k8s", "kube"] then some .kubernetes
  else none

def available : RuntimeType → Bool
  | .docker => env.which "docker"
  | .podman => env.which "podman"
  | .kubernetes => env.inCluster

/-- A smaller number is preferred. -/
def RuntimeType.priority : RuntimeType → ℕ
  | docker => 100
  | podman => 110
  | kubernetes => 200

def availableOf (name : String) : Option RuntimeType := (kindOf env name).filter (available env)

def bestAvailable : Option RuntimeType :=
  [RuntimeType.docker, .podman, .kubernetes].find? (available env)

variable {env}

theorem runtimeType_createExplicit (name : String) :
    (createExplicit env name).map ContainerRuntime.runtimeType = availableOf env name := by
  rw [createExplicit, availableOf, kindOf]
  generalize env.lower (strip name) = normalised
  by_cases hdocker : normalised = "docker"
  · subst hdocker
    rcases hwhich : env.which "docker" <;>
      simp [available, Option.filter, ContainerRuntime.runtimeType, hwhich]
  by_cases hpodman : normalised = "podman"
  · subst hpodman
    rcases hwhich : env.which "podman" <;>
      simp [available, Option.filter, ContainerRuntime.runtimeType, hwhich]
  have hneither : normalised ∉ ["docker", "podman"] := by simp [hdocker, hpodman]
  rw [if_neg hneither, if_neg hdocker, if_neg hpodman]
  by_cases hkubernetes : normalised ∈ ["kubernetes", "k8s", "kube"]
  · rw [if_pos hkubernetes, if_pos hkubernetes]
    rcases hcluster : env.inCluster <;>
      simp [available, Option.filter, ContainerRuntime.runtimeType, hcluster]
  · rw [if_neg hkubernetes, if_neg hkubernetes]
    rfl

theorem runtimeType_registry :
    (registry.findSome? fun entry ↦
      if entry.detector env then createFromEntry env entry else none).map
        ContainerRuntime.runtimeType = bestAvailable env := by
  rw [registry, bestAvailable]
  rcases hdocker : env.which "docker" <;> rcases hpodman : env.which "podman" <;>
    rcases hcluster : env.inCluster <;>
    simp [hdocker, hpodman, hcluster, createFromEntry, available, ContainerRuntime.runtimeType]

/-- What a call comes to that is the first one. -/
def firstChoice (env : Surroundings) (override : Option String) : Option RuntimeType :=
  let explicit := explicitName env override
  (if explicit = "" then none else availableOf env explicit).or (bestAvailable env)

theorem runtimeType_lookFor (override : Option String) :
    (lookFor env override).map ContainerRuntime.runtimeType = firstChoice env override := by
  rw [lookFor, firstChoice, Option.map_or, runtimeType_registry,
    apply_ite (Option.map ContainerRuntime.runtimeType), runtimeType_createExplicit]
  rfl

theorem bestAvailable_eq_none_iff :
    bestAvailable env = none ↔ ∀ kind, available env kind = false := by
  rw [bestAvailable, List.find?_eq_none]
  constructor
  · rintro h (_ | _ | _)
    · simpa using h .docker
    · simpa using h .podman
    · simpa using h .kubernetes
  · exact fun h kind _ ↦ by simp [h kind]

theorem firstChoice_eq_none_iff (override : Option String) :
    firstChoice env override = none ↔ ∀ kind, available env kind = false := by
  rw [firstChoice, Option.or_eq_none_iff, bestAvailable_eq_none_iff]
  refine and_iff_right_of_imp fun hnone ↦ ?_
  split_ifs
  · rfl
  · rw [availableOf, Option.filter_eq_none_iff]
    exact fun kind _ ↦ by simp [hnone kind]

/-! ## Histories of calls -/

theorem trace_detect_some (rt : ContainerRuntime) (overrides : List (Option String)) :
    Machine.trace (detect env) (some rt) overrides = overrides.map fun _ ↦ some rt := by
  induction overrides with
  | nil => rfl
  | cons override overrides ih => rw [Machine.trace, List.map_cons, detect, ih]

theorem trace_detect_none (hnone : ∀ kind, available env kind = false)
    (overrides : List (Option String)) :
    Machine.trace (detect env) none overrides = overrides.map fun _ ↦ none := by
  induction overrides with
  | nil => rfl
  | cons override overrides ih =>
    have hlook : lookFor env override = none := by
      rw [← Option.map_eq_none_iff, runtimeType_lookFor]
      exact (firstChoice_eq_none_iff override).mpr hnone
    rw [Machine.trace, List.map_cons, detect, hlook, ih]

/-- **Every call returns what the first one has found.** -/
theorem detectAll_cons (override : Option String) (overrides : List (Option String)) :
    detectAll env (override :: overrides)
      = (override :: overrides).map fun _ ↦ lookFor env override := by
  rcases hlook : lookFor env override with _ | rt
  · rw [← Option.map_eq_none_iff, runtimeType_lookFor, firstChoice_eq_none_iff] at hlook
    exact trace_detect_none hlook _
  · rw [detectAll, Machine.trace, List.map_cons, detect, hlook, trace_detect_some]

/-- What a call is to return: the runtime of its override, if that is available, and without an
override that of `ARGUS_RUNTIME`, or else the best one. Nothing is said of an override that is not
available. -/
def wanted (env : Surroundings) (override : Option String) : Option (Option RuntimeType) :=
  match override with
  | none | some "" =>
    let choice := strip env.argusRuntime
    some ((if choice = "" then none else availableOf env choice).or (bestAvailable env))
  | some name => (availableOf env name).map some

/-- Every call of a history returns what it is to return. -/
def Honoured (env : Surroundings) (overrides : List (Option String)) : Prop :=
  ∀ call ∈ overrides.zip (detectAll env overrides), ∀ kind, wanted env call.1 = some kind →
    call.2.map ContainerRuntime.runtimeType = kind

/-- **When every call is honoured**: exactly if every call that wants something wants what the
first call comes to. -/
theorem honoured_iff (env : Surroundings) (overrides : List (Option String)) :
    Honoured env overrides ↔ ∀ first ∈ overrides.head?, ∀ override ∈ overrides, ∀ kind,
      wanted env override = some kind → firstChoice env first = kind := by
  rcases overrides with _ | ⟨first, overrides⟩
  · exact iff_of_true (fun _ h ↦ absurd h List.not_mem_nil) fun _ h ↦ by simp at h
  · have hcalls : (first :: overrides).zip (detectAll env (first :: overrides))
        = (first :: overrides).map fun override ↦ (override, lookFor env first) := by
      have hzip := List.zip_map' (f := id) (g := fun _ ↦ lookFor env first)
        (l := first :: overrides)
      rwa [List.map_id, ← detectAll_cons] at hzip
    rw [Honoured, hcalls, List.forall_mem_map, List.head?_cons]
    simp only [Option.mem_some_iff, forall_eq', runtimeType_lookFor]

/-! ## Two binaries -/

/-- Docker and Podman are installed. -/
def bothInstalled : Surroundings where
  which := fun name ↦ name = "docker" || name = "podman"
  inCluster := false
  argusRuntime := ""
  lower := ConfigSchema.lower

/-- A backend that asks for Podman gets Docker, if it is not the first one. -/
theorem not_forall_honoured : ¬ ∀ (env : Surroundings) (overrides : List (Option String)),
    Honoured env overrides := by
  intro h
  have hpodman := h bothInstalled [some "docker", some "podman"]
    (some "podman", some (.docker "docker")) (by decide) (some .podman) (by decide)
  exact absurd hpodman (by decide)

end Factory

end Runtimes

end ArgusMcp
