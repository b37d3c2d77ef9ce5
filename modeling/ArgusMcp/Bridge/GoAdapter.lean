import ArgusMcp.Bridge.ExtraArgs
import Mathlib

/-!
# The second way to a container

A container is made with `docker create`, or through the adapter in Go, which calls the API of the
Docker engine. The adapter is tried first when its binary is there (`wrap_backend`), and if anything
goes wrong on that way, the command line is used. So `_go_adapter_create`, the class
`GoDockerAdapter` and `doCreate` in `tools/docker-adapter/main.go` are to make what the arguments
describe.

## What the engine is asked for

The command line describes the baseline (`hardened_commandLine`). The request of the adapter has no
`extra_args`, and the container has no options for security, no tmpfs and is not removed when it
stops. In place of the two tmpfs it has volumes, which bind `/tmp` and `/home/nonroot` of the host.
None of this depends on the configuration, so no container that is made this way is the one
described (`not_sameSandbox`), and all is well exactly as long as no container is made this way.
`oneSandbox_iff` says when one is.
-/

namespace ArgusMcp

namespace Sandbox

open ConfigSchema Options

/-! ## Requests -/

/-- The arguments of a `create` request. A missing one is the empty text; lists and objects are what
their JSON text stands for. -/
structure CreateRequest where
  image : String
  name : String
  cmd : List String
  env : Dict String String
  network : String
  memory : String
  cpus : String
  volumes : List String
  readOnly : String
  capDrop : List String
  labels : Dict String String

/-- `container.Config` and `container.HostConfig` as `doCreate` fills them, with the fields for
security that it leaves at their zero values, and the network of the endpoint. -/
structure Container where
  image : String
  cmd : List String
  env : List String
  labels : Dict String String
  openStdin : Bool
  init : Bool
  readonlyRootfs : Bool
  capDrop : List String
  binds : List String
  memory : ℤ
  nanoCpus : ℤ
  network : Option String
  autoRemove : Bool
  securityOpt : List String
  tmpfs : List String

/-- What the two programs find outside of them. -/
structure Surroundings (F : Type) where
  /-- What a decimal digit counts. -/
  digit : Char → Option ℕ
  lower : String → String
  /-- `float(text)`, whether it is zero, and its text. -/
  float : String → Option F
  isZero : F → Bool
  floatText : F → String
  /-- `strconv.ParseFloat`, as billionths in an `int64`, or the text of an error. -/
  nanoCpus : String → Except String ℤ
  /-- A text in quotes, as `%q` prints it. -/
  quote : String → String
  /-- The binary is found, and it can be started. -/
  available : Bool
  starts : Bool
  /-- A request is read, and its answer comes back. -/
  carries : CreateRequest → Bool
  /-- `ContainerCreate`, called for the first or the second time: an id, or the text of an error. -/
  containerCreate : ℕ → Container → String → Except String String

section Adapter

variable {F : Type} (w : Surroundings F)

/-! ## The adapter -/

/-- A number in decimal digits, in groups with underscores between them. -/
def decimal (cs : List Char) : Option ℕ :=
  let groups := cs.splitOn '_'
  if groups.any List.isEmpty then none
  else
    ((groups.flatten.mapM w.digit).filter fun ds ↦ decide (ds.length ≤ 4300)).map fun ds ↦
      ds.foldl (fun n d ↦ 10 * n + d) 0

/-- `int(text)`. -/
def pyInt (text : String) : Option ℤ :=
  match (strip text).toList with
  | '-' :: cs => (decimal w cs).map fun n ↦ -(n : ℤ)
  | '+' :: cs => (decimal w cs).map fun n ↦ (n : ℤ)
  | cs => (decimal w cs).map fun n ↦ (n : ℤ)

def memSuffixes : List (Char × ℤ) :=
  [('k', 1024), ('m', 1024 ^ 2), ('g', 1024 ^ 3), ('t', 1024 ^ 4)]

/-- `_parse_memory_string`, unless it raises `ValueError`. -/
def parseMemoryString (mem : String) : Option ℤ :=
  let mem := w.lower (strip mem)
  match mem.toList.getLast? with
  | none => some 0
  | some suffix =>
    match memSuffixes.lookup suffix with
    | some factor => (pyInt w (String.ofList mem.toList.dropLast)).map (· * factor)
    | none => pyInt w mem

/-- `[a-zA-Z0-9/._:-]`. -/
def isVolumeChar (c : Char) : Bool := c.isAlphanum || "/._:-".toList.contains c

/-- `volumeRe`. -/
def isVolume (spec : String) : Bool := spec.toList.all isVolumeChar && decide (spec ≠ "")

/-- `networkNameRe`. -/
def isNetworkName (name : String) : Bool :=
  (name.toList.all fun c ↦ c.isAlphanum || "._-".toList.contains c) && decide (name ≠ "")

/-- The check of the volumes: the first one that is refused ends it. -/
def checkVolumes (binds : List String) : Except String Unit :=
  match binds.find? fun b ↦ !isVolume b with
  | some b => .error ("invalid volume spec: " ++ w.quote b)
  | none => .ok ()

def memoryBytes (text : String) : Except String ℤ :=
  if text = "" then .ok 0
  else
    match text.toInt?.filter fun n ↦ decide (-(2 ^ 63) ≤ n ∧ n < 2 ^ 63) with
    | some n => .ok n
    | none => .error ("invalid memory value: strconv.ParseInt: parsing " ++ w.quote text ++
        ": value out of range")

/-- The limit of processors in billionths. -/
def cpuLimit (text : String) : Except String ℤ :=
  if text = "" then .ok 0
  else (w.nanoCpus text).mapError fun message ↦ "invalid cpus value: " ++ message

/-- The container that `doCreate` asks for. -/
def containerOf (req : CreateRequest) (memory nanoCpus : ℤ) : Container where
  image := req.image
  cmd := req.cmd
  env := req.env.items.map fun e ↦ e.1 ++ "=" ++ e.2
  labels := req.labels
  openStdin := true
  init := true
  readonlyRootfs := decide (req.readOnly = "true")
  capDrop := req.capDrop
  binds := req.volumes
  memory := memory
  nanoCpus := nanoCpus
  network := if req.network = "" then none else some req.network
  autoRemove := false
  securityOpt := []
  tmpfs := []

/-- `strings.Contains(message, "already in use")`. -/
def isNameConflict (message : String) : Bool :=
  decide ("already in use".toList <:+: message.toList)

/-- `ContainerCreate`, once more if the name is not free yet. -/
def askEngine (container : Container) (name : String) : Except String String :=
  match w.containerCreate 0 container name with
  | .ok id => .ok id
  | .error message =>
    if isNameConflict message then
      (w.containerCreate 1 container name).mapError fun message ↦ "create failed: " ++ message
    else .error ("create failed: " ++ message)

/-- `doCreate`: the container that was made and its id, or the text of an error. -/
def doCreate (req : CreateRequest) : Except String (Container × String) :=
  if req.image = "" then .error "missing 'image' arg"
  else if req.name = "" then .error "missing 'name' arg"
  else
    (checkVolumes w req.volumes).bind fun _ ↦
      if req.network ≠ "" ∧ isNetworkName req.network = false then
        .error ("invalid network name: " ++ w.quote req.network)
      else
        (memoryBytes w req.memory).bind fun memory ↦
          (cpuLimit w req.cpus).bind fun nanoCpus ↦
            (askEngine w (containerOf req memory nanoCpus) req.name).map fun id ↦
              (containerOf req memory nanoCpus, id)

/-! ## The caller -/

def fullEnv (env : Option (Dict String String)) : Dict String String :=
  (Dict.ofList [("HOME", containerHome), ("TMPDIR", "/tmp")]).update (env.getD .empty)

def allVolumes (volumes : Option (List String)) : List String :=
  ["/tmp:/tmp:rw", containerHome ++ ":" ++ containerHome ++ ":rw"] ++ volumes.getD []

/-- The request of `GoDockerAdapter.create`, where a zero is left out. -/
def createRequest (c : CreateArgs) (name : String) (memory : ℤ) (cpus : F) : CreateRequest where
  image := c.imageTag
  name := name
  cmd := c.runtimeArgs
  env := fullEnv c.env
  network := c.network
  memory := if memory = 0 then "" else memory.repr
  cpus := if w.isZero cpus then "" else w.floatText cpus
  volumes := allVolumes c.volumes
  readOnly := "true"
  capDrop := defaultCapDrop
  labels := c.labels.getD .empty

/-- `_go_adapter_create`: the container that was made, with its id. Every exception is caught. -/
def goAdapterCreate (c : CreateArgs) (name : String) : Option (Container × String) :=
  if w.starts then
    match parseMemoryString w c.memory, w.float c.cpus with
    | some memory, some cpus =>
      if w.carries (createRequest w c name memory cpus) then
        (doCreate w (createRequest w c name memory cpus)).toOption
      else none
    | _, _ => none
  else none

/-- How the container of a backend came about. -/
inductive Made where
  | engine (container : Container) (id : String)
  | commandLine (args : List String)

/-- The part of `wrap_backend` that has a container made. -/
def createContainer (c : CreateArgs) (name : String) : Except String Made :=
  match if w.available then goAdapterCreate w c name else none with
  | some made => .ok (.engine made.1 made.2)
  | none => (buildCreateArgs c).map .commandLine

end Adapter

/-! ## Isolation -/

/-- How docker reads the values of limits. -/
structure Limits where
  memory : String → Option ℤ
  nanoCpus : String → Option ℤ

/-- What keeps a container apart from its host. -/
structure Isolation where
  /-- Volumes, by their specifications. -/
  volumes : List String
  /-- The places of filesystems in memory. -/
  tmpfs : List String
  noNewPrivileges : Bool
  autoRemove : Bool
  readOnly : Bool
  capDrop : List String
  memory : Option ℤ
  nanoCpus : Option ℤ
  network : Option String
  /-- What `extra_args` set. -/
  extra : List (Setting × String)

/-- The values of a setting, in order. -/
def valuesOf (entries : List (Options.Entry Origin Setting)) (setting : Setting) : List String :=
  (entries.filter fun e ↦ decide (e.setting = setting)).map Options.Entry.value

/-- A switch is on if its last value says so. -/
def isOn (entries : List (Options.Entry Origin Setting)) (setting : Setting) : Bool :=
  (valuesOf entries setting).getLast?.any isTrue

/-- What the arguments of `docker create` describe. -/
def Isolation.ofEntries (limits : Limits) (entries : List (Options.Entry Origin Setting)) :
    Isolation where
  volumes := valuesOf entries .volume
  tmpfs := (valuesOf entries .tmpfs).map fun v ↦ .ofList (v.toList.takeWhile (· ≠ ':'))
  noNewPrivileges := (valuesOf entries .securityOpt).contains "no-new-privileges"
  autoRemove := isOn entries .rm
  readOnly := isOn entries .readOnly
  capDrop := valuesOf entries .capDrop
  memory := (valuesOf entries .memory).getLast?.bind limits.memory
  nanoCpus := (valuesOf entries .cpus).getLast?.bind limits.nanoCpus
  network := (valuesOf entries .network).getLast?
  extra := (entries.filter fun e ↦ decide (e.tag = .extraArgs)).map fun e ↦ (e.setting, e.value)

/-- What the engine is asked for. -/
def Isolation.ofContainer (container : Container) : Isolation where
  volumes := container.binds
  tmpfs := container.tmpfs
  noNewPrivileges := container.securityOpt.contains "no-new-privileges"
  autoRemove := container.autoRemove
  readOnly := container.readonlyRootfs
  capDrop := container.capDrop
  memory := some container.memory
  nanoCpus := some container.nanoCpus
  network := container.network
  extra := []

/-- The baseline that does not depend on the configuration. -/
structure Isolation.Hardened (i : Isolation) (configured : List String) : Prop where
  volumes : ∀ v ∈ i.volumes, v ∈ configured
  tmp : "/tmp" ∈ i.tmpfs
  home : containerHome ∈ i.tmpfs
  noNewPrivileges : i.noNewPrivileges = true
  autoRemove : i.autoRemove = true

/-- A container has the baseline, and is as isolated as the arguments of `docker create` say. If
there are no such arguments, because `extra_args` are refused, no container is right. -/
structure SameSandbox (T : Table Setting) (limits : Limits) (c : CreateArgs)
    (container : Container) : Prop where
  hardened : (Isolation.ofContainer container).Hardened (c.volumes.getD [])
  same : ∃ args entries operands, buildCreateArgs c = .ok args ∧
    parse T (commandLine c args) = some (entries, operands) ∧
    Isolation.ofEntries limits entries = Isolation.ofContainer container

section Compare

variable {F : Type} (w : Surroundings F)

/-- A container that the engine was asked for is the one that the command line describes. -/
def OneSandbox (T : Table Setting) (limits : Limits) (c : CreateArgs) (name : String) : Prop :=
  ∀ container id, createContainer w c name = .ok (.engine container id) →
    SameSandbox T limits c container

/-- The engine makes the container, if necessary at the second time of asking. -/
def EngineMakes (container : Container) (name : String) : Prop :=
  (∃ id, w.containerCreate 0 container name = .ok id) ∨
    ∃ message id, w.containerCreate 0 container name = .error message ∧
      isNameConflict message = true ∧ w.containerCreate 1 container name = .ok id

/-- The adapter is there and is given nothing that it refuses, and the engine makes what it asks
for. -/
def Succeeds (c : CreateArgs) (name : String) : Prop :=
  w.available = true ∧ w.starts = true ∧ c.imageTag ≠ "" ∧ name ≠ "" ∧
    (∀ v ∈ c.volumes.getD [], isVolume v = true) ∧
    (c.network = "" ∨ isNetworkName c.network = true) ∧
    ∃ memory cpus nanoCpus, parseMemoryString w c.memory = some memory ∧
      (-(2 ^ 63) ≤ memory ∧ memory < 2 ^ 63) ∧ w.float c.cpus = some cpus ∧
      cpuLimit w (if w.isZero cpus then "" else w.floatText cpus) = .ok nanoCpus ∧
      w.carries (createRequest w c name memory cpus) = true ∧
      EngineMakes w (containerOf (createRequest w c name memory cpus) memory nanoCpus) name

variable {w}

/-! ## When the adapter succeeds -/

theorem checkVolumes_eq_ok_iff {binds : List String} :
    checkVolumes w binds = .ok () ↔ ∀ b ∈ binds, isVolume b = true := by
  rw [checkVolumes]
  rcases hfind : binds.find? fun b ↦ !isVolume b with _ | b
  · refine iff_of_true rfl fun b hb ↦ ?_
    have hvalid := List.find?_eq_none.mp hfind b hb
    rwa [Bool.not_eq_true', Bool.not_eq_false] at hvalid
  · refine iff_of_false (by simp) fun hall ↦ ?_
    have hinvalid := List.find?_some hfind
    rw [Bool.not_eq_true', hall b (List.mem_of_find?_eq_some hfind)] at hinvalid
    exact Bool.false_ne_true hinvalid.symm

theorem repr_ne_empty (n : ℤ) : n.repr ≠ "" := by
  rcases n with n | n
  · exact Nat.repr_ne_empty
  · rw [Int.repr, ← String.toList_inj.ne, String.toList_append]
    exact List.cons_ne_nil _ _

theorem memoryBytes_eq_ok_iff {memory parsed : ℤ} :
    memoryBytes w (if memory = 0 then "" else memory.repr) = .ok parsed ↔
      (-(2 ^ 63) ≤ memory ∧ memory < 2 ^ 63) ∧ parsed = memory := by
  by_cases hzero : memory = 0
  · rw [if_pos hzero, memoryBytes, if_pos rfl, Except.ok.injEq, hzero, eq_comm]
    exact (and_iff_right (by omega)).symm
  · rw [if_neg hzero, memoryBytes, if_neg (repr_ne_empty memory), Int.toInt?_repr,
      Option.filter_some]
    by_cases hrange : -(2 ^ 63) ≤ memory ∧ memory < 2 ^ 63
    · rw [if_pos (decide_eq_true hrange), Except.ok.injEq, and_iff_right hrange, eq_comm]
    · rw [if_neg (by rwa [decide_eq_true_iff])]
      exact iff_of_false (by simp) fun h ↦ hrange h.1

theorem exists_askEngine_iff {container : Container} {name : String} :
    (∃ id, askEngine w container name = .ok id) ↔ EngineMakes w container name := by
  rw [EngineMakes]
  rcases hfirst : w.containerCreate 0 container name with message | id
  · by_cases hconflict : isNameConflict message = true
    · rcases hsecond : w.containerCreate 1 container name with message' | id
      · simp [askEngine, hfirst, hsecond, hconflict, Except.mapError]
      · simp [askEngine, hfirst, hsecond, hconflict, Except.mapError]
    · simp [askEngine, hfirst, hconflict]
  · simp [askEngine, hfirst]

theorem doCreate_eq_ok_iff {req : CreateRequest} {container : Container} {id : String} :
    doCreate w req = .ok (container, id) ↔ req.image ≠ "" ∧ req.name ≠ "" ∧
      (∀ v ∈ req.volumes, isVolume v = true) ∧
      (req.network = "" ∨ isNetworkName req.network = true) ∧
      ∃ memory nanoCpus, memoryBytes w req.memory = .ok memory ∧
        cpuLimit w req.cpus = .ok nanoCpus ∧
        askEngine w (containerOf req memory nanoCpus) req.name = .ok id ∧
        containerOf req memory nanoCpus = container := by
  rw [doCreate, ← checkVolumes_eq_ok_iff (w := w)]
  by_cases himage : req.image = ""
  · rw [if_pos himage]
    exact iff_of_false (by simp) fun h ↦ h.1 himage
  by_cases hname : req.name = ""
  · rw [if_neg himage, if_pos hname]
    exact iff_of_false (by simp) fun h ↦ h.2.1 hname
  rw [if_neg himage, if_neg hname, bind_eq_ok_iff, and_iff_right himage, and_iff_right hname]
  by_cases hnetwork : req.network ≠ "" ∧ isNetworkName req.network = false
  · refine iff_of_false (fun ⟨_, _, h⟩ ↦ ?_) fun h ↦ ?_
    · rw [if_pos hnetwork] at h
      exact absurd h (by simp)
    · rcases h.2.1 with hempty | hvalid
      · exact hnetwork.1 hempty
      · exact Bool.false_ne_true (hnetwork.2.symm.trans hvalid)
  · have hnetwork' : req.network = "" ∨ isNetworkName req.network = true := by
      by_cases hempty : req.network = ""
      · exact .inl hempty
      · exact .inr (Bool.eq_true_of_not_eq_false fun hinvalid ↦ hnetwork ⟨hempty, hinvalid⟩)
    rw [and_iff_right hnetwork']
    constructor
    · rintro ⟨_, hvolumes, h⟩
      rw [if_neg hnetwork] at h
      obtain ⟨memory, hmemory, h⟩ := bind_eq_ok_iff.mp h
      obtain ⟨nanoCpus, hcpus, h⟩ := bind_eq_ok_iff.mp h
      obtain ⟨id', hid, hmade⟩ := map_eq_ok_iff.mp h
      obtain ⟨rfl, rfl⟩ := Prod.mk.inj hmade
      exact ⟨hvolumes, memory, nanoCpus, hmemory, hcpus, hid, rfl⟩
    · rintro ⟨hvolumes, memory, nanoCpus, hmemory, hcpus, hid, rfl⟩
      refine ⟨(), hvolumes, ?_⟩
      rw [if_neg hnetwork, hmemory, Except.bind, hcpus, Except.bind, hid]
      rfl

theorem forall_allVolumes_iff {volumes : Option (List String)} :
    (∀ v ∈ allVolumes volumes, isVolume v = true) ↔
      ∀ v ∈ volumes.getD [], isVolume v = true := by
  have hbuiltIn : ∀ v ∈ ["/tmp:/tmp:rw", containerHome ++ ":" ++ containerHome ++ ":rw"],
      isVolume v = true := by decide
  rw [allVolumes, List.forall_mem_append, and_iff_right hbuiltIn]

theorem goAdapterCreate_eq_some_iff {c : CreateArgs} {name : String} {made : Container × String} :
    goAdapterCreate w c name = some made ↔ w.starts = true ∧
      ∃ memory cpus, parseMemoryString w c.memory = some memory ∧ w.float c.cpus = some cpus ∧
        w.carries (createRequest w c name memory cpus) = true ∧
        doCreate w (createRequest w c name memory cpus) = .ok made := by
  rw [goAdapterCreate]
  by_cases hstarts : w.starts = true
  · rw [if_pos hstarts, and_iff_right hstarts]
    rcases hmemory : parseMemoryString w c.memory with _ | memory
    · exact iff_of_false (by simp) fun ⟨_, _, h, _⟩ ↦ absurd h (by simp)
    rcases hcpus : w.float c.cpus with _ | cpus
    · exact iff_of_false (by simp) fun ⟨_, _, _, h, _⟩ ↦ absurd h (by simp)
    dsimp only
    have hunique : ∀ {P : ℤ → F → Prop},
        (∃ m f, some memory = some m ∧ some cpus = some f ∧ P m f) ↔ P memory cpus :=
      ⟨fun ⟨_, _, hm, hf, hP⟩ ↦ Option.some.inj hm ▸ Option.some.inj hf ▸ hP,
        fun hP ↦ ⟨memory, cpus, rfl, rfl, hP⟩⟩
    rw [hunique]
    by_cases hcarries : w.carries (createRequest w c name memory cpus) = true
    · rw [if_pos hcarries, and_iff_right hcarries]
      rcases doCreate w (createRequest w c name memory cpus) with message | made'
      · exact iff_of_false (by simp [Except.toOption]) (by simp)
      · simp [Except.toOption]
    · rw [if_neg hcarries]
      exact iff_of_false (by simp) fun h ↦ hcarries h.1
  · rw [if_neg hstarts]
    exact iff_of_false (by simp) fun h ↦ hstarts h.1

theorem createContainer_eq_engine_iff {c : CreateArgs} {name id : String} {container : Container} :
    createContainer w c name = .ok (.engine container id) ↔
      w.available = true ∧ goAdapterCreate w c name = some (container, id) := by
  have hcommandLine : (buildCreateArgs c).map Made.commandLine ≠ .ok (.engine container id) := by
    intro h
    obtain ⟨args, -, hargs⟩ := map_eq_ok_iff.mp h
    exact absurd hargs (by simp)
  rw [createContainer]
  by_cases havailable : w.available = true
  · rw [if_pos havailable, and_iff_right havailable]
    rcases goAdapterCreate w c name with _ | made
    · exact iff_of_false hcommandLine (by simp)
    · simp [Prod.ext_iff]
  · rw [if_neg havailable]
    exact iff_of_false hcommandLine fun h ↦ havailable h.1

/-- **When a container is made through the adapter.** -/
theorem exists_engine_iff {c : CreateArgs} {name : String} :
    (∃ container id, createContainer w c name = .ok (.engine container id)) ↔
      Succeeds w c name := by
  simp only [createContainer_eq_engine_iff, goAdapterCreate_eq_some_iff, doCreate_eq_ok_iff]
  constructor
  · rintro ⟨container, id, havailable, hstarts, memory, cpus, hmemory, hcpus, hcarries, himage,
      hname, hvolumes, hnetwork, parsed, nanoCpus, hbytes, hlimit, hengine, rfl⟩
    obtain ⟨hrange, rfl⟩ := memoryBytes_eq_ok_iff.mp hbytes
    exact ⟨havailable, hstarts, himage, hname, forall_allVolumes_iff.mp hvolumes, hnetwork, parsed,
      cpus, nanoCpus, hmemory, hrange, hcpus, hlimit, hcarries,
      exists_askEngine_iff.mp ⟨id, hengine⟩⟩
  · rintro ⟨havailable, hstarts, himage, hname, hvolumes, hnetwork, memory, cpus, nanoCpus, hmemory,
      hrange, hcpus, hlimit, hcarries, hengine⟩
    obtain ⟨id, hid⟩ := exists_askEngine_iff.mpr hengine
    exact ⟨_, id, havailable, hstarts, memory, cpus, hmemory, hcpus, hcarries, himage, hname,
      forall_allVolumes_iff.mpr hvolumes, hnetwork, memory, nanoCpus,
      memoryBytes_eq_ok_iff.mpr ⟨hrange, rfl⟩, hlimit, hid, rfl⟩

/-! ## The comparison -/

/-- No container that `doCreate` asks for is the one that is described: it has no filesystem in
memory. -/
theorem not_sameSandbox {T : Table Setting} {limits : Limits} {c : CreateArgs} {req : CreateRequest}
    {made : Container × String} (h : doCreate w req = .ok made) :
    ¬ SameSandbox T limits c made.1 := by
  obtain ⟨-, -, -, -, memory, nanoCpus, -, -, -, hcontainer⟩ := doCreate_eq_ok_iff.mp h
  intro hsame
  have htmp := hsame.hardened.tmp
  rw [← hcontainer] at htmp
  exact absurd htmp List.not_mem_nil

/-- **When the two ways make one sandbox**: exactly if no container is made through the adapter. -/
theorem oneSandbox_iff (w : Surroundings F) (T : Table Setting) (limits : Limits) (c : CreateArgs)
    (name : String) : OneSandbox w T limits c name ↔ ¬ Succeeds w c name := by
  rw [← exists_engine_iff]
  constructor
  · rintro hsame ⟨container, id, hmade⟩
    have hadapter := (createContainer_eq_engine_iff.mp hmade).2
    obtain ⟨-, memory, cpus, -, -, -, hcreate⟩ := goAdapterCreate_eq_some_iff.mp hadapter
    exact not_sameSandbox hcreate (hsame container id hmade)
  · intro hnone container id hmade
    exact absurd ⟨container, id, hmade⟩ hnone

end Compare

/-! ## The command line -/

section CommandLine

variable {T : Table Setting} {c : CreateArgs}

/-- The options that `_build_create_args` writes itself, with what they set. -/
def writtenOptions : List (String × Setting) :=
  [("--rm", .rm), ("-i", .interactive), ("--init", .init), ("--network", .network),
    ("--memory", .memory), ("--cpus", .cpus), ("--read-only", .readOnly), ("--cap-drop", .capDrop),
    ("--security-opt", .securityOpt), ("--tmpfs", .tmpfs), ("-e", .env), ("-v", .volume),
    ("--label", .label)]

theorem mem_writtenOptions {o : String × Setting × String} (h : o ∈ baselineOptions c) :
    (o.1, o.2.1) ∈ writtenOptions := by
  simp only [baselineOptions, List.mem_append, List.mem_flatMap] at h
  rcases h with ((((h | ⟨cap, -, h⟩) | h) | ⟨volume, -, h⟩) | ⟨label, -, h⟩) | ⟨assignment, -, h⟩
  all_goals
    simp only [List.mem_cons, List.not_mem_nil, or_false] at h
  · rcases h with rfl | rfl | rfl | rfl | rfl | rfl | rfl <;> simp [writtenOptions]
  · simp [h, writtenOptions]
  · rcases h with rfl | rfl | rfl | rfl | rfl | rfl <;> simp [writtenOptions]
  all_goals
    simp [h, writtenOptions]

/-- Without `extra_args`, docker reads the options of the configuration, and then the image with
its arguments. -/
theorem parse_commandLine (hT : Documented T) (hextra : c.extraArgs.getD [] = [])
    (himage : c.imageTag.toList.head? ≠ some '-') :
    ∃ args, buildCreateArgs c = .ok args ∧ parse T (commandLine c args)
      = some ((baselineOptions c).map fun o ↦ ⟨.config, o.1, o.2.1, o.2.2⟩,
        c.imageTag :: c.runtimeArgs) := by
  have hargs : buildCreateArgs c = .ok _ :=
    buildCreateArgs_eq_ok_iff.mpr ⟨by simp [hextra], rfl⟩
  have hgiven : given c = (.command, c.imageTag) :: c.runtimeArgs.map fun t ↦ (.command, t) := by
    rw [given, hextra]
    rfl
  have hscan : scan T .ready (given c) = ([], .ended (c.imageTag :: c.runtimeArgs)) := by
    have hplain : (c.runtimeArgs.map fun t ↦ (Origin.command, t)).map Prod.snd = c.runtimeArgs := by
      rw [List.map_map]
      exact List.map_id _
    rw [hgiven]
    dsimp only [scan, step]
    rw [readToken_operand himage]
    dsimp only
    rw [scan_ended, hplain]
    rfl
  refine ⟨_, hargs, ?_⟩
  rw [parse, commandLine_eq hargs, scan_append, reads_baseline hT c Origin Origin.config]
  dsimp only
  rw [hscan, List.append_nil]

theorem mem_valuesOf {entries : List (Options.Entry Origin Setting)} {setting : Setting}
    {value : String} :
    value ∈ valuesOf entries setting ↔ ∃ e ∈ entries, e.setting = setting ∧ e.value = value := by
  simp [valuesOf, and_assoc]

theorem mem_valuesOf_baseline {setting : Setting} {value : String} :
    value ∈ valuesOf ((baselineOptions c).map fun o ↦ ⟨.config, o.1, o.2.1, o.2.2⟩) setting ↔
      ∃ token, (token, setting, value) ∈ baselineOptions c := by
  simp [mem_valuesOf]

theorem isOn_baseline {token : String} {setting : Setting}
    (hmem : (token, setting, switchedOn) ∈ baselineOptions c)
    (honly : ∀ token value, (token, setting, value) ∈ baselineOptions c → value = switchedOn) :
    isOn ((baselineOptions c).map fun o ↦ ⟨.config, o.1, o.2.1, o.2.2⟩) setting = true := by
  have hvalue := mem_valuesOf_baseline.mpr ⟨token, hmem⟩
  rw [isOn, List.getLast?_eq_some_getLast (List.ne_nil_of_mem hvalue), Option.any_some]
  obtain ⟨token', hlast⟩ := mem_valuesOf_baseline.mp (List.getLast_mem (List.ne_nil_of_mem hvalue))
  rw [honly token' _ hlast]
  decide

theorem hardened_ofEntries {entries : List (Options.Entry Origin Setting)}
    {configured : List String} (limits : Limits)
    (hvolumes : ∀ v ∈ valuesOf entries .volume, v ∈ configured)
    (htmp : "/tmp:rw,nosuid,size=64m,mode=1777" ∈ valuesOf entries .tmpfs)
    (hhome : containerHome ++ ":rw,nosuid,size=64m,mode=1777" ∈ valuesOf entries .tmpfs)
    (hsecurity : "no-new-privileges" ∈ valuesOf entries .securityOpt)
    (hrm : isOn entries .rm = true) :
    (Isolation.ofEntries limits entries).Hardened configured where
  volumes := hvolumes
  tmp := List.mem_map.mpr ⟨_, htmp, by decide⟩
  home := List.mem_map.mpr ⟨_, hhome, by decide⟩
  noNewPrivileges := List.contains_iff_mem.mpr hsecurity
  autoRemove := hrm

/-- **The command line describes the baseline**, as long as `extra_args` do not change it: docker
reads the options that were written, each with its value, and no value as an option. -/
theorem hardened_commandLine (hT : Documented T) (limits : Limits)
    (hextra : c.extraArgs.getD [] = []) (himage : c.imageTag.toList.head? ≠ some '-') :
    ∃ args entries, buildCreateArgs c = .ok args ∧
      parse T (commandLine c args) = some (entries, c.imageTag :: c.runtimeArgs) ∧
      (Isolation.ofEntries limits entries).Hardened (c.volumes.getD []) ∧
      (Isolation.ofEntries limits entries).readOnly = true ∧
      "ALL" ∈ (Isolation.ofEntries limits entries).capDrop ∧
      entries.map (fun e ↦ (e.token, e.setting, e.value)) = baselineOptions c ∧
      ∀ e ∈ entries, (e.token, e.setting) ∈ writtenOptions := by
  obtain ⟨args, hargs, hparse⟩ := parse_commandLine hT hextra himage
  refine ⟨args, _, hargs, hparse, hardened_ofEntries limits ?_ ?_ ?_ ?_ ?_, ?_, ?_, ?_, ?_⟩
  · intro volume hvolume
    obtain ⟨token, hmem⟩ := mem_valuesOf_baseline.mp hvolume
    simp [baselineOptions, defaultCapDrop] at hmem
    exact hmem.1
  · exact mem_valuesOf_baseline.mpr ⟨"--tmpfs", by simp [baselineOptions]⟩
  · exact mem_valuesOf_baseline.mpr ⟨"--tmpfs", by simp [baselineOptions]⟩
  · exact mem_valuesOf_baseline.mpr ⟨"--security-opt", by simp [baselineOptions]⟩
  · have hrm : ("--rm", Setting.rm, switchedOn) ∈ baselineOptions c := by simp [baselineOptions]
    refine isOn_baseline hrm fun token value hmem ↦ ?_
    simp [baselineOptions, defaultCapDrop] at hmem
    exact hmem.2
  · have honly : ("--read-only", Setting.readOnly, switchedOn) ∈ baselineOptions c := by
      simp [baselineOptions]
    refine isOn_baseline honly fun token value hmem ↦ ?_
    simp [baselineOptions, defaultCapDrop] at hmem
    exact hmem.2
  · exact mem_valuesOf_baseline.mpr ⟨"--cap-drop", by simp [baselineOptions, defaultCapDrop]⟩
  · rw [List.map_map]
    exact List.map_id _
  · intro e he
    obtain ⟨o, ho, rfl⟩ := List.mem_map.mp he
    exact mem_writtenOptions ho

/-- A backend whose values all look like options. -/
def dashed : CreateArgs where
  imageTag := "arguslocal/uvx:latest"
  runtimeArgs := ["--privileged", "-v/:/host"]
  env := some (.single "--cap-add" "ALL")
  network := "--pid=host"
  memory := "--privileged"
  cpus := "-v/:/host"
  volumes := some ["--", "data:/data"]
  extraArgs := none
  labels := some (.single "--userns" "host")

theorem hardened_commandLine_dashed : ∃ args entries, buildCreateArgs dashed = .ok args ∧
    parse docker (commandLine dashed args)
      = some (entries, ["arguslocal/uvx:latest", "--privileged", "-v/:/host"]) ∧
    (Isolation.ofEntries ⟨fun _ ↦ none, fun _ ↦ none⟩ entries).Hardened ["--", "data:/data"] ∧
    (Isolation.ofEntries ⟨fun _ ↦ none, fun _ ↦ none⟩ entries).readOnly = true ∧
    "ALL" ∈ (Isolation.ofEntries ⟨fun _ ↦ none, fun _ ↦ none⟩ entries).capDrop ∧
    entries.map (fun e ↦ (e.token, e.setting, e.value)) = baselineOptions dashed ∧
    ∀ e ∈ entries, (e.token, e.setting) ∈ writtenOptions :=
  hardened_commandLine (c := dashed) documented_docker _ rfl (by decide)

end CommandLine

/-- An engine that makes every container, and an adapter that reaches it. -/
def willing : Surroundings Unit where
  digit := fun c ↦ if c.isDigit then some (c.toNat - '0'.toNat) else none
  lower := ConfigSchema.lower
  float := fun _ ↦ some ()
  isZero := fun _ ↦ false
  floatText := fun _ ↦ "1.0"
  nanoCpus := fun _ ↦ .ok 1000000000
  quote := fun s ↦ "\"" ++ s ++ "\""
  available := true
  starts := true
  carries := fun _ ↦ true
  containerCreate := fun _ _ _ ↦ .ok "4f1c2d"

/-- A backend with the defaults gets a container that is not the one described. -/
theorem not_forall_oneSandbox : ¬ ∀ (T : Table Setting) (limits : Limits) (c : CreateArgs)
    (name : String), OneSandbox willing T limits c name := by
  intro h
  have hmemory : parseMemoryString willing "512m" = some 536870912 := by decide +kernel
  have hengine : EngineMakes willing (containerOf (createRequest willing (withExtraArgs []) "files"
      536870912 ()) 536870912 1000000000) "files" := .inl ⟨_, rfl⟩
  have hsucceeds : Succeeds willing (withExtraArgs []) "files" :=
    ⟨rfl, rfl, by decide, by decide, by decide, .inr (by decide), _, (), _, hmemory, by decide, rfl,
      rfl, rfl, hengine⟩
  obtain ⟨container, id, hmade⟩ := exists_engine_iff.mpr hsucceeds
  have hadapter := (createContainer_eq_engine_iff.mp hmade).2
  obtain ⟨-, memory, cpus, -, -, -, hcreate⟩ := goAdapterCreate_eq_some_iff.mp hadapter
  exact not_sameSandbox hcreate (h docker ⟨fun _ ↦ none, fun _ ↦ none⟩ _ _ container id hmade)

end Sandbox

end ArgusMcp
