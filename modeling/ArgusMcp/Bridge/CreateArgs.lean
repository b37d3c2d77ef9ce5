import ArgusMcp.Config.Schema
import ArgusMcp.Library.Dict
import ArgusMcp.Library.Options

/-!
# The arguments of `docker create`

What `_build_create_args` writes and what docker reads in it. The options that the configuration
decides come first, then `extra_args`, then the image with its arguments. Docker's options are a
table, of which only what is documented is used (`Documented`). The first part is read as it is
meant, whatever the values in it are (`reads_baseline`), so `extra_args` start where an option may
stand.
-/

namespace ArgusMcp

namespace Sandbox

open ConfigSchema Options

/-! ## Options of docker -/

/-- What the options of `docker create` set. -/
inductive Setting where
  | rm
  | interactive
  | init
  | network
  | memory
  | cpus
  | readOnly
  | capDrop
  | capAdd
  | securityOpt
  | tmpfs
  | env
  | volume
  | mount
  | label
  | privileged
  | device
  | pid
  | ipc
  | userns
  | uts
  | addHost
  | other (name : String)
  deriving DecidableEq

/-- Settings of which there is one, so a later option overrides an earlier one. -/
def Setting.isSingle : Setting → Bool
  | .rm | .interactive | .init | .network | .memory | .cpus | .readOnly => true
  | .privileged | .pid | .ipc | .userns | .uts => true
  | _ => false

def longOptions : List (String × Spec Setting) :=
  [("rm", ⟨.rm, false⟩), ("interactive", ⟨.interactive, false⟩), ("init", ⟨.init, false⟩),
    ("network", ⟨.network, true⟩), ("net", ⟨.network, true⟩), ("memory", ⟨.memory, true⟩),
    ("cpus", ⟨.cpus, true⟩), ("read-only", ⟨.readOnly, false⟩), ("cap-drop", ⟨.capDrop, true⟩),
    ("cap-add", ⟨.capAdd, true⟩), ("security-opt", ⟨.securityOpt, true⟩), ("tmpfs", ⟨.tmpfs, true⟩),
    ("env", ⟨.env, true⟩), ("volume", ⟨.volume, true⟩), ("mount", ⟨.mount, true⟩),
    ("label", ⟨.label, true⟩), ("privileged", ⟨.privileged, false⟩), ("device", ⟨.device, true⟩),
    ("pid", ⟨.pid, true⟩), ("ipc", ⟨.ipc, true⟩), ("userns", ⟨.userns, true⟩),
    ("uts", ⟨.uts, true⟩), ("add-host", ⟨.addHost, true⟩)]

def shortOptions : List (Char × Spec Setting) :=
  [('i', ⟨.interactive, false⟩), ('t', ⟨.other "tty", false⟩), ('m', ⟨.memory, true⟩),
    ('e', ⟨.env, true⟩), ('v', ⟨.volume, true⟩), ('l', ⟨.label, true⟩)]

/-- Docker has these options, and no other names for those of which there is one and that
`DANGEROUS_DOCKER_FLAGS` is about. -/
structure Documented (T : Table Setting) : Prop where
  long : ∀ o ∈ longOptions, T.long o.1 = some o.2
  short : ∀ o ∈ shortOptions, T.short o.1 = some o.2
  long_single : ∀ name o, T.long name = some o →
    o.setting ∈ [.network, .privileged, .pid, .ipc, .userns, .uts] →
    name ∈ ["network", "net", "privileged", "pid", "ipc", "userns", "uts"]
  short_single : ∀ c o, T.short c = some o →
    o.setting ∉ [.network, .privileged, .pid, .ipc, .userns, .uts]

/-- The options above, and no others. -/
def docker : Table Setting where
  long name := longOptions.lookup name
  short c := shortOptions.lookup c

/-! ## The command line -/

def containerHome : String := "/home/nonroot"

def defaultCapDrop : List String := ["ALL"]

def defaultNetwork : String := "bridge"

def effectiveNetwork (configured : Option String) : String :=
  match configured with
  | none => defaultNetwork
  | some network => if strip network = "" then defaultNetwork else strip network

/-- The parameters of `_build_create_args`. -/
structure CreateArgs where
  imageTag : String
  runtimeArgs : List String
  env : Option (Dict String String)
  network : String
  memory : String
  cpus : String
  volumes : Option (List String)
  extraArgs : Option (List String)
  labels : Option (Dict String String)

/-- `sorted(d.items())`. -/
def sortedItems (d : Option (Dict String String)) : List (String × String) :=
  match d with
  | none => []
  | some d => d.items.mergeSort fun a b ↦ a.1 ≤ b.1

/-- The options between `create` and `extra_args`. -/
def baseline (c : CreateArgs) : List String :=
  ["--rm", "-i", "--init", "--network", c.network, "--memory", c.memory, "--cpus", c.cpus,
    "--read-only"] ++
    (defaultCapDrop.flatMap fun cap ↦ ["--cap-drop", cap]) ++
    ["--security-opt", "no-new-privileges", "--security-opt", "label=disable",
      "--tmpfs", "/tmp:rw,nosuid,size=64m,mode=1777",
      "--tmpfs", containerHome ++ ":rw,nosuid,size=64m,mode=1777",
      "-e", "HOME=" ++ containerHome, "-e", "TMPDIR=/tmp"] ++
    ((c.volumes.getD []).flatMap fun vol ↦ ["-v", vol]) ++
    ((sortedItems c.labels).flatMap fun e ↦ ["--label", e.1 ++ "=" ++ e.2]) ++
    ((sortedItems c.env).flatMap fun e ↦ ["-e", e.1 ++ "=" ++ e.2])

/-- `flag.lstrip("-").split("=")[0]`. -/
def bareName (flag : String) : String :=
  .ofList ((flag.toList.dropWhile (· = '-')).takeWhile (· ≠ '='))

/-- A flag that `_build_create_args` refuses. -/
def isRejected (flag : String) : Bool :=
  flag ∈ dangerousDockerFlags || "--" ++ bareName flag ∈ dangerousDockerFlags

/-- A list of texts as it is printed. -/
def listText (l : List String) : String :=
  "[" ++ ", ".intercalate (l.map fun s ↦ "'" ++ s ++ "'") ++ "]"

/-- The loop over `extra_args`. -/
def guardFlags : List String → Except String (List String)
  | [] => .ok []
  | flag :: flags =>
    if isRejected flag then
      .error ("Dangerous Docker flag '" ++ flag ++ "' rejected in extra_args. Blocked flags: " ++
        listText (dangerousDockerFlags.mergeSort fun a b ↦ a ≤ b))
    else (guardFlags flags).map (flag :: ·)

def buildCreateArgs (c : CreateArgs) : Except String (List String) :=
  (guardFlags (c.extraArgs.getD [])).map fun extra ↦
    "create" :: baseline c ++ extra ++ c.imageTag :: c.runtimeArgs

theorem guardFlags_eq_ok_iff {flags extra : List String} :
    guardFlags flags = .ok extra ↔ (∀ flag ∈ flags, isRejected flag = false) ∧ flags = extra := by
  induction flags generalizing extra with
  | nil => simp [guardFlags]
  | cons flag flags ih =>
    rw [guardFlags, List.forall_mem_cons]
    by_cases h : isRejected flag = true
    · rw [if_pos h]
      exact iff_of_false (by simp) fun hall ↦ absurd h (ne_true_of_eq_false hall.1.1)
    · rw [if_neg h, map_eq_ok_iff]
      constructor
      · rintro ⟨extra', hextra, rfl⟩
        obtain ⟨hall, rfl⟩ := ih.mp hextra
        exact ⟨⟨eq_false_of_ne_true h, hall⟩, rfl⟩
      · rintro ⟨⟨-, hall⟩, rfl⟩
        exact ⟨flags, ih.mpr ⟨hall, rfl⟩, rfl⟩

theorem buildCreateArgs_eq_ok_iff {c : CreateArgs} {args : List String} :
    buildCreateArgs c = .ok args ↔ (∀ flag ∈ c.extraArgs.getD [], isRejected flag = false) ∧
      "create" :: baseline c ++ c.extraArgs.getD [] ++ c.imageTag :: c.runtimeArgs = args := by
  rw [buildCreateArgs, map_eq_ok_iff]
  constructor
  · rintro ⟨extra, hextra, rfl⟩
    obtain ⟨hall, rfl⟩ := guardFlags_eq_ok_iff.mp hextra
    exact ⟨hall, rfl⟩
  · rintro ⟨hall, rfl⟩
    exact ⟨_, guardFlags_eq_ok_iff.mpr ⟨hall, rfl⟩, rfl⟩

/-! ## What docker reads -/

/-- The options of the first part. -/
def baselineOptions (c : CreateArgs) : List (String × Setting × String) :=
  [("--rm", .rm, switchedOn), ("-i", .interactive, switchedOn), ("--init", .init, switchedOn),
    ("--network", .network, c.network), ("--memory", .memory, c.memory), ("--cpus", .cpus, c.cpus),
    ("--read-only", .readOnly, switchedOn)] ++
    (defaultCapDrop.flatMap fun cap ↦ [("--cap-drop", Setting.capDrop, cap)]) ++
    [("--security-opt", .securityOpt, "no-new-privileges"),
      ("--security-opt", .securityOpt, "label=disable"),
      ("--tmpfs", .tmpfs, "/tmp:rw,nosuid,size=64m,mode=1777"),
      ("--tmpfs", .tmpfs, containerHome ++ ":rw,nosuid,size=64m,mode=1777"),
      ("-e", .env, "HOME=" ++ containerHome), ("-e", .env, "TMPDIR=/tmp")] ++
    ((c.volumes.getD []).flatMap fun vol ↦ [("-v", Setting.volume, vol)]) ++
    ((sortedItems c.labels).flatMap fun e ↦ [("--label", Setting.label, e.1 ++ "=" ++ e.2)]) ++
    ((sortedItems c.env).flatMap fun e ↦ [("-e", Setting.env, e.1 ++ "=" ++ e.2)])

section Baseline

variable {T : Table Setting}

theorem mem_of_lookup_eq_some {κ ν : Type} [DecidableEq κ] {l : List (κ × ν)} {k : κ} {v : ν}
    (h : l.lookup k = some v) : (k, v) ∈ l := by
  obtain ⟨l₁, l₂, rfl, -⟩ := List.lookup_eq_some_iff.mp h
  exact List.mem_append_right l₁ List.mem_cons_self

theorem documented_docker : Documented docker where
  long := by decide
  short := by decide
  long_single name o h := by
    have hall : ∀ p ∈ longOptions,
        p.2.setting ∈ [.network, .privileged, .pid, .ipc, .userns, .uts] →
        p.1 ∈ ["network", "net", "privileged", "pid", "ipc", "userns", "uts"] := by decide
    exact hall (name, o) (mem_of_lookup_eq_some h)
  short_single c o h := by
    have hall : ∀ p ∈ shortOptions,
        p.2.setting ∉ [.network, .privileged, .pid, .ipc, .userns, .uts] := by decide
    exact hall (c, o) (mem_of_lookup_eq_some h)

theorem reads_long (hT : Documented T) {name : String} {o : Spec Setting}
    (h : (name, o) ∈ longOptions) :
    readToken T ("--" ++ name) =
      if o.takesValue then .options [] (some o.setting)
      else .options [(o.setting, switchedOn)] none := by
  have hnames : ∀ p ∈ longOptions, p.1.toList ≠ [] ∧
      p.1.toList.head? ∉ [some '-', some '='] ∧ '=' ∉ p.1.toList := by decide
  have hname := hnames (name, o) h
  have htoken : ("--" ++ name).toList = '-' :: '-' :: name.toList := by
    rw [String.toList_append]
    rfl
  have hall : ∀ c ∈ name.toList, decide (c ≠ '=') = true := by
    intro c hc
    exact decide_eq_true fun heq ↦ hname.2.2 (heq ▸ hc)
  rw [readToken_long htoken hname.1, readLong, if_neg hname.2.1, longName,
    List.takeWhile_eq_self_iff.mpr hall, String.ofList_toList,
    List.dropWhile_eq_nil_iff.mpr hall, hT.long (name, o) h]

theorem reads_baseline (hT : Documented T) (c : CreateArgs) :
    Reads T (baseline c) (baselineOptions c) := by
  have hswitch (name : String) (setting : Setting) (h : (name, ⟨setting, false⟩) ∈ longOptions) :
      readToken T ("--" ++ name) = .options [(setting, switchedOn)] none := by
    exact reads_long hT h
  have hvalued (name : String) (setting : Setting) (h : (name, ⟨setting, true⟩) ∈ longOptions) :
      readToken T ("--" ++ name) = .options [] (some setting) := by
    exact reads_long hT h
  have hinteractive : readToken T "-i" = .options [(.interactive, switchedOn)] none := by
    have h := hT.short ('i', ⟨.interactive, false⟩) (by decide)
    simp [readToken, readShort, h]
  have hvolume : readToken T "-v" = .options [] (some .volume) := by
    have h := hT.short ('v', ⟨.volume, true⟩) (by decide)
    simp [readToken, readShort, h]
  have henv : readToken T "-e" = .options [] (some .env) := by
    have h := hT.short ('e', ⟨.env, true⟩) (by decide)
    simp [readToken, readShort, h]
  refine .append (.append (.append (.append (.append ?_ ?_) ?_) ?_) ?_) ?_
  · refine .switch (hswitch "rm" .rm (by decide)) (.switch hinteractive ?_)
    refine .switch (hswitch "init" .init (by decide)) ?_
    refine .valued (hvalued "network" .network (by decide)) ?_
    refine .valued (hvalued "memory" .memory (by decide)) ?_
    refine .valued (hvalued "cpus" .cpus (by decide)) ?_
    exact .switch (hswitch "read-only" .readOnly (by decide)) .nil
  · exact .flatMap (fun cap ↦ .valued (hvalued "cap-drop" .capDrop (by decide)) .nil) _
  · refine .valued (hvalued "security-opt" .securityOpt (by decide)) ?_
    refine .valued (hvalued "security-opt" .securityOpt (by decide)) ?_
    refine .valued (hvalued "tmpfs" .tmpfs (by decide)) ?_
    refine .valued (hvalued "tmpfs" .tmpfs (by decide)) ?_
    exact .valued henv (.valued henv .nil)
  · exact .flatMap (fun vol ↦ .valued hvolume .nil) _
  · exact .flatMap (fun e ↦ .valued (hvalued "label" .label (by decide)) .nil) _
  · exact .flatMap (fun e ↦ .valued henv .nil) _

end Baseline

end Sandbox

end ArgusMcp
