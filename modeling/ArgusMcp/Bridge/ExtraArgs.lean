import ArgusMcp.Bridge.CreateArgs

/-!
# Dangerous container flags

`extra_args` are looked through one at a time, for the flags of `DANGEROUS_DOCKER_FLAGS` and for what
comes before an equals sign. Docker reads options. None of the settings that the list names is made
from `extra_args` exactly if docker refuses the command line, or no short option in them sets one of
those that add up, and the network is not the host's at the end (`confined_iff`). What passes is a
volume in one token with its flag, as in `-v/:/host`, or after other letters, as in `-iv`, and
`--network` or `--net` with `host` in a token of its own.
-/

namespace ArgusMcp

namespace Sandbox

open ConfigSchema Options

/-- Where a token of the command line comes from. -/
inductive Origin where
  | config
  | extraArgs
  | command
  deriving DecidableEq

/-- Where the tokens after `create` come from. -/
def origins (c : CreateArgs) : List Origin :=
  List.replicate (baseline c).length .config ++
    List.replicate (c.extraArgs.getD []).length .extraArgs ++
    List.replicate (c.imageTag :: c.runtimeArgs).length .command

/-- The arguments of `docker create`, each with where it comes from. -/
def commandLine (c : CreateArgs) (args : List String) : List (Origin × String) :=
  (origins c).zip args.tail

/-- The values of a switch that turn it on. -/
def isTrue (value : String) : Bool := value ∈ ["1", "t", "T", "TRUE", "true", "True"]

/-- Settings that `DANGEROUS_DOCKER_FLAGS` names, and that add up. -/
def cumulative : List Setting := [.capAdd, .securityOpt, .device, .addHost, .volume, .mount]

/-- Settings that `DANGEROUS_DOCKER_FLAGS` names. A network is one if it is the host's. -/
def isUnsafe (isHost : String → Bool) : Setting → String → Bool
  | .privileged, value => isTrue value
  | .network, value => isHost value
  | setting, _ => setting ∈ cumulative ++ [.pid, .ipc, .userns, .uts]

/-- An option that no later one overrides. -/
def TakesEffect {τ : Type} (entries : List (Options.Entry τ Setting)) (e : Options.Entry τ Setting) : Prop :=
  ∃ before after, entries = before ++ e :: after ∧
    (e.setting.isSingle → ∀ e' ∈ after, e'.setting ≠ e.setting)

/-- Of the settings that `DANGEROUS_DOCKER_FLAGS` names, docker makes none from `extra_args`. -/
def Confined (T : Table Setting) (isHost : String → Bool) (c : CreateArgs) (args : List String) :
    Prop :=
  ∀ entries operands, parse T (commandLine c args) = some (entries, operands) →
    ∀ e, TakesEffect entries e → e.tag = .extraArgs → isUnsafe isHost e.setting e.value = false

/-- The tokens from `extra_args` on. -/
def given (c : CreateArgs) : List (Origin × String) :=
  (c.extraArgs.getD []).map (fun t ↦ (Origin.extraArgs, t)) ++
    (c.imageTag :: c.runtimeArgs).map fun t ↦ (Origin.command, t)

/-- Tokens that set one of the settings that add up, in a way the list does not name: with a letter,
or under another long name. -/
inductive Slips (T : Table Setting) (token : String) : Prop
  | short {letters : List Char} {setting : Setting} (htoken : token.toList = '-' :: letters)
      (hletters : letters.head? ≠ some '-') (hreads : setting ∈ (readToken T token).settings)
      (hsetting : setting ∈ cumulative)
  | unlisted {body : List Char} {setting : Setting} (htoken : token.toList = '-' :: '-' :: body)
      (hname : "--" ++ longName body ∉ dangerousDockerFlags)
      (hreads : setting ∈ (readToken T token).settings) (hsetting : setting ∈ cumulative)

/-- The last of the networks that docker reads from `extra_args` on. -/
def lastNetwork (T : Table Setting) (c : CreateArgs) : Option (Options.Entry Origin Setting) :=
  ((scan T .ready (given c)).1.filter fun e ↦ e.setting = .network).getLast?

section

variable {T : Table Setting} {isHost : String → Bool} {c : CreateArgs} {args : List String}

/-! ## What the check refuses -/

theorem isDangerous_of_listed {token : String} {body : List Char}
    (htoken : token.toList = '-' :: '-' :: body)
    (hname : "--" ++ longName body ∈ dangerousDockerFlags) : isDangerous token = true := by
  have hstrip : ∀ flag ∈ dangerousDockerFlags, strip flag = flag := by decide
  have hflag : flagOf token = "--" ++ longName body := by
    rw [flagOf, htoken]
    have htake : ('-' :: '-' :: body).takeWhile (fun c ↦ decide (c ≠ '=')) =
        ("--" ++ longName body).toList := by
      rw [List.takeWhile_cons_of_pos (by decide), List.takeWhile_cons_of_pos (by decide),
        String.toList_append, longName, String.toList_ofList, String.toList_ofList]
      rfl
    rw [htake, String.ofList_toList, hstrip _ hname]
  rw [isDangerous, hflag]
  exact Bool.or_eq_true_iff.mpr (Or.inr (decide_eq_true hname))

theorem commandLine_eq (h : buildCreateArgs c = .ok args) :
    commandLine c args = (baseline c).map (fun t ↦ (Origin.config, t)) ++ given c := by
  obtain ⟨-, rfl⟩ := buildCreateArgs_eq_ok_iff.mp h
  refine (List.zip_of_prod ?_ ?_).symm
  · rw [given, List.map_append, List.map_append, origins]
    simp [Function.comp_def, List.map_const', List.append_assoc, List.replicate_succ]
  · rw [given, List.map_append, List.map_append]
    simp [Function.comp_def, List.append_assoc]

/-! ## What takes effect -/

theorem takesEffect_of_mem {entries : List (Options.Entry Origin Setting)} {e : Options.Entry Origin Setting}
    (he : e ∈ entries) (h : e.setting.isSingle = false) : TakesEffect entries e := by
  obtain ⟨before, after, heq⟩ := List.append_of_mem he
  exact ⟨before, after, heq, fun hsingle ↦ absurd (h.symm.trans hsingle) Bool.false_ne_true⟩

/-- Options from elsewhere that come before have no influence. -/
theorem takesEffect_append_iff {front back : List (Options.Entry Origin Setting)} {e : Options.Entry Origin Setting}
    (hfront : e ∉ front) : TakesEffect (front ++ back) e ↔ TakesEffect back e := by
  constructor
  · rintro ⟨before, after, heq, hlast⟩
    obtain ⟨middle, hbefore, hback⟩ | ⟨middle, hfront', hback⟩ := List.append_eq_append_iff.mp heq
    · exact ⟨middle, after, hback, hlast⟩
    · cases middle with
      | nil => exact ⟨[], after, hback.symm, hlast⟩
      | cons e' middle =>
        obtain ⟨rfl, -⟩ := List.cons.inj hback
        rw [hfront'] at hfront
        exact absurd (List.mem_append_right before List.mem_cons_self) hfront
  · rintro ⟨before, after, rfl, hlast⟩
    exact ⟨front ++ before, after, by rw [List.append_assoc], hlast⟩

theorem getLast?_network_iff {entries : List (Options.Entry Origin Setting)} {e : Options.Entry Origin Setting} :
    (entries.filter fun e ↦ e.setting = .network).getLast? = some e ↔
      TakesEffect entries e ∧ e.setting = .network := by
  rw [List.getLast?_eq_some_iff]
  constructor
  · rintro ⟨ys, hys⟩
    obtain ⟨before, rest, rfl, -, hrest⟩ := List.filter_eq_append_iff.mp hys
    obtain ⟨skipped, after, rfl, -, hnetwork, hafter⟩ := List.filter_eq_cons_iff.mp hrest
    have hsetting : e.setting = .network := of_decide_eq_true hnetwork
    refine ⟨⟨before ++ skipped, after, by rw [List.append_assoc], fun _ e' he' ↦ ?_⟩, hsetting⟩
    rw [hsetting]
    exact fun h ↦ absurd (decide_eq_true h) (List.filter_eq_nil_iff.mp hafter e' he')
  · rintro ⟨⟨before, after, rfl, hlast⟩, hsetting⟩
    have hafter : after.filter (fun e ↦ e.setting = .network) = [] := by
      rw [List.filter_eq_nil_iff]
      intro e' he' h
      exact hlast (by rw [hsetting]; rfl) e' he' ((of_decide_eq_true h).trans hsetting.symm)
    refine ⟨before.filter fun e ↦ e.setting = .network, ?_⟩
    rw [List.filter_append, List.filter_cons_of_pos (by simp [hsetting]), hafter]

/-! ## Where the options come from -/

theorem mem_extraArgs_of_head {token : String}
    (h : (Origin.extraArgs, token) ∈ heads T .ready (given c)) : token ∈ c.extraArgs.getD [] := by
  have hmem := (heads_sublist _ _).subset h
  rcases List.mem_append.mp hmem with hextra | hcommand
  · obtain ⟨t, ht, heq⟩ := List.mem_map.mp hextra
    exact (Prod.mk.inj heq).2 ▸ ht
  · obtain ⟨t, -, heq⟩ := List.mem_map.mp hcommand
    exact absurd (Prod.mk.inj heq).1 (by decide)

theorem settings_of_slips {token : String} (h : Slips T token) :
    ∃ setting ∈ (readToken T token).settings, setting ∈ cumulative := by
  cases h with
  | short _ _ hreads hsetting => exact ⟨_, hreads, hsetting⟩
  | unlisted _ _ hreads hsetting => exact ⟨_, hreads, hsetting⟩

theorem isSingle_of_cumulative {setting : Setting} (h : setting ∈ cumulative) :
    setting.isSingle = false :=
  (show ∀ s ∈ cumulative, s.isSingle = false by decide) setting h

theorem isUnsafe_of_cumulative {setting : Setting} {value : String} (h : setting ∈ cumulative) :
    isUnsafe isHost setting value = true := by
  have hall : ∀ s ∈ cumulative, isUnsafe isHost s value = true := by simp [cumulative, isUnsafe]
  exact hall setting h

/-- A setting that adds up, and that the check has let pass. -/
theorem slips_of_setting {token : String} {setting : Setting}
    (h : setting ∈ (readToken T token).settings) (hsetting : setting ∈ cumulative)
    (haccepted : isDangerous token = false) : Slips T token := by
  rcases long_or_short h with ⟨body, htoken⟩ | ⟨letters, htoken, hletters, -⟩
  · refine .unlisted htoken (fun hlisted ↦ ?_) h hsetting
    exact absurd (isDangerous_of_listed htoken hlisted) (ne_true_of_eq_false haccepted)
  · exact .short htoken hletters h hsetting

/-- Of those settings of which there is one, only the network can be made with other names than the
list has. -/
theorem isDangerous_of_single (hT : Documented T) {token : String} {setting : Setting}
    (h : setting ∈ (readToken T token).settings)
    (hsetting : setting ∈ [.privileged, .pid, .ipc, .userns, .uts]) : isDangerous token = true := by
  have hsingle : setting ∈ [.network, .privileged, .pid, .ipc, .userns, .uts] :=
    List.mem_cons_of_mem _ hsetting
  rcases long_or_short h with ⟨body, htoken⟩ | ⟨letters, -, -, hread⟩
  · obtain ⟨o, ho, rfl⟩ := setting_of_long htoken h
    refine isDangerous_of_listed htoken ?_
    have hnames := hT.long_single _ o ho hsingle
    have hnetwork {name : String} (hname : (name, ⟨.network, true⟩) ∈ longOptions) :
        longName body ≠ name := by
      rintro rfl
      rw [hT.long _ hname] at ho
      obtain rfl := Option.some.inj ho
      exact absurd hsetting (by simp)
    have hnames' : longName body ∈ ["privileged", "pid", "ipc", "userns", "uts"] := by
      rcases List.mem_cons.mp hnames with hname | hnames
      · exact absurd hname (hnetwork (by decide))
      · rcases List.mem_cons.mp hnames with hname | hnames
        · exact absurd hname (hnetwork (by decide))
        · exact hnames
    have hlisted : ∀ name ∈ ["privileged", "pid", "ipc", "userns", "uts"],
        "--" ++ name ∈ dangerousDockerFlags := by decide
    exact hlisted _ hnames'
  · rw [hread] at h
    obtain ⟨letter, -, o, ho, rfl⟩ := setting_of_short h
    exact absurd hsingle (hT.short_single letter o ho)

theorem single_or_cumulative {setting : Setting} {value : String}
    (h : isUnsafe isHost setting value = true) :
    setting = .network ∧ isHost value = true ∨
      setting ∈ [.privileged, .pid, .ipc, .userns, .uts] ∨ setting ∈ cumulative := by
  cases setting with
  | network => exact Or.inl ⟨rfl, h⟩
  | _ => first | exact Or.inr (by decide) | exact absurd h (by simp [isUnsafe, cumulative])

/-- What docker reads after the options of the configuration. -/
theorem scan_commandLine (hT : Documented T) (h : buildCreateArgs c = .ok args) :
    ∃ front : List (Options.Entry Origin Setting), (∀ e ∈ front, e.tag = .config) ∧
      scan T .ready (commandLine c args) =
        (front ++ (scan T .ready (given c)).1, (scan T .ready (given c)).2) := by
  refine ⟨(baselineOptions c).map fun o ↦ ⟨.config, o.1, o.2.1, o.2.2⟩, ?_, ?_⟩
  · intro e he
    obtain ⟨o, -, rfl⟩ := List.mem_map.mp he
    rfl
  · rw [commandLine_eq h, scan_append, reads_baseline hT c Origin Origin.config]

/-- None of the settings that `DANGEROUS_DOCKER_FLAGS` names is made from accepted `extra_args`
exactly if docker refuses the command line, or no token of them slips through and the network that
is read last is not the host's, or not from them. -/
theorem confined_iff (hT : Documented T)
    (hconfig : ∀ arg ∈ c.extraArgs.getD [], isDangerous arg = false)
    (h : buildCreateArgs c = .ok args) :
    Confined T isHost c args ↔ parse T (given c) = none ∨
      (∀ token, (Origin.extraArgs, token) ∈ heads T .ready (given c) → ¬ Slips T token) ∧
        ∀ e, lastNetwork T c = some e → e.tag = .extraArgs → isHost e.value = false := by
  obtain ⟨front, hfront, hscan⟩ := scan_commandLine hT h
  have hnotMem {e : Options.Entry Origin Setting} (he : e.tag = .extraArgs) : e ∉ front := fun hmem ↦
    absurd ((hfront e hmem).symm.trans he) (by decide)
  by_cases hfinished : (scan T .ready (given c)).2.Finished
  · obtain ⟨operands, hparse⟩ := exists_parse_iff.mpr ⟨rfl, hfinished⟩
    have hread : ∀ entries, (∃ operands, parse T (commandLine c args) = some (entries, operands)) ↔
        entries = front ++ (scan T .ready (given c)).1 := by
      intro entries
      rw [exists_parse_iff, hscan]
      exact and_iff_left hfinished
    rw [hparse, or_iff_right (by simp)]
    constructor
    · intro hconfined
      obtain ⟨operands', hparse'⟩ := (hread _).mpr rfl
      have hsafe {e : Options.Entry Origin Setting} (he : TakesEffect (scan T .ready (given c)).1 e)
          (htag : e.tag = .extraArgs) : isUnsafe isHost e.setting e.value = false :=
        hconfined _ _ hparse' e ((takesEffect_append_iff (hnotMem htag)).mpr he) htag
      refine ⟨fun token hhead hslips ↦ ?_, fun e hlast htag ↦ ?_⟩
      · obtain ⟨setting, hsets, hcumulative⟩ := settings_of_slips hslips
        obtain ⟨e, he, htag, -, rfl⟩ := entry_of_head hhead hsets hfinished
        have heffect := takesEffect_of_mem he (isSingle_of_cumulative hcumulative)
        exact absurd (isUnsafe_of_cumulative hcumulative) (ne_true_of_eq_false (hsafe heffect htag))
      · obtain ⟨heffect, hnetwork⟩ := getLast?_network_iff.mp hlast
        have hsafe' := hsafe heffect htag
        rw [hnetwork] at hsafe'
        exact hsafe'
    · rintro ⟨hslips, hnetwork⟩ entries operands' hparse' e heffect htag
      obtain rfl := (hread _).mp ⟨operands', hparse'⟩
      have heffect' := (takesEffect_append_iff (hnotMem htag)).mp heffect
      obtain ⟨before, after, heq, -⟩ := heffect'
      have hmem : e ∈ (scan T .ready (given c)).1 := by
        rw [heq]
        exact List.mem_append_right before List.mem_cons_self
      rcases head_of_entry hmem with ⟨hhead, hsets⟩ | hawait
      · rw [htag] at hhead
        have haccepted := hconfig e.token (mem_extraArgs_of_head hhead)
        refine eq_false_of_ne_true fun hunsafe ↦ ?_
        rcases single_or_cumulative hunsafe with ⟨hsetting, hhost⟩ | hsingle | hcumulative
        · have hlast := getLast?_network_iff.mpr
            ⟨(takesEffect_append_iff (hnotMem htag)).mp heffect, hsetting⟩
          exact absurd hhost (ne_true_of_eq_false (hnetwork e hlast htag))
        · exact absurd (isDangerous_of_single hT hsets hsingle) (ne_true_of_eq_false haccepted)
        · exact hslips e.token hhead (slips_of_setting hsets hcumulative haccepted)
      · exact absurd hawait (by simp)
  · have hnone : ∀ {tokens : List (Origin × String)}, ¬ (scan T .ready tokens).2.Finished →
        parse T tokens = none := by
      intro tokens hnot
      rw [Option.eq_none_iff_forall_ne_some]
      rintro ⟨entries, operands⟩ hsome
      exact hnot (exists_parse_iff.mp ⟨operands, hsome⟩).2
    refine iff_of_true ?_ (Or.inl (hnone hfinished))
    intro entries operands hparse
    rw [hnone (by rw [hscan]; exact hfinished)] at hparse
    exact absurd hparse (by simp)

end

/-- A backend with these `extra_args`, and else the defaults. -/
def withExtraArgs (extraArgs : List String) : CreateArgs where
  imageTag := "arguslocal/uvx:latest"
  runtimeArgs := []
  env := none
  network := effectiveNetwork none
  memory := "512m"
  cpus := "1"
  volumes := none
  extraArgs := some extraArgs
  labels := none

theorem confined_label : ∃ args, buildCreateArgs (withExtraArgs ["--label", "x=y"]) = .ok args ∧
    Confined docker (· = "host") (withExtraArgs ["--label", "x=y"]) args := by
  refine ⟨_, buildCreateArgs_eq_ok_iff.mpr ⟨by decide, rfl⟩, ?_⟩
  refine (confined_iff documented_docker (by decide)
    (buildCreateArgs_eq_ok_iff.mpr ⟨by decide, rfl⟩)).mpr (Or.inr ⟨?_, ?_⟩)
  · have hheads : ∀ t ∈ heads docker .ready (given (withExtraArgs ["--label", "x=y"])),
        ∀ setting ∈ (readToken docker t.2).settings, setting ∉ cumulative := by decide
    intro token hhead hslips
    obtain ⟨setting, hreads, hsetting⟩ := settings_of_slips hslips
    exact hheads _ hhead setting hreads hsetting
  · have hnone : lastNetwork docker (withExtraArgs ["--label", "x=y"]) = none := by decide
    intro e hlast
    exact absurd (hnone.symm.trans hlast) (by simp)

/-- A volume in one token with its flag passes both checks. -/
theorem not_forall_confined : ¬ ∀ (T : Table Setting) (isHost : String → Bool) (c : CreateArgs)
    (args : List String), Documented T →
    (∀ arg ∈ c.extraArgs.getD [], isDangerous arg = false) → buildCreateArgs c = .ok args →
    Confined T isHost c args := by
  intro h
  let c := withExtraArgs ["-v/:/host"]
  let e : Options.Entry Origin Setting := ⟨.extraArgs, "-v/:/host", .volume, "/:/host"⟩
  have hargs : buildCreateArgs c = .ok _ := buildCreateArgs_eq_ok_iff.mpr ⟨by decide, rfl⟩
  have hconfined := h docker (· = "host") c _ documented_docker (by decide) hargs
  obtain ⟨front, -, hscan⟩ := scan_commandLine documented_docker hargs
  have hgiven : scan docker .ready (given c) = ([e], .ended ["arguslocal/uvx:latest"]) := by decide
  rw [hgiven] at hscan
  obtain ⟨operands, hparse⟩ := exists_parse_iff.mpr
    (⟨rfl, by rw [hscan]; trivial⟩ : _ = _ ∧ (scan docker .ready (commandLine c _)).2.Finished)
  rw [hscan] at hparse
  have hsafe := hconfined _ _ hparse e ⟨front, [], rfl, fun h ↦ absurd h (by decide)⟩ rfl
  exact absurd hsafe (by decide)

end Sandbox

end ArgusMcp
