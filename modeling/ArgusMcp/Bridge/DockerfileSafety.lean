import ArgusMcp.Bridge.DockerfileValues

/-!
# What can be written into a Dockerfile

The Dockerfile of a backend should have the instructions of its template, whatever the configuration
says. The names of packages and of system dependencies are checked for this. The base image, the
additional packages, the name of a binary and the reference that is cloned are not checked at all;
values for the environment may have line breaks in them, and the steps of a build also a backslash
at the end.

## The condition

`Contained` says of each of these that the line breaks in it are escaped, and that it does not swallow
what comes next. The Dockerfile has the instructions of its template if and only if that is so
(`intact_iff_contained`). The elements of an entrypoint need no condition, since the configuration
is refused if there is anything in them that could do harm.
-/

namespace ArgusMcp

namespace Container

open Dockerfile

/-! ## The templates -/

section Templates

variable {d : TemplateData} (henv : ∀ e ∈ d.buildEnv, isEnvKey e.1)
  (hbuild : CheckedDeps d.buildSystemDeps) (hdeps : CheckedDeps d.systemDeps)
  (hpackages : d.additionalPackages ≠ [])

include henv hbuild hdeps hpackages

theorem readBackIff_uvxTemplate (hinstall : Plain d.installCmd) :
    ReadBackIff (uvxTemplate d) (SafeEnv d.buildEnv ∧ AtEnd d.builderImage ∧
      SafePackages d.isAlpine (join d.additionalPackages) ∧ Escaped d.binary) := by
  have hpython : SafePackages d.isAlpine
      (if d.isAlpine then "python3 py3-pip".toList
        else "python3 python3-pip python3-venv".toList) := by
    refine safePackages_of_plain d.isAlpine ?_
    split
    · exact ⟨by decide, by decide⟩
    · exact ⟨by decide, by decide⟩
  have hpip : ClosesIff [run "--mount=type=cache,target=/root/.cache/pip \\".toList
      ["    pip install --break-system-packages uv 2>/dev/null || pip install uv".toList]] True := by
    unfold run
    repeat rw [String.toList_ofList]
    exact closesIff_true (by decide)
  have htool : ClosesIff [env "UV_TOOL_DIR=/opt/uv-tools".toList [],
      env "UV_TOOL_BIN_DIR=/opt/uv-tools/bin".toList []] True := by
    unfold env
    repeat rw [String.toList_ofList]
    exact closesIff_true (by decide)
  have hblocks := closesIff_preamble.append (closesIff_fromBuilder d.builderImage)
    |>.append ((closesIff_installPackages d.isAlpine _).congr (iff_true_intro hpython))
    |>.append hpip
    |>.append (closesIff_argEnv henv)
    |>.append (closesIff_installDeps d.isAlpine hbuild)
    |>.append htool
    |>.append (closesIff_uvxInstall hinstall)
    |>.append closesIff_uvxExpose
    |>.append (closesIff_from d.builderImage)
    |>.append closesIff_uvxRuntime
    |>.append (closesIff_installDeps d.isAlpine hdeps)
    |>.append (closesIff_installIfAny d.isAlpine hpackages)
    |>.append closesIff_createUser
    |>.append closesIff_identity
  refine (hblocks.readBackIff (by decide) (by decide) (by decide)).congr ?_
  have himage : AtEnd d.builderImage → Inside d.builderImage := AtEnd.inside
  tauto

theorem readBackIff_npxTemplate (hpackage : Plain d.package) (hclean : Plain d.packageClean)
    (hbin : Plain d.binName) :
    ReadBackIff (npxTemplate d) (SafeEnv d.buildEnv ∧ AtEnd d.builderImage ∧
      SafePackages d.isAlpine (join d.additionalPackages)) := by
  have hworkdir : ClosesIff [workdir "/app".toList] True := closesIff_true (by decide)
  have hblocks := closesIff_preamble.append (closesIff_fromBuilder d.builderImage)
    |>.append hworkdir
    |>.append (closesIff_argEnv henv)
    |>.append (closesIff_installDeps d.isAlpine hbuild)
    |>.append (closesIff_npxInstall hpackage)
    |>.append closesIff_npxStrategy
    |>.append (closesIff_npxResolve hbin hclean)
    |>.append closesIff_blank
    |>.append (closesIff_from d.builderImage)
    |>.append closesIff_npxRuntime
    |>.append (closesIff_installDeps d.isAlpine hdeps)
    |>.append (closesIff_installIfAny d.isAlpine hpackages)
    |>.append closesIff_createUser'
    |>.append closesIff_identity
  refine (hblocks.readBackIff_of_not_mem (by decide) (by decide)).congr ?_
  have himage : AtEnd d.builderImage → Inside d.builderImage := AtEnd.inside
  tauto

theorem readBackIff_goTemplate (hpackage : Plain d.goPackage) :
    ReadBackIff (goTemplate d) (SafeEnv d.buildEnv ∧ Inside d.builderImage ∧
      (if d.buildSystemDeps ≠ [] then Inside (join d.additionalPackages)
        else AtEnd (join d.additionalPackages)) ∧ Escaped (entrypointArgs d.runtimeArgs)) := by
  have hvariables : ClosesIff
      (d.buildEnv.map fun e ↦ env (e.1 ++ "=\"".toList ++ e.2 ++ "\"".toList) [])
      (SafeEnv d.buildEnv) :=
    ClosesIff.map fun e he ↦ closesIff_assignment e.2 (henv e he) (Or.inr rfl)
  have hcomment : ClosesIff [blank, comment "# Install build dependencies"] True :=
    closesIff_true (by decide)
  have hruntime : ClosesIff (if d.systemDeps = [] then [] else
      [blank, comment "# System dependencies from backend config"] ++
        [installPackages true (join d.systemDeps)]) True := by
    split
    · exact closesIff_true fun _ h ↦ absurd h List.not_mem_nil
    · have hnote : ClosesIff [blank, comment "# System dependencies from backend config"] True :=
        closesIff_true (by decide)
      exact (hnote.append (closesIff_installPackages true _)).congr
        (iff_true_intro ⟨trivial, safePackages_of_plain true hdeps.plain_join⟩)
  have hblocks := closesIff_preamble.append (closesIff_fromBuilder d.builderImage)
    |>.append hvariables
    |>.append hcomment
    |>.append (closesIff_goPackages hbuild hpackages)
    |>.append closesIff_goEnvironment
    |>.append (closesIff_goInstall hpackage)
    |>.append closesIff_goRuntime
    |>.append hruntime
    |>.append closesIff_goCopy
  refine (hblocks.readBackIff (by decide) (by decide) (by decide)).congr ?_
  tauto

theorem readBackIff_sourceTemplate (hhost : '\n' ∉ d.sourceUrlHost)
    (hentrypoint : ∀ part ∈ d.entrypoint, Plain part) :
    ReadBackIff (sourceTemplate d) (SafeEnv d.buildEnv ∧ AtEnd d.builderImage ∧
      SafePackages d.isAlpine (join d.additionalPackages) ∧
      Inside (cloneSource d.sourceRef d.sourceUrl) ∧ ∀ step ∈ d.buildSteps, AtEnd step) := by
  have hsrc : ClosesIff [workdir "/src".toList] True := closesIff_true (by decide)
  have hrepo : ClosesIff [workdir "/src/repo".toList] True := closesIff_true (by decide)
  have happ : ClosesIff [workdir "/app".toList] True := closesIff_true (by decide)
  have hlogin : ClosesIff (if d.sourceUrlHost = [] then [] else
      [comment "# Private repo auth via .netrc (uses GIT_AUTH_TOKEN if set)"] ++
        [netrc d.sourceUrlHost]) True := by
    split
    · exact closesIff_true fun _ h ↦ absurd h List.not_mem_nil
    · have hnote : ClosesIff
          [comment "# Private repo auth via .netrc (uses GIT_AUTH_TOKEN if set)"] True :=
        closesIff_true (by decide)
      exact (hnote.append (closesIff_netrc hhost)).congr (and_self_iff)
  have hlogout : ClosesIff (if d.sourceUrlHost = [] then [] else
      [run "rm -f /root/.netrc".toList []]) True := by
    split
    · exact closesIff_true fun _ h ↦ absurd h List.not_mem_nil
    · exact closesIff_true (by decide)
  have hclone : ClosesIff [run ("git clone --depth 1 ".toList ++
      cloneSource d.sourceRef d.sourceUrl ++ " /src/repo".toList) []]
      (Inside (cloneSource d.sourceRef d.sourceUrl)) :=
    closesIff_inside (by decide) (by decide) (by decide)
  have hsteps : ClosesIff (d.buildSteps.map fun step ↦ run step [])
      (∀ step ∈ d.buildSteps, AtEnd step) := ClosesIff.map fun step _ ↦ closesIff_step step
  have hquoted : Plain (", ".toList.intercalate
      (d.entrypoint.map fun part ↦ "\"".toList ++ part ++ "\"".toList)) := by
    refine plain_intercalate ⟨by decide, by decide⟩ (List.forall_mem_map.mpr fun part hpart ↦ ?_)
    exact (Plain.append ⟨by decide, by decide⟩ (hentrypoint part hpart)).append
      ⟨by decide, by decide⟩
  have hopen : Plain "[".toList := ⟨by decide, by decide⟩
  have hclose : Plain "]".toList := ⟨by decide, by decide⟩
  have hparts := (hopen.append hquoted).append hclose
  have hblocks := closesIff_preamble.append (closesIff_fromBuilder d.builderImage)
    |>.append hsrc
    |>.append (closesIff_argEnv henv)
    |>.append (closesIff_installDeps d.isAlpine hbuild)
    |>.append hlogin
    |>.append hclone
    |>.append hrepo
    |>.append hlogout
    |>.append hsteps
    |>.append closesIff_blank
    |>.append (closesIff_from d.builderImage)
    |>.append happ
    |>.append (closesIff_sourceCopy d.isAlpine)
    |>.append (closesIff_installDeps d.isAlpine hdeps)
    |>.append (closesIff_installIfAny d.isAlpine hpackages)
    |>.append closesIff_createUser
    |>.append closesIff_identity
  refine (hblocks.readBackIff_of_not_mem (by decide) ?_).congr ?_
  · rw [List.mem_append, List.mem_cons]
    rintro (hmem | hmem | hmem)
    · exact absurd hmem (by decide)
    · exact absurd hmem (by decide)
    · exact hparts.1 hmem
  · have himage : AtEnd d.builderImage → Inside d.builderImage := AtEnd.inside
    tauto

end Templates

/-! ## The keywords -/

/-- An instruction more, if there is something to install. -/
def installs (deps : List Text) : List String :=
  if ∀ dep ∈ deps, strip dep = [] then [] else ["RUN"]

/-- What a template ends with, and the packages before. -/
def lastKeywords : List String := ["RUN", "RUN", "ENV", "USER", "LABEL", "ENTRYPOINT"]

namespace ContainerConfig

variable (c : ContainerConfig)

/-- The keywords of the instructions, which depend on how much there is of everything. -/
def prescribed : Backend → List String
  | .uvx _ _ =>
    ["FROM", "RUN", "RUN"] ++ (c.buildEnv.flatMap fun _ ↦ ["ARG", "ENV"]) ++
      installs c.buildSystemDeps ++ ["ENV", "ENV", "RUN", "RUN", "FROM", "COPY", "ENV"] ++
      installs c.systemDeps ++ lastKeywords
  | .npx _ =>
    ["FROM", "WORKDIR"] ++ (c.buildEnv.flatMap fun _ ↦ ["ARG", "ENV"]) ++
      installs c.buildSystemDeps ++ ["RUN", "RUN", "FROM", "WORKDIR", "COPY", "ENV"] ++
      installs c.systemDeps ++ lastKeywords
  | .go _ _ =>
    ["FROM"] ++ (c.buildEnv.map fun _ ↦ "ENV") ++
      ["RUN", "ENV", "WORKDIR", "RUN", "FROM", "RUN", "WORKDIR", "RUN", "ENV"] ++
      installs c.systemDeps ++ ["COPY", "USER", "LABEL", "ENTRYPOINT"]
  | .source url =>
    ["FROM", "WORKDIR"] ++ (c.buildEnv.flatMap fun _ ↦ ["ARG", "ENV"]) ++ ["RUN"] ++
      (if sourceUrlHost url = [] then [] else ["RUN"]) ++ ["RUN", "WORKDIR"] ++
      (if sourceUrlHost url = [] then [] else ["RUN"]) ++ (c.buildSteps.map fun _ ↦ "RUN") ++
      ["FROM", "WORKDIR"] ++ (if isAlpine (c.image (.source url)) then ["COPY"] else ["COPY", "COPY"]) ++
      ["COPY"] ++ installs c.systemDeps ++ lastKeywords

end ContainerConfig

section Keywords

variable {c : ContainerConfig} {d : TemplateData}

theorem keywords_installPackages (isAlpine : Bool) (packages : Text) :
    [installPackages isAlpine packages].filterMap Block.keyword? = ["RUN".toList] := by
  rw [installPackages]
  split
  · rfl
  · rfl

theorem keywords_installIfAny (isAlpine : Bool) {packages : List Text} (h : packages ≠ []) :
    (installIfAny isAlpine packages).filterMap Block.keyword? = ["RUN".toList] := by
  rw [installIfAny, if_neg h, keywords_installPackages]

theorem keywords_installDeps (isAlpine : Bool) {deps validated : List Text}
    (h : validated = [] ↔ ∀ dep ∈ deps, strip dep = []) :
    (installIfAny isAlpine validated).filterMap Block.keyword? =
      (installs deps).map String.toList := by
  rw [installs]
  split
  · rename_i hblank
    rw [installIfAny, if_pos (h.mpr hblank)]
    rfl
  · rename_i hblank
    exact keywords_installIfAny isAlpine (mt h.mp hblank)

theorem keywords_map {ι : Type} {f : ι → Block} {word : String}
    (h : ∀ i, (f i).keyword? = some word.toList) (l : List ι) :
    (l.map f).filterMap Block.keyword? = (l.map fun _ ↦ word).map String.toList := by
  induction l with
  | nil => rfl
  | cons i l ih =>
    rw [List.map_cons, List.filterMap_cons, h, List.map_cons, List.map_cons, ih]

theorem keywords_argEnv (buildEnv : List (Text × Text)) :
    (argEnv buildEnv).filterMap Block.keyword? =
      (buildEnv.flatMap fun _ ↦ ["ARG", "ENV"]).map String.toList := by
  induction buildEnv with
  | nil => rfl
  | cons e buildEnv ih => exact congrArg (_ :: _ :: ·) ih

variable (henv : d.buildEnv = c.buildEnv)
  (hbuild : d.buildSystemDeps = [] ↔ ∀ dep ∈ c.buildSystemDeps, strip dep = [])
  (hdeps : d.systemDeps = [] ↔ ∀ dep ∈ c.systemDeps, strip dep = [])
  (hpackages : d.additionalPackages ≠ [])

include henv hbuild hdeps hpackages

theorem keywords_uvxTemplate (package binary : Text) :
    (uvxTemplate d).filterMap Block.keyword? =
      (c.prescribed (.uvx package binary)).map String.toList := by
  delta uvxTemplate
  simp only [ContainerConfig.prescribed, List.filterMap_append, List.map_append,
    keywords_argEnv, keywords_installPackages, keywords_installDeps _ hbuild,
    keywords_installDeps _ hdeps, keywords_installIfAny _ hpackages, henv, List.append_assoc]
  rfl

theorem keywords_npxTemplate (package : Text) :
    (npxTemplate d).filterMap Block.keyword? =
      (c.prescribed (.npx package)).map String.toList := by
  delta npxTemplate
  simp only [ContainerConfig.prescribed, List.filterMap_append, List.map_append,
    keywords_argEnv, keywords_installDeps _ hbuild, keywords_installDeps _ hdeps,
    keywords_installIfAny _ hpackages, henv, List.append_assoc]
  rfl

omit hbuild hpackages in
theorem keywords_goTemplate (package : Text) (runtimeArgs : List Text) :
    (goTemplate d).filterMap Block.keyword? =
      (c.prescribed (.go package runtimeArgs)).map String.toList := by
  have hvariables : (d.buildEnv.map fun e ↦
      env (e.1 ++ "=\"".toList ++ e.2 ++ "\"".toList) []).filterMap Block.keyword? =
        (c.buildEnv.map fun _ ↦ "ENV").map String.toList := by
    rw [henv]
    exact keywords_map (fun _ ↦ rfl) c.buildEnv
  have hruntime : (if d.systemDeps = [] then [] else
      [blank, comment "# System dependencies from backend config"] ++
        [installPackages true (join d.systemDeps)]).filterMap Block.keyword? =
        (installs c.systemDeps).map String.toList := by
    rw [← keywords_installDeps true hdeps, installIfAny]
    split
    · rfl
    · rfl
  delta goTemplate
  simp only [ContainerConfig.prescribed, List.filterMap_append, List.map_append,
    hvariables, hruntime]
  simp only [List.append_assoc]
  rfl

omit hbuild in
theorem keywords_sourceTemplate {url : Text} (himage : d.builderImage = c.image (.source url))
    (hhost : d.sourceUrlHost = sourceUrlHost url) (hsteps : d.buildSteps = c.buildSteps)
    (hgit : d.buildSystemDeps ≠ []) :
    (sourceTemplate d).filterMap Block.keyword? =
      (c.prescribed (.source url)).map String.toList := by
  have hrun : (d.buildSteps.map fun step ↦ run step []).filterMap Block.keyword? =
      (c.buildSteps.map fun _ ↦ "RUN").map String.toList := by
    rw [hsteps]
    exact keywords_map (fun _ ↦ rfl) c.buildSteps
  have hlogin : (if d.sourceUrlHost = [] then [] else
      [comment "# Private repo auth via .netrc (uses GIT_AUTH_TOKEN if set)"] ++
        [netrc d.sourceUrlHost]).filterMap Block.keyword? =
        (if sourceUrlHost url = [] then [] else ["RUN"]).map String.toList := by
    rw [hhost]
    split
    · rfl
    · rfl
  have hlogout : (if d.sourceUrlHost = [] then [] else
      [run "rm -f /root/.netrc".toList []]).filterMap Block.keyword? =
        (if sourceUrlHost url = [] then [] else ["RUN"]).map String.toList := by
    rw [hhost]
    split
    · rfl
    · rfl
  have hcopy : (sourceCopy d.isAlpine).filterMap Block.keyword? =
      (if isAlpine (c.image (.source url)) then ["COPY"] else ["COPY", "COPY"]).map String.toList ++
        ["COPY"].map String.toList := by
    rw [sourceCopy, TemplateData.isAlpine, himage]
    split
    · rfl
    · rfl
  delta sourceTemplate
  simp only [ContainerConfig.prescribed, List.filterMap_append, List.map_append,
    keywords_argEnv, keywords_installIfAny _ hgit, keywords_installDeps _ hdeps,
    keywords_installIfAny _ hpackages, henv, hrun, hlogin, hlogout, hcopy]
  simp only [List.append_assoc]
  rfl

end Keywords

/-! ## The condition -/

theorem of_validateBuildInputs {package : Text} {buildEnv : List (Text × Text)}
    {systemDeps : List Text} {checked : Text × List (Text × Text) × List Text}
    (h : validateBuildInputs package buildEnv systemDeps = .ok checked) :
    Plain checked.1 ∧ (checked.2.1 = buildEnv ∧ ∀ e ∈ buildEnv, isEnvKey e.1) ∧
      CheckedDeps checked.2.2 ∧ (checked.2.2 = [] ↔ ∀ dep ∈ systemDeps, strip dep = []) := by
  obtain ⟨package, hpackage, h⟩ := bind_eq_ok_iff.mp h
  obtain ⟨deps, hdeps, h⟩ := bind_eq_ok_iff.mp h
  obtain ⟨env, henv, h⟩ := bind_eq_ok_iff.mp h
  obtain rfl := Except.ok.inj h
  exact ⟨plain_of_validatePackageName hpackage, of_validateBuildEnv henv,
    checkedDeps_of_validateSystemDeps hdeps⟩

namespace ContainerConfig

variable (c : ContainerConfig)

theorem packages_ne_nil (backend : Backend) : c.packages backend ≠ [] := by
  rw [packages, runtimeConfig, RuntimeConfig.forTransport]
  dsimp only
  split
  · cases c.transport backend
    · exact List.cons_ne_nil _ _
    · exact List.cons_ne_nil _ _
    · exact List.cons_ne_nil _ _
  · assumption

/-- No value ends the instruction it is in, or takes what comes after into it. -/
def Contained (backend : Backend) : Prop :=
  SafeEnv c.buildEnv ∧
  match backend with
  | .uvx _ binary =>
    AtEnd (c.image backend) ∧
    SafePackages (isAlpine (c.image backend)) (join (c.packages backend)) ∧ Escaped binary
  | .npx _ =>
    AtEnd (c.image backend) ∧
    SafePackages (isAlpine (c.image backend)) (join (c.packages backend))
  | .go _ runtimeArgs =>
    Inside (c.image backend) ∧
    (if ∀ dep ∈ c.buildSystemDeps, strip dep = [] then AtEnd (join (c.packages backend))
      else Inside (join (c.packages backend))) ∧
    Escaped (entrypointArgs runtimeArgs)
  | .source url =>
    AtEnd (c.image backend) ∧
    SafePackages (isAlpine (c.image backend)) (join (c.packages backend)) ∧
    Inside (cloneSource (c.sourceRef.getD []) url) ∧ ∀ step ∈ c.buildSteps, AtEnd step

variable {c} {backend : Backend} {blocks : List Block}

theorem plain_entrypoint : ∀ part ∈ c.entrypoint.getD [], Plain part := by
  rcases hentrypoint : c.entrypoint with _ | parts
  · exact fun _ h ↦ absurd h List.not_mem_nil
  · intro part hpart
    exact plain_of_safe fun ⟨ch, hch, hunsafe⟩ ↦
      c.entrypoint_safe parts hentrypoint part hpart ch hch hunsafe

/-- What is generated is read back under the condition, and it has the keywords of its template. -/
theorem generated (h : c.generateDockerfile backend = .ok blocks) :
    ReadBackIff blocks (c.Contained backend) ∧
      blocks.filterMap Block.keyword? = (c.prescribed backend).map String.toList := by
  have hpackages := c.packages_ne_nil backend
  cases backend with
  | uvx package binary =>
    obtain ⟨⟨package', env, deps⟩, hinputs, h⟩ := bind_eq_ok_iff.mp h
    obtain ⟨buildDeps, hbuild, h⟩ := bind_eq_ok_iff.mp h
    obtain rfl := Except.ok.inj h
    obtain ⟨hpackage, ⟨henv, hkeys⟩, hdeps, hnil⟩ := of_validateBuildInputs hinputs
    obtain rfl : env = c.buildEnv := henv
    obtain ⟨hbuild, hbuildNil⟩ := checkedDeps_of_validateSystemDeps hbuild
    exact ⟨readBackIff_uvxTemplate hkeys hbuild hdeps hpackages hpackage.computeUvxInstallCmd,
      keywords_uvxTemplate rfl hbuildNil hnil hpackages package binary⟩
  | npx package =>
    obtain ⟨⟨package', env, deps⟩, hinputs, h⟩ := bind_eq_ok_iff.mp h
    obtain ⟨buildDeps, hbuild, h⟩ := bind_eq_ok_iff.mp h
    obtain rfl := Except.ok.inj h
    obtain ⟨hpackage, ⟨henv, hkeys⟩, hdeps, hnil⟩ := of_validateBuildInputs hinputs
    obtain rfl : env = c.buildEnv := henv
    obtain ⟨hbuild, hbuildNil⟩ := checkedDeps_of_validateSystemDeps hbuild
    exact ⟨readBackIff_npxTemplate hkeys hbuild hdeps hpackages hpackage hpackage.stripVersion
        hpackage.stripVersion.npmBinName,
      keywords_npxTemplate rfl hbuildNil hnil hpackages package⟩
  | go package runtimeArgs =>
    obtain ⟨⟨package', env, deps⟩, hinputs, h⟩ := bind_eq_ok_iff.mp h
    obtain ⟨buildDeps, hbuild, h⟩ := bind_eq_ok_iff.mp h
    obtain rfl := Except.ok.inj h
    obtain ⟨hpackage, ⟨henv, hkeys⟩, hdeps, hnil⟩ := of_validateBuildInputs hinputs
    obtain rfl : env = c.buildEnv := henv
    obtain ⟨hbuild, hbuildNil⟩ := checkedDeps_of_validateSystemDeps hbuild
    refine ⟨(readBackIff_goTemplate hkeys hbuild hdeps hpackages hpackage).congr ?_,
      keywords_goTemplate rfl hnil package runtimeArgs⟩
    refine and_congr_right fun _ ↦ and_congr_right fun _ ↦ and_congr_left fun _ ↦ ?_
    by_cases hempty : buildDeps = []
    · rw [if_neg (not_not.mpr hempty), if_pos (hbuildNil.mp hempty)]
      rfl
    · rw [if_pos hempty, if_neg (mt hbuildNil.mpr hempty)]
      rfl
  | source url =>
    obtain ⟨deps, hdeps, h⟩ := bind_eq_ok_iff.mp h
    obtain ⟨buildDeps, hbuild, h⟩ := bind_eq_ok_iff.mp h
    obtain ⟨env, henv, h⟩ := bind_eq_ok_iff.mp h
    obtain rfl := Except.ok.inj h
    obtain ⟨rfl, hkeys⟩ := of_validateBuildEnv henv
    obtain ⟨hdeps, hnil⟩ := checkedDeps_of_validateSystemDeps hdeps
    obtain ⟨hbuild, -⟩ := checkedDeps_of_validateSystemDeps hbuild
    have hgit : CheckedDeps (if "git".toList ∈ buildDeps then buildDeps
        else "git".toList :: buildDeps) ∧ (if "git".toList ∈ buildDeps then buildDeps
        else "git".toList :: buildDeps) ≠ [] := by
      split
      · rename_i hmem
        exact ⟨hbuild, List.ne_nil_of_mem hmem⟩
      · refine ⟨List.forall_mem_cons.mpr ⟨⟨⟨by decide, by decide⟩, by decide⟩, hbuild⟩, ?_⟩
        exact List.cons_ne_nil _ _
    exact ⟨readBackIff_sourceTemplate hkeys hgit.1 hdeps hpackages (not_mem_sourceUrlHost url)
        plain_entrypoint,
      keywords_sourceTemplate rfl hnil hpackages rfl rfl rfl hgit.2⟩

end ContainerConfig

/-- A configuration in which nothing is given but the base image. -/
def withImage (image : Option Text) : ContainerConfig where
  systemDeps := []
  buildSystemDeps := []
  builderImage := image
  additionalPackages := []
  sourceRef := none
  buildSteps := []
  entrypoint := none
  buildEnv := []
  buildSteps_safe := fun _ h ↦ absurd h List.not_mem_nil
  entrypoint_safe := fun _ h ↦ absurd h (Option.not_mem_none _)
  buildEnv_keys := fun _ h ↦ absurd h List.not_mem_nil

theorem contained_of_plain (c : ContainerConfig) (package binary : Text)
    (henv : SafeEnv c.buildEnv) (himage : AtEnd (c.image (.uvx package binary)))
    (hpackages : Plain (join (c.packages (.uvx package binary)))) (hbinary : Plain binary) :
    c.Contained (.uvx package binary) :=
  ⟨henv, himage, safePackages_of_plain _ hpackages, hbinary.escaped⟩

theorem exists_generateDockerfile_ruff (image : Option Text) : ∃ blocks,
    (withImage image).generateDockerfile (.uvx "ruff".toList "ruff".toList) = .ok blocks := by
  have hname : validatePackageName "ruff".toList = .ok "ruff".toList := rfl
  rw [ContainerConfig.generateDockerfile, generateUvxDockerfile, validateBuildInputs, hname]
  exact ⟨_, rfl⟩

/-- A second line of the base image is an instruction of its own. -/
theorem not_forall_intact : ¬ ∀ (c : ContainerConfig) (backend : Backend) (blocks : List Block),
    c.generateDockerfile backend = .ok blocks →
      instructions (render blocks) = blocks.filterMap Block.instruction? ∧
        (instructions (render blocks)).map keyword =
          (c.prescribed backend).map String.toList := by
  intro h
  obtain ⟨blocks, hblocks⟩ := exists_generateDockerfile_ruff (some "python:3.13-slim\nRUN id".toList)
  have hintact := h _ _ _ hblocks
  obtain ⟨hread, hkeywords⟩ := ContainerConfig.generated hblocks
  rw [← hkeywords, hread.keywords_iff] at hintact
  exact absurd hintact.2.1 (by decide)

/-- **No value goes beyond its place.** The instructions that are read from a Dockerfile are those of
its template, with the keywords it prescribes, if and only if every value is contained. -/
theorem intact_iff_contained (c : ContainerConfig) (backend : Backend) (blocks : List Block)
    (h : c.generateDockerfile backend = .ok blocks) :
    (instructions (render blocks) = blocks.filterMap Block.instruction? ∧
      (instructions (render blocks)).map keyword =
        (c.prescribed backend).map String.toList) ↔ c.Contained backend := by
  obtain ⟨hread, hkeywords⟩ := ContainerConfig.generated h
  rw [← hkeywords]
  exact hread.keywords_iff

/-- A value of its own in each place, one of them on two lines with the line break escaped. -/
def withValues : ContainerConfig where
  systemDeps := ["libpq5".toList]
  buildSystemDeps := ["gcc".toList, "musl-dev".toList]
  builderImage := some "python:3.12-slim".toList
  additionalPackages := ["ca-certificates".toList, "bash".toList]
  sourceRef := none
  buildSteps := []
  entrypoint := none
  buildEnv := [("PIP_INDEX_URL".toList, "https://pypi.example".toList),
    ("NOTE".toList, "one \\\ntwo".toList)]
  buildSteps_safe := fun _ h ↦ absurd h List.not_mem_nil
  entrypoint_safe := fun _ h ↦ absurd h (Option.not_mem_none _)
  buildEnv_keys := by decide

theorem exists_generateDockerfile_withValues : ∃ blocks,
    withValues.generateDockerfile (.uvx "psycopg==3.2".toList "psycopg".toList)
      = .ok blocks := by
  have hname : validatePackageName "psycopg==3.2".toList = .ok "psycopg==3.2".toList := rfl
  have hdeps : validateSystemDeps withValues.systemDeps = .ok withValues.systemDeps := rfl
  have hbuild : validateSystemDeps withValues.buildSystemDeps = .ok withValues.buildSystemDeps :=
    rfl
  have henv : validateBuildEnv withValues.buildEnv = .ok withValues.buildEnv := rfl
  rw [ContainerConfig.generateDockerfile, generateUvxDockerfile, validateBuildInputs, hname, hdeps,
    henv, hbuild]
  exact ⟨_, rfl⟩

theorem intact_iff_contained_withValues : ∃ blocks,
    withValues.generateDockerfile (.uvx "psycopg==3.2".toList "psycopg".toList) = .ok blocks ∧
      instructions (render blocks) = blocks.filterMap Block.instruction? ∧
      (instructions (render blocks)).map keyword =
        ["FROM", "RUN", "RUN", "ARG", "ENV", "ARG", "ENV", "RUN", "ENV", "ENV", "RUN", "RUN",
          "FROM", "COPY", "ENV", "RUN", "RUN", "RUN", "ENV", "USER", "LABEL", "ENTRYPOINT"].map
          String.toList := by
  obtain ⟨blocks, hblocks⟩ := exists_generateDockerfile_withValues
  refine ⟨blocks, hblocks, (intact_iff_contained _ _ _ hblocks).mpr ?_⟩
  have henv : ∀ e ∈ withValues.buildEnv, '\n' ∉ e.1 ∧ Inside e.2 := by decide
  exact contained_of_plain _ _ _ henv (by decide) ⟨by decide, by decide⟩ ⟨by decide, by decide⟩

end Container

end ArgusMcp
