import ArgusMcp.Bridge.Dockerfiles

/-!
# Values in a Dockerfile

What the checks of a configuration leave of its values, and what becomes of the instructions that a
value is written into. The names of packages and of system dependencies have no line break and no
backslash in them, and neither have the names that are made of them (`Plain`). Keys for the
environment may have a line break at the end. The other values are not checked, or not for this.

For each instruction of the templates there is the condition under which it closes.
-/

namespace ArgusMcp

namespace Container

open Dockerfile

/-! ## Texts that were checked -/

/-- Without line breaks and backslashes. -/
def Plain (text : Text) : Prop := '\n' ∉ text ∧ '\\' ∉ text

theorem Plain.mono {text text' : Text} (h : Plain text) (hsub : text' ⊆ text) : Plain text' :=
  ⟨fun hmem ↦ h.1 (hsub hmem), fun hmem ↦ h.2 (hsub hmem)⟩

theorem Plain.append {text text' : Text} (h : Plain text) (h' : Plain text') :
    Plain (text ++ text') :=
  ⟨fun hmem ↦ (List.mem_append.mp hmem).elim h.1 h'.1,
    fun hmem ↦ (List.mem_append.mp hmem).elim h.2 h'.2⟩

theorem Plain.escaped {text : Text} (h : Plain text) : Escaped text := escaped_of_not_mem h.1

theorem Plain.atEnd {text : Text} (h : Plain text) : AtEnd text := by
  rw [atEnd_of_not_mem h.1, continued_of_not_mem h.2]
  exact Bool.false_ne_true

theorem plain_of_safe {text : Text} (h : ¬ ∃ c ∈ text, c ∈ shellUnsafe) : Plain text :=
  ⟨fun hmem ↦ h ⟨_, hmem, by decide⟩, fun hmem ↦ h ⟨_, hmem, by decide⟩⟩

theorem plain_intercalate {sep : Text} (hsep : Plain sep) {words : List Text}
    (h : ∀ word ∈ words, Plain word) : Plain (sep.intercalate words) := by
  induction words with
  | nil => exact ⟨List.not_mem_nil, List.not_mem_nil⟩
  | cons word words ih =>
    obtain ⟨hword, h⟩ := List.forall_mem_cons.mp h
    rcases words with _ | ⟨next, words⟩
    · rw [List.intercalate_singleton]
      exact hword
    · rw [List.intercalate_cons_of_ne_nil (List.cons_ne_nil next words)]
      exact (hword.append hsep).append (ih h)

theorem plain_of_validatePackageName {name package : Text}
    (h : validatePackageName name = .ok package) : Plain package := by
  rw [validatePackageName] at h
  split at h
  · contradiction
  · split at h
    · contradiction
    · rename_i hsafe
      split at h
      · contradiction
      · obtain rfl := Except.ok.inj h
        exact plain_of_safe hsafe

theorem exists_cons_of_matchesName {first rest : Char → Bool} {s : Text}
    (h : matchesName first rest s) : ∃ c cs, s = c :: cs ∧ first c := by
  rcases s with _ | ⟨c, cs⟩
  · exact absurd h Bool.false_ne_true
  · refine ⟨c, cs, rfl, ?_⟩
    rw [matchesName] at h
    rcases hbody : (if (c :: cs).getLast? = some '\n' then (c :: cs).dropLast else c :: cs) with
      _ | ⟨d, ds⟩
    · rw [hbody] at h
      exact absurd h Bool.false_ne_true
    · rw [hbody] at h
      have hhead : d = c := by
        split at hbody
        · rcases cs with _ | ⟨e, cs⟩
          · exact absurd hbody (List.cons_ne_nil d ds).symm
          · exact (List.cons_eq_cons.mp hbody).1.symm
        · exact (List.cons_eq_cons.mp hbody).1.symm
      exact hhead ▸ (Bool.and_eq_true_iff.mp h).1

theorem not_isSpace_of_alphanumeric {c : Char} (h : isLower c || isUpper c || isDigit c) :
    isSpace c = false ∧ isBlank c = false ∧ c ≠ '#' := by
  have hrange : 48 ≤ c.toNat ∧ c.toNat ≤ 122 := by
    simp only [isLower, isUpper, isDigit, Bool.or_eq_true, Bool.and_eq_true, decide_eq_true_eq,
      Char.le_def, UInt32.le_iff_toNat_le] at h
    rcases h with (⟨h, h'⟩ | ⟨h, h'⟩) | ⟨h, h'⟩
    · exact ⟨le_trans (by decide) h, le_trans h' (by decide)⟩
    · exact ⟨le_trans (by decide) h, le_trans h' (by decide)⟩
    · exact ⟨le_trans (by decide) h, le_trans h' (by decide)⟩
  refine ⟨?_, ?_, ?_⟩
  · simp only [isSpace, Bool.or_eq_false_iff, Bool.and_eq_false_iff, decide_eq_false_iff_not]
    omega
  · simp only [isBlank, Bool.or_eq_false_iff, decide_eq_false_iff_not]
    refine ⟨⟨?_, ?_⟩, ?_⟩
    all_goals
      rintro rfl
      exact absurd hrange (by decide)
  · rintro rfl
    exact absurd hrange (by decide)

def CheckedDeps (deps : List Text) : Prop :=
  ∀ dep ∈ deps, Plain dep ∧ isSysdep dep

theorem checkedDeps_of_validateSystemDeps {deps validated : List Text}
    (h : validateSystemDeps deps = .ok validated) :
    CheckedDeps validated ∧ (validated = [] ↔ ∀ dep ∈ deps, strip dep = []) := by
  induction deps generalizing validated with
  | nil =>
    obtain rfl := Except.ok.inj h
    exact ⟨fun _ h ↦ absurd h List.not_mem_nil, iff_of_true rfl fun _ h ↦ absurd h List.not_mem_nil⟩
  | cons dep deps ih =>
    rw [validateSystemDeps] at h
    rw [List.forall_mem_cons]
    split at h
    · rename_i hempty
      rw [and_iff_right hempty]
      exact ih h
    · rename_i hne
      split at h
      · contradiction
      · rename_i hsafe
        split at h
        · contradiction
        · rename_i hname
          split at h
          · contradiction
          · rcases hdeps : validateSystemDeps deps with _ | validated'
            · rw [hdeps] at h
              contradiction
            · rw [hdeps] at h
              obtain rfl := Except.ok.inj h
              refine ⟨List.forall_mem_cons.mpr ⟨⟨plain_of_safe hsafe, ?_⟩, (ih hdeps).1⟩, ?_⟩
              · exact Bool.not_eq_false _ ▸ hname
              · exact iff_of_false (List.cons_ne_nil _ _) fun h ↦ hne h.1

theorem CheckedDeps.plain_join {deps : List Text} (h : CheckedDeps deps) : Plain (join deps) :=
  plain_intercalate ⟨by decide, by decide⟩ fun dep hdep ↦ (h dep hdep).1

/-- The dependencies come after others on the line, and end it. -/
theorem CheckedDeps.ends_join {deps : List Text} (h : CheckedDeps deps) (hne : deps ≠ []) :
    Ends (' ' :: join deps) := by
  have hplain := h.plain_join
  obtain ⟨dep, deps, rfl⟩ := List.exists_cons_of_ne_nil hne
  obtain ⟨c, cs, rfl, hc⟩ := exists_cons_of_matchesName (h dep List.mem_cons_self).2
  obtain ⟨rest, hrest⟩ : ∃ rest, join ((c :: cs) :: deps) = c :: rest := by
    rcases deps with _ | ⟨next, deps⟩
    · exact ⟨cs, List.intercalate_singleton ..⟩
    · exact ⟨_, List.intercalate_cons_of_ne_nil (List.cons_ne_nil next deps)⟩
  obtain ⟨hspace, hblank, hcomment⟩ := not_isSpace_of_alphanumeric hc
  rw [hrest] at hplain ⊢
  refine ⟨List.not_mem_cons_of_ne_of_not_mem (by decide) hplain.1,
    ⟨c, List.mem_cons_of_mem _ List.mem_cons_self, hblank⟩, ?_, continued_of_not_mem ?_⟩
  · exact skipped_of_head ⟨hspace, hcomment⟩ rest
  · exact List.not_mem_cons_of_ne_of_not_mem (by decide) hplain.2

theorem of_validateBuildEnv {env validated : List (Text × Text)}
    (h : validateBuildEnv env = .ok validated) :
    validated = env ∧ ∀ e ∈ env, isEnvKey e.1 := by
  induction env generalizing validated with
  | nil =>
    obtain rfl := Except.ok.inj h
    exact ⟨rfl, fun _ h ↦ absurd h List.not_mem_nil⟩
  | cons e env ih =>
    obtain ⟨key, value⟩ := e
    rcases hkey : validateBuildEnvKey key with _ | _
    · rw [validateBuildEnv, hkey] at h
      contradiction
    · rcases hvalue : validateBuildEnvValue value with _ | _
      · rw [validateBuildEnv, hkey, hvalue] at h
        contradiction
      · rcases henv : validateBuildEnv env with _ | validated'
        · rw [validateBuildEnv, hkey, hvalue, henv] at h
          contradiction
        · rw [validateBuildEnv, hkey, hvalue, henv] at h
          obtain rfl := Except.ok.inj h
          obtain ⟨rfl, hkeys⟩ := ih henv
          refine ⟨rfl, List.forall_mem_cons.mpr ⟨?_, hkeys⟩⟩
          rw [validateBuildEnvKey] at hkey
          split at hkey
          · contradiction
          · rename_i hname
            exact Bool.not_eq_false _ ▸ hname

/-- The name itself, without the line break. -/
private theorem forall_mem_of_body {first rest : Char → Bool} (body : Text)
    (h : (match body with | [] => false | c :: cs => first c && cs.all rest : Bool)) :
    ∀ c ∈ body, first c ∨ rest c := by
  rcases body with _ | ⟨c, cs⟩
  · exact fun _ h ↦ absurd h List.not_mem_nil
  · obtain ⟨hc, hcs⟩ := Bool.and_eq_true_iff.mp h
    exact List.forall_mem_cons.mpr ⟨Or.inl hc, fun d hd ↦ Or.inr (List.all_eq_true.mp hcs d hd)⟩

theorem forall_mem_of_matchesName {first rest : Char → Bool} {s : Text}
    (h : matchesName first rest s) : ∀ c ∈ s, first c ∨ rest c ∨ c = '\n' := by
  intro c hc
  rw [matchesName] at h
  have hall := forall_mem_of_body _ h
  split at hall
  · rename_i hlast
    rw [← List.dropLast_append_getLast? _ hlast, List.mem_append, List.mem_singleton] at hc
    rcases hc with hc | hc
    · exact (hall c hc).imp_right Or.inl
    · exact Or.inr (Or.inr hc)
  · exact (hall c hc).imp_right Or.inl

theorem not_mem_of_isEnvKey {key : Text} (h : isEnvKey key) : '\\' ∉ key := by
  intro hmem
  rcases forall_mem_of_matchesName h _ hmem with h | h | h
  · exact absurd h (by decide)
  · exact absurd h (by decide)
  · exact absurd h (by decide)

/-! ### Names -/

theorem subset_of_mem_splitOn {sep : Char} {s part : Text} (h : part ∈ s.splitOn sep) :
    part ⊆ s := by
  have hsub : ∀ parts : List Text, part ∈ parts → part ⊆ [sep].intercalate parts := by
    intro parts hpart
    induction parts with
    | nil => exact absurd hpart List.not_mem_nil
    | cons first parts ih =>
      rcases parts with _ | ⟨next, parts⟩
      · rw [List.intercalate_singleton, List.mem_singleton.mp hpart]
        exact List.Subset.refl first
      · rw [List.intercalate_cons_of_ne_nil (List.cons_ne_nil next parts)]
        rcases List.mem_cons.mp hpart with rfl | hpart
        · exact fun c hc ↦ List.mem_append_left _ (List.mem_append_left _ hc)
        · exact fun c hc ↦ List.mem_append_right _ (ih hpart hc)
  have hpart := hsub _ h
  rwa [List.intercalate_splitOn] at hpart

theorem afterLast_subset (sep : Char) (s : Text) : afterLast sep s ⊆ s := by
  rw [afterLast]
  rcases hlast : (s.splitOn sep).getLast? with _ | part
  · exact List.nil_subset s
  · exact subset_of_mem_splitOn (List.mem_of_getLast? hlast)

theorem beforeLast_subset (sep : Char) (s : Text) : beforeLast sep s ⊆ s := List.take_subset _ s

theorem afterFirst_subset {sep s rest : Text} (h : afterFirst sep s = some rest) : rest ⊆ s := by
  induction s with
  | nil => contradiction
  | cons c s ih =>
    rw [afterFirst] at h
    split at h
    · obtain rfl := Option.some.inj h
      exact List.drop_subset _ _
    · exact fun d hd ↦ List.mem_cons_of_mem c (ih h hd)

theorem removeGit_subset (s : Text) : removeGit s ⊆ s := by
  rw [removeGit]
  split
  · exact List.take_subset _ s
  · exact List.Subset.refl s

theorem vcsRepoName_subset (specifier : Text) : vcsRepoName specifier ⊆ specifier := by
  have hname : (specifier.takeWhile fun c ↦ c ≠ '#') ⊆ specifier :=
    (List.takeWhile_prefix _).subset
  rw [vcsRepoName]
  refine List.Subset.trans ?_ hname
  split
  · exact List.Subset.trans (removeGit_subset _)
      (List.Subset.trans (afterLast_subset _ _) (List.drop_subset _ _))
  · split
    · rename_i path hpath
      refine List.Subset.trans (removeGit_subset _) (List.Subset.trans (afterLast_subset _ _) ?_)
      refine List.Subset.trans (List.rdropWhile_prefix _ _).subset
        (List.Subset.trans ?_ (afterFirst_subset hpath))
      split
      · rcases hafter : afterFirst ['@'] path with _ | rest
        · exact List.nil_subset path
        · exact afterFirst_subset hafter
      · exact List.Subset.refl path
    · exact List.Subset.refl _

theorem Plain.npmBinName {name : Text} (h : Plain name) : Plain (npmBinName name) := by
  refine h.mono ?_
  rw [Container.npmBinName]
  split
  · exact vcsRepoName_subset name
  · split
    · rcases hafter : afterFirst ['/'] name with _ | rest
      · exact List.Subset.refl name
      · exact afterFirst_subset hafter
    · exact List.Subset.refl name

theorem Plain.stripVersion {name : Text} (h : Plain name) : Plain (stripVersion name) := by
  rw [Container.stripVersion]
  split
  · exact h
  · have hpart : ∀ part ∈ name.splitOn '@', Plain part :=
      fun part hpart ↦ h.mono (subset_of_mem_splitOn hpart)
    split
    · exact h
    · exact h
    · exact h
    · rename_i inScope rest _ hsplit
      rw [hsplit] at hpart
      have hinScope := hpart inScope (List.mem_cons_of_mem _ List.mem_cons_self)
      exact ⟨List.not_mem_cons_of_ne_of_not_mem (by decide) hinScope.1,
        List.not_mem_cons_of_ne_of_not_mem (by decide) hinScope.2⟩
    · rename_i unscoped rest _ _ _ hsplit
      rw [hsplit] at hpart
      exact hpart unscoped List.mem_cons_self

theorem Plain.computeUvxInstallCmd {package : Text} (h : Plain package) :
    Plain (computeUvxInstallCmd package) := by
  have hname := h.mono (beforeLast_subset '@' package)
  have hver := h.mono (afterLast_subset '@' package)
  have hquoted : Plain "uv tool install '".toList := ⟨by decide, by decide⟩
  have hcmd : Plain "uv tool install ".toList := ⟨by decide, by decide⟩
  have heq : Plain "==".toList := ⟨by decide, by decide⟩
  rw [Container.computeUvxInstallCmd]
  split
  · dsimp only
    split
    · exact (((hquoted.append hname).append heq).append hver).append ⟨by decide, by decide⟩
    · exact hcmd.append hname
  · exact hcmd.append h

theorem not_mem_lower {s : Text} (h : '\n' ∉ s) : '\n' ∉ lower s := by
  rw [lower, List.mem_map]
  rintro ⟨c, hc, hlower⟩
  delta Char.toLower at hlower
  split at hlower
  · rename_i hrange
    have hval : c.val + 32 = 10 := congrArg Char.val hlower
    obtain ⟨hge, hle⟩ := hrange
    rw [ge_iff_le, UInt32.le_iff_toNat_le] at hge
    rw [UInt32.le_iff_toNat_le] at hle
    have hnat := congrArg UInt32.toNat hval
    rw [UInt32.toNat_add] at hnat
    have hA : 'A'.val.toNat = 65 := rfl
    have hZ : 'Z'.val.toNat = 90 := rfl
    have h32 : (32 : UInt32).toNat = 32 := rfl
    have h10 : (10 : UInt32).toNat = 10 := rfl
    omega
  · exact h (hlower ▸ hc)

theorem not_mem_urlHostname (url : Text) : '\n' ∉ urlHostname url := by
  have hfilter : '\n' ∉ url.filter fun c ↦ c ≠ '\n' ∧ c ≠ '\r' ∧ c ≠ '\t' := by
    rw [List.mem_filter]
    exact fun h ↦ absurd h.2 (by decide)
  rw [urlHostname]
  generalize url.filter _ = url at hfilter ⊢
  dsimp only
  split
  · exact List.not_mem_nil
  · have hinfo : afterLast '@' ((url.drop 8).takeWhile fun c ↦ c ≠ '/' ∧ c ≠ '?' ∧ c ≠ '#') ⊆ url :=
      List.Subset.trans (afterLast_subset _ _)
        (List.Subset.trans (List.takeWhile_prefix _).subset (List.drop_subset _ _))
    generalize afterLast '@' _ = hostinfo at hinfo ⊢
    have hname : ∀ name : Text, name ⊆ hostinfo → '\n' ∉
        lower (name.takeWhile fun c ↦ c ≠ '%') ++ name.dropWhile fun c ↦ c ≠ '%' := by
      intro name hname
      rw [List.mem_append]
      rintro (hmem | hmem)
      · refine not_mem_lower (fun h ↦ hfilter (hinfo (hname ?_))) hmem
        exact (List.takeWhile_prefix _).subset h
      · exact hfilter (hinfo (hname ((List.dropWhile_suffix _).subset hmem)))
    split
    · rename_i bracketed hbracketed
      exact hname _ (List.Subset.trans (List.takeWhile_prefix _).subset
        (afterFirst_subset hbracketed))
    · exact hname _ (List.takeWhile_prefix _).subset

theorem not_mem_sourceUrlHost (url : Text) : '\n' ∉ sourceUrlHost url := by
  rw [sourceUrlHost]
  split
  · exact not_mem_urlHostname url
  · exact List.not_mem_nil

/-! ## The instructions with texts in them -/

/-- The environment of a build. A key that ends in a line break ends the instruction. -/
def SafeEnv (buildEnv : List (Text × Text)) : Prop :=
  ∀ e ∈ buildEnv, '\n' ∉ e.1 ∧ Inside e.2

/-- Packages are at the end of an instruction, or there are lines that follow. -/
def SafePackages (isAlpine : Bool) (packages : Text) : Prop :=
  if isAlpine then AtEnd packages else Escaped packages

theorem safePackages_of_plain {packages : Text} (isAlpine : Bool) (h : Plain packages) :
    SafePackages isAlpine packages := by
  rw [SafePackages]
  split
  · exact h.atEnd
  · exact h.escaped

theorem closesIff_fromBuilder (image : Text) :
    ClosesIff [from' (image ++ " AS builder".toList)] (Inside image) :=
  @closesIff_inside _ [] _ _ (by decide) (by decide) (by decide)

theorem closesIff_from (image : Text) : ClosesIff [from' image] (AtEnd image) :=
  @closesIff_atEnd _ [] _ (by decide) (by decide)

theorem closesIff_step (step : Text) : ClosesIff [run step []] (AtEnd step) :=
  @closesIff_atEnd _ [] _ (by decide) (by decide)

theorem closesIff_assignment {keyword key : Text} (value : Text) (hkey : isEnvKey key)
    (hkeyword : keyword = "ARG".toList ∨ keyword = "ENV".toList) :
    ClosesIff [.instruction keyword (key ++ "=\"".toList ++ value ++ "\"".toList) []]
      ('\n' ∉ key ∧ Inside value) := by
  have hvalid : keyword ≠ [] ∧ ∀ c ∈ keyword, isSpace c = false ∧ c ≠ '#' := by
    rcases hkeyword with rfl | rfl
    · decide
    · decide
  have hopens : Opens (keyword ++ [' ']) := by
    rcases hkeyword with rfl | rfl
    · decide
    · decide
  have ⟨hline, hspace, hskipped, _⟩ := hopens
  by_cases hbreak : '\n' ∈ key
  · -- the key has no backslash in front of the line break
    obtain ⟨first, rest, rfl, hfirst⟩ := List.eq_append_cons_of_mem hbreak
    have hcontinued : continued first = false :=
      continued_of_not_mem fun hmem ↦ not_mem_of_isEnvKey hkey (List.mem_append_left _ hmem)
    have hatEnd := @closesIff_atEnd keyword []
      (first ++ '\n' :: (rest ++ "=\"".toList ++ value ++ "\"".toList)) hvalid hopens
    refine ClosesIff.congr (by simpa using hatEnd) (iff_of_false ?_ fun h ↦ h.1 hbreak)
    exact fun h ↦ not_escaped_of_break hfirst hcontinued h.1
  · have hopens' : Opens (keyword ++ ' ' :: (key ++ "=\"".toList)) := by
      have happend : keyword ++ ' ' :: (key ++ "=\"".toList) =
          keyword ++ [' '] ++ (key ++ "=\"".toList) := by simp
      rw [happend]
      refine ⟨?_, ?_, ?_, ?_⟩
      · rw [List.mem_append, @List.mem_append _ _ key]
        rintro (h | h | h)
        · exact hline h
        · exact hbreak h
        · exact absurd h (by decide)
      · obtain ⟨c, hc, hcspace⟩ := hspace
        exact ⟨c, List.mem_append_left _ hc, hcspace⟩
      · rw [skipped_append hspace, hskipped]
      · rw [← List.append_assoc, continued_append (by decide)]
        decide
    refine (closesIff_inside hvalid hopens' (by decide)).congr (iff_and_self.mpr fun _ ↦ hbreak)

theorem closesIff_argEnv {buildEnv : List (Text × Text)} (h : ∀ e ∈ buildEnv, isEnvKey e.1) :
    ClosesIff (argEnv buildEnv) (SafeEnv buildEnv) := by
  refine ClosesIff.flatMap fun e he ↦ ?_
  have harg := closesIff_assignment e.2 (h e he) (Or.inl rfl)
  have henv := closesIff_assignment ("$\x7b".toList ++ e.1 ++ "\x7d".toList) (h e he) (Or.inr rfl)
  have hbody : e.1 ++ "=\"$\x7b".toList ++ e.1 ++ "\x7d\"".toList =
      e.1 ++ "=\"".toList ++ ("$\x7b".toList ++ e.1 ++ "\x7d".toList) ++ "\"".toList := by
    simp
  rw [← hbody] at henv
  refine (harg.append henv).congr (and_iff_left_of_imp fun hsafe ↦ ⟨hsafe.1, inside_of_not_mem ?_⟩)
  rw [List.mem_append, List.mem_append]
  rintro ((hmem | hmem) | hmem)
  · exact absurd hmem (by decide)
  · exact hsafe.1 hmem
  · exact absurd hmem (by decide)

theorem closesIff_installPackages (isAlpine : Bool) (packages : Text) :
    ClosesIff [installPackages isAlpine packages] (SafePackages isAlpine packages) := by
  rw [installPackages, SafePackages]
  split
  · exact closesIff_atEnd (by decide) (by decide)
  · exact closesIff_escaped (by decide) (by decide) (by decide) (by decide) (by decide)

theorem closesIff_installIfAny (isAlpine : Bool) {packages : List Text} (h : packages ≠ []) :
    ClosesIff (installIfAny isAlpine packages) (SafePackages isAlpine (join packages)) := by
  rw [installIfAny, if_neg h]
  exact closesIff_installPackages isAlpine (join packages)

theorem closesIff_installDeps (isAlpine : Bool) {deps : List Text} (h : CheckedDeps deps) :
    ClosesIff (installIfAny isAlpine deps) True := by
  by_cases hdeps : deps = []
  · rw [installIfAny, if_pos hdeps]
    exact closesIff_true fun _ h ↦ absurd h List.not_mem_nil
  · exact (closesIff_installIfAny isAlpine hdeps).congr
      (iff_true_intro (safePackages_of_plain isAlpine h.plain_join))

theorem closesIff_goPackages {d : TemplateData} (hbuild : CheckedDeps d.buildSystemDeps)
    (hpackages : d.additionalPackages ≠ []) :
    ClosesIff [run ("apk add --no-cache ".toList ++ goBuildPackages d) []]
      (if d.buildSystemDeps ≠ [] then Inside (join d.additionalPackages)
        else AtEnd (join d.additionalPackages)) := by
  rw [goBuildPackages, if_pos hpackages]
  split
  · rename_i hdeps
    rw [← List.append_assoc]
    exact closesIff_inside (by decide) (by decide) (hbuild.ends_join hdeps)
  · exact closesIff_atEnd (by decide) (by decide)

theorem goesOn_of_plain {text before after : Text} (hbefore : '\n' ∉ before) (htext : Plain text)
    (hafter : Continues after) :
    '\n' ∉ before ++ text ++ after ∧ goesOn (before ++ text ++ after) :=
  hafter.append fun hmem ↦ (List.mem_append.mp hmem).elim hbefore htext.1

theorem not_goesOn_of_plain {text before : Text} (hbefore : Opens before) (htext : Plain text) :
    '\n' ∉ before ++ text ∧ ¬ goesOn (before ++ text) := by
  rw [hbefore.goesOn, continued_of_not_mem htext.2, List.mem_append, not_or]
  exact ⟨⟨hbefore.1, htext.1⟩, Bool.false_ne_true⟩

theorem closesIff_uvxInstall {installCmd : Text} (h : Plain installCmd) :
    ClosesIff [uvxInstall installCmd] True :=
  @closesIff_lines _ (by decide) _ _ [] (List.forall_mem_singleton.mpr (by decide))
    (not_goesOn_of_plain (by decide) h)

theorem closesIff_npxInstall {package : Text} (h : Plain package) :
    ClosesIff [npxInstall package] True :=
  @closesIff_lines _ (by decide) _ _ [] (List.forall_mem_singleton.mpr (by decide))
    (not_goesOn_of_plain (by decide) h)

theorem closesIff_npxResolve {binName packageClean : Text} (h : Plain binName)
    (h' : Plain packageClean) : ClosesIff [npxResolve binName packageClean] True := by
  unfold npxResolve run
  repeat rw [String.toList_ofList]
  refine @closesIff_lines _ (by decide) _ _ [_, _, _, _, _, _] ?_ (by decide)
  simp only [List.forall_mem_cons]
  have hfirst := @goesOn_of_plain binName ("RUN BIN_NAME=\"".toList) ("\" \\".toList) (by decide) h
    (by decide)
  refine ⟨hfirst, by decide, goesOn_of_plain (by decide) h' (by decide),
    by decide, by decide, goesOn_of_plain (by decide) h' (by decide),
    by decide, fun _ h ↦ ?_⟩
  exact absurd h List.not_mem_nil

theorem closesIff_goInstall {goPackage : Text} (h : Plain goPackage) :
    ClosesIff [goInstall goPackage] True := by
  unfold goInstall run
  repeat rw [String.toList_ofList]
  refine @closesIff_lines _ (by decide) _ _ [_, _, _, _, _, _, _, _, _, _] ?_ (by decide)
  simp only [List.forall_mem_cons]
  refine ⟨by decide, by decide, goesOn_of_plain (by decide) h (by decide),
    by decide, by decide, by decide, by decide, by decide,
    by decide, by decide, by decide, fun _ h ↦ ?_⟩
  exact absurd h List.not_mem_nil

theorem closesIff_netrc {host : Text} (h : '\n' ∉ host) : ClosesIff [netrc host] True := by
  unfold netrc run
  repeat rw [String.toList_ofList]
  refine @closesIff_lines _ (by decide) _ _ [_, _] ?_ (by decide)
  simp only [List.forall_mem_cons]
  refine ⟨by decide, Continues.append (by decide) ?_, by decide,
    fun _ h ↦ absurd h List.not_mem_nil⟩
  exact fun hmem ↦ (List.mem_append.mp hmem).elim (by decide) h

/-! ## The instructions without -/

theorem closesIff_preamble : ClosesIff preamble True := by
  unfold preamble comment
  repeat rw [String.toList_ofList]
  exact closesIff_true (by decide)

theorem closesIff_blank : ClosesIff [blank] True := closesIff_true (by decide)

theorem closesIff_createUser : ClosesIff [createUser adduserDebian adduserAlpine] True := by
  unfold createUser adduserDebian adduserAlpine run containerUid containerUser containerHome
  repeat rw [String.toList_ofList]
  exact closesIff_true (by decide)

theorem closesIff_createUser' : ClosesIff [createUser adduserAlpine adduserDebian] True := by
  unfold createUser adduserDebian adduserAlpine run containerUid containerUser containerHome
  repeat rw [String.toList_ofList]
  exact closesIff_true (by decide)

theorem closesIff_identity : ClosesIff identity True := by
  unfold identity env user label containerUser containerHome
  repeat rw [String.toList_ofList]
  exact closesIff_true (by decide)

theorem closesIff_uvxExpose : ClosesIff uvxExpose True := by
  unfold uvxExpose comment blank run
  repeat rw [String.toList_ofList]
  exact closesIff_true (by decide)

theorem closesIff_uvxRuntime : ClosesIff uvxRuntime True := by
  unfold uvxRuntime copy env
  repeat rw [String.toList_ofList]
  exact closesIff_true (by decide)

theorem closesIff_npxStrategy : ClosesIff npxStrategy True := by
  unfold npxStrategy comment
  repeat rw [String.toList_ofList]
  exact closesIff_true (by decide)

theorem closesIff_npxRuntime : ClosesIff npxRuntime True := by
  unfold npxRuntime workdir copy env
  repeat rw [String.toList_ofList]
  exact closesIff_true (by decide)

theorem closesIff_goEnvironment : ClosesIff goEnvironment True := by
  unfold goEnvironment comment blank env workdir
  repeat rw [String.toList_ofList]
  exact closesIff_true (by decide)

theorem closesIff_goRuntime : ClosesIff goRuntime True := by
  unfold goRuntime comment blank run workdir env from' containerUid containerUser containerHome
  repeat rw [String.toList_ofList]
  exact closesIff_true (by decide)

theorem closesIff_goCopy : ClosesIff goCopy True := by
  unfold goCopy comment blank copy user label containerUser
  repeat rw [String.toList_ofList]
  exact closesIff_true (by decide)

theorem closesIff_sourceCopy (isAlpine : Bool) : ClosesIff (sourceCopy isAlpine) True := by
  unfold sourceCopy comment copy
  repeat rw [String.toList_ofList]
  cases isAlpine with
  | false => exact closesIff_true (by decide)
  | true => exact closesIff_true (by decide)

end Container

end ArgusMcp
