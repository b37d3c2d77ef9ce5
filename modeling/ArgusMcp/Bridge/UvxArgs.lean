import ArgusMcp.Bridge.Dockerfiles
import Mathlib.Data.List.Infix

/-!
# The arguments of `uvx`

`parse_uvx_args` tells the options of `uvx` from the package and from the arguments of the tool in
it. It first looks for `--from`, anywhere, and takes it out with the two arguments behind it; then it
drops the options of `uvx` from the front of what is left.

## Whose arguments they are

The tool may have a `--from` of its own, which is then taken for the one of `uvx`, and if the package
was given with `--from`, then what is at the front after it has been taken out may be the tool's own
`--with` or `--python`. The arguments of the tool come through unchanged exactly if neither is the
case (`parseUvxArgs_eq_parts_iff`).
-/

namespace ArgusMcp

namespace Container

/-- `--from`. -/
def fromFlag : Text := "--from".toList

def uvxFlagsStandalone : List Text := ["--force".toList, "--reinstall".toList]

def uvxFlagsWithValue : List Text := ["--python".toList, "--with".toList, "--index-url".toList]

/-- The package and the binary behind `--from`, empty where there is none, and the other
arguments. -/
def takeFrom (args : List Text) : Text × Text × List Text :=
  let idx := args.idxOf fromFlag
  if idx + 2 < args.length then
    (args.getD (idx + 1) [], args.getD (idx + 2) [], args.take idx ++ args.drop (idx + 3))
  else if idx + 1 < args.length then
    (args.getD (idx + 1) [], [], args.take idx ++ args.drop (idx + 2))
  else ([], [], args)

/-- The loop that drops options, each with its value. -/
def skipUvxFlags : List Text → List Text
  | [] => []
  | flag :: rest =>
    if flag ∈ uvxFlagsWithValue then
      match rest with
      | [] => []
      | _ :: rest => skipUvxFlags rest
    else if flag ∈ uvxFlagsStandalone then skipUvxFlags rest
    else flag :: rest

/-- The first argument that is left is the package, unless there is one. -/
def takePackage (package : Text) (remaining : List Text) : Text × List Text :=
  match package, remaining with
  | [], first :: rest => (first, rest)
  | _, _ => (package, remaining)

/-- The names of package and binary, where there is none; the empty text counts as none. -/
def nameUvx (package binary : Text) : Text × Text :=
  let binary := if binary = [] ∧ package ≠ [] then stripVersion package else binary
  let package := if package = [] then "unknown".toList else package
  let binary := if binary = [] then stripVersion package else binary
  (package, binary)

def parseUvxArgs (args : List Text) : Text × Text × List Text :=
  let (package, binary, remaining) := takeFrom args
  let (package, remaining) := takePackage package (skipUvxFlags remaining)
  let (package, binary) := nameUvx package binary
  (package, binary, remaining)

/-! ## Options and packages -/

/-- An option of `uvx`, with its value if it takes one. -/
inductive UvxFlag where
  | standalone (flag : Text) (known : flag ∈ uvxFlagsStandalone)
  | withValue (flag value : Text) (known : flag ∈ uvxFlagsWithValue)

def UvxFlag.words : UvxFlag → List Text
  | standalone flag _ => [flag]
  | withValue flag value _ => [flag, value]

/-- The arguments that options are given as. -/
def words (flags : List UvxFlag) : List Text := flags.flatMap UvxFlag.words

theorem words_cons (flag : UvxFlag) (flags : List UvxFlag) :
    words (flag :: flags) = flag.words ++ words flags := List.flatMap_cons ..

/-- What is not an option. -/
structure UvxPackage where
  name : Text
  undashed : name.head? ≠ some '-'

theorem head?_of_flag {flag : Text} (h : flag ∈ uvxFlagsStandalone ++ uvxFlagsWithValue) :
    flag.head? = some '-' := by
  revert flag
  decide

theorem ne_fromFlag {flag : Text} (h : flag ∈ uvxFlagsStandalone ++ uvxFlagsWithValue) :
    flag ≠ fromFlag := by
  revert flag
  decide

theorem not_mem_uvxFlagsWithValue {flag : Text} (h : flag ∈ uvxFlagsStandalone) :
    flag ∉ uvxFlagsWithValue := by
  revert flag
  decide

namespace UvxPackage

variable (package : UvxPackage)

theorem ne_fromFlag : package.name ≠ fromFlag := by
  intro h
  exact package.undashed (h ▸ rfl)

theorem not_mem_flags : package.name ∉ uvxFlagsStandalone ++ uvxFlagsWithValue :=
  fun h ↦ package.undashed (head?_of_flag h)

end UvxPackage

/-! ## The loop -/

theorem skipUvxFlags_words (flags : List UvxFlag) (args : List Text) :
    skipUvxFlags (words flags ++ args) = skipUvxFlags args := by
  induction flags with
  | nil => rfl
  | cons flag flags ih =>
    rw [words_cons, List.append_assoc]
    rcases flag with ⟨flag, known⟩ | ⟨flag, value, known⟩
    · rw [UvxFlag.words, List.singleton_append, skipUvxFlags.eq_def]
      dsimp only
      rw [if_neg (not_mem_uvxFlagsWithValue known), if_pos known, ih]
    · rw [UvxFlag.words, List.cons_append, List.singleton_append, skipUvxFlags.eq_def]
      dsimp only
      rw [if_pos known, ih]

theorem skipUvxFlags_of_not_mem {args : List Text}
    (h : ∀ first ∈ args.head?, first ∉ uvxFlagsStandalone ++ uvxFlagsWithValue) :
    skipUvxFlags args = args := by
  rcases args with _ | ⟨first, args⟩
  · rfl
  · have hfirst := h first rfl
    rw [List.mem_append, not_or] at hfirst
    rw [skipUvxFlags.eq_def]
    dsimp only
    rw [if_neg hfirst.2, if_neg hfirst.1]

theorem length_skipUvxFlags_le (args : List Text) : (skipUvxFlags args).length ≤ args.length := by
  fun_induction skipUvxFlags args with
  | case1 => exact Nat.le_refl _
  | case2 => exact Nat.zero_le _
  | case3 => simp only [List.length_cons]; omega
  | case4 => simp only [List.length_cons]; omega
  | case5 => exact Nat.le_refl _

theorem length_skipUvxFlags_lt {first : Text} (args : List Text)
    (h : first ∈ uvxFlagsStandalone ++ uvxFlagsWithValue) :
    (skipUvxFlags (first :: args)).length < (first :: args).length := by
  rw [skipUvxFlags.eq_def]
  dsimp only
  by_cases hvalue : first ∈ uvxFlagsWithValue
  · rw [if_pos hvalue]
    rcases args with _ | ⟨value, args⟩
    · exact Nat.zero_lt_one
    · have := length_skipUvxFlags_le args
      simp only [List.length_cons]
      omega
  · rw [if_neg hvalue, if_pos ((List.mem_append.mp h).resolve_right hvalue), List.length_cons]
    exact Nat.lt_succ_of_le (length_skipUvxFlags_le args)

/-! ## Looking for `--from` -/

theorem takeFrom_of_not_mem {args : List Text} (h : fromFlag ∉ args) :
    takeFrom args = ([], [], args) := by
  rw [takeFrom, List.idxOf_eq_length h, if_neg (by omega), if_neg (by omega)]

theorem takeFrom_append {before : List Text} (h : fromFlag ∉ before) (behind : List Text) :
    takeFrom (before ++ fromFlag :: behind) =
      match behind with
      | [] => ([], [], before ++ [fromFlag])
      | [package] => (package, [], before)
      | package :: binary :: rest => (package, binary, before ++ rest) := by
  have hidx : (before ++ fromFlag :: behind).idxOf fromFlag = before.length := by
    rw [List.idxOf_append_of_notMem h, List.idxOf_cons_self, Nat.add_zero]
  rw [takeFrom, hidx]
  rcases behind with _ | ⟨package, _ | ⟨binary, rest⟩⟩
  · simp
  · simp
  · simp

/-! ## What comes out -/

theorem stripVersion_ne_nil {package : Text} (h : package ≠ []) : stripVersion package ≠ [] := by
  rw [stripVersion]
  split_ifs
  · exact h
  · split
    · exact h
    · exact h
    · exact h
    · exact List.cons_ne_nil _ _
    · rename_i unscoped rest hsingle _ hscoped _
      rintro rfl
      rcases rest with _ | ⟨name, rest⟩
      · exact hsingle rfl
      · exact hscoped name rest rfl rfl

theorem nameUvx_of_ne_nil {package : Text} (h : package ≠ []) (binary : Text) :
    nameUvx package binary = (package, if binary = [] then stripVersion package else binary) := by
  rw [nameUvx]
  by_cases hbinary : binary = []
  · simp [hbinary, h, stripVersion_ne_nil h]
  · simp [hbinary, h]

theorem nameUvx_fst_ne_nil (package binary : Text) : (nameUvx package binary).1 ≠ [] := by
  by_cases h : package = []
  · rw [nameUvx, h]
    exact List.cons_ne_nil _ _
  · rwa [nameUvx_of_ne_nil h]

theorem nameUvx_snd_ne_nil (package binary : Text) : (nameUvx package binary).2 ≠ [] := by
  by_cases h : package = []
  · by_cases hbinary : binary = []
    · have hunknown := stripVersion_ne_nil (List.cons_ne_nil 'u' "nknown".toList)
      simpa [nameUvx, h, hbinary] using hunknown
    · simp [nameUvx, h, hbinary]
  · rw [nameUvx_of_ne_nil h]
    dsimp only
    split_ifs with hbinary
    · exact stripVersion_ne_nil h
    · exact hbinary

theorem takePackage_of_ne_nil {package : Text} (h : package ≠ []) (remaining : List Text) :
    takePackage package remaining = (package, remaining) := by
  rcases package with _ | ⟨c, package⟩
  · exact absurd rfl h
  · rfl

theorem length_takePackage_le (package : Text) (remaining : List Text) :
    (takePackage package remaining).2.length ≤ remaining.length := by
  rcases package with _ | ⟨c, package⟩
  · rcases remaining with _ | ⟨first, rest⟩
    · exact Nat.le_refl _
    · exact Nat.le_succ _
  · exact Nat.le_refl _

theorem parseUvxArgs_eq {args remaining : List Text} {package binary : Text}
    (h : takeFrom args = (package, binary, remaining)) :
    parseUvxArgs args =
      ((nameUvx (takePackage package (skipUvxFlags remaining)).1 binary).1,
        (nameUvx (takePackage package (skipUvxFlags remaining)).1 binary).2,
        (takePackage package (skipUvxFlags remaining)).2) := by
  rw [parseUvxArgs, h]

theorem parseUvxArgs_of_ne_nil {args remaining : List Text} {package binary : Text}
    (h : takeFrom args = (package, binary, remaining)) (hpackage : package ≠ []) :
    parseUvxArgs args =
      (package, if binary = [] then stripVersion package else binary, skipUvxFlags remaining) := by
  rw [parseUvxArgs_eq h, takePackage_of_ne_nil hpackage, nameUvx_of_ne_nil hpackage]

theorem length_parseUvxArgs_le {args remaining : List Text} {package binary : Text}
    (h : takeFrom args = (package, binary, remaining)) :
    (parseUvxArgs args).2.2.length ≤ (skipUvxFlags remaining).length := by
  rw [parseUvxArgs_eq h]
  exact length_takePackage_le _ _

/-! ## A `--from` among the options -/

theorem exists_split_words {flags : List UvxFlag} (h : fromFlag ∈ words flags) :
    ∃ before flag after, words flags = words before ++ flag :: fromFlag :: words after ∧
      fromFlag ∉ words before ++ [flag] ∧ flag ∈ uvxFlagsWithValue := by
  induction flags with
  | nil => exact absurd h List.not_mem_nil
  | cons flag flags ih =>
    rw [words_cons] at h ⊢
    by_cases hmem : fromFlag ∈ flag.words
    · rcases flag with ⟨flag, known⟩ | ⟨flag, value, known⟩
      · rw [UvxFlag.words, List.mem_singleton] at hmem
        exact absurd hmem.symm (ne_fromFlag (List.mem_append_left _ known))
      · have hflag := ne_fromFlag (List.mem_append_right uvxFlagsStandalone known)
        rw [UvxFlag.words, List.mem_cons, List.mem_singleton] at hmem
        obtain rfl := hmem.resolve_left hflag.symm
        refine ⟨[], flag, flags, rfl, ?_, known⟩
        exact fun hmem ↦ hflag (List.mem_singleton.mp hmem).symm
    · obtain ⟨before, name, after, hsplit, hnot, hname⟩ :=
        ih ((List.mem_append.mp h).resolve_left hmem)
      refine ⟨flag :: before, name, after, ?_, ?_, hname⟩
      · rw [hsplit, words_cons, List.append_assoc]
      · rw [words_cons, List.append_assoc, List.mem_append, not_or]
        exact ⟨hmem, hnot⟩

theorem parseUvxArgs_fst {before : List Text} (h : fromFlag ∉ before) {package : Text}
    (hpackage : package ≠ []) (behind : List Text) :
    (parseUvxArgs (before ++ fromFlag :: package :: behind)).1 = package := by
  have htake := takeFrom_append h (package :: behind)
  rcases behind with _ | ⟨binary, behind⟩
  · rw [parseUvxArgs_of_ne_nil htake hpackage]
  · rw [parseUvxArgs_of_ne_nil htake hpackage]

theorem parseUvxArgs_ne_of_dashed {before : List Text} (h : fromFlag ∉ before) {flag : Text}
    (hflag : flag.head? = some '-') (behind : List Text) (package : UvxPackage)
    (rest : Text × List Text) :
    parseUvxArgs (before ++ fromFlag :: flag :: behind) ≠ (package.name, rest) := by
  intro hparse
  have hne : flag ≠ [] := by
    rintro rfl
    exact absurd hflag (by simp)
  have hfst := parseUvxArgs_fst h hne behind
  rw [hparse] at hfst
  dsimp only at hfst
  rw [← hfst] at hflag
  exact package.undashed hflag

theorem mem_dropLast (before : List Text) {behind : List Text} (h : behind ≠ []) :
    fromFlag ∈ (before ++ fromFlag :: behind).dropLast := by
  rw [List.dropLast_append_of_ne_nil (List.cons_ne_nil _ _), List.dropLast_cons_of_ne_nil h]
  exact List.mem_append_right _ List.mem_cons_self

theorem head?_words_append {flags : List UvxFlag} (h : flags ≠ []) (args : List Text) :
    ∃ flag rest, words flags ++ args = flag :: rest ∧ flag.head? = some '-' := by
  rcases flags with _ | ⟨_ | _, flags⟩
  · exact absurd rfl h
  · rename_i flag known
    exact ⟨flag, words flags ++ args, rfl, head?_of_flag (List.mem_append_left _ known)⟩
  · rename_i flag value known
    exact ⟨flag, value :: (words flags ++ args), rfl,
      head?_of_flag (List.mem_append_right _ known)⟩

/-! ## When the arguments come through -/

/-- A way to call `uvx`: its options, the package, perhaps behind `--from` and with the binary, and
the arguments of the tool. -/
inductive UvxCall where
  | plain (flags : List UvxFlag) (package : UvxPackage) (runtimeArgs : List Text)
  | withFrom (flags : List UvxFlag) (package : UvxPackage) (binary : Text)
      (runtimeArgs : List Text)

namespace UvxCall

def args : UvxCall → List Text
  | plain flags package runtimeArgs => words flags ++ package.name :: runtimeArgs
  | withFrom flags package binary runtimeArgs =>
    words flags ++ fromFlag :: package.name :: binary :: runtimeArgs

/-- The package, the binary, and the arguments of the tool. -/
def parts : UvxCall → Text × Text × List Text
  | plain _ package runtimeArgs => (package.name, stripVersion package.name, runtimeArgs)
  | withFrom _ package binary runtimeArgs => (package.name, binary, runtimeArgs)

/-- The names are not empty, and no `--from` comes before the package or, but for the very last
argument, behind it; where the package is behind `--from`, the tool's arguments do not begin with
what is also an option of `uvx`. -/
def Unambiguous : UvxCall → Prop
  | plain flags package runtimeArgs =>
    package.name ≠ [] ∧ fromFlag ∉ (words flags ++ runtimeArgs).dropLast
  | withFrom flags package binary runtimeArgs =>
    package.name ≠ [] ∧ binary ≠ [] ∧ fromFlag ∉ words flags ∧
      ∀ first ∈ runtimeArgs.head?, first ∉ uvxFlagsStandalone ++ uvxFlagsWithValue

end UvxCall

section Plain

variable {flags : List UvxFlag} {package : UvxPackage} {runtimeArgs : List Text}

theorem skipUvxFlags_package (args : List Text) :
    skipUvxFlags (words flags ++ package.name :: args) = package.name :: args := by
  rw [skipUvxFlags_words, skipUvxFlags_of_not_mem]
  rintro first hfirst
  obtain rfl := Option.some.inj hfirst
  exact package.not_mem_flags

/-- Where nothing is taken out, the package is the first argument that is not an option. -/
theorem parseUvxArgs_plain (hname : package.name ≠ [])
    (h : takeFrom (words flags ++ package.name :: runtimeArgs)
      = ([], [], words flags ++ package.name :: runtimeArgs)) :
    parseUvxArgs (words flags ++ package.name :: runtimeArgs)
      = (package.name, stripVersion package.name, runtimeArgs) := by
  rw [parseUvxArgs_eq h, skipUvxFlags_package, takePackage, nameUvx_of_ne_nil hname, if_pos rfl]

/-- A `--from` of the tool. -/
theorem parseUvxArgs_from_behind (hflags : fromFlag ∉ words flags) (hname : package.name ≠ [])
    (hmem : fromFlag ∈ runtimeArgs) :
    parseUvxArgs (words flags ++ package.name :: runtimeArgs)
        = (package.name, stripVersion package.name, runtimeArgs) ↔
      fromFlag ∉ runtimeArgs.dropLast := by
  obtain ⟨before, behind, rfl, hbefore⟩ := List.eq_append_cons_of_mem hmem
  have hnot : fromFlag ∉ words flags ++ package.name :: before := by
    rw [List.mem_append, List.mem_cons, not_or, not_or]
    exact ⟨hflags, package.ne_fromFlag.symm, hbefore⟩
  have htake := takeFrom_append hnot behind
  rw [List.append_assoc, List.cons_append] at htake
  rcases behind with _ | ⟨first, behind⟩
  · refine iff_of_true (parseUvxArgs_plain hname ?_) ?_
    · simpa using htake
    · rwa [List.dropLast_concat]
  · refine iff_of_false (fun h ↦ ?_) ?_
    · have hlen := congrArg (fun parts ↦ parts.2.2.length) h
      dsimp only at hlen
      rcases behind with _ | ⟨second, behind⟩
      · have hle := length_parseUvxArgs_le htake
        rw [skipUvxFlags_package] at hle
        simp only [List.length_append, List.length_cons, List.length_nil] at hle hlen
        omega
      · have hle := length_parseUvxArgs_le htake
        rw [List.append_assoc, List.cons_append, skipUvxFlags_package] at hle
        simp only [List.length_append, List.length_cons] at hle hlen
        omega
    · exact not_not.mpr (mem_dropLast _ (List.cons_ne_nil first behind))

/-- A `--from` that is the value of an option. -/
theorem parseUvxArgs_from_before (hflags : fromFlag ∈ words flags) (hname : package.name ≠ []) :
    parseUvxArgs (words flags ++ package.name :: runtimeArgs)
        = (package.name, stripVersion package.name, runtimeArgs) ↔
      fromFlag ∉ (words flags ++ runtimeArgs).dropLast := by
  obtain ⟨before, flag, after, hsplit, hnot, hflag⟩ := exists_split_words hflags
  have hassoc : ∀ args, words flags ++ args
      = (words before ++ [flag]) ++ fromFlag :: (words after ++ args) := by
    intro args
    rw [hsplit]
    simp
  rw [hassoc, hassoc]
  rcases eq_or_ne after [] with rfl | hafter
  · have htake := takeFrom_append hnot (package.name :: runtimeArgs)
    have hnil : words [] = [] := rfl
    rw [hnil, List.nil_append, List.nil_append]
    rcases runtimeArgs with _ | ⟨first, runtimeArgs⟩
    · have hskip : skipUvxFlags [flag] = [] := by
        rw [skipUvxFlags, if_pos hflag]
      rw [parseUvxArgs_of_ne_nil htake hname, if_pos rfl, skipUvxFlags_words, hskip,
        List.dropLast_concat]
      exact iff_of_true rfl hnot
    · refine iff_of_false (fun h ↦ ?_) (not_not.mpr (mem_dropLast _ (List.cons_ne_nil _ _)))
      have hlen := congrArg (fun parts ↦ parts.2.2.length) h
      have hle := length_parseUvxArgs_le htake
      have hskip : skipUvxFlags (words before ++ [flag] ++ runtimeArgs)
          = skipUvxFlags (flag :: runtimeArgs) := by
        rw [List.append_assoc, skipUvxFlags_words, List.singleton_append]
      have hlt := length_skipUvxFlags_lt runtimeArgs
        (List.mem_append_right uvxFlagsStandalone hflag)
      rw [hskip, hlen] at hle
      simp only [List.length_cons] at hle hlt
      omega
  · obtain ⟨dashed, rest, hrest, hdash⟩ := head?_words_append hafter (package.name :: runtimeArgs)
    obtain ⟨dashed', rest', hrest', -⟩ := head?_words_append hafter runtimeArgs
    rw [hrest, hrest']
    exact iff_of_false (parseUvxArgs_ne_of_dashed hnot hdash rest package _)
      (not_not.mpr (mem_dropLast _ (List.cons_ne_nil _ _)))

end Plain

theorem parseUvxArgs_ne_nil (args : List Text) :
    (parseUvxArgs args).1 ≠ [] ∧ (parseUvxArgs args).2.1 ≠ [] := by
  rcases htake : takeFrom args with ⟨package, binary, remaining⟩
  rw [parseUvxArgs_eq htake]
  exact ⟨nameUvx_fst_ne_nil _ binary, nameUvx_snd_ne_nil _ binary⟩

theorem parseUvxArgs_plain_iff (flags : List UvxFlag) (package : UvxPackage)
    (runtimeArgs : List Text) :
    parseUvxArgs (words flags ++ package.name :: runtimeArgs)
        = (package.name, stripVersion package.name, runtimeArgs) ↔
      package.name ≠ [] ∧ fromFlag ∉ (words flags ++ runtimeArgs).dropLast := by
  by_cases hname : package.name = []
  · refine iff_of_false (fun h ↦ ?_) fun h ↦ h.1 hname
    exact (parseUvxArgs_ne_nil _).1 (by rw [h, hname])
  rw [and_iff_right hname]
  by_cases hflags : fromFlag ∈ words flags
  · exact parseUvxArgs_from_before hflags hname
  by_cases hmem : fromFlag ∈ runtimeArgs
  · rw [parseUvxArgs_from_behind hflags hname hmem,
      List.dropLast_append_of_ne_nil (List.ne_nil_of_mem hmem), List.mem_append,
      or_iff_right hflags]
  · have hnot : fromFlag ∉ words flags ++ package.name :: runtimeArgs := by
      rw [List.mem_append, List.mem_cons, not_or, not_or]
      exact ⟨hflags, package.ne_fromFlag.symm, hmem⟩
    refine iff_of_true (parseUvxArgs_plain hname (takeFrom_of_not_mem hnot)) fun h ↦ ?_
    exact (List.mem_append.mp (List.mem_of_mem_dropLast h)).elim hflags hmem

theorem parseUvxArgs_withFrom_iff (flags : List UvxFlag) (package : UvxPackage) (binary : Text)
    (runtimeArgs : List Text) :
    parseUvxArgs (words flags ++ fromFlag :: package.name :: binary :: runtimeArgs)
        = (package.name, binary, runtimeArgs) ↔
      package.name ≠ [] ∧ binary ≠ [] ∧ fromFlag ∉ words flags ∧
        ∀ first ∈ runtimeArgs.head?, first ∉ uvxFlagsStandalone ++ uvxFlagsWithValue := by
  by_cases hname : package.name = []
  · refine iff_of_false (fun h ↦ ?_) fun h ↦ h.1 hname
    exact (parseUvxArgs_ne_nil _).1 (by rw [h, hname])
  by_cases hbinary : binary = []
  · refine iff_of_false (fun h ↦ ?_) fun h ↦ h.2.1 hbinary
    exact (parseUvxArgs_ne_nil _).2 (by rw [h, hbinary])
  rw [and_iff_right hname, and_iff_right hbinary]
  by_cases hflags : fromFlag ∈ words flags
  · refine iff_of_false ?_ fun h ↦ h.1 hflags
    obtain ⟨before, flag, after, hsplit, hnot, -⟩ := exists_split_words hflags
    have hassoc : words flags ++ fromFlag :: package.name :: binary :: runtimeArgs
        = (words before ++ [flag]) ++ fromFlag ::
          (words after ++ fromFlag :: package.name :: binary :: runtimeArgs) := by
      rw [hsplit]
      simp
    rw [hassoc]
    rcases eq_or_ne after [] with rfl | hafter
    · exact parseUvxArgs_ne_of_dashed hnot rfl _ package _
    · obtain ⟨dashed, rest, hrest, hdash⟩ := head?_words_append hafter
        (fromFlag :: package.name :: binary :: runtimeArgs)
      rw [hrest]
      exact parseUvxArgs_ne_of_dashed hnot hdash rest package _
  · have htake := takeFrom_append hflags (package.name :: binary :: runtimeArgs)
    rw [and_iff_right hflags, parseUvxArgs_of_ne_nil htake hname, if_neg hbinary,
      skipUvxFlags_words]
    constructor
    · rintro h first hfirst hmem
      obtain ⟨rest, rfl⟩ := List.head?_eq_some_iff.mp hfirst
      have hskip := congrArg (fun parts ↦ parts.2.2.length) h
      exact (length_skipUvxFlags_lt rest hmem).ne hskip
    · intro h
      rw [skipUvxFlags_of_not_mem h]

/-- **When the arguments of `uvx` come through**: exactly if they are unambiguous. -/
theorem parseUvxArgs_eq_parts_iff (call : UvxCall) :
    parseUvxArgs call.args = call.parts ↔ call.Unambiguous := by
  rcases call with ⟨flags, package, runtimeArgs⟩ | ⟨flags, package, binary, runtimeArgs⟩
  · exact parseUvxArgs_plain_iff flags package runtimeArgs
  · exact parseUvxArgs_withFrom_iff flags package binary runtimeArgs

/-- A tool that reads something from a file. -/
def importCall : UvxCall :=
  .plain [] ⟨"importer".toList, by decide⟩ ["--from".toList, "data.csv".toList]

theorem not_forall_parts : ¬ ∀ call : UvxCall, parseUvxArgs call.args = call.parts :=
  fun h ↦ absurd (h importCall) (by decide)

end Container

end ArgusMcp
