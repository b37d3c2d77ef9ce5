import Mathlib.Data.List.Basic
import Mathlib.Data.List.Infix
import Mathlib.Data.List.TakeWhile
import Mathlib.Tactic.Common

/-!
# URLs

URLs of the web, as the module `urllib.parse` of Python takes them apart, joins them, and puts them
together. Not every text has parts: brackets must come in pairs, and some authorities are refused for
other reasons, which are left open.

The authority of a URL is kept if a path from the root is joined to it (`split_join_rooted`), and so
is the host.
-/

namespace ArgusMcp

namespace Url

abbrev Text := List Char

/-- `scheme://netloc/path?query#fragment`. -/
structure Parts where
  scheme : Text
  netloc : Text
  path : Text
  query : Text
  fragment : Text
  deriving DecidableEq

/-! ## Taking apart -/

def isLineChar (c : Char) : Bool := decide (c ∈ ['\t', '\r', '\n'])

/-- Control characters and blanks in front are ignored, and so are tabs and line breaks. -/
def clean (url : Text) : Text :=
  (url.dropWhile fun c ↦ decide (c.toNat ≤ 32)).filter fun c ↦ !isLineChar c

def isSchemeChar (c : Char) : Bool := c.isAlphanum || decide (c ∈ ['+', '-', '.'])

/-- The scheme, if there is one, and what follows. -/
def splitScheme (url : Text) : Option Text × Text :=
  let name := url.takeWhile fun c ↦ decide (c ≠ ':')
  if ':' ∈ url ∧ name.head?.any Char.isAlpha ∧ name.all isSchemeChar then
    (some (name.map Char.toLower), url.drop (name.length + 1))
  else (none, url)

def isDelimiter (c : Char) : Bool := decide (c ∈ ['/', '?', '#'])

/-- The authority, and what follows. -/
def splitNetloc (url : Text) : Text × Text :=
  if "//".toList.isPrefixOf url then
    ((url.drop 2).takeWhile fun c ↦ !isDelimiter c, (url.drop 2).dropWhile fun c ↦ !isDelimiter c)
  else ([], url)

/-- What is before the letter, and what is behind it. -/
def partition (c : Char) (s : Text) : Text × Text :=
  (s.takeWhile fun d ↦ decide (d ≠ c), (s.dropWhile fun d ↦ decide (d ≠ c)).drop 1)

/-- An authority with a bracket missing, or one that is refused. -/
def invalidNetloc (refuses : Text → Bool) (netloc : Text) : Bool :=
  !netloc.isEmpty && (decide (decide ('[' ∈ netloc) ≠ decide (']' ∈ netloc)) || refuses netloc)

/-- `urlsplit(url, scheme)`. `none` is a `ValueError`. -/
def split (refuses : Text → Bool) (scheme url : Text) : Option Parts :=
  let named := splitScheme (clean url)
  let located := splitNetloc named.2
  let fragmented := partition '#' located.2
  let queried := partition '?' fragmented.1
  if invalidNetloc refuses located.1 then none
  else some ⟨named.1.getD scheme, located.1, queried.1, queried.2, fragmented.2⟩

/-- `hostname`, which is `None` if it is empty. A zone keeps its capitals. -/
def Parts.hostname (p : Parts) : Text :=
  let hostinfo := (p.netloc.reverse.takeWhile fun c ↦ decide (c ≠ '@')).reverse
  let host :=
    if '[' ∈ hostinfo then (partition ']' (partition '[' hostinfo).2).1 else (partition ':' hostinfo).1
  (host.takeWhile fun c ↦ decide (c ≠ '%')).map Char.toLower ++
    host.dropWhile fun c ↦ decide (c ≠ '%')

/-! ## Putting together -/

/-- `urlunsplit`, for a URL with an authority. -/
def Parts.unsplit (p : Parts) : Text :=
  let path := if p.path = [] ∨ p.path.head? = some '/' then p.path else '/' :: p.path
  p.scheme ++ "://".toList ++ p.netloc ++ path ++
    (if p.query = [] then [] else '?' :: p.query) ++
    (if p.fragment = [] then [] else '#' :: p.fragment)

/-- The last segment of a path, and the parameters in it. -/
def splitParams (path : Text) : Text × Text :=
  let last := (path.reverse.takeWhile fun c ↦ decide (c ≠ '/')).reverse
  if ';' ∈ last then
    (path.take (path.length - last.length) ++ (partition ';' last).1, (partition ';' last).2)
  else (path, [])

def withParams (path params : Text) : Text := if params = [] then path else path ++ ';' :: params

/-- What a segment does to those before it. -/
def pushSegment (done : List Text) (segment : Text) : List Text :=
  if segment = "..".toList then done.dropLast
  else if segment = ".".toList then done else done ++ [segment]

/-- The path without the segments `.` and `..`. -/
def resolve (segments : List Text) : Text :=
  let done := segments.foldl pushSegment []
  let done :=
    if segments.getLast? = some ".".toList ∨ segments.getLast? = some "..".toList then done ++ [[]]
    else done
  let path := ['/'].intercalate done
  if path = [] then ['/'] else path

/-- Empty segments are left out, but for the first and the last. -/
def withoutEmpty : List Text → List Text
  | [] => []
  | first :: rest => first :: (rest.dropLast.filter fun s ↦ !s.isEmpty) ++ rest.getLast?.toList

/-- The segments of a path that is relative to another one. -/
def segmentsOf (base path : Text) : List Text :=
  if path.head? = some '/' then path.splitOn '/'
  else
    let parts := base.splitOn '/'
    withoutEmpty ((if parts.getLast? = some [] then parts else parts.dropLast) ++ path.splitOn '/')

def isWeb (scheme : Text) : Bool := decide (scheme ∈ ["http".toList, "https".toList])

/-- The parts of the URL that another one comes to, relative to a base with the same scheme. -/
def Parts.relativeTo (base p : Parts) : Parts :=
  let path := splitParams p.path
  if p.netloc ≠ [] then p
  else if path.1 = [] ∧ path.2 = [] then
    { p with
      netloc := base.netloc
      path := base.path
      query := if p.query = [] then base.query else p.query }
  else
    { p with
      netloc := base.netloc
      path := withParams (resolve (segmentsOf (splitParams base.path).1 path.1)) path.2 }

/-- `urljoin`, for a base of the web with an authority. `none` is a `ValueError`. -/
def join (refuses : Text → Bool) (base url : Text) : Option Text :=
  if base = [] then some url
  else if url = [] then some base
  else
    (split refuses [] base).bind fun b ↦ (split refuses b.scheme url).map fun p ↦
      if p.scheme ≠ b.scheme ∨ isWeb p.scheme = false then url else (b.relativeTo p).unsplit

theorem isWeb_cases {scheme : Text} (h : isWeb scheme = true) :
    scheme = "http".toList ∨ scheme = "https".toList := by
  rcases List.mem_cons.mp (of_decide_eq_true h) with rfl | h
  · exact Or.inl rfl
  · exact Or.inr (List.mem_singleton.mp h)

/-! ## The root of a URL -/

section

variable {refuses : Text → Bool}

/-- What an authority looks like. -/
structure IsNetloc (refuses : Text → Bool) (netloc : Text) : Prop where
  no_delimiter : ∀ c ∈ netloc, isDelimiter c = false
  no_line : ∀ c ∈ netloc, isLineChar c = false
  valid : invalidNetloc refuses netloc = false

theorem isNetloc_of_split {scheme url : Text} {p : Parts} (h : split refuses scheme url = some p) :
    IsNetloc refuses p.netloc := by
  rw [split] at h
  split at h
  · exact absurd h (by simp)
  · rename_i hvalid
    obtain rfl := Option.some.inj h
    have hclean : ∀ c ∈ clean url, isLineChar c = false := fun c hc ↦ by
      simpa using (List.mem_filter.mp hc).2
    have hrest : ∀ c ∈ (splitScheme (clean url)).2, isLineChar c = false := by
      intro c hc
      rw [splitScheme] at hc
      split at hc
      · exact hclean c (List.mem_of_mem_drop hc)
      · exact hclean c hc
    refine ⟨fun c hc ↦ ?_, fun c hc ↦ ?_, Bool.eq_false_iff.mpr hvalid⟩
    · rw [splitNetloc] at hc
      split at hc
      · simpa using List.mem_takeWhile_imp hc
      · exact absurd hc List.not_mem_nil
    · rw [splitNetloc] at hc
      split at hc
      · exact hrest c (List.mem_of_mem_drop ((List.takeWhile_prefix _).subset hc))
      · exact absurd hc List.not_mem_nil

theorem partition_of_not_mem {c : Char} {s : Text} (h : c ∉ s) : partition c s = (s, []) := by
  have hall : ∀ d ∈ s, decide (d ≠ c) = true := by
    intro d hd
    apply decide_eq_true
    rintro rfl
    exact h hd
  rw [partition, List.takeWhile_eq_self_iff.mpr hall, List.dropWhile_eq_nil_iff.mpr hall]
  rfl

theorem split_rooted {path : Text} (scheme : Text) (hhead : path.head? = some '/')
    (hsingle : (!"//".toList.isPrefixOf path) = true)
    (hplain : ∀ c ∈ path, c ≠ '#' ∧ c ≠ '?' ∧ isLineChar c = false) :
    split refuses scheme path = some ⟨scheme, [], path, [], []⟩ := by
  obtain ⟨rest, rfl⟩ := List.head?_eq_some_iff.mp hhead
  have hclean : clean ('/' :: rest) = '/' :: rest := by
    have hkept : ∀ c ∈ '/' :: rest, (!isLineChar c) = true := fun c hc ↦ by
      rw [(hplain c hc).2.2]
      rfl
    have hfirst : ('/' :: rest).dropWhile (fun c ↦ decide (c.toNat ≤ 32)) = '/' :: rest := rfl
    rw [clean, hfirst]
    exact List.filter_eq_self.mpr hkept
  have hnamed : splitScheme ('/' :: rest) = (none, '/' :: rest) := by
    rw [splitScheme]
    refine if_neg ?_
    rintro ⟨-, halpha, -⟩
    have hslash : Option.any Char.isAlpha (some '/') = true := halpha
    exact absurd hslash (by decide)
  have hlocated : splitNetloc ('/' :: rest) = ([], '/' :: rest) := by
    rw [Bool.not_eq_true'] at hsingle
    rw [splitNetloc, hsingle, if_neg Bool.false_ne_true]
  rw [split, hclean, hnamed, hlocated, partition_of_not_mem fun hc ↦ (hplain '#' hc).1 rfl,
    partition_of_not_mem fun hc ↦ (hplain '?' hc).2.1 rfl]
  exact if_neg (by simp [invalidNetloc])

theorem split_root {scheme netloc path : Text} (default : Text) (hscheme : isWeb scheme = true)
    (hnetloc : IsNetloc refuses netloc) (hpath : path = [] ∨ path.head? = some '/')
    (hplain : ∀ c ∈ path, c ≠ '#' ∧ c ≠ '?' ∧ isLineChar c = false) :
    split refuses default (scheme ++ "://".toList ++ netloc ++ path) =
      some ⟨scheme, netloc, path, [], []⟩ := by
  have hclean : clean (scheme ++ "://".toList ++ netloc ++ path)
      = scheme ++ "://".toList ++ netloc ++ path := by
    have hfront : ∀ s ∈ ["http".toList, "https".toList],
        (s ++ "://".toList).all (fun c ↦ !isLineChar c) = true := by decide
    have hkept : ∀ c ∈ scheme ++ "://".toList ++ netloc ++ path, (!isLineChar c) = true := by
      intro c hc
      rcases List.mem_append.mp hc with hc | hc
      · rcases List.mem_append.mp hc with hc | hc
        · exact List.all_eq_true.mp (hfront scheme (of_decide_eq_true hscheme)) c hc
        · rw [hnetloc.no_line c hc]
          rfl
      · rw [(hplain c hc).2.2]
        rfl
    have hfirst : (scheme ++ "://".toList ++ netloc ++ path).dropWhile
        (fun c ↦ decide (c.toNat ≤ 32)) = scheme ++ "://".toList ++ netloc ++ path := by
      rcases isWeb_cases hscheme with rfl | rfl
      · rfl
      · rfl
    rw [clean, hfirst]
    exact List.filter_eq_self.mpr hkept
  have hnamed : splitScheme (scheme ++ "://".toList ++ netloc ++ path)
      = (some scheme, "//".toList ++ (netloc ++ path)) := by
    rcases isWeb_cases hscheme with rfl | rfl
    · rfl
    · rfl
  have hdelimited : path.takeWhile (fun c ↦ !isDelimiter c) = [] ∧
      path.dropWhile (fun c ↦ !isDelimiter c) = path := by
    rcases hpath with rfl | hhead
    · exact ⟨rfl, rfl⟩
    · obtain ⟨rest, rfl⟩ := List.head?_eq_some_iff.mp hhead
      exact ⟨rfl, rfl⟩
  have hnone : ∀ c ∈ netloc, (!isDelimiter c) = true := fun c hc ↦ by
    rw [hnetloc.no_delimiter c hc]
    rfl
  have hlocated : splitNetloc ("//".toList ++ (netloc ++ path)) = (netloc, path) := by
    have hdrop : ("//".toList ++ (netloc ++ path)).drop 2 = netloc ++ path := rfl
    rw [splitNetloc, if_pos (List.isPrefixOf_iff_prefix.mpr (List.prefix_append _ _)), hdrop,
      List.takeWhile_append_of_pos hnone, hdelimited.1, List.append_nil,
      List.dropWhile_append_of_pos hnone, hdelimited.2]
  rw [split, hclean, hnamed, hlocated, partition_of_not_mem fun hc ↦ (hplain '#' hc).1 rfl,
    partition_of_not_mem fun hc ↦ (hplain '?' hc).2.1 rfl]
  exact if_neg (Bool.eq_false_iff.mp hnetloc.valid)

/-- `f"{parsed.scheme}://{parsed.netloc}"`. -/
def Parts.root (p : Parts) : Text := p.scheme ++ "://".toList ++ p.netloc

/-- A path from the root that means what it says. -/
def isRooted (path : Text) : Bool :=
  decide (path.head? = some '/') && !"//".toList.isPrefixOf path &&
    path.all (fun c ↦ decide (c ∉ ['#', '?', ';']) && !isLineChar c) &&
    decide (resolve (path.splitOn '/') = path)

/-- **The authority is kept** by a path from the root. -/
theorem split_join_rooted {scheme url path : Text} {p : Parts}
    (h : split refuses scheme url = some p) (hweb : isWeb p.scheme = true)
    (hpath : isRooted path = true) :
    ∃ joined, join refuses p.root path = some joined ∧
      split refuses [] joined = some ⟨p.scheme, p.netloc, path, [], []⟩ := by
  have hnetloc := isNetloc_of_split h
  rw [isRooted, Bool.and_eq_true, Bool.and_eq_true, Bool.and_eq_true] at hpath
  obtain ⟨⟨⟨hhead, hsingle⟩, hall⟩, hresolve⟩ := hpath
  have hhead := of_decide_eq_true hhead
  have hresolve := of_decide_eq_true hresolve
  have hplain : ∀ c ∈ path, c ≠ '#' ∧ c ≠ '?' ∧ c ≠ ';' ∧ isLineChar c = false := by
    intro c hc
    have h := List.all_eq_true.mp hall c hc
    rw [Bool.and_eq_true, Bool.not_eq_true'] at h
    have hne : c ∉ ['#', '?', ';'] := of_decide_eq_true h.1
    rw [List.mem_cons, List.mem_cons, List.mem_singleton, not_or, not_or] at hne
    exact ⟨hne.1, hne.2.1, hne.2.2, h.2⟩
  have hne : p.root ≠ [] := by
    rcases isWeb_cases hweb with hscheme | hscheme
    · rw [Parts.root, hscheme]
      exact List.cons_ne_nil _ _
    · rw [Parts.root, hscheme]
      exact List.cons_ne_nil _ _
  have hbase : split refuses [] p.root = some ⟨p.scheme, p.netloc, [], [], []⟩ := by
    have hroot := split_root [] hweb hnetloc (Or.inl (rfl : ([] : Text) = []))
      fun c hc ↦ absurd hc List.not_mem_nil
    rwa [List.append_nil] at hroot
  have hrelative : split refuses p.scheme path = some ⟨p.scheme, [], path, [], []⟩ :=
    split_rooted p.scheme hhead hsingle fun c hc ↦
      ⟨(hplain c hc).1, (hplain c hc).2.1, (hplain c hc).2.2.2⟩
  have hparams : splitParams path = (path, []) := by
    rw [splitParams]
    refine if_neg fun hmem ↦ ?_
    have hlast := (List.takeWhile_prefix _).subset (List.mem_reverse.mp hmem)
    exact (hplain ';' (List.mem_reverse.mp hlast)).2.2.1 rfl
  have hpathne : path ≠ [] := by
    rintro rfl
    exact absurd hhead (by simp)
  have hjoin : join refuses p.root path = some (p.root ++ path) := by
    rw [join, if_neg hne, if_neg hpathne, hbase, Option.bind_some, hrelative, Option.map_some]
    rw [if_neg (by simp [hweb]), Parts.relativeTo]
    dsimp only
    rw [if_neg (by simp), hparams, if_neg (by simp [hpathne]), segmentsOf, if_pos hhead, hresolve,
      Parts.unsplit]
    dsimp only [withParams]
    simp [hhead, Parts.root]
  refine ⟨_, hjoin, ?_⟩
  exact split_root [] hweb hnetloc (Or.inr hhead) fun c hc ↦
    ⟨(hplain c hc).1, (hplain c hc).2.1, (hplain c hc).2.2.2⟩

end

end Url

end ArgusMcp
