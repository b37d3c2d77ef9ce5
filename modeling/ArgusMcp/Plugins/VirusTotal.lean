import ArgusMcp.Library.Url
import ArgusMcp.Plugins.Hooks
import ArgusMcp.Plugins.Secrets
import Mathlib.Algebra.Order.Ring.Rat
import Mathlib.Data.List.DropRight

/-!
# URLs in results

`VirusTotalPlugin` looks for URLs in a result that is a text, and checks the first ten of them. A
URL is let through if it or its domain is on one list, refused if it is on another one, and looked
up with a service otherwise. What is taken for its domain is its authority as it is written, with
the information about the user and the port, in lower case.

The list of what is to be refused should be enough: a URL whose host is on it should not get
through, whatever the service says. `denyList_complete_iff` says when this is so. `hosts` says which hosts
there are in a text: behind `http://` or `https://` there is an authority, as long as the characters
are ones of an authority, and the host is what it is without the user and the port.

## Parameters

Lower case is a parameter, as far as letters are concerned that are not of ASCII, and so is which
authorities are refused when a URL is taken apart. The service may answer each question as it likes,
or not at all; what it answered is kept for some time.
-/

namespace ArgusMcp

namespace VirusTotal

open Hooks
open Regex (seq cls many)
open Secrets (seqs lit litIgnoreCase ignoreCase isSpace)
open Url (Text)

/-! ## Finding URLs -/

/-- What the plugin asks of texts. -/
structure Letters where
  /-- `str.lower`. -/
  lower : Text → Text
  lower_ascii : ∀ s : Text, (∀ c ∈ s, c.toNat < 128) → lower s = s.map Char.toLower
  /-- The authorities for which there is a `ValueError`, apart from brackets. -/
  refuses : Text → Bool

/-- `[^\s\"'<>\]\)}{,]`. -/
def isUrlChar (c : Char) : Bool := !(isSpace .python c || "\"'<>])\x7d\x7b,".toList.contains c)

def urlPattern : Regex Char :=
  seqs [litIgnoreCase "http", many (ignoreCase 's') 0 (some 1), lit "://", many isUrlChar 1 none]

def extractDomain (letters : Letters) (url : Text) : Text :=
  match Url.split letters.refuses [] url with
  | some parts => letters.lower parts.netloc
  | none => []

/-! ## Checking them -/

structure Settings where
  threshold : ℤ
  cacheTtl : ℤ
  allowList : List Text
  denyList : List Text

/-- What the service answers to a question: the time when it is asked, the number of detections, if
it says one, and the time when this is noted. -/
structure Answer where
  asked : ℚ
  detections : Option ℤ
  noted : ℚ

abbrev Cache := Dict Text (ℚ × ℤ)

def lookup (settings : Settings) (answer : Answer) (url : Text) (cache : Cache) :
    Option ℤ × Cache :=
  match (cache.get? url).filter fun e ↦ decide (answer.asked - e.1 < settings.cacheTtl) with
  | some (_, detections) => (some detections, cache)
  | none =>
    match answer.detections with
    | none => (none, cache)
    | some detections => (some detections, cache.set url (answer.noted, detections))

def valueError (text : Text) : Exc := ⟨.valueError, .ofList ("VirusTotal: ".toList ++ text)⟩

/-- `_check_url`. What is noted in the context before something is raised is lost with it. -/
def checkUrl (letters : Letters) (settings : Settings) (answer : Answer) (url : Text)
    (cache : Cache) : Except Exc Unit × Cache :=
  let domain := extractDomain letters url
  if domain ∈ settings.allowList ∨ url ∈ settings.allowList then (.ok (), cache)
  else if domain ∈ settings.denyList ∨ url ∈ settings.denyList then
    (.error (valueError ("URL on deny list: ".toList ++ domain)), cache)
  else
    match lookup settings answer url cache with
    | (none, cache) => (.ok (), cache)
    | (some detections, cache) =>
      if settings.threshold ≤ detections then
        (.error (valueError ((toString detections).toList ++ " detections for ".toList ++ domain ++
          " (threshold=".toList ++ (toString settings.threshold).toList ++ [')'])), cache)
      else (.ok (), cache)

/-- The loop over the URLs, with the answers to the questions from one on. -/
def checkUrls (letters : Letters) (settings : Settings) (service : ℕ → Answer) :
    ℕ → List Text → Cache → Except Exc Unit × Cache
  | _, [], cache => (.ok (), cache)
  | i, url :: urls, cache =>
    match checkUrl letters settings (service i) url cache with
    | (.error e, cache) => (.error e, cache)
    | (.ok (), cache) => checkUrls letters settings service (i + 1) urls cache

variable {O : Type}

def checked (text : Text) : List Text := (urlPattern.findAll text).take 10

/-- What both hooks do. They differ in what they note before something is raised. -/
def postCheck (letters : Letters) (settings : Settings) (service : ℕ → Answer)
    (ctx : HookContext O) (cache : Cache) : HookReply O × Cache :=
  match ctx.result with
  | .text value =>
    match checkUrls letters settings service 0 (checked value.toList) cache with
    | (.error e, cache) => (.raises e, cache)
    | (.ok (), cache) => (.context ctx, cache)
  | _ => (.context ctx, cache)

def toolPostInvoke (letters : Letters) (settings : Settings) (service : ℕ → Answer)
    (ctx : HookContext O) (cache : Cache) : HookReply O × Cache :=
  postCheck letters settings service ctx cache

def resourcePostFetch (letters : Letters) (settings : Settings) (service : ℕ → Answer)
    (ctx : HookContext O) (cache : Cache) : HookReply O × Cache :=
  postCheck letters settings service ctx cache

/-! ## What should be -/

def isAuthorityChar (c : Char) : Bool :=
  c.isAlphanum || "-._~%!$&'()*+,;=:@[]".toList.contains c

/-- What is behind `http://` or `https://`, whatever the case. -/
def afterScheme (s : Text) : Option Text :=
  if (s.take 7).map Char.toLower = "http://".toList then some (s.drop 7)
  else if (s.take 8).map Char.toLower = "https://".toList then some (s.drop 8)
  else none

/-- The host of an authority: behind the user, and before the port. -/
def hostOf (authority : Text) : Text :=
  (authority.rtakeWhile fun c ↦ decide (c ≠ '@')).takeWhile fun c ↦ decide (c ≠ ':')

def hosts (text : Text) : List Text :=
  text.tails.filterMap fun s ↦ (afterScheme s).map fun rest ↦
    hostOf (rest.takeWhile isAuthorityChar)

/-- A host in the text is on the list. -/
def Denied (settings : Settings) (text : Text) : Prop :=
  ∃ host ∈ hosts text, ∃ domain ∈ settings.denyList,
    host.map Char.toLower = domain.map Char.toLower

def IsDomain (domain : Text) : Prop :=
  domain ≠ [] ∧ ∀ c ∈ domain, (c.isAlphanum || "-._".toList.contains c) = true

/-- A text with a host on the list does not get through. -/
def Complete (O : Type) (letters : Letters) (settings : Settings) (text : Text) : Prop :=
  Denied settings text → ∀ (service : ℕ → Answer) (cache : Cache) (ctx : HookContext O),
    ctx.result = .text (.ofList text) →
      (∃ e, (toolPostInvoke letters settings service ctx cache).1 = .raises e) ∧
      ∃ e, (resourcePostFetch letters settings service ctx cache).1 = .raises e

/-- The authority behind a scheme: up to the path, the query or the fragment. -/
def authority (rest : Text) : Text := rest.takeWhile fun c ↦ !Url.isDelimiter c

/-- The URL is refused: its authority, as it is written, is on the list, and the URL itself is not on
the other one. -/
def Refused (letters : Letters) (settings : Settings) (url : Text) : Prop :=
  url ∉ settings.allowList ∧ ∃ scheme rest, url = scheme ++ "://".toList ++ rest ∧
    (scheme.map Char.toLower = "http".toList ∨ scheme.map Char.toLower = "https".toList) ∧
    Url.invalidNetloc letters.refuses (authority rest) = false ∧
    letters.lower (authority rest) ∈ settings.denyList

/-! ## What a match is -/

theorem isAlpha_of_toLower {c : Char} (h : c.toLower.isLower = true) : c.isAlpha = true := by
  by_cases hupper : c.isUpper = true
  · exact Bool.or_eq_true_iff.mpr (.inl hupper)
  · have hself : c.toLower = c := dif_neg fun hrange ↦ hupper (decide_eq_true hrange)
    exact Bool.or_eq_true_iff.mpr (.inr (hself ▸ h))

theorem lt_toNat_of_isAlpha {c : Char} (h : c.isAlpha = true) : 32 < c.toNat := by
  have hnat : c.toNat = c.val.toNat := rfl
  have hranges : c.isAlpha = (decide ('A'.val ≤ c.val ∧ c.val ≤ 'Z'.val) ||
      (decide ('a'.val ≤ c.val) && decide (c.val ≤ 'z'.val))) := rfl
  simp [hranges, UInt32.le_iff_toNat_le] at h
  omega

theorem toLower_of_ignoreCase {c d : Char} (hc : c ∈ "http".toList)
    (h : ignoreCase c d = true) : d.toLower = c := by
  simp only [String.reduceToList, List.mem_cons, List.not_mem_nil, or_false] at hc
  rcases hc with rfl | rfl | rfl | rfl
  all_goals simpa [ignoreCase] using h

theorem matches_foldr_iff {len : ℕ} {p : Char → Char → Bool} {w s t : Text} :
    (w.foldr (fun c r ↦ seq (cls (p c)) r) .empty).Matches len s t ↔
      ∃ v, s = v ++ t ∧ List.Forall₂ (fun c d ↦ p c d = true) w v := by
  induction w generalizing s with
  | nil =>
    rw [List.foldr_nil, Regex.Matches]
    constructor
    · rintro rfl
      exact ⟨[], rfl, .nil⟩
    · rintro ⟨v, rfl, hv⟩
      rcases hv with _ | _
      rfl
  | cons c w ih =>
    rw [List.foldr_cons, Regex.Matches]
    constructor
    · rintro ⟨m, ⟨d, hd, rfl⟩, hm⟩
      obtain ⟨v, rfl, hv⟩ := ih.mp hm
      exact ⟨d :: v, rfl, .cons hd hv⟩
    · rintro ⟨v, rfl, hv⟩
      rcases hv with _ | @⟨_, d, _, v, hd, hv⟩
      exact ⟨v ++ t, ⟨d, hd, rfl⟩, ih.mpr ⟨v, rfl, hv⟩⟩

theorem exists_of_matches {len : ℕ} {s t : Text} (h : urlPattern.Matches len s t) :
    ∃ name more rest, s = name ++ more ++ "://".toList ++ rest ++ t ∧
      List.Forall₂ (fun c d ↦ ignoreCase c d = true) "http".toList name ∧
      (∀ c ∈ more, ignoreCase 's' c = true) ∧ more.length ≤ 1 ∧ ∀ c ∈ rest, isUrlChar c = true := by
  obtain ⟨s₁, hname, s₂, hmore, s₃, hslashes, s₄, hrest, hend⟩ := h
  obtain ⟨name, rfl, hletters⟩ := matches_foldr_iff.mp hname
  obtain ⟨more, rfl, hmore, -, hlength⟩ := hmore
  obtain rfl := Regex.matches_word_iff.mp hslashes
  obtain ⟨rest, rfl, hrest, -⟩ := hrest
  obtain rfl : s₄ = t := hend
  refine ⟨name, more, rest, ?_, hletters, hmore, hlength 1 rfl, hrest⟩
  simp only [List.append_assoc]

theorem takeWhile_scheme {scheme : Text} (hcolon : ':' ∉ scheme) (rest : Text) :
    (scheme ++ ':' :: rest).takeWhile (fun c ↦ decide (c ≠ ':')) = scheme := by
  have hall : ∀ c ∈ scheme, decide (c ≠ ':') = true := by
    intro c hc
    refine decide_eq_true ?_
    rintro rfl
    exact hcolon hc
  rw [List.takeWhile_append_of_pos hall, List.takeWhile_cons_of_neg (by simp), List.append_nil]

theorem splitScheme_append {scheme : Text} (hcolon : ':' ∉ scheme) (rest : Text) :
    Url.splitScheme (scheme ++ ':' :: rest) =
      if scheme.head?.any Char.isAlpha = true ∧ scheme.all Url.isSchemeChar = true then
        (some (scheme.map Char.toLower), rest)
      else (none, scheme ++ ':' :: rest) := by
  have hmem : ':' ∈ scheme ++ ':' :: rest := by simp
  rw [Url.splitScheme, takeWhile_scheme hcolon]
  simp only [hmem, true_and]
  rw [List.drop_append, List.drop_eq_nil_of_le (by omega), Nat.add_sub_cancel_left]
  rfl

structure IsMatch (name more rest : Text) : Prop where
  matches_name : List.Forall₂ (fun c d ↦ ignoreCase c d = true) "http".toList name
  matches_more : ∀ c ∈ more, ignoreCase 's' c = true
  length_more : more.length ≤ 1
  matches_rest : ∀ c ∈ rest, isUrlChar c = true

/-- The long s, which is an s up to case. -/
def longS : Char := Char.ofNat 0x17f

theorem ignoreCase_s_iff {c : Char} : ignoreCase 's' c = true ↔ c.toLower = 's' ∨ c = longS := by
  simp [ignoreCase, longS]

theorem all_toLower_iff {more : Text} :
    more.all (fun c ↦ c.toLower == 's') = true ↔ ∀ c ∈ more, c.toLower = 's' := by
  simp only [List.all_eq_true, beq_iff_eq]

theorem not_isLineChar_of_isAlpha {c : Char} (h : c.isAlpha = true) : Url.isLineChar c = false := by
  refine decide_eq_false ?_
  simp only [List.mem_cons, List.not_mem_nil, or_false]
  rintro (rfl | rfl | rfl)
  all_goals exact absurd h (by decide)

theorem not_isLineChar_of_isUrlChar {c : Char} (h : isUrlChar c = true) :
    Url.isLineChar c = false := by
  refine decide_eq_false ?_
  simp only [List.mem_cons, List.not_mem_nil, or_false]
  rintro (rfl | rfl | rfl)
  all_goals exact absurd h (by decide)

section Match

variable {name more rest : Text} (h : IsMatch name more rest)

include h

theorem IsMatch.exists_letters : ∃ a b c d, name = [a, b, c, d] ∧
    a.toLower = 'h' ∧ b.toLower = 't' ∧ c.toLower = 't' ∧ d.toLower = 'p' := by
  have hname := h.matches_name
  rcases hname with _ | ⟨ha, _ | ⟨hb, _ | ⟨hc, _ | ⟨hd, _ | _⟩⟩⟩⟩
  exact ⟨_, _, _, _, rfl, toLower_of_ignoreCase (by simp) ha, toLower_of_ignoreCase (by simp) hb,
    toLower_of_ignoreCase (by simp) hc, toLower_of_ignoreCase (by simp) hd⟩

theorem IsMatch.toLower_name : name.map Char.toLower = "http".toList := by
  obtain ⟨a, b, c, d, rfl, ha, hb, hc, hd⟩ := h.exists_letters
  simp [ha, hb, hc, hd]

theorem IsMatch.isAlpha_name : ∀ c ∈ name, c.isAlpha = true := by
  intro c hc
  have hmem : c.toLower ∈ "http".toList := h.toLower_name ▸ List.mem_map_of_mem hc
  simp only [String.reduceToList, List.mem_cons, List.not_mem_nil, or_false] at hmem
  refine isAlpha_of_toLower ?_
  rcases hmem with hmem | hmem | hmem | hmem
  all_goals rw [hmem]; rfl

theorem IsMatch.clean_eq :
    Url.clean (name ++ more ++ "://".toList ++ rest) = name ++ more ++ "://".toList ++ rest := by
  have hfirst : (name ++ more ++ "://".toList ++ rest).dropWhile (fun c ↦ decide (c.toNat ≤ 32)) =
      name ++ more ++ "://".toList ++ rest := by
    obtain ⟨a, b, c, d, rfl, -⟩ := h.exists_letters
    have ha : a.isAlpha = true := h.isAlpha_name a List.mem_cons_self
    refine List.dropWhile_cons_of_neg ?_
    rw [decide_eq_true_iff, not_le]
    exact lt_toNat_of_isAlpha ha
  rw [Url.clean, hfirst]
  refine List.filter_eq_self.mpr fun c hc ↦ ?_
  rw [Bool.not_eq_true']
  rw [List.mem_append, List.mem_append, List.mem_append] at hc
  rcases hc with ((hc | hc) | hc) | hc
  · exact not_isLineChar_of_isAlpha (h.isAlpha_name c hc)
  · rcases ignoreCase_s_iff.mp (h.matches_more c hc) with hs | rfl
    · exact not_isLineChar_of_isAlpha (isAlpha_of_toLower (hs ▸ rfl))
    · rfl
  · simp only [String.reduceToList, List.mem_cons, List.not_mem_nil, or_false] at hc
    rcases hc with rfl | rfl | rfl
    all_goals rfl
  · exact not_isLineChar_of_isUrlChar (h.matches_rest c hc)

theorem IsMatch.colon_notMem : ':' ∉ name ++ more := by
  intro hc
  rcases List.mem_append.mp hc with hc | hc
  · exact absurd (h.isAlpha_name ':' hc) (by decide)
  · exact absurd (h.matches_more ':' hc) (by decide)

theorem IsMatch.isWeb_iff : ((name ++ more).map Char.toLower = "http".toList ∨
    (name ++ more).map Char.toLower = "https".toList) ↔ ∀ c ∈ more, c.toLower = 's' := by
  have hlength := h.length_more
  rw [List.map_append, h.toLower_name]
  rcases more with _ | ⟨c, _ | ⟨d, more⟩⟩
  · simp
  · simp
  · simp at hlength

theorem IsMatch.extractDomain_eq (letters : Letters) :
    extractDomain letters (name ++ more ++ "://".toList ++ rest) =
      if more.all (fun c ↦ c.toLower == 's') = true ∧
        Url.invalidNetloc letters.refuses (authority rest) = false then
        letters.lower (authority rest)
      else [] := by
  have hurl : name ++ more ++ "://".toList ++ rest =
      (name ++ more) ++ ':' :: '/' :: '/' :: rest := by simp
  have hempty : letters.lower [] = [] := letters.lower_ascii [] (by simp)
  have hnetloc : Url.splitNetloc ('/' :: '/' :: rest) =
      (authority rest, rest.dropWhile fun c ↦ !Url.isDelimiter c) := by
    simp [Url.splitNetloc, authority]
  rw [extractDomain, Url.split, h.clean_eq, hurl, splitScheme_append h.colon_notMem]
  by_cases hmore : ∀ c ∈ more, c.toLower = 's'
  · have hscheme : (name ++ more).head?.any Char.isAlpha = true ∧
        (name ++ more).all Url.isSchemeChar = true := by
      have halpha : ∀ c ∈ name ++ more, c.isAlpha = true := by
        intro c hc
        rcases List.mem_append.mp hc with hc | hc
        · exact h.isAlpha_name c hc
        · exact isAlpha_of_toLower (hmore c hc ▸ rfl)
      constructor
      · obtain ⟨a, b, c, d, rfl, -⟩ := h.exists_letters
        exact halpha a List.mem_cons_self
      · refine List.all_eq_true.mpr fun c hc ↦ ?_
        rw [Url.isSchemeChar, Char.isAlphanum, halpha c hc]
        rfl
    rw [if_pos hscheme]
    dsimp only
    rw [hnetloc]
    rcases hinvalid : Url.invalidNetloc letters.refuses (authority rest) with _ | _
    · rw [if_neg Bool.false_ne_true]
      exact (if_pos ⟨all_toLower_iff.mpr hmore, rfl⟩).symm
    · rw [if_pos rfl]
      exact (if_neg fun hboth ↦ Bool.false_ne_true hboth.2.symm).symm
  · have hscheme : ¬ ((name ++ more).head?.any Char.isAlpha = true ∧
        (name ++ more).all Url.isSchemeChar = true) := by
      rintro ⟨-, hchars⟩
      refine hmore fun c hc ↦ (ignoreCase_s_iff.mp (h.matches_more c hc)).resolve_right ?_
      rintro rfl
      have hlong := List.all_eq_true.mp hchars longS (List.mem_append_right name hc)
      exact absurd hlong (by decide)
    have hnone : Url.splitNetloc (name ++ more ++ ':' :: '/' :: '/' :: rest) =
        ([], name ++ more ++ ':' :: '/' :: '/' :: rest) := by
      obtain ⟨a, b, c, d, rfl, ha, -⟩ := h.exists_letters
      refine if_neg fun hslash ↦ ?_
      have hfirst : '/' = a := (List.cons_prefix_cons.mp (List.isPrefixOf_iff_prefix.mp hslash)).1
      rw [← hfirst] at ha
      exact absurd ha (by decide)
    rw [if_neg hscheme]
    dsimp only
    rw [hnone]
    exact hempty.trans (if_neg fun hboth ↦ hmore (all_toLower_iff.mp hboth.1)).symm

end Match

/-! ## What is refused -/

section Check

variable {letters : Letters} {settings : Settings}

/-- What is refused whatever the service says. -/
def IsDenied (letters : Letters) (settings : Settings) (url : Text) : Prop :=
  ¬ (extractDomain letters url ∈ settings.allowList ∨ url ∈ settings.allowList) ∧
    (extractDomain letters url ∈ settings.denyList ∨ url ∈ settings.denyList)

theorem exists_isMatch_of_mem_findAll {text url : Text} (h : url ∈ urlPattern.findAll text) :
    ∃ name more rest, url = name ++ more ++ "://".toList ++ rest ∧ IsMatch name more rest := by
  obtain ⟨s, t, heq, -, hmatch⟩ := Regex.exists_matches_of_mem_findAllFrom h
  obtain ⟨name, more, rest, hs, hname, hmore, hlength, hrest⟩ := exists_of_matches hmatch
  refine ⟨name, more, rest, ?_, hname, hmore, hlength, hrest⟩
  exact List.append_cancel_right (heq.symm.trans hs)

theorem isDenied_iff {url : Text} (hdomains : ∀ d ∈ settings.denyList, IsDomain d)
    (hdisjoint : ∀ d ∈ settings.denyList, d ∉ settings.allowList) {text : Text}
    (h : url ∈ urlPattern.findAll text) :
    IsDenied letters settings url ↔ Refused letters settings url := by
  obtain ⟨name, more, rest, rfl, hmatch⟩ := exists_isMatch_of_mem_findAll h
  have hslash : name ++ more ++ "://".toList ++ rest ∉ settings.denyList := by
    intro hmem
    have hchar := (hdomains _ hmem).2 '/' (by simp)
    exact absurd hchar (by decide)
  have hempty : ([] : Text) ∉ settings.denyList := fun hmem ↦ (hdomains [] hmem).1 rfl
  rw [IsDenied, or_iff_left hslash, hmatch.extractDomain_eq]
  constructor
  · rintro ⟨hallow, hdeny⟩
    rw [not_or] at hallow
    split at hdeny
    · rename_i hvalid
      refine ⟨hallow.2, name ++ more, rest, rfl, ?_, hvalid.2, hdeny⟩
      exact hmatch.isWeb_iff.mpr (all_toLower_iff.mp hvalid.1)
    · exact absurd hdeny hempty
  · rintro ⟨hallow, scheme, rest', hurl, hscheme, hvalid, hdeny⟩
    have hcolon : ':' ∉ scheme := by
      intro hc
      have hlower : ':' ∈ scheme.map Char.toLower := List.mem_map_of_mem (f := Char.toLower) hc
      rcases hscheme with hscheme | hscheme
      all_goals exact absurd (hscheme ▸ hlower) (by simp)
    have hparts : (name ++ more) ++ ':' :: '/' :: '/' :: rest =
        scheme ++ ':' :: '/' :: '/' :: rest' := by simpa using hurl
    obtain rfl : name ++ more = scheme := by
      rw [← takeWhile_scheme hmatch.colon_notMem ('/' :: '/' :: rest), hparts,
        takeWhile_scheme hcolon]
    obtain rfl : rest = rest' := by simpa using hparts
    rw [if_pos ⟨all_toLower_iff.mpr (hmatch.isWeb_iff.mp hscheme), hvalid⟩]
    exact ⟨not_or.mpr ⟨hdisjoint _ hdeny, hallow⟩, hdeny⟩

/-! ## The loop -/

theorem raises_checkUrl (answer : Answer) {url : Text} (cache : Cache)
    (h : IsDenied letters settings url) :
    ∃ e, (checkUrl letters settings answer url cache).1 = .error e := by
  rw [checkUrl, if_neg h.1, if_pos h.2]
  exact ⟨_, rfl⟩

theorem raises_checkUrls (service : ℕ → Answer) {urls : List Text}
    (h : ∃ url ∈ urls, IsDenied letters settings url) (i : ℕ) (cache : Cache) :
    ∃ e, (checkUrls letters settings service i urls cache).1 = .error e := by
  induction urls generalizing i cache with
  | nil =>
    obtain ⟨url, hmem, -⟩ := h
    exact absurd hmem List.not_mem_nil
  | cons url urls ih =>
    obtain ⟨url', hmem, hdenied⟩ := h
    rw [checkUrls]
    rcases hcheck : checkUrl letters settings (service i) url cache with ⟨e | _, cache'⟩
    · exact ⟨e, rfl⟩
    · rcases List.mem_cons.mp hmem with rfl | hmem
      · obtain ⟨e, he⟩ := raises_checkUrl (service i) cache hdenied
        rw [hcheck] at he
        exact absurd he (by simp)
      · exact ih ⟨url', hmem, hdenied⟩ (i + 1) cache'

/-- A service that says nothing. -/
def silent : ℕ → Answer := fun _ ↦ ⟨0, none, 0⟩

theorem checkUrl_silent {url : Text} (h : ¬ IsDenied letters settings url) (i : ℕ) :
    checkUrl letters settings (silent i) url Dict.empty = (.ok (), Dict.empty) := by
  rw [checkUrl]
  split
  · rfl
  · rename_i hallow
    rw [if_neg fun hdeny ↦ h ⟨hallow, hdeny⟩]
    rfl

theorem checkUrls_silent {urls : List Text} (h : ∀ url ∈ urls, ¬ IsDenied letters settings url)
    (i : ℕ) : checkUrls letters settings silent i urls Dict.empty = (.ok (), Dict.empty) := by
  induction urls generalizing i with
  | nil => rfl
  | cons url urls ih =>
    rw [List.forall_mem_cons] at h
    rw [checkUrls, checkUrl_silent h.1]
    exact ih h.2 (i + 1)

theorem raises_postCheck_iff {text : Text} :
    (∀ (service : ℕ → Answer) (cache : Cache) (ctx : HookContext O),
      ctx.result = .text (.ofList text) →
        ∃ e, (postCheck letters settings service ctx cache).1 = .raises e) ↔
      ∃ url ∈ checked text, IsDenied letters settings url := by
  constructor
  · intro h
    by_contra hnone
    have hnot : ∀ url ∈ checked text, ¬ IsDenied letters settings url :=
      fun url hmem hdenied ↦ hnone ⟨url, hmem, hdenied⟩
    have hsilent := checkUrls_silent hnot 0
    obtain ⟨e, he⟩ := h silent Dict.empty
      ⟨"", .callTool, [], "", Dict.empty, .text (.ofList text)⟩ rfl
    rw [postCheck] at he
    dsimp only at he
    rw [String.toList_ofList, hsilent] at he
    exact absurd he (by simp)
  · intro h service cache ctx hresult
    obtain ⟨e, he⟩ := raises_checkUrls service h 0 cache
    refine ⟨e, ?_⟩
    rw [postCheck, hresult]
    dsimp only
    rw [String.toList_ofList]
    split
    · rename_i e' cache' hcheck
      rw [hcheck] at he
      exact congrArg HookReply.raises (Except.error.inj he)
    · rename_i cache' hcheck
      rw [hcheck] at he
      exact absurd he (by simp)

/-- **A text with a host on the list** does not get through exactly if one of the first ten URLs that
are found has an authority that is, as it is written, on the list. -/
theorem denyList_complete_iff (letters : Letters) (settings : Settings)
    (hdomains : ∀ d ∈ settings.denyList, IsDomain d)
    (hdisjoint : ∀ d ∈ settings.denyList, d ∉ settings.allowList) (text : Text) :
    Complete O letters settings text ↔
      (Denied settings text → ∃ url ∈ checked text, Refused letters settings url) := by
  have hchecked : (∃ url ∈ checked text, IsDenied letters settings url) ↔
      ∃ url ∈ checked text, Refused letters settings url :=
    exists_congr fun url ↦ and_congr_right fun hmem ↦
      isDenied_iff hdomains hdisjoint (List.mem_of_mem_take hmem)
  rw [Complete, ← hchecked, ← raises_postCheck_iff (O := O)]
  refine forall_congr' fun _ ↦ ?_
  simp only [toolPostInvoke, resourcePostFetch, and_self]

end Check

def asciiLetters : Letters := ⟨fun s ↦ s.map Char.toLower, fun _ _ ↦ rfl, fun _ ↦ false⟩

def oneDomain : Settings := ⟨3, 300, [], ["evil.com".toList]⟩

def withUser : Text := "http://user@evil.com/".toList

theorem isDomain_oneDomain : ∀ d ∈ oneDomain.denyList, IsDomain d := by
  intro d hd
  obtain rfl := List.mem_singleton.mp hd
  exact ⟨by simp, List.all_eq_true.mp rfl⟩

theorem complete_withUser_iff :
    Complete Unit asciiLetters oneDomain withUser ↔
      (Denied oneDomain withUser → ∃ url ∈ checked withUser,
        Refused asciiLetters oneDomain url) :=
  denyList_complete_iff asciiLetters oneDomain isDomain_oneDomain (fun _ _ ↦ List.not_mem_nil) withUser

/-- The user is taken for a part of the domain. -/
theorem not_complete_withUser : ¬ Complete Unit asciiLetters oneDomain withUser := by
  intro h
  have hhost : "evil.com".toList ∈ hosts withUser :=
    List.mem_filterMap.mpr ⟨withUser, (List.mem_tails _ _).mpr List.suffix_rfl, rfl⟩
  have hdenied : Denied oneDomain withUser :=
    ⟨"evil.com".toList, hhost, "evil.com".toList, List.mem_singleton.mpr rfl, rfl⟩
  have hchecked : checked withUser = [withUser] := by decide
  have hdomain : extractDomain asciiLetters withUser = "user@evil.com".toList := by decide
  have hraises := raises_postCheck_iff.mp fun service cache ctx hctx ↦
    (h hdenied service cache ctx hctx).1
  obtain ⟨url, hmem, -, hdeny⟩ := hraises
  rw [hchecked] at hmem
  rw [List.mem_singleton.mp hmem, hdomain] at hdeny
  exact absurd hdeny (by decide)

end VirusTotal

end ArgusMcp
