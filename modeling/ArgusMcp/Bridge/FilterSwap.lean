import ArgusMcp.Bridge.FilterDialects
import ArgusMcp.Library.Value

/-!
# Two engines for one filter

`build_filter` makes a filter in Python, with the patterns of `fnmatch`, or, where the extension is
installed, one in Rust, with those of the crate `globset`. Which of them it is cannot be seen from
the configuration.

Of `globset` nothing is assumed but what is documented (`Documented`). With patterns that both
dialects read in the same way one filter can take the place of the other. A pattern that is refused
makes a filter in Python only, and one with braces or a backslash hides other capabilities there.
-/

namespace ArgusMcp

namespace FilterSwap

open Fnmatch (Token tokens matchTokens fnmatch)

/-! ## The filters -/

/-- What the extension uses of `globset`. -/
structure Globset (γ σ : Type) where
  /-- `Glob::new`, or the text of the error. -/
  new : String → Except String γ
  /-- The names that a glob matches. -/
  matcher : γ → String → Bool
  build : List γ → Except String σ
  isMatch : σ → String → Bool

/-- The documented syntax, and that a set matches what one of its globs does. -/
structure Documented {γ σ : Type} (G : Globset γ σ) : Prop where
  plain : ∀ ts, WellFormed ts → ∃ g, G.new (.ofList (renderAll ts)) = .ok g ∧
    ∀ name, G.matcher g name = matchTokens ts name.toList
  everything : ∃ g, G.new "**" = .ok g ∧ ∀ name, G.matcher g name = true
  refused : ∀ s, Refused s → ∃ e, G.new (.ofList s) = .error e
  reread : ∀ raw readings, Reread raw readings → ∃ g, G.new (.ofList (renderAll raw)) = .ok g ∧
    ∀ name, G.matcher g name = readings.any (matchTokens · name.toList)
  build : ∀ gs, ∃ set, G.build gs = .ok set ∧
    ∀ name, G.isMatch set name = gs.any fun g ↦ G.matcher g name

section Filters

variable {γ σ : Type} (G : Globset γ σ)

/-- The globs of all patterns, up to the first one that is refused. -/
def newGlobs : List String → Except String (List γ)
  | [] => .ok []
  | p :: ps =>
    ((G.new p).mapError fun e ↦ "invalid glob pattern '" ++ p ++ "': " ++ e).bind fun g ↦
      (newGlobs ps).map fun gs ↦ g :: gs

def buildGlobset (patterns : List String) : Except String σ :=
  (newGlobs G patterns).bind fun gs ↦
    (G.build gs).mapError fun e ↦ "failed to build glob set: " ++ e

structure RustCapabilityFilter (σ : Type) where
  allowSet : Option σ
  denySet : Option σ
  active : Bool

def patternSet (patterns : List String) : Except String (Option σ) :=
  if patterns = [] then .ok none else (buildGlobset G patterns).map some

def RustCapabilityFilter.new (allow deny : Option (List String)) :
    Except String (RustCapabilityFilter σ) :=
  let allowPatterns := allow.getD []
  let denyPatterns := deny.getD []
  let active := allowPatterns ≠ [] ∨ denyPatterns ≠ []
  (patternSet G allowPatterns).bind fun allowSet ↦
    (patternSet G denyPatterns).map fun denySet ↦ ⟨allowSet, denySet, active⟩

def RustCapabilityFilter.isAllowed (f : RustCapabilityFilter σ) (name : String) : Bool :=
  if !f.active then true
  else if f.denySet.any (G.isMatch · name) then false
  else
    match f.allowSet with
    | some allow => G.isMatch allow name
    | none => true

/-- `build_filter`, with the extension. -/
def buildFilterRust (allow deny : Option (List String)) :
    Except String (RustCapabilityFilter σ) :=
  RustCapabilityFilter.new G (some (allow.getD [])) (some (deny.getD []))

/-- `build_filter`, without the extension. -/
def buildFilterPython (allow deny : Option (List String)) : Except String CapabilityFilter :=
  .ok ⟨allow.getD [], deny.getD []⟩

/-- One filter can take the place of the other. -/
def Swappable (allow deny : Option (List String)) : Prop :=
  match buildFilterRust G allow deny, buildFilterPython allow deny with
  | .ok f, .ok g => ∀ name, f.isAllowed G name = g.isAllowed name
  | .error _, .error _ => True
  | _, _ => False

/-! ## When they agree -/

variable {G}

/-- Sets that match what the lists match make a filter that does what the lists do. -/
theorem isAllowed_eq {f : RustCapabilityFilter σ} {g : CapabilityFilter} {name : String}
    (hactive : f.active = decide (g.allow ≠ [] ∨ g.deny ≠ []))
    (hnone : f.allowSet = none ↔ g.allow = [])
    (hallow : f.allowSet.any (G.isMatch · name) = g.allow.any (fnmatch name))
    (hdeny : f.denySet.any (G.isMatch · name) = g.deny.any (fnmatch name)) :
    f.isAllowed G name = g.isAllowed name := by
  rw [RustCapabilityFilter.isAllowed, CapabilityFilter.isAllowed, hactive, hdeny]
  by_cases hdenied : g.deny.any (fnmatch name) = true
  · have hne : g.deny ≠ [] := by
      intro hnil
      rw [hnil] at hdenied
      exact Bool.false_ne_true hdenied
    simp [hdenied, hne]
  · rw [Bool.not_eq_true] at hdenied
    rcases hset : f.allowSet with _ | set
    · have hnil := hnone.mp hset
      simp [hdenied, hnil]
    · have hne : g.allow ≠ [] := by
        intro hnil
        exact absurd (hset.symm.trans (hnone.mpr hnil)) (Option.some_ne_none set)
      rw [hset, Option.any_some] at hallow
      simp [hdenied, hne, hallow]

variable (hG : Documented G)

include hG

theorem exists_new {p : String} (h : Plain p) :
    ∃ g, G.new p = .ok g ∧ ∀ name, G.matcher g name = fnmatch name p := by
  rcases h with rfl | ⟨ts, hts, hp⟩
  · obtain ⟨g, hnew, hmatch⟩ := hG.everything
    refine ⟨g, hnew, fun name ↦ ?_⟩
    rw [hmatch]
    exact (matchTokens_star_star name.toList).symm
  · obtain ⟨g, hnew, hmatch⟩ := hG.plain ts hts
    rw [← hp, String.ofList_toList] at hnew
    refine ⟨g, hnew, fun name ↦ ?_⟩
    rw [hmatch, fnmatch, tokens_of_renderAll hts.raw hp]

theorem exists_newGlobs {patterns : List String} (h : ∀ p ∈ patterns, Plain p) :
    ∃ gs, newGlobs G patterns = .ok gs ∧
      ∀ name, gs.any (fun g ↦ G.matcher g name) = patterns.any (fnmatch name) := by
  induction patterns with
  | nil => exact ⟨[], rfl, fun _ ↦ rfl⟩
  | cons p ps ih =>
    rw [List.forall_mem_cons] at h
    obtain ⟨g, hnew, hmatch⟩ := exists_new hG h.1
    obtain ⟨gs, hgs, hany⟩ := ih h.2
    refine ⟨g :: gs, ?_, fun name ↦ ?_⟩
    · rw [newGlobs, hnew, hgs]
      rfl
    · rw [List.any_cons, List.any_cons, hmatch, hany]

theorem exists_patternSet {patterns : List String} (h : ∀ p ∈ patterns, Plain p) :
    ∃ set, patternSet G patterns = .ok set ∧ (set = none ↔ patterns = []) ∧
      ∀ name, set.any (G.isMatch · name) = patterns.any (fnmatch name) := by
  by_cases hnil : patterns = []
  · refine ⟨none, if_pos hnil, iff_of_true rfl hnil, fun name ↦ ?_⟩
    rw [hnil]
    rfl
  · obtain ⟨gs, hgs, hany⟩ := exists_newGlobs hG h
    obtain ⟨set, hset, hmatch⟩ := hG.build gs
    refine ⟨some set, ?_, iff_of_false (Option.some_ne_none set) hnil, fun name ↦ ?_⟩
    · rw [patternSet, if_neg hnil, buildGlobset, hgs, Except.bind, hset]
      rfl
    · rw [Option.any_some, hmatch, hany]

theorem newGlobs_of_refused {patterns : List String} (h : ∃ p ∈ patterns, Refused p.toList) :
    ∃ e, newGlobs G patterns = .error e := by
  obtain ⟨p, hp, hrefused⟩ := h
  obtain ⟨e, hnew⟩ := hG.refused _ hrefused
  rw [String.ofList_toList] at hnew
  induction patterns with
  | nil => exact absurd hp List.not_mem_nil
  | cons q ps ih =>
    rw [newGlobs]
    rcases hq : G.new q with e' | g
    · exact ⟨_, rfl⟩
    · have hne : p ≠ q := by
        rintro rfl
        exact absurd (hnew.symm.trans hq) (by simp)
      obtain ⟨e', hps⟩ := ih (List.mem_of_ne_of_mem hne hp)
      rw [hps]
      exact ⟨e', rfl⟩

theorem patternSet_of_refused {patterns : List String} (h : ∃ p ∈ patterns, Refused p.toList) :
    ∃ e, patternSet G patterns = .error e := by
  obtain ⟨e, hgs⟩ := newGlobs_of_refused hG h
  have hne : patterns ≠ [] := by
    rintro rfl
    obtain ⟨p, hp, -⟩ := h
    exact List.not_mem_nil hp
  rw [patternSet, if_neg hne, buildGlobset, hgs]
  exact ⟨e, rfl⟩

theorem swappable_of_plain {allow deny : Option (List String)}
    (h : ∀ p ∈ allow.getD [] ++ deny.getD [], Plain p) : Swappable G allow deny := by
  rw [List.forall_mem_append] at h
  obtain ⟨allowSet, hallow, hallowNone, hallowAny⟩ := exists_patternSet hG h.1
  obtain ⟨denySet, hdeny, -, hdenyAny⟩ := exists_patternSet hG h.2
  have hrust : buildFilterRust G allow deny =
      .ok ⟨allowSet, denySet, allow.getD [] ≠ [] ∨ deny.getD [] ≠ []⟩ := by
    rw [buildFilterRust, RustCapabilityFilter.new, Option.getD_some, Option.getD_some, hallow,
      hdeny]
    rfl
  rw [Swappable, hrust]
  exact fun name ↦ isAllowed_eq rfl hallowNone (hallowAny name) (hdenyAny name)

theorem not_swappable_of_refused {allow deny : Option (List String)}
    (h : ∃ p ∈ allow.getD [] ++ deny.getD [], Refused p.toList) : ¬ Swappable G allow deny := by
  obtain ⟨p, hp, hrefused⟩ := h
  have hrust : ∃ e, buildFilterRust G allow deny = .error e := by
    rw [buildFilterRust, RustCapabilityFilter.new, Option.getD_some, Option.getD_some]
    rcases hallow : patternSet G (allow.getD []) with e | allowSet
    · exact ⟨e, rfl⟩
    · rcases List.mem_append.mp hp with hp | hp
      · obtain ⟨e, he⟩ := patternSet_of_refused hG ⟨p, hp, hrefused⟩
        exact absurd (hallow.symm.trans he) (by simp)
      · obtain ⟨e, he⟩ := patternSet_of_refused hG ⟨p, hp, hrefused⟩
        rw [he]
        exact ⟨e, rfl⟩
  obtain ⟨e, hrust⟩ := hrust
  rw [Swappable, hrust]
  exact id

/-- The shortest name that is hidden with the extension is not hidden without it. -/
theorem not_swappable_of_reread {p : String} {raw : List Token} (hp : p.toList = renderAll raw)
    {readings : List (List Token)} (h : Reread raw readings) {name : String}
    (hname : readings.any (matchTokens · name.toList) = true) :
    ¬ Swappable G none (some [p]) := by
  obtain ⟨g, hnew, hmatch⟩ := hG.reread raw readings h
  obtain ⟨set, hset, hany⟩ := hG.build [g]
  obtain ⟨r, hr, hname⟩ := List.any_eq_true.mp hname
  obtain ⟨short, hshort, hlen⟩ := exists_length_eq_size hname
  rw [← hp, String.ofList_toList] at hnew
  have hrust : buildFilterRust G none (some [p]) = .ok ⟨none, some set, true⟩ := by
    have hglobs : newGlobs G [p] = .ok [g] := by
      rw [newGlobs, hnew]
      rfl
    have hdeny : patternSet G [p] = .ok (some set) := by
      rw [patternSet, if_neg (List.cons_ne_nil p []), buildGlobset, hglobs, Except.bind, hset]
      rfl
    rw [buildFilterRust, RustCapabilityFilter.new, Option.getD_some, Option.getD_some,
      Option.getD_some, hdeny]
    rfl
  intro hswap
  rw [Swappable, hrust] at hswap
  have hsame := hswap (.ofList short)
  have hhidden : G.isMatch set (.ofList short) = true := by
    rw [hany, List.any_cons, List.any_nil, Bool.or_false, hmatch, String.toList_ofList]
    exact List.any_eq_true.mpr ⟨r, hr, hshort⟩
  have hshown : fnmatch (.ofList short) p = false := by
    rw [fnmatch, tokens_of_renderAll h.raw hp, String.toList_ofList, ← Bool.not_eq_true]
    intro hmatch
    have hle := size_le_of_matchTokens hmatch
    have hlt := h.size_lt hr
    omega
  have hrefuses :
      RustCapabilityFilter.isAllowed G ⟨none, some set, true⟩ (.ofList short) = false := by
    rw [RustCapabilityFilter.isAllowed]
    simp [hhidden]
  have hallows : CapabilityFilter.isAllowed ⟨[], [p]⟩ (.ofList short) = true := by
    rw [CapabilityFilter.isAllowed]
    simp [hshown]
  exact absurd (hrefuses.symm.trans (hsame.trans hallows)) Bool.false_ne_true

/-- Patterns that both dialects read in the same way make filters that give the same answers. With
one that `globset` refuses there is a filter in Python only, and with one that it reads otherwise
there is a name that only one of the filters hides, if there is a name for it at all. -/
theorem swappable :
    (∀ allow deny, (∀ p ∈ allow.getD [] ++ deny.getD [], Plain p) → Swappable G allow deny) ∧
    (∀ allow deny, (∃ p ∈ allow.getD [] ++ deny.getD [], Refused p.toList) →
      ¬ Swappable G allow deny) ∧
    ∀ (p : String) (raw : List Token) (readings : List (List Token)), p.toList = renderAll raw →
      Reread raw readings → (∃ name : String, readings.any (matchTokens · name.toList) = true) →
        ¬ Swappable G none (some [p]) := by
  refine ⟨?_, ?_, ?_⟩
  · exact fun allow deny h ↦ swappable_of_plain hG h
  · exact fun allow deny h ↦ not_swappable_of_refused hG h
  · rintro p raw readings hp h ⟨name, hname⟩
    exact not_swappable_of_reread hG hp h hname

end Filters

/-! ## An engine -/

/-- What is behind an opening brace, with what is before it. -/
def readBraces (ts rest : List Token) : Option (List (List Token)) :=
  match rest.span isText with
  | (body, .lit '}' :: us) => some ((body.splitOn (.lit ',')).map fun a ↦ ts ++ a ++ us)
  | _ => none

/-- How an engine reads tokens that knows a backslash, and one pair of braces. -/
def readAs (raw : List Token) : Option (List (List Token)) :=
  match raw.span isText with
  | (ts, []) => some [ts]
  | (ts, .lit '\\' :: .anyChar :: us) => some [ts ++ .lit '?' :: us]
  | (ts, .lit '\\' :: .lit c :: us) => some [ts ++ .lit c :: us]
  | (ts, .lit '{' :: rest) => readBraces ts rest
  | _ => none

/-- The tokens of a pattern, if it is one that the engine takes. -/
def accepted (p : String) : Option (List (List Token)) :=
  let raw := tokens p.length p.toList
  if renderAll raw = p.toList ∧ ∀ t ∈ raw, isAscending t = true then readAs raw else none

def plainEngine : Globset (List (List Token)) (List (List (List Token))) where
  new p := (accepted p).elim (.error "error parsing glob") .ok
  matcher readings name := readings.any (matchTokens · name.toList)
  build gs := .ok gs
  isMatch set name := set.any fun readings ↦ readings.any (matchTokens · name.toList)

theorem accepted_of_renderAll {p : String} {raw : List Token} (hp : p.toList = renderAll raw)
    (hraw : ∀ t ∈ raw, isRaw t = true) (hascending : ∀ t ∈ raw, isAscending t = true) :
    accepted p = readAs raw := by
  rw [accepted, tokens_of_renderAll hraw hp]
  exact if_pos ⟨hp.symm, hascending⟩

theorem readAs_of_text {ts : List Token} (h : ∀ t ∈ ts, isText t = true) :
    readAs ts = some [ts] := by
  have hspan : ts.span isText = (ts, []) := by
    rw [List.span_eq_takeWhile_dropWhile, List.takeWhile_eq_self_iff.mpr h,
      List.dropWhile_eq_nil_iff.mpr h]
  rw [readAs, hspan]

theorem readAs_reread {raw : List Token} {readings : List (List Token)}
    (h : Reread raw readings) : readAs raw = some readings := by
  rcases h with ⟨hts, hus, hc⟩ | ⟨hts, hus, hne, halts⟩
  · rename_i ts us c
    rw [readAs, span_append_cons hts.text rfl, single]
    by_cases hq : c = '?'
    · rw [if_pos hq, hq]
      rfl
    · rw [if_neg hq]
      rfl
  · rename_i ts us alts
    have hbody : ∀ t ∈ [Token.lit ','].intercalate alts, isText t = true :=
      fun t ht ↦ (of_mem_alternates (fun a ha ↦ (halts a ha).1) ht).1
    have hsplit : ([Token.lit ','].intercalate alts).splitOn (.lit ',') = alts :=
      List.splitOn_intercalate _ (fun a ha ↦ (halts a ha).2.2) hne
    have hbraces : readBraces ts ([.lit ','].intercalate alts ++ .lit '}' :: us) =
        some (alts.map fun a ↦ ts ++ a ++ us) := by
      rw [readBraces, span_append_cons hbody rfl]
      exact congrArg (fun parts ↦ some (parts.map fun a ↦ ts ++ a ++ us)) hsplit
    rw [readAs, span_append_cons hts.text rfl]
    exact hbraces

theorem accepted_eq_none {ts : List Token} (hts : WellFormed ts) {p : String} {s : List Char}
    (hp : p.toList = renderAll ts ++ s) (hs : s ≠ [])
    (h : ∀ k, renderAll (tokens (k + 1) s) = s →
      (∀ t ∈ tokens (k + 1) s, isAscending t = true) → readAs (ts ++ tokens (k + 1) s) = none) :
    accepted p = none := by
  have hlen := length_le_length_renderAll ts
  have hpos := List.length_pos_iff.mpr hs
  have hlength : p.length = (renderAll ts).length + s.length := by
    rw [← String.length_toList, hp, List.length_append]
  obtain ⟨k, hk⟩ : ∃ k, p.length = k + 1 + ts.length := ⟨p.length - ts.length - 1, by omega⟩
  rw [accepted, hk, hp, tokens_renderAll_append hts.raw]
  refine ite_eq_right_iff.mpr ?_
  rintro ⟨hback, hascending⟩
  rw [renderAll, List.flatMap_append] at hback
  rw [List.forall_mem_append] at hascending
  exact h k (List.append_cancel_left hback) hascending.2

theorem accepted_of_refused {p : String} (h : Refused p.toList) : accepted p = none := by
  generalize hp : p.toList = s at h
  rcases h with ⟨hts, hrest⟩ | ⟨hts, hclass, ⟨r, hr, hlt⟩, rest⟩ | ⟨hts, rest⟩ | ⟨hts, hrest⟩ | hts
  · rename_i ts rest
    refine accepted_eq_none hts hp (List.cons_ne_nil _ _) fun k hback _ ↦ ?_
    rcases hsplit : Fnmatch.seqSplit rest with _ | ⟨negated, body, after⟩
    · rw [tokens, hsplit, readAs, span_append_cons hts.text rfl]
      rfl
    · refine absurd ?_ hrest
      rw [tokens, hsplit, renderAll, List.flatMap_cons] at hback
      rw [← (List.cons.inj hback).2]
      refine List.mem_append_left _ (List.mem_append_right _ ?_)
      exact List.mem_singleton_self _
  · rename_i ts negated ranges
    have hone : renderClass negated ranges = renderAll [.seq negated ranges] :=
      (List.append_nil _).symm
    have hraw : ∀ t ∈ [Token.seq negated ranges], isRaw t = true :=
      List.forall_mem_singleton.mpr hclass
    refine accepted_eq_none hts hp ?_ fun k _ hascending ↦ ?_
    · exact List.append_ne_nil_of_left_ne_nil (List.cons_ne_nil _ _) _
    · have hread := tokens_renderAll_append hraw k rest
      rw [← hone, List.length_singleton] at hread
      rw [hread] at hascending
      have hle := List.all_eq_true.mp (hascending _ List.mem_cons_self) r hr
      exact absurd hlt (Char.not_lt.mpr (of_decide_eq_true hle))
  · refine accepted_eq_none hts hp (List.cons_ne_nil _ _) fun k _ _ ↦ ?_
    have hread : tokens (k + 1) ('}' :: rest) = .lit '}' :: tokens k rest := rfl
    rw [hread, readAs, span_append_cons hts.text rfl]
    rfl
  · rename_i ts rest
    refine accepted_eq_none hts hp (List.cons_ne_nil _ _) fun k hback _ ↦ ?_
    have hread : tokens (k + 1) ('{' :: rest) = .lit '{' :: tokens k rest := rfl
    rw [hread] at hback ⊢
    rw [readAs, span_append_cons hts.text rfl]
    change readBraces ts (tokens k rest) = none
    rw [readBraces]
    split
    · rename_i body us hspan
      refine absurd ?_ hrest
      rw [List.span_eq_takeWhile_dropWhile] at hspan
      have hbrace : Token.lit '}' ∈ tokens k rest := by
        rw [← List.takeWhile_append_dropWhile (p := isText) (l := tokens k rest),
          (Prod.mk.inj hspan).2]
        exact List.mem_append_right _ List.mem_cons_self
      rw [← (List.cons.inj hback).2]
      exact List.mem_flatMap.mpr ⟨_, hbrace, List.mem_singleton_self _⟩
    · rfl
  · refine accepted_eq_none hts hp (List.cons_ne_nil _ _) fun k _ _ ↦ ?_
    have hread : tokens (k + 1) ['\\'] = [.lit '\\'] := by
      rcases k with _ | k
      · rfl
      · rfl
    rw [hread, readAs, span_append_cons hts.text rfl]
    rfl

theorem new_of_accepted {p : String} {readings : List (List Token)}
    (h : accepted p = some readings) : plainEngine.new p = .ok readings :=
  by simp [plainEngine, h]

theorem documented_plainEngine : Documented plainEngine where
  plain ts hts := by
    have hread := accepted_of_renderAll String.toList_ofList hts.raw hts.ascending
    rw [readAs_of_text hts.text] at hread
    exact ⟨[ts], new_of_accepted hread, fun name ↦ Bool.or_false _⟩
  everything := by
    refine ⟨[[.star, .star]], new_of_accepted (by decide), fun name ↦ ?_⟩
    exact (Bool.or_false _).trans (matchTokens_star_star _)
  refused s hs := by
    rw [← String.toList_ofList (l := s)] at hs
    have hnone := accepted_of_refused hs
    exact ⟨"error parsing glob", by simp [plainEngine, hnone]⟩
  reread raw readings h := by
    have hread := accepted_of_renderAll String.toList_ofList h.raw h.ascending
    rw [readAs_reread h] at hread
    exact ⟨readings, new_of_accepted hread, fun _ ↦ rfl⟩
  build gs := ⟨gs, rfl, fun _ ↦ rfl⟩

theorem plain_of_tokens {p : String} (h : WellFormed (tokens p.length p.toList))
    (hback : renderAll (tokens p.length p.toList) = p.toList) : Plain p :=
  Or.inr ⟨_, h, hback.symm⟩

theorem swappable_plainEngine :
    Swappable plainEngine (some ["tool_*", "**"]) (some ["tool_[a-c]?"]) ∧
    ¬ Swappable plainEngine (some ["tool_*"]) (some ["[ab"]) ∧
    ¬ Swappable plainEngine none (some ["{a,b}"]) := by
  have hnil : WellFormed [] := ⟨by decide, by decide, .nil⟩
  have hletter : ∀ c, plainChar c = true → ',' ≠ c →
      WellFormed [.lit c] ∧ [Token.lit c] ≠ [] ∧ .lit ',' ∉ [Token.lit c] := by
    intro c hplain hne
    refine ⟨⟨?_, ?_, .singleton _⟩, List.cons_ne_nil _ _, ?_⟩
    · exact List.forall_mem_singleton.mpr hplain
    · exact List.forall_mem_singleton.mpr rfl
    · rw [List.mem_singleton]
      exact fun heq ↦ hne (Token.lit.inj heq)
  have halts : ∀ a ∈ [[Token.lit 'a'], [Token.lit 'b']],
      WellFormed a ∧ a ≠ [] ∧ .lit ',' ∉ a := by
    rw [List.forall_mem_cons, List.forall_mem_singleton]
    exact ⟨hletter 'a' (by decide) (by decide), hletter 'b' (by decide) (by decide)⟩
  obtain ⟨hplain, hrefused, hreread⟩ := swappable documented_plainEngine
  refine ⟨?_, ?_, ?_⟩
  · refine hplain _ _ (List.forall_mem_cons.mpr ⟨?_, List.forall_mem_cons.mpr ⟨Or.inl rfl,
      List.forall_mem_singleton.mpr ?_⟩⟩)
    · exact plain_of_tokens ⟨by decide, by decide, by decide⟩ (by decide)
    · exact plain_of_tokens ⟨by decide, by decide, by decide⟩ (by decide)
  · exact hrefused _ _ ⟨"[ab", by decide, .unclosedClass hnil (by decide)⟩
  · have hread := Reread.alternates hnil hnil (by decide) halts
    exact hreread "{a,b}" _ _ (by decide) hread ⟨"a", by decide⟩

theorem not_forall_swappable : ¬ ∀ allow deny, Swappable plainEngine allow deny := by
  intro h
  have hswap := h none (some ["{read,write}_*"])
  have hrust : (buildFilterRust plainEngine none (some ["{read,write}_*"])).map
      (RustCapabilityFilter.isAllowed plainEngine · "read_file") = .ok false := by decide
  have hpython : CapabilityFilter.isAllowed ⟨[], ["{read,write}_*"]⟩ "read_file" = true := by
    decide
  obtain ⟨f, hf, hhidden⟩ := map_eq_ok_iff.mp hrust
  rw [Swappable, hf] at hswap
  exact absurd (hhidden.symm.trans ((hswap "read_file").trans hpython)) Bool.false_ne_true

end FilterSwap

end ArgusMcp
