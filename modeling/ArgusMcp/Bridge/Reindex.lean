import ArgusMcp.Bridge.Optimizer

/-!
# Searching while tools are indexed

`ToolIndex.store` takes the new tools at once, and then builds the matrix for them in another
thread. While it does, the index can be searched. The tools, the names of the rows of the matrix,
the vectorizer and the matrix are replaced one after another, so that a search may find names that
are of one list of tools, rows that are of another, and tools that are of a third one.

A step of a build is one that the thread makes between two attributes that it sets. Storing tools
and searching are single steps; what happens in the thread happens between them. Of scikit-learn
there is whether texts have a token at all, and the scores; a query that is compared with a matrix
of another shape is a `ValueError`.

## What a search should see

A list of tools, the matrix that was made from it, and nothing else (`Coherent`). This is so when
no build is under way, if builds do not overlap and none fails (`inv_step`). It is not while a build
is under way, unless the matrix is not used.
-/

namespace ArgusMcp

namespace Reindex

/-- scikit-learn. -/
structure Sklearn where
  /-- There is a token in one of the texts. -/
  fits : List String → Bool
  /-- The scores of the rows of a matrix for a query, by a vectorizer that was fitted to the first
  texts, where the matrix is that of the second ones. -/
  scores : List String → List String → String → Option (List ℚ)
  scores_self : ∀ texts query, fits texts = true →
    ∃ l, scores texts texts query = some l ∧ l.length = texts.length

/-- What a search rests on besides the index. -/
structure SearchEngine where
  lower : String → String
  sklearn : Option Sklearn

/-- The attributes of a `ToolIndex`. A vectorizer has been fitted to texts, or has not; a matrix was
made from entries. -/
structure Index where
  current : ToolIndex
  orderedNames : List String
  vectorizer : Option (Option (List String))
  matrix : Option (List ToolEntry)

def texts (entries : List ToolEntry) : List String := entries.map ToolEntry.searchText

/-! ## Building -/

/-- How far `_build_tfidf` has come. -/
inductive Build where
  | begun
  /-- There is nothing to build: first the matrix is removed, then the vectorizer. -/
  | withoutMatrix
  | withoutVectorizer
  | named
  /-- The corpus has been put together from these entries, then a vectorizer is made, and fitted. -/
  | read (corpus : List ToolEntry)
  | made (corpus : List ToolEntry)
  | fitted (corpus : List ToolEntry)

/-- The next step of a build, and how far it has come then. There is nothing left of it when it is
at its end, or has raised an exception. -/
def advance (sklearn : Option Sklearn) (index : Index) : Build → Index × Option Build
  | .begun =>
    if sklearn.isNone ∨ index.current.tools.items = [] then
      ({ index with matrix := none }, some .withoutMatrix)
    else ({ index with orderedNames := index.current.tools.keys }, some .named)
  | .withoutMatrix => ({ index with vectorizer := none }, some .withoutVectorizer)
  | .withoutVectorizer => ({ index with orderedNames := index.current.tools.keys }, none)
  | .named =>
    match index.orderedNames.mapM index.current.tools.get? with
    | some corpus => (index, some (.read corpus))
    | none => (index, none)
  | .read corpus => ({ index with vectorizer := some none }, some (.made corpus))
  | .made corpus =>
    match sklearn, index.vectorizer with
    | some sk, some _ =>
      if sk.fits (texts corpus) then
        ({ index with vectorizer := some (some (texts corpus)) }, some (.fitted corpus))
      else (index, none)
    | _, _ => (index, none)
  | .fitted corpus => ({ index with matrix := some corpus }, none)

/-! ## Searching -/

inductive SearchError where
  | notFittedError
  | valueError
  | indexError
  | keyError

/-- The entries of the rows with a positive score. -/
def collect (tools : Dict String ToolEntry) : List ℚ → List String →
    Except SearchError (List (ℚ × ToolEntry))
  | [], _ => .ok []
  | score :: scores, names =>
    if 0 < score then
      match names with
      | [] => .error .indexError
      | name :: names =>
        match tools.get? name with
        | none => .error .keyError
        | some entry => (collect tools scores names).map ((score, entry) :: ·)
    else collect tools scores names.tail

/-- `_search_tfidf`, with a vectorizer and a matrix. -/
def searchTfidf (sk : Sklearn) (index : Index) (vectorizer : Option (List String))
    (matrix : List ToolEntry) (query : String) (limit : ℤ) :
    Except SearchError (List (ℚ × ToolEntry)) :=
  match vectorizer with
  | none => .error .notFittedError
  | some fitted =>
    match sk.scores fitted (texts matrix) query with
    | none => .error .valueError
    | some scores => (collect index.current.tools scores index.orderedNames).map fun results ↦
        ToolIndex.upTo limit (ToolIndex.ranked results)

def search (engine : SearchEngine) (index : Index) (query : String) (limit : ℤ) :
    Except SearchError (List (ℚ × ToolEntry)) :=
  if index.current.tools.items = [] then .ok []
  else
    match engine.sklearn, index.matrix, index.vectorizer with
    | some sk, some matrix, some vectorizer => searchTfidf sk index vectorizer matrix query limit
    | _, _, _ => .ok (index.current.searchSimple engine.lower query limit)

/-! ## Runs -/

structure State where
  index : Index
  builds : List Build

inductive Action where
  | store (tools : List Entry) (routeMap : Dict String Route)
  /-- The thread of one of the builds makes its next step. -/
  | advance (i : ℕ)
  | search (query : String) (limit : ℤ)

def initial : State := ⟨⟨ToolIndex.populate [] Dict.empty, [], none, none⟩, []⟩

def step (engine : SearchEngine) (s : State) : Action → Option State
  | .store tools routeMap =>
    some ⟨{ s.index with current := ToolIndex.populate tools routeMap }, s.builds ++ [.begun]⟩
  | .advance i => (s.builds[i]?).map fun build ↦
    let next := advance engine.sklearn s.index build
    match next.2 with
    | some build => ⟨next.1, s.builds.set i build⟩
    | none => ⟨next.1, s.builds.eraseIdx i⟩
  | .search _ _ => some s

/-! ## What should be -/

def UsesMatrix (engine : SearchEngine) (index : Index) : Prop :=
  index.current.tools.items ≠ [] ∧ engine.sklearn.isSome ∧ index.matrix.isSome ∧
    index.vectorizer.isSome

/-- The results are entries of a matrix with their own scores. -/
def OfMatrix (engine : SearchEngine) (index : Index) (query : String)
    (results : List (ℚ × ToolEntry)) : Prop :=
  ∃ sk generation scores, engine.sklearn = some sk ∧ index.matrix = some generation ∧
    sk.scores (texts generation) (texts generation) query = some scores ∧
    ∀ r ∈ results, r ∈ scores.zip generation

/-- The results are entries of the index with the scores of their words. -/
def OfWords (engine : SearchEngine) (index : Index) (query : String)
    (results : List (ℚ × ToolEntry)) : Prop :=
  ∀ r ∈ results, r ∈ index.current.scored engine.lower (Optimizer.tokenize engine.lower query)

/-- A search does not raise, and what it finds is of one list of tools. -/
def Good (engine : SearchEngine) (index : Index) (query : String) (limit : ℤ) : Prop :=
  ∃ results, search engine index query limit = .ok results ∧
    (UsesMatrix engine index → OfMatrix engine index query results) ∧
    (¬ UsesMatrix engine index → OfWords engine index query results)

/-- Every search of a run is as it should be. -/
def SearchesGood (engine : SearchEngine) (acts : List Action) : Prop :=
  ∀ m query limit post, Run.Visits (step engine) initial acts m (.search query limit) post →
    Good engine m.index query limit

/-- Tools are stored when no build is under way, and there is something in them to be found; and it
is searched when none is, or without the matrix. -/
def Calm (engine : SearchEngine) (s : State) : Action → Prop
  | .store tools routeMap => s.builds = [] ∧ ∀ sk, engine.sklearn = some sk →
      (ToolIndex.populate tools routeMap).tools.items ≠ [] →
        sk.fits (texts (ToolIndex.populate tools routeMap).entries) = true
  | .advance _ => True
  | .search _ _ => s.builds = [] ∨ ¬ UsesMatrix engine s.index

/-! ## A search -/

section Search

variable {engine : SearchEngine} {index : Index} {query : String} {limit : ℤ}

/-- What is found in a matrix that was made from the tools that are there. -/
structure Coherent (sk : Sklearn) (index : Index) (generation : List ToolEntry) : Prop where
  matrix : index.matrix = some generation
  vectorizer : index.vectorizer = some (some (texts generation))
  names : index.orderedNames = generation.map ToolEntry.name
  tools : ∀ entry ∈ generation, index.current.tools.get? entry.name = some entry
  fits : sk.fits (texts generation) = true

theorem exists_collect_eq {tools : Dict String ToolEntry} {entries : List ToolEntry}
    (h : ∀ entry ∈ entries, tools.get? entry.name = some entry) {scores : List ℚ}
    (hlength : scores.length = entries.length) :
    ∃ results, collect tools scores (entries.map ToolEntry.name) = .ok results ∧
      ∀ r ∈ results, r ∈ scores.zip entries := by
  induction scores generalizing entries with
  | nil => exact ⟨[], rfl, by simp⟩
  | cons score scores ih =>
    rcases entries with _ | ⟨entry, entries⟩
    · exact absurd hlength (by simp)
    · rw [List.forall_mem_cons] at h
      obtain ⟨results, hcollect, hmem⟩ := ih h.2 (Nat.succ.inj hlength)
      have hmore : ∀ r ∈ results, r ∈ (score :: scores).zip (entry :: entries) :=
        fun r hr ↦ List.mem_cons_of_mem _ (hmem r hr)
      rw [List.map_cons, collect]
      by_cases hpos : 0 < score
      · refine ⟨(score, entry) :: results, ?_, ?_⟩
        · rw [if_pos hpos, h.1, hcollect]
          rfl
        · exact List.forall_mem_cons.mpr ⟨List.mem_cons_self, hmore⟩
      · refine ⟨results, ?_, hmore⟩
        rw [if_neg hpos]
        exact hcollect

theorem search_of_usesMatrix (h : UsesMatrix engine index) (query : String) (limit : ℤ) :
    ∃ sk matrix vectorizer,
    engine.sklearn = some sk ∧ index.matrix = some matrix ∧ index.vectorizer = some vectorizer ∧
      search engine index query limit = searchTfidf sk index vectorizer matrix query limit := by
  obtain ⟨hne, hsk, hmatrix, hvectorizer⟩ := h
  obtain ⟨sk, hsk⟩ := Option.isSome_iff_exists.mp hsk
  obtain ⟨matrix, hmatrix⟩ := Option.isSome_iff_exists.mp hmatrix
  obtain ⟨vectorizer, hvectorizer⟩ := Option.isSome_iff_exists.mp hvectorizer
  refine ⟨sk, matrix, vectorizer, hsk, hmatrix, hvectorizer, ?_⟩
  rw [search, if_neg hne, hsk, hmatrix, hvectorizer]

theorem search_of_not_usesMatrix (h : ¬ UsesMatrix engine index) :
    search engine index query limit =
      .ok (if index.current.tools.items = [] then []
        else index.current.searchSimple engine.lower query limit) := by
  rw [search]
  by_cases hempty : index.current.tools.items = []
  · rw [if_pos hempty, if_pos hempty]
  · rw [if_neg hempty, if_neg hempty]
    split
    · rename_i sk matrix vectorizer hsk hmatrix hvectorizer
      exact absurd ⟨hempty, by simp [hsk], by simp [hmatrix], by simp [hvectorizer]⟩ h
    · rfl

/-- **Without the matrix** the entries are those of the index. -/
theorem good_of_not_usesMatrix (h : ¬ UsesMatrix engine index) : Good engine index query limit := by
  refine ⟨_, search_of_not_usesMatrix h, fun huses ↦ absurd huses h, fun _ r hr ↦ ?_⟩
  split at hr
  · exact absurd hr List.not_mem_nil
  · rw [ToolIndex.searchSimple] at hr
    split at hr
    · exact absurd hr List.not_mem_nil
    · exact (ToolIndex.mem_ranked.mp (ToolIndex.mem_of_mem_upTo hr)).1

/-- **With a matrix of the tools** that are there the entries are those of the matrix. -/
theorem good_of_coherent {sk : Sklearn} {generation : List ToolEntry} (hsk : engine.sklearn = some sk)
    (h : Coherent sk index generation) : Good engine index query limit := by
  by_cases huses : UsesMatrix engine index
  · obtain ⟨sk', matrix, vectorizer, hsk', hmatrix, hvectorizer, hsearch⟩ :=
      search_of_usesMatrix huses query limit
    obtain rfl := Option.some.inj (hsk.symm.trans hsk')
    obtain rfl := Option.some.inj (h.matrix.symm.trans hmatrix)
    obtain rfl := Option.some.inj (h.vectorizer.symm.trans hvectorizer)
    obtain ⟨scores, hscores, hlength⟩ := sk.scores_self (texts generation) query h.fits
    rw [texts, List.length_map] at hlength
    obtain ⟨results, hcollect, hmem⟩ := exists_collect_eq h.tools hlength
    refine ⟨ToolIndex.upTo limit (ToolIndex.ranked results), ?_, fun _ ↦ ?_,
      fun hnot ↦ absurd huses hnot⟩
    · rw [hsearch, searchTfidf, hscores]
      dsimp only
      rw [h.names, hcollect]
      rfl
    · refine ⟨sk, generation, scores, hsk, hmatrix, hscores, fun r hr ↦ hmem r ?_⟩
      exact (ToolIndex.mem_ranked.mp (ToolIndex.mem_of_mem_upTo hr)).1
  · exact good_of_not_usesMatrix huses

end Search

/-! ## What a build does -/

theorem keys_eq_map_name (index : ToolIndex) :
    index.tools.keys = index.entries.map ToolEntry.name := by
  rw [Dict.keys, ToolIndex.entries, List.map_map]
  refine List.map_congr_left fun item hitem ↦ ?_
  exact (index.named item.1 item.2 (Dict.get?_eq_some_of_mem hitem)).symm

theorem get?_of_mem_entries {index : ToolIndex} {entry : ToolEntry} (h : entry ∈ index.entries) :
    index.tools.get? entry.name = some entry :=
  ToolIndex.mem_entries_iff.mp h

theorem mapM_get?_eq {tools : Dict String ToolEntry} {entries : List ToolEntry}
    (h : ∀ entry ∈ entries, tools.get? entry.name = some entry) :
    (entries.map ToolEntry.name).mapM tools.get? = some entries := by
  induction entries with
  | nil => rfl
  | cons entry entries ih =>
    rw [List.forall_mem_cons] at h
    rw [List.map_cons, List.mapM_cons, h.1, ih h.2]
    rfl

/-- The corpus is that of the tools that are there, and can be fitted. -/
structure Ready (engine : SearchEngine) (index : Index) (corpus : List ToolEntry) : Prop where
  isCurrent : corpus = index.current.entries
  names : index.orderedNames = corpus.map ToolEntry.name
  fits : ∀ sk, engine.sklearn = some sk → sk.fits (texts corpus) = true

/-- What is true where a build has come to a point. -/
def Progress (engine : SearchEngine) (index : Index) : Build → Prop
  | .begun => index.current.tools.items ≠ [] → ∀ sk, engine.sklearn = some sk →
      sk.fits (texts index.current.entries) = true
  | .withoutMatrix | .withoutVectorizer => index.matrix = none
  | .named => Ready engine index index.current.entries
  | .read corpus => Ready engine index corpus
  | .made corpus => Ready engine index corpus ∧ index.vectorizer = some none
  | .fitted corpus => Ready engine index corpus ∧ index.vectorizer = some (some (texts corpus))

/-- There is no matrix, or it was made from the tools that are there. -/
def Settled (engine : SearchEngine) (index : Index) : Prop :=
  index.matrix = none ∨ ∀ sk, engine.sklearn = some sk → ∃ generation, Coherent sk index generation

/-- One build at most is under way. -/
def Inv (engine : SearchEngine) (s : State) : Prop :=
  match s.builds with
  | [] => Settled engine s.index
  | [build] => Progress engine s.index build
  | _ => False

theorem inv_initial (engine : SearchEngine) : Inv engine initial := .inl rfl

/-- **A step of a build** leads on, or to an index that is settled. -/
theorem progress_advance {engine : SearchEngine} {index : Index} {build : Build}
    (h : Progress engine index build) :
    match advance engine.sklearn index build with
    | (index', some build') => Progress engine index' build'
    | (index', none) => Settled engine index' := by
  rcases build with _ | _ | _ | _ | corpus | corpus | corpus
  · rw [advance]
    by_cases hnothing : engine.sklearn.isNone ∨ index.current.tools.items = []
    · rw [if_pos hnothing]
      rfl
    · rw [if_neg hnothing]
      exact ⟨rfl, keys_eq_map_name index.current, h (not_or.mp hnothing).2⟩
  · exact h
  · exact .inl h
  · have hcorpus : index.orderedNames.mapM index.current.tools.get? =
        some index.current.entries := by
      rw [h.names]
      exact mapM_get?_eq fun entry hentry ↦ get?_of_mem_entries hentry
    rw [advance, hcorpus]
    exact h
  · exact ⟨⟨h.isCurrent, h.names, h.fits⟩, rfl⟩
  · obtain ⟨hready, hvectorizer⟩ := h
    rcases hsk : engine.sklearn with _ | sk
    · refine .inr fun sk hsome ↦ ?_
      rw [hsk] at hsome
      exact absurd hsome (by simp)
    · simp only [advance, hvectorizer, if_pos (hready.fits sk hsk)]
      exact ⟨⟨hready.isCurrent, hready.names, hready.fits⟩, rfl⟩
  · obtain ⟨hready, hvectorizer⟩ := h
    refine .inr fun sk hsk ↦ ⟨corpus, rfl, hvectorizer, hready.names, ?_, hready.fits sk hsk⟩
    intro entry hentry
    rw [hready.isCurrent] at hentry
    exact get?_of_mem_entries hentry

theorem inv_step {engine : SearchEngine} (s : State) (a : Action) (s' : State) (h : Inv engine s)
    (hcalm : Calm engine s a) (hstep : step engine s a = some s') : Inv engine s' := by
  rcases a with ⟨tools, routeMap⟩ | i | ⟨query, limit⟩
  · obtain ⟨hbuilds, hfits⟩ := hcalm
    rw [step, hbuilds] at hstep
    obtain rfl := Option.some.inj hstep
    exact fun hne sk hsk ↦ hfits sk hsk hne
  · obtain ⟨build, hbuild, rfl⟩ := Option.map_eq_some_iff.mp hstep
    obtain ⟨index, builds⟩ := s
    rcases builds with _ | ⟨first, _ | ⟨second, rest⟩⟩
    · exact absurd hbuild (by simp)
    · obtain ⟨rfl, rfl⟩ : i = 0 ∧ first = build := by
        rcases i with _ | i
        · exact ⟨rfl, Option.some.inj hbuild⟩
        · exact absurd hbuild (by simp)
      have hnext := progress_advance h
      dsimp only
      rcases hadvance : advance engine.sklearn index first with ⟨index', _ | build'⟩
      · rw [hadvance] at hnext
        exact hnext
      · rw [hadvance] at hnext
        exact hnext
    · exact absurd h id
  · rw [step] at hstep
    obtain rfl := Option.some.inj hstep
    exact h

/-- Every search of a calm run is as it should be. -/
theorem searchesGood_of_guarded (engine : SearchEngine) (acts : List Action)
    (h : Run.Guarded (step engine) (Calm engine) initial acts) : SearchesGood engine acts := by
  intro m query limit post hvisit
  obtain ⟨pre, rfl, hrun⟩ := hvisit.exists_run
  obtain ⟨hpre, hrest⟩ := Run.guarded_append.mp h
  have hinv : Inv engine m := Run.invariant_of_run inv_step (inv_initial engine) hpre hrun
  rcases (hrest m hrun).1 with hquiet | hunused
  · rw [Inv, hquiet] at hinv
    by_cases huses : UsesMatrix engine m.index
    · obtain ⟨sk, matrix, -, hsk, hmatrix, -⟩ :=
        search_of_usesMatrix huses query limit
      rcases hinv with hnone | hcoherent
      · rw [hnone] at hmatrix
        exact absurd hmatrix (by simp)
      · obtain ⟨generation, hgeneration⟩ := hcoherent sk hsk
        exact good_of_coherent hsk hgeneration
    · exact good_of_not_usesMatrix huses
  · exact good_of_not_usesMatrix hunused

/-! ## A search while tools are indexed -/

/-- Texts that are the query score one, others nothing. -/
def wholeTexts : Sklearn where
  fits texts := texts.any fun text ↦ decide (text ≠ "")
  scores fitted corpus query :=
    if fitted = corpus then some (corpus.map fun text ↦ if text = query then 1 else 0) else none
  scores_self texts query _ :=
    ⟨texts.map fun text ↦ if text = query then 1 else 0, if_pos rfl, List.length_map _⟩

def wholeEngine : SearchEngine := ⟨id, some wholeTexts⟩

def tool (name : String) : Entry := ⟨⟨name, "", none⟩, "backend", name⟩

/-- A tool is stored, and the build for it comes to its end. -/
def stored (name : String) : List Action :=
  .store [tool name] Dict.empty :: List.replicate 5 (.advance 0)

/-- What it comes to. -/
def afterStored (name : String) : State :=
  let current := ToolIndex.populate [tool name] Dict.empty
  ⟨⟨current, current.tools.keys, some (some (texts current.entries)), some current.entries⟩, []⟩

theorem run_stored : Run.run (step wholeEngine) initial (stored "alpha") =
    some (afterStored "alpha") := by
  rfl

theorem searchesGood_stored :
    SearchesGood wholeEngine (stored "alpha" ++ [.search "alpha" 5]) := by
  refine searchesGood_of_guarded wholeEngine _ (Run.guarded_append.mpr ⟨?_, fun m hm ↦ ?_⟩)
  · refine (Run.guarded_cons rfl).mpr ⟨⟨rfl, fun sk hsk _ ↦ ?_⟩, ?_⟩
    · obtain rfl := Option.some.inj hsk
      decide
    · refine Run.guarded_of_forall_mem _ fun a ha _ ↦ ?_
      rw [List.eq_of_mem_replicate ha]
      trivial
  · rw [run_stored] at hm
    obtain rfl := Option.some.inj hm
    exact Run.guarded_singleton.mpr (.inl rfl)

/-- Another tool has been stored in its place, and is not indexed yet: the name of the row is not
there any more. -/
theorem not_searchesGood_restored : ¬ SearchesGood wholeEngine
    (stored "alpha" ++ [.store [tool "beta"] Dict.empty] ++ [.search "alpha" 5]) := by
  intro h
  have hrun : Run.run (step wholeEngine) initial
      (stored "alpha" ++ [.store [tool "beta"] Dict.empty]) =
      some ⟨{ (afterStored "alpha").index with
        current := ToolIndex.populate [tool "beta"] Dict.empty }, [.begun]⟩ := by
    rw [Run.run_append, run_stored]
    rfl
  obtain ⟨results, hok, -⟩ := h _ "alpha" 5 [] (Run.visits_of_run hrun _ [])
  have hraises : search wholeEngine { (afterStored "alpha").index with
      current := ToolIndex.populate [tool "beta"] Dict.empty } "alpha" 5 = .error .keyError := by
    rfl
  rw [hraises] at hok
  exact absurd hok (by simp)

end Reindex

end ArgusMcp
