import ArgusMcp.Bridge.Registry
import ArgusMcp.Workflows.Interpolation
import Mathlib.Algebra.Order.Field.Rat
import Mathlib.Data.List.DropRight
import Mathlib.Data.List.Sort
import Mathlib.Tactic.Linarith
import Mathlib.Tactic.Positivity

/-!
# The tool index

With the optimizer on, tools are looked for in an index of their names and descriptions
(`bridge/optimizer/search.py`). It is filled from a list of tools and a route map, and keeps for
each tool the backend it had then.

## Scores

A search returns the entries with a positive score, the best first and up to a limit. The scores
come from scikit-learn where that is installed, and are the cosine of two vectors; `Engine` takes
them as they come. Otherwise they count which words of the query occur in the text of the tool,
and then an entry can be found exactly if its text has a word at all (`finds_iff`). Scores are
exact here, and not rounded in the results.
-/

namespace ArgusMcp

/-! ## Words -/

namespace Optimizer

/-- `[_\-\s]`. -/
def isSeparator (c : Char) : Bool := c = '_' || c = '-' || Workflows.isSpace c

/-- Puts a text in lower case, splits it at separators, and strips empties. -/
def tokenize (lower : String → String) (text : String) : List (List Char) :=
  ((lower text).toList.splitOnP isSeparator).filter fun token ↦ decide (token ≠ [])

/-- The words of a text, with blanks between them. -/
def docText (docTokens : List (List Char)) : List Char := [' '].intercalate docTokens

/-- What one word of the query scores. -/
def hits (docTokens : List (List Char)) (qt : List Char) : ℚ :=
  if qt ∈ docTokens then 1
  else if ∃ dt ∈ docTokens, qt <:+: dt then 1 / 2
  else if qt <:+: docText docTokens then 1 / 4
  else 0

/-- The word-overlap scorer, normalised by the length of the query. -/
def simpleScore (queryTokens docTokens : List (List Char)) : ℚ :=
  if queryTokens = [] ∨ docTokens = [] then 0
  else (queryTokens.map (hits docTokens)).sum / queryTokens.length

theorem infix_docText {docTokens : List (List Char)} {dt : List Char} (h : dt ∈ docTokens) :
    dt <:+: docText docTokens := by
  -- word by word: the text of a list is an infix of that of a longer one
  induction docTokens with
  | nil => exact absurd h List.not_mem_nil
  | cons first rest ih =>
    rcases rest with _ | ⟨second, rest⟩
    · obtain rfl := List.mem_singleton.mp h
      rw [docText, List.intercalate_singleton]
    · rw [docText, List.intercalate_cons_cons]
      rcases List.mem_cons.mp h with rfl | h
      · rw [List.append_assoc]
        exact List.infix_append_left
      · exact List.infix_append_of_infix_right (ih h)

theorem hits_nonneg (docTokens : List (List Char)) (qt : List Char) : 0 ≤ hits docTokens qt := by
  rw [hits]
  split
  · positivity
  · split
    · positivity
    · split
      · positivity
      · exact le_rfl

theorem hits_pos_iff {docTokens : List (List Char)} {qt : List Char} :
    0 < hits docTokens qt ↔ qt <:+: docText docTokens := by
  rw [hits]
  split
  · rename_i hmem
    exact iff_of_true one_pos (infix_docText hmem)
  · split
    · rename_i hpart
      obtain ⟨dt, hdt, hqt⟩ := hpart
      exact iff_of_true (by positivity) (hqt.trans (infix_docText hdt))
    · split
      · rename_i hin
        exact iff_of_true (by positivity) hin
      · rename_i hin
        exact iff_of_false (lt_irrefl 0) hin

/-- **What scores.** The score is positive if a word of the query occurs in the text of the tool,
and the tool has words at all. -/
theorem simpleScore_pos_iff {queryTokens docTokens : List (List Char)} :
    0 < simpleScore queryTokens docTokens ↔
      docTokens ≠ [] ∧ ∃ qt ∈ queryTokens, qt <:+: docText docTokens := by
  rw [simpleScore]
  by_cases hnil : queryTokens = [] ∨ docTokens = []
  · rw [if_pos hnil]
    refine iff_of_false (lt_irrefl 0) ?_
    rintro ⟨hdoc, qt, hqt, -⟩
    rcases hnil with rfl | hnone
    · exact absurd hqt List.not_mem_nil
    · exact hdoc hnone
  · rw [if_neg hnil]
    obtain ⟨hquery, hdoc⟩ := not_or.mp hnil
    have hlength : (0 : ℚ) < queryTokens.length :=
      Nat.cast_pos.mpr (List.length_pos_iff.mpr hquery)
    -- no word scores below zero, so that one hit makes the sum positive
    have hnonneg : ∀ x ∈ queryTokens.map (hits docTokens), 0 ≤ x := by
      intro x hx
      obtain ⟨qt, -, rfl⟩ := List.mem_map.mp hx
      exact hits_nonneg docTokens qt
    rw [div_pos_iff_of_pos_right hlength, and_iff_right hdoc]
    constructor
    · intro hpos
      by_contra hnone
      refine absurd (List.sum_eq_zero fun x hx ↦ ?_) hpos.ne'
      obtain ⟨qt, hqt, rfl⟩ := List.mem_map.mp hx
      have hzero : ¬0 < hits docTokens qt := fun hhit ↦ hnone ⟨qt, hqt, hits_pos_iff.mp hhit⟩
      exact le_antisymm (not_lt.mp hzero) (hits_nonneg docTokens qt)
    · rintro ⟨qt, hqt, hin⟩
      exact (hits_pos_iff.mpr hin).trans_le
        (List.single_le_sum hnonneg _ (List.mem_map_of_mem hqt))

theorem simpleScore_self_pos {tokens : List (List Char)} (h : tokens ≠ []) :
    0 < simpleScore tokens tokens :=
  simpleScore_pos_iff.mpr ⟨h, _, List.head_mem h, infix_docText (List.head_mem h)⟩

end Optimizer

/-! ## The index -/

/-- What a search rests on besides the index: how texts are put in lower case, and, where
scikit-learn is installed, the scores it gives the texts it was fitted to for a query. -/
structure Engine where
  lower : String → String
  tfidf : Option (List String → String → List ℚ)

structure ToolEntry where
  name : String
  description : String
  backend : String

/-- `f"{name} {description}".strip()`. -/
def ToolEntry.searchText (entry : ToolEntry) : String :=
  let text := entry.name ++ " " ++ entry.description
  String.ofList ((text.toList.dropWhile Workflows.isSpace).rdropWhile Workflows.isSpace)

/-- The tools by name. -/
structure ToolIndex where
  tools : Dict String ToolEntry
  named : ∀ name entry, tools.get? name = some entry → entry.name = name

namespace ToolIndex

/-- `_populate`. A tool without a route is indexed with no backend. -/
def populate (tools : List Entry) (routeMap : Dict String Route) : ToolIndex where
  tools := Dict.ofList (tools.map fun t ↦ (t.name,
    { name := t.name
      description := t.cap.description.getD ""
      backend := ((routeMap.get? t.name).map Prod.fst).getD "" }))
  named := by
    intro name entry hget
    rcases Dict.get?_foldl_set_eq_some hget with hmem | hget
    · obtain ⟨t, -, heq⟩ := List.mem_map.mp hmem
      obtain ⟨rfl, rfl⟩ := Prod.mk.inj heq
      rfl
    · exact absurd hget (by simp)

variable (index : ToolIndex)

/-- The entries, in the order of `_ordered_names`. -/
def entries : List ToolEntry := index.tools.items.map Prod.snd

/-- `results[:limit]`; a negative limit counts from the end. -/
def upTo {α : Type} (limit : ℤ) (results : List α) : List α :=
  results.take (if 0 ≤ limit then limit.toNat else results.length - limit.natAbs)

/-- The entries with a positive score, the best first. Equal scores keep their order. -/
def ranked (results : List (ℚ × ToolEntry)) : List (ℚ × ToolEntry) :=
  (results.filter fun r ↦ decide (0 < r.1)).insertionSort fun r s ↦ s.1 ≤ r.1

def searchTfidf (scores : List String → String → List ℚ) (query : String) (limit : ℤ) :
    List (ℚ × ToolEntry) :=
  upTo limit (ranked ((scores (index.entries.map ToolEntry.searchText) query).zip index.entries))

def scored (lower : String → String) (queryTokens : List (List Char)) : List (ℚ × ToolEntry) :=
  index.entries.map fun entry ↦
    (Optimizer.simpleScore queryTokens (Optimizer.tokenize lower entry.searchText), entry)

def searchSimple (lower : String → String) (query : String) (limit : ℤ) :
    List (ℚ × ToolEntry) :=
  let queryTokens := Optimizer.tokenize lower query
  if queryTokens = [] then [] else upTo limit (ranked (index.scored lower queryTokens))

/-- The entries that match a query, with their scores. -/
def search (engine : Engine) (query : String) (limit : ℤ) : List (ℚ × ToolEntry) :=
  if index.tools.items = [] then []
  else match engine.tfidf with
    | some scores => index.searchTfidf scores query limit
    | none => index.searchSimple engine.lower query limit

/-- Some search returns the tool. -/
def Finds (engine : Engine) (name : String) : Prop :=
  ∃ query limit, ∃ r ∈ index.search engine query limit, r.2.name = name

/-! ### What is in the index -/

section Populate

variable {tools : List Entry} {routeMap : Dict String Route}

theorem of_get?_populate {name : String} {entry : ToolEntry}
    (h : (populate tools routeMap).tools.get? name = some entry) :
    (∃ t ∈ tools, t.name = name) ∧
      entry.backend = ((routeMap.get? name).map Prod.fst).getD "" := by
  rcases Dict.get?_foldl_set_eq_some h with hmem | hget
  · obtain ⟨t, ht, heq⟩ := List.mem_map.mp hmem
    obtain ⟨rfl, rfl⟩ := Prod.mk.inj heq
    exact ⟨⟨t, ht, rfl⟩, rfl⟩
  · exact absurd hget (by simp)

theorem exists_get?_populate {t : Entry} (h : t ∈ tools) :
    ∃ entry, (populate tools routeMap).tools.get? t.name = some entry := by
  refine Dict.exists_get?_foldl_set ?_ Dict.empty
  rw [List.map_map]
  exact List.mem_map_of_mem h

end Populate

/-! ### What is found -/

section Search

variable {index : ToolIndex} {engine : Engine} {query name : String} {limit : ℤ}

theorem mem_of_mem_upTo {α : Type} {results : List α} {r : α} (h : r ∈ upTo limit results) :
    r ∈ results :=
  List.mem_of_mem_take h

theorem upTo_length {α : Type} (results : List α) : upTo results.length results = results := by
  rw [upTo, if_pos (Int.natCast_nonneg _), Int.toNat_natCast, List.take_length]

theorem mem_ranked {results : List (ℚ × ToolEntry)} {r : ℚ × ToolEntry} :
    r ∈ ranked results ↔ r ∈ results ∧ 0 < r.1 := by
  rw [ranked, List.mem_insertionSort, List.mem_filter, decide_eq_true_eq]

theorem mem_entries_of_mem_search {r : ℚ × ToolEntry}
    (h : r ∈ index.search engine query limit) : r.2 ∈ index.entries := by
  rw [search] at h
  split at h
  · exact absurd h List.not_mem_nil
  · split at h
    · obtain ⟨hmem, -⟩ := mem_ranked.mp (mem_of_mem_upTo h)
      exact (List.of_mem_zip hmem).2
    · rw [searchSimple] at h
      split at h
      · exact absurd h List.not_mem_nil
      · obtain ⟨hmem, -⟩ := mem_ranked.mp (mem_of_mem_upTo h)
        obtain ⟨entry, hentry, rfl⟩ := List.mem_map.mp hmem
        exact hentry

theorem mem_entries_iff {entry : ToolEntry} :
    entry ∈ index.entries ↔ index.tools.get? entry.name = some entry := by
  rw [entries, List.mem_map]
  constructor
  · rintro ⟨⟨key, entry⟩, hmem, rfl⟩
    have hget := Dict.get?_eq_some_of_mem hmem
    rw [index.named key entry hget]
    exact hget
  · intro hget
    exact ⟨(entry.name, entry), Dict.mem_items_of_get?_eq_some hget, rfl⟩

theorem Finds.exists_entry (h : index.Finds engine name) :
    ∃ entry, index.tools.get? name = some entry := by
  obtain ⟨query, limit, r, hr, rfl⟩ := h
  exact ⟨r.2, mem_entries_iff.mp (mem_entries_of_mem_search hr)⟩

/-- **What can be found.** Without scikit-learn a tool is found by some query exactly if its text
has a word: the text itself is such a query then. -/
theorem finds_iff (hsimple : engine.tfidf = none) : index.Finds engine name ↔
    ∃ entry, index.tools.get? name = some entry ∧
      Optimizer.tokenize engine.lower entry.searchText ≠ [] := by
  constructor
  · rintro ⟨query, limit, r, hr, rfl⟩
    have hentry := mem_entries_iff.mp (mem_entries_of_mem_search hr)
    refine ⟨r.2, hentry, ?_⟩
    rw [search, hsimple, searchSimple] at hr
    split at hr
    · exact absurd hr List.not_mem_nil
    · dsimp only at hr
      split at hr
      · exact absurd hr List.not_mem_nil
      · obtain ⟨hmem, hpos⟩ := mem_ranked.mp (mem_of_mem_upTo hr)
        obtain ⟨entry, -, rfl⟩ := List.mem_map.mp hmem
        exact (Optimizer.simpleScore_pos_iff.mp hpos).1
  · rintro ⟨entry, hget, htokens⟩
    have hmem := Dict.mem_items_of_get?_eq_some hget
    obtain rfl := index.named name entry hget
    -- the query is the text itself, with a limit that lets all results through
    refine ⟨entry.searchText, (ranked (index.scored engine.lower
      (Optimizer.tokenize engine.lower entry.searchText))).length,
      (Optimizer.simpleScore (Optimizer.tokenize engine.lower entry.searchText)
        (Optimizer.tokenize engine.lower entry.searchText), entry), ?_, rfl⟩
    rw [search, if_neg (List.ne_nil_of_mem hmem), hsimple, searchSimple]
    dsimp only
    rw [if_neg htokens, upTo_length, mem_ranked]
    exact ⟨List.mem_map.mpr ⟨entry, mem_entries_iff.mpr hget, rfl⟩,
      Optimizer.simpleScore_self_pos htokens⟩

end Search

end ToolIndex

end ArgusMcp
