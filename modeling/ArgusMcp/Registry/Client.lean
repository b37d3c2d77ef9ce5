import ArgusMcp.Registry.Cache

/-!
# Listing what a registry has

`RegistryClient.list_all_servers` follows the cursors of a registry from page to page. A page that
cannot be had is replaced by what is in the cache, and with it the listing ends. The first page is
written to the cache when it arrives, and all that was listed is at the end.

So a page that cannot be had after the first one is replaced by the first one, which is then in the
list twice, and so it is in the cache (`pages_of_page`). Listing does what it should if that does not
happen, and if the cache can hold what is listed (`lists_iff`).

A response is a page as `_parse_page` gives it, or whatever is raised on the way to it, which is all
the same to `list_servers`. It may depend on how many requests there were before, and on the cursor.
-/

namespace ArgusMcp

namespace RegistryClient

open RegistryCache

variable {O N : Type} [PyObject O] [DecidableEq N]

/-! ## The client -/

/-- A page of entries that `from_dict` has made. -/
structure Page (O : Type) [PyObject O] where
  servers : List (ServerEntry O)
  nextCursor : Value O
  produced : ∀ e ∈ servers, Produced e

/-- What comes of a request. -/
inductive Response (O : Type) [PyObject O] where
  | fails
  | page (p : Page O)

structure Client (N : Type) where
  baseUrl : String
  cache : Option (Cache N)

variable (client : Client N)

/-- `_fallback_page`: the entries, behind which there is no cursor. -/
def fallbackPage (files : Files N O) : Except PyError (List (ServerEntry O)) :=
  match client.cache with
  | some cache => (get cache files client.baseUrl).map fun cached ↦ cached.getD []
  | none => .ok []

/-- What is left of a request: the files, and the entries and the cursor of the page. -/
abbrev Listed (N O : Type) := Files N O × Except PyError (List (ServerEntry O) × Value O)

/-- The page that takes the place of one that cannot be had. -/
def fallBack (files : Files N O) : Listed N O :=
  (files, (fallbackPage client files).map fun servers ↦ (servers, .none))

def listServers (now : O) (cursor : Value O) (response : Response O) (files : Files N O) :
    Listed N O :=
  match response with
  | .fails => fallBack client files
  | .page p =>
    match client.cache with
    | none => (files, .ok (p.servers, p.nextCursor))
    | some cache =>
      if cursor.truthy then (files, .ok (p.servers, p.nextCursor))
      else
        match put cache files client.baseUrl p.servers now with
        | (files, .ok ()) => (files, .ok (p.servers, p.nextCursor))
        | (files, .error _) => fallBack client files

variable (now : O) (answers : ℕ → Value O → Response O)

/-- The loop of `list_all_servers`: so many pages at most, from a request on. -/
def pages : ℕ → ℕ → Value O → Files N O → Files N O × Except PyError (List (ServerEntry O))
  | 0, _, _, files => (files, .ok [])
  | n + 1, i, cursor, files =>
    match listServers client now cursor (answers i cursor) files with
    | (files, .error e) => (files, .error e)
    | (files, .ok (servers, nextCursor)) =>
      if nextCursor.truthy then
        let rest := pages n (i + 1) nextCursor files
        (rest.1, rest.2.map (servers ++ ·))
      else (files, .ok servers)

/-- What is done with what was listed. -/
def finish (ended : O) : Files N O × Except PyError (List (ServerEntry O)) →
    Files N O × Except PyError (List (ServerEntry O))
  | (files, .error e) => (files, .error e)
  | (files, .ok entries) =>
    match client.cache with
    | none => (files, .ok entries)
    | some cache =>
      if entries.isEmpty then (files, .ok entries)
      else
        let written := put cache files client.baseUrl entries ended
        (written.1, written.2.map fun () ↦ entries)

/-- `list_all_servers`, with the times of its first request and of its end. -/
def listAllServers (ended : O) (maxPages : ℕ) (files : Files N O) :
    Files N O × Except PyError (List (ServerEntry O)) :=
  finish client ended (pages client now answers maxPages 0 .none files)

/-! ## What should be -/

/-- The pages that are fetched before one cannot be had, or is the last one. -/
def fetched (answers : ℕ → Value O → Response O) : ℕ → ℕ → Value O → List (ServerEntry O)
  | 0, _, _ => []
  | n + 1, i, cursor =>
    match answers i cursor with
    | .fails => []
    | .page p =>
      p.servers ++ if p.nextCursor.truthy then fetched answers n (i + 1) p.nextCursor else []

/-- One of the pages cannot be had. -/
def interrupted (answers : ℕ → Value O → Response O) : ℕ → ℕ → Value O → Bool
  | 0, _, _ => false
  | n + 1, i, cursor =>
    match answers i cursor with
    | .fails => true
    | .page p => p.nextCursor.truthy && interrupted answers n (i + 1) p.nextCursor

/-- What should be listed: what is cached, if the first page cannot be had, and what is fetched
otherwise. -/
def Expected (maxPages : ℕ) (files : Files N O) (entries : List (ServerEntry O)) : Prop :=
  match answers 0 .none with
  | .fails => fallbackPage client files = .ok entries
  | .page _ => entries = fetched answers maxPages 0 .none

/-- Listing returns what it should, and leaves it in the cache. -/
def Lists (ended : O) (maxPages : ℕ) (files : Files N O) : Prop :=
  ∃ entries, (listAllServers client now answers ended maxPages files).2 = .ok entries ∧
    Expected client answers maxPages files entries ∧
    (entries ≠ [] → ∀ cache, client.cache = some cache →
      get cache (listAllServers client now answers ended maxPages files).1 client.baseUrl =
        .ok (some entries))

/-! ## Page by page -/

section Pages

variable {client : Client N} {answers : ℕ → Value O → Response O} {now : O}

theorem pages_fallBack {n i : ℕ} {cursor : Value O} {files files' : Files N O}
    (h : listServers client now cursor (answers i cursor) files = fallBack client files') :
    pages client now answers (n + 1) i cursor files = (files', fallbackPage client files') := by
  rw [pages, h, fallBack]
  rcases fallbackPage client files' with e | servers
  · rfl
  · rfl

theorem listServers_page {cursor : Value O} (hcursor : cursor.truthy = true) (p : Page O)
    (files : Files N O) :
    listServers client now cursor (.page p) files = (files, .ok (p.servers, p.nextCursor)) := by
  rw [listServers]
  rcases client.cache with _ | cache
  · rfl
  · exact if_pos hcursor

/-- What comes behind what was fetched: the cache, if a page cannot be had. -/
def behind (client : Client N) (files : Files N O) (failed : Bool) :
    Except PyError (List (ServerEntry O)) :=
  if failed then fallbackPage client files else .ok []

/-- What the loop comes to from a request on. -/
def Goes (client : Client N) (now : O) (answers : ℕ → Value O → Response O) (n i : ℕ)
    (cursor : Value O) (files files' : Files N O) : Prop :=
  pages client now answers n i cursor files =
    (files', (behind client files' (interrupted answers n i cursor)).map
      (fetched answers n i cursor ++ ·))

theorem goes_page {n i : ℕ} {cursor : Value O} {files files' : Files N O} {p : Page O}
    (hanswer : answers i cursor = .page p)
    (h : listServers client now cursor (.page p) files = (files', .ok (p.servers, p.nextCursor)))
    (hrest : p.nextCursor.truthy = true →
      Goes client now answers n (i + 1) p.nextCursor files' files') :
    Goes client now answers (n + 1) i cursor files files' := by
  rw [Goes, pages, fetched, interrupted, hanswer, h]
  dsimp only
  by_cases hnext : p.nextCursor.truthy = true
  · rw [if_pos hnext, if_pos hnext, hrest hnext, hnext, Bool.true_and]
    rcases behind client files' (interrupted answers n (i + 1) p.nextCursor) with e | servers
    · rfl
    · simp only [Except.map, List.append_assoc]
  · rw [if_neg hnext, if_neg hnext, Bool.eq_false_iff.mpr hnext, Bool.false_and, behind,
      if_neg Bool.false_ne_true]
    simp only [Except.map, List.append_nil]

/-- **Behind the first page** nothing is written, and a page that cannot be had is replaced. -/
theorem goes_of_truthy (n i : ℕ) {cursor : Value O} (hcursor : cursor.truthy = true)
    (files : Files N O) : Goes client now answers n i cursor files files := by
  induction n generalizing i cursor with
  | zero => rfl
  | succ n ih =>
    rcases hanswer : answers i cursor with _ | p
    · rw [Goes, pages_fallBack (by rw [hanswer]; rfl), fetched, interrupted, hanswer]
      dsimp only
      rw [behind, if_pos rfl]
      rcases fallbackPage client files with e | servers
      · rfl
      · rfl
    · exact goes_page hanswer (listServers_page hcursor p files) fun hnext ↦ ih (i + 1) hnext

theorem goes_of_page {n i : ℕ} {cursor : Value O} {files files' : Files N O} {p : Page O}
    (hanswer : answers i cursor = .page p)
    (h : listServers client now cursor (.page p) files = (files', .ok (p.servers, p.nextCursor))) :
    Goes client now answers (n + 1) i cursor files files' :=
  goes_page hanswer h fun hnext ↦ goes_of_truthy n (i + 1) hnext files'

end Pages

/-! ## The whole list -/

section All

variable {client : Client N} {answers : ℕ → Value O → Response O} {now ended : O}
  {maxPages : ℕ} {files files' : Files N O} {cache : Cache N}

/-- The list is as it should be, and can be cached. -/
def Good (client : Client N) (answers : ℕ → Value O → Response O) (ended : O) (maxPages : ℕ)
    (files : Files N O) (entries : List (ServerEntry O)) : Prop :=
  Expected client answers maxPages files entries ∧
    (entries ≠ [] → ∀ cache, client.cache = some cache →
      Storable cache.limit client.baseUrl entries ended)

theorem lists_iff_good {entries : List (ServerEntry O)}
    (hpages : pages client now answers maxPages 0 .none files = (files', .ok entries))
    (hproduced : ∀ e ∈ entries, Produced e) :
    Lists client now answers ended maxPages files ↔
      Good client answers ended maxPages files entries := by
  have hall : listAllServers client now answers ended maxPages files =
      finish client ended (files', .ok entries) := by rw [listAllServers, hpages]
  rw [Lists, Good, hall, finish]
  rcases hcache : client.cache with _ | cache
  · simp
  · dsimp only
    by_cases hempty : entries = []
    · subst hempty
      simp
    · have hisEmpty : ¬ entries.isEmpty = true := fun h ↦ hempty (List.isEmpty_iff.mp h)
      have hstore : RoundTrips cache files' client.baseUrl entries ended ↔
          Storable cache.limit client.baseUrl entries ended :=
        roundTrips_iff_storable fun e he ↦ normal_fromDict (hproduced e he)
      rw [if_neg hisEmpty]
      simp only [Option.some.injEq, forall_eq', ← hstore, RoundTrips, map_eq_ok_iff]
      constructor
      · rintro ⟨entries', ⟨⟨⟩, hok, rfl⟩, hexpected, hget⟩
        exact ⟨hexpected, fun _ ↦ ⟨hok, hget hempty⟩⟩
      · rintro ⟨hexpected, hgood⟩
        obtain ⟨hok, hget⟩ := hgood hempty
        exact ⟨entries, ⟨(), hok, rfl⟩, hexpected, fun _ ↦ hget⟩

theorem not_lists_of_error {e : PyError}
    (hpages : pages client now answers maxPages 0 .none files = (files', .error e)) :
    ¬ Lists client now answers ended maxPages files := by
  rintro ⟨entries, hok, -⟩
  rw [listAllServers, hpages, finish] at hok
  exact absurd hok (by simp)

omit [DecidableEq N] in
theorem produced_fallbackPage {entries : List (ServerEntry O)}
    (h : fallbackPage client files = .ok entries) : ∀ e ∈ entries, Produced e := by
  rw [fallbackPage] at h
  rcases hcache : client.cache with _ | cache
  · rw [hcache] at h
    obtain rfl := Except.ok.inj h
    simp
  · rw [hcache] at h
    obtain ⟨cached, hget, rfl⟩ := map_eq_ok_iff.mp h
    rcases cached with _ | cached
    · simp
    · exact produced_of_get hget

theorem produced_fetched (n i : ℕ) (cursor : Value O) :
    ∀ e ∈ fetched answers n i cursor, Produced e := by
  induction n generalizing i cursor with
  | zero => simp [fetched]
  | succ n ih =>
    rw [fetched]
    rcases answers i cursor with _ | p
    · simp
    · intro e he
      rcases List.mem_append.mp he with hfirst | hrest
      · exact p.produced e hfirst
      · split at hrest
        · exact ih (i + 1) p.nextCursor e hrest
        · exact absurd hrest List.not_mem_nil

/-- When the listing is as it should be. -/
def Undisturbed (client : Client N) (answers : ℕ → Value O → Response O) (ended : O) (maxPages : ℕ)
    (files : Files N O) : Prop :=
  match answers 0 .none with
  | .fails => ∃ entries, fallbackPage client files = .ok entries ∧
      (entries ≠ [] → ∀ cache, client.cache = some cache →
        Storable cache.limit client.baseUrl entries ended)
  | .page p =>
      (client.cache.isSome → interrupted answers maxPages 0 .none = true → p.servers = []) ∧
      (fetched answers maxPages 0 .none ≠ [] → ∀ cache, client.cache = some cache →
        Storable cache.limit client.baseUrl (fetched answers maxPages 0 .none) ended)

theorem lists_iff_of_fails {n : ℕ} (hanswer : answers 0 .none = .fails) :
    Lists client now answers ended (n + 1) files ↔
      Undisturbed client answers ended (n + 1) files := by
  have hpages : pages client now answers (n + 1) 0 .none files =
      (files, fallbackPage client files) := pages_fallBack (by rw [hanswer]; rfl)
  rw [Undisturbed, hanswer]
  dsimp only
  rcases hfallback : fallbackPage client files with e | entries
  · rw [hfallback] at hpages
    refine iff_of_false (not_lists_of_error hpages) ?_
    rintro ⟨entries, hok, -⟩
    exact absurd hok (by simp)
  · rw [hfallback] at hpages
    have hexpected : Expected client answers (n + 1) files entries := by
      rw [Expected, hanswer]
      exact hfallback
    rw [lists_iff_good hpages (produced_fallbackPage hfallback), Good, and_iff_right hexpected]
    simp only [Except.ok.injEq, exists_eq_left']

/-- The first page is there and, if there is a cache, written to it. -/
theorem lists_iff_of_written {n : ℕ} {p : Page O} {stored : List (ServerEntry O)}
    (hanswer : answers 0 .none = .page p)
    (hfirst : listServers client now .none (.page p) files =
      (files', .ok (p.servers, p.nextCursor)))
    (hstored : fallbackPage client files' = .ok stored)
    (hlength : stored = [] ↔ (client.cache.isSome → p.servers = [])) :
    Lists client now answers ended (n + 1) files ↔
      Undisturbed client answers ended (n + 1) files := by
  obtain ⟨more, hmore, hnil, hproduced⟩ : ∃ more,
      behind client files' (interrupted answers (n + 1) 0 .none) = .ok more ∧
        (more = [] ↔ (client.cache.isSome → interrupted answers (n + 1) 0 .none = true →
          p.servers = [])) ∧ ∀ e ∈ more, Produced e := by
    by_cases hfailed : interrupted answers (n + 1) 0 .none = true
    · refine ⟨stored, ?_, ?_, produced_fallbackPage hstored⟩
      · rw [behind, if_pos hfailed, hstored]
      · rw [hlength, forall_prop_of_true hfailed]
    · refine ⟨[], by rw [behind, if_neg hfailed], ?_, by simp⟩
      exact iff_of_true rfl fun _ h ↦ absurd h hfailed
  have hpages : Goes client now answers (n + 1) 0 .none files files' := goes_of_page hanswer hfirst
  rw [Goes, hmore] at hpages
  have hall : ∀ e ∈ fetched answers (n + 1) 0 .none ++ more, Produced e := by
    intro e he
    rcases List.mem_append.mp he with hfetched | hback
    · exact produced_fetched (n + 1) 0 .none e hfetched
    · exact hproduced e hback
  rw [lists_iff_good hpages hall, Good, Expected, Undisturbed, hanswer]
  dsimp only
  rw [List.append_right_eq_self, hnil]
  refine and_congr_right fun hcalm ↦ ?_
  rw [hnil.mpr hcalm, List.append_nil]

theorem lists_iff_of_not_written {n : ℕ} {p : Page O} (hanswer : answers 0 .none = .page p)
    (hcache : client.cache = some cache)
    (hfirst : listServers client now .none (.page p) files = fallBack client files')
    (hstorable : ¬ Storable cache.limit client.baseUrl p.servers now)
    (hvacant : p.servers = [] → get cache files' client.baseUrl = .ok none) :
    Lists client now answers ended (n + 1) files ↔
      Undisturbed client answers ended (n + 1) files := by
  have hpages : pages client now answers (n + 1) 0 .none files =
      (files', fallbackPage client files') := pages_fallBack (by rw [hanswer]; exact hfirst)
  have hnot : ¬ Storable cache.limit client.baseUrl (fetched answers (n + 1) 0 .none) ended := by
    rw [fetched, hanswer]
    exact fun h ↦ hstorable (h.of_append now)
  by_cases hempty : fetched answers (n + 1) 0 .none = []
  · have hservers : p.servers = [] := by
      rw [fetched, hanswer] at hempty
      exact (List.append_eq_nil_iff.mp hempty).1
    have hfallback : fallbackPage client files' = .ok [] := by
      rw [fallbackPage, hcache]
      dsimp only
      rw [hvacant hservers]
      rfl
    rw [hfallback] at hpages
    rw [lists_iff_good hpages (by simp), Good, Expected, Undisturbed, hanswer]
    dsimp only
    exact iff_of_true ⟨hempty.symm, by simp⟩ ⟨fun _ _ ↦ hservers, fun h ↦ absurd hempty h⟩
  · have hdisturbed : ¬ Undisturbed client answers ended (n + 1) files := by
      rw [Undisturbed, hanswer]
      exact fun h ↦ hnot (h.2 hempty cache hcache)
    refine iff_of_false ?_ hdisturbed
    rcases hfallback : fallbackPage client files' with e | entries
    · rw [hfallback] at hpages
      exact not_lists_of_error hpages
    · rw [hfallback] at hpages
      rw [lists_iff_good hpages (produced_fallbackPage hfallback), Good, Expected, hanswer]
      rintro ⟨rfl, hgood⟩
      exact hnot (hgood hempty cache hcache)

/-- **Listing is as it should be** exactly if the first page is not what takes the place of another
one, and what is listed can be cached. -/
theorem lists_iff (client : Client N) (answers : ℕ → Value O → Response O) (now ended : O)
    (maxPages : ℕ) (hmax : 1 ≤ maxPages) (files : Files N O) :
    Lists client now answers ended maxPages files ↔
      Undisturbed client answers ended maxPages files := by
  obtain ⟨n, rfl⟩ := Nat.exists_eq_add_of_le' hmax
  rcases hanswer : answers 0 .none with _ | p
  · exact lists_iff_of_fails hanswer
  · have hnormal : ∀ e ∈ p.servers, Normal e := fun e he ↦ normal_fromDict (p.produced e he)
    have hfirst : Value.truthy (.none : Value O) = false := rfl
    rcases hcache : client.cache with _ | cache
    · have hlisted : listServers client now .none (.page p) files =
          (files, .ok (p.servers, p.nextCursor)) := by rw [listServers, hcache]
      have hfallback : fallbackPage client files = .ok [] := by rw [fallbackPage, hcache]
      refine lists_iff_of_written hanswer hlisted hfallback ?_
      simp [hcache]
    · rcases hput : put cache files client.baseUrl p.servers now with ⟨files', e | _⟩
      · obtain ⟨hstorable, hvacant⟩ := not_storable_of_put hnormal (congrArg Prod.snd hput)
        rw [hput] at hvacant
        refine lists_iff_of_not_written hanswer hcache ?_ hstorable hvacant
        rw [listServers, hcache]
        dsimp only
        rw [hfirst, if_neg Bool.false_ne_true, hput]
      · obtain ⟨stored, hget, hlength⟩ := exists_stored hnormal (congrArg Prod.snd hput)
        rw [hput] at hget
        have hlisted : listServers client now .none (.page p) files =
            (files', .ok (p.servers, p.nextCursor)) := by
          rw [listServers, hcache]
          dsimp only
          rw [hfirst, if_neg Bool.false_ne_true, hput]
        have hfallback : fallbackPage client files' = .ok stored := by
          rw [fallbackPage, hcache]
          dsimp only
          rw [hget]
          rfl
        refine lists_iff_of_written hanswer hlisted hfallback ?_
        rw [hcache, Option.isSome_some, forall_prop_of_true rfl, ← List.length_eq_zero_iff, hlength,
          List.length_eq_zero_iff]

end All

/-! ## A page that cannot be had -/

/-- A first page, with a cursor, and then a request that fails. -/
def firstPageOnly : ℕ → Value Unit → Response Unit
  | 0, _ => .page ⟨[entryWith (.list [])], .str "2", by
      intro e he
      rw [List.mem_singleton.mp he]
      exact ⟨[("name", .str "files")], rfl⟩⟩
  | _ + 1, _ => .fails

def plainClient : Client String := ⟨"https://registry", some plainCache⟩

theorem lists_firstPageOnly_iff :
    Lists plainClient () firstPageOnly () 20 (fun _ ↦ none) ↔
      Undisturbed plainClient firstPageOnly () 20 (fun _ ↦ none) :=
  lists_iff plainClient firstPageOnly () () 20 (by decide) fun _ ↦ none

/-- The first page is listed twice. -/
theorem not_lists_firstPageOnly :
    ¬ Lists plainClient () firstPageOnly () 20 (fun _ ↦ none) := by
  rintro ⟨entries, hok, hexpected, -⟩
  have htwice : (listAllServers plainClient () firstPageOnly () 20 fun _ ↦ none).2 =
      .ok [entryWith (.list []), entryWith (.list [])] := rfl
  have honce : entries = [entryWith (.list [])] := hexpected
  rw [htwice, honce] at hok
  exact absurd hok (by simp)

end RegistryClient

end ArgusMcp
