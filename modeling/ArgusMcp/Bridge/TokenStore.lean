import ArgusMcp.Bridge.Tokens
import ArgusMcp.Library.Dict
import ArgusMcp.Library.ExtRat
import ArgusMcp.Library.Machine
import ArgusMcp.Library.Value

/-!
# The token files

`TokenStore` of `bridge/auth/store.py` keeps the tokens of each backend in a JSON file of its own.
The name of the file is that of the backend with all unusual characters replaced, so that different
backends may have to share one.

Others may write into the directory, and reading may fail. Then `load` should find nothing; what it
does depends on what is wrong with the file. If that cannot be read, the branch for the error falls
through to code that uses what was not read, and if the content is JSON but not of the kind that was
saved, there is nothing that expects it. `exists_load_iff` says of which files it can make something.

## Contents

What matters of a file is what one gets when one reads it and parses the text, and for what was
saved, this is what was saved. The numbers of JSON are integers, and rational numbers with infinities
in place of floats.
-/

namespace ArgusMcp

namespace TokenStore

/-- What a JSON document says. -/
abbrev Json := Value ExtRat

/-! ## Tokens -/

/-- `TokenSet`, as the flows make it. -/
structure TokenSet where
  accessToken : String
  tokenType : String := "Bearer"
  refreshToken : String := ""
  expiresIn : ExtRat := .fin 3600
  scope : String := ""

/-- `TokenSet`, as it comes out of a file: nobody looks at the types. -/
structure LoadedSet where
  accessToken : Json
  tokenType : Json
  refreshToken : Json
  expiresIn : Json
  scope : Json

def TokenSet.loaded (tokens : TokenSet) : LoadedSet where
  accessToken := .str tokens.accessToken
  tokenType := .str tokens.tokenType
  refreshToken := .str tokens.refreshToken
  expiresIn := .obj tokens.expiresIn
  scope := .str tokens.scope

/-! ## Files -/

def pathFor (backendName : String) : String :=
  String.ofList (backendName.toList.map fun c ↦
    if c.isAlphanum || c = '.' || c = '_' || c = '-' then c else '_') ++ ".json"

inductive FileContent where
  /-- No UTF-8. -/
  | undecodable
  /-- No JSON. -/
  | malformed
  /-- Nested more deeply than the parser can go. -/
  | tooDeep
  /-- An integer with more digits than are read. -/
  | tooManyDigits
  | json (data : Json)

abbrev Directory := Dict String FileContent

/-- What the operating system does when a file is looked for and read. -/
inductive Access where
  | granted
  | statFails
  | readFails
  deriving DecidableEq

inductive WriteOutcome where
  | written
  | failed
  | truncated
  deriving DecidableEq

inductive LoadError where
  | osError
  | unboundLocalError
  | unicodeDecodeError
  | recursionError
  | valueError
  | attributeError
  | keyError
  | typeError
  | overflowError
  deriving DecidableEq

/-! ## Saving -/

/-- What `save` writes. -/
def record (tokens : TokenSet) (now : ℚ) : List (String × Json) :=
  [("access_token", .str tokens.accessToken), ("token_type", .str tokens.tokenType),
    ("refresh_token", .str tokens.refreshToken), ("expires_in", .obj tokens.expiresIn),
    ("scope", .str tokens.scope), ("saved_at", .obj (.fin now))]

/-- `save`. An error is logged. -/
def save (dir : Directory) (backendName : String) (tokens : TokenSet) (now : ℚ)
    (outcome : WriteOutcome) : Directory :=
  match outcome with
  | .written => dir.set (pathFor backendName) (.json (.dict (record tokens now)))
  | .failed => dir
  | .truncated => dir.set (pathFor backendName) .malformed

/-- `delete`: whether there was a file, and the directory without it. -/
def delete (dir : Directory) (backendName : String) : Bool × Directory :=
  if (dir.get? (pathFor backendName)).isSome then (true, dir.del (pathFor backendName))
  else (false, dir)

/-! ## Loading -/

/-- The truth value of a JSON value. -/
def isTrue : Json → Bool
  | .none => false
  | .bool b => b
  | .int n => decide (n ≠ 0)
  | .str s => decide (s ≠ "")
  | .list l => !l.isEmpty
  | .dict d => !d.isEmpty
  | .obj x => decide (x ≠ .fin 0)

/-- The integer can be converted to a float. -/
def fitsFloat (n : ℤ) : Bool := decide (n.natAbs < 2 ^ 1024 - 2 ^ 970)

/-- `time.time() - saved_at`. -/
def elapsedSince (now : ℚ) : Json → Except LoadError ExtRat
  | .int n => if fitsFloat n then .ok (.fin now - .fin n) else .error .overflowError
  | .bool b => .ok (.fin now - .fin b.toNat)
  | .obj x => .ok (.fin now - x)
  | .none | .str _ | .list _ | .dict _ => .error .typeError

/-- `expires_in - 60`. -/
def lessBuffer : Json → Except LoadError ExtRat
  | .int n => .ok (.fin n - .fin 60)
  | .bool b => .ok (.fin b.toNat - .fin 60)
  | .obj x => .ok (x - .fin 60)
  | .none | .str _ | .list _ | .dict _ => .error .typeError

section

variable (d : List (String × Json))

/-- `data.get(key, default)`. -/
def getOr (key : String) (default : Json) : Json := (d.lookup key).getD default

def savedAt : Json := getOr d "saved_at" (.int 0)

def expiresIn : Json := getOr d "expires_in" (.int 0)

/-- The refresh token of tokens that have expired, if there is one. -/
def expiredSet : Option LoadedSet :=
  let refresh := getOr d "refresh_token" (.str "")
  if isTrue refresh then
    some ⟨.str "", getOr d "token_type" (.str "Bearer"), refresh, .int 0,
      getOr d "scope" (.str "")⟩
  else none

/-- The tokens of a file that have not expired. -/
def validSet : Except LoadError (Option LoadedSet) :=
  match d.lookup "access_token" with
  | none => .error .keyError
  | some accessToken =>
    .ok (some ⟨accessToken, getOr d "token_type" (.str "Bearer"),
      getOr d "refresh_token" (.str ""), getOr d "expires_in" (.int 3600),
      getOr d "scope" (.str "")⟩)

/-- What `load` does with the data. The time is only looked at if both numbers are there. -/
def readData (now : ℚ) : Except LoadError (Option LoadedSet) :=
  if isTrue (savedAt d) && isTrue (expiresIn d) then
    (elapsedSince now (savedAt d)).bind fun elapsed ↦ (lessBuffer (expiresIn d)).bind fun rest ↦
      if ExtRat.ble rest elapsed then .ok (expiredSet d) else validSet d
  else validSet d

end

/-- What `load` does with a file. -/
def readFile (now : ℚ) : FileContent → Except LoadError (Option LoadedSet)
  | .undecodable => .error .unicodeDecodeError
  | .malformed => .ok none
  | .tooDeep => .error .recursionError
  | .tooManyDigits => .error .valueError
  | .json (.dict d) => readData d now
  | .json _ => .error .attributeError

def load (dir : Directory) (backendName : String) (access : Access) (now : ℚ) :
    Except LoadError (Option LoadedSet) :=
  match access with
  | .statFails => .error .osError
  | .readFails =>
    -- behind the branch for `OSError`, `data` is used
    if (dir.get? (pathFor backendName)).isSome then .error .unboundLocalError else .ok none
  | .granted =>
    match dir.get? (pathFor backendName) with
    | none => .ok none
    | some content => readFile now content

/-! ## What can be loaded -/

def isNumber : Json → Bool
  | .int _ | .bool _ | .obj _ => true
  | .none | .str _ | .list _ | .dict _ => false

/-- A number, and not an integer too large for a float. -/
def isFloatable : Json → Bool
  | .int n => fitsFloat n
  | .bool _ | .obj _ => true
  | .none | .str _ | .list _ | .dict _ => false

/-- The data are of the kind that is saved: the two numbers are numbers, unless one of them counts
as not there; and there is an access token, unless it has expired. -/
structure WellTyped (d : List (String × Json)) (now : ℚ) : Prop where
  numbers : isTrue (savedAt d) = true → isTrue (expiresIn d) = true →
    isFloatable (savedAt d) = true ∧ isNumber (expiresIn d) = true
  access : d.lookup "access_token" = none →
    isTrue (savedAt d) = true ∧ isTrue (expiresIn d) = true ∧
      ∃ elapsed rest, elapsedSince now (savedAt d) = .ok elapsed ∧
        lessBuffer (expiresIn d) = .ok rest ∧ ExtRat.ble rest elapsed = true

/-- The content of a file is no JSON, or of the kind that is saved. -/
def WellFormed (now : ℚ) : FileContent → Prop
  | .malformed => True
  | .json (.dict d) => WellTyped d now
  | _ => False

theorem exists_elapsedSince_iff (now : ℚ) (v : Json) :
    (∃ elapsed, elapsedSince now v = .ok elapsed) ↔ isFloatable v = true := by
  rcases v with _ | b | n | s | l | d | x
  · simp [elapsedSince, isFloatable]
  · exact iff_of_true ⟨_, rfl⟩ rfl
  · rw [elapsedSince, isFloatable]
    split
    · rename_i h
      exact iff_of_true ⟨_, rfl⟩ h
    · rename_i h
      exact iff_of_false (by simp) h
  · simp [elapsedSince, isFloatable]
  · simp [elapsedSince, isFloatable]
  · simp [elapsedSince, isFloatable]
  · exact iff_of_true ⟨_, rfl⟩ rfl

theorem exists_lessBuffer_iff (v : Json) :
    (∃ rest, lessBuffer v = .ok rest) ↔ isNumber v = true := by
  rcases v with _ | b | n | s | l | d | x
  · simp [lessBuffer, isNumber]
  · exact iff_of_true ⟨_, rfl⟩ rfl
  · exact iff_of_true ⟨_, rfl⟩ rfl
  · simp [lessBuffer, isNumber]
  · simp [lessBuffer, isNumber]
  · simp [lessBuffer, isNumber]
  · exact iff_of_true ⟨_, rfl⟩ rfl

theorem exists_validSet_iff (d : List (String × Json)) :
    (∃ r, validSet d = .ok r) ↔ d.lookup "access_token" ≠ none := by
  rw [validSet]
  rcases d.lookup "access_token" with _ | a
  · exact iff_of_false (by simp) (by simp)
  · exact iff_of_true ⟨_, rfl⟩ (Option.some_ne_none a)

theorem exists_readData_iff (d : List (String × Json)) (now : ℚ) :
    (∃ r, readData d now = .ok r) ↔ WellTyped d now := by
  rw [readData]
  split
  · rename_i hboth
    rw [Bool.and_eq_true] at hboth
    constructor
    · rintro ⟨r, hr⟩
      obtain ⟨elapsed, helapsed, hr⟩ := bind_eq_ok_iff.mp hr
      obtain ⟨rest, hrest, hr⟩ := bind_eq_ok_iff.mp hr
      constructor
      · intro _ _
        exact ⟨(exists_elapsedSince_iff now _).mp ⟨elapsed, helapsed⟩,
          (exists_lessBuffer_iff _).mp ⟨rest, hrest⟩⟩
      · intro hnone
        refine ⟨hboth.1, hboth.2, elapsed, rest, helapsed, hrest, ?_⟩
        by_contra hfresh
        rw [if_neg hfresh] at hr
        exact (exists_validSet_iff d).mp ⟨r, hr⟩ hnone
    · intro h
      obtain ⟨hfloat, hnumber⟩ := h.numbers hboth.1 hboth.2
      obtain ⟨elapsed, helapsed⟩ := (exists_elapsedSince_iff now _).mpr hfloat
      obtain ⟨rest, hrest⟩ := (exists_lessBuffer_iff _).mpr hnumber
      rw [helapsed, hrest]
      by_cases hover : ExtRat.ble rest elapsed = true
      · exact ⟨expiredSet d, if_pos hover⟩
      · obtain ⟨r, hr⟩ := (exists_validSet_iff d).mpr fun hnone ↦ by
          obtain ⟨-, -, elapsed', rest', helapsed', hrest', hover'⟩ := h.access hnone
          rw [helapsed, Except.ok.injEq] at helapsed'
          rw [hrest, Except.ok.injEq] at hrest'
          rw [helapsed', hrest'] at hover
          exact hover hover'
        exact ⟨r, (if_neg hover).trans hr⟩
  · rename_i hboth
    rw [Bool.and_eq_true] at hboth
    rw [exists_validSet_iff]
    constructor
    · intro haccess
      exact ⟨fun h h' ↦ absurd ⟨h, h'⟩ hboth, fun hnone ↦ absurd hnone haccess⟩
    · intro h hnone
      obtain ⟨hsaved, hexpires, -⟩ := h.access hnone
      exact hboth ⟨hsaved, hexpires⟩

/-- **Of which files something can be made.** -/
theorem exists_readFile_iff (now : ℚ) (content : FileContent) :
    (∃ r, readFile now content = .ok r) ↔ WellFormed now content := by
  rcases content with _ | _ | _ | _ | data
  · simp [readFile, WellFormed]
  · exact iff_of_true ⟨none, rfl⟩ trivial
  · simp [readFile, WellFormed]
  · simp [readFile, WellFormed]
  · rcases data with _ | b | n | s | l | d | x
    · simp [readFile, WellFormed]
    · simp [readFile, WellFormed]
    · simp [readFile, WellFormed]
    · simp [readFile, WellFormed]
    · simp [readFile, WellFormed]
    · exact exists_readData_iff d now
    · simp [readFile, WellFormed]

/-- Nothing goes wrong with the file: it can be looked for and, if it is there, be read, and it is
well formed. -/
def Readable (dir : Directory) (backendName : String) (access : Access) (now : ℚ) : Prop :=
  access ≠ .statFails ∧ ∀ content, dir.get? (pathFor backendName) = some content →
    access = .granted ∧ WellFormed now content

theorem exists_load_iff (dir : Directory) (backendName : String) (access : Access) (now : ℚ) :
    (∃ r, load dir backendName access now = .ok r) ↔ Readable dir backendName access now := by
  rcases access with _ | _ | _
  · rw [load, Readable]
    rcases dir.get? (pathFor backendName) with _ | content
    · exact iff_of_true ⟨none, rfl⟩ (by simp)
    · dsimp only
      rw [exists_readFile_iff]
      simp
  · rw [load, Readable]
    exact iff_of_false (by simp) (by simp)
  · rw [load, Readable]
    rcases dir.get? (pathFor backendName) with _ | content
    · exact iff_of_true ⟨none, rfl⟩ (by simp)
    · exact iff_of_false (by simp) (by simp)

/-! ## Runs -/

inductive Op where
  | save (tokens : TokenSet) (outcome : WriteOutcome)
  | load (access : Access)
  | delete

/-- A call for a backend, with the reading of the clock. -/
structure Event where
  backendName : String
  op : Op
  time : ℚ

/-- What a call returns or raises. -/
inductive Reply where
  | saved
  | loaded (r : Except LoadError (Option LoadedSet))
  | deleted (found : Bool)

/-- One call. -/
def step (dir : Directory) (e : Event) : Directory × Reply :=
  match e.op with
  | .save tokens outcome => (save dir e.backendName tokens e.time outcome, .saved)
  | .load access => (dir, .loaded (load dir e.backendName access e.time))
  | .delete => ((delete dir e.backendName).2, .deleted (delete dir e.backendName).1)

/-- The call may write the file. -/
def Event.Writes (e : Event) : Prop :=
  match e.op with
  | .load _ => False
  | _ => True

/-- The tokens that were last saved for a backend and not deleted, and when. -/
def lastSaved (backendName : String) (events : List Event) : Option (TokenSet × ℚ) :=
  events.foldl (fun last e ↦
    if e.backendName = backendName then
      match e.op with
      | .save tokens _ => some (tokens, e.time)
      | .load _ => last
      | .delete => none
    else last) none

/-- It is more than the buffer before the tokens expire. -/
def Fresh (tokens : TokenSet) (saved now : ℚ) : Prop :=
  ExtRat.blt (.fin (now - saved)) (tokens.expiresIn - .fin 60) = true

/-- What is expected of a call behind other ones: a `load` returns; it returns what was last saved
for the backend, if that is fresh; and it returns what it would without the calls for other
backends. -/
def Lawful (dir : Directory) (before : List Event) (e : Event) (reply : Reply) : Prop :=
  ∀ access, e.op = .load access →
    (∃ r, reply = .loaded (.ok r)) ∧
    (∀ tokens saved, lastSaved e.backendName before = some (tokens, saved) →
      Fresh tokens saved e.time → reply = .loaded (.ok (some tokens.loaded))) ∧
    reply = (step (Machine.after step dir
      (before.filter fun e' ↦ e'.backendName = e.backendName)) e).2

/-- Nothing comes in between: a write is done, and a `load` meets a file that is its own and can be
made something of. -/
def Undisturbed (dir : Directory) (before : List Event) (e : Event) : Prop :=
  match e.op with
  | .save _ outcome => outcome = .written
  | .load access =>
    (∀ e' ∈ before, e'.Writes → e'.backendName ≠ e.backendName →
      pathFor e'.backendName ≠ pathFor e.backendName) ∧
    Readable dir e.backendName access e.time
  | .delete => True

theorem get?_step_of_ne {dir : Directory} {e : Event} {path : String}
    (h : e.Writes → path ≠ pathFor e.backendName) :
    (step dir e).1.get? path = dir.get? path := by
  rcases e with ⟨backendName, op, time⟩
  rcases op with ⟨tokens, outcome⟩ | access | _
  · have hne := h trivial
    rcases outcome with _ | _ | _
    · exact Dict.get?_set_of_ne _ _ hne
    · rfl
    · exact Dict.get?_set_of_ne _ _ hne
  · rfl
  · have hne := h trivial
    rw [step]
    dsimp only
    rw [delete]
    split
    · rw [Dict.get?_del, if_neg hne]
    · rfl

/-- What it does to its own file depends on that alone. -/
theorem get?_step_congr {dir dir' : Directory} {e : Event}
    (h : dir.get? (pathFor e.backendName) = dir'.get? (pathFor e.backendName)) :
    (step dir e).1.get? (pathFor e.backendName) = (step dir' e).1.get? (pathFor e.backendName) := by
  rcases e with ⟨backendName, op, time⟩
  rcases op with ⟨tokens, outcome⟩ | access | _
  · rcases outcome with _ | _ | _
    · exact (Dict.get?_set_self _ _ _).trans (Dict.get?_set_self _ _ _).symm
    · exact h
    · exact (Dict.get?_set_self _ _ _).trans (Dict.get?_set_self _ _ _).symm
  · exact h
  · rw [step, step]
    dsimp only at h ⊢
    rw [delete, delete, h]
    split
    · rw [Dict.get?_del, Dict.get?_del, if_pos rfl, if_pos rfl]
    · exact h

theorem load_congr {dir dir' : Directory} {backendName : String}
    (h : dir.get? (pathFor backendName) = dir'.get? (pathFor backendName)) (access : Access)
    (now : ℚ) : load dir backendName access now = load dir' backendName access now := by
  rcases access with _ | _ | _
  · rw [load, load, h]
  · rfl
  · rw [load, load, h]

/-- The file of a backend is not touched for another one. -/
def Apart (backendName : String) (events : List Event) : Prop :=
  ∀ e ∈ events, e.Writes → e.backendName ≠ backendName →
    pathFor e.backendName ≠ pathFor backendName

/-- Then the calls for others can be left out. -/
theorem get?_after_filter {backendName : String} {events : List Event}
    (h : Apart backendName events) {dir dir' : Directory}
    (hdir : dir.get? (pathFor backendName) = dir'.get? (pathFor backendName)) :
    (Machine.after step dir events).get? (pathFor backendName) =
      (Machine.after step dir' (events.filter fun e ↦ e.backendName = backendName)).get?
        (pathFor backendName) := by
  induction events generalizing dir dir' with
  | nil => exact hdir
  | cons e events ih =>
    obtain ⟨he, hevents⟩ := List.forall_mem_cons.mp h
    by_cases hname : e.backendName = backendName
    · subst hname
      rw [List.filter_cons, if_pos (decide_eq_true rfl)]
      exact ih hevents (get?_step_congr hdir)
    · rw [List.filter_cons, if_neg (mt of_decide_eq_true hname)]
      apply ih hevents
      rw [get?_step_of_ne fun hwrites ↦ (he hwrites hname).symm]
      exact hdir

theorem lastSaved_concat (backendName : String) (events : List Event) (e : Event) :
    lastSaved backendName (events ++ [e]) =
      if e.backendName = backendName then
        match e.op with
        | .save tokens _ => some (tokens, e.time)
        | .load _ => lastSaved backendName events
        | .delete => none
      else lastSaved backendName events := by
  rw [lastSaved, List.foldl_append]
  rfl

theorem get?_of_lastSaved {backendName : String} {events : List Event} {tokens : TokenSet}
    {saved : ℚ} (happart : Apart backendName events)
    (hwritten : ∀ e ∈ events, ∀ t o, e.op = .save t o → o = .written) (dir : Directory)
    (h : lastSaved backendName events = some (tokens, saved)) :
    (Machine.after step dir events).get? (pathFor backendName) =
      some (.json (.dict (record tokens saved))) := by
  induction events using List.reverseRecOn with
  | nil => exact absurd h (Option.some_ne_none _).symm
  | append_singleton events e ih =>
    have happart' : Apart backendName events :=
      fun e' he' ↦ happart e' (List.mem_append_left _ he')
    have hwritten' : ∀ e ∈ events, ∀ t o, e.op = .save t o → o = .written :=
      fun e' he' ↦ hwritten e' (List.mem_append_left _ he')
    have hmem : e ∈ events ++ [e] := List.mem_append_right _ List.mem_cons_self
    rw [Machine.after_concat]
    rw [lastSaved_concat] at h
    by_cases hname : e.backendName = backendName
    · subst hname
      rw [if_pos rfl] at h
      rcases e with ⟨backendName, op, time⟩
      rcases op with ⟨t, outcome⟩ | access | _
      · obtain rfl := hwritten _ hmem t outcome rfl
        obtain ⟨rfl, rfl⟩ := Prod.mk.inj (Option.some.inj h)
        exact Dict.get?_set_self _ _ _
      · exact ih happart' hwritten' h
      · exact absurd h (Option.some_ne_none _).symm
    · rw [if_neg hname] at h
      rw [get?_step_of_ne fun hwrites ↦ (happart e hmem hwrites hname).symm]
      exact ih happart' hwritten' h

theorem readFile_record {tokens : TokenSet} {saved now : ℚ} (h : Fresh tokens saved now) :
    readFile now (.json (.dict (record tokens saved))) = .ok (some tokens.loaded) := by
  have hvalid : validSet (record tokens saved) = .ok (some tokens.loaded) := rfl
  rw [readFile, readData]
  split
  · have helapsed : elapsedSince now (savedAt (record tokens saved)) = .ok (.fin (now - saved)) :=
      rfl
    have hrest : lessBuffer (TokenStore.expiresIn (record tokens saved)) =
      .ok (tokens.expiresIn - .fin 60) := rfl
    rw [helapsed, hrest]
    refine (if_neg ?_).trans hvalid
    rw [ExtRat.ble_of_blt h]
    exact Bool.false_ne_true
  · exact hvalid

/-- **The laws of the store.** In a run in which no step is disturbed, every step is lawful. -/
theorem lawful_of_undisturbed (dir : Directory) (events : List Event)
    (h : ∀ before e after, events = before ++ e :: after →
      Undisturbed (Machine.after step dir before) before e) :
    ∀ before e after, events = before ++ e :: after →
      Lawful dir before e (step (Machine.after step dir before) e).2 := by
  intro before e after hsplit access hop
  have hundisturbed := h before e after hsplit
  rcases e with ⟨backendName, op, time⟩
  obtain rfl : op = .load access := hop
  obtain ⟨happart, hreadable⟩ := hundisturbed
  have hwritten : ∀ e ∈ before, ∀ t o, e.op = .save t o → o = .written := by
    intro e he t o hsave
    obtain ⟨pre, post, rfl⟩ := List.append_of_mem he
    have hstep := h pre e (post ++ ⟨backendName, .load access, time⟩ :: after)
      (by rw [hsplit, List.append_assoc, List.cons_append])
    rw [Undisturbed, hsave] at hstep
    exact hstep
  refine ⟨?_, fun tokens saved hlast hfresh ↦ ?_, ?_⟩
  · obtain ⟨r, hr⟩ := (exists_load_iff _ _ _ _).mpr hreadable
    exact ⟨r, congrArg Reply.loaded hr⟩
  · have hfile := get?_of_lastSaved happart hwritten dir hlast
    obtain ⟨hgranted, -⟩ := hreadable.2 _ hfile
    have hload : load (Machine.after step dir before) backendName access time =
        readFile time (.json (.dict (record tokens saved))) := by
      rw [hgranted, load, hfile]
    exact congrArg Reply.loaded (hload.trans (readFile_record hfresh))
  · exact congrArg Reply.loaded (load_congr (get?_after_filter happart rfl) access time)

/-! ## One token -/

def someTokens : TokenSet where
  accessToken := "t"

def saveSome : Event := ⟨"b", .save someTokens .written, 1⟩

theorem get?_saveSome : (Machine.after step Dict.empty [saveSome]).get? (pathFor "b") =
    some (.json (.dict (record someTokens 1))) :=
  Dict.get?_set_self Dict.empty (pathFor "b") (FileContent.json (.dict (record someTokens 1)))

def savedBoth : List Event := [saveSome, ⟨"c", .save { accessToken := "u" } .written, 1⟩]

theorem pathFor_ne : pathFor "b" ≠ pathFor "c" := by decide

theorem readable_savedBoth :
    Readable (Machine.after step Dict.empty savedBoth) "b" .granted 2 := by
  have hfresh : Fresh someTokens 1 2 := by
    apply decide_eq_true
    norm_num
  have hfile : (Machine.after step Dict.empty savedBoth).get? (pathFor "b") =
      some (.json (.dict (record someTokens 1))) :=
    (Dict.get?_set_of_ne _ _ pathFor_ne).trans get?_saveSome
  apply (exists_load_iff _ _ _ _).mp
  refine ⟨some someTokens.loaded, ?_⟩
  rw [load, hfile]
  exact readFile_record hfresh

theorem lawful_of_undisturbed_savedBoth :
    Lawful Dict.empty savedBoth ⟨"b", .load .granted, 2⟩
      (step (Machine.after step Dict.empty savedBoth) ⟨"b", .load .granted, 2⟩).2 := by
  refine lawful_of_undisturbed Dict.empty (savedBoth ++ [⟨"b", .load .granted, 2⟩])
    (fun before e after hsplit ↦ ?_) savedBoth _ [] rfl
  rcases before with _ | ⟨e₁, before⟩
  · obtain rfl := (List.cons.inj hsplit).1
    exact rfl
  obtain ⟨rfl, hrest⟩ := List.cons.inj hsplit
  rcases before with _ | ⟨e₂, before⟩
  · obtain rfl := (List.cons.inj hrest).1
    exact rfl
  obtain ⟨rfl, hlast⟩ := List.cons.inj hrest
  rcases before with _ | ⟨e₃, before⟩
  · obtain rfl := (List.cons.inj hlast).1
    refine ⟨fun e' he' _ hne ↦ ?_, readable_savedBoth⟩
    rcases List.mem_cons.mp he' with rfl | he'
    · exact absurd rfl hne
    · rw [List.mem_singleton.mp he']
      exact pathFor_ne.symm
  · exact absurd (List.cons.inj hlast).2.symm (by simp)

/-- The file is there and cannot be read. -/
theorem not_forall_lawful : ¬ ∀ (dir : Directory) (before : List Event) (e : Event),
    Lawful dir before e (step (Machine.after step dir before) e).2 := by
  intro h
  obtain ⟨⟨r, hr⟩, -⟩ := h Dict.empty [saveSome] ⟨"b", .load .readFails, 2⟩ .readFails rfl
  have hload : load (Machine.after step Dict.empty [saveSome]) "b" .readFails 2 =
      .error .unboundLocalError := by
    rw [load, get?_saveSome]
    rfl
  have hraises : Reply.loaded (.error .unboundLocalError) = .loaded (.ok r) := by
    rw [← hload]
    exact hr
  exact absurd hraises (by simp)

/-! ## The provider's view -/

/-- The tokens of a record have expired. The time is only looked at if neither number is zero. -/
def Expired (tokens : TokenSet) (saved now : ℚ) : Prop :=
  saved ≠ 0 ∧ tokens.expiresIn ≠ .fin 0 ∧
    ExtRat.ble (tokens.expiresIn - .fin 60) (.fin now - .fin saved) = true

instance instDecidableExpired (tokens : TokenSet) (saved now : ℚ) :
    Decidable (Expired tokens saved now) := instDecidableAnd

theorem isTrue_number {x : ExtRat} : isTrue (.obj x) = true ↔ x ≠ .fin 0 := by
  rw [isTrue, decide_eq_true_eq]

theorem expiredSet_record (tokens : TokenSet) (saved : ℚ) :
    expiredSet (record tokens saved) =
      if tokens.refreshToken ≠ "" then
        some { tokens.loaded with accessToken := .str "", expiresIn := .int 0 }
      else none := by
  rw [expiredSet]
  by_cases hrefresh : tokens.refreshToken = ""
  · have hfalse : ¬ isTrue (getOr (record tokens saved) "refresh_token" (.str "")) = true :=
      fun htrue ↦ of_decide_eq_true htrue hrefresh
    rw [if_neg (not_not.mpr hrefresh), if_neg hfalse]
  · have htrue : isTrue (getOr (record tokens saved) "refresh_token" (.str "")) = true :=
      decide_eq_true hrefresh
    rw [if_pos hrefresh, if_pos htrue]
    rfl

theorem readFile_record_eq (tokens : TokenSet) (saved now : ℚ) :
    readFile now (.json (.dict (record tokens saved))) =
      if Expired tokens saved now then .ok (expiredSet (record tokens saved))
      else .ok (some tokens.loaded) := by
  have hdata : readFile now (.json (.dict (record tokens saved))) =
      if isTrue (.obj (.fin saved)) && isTrue (.obj tokens.expiresIn) then
        if ExtRat.ble (tokens.expiresIn - .fin 60) (.fin now - .fin saved) then
          .ok (expiredSet (record tokens saved))
        else .ok (some tokens.loaded)
      else .ok (some tokens.loaded) := rfl
  have hsaved : isTrue (.obj (.fin saved)) = true ↔ saved ≠ 0 := by
    rw [isTrue_number, ne_eq, ExtRat.fin.injEq]
  rw [hdata]
  by_cases hexpired : Expired tokens saved now
  · obtain ⟨hdate, hlifetime, hover⟩ := id hexpired
    rw [if_pos hexpired, hsaved.mpr hdate, isTrue_number.mpr hlifetime, Bool.and_true, if_pos rfl,
      if_pos hover]
  · rw [if_neg hexpired]
    split
    · rename_i hboth
      rw [Bool.and_eq_true, hsaved, isTrue_number] at hboth
      exact if_neg fun hover ↦ hexpired ⟨hboth.1, hboth.2, hover⟩
    · rfl

/-- **What the provider is told.** Of a file that was saved, `load` makes what `Saved.load` makes of
it in the model of the provider. -/
theorem readFile_record_eq_load {tokens : TokenSet} {q : ℚ} (hq : tokens.expiresIn = .fin q)
    {g : Tokens.Grant} (hg : g.toTokenSet = ⟨tokens.accessToken, tokens.refreshToken, q⟩)
    (saved now : ℚ) :
    (readFile now (.json (.dict (record tokens saved)))).map
        (Option.map fun l ↦ (l.accessToken, l.refreshToken)) =
      .ok ((Tokens.Saved.load ⟨g, saved⟩ now).map fun g ↦
        (.str g.accessToken, .str g.refreshToken)) := by
  have haccess : g.accessToken = tokens.accessToken := congrArg Tokens.TokenSet.accessToken hg
  have hrefresh : g.refreshToken = tokens.refreshToken := congrArg Tokens.TokenSet.refreshToken hg
  have hlifetime : g.expiresIn = q := congrArg Tokens.TokenSet.expiresIn hg
  have hexpired : Expired tokens saved now ↔ Tokens.Saved.Expired ⟨g, saved⟩ now := by
    rw [Expired, Tokens.Saved.Expired, hq, hlifetime, ne_eq, ne_eq, ExtRat.fin.injEq]
    exact and_congr_right fun _ ↦ and_congr_right fun _ ↦ decide_eq_true_iff
  rw [readFile_record_eq, Tokens.Saved.load]
  by_cases h : Expired tokens saved now
  · rw [if_pos h, if_pos (hexpired.mp h), expiredSet_record]
    dsimp only
    rw [hrefresh]
    split
    · rfl
    · rfl
  · rw [if_neg h, if_neg (mt hexpired.mpr h), Option.map_some]
    dsimp only
    rw [haccess, hrefresh]
    rfl

end TokenStore

end ArgusMcp
