import ArgusMcp.Library.Run
import Mathlib.Algebra.Order.Field.Rat
import Mathlib.Tactic.Linarith

/-!
# Outgoing bearer tokens

A backend that asks for OAuth gets its token from a provider (`bridge/auth/provider.py`). One kind
posts the client credentials, the other has the user log in with a browser, keeps what it got in a
file (`store.py`) and refreshes it. Both hold the token in memory (`token_cache.py`) and resolve a
missing one under an `asyncio.Lock`. `McpBearerAuth` (`httpx_auth.py`) puts the token on a request
and, if the backend answers 401, invalidates it and sends the request once more.

## Calls

A call of `get_headers` stops at every `await`, and everything else can happen meanwhile. So a call
is a stage, kept in a list in the order of arrival, and an event takes one call from an `await` to
the next one, in no time. Every event has a reading of the clock. The two clocks of the code, one
for the memory and one for the file, advance together, so they are one here. Tokens are dated from
the moment their reply is dealt with.

A restart ends all calls and forgets the memory; a write that was under way is done, cut off or
never begun. Tasks that are cancelled are left out.

## Ghost data

The state numbers the tokens that were issued, and remembers which were handed to whom and which
were rejected. No definition branches on these.
-/

namespace ArgusMcp

namespace Tokens

/-! ## Tokens, in memory and on disk -/

structure TokenSet where
  accessToken : String
  refreshToken : String
  expiresIn : ℚ
  deriving DecidableEq, Repr

/-- Tokens, with the time and the number of their issue. -/
structure Grant extends TokenSet where
  issuedAt : ℚ
  serial : ℕ
  deriving DecidableEq, Repr

/-- When the lifetime ends that was reported with the token. -/
def Grant.endOfLife (g : Grant) : ℚ := g.issuedAt + g.expiresIn

structure TokenCache where
  token : Option Grant
  expiresAt : ℚ
  expiryBuffer : ℚ
  deriving DecidableEq, Repr

namespace TokenCache

def new (expiryBuffer : ℚ) : TokenCache := ⟨none, 0, expiryBuffer⟩

variable (cache : TokenCache)

def get (now : ℚ) : Option Grant := if now < cache.expiresAt then cache.token else none

/-- Stores a token that is to be taken for expired `expiry_buffer` seconds before it is. -/
def set (g : Grant) (expiresIn now : ℚ) : TokenCache :=
  let effectiveTtl := max 0 (expiresIn - cache.expiryBuffer)
  { cache with token := some g, expiresAt := now + effectiveTtl }

def invalidate : TokenCache := { cache with token := none, expiresAt := 0 }

@[simp] theorem get_new (expiryBuffer now : ℚ) : (new expiryBuffer).get now = none := ite_self none

@[simp] theorem get_invalidate (now : ℚ) : cache.invalidate.get now = none := ite_self none

variable {cache}

theorem get_eq_some {g : Grant} {now : ℚ} :
    cache.get now = some g ↔ now < cache.expiresAt ∧ cache.token = some g := by
  rw [get]
  split
  · rename_i h
    exact (and_iff_right h).symm
  · rename_i h
    exact iff_of_false (Option.some_ne_none g).symm fun hg ↦ h hg.1

theorem get_set {g g' : Grant} {expiresIn now now' : ℚ} :
    (cache.set g expiresIn now).get now' = some g' ↔
      now' < now + max 0 (expiresIn - cache.expiryBuffer) ∧ g = g' := by
  rw [get_eq_some, set, Option.some.injEq]

end TokenCache

/-- What `TokenStore.save` writes. -/
structure Saved where
  grant : Grant
  savedAt : ℚ
  deriving DecidableEq, Repr

namespace Saved

variable (data : Saved) (now : ℚ)

/-- The test of `load`, which is made only if neither number is zero. -/
def Expired : Prop :=
  data.savedAt ≠ 0 ∧ data.grant.expiresIn ≠ 0 ∧ data.grant.expiresIn - 60 ≤ now - data.savedAt

instance : Decidable (data.Expired now) := instDecidableAnd

/-- `TokenStore.load`, after the file was read. An expired token leaves its refresh token, if it has
one. -/
def load : Option Grant :=
  if data.Expired now then
    if data.grant.refreshToken ≠ "" then
      some { data.grant with accessToken := "", expiresIn := 0 }
    else none
  else some data.grant

end Saved

inductive TokenFile where
  | missing
  | record (data : Saved)
  /-- A write that was cut off. -/
  | corrupt
  deriving DecidableEq, Repr

inductive WriteOutcome where
  | written
  | truncated
  | failed
  deriving DecidableEq, Repr

def TokenFile.write (file : TokenFile) (data : Saved) : WriteOutcome → TokenFile
  | .written => .record data
  | .truncated => .corrupt
  | .failed => file

def TokenFile.load (file : TokenFile) (now : ℚ) : Option Grant :=
  match file with
  | .record data => data.load now
  | _ => none

/-! ## The provider -/

inductive Kind where
  | oauth2
  | pkce
  deriving DecidableEq, Repr

/-- What provider and `McpBearerAuth` are constructed with. -/
structure Provider where
  kind : Kind
  expiryBuffer : ℚ
  retryOn401 : Bool
  deriving Repr

/-- Who called. -/
inductive Origin where
  /-- `async_auth_flow`, before the request is sent. -/
  | request
  /-- `async_auth_flow`, before the request of that call is sent once more. -/
  | retry (call : ℕ)
  /-- Anyone else who calls `get_headers`. -/
  | bare
  /-- `trigger_reauth`. -/
  | reauth
  deriving DecidableEq, Repr

/-- The `await` a call is at, or how it ended. -/
inductive Stage where
  | waiting
  | loading
  | fetching
  | refreshing
  | authorizing
  | saving (data : Saved)
  | returned (g : Grant)
  | raised
  deriving DecidableEq, Repr

/-- The call is in the body of `async with self._lock`. -/
def Stage.inLock : Stage → Bool
  | .loading | .fetching | .refreshing | .authorizing | .saving _ => true
  | .waiting | .returned _ | .raised => false

/-- The call waits for the authorization server to answer a request for a token. -/
def Stage.requesting : Stage → Bool
  | .fetching | .refreshing | .authorizing => true
  | _ => false

/-- What the call is writing. -/
def Stage.data : Stage → Option Saved
  | .saving data => some data
  | _ => none

structure Call where
  origin : Origin
  stage : Stage
  /-- The backend has answered the request. -/
  answered : Bool
  deriving DecidableEq, Repr

/-- A token that `get_headers` returned. -/
structure Delivery where
  call : ℕ
  grant : Grant
  time : ℚ
  deriving DecidableEq, Repr

/-- A token that was rejected and invalidated. -/
structure Rejection where
  accessToken : String
  /-- How many tokens had been issued by then. -/
  issued : ℕ
  /-- How many had been handed out. -/
  delivered : ℕ
  deriving DecidableEq, Repr

structure State where
  clock : ℚ
  cache : TokenCache
  locked : Bool
  file : TokenFile
  calls : List Call
  issued : ℕ
  /-- Newest first. -/
  deliveries : List Delivery
  rejections : List Rejection
  deriving DecidableEq, Repr

/-- What the authorization server makes of a request. -/
inductive Reply where
  | granted (tokens : TokenSet)
  /-- `OSError` or `ConnectionError`. -/
  | unreachable
  /-- Anything else that is raised. -/
  | refused
  deriving DecidableEq, Repr

inductive Action where
  /-- `get_headers`, for a request or not. -/
  | getHeaders (http : Bool)
  | triggerReauth
  /-- The lock is free, and the call that has waited longest takes it. -/
  | acquire
  /-- The file was read, or could not be. -/
  | loaded (call : ℕ) (readable : Bool)
  | replied (call : ℕ) (reply : Reply)
  | saved (call : ℕ) (outcome : WriteOutcome)
  | answered (call : ℕ) (unauthorized : Bool)
  | invalidate
  | restart (outcome : WriteOutcome)
  deriving DecidableEq, Repr

structure Event where
  time : ℚ
  action : Action
  deriving DecidableEq, Repr

namespace State

/-- A provider that has just been constructed, at that time, with no file. -/
def init (p : Provider) (clock : ℚ) : State where
  clock := clock
  cache := .new p.expiryBuffer
  locked := false
  file := .missing
  calls := []
  issued := 0
  deliveries := []
  rejections := []

variable (p : Provider) (s : State)

def setStage (i : ℕ) (stage : Stage) : State :=
  { s with calls := s.calls.modify i fun c ↦ { c with stage := stage } }

/-- The token in memory, if it counts as one: to `PKCEAuthProvider` the empty string does not. -/
def cached : Option Grant :=
  (s.cache.get s.clock).filter fun g ↦ p.kind = .oauth2 ∨ g.accessToken ≠ ""

/-- The call returns the token. What `trigger_reauth` returns is not sent to the backend. -/
def deliver (i : ℕ) (g : Grant) : State :=
  let s' := s.setStage i (.returned g)
  if (s.calls[i]?).any fun c ↦ c.origin = .reauth then s'
  else { s' with deliveries := ⟨i, g, s.clock⟩ :: s.deliveries }

/-- The token is put into memory, with its whole lifetime from now on. -/
def remember (g : Grant) : State := { s with cache := s.cache.set g g.expiresIn s.clock }

def nextGrant (tokens : TokenSet) : Grant :=
  { tokens with issuedAt := s.clock, serial := s.issued }

/-- A token is issued, and put into memory. -/
def grant (tokens : TokenSet) : State :=
  { s.remember (s.nextGrant tokens) with issued := s.issued + 1 }

/-- The call gives up the lock, to return or raise. -/
def release : State := { s with locked := false }

/-- The first `await` behind the lock. -/
def firstAwait (origin : Origin) : Stage :=
  if origin = .reauth then .authorizing
  else match p.kind with
    | .oauth2 => .fetching
    | .pkce => if s.file = .missing then .authorizing else .loading

/-- The call has the lock, and looks into the cache again. -/
def enter (i : ℕ) (origin : Origin) : State :=
  match if origin = .reauth then none else s.cached p with
  | some g => s.deliver i g
  | none => { s.setStage i (s.firstAwait p origin) with locked := true }

/-- A call comes in. -/
def push (origin : Origin) : State :=
  { s with calls := s.calls ++ [⟨origin, .waiting, false⟩] }

/-- The new call asks for the lock. -/
def lockOrWait (origin : Origin) : State :=
  if s.locked ∨ ∃ c ∈ s.calls, c.stage = .waiting then s.push origin
  else (s.push origin).enter p s.calls.length origin

def getHeaders (origin : Origin) : State :=
  match s.cached p with
  | some g => (s.push origin).deliver s.calls.length g
  | none => s.lockOrWait p origin

def invalidate : State := { s with cache := s.cache.invalidate }

def triggerReauth : State := s.invalidate.lockOrWait p .reauth

/-- The lock is handed to the call that has waited longest. -/
def acquire : Option State :=
  if s.locked then none
  else (s.calls.findIdx? fun c ↦ c.stage = .waiting).bind fun i ↦
    (s.calls[i]?).map fun c ↦ s.enter p i c.origin

/-- `_resolve_token`, with what `load` found. -/
def resolve (i : ℕ) : Option Grant → State
  | none => s.setStage i .authorizing
  | some stored =>
    if stored.accessToken ≠ "" then
      ((s.remember stored).deliver i stored).release
    else if stored.refreshToken ≠ "" then s.setStage i .refreshing
    else s.setStage i .authorizing

/-- The file was read. If it could not be, `load` raises. -/
def loaded (i : ℕ) (readable : Bool) : State :=
  if readable then s.resolve i (s.file.load s.clock) else (s.setStage i .raised).release

/-- A reply to `_fetch_token`, which has only the memory to put it into. -/
def fetched (i : ℕ) : Reply → State
  | .granted tokens => ((s.grant tokens).deliver i (s.nextGrant tokens)).release
  | _ => (s.setStage i .raised).release

/-- The token goes into the file as well, before it is returned. -/
def store (i : ℕ) (tokens : TokenSet) : State :=
  (s.grant tokens).setStage i (.saving ⟨s.nextGrant tokens, s.clock⟩)

/-- A reply to `refresh_access_token`. -/
def refreshed (i : ℕ) : Reply → State
  | .granted tokens => s.store i tokens
  | .unreachable => s.setStage i .authorizing
  | .refused => (s.setStage i .raised).release

/-- The end of `PKCEFlow.execute`. -/
def authorized (i : ℕ) : Reply → State
  | .granted tokens => s.store i tokens
  | _ => (s.setStage i .raised).release

def replied (i : ℕ) (reply : Reply) : Stage → Option State
  | .fetching => some (s.fetched i reply)
  | .refreshing => some (s.refreshed i reply)
  | .authorizing => some (s.authorized i reply)
  | _ => none

/-- The file after the write. -/
def write (data : Saved) (outcome : WriteOutcome) : State :=
  { s with file := s.file.write data outcome }

def saved (i : ℕ) (outcome : WriteOutcome) : Stage → Option State
  | .saving data => some ((s.write data outcome).deliver i data.grant).release
  | _ => none

/-- The token of a request is invalidated. -/
def rejected (g : Grant) : State :=
  { s.invalidate with
    rejections := ⟨g.accessToken, s.issued, s.deliveries.length⟩ :: s.rejections }

/-- The token of a request is invalidated, and another one is asked for. -/
def reject (i : ℕ) (g : Grant) : State := (s.rejected g).getHeaders p (.retry i)

/-- The backend has answered the request of that call. -/
def answer (i : ℕ) : State :=
  { s with calls := s.calls.modify i fun c ↦ { c with answered := true } }

/-- What `async_auth_flow` makes of the answer. A request is sent again at most once. -/
def answered (i : ℕ) (unauthorized : Bool) (c : Call) : Option State :=
  match c.stage with
  | .returned g =>
    if c.answered ∨ c.origin = .bare ∨ c.origin = .reauth then none
    else if unauthorized ∧ p.retryOn401 ∧ c.origin = .request then some ((s.answer i).reject p i g)
    else some (s.answer i)
  | _ => none

/-- A call that is under way ends with its process, and so does a request that was sent. -/
def kill (c : Call) : Call :=
  match c.stage with
  | .returned _ => { c with answered := true }
  | _ => { c with stage := .raised }

/-- The file after a write that may have been under way. -/
def fileAfter (outcome : WriteOutcome) : TokenFile :=
  match s.calls.findSome? fun c ↦ c.stage.data with
  | some data => s.file.write data outcome
  | none => s.file

def restart (outcome : WriteOutcome) : State :=
  { s with
    cache := .new p.expiryBuffer
    locked := false
    file := s.fileAfter outcome
    calls := s.calls.map kill }

def act : Action → Option State
  | .getHeaders http => some (s.getHeaders p (if http then .request else .bare))
  | .triggerReauth => if p.kind = .pkce then some (s.triggerReauth p) else none
  | .acquire => s.acquire p
  | .loaded i readable =>
    (s.calls[i]?).bind fun c ↦ if c.stage = .loading then some (s.loaded i readable) else none
  | .replied i reply => (s.calls[i]?).bind fun c ↦ s.replied i reply c.stage
  | .saved i outcome => (s.calls[i]?).bind fun c ↦ s.saved i outcome c.stage
  | .answered i unauthorized => (s.calls[i]?).bind fun c ↦ s.answered p i unauthorized c
  | .invalidate => some s.invalidate
  | .restart outcome => some (s.restart p outcome)

end State

/-- One event. The clock does not go back. -/
def step (p : Provider) (s : State) (e : Event) : Option State :=
  if e.time < s.clock then none else { s with clock := e.time }.act p e.action

theorem step_eq_some {p : Provider} {s m : State} {e : Event} :
    step p s e = some m ↔
      s.clock ≤ e.time ∧ State.act p { s with clock := e.time } e.action = some m := by
  rw [step]
  split
  · rename_i h
    exact iff_of_false (Option.some_ne_none m).symm fun hm ↦ absurd h hm.1.not_gt
  · rename_i h
    exact (and_iff_right (le_of_not_gt h)).symm

/-! ## What an operation leaves alone

Most operations hand out a token from memory at most, and change nothing else of where tokens are
kept. -/

/-- The call neither writes a token nor reads one for `trigger_reauth`. -/
def Call.Quiet (c : Call) : Prop := c.stage.data = none ∧ (c.stage = .loading → c.origin ≠ .reauth)

/-- At most a token from memory was handed out. -/
structure Served (p : Provider) (s s' : State) : Prop where
  clock : s'.clock = s.clock
  cache : s'.cache = s.cache
  file : s'.file = s.file
  issued : s'.issued = s.issued
  rejections : s'.rejections = s.rejections
  deliveries : s'.deliveries = s.deliveries ∨
    ∃ i g, s.cached p = some g ∧ s'.deliveries = ⟨i, g, s.clock⟩ :: s.deliveries
  calls : ∀ c ∈ s'.calls, c ∈ s.calls ∨ c.Quiet

namespace State

variable {p : Provider} {s : State} {i : ℕ} {g : Grant}

theorem mem_modify {f : Call → Call} {c : Call} (h : c ∈ s.calls.modify i f) :
    c ∈ s.calls ∨ ∃ c₀, s.calls[i]? = some c₀ ∧ c = f c₀ := by
  obtain ⟨j, hj⟩ := List.mem_iff_getElem?.mp h
  rw [List.getElem?_modify] at hj
  obtain ⟨c₀, hc₀, rfl⟩ := Option.map_eq_some_iff.mp hj
  split
  · rename_i hij
    exact Or.inr ⟨c₀, hij ▸ hc₀, rfl⟩
  · exact Or.inl (List.mem_of_getElem? hc₀)

theorem forall_mem_setStage {Φ : Call → Prop} {stage : Stage} (h : ∀ c ∈ s.calls, Φ c)
    (hi : ∀ c, s.calls[i]? = some c → Φ { c with stage := stage }) :
    ∀ c ∈ (s.setStage i stage).calls, Φ c := by
  intro c hc
  rcases mem_modify hc with hc | ⟨c₀, hc₀, rfl⟩
  · exact h c hc
  · exact hi c₀ hc₀

@[simp] theorem calls_deliver : (s.deliver i g).calls = (s.setStage i (.returned g)).calls := by
  rw [deliver]
  split <;> rfl

@[simp] theorem clock_deliver : (s.deliver i g).clock = s.clock := by
  rw [deliver]
  split <;> rfl

@[simp] theorem cache_deliver : (s.deliver i g).cache = s.cache := by
  rw [deliver]
  split <;> rfl

@[simp] theorem file_deliver : (s.deliver i g).file = s.file := by
  rw [deliver]
  split <;> rfl

@[simp] theorem issued_deliver : (s.deliver i g).issued = s.issued := by
  rw [deliver]
  split <;> rfl

@[simp] theorem rejections_deliver : (s.deliver i g).rejections = s.rejections := by
  rw [deliver]
  split <;> rfl

@[simp] theorem locked_deliver : (s.deliver i g).locked = s.locked := by
  rw [deliver]
  split <;> rfl

theorem deliveries_deliver {c : Call} (hc : s.calls[i]? = some c) :
    (s.deliver i g).deliveries =
      if c.origin = .reauth then s.deliveries else ⟨i, g, s.clock⟩ :: s.deliveries := by
  rw [deliver, hc, Option.any_some]
  split
  · rename_i h
    rw [if_pos (of_decide_eq_true h)]
    rfl
  · rename_i h
    rw [if_neg fun ho ↦ h (decide_eq_true ho)]

theorem mem_deliveries_deliver {d : Delivery} (h : d ∈ (s.deliver i g).deliveries) :
    d = ⟨i, g, s.clock⟩ ∨ d ∈ s.deliveries := by
  rw [deliver] at h
  split at h
  · exact Or.inr h
  · exact List.mem_cons.mp h

theorem served_setStage {stage : Stage} (hdata : stage.data = none) (hload : stage ≠ .loading) :
    Served p s (s.setStage i stage) where
  clock := rfl
  cache := rfl
  file := rfl
  issued := rfl
  rejections := rfl
  deliveries := Or.inl rfl
  calls := by
    apply forall_mem_setStage fun c hc ↦ Or.inl hc
    intro c _
    exact Or.inr ⟨hdata, fun h ↦ absurd h hload⟩

theorem served_deliver (hg : s.cached p = some g) : Served p s (s.deliver i g) where
  clock := clock_deliver
  cache := cache_deliver
  file := file_deliver
  issued := issued_deliver
  rejections := rejections_deliver
  deliveries := by
    rw [deliver]
    split
    · exact Or.inl rfl
    · exact Or.inr ⟨i, g, hg, rfl⟩
  calls := by
    rw [calls_deliver]
    exact (served_setStage (p := p) rfl (by simp)).calls

theorem served_push (origin : Origin) : Served p s (s.push origin) where
  clock := rfl
  cache := rfl
  file := rfl
  issued := rfl
  rejections := rfl
  deliveries := Or.inl rfl
  calls := by
    intro c hc
    rcases List.mem_append.mp hc with hc | hc
    · exact Or.inl hc
    · rw [List.mem_singleton.mp hc]
      exact Or.inr ⟨rfl, by simp⟩

theorem cached_congr {s' : State} (hclock : s'.clock = s.clock) (hcache : s'.cache = s.cache) :
    s'.cached p = s.cached p := by
  rw [cached, cached, hclock, hcache]

theorem served_trans {s' s'' : State} (h : Served p s s')
    (hd : s'.deliveries = s.deliveries) (h' : Served p s' s'') : Served p s s'' where
  clock := h'.clock.trans h.clock
  cache := h'.cache.trans h.cache
  file := h'.file.trans h.file
  issued := h'.issued.trans h.issued
  rejections := h'.rejections.trans h.rejections
  deliveries := by
    rw [← hd, ← h.clock, ← cached_congr h.clock h.cache]
    exact h'.deliveries
  calls := by
    intro c hc
    rcases h'.calls c hc with hc | hc
    · exact h.calls c hc
    · exact Or.inr hc

theorem firstAwait_data (origin : Origin) : (s.firstAwait p origin).data = none := by
  unfold firstAwait
  split
  · rfl
  · split
    · rfl
    · split <;> rfl

theorem firstAwait_reauth : s.firstAwait p .reauth = .authorizing := if_pos rfl

theorem served_enter {c : Call} (hc : s.calls[i]? = some c) :
    Served p s (s.enter p i c.origin) := by
  rw [enter]
  split
  · rename_i g hg
    split at hg
    · exact absurd hg (Option.some_ne_none g).symm
    · exact served_deliver hg
  · refine ⟨rfl, rfl, rfl, rfl, rfl, Or.inl rfl, ?_⟩
    apply forall_mem_setStage fun c hc ↦ Or.inl hc
    intro c₀ hc₀
    obtain rfl : c = c₀ := Option.some.inj (hc.symm.trans hc₀)
    refine Or.inr ⟨firstAwait_data _, fun h ho ↦ ?_⟩
    rw [ho, firstAwait_reauth] at h
    exact Stage.noConfusion h

theorem getElem?_push (origin : Origin) :
    (s.push origin).calls[s.calls.length]? = some ⟨origin, .waiting, false⟩ :=
  List.getElem?_concat_length

theorem served_lockOrWait (origin : Origin) : Served p s (s.lockOrWait p origin) := by
  rw [lockOrWait]
  split
  · exact served_push origin
  · exact served_trans (served_push origin) rfl (served_enter (getElem?_push origin))

theorem served_getHeaders (origin : Origin) : Served p s (s.getHeaders p origin) := by
  rw [getHeaders]
  split
  · rename_i g hg
    exact served_trans (served_push origin) rfl (served_deliver hg)
  · exact served_lockOrWait origin

theorem served_acquire {s' : State} (h : s.acquire p = some s') : Served p s s' := by
  rw [acquire] at h
  split at h
  · exact absurd h (Option.some_ne_none s').symm
  · obtain ⟨i, -, h⟩ := Option.bind_eq_some_iff.mp h
    obtain ⟨c, hc, rfl⟩ := Option.map_eq_some_iff.mp h
    exact served_enter hc

theorem served_raised : Served p s (s.setStage i .raised).release :=
  have h : Served p s (s.setStage i .raised) := served_setStage rfl Stage.noConfusion
  ⟨h.clock, h.cache, h.file, h.issued, h.rejections, h.deliveries, h.calls⟩

/-! ## What each operation does

One lemma for each of the others: what it does besides handing out a token from memory. -/

/-- A token that `load` takes for valid, and `_resolve_token` for a token. -/
def Usable (s : State) (data : Saved) : Prop :=
  s.file = .record data ∧ ¬ data.Expired s.clock ∧ data.grant.accessToken ≠ ""

theorem served_resolve {stored : Option Grant}
    (h : ∀ g, stored = some g → g.accessToken = "") : Served p s (s.resolve i stored) := by
  cases stored with
  | none => exact served_setStage rfl Stage.noConfusion
  | some g =>
    rw [resolve, if_neg (not_not_intro (h g rfl))]
    split
    · exact served_setStage rfl Stage.noConfusion
    · exact served_setStage rfl Stage.noConfusion

theorem loaded_cases (p : Provider) (s : State) (i : ℕ) (readable : Bool) :
    (∃ data, readable = true ∧ s.Usable data ∧ s.loaded i readable =
      ((s.remember data.grant).deliver i data.grant).release) ∨
    ((readable = true → ∀ data, ¬ s.Usable data) ∧ Served p s (s.loaded i readable)) := by
  cases readable with
  | false => exact Or.inr ⟨fun h ↦ Bool.noConfusion h, served_raised⟩
  | true =>
    rw [loaded, if_pos rfl]
    -- only a record that counts as valid is returned
    by_cases h : ∃ data, s.Usable data
    · obtain ⟨data, hfile, hexp, hne⟩ := h
      have hload : s.file.load s.clock = some data.grant := by
        rw [hfile, TokenFile.load, Saved.load, if_neg hexp]
      refine Or.inl ⟨data, rfl, ⟨hfile, hexp, hne⟩, ?_⟩
      rw [hload, resolve, if_pos hne]
    · rw [not_exists] at h
      refine Or.inr ⟨fun _ ↦ h, served_resolve fun g hg ↦ ?_⟩
      rcases hfile : s.file with _ | data | _
      · rw [hfile] at hg
        exact absurd hg (Option.some_ne_none g).symm
      · rw [hfile, TokenFile.load, Saved.load] at hg
        split at hg
        · split at hg
          · exact Option.some.inj hg ▸ rfl
          · exact absurd hg (Option.some_ne_none g).symm
        · rename_i hexp
          by_contra hne
          exact h data ⟨hfile, hexp, Option.some.inj hg ▸ hne⟩
      · rw [hfile] at hg
        exact absurd hg (Option.some_ne_none g).symm

theorem replied_cases {reply : Reply} {stage : Stage} {s' : State}
    (h : s.replied i reply stage = some s') :
    (∃ tokens, reply = .granted tokens ∧
      (s' = ((s.grant tokens).deliver i (s.nextGrant tokens)).release ∨
        s' = s.store i tokens)) ∨ Served p s s' := by
  cases stage with
  | fetching =>
    obtain rfl := Option.some.inj h
    cases reply with
    | granted tokens => exact Or.inl ⟨tokens, rfl, Or.inl rfl⟩
    | unreachable => exact Or.inr served_raised
    | refused => exact Or.inr served_raised
  | refreshing =>
    obtain rfl := Option.some.inj h
    cases reply with
    | granted tokens => exact Or.inl ⟨tokens, rfl, Or.inr rfl⟩
    | unreachable => exact Or.inr (served_setStage rfl Stage.noConfusion)
    | refused => exact Or.inr served_raised
  | authorizing =>
    obtain rfl := Option.some.inj h
    cases reply with
    | granted tokens => exact Or.inl ⟨tokens, rfl, Or.inr rfl⟩
    | unreachable => exact Or.inr served_raised
    | refused => exact Or.inr served_raised
  | _ => exact absurd h (Option.some_ne_none s').symm

theorem saved_eq_some {outcome : WriteOutcome} {stage : Stage} {s' : State} :
    s.saved i outcome stage = some s' ↔ ∃ data, stage = .saving data ∧
      s' = ((s.write data outcome).deliver i data.grant).release := by
  cases stage with
  | saving data =>
    rw [saved, Option.some.injEq]
    constructor
    · rintro rfl
      exact ⟨data, rfl, rfl⟩
    · rintro ⟨data', hdata, rfl⟩
      rw [Stage.saving.injEq] at hdata
      rw [hdata]
  | _ =>
    refine iff_of_false (Option.some_ne_none s').symm ?_
    rintro ⟨data, hdata, -⟩
    exact Stage.noConfusion hdata

theorem served_answer {c : Call} (hc : s.calls[i]? = some c) (hg : c.stage = .returned g) :
    Served p s (s.answer i) where
  clock := rfl
  cache := rfl
  file := rfl
  issued := rfl
  rejections := rfl
  deliveries := Or.inl rfl
  calls := by
    intro c' hc'
    rcases mem_modify hc' with hc' | ⟨c₀, hc₀, rfl⟩
    · exact Or.inl hc'
    · obtain rfl : c = c₀ := Option.some.inj (hc.symm.trans hc₀)
      refine Or.inr ⟨?_, fun hl ↦ ?_⟩
      · exact (congrArg Stage.data hg).trans rfl
      · exact Stage.noConfusion (hl.symm.trans hg)

theorem fileAfter_eq (s : State) (outcome : WriteOutcome) : s.fileAfter outcome = s.file ∨
    ∃ c ∈ s.calls, ∃ data, c.stage = .saving data ∧
      s.fileAfter outcome = (s.write data outcome).file := by
  rw [State.fileAfter]
  split
  · rename_i data hfind
    obtain ⟨c, hc, hdata⟩ := List.exists_of_findSome?_eq_some hfind
    refine Or.inr ⟨c, hc, data, ?_, rfl⟩
    cases hstage : c.stage with
    | saving d =>
      rw [hstage] at hdata
      exact congrArg Stage.saving (Option.some.inj hdata)
    | _ =>
      rw [hstage] at hdata
      exact absurd hdata (Option.some_ne_none data).symm
  · exact Or.inl rfl

theorem answered_cases {unauthorized : Bool} {c : Call} {s' : State}
    (hc : s.calls[i]? = some c) (h : s.answered p i unauthorized c = some s') :
    Served p s s' ∨ ∃ g, c.stage = .returned g ∧ c.origin = .request ∧ c.answered = false ∧
      unauthorized = true ∧ p.retryOn401 = true ∧ s' = (s.answer i).reject p i g := by
  rw [answered] at h
  split at h
  · rename_i g hg
    split at h
    · exact absurd h (Option.some_ne_none s').symm
    · rename_i hopen
      rw [not_or, Bool.not_eq_true] at hopen
      split at h
      · rename_i hretry
        obtain ⟨hun, hp, ho⟩ := hretry
        exact Or.inr ⟨g, hg, ho, hopen.1, hun, hp, (Option.some.inj h).symm⟩
      · obtain rfl := Option.some.inj h
        exact Or.inl (served_answer hc hg)
  · exact absurd h (Option.some_ne_none s').symm

end State

/-! ## Providers without a file

`OAuth2Provider` has no `trigger_reauth`, so its calls wait for the lock or for the one request there
is, and never write. -/

/-- The call is one of a provider that keeps no file. -/
def Call.InMemory (c : Call) : Prop :=
  c.origin ≠ .reauth ∧
    (c.stage = .waiting ∨ c.stage = .fetching ∨ c.stage = .raised ∨ ∃ g, c.stage = .returned g)

structure InMemory (s : State) : Prop where
  file : s.file = .missing
  calls : ∀ c ∈ s.calls, c.InMemory

namespace InMemory

variable {p : Provider} {s : State}

theorem init (p : Provider) (t : ℚ) : InMemory (.init p t) :=
  ⟨rfl, fun _ hc ↦ absurd hc List.not_mem_nil⟩

theorem setStage (h : InMemory s) (i : ℕ) {stage : Stage}
    (hstage : stage = .waiting ∨ stage = .fetching ∨ stage = .raised ∨
      ∃ g, stage = .returned g) : InMemory (s.setStage i stage) where
  file := h.file
  calls := by
    apply State.forall_mem_setStage h.calls
    intro c hc
    exact ⟨(h.calls c (List.mem_of_getElem? hc)).1, hstage⟩

theorem deliver (h : InMemory s) (i : ℕ) (g : Grant) : InMemory (s.deliver i g) where
  file := State.file_deliver.trans h.file
  calls := by
    rw [State.calls_deliver]
    exact (h.setStage i (Or.inr (Or.inr (Or.inr ⟨g, rfl⟩)))).calls

theorem push (h : InMemory s) {origin : Origin} (ho : origin ≠ .reauth) :
    InMemory (s.push origin) where
  file := h.file
  calls := by
    apply List.forall_mem_append.mpr ⟨h.calls, ?_⟩
    exact List.forall_mem_singleton.mpr ⟨ho, Or.inl rfl⟩

theorem firstAwait (hp : p.kind = .oauth2) {origin : Origin} (ho : origin ≠ .reauth) :
    s.firstAwait p origin = .fetching := by
  rw [State.firstAwait, if_neg ho, hp]

theorem enter (h : InMemory s) (hp : p.kind = .oauth2) (i : ℕ) {origin : Origin}
    (ho : origin ≠ .reauth) : InMemory (s.enter p i origin) := by
  rw [State.enter]
  split
  · exact h.deliver i _
  · rw [firstAwait hp ho]
    have hfetch : InMemory (s.setStage i .fetching) := h.setStage i (Or.inr (Or.inl rfl))
    exact ⟨hfetch.file, hfetch.calls⟩

theorem getHeaders (h : InMemory s) (hp : p.kind = .oauth2) {origin : Origin}
    (ho : origin ≠ .reauth) : InMemory (s.getHeaders p origin) := by
  rw [State.getHeaders]
  split
  · exact (h.push ho).deliver _ _
  · rw [State.lockOrWait]
    split
    · exact h.push ho
    · exact (h.push ho).enter hp _ ho

theorem acquire (h : InMemory s) (hp : p.kind = .oauth2) {m : State}
    (hm : s.acquire p = some m) : InMemory m := by
  rw [State.acquire] at hm
  split at hm
  · exact absurd hm (Option.some_ne_none m).symm
  · obtain ⟨i, -, hm⟩ := Option.bind_eq_some_iff.mp hm
    obtain ⟨c, hc, rfl⟩ := Option.map_eq_some_iff.mp hm
    exact h.enter hp i (h.calls c (List.mem_of_getElem? hc)).1

theorem answer (h : InMemory s) (i : ℕ) : InMemory (s.answer i) where
  file := h.file
  calls := by
    intro c hc
    rcases State.mem_modify hc with hc | ⟨c₀, hc₀, rfl⟩
    · exact h.calls c hc
    · exact h.calls c₀ (List.mem_of_getElem? hc₀)

theorem stage_eq (h : InMemory s) {i : ℕ} {c : Call} (hc : s.calls[i]? = some c)
    (hl : c.stage.inLock = true) : c.stage = .fetching := by
  rcases (h.calls c (List.mem_of_getElem? hc)).2 with hs | hs | hs | ⟨g, hs⟩
  · rw [hs] at hl
    exact Bool.noConfusion hl
  · exact hs
  · rw [hs] at hl
    exact Bool.noConfusion hl
  · rw [hs] at hl
    exact Bool.noConfusion hl

theorem restart (h : InMemory s) (outcome : WriteOutcome) : InMemory (s.restart p outcome) where
  file := by
    rcases s.fileAfter_eq outcome with hfile | ⟨c, hc, data, hsaving, -⟩
    · exact hfile.trans h.file
    · obtain ⟨i, hi⟩ := List.mem_iff_getElem?.mp hc
      have := h.stage_eq hi (by rw [hsaving]; rfl)
      exact Stage.noConfusion (hsaving.symm.trans this)
  calls := by
    intro c hc
    obtain ⟨c₀, hc₀, rfl⟩ := List.mem_map.mp hc
    rw [State.kill]
    split
    · rename_i g hg
      exact ⟨(h.calls c₀ hc₀).1, Or.inr (Or.inr (Or.inr ⟨g, hg⟩))⟩
    · exact ⟨(h.calls c₀ hc₀).1, Or.inr (Or.inr (Or.inl rfl))⟩

theorem act (h : InMemory s) (hp : p.kind = .oauth2) {a : Action} {m : State}
    (hm : State.act p s a = some m) : InMemory m := by
  cases a with
  | getHeaders http =>
    obtain rfl := Option.some.inj hm
    exact h.getHeaders hp (by cases http <;> exact Origin.noConfusion)
  | triggerReauth =>
    rw [State.act, hp, if_neg Kind.noConfusion] at hm
    exact absurd hm (Option.some_ne_none m).symm
  | acquire => exact h.acquire hp hm
  | loaded i readable =>
    obtain ⟨c, hc, hm⟩ := Option.bind_eq_some_iff.mp hm
    rw [Option.ite_none_right_eq_some] at hm
    have := h.stage_eq hc (by rw [hm.1]; rfl)
    exact Stage.noConfusion (hm.1.symm.trans this)
  | replied i reply =>
    obtain ⟨c, hc, hm⟩ := Option.bind_eq_some_iff.mp hm
    rcases (h.calls c (List.mem_of_getElem? hc)).2 with hs | hs | hs | ⟨g, hs⟩
    · rw [hs] at hm
      exact absurd hm (Option.some_ne_none m).symm
    · rw [hs] at hm
      obtain rfl := Option.some.inj hm
      have hraise : InMemory (s.setStage i .raised) :=
        h.setStage i (Or.inr (Or.inr (Or.inl rfl)))
      cases reply with
      | granted tokens =>
        have hgrant : InMemory (s.grant tokens) := ⟨h.file, h.calls⟩
        have := hgrant.deliver i (s.nextGrant tokens)
        exact ⟨this.file, this.calls⟩
      | unreachable | refused => exact ⟨hraise.file, hraise.calls⟩
    · rw [hs] at hm
      exact absurd hm (Option.some_ne_none m).symm
    · rw [hs] at hm
      exact absurd hm (Option.some_ne_none m).symm
  | saved i outcome =>
    obtain ⟨c, hc, hm⟩ := Option.bind_eq_some_iff.mp hm
    obtain ⟨data, hsaving, -⟩ := State.saved_eq_some.mp hm
    have := h.stage_eq hc (by rw [hsaving]; rfl)
    exact Stage.noConfusion (hsaving.symm.trans this)
  | answered i unauthorized =>
    obtain ⟨c, hc, hm⟩ := Option.bind_eq_some_iff.mp hm
    rw [State.answered] at hm
    split at hm
    · rename_i g _
      split at hm
      · exact absurd hm (Option.some_ne_none m).symm
      · split at hm
        · obtain rfl := Option.some.inj hm
          have hanswer := h.answer i
          have hrej : InMemory ((s.answer i).rejected g) := ⟨hanswer.file, hanswer.calls⟩
          exact hrej.getHeaders hp Origin.noConfusion
        · obtain rfl := Option.some.inj hm
          exact h.answer i
    · exact absurd hm (Option.some_ne_none m).symm
  | invalidate =>
    obtain rfl := Option.some.inj hm
    exact ⟨h.file, h.calls⟩
  | restart outcome =>
    obtain rfl := Option.some.inj hm
    exact h.restart outcome

theorem step (h : InMemory s) (hp : p.kind = .oauth2) {e : Event} {m : State}
    (hm : Tokens.step p s e = some m) : InMemory m :=
  act (s := { s with clock := e.time }) ⟨h.file, h.calls⟩ hp (step_eq_some.mp hm).2

end InMemory

end Tokens

end ArgusMcp
