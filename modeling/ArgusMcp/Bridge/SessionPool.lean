import ArgusMcp.Bridge.CircuitBreaker
import ArgusMcp.Library.Dict
import ArgusMcp.Library.Run
import Mathlib.Data.List.MinMax

/-!
# The pool of sessions

`SessionPool` (`bridge/session_pool.py`) keeps sessions with backends for reuse, under keys. A
client acquires an idle session, or makes one and adds it; a session comes back by `release`, and is
closed then if it failed. A background task, the reaper, closes idle sessions that are too old.

What is under the lock of the pool has no suspension point in it, and so the lock is never waited
for: an operation runs in one piece up to the first stack it closes. After that it is suspended once
for each stack, and anything may happen in between. The state has therefore, besides what the object
has, the entries that operations have taken out of the pool and are still about to close.

## Who has an entry

An entry is in the pool, or with an operation that is about to close it, or closed. While a client
has it, it is marked as in use, and neither `add` nor the reaper takes an entry so marked; so with
these operations alone it stays in the pool, and with this one client
(`exclusive_of_run`). `remove_all` and `stop` take everything.

Lists of entries are searched with `==`, which for a data class compares the fields. An entry has a
stack of its own, and so this is the same as identity (`Inv.remove`).
-/

namespace ArgusMcp

namespace SessionPool

open Breaker

/-! ## The pool -/

structure SessionKey where
  url : String
  identityHash : String
  transportType : String
  deriving DecidableEq, Repr

/-- A single pooled session with creation metadata. Objects are numbers. -/
structure PoolEntry (T : Type*) where
  session : ℕ
  stack : ℕ
  createdAt : T
  lastUsed : T
  inUse : Bool
  deriving DecidableEq

/-- The parameters of a pool, as its constructor leaves them. -/
structure Settings (T : Type*) where
  perKeyMax : ℕ
  ttl : T
  cbThreshold : ℕ
  /-- How long a breaker stays open. -/
  cooldown : WithTop T

/-- The background task. -/
inductive Reaper where
  | sleeping
  /-- It has taken entries out of the pool, closes one, and is to close the others. -/
  | closing (rest : List ℕ)
  | finished
  deriving DecidableEq, Repr

/-- Whether `stop` or some other operation is about to close entries. -/
inductive Caller where
  | request
  | stop
  deriving DecidableEq, Repr

/-- An operation that closes an entry, and is to close others. -/
structure Closing where
  caller : Caller
  rest : List ℕ
  deriving DecidableEq, Repr

/-- An entry that a client has acquired and not released. -/
structure Holding where
  client : ℕ
  key : SessionKey
  entry : ℕ
  deriving DecidableEq, Repr

structure Pool (T : Type*) where
  /-- Every entry that was ever added, with the key it was added under. An entry object is named by
  its place here. -/
  added : List (SessionKey × PoolEntry T)
  pool : Dict SessionKey (List ℕ)
  circuitBreakers : Dict SessionKey (CircuitBreaker T)
  reaperTask : Option Reaper
  isClosed : Bool
  closings : List Closing
  /-- How many calls of `stop` wait for the reaper to end. -/
  stopping : ℕ
  held : List Holding
  /-- Ghost: the entries whose stacks have been closed. -/
  closed : List ℕ
  /-- Ghost: a call of `stop` has returned, and the pool was not started since. -/
  stopped : Bool

namespace Pool

variable {T : Type*}

def init : Pool T where
  added := []
  pool := Dict.empty
  circuitBreakers := Dict.empty
  reaperTask := none
  isClosed := false
  closings := []
  stopping := 0
  held := []
  closed := []
  stopped := false

section Reading

variable (s : Pool T)

def entriesOf (key : SessionKey) : List ℕ := (s.pool.get? key).getD []

def entryAt (i : ℕ) : Option (PoolEntry T) := s.added[i]?.map Prod.snd

def keyOf (i : ℕ) : Option SessionKey := s.added[i]?.map Prod.fst

def inUse (i : ℕ) : Bool := ((s.entryAt i).map PoolEntry.inUse).getD false

/-- The entries that operations are still about to close. -/
def transit : List ℕ :=
  (match s.reaperTask with
    | some (.closing rest) => rest
    | _ => []) ++ s.closings.flatMap Closing.rest

end Reading

section Operations

variable [DecidableEq T] (s : Pool T)

/-- The same object, or one with the same fields. -/
def same (i j : ℕ) : Bool := decide (i = j) || decide (s.entryAt i = s.entryAt j)

def remove (entries : List ℕ) (i : ℕ) : List ℕ := entries.eraseP fun j ↦ s.same j i

/-- Changes an entry object. -/
def modify (i : ℕ) (f : PoolEntry T → PoolEntry T) : Pool T :=
  { s with added := s.added.modify i fun e ↦ (e.1, f e.2) }

/-- A new entry object is put under a key, where some of the entries have been left. -/
def place (key : SessionKey) (kept : List ℕ) (e : PoolEntry T) : Pool T :=
  { s with
    added := s.added ++ [(key, e)]
    pool := s.pool.set key (kept ++ [s.added.length]) }

/-- An operation goes on to close the entries, one after the other: the first at once, and it is
suspended then. With none left it returns. -/
def startClosing (caller : Caller) : List ℕ → Pool T
  | [] => if caller = .stop then { s with stopped := true } else s
  | i :: rest =>
    { s with closed := s.closed ++ [i], closings := s.closings ++ [⟨caller, rest⟩] }

/-- The reaper goes on to close entries. With none left it sleeps again, or ends. -/
def reaperCloses : List ℕ → Pool T
  | [] => { s with reaperTask := some (if s.isClosed then .finished else .sleeping) }
  | i :: rest => { s with closed := s.closed ++ [i], reaperTask := some (.closing rest) }

end Operations

section Methods

variable [AddCommGroup T] [LinearOrder T] (cfg : Settings T) (s : Pool T)

/-- `_get_circuit_breaker`, without the new breaker being stored. -/
def getCircuitBreaker (key : SessionKey) : CircuitBreaker T :=
  (s.circuitBreakers.get? key).getD (.new cfg.cbThreshold cfg.cooldown)

/-- The first entry under the key that is idle and young enough. -/
def candidate (key : SessionKey) (now : T) : Option ℕ :=
  (s.entriesOf key).find? fun i ↦
    match s.entryAt i with
    | some e => !e.inUse && decide (now - e.createdAt < cfg.ttl)
    | none => false

/-- What `acquire` returns. -/
def acquired (key : SessionKey) (now : T) : Option ℕ :=
  if s.isClosed then none
  else if ((s.getCircuitBreaker cfg key).observe now).allowsRequest then s.candidate cfg key now
  else none

def acquire (client : ℕ) (key : SessionKey) (now : T) : Pool T :=
  if s.isClosed then s
  else
    let cb := (s.getCircuitBreaker cfg key).observe now
    -- asking the breaker may let it go half-open, also when the pool has no entry
    let asked := { s with circuitBreakers := s.circuitBreakers.set key cb }
    match s.acquired cfg key now with
    | none => asked
    | some i =>
      { asked.modify i (fun e ↦ { e with inUse := true, lastUsed := now }) with
        held := asked.held ++ [⟨client, key, i⟩] }

/-- `release`, by a client that has the entry. -/
def release (h : Holding) (failed : Bool) (now : T) : Option (Pool T) :=
  if h ∈ s.held then
    let cb := s.getCircuitBreaker cfg h.key
    let s := { s with held := s.held.erase h }
    if failed then
      let s := { s with circuitBreakers := s.circuitBreakers.set h.key (cb.recordFailure now) }
      let entries := s.entriesOf h.key
      let s := if entries.any fun j ↦ s.same j h.entry then
          { s with pool := s.pool.set h.key (s.remove entries h.entry) }
        else s
      -- it is closed also if it is not under its key any more
      some (s.startClosing .request [h.entry])
    else
      let s := { s with circuitBreakers := s.circuitBreakers.set h.key (cb.recordSuccess now) }
      some (s.modify h.entry fun e ↦ { e with inUse := false, lastUsed := now })
  else none

/-- The idle entry that was last used the longest time ago. -/
def oldestIdle (entries : List ℕ) : Option ℕ :=
  (entries.filter fun i ↦ !s.inUse i).argmin fun i ↦ ((s.entryAt i).map PoolEntry.lastUsed).getD 0

/-- The loop of `add`. Every round takes one entry out, and so there are no more rounds than
entries. -/
def evictLoop : ℕ → List ℕ → List ℕ → List ℕ × List ℕ
  | 0, entries, evicted => (entries, evicted)
  | fuel + 1, entries, evicted =>
    if cfg.perKeyMax ≤ entries.length then
      match s.oldestIdle entries with
      | none => (entries, evicted)
      | some i => evictLoop fuel (s.remove entries i) (evicted ++ [i])
    else (entries, evicted)

/-- The entries that stay under the key when one is added, and those that are evicted. -/
def evict (key : SessionKey) : List ℕ × List ℕ :=
  s.evictLoop cfg (s.entriesOf key).length (s.entriesOf key) []

/-- `add`, of a session that is new and has a stack of its own. -/
def add (key : SessionKey) (now : T) : Pool T :=
  let i := s.added.length
  let (kept, evicted) := s.evict cfg key
  (s.place key kept ⟨i, i, now, now, false⟩).startClosing .request evicted

def removeAll (key : SessionKey) : Pool T :=
  { s with pool := s.pool.del key }.startClosing .request (s.entriesOf key)

def expired (now : T) (entries : List ℕ) : List ℕ :=
  entries.filter fun i ↦
    match s.entryAt i with
    | some e => !e.inUse && decide (cfg.ttl ≤ now - e.createdAt)
    | none => false

/-- `_reap_expired`, when the reaper has slept. -/
def reapExpired (now : T) : Pool T :=
  let kept := s.pool.mapValues fun entries ↦ (s.expired cfg now entries).foldl s.remove entries
  { s with pool := kept.filter fun _ entries ↦ !entries.isEmpty }.reaperCloses
    (s.pool.items.flatMap fun e : SessionKey × List ℕ ↦ s.expired cfg now e.2)

/-- What `stop` does when the reaper has ended. -/
def clear : Pool T :=
  { s with
    pool := Dict.empty
    circuitBreakers := Dict.empty }.startClosing .stop (s.pool.items.flatMap Prod.snd)

def start : Pool T :=
  if s.reaperTask.isSome then s
  else { s with isClosed := false, reaperTask := some .sleeping, stopped := false }

/-- `stop`, up to where it is suspended for the first time. A reaper that sleeps is gone when it is
cancelled; one that closes entries has yet to be told. -/
def stop : Pool T :=
  match s.reaperTask with
  | none => { s with isClosed := true }.clear
  | some .sleeping =>
    { s with isClosed := true, reaperTask := some .finished, stopping := s.stopping + 1 }
  | some _ => { s with isClosed := true, stopping := s.stopping + 1 }

/-- `stop`, when the reaper has ended. -/
def stopResumes : Option (Pool T) :=
  if s.stopping = 0 then none
  else
    match s.reaperTask with
    | some .sleeping => none
    | some (.closing _) => none
    | _ => some { s with reaperTask := none, stopping := s.stopping - 1 }.clear

/-- The stack the reaper was closing is closed. -/
def reaperResumes : Option (Pool T) :=
  match s.reaperTask with
  | some (.closing rest) => some (s.reaperCloses rest)
  | _ => none

/-- The cancellation comes through to the reaper while it closes a stack. -/
def cancelReaper : Option (Pool T) :=
  match s.reaperTask with
  | some (.closing _) =>
    -- nothing else names the entries that were still to be closed
    if s.stopping = 0 then none else some { s with reaperTask := some .finished }
  | _ => none

/-- The stack another operation was closing is closed. -/
def resume (n : ℕ) : Option (Pool T) :=
  s.closings[n]?.map fun c ↦
    { s with closings := s.closings.eraseIdx n }.startClosing c.caller c.rest

end Methods

end Pool

/-! ## Runs -/

/-- What can happen: a call of an operation, up to where it is first suspended, or that a suspended
one goes on. -/
inductive Event (T : Type*) where
  | acquire (client : ℕ) (key : SessionKey) (now : T)
  | release (h : Holding) (failed : Bool) (now : T)
  | add (key : SessionKey) (now : T)
  | reapExpired (now : T)
  | reaperResumes
  | resume (n : ℕ)
  | start
  | removeAll (key : SessionKey)
  | stop
  | stopResumes
  | cancelReaper

section Step

variable {T : Type*} [AddCommGroup T] [LinearOrder T] (cfg : Settings T)

def Pool.step (s : Pool T) : Event T → Option (Pool T)
  | .acquire client key now => some (s.acquire cfg client key now)
  | .release h failed now => s.release cfg h failed now
  | .add key now => some (s.add cfg key now)
  | .reapExpired now => if s.reaperTask = some .sleeping then some (s.reapExpired cfg now) else none
  | .reaperResumes => s.reaperResumes
  | .resume n => s.resume n
  | .start => some s.start
  | .removeAll key => some (s.removeAll key)
  | .stop => some s.stop
  | .stopResumes => s.stopResumes
  | .cancelReaper => s.cancelReaper

end Step

/-! ## What every operation keeps -/

namespace Pool

variable {T : Type*}

structure Inv (s : Pool T) : Prop where
  /-- Every entry has a stack of its own. -/
  stack : ∀ i e, s.entryAt i = some e → e.stack = i
  keyOf : ∀ key, ∀ i ∈ s.entriesOf key, s.keyOf i = some key
  nodup : ∀ key, (s.entriesOf key).Nodup
  unclosed : ∀ key, ∀ i ∈ s.entriesOf key, i ∉ s.closed
  closed_lt : ∀ i ∈ s.closed, i < s.added.length
  transit : ∀ i ∈ s.transit, i < s.added.length ∧ ∀ key, i ∉ s.entriesOf key
  /-- What a client has is marked as in use, and no other client has it. -/
  inUse : ∀ h ∈ s.held, s.inUse h.entry = true
  heldKey : ∀ h ∈ s.held, s.keyOf h.entry = some h.key
  alone : (s.held.map Holding.entry).Nodup

section

variable {s : Pool T}

theorem keyOf_eq_some_iff {i : ℕ} {key : SessionKey} :
    s.keyOf i = some key ↔ ∃ e, s.added[i]? = some (key, e) := by
  rw [Pool.keyOf, Option.map_eq_some_iff]
  constructor
  · rintro ⟨⟨key', e⟩, he, rfl⟩
    exact ⟨e, he⟩
  · rintro ⟨e, he⟩
    exact ⟨(key, e), he, rfl⟩

theorem lt_of_keyOf {i : ℕ} {key : SessionKey} (h : s.keyOf i = some key) : i < s.added.length := by
  obtain ⟨e, he⟩ := keyOf_eq_some_iff.mp h
  exact (List.getElem?_eq_some_iff.mp he).1

theorem Inv.init : Inv (Pool.init : Pool T) where
  stack := by simp [Pool.init, entryAt]
  keyOf := by simp [Pool.init, entriesOf]
  nodup := by simp [Pool.init, entriesOf]
  unclosed := by simp [Pool.init]
  closed_lt := by simp [Pool.init]
  transit := by simp [Pool.init, Pool.transit]
  inUse := by simp [Pool.init]
  heldKey := by simp [Pool.init]
  alone := by simp [Pool.init]

theorem Inv.lt (h : Inv s) {key : SessionKey} {i : ℕ} (hi : i ∈ s.entriesOf key) :
    i < s.added.length :=
  lt_of_keyOf (h.keyOf key i hi)

theorem Inv.entry_ne (h : Inv s) {x y : Holding} (hx : x ∈ s.held) (hy : y ∈ s.held.erase x) :
    y.entry ≠ x.entry := by
  obtain ⟨hne, hmem⟩ := h.alone.of_map.mem_erase_iff.mp hy
  exact fun heq ↦ hne (List.inj_on_of_nodup_map h.alone hmem hx heq)

theorem Inv.key_unique (h : Inv s) {key key' : SessionKey} {i : ℕ} (hi : i ∈ s.entriesOf key)
    (hi' : i ∈ s.entriesOf key') : key = key' :=
  Option.some.inj ((h.keyOf key i hi).symm.trans (h.keyOf key' i hi'))

variable [DecidableEq T]

/-- For entries that were added, `==` is identity. -/
theorem Inv.same_iff (h : Inv s) {i j : ℕ} (hi : i < s.added.length) :
    s.same i j = true ↔ i = j := by
  rw [same, Bool.or_eq_true, decide_eq_true_eq, decide_eq_true_eq]
  refine ⟨fun hsame ↦ hsame.elim id fun heq ↦ ?_, Or.inl⟩
  obtain ⟨e, he⟩ : ∃ e, s.entryAt i = some e := by
    rw [entryAt, List.getElem?_eq_getElem hi]
    exact ⟨_, rfl⟩
  exact (h.stack i e he).symm.trans (h.stack j e (heq ▸ he))

theorem Inv.remove (h : Inv s) {entries : List ℕ} (hentries : ∀ i ∈ entries, i < s.added.length)
    (i : ℕ) : s.remove entries i = entries.erase i := by
  rw [Pool.remove, List.erase_eq_eraseP']
  -- entry by entry: `==` finds the first equal one, and equal ones are one object
  induction entries with
  | nil => rfl
  | cons j entries ih =>
    obtain ⟨hj, hrest⟩ := List.forall_mem_cons.mp hentries
    have hsame : s.same j i = (j == i) := by
      rw [Bool.eq_iff_iff, h.same_iff hj, beq_iff_eq]
    rw [List.eraseP_cons, List.eraseP_cons, hsame, ih hrest]

theorem Inv.foldl_remove (h : Inv s) {entries : List ℕ} (ids : List ℕ)
    (hlt : ∀ i ∈ entries, i < s.added.length) :
    ids.foldl s.remove entries = entries.diff ids := by
  rw [List.diff_eq_foldl]
  induction ids generalizing entries with
  | nil => rfl
  | cons i ids ih =>
    rw [List.foldl_cons, List.foldl_cons, h.remove hlt]
    exact ih fun j hj ↦ hlt j (List.mem_of_mem_erase hj)

end

/-! ### Taking out and closing -/

section Taking

variable {s s' : Pool T}

/-- The entry was added and is not in the pool any more. -/
def Out (s : Pool T) (i : ℕ) : Prop := i < s.added.length ∧ ∀ key, i ∉ s.entriesOf key

/-- An operation that takes entries out of the pool, and closes or is to close only what is out. -/
theorem Inv.take (h : Inv s) (hadded : s'.added = s.added)
    (hpool : ∀ key, (s'.entriesOf key).Sublist (s.entriesOf key))
    (hclosed : ∀ i ∈ s'.closed, i ∈ s.closed ∨ s'.Out i)
    (htransit : ∀ i ∈ s'.transit, i ∈ s.transit ∨ s'.Out i)
    (hheld : s'.held.Sublist s.held) : Inv s' where
  stack := by
    intro i e he
    rw [entryAt, hadded] at he
    exact h.stack i e he
  keyOf := by
    intro key i hi
    rw [Pool.keyOf, hadded]
    exact h.keyOf key i ((hpool key).subset hi)
  nodup := fun key ↦ (hpool key).nodup (h.nodup key)
  unclosed := by
    intro key i hi hmem
    rcases hclosed i hmem with hold | hout
    · exact h.unclosed key i ((hpool key).subset hi) hold
    · exact hout.2 key hi
  closed_lt := by
    intro i hi
    rcases hclosed i hi with hold | hout
    · exact hadded ▸ h.closed_lt i hold
    · exact hout.1
  transit := by
    intro i hi
    rcases htransit i hi with hold | hout
    · obtain ⟨hlt, hnot⟩ := h.transit i hold
      exact ⟨hadded ▸ hlt, fun key hmem ↦ hnot key ((hpool key).subset hmem)⟩
    · exact hout
  inUse := by
    intro x hx
    rw [Pool.inUse, entryAt, hadded]
    exact h.inUse x (hheld.subset hx)
  heldKey := by
    intro x hx
    rw [Pool.keyOf, hadded]
    exact h.heldKey x (hheld.subset hx)
  alone := (hheld.map Holding.entry).nodup h.alone

theorem mem_transit_iff {i : ℕ} : i ∈ s.transit ↔
    (∃ rest, s.reaperTask = some (.closing rest) ∧ i ∈ rest) ∨
      ∃ c ∈ s.closings, i ∈ c.rest := by
  rw [Pool.transit, List.mem_append, List.mem_flatMap]
  refine or_congr_left ?_
  rcases s.reaperTask with _ | _ | rest | _
  · simp
  · simp
  · simp
  · simp

theorem Inv.forget (h : Inv s) {s' : Pool T} (hadded : s'.added = s.added)
    (hpool : s'.pool = s.pool) (hclosed : s'.closed = s.closed) (hheld : s'.held = s.held)
    (hreaper : ∀ rest, s'.reaperTask = some (.closing rest) →
      s.reaperTask = some (.closing rest))
    (hclosings : s'.closings ⊆ s.closings) : Inv s' := by
  refine h.take hadded (fun key ↦ ?_) (fun i hi ↦ Or.inl (hclosed ▸ hi)) (fun i hi ↦ Or.inl ?_)
    (hheld ▸ .refl _)
  · rw [entriesOf, hpool]
    exact .refl _
  · rw [mem_transit_iff] at hi ⊢
    rcases hi with ⟨rest, hrest, hi⟩ | ⟨c, hc, hi⟩
    · exact Or.inl ⟨rest, hreaper rest hrest, hi⟩
    · exact Or.inr ⟨c, hclosings hc, hi⟩

@[simp] theorem entriesOf_startClosing (caller : Caller) (ids : List ℕ) (key : SessionKey) :
    (s.startClosing caller ids).entriesOf key = s.entriesOf key := by
  rcases ids with _ | ⟨i, rest⟩
  · rw [Pool.startClosing]
    split
    · rfl
    · rfl
  · rfl

@[simp] theorem held_startClosing (caller : Caller) (ids : List ℕ) :
    (s.startClosing caller ids).held = s.held := by
  rcases ids with _ | ⟨i, rest⟩
  · rw [Pool.startClosing]
    split
    · rfl
    · rfl
  · rfl

@[simp] theorem entriesOf_reaperCloses (ids : List ℕ) (key : SessionKey) :
    (s.reaperCloses ids).entriesOf key = s.entriesOf key := by
  rcases ids with _ | ⟨i, rest⟩
  · rfl
  · rfl

@[simp] theorem held_reaperCloses (ids : List ℕ) : (s.reaperCloses ids).held = s.held := by
  rcases ids with _ | ⟨i, rest⟩
  · rfl
  · rfl

theorem Inv.startClosing (h : Inv s) (caller : Caller) {ids : List ℕ}
    (hids : ∀ i ∈ ids, s.Out i) : Inv (s.startClosing caller ids) := by
  rcases ids with _ | ⟨i, rest⟩
  · -- none is left: at most the ghost `stopped` is set
    rw [Pool.startClosing]
    split
    · exact h.take rfl (fun _ ↦ .refl _) (fun _ ↦ Or.inl) (fun _ ↦ Or.inl) (.refl _)
    · exact h
  -- the first is closed now, and the others are in transit
  obtain ⟨hi, hrest⟩ := List.forall_mem_cons.mp hids
  refine h.take rfl (fun _ ↦ .refl _) (fun j hj ↦ ?_) (fun j hj ↦ ?_) (.refl _)
  · rcases List.mem_append.mp hj with hold | hnew
    · exact Or.inl hold
    · rw [List.mem_singleton] at hnew
      exact Or.inr (hnew ▸ hi)
  · rcases mem_transit_iff.mp hj with hreaper | ⟨c, hc, hjc⟩
    · exact Or.inl (mem_transit_iff.mpr (Or.inl hreaper))
    · rcases List.mem_append.mp hc with hold | hnew
      · exact Or.inl (mem_transit_iff.mpr (Or.inr ⟨c, hold, hjc⟩))
      · rw [List.mem_singleton] at hnew
        subst hnew
        exact Or.inr (hrest j hjc)

theorem Inv.reaperCloses (h : Inv s) {ids : List ℕ} (hids : ∀ i ∈ ids, s.Out i) :
    Inv (s.reaperCloses ids) := by
  rcases ids with _ | ⟨i, rest⟩
  · -- the reaper has closed them all, and what other operations close is as it was
    refine h.take rfl (fun _ ↦ .refl _) (fun _ ↦ Or.inl) (fun j hj ↦ Or.inl ?_) (.refl _)
    rw [mem_transit_iff] at hj ⊢
    refine hj.elim ?_ Or.inr
    rintro ⟨rest, hrest, -⟩
    rw [Pool.reaperCloses] at hrest
    split at hrest <;> cases hrest
  obtain ⟨hi, hrest⟩ := List.forall_mem_cons.mp hids
  refine h.take rfl (fun _ ↦ .refl _) (fun j hj ↦ ?_) (fun j hj ↦ ?_) (.refl _)
  · rcases List.mem_append.mp hj with hold | hnew
    · exact Or.inl hold
    · rw [List.mem_singleton] at hnew
      exact Or.inr (hnew ▸ hi)
  · rcases mem_transit_iff.mp hj with ⟨rest', hrest', hjr⟩ | hclosing
    · rw [Pool.reaperCloses, Option.some.injEq, Reaper.closing.injEq] at hrest'
      exact Or.inr (hrest j (hrest' ▸ hjr))
    · exact Or.inl (mem_transit_iff.mpr (Or.inr hclosing))

theorem Inv.out_of_mem (h : Inv s) {key : SessionKey} {i : ℕ} (hi : i ∈ s.entriesOf key)
    (hadded : s'.added = s.added) (hpool : ∀ key', (s'.entriesOf key').Sublist (s.entriesOf key'))
    (hnot : i ∉ s'.entriesOf key) : s'.Out i := by
  refine ⟨hadded ▸ h.lt hi, fun key' hi' ↦ ?_⟩
  obtain rfl := h.key_unique hi ((hpool key').subset hi')
  exact hnot hi'

theorem Inv.withdraw (h : Inv s) {pool : Dict SessionKey (List ℕ)}
    (hpool : ∀ key, ((pool.get? key).getD []).Sublist (s.entriesOf key)) :
    Inv { s with pool := pool } :=
  h.take rfl hpool (fun _ ↦ Or.inl) (fun _ ↦ Or.inl) (.refl _)

theorem entriesOf_del (key key' : SessionKey) :
    Pool.entriesOf { s with pool := s.pool.del key } key'
      = if key' = key then [] else s.entriesOf key' := by
  rw [entriesOf, entriesOf, Dict.get?_del]
  split
  · rfl
  · rfl

theorem mem_pooled_iff {i : ℕ} :
    i ∈ s.pool.items.flatMap Prod.snd ↔ ∃ key, i ∈ s.entriesOf key := by
  rw [List.mem_flatMap]
  constructor
  · rintro ⟨⟨key, entries⟩, hitem, hi⟩
    refine ⟨key, ?_⟩
    rw [entriesOf, Dict.mem_items_iff.mp hitem]
    exact hi
  · rintro ⟨key, hi⟩
    rw [entriesOf] at hi
    rcases hget : s.pool.get? key with _ | entries
    · rw [hget] at hi
      exact absurd hi List.not_mem_nil
    · rw [hget] at hi
      exact ⟨(key, entries), Dict.mem_items_iff.mpr hget, hi⟩

theorem Inv.removeAll (h : Inv s) (key : SessionKey) : Inv (s.removeAll key) := by
  have hsub : ∀ key', (Pool.entriesOf { s with pool := s.pool.del key } key').Sublist
      (s.entriesOf key') := by
    intro key'
    rw [entriesOf_del]
    split
    · exact List.nil_sublist _
    · exact .refl _
  refine (h.withdraw hsub).startClosing _ fun i hi ↦ h.out_of_mem hi rfl hsub ?_
  rw [entriesOf_del, if_pos rfl]
  exact List.not_mem_nil

theorem Inv.clear (h : Inv s) : Inv s.clear := by
  have hcleared : Inv { s with pool := Dict.empty, circuitBreakers := Dict.empty } :=
    h.take rfl (fun _ ↦ List.nil_sublist _) (fun _ ↦ Or.inl) (fun _ ↦ Or.inl) (.refl _)
  refine hcleared.startClosing _ fun i hi ↦ ?_
  obtain ⟨key, hi⟩ := mem_pooled_iff.mp hi
  exact ⟨h.lt hi, fun _ ↦ List.not_mem_nil⟩

end Taking

/-! ### Changing an entry -/

section Changing

variable {s : Pool T} {i : ℕ} {f : PoolEntry T → PoolEntry T}

theorem entryAt_modify (j : ℕ) :
    (s.modify i f).entryAt j = if i = j then (s.entryAt j).map f else s.entryAt j := by
  rw [entryAt, Pool.modify, List.getElem?_modify, entryAt]
  rcases s.added[j]? with _ | e
  · split
    · rfl
    · rfl
  · split
    · rfl
    · rfl

theorem keyOf_modify (j : ℕ) : (s.modify i f).keyOf j = s.keyOf j := by
  rw [Pool.keyOf, Pool.modify, List.getElem?_modify, Pool.keyOf]
  rcases s.added[j]? with _ | e
  · rfl
  · split
    · rfl
    · rfl

theorem Inv.modify (h : Inv s) (hstack : ∀ e, (f e).stack = e.stack)
    (hheld : ∀ x ∈ s.held, x.entry = i → ∀ e, (f e).inUse = true) : Inv (s.modify i f) where
  stack := by
    intro j e he
    rw [entryAt_modify] at he
    split at he
    · obtain ⟨e', he', rfl⟩ := Option.map_eq_some_iff.mp he
      exact (hstack e').trans (h.stack j e' he')
    · exact h.stack j e he
  keyOf := by
    intro key j hj
    rw [keyOf_modify]
    exact h.keyOf key j hj
  nodup := h.nodup
  unclosed := h.unclosed
  closed_lt := by
    intro j hj
    rw [Pool.modify, List.length_modify]
    exact h.closed_lt j hj
  transit := by
    intro j hj
    rw [Pool.modify, List.length_modify]
    exact h.transit j hj
  inUse := by
    intro x hx
    have hin := h.inUse x hx
    rw [Pool.inUse] at hin ⊢
    rw [entryAt_modify]
    -- only the entry that is changed is in question, and it may be one that a client has
    split
    · rename_i hi
      rcases hentry : s.entryAt x.entry with _ | e
      · rw [hentry] at hin
        exact absurd hin (by simp)
      · exact hheld x hx hi.symm e
    · exact hin
  heldKey := by
    intro x hx
    rw [keyOf_modify]
    exact h.heldKey x hx
  alone := h.alone

theorem Inv.hold (h : Inv s) (x : Holding) (huse : s.inUse x.entry = true)
    (hkey : s.keyOf x.entry = some x.key) (hfree : ∀ y ∈ s.held, y.entry ≠ x.entry) :
    Inv { s with held := s.held ++ [x] } :=
  { h with
    inUse := fun y hy ↦ (List.mem_append.mp hy).elim (h.inUse y) fun hx ↦ by
      rw [List.mem_singleton] at hx
      exact hx ▸ huse
    heldKey := fun y hy ↦ (List.mem_append.mp hy).elim (h.heldKey y) fun hx ↦ by
      rw [List.mem_singleton] at hx
      exact hx ▸ hkey
    alone := by
      rw [List.map_append, List.nodup_append]
      refine ⟨h.alone, List.nodup_singleton _, fun a ha b hb ↦ ?_⟩
      obtain ⟨y, hy, rfl⟩ := List.mem_map.mp ha
      rw [List.map_cons, List.map_nil, List.mem_singleton] at hb
      exact hb ▸ hfree y hy }

theorem entriesOf_set (key key' : SessionKey) (entries : List ℕ) :
    Pool.entriesOf { s with pool := s.pool.set key entries } key'
      = if key' = key then entries else s.entriesOf key' := by
  rw [entriesOf, entriesOf, Dict.get?_set]
  split
  · rfl
  · rfl

section Placing

variable {key : SessionKey} {kept : List ℕ} {e : PoolEntry T}

theorem getElem?_place_of_lt {j : ℕ} (hj : j < s.added.length) :
    (s.place key kept e).added[j]? = s.added[j]? :=
  List.getElem?_append_left hj

theorem keyOf_place_of_lt {j : ℕ} (hj : j < s.added.length) :
    (s.place key kept e).keyOf j = s.keyOf j := by
  rw [Pool.keyOf, getElem?_place_of_lt hj, Pool.keyOf]

theorem inUse_place_of_lt {j : ℕ} (hj : j < s.added.length) :
    (s.place key kept e).inUse j = s.inUse j := by
  rw [Pool.inUse, entryAt, getElem?_place_of_lt hj, Pool.inUse, entryAt]

theorem entriesOf_place (key' : SessionKey) : (s.place key kept e).entriesOf key'
    = if key' = key then kept ++ [s.added.length] else s.entriesOf key' :=
  entriesOf_set key key' _

theorem mem_entriesOf_place (hkept : kept.Sublist (s.entriesOf key)) {key' : SessionKey} {j : ℕ}
    (hj : j ∈ (s.place key kept e).entriesOf key') :
    (j = s.added.length ∧ key' = key) ∨ j ∈ s.entriesOf key' := by
  rw [entriesOf_place] at hj
  split at hj
  · rename_i hkey
    rcases List.mem_append.mp hj with hold | hnew
    · exact Or.inr (hkey ▸ hkept.subset hold)
    · exact Or.inl ⟨List.mem_singleton.mp hnew, hkey⟩
  · exact Or.inr hj

theorem Inv.place (h : Inv s) (hkept : kept.Sublist (s.entriesOf key))
    (hstack : e.stack = s.added.length) : Inv (s.place key kept e) where
  stack := by
    intro j e' he
    rw [entryAt] at he
    rcases lt_trichotomy j s.added.length with hj | rfl | hj
    · rw [getElem?_place_of_lt hj] at he
      exact h.stack j e' he
    · rw [Pool.place, List.getElem?_concat_length] at he
      exact Option.some.inj he ▸ hstack
    · rw [Pool.place, List.getElem?_eq_none (by simpa [Nat.succ_le_iff] using hj)] at he
      exact absurd he (by simp)
  keyOf := by
    intro key' j hj
    rcases mem_entriesOf_place hkept hj with ⟨rfl, rfl⟩ | hold
    · rw [Pool.keyOf, Pool.place, List.getElem?_concat_length]
      rfl
    · rw [keyOf_place_of_lt (h.lt hold)]
      exact h.keyOf key' j hold
  nodup := by
    intro key'
    rw [entriesOf_place]
    split
    · refine List.nodup_append.mpr ⟨hkept.nodup (h.nodup key), List.nodup_singleton _, ?_⟩
      rintro a ha b hb rfl
      rw [List.mem_singleton] at hb
      exact absurd (h.lt (hkept.subset ha)) (hb ▸ lt_irrefl _)
    · exact h.nodup key'
  unclosed := by
    intro key' j hj hclosed
    rcases mem_entriesOf_place hkept hj with ⟨rfl, -⟩ | hold
    · exact absurd (h.closed_lt _ hclosed) (lt_irrefl _)
    · exact h.unclosed key' j hold hclosed
  closed_lt := by
    intro j hj
    rw [Pool.place, List.length_append]
    exact (h.closed_lt j hj).trans_le (Nat.le_add_right _ _)
  transit := by
    intro j hj
    obtain ⟨hlt, hnot⟩ := h.transit j hj
    refine ⟨?_, fun key' hmem ↦ ?_⟩
    · rw [Pool.place, List.length_append]
      exact hlt.trans_le (Nat.le_add_right _ _)
    · rcases mem_entriesOf_place hkept hmem with ⟨rfl, -⟩ | hold
      · exact lt_irrefl _ hlt
      · exact hnot key' hold
  inUse := by
    intro x hx
    rw [inUse_place_of_lt (lt_of_keyOf (h.heldKey x hx))]
    exact h.inUse x hx
  heldKey := by
    intro x hx
    rw [keyOf_place_of_lt (lt_of_keyOf (h.heldKey x hx))]
    exact h.heldKey x hx
  alone := h.alone

end Placing

end Changing

/-! ### Starting, stopping and going on -/

section Going

variable {s s' : Pool T}

theorem Inv.start (h : Inv s) : Inv s.start := by
  rw [Pool.start]
  split
  · exact h
  · refine h.forget rfl rfl rfl rfl (fun rest hrest ↦ ?_) fun _ hc ↦ hc
    exact absurd hrest (by simp)

theorem Inv.stop (h : Inv s) : Inv s.stop := by
  rw [Pool.stop]
  split
  · refine Inv.clear (h.forget rfl rfl rfl rfl (fun _ hrest ↦ hrest) fun _ hc ↦ hc)
  · refine h.forget rfl rfl rfl rfl (fun rest hrest ↦ ?_) fun _ hc ↦ hc
    exact absurd hrest (by simp)
  · exact h.forget rfl rfl rfl rfl (fun _ hrest ↦ hrest) fun _ hc ↦ hc

theorem reaperResumes_eq_some (hs : s.reaperResumes = some s') :
    ∃ rest, s.reaperTask = some (.closing rest) ∧ s' = s.reaperCloses rest := by
  rw [reaperResumes] at hs
  split at hs
  · exact ⟨_, ‹_›, (Option.some.inj hs).symm⟩
  · exact absurd hs (by simp)

theorem resume_eq_some {n : ℕ} (hs : s.resume n = some s') : ∃ c, s.closings[n]? = some c ∧
    s' = { s with closings := s.closings.eraseIdx n }.startClosing c.caller c.rest := by
  obtain ⟨c, hc, heq⟩ := Option.map_eq_some_iff.mp hs
  exact ⟨c, hc, heq.symm⟩

theorem stopResumes_eq_some (hs : s.stopResumes = some s') :
    (∀ rest, s.reaperTask ≠ some (.closing rest)) ∧
      s' = { s with reaperTask := none, stopping := s.stopping - 1 }.clear := by
  rw [stopResumes] at hs
  split at hs
  · exact absurd hs (by simp)
  split at hs
  · exact absurd hs (by simp)
  · exact absurd hs (by simp)
  · rename_i hreaper
    exact ⟨fun rest heq ↦ hreaper rest heq, (Option.some.inj hs).symm⟩

theorem cancelReaper_eq_some (hs : s.cancelReaper = some s') :
    (∃ rest, s.reaperTask = some (.closing rest)) ∧
      s' = { s with reaperTask := some .finished } := by
  rw [cancelReaper] at hs
  split at hs
  · split at hs
    · exact absurd hs (by simp)
    · exact ⟨⟨_, ‹_›⟩, (Option.some.inj hs).symm⟩
  · exact absurd hs (by simp)

theorem Inv.reaperResumes (h : Inv s) (hs : s.reaperResumes = some s') : Inv s' := by
  obtain ⟨rest, hrest, rfl⟩ := reaperResumes_eq_some hs
  exact h.reaperCloses fun i hi ↦ h.transit i (mem_transit_iff.mpr (Or.inl ⟨rest, hrest, hi⟩))

theorem Inv.resume (h : Inv s) {n : ℕ} (hs : s.resume n = some s') : Inv s' := by
  obtain ⟨c, hc, rfl⟩ := resume_eq_some hs
  have hmem : c ∈ s.closings := List.mem_of_getElem? hc
  refine Inv.startClosing ?_ _ fun i hi ↦ h.transit i (mem_transit_iff.mpr (Or.inr ⟨c, hmem, hi⟩))
  exact h.forget rfl rfl rfl rfl (fun _ hrest ↦ hrest) (List.eraseIdx_sublist _ _).subset

theorem Inv.stopResumes (h : Inv s) (hs : s.stopResumes = some s') : Inv s' := by
  obtain ⟨-, rfl⟩ := stopResumes_eq_some hs
  refine Inv.clear (h.forget rfl rfl rfl rfl (fun rest hrest ↦ ?_) fun _ hc ↦ hc)
  exact absurd hrest (by simp)

theorem Inv.cancelReaper (h : Inv s) (hs : s.cancelReaper = some s') : Inv s' := by
  obtain ⟨-, rfl⟩ := cancelReaper_eq_some hs
  refine h.forget rfl rfl rfl rfl (fun rest hrest ↦ ?_) fun _ hc ↦ hc
  exact absurd hrest (by simp)

end Going

/-! ### The operations -/

section Keeping

variable [AddCommGroup T] [LinearOrder T] {cfg : Settings T} {s s' : Pool T}

theorem acquired_eq_some {key : SessionKey} {now : T} {i : ℕ}
    (h : s.acquired cfg key now = some i) :
    i ∈ s.entriesOf key ∧ ∃ e, s.entryAt i = some e ∧ e.inUse = false ∧
      now - e.createdAt < cfg.ttl := by
  rw [acquired] at h
  split at h
  · exact absurd h (by simp)
  split at h
  · rw [candidate] at h
    refine ⟨List.mem_of_find?_eq_some h, ?_⟩
    have hp := List.find?_some h
    rcases hentry : s.entryAt i with _ | e
    · rw [hentry] at hp
      exact absurd hp (by simp)
    · rw [hentry] at hp
      obtain ⟨huse, hage⟩ := Bool.and_eq_true_iff.mp hp
      exact ⟨e, rfl, by simpa using huse, of_decide_eq_true hage⟩
  · exact absurd h (by simp)

theorem Inv.not_held_of_acquired (h : Inv s) {key : SessionKey} {now : T} {i : ℕ}
    (hacq : s.acquired cfg key now = some i) : ∀ x ∈ s.held, x.entry ≠ i := by
  obtain ⟨-, e, hentry, huse, -⟩ := acquired_eq_some hacq
  intro x hx heq
  have hin := h.inUse x hx
  rw [Pool.inUse, heq, hentry] at hin
  exact absurd (huse.symm.trans hin) Bool.false_ne_true

theorem Inv.acquire (h : Inv s) (client : ℕ) (key : SessionKey) (now : T) :
    Inv (s.acquire cfg client key now) := by
  rw [Pool.acquire]
  split
  · exact h
  dsimp only
  have hasked : ∀ breakers, Inv { s with circuitBreakers := breakers } := fun breakers ↦
    h.take rfl (fun _ ↦ .refl _) (fun _ ↦ Or.inl) (fun _ ↦ Or.inl) (.refl _)
  rcases hacq : s.acquired cfg key now with _ | i
  · exact hasked _
  obtain ⟨hmem, e, hentry, -, -⟩ := acquired_eq_some hacq
  dsimp only
  have hmarked := @Inv.modify _ _ i (fun e ↦ { e with inUse := true, lastUsed := now })
    (hasked (s.circuitBreakers.set key ((s.getCircuitBreaker cfg key).observe now)))
    (fun _ ↦ rfl) fun _ _ _ _ ↦ rfl
  refine hmarked.hold ⟨client, key, i⟩ ?_ ?_ (h.not_held_of_acquired hacq)
  · rw [Pool.inUse, entryAt_modify, if_pos rfl]
    change (((s.entryAt i).map _).map PoolEntry.inUse).getD false = true
    rw [hentry]
    rfl
  · rw [keyOf_modify]
    exact h.keyOf key i hmem

/-- The entries that stay and those that are evicted are the entries there were; none that is in
use is evicted; and the loop ends only when there is room or nothing idle. -/
theorem Inv.evictLoop (h : Inv s) {fuel : ℕ} {entries evicted : List ℕ}
    (hlt : ∀ i ∈ entries, i < s.added.length) (hfuel : entries.length ≤ fuel) :
    ∃ out, (s.evictLoop cfg fuel entries evicted).2 = evicted ++ out ∧
      (out ++ (s.evictLoop cfg fuel entries evicted).1).Perm entries ∧
      (s.evictLoop cfg fuel entries evicted).1.Sublist entries ∧
      (∀ i ∈ out, s.inUse i = false) ∧
      ((s.evictLoop cfg fuel entries evicted).1.length < cfg.perKeyMax ∨
        ∀ i ∈ (s.evictLoop cfg fuel entries evicted).1, s.inUse i = true) := by
  -- a round takes one entry out, and so the fuel bounds the entries that are left
  induction fuel generalizing entries evicted with
  | zero =>
    rw [Nat.le_zero, List.length_eq_zero_iff] at hfuel
    subst hfuel
    exact ⟨[], by simp [Pool.evictLoop]⟩
  | succ fuel ih =>
    rw [Pool.evictLoop]
    split
    · rcases hold : s.oldestIdle entries with _ | i
      · -- nothing is idle, and the loop ends over the limit
        refine ⟨[], (List.append_nil _).symm, .refl _, .refl _, by simp, Or.inr fun i hi ↦ ?_⟩
        rw [oldestIdle, List.argmin_eq_none, List.filter_eq_nil_iff] at hold
        simpa using hold i hi
      · -- the entry that was used the longest time ago goes, and the rounds go on without it
        have hidle := List.mem_filter.mp (List.argmin_mem hold)
        have hmem := hidle.1
        dsimp only
        rw [h.remove hlt]
        have hlt' : ∀ j ∈ entries.erase i, j < s.added.length :=
          fun j hj ↦ hlt j (List.mem_of_mem_erase hj)
        have hfuel' : (entries.erase i).length ≤ fuel := by
          rw [List.length_erase_of_mem hmem]
          omega
        obtain ⟨out, hout, hperm, hsub, huse, hend⟩ :=
          @ih (entries.erase i) (evicted ++ [i]) hlt' hfuel'
        refine ⟨i :: out, ?_, ?_, hsub.trans List.erase_sublist, ?_, hend⟩
        · rw [hout, List.append_assoc, List.singleton_append]
        · exact (hperm.cons i).trans (List.perm_cons_erase hmem).symm
        · refine List.forall_mem_cons.mpr ⟨by simpa using hidle.2, huse⟩
    · exact ⟨[], (List.append_nil _).symm, .refl _, .refl _, by simp, Or.inl (not_le.mp ‹_›)⟩

theorem Inv.evict (h : Inv s) (key : SessionKey) :
    ((s.evict cfg key).2 ++ (s.evict cfg key).1).Perm (s.entriesOf key) ∧
      (s.evict cfg key).1.Sublist (s.entriesOf key) ∧
      (∀ i ∈ (s.evict cfg key).2, s.inUse i = false) ∧
      ((s.evict cfg key).1.length < cfg.perKeyMax ∨
        ∀ i ∈ (s.evict cfg key).1, s.inUse i = true) := by
  obtain ⟨out, hout, hperm, hsub, huse, hend⟩ :=
    @Inv.evictLoop _ _ _ cfg s h _ _ [] (fun i hi ↦ h.lt hi) (le_refl (s.entriesOf key).length)
  rw [List.nil_append] at hout
  rw [Pool.evict, hout]
  exact ⟨hperm, hsub, huse, hend⟩

theorem Inv.notMem_evict (h : Inv s) {key : SessionKey} {i : ℕ} (hi : i ∈ (s.evict cfg key).2) :
    i ∈ s.entriesOf key ∧ i ∉ (s.evict cfg key).1 := by
  obtain ⟨hperm, -, -, -⟩ := @Inv.evict _ _ _ cfg s h key
  refine ⟨hperm.subset (List.mem_append_left _ hi), fun hkept ↦ ?_⟩
  have hnodup := hperm.nodup_iff.mpr (h.nodup key)
  exact (List.disjoint_of_nodup_append hnodup) hi hkept

theorem Inv.add (h : Inv s) (key : SessionKey) (now : T) : Inv (s.add cfg key now) := by
  obtain ⟨-, hsub, -, -⟩ := @Inv.evict _ _ _ cfg s h key
  refine (h.place hsub rfl).startClosing _ fun i hi ↦ ?_
  obtain ⟨hmem, hnot⟩ := h.notMem_evict hi
  have hlt := h.lt hmem
  -- what is evicted has left this key, and an entry is under one key only
  refine ⟨?_, fun key' hi' ↦ ?_⟩
  · rw [Pool.place, List.length_append]
    exact hlt.trans_le (Nat.le_add_right _ _)
  · rw [entriesOf_place] at hi'
    split at hi'
    · rcases List.mem_append.mp hi' with hkept | hnew
      · exact hnot hkept
      · exact absurd hlt (List.mem_singleton.mp hnew ▸ lt_irrefl _)
    · exact absurd (h.key_unique hi' hmem) ‹_›

def reaped (cfg : Settings T) (s : Pool T) (now : T) : Pool T :=
  { s with
    pool := (s.pool.mapValues fun entries ↦
      (s.expired cfg now entries).foldl s.remove entries).filter fun _ entries ↦ !entries.isEmpty }

theorem Inv.entriesOf_reaped (h : Inv s) (now : T) (key : SessionKey) :
    (s.reaped cfg now).entriesOf key
      = (s.entriesOf key).diff (s.expired cfg now (s.entriesOf key)) := by
  rw [reaped, entriesOf, Dict.get?_filter, Dict.get?_mapValues]
  rcases hget : s.pool.get? key with _ | entries
  · have hnil : s.entriesOf key = [] := by rw [entriesOf, hget, Option.getD_none]
    rw [hnil]
    rfl
  · have hentries : s.entriesOf key = entries := by rw [entriesOf, hget, Option.getD_some]
    have hlt : ∀ i ∈ entries, i < s.added.length := fun i hi ↦ h.lt (hentries ▸ hi)
    rw [hentries, ← h.foldl_remove _ hlt, Option.map_some]
    -- a key without entries is deleted, and reads as an empty list then too
    by_cases hempty : (s.expired cfg now entries).foldl s.remove entries = []
    · rw [hempty]
      rfl
    · rw [Option.filter_some_pos (by simpa using hempty), Option.getD_some]

theorem Inv.mem_entriesOf_reaped (h : Inv s) {now : T} {key : SessionKey} {i : ℕ} :
    i ∈ (s.reaped cfg now).entriesOf key ↔
      i ∈ s.entriesOf key ∧ i ∉ s.expired cfg now (s.entriesOf key) := by
  rw [h.entriesOf_reaped, (h.nodup key).mem_sdiff_iff]

theorem Inv.reaped_sublist (h : Inv s) (now : T) (key : SessionKey) :
    ((s.reaped cfg now).entriesOf key).Sublist (s.entriesOf key) := by
  rw [h.entriesOf_reaped]
  exact List.diff_sublist _ _

theorem mem_expired_iff {now : T} {entries : List ℕ} {i : ℕ} :
    i ∈ s.expired cfg now entries ↔ i ∈ entries ∧ ∃ e, s.entryAt i = some e ∧ e.inUse = false ∧
      cfg.ttl ≤ now - e.createdAt := by
  rw [expired, List.mem_filter]
  refine and_congr_right fun _ ↦ ?_
  rcases s.entryAt i with _ | e
  · simp
  · simp

theorem mem_reaperTakes_iff {now : T} {i : ℕ} :
    (i ∈ s.pool.items.flatMap fun e : SessionKey × List ℕ ↦ s.expired cfg now e.2) ↔
      ∃ key, i ∈ s.expired cfg now (s.entriesOf key) := by
  rw [List.mem_flatMap]
  constructor
  · rintro ⟨⟨key, entries⟩, hitem, hi⟩
    refine ⟨key, ?_⟩
    rw [entriesOf, Dict.mem_items_iff.mp hitem]
    exact hi
  · rintro ⟨key, hi⟩
    rcases hget : s.pool.get? key with _ | entries
    · rw [entriesOf, hget] at hi
      exact absurd hi List.not_mem_nil
    · rw [entriesOf, hget] at hi
      exact ⟨(key, entries), Dict.mem_items_iff.mpr hget, hi⟩

theorem Inv.reapExpired (h : Inv s) (now : T) : Inv (s.reapExpired cfg now) := by
  refine (h.withdraw (h.reaped_sublist now)).reaperCloses fun i hi ↦ ?_
  obtain ⟨key, hi⟩ := mem_reaperTakes_iff.mp hi
  refine h.out_of_mem (mem_expired_iff.mp hi).1 rfl (h.reaped_sublist now) fun hmem ↦ ?_
  exact (h.mem_entriesOf_reaped.mp hmem).2 hi

/-! #### Releasing -/

/-- The pool after a failed release, before the entry is closed. -/
def dropped (cfg : Settings T) (s : Pool T) (x : Holding) (now : T) : Pool T :=
  { s with
    held := s.held.erase x
    circuitBreakers :=
      s.circuitBreakers.set x.key ((s.getCircuitBreaker cfg x.key).recordFailure now)
    pool := if x.entry ∈ s.entriesOf x.key then
        s.pool.set x.key ((s.entriesOf x.key).erase x.entry)
      else s.pool }

/-- The pool after a release that did not fail. -/
def returned (cfg : Settings T) (s : Pool T) (x : Holding) (now : T) : Pool T :=
  { s with
    held := s.held.erase x
    circuitBreakers :=
      s.circuitBreakers.set x.key ((s.getCircuitBreaker cfg x.key).recordSuccess now) }.modify
    x.entry fun e ↦ { e with inUse := false, lastUsed := now }

theorem Inv.release_eq_some (h : Inv s) {x : Holding} {failed : Bool} {now : T}
    (hs : s.release cfg x failed now = some s') : x ∈ s.held ∧
      s' = if failed then (s.dropped cfg x now).startClosing .request [x.entry]
        else s.returned cfg x now := by
  rw [release] at hs
  split at hs
  · refine ⟨‹_›, ?_⟩
    rcases failed with _ | _
    · exact (Option.some.inj hs).symm
    · rw [if_pos rfl] at hs ⊢
      rw [← Option.some.inj hs]
      refine congrArg (fun t : Pool T ↦ t.startClosing .request [x.entry]) ?_
      have hlt : ∀ i ∈ s.entriesOf x.key, i < s.added.length := fun i hi ↦ h.lt hi
      have hany : (s.entriesOf x.key).any (fun j ↦ s.same j x.entry) = true ↔
          x.entry ∈ s.entriesOf x.key := by
        rw [List.any_eq_true]
        constructor
        · rintro ⟨j, hj, hsame⟩
          exact (h.same_iff (hlt j hj)).mp hsame ▸ hj
        · exact fun hmem ↦ ⟨x.entry, hmem, (h.same_iff (hlt _ hmem)).mpr rfl⟩
      rw [dropped, ← h.remove hlt]
      by_cases hmem : x.entry ∈ s.entriesOf x.key
      · rw [if_pos hmem]
        exact if_pos (hany.mpr hmem)
      · rw [if_neg hmem]
        exact if_neg (mt hany.mp hmem)
  · exact absurd hs (by simp)

omit [LinearOrder T] in
theorem entriesOf_dropped (x : Holding) (now : T) (key : SessionKey) :
    (s.dropped cfg x now).entriesOf key
      = if key = x.key then (s.entriesOf x.key).erase x.entry else s.entriesOf key := by
  rw [dropped, entriesOf]
  by_cases hmem : x.entry ∈ s.entriesOf x.key
  · rw [if_pos hmem]
    exact entriesOf_set _ _ _
  · rw [if_neg hmem, List.erase_of_not_mem hmem]
    split
    · rw [entriesOf, ‹key = x.key›]
    · rfl

omit [LinearOrder T] in
theorem entriesOf_dropped_sublist (x : Holding) (now : T) (key : SessionKey) :
    ((s.dropped cfg x now).entriesOf key).Sublist (s.entriesOf key) := by
  rw [entriesOf_dropped]
  split
  · rename_i hkey
    exact hkey ▸ List.erase_sublist
  · exact .refl _

theorem Inv.release (h : Inv s) {x : Holding} {failed : Bool} {now : T}
    (hs : s.release cfg x failed now = some s') : Inv s' := by
  obtain ⟨hx, rfl⟩ := h.release_eq_some hs
  rcases failed with _ | _
  · rw [if_neg Bool.false_ne_true]
    -- the mark goes when the client has given the entry up
    refine Inv.modify ?_ (fun _ ↦ rfl) fun y hy heq ↦ ?_
    · exact h.take rfl (fun _ ↦ .refl _) (fun _ ↦ Or.inl) (fun _ ↦ Or.inl) List.erase_sublist
    · exact absurd heq (h.entry_ne hx hy)
  · rw [if_pos rfl]
    have hdropped : Inv (s.dropped cfg x now) := h.take rfl (entriesOf_dropped_sublist x now)
      (fun _ ↦ Or.inl) (fun _ ↦ Or.inl) List.erase_sublist
    refine hdropped.startClosing _ fun i hi ↦ ?_
    rw [List.mem_singleton] at hi
    subst hi
    refine ⟨lt_of_keyOf (h.heldKey x hx), fun key hmem ↦ ?_⟩
    obtain rfl : key = x.key := Option.some.inj
      ((h.keyOf key _ ((entriesOf_dropped_sublist x now key).subset hmem)).symm.trans
        (h.heldKey x hx))
    rw [entriesOf_dropped, if_pos rfl] at hmem
    exact (h.nodup x.key).not_mem_erase hmem

theorem Inv.step (h : Inv s) {ev : Event T} (hs : s.step cfg ev = some s') : Inv s' := by
  rcases ev with ⟨client, key, now⟩ | ⟨x, failed, now⟩ | ⟨key, now⟩ | now | _ | n | _ | key | _ |
    _ | _
  · exact Option.some.inj hs ▸ h.acquire client key now
  · exact h.release hs
  · exact Option.some.inj hs ▸ h.add key now
  · rw [Pool.step] at hs
    split at hs
    · exact Option.some.inj hs ▸ h.reapExpired now
    · exact absurd hs (by simp)
  · exact h.reaperResumes hs
  · exact h.resume hs
  · exact Option.some.inj hs ▸ h.start
  · exact Option.some.inj hs ▸ h.removeAll key
  · exact Option.some.inj hs ▸ h.stop
  · exact h.stopResumes hs
  · exact h.cancelReaper hs

end Keeping

end Pool

/-! ## Exclusivity -/

/-- The operations of clients and of the reaper; `remove_all` and `stop` are not among them. -/
def Event.ofClients {T : Type*} : Event T → Bool
  | .removeAll _ => false
  | .stop => false
  | .stopResumes => false
  | .cancelReaper => false
  | _ => true

namespace Pool

variable {T : Type*} [AddCommGroup T] [LinearOrder T] {cfg : Settings T} {s s' : Pool T}

/-- **Exclusivity.** An entry that a client has acquired and not released is in the pool, neither
closed nor about to be, and no other client has it. What `acquire` returns is none of these; it is
young enough, not closed, and was added under the key; and with the breaker of the key open it
returns nothing. -/
structure Exclusive (cfg : Settings T) (s : Pool T) : Prop where
  pooled : ∀ x ∈ s.held, x.entry ∈ s.entriesOf x.key
  unclosed : ∀ x ∈ s.held, x.entry ∉ s.closed ∧ x.entry ∉ s.transit
  alone : (s.held.map Holding.entry).Nodup
  acquired : ∀ key now i, s.acquired cfg key now = some i →
    (∀ x ∈ s.held, x.entry ≠ i) ∧ i ∉ s.closed ∧ s.keyOf i = some key ∧
      ∃ e, s.entryAt i = some e ∧ now - e.createdAt < cfg.ttl
  opened : ∀ key now, ((s.getCircuitBreaker cfg key).observe now).state = .opened →
    s.acquired cfg key now = none

def HeldPooled (s : Pool T) : Prop := ∀ x ∈ s.held, x.entry ∈ s.entriesOf x.key

theorem Inv.exclusive (h : Inv s) (hheld : HeldPooled s) : Exclusive cfg s where
  pooled := hheld
  unclosed := fun x hx ↦ ⟨h.unclosed x.key _ (hheld x hx),
    fun htransit ↦ (h.transit _ htransit).2 x.key (hheld x hx)⟩
  alone := h.alone
  acquired := by
    intro key now i hacq
    obtain ⟨hmem, e, hentry, -, hage⟩ := acquired_eq_some hacq
    exact ⟨h.not_held_of_acquired hacq, h.unclosed key i hmem, h.keyOf key i hmem, e, hentry, hage⟩
  opened := by
    intro key now hopen
    rw [Pool.acquired]
    split
    · rfl
    · rw [CircuitBreaker.allowsRequest_eq, hopen]
      rfl

theorem HeldPooled.acquire (hheld : HeldPooled s) (client : ℕ) (key : SessionKey) (now : T) :
    HeldPooled (s.acquire cfg client key now) := by
  rw [Pool.acquire]
  split
  · exact hheld
  dsimp only
  rcases hacq : s.acquired cfg key now with _ | i
  · exact hheld
  · intro x hx
    rcases List.mem_append.mp hx with hold | hnew
    · exact hheld x hold
    · rw [List.mem_singleton] at hnew
      subst hnew
      exact (acquired_eq_some hacq).1

section HeldPooled

variable (h : Inv s) (hheld : HeldPooled s)

include h hheld

theorem HeldPooled.release {x : Holding} {failed : Bool} {now : T}
    (hs : s.release cfg x failed now = some s') : HeldPooled s' := by
  obtain ⟨hx, rfl⟩ := h.release_eq_some hs
  rcases failed with _ | _
  · exact fun y hy ↦ hheld y (List.mem_of_mem_erase hy)
  · intro y hy
    rw [if_pos rfl, held_startClosing] at hy
    rw [if_pos rfl, entriesOf_startClosing, entriesOf_dropped]
    have hmem := hheld y (List.mem_of_mem_erase hy)
    split
    · rename_i hkey
      exact (List.mem_erase_of_ne (h.entry_ne hx hy)).mpr (hkey ▸ hmem)
    · exact hmem

theorem HeldPooled.add (key : SessionKey) (now : T) : HeldPooled (s.add cfg key now) := by
  obtain ⟨hperm, -, hidle, -⟩ := @Inv.evict _ _ _ cfg s h key
  intro x hx
  rw [Pool.add, held_startClosing] at hx
  rw [Pool.add, entriesOf_startClosing, entriesOf_place]
  split
  · rename_i hkey
    have hmem := hperm.mem_iff.mpr (hkey ▸ hheld x hx)
    -- it is in use, and so it is not evicted
    refine List.mem_append_left _ ((List.mem_append.mp hmem).resolve_left fun hev ↦ ?_)
    exact absurd ((hidle _ hev).symm.trans (h.inUse x hx)) Bool.false_ne_true
  · exact hheld x hx

theorem HeldPooled.reapExpired (now : T) : HeldPooled (s.reapExpired cfg now) := by
  intro x hx
  rw [Pool.reapExpired, held_reaperCloses] at hx
  rw [Pool.reapExpired, entriesOf_reaperCloses]
  refine h.mem_entriesOf_reaped.mpr ⟨hheld x hx, fun hexp ↦ ?_⟩
  -- the reaper takes idle entries only
  obtain ⟨-, e, hentry, huse, -⟩ := mem_expired_iff.mp hexp
  have hin := h.inUse x hx
  rw [Pool.inUse, hentry] at hin
  exact absurd (huse.symm.trans hin) Bool.false_ne_true

theorem HeldPooled.step {ev : Event T} (hev : ev.ofClients = true)
    (hs : s.step cfg ev = some s') : HeldPooled s' := by
  rcases ev with ⟨client, key, now⟩ | ⟨x, failed, now⟩ | ⟨key, now⟩ | now | _ | n | _ | key | _ |
    _ | _
  · exact Option.some.inj hs ▸ hheld.acquire client key now
  · exact hheld.release h hs
  · exact Option.some.inj hs ▸ hheld.add h key now
  · rw [Pool.step] at hs
    split at hs
    · exact Option.some.inj hs ▸ hheld.reapExpired h now
    · exact absurd hs (by simp)
  · obtain ⟨rest, -, rfl⟩ := reaperResumes_eq_some hs
    intro x hx
    rw [held_reaperCloses] at hx
    rw [entriesOf_reaperCloses]
    exact hheld x hx
  · obtain ⟨c, -, rfl⟩ := resume_eq_some hs
    intro x hx
    rw [held_startClosing] at hx
    rw [entriesOf_startClosing]
    exact hheld x hx
  · rw [← Option.some.inj hs, Pool.start]
    split
    · exact hheld
    · exact hheld
  · exact absurd hev (by simp [Event.ofClients])
  · exact absurd hev (by simp [Event.ofClients])
  · exact absurd hev (by simp [Event.ofClients])
  · exact absurd hev (by simp [Event.ofClients])

end HeldPooled

/-- However clients acquire, release and add, and whenever the reaper runs, entries that are handed
out are exclusive. -/
theorem exclusive_of_run {events : List (Event T)} (hevents : ∀ ev ∈ events, ev.ofClients = true)
    (hrun : Run.run (Pool.step cfg) Pool.init events = some s) : Exclusive cfg s := by
  have hinit : Inv (Pool.init : Pool T) ∧ HeldPooled (Pool.init : Pool T) :=
    ⟨.init, fun x hx ↦ absurd hx List.not_mem_nil⟩
  have hend : Inv s ∧ HeldPooled s := by
    refine @Run.invariant_of_run _ _ (Pool.step cfg) _ (fun s ↦ Inv s ∧ HeldPooled s) ?_ _ _ _
      hinit (Run.guarded_of_forall_mem _ fun ev hev _ ↦ hevents ev hev) hrun
    exact fun s ev s' h hev hs ↦ ⟨h.1.step hs, h.2.step h.1 hev hs⟩
  exact hend.1.exclusive hend.2

/-! ### A pool for one session a key -/

/-- One entry a key, for ten seconds. -/
def oneForTen : Settings ℤ where
  perKeyMax := 1
  ttl := 10
  cbThreshold := 3
  cooldown := ((60 : ℤ) : WithTop ℤ)

def filesKey : SessionKey := ⟨"http://files", "anonymous", "sse"⟩

def poolAfter (events : List (Event ℤ)) : Pool ℤ :=
  (Run.run (Pool.step oneForTen) Pool.init events).getD Pool.init

/-- A client has the only entry when another one is added; the reaper comes when both are too
old. -/
def reapedAround : List (Event ℤ) :=
  [.start, .add filesKey 0, .acquire 1 filesKey 1, .add filesKey 2, .reapExpired 20, .reaperResumes]

theorem exclusive_reapedAround :
    (∀ ev ∈ reapedAround, ev.ofClients = true) ∧
      Run.run (Pool.step oneForTen) Pool.init reapedAround = some (poolAfter reapedAround) ∧
      (poolAfter reapedAround).held = [⟨1, filesKey, 0⟩] ∧ (poolAfter reapedAround).closed = [1] ∧
      Exclusive oneForTen (poolAfter reapedAround) := by
  have hevents : ∀ ev ∈ reapedAround, ev.ofClients = true := by
    simp [reapedAround, Event.ofClients]
  have hrun : Run.run (Pool.step oneForTen) Pool.init reapedAround
      = some (poolAfter reapedAround) := Run.run_eq_some_getD (by decide) _
  exact ⟨hevents, hrun, by decide, by decide, exclusive_of_run hevents hrun⟩

end Pool

end SessionPool

end ArgusMcp
