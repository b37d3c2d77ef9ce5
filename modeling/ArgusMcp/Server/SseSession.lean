import ArgusMcp.Server.Session
import Mathlib.Algebra.Order.Ring.Rat
import Mathlib.Tactic.Linarith

/-!
# The sessions of SSE connections

`handle_sse` has the session manager create a session before it sets the streams up, and has it
removed behind the block in which the server loop runs. A session expires when its `last_active` is
more than its `ttl` ago, and the cleanup loop of the manager removes those that have. Only
`get_session` moves `last_active`, and nothing calls it.

A step is what happens between two points where `handle_sse` waits; in between time passes, and the
cleanup loop may wake up at any moment. Of the SDK there is when the streams are there, when a
message goes through them, and how the block is left. The number that `uuid4` gives has not been
given before.

## What is to be accounted for

The session of an open connection is there, and has not expired, while its messages flow; and that
of a connection that has ended is not there (`Accounted`). Messages flow as long as there is one
before the `ttl` since the last one is over. Nothing is asked for a connection that was silent for
longer, even if it goes on.

So it is in a run exactly if no connection gets older than the `ttl` while its messages flow, none
ends but by the loop returning, as long as its session is there, and the manager is not stopped
while messages flow (`alwaysAccounted_iff_safe`).
-/

namespace ArgusMcp

open ArgusMcp.Runtime

namespace SseSession

/-- What the session manager and the resilience guard are given, by default. -/
structure Settings where
  /-- `SESSION_DEFAULT_TTL`. -/
  defaultTtl : ℚ := 1800
  /-- `DEFAULT_CLEANUP_DEADLINE`. -/
  cleanupDeadline : ℚ := 15

/-! ## The session manager -/

structure TimedSession extends MCPSession where
  lastActive : ℚ
  ttl : ℚ

/-- The session has been idle longer than its `ttl`. -/
def TimedSession.expired (session : TimedSession) (now : ℚ) : Bool :=
  decide (session.ttl < now - session.lastActive)

structure SessionManager where
  sessions : Dict String TimedSession
  cleanupTask : Bool

namespace SessionManager

/-- What is left by `stop`. -/
def stop : SessionManager := ⟨Dict.empty, false⟩

variable (manager : SessionManager)

def start : SessionManager := { manager with cleanupTask := true }

def createSession (settings : Settings) (now : ℚ) (id : String) (session : MCPSession) :
    SessionManager :=
  { manager with
    sessions := manager.sessions.set id
      { toMCPSession := session, lastActive := now, ttl := settings.defaultTtl } }

def removeSession (id : String) : SessionManager :=
  { manager with sessions := manager.sessions.del id }

/-- A round of `_cleanup_loop`. -/
def cleanup (now : ℚ) : SessionManager :=
  { manager with sessions := manager.sessions.filter fun _ session ↦ !session.expired now }

end SessionManager

/-! ## A connection -/

/-- Where `handle_sse` is. -/
inductive Phase where
  /-- It waits for `connect_sse`. -/
  | connecting
  /-- It waits for the server loop. -/
  | running
  | ended
deriving DecidableEq

/-- How `handle_sse` ends. -/
inductive Ending where
  /-- `connect_sse` raises. -/
  | setUpFails
  /-- The server loop returns, and the block is left. -/
  | returns
  | raises
  | cancelled
deriving DecidableEq

/-- Where it can end in this way. -/
def Ending.possible : Ending → Phase → Bool
  | .setUpFails, .connecting | .returns, .running | .raises, .running => true
  | .cancelled, .connecting | .cancelled, .running => true
  | _, _ => false

/-- A call of `handle_sse` that has a session. -/
structure Connection where
  phase : Phase
  openedAt : ℚ
  /-- The last message before a silence that is too long, or when the connection was opened. -/
  activeAt : ℚ

/-- The connection is open, and its messages flow. -/
def Connection.Flows (settings : Settings) (now : ℚ) (c : Connection) : Prop :=
  c.phase ≠ .ended ∧ now - c.activeAt ≤ settings.defaultTtl

instance (settings : Settings) (now : ℚ) (c : Connection) : Decidable (c.Flows settings now) :=
  inferInstanceAs (Decidable (_ ∧ _))

/-- A message goes through, one way or the other. -/
def Connection.onMessage (settings : Settings) (now : ℚ) (c : Connection) : Connection :=
  if now - c.activeAt ≤ settings.defaultTtl then { c with activeAt := now } else c

/-- What a request for a connection meets. -/
structure Arrival where
  /-- `_authenticate_request` does not raise. -/
  authenticated : Bool
  manager : Bool
  registry : Option RegistryState
  sessionManager : Bool

/-- What the session is given, if it comes to that. -/
def Arrival.session (arrival : Arrival) : Option MCPSession :=
  if arrival.authenticated ∧ arrival.manager ∧ arrival.sessionManager then
    arrival.registry.map fun registry ↦
      { routingTable := registry.routeMap.mapValues Prod.fst
        capabilitySnapshot := fun capType ↦ (registry.advertisedLists capType).length
        transportType := "sse" }
  else none

/-- `cleanup_with_deadline`. A coroutine that does not wait is done before a deadline that lies
ahead, and is not begun if there is no time at all. -/
def cleanupWithDeadline {σ : Type*} (settings : Settings) (coro : σ → σ) (s : σ) : σ :=
  if 0 < settings.cleanupDeadline then coro s else s

/-- What `handle_sse` does behind the block, for the session with this id. -/
def afterBlock (settings : Settings) (ending : Ending) (id : String) (manager : SessionManager) :
    SessionManager :=
  match ending with
  | .returns => cleanupWithDeadline settings (·.removeSession id) manager
  | .setUpFails | .raises | .cancelled => manager

/-! ## Runs -/

/-- The time, the manager, and the connections by the ids of their sessions. -/
structure State where
  now : ℚ
  manager : SessionManager
  connections : Dict String Connection

def initial : State := ⟨0, ⟨Dict.empty, false⟩, Dict.empty⟩

inductive Event where
  | start
  | stop
  | cleanup
  | pass (seconds : ℚ)
  /-- `handle_sse` is called, and a session has this id. -/
  | arrive (arrival : Arrival) (id : String)
  /-- `connect_sse` gives the streams. -/
  | streams (id : String)
  | message (id : String)
  | finish (id : String) (ending : Ending)

variable (settings : Settings)

/-- The connection changes, if it is in this phase. -/
def State.update (s : State) (id : String) (allowed : Phase → Bool) (f : Connection → Connection) :
    Option State :=
  (s.connections.get? id).bind fun c ↦
    if allowed c.phase then some { s with connections := s.connections.set id (f c) } else none

def step (s : State) : Event → Option State
  | .start => some { s with manager := s.manager.start }
  | .stop => some { s with manager := .stop }
  | .cleanup =>
    if s.manager.cleanupTask then some { s with manager := s.manager.cleanup s.now } else none
  | .pass seconds => if 0 ≤ seconds then some { s with now := s.now + seconds } else none
  | .arrive arrival id =>
    if s.connections.get? id = none then
      match arrival.session with
      | none => some s
      | some session => some
          { s with
            manager := s.manager.createSession settings s.now id session
            connections := s.connections.set id ⟨.connecting, s.now, s.now⟩ }
    else none
  | .streams id => s.update id (· = .connecting) fun c ↦ { c with phase := .running }
  | .message id => s.update id (· = .running) (Connection.onMessage settings s.now)
  | .finish id ending =>
    (s.update id ending.possible fun c ↦ { c with phase := .ended }).map fun s ↦
      { s with manager := afterBlock settings ending id s.manager }

/-! ## What should be -/

/-- The session is in the manager, and has not expired. -/
def State.Live (s : State) (id : String) : Prop :=
  ∃ session, s.manager.sessions.get? id = some session ∧ session.expired s.now = false

/-- Every session is accounted for. -/
structure Accounted (s : State) : Prop where
  live : ∀ id c, s.connections.get? id = some c → c.Flows settings s.now → s.Live id
  removed : ∀ id c, s.connections.get? id = some c → c.phase = .ended →
    s.manager.sessions.get? id = none

/-- In every state the events lead to, every session is accounted for. -/
def AlwaysAccounted (events : List Event) : Prop :=
  ∀ pre s, pre <+: events → Run.run (step settings) initial pre = some s → Accounted settings s

/-- **What keeps the account.** No connection gets older than the `ttl` while its messages flow;
one whose session is there ends by the loop returning; the manager is stopped when no messages
flow. Of a time that passes only the end is looked at, which is the next state there is: a moment
before it is the end of a shorter time, and a run that stops there passes it as a state. -/
def Safe (s : State) : Event → Prop
  | .pass seconds => 0 ≤ seconds → ∀ id c, s.connections.get? id = some c →
      c.Flows settings (s.now + seconds) → s.now + seconds - c.openedAt ≤ settings.defaultTtl
  | .finish id ending => ∀ c, s.connections.get? id = some c → ending.possible c.phase →
      (s.manager.sessions.get? id).isSome → ending = .returns ∧ 0 < settings.cleanupDeadline
  | .stop => ∀ id c, s.connections.get? id = some c → ¬ c.Flows settings s.now
  | _ => True

/-! ## The events -/

section Events

variable {settings : Settings} {s m : State} {id : String} {c c' : Connection}

/-- A session is that of a connection, and has been active when that was opened. -/
def Known (settings : Settings) (s : State) : Prop :=
  ∀ id session, s.manager.sessions.get? id = some session →
    ∃ c, s.connections.get? id = some c ∧ session.lastActive = c.openedAt ∧
      session.ttl = settings.defaultTtl

theorem Known.mono (h : Known settings s)
    (hsessions : ∀ id session, m.manager.sessions.get? id = some session →
      s.manager.sessions.get? id = some session)
    (hconnections : ∀ id c, s.connections.get? id = some c →
      ∃ c', m.connections.get? id = some c' ∧ c'.openedAt = c.openedAt) : Known settings m := by
  intro id session hsession
  obtain ⟨c, hc, hactive, httl⟩ := h id session (hsessions id session hsession)
  obtain ⟨c', hc', hopened⟩ := hconnections id c hc
  exact ⟨c', hc', hactive.trans hopened.symm, httl⟩

theorem Known.live_iff (h : Known settings s) (hc : s.connections.get? id = some c) :
    s.Live id ↔ (s.manager.sessions.get? id).isSome ∧
      s.now - c.openedAt ≤ settings.defaultTtl := by
  constructor
  · rintro ⟨session, hsession, hexpired⟩
    obtain ⟨c', hc', hactive, httl⟩ := h id session hsession
    obtain rfl := Option.some.inj (hc.symm.trans hc')
    rw [TimedSession.expired, hactive, httl, decide_eq_false_iff_not, not_lt] at hexpired
    exact ⟨Option.isSome_iff_exists.mpr ⟨session, hsession⟩, hexpired⟩
  · rintro ⟨hsome, hage⟩
    obtain ⟨session, hsession⟩ := Option.isSome_iff_exists.mp hsome
    obtain ⟨c', hc', hactive, httl⟩ := h id session hsession
    obtain rfl := Option.some.inj (hc.symm.trans hc')
    refine ⟨session, hsession, ?_⟩
    rw [TimedSession.expired, hactive, httl, decide_eq_false_iff_not, not_lt]
    exact hage

/-- **A round of the cleanup loop** takes no session that has not expired. -/
theorem accounted_cleanup (h : Accounted settings s) :
    Accounted settings { s with manager := s.manager.cleanup s.now } where
  live id c hc hflows := by
    obtain ⟨session, hsession, hexpired⟩ := h.live id c hc hflows
    refine ⟨session, ?_, hexpired⟩
    rw [SessionManager.cleanup, Dict.get?_filter, hsession, Option.filter_some, hexpired]
    rfl
  removed id c hc hended := by
    rw [SessionManager.cleanup, Dict.get?_filter, h.removed id c hc hended]
    rfl

/-- **Time that passes** is no harm if no connection gets too old while its messages flow. -/
theorem accounted_pass_iff (hknown : Known settings s) (h : Accounted settings s) {seconds : ℚ}
    (hpos : 0 ≤ seconds) : Accounted settings { s with now := s.now + seconds } ↔
      ∀ id c, s.connections.get? id = some c → c.Flows settings (s.now + seconds) →
        s.now + seconds - c.openedAt ≤ settings.defaultTtl := by
  have hknown' : Known settings { s with now := s.now + seconds } := hknown
  constructor
  · intro hafter id c hc hflows
    exact (hknown'.live_iff hc).mp (hafter.live id c hc hflows) |>.2
  · refine fun hage ↦ ⟨fun id c hc hflows ↦ ?_, h.removed⟩
    have hbefore : c.Flows settings s.now := ⟨hflows.1, by linarith [hflows.2]⟩
    refine (hknown'.live_iff hc).mpr ⟨?_, hage id c hc hflows⟩
    exact ((hknown.live_iff hc).mp (h.live id c hc hbefore)).1

/-- **Stopping** leaves no session. -/
theorem accounted_stop_iff : Accounted settings { s with manager := .stop } ↔
    ∀ id c, s.connections.get? id = some c → ¬ c.Flows settings s.now := by
  constructor
  · intro h id c hc hflows
    obtain ⟨session, hsession, -⟩ := h.live id c hc hflows
    exact absurd hsession (by simp [SessionManager.stop, Dict.get?, Dict.empty])
  · exact fun h ↦ ⟨fun id c hc hflows ↦ absurd hflows (h id c hc), fun _ _ _ _ ↦ rfl⟩

theorem accounted_arrive (h : Accounted settings s) (session : MCPSession) :
    Accounted settings
      { s with
        manager := s.manager.createSession settings s.now id session
        connections := s.connections.set id ⟨.connecting, s.now, s.now⟩ } where
  live id' c hc hflows := by
    rw [Dict.get?_set] at hc
    by_cases hid : id' = id
    · rw [if_pos hid, Option.some.injEq] at hc
      subst hc hid
      refine ⟨_, Dict.get?_set_self _ _ _, ?_⟩
      rw [TimedSession.expired, decide_eq_false_iff_not, not_lt]
      exact hflows.2
    · rw [if_neg hid] at hc
      obtain ⟨session', hsession, hexpired⟩ := h.live id' c hc hflows
      exact ⟨session', (Dict.get?_set_of_ne _ _ hid).trans hsession, hexpired⟩
  removed id' c hc hended := by
    rw [Dict.get?_set] at hc
    by_cases hid : id' = id
    · rw [if_pos hid, Option.some.injEq] at hc
      subst hc
      exact absurd hended (by simp)
    · rw [if_neg hid] at hc
      exact (Dict.get?_set_of_ne _ _ hid).trans (h.removed id' c hc hended)

theorem known_arrive (h : Known settings s) (session : MCPSession) :
    Known settings
      { s with
        manager := s.manager.createSession settings s.now id session
        connections := s.connections.set id ⟨.connecting, s.now, s.now⟩ } := by
  intro id' session' hsession
  rw [SessionManager.createSession, Dict.get?_set] at hsession
  by_cases hid : id' = id
  · rw [if_pos hid, Option.some.injEq] at hsession
    subst hsession hid
    exact ⟨_, Dict.get?_set_self _ _ _, rfl, rfl⟩
  · rw [if_neg hid] at hsession
    obtain ⟨c, hc, htimes⟩ := h id' session' hsession
    exact ⟨c, (Dict.get?_set_of_ne _ _ hid).trans hc, htimes⟩

theorem update_eq_some_iff {allowed : Phase → Bool} {f : Connection → Connection} :
    s.update id allowed f = some m ↔ ∃ c, s.connections.get? id = some c ∧ allowed c.phase ∧
      m = { s with connections := s.connections.set id (f c) } := by
  rw [State.update, Option.bind_eq_some_iff]
  refine exists_congr fun c ↦ and_congr_right fun _ ↦ ?_
  by_cases hallowed : allowed c.phase
  · rw [if_pos hallowed, Option.some.injEq]
    exact ⟨fun h ↦ ⟨hallowed, h.symm⟩, fun h ↦ h.2.symm⟩
  · rw [if_neg hallowed]
    exact iff_of_false (by simp) fun h ↦ hallowed h.1

theorem known_update (h : Known settings s) (hc : s.connections.get? id = some c)
    (hopened : c'.openedAt = c.openedAt) {manager : SessionManager}
    (hmanager : ∀ id session, manager.sessions.get? id = some session →
      s.manager.sessions.get? id = some session) :
    Known settings ⟨s.now, manager, s.connections.set id c'⟩ := by
  refine h.mono hmanager fun id' d hd ↦ ?_
  dsimp only
  rw [Dict.get?_set]
  by_cases hid : id' = id
  · rw [if_pos hid]
    subst hid
    obtain rfl := Option.some.inj (hc.symm.trans hd)
    exact ⟨c', rfl, hopened⟩
  · rw [if_neg hid]
    exact ⟨d, hd, rfl⟩

/-- **A connection that goes on** keeps its session. -/
theorem accounted_update (h : Accounted settings s) (hc : s.connections.get? id = some c)
    (hopen : c'.phase ≠ .ended) (hflows : c'.Flows settings s.now → c.Flows settings s.now) :
    Accounted settings { s with connections := s.connections.set id c' } where
  live id' d hd hd' := by
    rw [Dict.get?_set] at hd
    by_cases hid : id' = id
    · rw [if_pos hid, Option.some.injEq] at hd
      subst hd hid
      exact h.live id' c hc (hflows hd')
    · rw [if_neg hid] at hd
      exact h.live id' d hd hd'
  removed id' d hd hended := by
    rw [Dict.get?_set] at hd
    by_cases hid : id' = id
    · rw [if_pos hid, Option.some.injEq] at hd
      exact absurd (hd ▸ hended) hopen
    · rw [if_neg hid] at hd
      exact h.removed id' d hd hended

theorem accounted_ended_iff (h : Accounted settings s) {manager : SessionManager}
    (hothers : ∀ id', id' ≠ id → manager.sessions.get? id' = s.manager.sessions.get? id') :
    Accounted settings
      { s with
        connections := s.connections.set id { c with phase := .ended }
        manager := manager } ↔ manager.sessions.get? id = none := by
  constructor
  · exact fun hall ↦ hall.removed id _ (Dict.get?_set_self _ _ _) rfl
  · refine fun hgone ↦ ⟨fun id' d hd hflows ↦ ?_, fun id' d hd hended ↦ ?_⟩
    · rw [Dict.get?_set] at hd
      by_cases hid : id' = id
      · rw [if_pos hid, Option.some.injEq] at hd
        exact absurd (hd ▸ rfl) hflows.1
      · rw [if_neg hid] at hd
        obtain ⟨session, hsession, hexpired⟩ := h.live id' d hd hflows
        exact ⟨session, (hothers id' hid).trans hsession, hexpired⟩
    · by_cases hid : id' = id
      · rw [hid]
        exact hgone
      · rw [Dict.get?_set, if_neg hid] at hd
        exact (hothers id' hid).trans (h.removed id' d hd hended)

theorem get?_afterBlock {ending : Ending} {manager : SessionManager} {id' : String} :
    (afterBlock settings ending id manager).sessions.get? id' =
      if id' = id ∧ ending = .returns ∧ 0 < settings.cleanupDeadline then none
      else manager.sessions.get? id' := by
  by_cases hremoves : ending = .returns ∧ 0 < settings.cleanupDeadline
  · obtain ⟨rfl, hpos⟩ := hremoves
    have hafter : afterBlock settings .returns id manager = manager.removeSession id := if_pos hpos
    rw [hafter, SessionManager.removeSession, Dict.get?_del]
    refine if_congr ?_ rfl rfl
    exact (and_iff_left ⟨rfl, hpos⟩).symm
  · have hafter : afterBlock settings ending id manager = manager := by
      rcases ending with _ | _ | _ | _
      · rfl
      · exact if_neg fun hpos ↦ hremoves ⟨rfl, hpos⟩
      · rfl
      · rfl
    rw [hafter, if_neg fun h ↦ hremoves h.2]

/-- **An ending** removes the session if the loop has returned. -/
theorem accounted_finish_iff (h : Accounted settings s) {ending : Ending} : Accounted settings
      { s with
        connections := s.connections.set id { c with phase := .ended }
        manager := afterBlock settings ending id s.manager } ↔
      ((s.manager.sessions.get? id).isSome → ending = .returns ∧ 0 < settings.cleanupDeadline) := by
  rw [accounted_ended_iff h fun id' hid ↦ by rw [get?_afterBlock, if_neg fun h ↦ hid h.1],
    get?_afterBlock]
  by_cases hremoves : ending = .returns ∧ 0 < settings.cleanupDeadline
  · rw [if_pos ⟨rfl, hremoves⟩]
    exact iff_of_true rfl fun _ ↦ hremoves
  · rw [if_neg fun h ↦ hremoves h.2, imp_iff_not hremoves, Option.not_isSome_iff_eq_none]

/-- **One event**: what is known stays so, and the account is kept exactly if the event is safe. -/
theorem step_spec {event : Event} (hknown : Known settings s) (h : Accounted settings s)
    (hstep : step settings s event = some m) :
    Known settings m ∧ (Accounted settings m ↔ Safe settings s event) := by
  rcases event with _ | _ | _ | seconds | ⟨arrival, id⟩ | id | id | ⟨id, ending⟩
  · obtain rfl := Option.some.inj hstep
    exact ⟨hknown, iff_of_true ⟨h.live, h.removed⟩ trivial⟩
  · obtain rfl := Option.some.inj hstep
    refine ⟨fun id session hsession ↦ ?_, accounted_stop_iff⟩
    exact absurd hsession (by simp [SessionManager.stop, Dict.get?, Dict.empty])
  · rw [step] at hstep
    obtain ⟨-, hm⟩ := Option.ite_none_right_eq_some.mp hstep
    obtain rfl := Option.some.inj hm
    refine ⟨hknown.mono (fun id session hsession ↦ ?_) fun id c hc ↦ ⟨c, hc, rfl⟩,
      iff_of_true (accounted_cleanup h) trivial⟩
    rw [SessionManager.cleanup, Dict.get?_filter, Option.filter_eq_some_iff] at hsession
    exact hsession.1
  · rw [step] at hstep
    obtain ⟨hpos, hm⟩ := Option.ite_none_right_eq_some.mp hstep
    obtain rfl := Option.some.inj hm
    refine ⟨hknown, (accounted_pass_iff hknown h hpos).trans ?_⟩
    exact (imp_iff_right hpos).symm
  · rw [step] at hstep
    obtain ⟨-, hm⟩ := Option.ite_none_right_eq_some.mp hstep
    rcases harrival : arrival.session with _ | session
    · rw [harrival] at hm
      obtain rfl := Option.some.inj hm
      exact ⟨hknown, iff_of_true h trivial⟩
    · rw [harrival] at hm
      obtain rfl := Option.some.inj hm
      exact ⟨known_arrive hknown session, iff_of_true (accounted_arrive h session) trivial⟩
  · rw [step] at hstep
    obtain ⟨c, hc, hphase, rfl⟩ := update_eq_some_iff.mp hstep
    have hopen : c.phase ≠ .ended := by
      rw [of_decide_eq_true hphase]
      decide
    have hopened : ({ c with phase := .running } : Connection).openedAt = c.openedAt := rfl
    refine ⟨known_update hknown hc hopened fun _ _ h ↦ h, iff_of_true ?_ trivial⟩
    exact accounted_update h hc (by simp) fun hflows ↦ ⟨hopen, hflows.2⟩
  · rw [step] at hstep
    obtain ⟨c, hc, hphase, rfl⟩ := update_eq_some_iff.mp hstep
    have hopen : c.phase ≠ .ended := by
      rw [of_decide_eq_true hphase]
      decide
    by_cases hflows : s.now - c.activeAt ≤ settings.defaultTtl
    · have hmessage : c.onMessage settings s.now = { c with activeAt := s.now } := if_pos hflows
      have hopened : ({ c with activeAt := s.now } : Connection).openedAt = c.openedAt := rfl
      rw [hmessage]
      exact ⟨known_update hknown hc hopened fun _ _ h ↦ h,
        iff_of_true (accounted_update h hc hopen fun _ ↦ ⟨hopen, hflows⟩) trivial⟩
    · have hmessage : c.onMessage settings s.now = c := if_neg hflows
      rw [hmessage]
      exact ⟨known_update hknown hc rfl fun _ _ h ↦ h,
        iff_of_true (accounted_update h hc hopen fun h ↦ h) trivial⟩
  · rw [step, Option.map_eq_some_iff] at hstep
    obtain ⟨n, hn, rfl⟩ := hstep
    obtain ⟨c, hc, hphase, rfl⟩ := update_eq_some_iff.mp hn
    have hmanager : ∀ id' session,
        (afterBlock settings ending id s.manager).sessions.get? id' = some session →
          s.manager.sessions.get? id' = some session := by
      intro id' session hsession
      rw [get?_afterBlock] at hsession
      exact (Option.ite_none_left_eq_some.mp hsession).2
    have hopened : ({ c with phase := .ended } : Connection).openedAt = c.openedAt := rfl
    refine ⟨known_update hknown hc hopened hmanager, (accounted_finish_iff h).trans ?_⟩
    · constructor
      · rintro hall d hd -
        obtain rfl := Option.some.inj (hc.symm.trans hd)
        exact hall
      · exact fun hall ↦ hall c hc hphase

theorem safe_of_step_eq_none {event : Event} (h : step settings s event = none) :
    Safe settings s event := by
  rcases event with _ | _ | _ | seconds | ⟨arrival, id⟩ | id | id | ⟨id, ending⟩
  · trivial
  · exact absurd h (Option.some_ne_none _)
  · trivial
  · intro hpos
    exact absurd h (by simp [step, hpos])
  · trivial
  · trivial
  · trivial
  · intro c hc hphase
    exact absurd h (by simp [step, State.update, hc, hphase])

end Events

/-- **The account of the sessions**: in every state of a run each session of an SSE connection is
accounted for, exactly if every event is safe. -/
theorem alwaysAccounted_iff_safe (settings : Settings) (events : List Event) :
    AlwaysAccounted settings events ↔
      Run.Guarded (step settings) (Safe settings) initial events := by
  have hknown : Known settings initial := fun _ _ h ↦ absurd h (Option.some_ne_none _).symm
  have hinit : Accounted settings initial :=
    ⟨fun _ _ h ↦ absurd h (Option.some_ne_none _).symm,
      fun _ _ h ↦ absurd h (Option.some_ne_none _).symm⟩
  exact Run.forall_reached_iff_guarded (fun _ _ _ hknown h hstep ↦ step_spec hknown h hstep)
    (fun _ _ _ _ h ↦ safe_of_step_eq_none h) hknown hinit

/-! ### Two runs -/

/-- A request that is let in. -/
def served : Arrival := ⟨true, true, some RegistryState.init, true⟩

def raised : List Event := [.start, .arrive served "a", .streams "a", .finish "a" .raises]

/-- A connection with a message every twenty minutes. -/
def outlived : List Event :=
  [.start, .arrive served "a", .streams "a", .pass 1200, .message "a", .pass 1200]

/-- **The account is not kept** when the server loop raises, nor for a connection that is older than
half an hour. -/
theorem not_alwaysAccounted :
    ¬ AlwaysAccounted {} raised ∧ ¬ AlwaysAccounted {} outlived := by
  constructor
  · intro h
    have hrun : Run.run (step {}) initial raised
        = some ((Run.run (step {}) initial raised).getD initial) := rfl
    have hnone := (h raised _ (List.prefix_refl _) hrun).removed "a" ⟨.ended, 0, 0⟩ rfl rfl
    exact absurd hnone (by decide)
  · intro h
    have hrun : Run.run (step {}) initial outlived
        = some ((Run.run (step {}) initial outlived).getD initial) := rfl
    generalize hend : (Run.run (step {}) initial outlived).getD initial = s at hrun
    have hnow : s.now = 2400 := by
      rw [← hend]
      change (0 : ℚ) + 1200 + 1200 = 2400
      norm_num
    have hmessage : Connection.onMessage {} (0 + 1200) ⟨.running, 0, 0⟩
        = ⟨.running, 0, 0 + 1200⟩ := if_pos (by norm_num)
    have hc : s.connections.get? "a" = some ⟨.running, 0, 0 + 1200⟩ := by
      rw [← hmessage, ← hend]
      rfl
    have hflows : Connection.Flows {} s.now ⟨.running, 0, 0 + 1200⟩ := by
      refine ⟨by decide, ?_⟩
      rw [hnow]
      norm_num
    obtain ⟨session, hsession, hexpired⟩ :=
      (h outlived s (List.prefix_refl _) hrun).live "a" _ hc hflows
    have hcreated : s.manager.sessions.get? "a"
        = some ⟨(served.session).getD ⟨Dict.empty, fun _ ↦ 0, ""⟩, 0, 1800⟩ := by
      rw [← hend]
      rfl
    obtain rfl := Option.some.inj (hcreated.symm.trans hsession)
    rw [TimedSession.expired, hnow, decide_eq_false_iff_not] at hexpired
    exact hexpired (by norm_num)

end SseSession

end ArgusMcp
