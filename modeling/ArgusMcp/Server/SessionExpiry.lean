import ArgusMcp.Server.SseSession

/-!
# When a session is there

The session manager (`server/session/manager.py`) removes a session that has expired when it is
asked for it, and its cleanup loop removes the others at times of its own. Here any calls come in
any order, and the loop wakes up whenever it likes; the clock is not set back.

What the manager says of a session comes from the calls with its id alone (`getSession_after`), and
what it lists is the same, up to the order, if the loop never wakes up (`listSessions_perm`).
-/

namespace ArgusMcp

namespace SseSession

def TimedSession.touch (now : ℚ) (session : TimedSession) : TimedSession :=
  { session with lastActive := now }

/-- What is left of a session at a time. -/
def unexpired (now : ℚ) (session : Option TimedSession) : Option TimedSession :=
  session.filter fun s ↦ !s.expired now

namespace SessionManager

variable (manager : SessionManager)

def getSession (now : ℚ) (id : String) : Option TimedSession × SessionManager :=
  match manager.sessions.get? id with
  | none => (none, manager)
  | some session =>
    if session.expired now then (none, manager.removeSession id)
    else (some (session.touch now),
      { manager with sessions := manager.sessions.set id (session.touch now) })

def listSessions (now : ℚ) : List (String × TimedSession) :=
  manager.sessions.items.filter fun e ↦ !e.2.expired now

def activeCount (now : ℚ) : ℕ := (manager.listSessions now).length

/-- A call, or a round of the loop. -/
inductive Call where
  | create (id : String) (session : MCPSession)
  | get (id : String)
  | remove (id : String)
  | cleanup
  | stop

variable (settings : Settings)

def call (now : ℚ) : Call → SessionManager
  | .create id session => manager.createSession settings now id session
  | .get id => (manager.getSession now id).2
  | .remove id => manager.removeSession id
  | .cleanup => manager.cleanup now
  | .stop => .stop

/-- What calls leave of a new manager, each at its time. -/
def after (calls : List (ℚ × Call)) : SessionManager :=
  calls.foldl (fun manager c ↦ manager.call settings c.1 c.2) ⟨Dict.empty, false⟩

/-- What becomes of the session with an id, if nothing is removed but what is asked for. -/
def fate (id : String) (session : Option TimedSession) : ℚ × Call → Option TimedSession
  | (now, .create id' new) =>
    if id = id' then some { toMCPSession := new, lastActive := now, ttl := settings.defaultTtl }
    else session
  | (now, .get id') => if id = id' then (unexpired now session).map (·.touch now) else session
  | (_, .remove id') => if id = id' then none else session
  | (_, .cleanup) => session
  | (_, .stop) => none

def fates (id : String) (calls : List (ℚ × Call)) : Option TimedSession :=
  calls.foldl (fate settings id) none

variable {manager settings} {now : ℚ} {id : String} {calls : List (ℚ × Call)}

theorem unexpired_unexpired {t : ℚ} (h : t ≤ now) (session : Option TimedSession) :
    unexpired now (unexpired t session) = unexpired now session := by
  cases session with
  | none => rfl
  | some s =>
    by_cases hexpired : s.ttl < t - s.lastActive
    · have hlater : s.ttl < now - s.lastActive := by linarith
      simp [unexpired, TimedSession.expired, Option.filter_some, hexpired, hlater]
    · simp [unexpired, TimedSession.expired, Option.filter_some, hexpired]

theorem getSession_fst : (manager.getSession now id).1 =
    (unexpired now (manager.sessions.get? id)).map (·.touch now) := by
  rw [getSession]
  cases manager.sessions.get? id with
  | none => rfl
  | some s => cases hexpired : s.expired now <;> simp [unexpired, hexpired]

theorem unexpired_call {session : Option TimedSession}
    (h : unexpired now (manager.sessions.get? id) = unexpired now session) (c : Call) :
    unexpired now ((manager.call settings now c).sessions.get? id) =
      unexpired now (fate settings id session (now, c)) := by
  cases c with
  | create id' new =>
    rw [call, createSession, fate]
    dsimp only
    rw [Dict.get?_set]
    split
    · rfl
    · exact h
  | get id' =>
    rw [call, fate]
    by_cases hid : id = id'
    · subst hid
      rw [if_pos rfl, ← h, getSession]
      cases hget : manager.sessions.get? id with
      | none =>
        dsimp only
        rw [hget]
        rfl
      | some s =>
        cases hexpired : s.expired now with
        | false => simp [unexpired, hexpired, Option.filter_some]
        | true => simp [unexpired, hexpired, Option.filter_some, removeSession, Dict.get?_del]
    · rw [if_neg hid, ← h, getSession]
      cases manager.sessions.get? id' with
      | none => rfl
      | some s =>
        dsimp only
        split
        · rw [removeSession, Dict.get?_del, if_neg hid]
        · rw [Dict.get?_set, if_neg hid]
  | remove id' =>
    rw [call, removeSession, fate, Dict.get?_del]
    split
    · rfl
    · exact h
  | cleanup =>
    rw [call, cleanup, fate, ← h, Dict.get?_filter]
    exact unexpired_unexpired le_rfl _
  | stop => rfl

theorem unexpired_after (h : (calls.map Prod.fst ++ [now]).Pairwise (· ≤ ·)) :
    unexpired now ((after settings calls).sessions.get? id) =
      unexpired now (fates settings id calls) := by
  induction calls using List.reverseRecOn generalizing now with
  | nil => rfl
  | append_singleton calls c ih =>
    rw [List.map_append, List.map_singleton] at h
    obtain ⟨hcalls, -, hnow⟩ := List.pairwise_append.mp h
    have hle : c.1 ≤ now := hnow _ (List.mem_append_right _ List.mem_cons_self) _ List.mem_cons_self
    have hcall := @unexpired_call _ settings c.1 id _ (ih hcalls) c.2
    rw [after, List.foldl_concat, ← after, fates, List.foldl_concat, ← fates,
      ← unexpired_unexpired hle, hcall, unexpired_unexpired hle]

/-- **What the manager says** of a session, after any calls. -/
theorem getSession_after (h : (calls.map Prod.fst ++ [now]).Pairwise (· ≤ ·)) :
    ((after settings calls).getSession now id).1 =
      (unexpired now (fates settings id calls)).map (·.touch now) := by
  rw [getSession_fst, unexpired_after h]

/-- A session that is asked for before the loop wakes up. -/
def askedFor : List (ℚ × Call) :=
  [(0, .create "a" ⟨Dict.empty, fun _ ↦ 0, "sse"⟩), (1000, .get "a"), (2000, .cleanup)]

theorem getSession_after_askedFor : ((after {} askedFor).getSession 2500 "a").1 =
    (unexpired 2500 (fates {} "a" askedFor)).map (·.touch 2500) :=
  getSession_after (by decide)

theorem mem_listSessions {session : TimedSession} : (id, session) ∈ manager.listSessions now ↔
    unexpired now (manager.sessions.get? id) = some session := by
  rw [listSessions, List.mem_filter, Dict.mem_items_iff, unexpired, Option.filter_eq_some_iff]

def isCleanup : Call → Bool
  | .cleanup => true
  | _ => false

/-- The calls without the rounds of the loop. -/
def unswept (calls : List (ℚ × Call)) : List (ℚ × Call) := calls.filter fun c ↦ !isCleanup c.2

theorem fates_unswept (id : String) (calls : List (ℚ × Call)) :
    fates settings id (unswept calls) = fates settings id calls := by
  rw [fates, unswept, List.foldl_filter, fates]
  congr 1
  funext session c
  obtain ⟨now, _ | _ | _ | _ | _⟩ := c <;> rfl

/-- **The loop is not seen** in what is listed and counted. -/
theorem listSessions_perm (h : (calls.map Prod.fst ++ [now]).Pairwise (· ≤ ·)) :
    ((after settings calls).listSessions now).Perm
        ((after settings (unswept calls)).listSessions now) ∧
      (after settings calls).activeCount now = (after settings (unswept calls)).activeCount now := by
  have hnodup (manager : SessionManager) : (manager.listSessions now).Nodup :=
    (List.Nodup.of_map _ manager.sessions.nodup_keys).filter _
  have hunswept : ((unswept calls).map Prod.fst ++ [now]).Pairwise (· ≤ ·) :=
    h.sublist ((List.filter_sublist.map _).append_right _)
  have hperm : ((after settings calls).listSessions now).Perm
      ((after settings (unswept calls)).listSessions now) := by
    refine (List.perm_ext_iff_of_nodup (hnodup _) (hnodup _)).mpr fun e ↦ ?_
    rw [mem_listSessions, mem_listSessions, unexpired_after h, unexpired_after hunswept,
      fates_unswept]
  exact ⟨hperm, hperm.length_eq⟩

theorem listSessions_perm_askedFor :
    ((after {} askedFor).listSessions 2500).Perm
        ((after {} (unswept askedFor)).listSessions 2500) ∧
      (after {} askedFor).activeCount 2500 = (after {} (unswept askedFor)).activeCount 2500 :=
  listSessions_perm (by decide)

end SessionManager

end SseSession

end ArgusMcp
