import ArgusMcp.Library.Run
import ArgusMcp.Runtime.EventBus

/-!
# The event stream

`handle_events_stream` of `server/management/router.py` subscribes to the events of the service for
every client that connects, and sends each event as a message of the format of server-sent events,
with heartbeats between them. A message is kept in its parts here.

A run is any order of events, of new connections, of messages and heartbeats on one connection or
another, and of connections that end. Nothing else happens between two `await`s.

## What a client is sent

Whatever the others do, a client is first told that it is connected, and is sent the first of the
events that were put into its queue, which are, in order, events from the time it has been connected
(`streamed_sublist`). Nothing is missing exactly as long as its queue was never full when an event
came (`complete_iff_guarded`). When a connection has ended, its queue gets nothing more
(`subscribed_iff_going`).
-/

namespace ArgusMcp

namespace Events

open Broadcast

section

variable {D : Type}

/-! ## The format -/

/-- What `json.dumps` is given: the dictionary of a heartbeat, or that of an event. -/
inductive Data (D : Type) where
  | heartbeat (message : Text)
  | event (event : Event D)

/-- The parts of a message. -/
structure Frame (D : Type) where
  event : Text
  data : Data D
  id : Option Text

def sseFormat (eventType : Text) (data : Data D) (eventId : Option Text) : Frame D :=
  ⟨eventType, data, given eventId⟩

def connectedFrame : Frame D :=
  sseFormat "heartbeat".toList (.heartbeat "connected".toList) (some "hb-0".toList)

def pingFrame : Frame D := sseFormat "heartbeat".toList (.heartbeat "ping".toList) none

def eventFrame (event : Event D) : Frame D := sseFormat event.stage (.event event) (some event.id)

/-- The events in some messages. -/
def eventsIn (frames : List (Frame D)) : List (Event D) :=
  frames.filterMap fun frame ↦ match frame.data with
    | .heartbeat _ => none
    | .event event => some event

/-! ## Runs -/

/-- A run of `event_generator`: what it has sent, and whether it is still going on. -/
structure Connection (D : Type) where
  sent : List (Frame D)
  active : Bool

/-- Queues and connections come into being together, so a connection has the queue with its own
number. -/
structure Server (D : Type) where
  service : Bus (Event D)
  connections : List (Connection D)
  length_eq : connections.length = service.queues.length

def Server.start : Server D := ⟨.empty, [], rfl⟩

/-- What happens, and to which connection. -/
inductive Label (D : Type) where
  | emit (args : Emission D)
  | connect
  | deliver (c : ℕ)
  | ping (c : ℕ)
  | disconnect (c : ℕ)

/-- A connection sends one more message. -/
def Connection.send (frame : Frame D) (conn : Connection D) : Connection D :=
  { conn with sent := conn.sent ++ [frame] }

def Connection.close (conn : Connection D) : Connection D := { conn with active := false }

/-- The connection, while it goes on. -/
def Server.going (s : Server D) (c : ℕ) : Option (Connection D) :=
  s.connections[c]?.filter (·.active)

/-- A change of one connection. -/
def Server.modify (s : Server D) (service : Bus (Event D)) (c : ℕ)
    (f : Connection D → Connection D) (h : service.queues.length = s.service.queues.length) :
    Server D where
  service := service
  connections := s.connections.modify c f
  length_eq := by rw [List.length_modify, s.length_eq, h]

/-- One step. Nothing can be delivered from an empty queue. -/
def step (s : Server D) : Label D → Option (Server D)
  | .emit args => some
      { service := (emitEvent args s.service).2
        connections := s.connections
        length_eq := s.length_eq.trans (Bus.length_offerAll _ _ _ _).symm }
  | .connect => some
      { service := (subscribe s.service).2
        connections := s.connections ++ [⟨[connectedFrame], true⟩]
        length_eq := by
          rw [subscribe, Bus.subscribe, List.length_append, List.length_append, s.length_eq]
          rfl }
  | .deliver c => (s.going c).bind fun _ ↦ (s.service.first c).map fun event ↦
      s.modify (s.service.pop c) c (Connection.send (eventFrame event)) (List.length_modify ..)
  | .ping c => (s.going c).map fun _ ↦ s.modify s.service c (Connection.send pingFrame) rfl
  | .disconnect c => (s.going c).map fun _ ↦
      s.modify (unsubscribe c s.service) c Connection.close rfl

/-! ## What one connection is given -/

/-- The events that are emitted before the connection ends. -/
def heard (c : ℕ) : List (Label D) → List (Event D)
  | [] => []
  | .emit args :: tr => args.event :: heard c tr
  | .disconnect d :: tr => if d = c then [] else heard c tr
  | _ :: tr => heard c tr

/-- What a label is for the subscriber that a connection has. -/
def watch (c : ℕ) (v : Subscriber (Event D)) : Label D → Subscriber (Event D)
  | .emit args => v.offer queueSize args.event
  | .deliver d => if d = c then v.take else v
  | .disconnect d => if d = c then v.close else v
  | _ => v

def watched (c : ℕ) (v : Subscriber (Event D)) (tr : List (Label D)) : Subscriber (Event D) :=
  tr.foldl (watch c) v

theorem offered_watched (c : ℕ) (v : Subscriber (Event D)) (tr : List (Label D)) :
    (watched c v tr).offered = v.offered ++ if v.active then heard c tr else [] := by
  induction tr generalizing v with
  | nil => rw [heard, ite_self, List.append_nil, watched, List.foldl_nil]
  | cons a tr ih =>
    rw [watched, List.foldl_cons, ← watched, ih]
    cases a with
    | emit args =>
      rw [watch, Subscriber.offer, heard]
      cases hactive : v.active with
      | false => simp [hactive]
      | true => simp
    | disconnect d =>
      rw [watch, heard]
      by_cases hd : d = c
      · rw [if_pos hd, if_pos hd, ite_self]
        rfl
      · rw [if_neg hd, if_neg hd]
    | deliver d =>
      rw [watch]
      split <;> rfl
    | connect => rfl
    | ping d => rfl

/-- Where a connection stands: it has sent what its subscriber has taken, and its queue is the one
of the subscriber. -/
structure Tracks (c : ℕ) (v : Subscriber (Event D)) (s : Server D) : Prop where
  sent : ∃ frames, s.connections[c]? = some ⟨connectedFrame :: frames, v.active⟩ ∧
    eventsIn frames = v.taken
  queue : s.service.queues[c]? = some v.queue
  subscribed : c ∈ s.service.subscribers ↔ v.active = true
  sound : v.Sound queueSize

section

variable {c : ℕ} {v : Subscriber (Event D)} {s s' : Server D}

/-- A label that is nothing for a connection leaves it where it stands. -/
theorem Tracks.other (h : Tracks c v s) (hconn : s'.connections[c]? = s.connections[c]?)
    (hqueue : s'.service.queues[c]? = s.service.queues[c]?)
    (hsubscribed : c ∈ s'.service.subscribers ↔ c ∈ s.service.subscribers) : Tracks c v s' :=
  ⟨hconn ▸ h.sent, hqueue.trans h.queue, hsubscribed.trans h.subscribed, h.sound⟩

/-- A connection that has sent one more message. -/
theorem Tracks.modify (h : Tracks c v s) {f : Connection D → Connection D} (b : Bool)
    (frames' : List (Frame D)) (hf : ∀ frames,
      f ⟨connectedFrame :: frames, v.active⟩ = ⟨connectedFrame :: (frames ++ frames'), b⟩) :
    ∃ frames, (s.connections.modify c f)[c]? = some ⟨connectedFrame :: frames, b⟩ ∧
      eventsIn frames = v.taken ++ eventsIn frames' := by
  obtain ⟨frames, hget, hevents⟩ := h.sent
  refine ⟨frames ++ frames', ?_, ?_⟩
  · rw [List.getElem?_modify_eq, hget, Option.map_eq_map, Option.map_some, hf]
  · rw [eventsIn, List.filterMap_append, ← eventsIn, hevents, eventsIn]

theorem tracks_step {a : Label D} (h : Tracks c v s) (hstep : step s a = some s') :
    Tracks c (watch c v a) s' := by
  cases a with
  | emit args =>
    obtain rfl := Option.some.inj hstep
    have hoffer : (v.offer queueSize args.event).active = v.active := by
      rw [Subscriber.offer]
      split <;> rfl
    refine ⟨?_, ?_, ?_, h.sound.offer args.event⟩
    · rw [watch, hoffer]
      obtain ⟨frames, hget, hevents⟩ := h.sent
      refine ⟨frames, hget, hevents.trans ?_⟩
      rw [Subscriber.offer]
      split <;> rfl
    · dsimp only
      rw [queues_emitEvent, h.queue, Option.map_some, watch, Subscriber.offer]
      simp only [h.subscribed]
      split <;> rfl
    · rw [subscribers_emitEvent, watch, hoffer]
      exact h.subscribed
  | connect =>
    obtain rfl := Option.some.inj hstep
    obtain ⟨frames, hget, -⟩ := h.sent
    have hlt : c < s.connections.length := (List.getElem?_eq_some_iff.mp hget).1
    have hlt' : c < s.service.queues.length := s.length_eq ▸ hlt
    refine h.other (List.getElem?_append_left hlt) (Bus.queues_subscribe hlt') ?_
    change c ∈ s.service.subscribers ++ [s.service.queues.length] ↔ _
    rw [List.mem_append, List.mem_singleton, or_iff_left hlt'.ne]
  | deliver d =>
    obtain ⟨conn, -, hmap⟩ := Option.bind_eq_some_iff.mp hstep
    obtain ⟨e, hfirst, rfl⟩ := Option.map_eq_some_iff.mp hmap
    rw [watch]
    by_cases hd : d = c
    · subst hd
      rw [Bus.first, h.queue, Option.bind_some] at hfirst
      rw [if_pos rfl]
      refine ⟨?_, ?_, h.subscribed, h.sound.take⟩
      · rw [Subscriber.take, hfirst]
        exact h.modify v.active [eventFrame e] fun frames ↦ rfl
      · change (s.service.queues.modify d List.tail)[d]? = _
        rw [List.getElem?_modify_eq, h.queue]
        rfl
    · rw [if_neg hd]
      exact h.other (List.getElem?_modify_ne _ _ hd) (List.getElem?_modify_ne _ _ hd) Iff.rfl
  | ping d =>
    obtain ⟨conn, -, rfl⟩ := Option.map_eq_some_iff.mp hstep
    by_cases hd : d = c
    · subst hd
      have hping : eventsIn [(pingFrame : Frame D)] = [] := rfl
      refine ⟨?_, h.queue, h.subscribed, h.sound⟩
      change ∃ frames, _ = _ ∧ eventsIn frames = v.taken
      rw [← List.append_nil v.taken, ← hping]
      exact h.modify v.active [pingFrame] fun frames ↦ rfl
    · exact h.other (List.getElem?_modify_ne _ _ hd) rfl Iff.rfl
  | disconnect d =>
    obtain ⟨conn, -, rfl⟩ := Option.map_eq_some_iff.mp hstep
    rw [watch]
    by_cases hd : d = c
    · subst hd
      rw [if_pos rfl]
      refine ⟨?_, h.queue, ?_, h.sound.close⟩
      · have hclose (frames : List (Frame D)) :
            Connection.close ⟨connectedFrame :: frames, v.active⟩ =
              ⟨connectedFrame :: (frames ++ []), false⟩ := by
          rw [List.append_nil, Connection.close]
        obtain ⟨frames, hget, hevents⟩ := h.modify false [] hclose
        exact ⟨frames, hget, hevents.trans (List.append_nil _)⟩
      · exact iff_of_false s.service.nodup.not_mem_erase Bool.false_ne_true
    · rw [if_neg hd]
      exact h.other (List.getElem?_modify_ne _ _ hd) rfl (List.mem_erase_of_ne (Ne.symm hd))

theorem tracks_connect {m m' : Server D} (h : step m .connect = some m') :
    Tracks m.connections.length .new m' := by
  obtain rfl := Option.some.inj h
  refine ⟨⟨[], List.getElem?_concat_length, rfl⟩, ?_, ?_, Subscriber.sound_new _⟩
  · rw [m.length_eq]
    exact List.getElem?_concat_length
  · refine iff_of_true ?_ rfl
    rw [m.length_eq]
    exact List.mem_append_right _ List.mem_cons_self

/-- An event does not find the queue of the connection full. -/
def HasRoom (c : ℕ) (s : Server D) : Label D → Prop
  | .emit _ => ∀ conn ∈ s.connections[c]?, conn.active = true →
      ∀ queue ∈ s.service.queues[c]?, queue.length < queueSize
  | _ => True

/-- Only an event that finds the queue full is lost. -/
theorem complete_watch_iff (h : Tracks c v s) (a : Label D) :
    (watch c v a).Complete ↔ v.Complete ∧ HasRoom c s a := by
  cases a with
  | emit args =>
    obtain ⟨frames, hget, -⟩ := h.sent
    rw [watch, Subscriber.complete_offer_iff h.sound, HasRoom, hget, h.queue]
    simp only [Option.mem_some_iff, forall_eq']
  | deliver d =>
    rw [watch, show HasRoom c s (.deliver d) = True from rfl, and_true]
    split
    · exact Subscriber.complete_take_iff
    · exact Iff.rfl
  | disconnect d =>
    rw [watch, show HasRoom c s (.disconnect d) = True from rfl, and_true]
    split
    · exact Iff.rfl
    · exact Iff.rfl
  | connect => exact (and_true _).symm.to_iff
  | ping d => exact (and_true _).symm.to_iff

/-- **The whole run.** A connection is tracked to its end, and the subscriber is complete if no step
has lost anything. -/
theorem tracks_run {tr : List (Label D)} (h : Tracks c v s) (hrun : Run.run step s tr = some s') :
    Tracks c (watched c v tr) s' ∧ ((watched c v tr).Complete ↔
      v.Complete ∧ Run.Guarded step (HasRoom c) s tr) := by
  induction tr generalizing v s with
  | nil =>
    obtain rfl := Option.some.inj hrun
    exact ⟨h, (and_iff_left trivial).symm⟩
  | cons a tr ih =>
    obtain ⟨t, hstep, hrun⟩ := Run.run_cons_eq_some.mp hrun
    obtain ⟨htracks, hcomplete⟩ := ih (tracks_step h hstep) hrun
    refine ⟨htracks, hcomplete.trans ?_⟩
    rw [complete_watch_iff h, Run.guarded_cons hstep, and_assoc]

end

/-- **What a client is sent.** First it is told that it is connected. The events it has been sent
and those that are still in its queue are events from the time it has been connected, each at most
once and in order. -/
theorem streamed_sublist {after : List (Label D)} {m s : Server D}
    (hafter : Run.run step m (.connect :: after) = some s) :
    ∃ conn frames queue, s.connections[m.connections.length]? = some conn ∧
      s.service.queues[m.connections.length]? = some queue ∧ queue.length ≤ queueSize ∧
      conn.sent = connectedFrame :: frames ∧
      (eventsIn frames ++ queue).Sublist (heard m.connections.length after) := by
  obtain ⟨m', hconnect, hrun⟩ := Run.run_cons_eq_some.mp hafter
  obtain ⟨htracks, -⟩ := tracks_run (tracks_connect hconnect) hrun
  obtain ⟨frames, hget, hevents⟩ := htracks.sent
  have hoffered := offered_watched m.connections.length .new after
  refine ⟨_, frames, _, hget, htracks.queue, htracks.sound.length_le, rfl, ?_⟩
  rw [hevents, show heard m.connections.length after = _ from hoffered.symm]
  exact htracks.sound.sublist

/-- A client that is connected, an event, and its message. -/
def firstEvent : List (Label Unit) :=
  [.emit { uuid := [], now := [], stage := "status".toList, message := [] }, .deliver 0]

theorem exists_run_firstEvent :
    ∃ s, Run.run step .start (.connect :: firstEvent) = some s :=
  Option.isSome_iff_exists.mp rfl

theorem streamed_sublist_firstEvent : ∃ s conn frames queue,
    Run.run step .start (.connect :: firstEvent) = some s ∧
      s.connections[0]? = some conn ∧ s.service.queues[0]? = some queue ∧
      queue.length ≤ queueSize ∧ conn.sent = connectedFrame :: frames ∧
      (eventsIn frames ++ queue).Sublist (heard 0 firstEvent) := by
  obtain ⟨s, hs⟩ := exists_run_firstEvent
  obtain ⟨conn, frames, queue, h⟩ := streamed_sublist hs
  exact ⟨s, conn, frames, queue, hs, h⟩

/-- **Nothing is missing** exactly if no event has found the queue of the client full. -/
theorem complete_iff_guarded {after : List (Label D)} {m s : Server D}
    (hafter : Run.run step m (.connect :: after) = some s) :
    ∃ conn queue, s.connections[m.connections.length]? = some conn ∧
      s.service.queues[m.connections.length]? = some queue ∧
      (eventsIn conn.sent ++ queue = heard m.connections.length after ↔
        Run.Guarded step (HasRoom m.connections.length) m (.connect :: after)) := by
  obtain ⟨m', hconnect, hrun⟩ := Run.run_cons_eq_some.mp hafter
  obtain ⟨htracks, hcomplete⟩ := tracks_run (tracks_connect hconnect) hrun
  obtain ⟨frames, hget, hevents⟩ := htracks.sent
  have hoffered := offered_watched m.connections.length .new after
  refine ⟨_, _, hget, htracks.queue, ?_⟩
  rw [Run.guarded_cons hconnect, show heard m.connections.length after = _ from hoffered.symm]
  refine Iff.trans ?_ (hcomplete.trans ((and_iff_right rfl).trans (and_iff_right trivial).symm))
  rw [Subscriber.Complete, ← hevents]
  rfl

theorem complete_iff_guarded_firstEvent : ∃ s conn queue,
    Run.run step .start (.connect :: firstEvent) = some s ∧
      s.connections[0]? = some conn ∧ s.service.queues[0]? = some queue ∧
      (eventsIn conn.sent ++ queue = heard 0 firstEvent ↔
        Run.Guarded step (HasRoom 0) .start (.connect :: firstEvent)) := by
  obtain ⟨s, hs⟩ := exists_run_firstEvent
  obtain ⟨conn, queue, h⟩ := complete_iff_guarded hs
  exact ⟨s, conn, queue, hs, h⟩

def AllTracked (s : Server D) : Prop := ∀ c < s.connections.length, ∃ v, Tracks c v s

theorem allTracked_step {s s' : Server D} {a : Label D} (h : AllTracked s)
    (hstep : step s a = some s') : AllTracked s' := by
  intro c hc
  by_cases hold : c < s.connections.length
  · obtain ⟨v, hv⟩ := h c hold
    exact ⟨_, tracks_step hv hstep⟩
  -- only a new connection can be one that was not there
  cases a with
  | connect =>
    have hlength : s'.connections.length = s.connections.length + 1 := by
      rw [← Option.some.inj hstep, List.length_append, List.length_singleton]
    obtain rfl : c = s.connections.length := by omega
    exact ⟨_, tracks_connect hstep⟩
  | emit args =>
    obtain rfl := Option.some.inj hstep
    exact absurd hc hold
  | deliver d =>
    obtain ⟨conn, -, hmap⟩ := Option.bind_eq_some_iff.mp hstep
    obtain ⟨e, -, rfl⟩ := Option.map_eq_some_iff.mp hmap
    exact absurd (hc.trans_eq (List.length_modify ..)) hold
  | ping d | disconnect d =>
    obtain ⟨conn, -, rfl⟩ := Option.map_eq_some_iff.mp hstep
    exact absurd (hc.trans_eq (List.length_modify ..)) hold

/-- **No queue is left behind.** Throughout a run the service puts events into the queues of the
connections that go on, and into no others. -/
theorem subscribed_iff_going {tr : List (Label D)} {s : Server D}
    (h : Run.run step .start tr = some s) (c : ℕ) :
    c ∈ s.service.subscribers ↔ ∃ conn, s.going c = some conn := by
  have hstart : AllTracked (D := D) .start := fun c hc ↦ absurd hc (Nat.not_lt_zero c)
  have hall := Run.inv_of_run (fun _ _ _ hs hstep ↦ allTracked_step hs hstep) hstart h
  by_cases hc : c < s.connections.length
  · obtain ⟨v, hv⟩ := hall c hc
    obtain ⟨frames, hget, -⟩ := hv.sent
    rw [hv.subscribed, Server.going, hget, Option.filter_some]
    cases v.active <;> simp
  · rw [Server.going, List.getElem?_eq_none (not_lt.mp hc)]
    refine iff_of_false (fun hmem ↦ hc ?_) fun ⟨conn, hconn⟩ ↦ nomatch hconn
    exact s.length_eq ▸ s.service.made c hmem

theorem subscribed_iff_going_firstEvent : ∃ s,
    Run.run step .start (.connect :: firstEvent) = some s ∧
      (0 ∈ s.service.subscribers ↔ ∃ conn, s.going 0 = some conn) := by
  obtain ⟨s, hs⟩ := exists_run_firstEvent
  exact ⟨s, hs, subscribed_iff_going hs 0⟩

end

end Events

end ArgusMcp
