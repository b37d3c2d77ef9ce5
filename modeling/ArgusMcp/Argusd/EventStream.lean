import ArgusMcp.Argusd.Docker

/-!
# The stream of events

`StreamEvents` waits for whichever comes first: the end of the request, an error, or an event. What
a run comes to depends only on what it receives, one after another, so a run is a list of that.

## The time of an event

Docker sends the time of an event twice, in whole seconds and in nanoseconds, both since the epoch.
`time.Unix` takes seconds and the nanoseconds that are left over, and adds the two. So the seconds
are counted twice, and the time that is written is right only for an event within the first second
of the epoch (`instant_eq_iff`).
-/

namespace ArgusMcp

namespace Argusd

/-- An event whose two times are of one instant. -/
structure TimedEvent extends DaemonEvent where
  whole_seconds : time = timeNano / 10 ^ 9

/-- What ends a stream: the end of the request, or what comes from the channel for errors, which is
nothing when it has been closed. The request may have ended in the meantime. -/
inductive Ending where
  | done
  | err (error : Option String) (cancelled : Bool)

/-- What one `select` receives. -/
inductive Received where
  | msg (event : TimedEvent)
  | ending (ending : Ending)

def Ending.returned : Ending → Option String
  | done => none
  | err error cancelled => if cancelled then none else error

/-- The record of an event; the time is what `time.Unix` is given. -/
def eventRecord (msg : DaemonEvent) : EventInfo where
  type := msg.type
  action := msg.action
  actorId := safeShortId msg.actorId
  actor := msg.attributes
  timestamp := (msg.time, msg.timeNano)

/-- The records that are written, and what is returned in the end, if there is an end. -/
def eventLoop : List Received → List EventInfo × Option (Option String)
  | [] => ([], none)
  | .ending ending :: _ => ([], some ending.returned)
  | .msg event :: received =>
    let rest := eventLoop received
    (eventRecord event.toDaemonEvent :: rest.1, rest.2)

/-- `time.Unix`: seconds since the epoch, and nanoseconds, of which there may be any number. -/
def unix (sec nsec : ℤ) : ℤ × ℤ := (sec + nsec / 10 ^ 9, nsec % 10 ^ 9)

/-- The instant of a record, in nanoseconds since the epoch. -/
def EventInfo.instant (record : EventInfo) : ℤ :=
  let time := unix record.timestamp.1 record.timestamp.2
  time.1 * 10 ^ 9 + time.2

theorem instant_eq (record : EventInfo) :
    record.instant = record.timestamp.1 * 10 ^ 9 + record.timestamp.2 := by
  rw [EventInfo.instant, unix]
  dsimp only
  omega

/-- **The time of a record** is that of its event exactly if the event is within the first second of
the epoch. -/
theorem instant_eq_iff (event : TimedEvent) :
    (eventRecord event.toDaemonEvent).instant = event.timeNano ↔
      0 ≤ event.timeNano ∧ event.timeNano < 10 ^ 9 := by
  have hwhole := event.whole_seconds
  rw [instant_eq, eventRecord]
  dsimp only
  omega

/-! ## Runs -/

theorem eventLoop_msg_append (events : List TimedEvent) (received : List Received) :
    eventLoop (events.map .msg ++ received) =
      (events.map (fun event ↦ eventRecord event.toDaemonEvent) ++ (eventLoop received).1,
        (eventLoop received).2) := by
  induction events with
  | nil => rfl
  | cons event events ih =>
    rw [List.map_cons, List.cons_append, eventLoop, ih]
    rfl

theorem eventLoop_ending (events : List TimedEvent) (ending : Ending) (later : List Received) :
    eventLoop (events.map .msg ++ .ending ending :: later) =
      (events.map fun event ↦ eventRecord event.toDaemonEvent, some ending.returned) := by
  rw [eventLoop_msg_append, eventLoop, List.append_nil]

theorem eventLoop_eq_streamEvents {δ ρ : Type} (E : Engine δ ρ) {e : String}
    (hend : E.eventsError = some e) {events : List TimedEvent}
    (hselected : ∀ event ∈ events, event.selected = true) (later : List Received) :
    (eventLoop (events.map .msg ++ .ending (.err E.eventsError false) :: later)).1
        = (streamEvents E (events.map TimedEvent.toDaemonEvent)).1 ∧
      (eventLoop (events.map .msg ++ .ending (.err E.eventsError false) :: later)).2
        = some ((streamEvents E (events.map TimedEvent.toDaemonEvent)).2.map Failure.text) := by
  have hfilter : (events.map TimedEvent.toDaemonEvent).filter DaemonEvent.selected
      = events.map TimedEvent.toDaemonEvent := by
    refine List.filter_eq_self.mpr fun event hevent ↦ ?_
    obtain ⟨timed, htimed, rfl⟩ := List.mem_map.mp hevent
    exact hselected timed htimed
  rw [eventLoop_ending, streamEvents, hfilter, List.map_map, hend]
  exact ⟨rfl, rfl⟩

/-- There is one record for each event, in order, with what the event says and its instant, and what
is returned is nothing if the request has ended, and the error otherwise. -/
structure EventsFaithful (events : List TimedEvent) (ending : Ending) (later : List Received) :
    Prop where
  records : (eventLoop (events.map .msg ++ .ending ending :: later)).1.map
      (fun record ↦ (record.type, record.action, record.actor, record.instant))
    = events.map fun event ↦ (event.type, event.action, event.attributes, event.timeNano)
  cancelled : (ending = .done ∨ ∃ error, ending = .err error true) →
    (eventLoop (events.map .msg ++ .ending ending :: later)).2 = some none
  failed : ∀ error, ending = .err (some error) false →
    (eventLoop (events.map .msg ++ .ending ending :: later)).2 = some (some error)

/-- **When a stream of events is faithful**: exactly if all of its events are within the first
second of the epoch. -/
theorem eventsFaithful_iff (events : List TimedEvent) (ending : Ending) (later : List Received) :
    EventsFaithful events ending later ↔
      ∀ event ∈ events, 0 ≤ event.timeNano ∧ event.timeNano < 10 ^ 9 := by
  have hrecords : (eventLoop (events.map .msg ++ .ending ending :: later)).1.map
        (fun record ↦ (record.type, record.action, record.actor, record.instant))
      = events.map (fun event ↦ (event.type, event.action, event.attributes, event.timeNano)) ↔
      ∀ event ∈ events, 0 ≤ event.timeNano ∧ event.timeNano < 10 ^ 9 := by
    rw [eventLoop_ending, List.map_map, List.map_inj_left]
    refine forall₂_congr fun event _ ↦ ?_
    rw [← instant_eq_iff event]
    simp [eventRecord]
  constructor
  · exact fun h ↦ hrecords.mp h.records
  · intro h
    refine ⟨hrecords.mpr h, ?_, ?_⟩
    · rintro (rfl | ⟨error, rfl⟩)
      · rw [eventLoop_ending]
        rfl
      · rw [eventLoop_ending]
        rfl
    · rintro error rfl
      rw [eventLoop_ending]
      rfl

/-- The start of a container in the year 2026. -/
def startEvent : TimedEvent where
  type := "container"
  action := "start"
  actorId := "4f1c"
  attributes := .empty
  time := 1767225600
  timeNano := 1767225600000000000
  whole_seconds := by decide

/-- Its record is of the year 2082. -/
theorem not_forall_eventsFaithful : ¬ ∀ (events : List TimedEvent) (ending : Ending)
    (later : List Received), EventsFaithful events ending later := by
  intro h
  have hrecords := (h [startEvent] .done []).records
  have hinstants := congrArg (List.map fun shown ↦ shown.2.2.2) hrecords
  revert hinstants
  decide

end Argusd

end ArgusMcp
