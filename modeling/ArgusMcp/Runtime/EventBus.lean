import ArgusMcp.Library.Broadcast

/-!
# The events of the service

The service tells what happens in events. `emit_event` keeps the last 500 of them for `get_events`
and hands each to the queues that `subscribe` has made, which have room for 256; a queue that is
full does not get it. Modelled are these functions of `runtime/service.py`, over a bus whose queues
are named by their positions.

The random part of an id and the time of an event come from outside.
-/

namespace ArgusMcp

namespace Events

open Broadcast

abbrev Text := List Char

def shortIdLength : ℕ := 12

/-- The `maxlen` of `_events`. -/
def historyLength : ℕ := 500

/-- The `maxsize` of the queue of a subscriber. -/
def queueSize : ℕ := 256

/-- An event, as the dictionary that `emit_event` builds. Its details may be anything. -/
structure Event (D : Type) where
  id : Text
  timestamp : Text
  stage : Text
  message : Text
  severity : Text
  backend : Option Text
  details : Option D

/-- What an event is made of: the digits of a `uuid4`, the time in the format of `isoformat`, and
the arguments of `emit_event`. -/
structure Emission (D : Type) where
  uuid : List (Fin 16)
  now : Text
  stage : Text
  message : Text
  severity : Text := "info".toList
  backend : Option Text := none
  details : Option D := none

/-- `uuid4().hex`. -/
def hex (uuid : List (Fin 16)) : Text := uuid.map fun d ↦ Nat.digitChar d.val

variable {D : Type}

def Emission.event (args : Emission D) : Event D where
  id := "evt-".toList ++ (hex args.uuid).take shortIdLength
  timestamp := args.now
  stage := args.stage
  message := args.message
  severity := args.severity
  backend := args.backend
  details := args.details

/-! ## The bus -/

/-- `emit_event`: the event, and what becomes of the service. -/
def emitEvent (args : Emission D) (service : Bus (Event D)) : Event D × Bus (Event D) :=
  (args.event, service.publish historyLength queueSize args.event)

/-- `l[i:]` for an index that may be negative. -/
def sliceFrom {α : Type*} (i : ℤ) (l : List α) : List α :=
  if 0 ≤ i then l.drop i.toNat else l.rtake (-i).toNat

/-- `if value:` for a text that may be missing. -/
def given (value : Option Text) : Option Text := value.filter (· ≠ [])

def getEvents (limit : ℤ) (since severity : Option Text) (service : Bus (Event D)) :
    List (Event D) :=
  let result := service.history
  let result := match given since with
    | some t => result.filter fun e ↦ decide (t < e.timestamp)
    | none => result
  let result := match given severity with
    | some s => result.filter fun e ↦ decide (e.severity = s)
    | none => result
  sliceFrom (-limit) result

/-- `subscribe`: the new queue, by its position. -/
def subscribe (service : Bus (Event D)) : ℕ × Bus (Event D) :=
  (service.queues.length, service.subscribe)

def unsubscribe (queue : ℕ) (service : Bus (Event D)) : Bus (Event D) := service.unsubscribe queue

theorem queues_emitEvent (args : Emission D) (service : Bus (Event D)) (i : ℕ) :
    (emitEvent args service).2.queues[i]? = service.queues[i]?.map fun queue ↦
      if i ∈ service.subscribers then offer queueSize args.event queue else queue := by
  rw [emitEvent]
  exact Bus.queues_publish args.event i

theorem subscribers_emitEvent (args : Emission D) (service : Bus (Event D)) :
    (emitEvent args service).2.subscribers = service.subscribers := by
  rw [emitEvent]
  exact Bus.subscribers_publish args.event

end Events

end ArgusMcp
