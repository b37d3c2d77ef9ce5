import Mathlib.Data.List.DropRight
import Mathlib.Data.List.Nodup
import Mathlib.Tactic.Common

/-!
# Broadcasting to bounded queues

A bus keeps the last few of the events that are published on it, and hands each of them to the
queues that are subscribed at the time. A queue has room for so many events and no more, and a full
queue does not get the event. Queues are named by their positions, in the order in which they came
into being.

What a subscriber has taken and what is still in its queue are, in this order, a subsequence of what
it was offered (`Subscriber.Sound`). It is all of it until an event finds the queue full, and never
again after that (`Subscriber.complete_offer_iff`).
-/

namespace ArgusMcp

namespace Broadcast

variable {ε : Type*}

/-! ## One subscriber -/

/-- A full queue stays as it is. -/
def offer (cap : ℕ) (e : ε) (queue : List ε) : List ε :=
  if queue.length < cap then queue ++ [e] else queue

/-- A subscriber: what it has taken, what is in its queue, and what it has been offered. -/
structure Subscriber (ε : Type*) where
  taken : List ε
  queue : List ε
  offered : List ε
  active : Bool

namespace Subscriber

def new : Subscriber ε := ⟨[], [], [], true⟩

def offer (cap : ℕ) (e : ε) (s : Subscriber ε) : Subscriber ε :=
  if s.active then
    { s with queue := Broadcast.offer cap e s.queue, offered := s.offered ++ [e] }
  else s

def take (s : Subscriber ε) : Subscriber ε :=
  { s with taken := s.taken ++ s.queue.head?.toList, queue := s.queue.tail }

def close (s : Subscriber ε) : Subscriber ε := { s with active := false }

/-- A queue neither invents, repeats nor reorders, and holds no more than there is room for. -/
structure Sound (cap : ℕ) (s : Subscriber ε) : Prop where
  sublist : (s.taken ++ s.queue).Sublist s.offered
  length_le : s.queue.length ≤ cap

/-- Nothing has been lost. -/
def Complete (s : Subscriber ε) : Prop := s.taken ++ s.queue = s.offered

variable {cap : ℕ} {s : Subscriber ε}

theorem taken_append_queue_take (s : Subscriber ε) :
    s.take.taken ++ s.take.queue = s.taken ++ s.queue := by
  rw [take, List.append_assoc]
  cases s.queue with
  | nil => rfl
  | cons e queue => rfl

theorem sound_new (cap : ℕ) : Sound cap (new : Subscriber ε) :=
  ⟨List.Sublist.refl _, Nat.zero_le cap⟩

theorem Sound.offer (h : s.Sound cap) (e : ε) : (s.offer cap e).Sound cap := by
  rw [Subscriber.offer, Broadcast.offer]
  split
  · split
    · rename_i hroom
      refine ⟨?_, ?_⟩
      · rw [← List.append_assoc]
        exact h.sublist.append (List.Sublist.refl _)
      · rwa [List.length_append, List.length_singleton]
    · exact ⟨h.sublist.trans (List.sublist_append_left _ _), h.length_le⟩
  · exact h

theorem Sound.take (h : s.Sound cap) : s.take.Sound cap := by
  refine ⟨?_, (List.length_tail ▸ Nat.sub_le _ _).trans h.length_le⟩
  rw [taken_append_queue_take]
  exact h.sublist

theorem Sound.close (h : s.Sound cap) : s.close.Sound cap := ⟨h.sublist, h.length_le⟩

theorem complete_take_iff : s.take.Complete ↔ s.Complete := by
  rw [Complete, taken_append_queue_take]
  rfl

/-- **What is lost** is lost when an event finds the queue full. -/
theorem complete_offer_iff (h : s.Sound cap) (e : ε) :
    (s.offer cap e).Complete ↔ s.Complete ∧ (s.active = true → s.queue.length < cap) := by
  rw [Subscriber.offer, Broadcast.offer, Complete, Complete]
  by_cases hactive : s.active = true
  · rw [if_pos hactive]
    dsimp only
    by_cases hroom : s.queue.length < cap
    · rw [if_pos hroom, ← List.append_assoc, List.append_left_inj]
      exact (and_iff_left fun _ ↦ hroom).symm
    · rw [if_neg hroom]
      refine iff_of_false (fun heq ↦ ?_) fun hand ↦ hroom (hand.2 hactive)
      have hlen := h.sublist.length_le
      rw [heq, List.length_append, List.length_singleton] at hlen
      omega
  · rw [if_neg hactive]
    exact (and_iff_left fun htrue ↦ absurd htrue hactive).symm

end Subscriber

/-! ## The last events -/

theorem rtake_concat (l : List ε) (e : ε) (n : ℕ) :
    (l.rtake n ++ [e]).rtake n = (l ++ [e]).rtake n := by
  cases n with
  | zero => rw [List.rtake_zero, List.rtake_zero]
  | succ n =>
    rw [List.rtake_concat_succ, List.rtake_concat_succ]
    congr 1
    rw [List.rtake, List.rtake, List.drop_drop, List.length_drop]
    congr 1
    omega

/-! ## The bus -/

/-- A bus. A queue is subscribed at most once, and it has been made before. -/
structure Bus (ε : Type*) where
  history : List ε
  queues : List (List ε)
  subscribers : List ℕ
  nodup : subscribers.Nodup
  made : ∀ i ∈ subscribers, i < queues.length

namespace Bus

/-- Nothing has been published, and there is no queue. -/
def empty : Bus ε where
  history := []
  queues := []
  subscribers := []
  nodup := List.nodup_nil
  made := fun _ h ↦ absurd h List.not_mem_nil

/-- The queues after an event has been offered to some of them, one after another. -/
def offerAll (cap : ℕ) (e : ε) (subscribers : List ℕ) (queues : List (List ε)) : List (List ε) :=
  subscribers.foldl (fun queues i ↦ queues.modify i (offer cap e)) queues

theorem length_offerAll (cap : ℕ) (e : ε) (subscribers : List ℕ) (queues : List (List ε)) :
    (offerAll cap e subscribers queues).length = queues.length := by
  induction subscribers generalizing queues with
  | nil => rfl
  | cons i subscribers ih =>
    rw [offerAll, List.foldl_cons, ← offerAll, ih, List.length_modify]

theorem getElem?_offerAll (cap : ℕ) (e : ε) {subscribers : List ℕ} (h : subscribers.Nodup)
    (queues : List (List ε)) (j : ℕ) :
    (offerAll cap e subscribers queues)[j]? =
      queues[j]?.map fun queue ↦ if j ∈ subscribers then offer cap e queue else queue := by
  induction subscribers generalizing queues with
  | nil =>
    simp only [List.not_mem_nil, if_false, Option.map_id']
    rfl
  | cons i subscribers ih =>
    obtain ⟨hi, hnodup⟩ := List.nodup_cons.mp h
    rw [offerAll, List.foldl_cons, ← offerAll, ih hnodup, List.getElem?_modify,
      Option.map_eq_map, Option.map_map]
    congr 1
    funext queue
    by_cases hij : i = j
    · subst hij
      simp [hi]
    · simp [hij, Ne.symm hij]

/-- An event is kept, with the events in front of it that there is room for, and offered to the
queues that are subscribed. -/
def publish (maxlen cap : ℕ) (e : ε) (b : Bus ε) : Bus ε where
  history := (b.history ++ [e]).rtake maxlen
  queues := offerAll cap e b.subscribers b.queues
  subscribers := b.subscribers
  nodup := b.nodup
  made := fun i hi ↦ (length_offerAll cap e b.subscribers b.queues).symm ▸ b.made i hi

/-- A new queue. -/
def subscribe (b : Bus ε) : Bus ε where
  history := b.history
  queues := b.queues ++ [[]]
  subscribers := b.subscribers ++ [b.queues.length]
  nodup := List.Nodup.append b.nodup (List.nodup_singleton _) fun _ hi hj ↦
    absurd (b.made _ hi) (List.mem_singleton.mp hj ▸ lt_irrefl _)
  made := fun i hi ↦ by
    rw [List.length_append, List.length_singleton, Nat.lt_succ_iff_lt_or_eq]
    exact (List.mem_append.mp hi).imp (b.made i) List.mem_singleton.mp

/-- No more events for a queue. -/
def unsubscribe (i : ℕ) (b : Bus ε) : Bus ε :=
  { b with
    subscribers := b.subscribers.erase i
    nodup := b.nodup.erase i
    made := fun j hj ↦ b.made j (List.mem_of_mem_erase hj) }

def first (i : ℕ) (b : Bus ε) : Option ε := b.queues[i]?.bind List.head?

/-- The first event of a queue is taken. -/
def pop (i : ℕ) (b : Bus ε) : Bus ε :=
  { b with
    queues := b.queues.modify i List.tail
    made := fun j hj ↦ (List.length_modify ..).symm ▸ b.made j hj }

variable {maxlen cap : ℕ} {b : Bus ε}

theorem queues_publish (e : ε) (j : ℕ) : (b.publish maxlen cap e).queues[j]? =
    b.queues[j]?.map fun queue ↦ if j ∈ b.subscribers then offer cap e queue else queue :=
  getElem?_offerAll cap e b.nodup b.queues j

theorem subscribers_publish (e : ε) : (b.publish maxlen cap e).subscribers = b.subscribers := rfl

theorem history_publish (e : ε) :
    (b.publish maxlen cap e).history = (b.history ++ [e]).rtake maxlen := rfl

theorem queues_subscribe {j : ℕ} (h : j < b.queues.length) :
    b.subscribe.queues[j]? = b.queues[j]? := List.getElem?_append_left h

end Bus

end Broadcast

end ArgusMcp
