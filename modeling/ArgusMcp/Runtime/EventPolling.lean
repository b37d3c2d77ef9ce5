import ArgusMcp.Library.FixedWidth
import ArgusMcp.Library.Machine
import ArgusMcp.Runtime.EventBus

/-!
# Polling for events

A client without a stream asks for the events since the last one it has got: `handle_events` of
`server/management/router.py` takes the time of that event as a text, and `get_events` compares it
with the times of its events as texts. These are times in UTC as `datetime.isoformat` writes them,
which leaves out the fraction of a second when it is zero. The order of the texts is that of the
times nevertheless (`isoformat_lt_iff`).

## What a poll returns

As long as the clock of the service is not set back, a poll returns the last events that have come
since the poll before it, as many as were asked for and not more than are kept (`poll_reply`). Those
at the very time of the last event before are not among them. So a client whose clock ticks with
every event misses one exactly if too many have come between two polls (`replies_complete_iff`).
-/

namespace ArgusMcp

namespace Events

open Broadcast
open FixedWidth hiding Text

/-! ## Times -/

/-- A `datetime` in UTC. -/
structure DateTime where
  year : ℕ
  month : ℕ
  day : ℕ
  hour : ℕ
  minute : ℕ
  second : ℕ
  microsecond : ℕ
  year_lt : year < 10000
  month_lt : month < 13
  day_lt : day < 32
  hour_lt : hour < 24
  minute_lt : minute < 60
  second_lt : second < 60
  microsecond_lt : microsecond < 1000000

namespace DateTime

/-- What times are compared by. -/
def key (t : DateTime) : List ℕ :=
  [t.year, t.month, t.day, t.hour, t.minute, t.second, t.microsecond]

/-- The fraction of a second, and the offset. -/
def fraction (microsecond : ℕ) : Text :=
  (if microsecond = 0 then [] else '.' :: fixed 6 microsecond) ++ "+00:00".toList

def isoformat (t : DateTime) : Text :=
  fixed 4 t.year ++ '-' :: (fixed 2 t.month ++ '-' :: (fixed 2 t.day ++ 'T' :: (fixed 2 t.hour ++
    ':' :: (fixed 2 t.minute ++ ':' :: (fixed 2 t.second ++ fraction t.microsecond)))))

theorem fraction_lt_iff {m n : ℕ} (hm : m < 1000000) (hn : n < 1000000) :
    fraction m < fraction n ↔ m < n := by
  rw [fraction, fraction]
  by_cases hm0 : m = 0
  · by_cases hn0 : n = 0
    · exact iff_of_false (by simp [hm0, hn0]) (by omega)
    · have hsign : '+' < '.' := by decide
      rw [if_pos hm0, if_neg hn0, List.nil_append, List.cons_append]
      exact iff_of_true (List.cons_lt_cons_iff.mpr (.inl hsign)) (by omega)
  · by_cases hn0 : n = 0
    · have hsign : ¬ '.' < '+' ∧ '.' ≠ '+' := by decide
      rw [if_neg hm0, if_pos hn0, List.nil_append, List.cons_append]
      refine iff_of_false (fun h ↦ ?_) (by omega)
      exact (List.cons_lt_cons_iff.mp h).elim hsign.1 fun h ↦ hsign.2 h.1
    · have hlen : ('.' :: fixed 6 m).length = ('.' :: fixed 6 n).length := by
        rw [List.length_cons, List.length_cons, length_fixed, length_fixed]
      rw [if_neg hm0, if_neg hn0, append_lt_append_iff hlen, List.cons_lt_cons_iff,
        fixed_lt_fixed_iff hm hn]
      simp

/-- **The order of the texts** is that of the times. -/
theorem isoformat_lt_iff (t u : DateTime) : t.isoformat < u.isoformat ↔ t.key < u.key := by
  have hyear : ∀ t : DateTime, t.year < 10 ^ 4 := fun t ↦ t.year_lt
  have hmonth : ∀ t : DateTime, t.month < 10 ^ 2 := fun t ↦ t.month_lt.trans (by decide)
  have hday : ∀ t : DateTime, t.day < 10 ^ 2 := fun t ↦ t.day_lt.trans (by decide)
  have hhour : ∀ t : DateTime, t.hour < 10 ^ 2 := fun t ↦ t.hour_lt.trans (by decide)
  have hminute : ∀ t : DateTime, t.minute < 10 ^ 2 := fun t ↦ t.minute_lt.trans (by decide)
  have hsecond : ∀ t : DateTime, t.second < 10 ^ 2 := fun t ↦ t.second_lt.trans (by decide)
  rw [isoformat, isoformat, fixed_append_lt_iff (hyear t) (hyear u), List.cons_lt_cons_iff,
    fixed_append_lt_iff (hmonth t) (hmonth u), List.cons_lt_cons_iff,
    fixed_append_lt_iff (hday t) (hday u), List.cons_lt_cons_iff,
    fixed_append_lt_iff (hhour t) (hhour u), List.cons_lt_cons_iff,
    fixed_append_lt_iff (hminute t) (hminute u), List.cons_lt_cons_iff,
    fixed_append_lt_iff (hsecond t) (hsecond u),
    fraction_lt_iff t.microsecond_lt u.microsecond_lt]
  simp only [key, List.cons_lt_cons_iff, List.lt_irrefl, Char.lt_irrefl, and_false, or_false,
    false_or, true_and]

end DateTime

/-! ## Requests -/

section

variable {D : Type}

/-- `MGMT_EVENTS_LIMIT_MIN`. -/
def eventsLimitMin : ℤ := 1

/-- `MGMT_EVENTS_LIMIT_MAX`. -/
def eventsLimitMax : ℤ := 10000

/-- `handle_events`: the message of an error with the status 400, or the events. The limit is what
`int` makes of the parameter, which is 100 if it is missing. -/
def handleEvents (limit : Option ℤ) (since severity : Option Text) (service : Bus (Event D)) :
    Except String (List (Event D)) :=
  match limit with
  | none => .error "'limit' must be an integer."
  | some limit =>
    if eventsLimitMin ≤ limit ∧ limit ≤ eventsLimitMax then
      .ok (getEvents limit since severity service)
    else .error "'limit' must be between 1 and 10000."

/-- The service, and the time of the last event the client has got. -/
structure Polling (D : Type) where
  service : Bus (Event D)
  since : Option Text

def Polling.start : Polling D := ⟨.empty, none⟩

/-- An event at some time, or a poll for so many events. -/
inductive PollLabel (D : Type) where
  | emit (time : DateTime) (args : Emission D)
  | poll (limit : ℕ)

def emittedAt (time : DateTime) (args : Emission D) : Event D :=
  { args with now := time.isoformat : Emission D }.event

/-- One step, and the events that a poll returns. A poll that is refused changes nothing. -/
def pollStep (s : Polling D) : PollLabel D → Polling D × List (Event D)
  | .emit time args =>
    ({ s with service := (emitEvent { args with now := time.isoformat } s.service).2 }, [])
  | .poll limit =>
    match handleEvents (some limit) s.since none s.service with
    | .ok events => ({ s with since := (events.getLast?.map (·.timestamp)).or s.since }, events)
    | .error _ => (s, [])

/-- The state after a run. -/
def polling (tr : List (PollLabel D)) : Polling D := Machine.after pollStep .start tr

/-- What the polls of a run return, in order. -/
def replies (tr : List (PollLabel D)) : List (Event D) := (Machine.trace pollStep .start tr).flatten

def emitted (tr : List (PollLabel D)) : List (Event D) :=
  tr.filterMap fun
    | .emit time args => some (emittedAt time args)
    | .poll _ => none

def times (tr : List (PollLabel D)) : List DateTime :=
  tr.filterMap fun
    | .emit time _ => some time
    | .poll _ => none

def answered : PollLabel D → Bool
  | .emit _ _ => false
  | .poll limit => decide (1 ≤ limit ∧ limit ≤ 10000)

def pending (tr : List (PollLabel D)) : List (Event D) := emitted (tr.rtakeWhile (!answered ·))

def polled (tr : List (PollLabel D)) : List (Event D) := emitted (tr.rdropWhile (!answered ·))

/-! ## What is kept and what is asked for -/

theorem emitted_append (tr tr' : List (PollLabel D)) :
    emitted (tr ++ tr') = emitted tr ++ emitted tr' := List.filterMap_append

theorem polled_append_pending (tr : List (PollLabel D)) : polled tr ++ pending tr = emitted tr := by
  rw [polled, pending, ← emitted_append, List.rdropWhile_append_rtakeWhile]

theorem polling_concat (tr : List (PollLabel D)) (a : PollLabel D) :
    polling (tr ++ [a]) = (pollStep (polling tr) a).1 := Machine.after_concat _ _ _

theorem replies_concat (tr : List (PollLabel D)) (a : PollLabel D) :
    replies (tr ++ [a]) = replies tr ++ (pollStep (polling tr) a).2 := by
  rw [replies, Machine.trace_concat, List.flatten_append, List.flatten_singleton]
  rfl

theorem pollStep_of_refused {limit : ℕ} (h : ¬(1 ≤ limit ∧ limit ≤ 10000)) (s : Polling D) :
    pollStep s (.poll limit) = (s, []) := by
  have hlimit : ¬(eventsLimitMin ≤ (limit : ℤ) ∧ (limit : ℤ) ≤ eventsLimitMax) := by
    rw [eventsLimitMin, eventsLimitMax]
    omega
  rw [pollStep, handleEvents, if_neg hlimit]

theorem pollStep_of_answered {limit : ℕ} (h : 1 ≤ limit ∧ limit ≤ 10000) (s : Polling D) :
    pollStep s (.poll limit) =
      ({ s with since := ((getEvents limit s.since none s.service).getLast?.map
          (·.timestamp)).or s.since },
        getEvents limit s.since none s.service) := by
  have hlimit : eventsLimitMin ≤ (limit : ℤ) ∧ (limit : ℤ) ≤ eventsLimitMax := by
    rw [eventsLimitMin, eventsLimitMax]
    omega
  rw [pollStep, handleEvents, if_pos hlimit]

theorem service_pollStep_poll (s : Polling D) (limit : ℕ) :
    (pollStep s (.poll limit)).1.service = s.service := by
  by_cases h : 1 ≤ limit ∧ limit ≤ 10000
  · rw [pollStep_of_answered h]
  · rw [pollStep_of_refused h]

/-- **What is kept** are the last events. -/
theorem history_polling (tr : List (PollLabel D)) :
    (polling tr).service.history = (emitted tr).rtake historyLength := by
  induction tr using List.reverseRecOn with
  | nil => rw [emitted, List.filterMap_nil, List.rtake_nil]; rfl
  | append_singleton tr a ih =>
    rw [polling_concat, emitted_append]
    cases a with
    | emit time args =>
      rw [pollStep, emitEvent]
      dsimp only
      rw [Bus.history_publish, ih]
      exact rtake_concat (emitted tr) (emittedAt time args) historyLength
    | poll limit =>
      rw [service_pollStep_poll, ih]
      exact congrArg (List.rtake · historyLength) (List.append_nil (emitted tr)).symm

theorem timestamps_emitted (tr : List (PollLabel D)) :
    (emitted tr).map (·.timestamp) = (times tr).map DateTime.isoformat := by
  rw [emitted, times, List.map_filterMap, List.map_filterMap]
  congr 1
  funext a
  cases a with
  | emit time args => rfl
  | poll limit => rfl

theorem isoformat_ne_nil (t : DateTime) : t.isoformat ≠ [] := by
  rw [DateTime.isoformat]
  simp

/-- The clock is not set back. -/
def Forward (tr : List (PollLabel D)) : Prop := (times tr).Pairwise fun t u ↦ ¬ u.key < t.key

theorem Forward.of_append {tr tr' : List (PollLabel D)} (h : Forward (tr ++ tr')) : Forward tr := by
  rw [Forward, times, List.filterMap_append] at h
  exact (List.pairwise_append.mp h).1

/-- Then the events are in the order of their times, as texts. -/
theorem Forward.sorted {tr : List (PollLabel D)} (h : Forward tr) :
    (emitted tr).Pairwise fun a b ↦ ¬ b.timestamp < a.timestamp := by
  have hmap : ((emitted tr).map (·.timestamp)).Pairwise fun t u ↦ ¬ u < t := by
    rw [timestamps_emitted, List.pairwise_map]
    exact List.Pairwise.imp (fun hkey hlt ↦ hkey ((DateTime.isoformat_lt_iff _ _).mp hlt)) h
  exact List.pairwise_map.mp hmap

/-- What is above some element only grows along a list, and can be cut at either time. -/
theorem filter_rtake {α : Type*} {p : α → Bool} {l : List α}
    (h : l.Pairwise fun a b ↦ p a = true → p b = true) (n : ℕ) :
    (l.rtake n).filter p = (l.filter p).rtake n := by
  induction l using List.reverseRecOn generalizing n with
  | nil => rw [List.rtake_nil, List.filter_nil, List.rtake_nil]
  | append_singleton l a ih =>
    obtain ⟨hl, -, hlast⟩ := List.pairwise_append.mp h
    cases n with
    | zero => rw [List.rtake_zero, List.rtake_zero, List.filter_nil]
    | succ n =>
      rw [List.rtake_concat_succ, List.filter_append, List.filter_append]
      by_cases ha : p a = true
      · rw [List.filter_singleton, ha, cond_true, List.rtake_concat_succ, ih hl]
      · have hnone : l.filter p = [] :=
          List.filter_eq_nil_iff.mpr fun b hb hpb ↦ ha (hlast b hb a List.mem_cons_self hpb)
        have htake : (l.rtake n).filter p = [] := by rw [ih hl, hnone, List.rtake_nil]
        rw [htake, hnone, List.filter_singleton, Bool.eq_false_of_not_eq_true ha, cond_false,
          List.append_nil, List.rtake_nil]

theorem rtake_rtake {α : Type*} (l : List α) (m n : ℕ) :
    (l.rtake m).rtake n = l.rtake (min n m) := by
  rw [List.rtake_eq_reverse_take_reverse, List.rtake_eq_reverse_take_reverse,
    List.rtake_eq_reverse_take_reverse, List.reverse_reverse, List.take_take]

/-- The event is later than the last one up to the poll before. -/
def newer (tr : List (PollLabel D)) (e : Event D) : Bool :=
  match (polled tr).getLast? with
  | none => true
  | some last => decide (last.timestamp < e.timestamp)

/-- The time that a client sends is that of the last event up to its last poll. -/
def Asks (tr : List (PollLabel D)) : Prop :=
  (polling tr).since = (polled tr).getLast?.map (·.timestamp)

theorem lt_of_lt_of_not_lt {s t u : Text} (h : s < t) (h' : ¬ u < t) : s < u := by
  by_contra hnot
  exact h' (List.lt_of_le_of_lt hnot h)

theorem getEvents_polling {tr : List (PollLabel D)} (hforward : Forward tr) (hasks : Asks tr)
    {limit : ℕ} (hlimit : 1 ≤ limit) :
    getEvents limit (polling tr).since none (polling tr).service =
      ((pending tr).filter (newer tr)).rtake (min limit historyLength) := by
  have hslice : ∀ l : List (Event D), sliceFrom (-(limit : ℤ)) l = l.rtake limit := by
    intro l
    rw [sliceFrom, if_neg (by omega), neg_neg, Int.toNat_natCast]
  have hsplit := polled_append_pending tr
  rw [getEvents, hasks, history_polling, ← rtake_rtake, hslice]
  refine congrArg (List.rtake · limit) ?_
  rcases hlast : (polled tr).getLast? with _ | last
  · have hnewer : newer tr = fun _ ↦ true := by
      funext e
      rw [newer, hlast]
    rw [List.getLast?_eq_none_iff.mp hlast, List.nil_append] at hsplit
    rw [hnewer, List.filter_true, hsplit]
    rfl
  · have hnewer : newer tr = fun e ↦ decide (last.timestamp < e.timestamp) := by
      funext e
      rw [newer, hlast]
    obtain ⟨init, hinit⟩ := List.getLast?_eq_some_iff.mp hlast
    have hsorted := hforward.sorted
    have hmem : last ∈ emitted tr := by
      rw [← hsplit, hinit]
      exact List.mem_append_left _ (List.mem_append_right _ List.mem_cons_self)
    have hne : last.timestamp ≠ [] := by
      have htime := List.mem_map_of_mem (f := fun e : Event D ↦ e.timestamp) hmem
      rw [timestamps_emitted] at htime
      obtain ⟨t, -, ht⟩ := List.mem_map.mp htime
      exact ht ▸ isoformat_ne_nil t
    have hgrows : (emitted tr).Pairwise fun a b ↦
        decide (last.timestamp < a.timestamp) = true →
          decide (last.timestamp < b.timestamp) = true := by
      refine hsorted.imp fun hab ha ↦ ?_
      exact decide_eq_true (lt_of_lt_of_not_lt (of_decide_eq_true ha) hab)
    have hold : (polled tr).filter (fun e ↦ decide (last.timestamp < e.timestamp)) = [] := by
      rw [← hsplit] at hsorted
      have hpolled := (List.pairwise_append.mp hsorted).1
      rw [hinit] at hpolled ⊢
      refine List.filter_eq_nil_iff.mpr fun e he hlt ↦ ?_
      rcases List.mem_append.mp he with he | he
      · exact (List.pairwise_append.mp hpolled).2.2 e he last List.mem_cons_self
          (of_decide_eq_true hlt)
      · rw [List.mem_singleton.mp he] at hlt
        exact List.lt_irrefl _ (of_decide_eq_true hlt)
    have hgiven : given (some last.timestamp) = some last.timestamp := by
      rw [given, Option.filter_some, if_pos (decide_eq_true hne)]
    rw [Option.map_some, hgiven, hnewer]
    change ((emitted tr).rtake historyLength).filter _ = _
    rw [filter_rtake hgrows, ← hsplit, List.filter_append, hold, List.nil_append]

/-! ## What a poll returns -/

theorem pending_concat_of_not {a : PollLabel D} (h : answered a = false) (tr : List (PollLabel D)) :
    pending (tr ++ [a]) = pending tr ++ emitted [a] ∧ polled (tr ++ [a]) = polled tr := by
  have hnot : (!answered a) = true := by rw [h, Bool.not_false]
  rw [pending, polled, List.rtakeWhile_concat_pos (!answered ·) _ _ hnot,
    List.rdropWhile_concat_pos (!answered ·) _ _ hnot, emitted_append]
  exact ⟨rfl, rfl⟩

theorem pending_concat_of_answered {a : PollLabel D} (h : answered a = true)
    (tr : List (PollLabel D)) :
    pending (tr ++ [a]) = [] ∧ polled (tr ++ [a]) = emitted (tr ++ [a]) := by
  have hnot : ¬(!answered a) = true := by simp [h]
  rw [pending, polled, List.rtakeWhile_concat_neg (!answered ·) _ _ hnot,
    List.rdropWhile_concat_neg (!answered ·) _ _ hnot]
  exact ⟨rfl, rfl⟩

theorem emitted_concat_poll (tr : List (PollLabel D)) (limit : ℕ) :
    emitted (tr ++ [.poll limit]) = emitted tr := by
  rw [emitted_append]
  exact List.append_nil _

theorem getLast?_rtake {α : Type*} (l : List α) {n : ℕ} (h : 1 ≤ n) :
    (l.rtake n).getLast? = l.getLast? := by
  obtain ⟨n, rfl⟩ := Nat.exists_eq_add_of_le' h
  induction l using List.reverseRecOn with
  | nil => rw [List.rtake_nil]
  | append_singleton l a ih =>
    rw [List.rtake_concat_succ, List.getLast?_concat, List.getLast?_concat]

/-- **A client asks for what is new**: it sends the time of the last event before its last poll. -/
theorem asks_of_forward {tr : List (PollLabel D)} (h : Forward tr) : Asks tr := by
  induction tr using List.reverseRecOn with
  | nil => rfl
  | append_singleton tr a ih =>
    have hasks := ih h.of_append
    rw [Asks, polling_concat]
    cases a with
    | emit time args =>
      rw [(pending_concat_of_not rfl tr).2, pollStep]
      exact hasks
    | poll limit =>
      by_cases hlimit : 1 ≤ limit ∧ limit ≤ 10000
      · have hanswered : answered (.poll limit : PollLabel D) = true := decide_eq_true hlimit
        have hmin : 1 ≤ min limit historyLength := le_min hlimit.1 (by decide)
        rw [pollStep_of_answered hlimit, (pending_concat_of_answered hanswered tr).2,
          emitted_concat_poll, getEvents_polling h.of_append hasks hlimit.1,
          getLast?_rtake _ hmin, hasks]
        have hsplit := polled_append_pending tr
        have hsorted := h.of_append.sorted
        rcases List.eq_nil_or_concat (pending tr) with hnil | ⟨init, e, hpending⟩
        · rw [hnil, List.append_nil] at hsplit
          rw [hnil, List.filter_nil, hsplit, List.getLast?_nil, Option.map_none, Option.none_or]
        · rw [List.concat_eq_append] at hpending
          rw [← hsplit, hpending, ← List.append_assoc, List.getLast?_concat, List.filter_append]
          by_cases hnewer : newer tr e = true
          · rw [List.filter_singleton, hnewer, cond_true, List.getLast?_concat, Option.map_some,
              Option.some_or]
          · -- the events since the last poll are all at the same time
            rcases hlast : (polled tr).getLast? with _ | last
            · rw [newer, hlast] at hnewer
              exact absurd rfl hnewer
            · have hnone : ∀ e' ∈ init ++ [e], newer tr e' = false := by
                intro e' he'
                rw [newer, hlast] at hnewer ⊢
                refine decide_eq_false fun hlt ↦ hnewer (decide_eq_true ?_)
                rcases List.mem_append.mp he' with hmem | hmem
                · refine lt_of_lt_of_not_lt hlt ?_
                  rw [← hsplit, hpending, ← List.append_assoc] at hsorted
                  exact (List.pairwise_append.mp hsorted).2.2 e'
                    (List.mem_append_right _ hmem) e List.mem_cons_self
                · exact List.mem_singleton.mp hmem ▸ hlt
              have hsame : last.timestamp = e.timestamp := by
                rw [newer, hlast] at hnewer
                refine List.le_antisymm (fun hlt ↦ ?_) fun hlt ↦ hnewer (decide_eq_true hlt)
                obtain ⟨init', hinit⟩ := List.getLast?_eq_some_iff.mp hlast
                rw [← hsplit, hpending, ← List.append_assoc, hinit] at hsorted
                exact (List.pairwise_append.mp hsorted).2.2 last (List.mem_append_left _
                  (List.mem_append_right _ List.mem_cons_self)) e List.mem_cons_self hlt
              rw [← List.filter_append, List.filter_eq_nil_iff.mpr fun e' he' ↦
                Bool.eq_false_iff.mp (hnone e' he')]
              exact congrArg some hsame
      · have hrefused : answered (.poll limit : PollLabel D) = false := decide_eq_false hlimit
        rw [pollStep_of_refused hlimit, (pending_concat_of_not hrefused tr).2]
        exact hasks

/-- The clock ticks with every event. -/
def Ticking (tr : List (PollLabel D)) : Prop := (times tr).Pairwise fun t u ↦ t.key < u.key

theorem Ticking.forward {tr : List (PollLabel D)} (h : Ticking tr) : Forward tr :=
  List.Pairwise.imp (fun hlt ↦ List.lt_asymm hlt) h

/-- **What a poll returns.** As long as the clock is not set back, these are the last of the events
that are later than all up to the poll before: as many as were asked for, of those that are kept. -/
theorem poll_reply {tr : List (PollLabel D)} (hforward : Forward tr) {limit : ℕ}
    (hlimit : 1 ≤ limit ∧ limit ≤ 10000) :
    (pollStep (polling tr) (.poll limit)).2 =
      ((pending tr).filter (newer tr)).rtake (min limit historyLength) := by
  rw [pollStep_of_answered hlimit]
  exact getEvents_polling hforward (asks_of_forward hforward) hlimit.1

/-- The first second of a year, so many microseconds after its beginning. -/
def newYear (microsecond : Fin 1000000) : DateTime :=
  ⟨2026, 1, 1, 0, 0, 0, microsecond, by decide, by decide, by decide, by decide, by decide,
    by decide, microsecond.isLt⟩

def twoEvents : List (PollLabel Unit) :=
  let args : Emission Unit := { uuid := [], now := [], stage := "status".toList, message := [] }
  [.emit (newYear 0) args, .poll 100, .emit (newYear 1) args]

theorem ticking_twoEvents : Ticking twoEvents := by
  have hkey : (newYear 0).key < (newYear 1).key := by decide
  have htimes : times twoEvents = [newYear 0, newYear 1] := rfl
  rw [Ticking, htimes]
  exact List.pairwise_pair.mpr hkey

theorem poll_reply_twoEvents : (pollStep (polling twoEvents) (.poll 100)).2 =
    ((pending twoEvents).filter (newer twoEvents)).rtake (min 100 historyLength) :=
  poll_reply ticking_twoEvents.forward (by decide)

/-! ## What a client misses -/

theorem Ticking.of_append {tr tr' : List (PollLabel D)} (h : Ticking (tr ++ tr')) : Ticking tr := by
  rw [Ticking, times, List.filterMap_append] at h
  exact (List.pairwise_append.mp h).1

/-- Then everything since the last poll is new. -/
theorem Ticking.filter_newer {tr : List (PollLabel D)} (h : Ticking tr) :
    (pending tr).filter (newer tr) = pending tr := by
  refine List.filter_eq_self.mpr fun e he ↦ ?_
  rw [newer]
  rcases hlast : (polled tr).getLast? with _ | last
  · rfl
  · have hmap : ((emitted tr).map (·.timestamp)).Pairwise fun t u ↦ t < u := by
      rw [timestamps_emitted, List.pairwise_map]
      exact List.Pairwise.imp (fun hkey ↦ (DateTime.isoformat_lt_iff _ _).mpr hkey) h
    obtain ⟨init, hinit⟩ := List.getLast?_eq_some_iff.mp hlast
    rw [← polled_append_pending, hinit] at hmap
    exact decide_eq_true ((List.pairwise_append.mp (List.pairwise_map.mp hmap)).2.2 last
      (List.mem_append_right _ List.mem_cons_self) e he)

/-- No poll comes after more events than it returns. -/
def Frequent (tr : List (PollLabel D)) : Prop :=
  ∀ before limit after, tr = before ++ .poll limit :: after → 1 ≤ limit ∧ limit ≤ 10000 →
    (pending before).length ≤ min limit historyLength

theorem frequent_concat {tr : List (PollLabel D)} {a : PollLabel D} :
    Frequent (tr ++ [a]) ↔ Frequent tr ∧ ∀ limit, a = .poll limit → 1 ≤ limit ∧ limit ≤ 10000 →
      (pending tr).length ≤ min limit historyLength := by
  constructor
  · intro h
    refine ⟨fun before limit after heq ↦ h before limit (after ++ [a]) ?_,
      fun limit heq ↦ h tr limit [] ?_⟩
    · rw [heq, List.append_assoc, List.cons_append]
    · rw [heq]
  · rintro ⟨hbefore, hlast⟩ before limit after heq
    rcases List.eq_nil_or_concat after with rfl | ⟨after, b, rfl⟩
    · obtain ⟨rfl, ha⟩ := List.append_inj' heq rfl
      exact hlast limit (List.cons.inj ha).1
    · rw [List.concat_eq_append, ← List.cons_append, ← List.append_assoc] at heq
      exact hbefore before limit after (List.append_inj' heq rfl).1

/-- **No event comes twice, and none out of order**, as long as the clock is not set back. -/
theorem replies_sublist {tr : List (PollLabel D)} (h : Forward tr) :
    (replies tr ++ pending tr).Sublist (emitted tr) := by
  induction tr using List.reverseRecOn with
  | nil => exact List.Sublist.refl _
  | append_singleton tr a ih =>
    have hbefore := ih h.of_append
    rw [replies_concat]
    cases a with
    | emit time args =>
      rw [(pending_concat_of_not rfl tr).1, pollStep, List.append_nil, ← List.append_assoc,
        emitted_append]
      exact hbefore.append (List.Sublist.refl _)
    | poll limit =>
      rw [emitted_concat_poll]
      by_cases hlimit : 1 ≤ limit ∧ limit ≤ 10000
      · have hanswered : answered (.poll limit : PollLabel D) = true := decide_eq_true hlimit
        rw [(pending_concat_of_answered hanswered tr).1, List.append_nil,
          poll_reply h.of_append hlimit]
        refine List.Sublist.trans ?_ hbefore
        exact (List.Sublist.refl _).append ((List.drop_sublist _ _).trans List.filter_sublist)
      · have hrefused : answered (.poll limit : PollLabel D) = false := decide_eq_false hlimit
        rw [(pending_concat_of_not hrefused tr).1, pollStep_of_refused hlimit, List.append_nil,
          ← List.append_assoc]
        exact (List.append_nil (replies tr ++ pending tr)).symm ▸ hbefore

/-- **When a client misses nothing**: if the clock ticks with every event, exactly if no more events
come between two polls than the second one returns. -/
theorem replies_complete_iff {tr : List (PollLabel D)} (h : Ticking tr) :
    replies tr ++ pending tr = emitted tr ↔ Frequent tr := by
  induction tr using List.reverseRecOn with
  | nil =>
    refine iff_of_true rfl fun before limit after heq ↦ ?_
    exact absurd heq.symm (List.append_ne_nil_of_right_ne_nil _ (List.cons_ne_nil _ _))
  | append_singleton tr a ih =>
    have hbefore := ih h.of_append
    have hsub := replies_sublist h.of_append.forward
    rw [replies_concat, frequent_concat, ← hbefore]
    cases a with
    | emit time args =>
      rw [(pending_concat_of_not rfl tr).1, pollStep, List.append_nil, ← List.append_assoc,
        emitted_append, List.append_left_inj]
      exact (and_iff_left fun limit heq ↦ nomatch heq).symm
    | poll limit =>
      rw [emitted_concat_poll]
      by_cases hlimit : 1 ≤ limit ∧ limit ≤ 10000
      · have hanswered : answered (.poll limit : PollLabel D) = true := decide_eq_true hlimit
        rw [(pending_concat_of_answered hanswered tr).1, List.append_nil,
          poll_reply h.of_append.forward hlimit, h.of_append.filter_newer]
        have hlen : ((pending tr).rtake (min limit historyLength)).length =
            (pending tr).length - ((pending tr).length - min limit historyLength) :=
          List.length_drop
        have hle := hsub.length_le
        rw [List.length_append] at hle
        constructor
        · intro heq
          have hlen' := congrArg List.length heq
          rw [List.length_append, hlen] at hlen'
          refine ⟨hsub.eq_of_length ?_, fun limit' heq' _ ↦ ?_⟩
          · rw [List.length_append]
            omega
          · obtain rfl := PollLabel.poll.inj heq'
            omega
        · rintro ⟨heq, hfew⟩
          have htake : (pending tr).rtake (min limit historyLength) = pending tr := by
            rw [List.rtake, Nat.sub_eq_zero_of_le (hfew limit rfl hlimit), List.drop_zero]
          rw [htake, heq]
      · have hrefused : answered (.poll limit : PollLabel D) = false := decide_eq_false hlimit
        have hpending : pending (tr ++ [.poll limit]) = pending tr :=
          (pending_concat_of_not hrefused tr).1.trans (List.append_nil _)
        rw [hpending, pollStep_of_refused hlimit, List.append_nil]
        refine (and_iff_left fun limit' heq' hlimit' ↦ absurd ?_ hlimit).symm
        exact PollLabel.poll.inj heq' ▸ hlimit'

theorem replies_complete_iff_twoEvents :
    replies twoEvents ++ pending twoEvents = emitted twoEvents ↔ Frequent twoEvents :=
  replies_complete_iff ticking_twoEvents

end

end Events

end ArgusMcp
