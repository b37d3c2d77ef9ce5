import ArgusMcp.Library.Dict
import ArgusMcp.Library.Run
import ArgusMcp.Library.Value

/-!
# Elicitation

A backend may ask the user for input while a tool runs. `ElicitationBridge` of
`bridge/elicitation.py` hands the request to the handler that is registered, waits for an answer or
for the timeout, and keeps the requests it waits for in `_pending`, under the ids that the backends
have chosen.

Any number of requests may be waiting at a time, and each `handle_request` runs without interruption
up to where it waits, and from there to its end.

## What is pending

A request that is waiting is an entry of `_pending`, and the other way round, as long as no request
starts while another one with the same id is waiting (`accurate_iff_guarded`). With the first such
request an entry is lost, and `has_pending` may deny it.
-/

namespace ArgusMcp

namespace Elicitation

variable {O : Type}

inductive ElicitationStatus where
  | pending
  | approved
  | denied
  | timeout
  deriving DecidableEq

structure ElicitationRequest (O : Type) where
  requestId : String
  toolName : String
  message : String
  schema : List (String × Value O)
  backendName : String

structure ElicitationResponse (O : Type) where
  requestId : String
  status : ElicitationStatus
  data : List (String × Value O) := []

/-- What comes of waiting: the user has entered something or nothing, the time is up, or there is an
exception, of the handler or because the request has been cancelled. -/
inductive Outcome (O : Type) where
  | result (data : Option (List (String × Value O)))
  | timeout
  | raised

/-- What `handle_request` returns then, unless it raises. -/
def respond (request : ElicitationRequest O) : Outcome O → Option (ElicitationResponse O)
  | .result none => some { requestId := request.requestId, status := .denied }
  | .result (some data) => some ⟨request.requestId, .approved, data⟩
  | .timeout => some { requestId := request.requestId, status := .timeout }
  | .raised => none

/-- The bridge, the calls of `handle_request` that are waiting, by their numbers, and what the
others have returned. -/
structure Bridge (O : Type) where
  callback : Bool
  pending : Dict String (ElicitationRequest O)
  started : ℕ
  waiting : Dict ℕ (ElicitationRequest O)
  returned : List (ℕ × Option (ElicitationResponse O))
  waiting_lt : ∀ n r, waiting.get? n = some r → n < started

def Bridge.init : Bridge O where
  callback := false
  pending := .empty
  started := 0
  waiting := .empty
  returned := []
  waiting_lt := fun _ _ h ↦ nomatch h

def Bridge.hasPending (b : Bridge O) : Bool := !b.pending.items.isEmpty

inductive Action (O : Type) where
  | registerHandler
  | handleRequest (request : ElicitationRequest O)
  | finish (n : ℕ) (outcome : Outcome O)

theorem Bridge.lt_of_get? (b : Bridge O) (n : ℕ) (r : ElicitationRequest O)
    (h : b.waiting.get? n = some r) : n < b.started + 1 := Nat.lt_succ_of_lt (b.waiting_lt n r h)

theorem Bridge.lt_of_get?_set (b : Bridge O) (request : ElicitationRequest O) (n : ℕ)
    (r : ElicitationRequest O) (h : (b.waiting.set b.started request).get? n = some r) :
    n < b.started + 1 := by
  rw [Dict.get?_set] at h
  split at h
  · omega
  · exact b.lt_of_get? n r h

/-- `handle_request`, up to where it waits. Without a handler the request is denied. -/
def Bridge.handleRequest (b : Bridge O) (request : ElicitationRequest O) : Bridge O :=
  if b.callback then
    { b with
      pending := b.pending.set request.requestId request
      started := b.started + 1
      waiting := b.waiting.set b.started request
      waiting_lt := b.lt_of_get?_set request }
  else
    { b with
      started := b.started + 1
      returned := b.returned ++
        [(b.started, some { requestId := request.requestId, status := .denied })]
      waiting_lt := b.lt_of_get? }

/-- The rest of a `handle_request`. The entry is dropped in any case. -/
def Bridge.finish (b : Bridge O) (n : ℕ) (outcome : Outcome O) (request : ElicitationRequest O) :
    Bridge O :=
  { b with
    pending := b.pending.del request.requestId
    waiting := b.waiting.del n
    returned := b.returned ++ [(n, respond request outcome)]
    waiting_lt := fun m r h ↦ by
      rw [Dict.get?_del] at h
      split at h
      · exact nomatch h
      · exact b.waiting_lt m r h }

def step (b : Bridge O) : Action O → Option (Bridge O)
  | .registerHandler => some { b with callback := true }
  | .handleRequest request => some (b.handleRequest request)
  | .finish n outcome => (b.waiting.get? n).map (b.finish n outcome)

/-- No two requests that are waiting have an id in common, and what is pending is what is
waiting. -/
structure Accurate (b : Bridge O) : Prop where
  distinct : ∀ n n' r r', b.waiting.get? n = some r → b.waiting.get? n' = some r' →
    r.requestId = r'.requestId → n = n'
  pending_iff : ∀ i r, b.pending.get? i = some r ↔
    ∃ n, b.waiting.get? n = some r ∧ r.requestId = i

/-- A request does not start while another one with its id is waiting. -/
def Fresh (b : Bridge O) : Action O → Prop
  | .handleRequest request => b.callback = true →
      ∀ n r, b.waiting.get? n = some r → r.requestId ≠ request.requestId
  | _ => True

theorem accurate_handleRequest_iff {b : Bridge O} (h : Accurate b) (hcallback : b.callback = true)
    (request : ElicitationRequest O) : Accurate (b.handleRequest request) ↔
      ∀ n r, b.waiting.get? n = some r → r.requestId ≠ request.requestId := by
  rw [Bridge.handleRequest, if_pos hcallback]
  constructor
  · intro hnew n r hn heq
    have hlt := b.waiting_lt n r hn
    have hself : (b.waiting.set b.started request).get? b.started = some request := by
      rw [Dict.get?_set, if_pos rfl]
    have hold : (b.waiting.set b.started request).get? n = some r := by
      rw [Dict.get?_set_of_ne _ _ (Nat.ne_of_lt hlt), hn]
    exact Nat.ne_of_lt hlt (hnew.distinct n b.started r request hold hself heq)
  · intro hfresh
    refine ⟨fun n n' r r' hn hn' heq ↦ ?_, fun i r ↦ ?_⟩
    · rw [Dict.get?_set] at hn hn'
      split at hn
      · split at hn'
        · exact ‹n = _›.trans ‹n' = _›.symm
        · obtain rfl := Option.some.inj hn
          exact absurd heq.symm (hfresh n' r' hn')
      · split at hn'
        · obtain rfl := Option.some.inj hn'
          exact absurd heq (hfresh n r hn)
        · exact h.distinct n n' r r' hn hn' heq
    · dsimp only
      rw [Dict.get?_set]
      constructor
      · intro hi
        split at hi
        · rename_i heq
          obtain rfl := Option.some.inj hi
          exact ⟨b.started, by rw [Dict.get?_set, if_pos rfl], heq.symm⟩
        · obtain ⟨n, hn, hid⟩ := (h.pending_iff i r).mp hi
          exact ⟨n, by rw [Dict.get?_set_of_ne _ _ (Nat.ne_of_lt (b.waiting_lt n r hn)), hn], hid⟩
      · rintro ⟨n, hn, rfl⟩
        rw [Dict.get?_set] at hn
        split at hn
        · obtain rfl := Option.some.inj hn
          rw [if_pos rfl]
        · rw [if_neg (hfresh n r hn)]
          exact (h.pending_iff _ r).mpr ⟨n, hn, rfl⟩

theorem accurate_finish {b : Bridge O} (h : Accurate b) {n : ℕ} {request : ElicitationRequest O}
    (hn : b.waiting.get? n = some request) (outcome : Outcome O) :
    Accurate (b.finish n outcome request) := by
  refine ⟨fun m m' r r' hm hm' heq ↦ ?_, fun i r ↦ ?_⟩
  · rw [Bridge.finish] at hm hm'
    rw [Dict.get?_del, Option.ite_none_left_eq_some] at hm hm'
    exact h.distinct m m' r r' hm.2 hm'.2 heq
  · rw [Bridge.finish]
    dsimp only
    rw [Dict.get?_del, Option.ite_none_left_eq_some, h.pending_iff]
    constructor
    · rintro ⟨hne, m, hm, rfl⟩
      refine ⟨m, ?_, rfl⟩
      rw [Dict.get?_del, if_neg, hm]
      rintro rfl
      rw [hn] at hm
      exact hne (congrArg _ (Option.some.inj hm).symm)
    · rintro ⟨m, hm, rfl⟩
      rw [Dict.get?_del, Option.ite_none_left_eq_some] at hm
      refine ⟨fun heq ↦ hm.1 ?_, m, hm.2, rfl⟩
      exact h.distinct m n r request hm.2 hn heq

/-- **When the books are right**: in every state that a run comes to, exactly if no request starts
while another one with the same id is waiting. -/
theorem accurate_iff_guarded (tr : List (Action O)) :
    (∀ pre b, pre <+: tr → Run.run step Bridge.init pre = some b → Accurate b) ↔
      Run.Guarded step Fresh Bridge.init tr := by
  have hstep : ∀ (b : Bridge O) a m, True → Accurate b → step b a = some m →
      True ∧ (Accurate m ↔ Fresh b a) := by
    intro b a m _ hP hstep
    refine ⟨trivial, ?_⟩
    cases a with
    | registerHandler =>
      obtain rfl := Option.some.inj hstep
      exact iff_of_true ⟨hP.distinct, hP.pending_iff⟩ trivial
    | handleRequest request =>
      obtain rfl := Option.some.inj hstep
      by_cases hcallback : b.callback = true
      · rw [accurate_handleRequest_iff hP hcallback, Fresh]
        exact ⟨fun hall _ ↦ hall, fun himp ↦ himp hcallback⟩
      · refine iff_of_true ?_ fun htrue ↦ absurd htrue hcallback
        rw [Bridge.handleRequest, if_neg hcallback]
        exact ⟨hP.distinct, hP.pending_iff⟩
    | finish n outcome =>
      obtain ⟨request, hn, rfl⟩ := Option.map_eq_some_iff.mp hstep
      exact iff_of_true (accurate_finish hP hn outcome) trivial
  have hnone : ∀ (b : Bridge O) a, True → Accurate b → step b a = none → Fresh b a := by
    intro b a _ _ hnone
    cases a with
    | registerHandler => trivial
    | handleRequest request => exact nomatch hnone
    | finish n outcome => trivial
  have hinit : Accurate (Bridge.init : Bridge O) := by
    constructor
    · intro n n' r r' hn
      exact nomatch hn
    · intro i r
      refine iff_of_false (fun h ↦ nomatch h) ?_
      rintro ⟨n, hn, -⟩
      exact nomatch hn
  exact @Run.forall_reached_iff_guarded _ _ step Fresh (fun _ ↦ True) Accurate hstep hnone tr
    .init trivial hinit

end Elicitation

end ArgusMcp
