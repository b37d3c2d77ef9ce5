import ArgusMcp.Library.Value
import ArgusMcp.Server.Auth
import Mathlib.Algebra.BigOperators.Group.List.Basic
import Mathlib.Data.List.Infix
import Mathlib.Data.Seq.Basic

/-!
# Limits on the body of a request

`PayloadLimitsMiddleware` of `server/payload_limits.py` reads the whole body of a request before it
calls the app, which then gets it in one message. A body that is too long is answered with 413, and
JSON that is nested too deeply with 400.

The body comes in messages, and the loop that collects it is left when a message says that it was
the last one, or the body is too long. A client that goes away sends neither: from then on the
server delivers `http.disconnect`, which the loop takes no notice of (`stops_iff`).

The depth of a value is found by looking at its parts one level deeper. A container that has no
parts is therefore not counted, which lets it through one level too deep, and a text that the
parser itself finds too deep ends in an exception (`exact_iff`).
-/

namespace ArgusMcp

/-- How deeply lists and dictionaries are nested, those without items included. -/
def Value.depth {O : Type} : Value O → ℕ
  | .list l => depthList l + 1
  | .dict d => depthDict d + 1
  | .none | .bool _ | .int _ | .str _ | .obj _ => 0
where
  depthList : List (Value O) → ℕ
    | [] => 0
    | v :: l => max (depth v) (depthList l)
  depthDict : List (String × Value O) → ℕ
    | [] => 0
    | (_, v) :: d => max (depth v) (depthDict d)

namespace PayloadLimits

variable {O : Type}

/-! ## The middleware -/

structure PayloadLimitsConfig where
  enabled : Bool := true
  maxBodyBytes : ℕ := 1048576
  maxJsonDepth : ℕ := 20
  maxBodyBytes_mem : 1024 ≤ maxBodyBytes ∧ maxBodyBytes ≤ 104857600 := by decide
  maxJsonDepth_mem : 1 ≤ maxJsonDepth ∧ maxJsonDepth ≤ 100 := by decide

/-- The part of an ASGI scope the middleware reads. -/
structure HttpScope where
  type : String
  method : Option String
  headers : List (Bytes × Bytes)

/-- What a server delivers: a part of the body, which may leave out that it is empty or the last
one; or the news that the client is gone. -/
inductive Message where
  | request (body : Option Bytes) (moreBody : Option Bool)
  | disconnect

mutual

/-- `_check_json_depth`: the data are too deep. -/
def checkJsonDepth (maxDepth current : ℕ) : Value O → Bool
  | .list l => decide (maxDepth < current) || checkItems maxDepth (current + 1) l
  | .dict d => decide (maxDepth < current) || checkEntries maxDepth (current + 1) d
  | .none | .bool _ | .int _ | .str _ | .obj _ => decide (maxDepth < current)

def checkItems (maxDepth current : ℕ) : List (Value O) → Bool
  | [] => false
  | v :: l => checkJsonDepth maxDepth current v || checkItems maxDepth current l

def checkEntries (maxDepth current : ℕ) : List (String × Value O) → Bool
  | [] => false
  | (_, v) :: d => checkJsonDepth maxDepth current v || checkEntries maxDepth current d

end

/-- What `json.loads` raises. -/
inductive LoadsError where
  | valueError
  | typeError
  | recursionError
  deriving DecidableEq

/-- `json.loads`. Nothing is no JSON. -/
structure JsonParser (O : Type) where
  loads : Bytes → Except LoadsError (Value O)
  loads_nil : loads [] = .error .valueError

structure PayloadTooLarge where
  received : ℕ
  limit : ℕ

/-- The local variables of the loop. -/
structure Buffer where
  bodyChunks : List Bytes
  totalSize : ℕ
  bodyDone : Bool

def bufferingReceive (config : PayloadLimitsConfig) (b : Buffer) :
    Message → Except PayloadTooLarge Buffer
  | .disconnect => .ok b
  | .request body moreBody =>
    let chunk := body.getD []
    let totalSize := b.totalSize + chunk.length
    if config.maxBodyBytes < totalSize then .error ⟨totalSize, config.maxBodyBytes⟩
    else .ok ⟨b.bodyChunks ++ [chunk], totalSize,
      if moreBody.getD false then b.bodyDone else true⟩

/-- How the loop is left, if it is. -/
inductive Consumed where
  | waiting
  | tooLarge (e : PayloadTooLarge)
  | body (bodyChunks : List Bytes) (rest : List Message)

/-- The loop, on the messages that have been delivered. -/
def consume (config : PayloadLimitsConfig) : Buffer → List Message → Consumed
  | b, [] => if b.bodyDone then .body b.bodyChunks [] else .waiting
  | b, m :: messages =>
    if b.bodyDone then .body b.bodyChunks (m :: messages)
    else
      match bufferingReceive config b m with
      | .error e => .tooLarge e
      | .ok b => consume config b messages

/-- `_is_json_content`. The first content type counts. -/
def isJsonContent (scope : HttpScope) : Bool :=
  match scope.headers.find? fun h ↦ decide (h.1 = asciiBytes "content-type") with
  | none => false
  | some h => decide (asciiBytes "json" <:+: h.2.map fun x ↦
      if 65 ≤ x ∧ x ≤ 90 then x + 32 else x)

/-- The method is one of those whose requests have no body. -/
def skipsBody (scope : HttpScope) : Bool :=
  let method := String.ofList ((scope.method.getD "GET").toList.map Char.toUpper)
  decide (method ∈ ["GET", "HEAD", "OPTIONS", "DELETE"])

structure JsonResponse where
  statusCode : ℕ
  error : String
  message : String
  deriving DecidableEq

def tooLargeResponse (e : PayloadTooLarge) : JsonResponse :=
  ⟨413, "payload_too_large", "Request body exceeds " ++ toString e.limit ++ " byte limit."⟩

def tooDeepResponse (config : PayloadLimitsConfig) : JsonResponse :=
  ⟨400, "bad_request",
    "JSON nesting depth exceeds " ++ toString config.maxJsonDepth ++ " level limit."⟩

/-- What becomes of a request: the body is not complete, the app is called and receives messages,
there is a response, or an exception. -/
inductive Outcome where
  | waiting
  | app (receive : List Message)
  | answered (response : JsonResponse)
  | raises (e : LoadsError)

/-- The app is called with the body that was collected, and then gets what is left. -/
def replay (fullBody : Bytes) (rest : List Message) : Outcome :=
  .app (.request (some fullBody) (some false) :: rest)

/-- What `__call__` does when the body is complete. -/
def release (config : PayloadLimitsConfig) (parser : JsonParser O) (scope : HttpScope)
    (fullBody : Bytes) (rest : List Message) : Outcome :=
  if fullBody ≠ [] ∧ isJsonContent scope = true then
    match parser.loads fullBody with
    | .error .recursionError => .raises .recursionError
    | .error _ => replay fullBody rest
    | .ok parsed =>
      if checkJsonDepth config.maxJsonDepth 0 parsed then .answered (tooDeepResponse config)
      else replay fullBody rest
  else replay fullBody rest

/-- `__call__`, on the messages that have been delivered. -/
def call (config : PayloadLimitsConfig) (parser : JsonParser O) (scope : HttpScope)
    (messages : List Message) : Outcome :=
  if scope.type ≠ "http" ∨ config.enabled = false then .app messages
  else if skipsBody scope = true then .app messages
  else
    match consume config ⟨[], 0, false⟩ messages with
    | .waiting => .waiting
    | .tooLarge e => .answered (tooLargeResponse e)
    | .body bodyChunks rest => release config parser scope bodyChunks.flatten rest

/-- The middleware is to look at the body. -/
structure Limited (config : PayloadLimitsConfig) (scope : HttpScope) : Prop where
  http : scope.type = "http"
  enabled : config.enabled = true
  hasBody : skipsBody scope = false

variable {config : PayloadLimitsConfig} {parser : JsonParser O} {scope : HttpScope}

theorem call_of_limited (h : Limited config scope) (messages : List Message) :
    call config parser scope messages =
      match consume config ⟨[], 0, false⟩ messages with
      | .waiting => .waiting
      | .tooLarge e => .answered (tooLargeResponse e)
      | .body bodyChunks rest => release config parser scope bodyChunks.flatten rest := by
  have hlooks : ¬ (scope.type ≠ "http" ∨ config.enabled = false) := by
    rw [h.http, h.enabled]
    simp
  have hbody : ¬ skipsBody scope = true := by
    rw [h.hasBody]
    exact Bool.false_ne_true
  rw [call, if_neg hlooks, if_neg hbody]

/-! ## The loop -/

namespace Message

/-- The part of the body in the message, if there is one. -/
def chunks : Message → List Bytes
  | .request body _ => [body.getD []]
  | .disconnect => []

def size : Message → ℕ
  | .request body _ => (body.getD []).length
  | .disconnect => 0

/-- It says that it is the last part of the body. -/
def isLast : Message → Bool
  | .request _ moreBody => !moreBody.getD false
  | .disconnect => false

end Message

/-- How much of a body there is in some messages. -/
def bodySize (messages : List Message) : ℕ := (messages.map Message.size).sum

theorem bodySize_cons (m : Message) (messages : List Message) :
    bodySize (m :: messages) = m.size + bodySize messages := by
  rw [bodySize, List.map_cons, List.sum_cons, ← bodySize]

theorem bufferingReceive_of_le {b : Buffer} {m : Message} (hdone : b.bodyDone = false)
    (h : b.totalSize + m.size ≤ config.maxBodyBytes) : bufferingReceive config b m =
      .ok ⟨b.bodyChunks ++ m.chunks, b.totalSize + m.size, m.isLast⟩ := by
  rcases b with ⟨bodyChunks, totalSize, bodyDone⟩
  rcases m with ⟨body, moreBody⟩ | _
  · rw [bufferingReceive]
    dsimp only [Message.size, Message.chunks, Message.isLast] at h hdone ⊢
    rw [if_neg (by omega), hdone]
    rcases moreBody.getD false with _ | _
    · rfl
    · rfl
  · rw [bufferingReceive, Message.chunks, Message.size, Message.isLast, List.append_nil,
      Nat.add_zero]
    exact congrArg Except.ok (congrArg _ hdone)

theorem exists_bufferingReceive_of_lt {b : Buffer} {m : Message}
    (hb : b.totalSize ≤ config.maxBodyBytes) (h : config.maxBodyBytes < b.totalSize + m.size) :
    ∃ e : PayloadTooLarge, bufferingReceive config b m = .error e := by
  rcases m with ⟨body, moreBody⟩ | _
  · refine ⟨⟨b.totalSize + (body.getD []).length, config.maxBodyBytes⟩, ?_⟩
    rw [bufferingReceive]
    exact if_pos h
  · rw [Message.size] at h
    omega

theorem consume_of_done {b : Buffer} (h : b.bodyDone = true) (messages : List Message) :
    consume config b messages = .body b.bodyChunks messages := by
  rcases messages with _ | ⟨m, messages⟩
  · rw [consume, if_pos h]
  · rw [consume, if_pos h]

theorem consume_cons_of_le {b : Buffer} {m : Message} (hdone : b.bodyDone = false)
    (h : b.totalSize + m.size ≤ config.maxBodyBytes) (messages : List Message) :
    consume config b (m :: messages) =
      consume config ⟨b.bodyChunks ++ m.chunks, b.totalSize + m.size, m.isLast⟩ messages := by
  rw [consume, hdone, if_neg Bool.false_ne_true, bufferingReceive_of_le hdone h]

theorem exists_consume_of_lt {b : Buffer} {m : Message} (hdone : b.bodyDone = false)
    (hb : b.totalSize ≤ config.maxBodyBytes) (h : config.maxBodyBytes < b.totalSize + m.size)
    (messages : List Message) : ∃ e, consume config b (m :: messages) = .tooLarge e := by
  obtain ⟨e, he⟩ := exists_bufferingReceive_of_lt hb h
  exact ⟨e, by rw [consume, hdone, if_neg Bool.false_ne_true, he]⟩

theorem consume_eq_waiting_iff {b : Buffer} (hdone : b.bodyDone = false)
    (hb : b.totalSize ≤ config.maxBodyBytes) (messages : List Message) :
    consume config b messages = .waiting ↔
      (∀ m ∈ messages, m.isLast = false) ∧
        b.totalSize + bodySize messages ≤ config.maxBodyBytes := by
  induction messages generalizing b with
  | nil =>
    rw [consume, hdone, if_neg Bool.false_ne_true]
    exact iff_of_true rfl ⟨fun m hm ↦ absurd hm List.not_mem_nil, hb⟩
  | cons m messages ih =>
    rw [bodySize_cons, List.forall_mem_cons]
    by_cases hlt : config.maxBodyBytes < b.totalSize + m.size
    · obtain ⟨e, he⟩ := exists_consume_of_lt hdone hb hlt messages
      rw [he]
      exact iff_of_false (by simp) fun h ↦ by omega
    · rw [consume_cons_of_le hdone (not_lt.mp hlt)]
      rcases hlast : m.isLast with _ | _
      · rw [ih rfl (not_lt.mp hlt)]
        dsimp only
        rw [and_iff_right rfl, Nat.add_assoc]
      · rw [consume_of_done rfl]
        exact iff_of_false (by simp) fun h ↦ Bool.noConfusion h.1.1

theorem call_eq_waiting_iff (h : Limited config scope) (messages : List Message) :
    call config parser scope messages = .waiting ↔
      (∀ m ∈ messages, m.isLast = false) ∧ bodySize messages ≤ config.maxBodyBytes := by
  have hiff := consume_eq_waiting_iff (b := ⟨[], 0, false⟩) rfl (Nat.zero_le config.maxBodyBytes)
    messages
  rw [Nat.zero_add] at hiff
  rw [call_of_limited h, ← hiff]
  rcases consume config ⟨[], 0, false⟩ messages with _ | e | ⟨bodyChunks, rest⟩
  · exact iff_of_true rfl rfl
  · exact iff_of_false (by simp) (by simp)
  · refine iff_of_false ?_ (by simp)
    dsimp only
    rw [release]
    split
    · split
      · simp
      · simp [replay]
      · split
        · simp
        · simp [replay]
    · simp [replay]

open Stream' (Seq)

/-- What a server delivers ends with the client's going away, if that comes. -/
def Deliverable (s : Seq Message) : Prop :=
  ∀ n k, n ≤ k → s.get? n = some .disconnect → s.get? k = some .disconnect

/-- After some of the messages the loop has been left. -/
def Stops (config : PayloadLimitsConfig) (parser : JsonParser O) (scope : HttpScope)
    (s : Seq Message) : Prop :=
  ∃ n, call config parser scope (s.take n) ≠ .waiting

/-- **When the loop is left.** On a stream of messages, finite or infinite, it is left exactly if
one of them says that it is the last part of the body, or there is too much of a body in them. The
news that the client is gone is neither. -/
theorem stops_iff (h : Limited config scope) (parser : JsonParser O) (s : Seq Message) :
    Stops config parser scope s ↔
      (∃ m ∈ s, m.isLast = true) ∨ ∃ n, config.maxBodyBytes < bodySize (s.take n) := by
  constructor
  · rintro ⟨n, hn⟩
    rw [ne_eq, call_eq_waiting_iff h, not_and_or] at hn
    rcases hn with hlast | hsize
    · push Not at hlast
      obtain ⟨m, hm, hlast⟩ := hlast
      refine Or.inl ⟨m, ?_, Bool.eq_true_of_not_eq_false hlast⟩
      exact Seq.take_all (p := fun m ↦ m ∈ s) (fun _ hx ↦ hx) hm
    · exact Or.inr ⟨n, not_le.mp hsize⟩
  · rintro (⟨m, hm, hlast⟩ | ⟨n, hn⟩)
    · obtain ⟨k, hk⟩ := Seq.mem_iff_exists_get?.mp hm
      refine ⟨k + 1, fun hwait ↦ ?_⟩
      have hall := ((call_eq_waiting_iff h _).mp hwait).1
      have hmem := Seq.get?_mem_take (Nat.lt_succ_self k) hk.symm
      rw [hall m hmem] at hlast
      exact Bool.false_ne_true hlast
    · refine ⟨n, fun hwait ↦ ?_⟩
      exact absurd hn (not_lt.mpr ((call_eq_waiting_iff h _).mp hwait).2)

/-! ## Depth -/

mutual

theorem checkJsonDepth_iff (maxDepth current : ℕ) (v : Value O) :
    checkJsonDepth maxDepth current v = true ↔ maxDepth < current + v.height := by
  match v with
  | .list l =>
    rw [checkJsonDepth, Bool.or_eq_true, decide_eq_true_eq, checkItems_iff, Value.height]
  | .dict d =>
    rw [checkJsonDepth, Bool.or_eq_true, decide_eq_true_eq, checkEntries_iff, Value.height]
  | .none | .bool _ | .int _ | .str _ | .obj _ =>
    rw [checkJsonDepth, decide_eq_true_eq, Value.height, Nat.add_zero]

theorem checkItems_iff (maxDepth current : ℕ) (l : List (Value O)) :
    maxDepth < current ∨ checkItems maxDepth (current + 1) l = true ↔
      maxDepth < current + Value.heightList l := by
  match l with
  | [] => simp [checkItems, Value.heightList]
  | v :: l =>
    have hrest := checkItems_iff maxDepth current l
    rw [checkItems, Bool.or_eq_true, checkJsonDepth_iff, or_left_comm, hrest, Value.heightList]
    omega

theorem checkEntries_iff (maxDepth current : ℕ) (d : List (String × Value O)) :
    maxDepth < current ∨ checkEntries maxDepth (current + 1) d = true ↔
      maxDepth < current + Value.heightDict d := by
  match d with
  | [] => simp [checkEntries, Value.heightDict]
  | (k, v) :: d =>
    have hrest := checkEntries_iff maxDepth current d
    rw [checkEntries, Bool.or_eq_true, checkJsonDepth_iff, or_left_comm, hrest, Value.heightDict]
    omega

end

mutual

theorem height_le_depth (v : Value O) : v.height ≤ v.depth := by
  match v with
  | .list l =>
    rw [Value.height, Value.depth]
    exact heightList_le l
  | .dict d =>
    rw [Value.height, Value.depth]
    exact heightDict_le d
  | .none | .bool _ | .int _ | .str _ | .obj _ => rw [Value.height, Value.depth]

theorem heightList_le (l : List (Value O)) :
    Value.heightList l ≤ Value.depth.depthList l + 1 := by
  match l with
  | [] => exact Nat.zero_le _
  | v :: l =>
    have hv := height_le_depth v
    have hl := heightList_le l
    rw [Value.heightList, Value.depth.depthList]
    omega

theorem heightDict_le (d : List (String × Value O)) :
    Value.heightDict d ≤ Value.depth.depthDict d + 1 := by
  match d with
  | [] => exact Nat.zero_le _
  | (k, v) :: d =>
    have hv := height_le_depth v
    have hd := heightDict_le d
    rw [Value.heightDict, Value.depth.depthDict]
    omega

end

/-! ## What the gate lets through -/

/-- The messages in which a body comes that is split into chunks. -/
def messagesOf (init : List Bytes) (last : Bytes) : List Message :=
  init.map (fun chunk ↦ .request (some chunk) (some true)) ++ [.request (some last) (some false)]

/-- The body is to reach the app: it is not too long, and not too deep if it is JSON. -/
def Allowed (config : PayloadLimitsConfig) (parser : JsonParser O) (scope : HttpScope)
    (body : Bytes) : Prop :=
  body.length ≤ config.maxBodyBytes ∧
    (isJsonContent scope = true → ∀ v, parser.loads body = .ok v → v.depth ≤ config.maxJsonDepth)

/-- The app is called if the body is to reach it, and gets it in one message, with the messages
behind it left for later; otherwise there is a response, and never an exception. -/
structure Exact (allowed : Prop) (body : Bytes) (rest : List Message) (o : Outcome) : Prop where
  app_iff : (∃ receive, o = .app receive) ↔ allowed
  receive_eq : ∀ receive, o = .app receive →
    receive = .request (some body) (some false) :: rest
  answered : ¬ allowed → ∃ r, o = .answered r ∧ (r.statusCode = 413 ∨ r.statusCode = 400)
  not_raises : ∀ e, o ≠ .raises e

/-- What goes wrong with a body that is short enough: the parser does not get to the bottom of it,
or there are containers one level too deep, none of which has parts. -/
def Overlooked (config : PayloadLimitsConfig) (parser : JsonParser O) (scope : HttpScope)
    (body : Bytes) : Prop :=
  body.length ≤ config.maxBodyBytes ∧ body ≠ [] ∧ isJsonContent scope = true ∧
    (parser.loads body = .error .recursionError ∨ ∃ v, parser.loads body = .ok v ∧
      v.height ≤ config.maxJsonDepth ∧ config.maxJsonDepth < v.depth)

/-- The loop over a body in chunks. -/
theorem consume_messagesOf {b : Buffer} (hdone : b.bodyDone = false)
    (hb : b.totalSize ≤ config.maxBodyBytes) (init : List Bytes) (last : Bytes)
    (rest : List Message) :
    (b.totalSize + (init ++ [last]).flatten.length ≤ config.maxBodyBytes →
      consume config b (messagesOf init last ++ rest) =
        .body (b.bodyChunks ++ (init ++ [last])) rest) ∧
    (config.maxBodyBytes < b.totalSize + (init ++ [last]).flatten.length →
      ∃ e, consume config b (messagesOf init last ++ rest) = .tooLarge e) := by
  induction init generalizing b with
  | nil =>
    rw [List.nil_append, List.flatten_singleton, messagesOf, List.map_nil, List.nil_append,
      List.singleton_append]
    constructor
    · intro hle
      have hstep := @consume_cons_of_le config b (.request (some last) (some false)) hdone hle rest
      rw [hstep, consume_of_done rfl]
      rfl
    · intro hlt
      exact @exists_consume_of_lt config b (.request (some last) (some false)) hdone hb hlt rest
  | cons chunk init ih =>
    have hmessages : messagesOf (chunk :: init) last ++ rest =
        .request (some chunk) (some true) :: (messagesOf init last ++ rest) := rfl
    rw [hmessages, List.cons_append, List.flatten_cons, List.length_append]
    by_cases hchunk : config.maxBodyBytes < b.totalSize + chunk.length
    · refine ⟨fun hle ↦ by omega, fun _ ↦ ?_⟩
      exact @exists_consume_of_lt config b (.request (some chunk) (some true)) hdone hb hchunk _
    · have hstep := @consume_cons_of_le config b (.request (some chunk) (some true)) hdone
        (not_lt.mp hchunk) (messagesOf init last ++ rest)
      rw [hstep]
      have h := @ih ⟨b.bodyChunks ++ [chunk], b.totalSize + chunk.length, false⟩ rfl
        (not_lt.mp hchunk)
      dsimp only at h
      rw [List.append_assoc, List.singleton_append, Nat.add_assoc] at h
      exact h

theorem exact_replay_iff {allowed : Prop} (body : Bytes) (rest : List Message) :
    Exact allowed body rest (replay body rest) ↔ allowed := by
  constructor
  · intro h
    exact h.app_iff.mp ⟨_, rfl⟩
  · intro hallowed
    refine ⟨iff_of_true ⟨_, rfl⟩ hallowed, ?_, fun hnot ↦ absurd hallowed hnot, ?_⟩
    · rintro receive ⟨⟩
      rfl
    · simp [replay]

theorem exact_answered {allowed : Prop} (hnot : ¬ allowed) (body : Bytes) (rest : List Message)
    {r : JsonResponse} (hr : r.statusCode = 413 ∨ r.statusCode = 400) :
    Exact allowed body rest (.answered r) := by
  refine ⟨iff_of_false (by simp) hnot, by simp, fun _ ↦ ⟨r, rfl, hr⟩, by simp⟩

theorem exact_release_iff (body : Bytes) (rest : List Message)
    (hsize : body.length ≤ config.maxBodyBytes) :
    Exact (Allowed config parser scope body) body rest (release config parser scope body rest) ↔
      ¬ Overlooked config parser scope body := by
  rw [release]
  split
  · rename_i hjson
    obtain ⟨hne, hjson⟩ := hjson
    rcases hloads : parser.loads body with e | v
    · have hallowed : Allowed config parser scope body := by
        refine ⟨hsize, fun _ v hv ↦ ?_⟩
        rw [hloads] at hv
        exact absurd hv (by simp)
      by_cases he : e = .recursionError
      · subst he
        exact iff_of_false (fun h ↦ h.not_raises _ rfl)
          (not_not.mpr ⟨hsize, hne, hjson, Or.inl hloads⟩)
      · have hnot : ¬ Overlooked config parser scope body := by
          rintro ⟨-, -, -, hdeep | ⟨v, hv, -⟩⟩
          · exact he (Except.error.inj (hloads.symm.trans hdeep))
          · exact absurd (hloads.symm.trans hv) (by simp)
        rcases e with _ | _ | _
        · exact iff_of_true ((exact_replay_iff body rest).mpr hallowed) hnot
        · exact iff_of_true ((exact_replay_iff body rest).mpr hallowed) hnot
        · exact absurd rfl he
    · dsimp only
      split
      · rename_i hcheck
        rw [checkJsonDepth_iff, Nat.zero_add] at hcheck
        refine iff_of_true (exact_answered (fun hallowed ↦ ?_) body rest (Or.inr rfl)) ?_
        · have hdepth := hallowed.2 hjson v hloads
          have hle := height_le_depth v
          omega
        · rintro ⟨-, -, -, hdeep | ⟨w, hw, hheight, -⟩⟩
          · exact absurd (hloads.symm.trans hdeep) (by simp)
          · obtain rfl := Except.ok.inj (hloads.symm.trans hw)
            omega
      · rename_i hcheck
        rw [checkJsonDepth_iff, Nat.zero_add, not_lt] at hcheck
        rw [exact_replay_iff]
        constructor
        · rintro hallowed ⟨-, -, -, hdeep | ⟨w, hw, -, hdepth⟩⟩
          · exact absurd (hloads.symm.trans hdeep) (by simp)
          · exact absurd (hallowed.2 hjson w hw) (not_le.mpr hdepth)
        · intro hnot
          refine ⟨hsize, fun _ w hw ↦ not_lt.mp fun hdepth ↦ ?_⟩
          obtain rfl := Except.ok.inj (hloads.symm.trans hw)
          exact hnot ⟨hsize, hne, hjson, Or.inr ⟨v, hloads, hcheck, hdepth⟩⟩
  · rename_i hjson
    rw [exact_replay_iff]
    refine iff_of_true ⟨hsize, fun hcontent v hv ↦ ?_⟩ fun h ↦ hjson ⟨h.2.1, h.2.2.1⟩
    -- a body that is not looked at is empty
    have hnil : body = [] := by
      by_contra hne
      exact hjson ⟨hne, hcontent⟩
    rw [hnil, parser.loads_nil] at hv
    exact absurd hv (by simp)

/-- **What the gate is exact for.** It lets through what it is to let through, and answers the rest,
exactly if nothing is overlooked in the body. -/
theorem exact_iff (h : Limited config scope) (parser : JsonParser O) (init : List Bytes)
    (last : Bytes) (rest : List Message) :
    Exact (Allowed config parser scope (init ++ [last]).flatten) (init ++ [last]).flatten rest
        (call config parser scope (messagesOf init last ++ rest)) ↔
      ¬ Overlooked config parser scope (init ++ [last]).flatten := by
  obtain ⟨hle, hlt⟩ := @consume_messagesOf config ⟨[], 0, false⟩ rfl (Nat.zero_le _) init last rest
  dsimp only at hle hlt
  rw [Nat.zero_add] at hle hlt
  rw [call_of_limited h]
  by_cases hsize : (init ++ [last]).flatten.length ≤ config.maxBodyBytes
  · rw [hle hsize, List.nil_append]
    exact exact_release_iff _ rest hsize
  · obtain ⟨e, he⟩ := hlt (not_le.mp hsize)
    rw [he]
    refine iff_of_true (exact_answered (fun hallowed ↦ hsize hallowed.1) _ rest (Or.inl rfl)) ?_
    exact fun hover ↦ hsize hover.1

/-! ## Two requests -/

/-- A request with JSON in its body. -/
def jsonScope : HttpScope where
  type := "http"
  method := some "POST"
  headers := [(asciiBytes "content-type", asciiBytes "application/json")]

/-- A list in a list is the deepest that is allowed, and is one level too deep. -/
def oneLevel : PayloadLimitsConfig where
  maxJsonDepth := 1

/-- A parser that reads a few texts. -/
def nestedParser : JsonParser Empty where
  loads := fun body ↦
    ([(asciiBytes "[[]]", .list [.list []]), (asciiBytes "[1]", .list [.int 1]),
      (asciiBytes "[[1]]", .list [.list [.int 1]])].lookup body).elim (.error .valueError) .ok
  loads_nil := rfl

theorem limited_jsonScope {config : PayloadLimitsConfig} (h : config.enabled = true) :
    Limited config jsonScope := by
  refine ⟨rfl, h, ?_⟩
  decide

/-- The second list has no items, and the check does not see it. -/
theorem not_forall_exact : ¬ ∀ (config : PayloadLimitsConfig) (parser : JsonParser Empty)
    (scope : HttpScope), Limited config scope → ∀ (init : List Bytes) (last : Bytes)
      (rest : List Message),
      Exact (Allowed config parser scope (init ++ [last]).flatten) (init ++ [last]).flatten rest
        (call config parser scope (messagesOf init last ++ rest)) := by
  intro h
  have hexact := h oneLevel nestedParser jsonScope (limited_jsonScope rfl) [] (asciiBytes "[[]]") []
  have hallowed := hexact.app_iff.mp ⟨_, rfl⟩
  have hdepth := hallowed.2 (by decide) (.list [.list []]) rfl
  exact absurd hdepth (by decide)

/-- A body in two chunks that is passed on, and one that is not. -/
theorem exact_iff_chunks :
    Exact (Allowed oneLevel nestedParser jsonScope (asciiBytes "[1]")) (asciiBytes "[1]") []
        (call oneLevel nestedParser jsonScope
          (messagesOf [asciiBytes "["] (asciiBytes "1]") ++ [])) ∧
      Exact (Allowed oneLevel nestedParser jsonScope (asciiBytes "[[1]]")) (asciiBytes "[[1]]") []
        (call oneLevel nestedParser jsonScope
          (messagesOf [asciiBytes "[["] (asciiBytes "1]]") ++ [])) := by
  constructor
  · refine (exact_iff (limited_jsonScope rfl) nestedParser [asciiBytes "["] (asciiBytes "1]")
      []).mpr ?_
    rintro ⟨-, -, -, hloads | ⟨v, hv, -, hdepth⟩⟩
    · have hok : nestedParser.loads ([asciiBytes "["] ++ [asciiBytes "1]"]).flatten =
          .ok (.list [.int 1]) := rfl
      exact absurd (hok.symm.trans hloads) (by simp)
    · obtain rfl : Value.list [.int 1] = v := Except.ok.inj hv
      exact absurd hdepth (by decide)
  · refine (exact_iff (limited_jsonScope rfl) nestedParser [asciiBytes "[["] (asciiBytes "1]]")
      []).mpr ?_
    rintro ⟨-, -, -, hloads | ⟨v, hv, hheight, -⟩⟩
    · have hok : nestedParser.loads ([asciiBytes "[["] ++ [asciiBytes "1]]"]).flatten =
          .ok (.list [.list [.int 1]]) := rfl
      exact absurd (hok.symm.trans hloads) (by simp)
    · obtain rfl : Value.list [.list [.int 1]] = v := Except.ok.inj hv
      exact absurd hheight (by decide)

/-- Nothing but the news that the client is gone. -/
def gone : Seq Message := Seq.ofStream fun _ ↦ .disconnect

/-- A client that goes away in the middle of a body. -/
def goneClient : Seq Message := .cons (.request (some (asciiBytes "a")) (some true)) gone

theorem mem_goneClient {m : Message} (h : m ∈ goneClient) :
    m = .request (some (asciiBytes "a")) (some true) ∨ m = .disconnect := by
  rcases Seq.eq_or_mem_of_mem_cons h with rfl | h
  · exact Or.inl rfl
  · obtain ⟨k, hk⟩ := Seq.mem_iff_exists_get?.mp h
    exact Or.inr (Option.some.inj hk)

theorem bodySize_take_goneClient (n : ℕ) : bodySize (goneClient.take n) ≤ 1 := by
  rcases n with _ | n
  · exact Nat.zero_le 1
  · have hzero : ∀ m ∈ gone.take n, m.size = 0 := by
      intro m hm
      have hgone := Seq.take_all (p := fun m ↦ m ∈ gone) (fun _ hx ↦ hx) hm
      obtain ⟨k, hk⟩ := Seq.mem_iff_exists_get?.mp hgone
      rw [Option.some.inj hk]
      rfl
    have hsum : bodySize (gone.take n) = 0 := by
      apply List.sum_eq_zero
      intro k hk
      obtain ⟨m, hm, rfl⟩ := List.mem_map.mp hk
      exact hzero m hm
    rw [goneClient, Seq.take_succ_cons, bodySize_cons, hsum]
    exact le_rfl

/-- The loop does not hear that the client is gone. -/
theorem not_forall_stops : ¬ ∀ (config : PayloadLimitsConfig) (parser : JsonParser Empty)
    (scope : HttpScope), Limited config scope →
      ∀ s : Seq Message, Deliverable s → Stops config parser scope s := by
  intro h
  have hdeliverable : Deliverable goneClient := by
    intro n k hle hn
    rcases n with _ | n
    · exact absurd hn (by simp [goneClient])
    · obtain ⟨k, rfl⟩ : ∃ k', k = k' + 1 := ⟨k - 1, by omega⟩
      rfl
  obtain ⟨n, hn⟩ := h oneLevel nestedParser jsonScope (limited_jsonScope rfl) goneClient
    hdeliverable
  refine hn ((call_eq_waiting_iff (limited_jsonScope rfl) _).mpr ⟨fun m hm ↦ ?_, ?_⟩)
  · have hmem := Seq.take_all (p := fun m ↦ m ∈ goneClient) (fun _ hx ↦ hx) hm
    rcases mem_goneClient hmem with rfl | rfl
    · rfl
    · rfl
  · exact (bodySize_take_goneClient n).trans (by decide)

theorem stops_iff_gone :
    Limited oneLevel jsonScope ∧ (Stops oneLevel nestedParser jsonScope goneClient ↔
      (∃ m ∈ goneClient, m.isLast = true) ∨ ∃ n, 1048576 < bodySize (goneClient.take n)) :=
  ⟨limited_jsonScope rfl, stops_iff (limited_jsonScope rfl) nestedParser goneClient⟩

end PayloadLimits

end ArgusMcp
