import ArgusMcp.Library.ExtRat
import ArgusMcp.Library.Machine

/-!
# The two token caches

Tokens are kept in memory by `TokenCache` of `bridge/auth/token_cache.py`, or by `RustTokenCache` of
`bridge/auth/_token_cache_rs` where that is installed. Both keep one token until its lifetime is
over, less a buffer.

They are swapped for each other, but only the second one looks at what it is given. It refuses a
token that UTF-8 has no bytes for, and a lifetime that is negative or not finite, and it counts in
nanoseconds: a lifetime beyond what the clock of the platform can tell ends in a panic, behind which
the mutex stays poisoned, and a fraction of a nanosecond is rounded off. `replies_eq_iff` says that
nothing else makes a difference.

Times are the nanoseconds of the one clock that both read. The strings of Python are a type `τ`, of
which the platform tells what can be encoded (`Platform.encodes`): what has no surrogates on their
own in it.
-/

namespace ArgusMcp

namespace TokenCaches

/-! ## Calls -/

inductive Op (τ : Type) where
  | set (token : τ) (expiresIn : ExtRat)
  | get
  | valid
  | invalidate

/-- A call, with the reading of the clock. -/
structure Call (τ : Type) where
  op : Op τ
  now : ℕ

/-- How a call ends. -/
inductive Reply (τ : Type) where
  | returned
  | token (t : Option τ)
  | flag (b : Bool)
  | unicodeEncodeError
  | valueError (message : String)
  | runtimeError (message : String)
  deriving DecidableEq

def seconds (ns : ℕ) : ℚ := ns / 1000000000

section Caches

variable {τ : Type}

/-! ## Python -/

structure TokenCache (τ : Type) where
  token : Option τ
  expiresAt : ExtRat
  expiryBuffer : ExtRat

namespace TokenCache

/-- `__init__`. -/
def new (expiryBuffer : ExtRat) : TokenCache τ := ⟨none, 0, expiryBuffer⟩

variable (cache : TokenCache τ)

def valid (now : ℕ) : Bool :=
  cache.token.isSome && ExtRat.blt (.fin (seconds now)) cache.expiresAt

def get (now : ℕ) : Option τ := if cache.valid now then cache.token else none

def set (token : τ) (expiresIn : ExtRat) (now : ℕ) : TokenCache τ :=
  let effectiveTtl := ExtRat.maxOf 0 (expiresIn - cache.expiryBuffer)
  { cache with token := some token, expiresAt := .fin (seconds now) + effectiveTtl }

def invalidate : TokenCache τ := { cache with token := none, expiresAt := 0 }

def step (call : Call τ) : TokenCache τ × Reply τ :=
  match call.op with
  | .set token expiresIn => (cache.set token expiresIn call.now, .returned)
  | .get => (cache, .token (cache.get call.now))
  | .valid => (cache, .flag (cache.valid call.now))
  | .invalidate => (cache.invalidate, .returned)

end TokenCache

/-! ## Rust -/

/-- The last instant that the clock of the platform can tell, how numbers are written, and which
strings of Python are strings of Rust. -/
structure Platform (τ : Type) where
  horizon : ℕ
  show_ : ExtRat → String
  encodes : τ → Bool

/-- `Duration::from_secs_f64`, in nanoseconds, where it does not panic. -/
def fromSecs : ExtRat → Option ℕ
  | .fin q =>
    let ns := ExtRat.roundEven (q * 1000000000)
    if 0 ≤ q ∧ ns < 2 ^ 64 * 1000000000 then some ns else none
  | _ => none

/-- `instant + duration`, where it does not panic. -/
def addInstant (platform : Platform τ) (now d : ℕ) : Option ℕ :=
  if now + d ≤ platform.horizon then some (now + d) else none

/-- `RustTokenCache`: what is behind the mutex, and whether that is poisoned. -/
structure RustTokenCache (τ : Type) where
  token : Option τ
  expiresAt : Option ℕ
  expiryBuffer : ExtRat
  poisoned : Bool

namespace RustTokenCache

def new (expiryBuffer : ExtRat) : RustTokenCache τ := ⟨none, none, expiryBuffer, false⟩

variable (platform : Platform τ) (cache : RustTokenCache τ)

def poisonedError : Reply τ :=
  .runtimeError "lock poisoned: poisoned lock: another task failed inside"

/-- What `ffi_guard` makes of a panic. -/
def panicked (message : String) : Reply τ :=
  .runtimeError ("RustTokenCache::set: Rust panic: " ++ message)

/-- There is a token and it is not over. -/
def holds (now : ℕ) : Bool :=
  cache.token.isSome && cache.expiresAt.any fun e ↦ decide (now < e)

def valid (now : ℕ) : Reply τ :=
  if cache.poisoned then poisonedError else .flag (cache.holds now)

def get (now : ℕ) : Reply τ :=
  if cache.poisoned then poisonedError
  else .token (if cache.holds now then cache.token else none)

/-- The token is made a string of Rust first, and the lifetime is looked at before the lock is taken.
A panic with the lock in hand poisons it, and the token is already the new one. -/
def set (token : τ) (expiresIn : ExtRat) (now : ℕ) : RustTokenCache τ × Reply τ :=
  if platform.encodes token = false then (cache, .unicodeEncodeError)
  else if expiresIn.isFinite = false ∨ ExtRat.blt expiresIn 0 = true then
    (cache, .valueError ("expires_in must be finite and non-negative, got " ++
      platform.show_ expiresIn))
  else
    let effectiveTtl := ExtRat.fmax (expiresIn - cache.expiryBuffer) 0
    if cache.poisoned then (cache, poisonedError)
    else
      let cache := { cache with token := some token }
      match fromSecs effectiveTtl with
      | none => ({ cache with poisoned := true },
          panicked "cannot convert float seconds to Duration: value is either too big or NaN")
      | some d =>
        match addInstant platform now d with
        | none => ({ cache with poisoned := true },
            panicked "overflow when adding duration to instant")
        | some e => ({ cache with expiresAt := some e }, .returned)

def invalidate : RustTokenCache τ × Reply τ :=
  if cache.poisoned then (cache, poisonedError)
  else ({ cache with token := none, expiresAt := none }, .returned)

def step (call : Call τ) : RustTokenCache τ × Reply τ :=
  match call.op with
  | .set token expiresIn => cache.set platform token expiresIn call.now
  | .get => (cache, cache.get call.now)
  | .valid => (cache, cache.valid call.now)
  | .invalidate => cache.invalidate

end RustTokenCache

/-! ## What makes a difference -/

/-- How long a token is kept. -/
def ttl (expiryBuffer expiresIn : ExtRat) : ExtRat := ExtRat.maxOf 0 (expiresIn - expiryBuffer)

/-- The token and the lifetime are what both caches take: the token can be encoded, and the lifetime
is finite and not negative, and with it the token has an end that the clock can tell. -/
def Fits (platform : Platform τ) (expiryBuffer : ExtRat) (token : τ) (expiresIn : ExtRat) (now : ℕ) :
    Prop :=
  platform.encodes token = true ∧ (∃ q, 0 ≤ q ∧ expiresIn = .fin q) ∧
    ∃ d, fromSecs (ttl expiryBuffer expiresIn) = some d ∧ now + d ≤ platform.horizon

/-- When the token was set that is kept, and for how long. -/
def lastSet (expiryBuffer : ExtRat) (calls : List (Call τ)) : Option (ℕ × ExtRat) :=
  calls.foldl (fun last call ↦
    match call.op with
    | .set _ expiresIn => some (call.now, ttl expiryBuffer expiresIn)
    | .invalidate => none
    | _ => last) none

/-- The time is in the fraction of a nanosecond that was rounded off the lifetime. -/
def RoundedOff (now : ℕ) : Option (ℕ × ExtRat) → Prop
  | some (start, .fin q) =>
    start + ExtRat.roundEven (q * 1000000000) ≤ now ∧ seconds now < seconds start + q
  | _ => False

/-- The caches do the same with a call, behind other ones. -/
def Same (platform : Platform τ) (expiryBuffer : ExtRat) (before : List (Call τ)) (call : Call τ) :
    Prop :=
  match call.op with
  | .set token expiresIn => Fits platform expiryBuffer token expiresIn call.now
  | .get | .valid => ¬ RoundedOff call.now (lastSet expiryBuffer before)
  | .invalidate => True

/-! ## Lockstep -/

/-- What the caches have in common behind some calls. -/
structure Related (expiryBuffer : ExtRat) (before : List (Call τ)) (py : TokenCache τ)
    (rs : RustTokenCache τ) : Prop where
  py_buffer : py.expiryBuffer = expiryBuffer
  rs_buffer : rs.expiryBuffer = expiryBuffer
  not_poisoned : rs.poisoned = false
  token_eq : rs.token = py.token
  kept : lastSet expiryBuffer before = none ∧ py.token = none ∨
    ∃ start q, lastSet expiryBuffer before = some (start, .fin q) ∧ 0 ≤ q ∧
      py.token.isSome = true ∧ py.expiresAt = .fin (seconds start + q) ∧
        rs.expiresAt = some (start + ExtRat.roundEven (q * 1000000000))

theorem lastSet_concat (expiryBuffer : ExtRat) (before : List (Call τ)) (call : Call τ) :
    lastSet expiryBuffer (before ++ [call]) =
      match call.op with
      | .set _ expiresIn => some (call.now, ttl expiryBuffer expiresIn)
      | .invalidate => none
      | _ => lastSet expiryBuffer before := by
  rw [lastSet, List.foldl_append]
  rfl

theorem seconds_lt_of_lt {start now : ℕ} {q : ℚ} (hq : 0 ≤ q)
    (h : now < start + ExtRat.roundEven (q * 1000000000)) : seconds now < seconds start + q := by
  have hq' : 0 ≤ q * 1000000000 := by linarith
  rw [seconds, seconds]
  rcases Nat.lt_or_ge now start with hlt | hge
  · have hcast : (now : ℚ) < start := by exact_mod_cast hlt
    linarith
  · obtain ⟨k, rfl⟩ := Nat.exists_eq_add_of_le hge
    have hk : (k : ℚ) < q * 1000000000 := ExtRat.lt_of_lt_roundEven hq' (by omega)
    push_cast
    linarith

section

variable {platform : Platform τ} {expiryBuffer : ExtRat} {before : List (Call τ)}
  {py : TokenCache τ} {rs : RustTokenCache τ}

/-- The token is over for the one and not for the other in the fraction that was rounded off. -/
theorem valid_eq_holds_iff (h : Related expiryBuffer before py rs) (now : ℕ) :
    py.valid now = rs.holds now ↔ ¬ RoundedOff now (lastSet expiryBuffer before) := by
  rcases h.kept with ⟨hlast, htoken⟩ | ⟨start, q, hlast, hq, hsome, hpy, hrs⟩
  · rw [TokenCache.valid, RustTokenCache.holds, h.token_eq, htoken, hlast]
    exact iff_of_true rfl not_false
  · have hvalid : py.valid now = decide (seconds now < seconds start + q) := by
      rw [TokenCache.valid, hsome, hpy, Bool.true_and]
      rfl
    have hholds : rs.holds now = decide (now < start + ExtRat.roundEven (q * 1000000000)) := by
      rw [RustTokenCache.holds, h.token_eq, hsome, hrs, Bool.true_and, Option.any_some]
    rw [hvalid, hholds, hlast, decide_eq_decide, RoundedOff]
    constructor
    · rintro hiff ⟨hover, hlt⟩
      exact absurd (hiff.mp hlt) (not_lt.mpr hover)
    · intro hnot
      refine ⟨fun hlt ↦ ?_, seconds_lt_of_lt hq⟩
      by_contra hover
      exact hnot ⟨not_lt.mp hover, hlt⟩

theorem get_eq_iff (h : Related expiryBuffer before py rs) (now : ℕ) :
    Reply.token (py.get now) = rs.get now ↔ py.valid now = rs.holds now := by
  rw [TokenCache.get, RustTokenCache.get, h.not_poisoned, if_neg Bool.false_ne_true, h.token_eq,
    Reply.token.injEq]
  rcases hvalid : py.valid now with _ | _
  · rcases hholds : rs.holds now with _ | _
    · exact iff_of_true rfl rfl
    · have hsome : py.token.isSome = true := by
        rw [RustTokenCache.holds, Bool.and_eq_true, h.token_eq] at hholds
        exact hholds.1
      refine iff_of_false (fun heq ↦ ?_) Bool.false_ne_true
      rw [if_neg Bool.false_ne_true, if_pos rfl] at heq
      rw [← heq] at hsome
      exact Bool.false_ne_true hsome
  · rcases hholds : rs.holds now with _ | _
    · have hsome : py.token.isSome = true := by
        rw [TokenCache.valid, Bool.and_eq_true] at hvalid
        exact hvalid.1
      refine iff_of_false (fun heq ↦ ?_) Bool.false_ne_true.symm
      rw [if_neg Bool.false_ne_true, if_pos rfl] at heq
      rw [heq] at hsome
      exact Bool.false_ne_true hsome
    · exact iff_of_true rfl rfl

/-- A lifetime that is refused at once is negative, or not finite. -/
theorem refused_iff {expiresIn : ExtRat} :
    (expiresIn.isFinite = false ∨ ExtRat.blt expiresIn 0 = true) ↔
      ¬ ∃ q, 0 ≤ q ∧ expiresIn = .fin q := by
  rcases expiresIn with q | _ | _ | _
  · change (true = false ∨ decide (q < 0) = true) ↔ _
    rw [decide_eq_true_eq]
    constructor
    · rintro (h | h) ⟨q', hq', heq⟩
      · exact Bool.false_ne_true h.symm
      · rw [ExtRat.fin.inj heq] at h
        exact absurd h (not_lt.mpr hq')
    · intro h
      exact Or.inr (not_le.mp fun hq ↦ h ⟨q, hq, rfl⟩)
  · exact iff_of_true (Or.inl rfl) (by simp)
  · exact iff_of_true (Or.inl rfl) (by simp)
  · exact iff_of_true (Or.inl rfl) (by simp)

theorem set_of_fits (hpoisoned : rs.poisoned = false) {token : τ} {expiresIn : ExtRat}
    {now d : ℕ} (hencodes : platform.encodes token = true)
    (hexpires : ∃ q, 0 ≤ q ∧ expiresIn = .fin q)
    (hd : fromSecs (ttl rs.expiryBuffer expiresIn) = some d)
    (hhorizon : now + d ≤ platform.horizon) :
    rs.set platform token expiresIn now =
      ({ rs with token := some token, expiresAt := some (now + d) }, .returned) := by
  have hplus : addInstant platform now d = some (now + d) := if_pos hhorizon
  rw [ttl, ExtRat.maxOf_zero_eq_fmax] at hd
  rw [RustTokenCache.set, if_neg (ne_false_of_eq_true hencodes),
    if_neg (fun hrefused ↦ refused_iff.mp hrefused hexpires), hpoisoned,
    if_neg Bool.false_ne_true, hd]
  dsimp only
  rw [hplus]

/-- And no other one, and none at all once the mutex is poisoned. -/
theorem fits_of_set {token : τ} {expiresIn : ExtRat} {now : ℕ}
    (hset : (rs.set platform token expiresIn now).2 = .returned) :
    rs.poisoned = false ∧ Fits platform rs.expiryBuffer token expiresIn now := by
  rw [RustTokenCache.set] at hset
  split at hset
  · exact absurd hset (by simp)
  rename_i hencodes
  split at hset
  · exact absurd hset (by simp)
  · rename_i haccepted
    rw [refused_iff, not_not] at haccepted
    rcases hpoisoned : rs.poisoned with _ | _
    · refine ⟨rfl, eq_true_of_ne_false hencodes, haccepted, ?_⟩
      rw [hpoisoned, if_neg Bool.false_ne_true, ← ExtRat.maxOf_zero_eq_fmax, ← ttl] at hset
      rcases hd : fromSecs (ttl rs.expiryBuffer expiresIn) with _ | d
      · rw [hd] at hset
        exact absurd hset (by simp [RustTokenCache.panicked])
      · refine ⟨d, rfl, ?_⟩
        rw [hd] at hset
        dsimp only at hset
        rw [addInstant] at hset
        split at hset
        · rename_i hnone
          split at hnone
          · exact absurd hnone (Option.some_ne_none _)
          · exact absurd hset (by simp [RustTokenCache.panicked])
        · rename_i hsome
          split at hsome
          · rename_i hle
            exact hle
          · exact absurd hsome (Option.some_ne_none _).symm
    · rw [hpoisoned, if_pos rfl] at hset
      exact absurd hset (by simp [RustTokenCache.poisonedError])

theorem exists_of_fromSecs {x : ExtRat} {d : ℕ} (h : fromSecs x = some d) :
    ∃ q, 0 ≤ q ∧ x = .fin q ∧ d = ExtRat.roundEven (q * 1000000000) := by
  rcases x with q | _ | _ | _
  · rw [fromSecs] at h
    split at h
    · rename_i hq
      exact ⟨q, hq.1, rfl, (Option.some.inj h).symm⟩
    · exact absurd h (Option.some_ne_none d).symm
  · exact absurd h (Option.some_ne_none d).symm
  · exact absurd h (Option.some_ne_none d).symm
  · exact absurd h (Option.some_ne_none d).symm

theorem Related.ask (h : Related expiryBuffer before py rs) {call : Call τ}
    (hop : call.op = .get ∨ call.op = .valid) : Related expiryBuffer (before ++ [call]) py rs := by
  refine ⟨h.py_buffer, h.rs_buffer, h.not_poisoned, h.token_eq, ?_⟩
  have hlast : lastSet expiryBuffer (before ++ [call]) = lastSet expiryBuffer before := by
    rw [lastSet_concat]
    rcases hop with hop | hop
    · rw [hop]
    · rw [hop]
  rw [hlast]
  exact h.kept

theorem Related.set (h : Related expiryBuffer before py rs) {token : τ} {expiresIn : ExtRat}
    {now : ℕ} (hfits : Fits platform expiryBuffer token expiresIn now) :
    (rs.set platform token expiresIn now).2 = .returned ∧
      Related expiryBuffer (before ++ [⟨.set token expiresIn, now⟩]) (py.set token expiresIn now)
        (rs.set platform token expiresIn now).1 := by
  obtain ⟨hencodes, hexpires, d, hd, hhorizon⟩ := hfits
  obtain ⟨q, hq, hfin, rfl⟩ := exists_of_fromSecs hd
  rw [← h.rs_buffer] at hd
  rw [set_of_fits h.not_poisoned hencodes hexpires hd hhorizon]
  refine ⟨rfl, h.py_buffer, h.rs_buffer, h.not_poisoned, rfl, Or.inr ⟨now, q, ?_⟩⟩
  refine ⟨?_, hq, rfl, ?_, rfl⟩
  · rw [lastSet_concat, ← hfin]
  · rw [TokenCache.set]
    dsimp only
    rw [h.py_buffer, ← ttl, hfin]
    rfl

theorem Related.invalidate (h : Related expiryBuffer before py rs) (now : ℕ) :
    rs.invalidate.2 = .returned ∧
      Related expiryBuffer (before ++ [⟨.invalidate, now⟩]) py.invalidate rs.invalidate.1 := by
  rw [RustTokenCache.invalidate, if_neg (by rw [h.not_poisoned]; exact Bool.false_ne_true)]
  refine ⟨rfl, h.py_buffer, h.rs_buffer, h.not_poisoned, rfl, Or.inl ⟨?_, rfl⟩⟩
  rw [lastSet_concat]

theorem step_related {call : Call τ} (h : Related expiryBuffer before py rs) :
    ((py.step call).2 = (rs.step platform call).2 ↔ Same platform expiryBuffer before call) ∧
      (Same platform expiryBuffer before call →
        Related expiryBuffer (before ++ [call]) (py.step call).1 (rs.step platform call).1) := by
  rcases call with ⟨op, now⟩
  rcases op with ⟨token, expiresIn⟩ | _ | _ | _
  · refine ⟨⟨fun heq ↦ ?_, fun hfits ↦ ?_⟩, fun hfits ↦ ?_⟩
    · have hfits := (fits_of_set heq.symm).2
      rw [h.rs_buffer] at hfits
      exact hfits
    · exact (h.set hfits).1.symm
    · exact (h.set hfits).2
  · refine ⟨?_, fun _ ↦ h.ask (Or.inl rfl)⟩
    exact (get_eq_iff h now).trans (valid_eq_holds_iff h now)
  · refine ⟨?_, fun _ ↦ h.ask (Or.inr rfl)⟩
    have hvalid : rs.valid now = .flag (rs.holds now) := by
      rw [RustTokenCache.valid, h.not_poisoned, if_neg Bool.false_ne_true]
    have hflag : Reply.flag (py.valid now) = rs.valid now ↔ py.valid now = rs.holds now := by
      rw [hvalid, Reply.flag.injEq]
    exact hflag.trans (valid_eq_holds_iff h now)
  · refine ⟨iff_of_true ?_ trivial, fun _ ↦ ?_⟩
    · exact (h.invalidate now).1.symm
    · exact (h.invalidate now).2

end

/-! ## Agreement -/

/-- The replies of `TokenCache` to some calls. -/
def pyReplies (expiryBuffer : ExtRat) (calls : List (Call τ)) : List (Reply τ) :=
  Machine.trace TokenCache.step (.new expiryBuffer) calls

/-- The replies of `RustTokenCache`. -/
def rsReplies (platform : Platform τ) (expiryBuffer : ExtRat) (calls : List (Call τ)) :
    List (Reply τ) :=
  Machine.trace (RustTokenCache.step platform) (.new expiryBuffer) calls

/-- **When the caches can be swapped.** They give the same replies to a list of calls exactly if each
token that is set fits, and its lifetime, and the token is never asked for in the fraction of a
nanosecond that was rounded off its lifetime. -/
theorem replies_eq_iff (platform : Platform τ) (expiryBuffer : ExtRat) (calls : List (Call τ)) :
    pyReplies expiryBuffer calls = rsReplies platform expiryBuffer calls ↔
      ∀ before call after, calls = before ++ call :: after →
        Same platform expiryBuffer before call := by
  have hinit : Related expiryBuffer ([] : List (Call τ)) (.new expiryBuffer) (.new expiryBuffer) :=
    ⟨rfl, rfl, rfl, rfl, Or.inl ⟨rfl, rfl⟩⟩
  exact @Machine.trace_eq_iff_of_lockstep _ _ _ _ TokenCache.step (RustTokenCache.step platform)
    (Related expiryBuffer) (Same platform expiryBuffer) (fun h ↦ step_related h) [] _ _ hinit calls

end Caches

/-- A reply of an authorization server may say that the token is over. -/
theorem not_forall_replies_eq : ¬ ∀ (platform : Platform String) (expiryBuffer : ExtRat)
    (calls : List (Call String)),
      pyReplies expiryBuffer calls = rsReplies platform expiryBuffer calls := by
  intro h
  have heq := h ⟨2 ^ 63 * 1000000000, fun _ ↦ "-1", fun _ ↦ true⟩ (.fin 30)
    [⟨.set "t" (.fin (-1)), 0⟩]
  have hreply := (List.cons.inj heq).1
  have hrefused : ExtRat.isFinite (.fin (-1)) = false ∨ ExtRat.blt (.fin (-1)) 0 = true := by
    exact Or.inr rfl
  rw [RustTokenCache.step] at hreply
  dsimp only at hreply
  rw [RustTokenCache.set, if_neg (by simp), if_pos hrefused] at hreply
  exact absurd hreply (by simp [TokenCache.step])

end TokenCaches

end ArgusMcp
