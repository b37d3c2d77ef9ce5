import ArgusMcp.Library.FixedWindow
import ArgusMcp.Plugins.Hooks
import Mathlib.Algebra.Order.Ring.Rat
import Mathlib.Data.Rat.Cast.Order

/-!
# The rate limiter for tools

`RateLimiterPlugin` of `plugins/builtins/rate_limiter.py` counts the calls of every tool of every
server in windows. A window is opened by the first call after the one before it has run out, and a
call is rejected if it is one too many in its window.

What happens to the calls of one tool does not depend on the others (`filter_trace`). It is what the
counter of `FixedWindow` does, and the bounds are those of its log (`map_stamp_trace`).
-/

namespace ArgusMcp

namespace RateLimiter

open Hooks

variable {O : Type}

/-! ## The plugin -/

/-- The constructor of the plugin, as far as the settings go, and how it rounds and writes seconds,
to one digit behind the point. -/
structure Settings (O : Type) where
  maxRequests : ℤ := 100
  windowSeconds : ℤ := 60
  round : ℚ → Value O
  showSeconds : ℚ → String

structure WindowCounter where
  count : ℕ
  windowStart : ℚ

/-- `_WindowCounter.__init__`. -/
def WindowCounter.new (now : ℚ) : WindowCounter where
  count := 0
  windowStart := now

abbrev Windows := Dict (String × String) WindowCounter

/-- Under which names the calls of a context are counted. -/
def keyOf (ctx : HookContext O) : String × String := (ctx.serverName, ctx.capabilityName)

section

variable (settings : Settings O)

/-- The counter a call is counted by: the one there is, or a new one if that has run out. -/
def counterAt (windows : Windows) (key : String × String) (now : ℚ) : WindowCounter :=
  match windows.get? key with
  | none => .new now
  | some counter =>
    if settings.windowSeconds ≤ now - counter.windowStart then .new now else counter

def exceededText (ctx : HookContext O) (counter : WindowCounter) (remaining : ℚ) : String :=
  "Rate limit exceeded for " ++ ctx.serverName ++ "/" ++ ctx.capabilityName ++ ": " ++
    toString counter.count ++ "/" ++ toString settings.maxRequests ++ " in " ++
    toString settings.windowSeconds ++ "s window. Retry after " ++
    settings.showSeconds remaining ++ "s."

/-- `tool_pre_invoke`, at some reading of the clock: the exception if there is one, and what the
context and the windows are like then. -/
def toolPreInvoke (ctx : HookContext O) (now : ℚ) (windows : Windows) :
    Option Exc × HookContext O × Windows :=
  let key := keyOf ctx
  let counter := counterAt settings windows key now
  let counter := { counter with count := counter.count + 1 }
  let windows := windows.set key counter
  if settings.maxRequests < counter.count then
    let remaining := settings.windowSeconds - (now - counter.windowStart)
    let metadata := (ctx.metadata.set "rate_limited" (.value (.bool true))).set
      "retry_after_seconds" (.value (settings.round remaining))
    (some ⟨.valueError, exceededText settings ctx counter remaining⟩,
      { ctx with metadata := metadata }, windows)
  else
    let metadata := ctx.metadata.set "rate_limit_remaining"
      (.value (.int (settings.maxRequests - counter.count)))
    (none, { ctx with metadata := metadata }, windows)

end

/-! ## Runs -/

/-- A call of the hook, with the reading of the clock. -/
structure ToolCall (O : Type) where
  ctx : HookContext O
  now : ℚ

def ToolCall.key (call : ToolCall O) : String × String := keyOf call.ctx

/-- A call, how it ended, and the counter that it was counted by. -/
structure Entry (O : Type) where
  call : ToolCall O
  raised : Option Exc
  ctx : HookContext O
  counter : WindowCounter

namespace Entry

def key (e : Entry O) : String × String := e.call.key

/-- The call goes on to the backend. -/
def admitted (e : Entry O) : Bool := e.raised.isNone

/-- The entry as one in the log of a counter. -/
def stamp (e : Entry O) : FixedWindow.Stamp ℚ :=
  ⟨e.call.now, ⟨e.counter.windowStart, e.counter.count + 1⟩⟩

end Entry

def step (settings : Settings O) (windows : Windows) (call : ToolCall O) : Windows × Entry O :=
  let replied := toolPreInvoke settings call.ctx call.now windows
  (replied.2.2, ⟨call, replied.1, replied.2.1, counterAt settings windows call.key call.now⟩)

/-- What becomes of a list of calls, from a plugin that has just been loaded on. -/
def run (settings : Settings O) (calls : List (ToolCall O)) : List (Entry O) :=
  Machine.trace (step settings) Dict.empty calls

/-! ## One call -/

section

variable (settings : Settings O)

theorem raised_toolPreInvoke (ctx : HookContext O) (now : ℚ) (windows : Windows) :
    (toolPreInvoke settings ctx now windows).1.isNone = true ↔
      ((counterAt settings windows (keyOf ctx) now).count + 1 : ℕ) ≤ settings.maxRequests := by
  rw [toolPreInvoke]
  dsimp only
  split
  · rename_i hlt
    exact iff_of_false Bool.false_ne_true (not_le.mpr hlt)
  · rename_i hle
    exact iff_of_true rfl (not_lt.mp hle)

theorem windows_toolPreInvoke (ctx : HookContext O) (now : ℚ) (windows : Windows) :
    (toolPreInvoke settings ctx now windows).2.2 = windows.set (keyOf ctx)
      { counterAt settings windows (keyOf ctx) now with
        count := (counterAt settings windows (keyOf ctx) now).count + 1 } := by
  rw [toolPreInvoke]
  dsimp only
  split
  · rfl
  · rfl

theorem counterAt_congr {windows windows' : Windows} {key : String × String}
    (h : windows.get? key = windows'.get? key) (now : ℚ) :
    counterAt settings windows key now = counterAt settings windows' key now := by
  rw [counterAt, counterAt, h]

theorem step_congr {windows windows' : Windows} {call : ToolCall O}
    (h : windows.get? call.key = windows'.get? call.key) :
    (step settings windows call).2 = (step settings windows' call).2 ∧
      (step settings windows call).1.get? call.key =
        (step settings windows' call).1.get? call.key := by
  have hcounter := counterAt_congr settings h call.now
  rw [ToolCall.key] at hcounter
  constructor
  · rw [step, step, toolPreInvoke, toolPreInvoke, ToolCall.key, hcounter]
    dsimp only
    split
    · rfl
    · rfl
  · rw [step, step, windows_toolPreInvoke, windows_toolPreInvoke, hcounter, ToolCall.key,
      Dict.get?_set_self, Dict.get?_set_self]

theorem get?_step_of_ne (windows : Windows) {call : ToolCall O} {key : String × String}
    (h : key ≠ call.key) : (step settings windows call).1.get? key = windows.get? key := by
  rw [step, windows_toolPreInvoke]
  exact Dict.get?_set_of_ne _ _ h

theorem key_step (windows : Windows) (call : ToolCall O) :
    (step settings windows call).2.key = call.key := rfl

/-- **Tools are counted on their own.** The entries of one tool are what they would be without the
calls of the others. -/
theorem filter_trace (key : String × String) (calls : List (ToolCall O)) {windows windows' : Windows}
    (h : windows.get? key = windows'.get? key) :
    (Machine.trace (step settings) windows calls).filter (fun e ↦ e.key = key) =
      Machine.trace (step settings) windows' (calls.filter fun call ↦ call.key = key) := by
  induction calls generalizing windows windows' with
  | nil => rfl
  | cons call calls ih =>
    rw [Machine.trace]
    by_cases hkey : call.key = key
    · subst hkey
      obtain ⟨hentry, hget⟩ := step_congr settings h
      have hpos : decide ((step settings windows call).2.key = call.key) = true :=
        decide_eq_true (key_step settings windows call)
      rw [List.filter_cons, if_pos hpos, List.filter_cons, if_pos (decide_eq_true rfl),
        Machine.trace, hentry, ih hget]
    · have hneg : ¬ decide ((step settings windows call).2.key = key) = true :=
        mt of_decide_eq_true hkey
      rw [List.filter_cons, if_neg hneg, List.filter_cons, if_neg (mt of_decide_eq_true hkey)]
      exact ih ((get?_step_of_ne settings windows (Ne.symm hkey)).trans h)

/-! ## The counter of one tool -/

def WindowCounter.toCounter (counter : WindowCounter) : FixedWindow.Counter ℚ :=
  ⟨counter.windowStart, counter.count⟩

theorem stamp_step (windows : Windows) (call : ToolCall O) :
    (step settings windows call).2.stamp =
      (FixedWindow.step (settings.windowSeconds : ℚ)
        ((windows.get? call.key).map WindowCounter.toCounter) call.now).2 ∧
    ((step settings windows call).1.get? call.key).map WindowCounter.toCounter =
      (FixedWindow.step (settings.windowSeconds : ℚ)
        ((windows.get? call.key).map WindowCounter.toCounter) call.now).1 := by
  have hcounter : (⟨(counterAt settings windows call.key call.now).windowStart,
      (counterAt settings windows call.key call.now).count + 1⟩ : FixedWindow.Counter ℚ) =
      FixedWindow.tick (settings.windowSeconds : ℚ)
        ((windows.get? call.key).map WindowCounter.toCounter) call.now := by
    rw [counterAt]
    rcases windows.get? call.key with _ | counter
    · rfl
    · rw [Option.map_some, FixedWindow.tick, WindowCounter.toCounter]
      dsimp only
      split
      · rfl
      · rfl
  constructor
  · rw [FixedWindow.step, ← hcounter]
    rfl
  · rw [FixedWindow.step, ← hcounter, step, windows_toolPreInvoke, ← ToolCall.key,
      Dict.get?_set_self]
    rfl

theorem map_stamp_trace (key : String × String) (calls : List (ToolCall O)) {windows : Windows}
    (h : ∀ call ∈ calls, call.key = key) :
    (Machine.trace (step settings) windows calls).map Entry.stamp =
      Machine.trace (FixedWindow.step (settings.windowSeconds : ℚ))
        ((windows.get? key).map WindowCounter.toCounter) (calls.map ToolCall.now) := by
  induction calls generalizing windows with
  | nil => rfl
  | cons call calls ih =>
    obtain ⟨hkey, hcalls⟩ := List.forall_mem_cons.mp h
    subst hkey
    obtain ⟨hstamp, hcounter⟩ := stamp_step settings windows call
    rw [Machine.trace, List.map_cons, List.map_cons, Machine.trace, hstamp, ih hcalls, hcounter]

theorem admitted_iff_of_mem {calls : List (ToolCall O)} {windows : Windows} {e : Entry O}
    (h : e ∈ Machine.trace (step settings) windows calls) :
    e.admitted = true ↔ e.stamp.counter.count ≤ settings.maxRequests.toNat := by
  induction calls generalizing windows with
  | nil => exact absurd h List.not_mem_nil
  | cons call calls ih =>
    rcases List.mem_cons.mp h with rfl | h
    · rw [Entry.admitted, step, raised_toolPreInvoke, Entry.stamp, ← ToolCall.key]
      dsimp only
      omega
    · exact ih h

end

/-! ## Limits -/

/-- How many calls of a tool were admitted in its window that starts at `start`. -/
def admittedIn (key : String × String) (start : ℚ) (entries : List (Entry O)) : ℕ :=
  entries.countP fun e ↦ e.key = key ∧ e.counter.windowStart = start ∧ e.admitted = true

/-- How many calls of a tool were admitted from `x` on, up to but without `x + window`. -/
def admittedFrom (key : String × String) (window x : ℚ) (entries : List (Entry O)) : ℕ :=
  entries.countP fun e ↦
    e.key = key ∧ e.admitted = true ∧ x ≤ e.call.now ∧ e.call.now < x + window

section

variable (settings : Settings O) {key : String × String} {calls : List (ToolCall O)}

theorem map_stamp_run : ((run settings calls).filter fun e ↦ e.key = key).map Entry.stamp =
    FixedWindow.log (settings.windowSeconds : ℚ)
      ((calls.filter fun call ↦ call.key = key).map ToolCall.now) := by
  rw [run, filter_trace settings key calls rfl, map_stamp_trace settings key _ fun call hcall ↦
    of_decide_eq_true (List.mem_filter.mp hcall).2]
  rfl

theorem countP_run {entries : List (Entry O)} (hsub : entries ⊆ run settings calls)
    {p : Entry O → Bool} {q : FixedWindow.Stamp ℚ → Bool}
    (hpq : ∀ e ∈ run settings calls, p e = true ↔ e.key = key ∧ q e.stamp = true) :
    entries.countP p = ((entries.filter fun e ↦ e.key = key).map Entry.stamp).countP q := by
  rw [List.countP_map, List.countP_filter]
  apply List.countP_congr
  intro e he
  rw [hpq e (hsub he), Bool.and_eq_true, decide_eq_true_eq, and_comm]
  rfl

theorem admittedIn_eq {entries : List (Entry O)} (hsub : entries ⊆ run settings calls) (start : ℚ) :
    admittedIn key start entries = FixedWindow.admittedAt settings.maxRequests.toNat
      ((entries.filter fun e ↦ e.key = key).map Entry.stamp) start := by
  apply countP_run settings hsub
  intro e he
  rw [decide_eq_true_eq, decide_eq_true_eq, admitted_iff_of_mem settings he]
  rfl

theorem admittedFrom_eq (x : ℚ) :
    admittedFrom key settings.windowSeconds x (run settings calls) =
      FixedWindow.admittedFrom (settings.windowSeconds : ℚ) settings.maxRequests.toNat
        (((run settings calls).filter fun e ↦ e.key = key).map Entry.stamp) x := by
  apply countP_run settings (List.Subset.refl _)
  intro e he
  rw [decide_eq_true_eq, decide_eq_true_eq, admitted_iff_of_mem settings he]
  rfl

/-- **The limits that are kept.** If the clock does not go back, every call is in its window; for
every tool no window and no two windows next to each other admit more than they may, a call is
rejected only when its window has admitted all it may, and everything about the calls of a tool is
as it would be without the calls of the others. -/
theorem run_limits (hwindow : 0 < settings.windowSeconds)
    (hsorted : (calls.map ToolCall.now).Pairwise (· ≤ ·)) (key : String × String) :
    (∀ e ∈ run settings calls, e.counter.windowStart ≤ e.call.now ∧
      e.call.now < e.counter.windowStart + settings.windowSeconds) ∧
    (∀ start, admittedIn key start (run settings calls) ≤ settings.maxRequests.toNat) ∧
    (∀ x, admittedFrom key settings.windowSeconds x (run settings calls) ≤
      2 * settings.maxRequests.toNat) ∧
    (∀ before e after, run settings calls = before ++ e :: after → e.key = key →
      e.admitted = false →
        admittedIn key e.counter.windowStart before = settings.maxRequests.toNat) ∧
    ((run settings calls).filter fun e ↦ e.key = key) =
      run settings (calls.filter fun call ↦ call.key = key) := by
  have hpos : (0 : ℚ) < settings.windowSeconds := by exact_mod_cast hwindow
  have htimes : ∀ key : String × String,
      ((calls.filter fun call ↦ call.key = key).map ToolCall.now).Pairwise (· ≤ ·) :=
    fun key ↦ hsorted.sublist (List.filter_sublist.map _)
  have hwindowed := fun key ↦ FixedWindow.windowed_log hpos (htimes key)
  have hcounted := FixedWindow.counted_log hpos (htimes key)
  rw [← map_stamp_run settings] at hcounted
  refine ⟨fun e he ↦ ?_, fun start ↦ ?_, fun x ↦ ?_, fun before e after hrun hkey hrejected ↦ ?_,
    filter_trace settings key calls rfl⟩
  · have hmem : e.stamp ∈ ((run settings calls).filter fun e' ↦ e'.key = e.key).map Entry.stamp :=
      List.mem_map_of_mem (List.mem_filter.mpr ⟨he, decide_eq_true rfl⟩)
    rw [map_stamp_run settings] at hmem
    exact (hwindowed e.key).mem e.stamp hmem
  · rw [admittedIn_eq settings (List.Subset.refl _)]
    exact FixedWindow.admittedAt_le _ hcounted start
  · rw [admittedFrom_eq settings]
    apply FixedWindow.admittedFrom_le _ hcounted
    rw [map_stamp_run settings]
    exact hwindowed key
  · have hsub : before ⊆ run settings calls := by
      rw [hrun]
      exact List.subset_append_left _ _
    have he : e ∈ run settings calls := by
      rw [hrun]
      exact List.mem_append_right _ List.mem_cons_self
    rw [hrun, List.filter_append, List.filter_cons, if_pos (decide_eq_true hkey), List.map_append,
      List.map_cons] at hcounted
    rw [admittedIn_eq settings hsub]
    apply FixedWindow.admittedAt_of_lt hcounted rfl
    apply not_le.mp
    rw [← admitted_iff_of_mem settings he, hrejected]
    exact Bool.false_ne_true

end

/-- One call in ten seconds. -/
def Settings.small : Settings Empty where
  maxRequests := 1
  windowSeconds := 10
  round := fun _ ↦ .none
  showSeconds := fun _ ↦ "10.0"

/-- A call of the tool `t` of the server `s`. -/
def ToolCall.at (now : ℚ) : ToolCall Empty :=
  ⟨⟨"t", .callTool, [], "s", Dict.empty, .null⟩, now⟩

/-- Two calls at the same time. -/
def twice : List (ToolCall Empty) := [.at 0, .at 0]

theorem run_limits_twice :
    (∀ e ∈ run Settings.small twice, e.counter.windowStart ≤ e.call.now ∧
      e.call.now < e.counter.windowStart + (10 : ℤ)) ∧
    (∀ start, admittedIn ("s", "t") start (run Settings.small twice) ≤ 1) ∧
    (∀ x, admittedFrom ("s", "t") (10 : ℤ) x (run Settings.small twice) ≤ 2) ∧
    (∀ before e after, run Settings.small twice = before ++ e :: after → e.key = ("s", "t") →
      e.admitted = false → admittedIn ("s", "t") e.counter.windowStart before = 1) ∧
    ((run Settings.small twice).filter fun e ↦ e.key = ("s", "t")) = run Settings.small twice :=
  run_limits Settings.small (by decide) (by decide) ("s", "t")

end RateLimiter

end ArgusMcp
