import ArgusMcp.Argusd.Docker
import Mathlib.Data.Rat.Cast.Order
import Mathlib.Data.UInt
import Mathlib.Tactic.Positivity
import Mathlib.Tactic.Ring

/-!
# Statistics of a container

Docker sends counters, and `computeStats` makes a snapshot of two samples that follow one another.
The counters are unsigned words of 64 bits, and so are their differences, which are only then made
floating-point numbers. These are rational numbers here, without rounding.

## Counters that go back

A difference that is taken in words is never negative: where a counter is smaller than before, as
it is when the container has been started again, the difference is huge and passes the test
`cpuDelta > 0` (`counterDelta_pos_iff`). The percentage is then no percentage of anything
(`cpuPercent_eq_iff`).
-/

namespace ArgusMcp

namespace Argusd

structure MemoryStats where
  usage : UInt64
  limit : UInt64

structure PidsStats where
  current : UInt64

structure CPUUsage where
  totalUsage : UInt64
  percpuUsage : List UInt64

structure CPUStats where
  cpuUsage : CPUUsage
  systemUsage : UInt64
  onlineCPUs : UInt32

structure NetworkStats where
  rxBytes : UInt64
  txBytes : UInt64

structure BlkioStatEntry where
  op : String
  value : UInt64

/-- What `computeStats` uses of a sample. -/
structure StatsResponse where
  memoryStats : MemoryStats
  pidsStats : PidsStats
  cpuStats : CPUStats
  networks : Dict String NetworkStats
  ioServiceBytesRecursive : List BlkioStatEntry

/-- The zero value, before the first sample. -/
def StatsResponse.zero : StatsResponse where
  memoryStats := ⟨0, 0⟩
  pidsStats := ⟨0⟩
  cpuStats := ⟨⟨0, []⟩, 0, 0⟩
  networks := .empty
  ioServiceBytesRecursive := []

structure StatsSnapshot where
  containerID : String
  cpuPercent : ℚ
  memoryUsage : UInt64
  memoryLimit : UInt64
  memoryPct : ℚ
  netRxBytes : UInt64
  netTxBytes : UInt64
  blockRead : UInt64
  blockWrite : UInt64
  pidsCurrent : UInt64

/-- `float64` of a difference of counters. -/
def counterDelta (cur prev : UInt64) : ℚ := (cur - prev).toNat

/-- The number of CPUs, of which there is at least one. -/
def cpuCount (cur : StatsResponse) : ℚ :=
  if cur.cpuStats.onlineCPUs ≠ 0 then cur.cpuStats.onlineCPUs.toNat
  else if cur.cpuStats.cpuUsage.percpuUsage ≠ [] then cur.cpuStats.cpuUsage.percpuUsage.length
  else 1

/-- The bytes of the operations with one of these names. -/
def blockBytes (ops : List String) (entries : List BlkioStatEntry) : UInt64 :=
  ((entries.filter fun bio ↦ bio.op ∈ ops).map BlkioStatEntry.value).sum

def computeStats (id : String) (cur prev : StatsResponse) : StatsSnapshot :=
  let cpuDelta := counterDelta cur.cpuStats.cpuUsage.totalUsage prev.cpuStats.cpuUsage.totalUsage
  let sysDelta := counterDelta cur.cpuStats.systemUsage prev.cpuStats.systemUsage
  { containerID := safeShortId id
    memoryUsage := cur.memoryStats.usage
    memoryLimit := cur.memoryStats.limit
    pidsCurrent := cur.pidsStats.current
    memoryPct :=
      if cur.memoryStats.limit > 0 then
        cur.memoryStats.usage.toNat / cur.memoryStats.limit.toNat * 100
      else 0
    cpuPercent :=
      if sysDelta > 0 ∧ cpuDelta > 0 then cpuDelta / sysDelta * cpuCount cur * 100 else 0
    netRxBytes := (cur.networks.items.map fun e ↦ e.2.rxBytes).sum
    netTxBytes := (cur.networks.items.map fun e ↦ e.2.txBytes).sum
    blockRead := blockBytes ["read", "Read"] cur.ioServiceBytesRecursive
    blockWrite := blockBytes ["write", "Write"] cur.ioServiceBytesRecursive }

/-! ## Differences -/

theorem cpuCount_pos (cur : StatsResponse) : 0 < cpuCount cur := by
  rw [cpuCount]
  split_ifs with honline hpercpu
  · have hne : cur.cpuStats.onlineCPUs.toNat ≠ 0 := fun h ↦ honline (UInt32.toNat_inj.mp h)
    exact Nat.cast_pos.mpr (Nat.pos_of_ne_zero hne)
  · exact Nat.cast_pos.mpr (List.length_pos_iff.mpr hpercpu)
  · exact one_pos

/-- The increase of a counter, which may be negative. -/
def increase (cur prev : UInt64) : ℤ := (cur.toNat : ℤ) - prev.toNat

theorem counterDelta_of_le {cur prev : UInt64} (h : prev ≤ cur) :
    counterDelta cur prev = increase cur prev := by
  rw [counterDelta, increase, UInt64.toNat_sub_of_le _ _ h,
    Nat.cast_sub (UInt64.le_iff_toNat_le.mp h)]
  push_cast
  rfl

theorem counterDelta_pos_iff {cur prev : UInt64} :
    0 < counterDelta cur prev ↔ increase cur prev ≠ 0 := by
  rw [counterDelta, Nat.cast_pos, increase, UInt64.toNat_sub]
  have hcur := cur.toNat_lt
  have hprev := prev.toNat_lt
  omega

theorem counterDelta_of_pos {cur prev : UInt64} (h : 0 < increase cur prev) :
    counterDelta cur prev = increase cur prev := by
  refine counterDelta_of_le (UInt64.le_iff_toNat_le.mpr ?_)
  rw [increase] at h
  omega

/-! ## The percentage -/

/-- The increase of the usage between two samples. -/
def usageIncrease (cur prev : StatsResponse) : ℤ :=
  increase cur.cpuStats.cpuUsage.totalUsage prev.cpuStats.cpuUsage.totalUsage

def systemIncrease (cur prev : StatsResponse) : ℤ :=
  increase cur.cpuStats.systemUsage prev.cpuStats.systemUsage

def expectedPercent (cur prev : StatsResponse) : ℚ :=
  if 0 < usageIncrease cur prev ∧ 0 < systemIncrease cur prev then
    100 * cpuCount cur * usageIncrease cur prev / systemIncrease cur prev
  else 0

/-- One of the counters stands still, or both go forward. -/
def Forward (cur prev : StatsResponse) : Prop :=
  usageIncrease cur prev = 0 ∨ systemIncrease cur prev = 0 ∨
    0 < usageIncrease cur prev ∧ 0 < systemIncrease cur prev

theorem cpuPercent_of_zero (id : String) {cur prev : StatsResponse}
    (h : usageIncrease cur prev = 0 ∨ systemIncrease cur prev = 0) :
    (computeStats id cur prev).cpuPercent = 0 := by
  refine if_neg fun ⟨hsystem, husage⟩ ↦ ?_
  exact h.elim (counterDelta_pos_iff.mp husage) (counterDelta_pos_iff.mp hsystem)

theorem cpuPercent_pos (id : String) {cur prev : StatsResponse}
    (husage : usageIncrease cur prev ≠ 0) (hsystem : systemIncrease cur prev ≠ 0) :
    0 < (computeStats id cur prev).cpuPercent := by
  have hcpu := counterDelta_pos_iff.mpr husage
  have hsys := counterDelta_pos_iff.mpr hsystem
  have hcount := cpuCount_pos cur
  rw [computeStats, if_pos ⟨hsys, hcpu⟩]
  positivity

theorem cpuPercent_of_pos (id : String) {cur prev : StatsResponse}
    (husage : 0 < usageIncrease cur prev) (hsystem : 0 < systemIncrease cur prev) :
    (computeStats id cur prev).cpuPercent =
      100 * cpuCount cur * usageIncrease cur prev / systemIncrease cur prev := by
  rw [computeStats, if_pos ⟨counterDelta_pos_iff.mpr hsystem.ne',
    counterDelta_pos_iff.mpr husage.ne'⟩, counterDelta_of_pos husage, counterDelta_of_pos hsystem,
    ← usageIncrease, ← systemIncrease]
  ring

/-- **One snapshot** is right exactly if no counter has gone back while the other has moved. -/
theorem cpuPercent_eq_iff (id : String) (cur prev : StatsResponse) :
    (computeStats id cur prev).cpuPercent = expectedPercent cur prev ↔ Forward cur prev := by
  by_cases hboth : 0 < usageIncrease cur prev ∧ 0 < systemIncrease cur prev
  · rw [expectedPercent, if_pos hboth, cpuPercent_of_pos id hboth.1 hboth.2]
    exact iff_of_true rfl (.inr (.inr hboth))
  · rw [expectedPercent, if_neg hboth]
    constructor
    · intro h
      by_contra hforward
      have husage : usageIncrease cur prev ≠ 0 := fun h ↦ hforward (.inl h)
      have hsystem : systemIncrease cur prev ≠ 0 := fun h ↦ hforward (.inr (.inl h))
      exact (cpuPercent_pos id husage hsystem).ne' h
    · rintro (husage | hsystem | h)
      · exact cpuPercent_of_zero id (.inl husage)
      · exact cpuPercent_of_zero id (.inr hsystem)
      · exact absurd h hboth

theorem expectedPercent_le {cur prev : StatsResponse}
    (h : usageIncrease cur prev ≤ systemIncrease cur prev) :
    expectedPercent cur prev ≤ 100 * cpuCount cur := by
  have hcount := cpuCount_pos cur
  rw [expectedPercent]
  split_ifs with hboth
  · have hsystem : (0 : ℚ) < systemIncrease cur prev := Int.cast_pos.mpr hboth.2
    have hle : (usageIncrease cur prev : ℚ) ≤ systemIncrease cur prev := Int.cast_le.mpr h
    rw [div_le_iff₀ hsystem]
    exact mul_le_mul_of_nonneg_left hle (by positivity)
  · positivity

/-! ## Streams of samples -/

/-- The snapshots of a stream behind the first one, each with the samples that it is made of. -/
def laterSnapshots (id : String) (samples : List StatsResponse) :
    List (StatsSnapshot × StatsResponse × StatsResponse) :=
  (snapshots computeStats id .zero samples).tail.zip (samples.tail.zip samples)

theorem mem_laterSnapshots {id : String} {first : StatsResponse} {rest : List StatsResponse}
    {e : StatsSnapshot × StatsResponse × StatsResponse} :
    e ∈ laterSnapshots id (first :: rest) ↔
      e.2 ∈ rest.zip (first :: rest) ∧ e.1 = computeStats id e.2.1 e.2.2 := by
  induction rest generalizing first with
  | nil => simp [laterSnapshots, snapshots]
  | cons cur rest ih =>
    have hcons : laterSnapshots id (first :: cur :: rest)
        = (computeStats id cur first, cur, first) :: laterSnapshots id (cur :: rest) := rfl
    rw [hcons, List.mem_cons, ih, List.zip_cons_cons, List.mem_cons]
    constructor
    · rintro (rfl | ⟨hmem, hsnap⟩)
      · exact ⟨.inl rfl, rfl⟩
      · exact ⟨.inr hmem, hsnap⟩
    · rintro ⟨hpair | hmem, hsnap⟩
      · refine .inl (Prod.ext ?_ hpair)
        rw [hsnap, hpair]
      · exact .inr ⟨hmem, hsnap⟩

/-- The percentages of a stream are what they are to be, and none is more than all CPUs allow. -/
structure PercentsRight (id : String) (samples : List StatsResponse) : Prop where
  one : (snapshots computeStats id .zero samples).length = samples.length
  expected : ∀ e ∈ laterSnapshots id samples, e.1.cpuPercent = expectedPercent e.2.1 e.2.2
  bounded : ∀ e ∈ laterSnapshots id samples,
    usageIncrease e.2.1 e.2.2 ≤ systemIncrease e.2.1 e.2.2 → e.1.cpuPercent ≤ 100 * cpuCount e.2.1

theorem length_snapshots (id : String) (prev : StatsResponse) (samples : List StatsResponse) :
    (snapshots computeStats id prev samples).length = samples.length := by
  induction samples generalizing prev with
  | nil => rfl
  | cons cur samples ih => rw [snapshots, List.length_cons, ih, List.length_cons]

/-- **When the percentages of a stream are right**: exactly if from each sample to the next one of
the counters stands still, or both go forward. -/
theorem percentsRight_iff (id : String) (samples : List StatsResponse) :
    PercentsRight id samples ↔ ∀ pair ∈ samples.tail.zip samples, Forward pair.1 pair.2 := by
  rcases samples with _ | ⟨first, rest⟩
  · exact iff_of_true ⟨rfl, fun _ h ↦ absurd h List.not_mem_nil,
      fun _ h ↦ absurd h List.not_mem_nil⟩ fun _ h ↦ absurd h List.not_mem_nil
  · constructor
    · rintro ⟨-, hexpected, -⟩ pair hpair
      rw [← cpuPercent_eq_iff id]
      exact hexpected (computeStats id pair.1 pair.2, pair) (mem_laterSnapshots.mpr ⟨hpair, rfl⟩)
    · intro h
      have hexpected : ∀ e ∈ laterSnapshots id (first :: rest),
          e.1.cpuPercent = expectedPercent e.2.1 e.2.2 := by
        intro e he
        obtain ⟨hpair, hsnap⟩ := mem_laterSnapshots.mp he
        rw [hsnap]
        exact (cpuPercent_eq_iff id _ _).mpr (h e.2 hpair)
      refine ⟨length_snapshots id .zero _, hexpected, fun e he hle ↦ ?_⟩
      rw [hexpected e he]
      exact expectedPercent_le hle

/-- A sample with these counters, of a container with one CPU. -/
def sampleOf (usage system : UInt64) : StatsResponse :=
  { StatsResponse.zero with cpuStats := ⟨⟨usage, []⟩, system, 1⟩ }

/-- A container that has been started again. -/
theorem not_forall_percentsRight :
    ¬ ∀ (id : String) (samples : List StatsResponse), PercentsRight id samples := by
  intro h
  have hexpected := (h "web" [sampleOf 500 1000, sampleOf 100 2000]).expected
    (computeStats "web" (sampleOf 100 2000) (sampleOf 500 1000), sampleOf 100 2000,
      sampleOf 500 1000) List.mem_cons_self
  rw [cpuPercent_eq_iff] at hexpected
  revert hexpected
  unfold Forward
  decide

end Argusd

end ArgusMcp
