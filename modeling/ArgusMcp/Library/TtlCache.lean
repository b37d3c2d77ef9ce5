import Mathlib.Algebra.Order.Group.Defs
import Mathlib.Data.Finset.Card
import Mathlib.Order.Basic

/-!
# Caches whose entries expire

A cache of a fixed size keeps each entry for a fixed time after it was written, and throws entries
out before their time only when there is no room. The cache itself is left open: `TtlCacheLib` has
the operations, each with the reading of the clock at which it is done, and `Keeps` says what they
promise as long as there are no more keys than there is room. What a cache has been told is a list
of writes, newest first.

`ideal` is the cache without a size, which is a table of entries with the time they were written.
`Mirrors` relates two caches by the writes behind both: if both keep the promise they answer alike,
and go on to do so whatever is written to both. A program that uses one can so be looked at as if it
used the ideal one.
-/

namespace ArgusMcp

/-- The operations of a cache with keys `κ` and times `T`. -/
structure TtlCacheLib (κ T : Type) where
  Cache : Type → Type
  /-- For so many entries, which are kept for so long. -/
  new : {V : Type} → ℕ → T → Cache V
  get? : {V : Type} → Cache V → κ → T → Option V
  set : {V : Type} → Cache V → κ → V → T → Cache V
  pop : {V : Type} → Cache V → κ → T → Cache V

namespace TtlCache

variable {κ V T : Type}

/-- One write, and when it was done. -/
inductive Write (κ V T : Type) where
  | set (key : κ) (value : V) (time : T)
  | pop (key : κ) (time : T)

namespace Write

def key : Write κ V T → κ
  | set key _ _ => key
  | pop key _ => key

def time : Write κ V T → T
  | set _ _ time => time
  | pop _ time => time

end Write

def apply (lib : TtlCacheLib κ T) (c : lib.Cache V) : Write κ V T → lib.Cache V
  | .set key value time => lib.set c key value time
  | .pop key time => lib.pop c key time

def replay (lib : TtlCacheLib κ T) (maxsize : ℕ) (ttl : T) : List (Write κ V T) → lib.Cache V
  | [] => lib.new maxsize ttl
  | w :: ws => apply lib (replay lib maxsize ttl ws) w

/-- What was written last under a key, and when. -/
def entry [DecidableEq κ] : List (Write κ V T) → κ → Option (V × T)
  | [], _ => none
  | .set key value time :: ws, k => if k = key then some (value, time) else entry ws k
  | .pop key _ :: ws, k => if k = key then none else entry ws k

/-- What an entry gives at some time. -/
def readAt [LT T] [DecidableLT T] [Add T] (ttl : T) (e : Option (V × T)) (now : T) : Option V :=
  (e.filter fun e ↦ now < e.2 + ttl).map Prod.fst

section Read

variable [LT T] [DecidableLT T] [Add T] {ttl now written : T} {value : V}

theorem readAt_of_lt (h : now < written + ttl) :
    readAt ttl (some (value, written)) now = some value :=
  congrArg (Option.map Prod.fst) (if_pos (decide_eq_true h))

theorem readAt_of_not_lt (h : ¬ now < written + ttl) :
    readAt ttl (some (value, written)) now = none :=
  congrArg (Option.map Prod.fst) (if_neg fun hlt ↦ h (of_decide_eq_true hlt))

end Read

/-- Writes that were done one after the other, the newest first, up to some time, to these keys. -/
structure History [LE T] (keys : Finset κ) (now : T) (ws : List (Write κ V T)) : Prop where
  ordered : ws.Pairwise fun w w' ↦ w'.time ≤ w.time
  past : ∀ w ∈ ws, w.time ≤ now
  keys : ∀ w ∈ ws, w.key ∈ keys

/-- What a cache promises: where there are no more keys than there is room, an entry is there for
its time, and no longer. -/
def Keeps [DecidableEq κ] [LE T] [LT T] [DecidableLT T] [Add T] (lib : TtlCacheLib κ T) : Prop :=
  ∀ (V : Type) (maxsize : ℕ) (ttl : T) (keys : Finset κ), keys.card ≤ maxsize →
    ∀ (now : T) (ws : List (Write κ V T)), History keys now ws →
      ∀ key, lib.get? (replay lib maxsize ttl ws) key now = readAt ttl (entry ws key) now

section Table

variable [DecidableEq κ]

structure Table (κ T V : Type) where
  ttl : T
  entries : κ → Option (V × T)

def Table.put (c : Table κ T V) (key : κ) (e : Option (V × T)) : Table κ T V :=
  { c with entries := fun k ↦ if k = key then e else c.entries k }

theorem entries_put_self (c : Table κ T V) (key : κ) (e : Option (V × T)) :
    (c.put key e).entries key = e := if_pos rfl

theorem entries_put_of_ne (c : Table κ T V) {key k : κ} (hk : k ≠ key) (e : Option (V × T)) :
    (c.put key e).entries k = c.entries k := if_neg hk

/-- The table with everything under other keys left out. -/
def Table.only (c : Table κ T V) (key : κ) : Table κ T V :=
  { c with entries := fun k ↦ if k = key then c.entries k else none }

theorem only_put (c : Table κ T V) (key : κ) (e : Option (V × T)) :
    (c.put key e).only key = (c.only key).put key e := by
  refine congrArg (Table.mk c.ttl) (funext fun k ↦ ?_)
  by_cases hk : k = key
  · rw [if_pos hk, if_pos hk]
    exact if_pos hk
  · rw [if_neg hk, if_neg hk]
    exact (if_neg hk).symm

theorem only_put_of_ne (c : Table κ T V) {key k : κ} (hk : k ≠ key) (e : Option (V × T)) :
    (c.put k e).only key = c.only key := by
  refine congrArg (Table.mk c.ttl) (funext fun k' ↦ ?_)
  by_cases hk' : k' = key
  · rw [if_pos hk', if_pos hk']
    exact if_neg fun h ↦ hk (h.symm.trans hk')
  · rw [if_neg hk', if_neg hk']

end Table

section Ideal

variable [DecidableEq κ] [LinearOrder T] [Add T]

/-- The cache with room for everything. -/
abbrev ideal (κ T : Type) [DecidableEq κ] [LinearOrder T] [Add T] : TtlCacheLib κ T where
  Cache := Table κ T
  new := fun _ ttl ↦ ⟨ttl, fun _ ↦ none⟩
  get? := fun c key now ↦ readAt c.ttl (c.entries key) now
  set := fun c key value now ↦ c.put key (some (value, now))
  pop := fun c key _ ↦ c.put key none

theorem replay_ideal (maxsize : ℕ) (ttl : T) (ws : List (Write κ V T)) :
    replay (ideal κ T) maxsize ttl ws = ⟨ttl, entry ws⟩ := by
  induction ws with
  | nil => rfl
  | cons w ws ih =>
    rw [replay, ih]
    cases w with
    | set key value time => rfl
    | pop key time => rfl

theorem keeps_ideal : Keeps (ideal κ T) := by
  intro V maxsize ttl keys _ now ws _ key
  rw [replay_ideal]

theorem get?_only (c : Table κ T V) (key : κ) (now : T) :
    (ideal κ T).get? (c.only key) key now = (ideal κ T).get? c key now :=
  congrArg (readAt c.ttl · now) (if_pos rfl)

end Ideal

section Mirrors

variable [LinearOrder T] {lib lib' : TtlCacheLib κ T} {maxsize : ℕ} {ttl : T} {keys : Finset κ}
  {now : T} {c : lib.Cache V} {d : lib'.Cache V}

/-- The two have been told the same. -/
def Mirrors (lib lib' : TtlCacheLib κ T) (maxsize : ℕ) (ttl : T) (keys : Finset κ) (now : T)
    (c : lib.Cache V) (d : lib'.Cache V) : Prop :=
  ∃ ws, History keys now ws ∧ c = replay lib maxsize ttl ws ∧ d = replay lib' maxsize ttl ws

theorem mirrors_new (keys : Finset κ) (now : T) :
    @Mirrors κ V T _ lib lib' maxsize ttl keys now (lib.new maxsize ttl) (lib'.new maxsize ttl) :=
  ⟨[], ⟨List.Pairwise.nil, fun _ h ↦ absurd h List.not_mem_nil, fun _ h ↦ absurd h List.not_mem_nil⟩,
    rfl, rfl⟩

theorem Mirrors.mono (h : Mirrors lib lib' maxsize ttl keys now c d) {now' : T}
    (hle : now ≤ now') : Mirrors lib lib' maxsize ttl keys now' c d := by
  obtain ⟨ws, hws, hc, hd⟩ := h
  exact ⟨ws, ⟨hws.ordered, fun w hw ↦ (hws.past w hw).trans hle, hws.keys⟩, hc, hd⟩

theorem Mirrors.write (h : Mirrors lib lib' maxsize ttl keys now c d) {w : Write κ V T}
    (hkey : w.key ∈ keys) (htime : w.time = now) :
    Mirrors lib lib' maxsize ttl keys now (apply lib c w) (apply lib' d w) := by
  obtain ⟨ws, hws, rfl, rfl⟩ := h
  refine ⟨w :: ws, ⟨?_, ?_, ?_⟩, rfl, rfl⟩
  · exact List.pairwise_cons.mpr ⟨fun w' hw' ↦ htime ▸ hws.past w' hw', hws.ordered⟩
  · exact List.forall_mem_cons.mpr ⟨htime.le, hws.past⟩
  · exact List.forall_mem_cons.mpr ⟨hkey, hws.keys⟩

theorem Mirrors.set (h : Mirrors lib lib' maxsize ttl keys now c d) {key : κ}
    (hkey : key ∈ keys) (value : V) :
    Mirrors lib lib' maxsize ttl keys now (lib.set c key value now)
      (lib'.set d key value now) :=
  h.write (w := .set key value now) hkey rfl

theorem Mirrors.pop (h : Mirrors lib lib' maxsize ttl keys now c d) {key : κ}
    (hkey : key ∈ keys) :
    Mirrors lib lib' maxsize ttl keys now (lib.pop c key now) (lib'.pop d key now) :=
  h.write (w := .pop key now) hkey rfl

variable [DecidableEq κ] [Add T]

theorem Mirrors.get? (hlib : Keeps lib) (hlib' : Keeps lib') (hroom : keys.card ≤ maxsize)
    (h : Mirrors lib lib' maxsize ttl keys now c d) (key : κ) :
    lib.get? c key now = lib'.get? d key now := by
  obtain ⟨ws, hws, rfl, rfl⟩ := h
  rw [hlib V maxsize ttl keys hroom now ws hws key, hlib' V maxsize ttl keys hroom now ws hws key]

end Mirrors

end TtlCache

end ArgusMcp
