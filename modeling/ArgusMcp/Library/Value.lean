import Mathlib.Data.List.Basic

/-!
# Dynamically typed values

The values that come out of JSON and YAML documents, with one case more for objects of any other
class. What such an object is stays a parameter, and so do the two things a program can ask of it:
whether it counts as true, and what its text is, plain or as JSON.

A *walk* rebuilds a value with its strings replaced, and refuses to go deeper than a limit. If
strings are never refused, a walk fails exactly on values that are too high (`exists_walk_iff`).
-/

namespace ArgusMcp

/-- A value: a JSON-like tree whose leaves may also be opaque objects. -/
inductive Value (O : Type) where
  | none
  | bool (b : Bool)
  | int (n : Int)
  | str (s : String)
  | list (l : List (Value O))
  | dict (d : List (String × Value O))
  | obj (o : O)

/-- What is asked of opaque objects, and the built-in conversions to text. -/
class PyObject (O : Type) where
  /-- The truth value of an opaque object. -/
  truthy : O → Bool
  str : Value O → String
  /-- `json.dumps(v, indent=2)`, or the text of the exception it raises. -/
  dumps : Value O → Except String String

/-- Nothing is asked of objects that do not exist. -/
instance : PyObject Empty where
  truthy := Empty.elim
  str := fun _ ↦ ""
  dumps := fun _ ↦ .ok ""

/-! ## Computations that may fail -/

section

variable {ε α β : Type*} {x : Except ε α} {b : β}

theorem map_eq_ok_iff {f : α → β} : x.map f = .ok b ↔ ∃ a, x = .ok a ∧ f a = b := by
  rcases x with e | a
  · simp [Except.map]
  · simp [Except.map]

theorem bind_eq_ok_iff {f : α → Except ε β} : x.bind f = .ok b ↔ ∃ a, x = .ok a ∧ f a = .ok b := by
  rcases x with e | a
  · simp [Except.bind]
  · simp [Except.bind]

end

namespace Value

variable {O : Type}

def get? (k : String) : Value O → Option (Value O)
  | dict d => d.lookup k
  | _ => Option.none

def truthy [PyObject O] : Value O → Bool
  | none => false
  | bool b => b
  | int n => n ≠ 0
  | str s => s ≠ ""
  | list l => !l.isEmpty
  | dict d => !d.isEmpty
  | obj o => PyObject.truthy o

/-! ## Walks -/

mutual

/-- How many lists and dictionaries there are around the innermost value. -/
def height : Value O → ℕ
  | list l => heightList l
  | dict d => heightDict d
  | none | bool _ | int _ | str _ | obj _ => 0

def heightList : List (Value O) → ℕ
  | [] => 0
  | v :: l => max (height v + 1) (heightList l)

def heightDict : List (String × Value O) → ℕ
  | [] => 0
  | (_, v) :: d => max (height v + 1) (heightDict d)

end

/-- What a walk does: how deep it goes, the error where that is passed, what becomes of a string,
and how it keeps track of where it is. -/
structure Walker (E P : Type*) where
  limit : ℕ
  tooDeep : P → E
  onStr : P → String → Except E String
  key : P → String → P
  index : P → ℕ → P

section Walk

variable {E P : Type*} (w : Walker E P)

/-- Every string is replaced by some string. -/
def Walker.Total : Prop := ∀ path s, ∃ t, w.onStr path s = .ok t

mutual

/-- The value with its strings replaced. -/
def walk (path : P) (depth : ℕ) : Value O → Except E (Value O)
  | str s => if w.limit < depth then .error (w.tooDeep path) else (w.onStr path s).map str
  | list l =>
    if w.limit < depth then .error (w.tooDeep path) else (walkList path (depth + 1) 0 l).map list
  | dict d =>
    if w.limit < depth then .error (w.tooDeep path) else (walkDict path (depth + 1) d).map dict
  | none => if w.limit < depth then .error (w.tooDeep path) else .ok none
  | bool b => if w.limit < depth then .error (w.tooDeep path) else .ok (bool b)
  | int n => if w.limit < depth then .error (w.tooDeep path) else .ok (int n)
  | obj o => if w.limit < depth then .error (w.tooDeep path) else .ok (obj o)

def walkList (path : P) (depth i : ℕ) : List (Value O) → Except E (List (Value O))
  | [] => .ok []
  | v :: l => (walk (w.index path i) depth v).bind fun v' ↦
    (walkList path depth (i + 1) l).map fun l' ↦ v' :: l'

def walkDict (path : P) (depth : ℕ) :
    List (String × Value O) → Except E (List (String × Value O))
  | [] => .ok []
  | (k, v) :: d => (walk (w.key path k) depth v).bind fun v' ↦
    (walkDict path depth d).map fun d' ↦ (k, v') :: d'

end

theorem heightList_le_iff {l : List (Value O)} {n : ℕ} :
    heightList l ≤ n ↔ ∀ v ∈ l, v.height + 1 ≤ n := by
  induction l with
  | nil => simp [heightList]
  | cons v l ih => rw [heightList, Nat.max_le, ih, List.forall_mem_cons]

theorem heightDict_le_iff {d : List (String × Value O)} {n : ℕ} :
    heightDict d ≤ n ↔ ∀ e ∈ d, e.2.height + 1 ≤ n := by
  induction d with
  | nil => simp [heightDict]
  | cons e d ih => rw [heightDict, Nat.max_le, ih, List.forall_mem_cons]

theorem exists_bind_map_iff {α β γ : Type*} {x : Except E α} {y : Except E β} {f : α → β → γ} :
    (∃ c, (x.bind fun a ↦ y.map (f a)) = .ok c) ↔ (∃ a, x = .ok a) ∧ ∃ b, y = .ok b := by
  rcases x with e | a
  · simp [Except.bind]
  · rcases y with e | b
    · simp [Except.bind, Except.map]
    · simp [Except.bind, Except.map]

theorem exists_map_iff {α β : Type*} {x : Except E α} {f : α → β} :
    (∃ b, x.map f = .ok b) ↔ ∃ a, x = .ok a := by
  rcases x with e | a
  · simp [Except.map]
  · simp [Except.map]

/-- Below the limit a value is as good as what becomes of it; beyond, it is refused. -/
theorem exists_limited_iff {limit depth : ℕ} {e : E} {x : Except E (Value O)} :
    (∃ v, (if limit < depth then .error e else x) = .ok v) ↔ depth ≤ limit ∧ ∃ v, x = .ok v := by
  split
  · rename_i h
    exact iff_of_false (by simp) fun hx ↦ absurd hx.1 (Nat.not_le.mpr h)
  · rename_i h
    exact ⟨fun hx ↦ ⟨Nat.not_lt.mp h, hx⟩, And.right⟩

variable {w}

theorem exists_of_limited {limit depth : ℕ} {path : P} {e : E} {x : Except E (Value O)}
    (h : (if limit < depth then .error (w.tooDeep path) else x) = .error e)
    (hx : x = .error e → ∃ path', e = w.tooDeep path') : ∃ path', e = w.tooDeep path' := by
  split at h
  · exact ⟨path, (Except.error.inj h).symm⟩
  · exact hx h

theorem bind_map_eq_error {α β γ : Type*} {x : Except E α} {y : Except E β} {f : α → β → γ} {e : E}
    (h : (x.bind fun a ↦ y.map (f a)) = .error e) : x = .error e ∨ y = .error e := by
  rcases x with e' | a
  · exact Or.inl (congrArg Except.error (Except.error.inj h))
  · rcases y with e' | b
    · exact Or.inr (congrArg Except.error (Except.error.inj h))
    · exact absurd h (by simp [Except.bind, Except.map])

theorem map_eq_error {α β : Type*} {x : Except E α} {f : α → β} {e : E}
    (h : x.map f = .error e) : x = .error e := by
  rcases x with e' | a
  · exact congrArg Except.error (Except.error.inj h)
  · exact absurd h (by simp [Except.map])

mutual

/-- **What a walk refuses.** If no string is refused, a walk fails exactly if the value is too
high. -/
theorem exists_walk_iff (hstr : w.Total) (path : P) (depth : ℕ) (v : Value O) :
    (∃ v', walk w path depth v = .ok v') ↔ depth + v.height ≤ w.limit := by
  match v with
  | str s =>
    rw [walk, exists_limited_iff, exists_map_iff, height]
    exact and_iff_left (hstr path s)
  | list l =>
    rw [walk, exists_limited_iff, exists_map_iff, exists_walkList_iff hstr path (depth + 1) 0 l,
      height]
    -- a list adds a level to those of its items
    have hle : heightList l ≤ w.limit - depth ↔ ∀ v ∈ l, v.height + 1 ≤ w.limit - depth :=
      heightList_le_iff
    constructor
    · rintro ⟨hdepth, hl⟩
      have := hle.mpr fun v hv ↦ by have := hl v hv; omega
      omega
    · intro h
      refine ⟨by omega, fun v hv ↦ ?_⟩
      have := hle.mp (by omega) v hv
      omega
  | dict d =>
    rw [walk, exists_limited_iff, exists_map_iff, exists_walkDict_iff hstr path (depth + 1) d,
      height]
    have hle : heightDict d ≤ w.limit - depth ↔ ∀ e ∈ d, e.2.height + 1 ≤ w.limit - depth :=
      heightDict_le_iff
    constructor
    · rintro ⟨hdepth, hd⟩
      have := hle.mpr fun e he ↦ by have := hd e he; omega
      omega
    · intro h
      refine ⟨by omega, fun e he ↦ ?_⟩
      have := hle.mp (by omega) e he
      omega
  | none | bool _ | int _ | obj _ =>
    rw [walk, exists_limited_iff, height]
    exact and_iff_left ⟨_, rfl⟩

theorem exists_walkList_iff (hstr : w.Total) (path : P) (depth i : ℕ) (l : List (Value O)) :
    (∃ l', walkList w path depth i l = .ok l') ↔ ∀ v ∈ l, depth + v.height ≤ w.limit := by
  match l with
  | [] => simp [walkList]
  | v :: l =>
    rw [walkList, exists_bind_map_iff, exists_walk_iff hstr (w.index path i) depth v,
      exists_walkList_iff hstr path depth (i + 1) l, List.forall_mem_cons]

theorem exists_walkDict_iff (hstr : w.Total) (path : P) (depth : ℕ) (d : List (String × Value O)) :
    (∃ d', walkDict w path depth d = .ok d') ↔ ∀ e ∈ d, depth + e.2.height ≤ w.limit := by
  match d with
  | [] => simp [walkDict]
  | (k, v) :: d =>
    rw [walkDict, exists_bind_map_iff, exists_walk_iff hstr (w.key path k) depth v,
      exists_walkDict_iff hstr path depth d, List.forall_mem_cons]

end

mutual

theorem exists_tooDeep (hstr : w.Total) (path : P) (depth : ℕ) (v : Value O) {e : E}
    (h : walk w path depth v = .error e) : ∃ path', e = w.tooDeep path' := by
  match v with
  | str s =>
    obtain ⟨t, ht⟩ := hstr path s
    rw [walk, ht] at h
    exact exists_of_limited h fun h ↦ absurd h (by simp [Except.map])
  | list l =>
    rw [walk] at h
    refine exists_of_limited h fun h ↦ exists_tooDeep_list hstr path (depth + 1) 0 l ?_
    exact map_eq_error h
  | dict d =>
    rw [walk] at h
    refine exists_of_limited h fun h ↦ exists_tooDeep_dict hstr path (depth + 1) d ?_
    exact map_eq_error h
  | none | bool _ | int _ | obj _ =>
    rw [walk] at h
    exact exists_of_limited h fun h ↦ absurd h (by simp)

theorem exists_tooDeep_list (hstr : w.Total) (path : P) (depth i : ℕ) (l : List (Value O)) {e : E}
    (h : walkList w path depth i l = .error e) : ∃ path', e = w.tooDeep path' := by
  match l with
  | [] => exact absurd h (by simp [walkList])
  | v :: l =>
    rw [walkList] at h
    rcases bind_map_eq_error h with hv | hl
    · exact exists_tooDeep hstr (w.index path i) depth v hv
    · exact exists_tooDeep_list hstr path depth (i + 1) l hl

theorem exists_tooDeep_dict (hstr : w.Total) (path : P) (depth : ℕ)
    (d : List (String × Value O)) {e : E} (h : walkDict w path depth d = .error e) :
    ∃ path', e = w.tooDeep path' := by
  match d with
  | [] => exact absurd h (by simp [walkDict])
  | (k, v) :: d =>
    rw [walkDict] at h
    rcases bind_map_eq_error h with hv | hd
    · exact exists_tooDeep hstr (w.key path k) depth v hv
    · exact exists_tooDeep_dict hstr path depth d hd

end

end Walk

end Value

end ArgusMcp
