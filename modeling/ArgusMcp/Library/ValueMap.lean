import ArgusMcp.Library.Value

/-!
# Replacing the strings of a value

What a walk makes of a value that it does not refuse: the same value with its strings replaced.
`mapStr` replaces them, `strings` lists them, and `atPath?` follows a path from the outermost list or
dictionary inwards.

A walk whose strings may be refused comes to an end exactly if none of them is
(`exists_walk_iff_of_height_le`), and then the result is the one of `mapStr` (`walk_eq_ok`).
-/

namespace ArgusMcp

namespace Value

variable {O : Type}

/-! ## Strings -/

mutual

/-- The strings in a value, in the order in which a walk meets them. -/
def strings : Value O → List String
  | str s => [s]
  | list l => stringsList l
  | dict d => stringsDict d
  | none | bool _ | int _ | obj _ => []

def stringsList : List (Value O) → List String
  | [] => []
  | v :: l => strings v ++ stringsList l

def stringsDict : List (String × Value O) → List String
  | [] => []
  | (_, v) :: d => strings v ++ stringsDict d

end

mutual

/-- Every string is replaced, and everything else stays. -/
def mapStr (f : String → String) : Value O → Value O
  | str s => str (f s)
  | list l => list (mapStrList f l)
  | dict d => dict (mapStrDict f d)
  | none => none
  | bool b => bool b
  | int n => int n
  | obj o => obj o

def mapStrList (f : String → String) : List (Value O) → List (Value O)
  | [] => []
  | v :: l => mapStr f v :: mapStrList f l

def mapStrDict (f : String → String) : List (String × Value O) → List (String × Value O)
  | [] => []
  | (k, v) :: d => (k, mapStr f v) :: mapStrDict f d

end

variable {f : String → String}

theorem mapStrList_eq_map (l : List (Value O)) : mapStrList f l = l.map (mapStr f) := by
  induction l with
  | nil => rfl
  | cons v l ih => rw [mapStrList, ih, List.map_cons]

theorem mapStrDict_eq_map (d : List (String × Value O)) :
    mapStrDict f d = d.map fun e ↦ (e.1, mapStr f e.2) := by
  induction d with
  | nil => rfl
  | cons e d ih => rw [mapStrDict, ih, List.map_cons]

/-! ## Paths -/

/-- The items of a list, and the values of a dictionary. -/
def children : Value O → List (Value O)
  | list l => l
  | dict d => d.map Prod.snd
  | none | bool _ | int _ | str _ | obj _ => []

/-- What is at a path. A number counts items of a list or entries of a dictionary. -/
def atPath? : List ℕ → Value O → Option (Value O)
  | [], v => some v
  | i :: path, v => v.children[i]?.bind fun v' ↦ atPath? path v'

theorem children_mapStr (v : Value O) : (mapStr f v).children = v.children.map (mapStr f) := by
  rcases v with _ | _ | _ | _ | l | d | _
  case list => rw [mapStr, children, children, mapStrList_eq_map]
  case dict =>
    rw [mapStr, children, children, mapStrDict_eq_map, List.map_map, List.map_map]
    rfl
  all_goals rfl

/-- **Replacing strings keeps the shape**: at every path there is what was there, replaced. -/
theorem atPath?_mapStr (path : List ℕ) (v : Value O) :
    (mapStr f v).atPath? path = (v.atPath? path).map (mapStr f) := by
  induction path generalizing v with
  | nil => rfl
  | cons i path ih =>
    rw [atPath?, atPath?, children_mapStr, List.getElem?_map]
    rcases v.children[i]? with _ | v'
    · rfl
    · exact ih v'

/-! ## Walks -/

section Walk

variable {E P : Type*} {w : Walker E P} {path : P} {depth : ℕ}

theorem limited_eq_ok {x : Except E (Value O)} {v : Value O} {e : E}
    (h : (if w.limit < depth then .error e else x) = .ok v) : x = .ok v := by
  split at h
  · exact absurd h (by simp)
  · exact h

mutual

/-- **What a walk makes of a value**, if strings are replaced as `f` says. -/
theorem walk_eq_ok (hstr : ∀ path s t, w.onStr path s = .ok t → t = f s) (path : P) (depth : ℕ)
    (v : Value O) {v' : Value O} (h : walk w path depth v = .ok v') : v' = mapStr f v := by
  match v with
  | str s =>
    rw [walk] at h
    obtain ⟨t, ht, rfl⟩ := map_eq_ok_iff.mp (limited_eq_ok h)
    rw [mapStr, hstr path s t ht]
  | list l =>
    rw [walk] at h
    obtain ⟨l', hl, rfl⟩ := map_eq_ok_iff.mp (limited_eq_ok h)
    rw [mapStr, walkList_eq_ok hstr path (depth + 1) 0 l hl]
  | dict d =>
    rw [walk] at h
    obtain ⟨d', hd, rfl⟩ := map_eq_ok_iff.mp (limited_eq_ok h)
    rw [mapStr, walkDict_eq_ok hstr path (depth + 1) d hd]
  | none | bool _ | int _ | obj _ =>
    rw [walk] at h
    exact (Except.ok.inj (limited_eq_ok h)).symm

theorem walkList_eq_ok (hstr : ∀ path s t, w.onStr path s = .ok t → t = f s) (path : P)
    (depth i : ℕ) (l : List (Value O)) {l' : List (Value O)}
    (h : walkList w path depth i l = .ok l') : l' = mapStrList f l := by
  match l with
  | [] =>
    rw [walkList] at h
    exact (Except.ok.inj h).symm
  | v :: l =>
    rw [walkList] at h
    obtain ⟨v', hv, h⟩ := bind_eq_ok_iff.mp h
    obtain ⟨l', hl, rfl⟩ := map_eq_ok_iff.mp h
    rw [mapStrList, walk_eq_ok hstr (w.index path i) depth v hv,
      walkList_eq_ok hstr path depth (i + 1) l hl]

theorem walkDict_eq_ok (hstr : ∀ path s t, w.onStr path s = .ok t → t = f s) (path : P)
    (depth : ℕ) (d : List (String × Value O)) {d' : List (String × Value O)}
    (h : walkDict w path depth d = .ok d') : d' = mapStrDict f d := by
  match d with
  | [] =>
    rw [walkDict] at h
    exact (Except.ok.inj h).symm
  | (k, v) :: d =>
    rw [walkDict] at h
    obtain ⟨v', hv, h⟩ := bind_eq_ok_iff.mp h
    obtain ⟨d', hd, rfl⟩ := map_eq_ok_iff.mp h
    rw [mapStrDict, walk_eq_ok hstr (w.key path k) depth v hv,
      walkDict_eq_ok hstr path depth d hd]

end

mutual

/-- **When a walk comes to an end**: it does if no string is refused, where the value is not too
high. -/
theorem exists_walk_iff_of_height_le {Accepted : String → Prop}
    (hstr : ∀ path s, (∃ t, w.onStr path s = .ok t) ↔ Accepted s) (path : P) (depth : ℕ)
    (v : Value O) (h : depth + v.height ≤ w.limit) :
    (∃ v', walk w path depth v = .ok v') ↔ ∀ s ∈ strings v, Accepted s := by
  have hdepth : depth ≤ w.limit := Nat.le_trans (Nat.le_add_right _ _) h
  match v with
  | str s =>
    rw [walk, exists_limited_iff, exists_map_iff, hstr, strings, List.forall_mem_singleton]
    exact and_iff_right hdepth
  | list l =>
    have hl : ∀ v ∈ l, depth + 1 + v.height ≤ w.limit := by
      intro v hv
      have hmem := heightList_le_iff.mp (Nat.le_refl (heightList l)) v hv
      rw [height] at h
      omega
    rw [walk, exists_limited_iff, exists_map_iff,
      exists_walkList_iff_of_height_le hstr path (depth + 1) 0 l hl, strings]
    exact and_iff_right hdepth
  | dict d =>
    have hd : ∀ e ∈ d, depth + 1 + e.2.height ≤ w.limit := by
      intro e he
      have hmem := heightDict_le_iff.mp (Nat.le_refl (heightDict d)) e he
      rw [height] at h
      omega
    rw [walk, exists_limited_iff, exists_map_iff,
      exists_walkDict_iff_of_height_le hstr path (depth + 1) d hd, strings]
    exact and_iff_right hdepth
  | none | bool _ | int _ | obj _ =>
    rw [walk, exists_limited_iff, strings]
    exact iff_of_true ⟨hdepth, _, rfl⟩ (by simp)

theorem exists_walkList_iff_of_height_le {Accepted : String → Prop}
    (hstr : ∀ path s, (∃ t, w.onStr path s = .ok t) ↔ Accepted s) (path : P) (depth i : ℕ)
    (l : List (Value O)) (h : ∀ v ∈ l, depth + v.height ≤ w.limit) :
    (∃ l', walkList w path depth i l = .ok l') ↔ ∀ s ∈ stringsList l, Accepted s := by
  match l with
  | [] => simp [walkList, stringsList]
  | v :: l =>
    rw [List.forall_mem_cons] at h
    rw [walkList, exists_bind_map_iff,
      exists_walk_iff_of_height_le hstr (w.index path i) depth v h.1,
      exists_walkList_iff_of_height_le hstr path depth (i + 1) l h.2, stringsList,
      List.forall_mem_append]

theorem exists_walkDict_iff_of_height_le {Accepted : String → Prop}
    (hstr : ∀ path s, (∃ t, w.onStr path s = .ok t) ↔ Accepted s) (path : P) (depth : ℕ)
    (d : List (String × Value O)) (h : ∀ e ∈ d, depth + e.2.height ≤ w.limit) :
    (∃ d', walkDict w path depth d = .ok d') ↔ ∀ s ∈ stringsDict d, Accepted s := by
  match d with
  | [] => simp [walkDict, stringsDict]
  | (k, v) :: d =>
    rw [List.forall_mem_cons] at h
    rw [walkDict, exists_bind_map_iff,
      exists_walk_iff_of_height_le hstr (w.key path k) depth v h.1,
      exists_walkDict_iff_of_height_le hstr path depth d h.2, stringsDict,
      List.forall_mem_append]

end

theorem of_limited_eq_error {x : Except E (Value O)} {e e' : E} (hdepth : depth ≤ w.limit)
    (h : (if w.limit < depth then .error e' else x) = .error e) : x = .error e := by
  rwa [if_neg (Nat.not_lt.mpr hdepth)] at h

mutual

/-- **Why a walk fails** on a value that is not too high: some string was refused. -/
theorem exists_onStr_eq_error (path : P) (depth : ℕ) (v : Value O) {e : E}
    (hv : depth + v.height ≤ w.limit) (h : walk w path depth v = .error e) :
    ∃ path' s, w.onStr path' s = .error e := by
  have hdepth : depth ≤ w.limit := Nat.le_trans (Nat.le_add_right _ _) hv
  match v with
  | str s =>
    rw [walk] at h
    exact ⟨path, s, map_eq_error (of_limited_eq_error hdepth h)⟩
  | list l =>
    have hl : ∀ v ∈ l, depth + 1 + v.height ≤ w.limit := by
      intro v hmem
      have hle := heightList_le_iff.mp (Nat.le_refl (heightList l)) v hmem
      rw [height] at hv
      omega
    rw [walk] at h
    exact exists_onStr_eq_error_list path (depth + 1) 0 l hl
      (map_eq_error (of_limited_eq_error hdepth h))
  | dict d =>
    have hd : ∀ e ∈ d, depth + 1 + e.2.height ≤ w.limit := by
      intro e hmem
      have hle := heightDict_le_iff.mp (Nat.le_refl (heightDict d)) e hmem
      rw [height] at hv
      omega
    rw [walk] at h
    exact exists_onStr_eq_error_dict path (depth + 1) d hd
      (map_eq_error (of_limited_eq_error hdepth h))
  | none | bool _ | int _ | obj _ =>
    rw [walk] at h
    exact absurd (of_limited_eq_error hdepth h) (by simp)

theorem exists_onStr_eq_error_list (path : P) (depth i : ℕ) (l : List (Value O)) {e : E}
    (hl : ∀ v ∈ l, depth + v.height ≤ w.limit) (h : walkList w path depth i l = .error e) :
    ∃ path' s, w.onStr path' s = .error e := by
  match l with
  | [] => exact absurd h (by simp [walkList])
  | v :: l =>
    rw [List.forall_mem_cons] at hl
    rw [walkList] at h
    rcases bind_map_eq_error h with hv | hrest
    · exact exists_onStr_eq_error (w.index path i) depth v hl.1 hv
    · exact exists_onStr_eq_error_list path depth (i + 1) l hl.2 hrest

theorem exists_onStr_eq_error_dict (path : P) (depth : ℕ) (d : List (String × Value O)) {e : E}
    (hd : ∀ e ∈ d, depth + e.2.height ≤ w.limit) (h : walkDict w path depth d = .error e) :
    ∃ path' s, w.onStr path' s = .error e := by
  match d with
  | [] => exact absurd h (by simp [walkDict])
  | (k, v) :: d =>
    rw [List.forall_mem_cons] at hd
    rw [walkDict] at h
    rcases bind_map_eq_error h with hv | hrest
    · exact exists_onStr_eq_error (w.key path k) depth v hd.1 hv
    · exact exists_onStr_eq_error_dict path depth d hd.2 hrest

end

end Walk

end Value

end ArgusMcp
