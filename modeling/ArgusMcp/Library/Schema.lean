import Mathlib.Data.List.Basic
import Mathlib.Tactic.Common

/-!
# Schemas

A validator takes a value and gives what it is stored as, or refuses it. A model has fields, each
with a name, a default and a validator, and is filled from keyword arguments. What a filled model
holds can be given to it as keyword arguments again.

A validator is `Stable` if it gives back what it has given before. `fill_eq_self_iff` says when a
model is filled with what it holds: exactly if the validator of each field gives back the value of
the field.
-/

namespace ArgusMcp

namespace Schema

variable {V W : Type*}

/-! ## Validators -/

/-- What the validator has made of a value, it makes of itself again. -/
def Stable (f : V → Option V) : Prop := ∀ v w, f v = some w → f w = some w

theorem stable_guard (p : V → Bool) : Stable fun v ↦ if p v then some v else none := by
  intro v w h
  dsimp only at h ⊢
  split at h
  · rename_i hp
    obtain rfl := Option.some.inj h
    rw [if_pos hp]
  · exact absurd h (by simp)

theorem stable_filter {f : V → Option V} (hf : Stable f) (p : V → Bool) :
    Stable fun v ↦ (f v).filter p := by
  intro v w h
  obtain ⟨hw, hp⟩ := Option.filter_eq_some_iff.mp h
  dsimp only
  rw [hf v w hw, Option.filter_some, if_pos hp]

theorem stable_conj {f : W → Option W} (hf : Stable f) {get : V → Option W} {put : W → V}
    (hget : ∀ w, get (put w) = some w) : Stable fun v ↦ ((get v).bind f).map put := by
  intro v w h
  obtain ⟨a, ha, rfl⟩ := Option.map_eq_some_iff.mp h
  obtain ⟨b, -, hb⟩ := Option.bind_eq_some_iff.mp ha
  dsimp only
  rw [hget, Option.bind_some, hf b a hb, Option.map_some]

theorem stable_optional {f : V → Option V} (hf : Stable f) (isNone : V → Bool) :
    Stable fun v ↦ if isNone v then some v else f v := by
  intro v w h
  dsimp only at h ⊢
  split at h
  · rename_i hv
    obtain rfl := Option.some.inj h
    rw [if_pos hv]
  · split
    · rfl
    · exact hf v w h

theorem mapM_eq_self {f : V → Option V} {l : List V} (h : ∀ v ∈ l, f v = some v) :
    l.mapM f = some l := by
  induction l with
  | nil => rfl
  | cons v l ih =>
    obtain ⟨hv, hl⟩ := List.forall_mem_cons.mp h
    rw [List.mapM_cons, hv, ih hl]
    rfl

theorem exists_of_mem_mapM {f : V → Option W} {l : List V} {m : List W} (h : l.mapM f = some m)
    {w : W} (hw : w ∈ m) : ∃ v ∈ l, f v = some w := by
  induction l generalizing m with
  | nil =>
    obtain rfl := Option.some.inj h
    exact absurd hw List.not_mem_nil
  | cons v l ih =>
    rw [List.mapM_cons] at h
    obtain ⟨w', hw', h⟩ := Option.bind_eq_some_iff.mp h
    obtain ⟨m, hm, h⟩ := Option.bind_eq_some_iff.mp h
    obtain rfl := Option.some.inj h
    rcases List.mem_cons.mp hw with rfl | hw
    · exact ⟨v, List.mem_cons_self, hw'⟩
    · obtain ⟨v', hv', heq⟩ := ih hm hw
      exact ⟨v', List.mem_cons_of_mem _ hv', heq⟩

theorem stable_mapM {f : V → Option V} (hf : Stable f) : Stable (List.mapM f) := by
  intro l m h
  refine mapM_eq_self fun w hw ↦ ?_
  obtain ⟨v, -, hv⟩ := exists_of_mem_mapM h hw
  exact hf v w hv

/-! ## Models -/

/-- A field. It has a default if it is not required. -/
structure FieldInfo (V : Type*) where
  name : String
  default : Option V
  validate : V → Option V

/-- The value of a field. A default is not validated. -/
def FieldInfo.read (f : FieldInfo V) (kwargs : List (String × V)) : Option V :=
  match kwargs.lookup f.name with
  | some v => f.validate v
  | none => f.default

/-- The field gives back what it holds. -/
structure FieldInfo.Settled (f : FieldInfo V) : Prop where
  validate : Stable f.validate
  default : ∀ v, f.default = some v → f.validate v = some v

/-- The fields of a model with their values. Other keyword arguments are ignored. -/
def fill : List (FieldInfo V) → List (String × V) → Option (List (String × V))
  | [], _ => some []
  | f :: fields, kwargs =>
    (f.read kwargs).bind fun v ↦ (fill fields kwargs).map fun values ↦ (f.name, v) :: values

variable {f : FieldInfo V} {fields : List (FieldInfo V)} {kwargs values : List (String × V)}

theorem fill_cons_eq_some_iff : fill (f :: fields) kwargs = some values ↔
    ∃ v rest, f.read kwargs = some v ∧ fill fields kwargs = some rest ∧
      values = (f.name, v) :: rest := by
  rw [fill, Option.bind_eq_some_iff]
  refine exists_congr fun v ↦ ?_
  rw [Option.map_eq_some_iff]
  constructor
  · rintro ⟨hv, rest, hrest, rfl⟩
    exact ⟨rest, hv, hrest, rfl⟩
  · rintro ⟨rest, hv, hrest, rfl⟩
    exact ⟨hv, rest, hrest, rfl⟩

theorem exists_read_of_fill (h : fill fields kwargs = some values) (hf : f ∈ fields) :
    ∃ v, f.read kwargs = some v := by
  induction fields generalizing values with
  | nil => exact absurd hf List.not_mem_nil
  | cons f' fields ih =>
    obtain ⟨v, rest, hv, hrest, -⟩ := fill_cons_eq_some_iff.mp h
    rcases List.mem_cons.mp hf with rfl | hf
    · exact ⟨v, hv⟩
    · exact ih hrest hf

theorem fill_nil (h : ∀ f ∈ fields, f.default ≠ none) :
    fill fields ([] : List (String × V)) =
      some (fields.filterMap fun f ↦ f.default.map fun v ↦ (f.name, v)) := by
  induction fields with
  | nil => rfl
  | cons f fields ih =>
    obtain ⟨hf, hfields⟩ := List.forall_mem_cons.mp h
    obtain ⟨v, hv⟩ := Option.ne_none_iff_exists'.mp hf
    rw [fill, ih hfields, FieldInfo.read, List.lookup_nil, hv, List.filterMap_cons, hv]
    rfl

theorem fill_cons_of_notMem {n : String} (hn : n ∉ fields.map FieldInfo.name) (v : V) :
    fill fields ((n, v) :: kwargs) = fill fields kwargs := by
  induction fields with
  | nil => rfl
  | cons f fields ih =>
    rw [List.map_cons, List.mem_cons, not_or] at hn
    have hread : f.read ((n, v) :: kwargs) = f.read kwargs := by
      rw [FieldInfo.read, FieldInfo.read, List.lookup_cons, beq_eq_false_iff_ne.mpr (Ne.symm hn.1)]
    rw [fill, fill, hread, ih hn.2]

/-- **A model is filled with what it holds** exactly if each field is. -/
theorem fill_eq_self_iff (hnames : (fields.map FieldInfo.name).Nodup)
    (h : fill fields kwargs = some values) :
    fill fields values = some values ↔
      ∀ f ∈ fields, ∀ v, f.read kwargs = some v → f.validate v = some v := by
  induction fields generalizing values with
  | nil =>
    obtain rfl := Option.some.inj h
    exact iff_of_true rfl fun f hf ↦ absurd hf List.not_mem_nil
  | cons f fields ih =>
    rw [List.map_cons, List.nodup_cons] at hnames
    obtain ⟨v, rest, hv, hrest, rfl⟩ := fill_cons_eq_some_iff.mp h
    have hread : f.read ((f.name, v) :: rest) = f.validate v := by
      rw [FieldInfo.read, List.lookup_cons, beq_self_eq_true]
    rw [List.forall_mem_cons, ← ih hnames.2 hrest, fill_cons_eq_some_iff, hread,
      fill_cons_of_notMem hnames.1]
    constructor
    · rintro ⟨w, rest', hw, hrest', heq⟩
      obtain ⟨hhead, rfl⟩ := List.cons.inj heq
      obtain rfl := (Prod.mk.inj hhead).2
      refine ⟨fun v' hv' ↦ ?_, hrest'⟩
      obtain rfl := Option.some.inj (hv.symm.trans hv')
      exact hw
    · rintro ⟨hfield, hrest'⟩
      exact ⟨v, rest, hfield v hv, hrest', rfl⟩

theorem FieldInfo.Settled.validate_of_read (hf : f.Settled) {v : V} (h : f.read kwargs = some v) :
    f.validate v = some v := by
  rw [FieldInfo.read] at h
  split at h
  · exact hf.validate _ v h
  · exact hf.default v h

theorem stable_fill (hnames : (fields.map FieldInfo.name).Nodup) (hfields : ∀ f ∈ fields, f.Settled) :
    Stable (fill fields) := by
  intro kwargs values h
  exact (fill_eq_self_iff hnames h).mpr fun f hf v hv ↦ (hfields f hf).validate_of_read hv

theorem lookup_fill (hnames : (fields.map FieldInfo.name).Nodup) (h : fill fields kwargs = some values)
    (hf : f ∈ fields) : values.lookup f.name = f.read kwargs := by
  induction fields generalizing values with
  | nil => exact absurd hf List.not_mem_nil
  | cons f' fields ih =>
    rw [List.map_cons, List.nodup_cons] at hnames
    obtain ⟨v, rest, hv, hrest, rfl⟩ := fill_cons_eq_some_iff.mp h
    rw [List.lookup_cons]
    rcases List.mem_cons.mp hf with rfl | hf
    · rw [beq_self_eq_true, hv]
    · have hne : f.name ≠ f'.name := fun heq ↦ hnames.1 (heq ▸ List.mem_map_of_mem hf)
      rw [beq_eq_false_iff_ne.mpr hne]
      exact ih hnames.2 hrest hf

end Schema

end ArgusMcp
