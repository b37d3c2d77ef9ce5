import ArgusMcp.Library.Regex

/-!
# Replacing the matches of several expressions

The expressions of a list take their turns: each replaces its matches in what the ones before have
left, and all put the same word in their place. The letters that are put in can take part in the
matches of the expressions that follow, and of those that came before.

`Pass` says what one turn does, letter by letter and match by match. A word that cannot lie in a
replacement (`Apart`) stood there before the turn, no match begins at it, and what is on either side
of it was passed over on its own (`Pass.exists_of_append`). So what has to do with such words in the
end can be followed back to the text that was there at first.
-/

namespace ArgusMcp

namespace Regex

variable {α : Type*} [DecidableEq α]

/-- The expressions replace their matches one after the other. -/
def redactAll (rs : List (Regex α)) (repl text : List α) : List α :=
  rs.foldl (fun acc r ↦ r.sub repl acc) text

theorem redactAll_cons (r : Regex α) (rs : List (Regex α)) (repl text : List α) :
    redactAll (r :: rs) repl text = redactAll rs repl (r.sub repl text) := rfl

theorem redactAll_append (rs rs' : List (Regex α)) (repl text : List α) :
    redactAll (rs ++ rs') repl text = redactAll rs' repl (redactAll rs repl text) :=
  List.foldl_append

/-- What can be followed back over each turn can be followed back over all. -/
theorem redactAll_induction {P : List α → Prop} {rs : List (Regex α)} {repl text : List α}
    (hstep : ∀ r ∈ rs, ∀ text, P (r.sub repl text) → P text) (h : P (redactAll rs repl text)) :
    P text := by
  induction rs generalizing text with
  | nil => exact h
  | cons r rs ih =>
    obtain ⟨hr, hrs⟩ := List.forall_mem_cons.mp hstep
    exact hr text (ih hrs h)

/-! ## Where nothing matches -/

theorem subFrom_of_not_occurs {r : Regex α} {repl text : List α} (h : ¬ r.Occurs text) (fuel : ℕ)
    {s : List α} (hs : s <:+ text) : subFrom text.length r repl fuel s = s := by
  induction fuel generalizing s with
  | zero => rfl
  | succ fuel ih =>
    rcases s with _ | ⟨c, s⟩
    · rfl
    · rw [subFrom]
      split
      · rename_i t ts hrun
        exact absurd ⟨c :: s, t, hs, mem_run_iff.mp (hrun ▸ List.mem_cons_self)⟩ h
      · rw [ih ((List.suffix_cons c s).trans hs)]

theorem sub_of_not_occurs {r : Regex α} {text : List α} (repl : List α) (h : ¬ r.Occurs text) :
    r.sub repl text = text :=
  subFrom_of_not_occurs h text.length (List.suffix_refl text)

theorem redactAll_of_not_occurs {rs : List (Regex α)} {text : List α} (repl : List α)
    (h : ∀ r ∈ rs, ¬ r.Occurs text) : redactAll rs repl text = text := by
  induction rs with
  | nil => rfl
  | cons r rs ih =>
    obtain ⟨hr, hrs⟩ := List.forall_mem_cons.mp h
    rw [redactAll_cons, sub_of_not_occurs repl hr, ih hrs]

/-! ## One turn -/

/-- In a text of length `len`, the matches in what `s` has before `t` are replaced, which gives
`o`. -/
inductive Pass (len : ℕ) (r : Regex α) (repl : List α) : List α → List α → List α → Prop
  | nil (t : List α) : Pass len r repl t [] t
  | keep {c : α} {s o t : List α} : run len r (c :: s) = [] → Pass len r repl s o t →
      Pass len r repl (c :: s) (c :: o) t
  | put {w s o t : List α} : w ≠ [] → (run len r (w ++ s)).head? = some s →
      Pass len r repl s o t → Pass len r repl (w ++ s) (repl ++ o) t

section

variable {r : Regex α} {len : ℕ} {repl : List α}

theorem pass_subFrom (hconsumes : r.consumes = true) {fuel : ℕ} {s : List α}
    (hfuel : s.length ≤ fuel) : Pass len r repl s (subFrom len r repl fuel s) [] := by
  induction fuel generalizing s with
  | zero =>
    rw [Nat.le_zero, List.length_eq_zero_iff] at hfuel
    subst hfuel
    exact .nil []
  | succ fuel ih =>
    rcases s with _ | ⟨c, s⟩
    · exact .nil []
    · rw [List.length_cons] at hfuel
      rw [subFrom]
      split
      · rename_i t ts hrun
        have hmem : t ∈ run len r (c :: s) := hrun ▸ List.mem_cons_self
        have hlt := length_lt_of_mem_run hconsumes hmem
        obtain ⟨w, hw, -, hne, -⟩ := (mem_run_iff.mp hmem).exists_word
        rw [List.length_cons] at hlt
        rw [hw]
        refine .put (hne hconsumes) ?_ (ih (by omega))
        rw [← hw, hrun]
        rfl
      · rename_i hrun
        exact .keep hrun (ih (by omega))

theorem pass_sub (hconsumes : r.consumes = true) (repl text : List α) :
    Pass text.length r repl text (r.sub repl text) [] :=
  pass_subFrom hconsumes (le_refl _)

namespace Pass

variable {s o t : List α}

theorem suffix (h : Pass len r repl s o t) : t <:+ s := by
  induction h with
  | nil t => exact List.suffix_refl t
  | keep _ _ ih => exact ih.trans (List.suffix_cons _ _)
  | put _ _ _ ih => exact ih.trans (List.suffix_append _ _)

/-- How a turn comes to where it stops. -/
theorem last (h : Pass len r repl s o t) : (o = [] ∧ s = t) ∨
    (∃ q c o', s = q ++ c :: t ∧ o = o' ++ [c] ∧ run len r (c :: t) = []) ∨
      ∃ q w o', s = q ++ (w ++ t) ∧ w ≠ [] ∧ o = o' ++ repl ∧
        (run len r (w ++ t)).head? = some t := by
  induction h with
  | nil t => exact Or.inl ⟨rfl, rfl⟩
  | @keep c s o t hrun _ ih =>
    rcases ih with ⟨rfl, rfl⟩ | ⟨q, d, o', rfl, rfl, hd⟩ | ⟨q, w, o', rfl, hne, rfl, hw⟩
    · exact Or.inr (Or.inl ⟨[], c, [], rfl, rfl, hrun⟩)
    · exact Or.inr (Or.inl ⟨c :: q, d, c :: o', rfl, rfl, hd⟩)
    · exact Or.inr (Or.inr ⟨c :: q, w, c :: o', rfl, hne, rfl, hw⟩)
  | @put w s o t hne hrun _ ih =>
    rcases ih with ⟨rfl, rfl⟩ | ⟨q, d, o', rfl, rfl, hd⟩ | ⟨q, w', o', rfl, hne', rfl, hw⟩
    · exact Or.inr (Or.inr ⟨[], w, [], rfl, hne, List.append_nil repl, hrun⟩)
    · exact Or.inr (Or.inl ⟨w ++ q, d, repl ++ o', (List.append_assoc ..).symm,
        (List.append_assoc ..).symm, hd⟩)
    · exact Or.inr (Or.inr ⟨w ++ q, w', repl ++ o', (List.append_assoc ..).symm, hne',
        (List.append_assoc ..).symm, hw⟩)

/-- What is shorter than a replacement has none in it. -/
theorem eq_of_length_lt (h : Pass len r repl s o t) (hlt : o.length < repl.length) :
    s = o ++ t := by
  induction h with
  | nil t => rfl
  | keep _ _ ih =>
    rw [List.length_cons] at hlt
    rw [ih (by omega), List.cons_append]
  | put _ _ _ _ =>
    rw [List.length_append] at hlt
    omega

end Pass

/-! ## Words that are kept -/

/-- The word does not lie in the replacement, nor does it reach into it: it has neither of its outer
letters and does not occur between them. -/
structure Apart (x y : α) (mid w : List α) : Prop where
  ne : w ≠ []
  left : x ∉ w
  right : y ∉ w
  mid : ¬ w <:+: mid

namespace Pass

variable {x y : α} {mid s o t w : List α}

/-- A word without the first letter of the replacement stands at the beginning only if it did
before. -/
theorem exists_of_prefix (hx : x ∉ w) (h : Pass len r (x :: mid ++ [y]) s (w ++ o) t) :
    ∃ u, s = w ++ u ∧ Pass len r (x :: mid ++ [y]) u o t := by
  induction w generalizing s with
  | nil => exact ⟨s, rfl, h⟩
  | cons c w ih =>
    rw [List.mem_cons, not_or] at hx
    generalize heq : c :: w ++ o = out at h
    cases h with
    | nil t => exact absurd heq (by simp)
    | keep hrun h =>
      rw [List.cons_append] at heq
      obtain ⟨rfl, rfl⟩ := List.cons.inj heq
      obtain ⟨u, rfl, hu⟩ := ih hx.2 h
      exact ⟨u, rfl, hu⟩
    | put hne hrun h =>
      rw [List.cons_append, List.cons_append, List.cons_append] at heq
      exact absurd (List.cons.inj heq).1.symm hx.1

/-- **What was there before.** -/
theorem exists_of_append {o₁ o₂ : List α} (hw : Apart x y mid w)
    (h : Pass len r (x :: mid ++ [y]) s (o₁ ++ (w ++ o₂)) t) :
    ∃ u, Pass len r (x :: mid ++ [y]) s o₁ (w ++ u) ∧ Pass len r (x :: mid ++ [y]) u o₂ t ∧
      run len r (w ++ u) = [] := by
  generalize heq : o₁ ++ (w ++ o₂) = out at h
  induction h generalizing o₁ with
  | nil t =>
    exact absurd (List.append_eq_nil_iff.mp (List.append_eq_nil_iff.mp heq).2).1 hw.ne
  | @keep c s o t hrun h ih =>
    rcases o₁ with _ | ⟨d, o₁⟩
    · obtain ⟨d, w, rfl⟩ := List.exists_cons_of_ne_nil hw.ne
      rw [List.nil_append, List.cons_append] at heq
      obtain ⟨rfl, rfl⟩ := List.cons.inj heq
      obtain ⟨u, rfl, hu⟩ := h.exists_of_prefix fun hmem ↦ hw.left (List.mem_cons_of_mem _ hmem)
      exact ⟨u, .nil _, hu, hrun⟩
    · rw [List.cons_append] at heq
      obtain ⟨rfl, htail⟩ := List.cons.inj heq
      obtain ⟨u, hleft, hright, hnone⟩ := ih htail
      exact ⟨u, .keep hrun hleft, hright, hnone⟩
  | @put m s o t hne hrun h ih =>
    -- The word lies behind the replacement, begins with it, or lies inside.
    rcases suffix_fence_cases ⟨o₁, heq⟩ with ⟨o₁', ho⟩ | ⟨l, hl⟩ | ⟨v, hv, hl⟩
    · obtain ⟨u, hleft, hright, hnone⟩ := ih ho
      rw [← ho, ← List.append_assoc (x :: mid ++ [y])] at heq
      rw [List.append_cancel_right heq]
      exact ⟨u, .put hne hrun hleft, hright, hnone⟩
    · obtain ⟨d, w', rfl⟩ := List.exists_cons_of_ne_nil hw.ne
      rw [List.cons_append] at hl
      exact absurd ((List.cons.inj hl).1 ▸ List.mem_cons_self) hw.left
    · obtain ⟨v', rfl⟩ := prefix_of_prefix_append_cons hw.right (hl ▸ List.prefix_append w o₂)
      obtain ⟨v₀, hv₀⟩ := hv
      exact absurd ⟨v₀, v', (List.append_assoc v₀ w v').trans hv₀⟩ hw.mid

end Pass

end

/-! ## Letters of a class at the beginning -/

/-- With how many letters of the class the text begins. -/
def leading (p : α → Bool) (l : List α) : ℕ := (l.takeWhile p).length

section

omit [DecidableEq α]

variable {p : α → Bool}

theorem leading_cons_of_pos {c : α} (hc : p c = true) (l : List α) :
    leading p (c :: l) = leading p l + 1 := by
  rw [leading, List.takeWhile_cons, if_pos hc, List.length_cons, leading]

theorem leading_cons_of_neg {c : α} (hc : ¬ p c = true) (l : List α) :
    leading p (c :: l) = 0 := by
  rw [leading, List.takeWhile_cons, if_neg hc, List.length_nil]

theorem leading_append {u : List α} (hu : ∀ c ∈ u, p c = true) (l : List α) :
    leading p (u ++ l) = u.length + leading p l := by
  rw [leading, List.takeWhile_append_of_pos hu, List.length_append, leading]

end

section

variable {p : α → Bool} {r : Regex α} {len : ℕ} {repl s o t : List α}

/-- The turn that makes the beginning long enough: up to the first match in it there were only
letters of the class. -/
theorem Pass.exists_put_of_leading_lt (h : Pass len r repl s o t) {n : ℕ} (hn : n ≤ leading p o)
    (hlt : leading p s < n) : ∃ u w s' o', s = u ++ (w ++ s') ∧ (∀ c ∈ u, p c = true) ∧
      (run len r (w ++ s')).head? = some s' ∧ o = u ++ (repl ++ o') ∧ Pass len r repl s' o' t := by
  induction h generalizing n with
  | nil t => exact absurd (hlt.trans_le hn) (Nat.not_lt_zero _)
  | @keep c s o t hrun _ ih =>
    by_cases hc : p c = true
    · rw [leading_cons_of_pos hc] at hn hlt
      obtain ⟨u, w, s', o', rfl, hu, hhead, rfl, hpass⟩ := ih (n := n - 1) (by omega) (by omega)
      exact ⟨c :: u, w, s', o', rfl, List.forall_mem_cons.mpr ⟨hc, hu⟩, hhead, rfl, hpass⟩
    · rw [leading_cons_of_neg hc] at hn
      exact absurd (hlt.trans_le hn) (Nat.not_lt_zero _)
  | @put w s o t _ hrun hpass _ =>
    exact ⟨[], w, s, o, rfl, fun c hc ↦ absurd hc List.not_mem_nil, hrun, rfl, hpass⟩

/-- If every match begins with `n` letters of the class, so many do not come from it. -/
theorem Pass.le_leading (h : Pass len r repl s o t) {n : ℕ}
    (hbegins : ∀ s t, r.Matches len s t → n ≤ leading p s) {k : ℕ} (hk : k ≤ n)
    (hle : k ≤ leading p o) : k ≤ leading p s := by
  induction h generalizing k with
  | nil t => exact hle.trans (Nat.zero_le _)
  | @keep c s o t hrun _ ih =>
    by_cases hc : p c = true
    · rw [leading_cons_of_pos hc] at hle ⊢
      have hrest := ih (k := k - 1) (by omega) (by omega)
      omega
    · rw [leading_cons_of_neg hc] at hle
      omega
  | @put w s o t _ hrun _ _ =>
    exact hk.trans (hbegins _ _ (mem_run_iff.mp (List.mem_of_mem_head? hrun)))

end

/-- How many letters every match of the expression has at least. -/
def minLength : Regex α → ℕ
  | cls _ => 1
  | seq a b => a.minLength + b.minLength
  | alt a b => min a.minLength b.minLength
  | many _ lo _ => lo
  | few _ lo _ => lo
  | _ => 0

omit [DecidableEq α] in
theorem Matches.minLength_le {len : ℕ} {r : Regex α} {s t : List α} (h : r.Matches len s t) :
    t.length + r.minLength ≤ s.length := by
  induction r generalizing s t with
  | cls p =>
    obtain ⟨c, -, rfl⟩ := h
    exact le_refl _
  | seq a b iha ihb =>
    obtain ⟨m, ha, hb⟩ := h
    have hfirst := iha ha
    have hsecond := ihb hb
    rw [minLength]
    omega
  | alt a b iha ihb =>
    rw [minLength]
    rcases h with h | h
    · have hfirst := iha h
      omega
    · have hsecond := ihb h
      omega
  | many p lo hi | few p lo hi =>
    obtain ⟨w, rfl, -, hlo, -⟩ := h
    rw [minLength, List.length_append]
    omega
  | empty =>
    obtain rfl := h
    exact le_refl _
  | here p | start | stop trailing =>
    obtain ⟨rfl, -⟩ := h
    exact le_refl _

omit [DecidableEq α] in
theorem Matches.minLength_le_leading {p : α → Bool} {r : Regex α}
    (haccepts : ∀ c, r.accepts c = true → p c = true) {len : ℕ} {s t : List α}
    (h : r.Matches len s t) : r.minLength ≤ leading p s := by
  have hle := h.minLength_le
  obtain ⟨w, rfl, hw, -⟩ := h.exists_word
  rw [List.length_append] at hle
  rw [leading_append fun c hc ↦ haccepts c (hw c hc)]
  omega

/-! ## Matches that go as far as they can -/

/-- The match that is taken is not followed by a letter of the class. -/
def Greedy (p : α → Bool) (r : Regex α) : Prop :=
  ∀ len s t, (run len r s).head? = some t → ∀ c, t.head? = some c → p c = false

omit [DecidableEq α] in
theorem head?_runMany {p : α → Bool} {lo : ℕ} {s t : List α}
    (h : (runMany p lo none s).head? = some t) : ∀ c, t.head? = some c → p c = false := by
  induction s generalizing lo with
  | nil =>
    rw [runMany] at h
    split at h
    · obtain rfl := Option.some.inj h
      exact fun c hc ↦ absurd hc (by simp)
    · exact absurd h (by simp)
  | cons c s ih =>
    rw [runMany, Option.map_none] at h
    by_cases hc : p c = true
    · rw [if_pos ⟨by simp, hc⟩] at h
      rcases hrest : runMany p (lo - 1) none s with _ | ⟨t', ts⟩
      · rw [hrest, List.nil_append] at h
        split at h
        · rename_i hlo
          have hmem : s ∈ runMany p (lo - 1) none s :=
            mem_runMany_iff.mpr ⟨[], rfl, manyWord_nil_iff.mpr (by omega)⟩
          rw [hrest] at hmem
          exact absurd hmem List.not_mem_nil
        · exact absurd h (by simp)
      · have hhead : (runMany p (lo - 1) none s).head? = some t := by
          rw [hrest] at h ⊢
          exact h
        exact ih hhead
    · rw [if_neg fun hboth ↦ hc hboth.2, List.nil_append] at h
      split at h
      · obtain rfl := Option.some.inj h
        rintro d hd
        rw [← Option.some.inj hd]
        exact Bool.eq_false_iff.mpr hc
      · exact absurd h (by simp)

theorem greedy_many (p : α → Bool) (lo : ℕ) : Greedy p (seq (many p lo none) empty) := by
  intro len s t h
  rw [run, run] at h
  have hsingle : (runMany p lo none s).flatMap (run len empty) = runMany p lo none s :=
    List.flatMap_pure_eq_map id _ |>.trans (List.map_id _)
  rw [hsingle] at h
  exact head?_runMany h

theorem Greedy.seq {p : α → Bool} {b : Regex α} (h : Greedy p b) (a : Regex α) :
    Greedy p (Regex.seq a b) := by
  intro len s t hhead
  rw [run] at hhead
  generalize run len a s = ms at hhead
  induction ms with
  | nil => exact absurd hhead (by simp)
  | cons m ms ih =>
    rw [List.flatMap_cons] at hhead
    rcases hm : run len b m with _ | ⟨t', ts⟩
    · rw [hm] at hhead
      exact ih hhead
    · rw [hm] at hhead
      refine h len m t ?_
      rw [hm]
      exact hhead

/-! ## Expressions that no replacement concerns -/

/-- A replacement does not concern the expression: it consumes and has no anchors, it does not accept
the outer letters of the replacement, and it does not occur between them. -/
structure Fenced (r : Regex α) (x y : α) (mid : List α) : Prop where
  consumes : r.consumes = true
  anchorFree : r.anchorFree = true
  left : r.accepts x = false
  right : r.accepts y = false
  mid : ¬ r.Occurs mid

section

variable {x y : α} {mid : List α}

omit [DecidableEq α] in
theorem Fenced.exists_word {r : Regex α} (h : r.Fenced x y mid) {len : ℕ} {s t : List α}
    (hmatch : r.Matches len s t) : ∃ w, s = w ++ t ∧ Apart x y mid w ∧
      ∀ len' t', r.Matches len' (w ++ t') t' := by
  obtain ⟨w, rfl, haccepts, hne, hfree⟩ := hmatch.exists_word
  refine ⟨w, rfl, ⟨hne h.consumes, fun hmem ↦ ?_, fun hmem ↦ ?_, ?_⟩, hfree h.anchorFree⟩
  · exact absurd ((haccepts x hmem).symm.trans h.left) (by simp)
  · exact absurd ((haccepts y hmem).symm.trans h.right) (by simp)
  · rintro ⟨u, v, rfl⟩
    exact h.mid ⟨w ++ v, v, ⟨u, (List.append_assoc u w v).symm⟩, hfree h.anchorFree _ v⟩

/-- Then replacing the matches of others makes no match of it. -/
theorem Fenced.occurs_of_occurs_sub {r r' : Regex α} (h : r'.Fenced x y mid)
    (hconsumes : r.consumes = true) {text : List α}
    (hoccurs : r'.Occurs (r.sub (x :: mid ++ [y]) text)) : r'.Occurs text := by
  obtain ⟨s, t, ⟨pre, hs⟩, hmatch⟩ := hoccurs
  obtain ⟨w, rfl, hw, hfree⟩ := h.exists_word hmatch
  have hpass := pass_sub hconsumes (x :: mid ++ [y]) text
  rw [← hs] at hpass
  obtain ⟨u, hleft, -⟩ := hpass.exists_of_append hw
  exact ⟨w ++ u, u, hleft.suffix, hfree _ u⟩

theorem Fenced.occurs_of_occurs_redactAll {rs : List (Regex α)} {r' : Regex α}
    (h : r'.Fenced x y mid) (hconsumes : ∀ r ∈ rs, r.consumes = true) {text : List α}
    (hoccurs : r'.Occurs (redactAll rs (x :: mid ++ [y]) text)) : r'.Occurs text :=
  redactAll_induction (fun r hr _ ↦ h.occurs_of_occurs_sub (hconsumes r hr)) hoccurs

/-- It does not occur once its own turn is over. -/
theorem Fenced.not_occurs_redactAll {rs : List (Regex α)} {r : Regex α} (h : r.Fenced x y mid)
    (hconsumes : ∀ r ∈ rs, r.consumes = true) (hr : r ∈ rs) (text : List α) :
    ¬ r.Occurs (redactAll rs (x :: mid ++ [y]) text) := by
  intro hoccurs
  obtain ⟨before, after, rfl⟩ := List.append_of_mem hr
  rw [redactAll_append, redactAll_cons] at hoccurs
  have hafter := h.occurs_of_occurs_redactAll
    (fun r hr ↦ hconsumes r (List.mem_append_right _ (List.mem_cons_of_mem _ hr))) hoccurs
  exact not_occurs_sub h.consumes h.anchorFree h.left h.right h.mid _ hafter

end

end Regex

end ArgusMcp
