import Mathlib.Data.List.Nodup
import Mathlib.Data.List.Induction
import Mathlib.Logic.Function.Basic
import Mathlib.Tactic.Common

/-!
# Contests for slots

Bids arrive one after another. Each asks for a slot; a free slot is given away, a slot held by the
bidder itself stays as it is, and a slot held by somebody else is settled by rank: a better-ranked
newcomer takes the slot, and a newcomer that is not better ranked gets a spare slot of its own, if
that is free. A holder that loses its slot gets *nothing*.

The rule is applied pair by pair, so the outcome depends on the order of arrival. It does not where
whoever loses a slot has a spare one that somebody better wants (`outcome_eq_some_iff`). That
nothing less is enough is seen from a loser that arrives right behind the winner: it gets its spare
slot, unless somebody has it or somebody better comes for it (`exists_spare`).
-/

namespace ArgusMcp

namespace Contest

/-- What a bid asks for, on whose behalf, and how the bidders are ranked. -/
structure Rules (β S K V : Type*) where
  bidder : β → S
  key : β → K
  value : β → V
  /-- Lower is better. -/
  rank : S → ℕ
  /-- The slot a bidder gets in place of a contested one. -/
  fallback : S → K → K

variable {β S K V : Type*}

namespace Rules

variable (R : Rules β S K V)

/-- The spare slot of a bid. -/
def spare (b : β) : K := R.fallback (R.bidder b) (R.key b)

/-- What a slot holds for a bid. -/
def mark (b : β) : S × V := (R.bidder b, R.value b)

end Rules

/-! ## Arrival -/

section Arrival

variable {α : Type*} {a b : α}

theorem mem_of_pair_sublist {s t : List α} (hnodup : (s ++ b :: t).Nodup)
    (h : [a, b].Sublist (s ++ b :: t)) : a ∈ s := by
  have hnotMem : b ∉ t := (List.nodup_cons.mp (List.nodup_append.mp hnodup).2.1).1
  obtain ⟨l₁, l₂, heq, hs, ht⟩ := List.sublist_append_iff.mp h
  cases l₁ with
  | nil =>
    rw [List.nil_append] at heq
    subst heq
    cases ht with
    | cons _ ht => exact absurd (ht.subset (by simp)) hnotMem
    | cons_cons _ ht => exact absurd (ht.subset (by simp)) hnotMem
  | cons c l₁ =>
    rw [List.cons_append, List.cons.injEq] at heq
    rw [heq.1]
    exact hs.subset List.mem_cons_self

end Arrival

/-! ## Best bids -/

/-- The bid is ranked better than all others for its slot. -/
def Best (R : Rules β S K V) (bids : List β) (w : β) : Prop :=
  w ∈ bids ∧ ∀ o ∈ bids, R.key o = R.key w → o ≠ w → R.rank (R.bidder w) < R.rank (R.bidder o)

/-- Each slot that is asked for has a best bid, and the spare slot of a bid that is not the best
has one that comes before it or is ranked better. -/
structure Covered (R : Rules β S K V) (bids : List β) : Prop where
  best : ∀ b ∈ bids, ∃ w, Best R bids w ∧ R.key w = R.key b
  spare : ∀ done p rest, done ++ p :: rest = bids → ¬Best R bids p → ∃ w, Best R bids w ∧
    R.key w = R.spare p ∧ (R.rank (R.bidder w) < R.rank (R.bidder p) ∨ w ∈ done)

theorem Best.unique {bids : List β} {w o : β} (hw : Best R bids w) (ho : Best R bids o)
    (hkey : R.key o = R.key w) : o = w := by
  by_contra hne
  have h₁ := hw.2 o ho.1 hkey hne
  have h₂ := ho.2 w hw.1 hkey.symm (Ne.symm hne)
  omega

/-! ## Bidding -/

variable [DecidableEq S] [DecidableEq K] (R : Rules β S K V)

def bid (M : K → Option (S × V)) (b : β) : K → Option (S × V) :=
  match M (R.key b) with
  | none => Function.update M (R.key b) (some (R.mark b))
  | some (holder, _) =>
    if holder = R.bidder b then M
    else if R.rank (R.bidder b) < R.rank holder then
      Function.update M (R.key b) (some (R.mark b))
    else match M (R.spare b) with
      | none => Function.update M (R.spare b) (some (R.mark b))
      | some _ => M

/-- Who holds what after a sequence of bids. -/
def outcome (bids : List β) : K → Option (S × V) := bids.foldl (bid R) fun _ ↦ none

theorem outcome_concat (bids : List β) (b : β) :
    outcome R (bids ++ [b]) = bid R (outcome R bids) b := by
  rw [outcome, List.foldl_append]
  rfl

variable {R}

section Bid

variable {M : K → Option (S × V)} {b : β} {holder : S} {v : V}

theorem bid_of_none (h : M (R.key b) = none) :
    bid R M b = Function.update M (R.key b) (some (R.mark b)) := by
  rw [bid, h]

theorem bid_of_own (h : M (R.key b) = some (holder, v)) (hsame : holder = R.bidder b) :
    bid R M b = M := by
  rw [bid, h]
  exact if_pos hsame

theorem bid_of_rank_lt (h : M (R.key b) = some (holder, v)) (hne : holder ≠ R.bidder b)
    (hrank : R.rank (R.bidder b) < R.rank holder) :
    bid R M b = Function.update M (R.key b) (some (R.mark b)) := by
  rw [bid, h]
  dsimp only
  rw [if_neg hne, if_pos hrank]

theorem bid_of_spare_none (h : M (R.key b) = some (holder, v)) (hne : holder ≠ R.bidder b)
    (hrank : ¬R.rank (R.bidder b) < R.rank holder) (hspare : M (R.spare b) = none) :
    bid R M b = Function.update M (R.spare b) (some (R.mark b)) := by
  rw [bid, h]
  dsimp only
  rw [if_neg hne, if_neg hrank, hspare]

theorem bid_of_spare_some {r : S × V} (h : M (R.key b) = some (holder, v))
    (hne : holder ≠ R.bidder b) (hrank : ¬R.rank (R.bidder b) < R.rank holder)
    (hspare : M (R.spare b) = some r) : bid R M b = M := by
  rw [bid, h]
  dsimp only
  rw [if_neg hne, if_neg hrank, hspare]

end Bid

theorem bid_cases (M : K → Option (S × V)) (b : β) :
    (M (R.key b) = none ∧ bid R M b = Function.update M (R.key b) (some (R.mark b))) ∨
    ∃ holder v, M (R.key b) = some (holder, v) ∧
      ((holder = R.bidder b ∧ bid R M b = M) ∨
       (holder ≠ R.bidder b ∧ R.rank (R.bidder b) < R.rank holder ∧
          bid R M b = Function.update M (R.key b) (some (R.mark b))) ∨
       (holder ≠ R.bidder b ∧ R.rank holder ≤ R.rank (R.bidder b) ∧ M (R.spare b) = none ∧
          bid R M b = Function.update M (R.spare b) (some (R.mark b))) ∨
       (holder ≠ R.bidder b ∧ R.rank holder ≤ R.rank (R.bidder b) ∧ bid R M b = M)) := by
  cases hkey : M (R.key b) with
  | none => exact Or.inl ⟨rfl, bid_of_none hkey⟩
  | some r =>
    obtain ⟨holder, v⟩ := r
    refine Or.inr ⟨holder, v, rfl, ?_⟩
    by_cases hsame : holder = R.bidder b
    · exact Or.inl ⟨hsame, bid_of_own hkey hsame⟩
    · by_cases hrank : R.rank (R.bidder b) < R.rank holder
      · exact Or.inr (Or.inl ⟨hsame, hrank, bid_of_rank_lt hkey hsame hrank⟩)
      · have hle : R.rank holder ≤ R.rank (R.bidder b) := Nat.le_of_not_lt hrank
        cases hspare : M (R.spare b) with
        | none =>
          exact Or.inr (Or.inr (Or.inl
            ⟨hsame, hle, rfl, bid_of_spare_none hkey hsame hrank hspare⟩))
        | some _ =>
          exact Or.inr (Or.inr (Or.inr ⟨hsame, hle, bid_of_spare_some hkey hsame hrank hspare⟩))

/-! ## Later bids -/

theorem of_foldl_eq_some {bids : List β} {M : K → Option (S × V)} {k : K} {r : S × V}
    (h : bids.foldl (bid R) M k = some r) : M k = some r ∨ ∃ b ∈ bids, r = R.mark b := by
  induction bids generalizing M with
  | nil => exact Or.inl h
  | cons b bids ih =>
    rcases ih h with hr | ⟨c, hc, hmark⟩
    · have hput : ∀ slot, bid R M b = Function.update M slot (some (R.mark b)) →
          M k = some r ∨ ∃ c ∈ b :: bids, r = R.mark c := by
        intro slot hbid
        rw [hbid] at hr
        by_cases hk : k = slot
        · rw [hk, Function.update_self, Option.some.injEq] at hr
          exact Or.inr ⟨b, List.mem_cons_self, hr.symm⟩
        · rw [Function.update_of_ne hk] at hr
          exact Or.inl hr
      have hkeep : bid R M b = M → M k = some r ∨ ∃ c ∈ b :: bids, r = R.mark c := fun hbid ↦
        Or.inl (hbid ▸ hr)
      rcases bid_cases M b with ⟨-, hbid⟩ | ⟨holder, v, -, ⟨-, hbid⟩ | ⟨-, -, hbid⟩ |
        ⟨-, -, -, hbid⟩ | ⟨-, -, hbid⟩⟩
      · exact hput _ hbid
      · exact hkeep hbid
      · exact hput _ hbid
      · exact hput _ hbid
      · exact hkeep hbid
    · exact Or.inr ⟨c, List.mem_cons_of_mem b hc, hmark⟩

/-- A slot that is held is lost to those only who ask for it and are ranked better. -/
theorem foldl_of_held {M : K → Option (S × V)} {k : K} {r : S × V} (h : M k = some r)
    (bids : List β) : ∃ r', bids.foldl (bid R) M k = some r' ∧
      (r' = r ∨ ∃ b ∈ bids, R.key b = k ∧ r' = R.mark b ∧
        R.rank (R.bidder b) < R.rank r.1) := by
  induction bids generalizing M r with
  | nil => exact ⟨r, h, Or.inl rfl⟩
  | cons b bids ih =>
    have hkeep : bid R M b k = some r → ∃ r', (b :: bids).foldl (bid R) M k = some r' ∧
        (r' = r ∨ ∃ c ∈ b :: bids, R.key c = k ∧ r' = R.mark c ∧
          R.rank (R.bidder c) < R.rank r.1) := by
      intro hr
      obtain ⟨r', hr', hcase | ⟨c, hc, hkey, hmark, hlt⟩⟩ := ih hr
      · exact ⟨r', hr', Or.inl hcase⟩
      · exact ⟨r', hr', Or.inr ⟨c, List.mem_cons_of_mem b hc, hkey, hmark, hlt⟩⟩
    rcases bid_cases M b with ⟨hfree, hbid⟩ | ⟨holder, v, hheld, ⟨-, hbid⟩ | ⟨-, hlt, hbid⟩ |
      ⟨-, -, hfree, hbid⟩ | ⟨-, -, hbid⟩⟩
    · have hk : k ≠ R.key b := fun heq ↦ by rw [← heq, h] at hfree; exact absurd hfree (by simp)
      exact hkeep (by rw [hbid, Function.update_of_ne hk, h])
    · exact hkeep (by rw [hbid, h])
    · by_cases hk : k = R.key b
      · rw [← hk, h, Option.some.injEq] at hheld
        subst hheld
        have hnew : bid R M b k = some (R.mark b) := by rw [hbid, hk, Function.update_self]
        obtain ⟨r', hr', hcase | ⟨c, hc, hkey, hmark, hlt'⟩⟩ := ih hnew
        · exact ⟨r', hr', Or.inr ⟨b, List.mem_cons_self, hk.symm, hcase, hlt⟩⟩
        · exact ⟨r', hr', Or.inr ⟨c, List.mem_cons_of_mem b hc, hkey, hmark, Nat.lt_trans hlt' hlt⟩⟩
      · exact hkeep (by rw [hbid, Function.update_of_ne hk, h])
    · have hk : k ≠ R.spare b := fun heq ↦ by rw [← heq, h] at hfree; exact absurd hfree (by simp)
      exact hkeep (by rw [hbid, Function.update_of_ne hk, h])
    · exact hkeep (by rw [hbid, h])

theorem outcome_of_apart {bids : List β} (hapart : (bids.map R.key).Nodup) {k : K} {r : S × V} :
    outcome R bids k = some r ↔ ∃ b ∈ bids, R.key b = k ∧ r = R.mark b := by
  induction bids using List.reverseRecOn generalizing k r with
  | nil => simp [outcome]
  | append_singleton bids b ih =>
    rw [List.map_append, List.nodup_append] at hapart
    have hfree : outcome R bids (R.key b) = none := by
      rw [Option.eq_none_iff_forall_ne_some]
      intro r' hr'
      obtain ⟨c, hc, hkey, -⟩ := (ih hapart.1).mp hr'
      exact hapart.2.2 _ (List.mem_map_of_mem hc) _ (by simp) hkey
    rw [outcome_concat, bid_of_none hfree]
    by_cases hk : k = R.key b
    · subst hk
      rw [Function.update_self, Option.some.injEq]
      constructor
      · rintro rfl
        exact ⟨b, by simp, rfl, rfl⟩
      · rintro ⟨c, hc, hkey, rfl⟩
        rcases List.mem_append.mp hc with hc | hc
        · exact absurd hkey (hapart.2.2 _ (List.mem_map_of_mem hc) _ (by simp))
        · rw [List.mem_singleton.mp hc]
    · rw [Function.update_of_ne hk, ih hapart.1]
      constructor
      · rintro ⟨c, hc, hkey, rfl⟩
        exact ⟨c, List.mem_append_left _ hc, hkey, rfl⟩
      · rintro ⟨c, hc, rfl, rfl⟩
        rcases List.mem_append.mp hc with hc | hc
        · exact ⟨c, hc, rfl, rfl⟩
        · exact absurd (List.mem_singleton.mp hc ▸ rfl) hk

/-- Whoever comes first keeps its slot, or loses it to somebody ranked better. -/
theorem outcome_of_first {first : List β} (hapart : (first.map R.key).Nodup) {b : β}
    (hb : b ∈ first) (rest : List β) : ∃ r, outcome R (first ++ rest) (R.key b) = some r ∧
      (r = R.mark b ∨ ∃ c ∈ rest, R.key c = R.key b ∧ r = R.mark c ∧
        R.rank (R.bidder c) < R.rank (R.bidder b)) := by
  rw [outcome, List.foldl_append]
  exact foldl_of_held ((outcome_of_apart hapart).mpr ⟨b, hb, rfl, rfl⟩) rest

/-- **The spare slot of a loser** that comes right behind somebody ranked better: it is the loser's,
or that of somebody who came before, or is lost to somebody ranked better than those. -/
theorem exists_spare {first : List β} (hapart : (first.map R.key).Nodup) {w p : β}
    (hw : w ∈ first) (hkey : R.key w = R.key p)
    (hrank : R.rank (R.bidder w) < R.rank (R.bidder p)) (between rest : List β) :
    ∃ b ∈ first ++ between ++ [p],
      ∃ r, outcome R (first ++ between ++ p :: rest) (R.spare p) = some r ∧
        (r = R.mark b ∨ R.rank r.1 < R.rank (R.bidder b)) := by
  set M := outcome R (first ++ between) with hM
  -- the loser finds its slot with the one who is ranked better
  obtain ⟨r, hr, hcase⟩ := outcome_of_first hapart hw between
  have hholder : R.rank r.1 < R.rank (R.bidder p) := by
    rcases hcase with rfl | ⟨c, -, -, rfl, hlt⟩
    · exact hrank
    · exact Nat.lt_trans hlt hrank
  rw [hkey, ← hM] at hr
  have hne : r.1 ≠ R.bidder p := fun heq ↦ Nat.ne_of_lt hholder (congrArg R.rank heq)
  have hheld : ∃ b ∈ first ++ between ++ [p], bid R M p (R.spare p) = some (R.mark b) := by
    cases hspare : M (R.spare p) with
    | none =>
      refine ⟨p, by simp, ?_⟩
      rw [bid_of_spare_none hr hne (Nat.lt_asymm hholder) hspare, Function.update_self]
    | some r' =>
      have hsame : bid R M p = M :=
        bid_of_spare_some hr hne (Nat.lt_asymm hholder) hspare
      rcases of_foldl_eq_some hspare with hnone | ⟨b, hb, hmark⟩
      · exact absurd hnone (by simp)
      · exact ⟨b, List.mem_append_left _ hb, by rw [hsame, hspare, hmark]⟩
  obtain ⟨b, hb, hbid⟩ := hheld
  obtain ⟨r', hr', hcase'⟩ := foldl_of_held hbid rest
  refine ⟨b, hb, r', ?_, ?_⟩
  · rw [outcome, List.foldl_append, List.foldl_cons]
    exact hr'
  · rcases hcase' with rfl | ⟨c, -, -, rfl, hlt⟩
    · exact Or.inl rfl
    · exact Or.inr hlt

/-! ## When the order of arrival does not matter -/

/-- The best of those who have arrived have their slots, and what somebody else has is wanted by
somebody ranked better. -/
structure Settled (R : Rules β S K V) (bids done : List β) : Prop where
  best : ∀ w ∈ done, Best R bids w → outcome R done (R.key w) = some (R.mark w)
  wanted : ∀ k r, outcome R done k = some r → ∃ w, Best R bids w ∧ R.key w = k ∧
    (r = R.mark w ∨ R.rank (R.bidder w) < R.rank r.1)

section Settled

variable {bids done rest : List β} {b : β}

theorem Settled.update (hinv : Settled R bids done) {slot : K}
    (hbid : bid R (outcome R done) b = Function.update (outcome R done) slot (some (R.mark b)))
    (hown : Best R bids b → slot = R.key b)
    (hlost : ∀ w ∈ done, Best R bids w → R.key w = slot → w = b)
    (hwanted : ∃ w, Best R bids w ∧ R.key w = slot ∧
      (b = w ∨ R.rank (R.bidder w) < R.rank (R.bidder b))) :
    Settled R bids (done ++ [b]) := by
  constructor
  · intro w hw hbest
    rw [outcome_concat, hbid]
    rcases List.mem_append.mp hw with hw | hw
    · by_cases hk : R.key w = slot
      · rw [hk, Function.update_self, hlost w hw hbest hk]
      · rw [Function.update_of_ne hk]
        exact hinv.best w hw hbest
    · rw [List.mem_singleton.mp hw] at hbest ⊢
      rw [hown hbest, Function.update_self]
  · intro k r hr
    rw [outcome_concat, hbid] at hr
    by_cases hk : k = slot
    · rw [hk, Function.update_self, Option.some.injEq] at hr
      obtain ⟨w, hw, hkey, rfl | hrank⟩ := hwanted
      · exact ⟨b, hw, hkey.trans hk.symm, Or.inl hr.symm⟩
      · exact ⟨w, hw, hkey.trans hk.symm, Or.inr (hr ▸ hrank)⟩
    · rw [Function.update_of_ne hk] at hr
      exact hinv.wanted k r hr

theorem Settled.same (hinv : Settled R bids done) (hbid : bid R (outcome R done) b = outcome R done)
    (hheld : Best R bids b → outcome R done (R.key b) = some (R.mark b)) :
    Settled R bids (done ++ [b]) := by
  constructor
  · intro w hw hbest
    rw [outcome_concat, hbid]
    rcases List.mem_append.mp hw with hw | hw
    · exact hinv.best w hw hbest
    · rw [List.mem_singleton.mp hw] at hbest ⊢
      exact hheld hbest
  · intro k r hr
    rw [outcome_concat, hbid] at hr
    exact hinv.wanted k r hr

theorem Settled.concat (hcov : Covered R bids) (hsplit : done ++ b :: rest = bids)
    (hinv : Settled R bids done) : Settled R bids (done ++ [b]) := by
  have hb : b ∈ bids := hsplit ▸ by simp
  -- the best bid for the slot that is asked for
  obtain ⟨w, hw, hkey⟩ := hcov.best b hb
  have hwanted : b = w ∨ R.rank (R.bidder w) < R.rank (R.bidder b) := by
    by_cases hne : b = w
    · exact Or.inl hne
    · exact Or.inr (hw.2 b hb hkey.symm hne)
  rcases bid_cases (outcome R done) b with ⟨hfree, hbid⟩ | ⟨holder, v, hheld, hcases⟩
  · refine hinv.update hbid (fun _ ↦ rfl) (fun o ho hbest hk ↦ ?_) ⟨w, hw, hkey, hwanted⟩
    have hr := hinv.best o ho hbest
    rw [hk, hfree] at hr
    exact absurd hr (by simp)
  · -- if it is the best bid that is asked for, it meets itself or somebody ranked worse
    have hmet : Best R bids b → (holder, v) = R.mark b ∨
        R.rank (R.bidder b) < R.rank holder := by
      intro hbest
      obtain ⟨w', hw', hkey', hcase⟩ := hinv.wanted _ _ hheld
      rwa [hbest.unique hw' hkey'] at hcase
    rcases hcases with ⟨hsame, hbid⟩ | ⟨-, hlt, hbid⟩ | ⟨hne, hle, hfree, hbid⟩ | ⟨hne, hle, hbid⟩
    · refine hinv.same hbid fun hbest ↦ ?_
      rw [hheld, (hmet hbest).resolve_right (by rw [hsame]; omega)]
    · refine hinv.update hbid (fun _ ↦ rfl) (fun o ho hbest hk ↦ ?_) ⟨w, hw, hkey, hwanted⟩
      have hr := hinv.best o ho hbest
      rw [hk, hheld, Option.some.injEq] at hr
      by_contra hob
      have hrank := hbest.2 b hb hk.symm (Ne.symm hob)
      rw [show holder = R.bidder o from congrArg Prod.fst hr] at hlt
      omega
    · have hnot : ¬Best R bids b := fun hbest ↦ by
        rcases hmet hbest with heq | hlt
        · exact hne (congrArg Prod.fst heq)
        · omega
      obtain ⟨c, hc, hckey, hcase⟩ := hcov.spare done b rest hsplit hnot
      have hnone : ∀ o ∈ done, Best R bids o → R.key o = R.spare b → o = b := by
        intro o ho hbest hk
        have hr := hinv.best o ho hbest
        rw [hk, hfree] at hr
        exact absurd hr (by simp)
      refine hinv.update hbid (fun hbest ↦ absurd hbest hnot) hnone ⟨c, hc, hckey, Or.inr ?_⟩
      rcases hcase with hrank | hdone
      · exact hrank
      · exact absurd hc (hnone c hdone hc hckey ▸ hnot)
    · refine hinv.same hbid fun hbest ↦ ?_
      rcases hmet hbest with heq | hlt
      · exact absurd (congrArg Prod.fst heq) hne
      · omega

/-- **Each slot goes to its best bid**, and no other slot is taken. The induction is on the number
of bids that have arrived. -/
theorem outcome_eq_some_iff (hcov : Covered R bids) {k : K} {r : S × V} :
    outcome R bids k = some r ↔ ∃ w, Best R bids w ∧ R.key w = k ∧ r = R.mark w := by
  have hpre : ∀ done rest, done ++ rest = bids → Settled R bids done := by
    intro done
    induction done using List.reverseRecOn with
    | nil => exact fun _ _ ↦ ⟨by simp, by simp [outcome]⟩
    | append_singleton done b ih =>
      intro rest hsplit
      rw [List.append_assoc, List.singleton_append] at hsplit
      exact (ih _ hsplit).concat hcov hsplit
  have hinv := hpre bids [] (List.append_nil bids)
  constructor
  · intro hr
    obtain ⟨w, hw, rfl, -⟩ := hinv.wanted k r hr
    rw [hinv.best w hw.1 hw, Option.some.injEq] at hr
    exact ⟨w, hw, rfl, hr.symm⟩
  · rintro ⟨w, hw, rfl, rfl⟩
    exact hinv.best w hw.1 hw

end Settled

end Contest

end ArgusMcp
