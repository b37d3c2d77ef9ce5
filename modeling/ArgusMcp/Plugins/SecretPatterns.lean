import ArgusMcp.Library.Redaction
import ArgusMcp.Plugins.Secrets

/-!
# What the patterns for secrets match

The stars around the replacement take part in no match of the last four patterns, so that these are
done with once their turn is over. The two for the keys of AWS can match again: for an access key a
star is as good a neighbour as a space, and a secret key is whatever has twenty letters up to the next
space, stars included. A text is read here as the turn of the access keys reads it (`Run`), and what
stands at a place of a text after some turns is followed back to the text that was there at first.
-/

namespace ArgusMcp

open Regex (cls alt many Apart Fenced Greedy Pass leading redactAll run)

namespace Secrets

/-! ## The replacement -/

/-- The replacement. -/
abbrev stars : List Char := '*' :: "**REDACTED**".toList ++ ['*']

theorem redaction_eq : redaction.toList = stars := by decide

theorem toList_replace (r : Regex Char) (value : String) :
    (replace r value).toList = r.sub stars value.toList := by
  rw [replace, String.toList_ofList, redaction_eq]

theorem toList_foldl_replace (l : List (String × Regex Char)) (value : String) :
    (l.foldl (fun acc p ↦ replace p.2 acc) value).toList =
      redactAll (l.map Prod.snd) stars value.toList := by
  induction l generalizing value with
  | nil => rfl
  | cons p l ih => rw [List.foldl_cons, ih, toList_replace, List.map_cons, Regex.redactAll_cons]

theorem consumes_patterns (engine : SecretsEngine) :
    ∀ p ∈ patterns engine, p.2.consumes = true := by
  intro p hp
  simp only [patterns, List.mem_cons, List.not_mem_nil, or_false] at hp
  rcases hp with rfl | rfl | rfl | rfl | rfl | rfl
  · rfl
  · rfl
  · rfl
  · rfl
  · rfl
  · rfl

/-- The replacement does not concern the patterns behind the keys of AWS. -/
theorem fenced_patterns (engine : SecretsEngine) :
    ∀ p ∈ (patterns engine).drop 2, Fenced p.2 '*' '*' "**REDACTED**".toList := by
  have hfenced : ∀ p ∈ (patterns engine).drop 2, p.2.consumes = true ∧ p.2.anchorFree = true ∧
      p.2.accepts '*' = false ∧ p.2.search "**REDACTED**".toList = false := by
    rcases engine with _ | _
    · decide
    · decide
  intro p hp
  obtain ⟨hconsumes, hfree, hstar, hsearch⟩ := hfenced p hp
  refine ⟨hconsumes, hfree, hstar, hstar, ?_⟩
  rw [← Regex.search_iff_occurs, hsearch]
  exact Bool.false_ne_true

/-! ## White space -/

def notSpace (engine : SecretsEngine) (c : Char) : Bool := !isSpace engine c

theorem isSpace_of_isSpace {engine : SecretsEngine} {c : Char} (h : isSpace engine c = true) :
    Workflows.isSpace c = true := by
  rcases engine with _ | _
  · exact h
  · exact (Bool.and_eq_true _ _ ▸ h).1

theorem notSpace_of_isSpace_eq_false (engine : SecretsEngine) {c : Char}
    (h : Workflows.isSpace c = false) : notSpace engine c = true := by
  rw [notSpace, Bool.not_eq_true', Bool.eq_false_iff]
  exact fun hspace ↦ absurd ((isSpace_of_isSpace hspace).symm.trans h) (by simp)

theorem notSpace_stars (engine : SecretsEngine) : ∀ c ∈ stars, notSpace engine c = true := by
  have hstars : stars.all (fun c ↦ !Workflows.isSpace c) = true := by decide
  intro c hc
  have hc' := List.all_eq_true.mp hstars c hc
  rw [Bool.not_eq_true'] at hc'
  exact notSpace_of_isSpace_eq_false engine hc'

theorem toNat_of_isSpace {c : Char} (h : Workflows.isSpace c = true) :
    c.toNat ≤ 32 ∨ 133 ≤ c.toNat := by
  simp only [Workflows.isSpace, Bool.or_eq_true, Bool.and_eq_true, decide_eq_true_eq] at h
  omega

theorem toNat_of_isAlnum {c : Char} (h : isAlnum c = true) : 48 ≤ c.toNat ∧ c.toNat ≤ 122 := by
  have hranges : ((decide (c.val ≥ 'A'.val ∧ c.val ≤ 'Z'.val) ||
      (decide (c.val ≥ 'a'.val) && decide (c.val ≤ 'z'.val))) ||
        (decide (c.val ≥ '0'.val) && decide (c.val ≤ '9'.val))) = true := h
  simp only [Bool.or_eq_true, Bool.and_eq_true, decide_eq_true_eq, ge_iff_le,
    UInt32.le_iff_toNat_le] at hranges
  have hA : 'A'.val.toNat = 65 := rfl
  have hZ : 'Z'.val.toNat = 90 := rfl
  have ha : 'a'.val.toNat = 97 := rfl
  have hz : 'z'.val.toNat = 122 := rfl
  have h0 : '0'.val.toNat = 48 := rfl
  have h9 : '9'.val.toNat = 57 := rfl
  have hc : c.toNat = c.val.toNat := rfl
  omega

theorem isSpace_eq_false_of_ignoreCase {c d : Char} (h : ignoreCase c d = true)
    (hc : Workflows.isSpace c.toLower = false) : Workflows.isSpace d = false := by
  rw [Bool.eq_false_iff]
  intro hd
  have hlower : d.toLower = d := by
    refine dif_neg ?_
    rintro ⟨hge, hle⟩
    rw [ge_iff_le, UInt32.le_iff_toNat_le] at hge
    rw [UInt32.le_iff_toNat_le] at hle
    have hA : 'A'.val.toNat = 65 := rfl
    have hZ : 'Z'.val.toNat = 90 := rfl
    have htoNat : d.toNat = d.val.toNat := rfl
    have hrange := toNat_of_isSpace hd
    omega
  simp only [ignoreCase, Bool.or_eq_true, Bool.and_eq_true, decide_eq_true_eq] at h
  rcases h with (heq | ⟨-, rfl⟩) | ⟨-, rfl⟩
  · rw [← heq, hlower, hd] at hc
    exact Bool.false_ne_true hc.symm
  · exact absurd hd (by decide)
  · exact absurd hd (by decide)

theorem accepts_letters {f : Char → Char → Bool} {l : List Char} {d : Char}
    (h : (l.foldr (fun c r ↦ Regex.seq (cls (f c)) r) .empty).accepts d = true) :
    ∃ c ∈ l, f c d = true := by
  induction l with
  | nil => exact absurd h Bool.false_ne_true
  | cons c l ih =>
    rw [List.foldr_cons, Regex.accepts, Bool.or_eq_true] at h
    rcases h with h | h
    · exact ⟨c, List.mem_cons_self, h⟩
    · obtain ⟨c', hc', hd⟩ := ih h
      exact ⟨c', List.mem_cons_of_mem _ hc', hd⟩

theorem notSpace_of_accepts_litIgnoreCase (engine : SecretsEngine) {s : String} {c : Char}
    (hs : s.toList.all (fun d ↦ !Workflows.isSpace d.toLower) = true)
    (h : (litIgnoreCase s).accepts c = true) : notSpace engine c = true := by
  obtain ⟨d, hd, hcase⟩ := accepts_letters h
  have hlower := List.all_eq_true.mp hs d hd
  rw [Bool.not_eq_true'] at hlower
  exact notSpace_of_isSpace_eq_false engine (isSpace_eq_false_of_ignoreCase hcase hlower)

theorem notSpace_of_accepts_lit (engine : SecretsEngine) {s : String} {c : Char}
    (hs : s.toList.all (fun d ↦ !Workflows.isSpace d) = true)
    (h : (lit s).accepts c = true) : notSpace engine c = true := by
  obtain ⟨d, hd, heq⟩ := accepts_letters h
  rw [of_decide_eq_true heq]
  have hspace := List.all_eq_true.mp hs d hd
  rw [Bool.not_eq_true'] at hspace
  exact notSpace_of_isSpace_eq_false engine hspace

theorem notSpace_of_isWordChar (engine : SecretsEngine) {c : Char}
    (h : isWordChar c = true ∨ c = '-') : notSpace engine c = true := by
  refine notSpace_of_isSpace_eq_false engine (Bool.eq_false_iff.mpr fun hspace ↦ ?_)
  have hrange := toNat_of_isSpace hspace
  rw [isWordChar, Bool.or_eq_true, decide_eq_true_eq] at h
  rcases h with (h | rfl) | rfl
  · have halnum := toNat_of_isAlnum h
    omega
  · exact absurd hspace (by decide)
  · exact absurd hspace (by decide)

/-! ## How the matches begin -/

theorem ten_le_leading_awsSecretKey {engine : SecretsEngine} {len : ℕ} {s t : List Char}
    (h : (awsSecretKey engine).Matches len s t) : 10 ≤ leading (notSpace engine) s := by
  obtain ⟨m, hm, -⟩ := h
  refine hm.minLength_le_leading fun c hc ↦ ?_
  rw [Regex.accepts, Bool.or_eq_true] at hc
  rcases hc with hc | hc
  · exact notSpace_of_accepts_litIgnoreCase engine (by decide) hc
  · exact notSpace_of_accepts_litIgnoreCase engine (by decide) hc

theorem leading_jwt {engine : SecretsEngine} {len : ℕ} {s t : List Char}
    (h : jwt.Matches len s t) : 20 ≤ leading (notSpace engine) s := by
  have htoken : ∀ c, isTokenChar c = true → notSpace engine c = true := by
    intro c hc
    rw [isTokenChar, Bool.or_eq_true, decide_eq_true_eq] at hc
    exact notSpace_of_isWordChar engine hc
  have hle : jwt.minLength ≤ leading (notSpace engine) s := by
    refine h.minLength_le_leading fun c hc ↦ ?_
    simp only [jwt, seqs, List.foldr_cons, List.foldr_nil, Regex.accepts, Bool.or_eq_true,
      Bool.false_eq_true, or_false] at hc
    rcases hc with hc | hc | hc | hc | hc | hc
    · exact notSpace_of_accepts_lit engine (by decide) hc
    · exact htoken c hc
    · exact notSpace_of_accepts_lit engine (by decide) hc
    · exact htoken c hc
    · exact notSpace_of_accepts_lit engine (by decide) hc
    · exact htoken c hc
  exact le_trans (by decide) hle

theorem leading_privateKey {engine : SecretsEngine} {len : ℕ} {s t : List Char}
    (h : privateKey.Matches len s t) : 10 ≤ leading (notSpace engine) s := by
  obtain ⟨m, hm, -⟩ := h
  have hs : s = "-----BEGIN".toList ++ (' ' :: m) := (Regex.matches_word_iff.mp hm).trans rfl
  have hnot : ∀ c ∈ "-----BEGIN".toList, notSpace engine c = true := by
    refine List.all_eq_true.mp ?_
    rcases engine with _ | _
    · rfl
    · rfl
  rw [hs, Regex.leading_append hnot]
  exact Nat.le_add_right _ _

theorem leading_githubToken {engine : SecretsEngine} {len : ℕ} {s t : List Char}
    (h : githubToken.Matches len s t) : 20 ≤ leading (notSpace engine) s := by
  have hle : githubToken.minLength ≤ leading (notSpace engine) s := by
    refine h.minLength_le_leading fun c hc ↦ ?_
    simp only [githubToken, seqs, List.foldr_cons, List.foldr_nil, Regex.accepts, Bool.or_eq_true,
      Bool.false_eq_true, or_false, decide_eq_true_eq] at hc
    rcases hc with hc | (rfl | rfl) | hc | hc
    · exact notSpace_of_accepts_lit engine (by decide) hc
    · exact notSpace_of_isSpace_eq_false engine (by decide)
    · exact notSpace_of_isSpace_eq_false engine (by decide)
    · exact notSpace_of_accepts_lit engine (by decide) hc
    · exact notSpace_of_isWordChar engine (Or.inl hc)
  exact le_trans (by decide) hle

theorem leading_genericBearer {engine : SecretsEngine} {len : ℕ} {s t : List Char}
    (h : (genericBearer engine).Matches len s t) : 6 ≤ leading (notSpace engine) s := by
  obtain ⟨m, hm, -⟩ := h
  exact hm.minLength_le_leading fun c hc ↦
    notSpace_of_accepts_litIgnoreCase engine (by decide) hc

theorem six_le_leading {engine : SecretsEngine} {p : String × Regex Char}
    (hp : p ∈ (patterns engine).tail) (len : ℕ) (s t : List Char) (h : p.2.Matches len s t) :
    6 ≤ leading (notSpace engine) s := by
  simp only [patterns, List.tail_cons, List.mem_cons, List.not_mem_nil, or_false] at hp
  rcases hp with rfl | rfl | rfl | rfl | rfl
  · exact le_trans (by decide) (ten_le_leading_awsSecretKey h)
  · exact le_trans (by decide) (leading_jwt h)
  · exact le_trans (by decide) (leading_privateKey h)
  · exact le_trans (by decide) (leading_githubToken h)
  · exact leading_genericBearer h

/-! ## Access keys -/

/-- An access key, without what is before and behind it. -/
def IsKey (k : List Char) : Prop :=
  ∃ u, (k = "AKIA".toList ++ u ∨ k = "ASIA".toList ++ u) ∧ u.length = 16 ∧
    ∀ c ∈ u, isUpperDigit c = true

/-- At an end of the text, or at a letter that is none of a key. -/
def Side (o : Option Char) : Prop := ∀ c, o = some c → isAlnum c = false

theorem not_isAlnum_iff {c : Char} : (!isAlnum c) = true ↔ isAlnum c = false := by
  rw [Bool.not_eq_true']

theorem matches_keyWord_iff {len : ℕ} {s t : List Char} :
    (∃ m, (Regex.alt (lit "AKIA") (lit "ASIA")).Matches len s m ∧
      (Regex.many isUpperDigit 16 (some 16)).Matches len m t) ↔ ∃ k, IsKey k ∧ s = k ++ t := by
  constructor
  · rintro ⟨m, hm, u, rfl, hu, hlo, hhi⟩
    have hlength : u.length = 16 := le_antisymm (hhi 16 rfl) hlo
    rcases hm with hm | hm
    · rw [Regex.matches_word_iff.mp hm, ← List.append_assoc]
      exact ⟨_, ⟨u, Or.inl rfl, hlength, hu⟩, rfl⟩
    · rw [Regex.matches_word_iff.mp hm, ← List.append_assoc]
      exact ⟨_, ⟨u, Or.inr rfl, hlength, hu⟩, rfl⟩
  · rintro ⟨k, ⟨u, hk, hlength, hu⟩, rfl⟩
    have hmany : (Regex.many isUpperDigit 16 (some 16)).Matches len (u ++ t) t :=
      ⟨u, rfl, hu, hlength.ge, fun n hn ↦ by rw [hlength, Option.some.inj hn]⟩
    rcases hk with rfl | rfl
    · exact ⟨u ++ t, Or.inl (Regex.matches_word_iff.mpr (List.append_assoc _ _ _)), hmany⟩
    · exact ⟨u ++ t, Or.inr (Regex.matches_word_iff.mpr (List.append_assoc _ _ _)), hmany⟩

theorem exists_matches_key {engine : SecretsEngine} {len : ℕ} {l k rest : List Char}
    (hk : IsKey k) (hl : l = [] ∧ (k ++ rest).length = len ∨ ∃ d, l = [d] ∧ isAlnum d = false)
    (hrest : Side rest.head?) : ∃ t, (awsAccessKey engine).Matches len (l ++ k ++ rest) t := by
  have hstart : (Regex.alt .start (.cls fun c ↦ !isAlnum c)).Matches len (l ++ k ++ rest)
      (k ++ rest) := by
    rcases hl with ⟨rfl, hlen⟩ | ⟨d, rfl, hd⟩
    · exact Or.inl ⟨rfl, hlen⟩
    · exact Or.inr ⟨d, not_isAlnum_iff.mpr hd, rfl⟩
  have hend : ∃ t, (Regex.alt (.cls fun c ↦ !isAlnum c) (dollar engine)).Matches len rest t := by
    rcases rest with _ | ⟨c, rest⟩
    · refine ⟨[], Or.inr ?_⟩
      rcases engine with _ | _
      · exact ⟨rfl, Or.inl rfl⟩
      · exact ⟨rfl, Or.inl rfl⟩
    · exact ⟨rest, Or.inl ⟨c, not_isAlnum_iff.mpr (hrest c rfl), rfl⟩⟩
  obtain ⟨t, ht⟩ := hend
  obtain ⟨m, hm, hmany⟩ := matches_keyWord_iff.mpr ⟨k, hk, rfl⟩
  exact ⟨t, k ++ rest, hstart, m, hm, rest, hmany, t, ht, rfl⟩


theorem exists_of_matches_awsAccessKey {engine : SecretsEngine} {len : ℕ} {s t : List Char}
    (h : (awsAccessKey engine).Matches len s t) : ∃ l k e, s = l ++ (k ++ (e ++ t)) ∧ IsKey k ∧
      (l = [] ∧ s.length = len ∨ ∃ d, l = [d] ∧ isAlnum d = false) ∧
        ((∃ d, e = [d] ∧ isAlnum d = false) ∨ e = [] ∧ (t = [] ∨ t = ['\n'])) := by
  obtain ⟨m₁, hstart, m₂, hword, m₃, hmany, m₄, hend, rfl⟩ := h
  obtain ⟨k, hk, rfl⟩ := matches_keyWord_iff.mp ⟨m₂, hword, hmany⟩
  have hafter : ∃ e, m₃ = e ++ m₄ ∧
      ((∃ d, e = [d] ∧ isAlnum d = false) ∨ e = [] ∧ (m₄ = [] ∨ m₄ = ['\n'])) := by
    rcases hend with ⟨c, hc, rfl⟩ | hend
    · exact ⟨[c], rfl, Or.inl ⟨c, rfl, not_isAlnum_iff.mp hc⟩⟩
    · rcases engine with _ | _
      · obtain ⟨rfl, hstop⟩ := hend
        exact ⟨[], rfl, Or.inr ⟨rfl, hstop⟩⟩
      · obtain ⟨rfl, rfl | hstop⟩ := hend
        · exact ⟨[], rfl, Or.inr ⟨rfl, Or.inl rfl⟩⟩
        · exact ⟨[], rfl, Or.inr ⟨rfl, Or.inl hstop⟩⟩
  obtain ⟨e, rfl, he⟩ := hafter
  rcases hstart with ⟨rfl, hlength⟩ | ⟨d, hd, rfl⟩
  · exact ⟨[], k, e, rfl, hk, Or.inl ⟨rfl, hlength⟩, he⟩
  · exact ⟨[d], k, e, rfl, hk, Or.inr ⟨d, rfl, not_isAlnum_iff.mp hd⟩, he⟩

theorem side_nil : Side ([] : List Char).head? := fun c hc ↦ absurd hc (by simp)

theorem side_getLast?_append_singleton {l : List Char} {d : Char} (hd : isAlnum d = false) :
    Side (l ++ [d]).getLast? := by
  intro c hc
  rw [List.getLast?_concat] at hc
  rw [← Option.some.inj hc]
  exact hd

theorem side_head?_cons {l : List Char} {d : Char} (hd : isAlnum d = false) :
    Side (d :: l).head? := by
  intro c hc
  rw [← Option.some.inj hc]
  exact hd

theorem occurs_awsAccessKey_iff {engine : SecretsEngine} {text : List Char} :
    (awsAccessKey engine).Occurs text ↔
      ∃ pre k post, text = pre ++ (k ++ post) ∧ IsKey k ∧ Side pre.getLast? ∧ Side post.head? := by
  constructor
  · rintro ⟨s, t, ⟨p, rfl⟩, hmatch⟩
    obtain ⟨l, k, e, rfl, hk, hl, he⟩ := exists_of_matches_awsAccessKey hmatch
    refine ⟨p ++ l, k, e ++ t, by rw [List.append_assoc], hk, ?_, ?_⟩
    · rcases hl with ⟨rfl, hlength⟩ | ⟨d, rfl, hd⟩
      · have hnil : p = [] := by
          simp only [List.nil_append, List.length_append] at hlength
          exact List.length_eq_zero_iff.mp (by omega)
        rw [hnil]
        exact side_nil
      · exact side_getLast?_append_singleton hd
    · rcases he with ⟨d, rfl, hd⟩ | ⟨rfl, rfl | rfl⟩
      · exact side_head?_cons hd
      · exact side_nil
      · exact side_head?_cons rfl
  · rintro ⟨pre, k, post, rfl, hk, hleft, hright⟩
    rcases List.eq_nil_or_concat' pre with rfl | ⟨pre', d, rfl⟩
    · obtain ⟨t, ht⟩ := @exists_matches_key engine _ [] k post hk (Or.inl ⟨rfl, rfl⟩) hright
      exact ⟨_, t, List.suffix_refl _, ht⟩
    · have hd : isAlnum d = false := hleft d List.getLast?_concat
      obtain ⟨t, ht⟩ := exists_matches_key hk (Or.inr ⟨d, rfl, hd⟩) hright
      exact ⟨_, t, ⟨pre', by simp⟩, ht⟩

theorem IsKey.length_eq {k : List Char} (hk : IsKey k) : k.length = 20 := by
  obtain ⟨u, rfl | rfl, hlength, -⟩ := hk
  · rw [List.length_append, hlength]
    rfl
  · rw [List.length_append, hlength]
    rfl

theorem IsKey.star_not_mem {k : List Char} (hk : IsKey k) : '*' ∉ k := by
  intro hmem
  obtain ⟨u, rfl | rfl, -, hu⟩ := hk
  · rcases List.mem_append.mp hmem with hmem | hmem
    · exact absurd hmem (by decide)
    · exact absurd (hu _ hmem) (by decide)
  · rcases List.mem_append.mp hmem with hmem | hmem
    · exact absurd hmem (by decide)
    · exact absurd (hu _ hmem) (by decide)

theorem IsKey.head?_append {k : List Char} (hk : IsKey k) (t : List Char) :
    (k ++ t).head? = some 'A' := by
  obtain ⟨u, rfl | rfl, -⟩ := hk
  · rfl
  · rfl

theorem IsKey.apart {k : List Char} (hk : IsKey k) :
    Apart '*' '*' "**REDACTED**".toList k := by
  have hlength := hk.length_eq
  refine ⟨?_, hk.star_not_mem, hk.star_not_mem, fun hin ↦ ?_⟩
  · rintro rfl
    exact absurd hlength (by decide)
  · have hle := hin.length_le
    rw [hlength] at hle
    exact absurd hle (by decide)

/-! ## Assignments -/

/-- What is before the value. -/
def assignment (engine : SecretsEngine) : Regex Char :=
  seqs [alt (litIgnoreCase "aws_secret_access_key") (litIgnoreCase "secret_key"),
    many (isSpace engine) 0 none, cls fun c ↦ decide (c = ':') || decide (c = '='),
    many (isSpace engine) 0 none]

theorem matches_awsSecretKey_iff {engine : SecretsEngine} {len : ℕ} {s t : List Char} :
    (awsSecretKey engine).Matches len s t ↔ ∃ m, (assignment engine).Matches len s m ∧
      (many (notSpace engine) 20 none).Matches len m t := by
  constructor
  · rintro ⟨m₁, h₁, m₂, h₂, m₃, h₃, m₄, h₄, m₅, h₅, rfl⟩
    exact ⟨m₄, ⟨m₁, h₁, m₂, h₂, m₃, h₃, m₄, h₄, rfl⟩, h₅⟩
  · rintro ⟨m, ⟨m₁, h₁, m₂, h₂, m₃, h₃, m₄, h₄, rfl⟩, h⟩
    exact ⟨m₁, h₁, m₂, h₂, m₃, h₃, m₄, h₄, t, h, rfl⟩

/-- The word is an assignment, up to the value, wherever it stands. -/
def IsAssignment (engine : SecretsEngine) (a : List Char) : Prop :=
  ∀ len t, (assignment engine).Matches len (a ++ t) t


theorem exists_sign {engine : SecretsEngine} {len : ℕ} {a m : List Char}
    (h : (assignment engine).Matches len (a ++ m) m) : ∃ c ∈ a, c = ':' ∨ c = '=' := by
  obtain ⟨m₁, h₁, m₂, h₂, m₃, ⟨c, hc, rfl⟩, m₄, h₄, rfl⟩ := h
  obtain ⟨v₁, heq, -⟩ := h₁.exists_word
  obtain ⟨v₂, rfl, -⟩ := h₂.exists_word
  obtain ⟨v₄, rfl, -⟩ := h₄.exists_word
  have hword : a ++ m₄ = v₁ ++ (v₂ ++ c :: v₄) ++ m₄ := by
    rw [heq]
    simp only [List.append_assoc, List.cons_append]
  rw [List.append_cancel_right hword]
  rw [Bool.or_eq_true, decide_eq_true_eq, decide_eq_true_eq] at hc
  exact ⟨c, List.mem_append_right _ (List.mem_append_right _ List.mem_cons_self), hc⟩

theorem IsAssignment.apart {engine : SecretsEngine} {a : List Char} (ha : IsAssignment engine a) :
    Apart '*' '*' "**REDACTED**".toList a := by
  obtain ⟨c, hc, hsign⟩ := exists_sign (ha 0 [])
  obtain ⟨a', heq, haccepts, -⟩ := (ha 0 []).exists_word
  obtain rfl := List.append_cancel_right heq
  have hstar : '*' ∉ a := by
    intro hmem
    have hnot : (assignment engine).accepts '*' = false := by
      rcases engine with _ | _
      · decide
      · decide
    rw [haccepts _ hmem] at hnot
    exact Bool.false_ne_true hnot.symm
  refine ⟨List.ne_nil_of_mem hc, hstar, hstar, fun hin ↦ ?_⟩
  rcases hsign with rfl | rfl
  · exact absurd (hin.subset hc) (by decide)
  · exact absurd (hin.subset hc) (by decide)

theorem exists_isAssignment {engine : SecretsEngine} {len : ℕ} {s m : List Char}
    (h : (assignment engine).Matches len s m) : ∃ a, s = a ++ m ∧ IsAssignment engine a := by
  obtain ⟨a, rfl, -, -, hfree⟩ := h.exists_word
  exact ⟨a, rfl, hfree rfl⟩

/-- The beginning of the text, as the turn of the access keys leaves it, has so many letters that are
no white space: each key counts for the replacement that is put in its place. -/
inductive Run (engine : SecretsEngine) (len : ℕ) : ℕ → List Char → List Char → Prop
  | nil (s : List Char) : Run engine len 0 s s
  | letter {n : ℕ} {c : Char} {s t : List Char} : notSpace engine c = true →
      Run engine len n s t → Run engine len (n + 1) (c :: s) t
  | key {n : ℕ} {w s t : List Char} : (awsAccessKey engine).Matches len (w ++ s) s →
      Run engine len n s t → Run engine len (n + 14) (w ++ s) t

section

variable {engine : SecretsEngine} {len : ℕ}

theorem leading_stars (o : List Char) :
    leading (notSpace engine) (stars ++ o) = 14 + leading (notSpace engine) o :=
  Regex.leading_append (notSpace_stars engine) o

/-- The turn of the access keys puts no more letters there. -/
theorem exists_run_of_pass {s o t : List Char} (h : Pass len (awsAccessKey engine) stars s o t) :
    ∃ k rest, Run engine len k s rest ∧ leading (notSpace engine) o ≤ k := by
  induction h with
  | nil t => exact ⟨0, t, .nil t, le_refl _⟩
  | @keep c s o t _ _ ih =>
    by_cases hc : notSpace engine c = true
    · obtain ⟨k, rest, hrun, hle⟩ := ih
      rw [Regex.leading_cons_of_pos hc]
      exact ⟨k + 1, rest, .letter hc hrun, by omega⟩
    · rw [Regex.leading_cons_of_neg hc]
      exact ⟨0, c :: s, .nil _, le_refl _⟩
  | @put w s o t _ hhead _ ih =>
    obtain ⟨k, rest, hrun, hle⟩ := ih
    rw [leading_stars]
    exact ⟨k + 14, rest, .key (Regex.mem_run_iff.mp (List.mem_of_mem_head? hhead)) hrun, by omega⟩

/-- Letters are read one by one. -/
theorem exists_run_leading (s : List Char) :
    ∃ rest, Run engine len (leading (notSpace engine) s) s rest := by
  induction s with
  | nil => exact ⟨[], .nil []⟩
  | cons c s ih =>
    by_cases hc : notSpace engine c = true
    · obtain ⟨rest, hrun⟩ := ih
      rw [Regex.leading_cons_of_pos hc]
      exact ⟨rest, .letter hc hrun⟩
    · rw [Regex.leading_cons_of_neg hc]
      exact ⟨_, .nil _⟩

/-! ## What occurs after a turn -/

theorem exists_of_matches_awsSecretKey {s t : List Char}
    (h : (awsSecretKey engine).Matches len s t) : ∃ a m, s = a ++ m ∧ IsAssignment engine a ∧
      20 ≤ leading (notSpace engine) m := by
  obtain ⟨m, hassign, b, rfl, hspace, hlo, -⟩ := matches_awsSecretKey_iff.mp h
  obtain ⟨a, rfl, ha⟩ := exists_isAssignment hassign
  refine ⟨a, b ++ t, rfl, ha, ?_⟩
  rw [Regex.leading_append hspace]
  omega

theorem exists_matches_awsSecretKey {a m : List Char} (ha : IsAssignment engine a)
    (hle : 20 ≤ leading (notSpace engine) m) :
    ∃ t, (awsSecretKey engine).Matches len (a ++ m) t :=
  ⟨m.dropWhile (notSpace engine), matches_awsSecretKey_iff.mpr ⟨m, ha _ _,
    m.takeWhile (notSpace engine), List.takeWhile_append_dropWhile.symm,
    fun _ hc ↦ List.mem_takeWhile_imp hc, hle, fun _ hn ↦ absurd hn (by simp)⟩⟩

theorem occurs_awsSecretKey_iff {text : List Char} : (awsSecretKey engine).Occurs text ↔
    ∃ pre a post, text = pre ++ (a ++ post) ∧ IsAssignment engine a ∧
      20 ≤ leading (notSpace engine) post := by
  constructor
  · rintro ⟨s, t, ⟨pre, rfl⟩, hmatch⟩
    obtain ⟨a, m, rfl, ha, hle⟩ := exists_of_matches_awsSecretKey hmatch
    exact ⟨pre, a, m, rfl, ha, hle⟩
  · rintro ⟨pre, a, post, rfl, ha, hle⟩
    obtain ⟨t, ht⟩ := exists_matches_awsSecretKey ha hle
    exact ⟨a ++ post, t, List.suffix_append _ _, ht⟩

/-- Two letters before a match of a pattern that is taken stand apart from it, whatever pattern
replaces what is before them. -/
theorem side_of_head?_run {p : String × Regex Char} (hp : p ∈ patterns engine) {w t : List Char}
    (hhead : (run len p.2 (w ++ t)).head? = some t) (ht : t.head? = some 'A') :
    Side w.getLast? := by
  have hmatch := Regex.mem_run_iff.mp (List.mem_of_mem_head? hhead)
  -- the others take all letters they can get
  have hgreedy : ∀ q : Char → Bool, q 'A' = true → ¬ Greedy q p.2 := by
    intro q hq hgreedy
    rw [hgreedy _ _ _ hhead 'A' ht] at hq
    exact Bool.false_ne_true hq
  have hspace : notSpace engine 'A' = true := notSpace_of_isSpace_eq_false engine (by decide)
  simp only [patterns, List.mem_cons, List.not_mem_nil, or_false] at hp
  rcases hp with rfl | rfl | rfl | rfl | rfl | rfl
  · obtain ⟨l, k, e, heq, -, -, ⟨d, rfl, hd⟩ | ⟨rfl, hend⟩⟩ := exists_of_matches_awsAccessKey hmatch
    · have hw : w ++ t = l ++ k ++ [d] ++ t := by
        rw [heq]
        simp only [List.append_assoc]
      rw [List.append_cancel_right hw]
      exact side_getLast?_append_singleton hd
    · rcases hend with rfl | rfl
      · exact absurd ht (by simp)
      · exact absurd ht (by decide)
  · exact absurd ((((Regex.greedy_many _ _).seq _).seq _).seq _ |>.seq _) (hgreedy _ hspace)
  · exact absurd (((((Regex.greedy_many _ _).seq _).seq _).seq _).seq _ |>.seq _)
      (hgreedy _ (by decide))
  · obtain ⟨m₁, h₁, m₂, h₂, m₃, h₃, rfl⟩ := hmatch
    obtain ⟨v₁, heq, -⟩ := h₁.exists_word
    obtain ⟨v₂, rfl, -⟩ := h₂.exists_word
    have hw : w ++ m₃ = v₁ ++ v₂ ++ "PRIVATE KEY----".toList ++ ['-'] ++ m₃ := by
      rw [heq, Regex.matches_word_iff.mp h₃]
      simp only [List.append_assoc]
      rfl
    rw [List.append_cancel_right hw]
    exact side_getLast?_append_singleton rfl
  · exact absurd ((((Regex.greedy_many _ _).seq _).seq _) |>.seq _) (hgreedy _ (by decide))
  · refine absurd (((Regex.greedy_many _ _).seq _).seq _) (hgreedy (isBearerChar engine) ?_)
    rcases engine with _ | _
    · decide
    · decide

theorem side_of_pass {p : String × Regex Char} (hp : p ∈ patterns engine) {s o t : List Char}
    (h : Pass len p.2 stars s o t) (ht : t.head? = some 'A') (hside : Side o.getLast?) :
    ∃ pre, s = pre ++ t ∧ Side pre.getLast? := by
  rcases h.last with ⟨rfl, rfl⟩ | ⟨q, c, o', rfl, rfl, -⟩ | ⟨q, w, o', rfl, hne, -, hhead⟩
  · exact ⟨[], rfl, side_nil⟩
  · refine ⟨q ++ [c], by rw [List.append_assoc, List.singleton_append], ?_⟩
    exact side_getLast?_append_singleton (hside c List.getLast?_concat)
  · refine ⟨q ++ w, (List.append_assoc ..).symm, ?_⟩
    rw [List.getLast?_append_of_ne_nil q hne]
    exact side_of_head?_run hp hhead ht

/-- The text begins with a match of one of the last four patterns. -/
def Fresh (engine : SecretsEngine) (s : List Char) : Prop :=
  ∃ p ∈ (patterns engine).drop 2, ∃ t, p.2.Matches 0 s t

theorem fresh_of_matches {p : String × Regex Char} (hp : p ∈ (patterns engine).drop 2)
    {s t : List Char} (h : p.2.Matches len s t) : Fresh engine s := by
  obtain ⟨w, rfl, -, hfree⟩ := (fenced_patterns engine p hp).exists_word h
  exact ⟨p, hp, t, hfree 0 t⟩

theorem fresh_of_pass {r : Regex Char} {s o t : List Char} (h : Pass len r stars s o t)
    (ho : Fresh engine o) : Fresh engine s := by
  obtain ⟨p, hp, rest, hmatch⟩ := ho
  obtain ⟨w, rfl, hapart, hfree⟩ := (fenced_patterns engine p hp).exists_word hmatch
  obtain ⟨u, rfl, -⟩ := h.exists_of_prefix hapart.left
  exact ⟨p, hp, u, hfree 0 u⟩

/-- What the text begins with after a turn: the letter that was there before, or the replacement of
a match that was there. -/
theorem front_of_pass {X : Option Char → Prop} {r : Regex Char} {s o : List Char}
    (h : Pass len r stars s o []) (ho : X o.head? ∨ Fresh engine o) :
    X s.head? ∨ Fresh engine s ∨ ∃ t, r.Matches len s t := by
  rcases ho with hX | hfresh
  · cases h with
    | nil => exact Or.inl hX
    | keep _ _ => exact Or.inl hX
    | put _ hhead _ =>
      exact Or.inr (Or.inr ⟨_, Regex.mem_run_iff.mp (List.mem_of_mem_head? hhead)⟩)
  · exact Or.inr (Or.inl (fresh_of_pass h hfresh))

/-- A secret begins here, as the patterns match it or as the turn of the access keys makes it out of
an assignment. -/
def Begins (engine : SecretsEngine) (len : ℕ) (s : List Char) : Prop :=
  (∃ p ∈ patterns engine, ∃ t, p.2.Matches len s t) ∨
    ∃ a m k t, s = a ++ m ∧ IsAssignment engine a ∧ Run engine len k m t ∧ 20 ≤ k

/-- The turn of the access keys. -/
theorem begins_of_pass {X : Option Char → Prop} {s o : List Char} {len' : ℕ}
    (h : Pass len (awsAccessKey engine) stars s o [])
    (ho : X o.head? ∨ Fresh engine o ∨ ∃ t, (awsSecretKey engine).Matches len' o t) :
    X s.head? ∨ Begins engine len s := by
  have hfront : X o.head? ∨ Fresh engine o → X s.head? ∨ Begins engine len s := by
    intro ho
    rcases front_of_pass h ho with hX | ⟨p, hp, t, hmatch⟩ | ⟨t, hmatch⟩
    · exact Or.inl hX
    · obtain ⟨w, rfl, -, hfree⟩ := (fenced_patterns engine p hp).exists_word hmatch
      exact Or.inr (Or.inl ⟨p, List.mem_of_mem_drop hp, t, hfree len t⟩)
    · exact Or.inr (Or.inl ⟨_, List.mem_cons_self, t, hmatch⟩)
  rcases ho with hX | hfresh | ⟨t, hmatch⟩
  · exact hfront (Or.inl hX)
  · exact hfront (Or.inr hfresh)
  · obtain ⟨a, m, rfl, ha, hle⟩ := exists_of_matches_awsSecretKey hmatch
    obtain ⟨u, rfl, hpass⟩ := h.exists_of_prefix ha.apart.left
    obtain ⟨k, rest, hrun, hk⟩ := exists_run_of_pass hpass
    exact Or.inr (Or.inr ⟨a, u, k, rest, rfl, ha, hrun, hle.trans hk⟩)

end

end Secrets

end ArgusMcp
