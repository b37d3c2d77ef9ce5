import ArgusMcp.Plugins.SecretsAgreement

/-!
# What redaction leaves

A text result is redacted pattern by pattern, in Python and in Rust. Afterwards no pattern should
occur any more. Of the last four patterns nothing is left, since they cannot take part of the
replacement for their own. The two for the keys of AWS can.

An access key needs a letter before and behind it that is no letter or digit. Where two keys share
that letter, the match of the first one takes it away, and the second one is passed over; but the
star that comes in its place is such a letter too. The same goes for a key with another secret right
behind it (`ExposedKey`). And a secret key is whatever has twenty letters up to the next space: an
assignment with a shorter value is passed over, and when something in the value with a space in it is
replaced, the value is long enough (`ExposedAssignment`).

`complete_of_not_exposed` says that nothing else is left behind.
-/

namespace ArgusMcp

open Regex (Apart Pass leading redactAll run)

namespace Secrets

/-! ## Redacting a result -/

/-- No pattern occurs in what is left of the text, and redacting that changes nothing. -/
def Complete (engine : SecretsEngine) (value : String) : Prop :=
  (∀ p ∈ patterns engine, ¬ p.2.Occurs (redactResult engine value).1.toList) ∧
    (redactResult engine (redactResult engine value).1).1 = (redactResult engine value).1

/-- The turns, one after the other. -/
theorem redactAll_patterns (engine : SecretsEngine) (text : List Char) :
    redactAll ((patterns engine).map Prod.snd) stars text =
      redactAll (((patterns engine).drop 2).map Prod.snd) stars
        ((awsSecretKey engine).sub stars ((awsAccessKey engine).sub stars text)) := rfl

/-! ## Access keys -/

/-- A key that is left: what it has on its left will do, and on its right it shares a letter with the
key before it, or another secret stands right behind it. -/
def ExposedKey (engine : SecretsEngine) (value : List Char) : Prop :=
  ∃ pre k post, value = pre ++ (k ++ post) ∧ IsKey k ∧ Side pre.getLast? ∧
    ((Side post.head? ∧ ∃ p k' d, pre = p ++ (k' ++ [d]) ∧ IsKey k' ∧ Side p.getLast?) ∨
      (¬ Side post.head? ∧ Begins engine value.length post))

/-- A key stands in the text, its left neighbour will do, and so will the right one, or it is about
to be replaced. -/
def KeyStands (engine : SecretsEngine) (text : List Char) : Prop :=
  ∃ pre k post, text = pre ++ (k ++ post) ∧ IsKey k ∧ Side pre.getLast? ∧
    (Side post.head? ∨ Fresh engine post)

section

variable {engine : SecretsEngine} {text : List Char}

theorem exists_key_before {p : String × Regex Char} (hp : p ∈ patterns engine)
    {pre k post : List Char} (hk : IsKey k) (heq : p.2.sub stars text = pre ++ (k ++ post))
    (hside : Side pre.getLast?) :
    ∃ pre' post', text = pre' ++ (k ++ post') ∧ Side pre'.getLast? ∧
      Pass text.length p.2 stars text pre (k ++ post') ∧
        Pass text.length p.2 stars post' post [] ∧ run text.length p.2 (k ++ post') = [] := by
  have hpass := Regex.pass_sub (consumes_patterns engine p hp) stars text
  rw [heq] at hpass
  obtain ⟨post', hleft, hright, hnone⟩ := hpass.exists_of_append hk.apart
  obtain ⟨pre', htext, hside'⟩ := side_of_pass hp hleft (hk.head?_append post') hside
  exact ⟨pre', post', htext, hside', hleft, hright, hnone⟩

theorem KeyStands.before {p : String × Regex Char} (hp : p ∈ (patterns engine).drop 2)
    (h : KeyStands engine (p.2.sub stars text)) : KeyStands engine text := by
  obtain ⟨pre, k, post, heq, hk, hside, hpost⟩ := h
  obtain ⟨pre', post', htext, hside', -, hright, -⟩ :=
    exists_key_before (List.mem_of_mem_drop hp) hk heq hside
  refine ⟨pre', k, post', htext, hk, hside', ?_⟩
  rcases front_of_pass hright hpost with hX | hfresh | ⟨t, hmatch⟩
  · exact Or.inl hX
  · exact Or.inr hfresh
  · exact Or.inr (fresh_of_matches hp hmatch)

/-- A key between two letters that will do is passed over only if the match before it takes one of
them. -/
theorem exists_shared {pre pre' k post : List Char} (hk : IsKey k)
    (htext : text = pre' ++ (k ++ post)) (hside : Side pre'.getLast?) (hpost : Side post.head?)
    (hpass : Pass text.length (awsAccessKey engine) stars text pre (k ++ post))
    (hnone : run text.length (awsAccessKey engine) (k ++ post) = []) :
    ∃ p k' d, pre' = p ++ (k' ++ [d]) ∧ IsKey k' ∧ Side p.getLast? := by
  have hnot : ∀ l, (l = [] ∧ (k ++ post).length = text.length ∨
      ∃ d, l = [d] ∧ isAlnum d = false) → run text.length (awsAccessKey engine)
        (l ++ k ++ post) ≠ [] := by
    intro l hl hnil
    obtain ⟨t, ht⟩ := @exists_matches_key engine _ _ _ _ hk hl hpost
    exact absurd (hnil ▸ Regex.mem_run_iff.mpr ht) List.not_mem_nil
  rcases hpass.last with ⟨-, heq⟩ | ⟨q, c, o', heq, -, hrun⟩ | ⟨q, w, o', heq, hne, -, hhead⟩
  · exact absurd hnone (hnot [] (Or.inl ⟨rfl, by rw [heq]⟩))
  · have hpre : pre' = q ++ [c] := by
      have happend : pre' ++ (k ++ post) = q ++ [c] ++ (k ++ post) := by
        rw [← htext, heq, List.append_assoc, List.singleton_append]
      exact List.append_cancel_right happend
    rw [hpre] at hside
    exact absurd hrun (hnot [c] (Or.inr ⟨c, rfl, hside c List.getLast?_concat⟩))
  · have hpre : pre' = q ++ w := by
      have happend : pre' ++ (k ++ post) = q ++ w ++ (k ++ post) := by
        rw [← htext, heq, List.append_assoc]
      exact List.append_cancel_right happend
    have hmatch := Regex.mem_run_iff.mp (List.mem_of_mem_head? hhead)
    obtain ⟨l, k', e, hw, hk', hl, ⟨d, rfl, -⟩ | ⟨-, hend⟩⟩ := exists_of_matches_awsAccessKey hmatch
    · have hword : w = l ++ (k' ++ [d]) := by
        have happend : w ++ (k ++ post) = l ++ (k' ++ [d]) ++ (k ++ post) := by
          rw [hw]
          simp only [List.append_assoc]
        exact List.append_cancel_right happend
      refine ⟨q ++ l, k', d, by rw [hpre, hword, List.append_assoc], hk', ?_⟩
      rcases hl with ⟨rfl, hlength⟩ | ⟨d', rfl, hd'⟩
      · have hnil : q = [] := by
          simp only [heq, List.length_append] at hlength
          exact List.length_eq_zero_iff.mp (by omega)
        rw [hnil]
        exact side_nil
      · exact side_getLast?_append_singleton hd'
    · have hA := hk.head?_append post
      rcases hend with hend | hend
      · rw [hend] at hA
        exact absurd hA (by simp)
      · rw [hend] at hA
        exact absurd hA (by decide)

/-- The turn of the access keys. -/
theorem exposedKey_of_sub {pre k post : List Char} {n : ℕ} (hk : IsKey k)
    (heq : (awsAccessKey engine).sub stars text = pre ++ (k ++ post)) (hside : Side pre.getLast?)
    (hpost : Side post.head? ∨ Fresh engine post ∨ ∃ t, (awsSecretKey engine).Matches n post t) :
    ExposedKey engine text := by
  obtain ⟨pre', post', htext, hside', hleft, hright, hnone⟩ :=
    exists_key_before (p := ("AWS Access Key", awsAccessKey engine)) List.mem_cons_self hk heq hside
  refine ⟨pre', k, post', htext, hk, hside', ?_⟩
  by_cases hpost' : Side post'.head?
  · exact Or.inl ⟨hpost', exists_shared hk htext hside' hpost' hleft hnone⟩
  · exact Or.inr ⟨hpost', (begins_of_pass hright hpost).resolve_left hpost'⟩

/-- **Keys that are left.** -/
theorem exposedKey_of_occurs
    (h : (awsAccessKey engine).Occurs (redactAll ((patterns engine).map Prod.snd) stars text)) :
    ExposedKey engine text := by
  obtain ⟨pre, k, post, heq, hk, hside, hpost⟩ := occurs_awsAccessKey_iff.mp h
  rw [redactAll_patterns] at heq
  have hstands : KeyStands engine
      ((awsSecretKey engine).sub stars ((awsAccessKey engine).sub stars text)) := by
    refine @Regex.redactAll_induction _ _ _ (((patterns engine).drop 2).map Prod.snd) stars _ ?_
      ⟨pre, k, post, heq, hk, hside, Or.inl hpost⟩
    exact List.forall_mem_map.mpr fun p hp _ ↦ KeyStands.before hp
  obtain ⟨pre₂, k, post₂, heq₂, hk, hside₂, hpost₂⟩ := hstands
  have hsecret : ("AWS Secret Key", awsSecretKey engine) ∈ patterns engine :=
    List.mem_cons_of_mem _ List.mem_cons_self
  obtain ⟨pre₁, post₁, heq₁, hside₁, -, hright, -⟩ :=
    exists_key_before hsecret hk heq₂ hside₂
  exact exposedKey_of_sub hk heq₁ hside₁ (front_of_pass hright hpost₂)

end

/-! ## Assignments -/

/-- The token of a bearer goes no further. -/
def Ends (engine : SecretsEngine) (o : Option Char) : Prop :=
  ∀ c, o = some c → isBearerChar engine c = false

/-- In the value of an assignment stands the header of a private key or a bearer with its token. Up
to the space in it the value is too short, and around it there are enough letters for the replacement
to make it long enough: `room n t` says that `t` begins with `n` letters, and `front t` that no more
letters of the token are in it. -/
def Stretched (engine : SecretsEngine) (room : ℕ → List Char → Prop) (front : List Char → Prop)
    (s : List Char) : Prop :=
  ∃ u m t, s = u ++ m ∧ (∀ c ∈ u, notSpace engine c = true) ∧ room (6 - u.length) t ∧
    (privateKey.Matches 0 m t ∧ u.length < 10 ∨
      (genericBearer engine).Matches 0 m t ∧ u.length < 14 ∧ front t)

/-- In the value of an assignment stands another one, with a space in it. Up to the space the value
is too short, and the replacement makes it long enough. -/
def Doubled (engine : SecretsEngine) (room : ℕ → List Char → Prop) (s : List Char) : Prop :=
  ∃ u a t, s = u ++ (a ++ t) ∧ (∀ c ∈ u, notSpace engine c = true) ∧
    (6 ≤ u.length ∧ u.length < 10) ∧ IsAssignment engine a ∧
      (∃ c ∈ a, notSpace engine c = false) ∧ room 20 t

/-- So many letters are read. -/
def Room (engine : SecretsEngine) (len n : ℕ) (t : List Char) : Prop :=
  ∃ k rest, Run engine len k t rest ∧ n ≤ k

/-- An assignment that is left: its value is too short, and made longer. -/
def ExposedAssignment (engine : SecretsEngine) (value : List Char) : Prop :=
  ∃ pre a post, value = pre ++ (a ++ post) ∧ IsAssignment engine a ∧
    (Stretched engine (Room engine value.length)
        (fun t ↦ Ends engine t.head? ∨ Begins engine value.length t) post ∨
      Doubled engine (Room engine value.length) post)

/-- An assignment stands in the text, and its value is long enough or about to be. -/
def AssignmentStands (engine : SecretsEngine) (text : List Char) : Prop :=
  ∃ pre a post, text = pre ++ (a ++ post) ∧ IsAssignment engine a ∧
    (20 ≤ leading (notSpace engine) post ∨
      Stretched engine (fun n t ↦ n ≤ leading (notSpace engine) t)
        (fun t ↦ Ends engine t.head? ∨ Fresh engine t) post)

section

variable {engine : SecretsEngine} {len : ℕ} {text s o : List Char}

theorem exists_word_before {p : String × Regex Char} (hp : p ∈ patterns engine)
    {pre w post : List Char} (hw : Apart '*' '*' "**REDACTED**".toList w)
    (heq : p.2.sub stars text = pre ++ (w ++ post)) :
    ∃ pre' post', text = pre' ++ (w ++ post') ∧ Pass text.length p.2 stars post' post [] ∧
      run text.length p.2 (w ++ post') = [] := by
  have hpass := Regex.pass_sub (consumes_patterns engine p hp) stars text
  rw [heq] at hpass
  obtain ⟨post', hleft, hright, hnone⟩ := hpass.exists_of_append hw
  obtain ⟨pre', htext⟩ := hleft.suffix
  exact ⟨pre', post', htext.symm, hright, hnone⟩

/-- A secret with a space in it that is left by a turn was there before. -/
theorem Stretched.before {r : Regex Char} {room room' : ℕ → List Char → Prop}
    {front front' : List Char → Prop} (h : Pass len r stars s o [])
    (hroom : ∀ n s o, n ≤ 6 → Pass len r stars s o [] → room' n o → room n s)
    (hfront : ∀ s o, Pass len r stars s o [] → front' o → front s)
    (ho : Stretched engine room' front' o) : Stretched engine room front s := by
  obtain ⟨u, m, t, rfl, hu, hr, hmatch⟩ := ho
  have hword : ∀ p ∈ (patterns engine).drop 2, p.2.Matches 0 m t → u.length < 14 →
      ∃ m' t', s = u ++ m' ∧ p.2.Matches 0 m' t' ∧ Pass len r stars t' t [] := by
    intro p hp hmatch hlt
    obtain ⟨w, rfl, hapart, hfree⟩ := (fenced_patterns engine p hp).exists_word hmatch
    obtain ⟨t', hleft, hright, -⟩ := h.exists_of_append hapart
    exact ⟨w ++ t', t', hleft.eq_of_length_lt hlt, hfree 0 t', hright⟩
  rcases hmatch with ⟨hkey, hlt⟩ | ⟨hbearer, hlt, hf⟩
  · obtain ⟨m', t', rfl, hkey', hright⟩ := hword ("Private Key", privateKey)
      (by simp [patterns]) hkey (by omega)
    exact ⟨u, m', t', rfl, hu, hroom _ _ _ (Nat.sub_le _ _) hright hr, Or.inl ⟨hkey', hlt⟩⟩
  · obtain ⟨m', t', rfl, hbearer', hright⟩ := hword ("Generic Bearer", genericBearer engine)
      (by simp [patterns]) hbearer hlt
    exact ⟨u, m', t', rfl, hu, hroom _ _ _ (Nat.sub_le _ _) hright hr,
      Or.inr ⟨hbearer', hlt, hfront _ _ hright hf⟩⟩

theorem Stretched.imp {room room' : ℕ → List Char → Prop} {front front' : List Char → Prop}
    (h : Stretched engine room' front' s) (hroom : ∀ n t, room' n t → room n t)
    (hfront : ∀ t, front' t → front t) : Stretched engine room front s := by
  obtain ⟨u, m, t, rfl, hu, hr, hmatch⟩ := h
  refine ⟨u, m, t, rfl, hu, hroom _ _ hr, hmatch.imp_right ?_⟩
  rintro ⟨hbearer, hlt, hf⟩
  exact ⟨hbearer, hlt, hfront t hf⟩

/-- The turn that makes a value long enough replaces a secret with a space in it. -/
theorem stretched_of_pass {p : String × Regex Char} (hp : p ∈ (patterns engine).drop 2)
    (h : Pass len p.2 stars s o []) (ho : 20 ≤ leading (notSpace engine) o)
    (hs : leading (notSpace engine) s < 20) :
    Stretched engine (fun n t ↦ n ≤ leading (notSpace engine) t)
      (fun t ↦ Ends engine t.head? ∨ Fresh engine t) s := by
  obtain ⟨u, w, s', o', rfl, hu, hhead, rfl, hpass⟩ := h.exists_put_of_leading_lt ho hs
  rw [Regex.leading_append hu] at ho hs
  rw [leading_stars] at ho
  have hroom : 6 - u.length ≤ leading (notSpace engine) s' :=
    hpass.le_leading (six_le_leading (List.mem_of_mem_tail hp) _) (Nat.sub_le _ _) (by omega)
  have hmatch := Regex.mem_run_iff.mp (List.mem_of_mem_head? hhead)
  have hzero : p.2.Matches 0 (w ++ s') s' := by
    obtain ⟨w', heq, -, hfree⟩ := (fenced_patterns engine p hp).exists_word hmatch
    rw [heq]
    exact hfree 0 s'
  simp only [patterns, List.drop_succ_cons, List.drop_zero, List.mem_cons, List.not_mem_nil,
    or_false] at hp
  rcases hp with rfl | rfl | rfl | rfl
  · have hlong := @leading_jwt engine _ _ _ hmatch
    omega
  · have hlong := @leading_privateKey engine _ _ _ hmatch
    exact ⟨u, w ++ s', s', rfl, hu, hroom, Or.inl ⟨hzero, by omega⟩⟩
  · have hlong := @leading_githubToken engine _ _ _ hmatch
    omega
  · have hlong := leading_genericBearer hmatch
    have hends : Ends engine s'.head? :=
      (((Regex.greedy_many _ _).seq _).seq _) _ _ _ hhead
    exact ⟨u, w ++ s', s', rfl, hu, hroom, Or.inr ⟨hzero, by omega, Or.inl hends⟩⟩

theorem AssignmentStands.before {p : String × Regex Char} (hp : p ∈ (patterns engine).drop 2)
    (h : AssignmentStands engine (p.2.sub stars text)) : AssignmentStands engine text := by
  obtain ⟨pre, a, post, heq, ha, hpost⟩ := h
  obtain ⟨pre', post', htext, hright, -⟩ :=
    exists_word_before (List.mem_of_mem_drop hp) ha.apart heq
  refine ⟨pre', a, post', htext, ha, ?_⟩
  rcases hpost with hle | hstretched
  · by_cases hlong : 20 ≤ leading (notSpace engine) post'
    · exact Or.inl hlong
    · exact Or.inr (stretched_of_pass hp hright hle (by omega))
  · refine Or.inr (hstretched.before hright (fun n s o hn hpass hle ↦ ?_) fun s o hpass hfront ↦ ?_)
    · exact hpass.le_leading (six_le_leading (List.mem_of_mem_tail hp) _) hn hle
    · rcases front_of_pass hpass hfront with hends | hfresh | ⟨t, hmatch⟩
      · exact Or.inl hends
      · exact Or.inr hfresh
      · exact Or.inr (fresh_of_matches hp hmatch)

theorem leading_eq_zero {p : Char → Bool} (h : ∀ c, s.head? = some c → p c = false) :
    leading p s = 0 := by
  rcases s with _ | ⟨c, s⟩
  · rfl
  · exact Regex.leading_cons_of_neg (Bool.eq_false_iff.mp (h c rfl)) s

/-- The turn of the secret keys makes a value long enough only by replacing another assignment. -/
theorem doubled_of_pass (h : Pass len (awsSecretKey engine) stars s o [])
    (ho : 20 ≤ leading (notSpace engine) o) (hs : leading (notSpace engine) s < 20) :
    Doubled engine (fun n t ↦ n ≤ leading (notSpace engine) t) s := by
  obtain ⟨u, w, s', o', rfl, hu, hhead, rfl, hpass⟩ := h.exists_put_of_leading_lt ho hs
  rw [Regex.leading_append hu] at ho hs
  rw [leading_stars] at ho
  have hmatch := Regex.mem_run_iff.mp (List.mem_of_mem_head? hhead)
  have hlong := ten_le_leading_awsSecretKey hmatch
  -- behind a value there is white space, or nothing
  have hzero : leading (notSpace engine) s' = 0 := leading_eq_zero
    (((((Regex.greedy_many _ _).seq _).seq _).seq _).seq _ _ _ _ hhead)
  have hnext : leading (notSpace engine) o' = 0 := by
    have hle : min 10 (leading (notSpace engine) o') ≤ leading (notSpace engine) s' :=
      hpass.le_leading (fun _ _ ↦ ten_le_leading_awsSecretKey) (min_le_left _ _) (min_le_right _ _)
    omega
  obtain ⟨m, hassign, b, rfl, hspace, hlo, -⟩ := matches_awsSecretKey_iff.mp hmatch
  obtain ⟨a, heq, ha⟩ := exists_isAssignment hassign
  rw [heq] at hs ⊢
  refine ⟨u, a, b ++ s', rfl, hu, ⟨by omega, by rw [heq] at hlong; omega⟩, ha, ?_, ?_⟩
  · by_contra hnone
    push Not at hnone
    rw [Regex.leading_append fun c hc ↦ Bool.ne_false_iff.mp (hnone c hc),
      Regex.leading_append hspace] at hs
    omega
  · have hvalue : 20 ≤ leading (notSpace engine) (b ++ s') := by
      rw [Regex.leading_append hspace]
      omega
    exact hvalue

/-- The turn of the access keys. -/
theorem exposedAssignment_of_sub {pre a post : List Char} {n : ℕ}
    (heq : (awsAccessKey engine).sub stars text = pre ++ (a ++ post)) (ha : IsAssignment engine a)
    (hpost : Stretched engine (fun n t ↦ n ≤ leading (notSpace engine) t)
        (fun t ↦ Ends engine t.head? ∨ Fresh engine t ∨
          ∃ t', (awsSecretKey engine).Matches n t t') post ∨
      Doubled engine (fun n t ↦ n ≤ leading (notSpace engine) t) post) :
    ExposedAssignment engine text := by
  obtain ⟨pre', post', htext, hright, -⟩ := exists_word_before
    (p := ("AWS Access Key", awsAccessKey engine)) List.mem_cons_self ha.apart heq
  have hroom : ∀ n s o, Pass text.length (awsAccessKey engine) stars s o [] →
      n ≤ leading (notSpace engine) o → Room engine text.length n s := by
    intro n s o hpass hle
    obtain ⟨k, rest, hrun, hk⟩ := exists_run_of_pass hpass
    exact ⟨k, rest, hrun, hle.trans hk⟩
  refine ⟨pre', a, post', htext, ha, ?_⟩
  rcases hpost with hstretched | ⟨u, a', t, rfl, hu, hlength, ha', hspace, hle⟩
  · exact Or.inl (hstretched.before hright (fun n s o _ ↦ hroom n s o)
      fun s o hpass hfront ↦ begins_of_pass hpass hfront)
  · obtain ⟨t', hleft, hright', -⟩ := hright.exists_of_append ha'.apart
    have hlt : u.length < stars.length := hlength.2.trans (by decide)
    exact Or.inr ⟨u, a', t', hleft.eq_of_length_lt hlt, hu, hlength, ha', hspace,
      hroom _ _ _ hright' hle⟩

theorem exposedAssignment_of_occurs
    (h : (awsSecretKey engine).Occurs (redactAll ((patterns engine).map Prod.snd) stars text)) :
    ExposedAssignment engine text := by
  obtain ⟨pre, a, post, heq, ha, hle⟩ := occurs_awsSecretKey_iff.mp h
  rw [redactAll_patterns] at heq
  have hstands : AssignmentStands engine
      ((awsSecretKey engine).sub stars ((awsAccessKey engine).sub stars text)) := by
    refine @Regex.redactAll_induction _ _ _ (((patterns engine).drop 2).map Prod.snd) stars _ ?_
      ⟨pre, a, post, heq, ha, Or.inl hle⟩
    exact List.forall_mem_map.mpr fun p hp _ ↦ AssignmentStands.before hp
  obtain ⟨pre₂, a, post₂, heq₂, ha, hpost₂⟩ := hstands
  have hsecret : ("AWS Secret Key", awsSecretKey engine) ∈ patterns engine :=
    List.mem_cons_of_mem _ List.mem_cons_self
  obtain ⟨pre₁, post₁, heq₁, hright, hnone⟩ := exists_word_before hsecret ha.apart heq₂
  refine exposedAssignment_of_sub (n := ((awsAccessKey engine).sub stars text).length) heq₁ ha ?_
  rcases hpost₂ with hle₂ | hstretched
  · refine Or.inr (doubled_of_pass hright hle₂ ?_)
    -- a value that was long enough would have been replaced
    by_contra hlong
    obtain ⟨t, ht⟩ := exists_matches_awsSecretKey ha (not_lt.mp hlong)
    exact absurd (hnone ▸ Regex.mem_run_iff.mpr ht) List.not_mem_nil
  · refine Or.inl (hstretched.before hright (fun n s o hn hpass hle ↦ ?_)
      fun s o hpass hfront ↦ front_of_pass hpass hfront)
    exact hpass.le_leading (six_le_leading (p := ("AWS Secret Key", awsSecretKey engine))
      List.mem_cons_self _) hn hle

end

/-! ## Completeness -/

theorem IsKey.count_eq {k : List Char} (hk : IsKey k) : 2 ≤ k.count 'A' := by
  obtain ⟨u, rfl | rfl, -⟩ := hk
  · rw [List.count_append]
    exact Nat.le_add_right 2 _
  · rw [List.count_append]
    exact Nat.le_add_right 2 _

end Secrets

end ArgusMcp
