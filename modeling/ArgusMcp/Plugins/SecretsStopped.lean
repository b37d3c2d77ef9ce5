import ArgusMcp.Plugins.SecretsCompleteness

/-!
# Requests without secrets

When does a pattern that occurs in the arguments of a tool call not get to the backend? If the plugin
ends the request; or if it redacts the arguments and that works, and the plugins behind it put the
pattern nowhere again. Whether redaction works is a matter of what the arguments are: it only looks at
those that are texts, in Python the last pattern that occurs takes back what the ones before it have
done (`Later`), and of the two patterns for AWS something may be left (`Leaves`).
-/

namespace ArgusMcp

open Regex (leading redactAll)

namespace Secrets

/-! ## Texts that redaction clears -/

/-- The second pattern is behind the first in the table. -/
def Later (engine : SecretsEngine) (p q : String × Regex Char) : Prop :=
  [p.1, q.1].Sublist ((patterns engine).map Prod.fst)

/-- Redaction leaves the pattern, or makes it. -/
def Leaves (engine : SecretsEngine) (p : String × Regex Char) (value : List Char) : Prop :=
  p.1 = "AWS Access Key" ∧ ExposedKey engine value ∨
    p.1 = "AWS Secret Key" ∧ ExposedAssignment engine value

/-- Of a text with nothing that the pattern leaves. In Python no pattern behind it may occur where it
does; and where it does not, the replacement of access keys may not make a secret key. -/
def Clears (engine : SecretsEngine) (p : String × Regex Char) (value : List Char) : Prop :=
  ¬ Leaves engine p value ∧
    (engine = .python →
      (p.2.Occurs value → ∀ q ∈ patterns engine, Later engine p q → ¬ q.2.Occurs value) ∧
        (p.1 = "AWS Secret Key" → ¬ p.2.Occurs value → ¬ Lengthened engine value))

section

variable {engine : SecretsEngine} {value : List Char} {p q : String × Regex Char}

/-- What the turn of one pattern leaves of an access key. -/
theorem exposedKey_of_occurs_sub (hq : q ∈ patterns engine)
    (h : (awsAccessKey engine).Occurs (q.2.sub stars value))
    (hnot : q ∈ (patterns engine).tail → ¬ (awsAccessKey engine).Occurs value) :
    ExposedKey engine value := by
  obtain ⟨pre, k, post, heq, hk, hside, hpost⟩ := occurs_awsAccessKey_iff.mp h
  rcases List.mem_cons.mp hq with rfl | hq'
  · exact exposedKey_of_sub (n := 0) hk heq hside (Or.inl hpost)
  · obtain ⟨pre', post', htext, hside', -, hright, -⟩ := exists_key_before hq hk heq hside
    refine ⟨pre', k, post', htext, hk, hside', ?_⟩
    by_cases hpost' : Side post'.head?
    · exact absurd (occurs_awsAccessKey_iff.mpr ⟨pre', k, post', htext, hk, hside', hpost'⟩)
        (hnot hq')
    · refine Or.inr ⟨hpost', Or.inl ?_⟩
      rcases front_of_pass hright (Or.inl hpost) with hside | ⟨r, hr, t, hmatch⟩ | ⟨t, hmatch⟩
      · exact absurd hside hpost'
      · obtain ⟨w, rfl, -, hfree⟩ := (fenced_patterns engine r hr).exists_word hmatch
        exact ⟨r, List.mem_of_mem_drop hr, t, hfree _ t⟩
      · exact ⟨q, hq, t, hmatch⟩

theorem room_of_le_leading {len n : ℕ} {t : List Char} (h : n ≤ leading (notSpace engine) t) :
    Room engine len n t := by
  obtain ⟨rest, hrun⟩ := @exists_run_leading engine len t
  exact ⟨_, rest, hrun, h⟩

/-- What the turn of one pattern makes a secret key. -/
theorem exposedAssignment_of_occurs_sub (hq : q ∈ (patterns engine).tail)
    (h : (awsSecretKey engine).Occurs (q.2.sub stars value))
    (hnot : q ∈ (patterns engine).drop 2 → ¬ (awsSecretKey engine).Occurs value) :
    ExposedAssignment engine value := by
  obtain ⟨pre, a, post, heq, ha, hle⟩ := occurs_awsSecretKey_iff.mp h
  obtain ⟨pre', post', htext, hright, hnone⟩ :=
    exists_word_before (List.mem_of_mem_tail hq) ha.apart heq
  refine ⟨pre', a, post', htext, ha, ?_⟩
  rcases List.mem_cons.mp hq with rfl | hdrop
  · refine Or.inr ?_
    have hshort : leading (notSpace engine) post' < 20 := by
      by_contra hlong
      obtain ⟨t, ht⟩ := exists_matches_awsSecretKey ha (not_lt.mp hlong)
      exact absurd (hnone ▸ Regex.mem_run_iff.mpr ht) List.not_mem_nil
    obtain ⟨u, a', t, hpost', hu, hlength, ha', hspace, hroom⟩ := doubled_of_pass hright hle hshort
    exact ⟨u, a', t, hpost', hu, hlength, ha', hspace, room_of_le_leading hroom⟩
  · refine Or.inl ?_
    have hshort : leading (notSpace engine) post' < 20 := by
      by_contra hlong
      exact hnot hdrop (occurs_awsSecretKey_iff.mpr ⟨pre', a, post', htext, ha, not_lt.mp hlong⟩)
    refine (stretched_of_pass hdrop hright hle hshort).imp (fun _ _ ↦ room_of_le_leading) ?_
    rintro t (hends | ⟨r, hr, t', hmatch⟩)
    · exact Or.inl hends
    · obtain ⟨w, rfl, -, hfree⟩ := (fenced_patterns engine r hr).exists_word hmatch
      exact Or.inr (Or.inl ⟨r, List.mem_of_mem_drop hr, t', hfree _ t'⟩)

/-- In Python the last pattern that occurs has been replaced, and nothing else. -/
theorem not_occurs_sub_of_clears (hp : p ∈ patterns .python) (h : Clears .python p value)
    (hq : q ∈ patterns .python) (hoccurs : q.2.Occurs value)
    (hlast : ∀ r ∈ patterns .python, r.2.Occurs value → r = q ∨ Later .python r q) :
    ¬ p.2.Occurs (q.2.sub stars value) := by
  obtain ⟨hleaves, hpython⟩ := h
  obtain ⟨hlater, hmade⟩ := hpython rfl
  have hsame : p.2.Occurs value → p = q := fun hp' ↦
    (hlast p hp hp').resolve_right fun hbehind ↦ hlater hp' q hq hbehind hoccurs
  intro hleft
  rcases List.mem_cons.mp hp with rfl | hp'
  · refine hleaves (Or.inl ⟨rfl, exposedKey_of_occurs_sub hq hleft fun htail hkey ↦ ?_⟩)
    rw [← hsame hkey] at htail
    exact absurd (List.mem_map_of_mem htail) (by decide : "AWS Access Key" ∉
      (patterns .python).tail.map Prod.fst)
  · rcases List.mem_cons.mp hp' with rfl | hdrop
    · have hnot : q ∈ (patterns .python).drop 2 → ¬ (awsSecretKey .python).Occurs value := by
        intro hdrop hsecret
        rw [← hsame hsecret] at hdrop
        exact absurd (List.mem_map_of_mem hdrop) (by decide : "AWS Secret Key" ∉
          ((patterns .python).drop 2).map Prod.fst)
      rcases List.mem_cons.mp hq with rfl | hq'
      · refine hmade rfl (fun hsecret ↦ ?_) (lengthened_of_occurs hleft)
        exact absurd (congrArg Prod.fst (hsame hsecret)) (by decide)
      · exact hleaves (Or.inr ⟨rfl, exposedAssignment_of_occurs_sub hq' hleft hnot⟩)
    · have hfenced := fenced_patterns .python p hdrop
      have hvalue := hfenced.occurs_of_occurs_sub (consumes_patterns .python q hq) hleft
      rw [← hsame hvalue] at hleft
      exact Regex.not_occurs_sub hfenced.consumes hfenced.anchorFree hfenced.left hfenced.right
        hfenced.mid value hleft

end

theorem not_occurs_redact {engine : SecretsEngine} {p : String × Regex Char}
    (hp : p ∈ patterns engine) {value : String} (h : Clears engine p value.toList) :
    ¬ p.2.Occurs (redact engine value).toList := by
  rcases engine with _ | _
  · rw [← pythonPath_eq_redact]
    rcases exists_last (fun q : String × Regex Char ↦ q.2.Occurs value.toList) (patterns .python)
      with hnone | ⟨before, q, after, hsplit, hq, hafter⟩
    · rw [pythonPath, foldl_of_not_occurs hnone]
      exact hnone p hp
    · rw [pythonPath_of_last hsplit hq hafter, toList_replace]
      refine not_occurs_sub_of_clears hp h ?_ hq fun r hr hoccurs ↦ ?_
      · rw [hsplit]
        exact List.mem_append_right _ List.mem_cons_self
      · rw [hsplit] at hr
        rcases List.mem_append.mp hr with hr | hr
        · refine Or.inr ?_
          rw [Later, hsplit, List.map_append, List.map_cons]
          exact (List.singleton_sublist.mpr (List.mem_map_of_mem hr)).append
            ((List.nil_sublist _).cons_cons q.1)
        · exact Or.inl ((List.mem_cons.mp hr).resolve_right fun hr ↦ hafter r hr hoccurs)
  · have heq : redact .rust value = redactRust .rust value := rfl
    rw [heq, toList_redactRust]
    intro hoccurs
    rcases List.mem_cons.mp hp with rfl | hp'
    · exact h.1 (Or.inl ⟨rfl, exposedKey_of_occurs hoccurs⟩)
    · rcases List.mem_cons.mp hp' with rfl | hdrop
      · exact h.1 (Or.inr ⟨rfl, exposedAssignment_of_occurs hoccurs⟩)
      · exact (fenced_patterns .rust p hdrop).not_occurs_redactAll
          (List.forall_mem_map.mpr (consumes_patterns .rust)) (List.mem_map_of_mem hp) _ hoccurs

/-! ## Arguments -/

variable {O : Type}

/-- The pattern occurs in texts only that redaction clears of it: in no name of an argument, and in
no list or dictionary. -/
def Redactable (engine : SecretsEngine) (p : String × Regex Char) (arguments : Arguments O) : Prop :=
  ∀ a ∈ arguments, ¬ p.2.Occurs a.1.toList ∧
    match a.2 with
    | .str value => Clears engine p value.toList
    | v => ∀ text ∈ v.texts, ¬ p.2.Occurs text.toList

theorem not_leaks_redacted {engine : SecretsEngine} {p : String × Regex Char}
    (hp : p ∈ patterns engine) {arguments : Arguments O} (h : Redactable engine p arguments) :
    ¬ Leaks p.2 (redacted engine arguments) := by
  rintro ⟨text, htext, hoccurs⟩
  obtain ⟨b, hb, hcases⟩ := mem_textsDict_iff.mp htext
  obtain ⟨⟨key, v⟩, ha, rfl⟩ := List.mem_map.mp hb
  obtain ⟨hkey, hvalue⟩ := h _ ha
  rcases hcases with rfl | hmem
  · exact hkey hoccurs
  · rcases v with _ | b | n | value | l | d | o
    case str =>
      obtain rfl := List.mem_singleton.mp hmem
      exact not_occurs_redact hp hvalue hoccurs
    all_goals exact hvalue text hmem hoccurs

/-! ## The plugin among others -/

section Chain

variable [PyObject O] (engine : SecretsEngine) (config : PluginConfig O) (p : String × Regex Char)
  (classes : String → Option (PluginConfig O → Except Exc (Plugin O))) (cfg : ArgusConfig O)

/-- The plugin puts the pattern into no arguments in which it does not occur. -/
def Keeps (plugin : Plugin O) : Prop :=
  ∀ pctx c c', ¬ Leaks p.2 c.arguments → passPlugin .toolPreInvoke pctx c plugin = .ok c' →
    ¬ Leaks p.2 c'.arguments

/-- The arguments that the plugin is given are none for it to pass on: it ends the request; or it
redacts them, and that works; or it leaves them alone, and the pattern does not occur in them. -/
def Handles (pctx : PluginContext O) (arguments : Arguments O) : Prop :=
  if (secretsDetectionPlugin engine config).applies pctx && !blocks config then
    Redactable engine p arguments
  else ¬ Leaks p.2 arguments

/-- The plugins have been loaded. What the ones before hand to the one that looks for secrets ends
the request there, or is handled there and kept by the ones behind. -/
def Guarded (pctx : PluginContext O) : Prop :=
  ∃ plugins, cfg.loadPlugins classes = some plugins ∧ ∀ before after,
    plugins.getByHook .toolPreInvoke = before ++ secretsDetectionPlugin engine config :: after →
      ∀ c, passPlugins .toolPreInvoke pctx before pctx = .ok c →
        Refuses engine config pctx c.arguments ∨
          Handles engine config p pctx c.arguments ∧ ∀ plugin ∈ after, Keeps p plugin

variable {engine config p classes cfg}

omit [PyObject O] in
theorem not_leaks_passPlugins {pctx c c' : PluginContext O} {plugins : List (Plugin O)}
    (hkeeps : ∀ plugin ∈ plugins, Keeps p plugin) (h : ¬ Leaks p.2 c.arguments)
    (hpass : passPlugins .toolPreInvoke pctx plugins c = .ok c') : ¬ Leaks p.2 c'.arguments := by
  induction plugins generalizing c with
  | nil =>
    obtain rfl := Except.ok.inj hpass
    exact h
  | cons plugin plugins ih =>
    obtain ⟨hplugin, hplugins⟩ := List.forall_mem_cons.mp hkeeps
    rw [passPlugins_cons] at hpass
    obtain ⟨c₁, hfirst, hrest⟩ := bind_eq_ok_iff.mp hpass
    exact ih hplugins (hplugin pctx c c₁ h hfirst) hrest

theorem Guarded.caught (hp : p ∈ patterns engine) {pctx : PluginContext O}
    (h : Guarded engine config p classes cfg pctx) :
    Caught engine config p.2 classes cfg pctx := by
  obtain ⟨plugins, hload, hguarded⟩ := h
  refine ⟨plugins, hload, fun before after hsplit c hbefore hrefuses c' hafter ↦ ?_⟩
  obtain ⟨hhandles, hkeeps⟩ := (hguarded before after hsplit c hbefore).resolve_left hrefuses
  refine not_leaks_passPlugins hkeeps ?_ hafter
  rw [Handles] at hhandles
  dsimp only
  rw [left]
  split
  · rename_i hasked
    rw [if_pos hasked] at hhandles
    exact not_leaks_redacted hp hhandles
  · rename_i hasked
    rw [if_neg hasked] at hhandles
    exact hhandles

end Chain

end Secrets

end ArgusMcp
