import Mathlib.Data.List.Basic
import Mathlib.Tactic.Common

/-!
# Reading options

A command line in the usual style. A long option is two dashes and a name. A short one is a dash and
a letter, and several letters may be joined in one token. An option is a switch or has a value. The
value of a long option is in the same token, after an equals sign, or it is the next token, whatever
that is. The value of a short option is what is left of its token, with or without an equals sign,
or the next token if nothing is left. Options end at the first token that is none, or after two
dashes, and all that follows are operands.

Tokens carry a tag, which says where they come from, and an option has the tag of the token that
names it. So one can tell, of what a command line sets, which part of it is responsible
(`token_mem_of_entry`).
-/

namespace ArgusMcp

namespace Options

/-- What an option sets, and whether it has a value. -/
structure Spec (σ : Type) where
  setting : σ
  takesValue : Bool
  deriving DecidableEq

/-- The options of a command. -/
structure Table (σ : Type) where
  long : String → Option (Spec σ)
  short : Char → Option (Spec σ)

/-- An option with its value, where it comes from, and the token that names it. -/
structure Entry (τ σ : Type) where
  tag : τ
  token : String
  setting : σ
  value : String
  deriving DecidableEq

/-- What a token can be where an option may stand: options with their values, the last of them maybe
without, which is the next token then. -/
inductive Token (σ : Type) where
  | operand
  | terminator
  | malformed
  | options (given : List (σ × String)) (unfinished : Option σ)

def switchedOn : String := "true"

variable {τ σ : Type}

/-- The name of a long option, without the dashes. -/
def longName (body : List Char) : String := .ofList (body.takeWhile (· ≠ '='))

def readLong (T : Table σ) (body : List Char) : Token σ :=
  if body.head? ∈ [some '-', some '='] then .malformed
  else
    match T.long (longName body), body.dropWhile (· ≠ '=') with
    | none, _ => .malformed
    | some o, _ :: value => .options [(o.setting, .ofList value)] none
    | some o, [] =>
      if o.takesValue then .options [] (some o.setting)
      else .options [(o.setting, switchedOn)] none

/-- One more option in front of a token's. -/
def Token.cons (o : σ × String) : Token σ → Token σ
  | .options given unfinished => .options (o :: given) unfinished
  | token => token

def readShort (T : Table σ) : List Char → Token σ
  | [] => .options [] none
  | c :: cs =>
    match T.short c, cs with
    | none, _ => .malformed
    | some o, '=' :: v :: vs => .options [(o.setting, .ofList (v :: vs))] none
    | some o, [] =>
      if o.takesValue then .options [] (some o.setting)
      else .options [(o.setting, switchedOn)] none
    | some o, cs =>
      if o.takesValue then .options [(o.setting, .ofList cs)] none
      else (readShort T cs).cons (o.setting, switchedOn)

def readToken (T : Table σ) (token : String) : Token σ :=
  match token.toList with
  | ['-', '-'] => .terminator
  | '-' :: '-' :: body => readLong T body
  | '-' :: c :: cs => readShort T (c :: cs)
  | _ => .operand

/-- How far a command line is read. -/
inductive State (τ σ : Type) where
  | ready
  | awaiting (tag : τ) (token : String) (setting : σ)
  | ended (operands : List String)
  | failed
  deriving DecidableEq

/-- The options that a token completes, and what is to be expected after it. -/
def step (T : Table σ) : State τ σ → τ × String → List (Entry τ σ) × State τ σ
  | .ready, (tag, token) =>
    match readToken T token with
    | .operand => ([], .ended [token])
    | .terminator => ([], .ended [])
    | .malformed => ([], .failed)
    | .options given none => (given.map fun o ↦ ⟨tag, token, o.1, o.2⟩, .ready)
    | .options given (some setting) =>
      (given.map fun o ↦ ⟨tag, token, o.1, o.2⟩, .awaiting tag token setting)
  | .awaiting tag token setting, (_, value) => ([⟨tag, token, setting, value⟩], .ready)
  | .ended operands, (_, token) => ([], .ended (operands ++ [token]))
  | .failed, _ => ([], .failed)

def scan (T : Table σ) : State τ σ → List (τ × String) → List (Entry τ σ) × State τ σ
  | s, [] => ([], s)
  | s, token :: tokens =>
    let first := step T s token
    let rest := scan T first.2 tokens
    (first.1 ++ rest.1, rest.2)

/-- The options and the operands of a command line that can be read. -/
def parse (T : Table σ) (tokens : List (τ × String)) : Option (List (Entry τ σ) × List String) :=
  match scan T .ready tokens with
  | (entries, .ready) => some (entries, [])
  | (entries, .ended operands) => some (entries, operands)
  | (_, .awaiting ..) => none
  | (_, .failed) => none

variable {T : Table σ}

theorem scan_append (s : State τ σ) (front back : List (τ × String)) :
    scan T s (front ++ back) =
      ((scan T s front).1 ++ (scan T (scan T s front).2 back).1,
        (scan T (scan T s front).2 back).2) := by
  induction front generalizing s with
  | nil => rfl
  | cons token front ih =>
    rw [List.cons_append]
    dsimp only [scan]
    rw [ih, List.append_assoc]

/-! ## The tokens that name options -/

/-- What the options of a token set. -/
def Token.settings : Token σ → List σ
  | .options given unfinished => given.map Prod.fst ++ unfinished.toList
  | _ => []

/-- The tokens that are read where an option may stand. -/
def heads (T : Table σ) : State τ σ → List (τ × String) → List (τ × String)
  | _, [] => []
  | .ready, token :: tokens => token :: heads T (step T .ready token).2 tokens
  | s, token :: tokens => heads T (step T s token).2 tokens

theorem step_ready_cases {t : τ × String} {e : Entry τ σ} (h : e ∈ (step T .ready t).1) :
    (e.tag, e.token) = t ∧ e.setting ∈ (readToken T e.token).settings := by
  obtain ⟨tag, token⟩ := t
  dsimp only [step] at h
  split at h
  · exact absurd h List.not_mem_nil
  · exact absurd h List.not_mem_nil
  · exact absurd h List.not_mem_nil
  · rename_i given hread
    obtain ⟨o, ho, rfl⟩ := List.mem_map.mp h
    refine ⟨rfl, ?_⟩
    rw [hread]
    exact List.mem_append_left _ (List.mem_map_of_mem ho)
  · rename_i given setting hread
    obtain ⟨o, ho, rfl⟩ := List.mem_map.mp h
    refine ⟨rfl, ?_⟩
    rw [hread]
    exact List.mem_append_left _ (List.mem_map_of_mem ho)

theorem step_ready_awaiting {t : τ × String} {tag : τ} {token : String} {setting : σ}
    (h : (step T .ready t).2 = .awaiting tag token setting) :
    (tag, token) = t ∧ setting ∈ (readToken T token).settings := by
  obtain ⟨tag', token'⟩ := t
  dsimp only [step] at h
  split at h
  · exact absurd h (by simp)
  · exact absurd h (by simp)
  · exact absurd h (by simp)
  · exact absurd h (by simp)
  · rename_i given setting' hread
    obtain ⟨rfl, rfl, rfl⟩ := State.awaiting.inj h
    refine ⟨rfl, ?_⟩
    rw [hread]
    exact List.mem_append_right _ (by simp)

theorem head_of_entry {s : State τ σ} {tokens : List (τ × String)} {e : Entry τ σ}
    (h : e ∈ (scan T s tokens).1) :
    ((e.tag, e.token) ∈ heads T s tokens ∧ e.setting ∈ (readToken T e.token).settings) ∨
      s = .awaiting e.tag e.token e.setting := by
  induction tokens generalizing s with
  | nil => exact absurd h List.not_mem_nil
  | cons t tokens ih =>
    rcases List.mem_append.mp h with hfirst | hrest
    · cases s with
      | ready =>
        obtain ⟨heq, hsetting⟩ := step_ready_cases hfirst
        exact Or.inl ⟨by rw [heq]; exact List.mem_cons_self, hsetting⟩
      | awaiting tag token setting =>
        obtain rfl := List.mem_singleton.mp hfirst
        exact Or.inr rfl
      | ended operands | failed => exact absurd hfirst List.not_mem_nil
    · rcases ih hrest with ⟨hmem, hsetting⟩ | hawait
      · refine Or.inl ⟨?_, hsetting⟩
        cases s with
        | ready => exact List.mem_cons_of_mem _ hmem
        | awaiting tag token setting | ended operands | failed => exact hmem
      · cases s with
        | ready =>
          obtain ⟨heq, hsetting⟩ := step_ready_awaiting hawait
          exact Or.inl ⟨by rw [heq]; exact List.mem_cons_self, hsetting⟩
        | awaiting tag token setting | ended operands | failed =>
          exact absurd hawait (by simp [step])

/-- A command line can be read if no value is missing at its end, and nothing in it is malformed. -/
def State.Finished : State τ σ → Prop
  | .ready => True
  | .ended _ => True
  | .awaiting .. => False
  | .failed => False

theorem exists_parse_iff {tokens : List (τ × String)} {entries : List (Entry τ σ)} :
    (∃ operands, parse T tokens = some (entries, operands)) ↔
      entries = (scan T .ready tokens).1 ∧ (scan T .ready tokens).2.Finished := by
  rw [parse]
  obtain ⟨read, s⟩ := scan T .ready tokens
  cases s with
  | ready => simp [State.Finished, eq_comm]
  | awaiting tag token setting => simp [State.Finished]
  | ended operands => simp [State.Finished, eq_comm]
  | failed => simp [State.Finished]

theorem heads_sublist (s : State τ σ) (tokens : List (τ × String)) :
    List.Sublist (heads T s tokens) tokens := by
  induction tokens generalizing s with
  | nil => cases s <;> exact List.Sublist.refl _
  | cons t tokens ih =>
    cases s with
    | ready => exact (ih _).cons_cons t
    | awaiting tag token setting | ended operands | failed => exact (ih _).cons t

theorem entry_of_head {s : State τ σ} {tokens : List (τ × String)} {t : τ × String} {setting : σ}
    (h : t ∈ heads T s tokens) (hsetting : setting ∈ (readToken T t.2).settings)
    (hfinished : (scan T s tokens).2.Finished) :
    ∃ e ∈ (scan T s tokens).1, e.tag = t.1 ∧ e.token = t.2 ∧ e.setting = setting := by
  induction tokens generalizing s with
  | nil => exact absurd h (by cases s <;> exact List.not_mem_nil)
  | cons t' tokens ih =>
    have hlater : t ∈ heads T (step T s t').2 tokens →
        ∃ e ∈ (scan T s (t' :: tokens)).1, e.tag = t.1 ∧ e.token = t.2 ∧ e.setting = setting := by
      intro hmem
      obtain ⟨e, he, hrest⟩ := ih hmem hfinished
      exact ⟨e, List.mem_append_right _ he, hrest⟩
    cases s with
    | awaiting tag token setting | ended operands | failed => exact hlater h
    | ready =>
      rcases List.mem_cons.mp h with rfl | hmem
      · obtain ⟨tag, token⟩ := t
        dsimp only [scan, step] at hfinished ⊢
        dsimp only at hsetting
        cases hread : readToken T token with
        | operand | terminator | malformed =>
          rw [hread] at hsetting; exact absurd hsetting List.not_mem_nil
        | options given unfinished =>
          rw [hread] at hsetting hfinished
          rcases List.mem_append.mp hsetting with hgiven | hunfinished
          · obtain ⟨o, ho, rfl⟩ := List.mem_map.mp hgiven
            refine ⟨⟨tag, token, o.1, o.2⟩, List.mem_append_left _ ?_, rfl, rfl, rfl⟩
            cases unfinished with
            | none | some _ => exact List.mem_map_of_mem ho
          · obtain rfl := Option.mem_toList.mp hunfinished
            -- the value is the next token, which there is
            cases tokens with
            | nil => exact absurd hfinished id
            | cons next tokens =>
              refine ⟨⟨tag, token, setting, next.2⟩, List.mem_append_right _ ?_, rfl, rfl, rfl⟩
              exact List.mem_cons_self
      · exact hlater hmem

/-! ## What a token sets -/

theorem readToken_operand {token : String} (h : token.toList.head? ≠ some '-') :
    readToken T token = .operand := by
  rcases hchars : token.toList with _ | ⟨c, cs⟩
  · rw [readToken, hchars]
  · have hc : c ≠ '-' := by
      rintro rfl
      exact h (by rw [hchars]; rfl)
    rw [readToken, hchars]
    simp [hc]

theorem readToken_long {token : String} {body : List Char}
    (h : token.toList = '-' :: '-' :: body) (hbody : body ≠ []) :
    readToken T token = readLong T body := by
  obtain ⟨c, cs, rfl⟩ := List.exists_cons_of_ne_nil hbody
  rw [readToken, h]
  rfl

theorem setting_of_long {token : String} {body : List Char} {setting : σ}
    (h : token.toList = '-' :: '-' :: body) (hs : setting ∈ (readToken T token).settings) :
    ∃ o, T.long (longName body) = some o ∧ o.setting = setting := by
  cases body with
  | nil =>
    rw [readToken, h] at hs
    exact absurd hs List.not_mem_nil
  | cons c cs =>
    rw [readToken_long h (List.cons_ne_nil c cs), readLong] at hs
    split at hs
    · exact absurd hs List.not_mem_nil
    · split at hs
      · exact absurd hs List.not_mem_nil
      · rename_i o _ value hlong _
        exact ⟨o, hlong, (List.mem_singleton.mp hs).symm⟩
      · rename_i o hlong _
        refine ⟨o, hlong, ?_⟩
        split at hs
        · exact (List.mem_singleton.mp hs).symm
        · exact (List.mem_singleton.mp hs).symm

theorem long_or_short {token : String} {setting : σ} (h : setting ∈ (readToken T token).settings) :
    (∃ body, token.toList = '-' :: '-' :: body) ∨
      ∃ letters, token.toList = '-' :: letters ∧ letters.head? ≠ some '-' ∧
        readToken T token = readShort T letters := by
  rw [readToken] at h ⊢
  split at h
  · exact absurd h List.not_mem_nil
  · rename_i body _ heq
    exact Or.inl ⟨body, heq⟩
  · rename_i c cs _ hne heq
    refine Or.inr ⟨c :: cs, heq, ?_, rfl⟩
    rintro hc
    exact hne (Option.some.inj hc)
  · exact absurd h List.not_mem_nil

theorem settings_cons (o : σ × String) (token : Token σ) :
    (token.cons o).settings ⊆ o.1 :: token.settings := by
  cases token with
  | options given unfinished => exact List.Subset.refl _
  | operand | terminator | malformed => exact List.nil_subset _

theorem setting_of_short {letters : List Char} {setting : σ}
    (hs : setting ∈ (readShort T letters).settings) :
    ∃ c ∈ letters, ∃ o, T.short c = some o ∧ o.setting = setting := by
  induction letters with
  | nil => exact absurd hs List.not_mem_nil
  | cons c cs ih =>
    rw [readShort.eq_def] at hs
    dsimp only at hs
    split at hs
    · exact absurd hs List.not_mem_nil
    · rename_i o v vs hshort
      exact ⟨c, List.mem_cons_self, o, hshort, (List.mem_singleton.mp hs).symm⟩
    · rename_i o hshort
      refine ⟨c, List.mem_cons_self, o, hshort, ?_⟩
      split at hs
      · exact (List.mem_singleton.mp hs).symm
      · exact (List.mem_singleton.mp hs).symm
    · rename_i o hshort _ _
      split at hs
      · exact ⟨c, List.mem_cons_self, o, hshort, (List.mem_singleton.mp hs).symm⟩
      · rcases List.mem_cons.mp (settings_cons _ _ hs) with rfl | hrest
        · exact ⟨c, List.mem_cons_self, o, hshort, rfl⟩
        · obtain ⟨c', hc', hfound⟩ := ih hrest
          exact ⟨c', List.mem_cons_of_mem _ hc', hfound⟩

theorem scan_ended (operands : List String) (tokens : List (τ × String)) :
    scan T (.ended operands) tokens = ([], .ended (operands ++ tokens.map Prod.snd)) := by
  induction tokens generalizing operands with
  | nil => simp [scan]
  | cons token tokens ih =>
    dsimp only [scan, step]
    rw [ih, List.map_cons, List.append_assoc]
    rfl

/-! ## Command lines that are put together -/

/-- Tokens that are options as they stand, wherever options are read. -/
def Reads (T : Table σ) (tokens : List String) (options : List (String × σ × String)) : Prop :=
  ∀ (τ : Type) (tag : τ), scan T .ready (tokens.map fun t ↦ (tag, t)) =
    (options.map fun o ↦ ⟨tag, o.1, o.2.1, o.2.2⟩, .ready)

theorem Reads.nil : Reads T [] [] := fun _ _ ↦ rfl

theorem Reads.append {front back : List String} {options options' : List (String × σ × String)}
    (h : Reads T front options) (h' : Reads T back options') :
    Reads T (front ++ back) (options ++ options') := by
  intro τ tag
  rw [List.map_append, scan_append, h τ tag]
  dsimp only
  rw [h' τ tag, List.map_append]

theorem Reads.flatMap {α : Type} {f : α → List String} {g : α → List (String × σ × String)}
    (h : ∀ a, Reads T (f a) (g a)) (l : List α) : Reads T (l.flatMap f) (l.flatMap g) := by
  induction l with
  | nil => exact .nil
  | cons a l ih => exact (h a).append ih

theorem Reads.valued {token value : String} {setting : σ} {tokens : List String}
    {options : List (String × σ × String)} (h : readToken T token = .options [] (some setting))
    (hrest : Reads T tokens options) :
    Reads T (token :: value :: tokens) ((token, setting, value) :: options) := by
  intro τ tag
  rw [List.map_cons, List.map_cons, List.map_cons]
  dsimp only [scan, step]
  rw [h]
  dsimp only [step]
  rw [hrest τ tag]
  rfl

theorem Reads.switch {token value : String} {setting : σ} {tokens : List String}
    {options : List (String × σ × String)}
    (h : readToken T token = .options [(setting, value)] none) (hrest : Reads T tokens options) :
    Reads T (token :: tokens) ((token, setting, value) :: options) := by
  intro τ tag
  rw [List.map_cons, List.map_cons]
  dsimp only [scan, step]
  rw [h]
  dsimp only
  rw [hrest τ tag]
  rfl

end Options

end ArgusMcp
