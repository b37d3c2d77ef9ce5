import Mathlib.Data.List.Basic
import Mathlib.Tactic.Common

/-!
# Dialogues

Programs that talk to a world which may answer anything. What a program does is recorded in events:
a question with its answer is one, and so is whatever else is worth recording. A program is a
function of the events so far; it comes to a result or an exception, and to the events it adds. The
world is in the programs that ask, and its answers may depend on everything before.

A statement about a program is a relation between what it comes to and the events it adds, whatever
came before (`Ensures`). Two kinds of statements have rules of their own. A program *blames* its
events if it fails, in a way that matters, exactly if one of them was bad (`Blames`). A program *owes*
if it does a thing exactly if it had to do it from the start, or if an event of its own asks for it
(`Owes`).
-/

namespace ArgusMcp

namespace Dialogue

/-- A program with events in `η`, exceptions in `ε` and results in `α`. -/
abbrev Prog (η ε α : Type*) := List η → Except ε α × List η

variable {η ε α β γ : Type*}

/-! ## Programs -/

def ret (a : α) : Prog η ε α := fun _ ↦ (.ok a, [])

def raise (e : ε) : Prog η ε α := fun _ ↦ (.error e, [])

/-- A question, and its answer to what came before. -/
def ask (answer : List η → Except ε α) (event : Except ε α → η) : Prog η ε α :=
  fun past ↦ (answer past, [event (answer past)])

/-- A computation that does not ask. -/
def lift (x : Except ε α) : Prog η ε α := fun _ ↦ (x, [])

/-- A computation that does not ask, with what it is about recorded. -/
def record (event : η) (x : Except ε α) : Prog η ε α := fun _ ↦ (x, [event])

def bind (m : Prog η ε α) (f : α → Prog η ε β) : Prog η ε β := fun past ↦
  match m past with
  | (.ok a, new) => ((f a (past ++ new)).1, new ++ (f a (past ++ new)).2)
  | (.error e, new) => (.error e, new)

/-- Exceptions for which the handler has a result are caught. -/
def handle (m : Prog η ε α) (handler : ε → Option α) : Prog η ε α := fun past ↦
  match m past with
  | (.ok a, new) => (.ok a, new)
  | (.error e, new) =>
    match handler e with
    | some a => (.ok a, new)
    | none => (.error e, new)

theorem bind_lift_ok (a : α) (f : α → Prog η ε β) : bind (lift (.ok a)) f = f a := by
  funext past
  rw [bind, lift]
  simp

theorem bind_lift_error (e : ε) (f : α → Prog η ε β) : bind (lift (.error e)) f = raise e := rfl

/-! ## What programs ensure -/

/-- Whatever came before, what the program comes to and the events it adds are so related. -/
def Ensures (m : Prog η ε α) (Q : Except ε α → List η → Prop) : Prop :=
  ∀ past, Q (m past).1 (m past).2

theorem Ensures.mono {m : Prog η ε α} {Q R : Except ε α → List η → Prop} (h : Ensures m Q)
    (hQR : ∀ r new, Q r new → R r new) : Ensures m R :=
  fun past ↦ hQR _ _ (h past)

theorem ensures_ret {a : α} {Q : Except ε α → List η → Prop} (h : Q (.ok a) []) :
    Ensures (ret a) Q :=
  fun _ ↦ h

theorem ensures_raise {e : ε} {Q : Except ε α → List η → Prop} (h : Q (.error e) []) :
    Ensures (raise e) Q :=
  fun _ ↦ h

theorem ensures_lift {x : Except ε α} {Q : Except ε α → List η → Prop} (h : Q x []) :
    Ensures (lift x) Q :=
  fun _ ↦ h

theorem ensures_record {event : η} {x : Except ε α} {Q : Except ε α → List η → Prop}
    (h : Q x [event]) : Ensures (record event x) Q :=
  fun _ ↦ h

theorem ensures_ask {answer : List η → Except ε α} {event : Except ε α → η}
    {Q : Except ε α → List η → Prop} (h : ∀ r, Q r [event r]) : Ensures (ask answer event) Q :=
  fun past ↦ h (answer past)

/-- **One program after another.** -/
theorem ensures_bind {m : Prog η ε α} {f : α → Prog η ε β} {Q : Except ε α → List η → Prop}
    {R : Except ε β → List η → Prop} (hm : Ensures m Q)
    (hok : ∀ a new, Q (.ok a) new → Ensures (f a) fun r new' ↦ R r (new ++ new'))
    (herror : ∀ e new, Q (.error e) new → R (.error e) new) : Ensures (bind m f) R := by
  intro past
  have hpast := hm past
  rw [bind]
  rcases hrun : m past with ⟨_ | _, new⟩
  · rw [hrun] at hpast
    exact herror _ _ hpast
  · rw [hrun] at hpast
    exact hok _ _ hpast _

theorem ensures_handle {m : Prog η ε α} {handler : ε → Option α} {Q R : Except ε α → List η → Prop}
    (hm : Ensures m Q) (hok : ∀ a new, Q (.ok a) new → R (.ok a) new)
    (hcaught : ∀ e a new, Q (.error e) new → handler e = some a → R (.ok a) new)
    (hraised : ∀ e new, Q (.error e) new → handler e = none → R (.error e) new) :
    Ensures (handle m handler) R := by
  intro past
  have hpast := hm past
  rw [handle]
  rcases hrun : m past with ⟨e | a, new⟩
  · rw [hrun] at hpast
    dsimp only
    rcases hhandler : handler e with _ | a
    · exact hraised e new hpast hhandler
    · exact hcaught e a new hpast hhandler
  · rw [hrun] at hpast
    exact hok a new hpast

/-! ## What programs add -/

/-- The program adds an event with the property. -/
def Adds (P : η → Prop) (m : Prog η ε α) : Prop := Ensures m fun _ new ↦ ∃ x ∈ new, P x

section Adds

variable {P : η → Prop}

theorem adds_ask {answer : List η → Except ε α} {event : Except ε α → η} (h : ∀ r, P (event r)) :
    Adds P (ask answer event) :=
  ensures_ask fun r ↦ ⟨_, List.mem_singleton_self _, h r⟩

theorem adds_bind {m : Prog η ε α} {f : α → Prog η ε β} (hm : Adds P m) : Adds P (bind m f) := by
  refine ensures_bind hm (fun a new hnew ↦ ?_) fun e new hnew ↦ hnew
  obtain ⟨x, hx, hP⟩ := hnew
  exact fun _ ↦ ⟨x, List.mem_append_left _ hx, hP⟩

theorem adds_handle {m : Prog η ε α} {handler : ε → Option α} (hm : Adds P m) :
    Adds P (handle m handler) :=
  ensures_handle hm (fun _ _ h ↦ h) (fun _ _ _ h _ ↦ h) fun _ _ h _ ↦ h

end Adds

/-! ## Programs that blame their events -/

def Hard (soft : ε → Bool) (r : Except ε α) : Prop := ∃ e, r = .error e ∧ soft e = false

/-- The program fails hard exactly if it adds a bad event. -/
def Blames (soft : ε → Bool) (Bad : η → Prop) (m : Prog η ε α) : Prop :=
  Ensures m fun r new ↦ Hard soft r ↔ ∃ x ∈ new, Bad x

section Blames

variable {soft : ε → Bool} {Bad : η → Prop}

theorem not_hard_ok {a : α} : ¬ Hard soft (.ok a : Except ε α) := by
  rintro ⟨e, he, -⟩
  exact absurd he (by simp)

theorem hard_error_iff {e : ε} : Hard soft (.error e : Except ε α) ↔ soft e = false := by
  constructor
  · rintro ⟨e', he, hsoft⟩
    exact Except.error.inj he ▸ hsoft
  · exact fun h ↦ ⟨e, rfl, h⟩

instance : DecidablePred (Hard soft : Except ε α → Prop)
  | .ok _ => isFalse not_hard_ok
  | .error _ => decidable_of_iff _ hard_error_iff.symm

theorem blames_ret {a : α} : Blames soft Bad (ret a : Prog η ε α) :=
  ensures_ret (iff_of_false not_hard_ok (by simp))

theorem blames_ask {answer : List η → Except ε α} {event : Except ε α → η}
    (h : ∀ r, Hard soft r ↔ Bad (event r)) : Blames soft Bad (ask answer event) :=
  ensures_ask fun r ↦ by simpa using h r

theorem blames_record {event : η} {x : Except ε α} (h : Hard soft x ↔ Bad event) :
    Blames soft Bad (record event x) :=
  ensures_record (by simpa using h)

theorem blames_bind {m : Prog η ε α} {f : α → Prog η ε β} (hm : Blames soft Bad m)
    (hf : ∀ a, Blames soft Bad (f a)) : Blames soft Bad (bind m f) := by
  refine ensures_bind hm (fun a new hnew ↦ (hf a).mono fun r new' hnew' ↦ ?_) fun e new hnew ↦ ?_
  · rw [hnew']
    constructor
    · rintro ⟨x, hx, hbad⟩
      exact ⟨x, List.mem_append_right _ hx, hbad⟩
    · rintro ⟨x, hx, hbad⟩
      rcases List.mem_append.mp hx with hx | hx
      · exact absurd (hnew.mpr ⟨x, hx, hbad⟩) not_hard_ok
      · exact ⟨x, hx, hbad⟩
  · rw [hard_error_iff]
    exact hard_error_iff.symm.trans hnew

theorem blames_record_bind {event : η} {x : Except ε α} {f : α → Prog η ε β}
    (h : Hard soft x ↔ Bad event) (hf : ∀ a, x = .ok a → Blames soft Bad (f a)) :
    Blames soft Bad (bind (record event x) f) := by
  refine ensures_bind (Q := fun r new ↦ r = x ∧ new = [event]) (ensures_record ⟨rfl, rfl⟩)
    (fun a new hQ ↦ ?_) fun e new hQ ↦ ?_
  · obtain ⟨hx, rfl⟩ := hQ
    have hfine : ¬ Bad event := by
      rw [← h, ← hx]
      exact not_hard_ok
    refine (hf a hx.symm).mono fun r new' hnew' ↦ ?_
    simpa [hfine] using hnew'
  · obtain ⟨hx, rfl⟩ := hQ
    rw [hard_error_iff, ← hard_error_iff (α := α), hx, h]
    simp

theorem blames_handle {m : Prog η ε α} {handler : ε → Option α} (hm : Blames soft Bad m)
    (hhandler : ∀ e, (handler e).isSome = soft e) :
    Blames (fun _ ↦ false) Bad (handle m handler) := by
  refine ensures_handle hm (fun a new h ↦ ?_) (fun e a new h hcaught ↦ ?_) fun e new h hnone ↦ ?_
  · exact iff_of_false not_hard_ok fun hbad ↦ not_hard_ok (h.mpr hbad)
  · have hsoft : soft e = true := by rw [← hhandler e, hcaught, Option.isSome_some]
    refine iff_of_false not_hard_ok fun hbad ↦ ?_
    rw [← h, hard_error_iff, hsoft] at hbad
    exact Bool.false_ne_true hbad.symm
  · have hsoft : soft e = false := by rw [← hhandler e, hnone, Option.isSome_none]
    exact iff_of_true (hard_error_iff.mpr rfl) (h.mp (hard_error_iff.mpr hsoft))

end Blames

/-! ## Programs that owe -/

theorem exists_mem_append {P : η → Prop} {new new' : List η} :
    (∃ x ∈ new ++ new', P x) ↔ (∃ x ∈ new, P x) ∨ ∃ x ∈ new', P x := by
  simp only [List.mem_append, or_and_right, exists_or]

/-- The program does what is asked for exactly if it had to do it from the start, or if one of its own
events asks for it. -/
def Owes (Asks Does : η → Prop) (debt : Prop) (m : Prog η ε α) : Prop :=
  Ensures m fun _ new ↦ (∃ x ∈ new, Does x) ↔ (debt ∨ ∃ x ∈ new, Asks x)

section Owes

variable {Asks Does : η → Prop} {debt : Prop}

theorem owes_of_no_event {m : Prog η ε α} (hdebt : ¬ debt) (h : Ensures m fun _ new ↦ new = []) :
    Owes Asks Does debt m := by
  refine h.mono fun r new hnew ↦ ?_
  rw [hnew]
  simpa using hdebt

theorem owes_ret {a : α} (hdebt : ¬ debt) : Owes Asks Does debt (ret a : Prog η ε α) :=
  owes_of_no_event hdebt (ensures_ret rfl)

theorem owes_raise {e : ε} (hdebt : ¬ debt) : Owes Asks Does debt (raise e : Prog η ε α) :=
  owes_of_no_event hdebt (ensures_raise rfl)

theorem owes_lift {x : Except ε α} (hdebt : ¬ debt) : Owes Asks Does debt (lift x : Prog η ε α) :=
  owes_of_no_event hdebt (ensures_lift rfl)

theorem owes_ask {answer : List η → Except ε α} {event : Except ε α → η}
    (hasks : ∀ r, ¬ Asks (event r)) (hdoes : ∀ r, Does (event r) ↔ debt) :
    Owes Asks Does debt (ask answer event) := by
  refine ensures_ask fun r ↦ ?_
  simp [hasks r, hdoes r]

theorem owes_record_bind {event : η} {x : Except ε α} {f : α → Prog η ε β} (hdoes : ¬ Does event)
    (hdebt : ¬ debt) (hok : ∀ a, x = .ok a → Owes Asks Does (Asks event) (f a))
    (herror : ∀ e, x = .error e → ¬ Asks event) :
    Owes Asks Does debt (bind (record event x) f) := by
  refine ensures_bind (Q := fun r new ↦ r = x ∧ new = [event]) (ensures_record ⟨rfl, rfl⟩)
    (fun a new hQ ↦ ?_) fun e new hQ ↦ ?_
  · obtain ⟨hx, rfl⟩ := hQ
    refine (hok a hx.symm).mono fun r new' hnew' ↦ ?_
    simpa [hdoes, hdebt] using hnew'
  · obtain ⟨hx, rfl⟩ := hQ
    simpa [hdoes, hdebt] using herror e hx.symm

theorem owes_bind {m : Prog η ε α} {f : α → Prog η ε β} {q : Prop}
    (hm : Owes Asks Does debt m) (hf : ∀ a, Owes Asks Does q (f a)) (hlater : q → debt) :
    Owes Asks Does debt (bind m f) := by
  refine ensures_bind hm (fun a new hnew ↦ (hf a).mono fun r new' hnew' ↦ ?_) fun e new hnew ↦ hnew
  rw [exists_mem_append, exists_mem_append, hnew, hnew']
  constructor
  · rintro ((hdebt | hasks) | (hdebt | hasks))
    · exact Or.inl hdebt
    · exact Or.inr (Or.inl hasks)
    · exact Or.inl (hlater hdebt)
    · exact Or.inr (Or.inr hasks)
  · rintro (hdebt | hasks | hasks)
    · exact Or.inl (Or.inl hdebt)
    · exact Or.inl (Or.inr hasks)
    · exact Or.inr (Or.inr hasks)

theorem owes_handle {m : Prog η ε α} {handler : ε → Option α} (hm : Owes Asks Does debt m) :
    Owes Asks Does debt (handle m handler) :=
  ensures_handle hm (fun _ _ h ↦ h) (fun _ _ _ h _ ↦ h) fun _ _ h _ ↦ h

end Owes

end Dialogue

end ArgusMcp
