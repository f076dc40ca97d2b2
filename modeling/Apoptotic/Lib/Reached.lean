/-!
# States reached by actions

A system has an `enabled` condition and an `apply` function; a run takes enabled actions one after
another.  `ok` restricts the runs to those whose actions meet a further condition.

A condition can also be asked `Along` a run: of each action, in the state it is taken in.

Principal results: `Reached.invariant` — what one action keeps holds in every state reached;
`along_iff` — two conditions that agree on each action agree along every run.
-/

structure StepSystem (S A : Type) where
  init : S → Prop
  enabled : S → A → Prop
  apply : S → A → S

namespace StepSystem

variable {S A : Type} (M : StepSystem S A)

/-- The states reached by enabled actions that meet `ok`. -/
inductive Reached (ok : S → A → Prop) : S → Prop where
  | init {s : S} (h : M.init s) : Reached ok s
  | step {s : S} {a : A} (h : Reached ok s) (he : M.enabled s a) (hok : ok s a) :
      Reached ok (M.apply s a)

variable {M} {ok : S → A → Prop}

/-- An invariant of the initial states that every action keeps holds in every state reached. -/
theorem Reached.invariant {P : S → Prop} (h0 : ∀ s, M.init s → P s)
    (hstep : ∀ s a, P s → M.enabled s a → ok s a → P (M.apply s a)) {s : S}
    (h : M.Reached ok s) : P s := by
  induction h with
  | init h => exact h0 _ h
  | step _ he hok ih => exact hstep _ _ ih he hok

/-- The actions of a list are enabled and meet `ok`, one after another. -/
def AllOk (M : StepSystem S A) (ok : S → A → Prop) (s : S) : List A → Prop
  | [] => True
  | a :: as => M.enabled s a ∧ ok s a ∧ AllOk M ok (M.apply s a) as

attribute [simp] AllOk

/-- The state after a list of actions is reached. -/
theorem Reached.foldl {s : S} {as : List A} (h : M.Reached ok s) (has : AllOk M ok s as) :
    M.Reached ok (as.foldl M.apply s) := by
  induction as generalizing s with
  | nil => exact h
  | cons a as ih =>
      obtain ⟨he, hok, has⟩ := has
      exact ih (h.step he hok) has

end StepSystem

/-! ## Conditions along a run -/

/-- Every action of the list meets `P` in the state it is taken in. -/
def Along {S A : Type} (step : S → A → S) (P : S → A → Prop) : S → List A → Prop
  | _, [] => True
  | s, a :: as => P s a ∧ Along step P (step s a) as

theorem along_cons {S A : Type} {step : S → A → S} {P : S → A → Prop} (s : S) (a : A) (as : List A) :
    Along step P s (a :: as) = (P s a ∧ Along step P (step s a) as) := rfl

instance Along.decidable {S A : Type} {step : S → A → S} {P : S → A → Prop}
    [h : ∀ s a, Decidable (P s a)] : ∀ (s : S) (as : List A), Decidable (Along step P s as)
  | _, [] => .isTrue trivial
  | s, a :: as =>
      have : Decidable (Along step P (step s a) as) := Along.decidable (step s a) as
      inferInstanceAs (Decidable (P s a ∧ Along step P (step s a) as))

theorem along_append {S A : Type} {step : S → A → S} {P : S → A → Prop} {s : S} {as bs : List A} :
    Along step P s (as ++ bs) ↔ Along step P s as ∧ Along step P (as.foldl step s) bs := by
  induction as generalizing s with
  | nil => exact (and_iff_right trivial).symm
  | cons a as ih =>
      rw [List.cons_append, along_cons, along_cons, ih, and_assoc, List.foldl_cons]

theorem along_and {S A : Type} {step : S → A → S} {P Q : S → A → Prop} {s : S} {as : List A} :
    (Along step P s as ∧ Along step Q s as) ↔ Along step (fun s a => P s a ∧ Q s a) s as := by
  induction as generalizing s with
  | nil => exact and_self_iff
  | cons a as ih =>
      rw [along_cons, along_cons, along_cons, ← ih]
      exact and_and_and_comm

/-- What every action that meets `P` keeps holds at the end of a run whose actions meet it. -/
theorem Along.invariant {S A : Type} {step : S → A → S} {P : S → A → Prop} {good : S → Prop}
    (hnext : ∀ s a, good s → P s a → good (step s a)) {s : S} (hs : good s) {as : List A}
    (has : Along step P s as) : good (as.foldl step s) := by
  induction as generalizing s with
  | nil => exact hs
  | cons a as ih => exact ih (hnext s a hs has.1) has.2

/-- What every action that meets `P` in a good state meets, it meets along a run. -/
theorem Along.imp {S A : Type} {step : S → A → S} {P Q : S → A → Prop} (good : S → Prop)
    (himp : ∀ s a, good s → P s a → Q s a) (hnext : ∀ s a, good s → P s a → good (step s a)) {s : S}
    (hs : good s) {as : List A} (has : Along step P s as) : Along step Q s as := by
  induction as generalizing s with
  | nil => trivial
  | cons a as ih => exact ⟨himp s a hs has.1, ih (hnext s a hs has.1) has.2⟩

/-- Two conditions that agree on every action taken in a good state agree along every run from a
    good state, when the actions that meet them lead to good states. -/
theorem along_iff {S A : Type} {step : S → A → S} {P Q : S → A → Prop} (good : S → Prop)
    (hiff : ∀ s a, good s → (Q s a ↔ P s a)) (hnext : ∀ s a, good s → P s a → good (step s a))
    {s : S} (hs : good s) (as : List A) : Along step Q s as ↔ Along step P s as := by
  induction as generalizing s with
  | nil => exact Iff.rfl
  | cons a as ih =>
      rw [along_cons, along_cons, hiff s a hs]
      exact and_congr_right fun hP => ih (hnext s a hs hP)
