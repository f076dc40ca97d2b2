import Mathlib.Logic.Function.Iterate

/-!
# While loops

A loop repeats its body while a condition holds; it is followed for some number of turns, and says whether
it ran at all.

Principal results: `whileLoop_eq_some_iff` — it ends with the state after the first number of turns at
which the condition fails; `EndsAfter.unique` — and there is only one such number; `iterate_part`,
`endsAfter_part` — a part of the state that turns by itself.
-/

namespace Loops

variable {S : Type} (cond : S → Bool) (body : S → S)

/-- `while cond { body; ran = true; }`; `none` when the loop has not ended after so many turns. -/
def whileLoop : Nat → S → Bool → Option (S × Bool)
  | 0, s, ran => if cond s then none else some (s, ran)
  | n + 1, s, ran => if cond s then whileLoop n (body s) true else some (s, ran)

/-- The condition fails after `k` turns for the first time. -/
def EndsAfter (s : S) (k : Nat) : Prop := (∀ j < k, cond (body^[j] s) = true) ∧ cond (body^[k] s) = false

variable {cond body} {s s' : S} {n j k : Nat} {ran ran' : Bool}

theorem EndsAfter.unique (hj : EndsAfter cond body s j) (hk : EndsAfter cond body s k) : j = k := by
  rcases Nat.lt_trichotomy j k with hlt | heq | hgt
  · exact absurd (hk.1 j hlt) (ne_true_of_eq_false hj.2)
  · exact heq
  · exact absurd (hj.1 k hgt) (ne_true_of_eq_false hk.2)

theorem endsAfter_zero : EndsAfter cond body s 0 ↔ cond s = false :=
  and_iff_right fun j hj => absurd hj (Nat.not_lt_zero j)

theorem endsAfter_succ :
    EndsAfter cond body s (k + 1) ↔ cond s = true ∧ EndsAfter cond body (body s) k := by
  unfold EndsAfter
  constructor
  · rintro ⟨hstay, hleave⟩
    exact ⟨hstay 0 (Nat.succ_pos k), fun j hj => hstay (j + 1) (Nat.succ_lt_succ hj), hleave⟩
  · rintro ⟨hfirst, hstay, hleave⟩
    refine ⟨fun j hj => ?_, hleave⟩
    cases j with
    | zero => exact hfirst
    | succ j => exact hstay j (Nat.lt_of_succ_lt_succ hj)

/-- **The loop ends with the state after the first number of turns at which the condition fails.** -/
theorem whileLoop_eq_some_iff : whileLoop cond body n s ran = some (s', ran') ↔
    ∃ k ≤ n, EndsAfter cond body s k ∧ s' = body^[k] s ∧ ran' = (ran || decide (0 < k)) := by
  induction n generalizing s ran with
  | zero =>
      unfold whileLoop
      cases hcond : cond s with
      | true =>
          refine iff_of_false (fun h => by cases h) ?_
          rintro ⟨k, hk, hends, -⟩
          cases Nat.le_zero.1 hk
          rw [endsAfter_zero, hcond] at hends
          cases hends
      | false =>
          constructor
          · rintro ⟨⟩
            exact ⟨0, Nat.le_refl 0, endsAfter_zero.2 hcond, rfl, by simp⟩
          · rintro ⟨k, hk, -, rfl, rfl⟩
            cases Nat.le_zero.1 hk
            simp
  | succ n ih =>
      unfold whileLoop
      cases hcond : cond s with
      | true =>
          rw [if_pos rfl, ih]
          constructor
          · rintro ⟨k, hk, hends, rfl, rfl⟩
            exact ⟨k + 1, Nat.succ_le_succ hk, endsAfter_succ.2 ⟨hcond, hends⟩, rfl, by simp⟩
          · rintro ⟨k, hk, hends, rfl, rfl⟩
            cases k with
            | zero =>
                rw [endsAfter_zero, hcond] at hends
                cases hends
            | succ k =>
                exact ⟨k, Nat.le_of_succ_le_succ hk, (endsAfter_succ.1 hends).2, rfl, by simp⟩
      | false =>
          constructor
          · rintro ⟨⟩
            exact ⟨0, Nat.zero_le _, endsAfter_zero.2 hcond, rfl, by simp⟩
          · rintro ⟨k, hk, hends, rfl, rfl⟩
            cases k with
            | zero => simp
            | succ k =>
                rw [endsAfter_succ, hcond] at hends
                cases hends.1

/-- What one turn does to a part of the state, turns do by iteration. -/
theorem iterate_part {A : Type} {part : S → A} {f : A → A} (h : ∀ s, part (body s) = f (part s))
    (k : Nat) (s : S) : part (body^[k] s) = f^[k] (part s) := by
  induction k generalizing s with
  | zero => rfl
  | succ k ih => rw [Function.iterate_succ_apply, Function.iterate_succ_apply, ih, h]

/-- A condition on a part of the state. -/
theorem endsAfter_part {A : Type} {part : S → A} {f : A → A} {c : A → Bool}
    (h : ∀ s, part (body s) = f (part s)) (s : S) (k : Nat) :
    EndsAfter (fun s => c (part s)) body s k ↔ EndsAfter c f (part s) k := by
  unfold EndsAfter
  simp only [iterate_part h]

end Loops
