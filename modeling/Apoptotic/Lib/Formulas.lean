import Mathlib.Logic.Function.Basic
import Mathlib.Order.Nat

/-!
# Networks of formulas

Every node of a network has a formula over the values of the nodes that it reads.  A worklist
brings the nodes in line with their formulas one after another.

Principal results: `attended_update` — a visit that queues the readers whose value is no longer
right leaves every node settled or queued; `eq_of_settled` — a network of gates without feedback and
nodes that fade has one settled state.
-/

/-- The nodes that a node reads, and the value that its formula gives from theirs. -/
structure Formulas (V : Type) where
  reads : V → V → Prop
  formula : V → (V → Nat) → Nat
  formula_congr : ∀ p s t, (∀ q, reads p q → s q = t q) → formula p s = formula p t

namespace Formulas

variable {V : Type} (N : Formulas V) {s t : V → Nat} {p q : V}

def Settled (s : V → Nat) (p : V) : Prop := s p = N.formula p s

/-! ## Visits -/

section Visits

variable [DecidableEq V] {N}

theorem formula_update_of_not_reads (h : ¬ N.reads q p) (s : V → Nat) (v : Nat) :
    N.formula q (Function.update s p v) = N.formula q s := by
  refine N.formula_congr _ _ _ fun r hr => Function.update_of_ne ?_ v s
  rintro rfl
  exact h hr

theorem settled_update_self (h : ¬ N.reads p p) (s : V → Nat) :
    N.Settled (Function.update s p (N.formula p s)) p := by
  unfold Settled
  rw [Function.update_self, formula_update_of_not_reads h]

theorem settled_update_of_ne (hq : q ≠ p) (v : Nat) :
    N.Settled (Function.update s p v) q ↔ s q = N.formula q (Function.update s p v) := by
  unfold Settled
  rw [Function.update_of_ne hq]

/-- **The rule of a worklist**: `queued` before the visit, `queued'` after it. -/
theorem attended_update {queued queued' : V → Prop} (h : ∀ q, q ≠ p → queued q ∨ N.Settled s q)
    (hself : ¬ N.reads p p) (hqueue : ∀ q, queued q → queued' q)
    (hreaders : ∀ q, N.reads q p →
      queued' q ∨ s q = N.formula q (Function.update s p (N.formula p s))) (q : V) :
    queued' q ∨ N.Settled (Function.update s p (N.formula p s)) q := by
  by_cases hq : q = p
  · subst hq
    exact .inr (settled_update_self hself s)
  · rw [settled_update_of_ne hq]
    by_cases hread : N.reads q p
    · exact hreaders q hread
    · rw [formula_update_of_not_reads hread]
      exact (h q hq).imp_left (hqueue q)

end Visits

/-! ## Settled states -/

/-- The node has one less than the strongest node that it reads. -/
structure Fades (p : V) : Prop where
  le : ∀ s q, N.reads p q → s q ≤ N.formula p s + 1
  strongest : ∀ s, 0 < N.formula p s → ∃ q, N.reads p q ∧ s q = N.formula p s + 1

/-- No gate reads itself, directly or through other nodes: what it reads ranks below it. -/
structure Ranked (rank : V → Nat) : Prop where
  le : ∀ p q, N.reads p q → rank q ≤ rank p
  fades_or_lt : ∀ p, N.Fades p ∨ ∀ q, N.reads p q → rank q < rank p

variable {N} {rank : V → Nat} {bound r : Nat}

theorem eq_of_gate (hs : N.Settled s p) (ht : N.Settled t p)
    (hlow : ∀ q, N.reads p q → s q = t q) : s p = t p :=
  hs.trans ((N.formula_congr p s t hlow).trans ht.symm)

/-- The fading nodes of one rank, from the strongest on. -/
theorem le_at_rank (hN : N.Ranked rank) (hs : ∀ p, N.Settled s p) (ht : ∀ p, N.Settled t p)
    (hbound : ∀ p, s p ≤ bound) (hlow : ∀ q, rank q < r → s q = t q) {n : Nat} {p : V}
    (hp : rank p = r) (hn : bound - s p ≤ n) : s p ≤ t p := by
  induction n using Nat.strongRecOn generalizing p with
  | _ n ih =>
      rcases hN.fades_or_lt p with hfades | hgate
      · by_cases hzero : s p = 0
        · rw [hzero]
          exact Nat.zero_le _
        · have hpos : 0 < N.formula p s := by
            rw [← hs p]
            exact Nat.pos_of_ne_zero hzero
          obtain ⟨q, hread, hq⟩ := hfades.strongest s hpos
          rw [← hs p] at hq
          have hle : s q ≤ t q := by
            rcases (hN.le p q hread).lt_or_eq with hlt | heq
            · exact (hlow q (hp ▸ hlt)).le
            · have hb := hbound q
              exact ih (bound - s q) (by omega) (heq.trans hp) le_rfl
          have hweak := hfades.le t q hread
          rw [← ht p] at hweak
          omega
      · exact (eq_of_gate (hs p) (ht p) fun q hread => hlow q (hp ▸ hgate q hread)).le

/-- **Two bounded settled states of a ranked network agree.** -/
theorem eq_of_settled (hN : N.Ranked rank) (hs : ∀ p, N.Settled s p) (ht : ∀ p, N.Settled t p)
    (hsbound : ∀ p, s p ≤ bound) (htbound : ∀ p, t p ≤ bound) : s = t := by
  have hrank : ∀ r p, rank p = r → s p = t p := by
    intro r
    induction r using Nat.strongRecOn with
    | _ r ih =>
        intro p hp
        have hlow : ∀ q, rank q < r → s q = t q := fun q hq => ih (rank q) hq q rfl
        exact le_antisymm (le_at_rank hN hs ht hsbound hlow hp le_rfl)
          (le_at_rank hN ht hs htbound (fun q hq => (hlow q hq).symm) hp le_rfl)
  exact funext fun p => hrank (rank p) p rfl

end Formulas
