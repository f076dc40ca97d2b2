import Mathlib.Algebra.Order.BigOperators.Group.Finset
import Mathlib.Order.Monotone.Basic

/-!
# Ladders

A ladder has steps of positive heights; a total lies on the step that it reached and did not pass.

Principal result: `On.unique` — a total lies on one step only.
-/

namespace Ladder

variable {cost : Nat → Nat} {m n : Nat} {total : Int}

/-- The height of the `n` lowest steps. -/
def below (cost : Nat → Nat) (n : Nat) : Nat := ∑ l ∈ Finset.range n, cost l

@[simp] theorem below_zero : below cost 0 = 0 := rfl

theorem below_succ (cost : Nat → Nat) (n : Nat) : below cost (n + 1) = below cost n + cost n :=
  Finset.sum_range_succ cost n

theorem below_mono (cost : Nat → Nat) : Monotone (below cost) :=
  monotone_nat_of_le_succ fun n => by
    rw [below_succ]
    exact Nat.le_add_right _ _

/-- `total` reached step `n` and did not pass it. -/
structure On (cost : Nat → Nat) (n : Nat) (total : Int) : Prop where
  reached : below cost n ≤ total
  short : total < below cost (n + 1)

theorem On.le_of_le (hm : On cost m total) (hn : On cost n total) : m ≤ n := by
  by_contra hlt
  have hstep := below_mono cost (show n + 1 ≤ m by omega)
  have hreached := hm.reached
  have hshort := hn.short
  omega

theorem On.unique (hm : On cost m total) (hn : On cost n total) : m = n :=
  Nat.le_antisymm (hm.le_of_le hn) (hn.le_of_le hm)

end Ladder
