import Mathlib.Logic.Function.Iterate
import Mathlib.Data.List.Basic

/-!
# Work that is done in rounds

A round takes everything out of a queue and puts new work into it.  When everything put in ranks
below something that was taken out, the queue is empty after finitely many rounds.

Principal result: `exists_round_eq_nil` — it is empty after some round, and after every later one.
-/

namespace Rounds

variable {S A : Type} {round : S → S} {queue : S → List A} {rank : A → Nat}

/-- What is put into the queue ranks below something that was in it. -/
def Descends (round : S → S) (queue : S → List A) (rank : A → Nat) : Prop :=
  ∀ s, ∀ b ∈ queue (round s), ∃ a ∈ queue s, rank b < rank a

/-- After `n` rounds the ranks are lower by `n`. -/
theorem Descends.rank_iterate (h : Descends round queue rank) {s : S} {k : Nat}
    (hk : ∀ a ∈ queue s, rank a < k) (n : Nat) :
    ∀ b ∈ queue (round^[n] s), rank b + n < k := by
  induction n with
  | zero => exact hk
  | succ n ih =>
      intro b hb
      rw [Function.iterate_succ_apply'] at hb
      obtain ⟨a, ha, hlt⟩ := h _ b hb
      have hprev := ih a ha
      omega

theorem exists_rank_lt (rank : A → Nat) (items : List A) : ∃ k, ∀ a ∈ items, rank a < k := by
  induction items with
  | nil => exact ⟨0, List.forall_mem_nil _⟩
  | cons a items ih =>
      obtain ⟨k, hk⟩ := ih
      refine ⟨max (rank a + 1) k, fun b hb => ?_⟩
      rcases List.mem_cons.1 hb with rfl | hb
      · omega
      · have hlt := hk b hb
        omega

/-- **The queue is empty after finitely many rounds.** -/
theorem exists_round_eq_nil (h : Descends round queue rank) (s : S) :
    ∃ n, ∀ m ≥ n, queue (round^[m] s) = [] := by
  obtain ⟨k, hk⟩ := exists_rank_lt rank (queue s)
  refine ⟨k, fun m hm => List.eq_nil_iff_forall_not_mem.2 fun b hb => ?_⟩
  have hlt := h.rank_iterate hk m b hb
  omega

end Rounds
