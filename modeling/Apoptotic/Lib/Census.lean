import Mathlib.Data.Set.Card
import Mathlib.Logic.Equiv.Basic

/-!
# Censuses

Cells hold values, or nothing; a census counts the cells of a region that hold a value.

Principal results: `census_exchange` — cells that exchange what they hold; `census_carried` — cells that
hand on what they hold, one to one, while others lose it.
-/

namespace Census

variable {C V : Type}

/-- The cells of the region that hold the value. -/
def holders (S : Set C) (f : C → Option V) (v : V) : Set C := {c | c ∈ S ∧ f c = some v}

noncomputable def census (S : Set C) (f : C → Option V) (v : V) : Nat := (holders S f v).ncard

variable {S : Set C} {f g : C → Option V} {v : V}

/-- The contents are rearranged inside the region. -/
theorem census_perm (σ : Equiv.Perm C) (hS : ∀ c, σ c ∈ S ↔ c ∈ S) (h : ∀ c, g c = f (σ c)) (v : V) :
    census S g v = census S f v := by
  have himage : holders S f v = σ '' holders S g v := by
    ext c
    constructor
    · rintro ⟨hc, hv⟩
      refine ⟨σ.symm c, ⟨?_, ?_⟩, σ.apply_symm_apply c⟩
      · apply (hS _).1
        rw [σ.apply_symm_apply]
        exact hc
      · rw [h, σ.apply_symm_apply]
        exact hv
    · rintro ⟨d, ⟨hd, hv⟩, rfl⟩
      exact ⟨(hS d).2 hd, (h d).symm.trans hv⟩
  unfold census
  rw [himage, Set.ncard_image_of_injective _ σ.injective]

/-- **Two cells of the region exchange what they hold.** -/
theorem census_exchange [DecidableEq C] {a b : C} (ha : a ∈ S) (hb : b ∈ S) (hgb : g b = f a)
    (hga : g a = f b) (hother : ∀ c, c ≠ a → c ≠ b → g c = f c) (v : V) :
    census S g v = census S f v := by
  refine census_perm (Equiv.swap a b) (fun c => ?_) (fun c => ?_) v
  · by_cases hca : c = a
    · subst hca
      rw [Equiv.swap_apply_left]
      exact iff_of_true hb ha
    · by_cases hcb : c = b
      · subst hcb
        rw [Equiv.swap_apply_right]
        exact iff_of_true ha hb
      · rw [Equiv.swap_apply_of_ne_of_ne hca hcb]
  · by_cases hca : c = a
    · subst hca
      rw [Equiv.swap_apply_left]
      exact hga
    · by_cases hcb : c = b
      · subst hcb
        rw [Equiv.swap_apply_right]
        exact hgb
      · rw [Equiv.swap_apply_of_ne_of_ne hca hcb]
        exact hother c hca hcb

/-- **What the region holds outside `B` is carried on, one to one, and what `B` holds is lost.** -/
theorem census_carried {B : Set C} {t : C → C} (hfin : (holders S f v).Finite)
    (ht : Set.BijOn t (holders S f v \ B) (holders S g v)) :
    census S g v + census (S ∩ B) f v = census S f v := by
  have hlost : holders (S ∩ B) f v = holders S f v ∩ B := by
    ext c
    simp only [holders, Set.mem_inter_iff, Set.mem_ofPred_eq]
    tauto
  have hkept : census S g v = (holders S f v \ B).ncard := by
    unfold census
    rw [← ht.image_eq, ht.injOn.ncard_image]
  calc census S g v + census (S ∩ B) f v
      = (holders S f v \ B).ncard + (holders S f v ∩ B).ncard := by
        rw [hkept]
        unfold census
        rw [hlost]
    _ = (holders S f v ∩ B).ncard + (holders S f v \ B).ncard := Nat.add_comm ..
    _ = census S f v := Set.ncard_inter_add_ncard_sdiff_eq_ncard _ _ hfin

end Census
