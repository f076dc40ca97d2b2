import Mathlib.Data.List.Nodup
import Mathlib.Logic.Function.Basic

/-!
# Copies made one after another

A list of copies, each from one place to another, is carried out in place: what one copy writes is
there for the next to read.

Principal result: `copied_iff` — every target holds in the end what its source held at the start,
exactly when no copy overwrites the source of a later one with something else.
-/

namespace Copies

variable {P V : Type} [DecidableEq P]

/-- One copy. -/
def copy (f : P → V) (c : P × P) : P → V := Function.update f c.2 (f c.1)

def copyAll (copies : List (P × P)) (f : P → V) : P → V := copies.foldl copy f

/-- Every target of the list holds what its source held in `f`. -/
def Copied (copies : List (P × P)) (f g : P → V) : Prop := ∀ c ∈ copies, g c.2 = f c.1

/-- A copy onto the source of a later copy writes there what it finds. -/
def Steady (copies : List (P × P)) (f : P → V) : Prop :=
  copies.Pairwise fun c later => c.2 = later.1 → f c.1 = f later.1

theorem copyAll_of_notMem {copies : List (P × P)} {p : P} (h : p ∉ copies.map Prod.snd)
    (f : P → V) : copyAll copies f p = f p := by
  unfold copyAll
  induction copies generalizing f with
  | nil => rfl
  | cons c copies ih =>
      rw [List.map_cons, List.mem_cons, not_or] at h
      exact (ih h.2 _).trans (Function.update_of_ne h.1 _ _)

/-- A source that no copy writes to arrives. -/
theorem copyAll_of_source {copies : List (P × P)} (hnodup : (copies.map Prod.snd).Nodup)
    {c : P × P} (hc : c ∈ copies) (h : c.1 ∉ copies.map Prod.snd) (f : P → V) :
    copyAll copies f c.2 = f c.1 := by
  induction copies generalizing f with
  | nil => cases hc
  | cons d copies ih =>
      rw [List.map_cons, List.nodup_cons] at hnodup
      rw [List.map_cons, List.mem_cons, not_or] at h
      rcases List.mem_cons.1 hc with rfl | htail
      · have hkept := copyAll_of_notMem hnodup.1 (copy f c)
        exact hkept.trans (Function.update_self ..)
      · exact (ih hnodup.2 htail h.2 (copy f d)).trans (Function.update_of_ne h.1 _ _)

/-- **Copies made in place come out right** exactly when they are steady. -/
theorem copied_iff {copies : List (P × P)} (hnodup : (copies.map Prod.snd).Nodup) (f : P → V) :
    Copied copies f (copyAll copies f) ↔ Steady copies f := by
  induction copies generalizing f with
  | nil => exact ⟨fun _ => List.Pairwise.nil, fun _ c hc => absurd hc List.not_mem_nil⟩
  | cons c copies ih =>
      rw [List.map_cons, List.nodup_cons] at hnodup
      obtain ⟨hfresh, hnodup⟩ := hnodup
      unfold Steady at ih ⊢
      rw [List.pairwise_cons]
      -- Where the first copy is steady, the later ones read what they would have read before it.
      have hread : (∀ later ∈ copies, c.2 = later.1 → f c.1 = f later.1) →
          ∀ later ∈ copies, copy f c later.1 = f later.1 := by
        intro hsteady later hlater
        unfold copy
        by_cases hsame : later.1 = c.2
        · rw [hsame, Function.update_self, hsteady later hlater hsame.symm, hsame]
        · exact Function.update_of_ne hsame _ _
      have hpairs : (∀ later ∈ copies, copy f c later.1 = f later.1) →
          (Copied copies (copy f c) (copyAll copies (copy f c)) ↔
            copies.Pairwise fun d later => d.2 = later.1 → f d.1 = f later.1) := by
        intro hsame
        rw [ih hnodup]
        refine List.Pairwise.iff_of_mem fun hd hlater => ?_
        rw [hsame _ hd, hsame _ hlater]
      constructor
      · intro hcopied
        have hfirst : ∀ later ∈ copies, c.2 = later.1 → f c.1 = f later.1 := by
          intro later hlater hsame
          have harrived := hcopied later (List.mem_cons_of_mem _ hlater)
          have hsource := copyAll_of_source hnodup hlater (hsame ▸ hfresh) (copy f c)
          rw [← hsame] at hsource
          exact (Function.update_self ..).symm.trans (hsource.symm.trans harrived)
        refine ⟨hfirst, (hpairs (hread hfirst)).1 fun later hlater => ?_⟩
        rw [hread hfirst later hlater]
        exact hcopied later (List.mem_cons_of_mem _ hlater)
      · rintro ⟨hfirst, hrest⟩ later hlater
        rcases List.mem_cons.1 hlater with rfl | htail
        · exact (copyAll_of_notMem hfresh (copy f later)).trans (Function.update_self ..)
        · have harrived := (hpairs (hread hfirst)).2 hrest later htail
          rw [hread hfirst later htail] at harrived
          exact harrived

end Copies
