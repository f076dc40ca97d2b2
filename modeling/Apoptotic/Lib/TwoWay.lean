import Mathlib.Data.Finset.Basic
import Mathlib.Logic.Function.Basic

/-!
# A relation kept from both ends

Groups keep the set of their members and each member keeps the group it belongs to, in two maps
that are edited separately.  `Agrees` says that the maps store one relation.

Principal results: `Agrees.move` — a member that is taken out of its group and put into another
one; `Agrees.detach_iff` — taking it out alone is harmless only for one that was in no group.
-/

/-- The members of each group, and the group of each member. -/
structure TwoWay (T U : Type) where
  members : T → Option (Finset U)
  home : U → Option T

namespace TwoWay

variable {T U : Type} (r : TwoWay T U)

def Mem (t : T) (u : U) : Prop := ∃ m, r.members t = some m ∧ u ∈ m

/-- **The two maps store one relation.** -/
def Agrees : Prop := ∀ t u, r.Mem t u ↔ r.home u = some t

def empty : TwoWay T U := ⟨fun _ => none, fun _ => none⟩

theorem agrees_empty : (empty : TwoWay T U).Agrees := by
  intro t u
  constructor
  · rintro ⟨_, h, _⟩
    cases h
  · nofun

variable {r} in
theorem mem_getD {t : T} {u : U} : u ∈ (r.members t).getD ∅ ↔ r.Mem t u := by
  unfold Mem
  cases r.members t with
  | none => simp
  | some m => simp

variable [DecidableEq T] [DecidableEq U]

/-- A new group, unless there is one. -/
def found (t : T) : TwoWay T U :=
  { r with members := Function.update r.members t (some ((r.members t).getD ∅)) }

/-- A group is given up, with its members. -/
def disband (t : T) : TwoWay T U where
  members := Function.update r.members t none
  home u := if u ∈ (r.members t).getD ∅ then none else r.home u

/-- Only the group forgets. -/
def detach (t : T) (u : U) : TwoWay T U :=
  { r with members := Function.update r.members t ((r.members t).map (·.erase u)) }

/-- The group and the member learn of each other. -/
def attach (t : T) (u : U) : TwoWay T U where
  members := Function.update r.members t ((r.members t).map (insert u ·))
  home := Function.update r.home u (some t)

/-- The group that a member names forgets it. -/
def detachHome (u : U) : TwoWay T U :=
  match r.home u with
  | some t => r.detach t u
  | none => r

/-- Only the member forgets. -/
def forget (u : U) : TwoWay T U := { r with home := Function.update r.home u none }

variable {r} {t t' : T} {u u' : U}

/-! ## Members -/

omit [DecidableEq U] in
theorem mem_found : (r.found t).Mem t' u ↔ r.Mem t' u := by
  unfold Mem found
  dsimp only
  by_cases h : t' = t
  · subst h
    rw [Function.update_self]
    cases r.members t' with
    | none => simp
    | some m => simp
  · rw [Function.update_of_ne h]

theorem mem_disband : (r.disband t).Mem t' u ↔ t' ≠ t ∧ r.Mem t' u := by
  unfold Mem disband
  dsimp only
  by_cases h : t' = t
  · subst h
    rw [Function.update_self]
    simp
  · rw [Function.update_of_ne h]
    exact (and_iff_right h).symm

theorem mem_detach : (r.detach t u).Mem t' u' ↔ r.Mem t' u' ∧ ¬ (t' = t ∧ u' = u) := by
  unfold Mem detach
  dsimp only
  by_cases h : t' = t
  · subst h
    rw [Function.update_self]
    cases r.members t' with
    | none => simp
    | some m => simp [and_comm]
  · rw [Function.update_of_ne h]
    exact (and_iff_left fun hn => h hn.1).symm

theorem mem_attach (ht : (r.members t).isSome) :
    (r.attach t u).Mem t' u' ↔ r.Mem t' u' ∨ (t' = t ∧ u' = u) := by
  unfold Mem attach
  dsimp only
  by_cases h : t' = t
  · subst h
    obtain ⟨m, hm⟩ := Option.isSome_iff_exists.1 ht
    rw [Function.update_self, hm]
    simp [or_comm]
  · rw [Function.update_of_ne h]
    exact (or_iff_left fun hn => h hn.1).symm

/-! ## Operations on a relation stored once -/

omit [DecidableEq U] in
theorem Agrees.found (h : r.Agrees) (t : T) : (r.found t).Agrees := fun t' u =>
  mem_found.trans (h t' u)

theorem Agrees.disband (h : r.Agrees) (t : T) : (r.disband t).Agrees := by
  intro t' u
  rw [mem_disband, h t' u]
  change _ ↔ (if u ∈ (r.members t).getD ∅ then none else r.home u) = some t'
  by_cases hu : u ∈ (r.members t).getD ∅
  · have hhome : r.home u = some t := (h t u).1 (mem_getD.1 hu)
    rw [if_pos hu, hhome]
    exact ⟨fun ⟨hne, heq⟩ => absurd (Option.some.inj heq).symm hne, nofun⟩
  · rw [if_neg hu]
    refine and_iff_right_of_imp ?_
    rintro hhome rfl
    exact hu (mem_getD.2 ((h t' u).2 hhome))

theorem mem_detachHome (h : r.Agrees) : (r.detachHome u).Mem t' u' ↔ r.Mem t' u' ∧ u' ≠ u := by
  unfold TwoWay.detachHome
  cases hu : r.home u with
  | none =>
      refine (and_iff_left_of_imp ?_).symm
      rintro hm rfl
      rw [(h t' u').1 hm] at hu
      cases hu
  | some t =>
      refine mem_detach.trans (and_congr_right fun hm => not_congr (and_iff_right_of_imp ?_))
      rintro rfl
      rw [(h t' u').1 hm] at hu
      exact Option.some.inj hu

theorem home_detachHome : (r.detachHome u).home = r.home := by
  unfold detachHome
  split <;> rfl

/-- Out of one group and into another. -/
theorem Agrees.move (h : r.Agrees) (ht : ((r.detachHome u).members t).isSome) :
    ((r.detachHome u).attach t u).Agrees := by
  intro t' u'
  rw [mem_attach ht, mem_detachHome h]
  change _ ↔ Function.update (r.detachHome u).home u (some t) u' = some t'
  by_cases hu : u' = u
  · subst hu
    rw [Function.update_self, Option.some_inj]
    simp [eq_comm]
  · rw [Function.update_of_ne hu, home_detachHome, ← h t' u']
    simp [hu]

/-- Out of a group, as both sides see it. -/
theorem Agrees.leave (h : r.Agrees) (u : U) : ((r.detachHome u).forget u).Agrees := by
  intro t' u'
  refine (mem_detachHome h).trans ?_
  change _ ↔ Function.update (r.detachHome u).home u none u' = some t'
  by_cases hu : u' = u
  · subst hu
    rw [Function.update_self]
    exact ⟨fun hm => absurd rfl hm.2, nofun⟩
  · rw [Function.update_of_ne hu, home_detachHome, ← h t' u']
    exact and_iff_left hu

/-- **Half of a move is harmless only for one that was in no group.** -/
theorem Agrees.detach_iff (h : r.Agrees) : (r.detachHome u).Agrees ↔ r.home u = none := by
  constructor
  · intro hd
    by_contra hne
    obtain ⟨t, ht⟩ := Option.ne_none_iff_exists'.1 hne
    have hhome : (r.detachHome u).home u = some t := by rwa [home_detachHome]
    exact ((mem_detachHome h).1 ((hd t u).2 hhome)).2 rfl
  · intro hu
    unfold TwoWay.detachHome
    rwa [hu]

theorem isSome_members_detachHome :
    ((r.detachHome u).members t).isSome = (r.members t).isSome := by
  unfold detachHome
  cases r.home u with
  | none => rfl
  | some t' =>
      change (Function.update r.members t' _ t).isSome = _
      by_cases h : t = t'
      · subst h
        rw [Function.update_self, Option.isSome_map]
      · rw [Function.update_of_ne h]

end TwoWay
