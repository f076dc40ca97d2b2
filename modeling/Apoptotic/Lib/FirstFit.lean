import Mathlib.Data.List.Perm.Basic
import Mathlib.Data.List.Perm.Subperm
import Mathlib.Data.List.Forall2

/-!
# First fit

Wants are served in order, each with the first thing left that fits it; at the end no thing may be left.

Principal results: `greedy_assignable` — what first fit serves can be assigned one to one;
`greedy_iff_assignable` — it serves all that can be assigned exactly when it is never cornered;
`exact_iff_nested` — it is never cornered, whatever the things, exactly when every want has nothing in
common with a later one, or fits only what the later one fits as well.
-/

namespace FirstFit

variable {ι α : Type} (fits : ι → α → Bool)

/-- Every want has a thing of its own that fits it, and no thing is left. -/
def Assignable (wants : List ι) (things : List α) : Prop :=
  ∃ given, List.Forall₂ (fun i a => fits i a = true) wants given ∧ given.Perm things

def greedy : List ι → List α → Bool
  | [], things => things.isEmpty
  | i :: wants, things => things.any (fits i) && greedy wants (things.eraseP (fits i))

theorem greedy_cons (i : ι) (wants : List ι) (things : List α) :
    greedy fits (i :: wants) things =
      (things.any (fits i) && greedy fits wants (things.eraseP (fits i))) := rfl

/-- At some want there was an assignment before the first thing that fits was taken, and there is none
after. -/
def Cornered : List ι → List α → Prop
  | [], _ => False
  | i :: wants, things =>
      things.any (fits i) = true ∧
        (Assignable fits (i :: wants) things ∧ ¬ Assignable fits wants (things.eraseP (fits i)) ∨
          Cornered wants (things.eraseP (fits i)))

/-- A want and a later one fit nothing in common, or all that fits the first fits the later one. -/
def Nested (wants : List ι) : Prop :=
  wants.Pairwise fun i j =>
    (∀ a, fits i a = true → fits j a = false) ∨ ∀ a, fits i a = true → fits j a = true

variable {fits} {wants : List ι} {things things' : List α} {i : ι}

theorem Assignable.perm (h : Assignable fits wants things) (hp : things.Perm things') :
    Assignable fits wants things' := by
  obtain ⟨given, hfit, hperm⟩ := h
  exact ⟨given, hfit, hperm.trans hp⟩

theorem assignable_nil : Assignable fits [] things ↔ things = [] := by
  constructor
  · rintro ⟨given, hfit, hperm⟩
    cases hfit
    exact List.nil_perm.1 hperm
  · rintro rfl
    exact ⟨[], .nil, .refl _⟩

theorem assignable_cons : Assignable fits (i :: wants) things ↔
    ∃ a rest, things.Perm (a :: rest) ∧ fits i a = true ∧ Assignable fits wants rest := by
  constructor
  · rintro ⟨given, hfit, hperm⟩
    cases hfit with
    | cons hhead htail => exact ⟨_, _, hperm.symm, hhead, _, htail, .refl _⟩
  · rintro ⟨a, rest, hperm, hhead, given, hfit, hrest⟩
    exact ⟨a :: given, .cons hhead hfit, (hrest.cons a).trans hperm.symm⟩

theorem Assignable.length_eq (h : Assignable fits wants things) : things.length = wants.length := by
  obtain ⟨given, hfit, hperm⟩ := h
  rw [← hperm.length_eq, hfit.length_eq]

theorem Assignable.exists_fits (h : Assignable fits wants things) (hi : i ∈ wants) :
    ∃ a, fits i a = true := by
  obtain ⟨given, hfit, -⟩ := h
  induction hfit with
  | nil => cases hi
  | @cons j a wants given hhead _ ih =>
      rcases List.mem_cons.1 hi with rfl | hlater
      · exact ⟨a, hhead⟩
      · exact ih hlater

/-- What serves the wants of one kind is of the kind that fits them. -/
theorem Assignable.countP_le {p : ι → Bool} {q : α → Bool} (h : Assignable fits wants things)
    (hpq : ∀ i a, p i = true → fits i a = true → q a = true) : wants.countP p ≤ things.countP q := by
  obtain ⟨given, hfit, hperm⟩ := h
  rw [← hperm.countP_eq]
  clear hperm
  induction hfit with
  | nil => simp
  | @cons i a wants given hhead _ ih =>
      rw [List.countP_cons, List.countP_cons]
      by_cases hp : p i = true
      · rw [if_pos hp, if_pos (hpq i a hp hhead)]
        omega
      · rw [if_neg hp]
        omega

/-- The first thing that fits is taken out. -/
theorem perm_eraseP (h : things.any (fits i) = true) :
    ∃ a, fits i a = true ∧ things.Perm (a :: things.eraseP (fits i)) := by
  obtain ⟨b, hb, hfit⟩ := List.any_eq_true.1 h
  obtain ⟨a, l₁, l₂, _, ha, hsplit, herase⟩ := List.exists_of_eraseP hb hfit
  refine ⟨a, ha, ?_⟩
  rw [herase, hsplit]
  exact List.perm_middle

theorem Assignable.any_head (h : Assignable fits (i :: wants) things) : things.any (fits i) = true := by
  obtain ⟨a, rest, hperm, hfit, _⟩ := assignable_cons.1 h
  exact List.any_eq_true.2 ⟨a, hperm.symm.subset (by simp), hfit⟩

theorem assignable_of_eraseP (h : things.any (fits i) = true)
    (hrest : Assignable fits wants (things.eraseP (fits i))) : Assignable fits (i :: wants) things := by
  obtain ⟨a, hfit, hperm⟩ := perm_eraseP h
  exact assignable_cons.2 ⟨a, _, hperm, hfit, hrest⟩

/-- **What first fit serves can be assigned.** -/
theorem greedy_assignable (h : greedy fits wants things = true) : Assignable fits wants things := by
  induction wants generalizing things with
  | nil => exact assignable_nil.2 (List.isEmpty_iff.1 h)
  | cons i wants ih =>
      rw [greedy_cons, Bool.and_eq_true] at h
      exact assignable_of_eraseP h.1 (ih h.2)

theorem cornered_fails (h : Cornered fits wants things) :
    Assignable fits wants things ∧ greedy fits wants things = false := by
  induction wants generalizing things with
  | nil => exact h.elim
  | cons i wants ih =>
      obtain ⟨hany, ⟨hbefore, hafter⟩ | hlater⟩ := h
      · refine ⟨hbefore, ?_⟩
        rw [greedy_cons, hany, Bool.true_and, Bool.eq_false_iff]
        exact fun hgreedy => hafter (greedy_assignable hgreedy)
      · obtain ⟨hrest, hgreedy⟩ := ih hlater
        refine ⟨assignable_of_eraseP hany hrest, ?_⟩
        rw [greedy_cons, hany, Bool.true_and, hgreedy]

theorem greedy_of_not_cornered (h : ¬ Cornered fits wants things)
    (hassign : Assignable fits wants things) : greedy fits wants things = true := by
  induction wants generalizing things with
  | nil => exact List.isEmpty_iff.2 (assignable_nil.1 hassign)
  | cons i wants ih =>
      have hany := hassign.any_head
      have hrest : Assignable fits wants (things.eraseP (fits i)) := by
        by_contra hstuck
        exact h ⟨hany, .inl ⟨hassign, hstuck⟩⟩
      rw [greedy_cons, hany, Bool.true_and]
      exact ih (fun hlater => h ⟨hany, .inr hlater⟩) hrest

/-- **First fit serves all that can be assigned exactly when it is never cornered.** -/
theorem greedy_iff_assignable :
    (greedy fits wants things = true ↔ Assignable fits wants things) ↔ ¬ Cornered fits wants things := by
  constructor
  · intro h hcornered
    obtain ⟨hassign, hgreedy⟩ := cornered_fails hcornered
    rw [h.2 hassign] at hgreedy
    cases hgreedy
  · exact fun h => ⟨greedy_assignable, greedy_of_not_cornered h⟩

/-! ## Nested wants -/

/-- A thing is exchanged for one that fits every want it fits. -/
theorem Assignable.replace {x y : α} {rest : List α} (h : Assignable fits wants (x :: rest))
    (hxy : ∀ j ∈ wants, fits j x = true → fits j y = true) : Assignable fits wants (y :: rest) := by
  induction wants generalizing rest with
  | nil => cases assignable_nil.1 h
  | cons j wants ih =>
      obtain ⟨a, others, hperm, hfit, hassign⟩ := assignable_cons.1 h
      refine assignable_cons.2 ?_
      by_cases hax : a = x
      · subst hax
        exact ⟨y, rest, .refl _, hxy j (by simp) hfit,
          hassign.perm ((List.perm_cons a).1 hperm.symm)⟩
      · have hmem : x ∈ others := by
          have hx : x ∈ a :: others := hperm.subset (by simp)
          exact (List.mem_cons.1 hx).resolve_left (Ne.symm hax)
        obtain ⟨s, t, rfl⟩ := List.append_of_mem hmem
        have hmiddle : (s ++ x :: t).Perm (x :: (s ++ t)) := List.perm_middle
        have hrest : rest.Perm (a :: (s ++ t)) := by
          refine (List.perm_cons x).1 (hperm.trans ?_)
          exact (hmiddle.cons a).trans (.swap x a _)
        have hnext := ih (hassign.perm hmiddle) fun k hk => hxy k (by simp [hk])
        exact ⟨a, y :: (s ++ t), (hrest.cons y).trans (.swap a y _), hfit, hnext⟩

/-- Taking the first thing that fits costs a nested want nothing. -/
theorem Assignable.eraseP_of_nested (h : Assignable fits (i :: wants) things)
    (hnested : Nested fits (i :: wants)) : Assignable fits wants (things.eraseP (fits i)) := by
  obtain ⟨x, hx, hpx⟩ := perm_eraseP h.any_head
  obtain ⟨y, rest, hpy, hy, hassign⟩ := assignable_cons.1 h
  have hperm := hpx.symm.trans hpy
  by_cases hxy : x = y
  · subst hxy
    exact hassign.perm ((List.perm_cons x).1 hperm.symm)
  · have hmem : x ∈ rest := by
      have hx' : x ∈ y :: rest := hperm.subset (by simp)
      exact (List.mem_cons.1 hx').resolve_left hxy
    obtain ⟨s, t, rfl⟩ := List.append_of_mem hmem
    have hmiddle : (s ++ x :: t).Perm (x :: (s ++ t)) := List.perm_middle
    have hleft : (things.eraseP (fits i)).Perm (y :: (s ++ t)) := by
      refine (List.perm_cons x).1 (hperm.trans ?_)
      exact (hmiddle.cons y).trans (.swap x y _)
    refine Assignable.perm ?_ hleft.symm
    refine (hassign.perm hmiddle).replace fun j hj hjx => ?_
    rcases List.rel_of_pairwise_cons hnested hj with hdisjoint | hsub
    · rw [hdisjoint x hx] at hjx
      cases hjx
    · exact hsub y hy

theorem not_cornered_of_nested (hnested : Nested fits wants) : ¬ Cornered fits wants things := by
  induction wants generalizing things with
  | nil => exact id
  | cons i wants ih =>
      rintro ⟨_, ⟨hbefore, hafter⟩ | hlater⟩
      · exact hafter (hbefore.eraseP_of_nested hnested)
      · exact ih (List.pairwise_cons.1 hnested).2 hlater

/-! ## Wants that are not nested -/

/-- Wants whose own things come first are served with them. -/
theorem greedy_append {front : List ι} {own : ι → α} (hown : ∀ k ∈ front, fits k (own k) = true) :
    greedy fits (front ++ wants) (front.map own ++ things) = greedy fits wants things := by
  induction front with
  | nil => rfl
  | cons k front ih =>
      have hk := hown k (by simp)
      rw [List.cons_append, List.map_cons, List.cons_append, greedy_cons, List.any_cons, hk,
        List.eraseP_cons_of_pos hk]
      exact ih fun j hj => hown j (by simp [hj])

/-- **A pair of wants that is not nested can be cornered**: the first of the two takes what the later one
needs, and every other want has something that is of no use to the later one, if it can. -/
theorem exists_cornered {front middle back : List ι} {j : ι}
    (hsome : ∀ k ∈ front ++ i :: (middle ++ j :: back), ∃ a, fits k a = true)
    (hmeet : ∃ x, fits i x = true ∧ fits j x = true) (hleave : ∃ y, fits i y = true ∧ fits j y = false) :
    ∃ things : List α, Assignable fits (front ++ i :: (middle ++ j :: back)) things ∧
      greedy fits (front ++ i :: (middle ++ j :: back)) things = false := by
  classical
  obtain ⟨x, hix, hjx⟩ := hmeet
  obtain ⟨y, hiy, hjy⟩ := hleave
  -- what a want gets: something the later one cannot use, where there is such a thing
  have hchoice : ∀ k, ∃ a, ((∃ b, fits k b = true) → fits k a = true) ∧
      ((∃ b, fits k b = true ∧ fits j b = false) → fits j a = false) := by
    intro k
    by_cases hfree : ∃ b, fits k b = true ∧ fits j b = false
    · obtain ⟨b, hk, hj⟩ := hfree
      exact ⟨b, fun _ => hk, fun _ => hj⟩
    · by_cases hany : ∃ b, fits k b = true
      · exact ⟨hany.choose, fun _ => hany.choose_spec, fun h => absurd h hfree⟩
      · exact ⟨x, fun h => absurd h hany, fun h => absurd h hfree⟩
  choose own hown hfree using hchoice
  have hfits : ∀ k ∈ front ++ i :: (middle ++ j :: back), fits k (own k) = true :=
    fun k hk => hown k (hsome k hk)
  refine ⟨front.map own ++ x :: y :: (middle ++ back).map own, ?_, ?_⟩
  · refine ⟨front.map own ++ y :: (middle.map own ++ x :: back.map own), ?_, ?_⟩
    · have hmap : ∀ l : List ι, (∀ k ∈ l, fits k (own k) = true) →
          List.Forall₂ (fun k a => fits k a = true) l (l.map own) := by
        intro l hl
        rw [List.forall₂_map_right_iff, List.forall₂_same]
        exact hl
      refine List.rel_append (hmap front fun k hk => hfits k (by simp [hk])) (.cons hiy ?_)
      exact List.rel_append (hmap middle fun k hk => hfits k (by simp [hk]))
        (.cons hjx (hmap back fun k hk => hfits k (by simp [hk])))
    · refine List.Perm.append_left _ ?_
      rw [List.map_append]
      exact (List.perm_middle.cons y).trans (.swap x y _)
  · rw [greedy_append fun k hk => hfits k (by simp [hk]), greedy_cons, List.any_cons, hix,
      List.eraseP_cons_of_pos hix, Bool.true_or, Bool.true_and, Bool.eq_false_iff]
    intro hgreedy
    -- the wants that fit only what the later one fits are more than the things it fits
    have hcount := (greedy_assignable hgreedy).countP_le (p := fun k => decide (∀ b, fits k b = true →
      fits j b = true)) (q := fits j) fun k a hk ha => of_decide_eq_true hk a ha
    have hsame : (((middle ++ back).map own).countP (fits j)) =
        (middle ++ back).countP fun k => decide (∀ b, fits k b = true → fits j b = true) := by
      rw [List.countP_map]
      refine List.countP_congr fun k hk => ?_
      simp only [Function.comp_apply, decide_eq_true_eq]
      constructor
      · intro hj b hb
        by_contra hne
        have := hfree k ⟨b, hb, by simpa using hne⟩
        rw [this] at hj
        cases hj
      · exact fun hall => hall _ (hfits k (by simp at hk ⊢; tauto))
    rw [List.countP_cons, hjy, hsame, List.countP_append, List.countP_cons, List.countP_append,
      if_pos (decide_eq_true fun _ hb => hb), if_neg (by decide)] at hcount
    omega

theorem exists_of_not_pairwise {R : ι → ι → Prop} (h : ¬ wants.Pairwise R) :
    ∃ front i middle j back, wants = front ++ i :: (middle ++ j :: back) ∧ ¬ R i j := by
  induction wants with
  | nil => exact absurd .nil h
  | cons i wants ih =>
      by_cases hhead : ∀ j ∈ wants, R i j
      · obtain ⟨front, k, middle, j, back, rfl, hrel⟩ :=
          ih fun htail => h (List.pairwise_cons.2 ⟨hhead, htail⟩)
        exact ⟨i :: front, k, middle, j, back, rfl, hrel⟩
      · push Not at hhead
        obtain ⟨j, hj, hrel⟩ := hhead
        obtain ⟨middle, back, rfl⟩ := List.append_of_mem hj
        exact ⟨[], i, middle, j, back, rfl, hrel⟩

/-- **When first fit is exact**, for all lists of at most `n` things. -/
theorem exact_iff_nested {n : Nat} :
    (∀ things : List α, things.length ≤ n →
        (greedy fits wants things = true ↔ Assignable fits wants things)) ↔
      n < wants.length ∨ (∃ i ∈ wants, ∀ a, fits i a = false) ∨ Nested fits wants := by
  constructor
  · intro h
    by_contra hcon
    rw [not_or, not_or] at hcon
    obtain ⟨hlen, hsome, hnested⟩ := hcon
    obtain ⟨front, i, middle, j, back, rfl, hrel⟩ := exists_of_not_pairwise hnested
    push Not at hrel hsome
    obtain ⟨⟨x, hix, hjx⟩, y, hiy, hjy⟩ := hrel
    obtain ⟨things, hassign, hgreedy⟩ := exists_cornered
      (fun k hk => (hsome k hk).imp fun _ ha => by simpa using ha)
      ⟨x, hix, by simpa using hjx⟩ ⟨y, hiy, by simpa using hjy⟩
    have hexact := (h things (by rw [hassign.length_eq]; omega)).2 hassign
    rw [hexact] at hgreedy
    cases hgreedy
  · rintro (hlen | ⟨i, hi, hnone⟩ | hnested) things hthings
    · refine ⟨greedy_assignable, fun hassign => ?_⟩
      have := hassign.length_eq
      omega
    · refine ⟨greedy_assignable, fun hassign => ?_⟩
      obtain ⟨a, ha⟩ := hassign.exists_fits hi
      rw [hnone a] at ha
      cases ha
    · exact greedy_iff_assignable.2 (not_cornered_of_nested hnested)

end FirstFit
