import Mathlib.Data.List.Nodup

/-!
# Rules applied one after another

A rule replaces one value by another.  A list of rules is a cascade when each rule acts on what the
rule before has left, and a table when every value is replaced once, by the rule for it.  A sweep
applies a function to what stands at each place of a list.

Principal results: `cascade_eq_table_iff` — a cascade does what the table says for a value exactly
when no rule for its successor comes after its own rule; `cascade_notMem` — in an order that leads
forward nothing is left to replace; `sweep` — what a sweep leaves.
-/

namespace Cascade

variable {α : Type} [DecidableEq α]

def rewrite (rule : α × α) (a : α) : α := if a = rule.1 then rule.2 else a

def cascade (rules : List (α × α)) (a : α) : α := rules.foldl (fun a rule => rewrite rule a) a

/-- The successor that the rules name, or the value itself. -/
def table (rules : List (α × α)) (a : α) : α :=
  match rules.find? fun rule => rule.1 = a with
  | some rule => rule.2
  | none => a

/-- The rule for `b` comes after the rule that leads from `a` to `b`. -/
def Feeds (rules : List (α × α)) (a : α) : Prop := ∃ b c, [(a, b), (b, c)].Sublist rules

theorem rewrite_idem {rule : α × α} (h : rule.2 ≠ rule.1) (a : α) :
    rewrite rule (rewrite rule a) = rewrite rule a := by
  by_cases ha : a = rule.1
  · simp [rewrite, ha, h]
  · simp [rewrite, ha]

theorem cascade_cons (rule : α × α) (rules : List (α × α)) (a : α) :
    cascade (rule :: rules) a = cascade rules (rewrite rule a) := rfl

theorem table_cons (rule : α × α) (rules : List (α × α)) (a : α) :
    table (rule :: rules) a = if rule.1 = a then rule.2 else table rules a := by
  unfold table
  rw [List.find?_cons]
  by_cases h : rule.1 = a
  · rw [if_pos h]
    simp [h]
  · rw [if_neg h]
    simp [h]

/-! ## One table, in any order -/

theorem table_of_mem {rules : List (α × α)} (hnodup : (rules.map Prod.fst).Nodup) {a b : α}
    (h : (a, b) ∈ rules) : table rules a = b := by
  induction rules with
  | nil => cases h
  | cons rule rules ih =>
      rw [List.map_cons, List.nodup_cons] at hnodup
      rw [table_cons]
      rcases List.mem_cons.1 h with rfl | htail
      · exact if_pos rfl
      · rw [if_neg, ih hnodup.2 htail]
        intro heq
        rw [heq] at hnodup
        exact hnodup.1 (List.mem_map_of_mem (f := Prod.fst) htail)

theorem table_of_notMem {rules : List (α × α)} {a : α} (h : a ∉ rules.map Prod.fst) :
    table rules a = a := by
  induction rules with
  | nil => rfl
  | cons rule rules ih =>
      rw [List.map_cons, List.mem_cons, not_or] at h
      rw [table_cons, if_neg (Ne.symm h.1), ih h.2]

/-- The order of the rules is of no account to the table. -/
theorem table_perm {rules rules' : List (α × α)} (hperm : rules.Perm rules')
    (hnodup : (rules'.map Prod.fst).Nodup) (a : α) : table rules a = table rules' a := by
  have hfirsts := hperm.map Prod.fst
  by_cases h : a ∈ rules'.map Prod.fst
  · obtain ⟨⟨a', b⟩, hmem, rfl⟩ := List.mem_map.1 h
    rw [table_of_mem hnodup hmem,
      table_of_mem (hfirsts.nodup_iff.2 hnodup) (hperm.mem_iff.2 hmem)]
  · rw [table_of_notMem h, table_of_notMem fun hmem => h (hfirsts.mem_iff.1 hmem)]

/-! ## The cascade -/

section Rank

variable {rules : List (α × α)} (rank : α → Nat)

include rank

/-- Every rule raises the rank, so a cascade does. -/
theorem rank_cascade (hrank : ∀ rule ∈ rules, rank rule.1 < rank rule.2) (a : α) :
    rank a ≤ rank (cascade rules a) := by
  induction rules generalizing a with
  | nil => exact Nat.le_refl _
  | cons rule rules ih =>
      refine Nat.le_trans ?_ (ih (fun r hr => hrank r (List.mem_cons_of_mem _ hr)) (rewrite rule a))
      unfold rewrite
      split
      · rename_i heq
        rw [heq]
        exact Nat.le_of_lt (hrank rule List.mem_cons_self)
      · exact Nat.le_refl _

theorem cascade_eq_self_iff (hrank : ∀ rule ∈ rules, rank rule.1 < rank rule.2) (a : α) :
    cascade rules a = a ↔ a ∉ rules.map Prod.fst := by
  induction rules with
  | nil => simp [cascade]
  | cons rule rules ih =>
      have htail : ∀ r ∈ rules, rank r.1 < rank r.2 := fun r hr =>
        hrank r (List.mem_cons_of_mem _ hr)
      rw [cascade_cons, List.map_cons, List.mem_cons, not_or]
      unfold rewrite
      split
      · rename_i heq
        refine iff_of_false (fun hback => ?_) (fun hand => hand.1 heq)
        have hrise := rank_cascade rank htail rule.2
        have hstep := hrank rule List.mem_cons_self
        rw [hback, heq] at hrise
        omega
      · rename_i hne
        rw [ih htail]
        exact ⟨fun h => ⟨hne, h⟩, And.right⟩

/-- **A cascade does what the table says** for a value unless a later rule takes up what its own rule
    has left. -/
theorem cascade_eq_table_iff (hrank : ∀ rule ∈ rules, rank rule.1 < rank rule.2)
    (hnodup : (rules.map Prod.fst).Nodup) (a : α) :
    cascade rules a = table rules a ↔ ¬ Feeds rules a := by
  induction rules with
  | nil => simp [cascade, table, Feeds]
  | cons rule rules ih =>
      obtain ⟨first, second⟩ := rule
      have htail : ∀ r ∈ rules, rank r.1 < rank r.2 := fun r hr =>
        hrank r (List.mem_cons_of_mem _ hr)
      rw [List.map_cons, List.nodup_cons] at hnodup
      rw [cascade_cons, table_cons]
      unfold rewrite
      dsimp only
      by_cases heq : a = first
      · subst heq
        rw [if_pos rfl, if_pos rfl, cascade_eq_self_iff rank htail]
        refine not_congr ⟨fun hmem => ?_, ?_⟩
        · obtain ⟨⟨b, c⟩, hrule, rfl⟩ := List.mem_map.1 hmem
          exact ⟨b, c, List.Sublist.cons_cons _ (List.singleton_sublist.2 hrule)⟩
        · rintro ⟨b, c, hsub⟩
          cases hsub with
          | cons _ hsub =>
              have hmem : (a, b) ∈ rules := hsub.subset List.mem_cons_self
              exact absurd (List.mem_map_of_mem hmem) hnodup.1
          | cons_cons _ hsub =>
              exact List.mem_map_of_mem (List.singleton_sublist.1 hsub)
      · rw [if_neg heq, if_neg (Ne.symm heq), ih htail hnodup.2]
        refine not_congr ⟨?_, ?_⟩
        · rintro ⟨b, c, hsub⟩
          exact ⟨b, c, hsub.cons _⟩
        · rintro ⟨b, c, hsub⟩
          cases hsub with
          | cons _ hsub => exact ⟨b, c, hsub⟩
          | cons_cons _ _ => exact absurd rfl heq

end Rank

theorem cascade_eq_or_mem (rules : List (α × α)) (a : α) :
    cascade rules a = a ∨ cascade rules a ∈ rules.map Prod.snd := by
  induction rules generalizing a with
  | nil => exact .inl rfl
  | cons rule rules ih =>
      rw [cascade_cons, List.map_cons, List.mem_cons]
      rcases ih (rewrite rule a) with heq | hmem
      · rw [heq]
        unfold rewrite
        split
        · exact .inr (.inl rfl)
        · exact .inl rfl
      · exact .inr (.inr hmem)

/-- Where no rule leads back to an earlier one, a cascade leaves nothing for any rule. -/
theorem cascade_notMem {rules : List (α × α)} (hne : ∀ rule ∈ rules, rule.2 ≠ rule.1)
    (horder : rules.Pairwise fun rule later => later.2 ≠ rule.1) (a : α) :
    cascade rules a ∉ rules.map Prod.fst := by
  induction rules generalizing a with
  | nil => exact List.not_mem_nil
  | cons rule rules ih =>
      rw [List.pairwise_cons] at horder
      rw [cascade_cons, List.map_cons, List.mem_cons, not_or]
      refine ⟨?_, ih (fun r hr => hne r (List.mem_cons_of_mem _ hr)) horder.2 _⟩
      rcases cascade_eq_or_mem rules (rewrite rule a) with heq | hmem
      · rw [heq]
        unfold rewrite
        split
        · exact hne rule List.mem_cons_self
        · assumption
      · obtain ⟨later, hlater, heq⟩ := List.mem_map.1 hmem
        rw [← heq]
        exact horder.1 later hlater

/-! ## Sweeps -/

/-- A sweep that applies an idempotent function at each place of a list has applied it at these, and
    nothing has changed elsewhere. -/
theorem sweep {S P V : Type} [DecidableEq P] (Inv : S → Prop) (value : S → P → V)
    {step : S → P → S} {g : V → V} (hg : ∀ v, g (g v) = g v)
    (hstep : ∀ s, Inv s → ∀ p, Inv (step s p) ∧
      ∀ q, value (step s p) q = if q = p then g (value s q) else value s q)
    (places : List P) {s : S} (hs : Inv s) :
    Inv (places.foldl step s) ∧
      ∀ q, value (places.foldl step s) q = if q ∈ places then g (value s q) else value s q := by
  induction places generalizing s with
  | nil => exact ⟨hs, fun q => (if_neg List.not_mem_nil).symm⟩
  | cons p places ih =>
      obtain ⟨hinv, hvalue⟩ := hstep s hs p
      obtain ⟨hinv', hvalue'⟩ := ih hinv
      refine ⟨hinv', fun q => ?_⟩
      rw [List.foldl_cons, hvalue', hvalue]
      by_cases hq : q = p
      · subst hq
        rw [if_pos rfl, if_pos List.mem_cons_self, hg, ite_self]
      · rw [if_neg hq]
        simp [hq]

end Cascade
