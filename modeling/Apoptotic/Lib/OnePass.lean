import Mathlib.Data.Finset.Basic
import Mathlib.Data.Finset.Dedup
import Mathlib.Data.Finset.Lattice.Lemmas
import Mathlib.Data.List.Nodup

/-!
# Rules applied in one pass

A rule has a head, which it concludes when it is ready and the one head that it needs, if any, is
concluded.  A pass visits the rules in the order of a list, each once; some rules are free and fire
whether their need is met or not.

Principal results: `mem_pass_iff_closure_iff` — one pass reaches the closure of the rules exactly when
free rules conclude nothing else and every rule comes behind the one it still needs; `pass_eq` — what
fires is new, and no head fires twice.
-/

namespace OnePass

variable {K R : Type}

/-- The least set with the heads of the ready rules whose need is in it. -/
inductive Closure (head : R → K) (needs : R → Option K) (rules : List R) (ready : R → Prop) : K → Prop
  | intro {r : R} (hr : r ∈ rules) (hready : ready r)
      (hneeds : ∀ p, needs r = some p → Closure head needs rules ready p) :
      Closure head needs rules ready (head r)

section

variable {head : R → K} {needs : R → Option K} {rules : List R} {ready ready' : R → Prop}

/-- The closure is in every set that is closed under the rules. -/
theorem Closure.least {S : Set K}
    (hS : ∀ r ∈ rules, ready r → (∀ p, needs r = some p → p ∈ S) → head r ∈ S) {k : K}
    (hk : Closure head needs rules ready k) : k ∈ S := by
  induction hk with
  | intro hr hready _ ih => exact hS _ hr hready ih

/-- More ready rules conclude more. -/
theorem Closure.mono (h : ∀ r, ready r → ready' r) {k : K} (hk : Closure head needs rules ready k) :
    Closure head needs rules ready' k := by
  induction hk with
  | intro hr hready _ ih => exact .intro hr (h _ hready) ih

end

variable [DecidableEq K] (head : R → K) (needs : R → Option K) (free ready : R → Prop)
  [DecidablePred free] [DecidablePred ready]

/-- The need of a rule is met. -/
def Met (known : Finset K) (r : R) : Prop := ∀ p, needs r = some p → p ∈ known

instance (known : Finset K) (r : R) : Decidable (Met needs known r) :=
  match h : needs r with
  | none => .isTrue fun p hp => by rw [h] at hp; cases hp
  | some q => decidable_of_iff (q ∈ known)
      ⟨fun hq p hp => by rw [h] at hp; cases hp; exact hq, fun hmet => hmet q h⟩

/-- The rule fires. -/
def Fires (known : Finset K) (r : R) : Prop :=
  head r ∉ known ∧ (free r ∨ ready r ∧ Met needs known r)

instance (known : Finset K) (r : R) : Decidable (Fires head needs free ready known r) :=
  inferInstanceAs (Decidable (_ ∧ (_ ∨ _ ∧ _)))

/-- What is known, and the heads that fired. -/
def visit (s : Finset K × List K) (r : R) : Finset K × List K :=
  if Fires head needs free ready s.1 r then (insert (head r) s.1, s.2 ++ [head r]) else s

def pass (rules : List R) (s : Finset K × List K) : Finset K × List K :=
  rules.foldl (visit head needs free ready) s

variable {head needs free ready} {rules pre post : List R} {s : Finset K × List K} {r : R} {k : K}

theorem pass_append : pass head needs free ready (pre ++ post) s =
    pass head needs free ready post (pass head needs free ready pre s) := List.foldl_append

theorem pass_cons : pass head needs free ready (r :: rules) s =
    pass head needs free ready rules (visit head needs free ready s r) := rfl

theorem mem_visit : k ∈ (visit head needs free ready s r).1 ↔
    k ∈ s.1 ∨ Fires head needs free ready s.1 r ∧ k = head r := by
  unfold visit
  split
  · rename_i hfires
    rw [Finset.mem_insert, or_comm, and_iff_right hfires]
  · rename_i hnot
    exact (or_iff_left fun h => hnot h.1).symm

/-- What is known stays known. -/
theorem mem_pass_of_mem (h : k ∈ s.1) : k ∈ (pass head needs free ready rules s).1 := by
  induction rules generalizing s with
  | nil => exact h
  | cons r rules ih =>
      rw [pass_cons]
      exact ih (mem_visit.2 (.inl h))

/-- Only rules with a head conclude it. -/
theorem mem_pass_of_notMem (h : k ∉ rules.map head) :
    k ∈ (pass head needs free ready rules s).1 ↔ k ∈ s.1 := by
  induction rules generalizing s with
  | nil => rfl
  | cons r rules ih =>
      rw [List.map_cons, List.mem_cons, not_or] at h
      rw [pass_cons, ih h.2, mem_visit]
      exact or_iff_left fun hfires => h.1 hfires.2

/-- A rule that is visited when it may fire has its head known in the end. -/
theorem head_mem_pass
    (h : free r ∨ ready r ∧ Met needs (pass head needs free ready pre s).1 r) :
    head r ∈ (pass head needs free ready (pre ++ r :: post) s).1 := by
  rw [pass_append, pass_cons]
  apply mem_pass_of_mem
  rw [mem_visit]
  by_cases hknown : head r ∈ (pass head needs free ready pre s).1
  · exact .inl hknown
  · exact .inr ⟨⟨hknown, h⟩, rfl⟩

/-- When free rules conclude nothing else, a pass stays in the closure. -/
theorem closure_of_mem_pass {all : List R} (hsub : rules ⊆ all)
    (hfree : ∀ r ∈ all, free r → Closure head needs all ready (head r))
    (hs : ∀ k ∈ s.1, Closure head needs all ready k)
    (hk : k ∈ (pass head needs free ready rules s).1) : Closure head needs all ready k := by
  induction rules generalizing s with
  | nil => exact hs k hk
  | cons r rules ih =>
      obtain ⟨hr, hrules⟩ := List.cons_subset.1 hsub
      refine ih hrules (fun k hk => ?_) hk
      rcases mem_visit.1 hk with hk | ⟨⟨-, hfires⟩, rfl⟩
      · exact hs k hk
      · rcases hfires with hf | ⟨hready, hmet⟩
        · exact hfree r hr hf
        · exact .intro hr hready fun p hp => hs p (hmet p hp)

/-- **One pass reaches the closure exactly when every free rule concludes what the closure has anyway,
and every other rule that is ready for a head that is still missing comes behind the rule it needs,
unless that one's head is known before.** -/
theorem mem_pass_iff_closure_iff (hheads : (rules.map head).Nodup)
    (hs : ∀ k ∈ s.1, Closure head needs rules ready k) :
    (∀ k, k ∈ (pass head needs free ready rules s).1 ↔ Closure head needs rules ready k) ↔
      (∀ r ∈ rules, free r → Closure head needs rules ready (head r)) ∧
      ∀ pre r post, rules = pre ++ r :: post → ready r → ¬ free r → head r ∉ s.1 →
        ∀ p, needs r = some p → Closure head needs rules ready p → p ∈ s.1 ∨ p ∈ pre.map head := by
  constructor
  · intro h
    refine ⟨fun r hr hf => ?_, fun pre r post hsplit hready hf hmissing p hp hclosure => ?_⟩
    · obtain ⟨pre, post, rfl⟩ := List.append_of_mem hr
      exact (h _).1 (head_mem_pass (.inl hf))
    · have hr : r ∈ rules := hsplit ▸ List.mem_append_right pre List.mem_cons_self
      have hhead : Closure head needs rules ready (head r) := by
        refine .intro hr hready fun p' hp' => ?_
        cases hp.symm.trans hp'
        exact hclosure
      have hknown := (h _).2 hhead
      rw [hsplit, List.map_append, List.map_cons, List.nodup_middle, List.nodup_cons,
        List.mem_append, not_or] at hheads
      -- the head can only have been concluded at the visit of the rule itself
      rw [hsplit, pass_append, pass_cons, mem_pass_of_notMem hheads.1.2, mem_visit] at hknown
      rcases hknown with hearly | ⟨⟨-, hfires⟩, -⟩
      · rw [mem_pass_of_notMem hheads.1.1] at hearly
        exact absurd hearly hmissing
      · have hmet := (hfires.resolve_left hf).2 p hp
        by_cases hpre : p ∈ pre.map head
        · exact .inr hpre
        · exact .inl ((mem_pass_of_notMem hpre).1 hmet)
  · rintro ⟨hfree, hbehind⟩ k
    refine ⟨closure_of_mem_pass (List.Subset.refl rules) hfree hs, fun hk => ?_⟩
    induction hk with
    | @intro r hr hready hneeds ih =>
        obtain ⟨pre, post, hsplit⟩ := List.append_of_mem hr
        rw [hsplit]
        by_cases hf : free r
        · exact head_mem_pass (.inl hf)
        by_cases hmissing : head r ∈ s.1
        · exact mem_pass_of_mem hmissing
        refine head_mem_pass (.inr ⟨hready, fun p hp => ?_⟩)
        rcases hbehind pre r post hsplit hready hf hmissing p hp (hneeds p hp) with hp' | hpre
        · exact mem_pass_of_mem hp'
        · -- the head that is needed is none of those from here on
          have hlate : p ∉ (r :: post).map head := by
            rw [hsplit, List.map_append, List.nodup_append] at hheads
            exact fun hpost => hheads.2.2 p hpre p hpost rfl
          have hknown := ih p hp
          rw [hsplit, pass_append] at hknown
          exact (mem_pass_of_notMem hlate).1 hknown

/-- **What fires is new, and fires once.** -/
theorem pass_eq (rules : List R) (known : Finset K) (fired : List K) :
    ∃ new, pass head needs free ready rules (known, fired) =
        (known ∪ new.toFinset, fired ++ new) ∧ new.Nodup ∧ ∀ k ∈ new, k ∉ known := by
  induction rules generalizing known fired with
  | nil => exact ⟨[], by simp [pass], List.nodup_nil, List.forall_mem_nil _⟩
  | cons r rules ih =>
      rw [pass_cons, visit]
      split
      · rename_i hfires
        obtain ⟨new, hpass, hnodup, hnew⟩ := ih (insert (head r) known) (fired ++ [head r])
        refine ⟨head r :: new, ?_, ?_, ?_⟩
        · rw [hpass, List.toFinset_cons, Finset.insert_union, Finset.union_insert, List.append_assoc]
          rfl
        · refine List.nodup_cons.2 ⟨fun hmem => ?_, hnodup⟩
          exact hnew _ hmem (Finset.mem_insert_self _ _)
        · refine List.forall_mem_cons.2 ⟨hfires.1, fun k hk hknown => ?_⟩
          exact hnew k hk (Finset.mem_insert_of_mem hknown)
      · exact ih known fired

end OnePass
