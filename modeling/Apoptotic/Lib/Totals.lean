import Apoptotic.Lib.Reached
import Mathlib.Algebra.BigOperators.Group.List.Basic
import Mathlib.Algebra.Group.Nat.Defs
import Mathlib.Data.List.AList

/-!
# Totals over tables

Each row of a table weighs something, and the weights are added up.  A ledger says for every action
by how much it should change a total.

Principal results: `total_eq_erase`, `total_insert` and `total_congr` — how a total changes with one
row of the table or of the weights; `keepsLedger_iff` — a total agrees with its ledger in every state
of a run exactly when every action of the run changes it as the ledger says.
-/

namespace Totals

section

variable {K V M : Type} [AddCommMonoid M]

/-- The weight of the whole table. -/
def total (w : K → V → M) (t : AList fun _ : K => V) : M := (t.entries.map fun r => w r.1 r.2).sum

/-- Weights only matter on the rows of the table. -/
theorem total_congr {w w' : K → V → M} {t : AList fun _ : K => V}
    (h : ∀ k ∈ t, ∀ v, w k v = w' k v) : total w t = total w' t := by
  unfold total
  refine congrArg List.sum (List.map_congr_left fun r hr => h r.1 ?_ r.2)
  exact AList.mem_keys.2 (List.mem_map_of_mem hr)

variable [DecidableEq K]

/-- The weight of one row. -/
def weightAt (w : K → V → M) (t : AList fun _ : K => V) (k : K) : M :=
  match t.lookup k with
  | some v => w k v
  | none => 0

theorem weightAt_of_none {w : K → V → M} {t : AList fun _ : K => V} {k : K}
    (h : t.lookup k = none) : weightAt w t k = 0 := by
  rw [weightAt, h]

theorem weightAt_of_some {w : K → V → M} {t : AList fun _ : K => V} {k : K} {v : V}
    (h : t.lookup k = some v) : weightAt w t k = w k v := by
  rw [weightAt, h]

theorem erase_of_none {t : AList fun _ : K => V} {k : K} (h : t.lookup k = none) :
    t.erase k = t :=
  AList.ext (List.kerase_of_notMem_keys (AList.mem_keys.not.1 (AList.lookup_eq_none.1 h)))

theorem erase_insert (t : AList fun _ : K => V) (k : K) (v : V) :
    (t.insert k v).erase k = t.erase k :=
  AList.ext (List.kerase_cons_eq rfl)

/-- A row of the table, and the others. -/
theorem entries_perm {t : AList fun _ : K => V} {k : K} {v : V} (h : t.lookup k = some v) :
    t.entries.Perm (⟨k, v⟩ :: (t.erase k).entries) := by
  have hk : k ∈ t.entries.keys := AList.mem_keys.1 (AList.lookup_isSome.1 (by rw [h]; rfl))
  obtain ⟨v', before, after, -, hsplit, herase⟩ := List.exists_of_kerase hk
  have hv : t.lookup k = some v' := AList.mem_lookup_iff.2 (by rw [hsplit]; simp)
  obtain rfl : v = v' := Option.some.inj (h.symm.trans hv)
  have hrest : (t.erase k).entries = before ++ after := herase
  rw [hsplit, hrest]
  exact List.perm_middle

/-- One row can be taken out of the sum. -/
theorem total_eq_erase (w : K → V → M) (t : AList fun _ : K => V) (k : K) :
    total w t = weightAt w t k + total w (t.erase k) := by
  cases h : t.lookup k with
  | none => rw [weightAt_of_none h, erase_of_none h, zero_add]
  | some v =>
      rw [weightAt_of_some h, total, ((entries_perm h).map _).sum_eq]
      rfl

theorem total_insert (w : K → V → M) (t : AList fun _ : K => V) (k : K) (v : V) :
    total w (t.insert k v) = w k v + total w (t.erase k) := by
  unfold total
  rw [AList.entries_insert]
  rfl

/-- Weights that differ in one row only. -/
theorem total_erase_congr {w w' : K → V → M} {t : AList fun _ : K => V} {k : K}
    (h : ∀ k', k' ≠ k → ∀ v, w k' v = w' k' v) : total w (t.erase k) = total w' (t.erase k) :=
  total_congr fun k' hk' v => h k' (AList.mem_erase.1 hk').1 v

end

/-! ## Ledgers -/

section

variable {S A M : Type} [AddCommGroup M] (step : S → A → S) (amount : S → M) (change : S → A → M)

/-- What the ledger says of a list of actions. -/
def changes : S → List A → M
  | _, [] => 0
  | s, a :: as => change s a + changes (step s a) as

/-- In every state of the run the amount is what it was at the start, and what the ledger says. -/
def KeepsLedger (s : S) (as : List A) : Prop :=
  ∀ run, run <+: as → amount (run.foldl step s) = amount s + changes step change s run

variable {step amount change}

theorem keepsLedger_cons {s : S} {a : A} {as : List A} : KeepsLedger step amount change s (a :: as) ↔
    amount (step s a) = amount s + change s a ∧ KeepsLedger step amount change (step s a) as := by
  constructor
  · intro h
    have hfirst : amount (step s a) = amount s + change s a := by
      have := h [a] (by simp)
      rwa [changes, changes, add_zero] at this
    refine ⟨hfirst, fun run hrun => ?_⟩
    have hlonger := h (a :: run) ((List.prefix_cons_inj a).2 hrun)
    rw [changes, ← add_assoc, ← hfirst] at hlonger
    exact hlonger
  · rintro ⟨hfirst, hrest⟩ run hrun
    cases run with
    | nil => exact (add_zero _).symm
    | cons b run =>
        obtain ⟨rfl, htail⟩ := List.cons_prefix_cons.1 hrun
        rw [changes, ← add_assoc, ← hfirst]
        exact hrest run htail

/-- **A ledger is kept in every state of a run exactly when every action meets the condition under
    which it changes the amount as the ledger says.** -/
theorem keepsLedger_iff {P : S → A → Prop}
    (hiff : ∀ s a, amount (step s a) = amount s + change s a ↔ P s a) (s : S) (as : List A) :
    KeepsLedger step amount change s as ↔ Along step P s as := by
  induction as generalizing s with
  | nil => exact iff_of_true (fun run hrun => by
      rw [List.prefix_nil.1 hrun]
      exact (add_zero _).symm) trivial
  | cons a as ih => rw [keepsLedger_cons, hiff, ih, Along]

end

end Totals
