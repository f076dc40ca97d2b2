import Mathlib.Data.List.Basic
import Mathlib.Logic.Function.Basic

/-!
# Tables written record by record

Each record that has a key writes its value under the key.  What stands in the table in the end is what
the last record of each key wrote, so a property of the values holds everywhere exactly when it holds
of these.

Principal result: `forall_puts_iff`.
-/

namespace LastWrite

variable {K V R : Type} {key : R → Option K} {val : R → V}

/-- The last record of each key has the property. -/
def LastHave (key : R → Option K) (p : R → Prop) (rs : List R) : Prop :=
  ∀ pre r post, rs = pre ++ r :: post → ∀ k, key r = some k → (∀ r' ∈ post, key r' ≠ some k) → p r

theorem lastHave_congr {p q : R → Prop} {rs : List R} (h : ∀ r ∈ rs, p r ↔ q r) :
    LastHave key p rs ↔ LastHave key q rs := by
  have hiff : ∀ pre r post, rs = pre ++ r :: post → (p r ↔ q r) := by
    intro pre r post hrs
    exact h r (hrs ▸ List.mem_append_right pre List.mem_cons_self)
  constructor
  · intro hp pre r post hrs k hk hpost
    exact (hiff pre r post hrs).1 (hp pre r post hrs k hk hpost)
  · intro hq pre r post hrs k hk hpost
    exact (hiff pre r post hrs).2 (hq pre r post hrs k hk hpost)

variable [DecidableEq K]

/-- The table after one record. -/
def put (key : R → Option K) (val : R → V) (t : K → V) (r : R) : K → V :=
  match key r with
  | some k => Function.update t k (val r)
  | none => t

/-- The table after all the records. -/
def puts (key : R → Option K) (val : R → V) (t : K → V) (rs : List R) : K → V :=
  rs.foldl (put key val) t

variable {t : K → V} {k : K} {r : R} {pre rs post : List R}

theorem put_self (h : key r = some k) : put key val t r k = val r := by
  unfold put
  rw [h]
  exact Function.update_self ..

theorem put_of_ne (h : key r ≠ some k) : put key val t r k = t k := by
  unfold put
  cases hk : key r with
  | none => rfl
  | some k' => exact Function.update_of_ne (fun hkk => h (hk.trans (congrArg some hkk.symm))) _ _

/-- Records of other keys leave the key alone. -/
theorem puts_of_forall_ne (h : ∀ r ∈ rs, key r ≠ some k) : puts key val t rs k = t k := by
  induction rs generalizing t with
  | nil => rfl
  | cons r rs ih =>
      calc puts key val t (r :: rs) k = puts key val (put key val t r) rs k := rfl
        _ = put key val t r k := ih fun r' hr' => h r' (List.mem_cons_of_mem r hr')
        _ = t k := put_of_ne (h r List.mem_cons_self)

/-- The last record of a key decides. -/
theorem puts_last (hk : key r = some k) (h : ∀ r' ∈ post, key r' ≠ some k) :
    puts key val t (pre ++ r :: post) k = val r := by
  calc puts key val t (pre ++ r :: post) k
      = puts key val (put key val (puts key val t pre) r) post k := by
        unfold puts
        rw [List.foldl_append]
        rfl
    _ = put key val (puts key val t pre) r k := puts_of_forall_ne h
    _ = val r := put_self hk

/-- A key that is written has a last record. -/
theorem exists_last (h : ∃ r ∈ rs, key r = some k) :
    ∃ pre r post, rs = pre ++ r :: post ∧ key r = some k ∧ ∀ r' ∈ post, key r' ≠ some k := by
  induction rs with
  | nil =>
      obtain ⟨r, hr, -⟩ := h
      cases hr
  | cons a rs ih =>
      by_cases hlater : ∃ r ∈ rs, key r = some k
      · obtain ⟨pre, r, post, hrs, hk, hpost⟩ := ih hlater
        exact ⟨a :: pre, r, post, congrArg (a :: ·) hrs, hk, hpost⟩
      · have hnone : ∀ r' ∈ rs, key r' ≠ some k := fun r' hr' hk => hlater ⟨r', hr', hk⟩
        obtain ⟨r, hr, hk⟩ := h
        rcases List.mem_cons.1 hr with rfl | hr
        · exact ⟨[], r, rs, rfl, hk, hnone⟩
        · exact absurd hk (hnone r hr)

/-- Where all the records of a key write one value, that value is left. -/
theorem puts_eq_of_forall {v : V} (h : ∃ r ∈ rs, key r = some k)
    (hall : ∀ r ∈ rs, key r = some k → val r = v) : puts key val t rs k = v := by
  obtain ⟨pre, r, post, rfl, hk, hpost⟩ := exists_last h
  rw [puts_last hk hpost]
  exact hall r (List.mem_append_right pre List.mem_cons_self) hk

/-- **A property that held everywhere still does exactly when the last record of each key wrote a value
    that has it.** -/
theorem forall_puts_iff {p : V → Prop} (h : ∀ k, p (t k)) :
    (∀ k, p (puts key val t rs k)) ↔ LastHave key (fun r => p (val r)) rs := by
  constructor
  · intro hall pre r post hrs k hk hpost
    have hp := hall k
    rw [hrs, puts_last hk hpost] at hp
    exact hp
  · intro hlast k
    by_cases hk : ∃ r ∈ rs, key r = some k
    · obtain ⟨pre, r, post, hrs, hkr, hpost⟩ := exists_last hk
      rw [hrs, puts_last hkr hpost]
      exact hlast pre r post hrs k hkr hpost
    · rw [puts_of_forall_ne fun r hr hkr => hk ⟨r, hr, hkr⟩]
      exact h k

end LastWrite
