import Apoptotic.Lib.Floats
import Mathlib.Tactic.NormNum

/-!
# Rounding

What `f64` arithmetic says of finite values: a result is the exact one rounded, rounding keeps the order,
and a number that is a value is not rounded.  So a result is between two values when the exact one is.

Principal definitions: `IsDouble` — the numbers that are values; `Rounded`; `Rounding` — the operations
round; `AtMost` — a bound on both sides.

Principal results: `Rounding.add_atMost`, `Rounding.mul_atMost` — bounds of a result;
`Rounded.value_eq` — an exact result.
-/

namespace Floats

/-- A number of 53 bits, with an exponent in range. -/
def IsDouble (q : Rat) : Prop := ∃ n e : Int, |n| ≤ 2 ^ 53 ∧ -1074 ≤ e ∧ e ≤ 970 ∧ q = n * 2 ^ e

theorem isDouble_int {n : Int} (h : |n| ≤ 2 ^ 53) : IsDouble n := ⟨n, 0, h, by decide, by decide, by simp⟩

theorem isDouble_two_pow {k : Nat} (hk : k ≤ 970) : IsDouble (2 ^ k) :=
  ⟨1, k, by decide, by omega, by omega, by simp⟩

theorem isDouble_div (n : Int) {k : Nat} (h : |n| ≤ 2 ^ 53) (hk : k ≤ 1074) : IsDouble (n / 2 ^ k) :=
  ⟨n, -k, h, by omega, by omega, by rw [zpow_neg, zpow_natCast, div_eq_mul_inv]⟩

theorem IsDouble.neg {q : Rat} (h : IsDouble q) : IsDouble (-q) := by
  obtain ⟨n, e, hn, hlo, hhi, rfl⟩ := h
  exact ⟨-n, e, by rwa [abs_neg], hlo, hhi, by push_cast; ring⟩

variable {F : Type} (fl : Floats F)

/-- The value is between two numbers. -/
def Between (lo hi : Rat) (x : F) : Prop := ∃ q, fl.value x = some q ∧ lo ≤ q ∧ q ≤ hi

/-- The value is at most `b` in absolute value. -/
abbrev AtMost (b : Rat) (x : F) : Prop := fl.Between (-b) b x

/-- `x` is `r` rounded, in whatever direction. -/
def Rounded (r : Rat) (x : F) : Prop :=
  ∀ lo hi, IsDouble lo → IsDouble hi → lo ≤ r → r ≤ hi → fl.Between lo hi x

/-- The operations round. -/
structure Rounding : Prop where
  lit : ∀ q, fl.Rounded q (fl.lit q)
  add : ∀ {x y p q}, fl.value x = some p → fl.value y = some q → fl.Rounded (p + q) (fl.add x y)
  mul : ∀ {x y p q}, fl.value x = some p → fl.value y = some q → fl.Rounded (p * q) (fl.mul x y)
  /-- The square root of a number between two squares. -/
  sqrt : ∀ {x q} {m n : Nat}, fl.value x = some q → m ≤ 2 ^ 53 → n ≤ 2 ^ 53 → (m : Rat) * m ≤ q →
    q ≤ n * n → fl.Between m n (fl.sqrt x)
  le : ∀ {x y p q}, fl.value x = some p → fl.value y = some q → fl.le x y = decide (p ≤ q)
  lt : ∀ {x y p q}, fl.value x = some p → fl.value y = some q → fl.lt x y = decide (p < q)

variable {fl} {x y : F} {a b r : Rat}

/-- A number that is a value is not rounded. -/
theorem Rounded.value_eq (h : fl.Rounded r x) (hr : IsDouble r) : fl.value x = some r := by
  obtain ⟨q, hq, hlo, hhi⟩ := h r r hr hr le_rfl le_rfl
  rw [hq, le_antisymm hhi hlo]

theorem Rounded.atMost (h : fl.Rounded r x) (hb : IsDouble b) (hlo : -b ≤ r) (hhi : r ≤ b) :
    fl.AtMost b x := h _ _ hb.neg hb hlo hhi

theorem atMost_of_value (hx : fl.value x = some a) (ha : 0 ≤ a) : fl.AtMost a x :=
  ⟨a, hx, by linarith, le_rfl⟩

namespace Rounding

variable (h : fl.Rounding)

include h

theorem add_atMost (hx : fl.AtMost a x) (hy : fl.AtMost b y) (hb : IsDouble (a + b)) :
    fl.AtMost (a + b) (fl.add x y) := by
  obtain ⟨p, hp, hplo, hphi⟩ := hx
  obtain ⟨q, hq, hqlo, hqhi⟩ := hy
  exact (h.add hp hq).atMost hb (by linarith) (by linarith)

theorem mul_atMost (hx : fl.AtMost a x) (hy : fl.AtMost b y) (hb : IsDouble (a * b)) :
    fl.AtMost (a * b) (fl.mul x y) := by
  obtain ⟨p, hp, hplo, hphi⟩ := hx
  obtain ⟨q, hq, hqlo, hqhi⟩ := hy
  have habs : |p * q| ≤ a * b := by
    rw [abs_mul]
    exact mul_le_mul (abs_le.2 ⟨hplo, hphi⟩) (abs_le.2 ⟨hqlo, hqhi⟩) (abs_nonneg q)
      ((abs_nonneg p).trans (abs_le.2 ⟨hplo, hphi⟩))
  obtain ⟨hlo, hhi⟩ := abs_le.1 habs
  exact (h.mul hp hq).atMost hb hlo hhi

theorem lit_atMost (hb : IsDouble b) (hlo : -b ≤ r) (hhi : r ≤ b) : fl.AtMost b (fl.lit r) :=
  (h.lit r).atMost hb hlo hhi

theorem value_lit (hr : IsDouble r) : fl.value (fl.lit r) = some r := (h.lit r).value_eq hr

end Rounding

/-! ## Arithmetic without rounding -/

theorem rounded_exact (r : Rat) : exact.Rounded r r := fun _ _ _ _ hlo hhi => ⟨r, rfl, hlo, hhi⟩

/-- **Arithmetic without rounding rounds.** -/
theorem exact_rounding : exact.Rounding where
  lit := rounded_exact
  add := by
    rintro x y _ _ ⟨⟩ ⟨⟩
    exact rounded_exact _
  mul := by
    rintro x y _ _ ⟨⟩ ⟨⟩
    exact rounded_exact _
  sqrt := by
    rintro x _ m n ⟨⟩ - - hlo hhi
    refine ⟨_, rfl, ?_, ?_⟩
    · have hfloor : m * m ≤ ⌊x⌋.toNat := by
        have : ((m * m : Nat) : Int) ≤ ⌊x⌋ := Int.le_floor.2 (by push_cast; exact hlo)
        omega
      show (m : Rat) ≤ (Nat.sqrt ⌊x⌋.toNat : Rat)
      exact_mod_cast Nat.le_sqrt.2 hfloor
    · have hfloor : ⌊x⌋.toNat ≤ n * n := by
        have : ⌊x⌋ ≤ ((n * n : Nat) : Int) := by
          rw [Int.floor_le_iff]
          push_cast
          linarith
        omega
      have hsqrt : Nat.sqrt ⌊x⌋.toNat ≤ n := (Nat.sqrt_le_sqrt hfloor).trans_eq (Nat.sqrt_eq n)
      show (Nat.sqrt ⌊x⌋.toNat : Rat) ≤ (n : Rat)
      exact_mod_cast hsqrt
  le := by
    rintro x y _ _ ⟨⟩ ⟨⟩
    rfl
  lt := by
    rintro x y _ _ ⟨⟩ ⟨⟩
    rfl

end Floats
