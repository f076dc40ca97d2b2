import Apoptotic.Lib.Floats
import Mathlib.Analysis.Real.Sqrt

/-!
# Rationals with infinities and a NaN

Floating-point numbers whose arithmetic does not round.  Every comparison with the NaN is false, and
the square root is known by its comparisons only.

Principal results: `sqrtLe_finite`, `sqrtGt_finite` — these comparisons are those of the real square
root; `absSub_le_finite`, `hypot_le_finite` — a distance below a finite bound is one of finite numbers;
`not_lt_trans`, `sqrtGt_mono` — numbers are ordered, and so are the roots of squares.
-/

inductive ERat where
  | nan
  | negInf
  | finite (q : Rat)
  | posInf
  deriving DecidableEq

namespace ERat

instance (n : Nat) : OfNat ERat n := ⟨finite n⟩

/-! ## Arithmetic -/

/-- An infinity times a number of this sign. -/
def infinite (q : Rat) : ERat := if q = 0 then nan else if q < 0 then negInf else posInf

def neg : ERat → ERat
  | nan => nan
  | negInf => posInf
  | finite q => finite (-q)
  | posInf => negInf

def add : ERat → ERat → ERat
  | nan, _ | _, nan | negInf, posInf | posInf, negInf => nan
  | negInf, _ | _, negInf => negInf
  | posInf, _ | _, posInf => posInf
  | finite p, finite q => finite (p + q)

def sub (a b : ERat) : ERat := a.add b.neg

def mul : ERat → ERat → ERat
  | nan, _ | _, nan => nan
  | negInf, negInf | posInf, posInf => posInf
  | negInf, posInf | posInf, negInf => negInf
  | posInf, finite q | finite q, posInf => infinite q
  | negInf, finite q | finite q, negInf => infinite (-q)
  | finite p, finite q => finite (p * q)

def div : ERat → ERat → ERat
  | nan, _ | _, nan => nan
  | finite p, finite q => if q = 0 then infinite p else finite (p / q)
  | finite _, negInf | finite _, posInf => finite 0
  | posInf, finite q => if q < 0 then negInf else posInf
  | negInf, finite q => if q < 0 then posInf else negInf
  | _, _ => nan

def abs : ERat → ERat
  | nan => nan
  | negInf | posInf => posInf
  | finite q => finite |q|

/-! ## Comparisons -/

def le : ERat → ERat → Bool
  | nan, _ | _, nan => false
  | negInf, _ | _, posInf => true
  | _, negInf | posInf, _ => false
  | finite p, finite q => decide (p ≤ q)

def lt : ERat → ERat → Bool
  | nan, _ | _, nan => false
  | _, negInf | posInf, _ => false
  | negInf, _ | _, posInf => true
  | finite p, finite q => decide (p < q)

/-- `max`, which a NaN never wins. -/
def max (a b : ERat) : ERat := if a = nan then b else if a.lt b then b else a

def min (a b : ERat) : ERat := if a = nan then b else if b.lt a then b else a

/-- `a.sqrt() <= b` -/
def sqrtLe : ERat → ERat → Bool
  | finite p, finite q => decide (0 ≤ p ∧ 0 ≤ q ∧ p ≤ q * q)
  | finite p, posInf => decide (0 ≤ p)
  | posInf, posInf => true
  | _, _ => false

/-- `a.sqrt() > b` -/
def sqrtGt : ERat → ERat → Bool
  | finite p, finite q => decide (0 ≤ p ∧ (q < 0 ∨ q * q < p))
  | finite p, negInf => decide (0 ≤ p)
  | posInf, finite _ | posInf, negInf => true
  | _, _ => false

/-- `a.sqrt() < b` -/
def sqrtLt : ERat → ERat → Bool
  | finite p, finite q => decide (0 ≤ p ∧ 0 < q ∧ p < q * q)
  | finite p, posInf => decide (0 ≤ p)
  | _, _ => false

/-- `a.sqrt() >= b` -/
def sqrtGe : ERat → ERat → Bool
  | finite p, finite q => decide (0 ≤ p ∧ (q ≤ 0 ∨ q * q ≤ p))
  | finite p, negInf => decide (0 ≤ p)
  | posInf, negInf | posInf, finite _ | posInf, posInf => true
  | _, _ => false

/-- `x.floor() as i32`; a NaN becomes zero. -/
def floorI32 : ERat → Int
  | nan => 0
  | negInf => saturate (-2147483648)
  | finite q => saturate ⌊q⌋
  | posInf => saturate 2147483647

attribute [local simp] neg add sub mul lt sqrtLe sqrtGt sqrtLt sqrtGe

/-! ## What the comparisons say -/

theorem not_le_of_lt {a b : ERat} (h : a.lt b = true) : b.le a = false := by
  cases a <;> cases b <;> first | rfl | cases h | skip
  rename_i p q
  have hlt : p < q := of_decide_eq_true h
  exact decide_eq_false (not_le.2 hlt)

/-- The first comparison is that of the real square root. -/
theorem sqrtLe_finite {p : Rat} (hp : 0 ≤ p) (q : Rat) :
    sqrtLe (finite p) (finite q) = true ↔ Real.sqrt p ≤ q := by
  have hsq : (p : Real) ≤ (q : Real) ^ 2 ↔ p ≤ q * q := by
    rw [sq]
    exact_mod_cast Iff.rfl
  unfold sqrtLe
  rw [decide_eq_true_iff, Real.sqrt_le_iff, hsq, Rat.cast_nonneg]
  exact and_iff_right hp

/-- The second one is its negation, but for a NaN. -/
theorem sqrtGt_finite {p : Rat} (hp : 0 ≤ p) (q : Rat) :
    sqrtGt (finite p) (finite q) = true ↔ (q : Real) < Real.sqrt p := by
  rw [← not_le, ← sqrtLe_finite hp]
  unfold sqrtGt sqrtLe
  rw [decide_eq_true_iff, decide_eq_true_iff, and_iff_right hp, and_iff_right hp, not_and_or, not_le,
    not_le]

/-- A finite difference is one of finite numbers. -/
theorem sub_eq_finite_iff {a b : ERat} {d : Rat} :
    a.sub b = finite d ↔ ∃ p q, a = finite p ∧ b = finite q ∧ d = p - q := by
  constructor
  · intro h
    cases a <;> cases b <;> cases h
    rename_i p q
    exact ⟨p, q, rfl, rfl, (sub_eq_add_neg p q).symm⟩
  · rintro ⟨p, q, rfl, rfl, rfl⟩
    exact congrArg finite (sub_eq_add_neg p q).symm

/-- A distance below a finite bound is one of finite numbers. -/
theorem absSub_le_finite {a b : ERat} {m : Rat} :
    (a.sub b).abs.le (finite m) = true ↔ ∃ p q, a = finite p ∧ b = finite q ∧ |p - q| ≤ m := by
  constructor
  · intro h
    cases hd : a.sub b with
    | finite d =>
        obtain ⟨p, q, rfl, rfl, rfl⟩ := sub_eq_finite_iff.1 hd
        rw [hd] at h
        exact ⟨p, q, rfl, rfl, of_decide_eq_true h⟩
    | _ =>
        rw [hd] at h
        cases h
  · rintro ⟨p, q, rfl, rfl, hle⟩
    rw [sub_eq_finite_iff.2 ⟨p, q, rfl, rfl, rfl⟩]
    exact decide_eq_true hle

/-- So is a length in the plane. -/
theorem hypot_le_finite {a b : ERat} {m : Rat} :
    sqrtLe ((a.mul a).add (b.mul b)) (finite m) = true ↔
      ∃ p q, a = finite p ∧ b = finite q ∧ Real.sqrt ((p * p + q * q : Rat) : Real) ≤ m := by
  have hnonneg : ∀ p q : Rat, 0 ≤ p * p + q * q := fun p q =>
    add_nonneg (mul_self_nonneg p) (mul_self_nonneg q)
  constructor
  · intro h
    cases a <;> cases b <;> first | cases h | skip
    rename_i p q
    exact ⟨p, q, rfl, rfl, (sqrtLe_finite (hnonneg p q) m).1 h⟩
  · rintro ⟨p, q, rfl, rfl, hle⟩
    exact (sqrtLe_finite (hnonneg p q) m).2 hle

/-! ## Squares -/

/-- What a sum of squares is when it is a number. -/
def IsSq (d : ERat) : Prop := d = posInf ∨ ∃ p, 0 ≤ p ∧ d = finite p

theorem isSq_mul_self {a : ERat} (h : a ≠ nan) : (a.mul a).IsSq := by
  cases a with
  | nan => exact absurd rfl h
  | negInf => exact Or.inl rfl
  | finite q => exact Or.inr ⟨q * q, mul_self_nonneg q, rfl⟩
  | posInf => exact Or.inl rfl

theorem IsSq.add {a b : ERat} (ha : a.IsSq) (hb : b.IsSq) : (a.add b).IsSq := by
  rcases ha with rfl | ⟨p, hp, rfl⟩ <;> rcases hb with rfl | ⟨q, hq, rfl⟩
  · exact Or.inl rfl
  · exact Or.inl rfl
  · exact Or.inl rfl
  · exact Or.inr ⟨p + q, add_nonneg hp hq, rfl⟩

theorem IsSq.ne_nan {d : ERat} (h : d.IsSq) : d ≠ nan := by
  rcases h with rfl | ⟨p, -, rfl⟩ <;> simp

/-- A NaN stays one. -/
theorem ne_nan_of_add {a b : ERat} (h : a.add b ≠ nan) : a ≠ nan ∧ b ≠ nan := by
  constructor
  · rintro rfl
    exact h rfl
  · rintro rfl
    exact h (by cases a <;> rfl)

theorem ne_nan_of_mul_self {a : ERat} (h : a.mul a ≠ nan) : a ≠ nan := by
  rintro rfl
  exact h rfl

variable {a b c d d' : ERat}

theorem lt_irrefl (a : ERat) : a.lt a = false := by
  cases a <;> simp

theorem lt_asymm (h : a.lt b = true) : b.lt a = false := by
  cases a <;> cases b <;> simp_all
  exact h.le

/-- What is not below a number is not below what that number is not below. -/
theorem not_lt_trans (hb : b ≠ nan) (hab : b.lt a = false) (hbc : c.lt b = false) :
    c.lt a = false := by
  cases a <;> cases b <;> cases c <;> simp_all
  exact hab.trans hbc

/-- Of squares, the comparisons with a number are each other's negations. -/
theorem sqrtGe_eq (hd : d.IsSq) (hb : b ≠ nan) : d.sqrtGe b = !d.sqrtLt b := by
  rcases hd with rfl | ⟨p, hp, rfl⟩
  · cases b <;> simp_all
  · cases b with
    | nan => exact absurd rfl hb
    | negInf => simp [hp]
    | finite q => simp [hp, ← decide_not, not_lt]
    | posInf => simp [hp]

theorem sqrtLe_eq (hd : d.IsSq) (hb : b ≠ nan) : d.sqrtLe b = !d.sqrtGt b := by
  rcases hd with rfl | ⟨p, hp, rfl⟩
  · cases b <;> simp_all
  · cases b with
    | nan => exact absurd rfl hb
    | negInf => simp [hp]
    | finite q => simp [hp, ← decide_not, not_lt]
    | posInf => simp [hp]

theorem sqrtLt_of_sqrtGe (h : d.sqrtGe b = true) : d.sqrtLt b = false := by
  cases d <;> cases b <;> simp_all
  intro hpos
  exact h.2.resolve_left hpos.not_ge

theorem sqrtGt_of_sqrtLe (h : d.sqrtLe b = true) : d.sqrtGt b = false := by
  cases d <;> cases b <;> simp_all

/-- No root is below a bound that is not positive. -/
theorem sqrtLt_of_not_pos (h : lt 0 b = false) (d : ERat) : d.sqrtLt b = false := by
  have hzero : (0 : ERat) = finite 0 := rfl
  rw [hzero] at h
  cases d <;> cases b <;> simp_all

/-- A root above a bound stays above it when the square grows. -/
theorem sqrtGt_mono (hd : d.IsSq) (hd' : d'.IsSq) (hle : d'.lt d = false) (h : d.sqrtGt b = true) :
    d'.sqrtGt b = true := by
  rcases hd with rfl | ⟨p, hp, rfl⟩ <;> rcases hd' with rfl | ⟨q, hq, rfl⟩ <;>
    cases b <;> simp_all
  exact h.imp_right fun h => h.trans_le hle

theorem mul_self_lt {p q : Rat} (hp : 0 ≤ p) (h : p < q) :
    lt ((finite p).mul (finite p)) ((finite q).mul (finite q)) = true :=
  decide_eq_true (mul_self_lt_mul_self hp h)

theorem zero_mul_zero : mul 0 0 = 0 := congrArg finite (mul_zero 0)

theorem zero_add_zero : add 0 0 = 0 := congrArg finite (add_zero 0)

theorem IsSq.not_lt_zero (h : d.IsSq) : d.lt 0 = false := by
  have hzero : (0 : ERat) = finite 0 := rfl
  rw [hzero]
  rcases h with rfl | ⟨p, hp, rfl⟩
  · rfl
  · simpa using hp

/-- A positive bound is the root of its square. -/
theorem sqrtLt_mul_self (h : lt 0 b = true) : (b.mul b).sqrtLt b = false := by
  cases b <;> simp_all

theorem not_lt_mul_self (hd : d.IsSq) (hb : lt 0 b = true) (h : d.sqrtLt b = false) :
    d.lt (b.mul b) = false := by
  have hzero : (0 : ERat) = finite 0 := rfl
  rw [hzero] at hb
  rcases hd with rfl | ⟨p, hp, rfl⟩ <;> cases b <;> simp_all

theorem sub_self_eq_zero (h : a.sub a ≠ nan) : a.sub a = 0 := by
  have hzero : (0 : ERat) = finite 0 := rfl
  rw [hzero]
  cases a <;> simp_all

theorem sub_zero (a : ERat) : a.sub 0 = a := by
  have hzero : (0 : ERat) = finite 0 := rfl
  rw [hzero]
  cases a <;> simp

theorem add_zero (a : ERat) : a.add 0 = a := by
  have hzero : (0 : ERat) = finite 0 := rfl
  rw [hzero]
  cases a <;> simp

theorem ne_nan_of_lt (h : a.lt b = true) : b ≠ nan := by
  rintro rfl
  cases a <;> cases h

theorem ne_nan_of_lt_left (h : a.lt b = true) : a ≠ nan := by
  rintro rfl
  cases h

theorem not_lt_nan (a : ERat) : a.lt nan = false := by
  cases a <;> rfl

theorem zero_sqrtLt (h : lt 0 b = true) : sqrtLt 0 b = true := by
  have hzero : (0 : ERat) = finite 0 := rfl
  rw [hzero] at h ⊢
  cases b <;> simp_all

end ERat
