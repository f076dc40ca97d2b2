import Mathlib.Algebra.Order.Floor.Ring
import Mathlib.Data.Rat.Floor
import Mathlib.Tactic.Linarith
import Mathlib.Tactic.Ring

/-!
# Floating-point coordinates

The `f64` operations that position code uses, with what their documentation says of finite values:
`as i32` saturates, and a division by 16 is exact except where the result is tiny.  How the
arithmetic rounds is left open.

Principal result: `Floats.cell_mem_around` — two finite coordinates at most `r` apart lie in cells
at most `cellRadius r` apart.
-/

/-- A number as an `i32`, at the nearer end when it does not fit. -/
def saturate (n : Int) : Int := max (-2147483648) (min n 2147483647)

/-- The `f64` values and operations. -/
structure Floats (F : Type) where
  /-- A literal. -/
  lit : Rat → F
  add : F → F → F
  sub : F → F → F
  mul : F → F → F
  abs : F → F
  sqrt : F → F
  div16 : F → F
  le : F → F → Bool
  lt : F → F → Bool
  /-- `x.floor() as i32` -/
  floorI32 : F → Int
  /-- `x.ceil() as i32` -/
  ceilI32 : F → Int
  /-- The number a finite value stands for. -/
  value : F → Option Rat
  value_lit : ∀ n : Int, |n| ≤ 2 ^ 53 → value (lit n) = some (n : Rat)
  floorI32_eq : ∀ x q, value x = some q → floorI32 x = saturate ⌊q⌋
  ceilI32_eq : ∀ x q, value x = some q → ceilI32 x = saturate ⌈q⌉
  value_div16 : ∀ x q, value x = some q →
    ∃ q', value (div16 x) = some q' ∧ max 1 ⌈q'⌉ = max 1 ⌈q / 16⌉

namespace Floats

variable {F : Type} (fl : Floats F)

/-- The cell of a coordinate: 16 blocks wide. -/
def cell (x : F) : Int := fl.floorI32 x / 16

/-- `((radius / 16.0).ceil() as i32).max(1)` -/
def cellRadius (radius : F) : Int := max (fl.ceilI32 (fl.div16 radius)) 1

/-- `dx*dx + dy*dy + dz*dz` -/
def dist2 (x y z x' y' z' : F) : F :=
  fl.add (fl.add (fl.mul (fl.sub x x') (fl.sub x x')) (fl.mul (fl.sub y y') (fl.sub y y')))
    (fl.mul (fl.sub z z') (fl.sub z z'))

/-- Two finite coordinates are at most a finite `r` apart. -/
def Within (x x' r : F) : Prop :=
  ∃ p q d, fl.value x = some p ∧ fl.value x' = some q ∧ fl.value r = some d ∧ |p - q| ≤ d

variable {fl}

theorem cellRadius_eq {r : F} {d : Rat} (h : fl.value r = some d) :
    fl.cellRadius r = max (saturate ⌈d / 16⌉) 1 := by
  obtain ⟨d', hd', hmax⟩ := fl.value_div16 r d h
  unfold cellRadius
  rw [fl.ceilI32_eq _ _ hd']
  unfold saturate
  omega

/-- A step of at most `d` crosses at most `⌈d / 16⌉` cells. -/
theorem floor_le_add {p q d : Rat} (h : p - q ≤ d) : ⌊p⌋ ≤ ⌊q⌋ + 16 * ⌈d / 16⌉ := by
  have hceil : d ≤ 16 * (⌈d / 16⌉ : Rat) := by
    have := Int.le_ceil (d / 16)
    linarith
  calc ⌊p⌋ ≤ ⌊q + ((16 * ⌈d / 16⌉ : Int) : Rat)⌋ := Int.floor_le_floor (by push_cast; linarith)
    _ = ⌊q⌋ + 16 * ⌈d / 16⌉ := Int.floor_add_intCast _ _

/-- **Close coordinates lie in close cells.** -/
theorem cell_mem_around {x x' r : F} (h : fl.Within x x' r) :
    fl.cell x' - fl.cellRadius r ≤ fl.cell x ∧ fl.cell x ≤ fl.cell x' + fl.cellRadius r := by
  obtain ⟨p, q, d, hp, hq, hd, habs⟩ := h
  have hpq : p - q ≤ d := (le_abs_self _).trans habs
  have hqp : q - p ≤ d := by
    rw [abs_sub_comm] at habs
    exact (le_abs_self _).trans habs
  have h₁ := floor_le_add hpq
  have h₂ := floor_le_add hqp
  rw [cell, cell, cellRadius_eq hd, fl.floorI32_eq _ _ hp, fl.floorI32_eq _ _ hq]
  unfold saturate
  omega

/-! ## Exact arithmetic -/

/-- Arithmetic without rounding, as `f64` computes on small integers. -/
def exact : Floats Rat where
  lit := id
  add := (· + ·)
  sub := (· - ·)
  mul := (· * ·)
  abs := fun x => |x|
  sqrt := fun x => (Nat.sqrt ⌊x⌋.toNat : Rat)
  div16 := (· / 16)
  le := fun x y => decide (x ≤ y)
  lt := fun x y => decide (x < y)
  floorI32 := fun x => saturate ⌊x⌋
  ceilI32 := fun x => saturate ⌈x⌉
  value := some
  value_lit := fun _ _ => rfl
  floorI32_eq := fun _ _ h => by rw [Option.some.inj h]
  ceilI32_eq := fun _ _ h => by rw [Option.some.inj h]
  value_div16 := fun _ q h => ⟨q / 16, by rw [Option.some.inj h], rfl⟩

/-- Without rounding, what passes the distance test is close along each axis. -/
theorem exact_within {x y z x' y' z' r : Rat} (hr : 0 ≤ r)
    (h : exact.le (exact.dist2 x y z x' y' z') (exact.mul r r) = true) :
    exact.Within x x' r ∧ exact.Within z z' r := by
  have hle : (x - x') * (x - x') + (y - y') * (y - y') + (z - z') * (z - z') ≤ r * r :=
    of_decide_eq_true h
  have hy := mul_self_nonneg (y - y')
  refine ⟨⟨x, x', r, rfl, rfl, rfl, abs_le_of_sq_le_sq' ?_ hr |> abs_le.2⟩,
    ⟨z, z', r, rfl, rfl, rfl, abs_le_of_sq_le_sq' ?_ hr |> abs_le.2⟩⟩
  · have hz := mul_self_nonneg (z - z')
    rw [sq, sq]
    linarith
  · have hx := mul_self_nonneg (x - x')
    rw [sq, sq]
    linarith

end Floats
