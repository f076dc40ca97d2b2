import Apoptotic.Lib.Rounding
import Apoptotic.World.Generators

/-!
# How high the ground is

The heights that the noise generator and the end compute in floating point, from what is documented of
`f64` arithmetic, of the sine and of the noise library: noise is from -1 to 1, so the mean of the octaves
is too.

Principal definition: `Host.Lawful` — what is documented.

Principal results: `heightAt_between` — the ground is from -79 to -39; `highland_between` — the highlands
are from 40 to 80; `le_distance` — how far from the origin.
-/

namespace Apoptotic.Terrain

open Floats

variable {F Table : Type}

/-- What the documentation says of floating point and of the noise library. -/
structure Host.Lawful (h : Host F Table) : Prop where
  rounding : h.fl.Rounding
  div : ∀ {x y p q}, h.fl.value x = some p → h.fl.value y = some q → q ≠ 0 →
    h.fl.Rounded (p / q) (h.div x y)
  sin : ∀ {x p}, h.fl.value x = some p → h.fl.AtMost 1 (h.sin x)
  cos : ∀ {x p}, h.fl.value x = some p → h.fl.AtMost 1 (h.cos x)
  truncI32 : ∀ {x q}, h.fl.value x = some q → h.truncI32 x = saturate (if q < 0 then ⌈q⌉ else ⌊q⌋)
  perlin2d : ∀ {x z p q} (t : Table), h.fl.value x = some p → h.fl.value z = some q →
    h.fl.AtMost 1 (h.perlin2d x z t)

namespace Host.Lawful

variable {h : Host F Table} (hh : h.Lawful)

include hh

/-- A number of blocks that is cut to an integer stays in its bounds. -/
theorem truncI32_between {x : F} {n : Nat} (hn : n ≤ 2 ^ 20) (hx : h.fl.AtMost n x) :
    -n ≤ h.truncI32 x ∧ h.truncI32 x ≤ n := by
  obtain ⟨q, hq, hlo, hhi⟩ := hx
  have hcut : -n ≤ (if q < 0 then ⌈q⌉ else ⌊q⌋) ∧ (if q < 0 then ⌈q⌉ else ⌊q⌋) ≤ n := by
    split
    · refine ⟨?_, Int.ceil_le.2 (by exact_mod_cast hhi)⟩
      have hceil : ((-n : Int) : Rat) ≤ ⌈q⌉ := by
        push_cast
        exact hlo.trans (Int.le_ceil q)
      exact_mod_cast hceil
    · refine ⟨Int.le_floor.2 (by push_cast; exact hlo), ?_⟩
      have hfloor : (⌊q⌋ : Rat) ≤ n := (Int.floor_le q).trans hhi
      exact_mod_cast hfloor
  rw [hh.truncI32 hq]
  unfold saturate
  omega

/-! ## The ground -/

/-- A world coordinate. -/
theorem coordinate_atMost (w : BitVec 32) : h.fl.AtMost (2 ^ 31) (h.fl.lit w.toInt) := by
  have hlo := w.le_toInt
  have hhi := w.toInt_lt
  refine hh.rounding.lit_atMost (isDouble_two_pow (by decide)) ?_ ?_
  · have : ((-2 ^ 31 : Int) : Rat) ≤ w.toInt := by exact_mod_cast (by omega : (-2 ^ 31 : Int) ≤ w.toInt)
    push_cast at this
    exact this
  · have : (w.toInt : Rat) ≤ ((2 ^ 31 : Int) : Rat) := by exact_mod_cast (by omega : w.toInt ≤ (2 ^ 31 : Int))
    push_cast at this
    exact this

/-- A small number of blocks. -/
theorem scaled_atMost (w : BitVec 32) {s : Rat} (hlo : 0 ≤ s) (hhi : s ≤ 1) :
    h.fl.AtMost (2 ^ 31) (h.fl.mul (h.fl.lit w.toInt) (h.fl.lit s)) := by
  have hone : IsDouble 1 := by simpa using isDouble_two_pow (k := 0) (by decide)
  have hs := hh.rounding.lit_atMost hone (by linarith) hhi
  have hmul := hh.rounding.mul_atMost (hh.coordinate_atMost w) hs
    (by rw [mul_one]; exact isDouble_two_pow (by decide))
  rwa [mul_one] at hmul

end Host.Lawful

namespace NoiseGenerator

variable {h : Host F Table}

/-- The sums of the first `i` octaves: the value is at most the maximum. -/
structure Summed (h : Host F Table) (i : Nat) (acc : F × F × F × F) : Prop where
  val : h.fl.AtMost (2 - 2 / 2 ^ i) acc.1
  freq : h.fl.value acc.2.1 = some (2 ^ i)
  amp : h.fl.value acc.2.2.1 = some (1 / 2 ^ i)
  maxVal : h.fl.value acc.2.2.2 = some (2 - 2 / 2 ^ i)

theorem isDouble_amp {i : Nat} (hi : i ≤ 50) : IsDouble (1 / 2 ^ i) := by
  simpa using isDouble_div 1 (k := i) (by decide) (by omega)

theorem isDouble_maxVal {i : Nat} (hi : i ≤ 50) : IsDouble (2 - 2 / 2 ^ i) := by
  have hpow : (2 : Rat) ^ i ≠ 0 := pow_ne_zero i two_ne_zero
  have hbound : |(2 ^ (i + 1) - 2 : Int)| ≤ 2 ^ 53 := by
    have hlo : (2 : Int) ^ 1 ≤ 2 ^ (i + 1) := pow_le_pow_right₀ (by decide) (by omega)
    have hhi : (2 : Int) ^ (i + 1) ≤ 2 ^ 51 := pow_le_pow_right₀ (by decide) (by omega)
    rw [abs_le]
    omega
  have heq : (2 : Rat) - 2 / 2 ^ i = ((2 ^ (i + 1) - 2 : Int) : Rat) / 2 ^ i := by
    push_cast
    rw [eq_div_iff hpow, sub_mul, div_mul_cancel₀ _ hpow]
    ring
  rw [heq]
  exact isDouble_div _ hbound (by omega)

/-- One octave. -/
theorem Summed.octave (hh : h.Lawful) {x z : F} (hx : h.fl.AtMost (2 ^ 31) x) (hz : h.fl.AtMost (2 ^ 31) z)
    {i : Nat} (hi : i < 50) {acc : F × F × F × F} (hacc : Summed h i acc) (terrain : Table) (n : Nat) :
    Summed h (i + 1) (NoiseGenerator.octave h x z terrain acc n) := by
  have hpow : (2 : Rat) ^ i ≠ 0 := pow_ne_zero i two_ne_zero
  have hsum : (2 : Rat) - 2 / 2 ^ i + 1 / 2 ^ i = 2 - 2 / 2 ^ (i + 1) := by
    rw [pow_succ]
    field_simp
    ring
  have hhalf : (1 : Rat) / 2 ^ i * (1 / 2) = 1 / 2 ^ (i + 1) := by
    rw [pow_succ]
    field_simp
  -- The noise is sampled at a finite place.
  have hwide : IsDouble (2 ^ 31 * 2 ^ i) := by
    rw [← pow_add]
    exact isDouble_two_pow (by omega)
  have hfreq := atMost_of_value hacc.freq (by positivity)
  obtain ⟨p, hp, _⟩ := hh.rounding.mul_atMost hx hfreq hwide
  obtain ⟨q, hq, _⟩ := hh.rounding.mul_atMost hz hfreq hwide
  have hnoise := hh.rounding.mul_atMost (hh.perlin2d terrain hp hq)
    (atMost_of_value hacc.amp (by positivity)) (by rw [one_mul]; exact isDouble_amp (by omega))
  have hval := hh.rounding.add_atMost hacc.val hnoise
    (by rw [one_mul, hsum]; exact isDouble_maxVal (by omega))
  have hmax := hh.rounding.add hacc.maxVal hacc.amp
  have htwo := hh.rounding.mul hacc.freq
    (hh.rounding.value_lit (r := 2) (by simpa using isDouble_two_pow (k := 1) (by decide)))
  have hone := hh.rounding.mul hacc.amp (hh.rounding.value_lit (r := 1 / 2) (by simpa using isDouble_amp (i := 1) (by decide)))
  rw [one_mul, hsum] at hval
  rw [hsum] at hmax
  rw [← pow_succ] at htwo
  rw [hhalf] at hone
  exact {
    val := hval
    freq := htwo.value_eq (isDouble_two_pow (by omega))
    amp := hone.value_eq (isDouble_amp (by omega))
    maxVal := hmax.value_eq (isDouble_maxVal (by omega)) }

/-- All the octaves. -/
theorem Summed.foldl (hh : h.Lawful) {x z : F} (hx : h.fl.AtMost (2 ^ 31) x) (hz : h.fl.AtMost (2 ^ 31) z)
    (terrain : Table) {acc : F × F × F × F} (hacc : Summed h 0 acc) {n : Nat} (hn : n ≤ 50) :
    Summed h n ((List.range n).foldl (NoiseGenerator.octave h x z terrain) acc) := by
  induction n with
  | zero => exact hacc
  | succ n ih =>
      rw [List.range_succ, List.foldl_append]
      exact (ih (by omega)).octave hh hx hz (by omega) terrain n

/-- The noise that is added to the height of the ground. -/
def noiseVal (h : Host F Table) (g : NoiseGenerator) (terrain : Table) (wx wz : BitVec 32) : Int :=
  let x := h.fl.mul (h.fl.lit wx.toInt) (h.fl.lit (1 / 200))
  let z := h.fl.mul (h.fl.lit wz.toInt) (h.fl.lit (1 / 200))
  let (val, _, _, maxVal) := (List.range 4).foldl (octave h x z terrain)
    (h.fl.lit 0, h.fl.lit 1, h.fl.lit 1, h.fl.lit 0)
  h.truncI32 (h.fl.mul (h.div val maxVal) (h.fl.lit g.amplitude.toInt))

theorem heightAt_eq (g : NoiseGenerator) (terrain : Table) (wx wz : BitVec 32) :
    g.heightAt h terrain wx wz = (g.baseHeight + BitVec.ofInt 32 (g.noiseVal h terrain wx wz)).toInt := rfl

/-- **The noise is at most its amplitude.** -/
theorem noiseVal_between (hh : h.Lawful) (terrain : Table) (wx wz : BitVec 32) :
    -20 ≤ new.noiseVal h terrain wx wz ∧ new.noiseVal h terrain wx wz ≤ 20 := by
  have hx := hh.scaled_atMost wx (s := 1 / 200) (by norm_num) (by norm_num)
  have hz := hh.scaled_atMost wz (s := 1 / 200) (by norm_num) (by norm_num)
  have hzero : IsDouble 0 := isDouble_int (n := 0) (by decide)
  have hone : IsDouble 1 := by simpa using isDouble_amp (i := 0) (by decide)
  have hinit : Summed h 0 (h.fl.lit 0, h.fl.lit 1, h.fl.lit 1, h.fl.lit 0) := {
    val := hh.rounding.lit_atMost (by simpa using hzero) (by norm_num) (by norm_num)
    freq := by simpa using hh.rounding.value_lit hone
    amp := by simpa using hh.rounding.value_lit hone
    maxVal := by simpa using hh.rounding.value_lit hzero }
  have hsummed := hinit.foldl hh hx hz terrain (n := 4) (by decide)
  -- The value is divided by the maximum.
  obtain ⟨v, hv, hlo, hhi⟩ := hsummed.val
  have hmax : (2 : Rat) - 2 / 2 ^ 4 = 15 / 8 := by norm_num
  rw [hmax] at hlo hhi
  have hmaxVal := hsummed.maxVal
  rw [hmax] at hmaxVal
  have hmean := (hh.div hv hmaxVal (by norm_num)).atMost hone
    (by rw [le_div_iff₀ (by norm_num)]; linarith) (by rw [div_le_iff₀ (by norm_num)]; linarith)
  have hamplitude : h.fl.AtMost 20 (h.fl.lit (new.amplitude.toInt : Int)) := by
    have htwenty : new.amplitude.toInt = 20 := by decide
    rw [htwenty]
    exact hh.rounding.lit_atMost (isDouble_int (n := 20) (by decide)) (by norm_num) (by norm_num)
  have hnoise := hh.rounding.mul_atMost hmean hamplitude (by rw [one_mul]; exact isDouble_int (n := 20) (by decide))
  rw [one_mul] at hnoise
  exact hh.truncI32_between (n := 20) (by decide) hnoise

theorem heightAt_new (hh : h.Lawful) (terrain : Table) (wx wz : BitVec 32) :
    new.heightAt h terrain wx wz = -59 + new.noiseVal h terrain wx wz := by
  have hnoise := noiseVal_between hh terrain wx wz
  rw [heightAt_eq]
  generalize new.noiseVal h terrain wx wz = n at *
  have hbase : new.baseHeight.toInt = -59 := by decide
  have hint : (BitVec.ofInt 32 n).toInt = n := by
    rw [BitVec.toInt_ofInt]
    exact Int.bmod_eq_of_le (by omega) (by omega)
  rw [BitVec.toInt_add, hbase, hint]
  exact Int.bmod_eq_of_le (by omega) (by omega)

/-- **The ground is low.** -/
theorem heightAt_between (hh : h.Lawful) (terrain : Table) (wx wz : BitVec 32) :
    -79 ≤ new.heightAt h terrain wx wz ∧ new.heightAt h terrain wx wz ≤ -39 := by
  have hnoise := noiseVal_between hh terrain wx wz
  rw [heightAt_new hh]
  omega

end NoiseGenerator

/-! ## The end -/

section

variable {h : Host F Table} (hh : h.Lawful)

/-- The noise that is added to the height of the highlands. -/
def waveVal (h : Host F Table) (wx wz : BitVec 32) : Int :=
  let fl := h.fl
  h.truncI32 (fl.mul (fl.mul (h.sin (fl.mul (fl.lit wx.toInt) (fl.lit (1 / 20))))
    (h.cos (fl.mul (fl.lit wz.toInt) (fl.lit (7 / 100))))) (fl.lit 20))

include hh

theorem waveVal_between (wx wz : BitVec 32) : -20 ≤ waveVal h wx wz ∧ waveVal h wx wz ≤ 20 := by
  obtain ⟨p, hp, _⟩ := hh.scaled_atMost wx (s := 1 / 20) (by norm_num) (by norm_num)
  obtain ⟨q, hq, _⟩ := hh.scaled_atMost wz (s := 7 / 100) (by norm_num) (by norm_num)
  have hone : IsDouble (1 * 1) := by simpa using isDouble_two_pow (k := 0) (by decide)
  have htwenty : IsDouble 20 := isDouble_int (n := 20) (by decide)
  have hwave := hh.rounding.mul_atMost (hh.sin hp) (hh.cos hq) hone
  have hscaled := hh.rounding.mul_atMost hwave
    (hh.rounding.lit_atMost (r := 20) htwenty (by norm_num) (by norm_num)) (by simpa using htwenty)
  rw [one_mul, one_mul] at hscaled
  exact hh.truncI32_between (n := 20) (by decide) hscaled

theorem highland_eq (wx wz : BitVec 32) : highland h wx wz = waveVal h wx wz + 60 := by
  have hwave := waveVal_between hh wx wz
  show (BitVec.ofInt 32 (waveVal h wx wz + 60)).toInt = _
  rw [BitVec.toInt_ofInt]
  exact Int.bmod_eq_of_le (by omega) (by omega)

/-- **The highlands are inside the world.** -/
theorem highland_between (wx wz : BitVec 32) : 40 ≤ highland h wx wz ∧ highland h wx wz ≤ 80 := by
  have hwave := waveVal_between hh wx wz
  rw [highland_eq hh]
  omega

/-- The square of a coordinate, at least that of a bound. -/
theorem square_between (w : BitVec 32) {n : Nat} (hn : n ≤ 2 ^ 20) (hw : n ≤ |w.toInt|) :
    h.fl.Between ((n * n : Nat) : Int) (2 ^ 62) (h.fl.mul (h.fl.lit w.toInt) (h.fl.lit w.toInt)) := by
  have hlo := w.le_toInt
  have hhi := w.toInt_lt
  have hbound : |w.toInt| ≤ 2 ^ 31 := abs_le.2 (by omega)
  have hvalue := hh.rounding.value_lit (isDouble_int (hbound.trans (by decide)))
  have hsq : (n * n : Nat) ≤ w.toInt * w.toInt := by
    rw [← abs_mul_abs_self w.toInt]
    push_cast
    exact mul_le_mul hw hw (by positivity) (abs_nonneg _)
  have hsq' : w.toInt * w.toInt ≤ 2 ^ 62 := by
    rw [← abs_mul_abs_self w.toInt]
    exact (mul_le_mul hbound hbound (abs_nonneg _) (by decide)).trans (by decide)
  refine hh.rounding.mul hvalue hvalue _ _ (isDouble_int ?_) (isDouble_two_pow (by decide))
    (by exact_mod_cast hsq) (by exact_mod_cast hsq')
  have hnn : n * n ≤ 2 ^ 20 * 2 ^ 20 := Nat.mul_le_mul hn hn
  rw [abs_le]
  omega

/-- **The distance from the origin** is at least each coordinate, up to a bound. -/
theorem le_distance {wx wz : BitVec 32} {n : Nat} (hn : n ≤ 2 ^ 20) (hfar : n ≤ |wx.toInt| ∨ n ≤ |wz.toInt|) :
    ∃ q, h.fl.value (distance h.fl wx wz) = some q ∧ (n : Rat) ≤ q := by
  have hnn : n * n ≤ 2 ^ 20 * 2 ^ 20 := Nat.mul_le_mul hn hn
  have hdouble : IsDouble ((n * n : Nat) : Int) := by
    refine isDouble_int ?_
    rw [abs_le]
    omega
  -- One of the squares is large, and the other is not negative.
  obtain ⟨p, q, hp, hq, hlo, hhi⟩ : ∃ p q,
      h.fl.value (h.fl.mul (h.fl.lit wx.toInt) (h.fl.lit wx.toInt)) = some p ∧
      h.fl.value (h.fl.mul (h.fl.lit wz.toInt) (h.fl.lit wz.toInt)) = some q ∧
      (((n * n : Nat) : Int) : Rat) ≤ p + q ∧ p + q ≤ 2 ^ 63 := by
    rcases hfar with hx | hz
    · obtain ⟨p, hp, hplo, hphi⟩ := square_between hh wx hn hx
      obtain ⟨q, hq, hqlo, hqhi⟩ := square_between hh wz (Nat.zero_le _) (abs_nonneg _)
      rw [Nat.mul_zero, Nat.cast_zero, Int.cast_zero] at hqlo
      exact ⟨p, q, hp, hq, by linarith, by linarith⟩
    · obtain ⟨p, hp, hplo, hphi⟩ := square_between hh wx (Nat.zero_le _) (abs_nonneg _)
      obtain ⟨q, hq, hqlo, hqhi⟩ := square_between hh wz hn hz
      rw [Nat.mul_zero, Nat.cast_zero, Int.cast_zero] at hplo
      exact ⟨p, q, hp, hq, by linarith, by linarith⟩
  obtain ⟨r, hr, hrlo, hrhi⟩ := hh.rounding.add hp hq _ _ hdouble (isDouble_two_pow (k := 63) (by decide)) hlo hhi
  obtain ⟨d, hd, hdlo, _⟩ := hh.rounding.sqrt (m := n) (n := 2 ^ 32) hr (by omega) (by decide)
    (by push_cast at hrlo; exact hrlo) (by push_cast; linarith)
  exact ⟨d, hd, hdlo⟩

/-- What is closer than a bound has coordinates below it. -/
theorem near_of_lt {wx wz : BitVec 32} {n : Nat} (hn : n ≤ 2 ^ 20)
    (hnear : h.fl.lt (distance h.fl wx wz) (h.fl.lit (n : Int)) = true) :
    |wx.toInt| < n ∧ |wz.toInt| < n := by
  by_contra hfar
  obtain ⟨q, hq, hle⟩ := le_distance hh hn (not_and_or.1 hfar |>.imp not_lt.1 not_lt.1)
  have hlit := hh.rounding.value_lit (isDouble_int (n := n) (by rw [abs_le]; omega))
  rw [hh.rounding.lt hq hlit, decide_eq_true_eq] at hnear
  push_cast at hnear
  linarith

/-- What has a large coordinate is not closer. -/
theorem le_lit_distance {wx wz : BitVec 32} {n : Nat} (hn : n ≤ 2 ^ 20)
    (hfar : n ≤ |wx.toInt| ∨ n ≤ |wz.toInt|) :
    h.fl.le (h.fl.lit (n : Int)) (distance h.fl wx wz) = true ∧
      h.fl.lt (distance h.fl wx wz) (h.fl.lit (n : Int)) = false := by
  obtain ⟨q, hq, hle⟩ := le_distance hh hn hfar
  have hlit := hh.rounding.value_lit (isDouble_int (n := n) (by rw [abs_le]; omega))
  rw [hh.rounding.le hlit hq, hh.rounding.lt hq hlit, decide_eq_true_eq, decide_eq_false_iff_not]
  push_cast
  exact ⟨hle, not_lt.2 hle⟩

end

end Apoptotic.Terrain
