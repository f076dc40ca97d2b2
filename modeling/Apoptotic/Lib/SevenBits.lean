import Apoptotic.Lib.Bytes
import Apoptotic.Lib.Outcome

/-!
# Groups of seven bits

A word of `w` bits as groups of seven, one a byte, the lowest first, the high bit set on every byte but
the last.  The reader stops with an error where the bytes end, or where another group would begin
past the word.

Principal results: `read_write` — what is written is read back, whatever follows it; `read_le` — how
many bytes a read takes; `length_write` — how many a write makes; `prefix_iff` — no written word is the
beginning of another.
-/

namespace SevenBits

open Bytes

variable {ε : Type} {w : Nat}

theorem toNat_ushiftRight_seven (v : BitVec w) : (v >>> 7).toNat = v.toNat / 128 := by
  rw [BitVec.toNat_ushiftRight, Nat.shiftRight_eq_div_pow]

/-- More than one group remains. -/
theorem le_of_ne_zero {v : BitVec w} (h : ¬ v >>> 7 = 0#w) : 128 ≤ v.toNat := by
  have hne : (v >>> 7).toNat ≠ 0 := fun e => h (BitVec.eq_of_toNat_eq (by simpa using e))
  rw [toNat_ushiftRight_seven] at hne
  omega

theorem eq_zero_iff {v : BitVec w} : v >>> 7 = 0#w ↔ v.toNat < 128 := by
  constructor
  · intro h
    have hdiv := toNat_ushiftRight_seven v
    rw [h, BitVec.toNat_zero] at hdiv
    omega
  · intro h
    by_contra hne
    exact absurd (le_of_ne_zero hne) (by omega)

/-- The loop of the reader. -/
def read (incomplete tooLarge : ε) (value : BitVec w) (shift bytesRead : Nat) :
    List Byte → Outcome ε (BitVec w × Nat)
  | [] => .err incomplete
  | byte :: buf =>
      let value := value ||| ((byte &&& 0x7F#8).setWidth w <<< shift)
      if byte &&& 0x80#8 = 0#8 then .ok (value, bytesRead + 1)
      else if shift + 7 ≥ w then .err tooLarge
      else read incomplete tooLarge value (shift + 7) (bytesRead + 1) buf

/-- The loop of the writer. -/
def write (v : BitVec w) : List Byte :=
  let byte := (v &&& 0x7F#w).setWidth 8
  if _h : v >>> 7 = 0#w then [byte]
  else (byte ||| 0x80#8) :: write (v >>> 7)
termination_by v.toNat
decreasing_by
  have := le_of_ne_zero _h
  rw [toNat_ushiftRight_seven]
  omega

/-! ## The reader on any bytes -/

section

variable {incomplete tooLarge : ε}

theorem read_ne_panic (value : BitVec w) (shift bytesRead : Nat) (buf : List Byte) :
    read incomplete tooLarge value shift bytesRead buf ≠ .panic := by
  induction buf generalizing value shift bytesRead with
  | nil => exact nofun
  | cons byte buf ih =>
      unfold read
      dsimp only
      split
      · exact nofun
      · split
        · exact nofun
        · exact ih _ _ _

/-- A read takes bytes of its input, and no more than there are groups above `shift`. -/
theorem read_le {value v : BitVec w} {shift bytesRead n : Nat} {buf : List Byte}
    (h : read incomplete tooLarge value shift bytesRead buf = .ok (v, n)) :
    bytesRead < n ∧ n ≤ bytesRead + buf.length ∧
      (shift < w → 7 * (n - bytesRead) + shift < w + 7) := by
  induction buf generalizing value shift bytesRead with
  | nil => cases h
  | cons byte buf ih =>
      unfold read at h
      dsimp only at h
      rw [List.length_cons]
      split at h
      · cases h
        omega
      · split at h
        · cases h
        · have := ih h
          omega

end

/-! ## Round trip -/

theorem seven_getLsbD (k i : Nat) :
    (BitVec.ofNat k 0x7F).getLsbD i = (decide (i < k) && decide (i < 7)) := by
  rw [BitVec.getLsbD_ofNat, show 0x7F = 2 ^ 7 - 1 by rfl, Nat.testBit_two_pow_sub_one]

theorem eighth_getLsbD (i : Nat) : (0x80#8).getLsbD i = decide (i = 7) := by
  rw [BitVec.getLsbD_ofNat, show 0x80 = 2 ^ 7 by rfl, Nat.testBit_two_pow]
  by_cases h : i = 7
  · simp [h]
  · simp [h, Ne.symm h]

/-- The data bits of a written byte, whether or not its high bit is set. -/
theorem byte_data (v : BitVec w) {high : BitVec 8} (h : high = 0#8 ∨ high = 0x80#8) :
    (((v &&& 0x7F#w).setWidth 8 ||| high) &&& 0x7F#8).setWidth w = v &&& 0x7F#w := by
  apply BitVec.eq_of_getLsbD_eq
  intro i hi
  have hhigh : i < 7 → high.getLsbD i = false := by
    intro h7
    rcases h with rfl | rfl
    · simp
    · rw [eighth_getLsbD]
      exact decide_eq_false (by omega)
  simp only [BitVec.getLsbD_setWidth, BitVec.getLsbD_and, BitVec.getLsbD_or, seven_getLsbD]
  by_cases h7 : i < 7
  · rw [hhigh h7]
    simp [h7, hi, show i < 8 by omega]
  · simp [h7]

/-- The high bit of a written byte. -/
theorem byte_high (v : BitVec w) :
    (v &&& 0x7F#w).setWidth 8 &&& 0x80#8 = 0#8 ∧
      ((v &&& 0x7F#w).setWidth 8 ||| 0x80#8) &&& 0x80#8 = 0x80#8 := by
  constructor
  · apply BitVec.eq_of_getLsbD_eq
    intro i _
    simp only [BitVec.getLsbD_and, BitVec.getLsbD_setWidth, seven_getLsbD, eighth_getLsbD]
    by_cases h7 : i = 7 <;> simp [h7]
  · apply BitVec.eq_of_getLsbD_eq
    intro i _
    simp only [BitVec.getLsbD_and, BitVec.getLsbD_or, eighth_getLsbD]
    by_cases h7 : i = 7 <;> simp [h7]

/-- One group of seven bits and the groups above it. -/
theorem groups_join (value v : BitVec w) (shift : Nat) :
    (value ||| (v &&& 0x7F#w) <<< shift) ||| (v >>> 7) <<< (shift + 7) =
      value ||| v <<< shift := by
  apply BitVec.eq_of_getLsbD_eq
  intro i hi
  simp only [BitVec.getLsbD_or, BitVec.getLsbD_shiftLeft, BitVec.getLsbD_and, seven_getLsbD,
    BitVec.getLsbD_ushiftRight]
  by_cases h1 : i < shift
  · simp [h1, show i < shift + 7 by omega]
  · by_cases h7 : i < shift + 7
    · simp [h1, h7, show i - shift < 7 by omega, hi, show i - shift < w by omega]
    · rw [show 7 + (i - (shift + 7)) = i - shift by omega]
      simp [h1, h7, show ¬ i - shift < 7 by omega]

/-- **The reader over the bytes of `v`**: the bits of `v` still fit above `shift`. -/
theorem read_write (incomplete tooLarge : ε) (v value : BitVec w) (shift bytesRead : Nat)
    (rest : List Byte) (hfit : v.toNat < 2 ^ (w - shift)) :
    read incomplete tooLarge value shift bytesRead (write v ++ rest) =
      .ok (value ||| v <<< shift, bytesRead + (write v).length) := by
  induction hn : v.toNat using Nat.strongRecOn generalizing v value shift bytesRead with
  | ind n ih =>
      rw [write]
      by_cases h : v >>> 7 = 0#w
      · have hdata := byte_data v (Or.inl rfl : (0#8 : BitVec 8) = 0#8 ∨ _)
        rw [BitVec.or_zero] at hdata
        simp only [h, dif_pos, List.singleton_append, read, (byte_high v).1, if_pos, hdata,
          List.length_singleton]
        rw [← groups_join value v shift, h]
        simp
      · have hge := le_of_ne_zero h
        have hdiv := toNat_ushiftRight_seven v
        -- more bits remain, so another group fits below the width
        have hshift : shift + 7 < w := by
          by_contra hle
          have h128 : 2 ^ (w - shift) ≤ 2 ^ 7 := Nat.pow_le_pow_right (by decide) (by omega)
          omega
        have hfit' : (v >>> 7).toNat < 2 ^ (w - (shift + 7)) := by
          have hpow : 2 ^ (w - shift) = 2 ^ (w - (shift + 7)) * 2 ^ 7 := by
            rw [← Nat.pow_add]
            congr 1
            omega
          rw [hdiv]
          omega
        simp only [h, dif_neg, not_false_eq_true, List.cons_append, read, (byte_high v).2,
          byte_data v (Or.inr rfl), show ¬ 0x80#8 = 0#8 by decide, if_neg,
          show ¬ shift + 7 ≥ w by omega, List.length_cons]
        rw [ih _ (by omega) _ _ _ _ hfit' rfl, groups_join]
        congr 2
        omega

/-- A written word is read back with its length, whatever follows it. -/
theorem read_write_zero (incomplete tooLarge : ε) (v : BitVec w) (rest : List Byte) :
    read incomplete tooLarge (0#w) 0 0 (write v ++ rest) = .ok (v, (write v).length) := by
  rw [read_write incomplete tooLarge v (0#w) 0 0 rest v.isLt]
  simp

/-- **No written word is the beginning of another.** -/
theorem prefix_iff {v v' : BitVec w} : write v <+: write v' ↔ v = v' := by
  refine ⟨?_, fun h => h ▸ List.prefix_rfl⟩
  rintro ⟨rest, h⟩
  have hv := read_write_zero () () v rest
  have hv' := read_write_zero () () v' []
  rw [List.append_nil, ← h, hv] at hv'
  injection hv' with hpair
  exact (Prod.mk.inj hpair).1

/-- How many bytes are written: a seventh of the bits, rounded up. -/
theorem length_write (v : BitVec w) :
    (write v).length = if v.toNat = 0 then 1 else (v.toNat.log2 + 1 + 6) / 7 := by
  induction hn : v.toNat using Nat.strongRecOn generalizing v with
  | ind n ih =>
      subst hn
      rw [write]
      by_cases h : v >>> 7 = 0#w
      · rw [dif_pos h, List.length_singleton]
        rw [eq_zero_iff] at h
        split
        · rfl
        · rename_i hne
          have hlog : v.toNat.log2 < 7 := (Nat.log2_lt hne).2 (by omega)
          omega
      · have hge := le_of_ne_zero h
        have hdiv := toNat_ushiftRight_seven v
        rw [dif_neg h, List.length_cons, ih _ (by omega) _ rfl, hdiv, if_neg (by omega),
          if_neg (by omega)]
        have hlog : v.toNat.log2 = (v.toNat / 128).log2 + 7 := by
          have hlo := Nat.log2_self_le (n := v.toNat / 128) (by omega)
          have hhi := Nat.lt_log2_self (n := v.toNat / 128)
          refine (Nat.log2_eq_iff (by omega)).2 ⟨?_, ?_⟩
          · rw [Nat.pow_add]
            omega
          · rw [Nat.add_right_comm, Nat.pow_add]
            omega
        omega

/-- What is left of a written word after some of its bytes is a written word. -/
theorem drop_write (v : BitVec w) {k : Nat} (h : k < (write v).length) :
    (write v).drop k = write (v >>> (7 * k)) := by
  induction k generalizing v with
  | zero => simp
  | succ k ih =>
      rw [write] at h ⊢
      by_cases hlast : v >>> 7 = 0#w
      · rw [dif_pos hlast, List.length_singleton] at h
        omega
      · rw [dif_neg hlast, List.length_cons] at h
        rw [dif_neg hlast, List.drop_succ_cons, ih _ (by omega), ← BitVec.shiftRight_add,
          show 7 + 7 * k = 7 * (k + 1) by omega]

end SevenBits
