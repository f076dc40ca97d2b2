import Mathlib.Data.Nat.Bitwise

/-!
# Words as a stream of bits

A list of 64-bit words read as one stream of bits, lowest bit of the first word first.
A value of `bits` bits at bit position `pos` occupies the stream bits `pos … pos + bits - 1`,
wherever the word boundaries fall.

Principal results: `maskBits_getLsbD` — the bits of `(1 << n) - 1`; `bitAt_set` — the stream
after one word is replaced; `word_ext_lt` — a word is determined by its bits below 64.
-/

namespace PackedBits

abbrev Word := BitVec 64

/-- `(1 << n) - 1`. -/
def maskBits (n : Nat) : Word := (1#64 <<< n) - 1#64

theorem maskBits_toNat {n : Nat} (h : n < 64) : (maskBits n).toNat = 2 ^ n - 1 := by
  have hlt : 2 ^ n < 2 ^ 64 := Nat.pow_lt_pow_right (by decide) h
  have hpos : 0 < 2 ^ n := Nat.two_pow_pos n
  have h1 : (1#64 <<< n).toNat = 2 ^ n := by
    rw [BitVec.toNat_shiftLeft, Nat.shiftLeft_eq]
    simp only [BitVec.toNat_ofNat]
    rw [Nat.mod_eq_of_lt (show 1 < 2 ^ 64 by decide), Nat.one_mul, Nat.mod_eq_of_lt hlt]
  have hle : (1#64 : Word) ≤ 1#64 <<< n := by
    rw [BitVec.le_def, h1]
    simp only [BitVec.toNat_ofNat]
    omega
  unfold maskBits
  rw [BitVec.toNat_sub_of_le hle, h1]
  rfl

theorem maskBits_getLsbD {n : Nat} (h : n < 64) (j : Nat) :
    (maskBits n).getLsbD j = decide (j < n) := by
  rw [← BitVec.testBit_toNat, maskBits_toNat h, Nat.testBit_two_pow_sub_one]

theorem word_ext_lt {v w : Word} (h : ∀ j < 64, v.getLsbD j = w.getLsbD j) : v = w :=
  BitVec.eq_of_getLsbD_eq h

/-- Bit `k` of the stream; `false` past the end. -/
def bitAt (data : List Word) (k : Nat) : Bool :=
  match data[k / 64]? with
  | some w => w.getLsbD (k % 64)
  | none => false

theorem bitAt_of_word {data : List Word} {w : Word} {i k : Nat} (hw : data[i]? = some w)
    (hk : k / 64 = i) : bitAt data k = w.getLsbD (k % 64) := by
  unfold bitAt
  rw [hk, hw]

/-- The stream after word `i` is replaced by `w`. -/
theorem bitAt_set {data : List Word} {i : Nat} (hi : i < data.length) (w : Word) (k : Nat) :
    bitAt (data.set i w) k = if k / 64 = i then w.getLsbD (k % 64) else bitAt data k := by
  by_cases h : k / 64 = i
  · rw [if_pos h, bitAt_of_word (List.getElem?_set_self hi) h]
  · rw [if_neg h]
    unfold bitAt
    rw [List.getElem?_set_ne (Ne.symm h)]

theorem bitAt_replicate_zero (n k : Nat) : bitAt (List.replicate n 0#64) k = false := by
  unfold bitAt
  rw [List.getElem?_replicate]
  split
  · rename_i w h
    split at h
    · cases h; simp
    · cases h
  · rfl

end PackedBits
