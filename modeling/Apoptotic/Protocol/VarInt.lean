import Apoptotic.Lib.SevenBits
import Mathlib.Algebra.Group.Int.Defs

/-!
# VarInt

`mc-protocol/src/varint.rs`: seven data bits a byte, lowest group first, the high bit set on
every byte but the last.  An `i32` is its 32-bit pattern.

Principal results: `readVarint_writeVarint` — what is written is read back, whatever follows it;
`readVarint_ne_panic`, `readVarint_le` — on any bytes the reader returns, within its input;
`varint_varlong_exact` — the writers, the readers and the size agree on every value.
-/

namespace Apoptotic

open Bytes

inductive VarIntError where
  | incomplete
  | tooLarge
  deriving DecidableEq, Repr

/-- The `Display` text of the error. -/
def VarIntError.text : VarIntError → String
  | .incomplete => "incomplete VarInt"
  | .tooLarge => "VarInt too large"

/-- The loop of `read_varint`. -/
def readVarintLoop (value : BitVec 32) (shift bytesRead : Nat) :
    List Byte → Outcome VarIntError (BitVec 32 × Nat)
  | [] => .err .incomplete
  | byte :: buf =>
      let value := value ||| ((byte &&& 0x7F#8).setWidth 32 <<< shift)
      if byte &&& 0x80#8 = 0#8 then .ok (value, bytesRead + 1)
      else if shift + 7 ≥ 32 then .err .tooLarge
      else readVarintLoop value (shift + 7) (bytesRead + 1) buf

/-- `read_varint`: the value and the number of bytes read. -/
def readVarint (buf : List Byte) : Outcome VarIntError (BitVec 32 × Nat) :=
  readVarintLoop 0#32 0 0 buf

/-- `write_varint_to`. -/
def writeVarint (v : BitVec 32) : List Byte :=
  let byte := (v &&& 0x7F#32).setWidth 8
  if _h : v >>> 7 = 0#32 then [byte]
  else (byte ||| 0x80#8) :: writeVarint (v >>> 7)
termination_by v.toNat
decreasing_by
  have := SevenBits.le_of_ne_zero _h
  rw [SevenBits.toNat_ushiftRight_seven]
  omega

/-- `v as usize` of an `i32`: sign extension to 64 bits. -/
def asUsize (v : BitVec 32) : Nat := (v.signExtend 64).toNat

theorem asUsize_of_lt {v : BitVec 32} (h : v.toNat < 2 ^ 31) : asUsize v = v.toNat := by
  have hmsb : v.msb = false := by rw [BitVec.msb_eq_false_iff_two_mul_lt]; omega
  rw [asUsize, BitVec.signExtend_eq_setWidth_of_msb_false hmsb, BitVec.toNat_setWidth,
    Nat.mod_eq_of_lt (by omega)]

theorem asUsize_ofNat {n : Nat} (h : n < 2 ^ 31) : asUsize (BitVec.ofNat 32 n) = n := by
  have hn : (BitVec.ofNat 32 n).toNat = n := by
    rw [BitVec.toNat_ofNat, Nat.mod_eq_of_lt (by omega)]
  rw [asUsize_of_lt (by rw [hn]; exact h), hn]

/-- The conversion by the sign of the value. -/
theorem asUsize_toInt (v : BitVec 32) :
    (asUsize v : Int) = if v.toInt < 0 then v.toInt + 2 ^ 64 else v.toInt := by
  have hlt := v.isLt
  have hint := BitVec.toInt_eq_toNat_cond v
  have hsign := BitVec.toNat_signExtend v (v := 64)
  rw [BitVec.toNat_setWidth, Nat.mod_eq_of_lt (by omega), BitVec.msb_eq_decide] at hsign
  unfold asUsize
  by_cases h : v.toNat < 2 ^ 31
  · rw [decide_eq_false (by omega)] at hsign
    rw [if_pos (by omega)] at hint
    rw [if_neg (by omega), hsign, hint]
    simp
  · rw [decide_eq_true (by omega)] at hsign
    rw [if_neg (by omega)] at hint
    rw [if_pos (by omega), hsign, hint]
    simp only [if_true]
    omega

/-! ## Groups of seven bits -/

theorem readVarintLoop_eq (value : BitVec 32) (shift bytesRead : Nat) (buf : List Byte) :
    readVarintLoop value shift bytesRead buf =
      SevenBits.read .incomplete .tooLarge value shift bytesRead buf := by
  induction buf generalizing value shift bytesRead with
  | nil => rfl
  | cons byte buf ih =>
      unfold readVarintLoop SevenBits.read
      dsimp only
      rw [ih]

theorem writeVarint_eq (v : BitVec 32) : writeVarint v = SevenBits.write v := by
  induction hn : v.toNat using Nat.strongRecOn generalizing v with
  | ind n ih =>
      rw [writeVarint, SevenBits.write]
      by_cases h : v >>> 7 = 0#32
      · rw [dif_pos h, dif_pos h]
      · have hge := SevenBits.le_of_ne_zero h
        have hdiv := SevenBits.toNat_ushiftRight_seven v
        rw [dif_neg h, dif_neg h, ih _ (by omega) _ rfl]

theorem readVarint_ne_panic (buf : List Byte) : readVarint buf ≠ .panic := by
  rw [readVarint, readVarintLoop_eq]
  exact SevenBits.read_ne_panic 0#32 0 0 buf

theorem readVarintLoop_le {value v : BitVec 32} {shift bytesRead n : Nat} {buf : List Byte}
    (h : readVarintLoop value shift bytesRead buf = .ok (v, n)) :
    bytesRead < n ∧ n ≤ bytesRead + buf.length := by
  rw [readVarintLoop_eq] at h
  have := SevenBits.read_le h
  omega

theorem readVarint_le {v : BitVec 32} {n : Nat} {buf : List Byte}
    (h : readVarint buf = .ok (v, n)) : 0 < n ∧ n ≤ buf.length := by
  have := readVarintLoop_le h
  omega

/-- The reader's loop over the bytes of `v`: the bits of `v` still fit above `shift`. -/
theorem readVarintLoop_writeVarint (v value : BitVec 32) (shift bytesRead : Nat)
    (rest : List Byte) (hfit : v.toNat < 2 ^ (32 - shift)) :
    readVarintLoop value shift bytesRead (writeVarint v ++ rest) =
      .ok (value ||| v <<< shift, bytesRead + (writeVarint v).length) := by
  rw [readVarintLoop_eq, writeVarint_eq]
  exact SevenBits.read_write _ _ v value shift bytesRead rest hfit

/-- **A written VarInt is read back with its length, whatever follows it.** -/
theorem readVarint_writeVarint (v : BitVec 32) (rest : List Byte) :
    readVarint (writeVarint v ++ rest) = .ok (v, (writeVarint v).length) := by
  rw [readVarint, readVarintLoop_writeVarint v 0#32 0 0 rest v.isLt]
  simp

/-! ## VarLong -/

/-- `read_varlong`, for an `i64` as its 64-bit pattern. -/
def readVarlong (buf : List Byte) : Outcome VarIntError (BitVec 64 × Nat) :=
  SevenBits.read .incomplete .tooLarge 0#64 0 0 buf

/-- `write_varlong` -/
def writeVarlong (v : BitVec 64) : List Byte := SevenBits.write v

/-! ## Sizes -/

/-- `v.leading_zeros()` -/
def leadingZeros (v : BitVec 32) : Nat := if v.toNat = 0 then 32 else 32 - (v.toNat.log2 + 1)

/-- `varint_size`: `bits.div_ceil(7)`. -/
def varintSize (v : BitVec 32) : Nat :=
  if v = 0#32 then 1
  else
    let bits := 32 - leadingZeros v
    (bits + 6) / 7

theorem varintSize_eq (v : BitVec 32) : varintSize v = (writeVarint v).length := by
  rw [writeVarint_eq, SevenBits.length_write, varintSize, leadingZeros]
  by_cases h : v = 0#32
  · rw [if_pos h, h]
    rfl
  · have hne : v.toNat ≠ 0 := fun e => h (BitVec.eq_of_toNat_eq e)
    have hlog : v.toNat.log2 < 32 := (Nat.log2_lt hne).2 v.isLt
    rw [if_neg h, if_neg hne, if_neg hne]
    dsimp only
    congr 2
    omega

/-- The writer and the reader of words of `w` bits agree, at sizes of at most `limit` bytes. -/
structure ExactCodec {w : Nat} (read : List Byte → Outcome VarIntError (BitVec w × Nat))
    (write : BitVec w → List Byte) (size : BitVec w → Nat) (limit : Nat) : Prop where
  roundTrip : ∀ v s, read (write v ++ s) = .ok (v, size v)
  size_eq : ∀ v, (write v).length = size v
  size_le : ∀ v, size v ≤ limit
  read_le : ∀ buf, (∃ e, read buf = .err e) ∨ ∃ v n, read buf = .ok (v, n) ∧ n ≤ buf.length ∧ n ≤ limit
  prefixFree : ∀ v v', write v <+: write v' → v = v'

/-- The reader takes at most as many bytes as there are groups in a word. -/
theorem exactCodec_sevenBits {w limit : Nat} (hlimit : w + 6 < 7 * (limit + 1)) (hw : 0 < w) :
    ExactCodec (SevenBits.read .incomplete .tooLarge 0#w 0 0) SevenBits.write
      (fun v => (SevenBits.write v).length) limit where
  roundTrip v s := SevenBits.read_write_zero _ _ v s
  size_eq _ := rfl
  size_le v := by
    have hread := SevenBits.read_write_zero VarIntError.incomplete .tooLarge v []
    have := (SevenBits.read_le hread).2.2 hw
    omega
  read_le buf := by
    cases h : SevenBits.read VarIntError.incomplete .tooLarge (0#w) 0 0 buf with
    | ok r =>
        have hle := SevenBits.read_le (v := r.1) (n := r.2) h
        have := hle.2.2 hw
        exact .inr ⟨r.1, r.2, rfl, by omega, by omega⟩
    | err e => exact .inl ⟨e, rfl⟩
    | panic => exact absurd h (SevenBits.read_ne_panic _ _ _ _)
  prefixFree _ _ h := SevenBits.prefix_iff.1 h

theorem length_writeVarint_le (v : BitVec 32) : (writeVarint v).length ≤ 5 := by
  rw [writeVarint_eq]
  exact (exactCodec_sevenBits (by decide) (by decide)).size_le v

/-- **VarInt and VarLong are exact**: what is written is read back with its size, no read takes more
    than five or ten bytes, and no encoding is the beginning of another. -/
theorem varint_varlong_exact :
    ExactCodec readVarint writeVarint varintSize 5 ∧
      ExactCodec readVarlong writeVarlong (fun v => (writeVarlong v).length) 10 := by
  have hread : readVarint = SevenBits.read .incomplete .tooLarge 0#32 0 0 :=
    funext fun buf => readVarintLoop_eq _ _ _ buf
  have hwrite : writeVarint = SevenBits.write := funext writeVarint_eq
  have hsize : varintSize = fun v => (SevenBits.write v).length := by
    funext v
    rw [varintSize_eq, writeVarint_eq]
  refine ⟨?_, exactCodec_sevenBits (by decide) (by decide)⟩
  rw [hread, hwrite, hsize]
  exact exactCodec_sevenBits (by decide) (by decide)

end Apoptotic
