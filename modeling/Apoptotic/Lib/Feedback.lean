import Mathlib.Data.List.Basic

/-!
# Ciphertext feedback

A stream cipher in feedback mode: each symbol is combined with a keystream symbol of the register,
and the register then takes in the ciphertext symbol.  Registers and keystream are arbitrary.

Principal results: `decrypt_encrypt` — from the same register, decryption undoes encryption and ends
in the same register; `keystream_eq` — from two registers it can only do so when their keystreams
agree on the first symbol.
-/

namespace Feedback

variable {R : Type} {w : Nat} (keystream : R → BitVec w) (feed : R → BitVec w → R)

/-- The register after encryption, and the ciphertext. -/
def encrypt (r : R) : List (BitVec w) → R × List (BitVec w)
  | [] => (r, [])
  | b :: bs =>
      let c := b ^^^ keystream r
      let (r, cs) := encrypt (feed r c) bs
      (r, c :: cs)

/-- The register after decryption, and the plaintext. -/
def decrypt (r : R) : List (BitVec w) → R × List (BitVec w)
  | [] => (r, [])
  | c :: cs =>
      let b := c ^^^ keystream r
      let (r, bs) := decrypt (feed r c) cs
      (r, b :: bs)

theorem length_encrypt (r : R) (bs : List (BitVec w)) :
    (encrypt keystream feed r bs).2.length = bs.length := by
  induction bs generalizing r with
  | nil => rfl
  | cons b bs ih => exact congrArg (· + 1) (ih _)

theorem decrypt_encrypt (r : R) (bs : List (BitVec w)) :
    decrypt keystream feed r (encrypt keystream feed r bs).2 =
      ((encrypt keystream feed r bs).1, bs) := by
  induction bs generalizing r with
  | nil => rfl
  | cons b bs ih =>
      simp only [encrypt, decrypt, ih, BitVec.xor_assoc, BitVec.xor_self, BitVec.xor_zero]

theorem encrypt_append (r : R) (bs bs' : List (BitVec w)) :
    (encrypt keystream feed r (bs ++ bs')).1 =
      (encrypt keystream feed (encrypt keystream feed r bs).1 bs').1 := by
  induction bs generalizing r with
  | nil => rfl
  | cons b bs ih => exact ih _

/-- The registers of both sides agree on the first symbol that is recovered. -/
theorem keystream_eq {r r' : R} {b : BitVec w} {bs : List (BitVec w)}
    (h : (decrypt keystream feed r' (encrypt keystream feed r (b :: bs)).2).2 = b :: bs) :
    keystream r' = keystream r := by
  simp only [encrypt, decrypt, List.cons.injEq] at h
  have hkey := congrArg (b ^^^ ·) h.1
  simp only [BitVec.xor_assoc] at hkey
  rw [← BitVec.xor_assoc, BitVec.xor_self, BitVec.zero_xor] at hkey
  have hxor := congrArg (keystream r ^^^ ·) hkey
  simpa [← BitVec.xor_assoc] using hxor

end Feedback
