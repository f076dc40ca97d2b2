import Apoptotic.Lib.PackedBits

/-!
# Packed arrays

`packed_words`, `new_packed`, `read_packed` and `write_packed` of `mc-world/src/paletted.rs`:
entries of `bits` bits laid end to end over 64-bit words, straddling word boundaries.
`none` is the panic of an out-of-range word index.

Principal results: `readPacked_spec`, `writePacked_spec` — both functions in terms of the bit
stream of the words; `Holds.write`, `readPacked_writePacked` — a write changes the entry at its index
and no other.
-/

namespace Apoptotic

open PackedBits

/-- `packed_words`. -/
def packedWords (count bits : Nat) : Nat :=
  if bits = 0 then 0 else (count * bits + 63) / 64

/-- `new_packed`. -/
def newPacked (count bits : Nat) : List Word := List.replicate (packedWords count bits) 0#64

/-- `read_packed`. -/
def readPacked (data : List Word) (index bits : Nat) : Option Word :=
  if bits = 0 then some 0#64 else
  let bitIndex := index * bits
  let wordIndex := bitIndex / 64
  let bitOffset := bitIndex % 64
  match data[wordIndex]? with
  | none => none
  | some word =>
    let value := word >>> bitOffset
    if bitOffset + bits > 64 then
      -- the entry straddles a word boundary
      let nextBits := bitOffset + bits - 64
      match data[wordIndex + 1]? with
      | none => none
      | some next => some (value ||| ((next &&& maskBits nextBits) <<< (bits - nextBits)))
    else some (value &&& maskBits bits)

/-- `write_packed`. -/
def writePacked (data : List Word) (index bits : Nat) (value : Word) : Option (List Word) :=
  if bits = 0 then some data else
  let mask := maskBits bits
  let value := value &&& mask
  let bitIndex := index * bits
  let wordIndex := bitIndex / 64
  let bitOffset := bitIndex % 64
  match data[wordIndex]? with
  | none => none
  | some word =>
    let data := data.set wordIndex ((word &&& ~~~(mask <<< bitOffset)) ||| (value <<< bitOffset))
    if bitOffset + bits > 64 then
      let nextBits := bitOffset + bits - 64
      match data[wordIndex + 1]? with
      | none => none
      | some next =>
        some (data.set (wordIndex + 1)
          ((next &&& ~~~(maskBits nextBits)) ||| (value >>> (bits - nextBits))))
    else some data

@[simp] theorem length_newPacked (count bits : Nat) :
    (newPacked count bits).length = packedWords count bits := by
  simp [newPacked]

/-- Every entry lies inside the words that `packedWords` counts. -/
theorem entry_le_packedWords {count bits index : Nat} (h : index < count) :
    index * bits + bits ≤ 64 * packedWords count bits := by
  have hmul : (index + 1) * bits ≤ count * bits := Nat.mul_le_mul_right bits h
  rw [Nat.add_mul, Nat.one_mul] at hmul
  unfold packedWords
  split
  · rename_i h0; subst h0; omega
  · omega

/-- **`readPacked` returns the `bits` stream bits at `index * bits`.** -/
theorem readPacked_spec (data : List Word) (index : Nat) {bits : Nat} (hb : bits < 64)
    (hfit : index * bits + bits ≤ 64 * data.length) :
    ∃ v, readPacked data index bits = some v ∧
      ∀ j, v.getLsbD j = (decide (j < bits) && bitAt data (index * bits + j)) := by
  unfold readPacked
  by_cases h0 : bits = 0
  · subst h0
    exact ⟨0#64, by simp, fun j => by simp⟩
  · rw [if_neg h0]
    generalize index * bits = p at *
    have hw : p / 64 < data.length := by omega
    simp only [List.getElem?_eq_getElem hw]
    have hfirst : ∀ j, p % 64 + j < 64 →
        bitAt data (p + j) = data[p / 64].getLsbD (p % 64 + j) := by
      intro j hj
      rw [bitAt_of_word (List.getElem?_eq_getElem hw) (by omega)]
      congr 1
      omega
    split
    · rename_i hs
      have hw' : p / 64 + 1 < data.length := by omega
      simp only [List.getElem?_eq_getElem hw']
      refine ⟨_, rfl, fun j => ?_⟩
      have hsecond : ∀ j, 64 ≤ p % 64 + j → j < bits →
          bitAt data (p + j) = data[p / 64 + 1].getLsbD (p % 64 + j - 64) := by
        intro j hj hjb
        rw [bitAt_of_word (List.getElem?_eq_getElem hw') (by omega)]
        congr 1
        omega
      simp only [BitVec.getLsbD_or, BitVec.getLsbD_ushiftRight, BitVec.getLsbD_shiftLeft,
        BitVec.getLsbD_and, maskBits_getLsbD (show p % 64 + bits - 64 < 64 by omega)]
      have e : j - (bits - (p % 64 + bits - 64)) = p % 64 + j - 64 := by omega
      rw [e]
      by_cases hj : p % 64 + j < 64
      · -- below the boundary: the shifted second word contributes nothing
        rw [hfirst j hj]
        simp [show j < bits - (p % 64 + bits - 64) by omega, show j < bits by omega]
      · rw [BitVec.getLsbD_of_ge _ (p % 64 + j) (by omega)]
        by_cases hjb : j < bits
        · rw [hsecond j (by omega) hjb]
          have hlt : p % 64 + j - 64 < p % 64 + bits - 64 := by omega
          simp [hjb, hlt, show j < 64 by omega, show ¬ j < bits - (p % 64 + bits - 64) by omega]
        · simp [hjb, show ¬ p % 64 + j - 64 < p % 64 + bits - 64 by omega]
    · rename_i hs
      refine ⟨_, rfl, fun j => ?_⟩
      simp only [BitVec.getLsbD_and, BitVec.getLsbD_ushiftRight, maskBits_getLsbD hb]
      by_cases hj : j < bits
      · rw [hfirst j (by omega)]
        simp [hj]
      · simp [hj]

/-- The stream after the first word of an entry at bit `p` is rewritten. -/
theorem bitAt_set_first {data : List Word} {p bits : Nat} (hb : bits < 64)
    (hw : p / 64 < data.length) (value : Word) (k : Nat) :
    bitAt (data.set (p / 64) ((data[p / 64] &&& ~~~(maskBits bits <<< (p % 64))) |||
        ((value &&& maskBits bits) <<< (p % 64)))) k =
      if p ≤ k ∧ k < p + bits ∧ k / 64 = p / 64 then value.getLsbD (k - p) else bitAt data k := by
  rw [bitAt_set hw]
  by_cases hk : k / 64 = p / 64
  · rw [if_pos hk, bitAt_of_word (List.getElem?_eq_getElem hw) hk]
    simp only [BitVec.getLsbD_or, BitVec.getLsbD_and, BitVec.getLsbD_not,
      BitVec.getLsbD_shiftLeft, maskBits_getLsbD hb]
    by_cases h1 : p ≤ k
    · have e : k % 64 - p % 64 = k - p := by omega
      rw [e]
      by_cases h2 : k < p + bits
      · simp [h1, h2, hk, show k % 64 < 64 by omega, show ¬ k % 64 < p % 64 by omega,
          show k - p < bits by omega]
      · simp [h2, show k % 64 < 64 by omega, show ¬ k - p < bits by omega]
    · simp [h1, show k % 64 < 64 by omega, show k % 64 < p % 64 by omega]
  · rw [if_neg hk, if_neg (by tauto)]

/-- **`writePacked` changes the `bits` stream bits at `index * bits` and no other.** -/
theorem writePacked_spec {data : List Word} {index bits : Nat} (hb : bits < 64)
    (hfit : index * bits + bits ≤ 64 * data.length) (value : Word) :
    ∃ data', writePacked data index bits value = some data' ∧ data'.length = data.length ∧
      ∀ k, bitAt data' k =
        if index * bits ≤ k ∧ k < index * bits + bits then value.getLsbD (k - index * bits)
        else bitAt data k := by
  unfold writePacked
  by_cases h0 : bits = 0
  · subst h0
    refine ⟨data, by simp, rfl, fun k => ?_⟩
    rw [if_neg (by omega)]
  · rw [if_neg h0]
    generalize index * bits = p at *
    have hw : p / 64 < data.length := by omega
    simp only [List.getElem?_eq_getElem hw]
    split
    · rename_i hs
      have hw' : p / 64 + 1 < data.length := by omega
      rw [List.getElem?_set_ne (by omega)]
      simp only [List.getElem?_eq_getElem hw']
      refine ⟨_, rfl, by simp, fun k => ?_⟩
      rw [bitAt_set (by simpa using hw')]
      by_cases hk : k / 64 = p / 64 + 1
      · rw [if_pos hk]
        simp only [BitVec.getLsbD_or, BitVec.getLsbD_and, BitVec.getLsbD_not,
          BitVec.getLsbD_ushiftRight, maskBits_getLsbD hb,
          maskBits_getLsbD (show p % 64 + bits - 64 < 64 by omega)]
        rw [bitAt_of_word (List.getElem?_eq_getElem hw') hk]
        have e : bits - (p % 64 + bits - 64) + k % 64 = k - p := by omega
        rw [e]
        by_cases h2 : k < p + bits
        · simp [h2, show p ≤ k by omega, show k - p < bits by omega,
            show k % 64 < p % 64 + bits - 64 by omega]
        · simp [h2, show ¬ k - p < bits by omega, show k % 64 < 64 by omega,
            show ¬ k % 64 < p % 64 + bits - 64 by omega]
      · rw [if_neg hk, bitAt_set_first hb hw]
        by_cases h : p ≤ k ∧ k < p + bits
        · rw [if_pos h, if_pos ⟨h.1, h.2, by omega⟩]
        · rw [if_neg h, if_neg (by tauto)]
    · rename_i hs
      refine ⟨_, rfl, by simp, fun k => ?_⟩
      rw [bitAt_set_first hb hw]
      by_cases h : p ≤ k ∧ k < p + bits
      · rw [if_pos h, if_pos ⟨h.1, h.2, by omega⟩]
      · rw [if_neg h, if_neg (by tauto)]

/-! ## Packed words as an array of numbers -/

/-- A word holding the low `bits` bits of `n`. -/
theorem eq_ofNat_mod_of_bits {v : Word} {bits n : Nat}
    (h : ∀ j, v.getLsbD j = (decide (j < bits) && n.testBit j)) :
    v = BitVec.ofNat 64 (n % 2 ^ bits) := by
  apply word_ext_lt
  intro j hj
  rw [h j, BitVec.getLsbD_ofNat, Nat.testBit_mod_two_pow]
  by_cases hjb : j < bits <;> simp [hjb, hj]

/-- `data` is a packed array of `count` entries of `bits` bits whose entry `i` is `f i`. -/
structure Holds (data : List Word) (count bits : Nat) (f : Nat → Nat) : Prop where
  length : data.length = packedWords count bits
  read : ∀ i < count, readPacked data i bits = some (BitVec.ofNat 64 (f i))

theorem Holds.congr {data : List Word} {count bits : Nat} {f g : Nat → Nat}
    (h : Holds data count bits f) (hfg : ∀ i < count, f i = g i) : Holds data count bits g :=
  ⟨h.length, fun i hi => by rw [h.read i hi, hfg i hi]⟩

/-- Entries of a packed array at different indices do not overlap. -/
theorem entries_disjoint {i k bits j : Nat} (hik : i ≠ k) (hj : j < bits) :
    ¬ (k * bits ≤ i * bits + j ∧ i * bits + j < k * bits + bits) := by
  rcases Nat.lt_or_gt_of_ne hik with h | h
  · have := Nat.mul_le_mul_right bits h
    rw [Nat.succ_mul] at this
    omega
  · have := Nat.mul_le_mul_right bits h
    rw [Nat.succ_mul] at this
    omega

theorem holds_newPacked (count : Nat) {bits : Nat} (hb : bits < 64) :
    Holds (newPacked count bits) count bits (fun _ => 0) := by
  refine ⟨length_newPacked count bits, fun i hi => ?_⟩
  obtain ⟨v, hv, hbits⟩ := readPacked_spec (newPacked count bits) i hb
    (by rw [length_newPacked]; exact entry_le_packedWords hi)
  rw [hv]
  have hz : v = BitVec.ofNat 64 (0 % 2 ^ bits) := by
    refine eq_ofNat_mod_of_bits fun j => ?_
    rw [hbits j, newPacked, bitAt_replicate_zero]
    simp
  rw [hz, Nat.zero_mod]

/-- **A write stores the low `bits` bits at its index and keeps every other entry.** -/
theorem Holds.write {data : List Word} {count bits : Nat} {f : Nat → Nat}
    (h : Holds data count bits f) (hb : bits < 64) {idx : Nat} (hi : idx < count) (value : Word) :
    ∃ data', writePacked data idx bits value = some data' ∧
      Holds data' count bits (Function.update f idx (value.toNat % 2 ^ bits)) := by
  have hfit : ∀ i < count, i * bits + bits ≤ 64 * data.length := by
    intro i hic
    rw [h.length]
    exact entry_le_packedWords hic
  obtain ⟨data', hw, hlen, hbits⟩ := writePacked_spec hb (hfit idx hi) value
  refine ⟨data', hw, by rw [hlen, h.length], fun i hic => ?_⟩
  obtain ⟨v', hv', hb'⟩ := readPacked_spec data' i hb
    (by rw [hlen]; exact hfit i hic)
  rw [hv']
  by_cases hik : i = idx
  · subst hik
    rw [Function.update_self]
    congr 1
    refine eq_ofNat_mod_of_bits fun j => ?_
    rw [hb' j, hbits, BitVec.testBit_toNat]
    by_cases hj : j < bits
    · rw [if_pos (by omega), Nat.add_sub_cancel_left]
    · simp [hj]
  · rw [Function.update_of_ne hik, ← h.read i hic]
    obtain ⟨v, hv, hb0⟩ := readPacked_spec data i hb (hfit i hic)
    rw [hv]
    congr 1
    apply word_ext_lt
    intro j _
    rw [hb' j, hb0 j]
    by_cases hj : j < bits
    · rw [hbits, if_neg (entries_disjoint hik hj)]
    · simp [hj]

/-- Any words of the right number hold some entries. -/
theorem holds_of_length {data : List Word} {count bits : Nat} (hb : bits < 64)
    (h : data.length = packedWords count bits) : ∃ f, Holds data count bits f := by
  have hread : ∀ i < count, ∃ v, readPacked data i bits = some v := by
    intro i hi
    have hfit : i * bits + bits ≤ 64 * packedWords count bits := entry_le_packedWords hi
    rw [← h] at hfit
    obtain ⟨v, hv, -⟩ := readPacked_spec data i hb hfit
    exact ⟨v, hv⟩
  refine ⟨fun i => ((readPacked data i bits).getD 0).toNat, h, fun i hi => ?_⟩
  obtain ⟨v, hv⟩ := hread i hi
  simp [hv]

/-- **Cells are independent**: after a write, its index reads the low `bits` bits of the value, and
every other index reads what it read before. -/
theorem readPacked_writePacked {data : List Word} {count bits : Nat} (hb : bits < 64)
    (hlen : data.length = packedWords count bits) {i j : Nat} (hi : i < count) (hj : j < count)
    (value : Word) :
    ∃ data' old, writePacked data i bits value = some data' ∧ data'.length = data.length ∧
      readPacked data j bits = some old ∧
      readPacked data' j bits =
        some (if i = j then BitVec.ofNat 64 (value.toNat % 2 ^ bits) else old) := by
  obtain ⟨f, hf⟩ := holds_of_length hb hlen
  obtain ⟨data', hw, hf'⟩ := hf.write hb hi value
  refine ⟨data', BitVec.ofNat 64 (f j), hw, by rw [hf'.length, hlen], hf.read j hj, ?_⟩
  rw [hf'.read j hj]
  by_cases hij : i = j
  · subst hij
    simp
  · rw [Function.update_of_ne (Ne.symm hij), if_neg hij]

/-- Entry 4 of 15 bits straddles the first two words; entry 5 begins in the second. -/
theorem readPacked_writePacked_straddling :
    ∃ data' old, writePacked (newPacked 4096 15) 4 15 0x12345#64 = some data' ∧
      data'.length = (newPacked 4096 15).length ∧
      readPacked (newPacked 4096 15) 5 15 = some old ∧
      readPacked data' 5 15 =
        some (if 4 = 5 then BitVec.ofNat 64 ((0x12345#64).toNat % 2 ^ 15) else old) :=
  readPacked_writePacked (by decide) (length_newPacked 4096 15) (by decide) (by decide) _

/-! ## Filling a new array -/

/-- The loop `for i in 0..count { write_packed(&mut new_data, i, bits, value(i)) }` over
`new_packed(count, bits)`, as both `set` (growing the bit width) and `upgrade_to_direct` run it. -/
def fillPacked (count bits : Nat) (value : Nat → Option Word) : Option (List Word) :=
  (List.range count).foldlM
    (fun data i => (value i).bind fun v => writePacked data i bits v) (newPacked count bits)

/-- **The loop stores the low `bits` bits of each value.** -/
theorem fillPacked_spec (count : Nat) {bits : Nat} (hb : bits < 64) (value : Nat → Option Word)
    {g : Nat → Word} (hg : ∀ i < count, value i = some (g i)) :
    ∃ data, fillPacked count bits value = some data ∧
      Holds data count bits (fun i => (g i).toNat % 2 ^ bits) := by
  -- induction on the number of entries written; entries not yet written are zero
  have main : ∀ n ≤ count, ∃ data, (List.range n).foldlM
      (fun data i => (value i).bind fun v => writePacked data i bits v) (newPacked count bits)
        = some data ∧
      Holds data count bits (fun i => if i < n then (g i).toNat % 2 ^ bits else 0) := by
    intro n
    induction n with
    | zero =>
        intro _
        exact ⟨_, rfl, (holds_newPacked count hb).congr fun i _ => by simp⟩
    | succ n ih =>
        intro hn
        obtain ⟨data, hd, hh⟩ := ih (by omega)
        obtain ⟨data', hw, hh'⟩ := hh.write hb (show n < count by omega) (g n)
        refine ⟨data', ?_, hh'.congr fun i _ => ?_⟩
        · rw [List.range_succ, List.foldlM_append, hd]
          simp [hg n (by omega), hw]
        · by_cases hi : i = n
          · subst hi
            simp
          · rw [Function.update_of_ne hi]
            simp only [show i < n + 1 ↔ i < n by omega]
  obtain ⟨data, hd, hh⟩ := main count (Nat.le_refl _)
  exact ⟨data, hd, hh.congr fun i hi => by rw [if_pos hi]⟩

end Apoptotic
