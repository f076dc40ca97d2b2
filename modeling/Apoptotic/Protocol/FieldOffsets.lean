import Apoptotic.Protocol.Packets

/-!
# Fields behind a VarInt

`PlaceRecipe::decode_payload` and `ChangeBeaconEffect::decode_payload` of
`mc-protocol/src/packets/play.rs` work out by hand where the field behind a VarInt begins: the first
one byte too far, the second as if the VarInt began at the first byte of the payload.

Principal result: `fields_decoded_iff` — which fields come back of what a client writes.
-/

namespace Apoptotic

open Bytes Outcome Slices

def boolByte (b : Bool) : Byte := if b then 1#8 else 0#8

/-- `[window][VarInt index][bool]` -/
def PlaceRecipe.payload (p : PlaceRecipe) : List Byte :=
  p.windowId :: (writeVarint p.recipeIndex ++ [boolByte p.makeAll])

/-- An effect that is there. -/
def writeEffect (effect : Option (BitVec 32)) : List Byte := (effect.map writeVarint).getD []

/-- `[bool][bool][VarInt primary, if any][VarInt secondary, if any]` -/
def ChangeBeaconEffect.payload (p : ChangeBeaconEffect) : List Byte :=
  [boolByte p.primaryEffect.isSome, boolByte p.secondaryEffect.isSome] ++
    writeEffect p.primaryEffect ++ writeEffect p.secondaryEffect

@[simp] theorem boolByte_ne_zero (b : Bool) : decide (boolByte b ≠ 0#8) = b := by
  cases b <;> decide

theorem readVarintEnum_writeVarint (v : BitVec 32) (rest : List Byte) :
    readVarintEnum (writeVarint v ++ rest) = .ok (v, (writeVarint v).length) := by
  rw [readVarintEnum, readVarint_writeVarint]
  rfl

theorem length_writeVarint_pos (v : BitVec 32) : 0 < (writeVarint v).length := by
  have h : readVarint (writeVarint v) = .ok (v, (writeVarint v).length) := by
    simpa using readVarint_writeVarint v []
  exact (readVarint_le h).1

/-! ## The scan for the end of the VarInt -/

/-- The scan stops at the last byte of the VarInt. -/
theorem skipHighBytes_append (front rest : List Byte) (v : BitVec 32) :
    skipHighBytes (front ++ (writeVarint v ++ rest)) front.length + 1 =
      front.length + (writeVarint v).length := by
  induction hn : v.toNat using Nat.strongRecOn generalizing front v with
  | ind n ih =>
      have hhigh := SevenBits.byte_high v
      rw [writeVarint]
      by_cases hlast : v >>> 7 = 0#32
      · rw [dif_pos hlast, skipHighBytes, dif_pos (by simp)]
        rw [List.getElem_append_right (by omega)]
        simp only [Nat.sub_self, List.singleton_append, List.getElem_cons_zero, hhigh.1, ne_eq,
          not_true_eq_false, if_false, List.length_singleton]
      · have hge := SevenBits.le_of_ne_zero hlast
        have hdiv := SevenBits.toNat_ushiftRight_seven v
        have hnext := ih _ (by omega) (front ++ [(v &&& 0x7F#32).setWidth 8 ||| 0x80#8]) (v >>> 7) rfl
        rw [dif_neg hlast, skipHighBytes, dif_pos (by simp), List.getElem_append_right (by omega)]
        simp only [Nat.sub_self, List.cons_append, List.getElem_cons_zero, hhigh.2,
          show ¬ 0x80#8 = 0#8 by decide, ne_eq, not_false_eq_true, if_true, List.length_cons]
        rw [List.append_assoc, List.singleton_append, List.length_append, List.length_singleton] at hnext
        rw [hnext]
        omega

/-- The flag is looked for behind the end of the payload. -/
theorem PlaceRecipe.decode_payload (checks : Bool) (p : PlaceRecipe) :
    decodePayload checks p.payload = .ok { p with makeAll := false } := by
  have hlen := length_writeVarint_le p.recipeIndex
  have hpos := length_writeVarint_pos p.recipeIndex
  have hskip := skipHighBytes_append [p.windowId] [boolByte p.makeAll] p.recipeIndex
  rw [List.length_singleton, List.singleton_append] at hskip
  unfold decodePayload payload
  rw [require_pos (by simp), ok_bind, List.getElem?_cons_zero, orPanic_some, ok_bind, readLast,
    sliceFrom_of_le (by simp), ok_bind, List.drop_one, List.tail_cons, readVarintEnum_writeVarint]
  simp only [ok_bind, pure_eq]
  rw [usizeAdd_of_lt (by omega), ok_bind, usizeAdd_of_lt (by omega), ok_bind,
    List.getElem?_eq_none (by simp; omega)]
  rfl

/-! ## The offset behind the primary effect -/

/-- What is read where the primary effect `v` is taken to end. -/
def misread (v : BitVec 32) : BitVec 32 :=
  if (writeVarint v).length = 1 then 1#32 else v >>> (7 * ((writeVarint v).length - 2))

/-- The payload from the size of the primary effect on, where both effects are there. -/
theorem readVarintEnum_drop (v : BitVec 32) (rest : List Byte) :
    ∃ n, readVarintEnum (([boolByte true, boolByte true] ++ writeVarint v ++ rest).drop
      (writeVarint v).length) = .ok (misread v, n) := by
  have hpos := length_writeVarint_pos v
  unfold misread
  by_cases hone : (writeVarint v).length = 1
  · rw [if_pos hone, hone]
    exact ⟨1, rfl⟩
  · have hdrop := SevenBits.drop_write v (k := (writeVarint v).length - 2)
      (by rw [← writeVarint_eq]; omega)
    rw [← writeVarint_eq, ← writeVarint_eq] at hdrop
    rw [if_neg hone, List.append_assoc, List.drop_append,
      List.drop_of_length_le (by simp only [List.length_cons, List.length_nil]; omega), List.nil_append,
      List.drop_append_of_le_length (by simp only [List.length_cons, List.length_nil]; omega)]
    simp only [List.length_cons, List.length_nil, Nat.zero_add, Nat.reduceAdd]
    rw [hdrop]
    exact ⟨_, readVarintEnum_writeVarint _ rest⟩

theorem sliceFrom_payload (p s : List Byte) (k : Nat) (hk : k ≤ p.length) :
    (sliceFrom ([boolByte true, boolByte true] ++ p ++ s) k : Outcome CodecError _) =
      .ok (([boolByte true, boolByte true] ++ p ++ s).drop k) :=
  sliceFrom_of_le (by simp; omega)

theorem readEffect_false (data : List Byte) (off : Nat) :
    readEffect false data off = .ok (none, off) := rfl

theorem readEffect_two (a b : Byte) (v : BitVec 32) (rest : List Byte) :
    readEffect true ([a, b] ++ writeVarint v ++ rest) 2 = .ok (some v, (writeVarint v).length) := by
  unfold readEffect
  rw [if_pos rfl, sliceFrom_of_le (by simp), ok_bind, List.append_assoc,
    show ([a, b] ++ (writeVarint v ++ rest)).drop 2 = writeVarint v ++ rest by rfl,
    readVarintEnum_writeVarint]
  rfl

/-- **What comes back of the two effects.** -/
theorem ChangeBeaconEffect.decode_payload (primary secondary : Option (BitVec 32)) :
    decodePayload (payload ⟨primary, secondary⟩) =
      .ok ⟨primary, secondary.bind fun s => some ((primary.map misread).getD s)⟩ := by
  unfold decodePayload payload
  rw [require_pos (by simp), ok_bind]
  simp only [List.cons_append, List.nil_append, List.getElem?_cons_zero, List.getElem?_cons_succ,
    orPanic_some, ok_bind, boolByte_ne_zero]
  cases primary with
  | none =>
      rw [Option.isSome_none, readEffect_false, ok_bind]
      cases secondary with
      | none => rfl
      | some s =>
          have h := readEffect_two (boolByte false) (boolByte true) s []
          rw [List.append_nil] at h
          simp only [writeEffect, Option.map_some, Option.map_none, Option.getD_some, Option.getD_none,
            Option.isSome_some, List.nil_append]
          rw [show boolByte false :: boolByte true :: writeVarint s =
            [boolByte false, boolByte true] ++ writeVarint s by rfl, h]
          rfl
  | some v =>
      have h := readEffect_two (boolByte true) (boolByte secondary.isSome) v (writeEffect secondary)
      rw [Option.isSome_some]
      simp only [writeEffect, Option.map_some, Option.getD_some] at h ⊢
      rw [show boolByte true :: boolByte secondary.isSome ::
        (writeVarint v ++ (secondary.map writeVarint).getD []) =
          [boolByte true, boolByte secondary.isSome] ++ writeVarint v ++
            (secondary.map writeVarint).getD [] by rfl, h, ok_bind]
      cases secondary with
      | none => rfl
      | some s =>
          obtain ⟨n, hread⟩ := readVarintEnum_drop v (writeVarint s)
          unfold readEffect
          rw [Option.isSome_some, if_pos rfl, Option.map_some, Option.getD_some,
            sliceFrom_payload _ _ _ (by omega), ok_bind, hread]
          rfl

/-- **Which fields come back**: the flag only when it is not set, both effects only when at most one is
there or the secondary one is what is misread of the primary one. -/
theorem fields_decoded_iff (checks : Bool) (p : PlaceRecipe) (b : ChangeBeaconEffect) :
    (PlaceRecipe.decodePayload checks p.payload = .ok p ↔ p.makeAll = false) ∧
      (ChangeBeaconEffect.decodePayload b.payload = .ok b ↔
        b.primaryEffect = none ∨ b.secondaryEffect = none ∨
          b.secondaryEffect = b.primaryEffect.map misread) := by
  obtain ⟨windowId, recipeIndex, makeAll⟩ := p
  obtain ⟨primary, secondary⟩ := b
  rw [PlaceRecipe.decode_payload, ChangeBeaconEffect.decode_payload]
  constructor
  · simp only [Outcome.ok.injEq, PlaceRecipe.mk.injEq, true_and]
    exact eq_comm
  · simp only [Outcome.ok.injEq, ChangeBeaconEffect.mk.injEq, true_and]
    cases primary with
    | none => cases secondary <;> simp
    | some v =>
        cases secondary with
        | none => simp
        | some s => simp [eq_comm]

/-- Crafting everything is read as crafting once, and regeneration behind speed as speed. -/
theorem fields_lost :
    PlaceRecipe.decodePayload true (PlaceRecipe.payload ⟨0, 5, true⟩) = .ok ⟨0, 5, false⟩ ∧
      ChangeBeaconEffect.decodePayload (ChangeBeaconEffect.payload ⟨some 1, some 10⟩) =
        .ok ⟨some 1, some 1⟩ := by
  refine ⟨PlaceRecipe.decode_payload true _, ?_⟩
  rw [ChangeBeaconEffect.decode_payload]
  have hmisread : misread 1#32 = 1#32 := by
    unfold misread
    rw [if_pos (by rw [writeVarint_eq, SevenBits.length_write]; decide)]
  simp [hmisread]

end Apoptotic
