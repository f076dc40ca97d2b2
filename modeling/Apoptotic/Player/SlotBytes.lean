import Apoptotic.Command.Server
import Apoptotic.Lib.Bytes

/-!
# Item slots in bytes

The slot record that `Inventory::serialize` of `mc-player/src/inventory.rs` and
`ContainerManager::serialize_all` of `mc-player/src/container.rs` share, and what reading it back makes
of a stack: properties are not stored, no NBT and empty NBT look alike, and a durability of zero stands
for the durability of a new item.

Principal results: `reloaded_eq_self_iff` — the stacks that survive; `readNbt_at` — reading back the
NBT of a record.
-/

namespace Apoptotic.Commands

open Bytes

/-! ## Stacks -/

namespace ItemStack

/-- The bytes of the NBT; without NBT there are none. -/
def nbtBytes (s : ItemStack) : List Byte :=
  match s.nbt with
  | some nbt => nbt.data.toList.map UInt8.toBitVec
  | none => []

/-- The numbers of the stack fit the fields of its record. -/
structure Fits (s : ItemStack) : Prop where
  count : s.count < 2 ^ 8
  nbt : s.nbtBytes.length < 2 ^ 16
  durability : ∀ d, s.durability = some d → d < 2 ^ 16

/-- **The record of the stack says all there is to say about it.** -/
structure Kept (s : ItemStack) : Prop extends Fits s where
  props : s.item.props = 0
  maxCount : s.maxCount = (new s.item s.count).maxCount
  nbt_ne : s.nbt.isSome → s.nbtBytes ≠ []
  durability_pos : ∀ d, s.durability = some d → 0 < d
  unbreakable : s.durability = none → maxDurability s.item.id.toNat = none

end ItemStack

/-- `to_vec` -/
def toVec (bytes : List Byte) : ByteArray := ⟨(bytes.map UInt8.ofBitVec).toArray⟩

/-- The durability that a stored `d` stands for. -/
def storedDurability (id d : Nat) : Option Nat := if 0 < d then some d else maxDurability id

/-- The stack made of the fields of a record. -/
def loadedStack (id : BitVec 32) (count : Nat) (nbt : Option ByteArray) (durability : Option Nat) :
    ItemStack :=
  { ItemStack.new (BlockState.new id) count with nbt := nbt, durability := durability }

/-- What is read back of a stack. -/
def ItemStack.reloaded (s : ItemStack) : ItemStack :=
  loadedStack s.item.id s.count (if s.nbtBytes = [] then none else some (toVec s.nbtBytes))
    (storedDurability s.item.id.toNat (s.durability.getD 0))

/-- `write_slot` -/
def writeSlot : Option ItemStack → List Byte
  | some item =>
      1 :: (toLe 4 item.item.id.toNat ++ (toLe 1 item.count ++ (toLe 2 item.nbtBytes.length ++
        (item.nbtBytes ++ toLe 2 (item.durability.getD 0)))))
  | none => [0]

/-- The NBT of a record, and where it ends. -/
def readNbt (data : List Byte) (pos nbtLen : Nat) : Option ByteArray × Nat :=
  if 0 < nbtLen ∧ pos + nbtLen ≤ data.length then
    (some (toVec ((data.drop pos).take nbtLen)), pos + nbtLen)
  else (none, pos)

variable {s : ItemStack}

theorem nbtBytes_of_none (h : s.nbt = none) : s.nbtBytes = [] := by
  unfold ItemStack.nbtBytes
  rw [h]

theorem toVec_nbtBytes {nbt : ByteArray} (h : s.nbt = some nbt) : toVec s.nbtBytes = nbt := by
  unfold toVec ItemStack.nbtBytes
  simp [h, Function.comp_def]

theorem bounds_ite {c : Prop} [Decidable c] {n : Nat} {o : Option Nat} (hn : 0 < n ∧ n < 2 ^ 16)
    (ho : ∀ d, o = some d → 0 < d ∧ d < 2 ^ 16) :
    ∀ d, (if c then some n else o) = some d → 0 < d ∧ d < 2 ^ 16 := by
  intro d hd
  split at hd
  · cases hd
    exact hn
  · exact ho d hd

theorem maxDurability_bounds {id : Nat} :
    ∀ d, maxDurability id = some d → 0 < d ∧ d < 2 ^ 16 := by
  unfold maxDurability
  repeat refine bounds_ite (by decide) ?_
  nofun

/-- The durability that is stored fits its field. -/
theorem ItemStack.Fits.stored_lt (h : s.Fits) : s.durability.getD 0 < 256 ^ 2 := by
  cases hs : s.durability with
  | none => exact Nat.two_pow_pos 16
  | some d => exact h.durability d hs

/-- **Reading back gives the same stack exactly when its record says all there is to say.** -/
theorem reloaded_eq_self_iff (h : s.Fits) : s.reloaded = s ↔ s.Kept := by
  constructor
  · intro heq
    have hprops : (0 : BitVec 16) = s.item.props := congrArg (fun t => t.item.props) heq
    have hmax : s.reloaded.maxCount = s.maxCount := congrArg ItemStack.maxCount heq
    have hnbt : (if s.nbtBytes = [] then none else some (toVec s.nbtBytes)) = s.nbt :=
      congrArg ItemStack.nbt heq
    have hdur : storedDurability s.item.id.toNat (s.durability.getD 0) = s.durability :=
      congrArg ItemStack.durability heq
    refine ⟨h, hprops.symm, hmax.symm, ?_, ?_, ?_⟩
    · intro hsome hnil
      rw [if_pos hnil] at hnbt
      rw [← hnbt] at hsome
      exact absurd hsome (by decide)
    · intro d hd
      rw [hd] at hdur
      unfold storedDurability at hdur
      split at hdur
      · assumption
      · exact (maxDurability_bounds d hdur).1
    · intro hnone
      rw [hnone] at hdur
      exact hdur
  · intro hk
    have hprops : BlockState.new s.item.id = s.item := congrArg (BlockState.mk s.item.id) hk.props.symm
    have hnbt : (if s.nbtBytes = [] then none else some (toVec s.nbtBytes)) = s.nbt := by
      cases hn : s.nbt with
      | none => exact if_pos (nbtBytes_of_none hn)
      | some nbt => rw [if_neg (hk.nbt_ne (by rw [hn]; rfl)), toVec_nbtBytes hn]
    have hdur : storedDurability s.item.id.toNat (s.durability.getD 0) = s.durability := by
      cases hd : s.durability with
      | none => exact hk.unbreakable hd
      | some d => exact if_pos (hk.durability_pos d hd)
    unfold ItemStack.reloaded loadedStack
    rw [hprops, hnbt, hdur, ItemStack.mk.injEq]
    exact ⟨rfl, rfl, hk.maxCount.symm, rfl, rfl⟩

/-- The slots that come back. -/
theorem map_reloaded_eq_self_iff {slot : Option ItemStack} (hf : ∀ s, slot = some s → s.Fits) :
    slot.map ItemStack.reloaded = slot ↔ ∀ s, slot = some s → s.Kept := by
  cases slot with
  | none => exact ⟨fun _ => nofun, fun _ => rfl⟩
  | some s =>
      constructor
      · intro h s' hs'
        cases hs'
        exact (reloaded_eq_self_iff (hf s rfl)).1 (Option.some.inj h)
      · intro h
        exact congrArg some ((reloaded_eq_self_iff (hf s rfl)).2 (h s rfl))

theorem list_map_reloaded_eq_self_iff {slots : List (Option ItemStack)}
    (hf : ∀ s, some s ∈ slots → s.Fits) :
    slots.map (Option.map ItemStack.reloaded) = slots ↔ ∀ s, some s ∈ slots → s.Kept := by
  have hmap : slots.map (Option.map ItemStack.reloaded) = slots ↔
      ∀ slot ∈ slots, slot.map ItemStack.reloaded = slot := by
    rw [← List.map_inj_left, List.map_id']
  rw [hmap]
  constructor
  · intro h s hs
    exact (map_reloaded_eq_self_iff fun s' hs' => hf s' (hs' ▸ hs)).1 (h _ hs) s rfl
  · intro h slot hslot
    exact (map_reloaded_eq_self_iff fun s hs => hf s (hs ▸ hslot)).2 fun s hs => h s (hs ▸ hslot)

/-! ## Reading a record -/

/-- Reading back the NBT of a record. -/
theorem readNbt_at {data rest : List Byte} {pos : Nat} (h : At data pos (s.nbtBytes ++ rest)) :
    readNbt data pos s.nbtBytes.length =
      (if s.nbtBytes = [] then none else some (toVec s.nbtBytes), pos + s.nbtBytes.length) := by
  unfold readNbt
  by_cases hnil : s.nbtBytes = []
  · simp [hnil]
  · have hpos := List.length_pos_of_ne_nil hnil
    rw [if_pos ⟨hpos, (h.skip rfl).le⟩, if_neg hnil, h.take rfl]

theorem size_toVec (bytes : List Byte) : (toVec bytes).size = bytes.length := by
  unfold toVec ByteArray.size
  simp

/-- The length of NBT that was read fits its field. -/
theorem size_readNbt_lt {data : List Byte} {pos nbtLen : Nat} (h : nbtLen < 2 ^ 16)
    {nbt : ByteArray} (hr : (readNbt data pos nbtLen).1 = some nbt) : nbt.size < 2 ^ 16 := by
  unfold readNbt at hr
  split at hr
  · cases hr
    rw [size_toVec]
    exact Nat.lt_of_le_of_lt (List.length_take_le ..) h
  · cases hr

theorem storedDurability_lt {id d : Nat} (h : d < 2 ^ 16) :
    ∀ d', storedDurability id d = some d' → d' < 2 ^ 16 := by
  intro d' hd
  unfold storedDurability at hd
  split at hd
  · cases hd
    exact h
  · exact (maxDurability_bounds d' hd).2

theorem fits_loadedStack {id : BitVec 32} {count : Nat} {nbt : Option ByteArray}
    {durability : Option Nat} (hcount : count < 2 ^ 8) (hnbt : ∀ n, nbt = some n → n.size < 2 ^ 16)
    (hdur : ∀ d, durability = some d → d < 2 ^ 16) :
    (loadedStack id count nbt durability).Fits := by
  refine ⟨hcount, ?_, hdur⟩
  cases nbt with
  | none => exact Nat.two_pow_pos 16
  | some n =>
      change (n.data.toList.map UInt8.toBitVec).length < 2 ^ 16
      rw [List.length_map]
      exact hnbt n rfl

/-- The fields of a record. -/
theorem record_at {data rest : List Byte} {pos : Nat} (h : At data pos (writeSlot (some s) ++ rest)) :
    data[pos]? = some 1 ∧ BitVec.ofNat 32 (readLe data (pos + 1) 4) = s.item.id ∧
      At data (pos + 5) (toLe 1 s.count ++ (toLe 2 s.nbtBytes.length ++
        (s.nbtBytes ++ (toLe 2 (s.durability.getD 0) ++ rest)))) := by
  have h0 : At data pos (1 :: (toLe 4 s.item.id.toNat ++ (toLe 1 s.count ++
      (toLe 2 s.nbtBytes.length ++ (s.nbtBytes ++ (toLe 2 (s.durability.getD 0) ++ rest)))))) := by
    simpa [writeSlot] using h
  have h1 : At data (pos + 1) _ := h0.tail
  refine ⟨h0.getElem?, ?_, h1.skip (length_toLe ..)⟩
  rw [h1.readLe s.item.id.isLt, BitVec.ofNat_toNat, BitVec.setWidth_eq]

theorem length_writeSlot :
    (writeSlot (some s)).length = 8 + s.nbtBytes.length + 2 := by
  unfold writeSlot
  simp only [List.length_cons, List.length_append, length_toLe]
  omega

theorem writeSlot_ne_nil (slot : Option ItemStack) : writeSlot slot ≠ [] := by
  cases slot with
  | none => nofun
  | some s => nofun

end Apoptotic.Commands
