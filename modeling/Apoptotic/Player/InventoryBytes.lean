import Apoptotic.Player.SlotBytes

/-!
# Inventories in bytes

`Inventory::serialize` and `Inventory::deserialize` of `mc-player/src/inventory.rs`: the blob that a
player's inventory is saved as.  A present slot is only read when ten bytes follow its first one, and a
record without NBT has nine.

Principal results: `deserialize_serialize` — what comes back of an inventory; `survives_iff` — the
inventories that come back as they were.
-/

namespace Apoptotic.Commands

open Bytes

namespace Inventory

/-- The slots in the order of the format. -/
def slots (inv : Inventory) : List (Option ItemStack) :=
  inv.items.toList ++ inv.offhand :: inv.armor.toList

def serialize (inv : Inventory) : List Byte :=
  2 :: 41 :: (inv.items.toList.flatMap writeSlot ++
    (writeSlot inv.offhand ++ inv.armor.toList.flatMap writeSlot))

/-- `read_slot`: the slot, and where the reader is after it. -/
def readSlot (data : List Byte) (pos : Nat) : Option ItemStack × Nat :=
  match data[pos]? with
  | none => (none, pos)
  | some present =>
      if present ≠ 0 ∧ pos + 1 + 10 ≤ data.length then
        let id := BitVec.ofNat 32 (readLe data (pos + 1) 4)
        let cnt := readLe data (pos + 5) 1
        let nbtLen := readLe data (pos + 6) 2
        let (nbt, pos) := readNbt data (pos + 8) nbtLen
        -- no durability and a durability of 0 both leave the one of a new item
        let (dur, pos) :=
          if pos + 2 ≤ data.length then (readLe data pos 2, pos + 2) else (0, pos)
        (some (loadedStack id cnt nbt (storedDurability id.toNat dur)), pos)
      else (none, pos + 1)

/-- `for i in 0..n { if pos >= data.len() { break; } .. }`: the slots that are read. -/
def readSlots (data : List Byte) : (n pos : Nat) → List (Option ItemStack) × Nat
  | 0, pos => ([], pos)
  | n + 1, pos =>
      if data.length ≤ pos then ([], pos)
      else
        let (slot, pos) := readSlot data pos
        let (slots, pos) := readSlots data n pos
        (slot :: slots, pos)

/-- An array of empty slots into which the first ones were read. -/
def fromRead (n : Nat) (slots : List (Option ItemStack)) : Vector (Option ItemStack) n :=
  Vector.ofFn fun i => slots[i.val]?.join

/-- The slots after the header. -/
def readBody (data : List Byte) (v2 : Bool) (slotCount pos : Nat) : Inventory :=
  let (items, pos) := readSlots data (min slotCount 36) pos
  let (offhand, pos) :=
    if v2 ∧ 37 ≤ slotCount ∧ pos < data.length then readSlot data pos else (none, pos)
  let armor := if v2 ∧ 41 ≤ slotCount then (readSlots data 4 pos).1 else []
  { Inventory.new with
    items := fromRead 36 items, offhand := offhand, armor := fromRead 4 armor }

def deserialize (data : List Byte) : Option Inventory :=
  match data with
  | [] => none
  | version :: rest =>
      if version = 2 then rest.head?.map fun count => readBody data true count.toNat 2
      -- v1: first byte is the count
      else some (readBody data false version.toNat 1)

/-! ## What comes back -/

/-- The inventories hold the same slots. -/
structure SameSlots (inv inv' : Inventory) : Prop where
  items : inv'.items = inv.items
  offhand : inv'.offhand = inv.offhand
  armor : inv'.armor = inv.armor

/-- **The saved inventory loads slot by slot as it was.** -/
def Survives (inv : Inventory) : Prop :=
  ∃ inv', deserialize inv.serialize = some inv' ∧ SameSlots inv inv'

/-- **Every record says all there is to say, and the last one, which nothing follows, has NBT.** -/
structure Kept (inv : Inventory) : Prop where
  all : ∀ s, some s ∈ inv.slots → s.Kept
  last : ∀ s, inv.armor[3] = some s → s.nbt.isSome

/-- What is read of the last slot. -/
def lastReloaded (slot : Option ItemStack) : Option ItemStack :=
  (slot.filter fun s => s.nbtBytes ≠ []).map ItemStack.reloaded

variable {data rest : List Byte} {pos : Nat}

theorem readSlot_none (h : At data pos (writeSlot none ++ rest)) :
    readSlot data pos = (none, pos + 1) := by
  unfold readSlot
  rw [h.getElem?]
  rfl

theorem readSlot_some {s : ItemStack} (hf : s.Fits) (h : At data pos (writeSlot (some s) ++ rest))
    (hlen : rest ≠ [] ∨ s.nbtBytes ≠ []) :
    readSlot data pos = (some s.reloaded, pos + (writeSlot (some s)).length) := by
  obtain ⟨hpresent, hid, hcount⟩ := record_at h
  have hnbtLen := hcount.skip (length_toLe ..)
  have hnbt := hnbtLen.skip (length_toLe ..)
  have hdur := hnbt.skip rfl
  have hroom : pos + 1 + 10 ≤ data.length := by
    have := h.length_eq
    rw [List.length_append, length_writeSlot] at this
    rcases hlen with hne | hne
    · have := List.length_pos_of_ne_nil hne
      omega
    · have := List.length_pos_of_ne_nil hne
      omega
  have hend : pos + 5 + 1 + 2 + s.nbtBytes.length + 2 ≤ data.length := (hdur.skip (length_toLe ..)).le
  unfold readSlot
  rw [hpresent]
  dsimp only
  rw [if_pos ⟨by decide, hroom⟩, hid, hcount.readLe hf.count, hnbtLen.readLe hf.nbt,
    readNbt_at hnbt]
  dsimp only
  rw [if_pos hend, hdur.readLe hf.stored_lt, length_writeSlot]
  refine Prod.ext rfl ?_
  dsimp only
  omega

/-- The last record of the data, of nine bytes, is not read. -/
theorem readSlot_last {s : ItemStack} (h : At data pos (writeSlot (some s)))
    (hnil : s.nbtBytes = []) : readSlot data pos = (none, pos + 1) := by
  have h' : At data pos (writeSlot (some s) ++ []) := by rwa [List.append_nil]
  have hlen := h'.length_eq
  rw [List.append_nil, length_writeSlot, hnil, List.length_nil] at hlen
  unfold readSlot
  rw [(record_at h').1]
  exact if_neg fun hroom => by omega

/-- A slot that is not the last. -/
theorem readSlot_at {slot : Option ItemStack} (hf : ∀ s, slot = some s → s.Fits)
    (h : At data pos (writeSlot slot ++ rest)) (hne : rest ≠ []) :
    readSlot data pos = (slot.map ItemStack.reloaded, pos + (writeSlot slot).length) := by
  cases slot with
  | none => exact readSlot_none h
  | some s => exact readSlot_some (hf s rfl) h (.inl hne)

theorem readSlot_lastReloaded {slot : Option ItemStack} (hf : ∀ s, slot = some s → s.Fits)
    (h : At data pos (writeSlot slot)) : (readSlot data pos).1 = lastReloaded slot := by
  have h' : At data pos (writeSlot slot ++ []) := by rwa [List.append_nil]
  cases slot with
  | none => rw [readSlot_none h']; rfl
  | some s =>
      by_cases hnil : s.nbtBytes = []
      · rw [readSlot_last h hnil]
        simp [lastReloaded, Option.filter, hnil]
      · rw [readSlot_some (hf s rfl) h' (.inr hnil)]
        simp [lastReloaded, Option.filter, hnil]

/-- Slots that something follows. -/
theorem readSlots_at {slots : List (Option ItemStack)} (hf : ∀ s, some s ∈ slots → s.Fits)
    (h : At data pos (slots.flatMap writeSlot ++ rest)) (hne : rest ≠ []) :
    readSlots data slots.length pos =
      (slots.map (Option.map ItemStack.reloaded), pos + (slots.flatMap writeSlot).length) := by
  induction slots generalizing pos with
  | nil => rfl
  | cons slot slots ih =>
      rw [List.flatMap_cons, List.append_assoc] at h
      have hlt : ¬ data.length ≤ pos := by
        have := h.length_eq
        rw [List.length_append] at this
        have := List.length_pos_of_ne_nil (writeSlot_ne_nil slot)
        omega
      have hslot := readSlot_at (fun s hs => hf s (hs ▸ List.mem_cons_self)) h
        (List.append_ne_nil_of_right_ne_nil _ hne)
      have hslots := ih (fun s hs => hf s (List.mem_cons_of_mem _ hs)) (h.skip rfl)
      rw [List.length_cons, readSlots, if_neg hlt, hslot]
      dsimp only
      rw [hslots, List.flatMap_cons, List.length_append, Nat.add_assoc]
      rfl

theorem readSlots_add (m n pos : Nat) :
    readSlots data (m + n) pos =
      ((readSlots data m pos).1 ++ (readSlots data n (readSlots data m pos).2).1,
        (readSlots data n (readSlots data m pos).2).2) := by
  induction m generalizing pos with
  | zero => simp [readSlots]
  | succ m ih =>
      rw [show m + 1 + n = m + n + 1 by omega, readSlots, readSlots]
      split
      · rename_i hle
        cases n with
        | zero => rfl
        | succ n => simp [readSlots, hle]
      · dsimp only
        rw [ih]
        rfl

/-! ## What is read fits -/

theorem durability_lt (pos : Nat) :
    (if pos + 2 ≤ data.length then (readLe data pos 2, pos + 2) else (0, pos)).1 < 2 ^ 16 := by
  split
  · exact readLe_lt data pos 2
  · exact Nat.two_pow_pos 16

theorem readSlot_fits {s : ItemStack} (h : (readSlot data pos).1 = some s) : s.Fits := by
  unfold readSlot at h
  split at h
  · cases h
  · split at h
    · obtain rfl := Option.some.inj h
      exact fits_loadedStack (readLe_lt ..) (fun n hn => size_readNbt_lt (readLe_lt ..) hn)
        (storedDurability_lt (durability_lt _))
    · cases h

theorem readSlots_fits {n : Nat} {s : ItemStack} (h : some s ∈ (readSlots data n pos).1) :
    s.Fits := by
  induction n generalizing pos with
  | zero => cases h
  | succ n ih =>
      unfold readSlots at h
      split at h
      · cases h
      · rcases List.mem_cons.1 h with hs | hs
        · exact readSlot_fits hs.symm
        · exact ih hs

theorem mem_fromRead {n : Nat} {slots : List (Option ItemStack)} {s : ItemStack}
    (h : some s ∈ (fromRead n slots).toList) : some s ∈ slots := by
  unfold fromRead at h
  rw [Vector.mem_toList_iff, Vector.mem_ofFn] at h
  obtain ⟨i, hi⟩ := h
  exact List.mem_of_getElem? (Option.join_eq_some_iff.1 hi)

theorem readBody_fits {v2 : Bool} {slotCount : Nat} {s : ItemStack}
    (h : some s ∈ (readBody data v2 slotCount pos).slots) : s.Fits := by
  unfold slots readBody at h
  dsimp only at h
  rcases List.mem_append.1 h with hitems | hrest
  · exact readSlots_fits (mem_fromRead hitems)
  · rcases List.mem_cons.1 hrest with hoff | harmor
    · split at hoff
      · exact readSlot_fits hoff.symm
      · cases hoff
    · have hmem := mem_fromRead harmor
      split at hmem
      · exact readSlots_fits hmem
      · cases hmem

theorem deserialize_fits {inv : Inventory} (h : deserialize data = some inv) {s : ItemStack}
    (hs : some s ∈ inv.slots) : s.Fits := by
  cases data with
  | nil => cases h
  | cons version rest =>
      unfold deserialize at h
      dsimp only at h
      split at h
      · obtain ⟨count, -, hbody⟩ := Option.map_eq_some_iff.1 h
        rw [← hbody] at hs
        exact readBody_fits hs
      · rw [← Option.some.inj h] at hs
        exact readBody_fits hs

/-! ## What comes back -/

theorem fromRead_map {n : Nat} (v : Vector (Option ItemStack) n) (f : ItemStack → ItemStack) :
    fromRead n (v.toList.map (Option.map f)) = v.map (Option.map f) := by
  ext i hi
  simp [fromRead]

theorem toList_armor (armor : Vector (Option ItemStack) 4) :
    armor.toList = armor.toList.take 3 ++ [armor[3]] := by
  have hlen : 3 < armor.toList.length := by simp
  rw [← Vector.getElem_toList (h := hlen), List.take_concat_get']
  simp

/-- The last of the slots that are read. -/
theorem readSlots_one {slot : Option ItemStack} (h : At data pos (writeSlot slot)) :
    (readSlots data 1 pos).1 = [(readSlot data pos).1] := by
  have hlt : ¬ data.length ≤ pos := by
    have := h.length_eq
    have := List.length_pos_of_ne_nil (writeSlot_ne_nil slot)
    omega
  rw [readSlots, if_neg hlt]
  rfl

/-- What is read of the armor, which ends the data. -/
theorem readArmor_at {armor : Vector (Option ItemStack) 4}
    (hf : ∀ s, some s ∈ armor.toList → s.Fits) (h : At data pos (armor.toList.flatMap writeSlot)) :
    fromRead 4 (readSlots data 4 pos).1 =
      (armor.map (Option.map ItemStack.reloaded)).set 3 (lastReloaded armor[3]) := by
  have hsplit := toList_armor armor
  have hlen : (armor.toList.take 3).length = 3 := by simp
  rw [hsplit, List.flatMap_append, List.flatMap_singleton] at h
  have hfirst := readSlots_at (fun s hs => hf s (List.mem_of_mem_take hs)) h (writeSlot_ne_nil _)
  rw [hlen] at hfirst
  have hread : (readSlots data 4 pos).1 =
      (armor.toList.take 3).map (Option.map ItemStack.reloaded) ++ [lastReloaded armor[3]] := by
    have hadd : readSlots data 4 pos = _ := readSlots_add 3 1 pos
    rw [hadd, hfirst]
    dsimp only
    rw [readSlots_one (h.skip rfl), readSlot_lastReloaded _ (h.skip rfl)]
    intro s hs
    refine hf s ?_
    rw [hsplit, hs]
    exact List.mem_append_right _ List.mem_cons_self
  rw [hread]
  ext1 i hi
  by_cases h3 : i = 3
  · subst h3
    simp [fromRead]
  · simp [fromRead, Ne.symm h3, show i < 3 by omega]

/-- The inventory that the bytes of `inv` load as. -/
def reloaded (inv : Inventory) : Inventory where
  items := inv.items.map (Option.map ItemStack.reloaded)
  offhand := inv.offhand.map ItemStack.reloaded
  armor := (inv.armor.map (Option.map ItemStack.reloaded)).set 3 (lastReloaded inv.armor[3])
  selectedSlot := 0

theorem deserialize_serialize {inv : Inventory} (hf : ∀ s, some s ∈ inv.slots → s.Fits) :
    deserialize inv.serialize = some inv.reloaded := by
  have harmor : inv.armor.toList.flatMap writeSlot ≠ [] := by
    intro hnil
    have hlast : inv.armor[3] ∈ inv.armor.toList := by simp
    exact writeSlot_ne_nil _ (List.flatMap_eq_nil_iff.1 hnil _ hlast)
  have hat : At inv.serialize 2 (inv.items.toList.flatMap writeSlot ++
      (writeSlot inv.offhand ++ inv.armor.toList.flatMap writeSlot)) :=
    (At.start inv.serialize).tail.tail
  have hitems := readSlots_at (fun s hs => hf s (List.mem_append_left _ hs)) hat
    (List.append_ne_nil_of_right_ne_nil _ harmor)
  rw [Vector.length_toList] at hitems
  have hoff := readSlot_at (fun s hs => hf s (List.mem_append_right _ (hs ▸ List.mem_cons_self)))
    (hat.skip rfl) harmor
  have hlast := readArmor_at
    (fun s hs => hf s (List.mem_append_right _ (List.mem_cons_of_mem _ hs)))
    ((hat.skip rfl).skip rfl)
  have hroom : 2 + (inv.items.toList.flatMap writeSlot).length < inv.serialize.length := by
    have hlen := (hat.skip rfl).length_eq
    have := List.length_pos_of_ne_nil (writeSlot_ne_nil inv.offhand)
    rw [List.length_append] at hlen
    omega
  change some (readBody inv.serialize true 41 2) = some inv.reloaded
  unfold readBody
  rw [show min 41 36 = 36 from rfl, hitems]
  dsimp only
  rw [if_pos ⟨rfl, by decide, hroom⟩, hoff]
  dsimp only
  rw [if_pos ⟨rfl, by decide⟩, hlast, fromRead_map]
  rfl

/-! ## Which inventories survive -/

/-- The slots of an array that come back. -/
theorem vector_map_eq_self_iff {n : Nat} {v : Vector (Option ItemStack) n}
    (hf : ∀ s, some s ∈ v.toList → s.Fits) :
    v.map (Option.map ItemStack.reloaded) = v ↔ ∀ s, some s ∈ v.toList → s.Kept := by
  rw [← Vector.toList_inj, Vector.toList_map]
  exact list_map_reloaded_eq_self_iff hf

theorem lastReloaded_some (s : ItemStack) :
    lastReloaded (some s) = if s.nbtBytes = [] then none else some s.reloaded := by
  unfold lastReloaded Option.filter
  by_cases hnil : s.nbtBytes = []
  · simp [hnil]
  · simp [hnil]

theorem lastReloaded_eq_self_iff {slot : Option ItemStack} (hf : ∀ s, slot = some s → s.Fits) :
    lastReloaded slot = slot ↔ ∀ s, slot = some s → s.Kept ∧ s.nbt.isSome := by
  cases slot with
  | none => exact ⟨fun _ => nofun, fun _ => rfl⟩
  | some s =>
      rw [lastReloaded_some]
      constructor
      · intro h s' hs'
        cases hs'
        split at h
        · cases h
        · rename_i hnil
          refine ⟨(reloaded_eq_self_iff (hf s rfl)).1 (Option.some.inj h), ?_⟩
          by_contra hnone
          exact hnil (nbtBytes_of_none (Option.not_isSome_iff_eq_none.1 hnone))
      · intro h
        obtain ⟨hk, hsome⟩ := h s rfl
        rw [if_neg (hk.nbt_ne hsome), (reloaded_eq_self_iff (hf s rfl)).2 hk]

theorem armor_eq_self_iff {armor : Vector (Option ItemStack) 4}
    (hf : ∀ s, some s ∈ armor.toList → s.Fits) :
    (armor.map (Option.map ItemStack.reloaded)).set 3 (lastReloaded armor[3]) = armor ↔
      (∀ s, some s ∈ armor.toList → s.Kept) ∧ ∀ s, armor[3] = some s → s.nbt.isSome := by
  have hf3 : ∀ s, armor[3] = some s → s.Fits := by
    intro s hs
    exact hf s (Vector.mem_toList_iff.2 (hs ▸ Vector.getElem_mem (by decide)))
  constructor
  · intro h
    have hlast : lastReloaded armor[3] = armor[3] :=
      (Vector.getElem_set_self (by decide)).symm.trans (congrArg (fun v => v[3]) h)
    rw [lastReloaded_eq_self_iff hf3] at hlast
    refine ⟨(vector_map_eq_self_iff hf).1 ?_, fun s hs => (hlast s hs).2⟩
    ext1 i hi
    by_cases h3 : i = 3
    · subst h3
      rw [Vector.getElem_map]
      exact (map_reloaded_eq_self_iff hf3).2 fun s hs => (hlast s hs).1
    · exact (Vector.getElem_set_ne (by decide) hi (Ne.symm h3)).symm.trans
        (congrArg (fun v => v[i]) h)
  · rintro ⟨hk, hsome⟩
    have hlast : lastReloaded armor[3] = armor[3] := by
      refine (lastReloaded_eq_self_iff hf3).2 fun s hs => ⟨hk s ?_, hsome s hs⟩
      exact Vector.mem_toList_iff.2 (hs ▸ Vector.getElem_mem (by decide))
    rw [(vector_map_eq_self_iff hf).2 hk, hlast, Vector.set_getElem_self]

theorem mem_slots {inv : Inventory} {s : ItemStack} :
    some s ∈ inv.slots ↔
      some s ∈ inv.items.toList ∨ inv.offhand = some s ∨ some s ∈ inv.armor.toList := by
  unfold slots
  rw [List.mem_append, List.mem_cons, eq_comm (a := some s)]

theorem Survives.kept {inv : Inventory} : inv.Survives → inv.Kept := by
  rintro ⟨inv', hload, hsame⟩
  have hslots : inv'.slots = inv.slots := by
    unfold slots
    rw [hsame.items, hsame.offhand, hsame.armor]
  have hf : ∀ s, some s ∈ inv.slots → s.Fits :=
    fun s hs => deserialize_fits hload (hslots ▸ hs)
  obtain rfl := Option.some.inj ((deserialize_serialize hf).symm.trans hload)
  have hitems := (vector_map_eq_self_iff fun s hs => hf s (mem_slots.2 (.inl hs))).1 hsame.items
  have hoff := (map_reloaded_eq_self_iff fun s hs => hf s (mem_slots.2 (.inr (.inl hs)))).1
    hsame.offhand
  have harmor := (armor_eq_self_iff fun s hs => hf s (mem_slots.2 (.inr (.inr hs)))).1 hsame.armor
  refine ⟨fun s hs => ?_, harmor.2⟩
  rcases mem_slots.1 hs with h | h | h
  · exact hitems s h
  · exact hoff s h
  · exact harmor.1 s h

theorem Kept.survives {inv : Inventory} (hk : inv.Kept) : inv.Survives := by
  have hf : ∀ s, some s ∈ inv.slots → s.Fits := fun s hs => (hk.all s hs).toFits
  refine ⟨_, deserialize_serialize hf, ?_, ?_, ?_⟩
  · exact (vector_map_eq_self_iff fun s hs => hf s (mem_slots.2 (.inl hs))).2
      fun s hs => hk.all s (mem_slots.2 (.inl hs))
  · exact (map_reloaded_eq_self_iff fun s hs => hf s (mem_slots.2 (.inr (.inl hs)))).2
      fun s hs => hk.all s (mem_slots.2 (.inr (.inl hs)))
  · exact (armor_eq_self_iff fun s hs => hf s (mem_slots.2 (.inr (.inr hs)))).2
      ⟨fun s hs => hk.all s (mem_slots.2 (.inr (.inr hs))), hk.last⟩

/-- **The saved inventory loads as it was exactly when every record says all there is to say and the
    stack in the last armor slot has NBT.** -/
theorem survives_iff (inv : Inventory) : inv.Survives ↔ inv.Kept := ⟨Survives.kept, Kept.survives⟩

/-- A pair of iron boots in the last armor slot. -/
def booted : Inventory :=
  { Inventory.new with
    armor := Inventory.new.armor.set 3 (some (ItemStack.new (BlockState.new 822) 1)) }

/-- **The iron boots are gone after loading.** -/
theorem not_forall_survives : ¬ ∀ inv : Inventory, (∀ s, some s ∈ inv.slots → s.Fits) →
    inv.Survives := by
  intro h
  have hf : ∀ s, some s ∈ booted.slots → s.Fits := by
    intro s hs
    have hslots : booted.slots =
        List.replicate 40 none ++ [some (ItemStack.new (BlockState.new 822) 1)] := rfl
    rw [hslots, List.mem_append, List.mem_replicate, List.mem_singleton] at hs
    rcases hs with ⟨-, h⟩ | h
    · cases h
    · obtain rfl := Option.some.inj h
      refine ⟨by decide, by decide, ?_⟩
      intro d (hd : maxDurability 822 = some d)
      exact (maxDurability_bounds d hd).2
  exact absurd ((h booted hf).kept.last _ rfl) (by decide)

end Inventory

end Apoptotic.Commands
