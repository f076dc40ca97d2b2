import Apoptotic.Command.Server

/-!
# Counting items

Two items are interchangeable when they have the same id and properties, durability and NBT: their
`Kind`.  Containers, inventories and the rest are compared by how many items of each kind they hold.

Principal results: `countOf_set` — one slot changes; `addItem_iff` — `Inventory::add_item` takes in
a whole stack as it is exactly when the stack `Fits`.
-/

namespace Apoptotic.Commands

/-- What an item is, apart from the stack it lies in. -/
structure Kind where
  item : BlockState
  durability : Option Nat
  nbt : Option ByteArray

instance : DecidableEq Kind
  | ⟨item, durability, nbt⟩, ⟨item', durability', nbt'⟩ =>
      letI : DecidableEq ByteArray := ByteArray.instDecidableEq
      decidable_of_iff (item = item' ∧ durability = durability' ∧ nbt = nbt')
        (by rw [Kind.mk.injEq])

def ItemStack.kind (s : ItemStack) : Kind := ⟨s.item, s.durability, s.nbt⟩

/-- How many items of a kind a stack holds. -/
def ItemStack.units (k : Kind) (s : ItemStack) : Nat := if s.kind = k then s.count else 0

/-- How many items of a kind a slot holds. -/
def slotUnits (k : Kind) : Option ItemStack → Nat
  | some s => s.units k
  | none => 0

/-- How many items of a kind some slots hold. -/
def countOf (k : Kind) (slots : List (Option ItemStack)) : Nat := (slots.map (slotUnits k)).sum

def Inventory.units (k : Kind) (inv : Inventory) : Nat :=
  countOf k inv.items.toList + slotUnits k inv.offhand + countOf k inv.armor.toList

@[simp] theorem slotUnits_none (k : Kind) : slotUnits k none = 0 := rfl

@[simp] theorem slotUnits_some (k : Kind) (s : ItemStack) : slotUnits k (some s) = s.units k := rfl

@[simp] theorem countOf_nil (k : Kind) : countOf k [] = 0 := rfl

@[simp] theorem countOf_cons (k : Kind) (o : Option ItemStack) (slots : List (Option ItemStack)) :
    countOf k (o :: slots) = slotUnits k o + countOf k slots := rfl

/-- The same stack with another count. -/
@[simp] theorem units_withCount (k : Kind) (s : ItemStack) (n : Nat) :
    ItemStack.units k { s with count := n } = if s.kind = k then n else 0 := rfl

theorem units_self (s : ItemStack) : s.units s.kind = s.count := if_pos rfl

/-- Writing one slot. -/
theorem countOf_set (k : Kind) {slots : List (Option ItemStack)} {i : Nat} (hi : i < slots.length)
    (o : Option ItemStack) :
    countOf k (slots.set i o) + slotUnits k (slots[i]?).join = countOf k slots + slotUnits k o := by
  induction slots generalizing i with
  | nil => exact absurd hi (Nat.not_lt_zero i)
  | cons x xs ih =>
      cases i with
      | zero =>
          simp only [List.set_cons_zero, countOf_cons, List.getElem?_cons_zero, Option.join_some]
          omega
      | succ i =>
          have hrest := ih (Nat.lt_of_succ_lt_succ hi)
          simp only [List.set_cons_succ, countOf_cons, List.getElem?_cons_succ]
          omega

/-! ## `add_item` -/

namespace Inventory

/-- The room on a stack for more of `item`. -/
def roomOn (item : BlockState) (s : ItemStack) : Nat := if s.item = item then 64 - s.count else 0

/-- The room on the stacks of `item`. -/
def room (item : BlockState) : List (Option ItemStack) → Nat
  | [] => 0
  | none :: slots => room item slots
  | some s :: slots => roomOn item s + room item slots

def empties (slots : List (Option ItemStack)) : Nat := slots.countP Option.isNone

/-- As long as there are items left to place, every stack of the item that has room is of the same
    kind. -/
def Alike (k : Kind) : Nat → List (Option ItemStack) → Prop
  | _, [] => True
  | n, none :: slots => Alike k n slots
  | n, some s :: slots =>
      (0 < n → s.item = k.item → s.count < 64 → s.kind = k) ∧ Alike k (n - roomOn k.item s) slots

/-- The kind of the stacks that `add_item` makes. -/
def freshKind (item : BlockState) : Kind := (ItemStack.new item 0).kind

variable {item : BlockState} {k k' : Kind} {n : Nat} {slots : List (Option ItemStack)}

theorem snd_stackOnto : (stackOnto item n slots).2 = n - room item slots := by
  induction slots generalizing n with
  | nil => simp [stackOnto, room]
  | cons o slots ih =>
      cases o with
      | none => exact ih
      | some s =>
          unfold stackOnto room roomOn
          by_cases hs : s.item = item
          · by_cases hc : s.count < 64
            · simp only [hs, hc, and_self, if_true, ih]
              omega
            · simp only [hc, and_false, if_false, hs, if_true, ih]
              omega
          · simp only [hs, false_and, if_false, ih]
            omega

theorem empties_stackOnto : empties (stackOnto item n slots).1 = empties slots := by
  induction slots generalizing n with
  | nil => rfl
  | cons o slots ih =>
      unfold empties at ih ⊢
      cases o with
      | none => simp [stackOnto, ih]
      | some s =>
          unfold stackOnto
          split <;> simp [ih]

/-- What is put onto a stack counts for the kind of the stack. -/
theorem countOf_stackOnto_cons (s : ItemStack) :
    countOf k' (stackOnto item n (some s :: slots)).1 =
      s.units k' + (if s.kind = k' then min n (roomOn item s) else 0) +
        countOf k' (stackOnto item (n - roomOn item s) slots).1 := by
  rw [stackOnto]
  unfold roomOn
  by_cases hs : s.item = item
  · by_cases hc : s.count < 64
    · have hleft : n - min n (64 - s.count) = n - (64 - s.count) := by omega
      simp only [hs, hc, and_self, if_true, hleft, countOf_cons, slotUnits_some]
      rw [show ItemStack.units k' ⟨item, _, _, _, _⟩ = if s.kind = k' then
        s.count + min n (64 - s.count) else 0 by subst hs; rfl, ItemStack.units]
      split <;> omega
    · have hroom : 64 - s.count = 0 := by omega
      simp only [hc, and_false, if_false, hs, hroom, Nat.sub_zero, Nat.min_zero,
        countOf_cons, slotUnits_some, ite_self, Nat.add_zero]
  · simp only [hs, false_and, if_false, Nat.sub_zero, Nat.min_zero, countOf_cons, slotUnits_some,
      ite_self, Nat.add_zero]

theorem stackOnto_none :
    (stackOnto item n (none :: slots)).1 = none :: (stackOnto item n slots).1 := rfl

theorem countOf_le_stackOnto : countOf k' slots ≤ countOf k' (stackOnto item n slots).1 := by
  induction slots generalizing n with
  | nil => exact Nat.le_refl _
  | cons o slots ih =>
      cases o with
      | none =>
          rw [stackOnto_none, countOf_cons, countOf_cons]
          exact Nat.add_le_add_left ih _
      | some s =>
          have hrest : countOf k' slots ≤
              countOf k' (stackOnto item (n - roomOn item s) slots).1 := ih
          rw [countOf_stackOnto_cons, countOf_cons, slotUnits_some]
          omega

theorem countOf_stackOnto_le :
    countOf k' (stackOnto item n slots).1 ≤ countOf k' slots + min n (room item slots) := by
  induction slots generalizing n with
  | nil => exact Nat.le_add_right _ _
  | cons o slots ih =>
      cases o with
      | none =>
          have hrest : countOf k' (stackOnto item n slots).1 ≤
              countOf k' slots + min n (room item slots) := ih
          rw [stackOnto_none, countOf_cons, countOf_cons, room]
          omega
      | some s =>
          have hrest : countOf k' (stackOnto item (n - roomOn item s) slots).1 ≤
              countOf k' slots + min (n - roomOn item s) (room item slots) := ih
          rw [countOf_stackOnto_cons, countOf_cons, slotUnits_some, room]
          split <;> omega

/-- Everything put onto stacks is of kind `k` exactly when the stacks that receive are. -/
theorem countOf_stackOnto_iff :
    (∀ k', countOf k' (stackOnto k.item n slots).1 =
        countOf k' slots + if k = k' then min n (room k.item slots) else 0) ↔ Alike k n slots := by
  induction slots generalizing n with
  | nil => simp [stackOnto, room, Alike]
  | cons o slots ih =>
      cases o with
      | none =>
          simp only [stackOnto_none, countOf_cons, slotUnits_none, Nat.zero_add, room, Alike]
          exact ih
      | some s =>
          have hmin : min n (room k.item (some s :: slots)) =
              min n (roomOn k.item s) + min (n - roomOn k.item s) (room k.item slots) := by
            simp only [room]
            omega
          unfold Alike
          rw [← ih, hmin]
          simp only [countOf_stackOnto_cons, countOf_cons, slotUnits_some]
          by_cases hrecv : min n (roomOn k.item s) = 0
          · -- the stack receives nothing
            have hhead : 0 < n → s.item = k.item → s.count < 64 → s.kind = k := by
              intro hn hitem hc
              unfold roomOn at hrecv
              rw [if_pos hitem] at hrecv
              omega
            rw [and_iff_right hhead, hrecv]
            refine forall_congr' fun k' => ?_
            split <;> split <;> omega
          · have hroom : s.item = k.item ∧ s.count < 64 := by
              unfold roomOn at hrecv
              by_cases hitem : s.item = k.item
              · rw [if_pos hitem] at hrecv
                exact ⟨hitem, by omega⟩
              · rw [if_neg hitem] at hrecv
                omega
            have hn : 0 < n := by omega
            by_cases hkind : s.kind = k
            · rw [hkind, and_iff_right fun _ _ _ => rfl]
              refine forall_congr' fun k' => ?_
              split <;> omega
            · refine iff_of_false (fun h => ?_) fun h => hkind (h.1 hn hroom.1 hroom.2)
              have hs := h s.kind
              have hle : countOf s.kind slots ≤
                  countOf s.kind (stackOnto k.item (n - roomOn k.item s) slots).1 :=
                countOf_le_stackOnto
              rw [if_pos rfl, if_neg (Ne.symm hkind)] at hs
              omega

theorem countOf_fillEmpty : countOf k' (fillEmpty item n slots).1 =
    countOf k' slots + if freshKind item = k' then n - (n - 64 * empties slots) else 0 := by
  have hnew : ∀ c, (ItemStack.new item c).units k' = if freshKind item = k' then c else 0 :=
    fun _ => rfl
  unfold empties
  induction slots generalizing n with
  | nil => simp [fillEmpty]
  | cons o slots ih =>
      cases o with
      | some s =>
          simp only [fillEmpty, countOf_cons, ih, List.countP_cons, Option.isNone_some,
            Bool.false_eq_true, if_false, Nat.add_zero]
          omega
      | none =>
          unfold fillEmpty
          by_cases hn : n = 0
          · simp [hn]
          · simp only [hn, if_false, countOf_cons, slotUnits_some, slotUnits_none, hnew, ih,
              List.countP_cons, Option.isNone_none, if_true]
            split <;> omega

theorem fillEmpty_zero : fillEmpty item 0 slots = (slots, 0) := by
  induction slots with
  | nil => rfl
  | cons o slots ih =>
      cases o with
      | none => rw [fillEmpty, if_pos rfl]
      | some s => rw [fillEmpty, ih]

theorem fillEmpty_none (hn : n ≠ 0) : fillEmpty item n (none :: slots) =
    (some (ItemStack.new item (min n 64)) :: (fillEmpty item (n - 64) slots).1,
      (fillEmpty item (n - 64) slots).2) := by
  have hleft : n - min n 64 = n - 64 := by omega
  rw [fillEmpty, if_neg hn]
  dsimp only
  rw [hleft]

theorem snd_fillEmpty : (fillEmpty item n slots).2 = n - 64 * empties slots := by
  unfold empties
  induction slots generalizing n with
  | nil => rfl
  | cons o slots ih =>
      rw [List.countP_cons]
      cases o with
      | some s => exact ih
      | none =>
          by_cases hn : n = 0
          · rw [hn, fillEmpty_zero, Nat.zero_sub]
          · rw [fillEmpty_none hn, ih]
            simp only [Option.isNone_none, if_true]
            omega

/-- How many items are left over. -/
theorem snd_addItem (inv : Inventory) : (inv.addItem item n).2 =
    n - room item inv.items.toList - 64 * empties inv.items.toList := by
  have hfill : (inv.addItem item n).2 = (fillEmpty item (stackOnto item n inv.items.toList).2
      (stackOnto item n inv.items.toList).1).2 := rfl
  rw [hfill, snd_fillEmpty, empties_stackOnto, snd_stackOnto]

/-- A stack of `n` items of kind `k` can be taken in as it is: there is room for all of it, on stacks
    of its kind, or in empty slots where the item comes without NBT and undamaged. -/
def Fits (inv : Inventory) (k : Kind) (n : Nat) : Prop :=
  Alike k n inv.items.toList ∧
  n ≤ room k.item inv.items.toList + 64 * empties inv.items.toList ∧
  (n ≤ room k.item inv.items.toList ∨ freshKind k.item = k)

variable {inv : Inventory}

theorem toList_addItem : (inv.addItem item n).1.items.toList =
    (fillEmpty item (stackOnto item n inv.items.toList).2 (stackOnto item n inv.items.toList).1).1 := by
  simp [addItem, Vector.toList]

theorem units_addItem : (inv.addItem item n).1.units k' =
    countOf k' (stackOnto item n inv.items.toList).1 +
      (if freshKind item = k' then
        let left := n - room item inv.items.toList
        left - (left - 64 * empties inv.items.toList) else 0) +
      slotUnits k' inv.offhand + countOf k' inv.armor.toList := by
  rw [Inventory.units, toList_addItem, countOf_fillEmpty, empties_stackOnto, snd_stackOnto]
  rfl

/-- **`add_item` takes in all items of the stack as what they are exactly when the stack fits.** -/
theorem addItem_iff : (∀ k', (inv.addItem k.item n).1.units k' =
    inv.units k' + if k = k' then n else 0) ↔ inv.Fits k n := by
  unfold Fits
  rw [← countOf_stackOnto_iff]
  simp only [units_addItem]
  simp only [Inventory.units]
  generalize inv.items.toList = slots
  generalize hR : room k.item slots = R
  generalize hE : 64 * empties slots = E
  have hge : ∀ k', countOf k' slots ≤ countOf k' (stackOnto k.item n slots).1 :=
    fun _ => countOf_le_stackOnto
  have hle : ∀ k', countOf k' (stackOnto k.item n slots).1 ≤ countOf k' slots + min n R :=
    fun _ => hR ▸ countOf_stackOnto_le
  constructor
  · intro h
    have hk := h k
    have hgek := hge k
    have hlek := hle k
    rw [if_pos rfl] at hk
    -- no kind but `k` gains anything, so the empty slots only help when they make stacks of `k`
    have hother : ∀ k', k ≠ k' → countOf k' (stackOnto k.item n slots).1 = countOf k' slots := by
      intro k' hne
      have hk' := h k'
      have hgek' := hge k'
      rw [if_neg hne] at hk'
      omega
    have hstack : countOf k (stackOnto k.item n slots).1 = countOf k slots + min n R ∧ n ≤ R + E ∧
        (n ≤ R ∨ freshKind k.item = k) := by
      by_cases hfresh : freshKind k.item = k
      · rw [if_pos hfresh] at hk
        exact ⟨by omega, by omega, .inr hfresh⟩
      · rw [if_neg hfresh] at hk
        exact ⟨by omega, by omega, .inl (by omega)⟩
    refine ⟨fun k' => ?_, hstack.2⟩
    by_cases hne : k = k'
    · subst hne
      rw [if_pos rfl, hstack.1]
    · rw [if_neg hne, hother k' hne, Nat.add_zero]
  · rintro ⟨hstack, hroom, hfresh⟩ k'
    have hk' := hstack k'
    by_cases hk : k = k'
    · subst hk
      rw [if_pos rfl] at hk' ⊢
      by_cases hf : freshKind k.item = k
      · rw [if_pos hf]
        omega
      · rw [if_neg hf]
        have := hfresh.resolve_right hf
        omega
    · rw [if_neg hk] at hk' ⊢
      by_cases hf : freshKind k.item = k'
      · rw [if_pos hf]
        have hne : freshKind k.item ≠ k := fun e => hk (e ▸ hf)
        have := hfresh.resolve_right hne
        omega
      · rw [if_neg hf]
        omega

end Inventory

end Apoptotic.Commands
