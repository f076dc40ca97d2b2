import Apoptotic.Player.Items

/-!
# Adding and removing items

`Inventory::add_item` and `Inventory::remove_item` of `mc-player/src/inventory.rs`, slot by slot.
Both go through the 36 slots with what is left to place or to take; what a slot gets or gives depends
on the slots before it.

Principal result: `addRemove_law` — the totals are exact; the stacks stay within their maximum exactly
when no stack that receives items, and no new one, is filled beyond it.
-/

namespace Apoptotic.Commands.Inventory

def itemUnits (item : BlockState) : Option ItemStack → Nat
  | some s => if s.item = item then s.count else 0
  | none => 0

def countIn (item : BlockState) (slots : List (Option ItemStack)) : Nat :=
  (slots.map (itemUnits item)).sum

/-- `count_item` -/
def countItem (inv : Inventory) (item : BlockState) : Nat := countIn item inv.items.toList

/-- The first loop of `remove_item`: the slots after it and what is left to take. -/
def takeFrom (item : BlockState) : Nat → List (Option ItemStack) → List (Option ItemStack) × Nat
  | remaining, [] => ([], remaining)
  | remaining, none :: slots =>
      let (slots, left) := takeFrom item remaining slots
      (none :: slots, left)
  | remaining, some slot :: slots =>
      if slot.item = item then
        let take := min remaining slot.count
        let slot := { slot with count := slot.count - take }
        if remaining - take = 0 then (some slot :: slots, 0)
        else
          let (slots, left) := takeFrom item (remaining - take) slots
          (some slot :: slots, left)
      else
        let (slots, left) := takeFrom item remaining slots
        (some slot :: slots, left)

/-- An empty stack is cleared. -/
def cleared : Option ItemStack → Option ItemStack
  | some slot => if slot.count = 0 then none else some slot
  | none => none

theorem length_takeFrom (item : BlockState) (n : Nat) (slots : List (Option ItemStack)) :
    (takeFrom item n slots).1.length = slots.length := by
  fun_induction takeFrom item n slots <;> simp_all

/-- `remove_item`: the inventory after it and how many items were removed. -/
def removeItem (inv : Inventory) (item : BlockState) (count : Nat) : Inventory × Nat :=
  let taken := takeFrom item count inv.items.toList
  have hlen : (taken.1.map cleared).toArray.size = 36 := by simp [taken, length_takeFrom]
  ({ inv with items := ⟨(taken.1.map cleared).toArray, hlen⟩ }, count - taken.2)

/-! ## The law -/

/-- Every stack is within its maximum. -/
def WithinMax (slots : List (Option ItemStack)) : Prop := ∀ s, some s ∈ slots → s.count ≤ s.maxCount

/-- The stacks are within their maximum, and what does not stack is not merged. -/
structure StacksRight (before after : List (Option ItemStack)) : Prop where
  within : WithinMax after
  unmerged : ∀ (i : Nat) s, before[i]? = some (some s) → s.maxCount ≤ 1 → 0 < s.count →
    after[i]? = some (some s)

/-- The stacks stay what they are; those of the item may grow. -/
def KeepsStacks (item : BlockState) (before after : List (Option ItemStack)) : Prop :=
  ∀ (i : Nat) s, before[i]? = some (some s) →
    ∃ count, s.count ≤ count ∧ (s.item ≠ item → count = s.count) ∧
      after[i]? = some (some { s with count := count })

/-- No slot can take more of the item. -/
def Full (item : BlockState) (slots : List (Option ItemStack)) : Prop :=
  ∀ o ∈ slots, ∃ s, o = some s ∧ (s.item = item → s.maxCount ≤ s.count)

/-- No stack is filled beyond its maximum: none is above it before, none receives too much, and no
new one gets too much. -/
structure FillsRight (inv : Inventory) (item : BlockState) (n : Nat) : Prop where
  before : WithinMax inv.items.toList
  received : ∀ (i : Nat) s, inv.items.toList[i]? = some (some s) → s.item = item →
    s.count + min (n - room item (inv.items.toList.take i)) (64 - s.count) ≤ s.maxCount
  added : none ∈ inv.items.toList →
    min (n - room item inv.items.toList) 64 ≤ (ItemStack.new item 0).maxCount

/-- There is room for everything, or no stack of the item may grow beyond 64. -/
def FullAt64 (inv : Inventory) (item : BlockState) (n : Nat) : Prop :=
  n ≤ room item inv.items.toList + 64 * empties inv.items.toList ∨
    ∀ s, some s ∈ inv.items.toList → s.item = item → s.maxCount ≤ max s.count 64

/-- The stacks of other items are as they were. -/
def KeepsOthers (item : BlockState) (before after : List (Option ItemStack)) : Prop :=
  ∀ (i : Nat) s, before[i]? = some (some s) → s.item ≠ item → after[i]? = some (some s)

/-- A stack of the item stays what it is, with fewer items, or is gone. -/
def Lessens (item : BlockState) (before after : List (Option ItemStack)) : Prop :=
  ∀ (i : Nat) s, before[i]? = some (some s) → s.item = item →
    after[i]? = some none ∨ ∃ count ≤ s.count, after[i]? = some (some { s with count := count })

/-! ## What one slot gets or gives -/

/-- The stack with what `add_item` puts onto it, when `left` items are left. -/
def receive (item : BlockState) (left : Nat) (s : ItemStack) : ItemStack :=
  if s.item = item then { s with count := s.count + min left (64 - s.count) } else s

/-- What `add_item` puts into an empty slot. -/
def fresh (item : BlockState) (left : Nat) : Option ItemStack :=
  if left = 0 then none else some (ItemStack.new item (min left 64))

/-- The stack without what `remove_item` takes, when `left` items are left. -/
def give (item : BlockState) (left : Nat) (s : ItemStack) : ItemStack :=
  if s.item = item then { s with count := s.count - left } else s

section Slots

variable {item : BlockState} {n : Nat} {slots : List (Option ItemStack)}

theorem room_cons (o : Option ItemStack) :
    room item (o :: slots) = (o.map (roomOn item)).getD 0 + room item slots := by
  cases o with
  | none => rw [room, Option.map_none, Option.getD_none, Nat.zero_add]
  | some s => rfl

theorem countIn_cons (o : Option ItemStack) :
    countIn item (o :: slots) = itemUnits item o + countIn item slots := rfl

theorem empties_cons (o : Option ItemStack) :
    empties (o :: slots) = empties slots + if o.isNone then 1 else 0 := by
  unfold empties
  rw [List.countP_cons]

theorem stackOnto_cons (o : Option ItemStack) :
    (stackOnto item n (o :: slots)).1 =
      o.map (receive item n) :: (stackOnto item (n - (o.map (roomOn item)).getD 0) slots).1 := by
  cases o with
  | none => rfl
  | some s =>
      simp only [stackOnto, Option.map_some, Option.getD_some, receive, roomOn]
      by_cases hs : s.item = item
      · by_cases hc : s.count < 64
        · have hleft : n - min n (64 - s.count) = n - (64 - s.count) := by omega
          rw [if_pos ⟨hs, hc⟩, if_pos hs, if_pos hs, hleft]
        · have hroom : 64 - s.count = 0 := by omega
          rw [if_neg fun h => hc h.2, if_pos hs, if_pos hs, hroom, Nat.min_zero, Nat.add_zero, Nat.sub_zero]
      · rw [if_neg fun h => hs h.1, if_neg hs, if_neg hs, Nat.sub_zero]

/-- What the first loop of `add_item` leaves in each slot. -/
theorem getElem?_stackOnto (i : Nat) :
    (stackOnto item n slots).1[i]? =
      slots[i]?.map (Option.map (receive item (n - room item (slots.take i)))) := by
  induction slots generalizing n i with
  | nil => rfl
  | cons o slots ih =>
      rw [stackOnto_cons]
      cases i with
      | zero => rfl
      | succ i =>
          rw [List.getElem?_cons_succ, List.getElem?_cons_succ, ih, List.take_succ_cons, room_cons,
            Nat.sub_sub]

theorem fillEmpty_cons (o : Option ItemStack) :
    (fillEmpty item n (o :: slots)).1 =
      o.or (fresh item n) :: (fillEmpty item (n - 64 * if o.isNone then 1 else 0) slots).1 := by
  cases o with
  | some s => rfl
  | none =>
      unfold fresh
      by_cases hn : n = 0
      · rw [hn, Nat.zero_sub, fillEmpty_zero, fillEmpty_zero]
        rfl
      · rw [fillEmpty_none hn, if_neg hn]
        rfl

/-- What the second loop of `add_item` leaves in each slot. -/
theorem getElem?_fillEmpty (i : Nat) :
    (fillEmpty item n slots).1[i]? =
      slots[i]?.map fun o => o.or (fresh item (n - 64 * empties (slots.take i))) := by
  induction slots generalizing n i with
  | nil => rfl
  | cons o slots ih =>
      rw [fillEmpty_cons]
      cases i with
      | zero => rfl
      | succ i =>
          rw [List.getElem?_cons_succ, List.getElem?_cons_succ, ih, List.take_succ_cons, empties_cons,
            Nat.sub_sub, Nat.mul_add, Nat.add_comm (64 * empties _)]

theorem takeFrom_zero : takeFrom item 0 slots = (slots, 0) := by
  induction slots with
  | nil => rfl
  | cons o slots ih =>
      cases o with
      | none => rw [takeFrom, ih]
      | some s =>
          unfold takeFrom
          rw [Nat.zero_min, ih]
          split <;> rfl

/-- Each slot gives what it has, as long as something is left to take. -/
theorem takeFrom_cons (o : Option ItemStack) :
    takeFrom item n (o :: slots) =
      (o.map (give item n) :: (takeFrom item (n - itemUnits item o) slots).1,
        (takeFrom item (n - itemUnits item o) slots).2) := by
  cases o with
  | none => rfl
  | some s =>
      simp only [takeFrom, Option.map_some, itemUnits, give]
      by_cases hs : s.item = item
      · have hcount : s.count - min n s.count = s.count - n := by omega
        have hleft : n - min n s.count = n - s.count := by omega
        rw [if_pos hs, if_pos hs, if_pos hs, hcount, hleft]
        by_cases hzero : n - s.count = 0
        · rw [if_pos hzero, hzero, takeFrom_zero]
        · rw [if_neg hzero]
      · rw [if_neg hs, if_neg hs, if_neg hs, Nat.sub_zero]

/-- What the loop of `remove_item` leaves in each slot. -/
theorem getElem?_takeFrom (i : Nat) :
    (takeFrom item n slots).1[i]? =
      slots[i]?.map (Option.map (give item (n - countIn item (slots.take i)))) := by
  induction slots generalizing n i with
  | nil => rfl
  | cons o slots ih =>
      rw [takeFrom_cons]
      cases i with
      | zero => rfl
      | succ i =>
          rw [List.getElem?_cons_succ, List.getElem?_cons_succ, ih, List.take_succ_cons, countIn_cons,
            Nat.sub_sub]

/-! ## The totals -/

theorem countIn_stackOnto :
    countIn item (stackOnto item n slots).1 = countIn item slots + min n (room item slots) := by
  induction slots generalizing n with
  | nil =>
      rw [room, Nat.min_zero]
      rfl
  | cons o slots ih =>
      rw [stackOnto_cons, countIn_cons, countIn_cons, ih, room_cons]
      cases o with
      | none =>
          simp only [Option.map_none, Option.getD_none, itemUnits]
          omega
      | some s =>
          simp only [Option.map_some, Option.getD_some, itemUnits, receive, roomOn]
          by_cases hs : s.item = item
          · simp only [hs, if_true]
            omega
          · simp only [hs, if_false]
            omega

theorem countIn_fillEmpty :
    countIn item (fillEmpty item n slots).1 = countIn item slots + min n (64 * empties slots) := by
  induction slots generalizing n with
  | nil =>
      rw [show empties [] = 0 from rfl, Nat.mul_zero, Nat.min_zero]
      rfl
  | cons o slots ih =>
      rw [fillEmpty_cons, countIn_cons, countIn_cons, ih, empties_cons]
      cases o with
      | some s =>
          simp only [Option.some_or, Option.isNone_some, Bool.false_eq_true, if_false]
          omega
      | none =>
          have hfresh : itemUnits item (fresh item n) = min n 64 := by
            unfold fresh
            split
            · rename_i hn
              rw [hn, Nat.zero_min]
              rfl
            · exact if_pos rfl
          rw [Option.none_or, hfresh, itemUnits, Option.isNone_none, if_pos rfl]
          omega

theorem countIn_takeFrom :
    countIn item (takeFrom item n slots).1 = countIn item slots - n ∧
      (takeFrom item n slots).2 = n - countIn item slots := by
  induction slots generalizing n with
  | nil => exact ⟨(Nat.zero_sub n).symm, rfl⟩
  | cons o slots ih =>
      obtain ⟨hcount, hleft⟩ := ih (n := n - itemUnits item o)
      rw [takeFrom_cons, countIn_cons, countIn_cons, hcount, hleft, Nat.sub_sub]
      refine ⟨?_, rfl⟩
      have hgive : itemUnits item (o.map (give item n)) = itemUnits item o - n := by
        cases o with
        | none => rw [Option.map_none, itemUnits, Nat.zero_sub]
        | some s =>
            rw [Option.map_some, give]
            by_cases hs : s.item = item
            · rw [if_pos hs]
              simp only [itemUnits, hs, if_true]
            · rw [if_neg hs]
              simp only [itemUnits, hs, if_false, Nat.zero_sub]
      rw [hgive]
      omega

theorem countIn_cleared : countIn item (slots.map cleared) = countIn item slots := by
  induction slots with
  | nil => rfl
  | cons o slots ih =>
      rw [List.map_cons, countIn_cons, countIn_cons, ih]
      congr 1
      cases o with
      | none => rfl
      | some s =>
          unfold cleared itemUnits
          by_cases hs : s.count = 0
          · simp only [hs, if_true, ite_self]
          · simp only [hs, if_false]

end Slots

/-! ## What `add_item` and `remove_item` leave in each slot -/

section Inventories

variable {inv : Inventory} {item : BlockState} {n : Nat}

theorem take_stackOnto (slots : List (Option ItemStack)) (i : Nat) :
    (stackOnto item n slots).1.take i = (stackOnto item n (slots.take i)).1 := by
  induction slots generalizing n i with
  | nil => rw [List.take_nil, stackOnto, List.take_nil]
  | cons o slots ih =>
      cases i with
      | zero => rfl
      | succ i => rw [stackOnto_cons, List.take_succ_cons, ih, List.take_succ_cons, stackOnto_cons]

theorem getElem?_addItem (i : Nat) :
    (inv.addItem item n).1.items.toList[i]? =
      inv.items.toList[i]?.map fun o =>
        (o.map (receive item (n - room item (inv.items.toList.take i)))).or
          (fresh item (n - room item inv.items.toList - 64 * empties (inv.items.toList.take i))) := by
  rw [toList_addItem, getElem?_fillEmpty, getElem?_stackOnto, take_stackOnto, empties_stackOnto,
    snd_stackOnto, Option.map_map]
  rfl

theorem toList_removeItem : (inv.removeItem item n).1.items.toList =
    (takeFrom item n inv.items.toList).1.map cleared := by
  simp [removeItem, Vector.toList]

theorem getElem?_removeItem (i : Nat) :
    (inv.removeItem item n).1.items.toList[i]? =
      inv.items.toList[i]?.map fun o =>
        cleared (o.map (give item (n - countIn item (inv.items.toList.take i)))) := by
  rw [toList_removeItem, List.getElem?_map, getElem?_takeFrom, Option.map_map]
  rfl

/-- A stack before `add_item` is there after it, with what it received. -/
theorem addItem_some (item : BlockState) (n : Nat) {i : Nat} {s : ItemStack} (h : inv.items.toList[i]? = some (some s)) :
    (inv.addItem item n).1.items.toList[i]? =
      some (some (receive item (n - room item (inv.items.toList.take i)) s)) := by
  rw [getElem?_addItem, h]
  rfl

theorem addItem_none (item : BlockState) (n : Nat) {i : Nat} (h : inv.items.toList[i]? = some none) :
    (inv.addItem item n).1.items.toList[i]? =
      some (fresh item (n - room item inv.items.toList - 64 * empties (inv.items.toList.take i))) := by
  rw [getElem?_addItem, h]
  rfl

theorem removeItem_some (item : BlockState) (n : Nat) {i : Nat} {s : ItemStack} (h : inv.items.toList[i]? = some (some s)) :
    (inv.removeItem item n).1.items.toList[i]? =
      some (cleared (some (give item (n - countIn item (inv.items.toList.take i)) s))) := by
  rw [getElem?_removeItem, h]
  rfl

/-! ## The parts of the law -/

theorem countItem_addItem :
    (inv.addItem item n).1.countItem item + (inv.addItem item n).2 = inv.countItem item + n := by
  unfold countItem
  rw [toList_addItem, snd_addItem, countIn_fillEmpty, countIn_stackOnto, snd_stackOnto,
    empties_stackOnto]
  omega

theorem keepsStacks_addItem :
    KeepsStacks item inv.items.toList (inv.addItem item n).1.items.toList := by
  intro i s hs
  rw [addItem_some _ _ hs]
  unfold receive
  by_cases hitem : s.item = item
  · rw [if_pos hitem]
    exact ⟨_, Nat.le_add_right .., fun hne => absurd hitem hne, rfl⟩
  · rw [if_neg hitem]
    exact ⟨s.count, Nat.le_refl _, fun _ => rfl, rfl⟩

theorem maxCount_receive (item : BlockState) (left : Nat) (s : ItemStack) :
    (receive item left s).maxCount = s.maxCount ∧ s.count ≤ (receive item left s).count := by
  unfold receive
  split
  · exact ⟨rfl, Nat.le_add_right ..⟩
  · exact ⟨rfl, Nat.le_refl _⟩

/-- The first empty slot: all slots before it are taken. -/
theorem exists_first_none {slots : List (Option ItemStack)} (h : none ∈ slots) :
    ∃ i : Nat, slots[i]? = some none ∧ empties (slots.take i) = 0 := by
  induction slots with
  | nil => cases h
  | cons o slots ih =>
      cases o with
      | none => exact ⟨0, rfl, rfl⟩
      | some s =>
          obtain ⟨i, hi, hnone⟩ := ih ((List.mem_cons.1 h).resolve_left (Option.some_ne_none s).symm)
          refine ⟨i + 1, hi, ?_⟩
          rw [List.take_succ_cons, empties_cons, hnone]
          rfl

theorem FillsRight.within (h : FillsRight inv item n) : WithinMax (inv.addItem item n).1.items.toList := by
  intro t ht
  obtain ⟨i, hi⟩ := List.mem_iff_getElem?.1 ht
  cases ho : inv.items.toList[i]? with
  | none =>
      rw [getElem?_addItem, ho] at hi
      cases hi
  | some o =>
      cases o with
      | some s =>
          rw [addItem_some _ _ ho, Option.some.injEq, Option.some.injEq] at hi
          rw [← hi]
          unfold receive
          by_cases hitem : s.item = item
          · rw [if_pos hitem]
            exact h.received i s ho hitem
          · rw [if_neg hitem]
            exact h.before s (List.mem_of_getElem? ho)
      | none =>
          rw [addItem_none _ _ ho, Option.some.injEq] at hi
          unfold fresh at hi
          split at hi
          · cases hi
          · rw [Option.some.injEq] at hi
            rw [← hi]
            have hfirst := h.added (List.mem_of_getElem? ho)
            have hmax : ∀ c, (ItemStack.new item c).maxCount = (ItemStack.new item 0).maxCount := fun _ => rfl
            rw [hmax]
            change min _ 64 ≤ _
            omega

/-- **The maximum of the stacks** holds after `add_item` exactly when nothing is filled beyond it. -/
theorem stacksRight_iff :
    StacksRight inv.items.toList (inv.addItem item n).1.items.toList ↔ FillsRight inv item n := by
  constructor
  · rintro ⟨hwithin, -⟩
    refine ⟨?_, ?_, ?_⟩
    · intro s hs
      obtain ⟨i, hi⟩ := List.mem_iff_getElem?.1 hs
      have hafter := hwithin _ (List.mem_of_getElem? (addItem_some item n hi))
      obtain ⟨hmax, hle⟩ := maxCount_receive item (n - room item (inv.items.toList.take i)) s
      omega
    · intro i s hi hitem
      have hafter := hwithin _ (List.mem_of_getElem? (addItem_some item n hi))
      unfold receive at hafter
      rw [if_pos hitem] at hafter
      exact hafter
    · intro hnone
      obtain ⟨i, hi, hfirst⟩ := exists_first_none hnone
      have hafter := addItem_none item n hi
      rw [hfirst, Nat.mul_zero, Nat.sub_zero] at hafter
      unfold fresh at hafter
      by_cases hzero : n - room item inv.items.toList = 0
      · rw [hzero, Nat.zero_min]
        exact Nat.zero_le _
      · rw [if_neg hzero] at hafter
        exact hwithin _ (List.mem_of_getElem? hafter)
  · intro h
    refine ⟨h.within, fun i s hi hone hpos => ?_⟩
    have hafter := addItem_some item n hi
    have hle := h.within _ (List.mem_of_getElem? hafter)
    rw [hafter]
    -- A stack of one that is within its maximum has received nothing.
    unfold receive at hle ⊢
    by_cases hitem : s.item = item
    · rw [if_pos hitem] at hle ⊢
      dsimp only at hle
      rw [show min (n - room item (inv.items.toList.take i)) (64 - s.count) = 0 by omega]
      rfl
    · rw [if_neg hitem]

theorem maxCount_new_le (item : BlockState) (count : Nat) : (ItemStack.new item count).maxCount ≤ 64 := by
  change (if (maxDurability item.id.toNat).isSome then 1 else stackSize item.id.toNat) ≤ 64
  unfold stackSize
  repeat' split
  all_goals omega

/-- The room on the slots before a stack of the item and on the stack is part of the room. -/
theorem room_take_add_le {slots : List (Option ItemStack)} {i : Nat} {s : ItemStack}
    (h : slots[i]? = some (some s)) (hitem : s.item = item) :
    room item (slots.take i) + (64 - s.count) ≤ room item slots := by
  induction slots generalizing i with
  | nil => cases h
  | cons o slots ih =>
      cases i with
      | zero =>
          rw [List.getElem?_cons_zero, Option.some.injEq] at h
          rw [h, List.take_zero, room_cons, Option.map_some, Option.getD_some, roomOn, if_pos hitem, room]
          omega
      | succ i =>
          rw [List.getElem?_cons_succ] at h
          have hrest := ih h
          rw [List.take_succ_cons, room_cons, room_cons]
          omega

/-- The empty slots before an empty slot are not all. -/
theorem empties_take_lt {slots : List (Option ItemStack)} {i : Nat} (h : slots[i]? = some none) :
    empties (slots.take i) < empties slots := by
  induction slots generalizing i with
  | nil => cases h
  | cons o slots ih =>
      cases i with
      | zero =>
          rw [List.getElem?_cons_zero, Option.some.injEq] at h
          rw [h, empties_cons, List.take_zero]
          exact Nat.succ_pos _
      | succ i =>
          rw [List.getElem?_cons_succ] at h
          have hrest := ih h
          rw [List.take_succ_cons, empties_cons, empties_cons]
          omega

/-- With items left over, a stack of the item holds 64 at least. -/
theorem receive_of_left {i : Nat} {s : ItemStack} (h : inv.items.toList[i]? = some (some s))
    (hitem : s.item = item)
    (hleft : room item inv.items.toList + 64 * empties inv.items.toList < n) :
    receive item (n - room item (inv.items.toList.take i)) s = { s with count := max s.count 64 } := by
  have hroom := room_take_add_le h hitem
  unfold receive
  rw [if_pos hitem, show s.count + min (n - room item (inv.items.toList.take i)) (64 - s.count) =
    max s.count 64 by omega]

/-- **Items are left over** only where no slot can take more, unless a stack may grow beyond 64. -/
theorem full_iff :
    (0 < (inv.addItem item n).2 → Full item (inv.addItem item n).1.items.toList) ↔
      FullAt64 inv item n := by
  unfold FullAt64
  rw [snd_addItem]
  by_cases hfits : n ≤ room item inv.items.toList + 64 * empties inv.items.toList
  · exact iff_of_true (fun h => by omega) (.inl hfits)
  · have hleft : room item inv.items.toList + 64 * empties inv.items.toList < n := Nat.lt_of_not_le hfits
    rw [or_iff_right hfits]
    constructor
    · intro h s hs hitem
      obtain ⟨i, hi⟩ := List.mem_iff_getElem?.1 hs
      have hafter := addItem_some item n hi
      rw [receive_of_left hi hitem hleft] at hafter
      obtain ⟨t, ht, hfull⟩ := h (by omega) _ (List.mem_of_getElem? hafter)
      rw [Option.some.injEq] at ht
      rw [← ht] at hfull
      exact hfull hitem
    · intro h _ o ho
      obtain ⟨i, hi⟩ := List.mem_iff_getElem?.1 ho
      cases hb : inv.items.toList[i]? with
      | none =>
          rw [getElem?_addItem, hb] at hi
          cases hi
      | some b =>
          cases b with
          | some s =>
              rw [addItem_some _ _ hb, Option.some.injEq] at hi
              refine ⟨_, hi.symm, fun hafter => ?_⟩
              by_cases hitem : s.item = item
              · rw [receive_of_left hb hitem hleft]
                exact h s (List.mem_of_getElem? hb) hitem
              · unfold receive at hafter
                rw [if_neg hitem] at hafter
                exact absurd hafter hitem
          | none =>
              have hslots := empties_take_lt hb
              rw [addItem_none _ _ hb, Option.some.injEq, fresh, if_neg (by omega)] at hi
              refine ⟨_, hi.symm, fun _ => ?_⟩
              have hmax := maxCount_new_le item
                (min (n - room item inv.items.toList - 64 * empties (inv.items.toList.take i)) 64)
              have hcount : (ItemStack.new item (min (n - room item inv.items.toList -
                  64 * empties (inv.items.toList.take i)) 64)).count = 64 :=
                show min _ 64 = 64 by omega
              omega

theorem removeItem_count :
    (inv.removeItem item n).2 = min n (inv.countItem item) ∧
      (inv.removeItem item n).1.countItem item + (inv.removeItem item n).2 = inv.countItem item := by
  have hremoved : (inv.removeItem item n).2 = n - (takeFrom item n inv.items.toList).2 := rfl
  unfold countItem
  rw [hremoved, toList_removeItem, countIn_cleared, countIn_takeFrom.1, countIn_takeFrom.2]
  omega

theorem lessens_removeItem : Lessens item inv.items.toList (inv.removeItem item n).1.items.toList := by
  intro i s hs hitem
  rw [removeItem_some _ _ hs]
  unfold give cleared
  rw [if_pos hitem]
  dsimp only
  split
  · exact .inl rfl
  · exact .inr ⟨_, Nat.sub_le .., rfl⟩

/-- `remove_item` keeps the other stacks exactly when none of them is an empty one. -/
theorem keepsOthers_iff :
    KeepsOthers item inv.items.toList (inv.removeItem item n).1.items.toList ↔
      ∀ s, some s ∈ inv.items.toList → s.item ≠ item → s.count ≠ 0 := by
  have hother : ∀ (i : Nat) s, inv.items.toList[i]? = some (some s) → s.item ≠ item →
      (inv.removeItem item n).1.items.toList[i]? = some (if s.count = 0 then none else some s) := by
    intro i s hs hne
    rw [removeItem_some _ _ hs, give, if_neg hne]
    rfl
  constructor
  · intro h s hs hne hzero
    obtain ⟨i, hi⟩ := List.mem_iff_getElem?.1 hs
    have hkept := h i s hi hne
    rw [hother i s hi hne, if_pos hzero] at hkept
    cases hkept
  · intro h i s hi hne
    rw [hother i s hi hne, if_neg (h s (List.mem_of_getElem? hi) hne)]

/-- **Adding and removing**: the totals are exact, no stack changes but in its count, and no other
item changes unless it is an empty stack; the maximum of the stacks holds exactly when nothing is
filled beyond it, and items are only left over with all slots full unless a stack may grow beyond
64. -/
theorem addRemove_law (inv : Inventory) (item : BlockState) (n : Nat) :
    (inv.addItem item n).1.countItem item + (inv.addItem item n).2 = inv.countItem item + n ∧
      KeepsStacks item inv.items.toList (inv.addItem item n).1.items.toList ∧
      (StacksRight inv.items.toList (inv.addItem item n).1.items.toList ↔ FillsRight inv item n) ∧
      ((0 < (inv.addItem item n).2 → Full item (inv.addItem item n).1.items.toList) ↔
        FullAt64 inv item n) ∧
      (inv.removeItem item n).2 = min n (inv.countItem item) ∧
      (inv.removeItem item n).1.countItem item + (inv.removeItem item n).2 = inv.countItem item ∧
      Lessens item inv.items.toList (inv.removeItem item n).1.items.toList ∧
      (KeepsOthers item inv.items.toList (inv.removeItem item n).1.items.toList ↔
        ∀ s, some s ∈ inv.items.toList → s.item ≠ item → s.count ≠ 0) :=
  ⟨countItem_addItem, keepsStacks_addItem, stacksRight_iff, full_iff, removeItem_count.1,
    removeItem_count.2, lessens_removeItem, keepsOthers_iff⟩

/-- A bucket (790) lies in the first slot. -/
def oneBucket : Inventory :=
  ⟨(Vector.replicate 36 none).set 0 (some (ItemStack.new (BlockState.new 790#32) 1)), none,
    Vector.replicate 4 none, 0⟩

/-- A second bucket is merged into the stack of one, which is its maximum. -/
theorem buckets_merge :
    ((oneBucket.addItem (BlockState.new 790#32) 1).1.items.toList[0]?.join.map fun s =>
        (s.count, s.maxCount)) = some (2, 1) ∧
      ¬ StacksRight oneBucket.items.toList
        (oneBucket.addItem (BlockState.new 790#32) 1).1.items.toList := by
  have hbucket : oneBucket.items.toList[0]? = some (some (ItemStack.new (BlockState.new 790#32) 1)) :=
    rfl
  constructor
  · rw [addItem_some _ _ hbucket]
    decide
  · intro h
    have hreceived := (stacksRight_iff.1 h).received 0 _ hbucket rfl
    exact absurd hreceived (by decide)

end Inventories

end Apoptotic.Commands.Inventory
