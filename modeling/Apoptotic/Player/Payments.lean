import Apoptotic.Player.AddRemove
import Apoptotic.Player.Enchant
import Apoptotic.Player.Experience
import Apoptotic.Server.Hoppers

/-!
# Payments

`remove_lapis` of `mc-player/src/player.rs` and the clicks on the result slot of an enchanting table
and of an anvil in `mc-network/src/play_loop.rs`.  The levels are the player's, the lapis is taken from
the inventory, and the goods lie in the slots of the window; the calls that change them come one after
the other.

Principal result: `payments_law` — for each of the three, exactly when it takes its price for its
goods or leaves everything as it was.
-/

namespace Apoptotic.Payments

open Commands Containers Enchant Experience

def LAPIS : BlockState := BlockState.new 571#32

/-- `remove_lapis`, on the inventory of a player who is there. -/
def removeLapis (inv : Inventory) (count : Nat) : Inventory × Bool :=
  let (inv, removed) := inv.removeItem LAPIS count
  (inv, decide (count ≤ removed))

/-- What a click on a result slot reads and changes. -/
structure Table (F : Type) where
  xp : Xp F
  inventory : Inventory
  windows : ContainerManager

section Clicks

variable {F : Type} (fl : Fractions F) (s : Table F) (w : BitVec 8)

/-- The result is set, and the slots of the goods are emptied. -/
def Table.deliver (xp : Xp F) (inventory : Inventory) (result : ItemStack) : Table F :=
  ⟨xp, inventory, ((s.windows.setSlot w 2 (some result)).setSlot w 0 none).setSlot w 1 none⟩

/-- `remove_xp_levels`, and the result if the levels are there.  None where the experience
overflows. -/
def Table.pay (cost : Nat) (inventory : Inventory) (result : ItemStack) : Option (Table F) :=
  match removeXpLevels fl.toFractionOps s.xp cost with
  | some (.ok xp) => some (s.deliver w xp inventory result)
  | some (.error _) => some s
  | none => none

/-- The item with the enchantments that are rolled for a cost. -/
def enchanted (item : ItemStack) (levelCost : Nat) : ItemStack :=
  { item with nbt := some (writeEnchants (rollEnchantment item.item.id.toNat (5 + levelCost * 5))) }

/-- The click on the result of an enchanting table, for what is drawn below `5 + bookshelves / 2`. -/
def enchantClick (roll : Nat) : Option (Table F) :=
  match s.windows.getSlot w 0, s.windows.getSlot w 1 with
  | some item, some _ =>
      let levelCost := 1 + roll
      s.pay fl w levelCost (removeLapis s.inventory 1).1 (enchanted item levelCost)
  | _, _ => some s

/-- The click on the result of an anvil. -/
def anvilClick (rightOrder combinedOrder : MapOrder) : Option (Table F) :=
  match s.windows.getSlot w 0 with
  | some left =>
      match anvilOutput rightOrder combinedOrder left (s.windows.getSlot w 1) with
      | some (result, cost) => s.pay fl w cost s.inventory result
      -- the reader of the enchantments panics before anything is written
      | none => some s
  | none => some s

end Clicks

/-! ## The law -/

/-- A stack of which `price` items are taken. -/
def lessen (price : Nat) : Option ItemStack → Option ItemStack
  | some s => if s.count = price then none else some { s with count := s.count - price }
  | none => none

section Law

variable {F : Type} (fl : Fractions F) (s t : Table F) (w : BitVec 8)

/-- The result is there for its price: `cost` levels, `price` items of the second slot and the stack
in the first, and nothing else, which lay in the inventory or in the result slot. -/
structure Table.Paid (result : ItemStack) (cost price : Nat) : Prop where
  level : t.xp.level = s.xp.level - cost
  inventory : t.inventory = s.inventory
  free : s.windows.getSlot w 2 = none
  output : t.windows.getSlot w 2 = some result
  input : t.windows.getSlot w 0 = none
  goods : t.windows.getSlot w 1 = lessen price (s.windows.getSlot w 1)

/-- The click leaves all as it was, or takes `price` lapis from the second slot for an enchantment. -/
def EnchantFair (roll price : Nat) : Prop :=
  ∃ t, enchantClick fl s w roll = some t ∧
    (t = s ∨ ∃ item lapis, s.windows.getSlot w 0 = some item ∧ s.windows.getSlot w 1 = some lapis ∧
      lapis.item = LAPIS ∧ s.Paid t w (enchanted item (1 + roll)) (1 + roll) price)

/-- The click leaves all as it was, or takes `price` items from the second slot for the result. -/
def AnvilFair (rightOrder combinedOrder : MapOrder) (price : Nat) : Prop :=
  ∃ t, anvilClick fl s w rightOrder combinedOrder = some t ∧
    (t = s ∨ ∃ left result cost, s.windows.getSlot w 0 = some left ∧
      anvilOutput rightOrder combinedOrder left (s.windows.getSlot w 1) = some (result, cost) ∧
      s.Paid t w result cost price)

/-- There is a result slot, and it is empty. -/
def ResultFree : Prop := 2 < (s.windows.allSlots w).length ∧ s.windows.getSlot w 2 = none

/-- No lapis lies in the inventory, and no empty stack. -/
def NoLapis (inv : Inventory) : Prop :=
  ∀ stack, some stack ∈ inv.items.toList → stack.count ≠ 0 ∧ stack.item ≠ LAPIS

/-- If the click goes through: the second slot holds the price and nothing more, in lapis, there is
none in the inventory, and the result has its place. -/
def EnchantReady (roll price : Nat) : Prop :=
  ∀ item lapis, s.windows.getSlot w 0 = some item → s.windows.getSlot w 1 = some lapis →
    1 + roll ≤ s.xp.level →
      (removeXpLevels fl.toFractionOps s.xp (1 + roll : Nat)).isSome ∧ ResultFree s w ∧
        lapis.item = LAPIS ∧ lapis.count = price ∧ NoLapis s.inventory

/-- If the click goes through: the second slot holds the price and nothing more, or is empty, and the
result has its place. -/
def AnvilReady (rightOrder combinedOrder : MapOrder) (price : Nat) : Prop :=
  ∀ left result cost, s.windows.getSlot w 0 = some left →
    anvilOutput rightOrder combinedOrder left (s.windows.getSlot w 1) = some (result, cost) →
    (cost : Int) ≤ s.xp.level →
      (removeXpLevels fl.toFractionOps s.xp cost).isSome ∧ ResultFree s w ∧
        ∀ right, s.windows.getSlot w 1 = some right → right.count = price

end Law

/-! ## Lapis -/

theorem toList_inj {inv inv' : Inventory} (h : inv'.items.toList = inv.items.toList) :
    inv'.items = inv.items := by
  rw [← Vector.toList_inj]
  exact h

/-- `remove_item` changes nothing exactly where there is nothing of the item and no empty stack. -/
theorem removeItem_eq_iff {inv : Inventory} {item : BlockState} {n : Nat} (hn : 0 < n) :
    (inv.removeItem item n).1 = inv ↔
      ∀ stack, some stack ∈ inv.items.toList → stack.count ≠ 0 ∧ stack.item ≠ item := by
  constructor
  · intro h stack hstack
    obtain ⟨i, hi⟩ := List.mem_iff_getElem?.1 hstack
    have hothers : stack.item ≠ item → stack.count ≠ 0 := by
      intro hne hzero
      have hafter := Inventory.removeItem_some item n hi
      rw [h, hi, Inventory.give, if_neg hne, Option.some.injEq, Inventory.cleared, if_pos hzero] at hafter
      cases hafter
    suffices hne : stack.item ≠ item from ⟨hothers hne, hne⟩
    intro hitem
    -- Where there is some of the item, or a stack of none, something is removed or cleared.
    have hcount := @Inventory.removeItem_count inv item n
    rw [h] at hcount
    have hnone : inv.countItem item = 0 := by omega
    have hzero : stack.count = 0 := by
      have hle := List.single_le_sum (l := inv.items.toList.map (Inventory.itemUnits item))
        (fun _ _ => Nat.zero_le _) _ (List.mem_map_of_mem hstack)
      unfold Inventory.countItem Inventory.countIn at hnone
      rw [hnone, Inventory.itemUnits, if_pos hitem] at hle
      exact Nat.le_zero.1 hle
    have hafter := Inventory.removeItem_some item n hi
    rw [h, hi, Inventory.give, if_pos hitem, Option.some.injEq, Inventory.cleared,
      if_pos (by dsimp only; omega)] at hafter
    cases hafter
  · intro h
    have hitems : (inv.removeItem item n).1.items.toList = inv.items.toList := by
      refine List.ext_getElem? fun i => ?_
      rw [Inventory.getElem?_removeItem]
      cases ho : inv.items.toList[i]? with
      | none => rfl
      | some o =>
          cases o with
          | none => rfl
          | some stack =>
              obtain ⟨hcount, hne⟩ := h stack (List.mem_of_getElem? ho)
              rw [Option.map_some, Option.map_some, Inventory.give, if_neg hne, Inventory.cleared,
                if_neg hcount]
    have hsame := toList_inj hitems
    obtain ⟨items, offhand, armor, selectedSlot⟩ := inv
    exact congrArg (fun items => (⟨items, offhand, armor, selectedSlot⟩ : Inventory)) hsame

theorem removeLapis_iff (inv : Inventory) (count : Nat) :
    ((removeLapis inv count).2 = false → (removeLapis inv count).1 = inv) ↔
      count ≤ inv.countItem LAPIS ∨ NoLapis inv := by
  have hremoved : (removeLapis inv count).2 = decide (count ≤ (inv.removeItem LAPIS count).2) := rfl
  have hinv : (removeLapis inv count).1 = (inv.removeItem LAPIS count).1 := rfl
  rw [hremoved, hinv, Inventory.removeItem_count.1, decide_eq_false_iff_not]
  by_cases henough : count ≤ inv.countItem LAPIS
  · refine iff_of_true (fun hshort => absurd ?_ hshort) (.inl henough)
    omega
  · rw [or_iff_right henough]
    unfold NoLapis
    rw [← removeItem_eq_iff (n := count) (by omega)]
    constructor
    · exact fun h => h (by omega)
    · exact fun h _ => h

/-! ## The clicks -/

section Clicks

variable {F : Type} {fl : Fractions F} {s : Table F} {w : BitVec 8}

theorem getSlot_deliver (xp : Xp F) (inventory : Inventory) (result : ItemStack) (slot : Nat) :
    (s.deliver w xp inventory result).windows.getSlot w slot =
      ((((s.windows.allSlots w).set 2 (some result)).set 0 none).set 1 none)[slot]?.join := by
  unfold Table.deliver ContainerManager.getSlot
  rw [Hopper.allSlots_setSlot, Hopper.allSlots_setSlot, Hopper.allSlots_setSlot]

/-- **What is delivered is paid for exactly when** the result slot is free, the inventory stays, and
the second slot is worth the price. -/
theorem paid_deliver_iff {xp : Xp F} {cost : Nat} (inventory : Inventory) (result : ItemStack)
    (price : Nat) (hlevel : xp.level = s.xp.level - cost) :
    s.Paid (s.deliver w xp inventory result) w result cost price ↔
      inventory = s.inventory ∧ ResultFree s w ∧
        ∀ right, s.windows.getSlot w 1 = some right → right.count = price := by
  have hgoods : (s.deliver w xp inventory result).windows.getSlot w 1 = none := by
    rw [getSlot_deliver, List.getElem?_set_self']
    cases (((s.windows.allSlots w).set 2 (some result)).set 0 none)[1]? <;> rfl
  have hinput : (s.deliver w xp inventory result).windows.getSlot w 0 = none := by
    rw [getSlot_deliver, List.getElem?_set_ne (by decide), List.getElem?_set_self']
    cases ((s.windows.allSlots w).set 2 (some result))[0]? <;> rfl
  have houtput : (s.deliver w xp inventory result).windows.getSlot w 2 = some result ↔
      2 < (s.windows.allSlots w).length := by
    rw [getSlot_deliver, List.getElem?_set_ne (by decide), List.getElem?_set_ne (by decide)]
    by_cases hlt : 2 < (s.windows.allSlots w).length
    · rw [List.getElem?_set_self hlt]
      exact iff_of_true rfl hlt
    · rw [List.getElem?_eq_none (by rw [List.length_set]; omega)]
      exact iff_of_false (fun h => by cases h) hlt
  have hless : none = lessen price (s.windows.getSlot w 1) ↔
      ∀ right, s.windows.getSlot w 1 = some right → right.count = price := by
    cases s.windows.getSlot w 1 with
    | none => exact iff_of_true rfl fun _ h => by cases h
    | some right =>
        unfold lessen
        simp only [Option.some.injEq, forall_eq']
        split
        · rename_i hprice
          exact iff_of_true rfl hprice
        · rename_i hprice
          exact iff_of_false (fun h => by cases h) hprice
  constructor
  · intro h
    exact ⟨h.inventory, ⟨houtput.1 h.output, h.free⟩, hless.1 (hgoods.symm.trans h.goods)⟩
  · rintro ⟨hinv, ⟨hlt, hfree⟩, hprice⟩
    exact ⟨hlevel, hinv, hfree, houtput.2 hlt, hinput, hgoods.trans (hless.2 hprice)⟩

/-- Levels are taken, refused, or the experience overflows. -/
theorem removeXpLevels_cases (fl : Fractions F) (x : Xp F) (cost : Nat) :
    (x.level < cost ∧ ∃ e, removeXpLevels fl.toFractionOps x cost = some (.error e)) ∨
      ((cost : Int) ≤ x.level ∧ removeXpLevels fl.toFractionOps x cost = none) ∨
      ((cost : Int) ≤ x.level ∧ ∃ y, removeXpLevels fl.toFractionOps x cost = some (.ok y) ∧
        y.level = x.level - cost) := by
  by_cases hfew : x.level < cost
  · refine .inl ⟨hfew, ?_⟩
    unfold removeXpLevels
    rw [if_pos hfew]
    exact ⟨_, rfl⟩
  · have hle : (cost : Int) ≤ x.level := by omega
    cases hr : removeXpLevels fl.toFractionOps x cost with
    | none => exact .inr (.inl ⟨hle, rfl⟩)
    | some reply =>
        cases reply with
        | ok y =>
            obtain ⟨-, -, -, hlevel⟩ := removeXpLevels_ok fl hle hr
            exact .inr (.inr ⟨hle, y, rfl, hlevel⟩)
        | error e => exact absurd hr (not_refused fl hle e)

/-- **A payment is fair exactly when**, if the levels are there, the goods are worth the price and the
result has its place; `kind` is what else the goods have to be. -/
theorem pay_fair_iff (fl : Fractions F) (price : Nat) {cost : Nat} (hcost : 0 < cost)
    (inventory : Inventory) (result : ItemStack) (kind : Prop) :
    (∃ t, s.pay fl w cost inventory result = some t ∧ (t = s ∨ kind ∧ s.Paid t w result cost price)) ↔
      ((cost : Int) ≤ s.xp.level →
        (removeXpLevels fl.toFractionOps s.xp cost).isSome ∧ ResultFree s w ∧ kind ∧
          inventory = s.inventory ∧
            ∀ right, s.windows.getSlot w 1 = some right → right.count = price) := by
  unfold Table.pay
  rcases removeXpLevels_cases fl s.xp cost with ⟨hfew, e, he⟩ | ⟨hle, hnone⟩ | ⟨hle, y, hy, hlevel⟩
  · rw [he]
    exact iff_of_true ⟨s, rfl, .inl rfl⟩ fun hle => by omega
  · rw [hnone]
    refine iff_of_false ?_ fun h => ?_
    · rintro ⟨t, ht, -⟩
      cases ht
    · cases (h hle).1
  · rw [hy]
    have hpaid := paid_deliver_iff (s := s) (w := w) inventory result price hlevel
    constructor
    · rintro ⟨t, ht, hsame | ⟨hkind, hp⟩⟩ -
      · -- A level is gone.
        rw [Option.some.injEq] at ht
        have hgone : y.level = s.xp.level := congrArg (fun t => t.xp.level) (ht.trans hsame)
        omega
      · rw [Option.some.injEq] at ht
        subst ht
        obtain ⟨hinv, hfree, hprice⟩ := hpaid.1 hp
        exact ⟨rfl, hfree, hkind, hinv, hprice⟩
    · intro h
      obtain ⟨-, hfree, hkind, hinv, hprice⟩ := h hle
      exact ⟨_, rfl, .inr ⟨hkind, hpaid.2 ⟨hinv, hfree, hprice⟩⟩⟩

theorem enchantFair_iff (fl : Fractions F) (s : Table F) (w : BitVec 8) (roll price : Nat) :
    EnchantFair fl s w roll price ↔ EnchantReady fl s w roll price := by
  unfold EnchantFair EnchantReady enchantClick
  cases hitem : s.windows.getSlot w 0 with
  | none => exact iff_of_true ⟨s, rfl, .inl rfl⟩ fun _ _ h => by cases h
  | some item =>
      cases hlapis : s.windows.getSlot w 1 with
      | none => exact iff_of_true ⟨s, rfl, .inl rfl⟩ fun _ _ _ h => by cases h
      | some lapis =>
          have hfair := pay_fair_iff (s := s) (w := w) fl price (Nat.succ_pos roll)
            (removeLapis s.inventory 1).1 (enchanted item (1 + roll)) (lapis.item = LAPIS)
          have hinv : (removeLapis s.inventory 1).1 = s.inventory ↔ NoLapis s.inventory :=
            removeItem_eq_iff Nat.one_pos
          rw [Nat.succ_eq_one_add, hinv, hlapis] at hfair
          constructor
          · rintro ⟨t, ht, hsame⟩ item' lapis' hitem' hlapis' hle
            cases hitem'
            cases hlapis'
            obtain ⟨hsome, hfree, hkind, hclean, hprice⟩ := hfair.1 ⟨t, ht, hsame.imp_right (by
              rintro ⟨item', lapis', hitem', hlapis', hkind, hpaid⟩
              cases hitem'
              cases hlapis'
              exact ⟨hkind, hpaid⟩)⟩ hle
            exact ⟨hsome, hfree, hkind, hprice _ rfl, hclean⟩
          · intro h
            obtain ⟨t, ht, hsame⟩ := hfair.2 fun hle => by
              obtain ⟨hsome, hfree, hkind, hprice, hclean⟩ := h item lapis rfl rfl hle
              refine ⟨hsome, hfree, hkind, hclean, fun right hright => ?_⟩
              cases hright
              exact hprice
            exact ⟨t, ht, hsame.imp_right fun hp => ⟨item, lapis, rfl, rfl, hp⟩⟩

/-- An anvil asks for one level at least. -/
theorem anvilOutput_cost {rightOrder combinedOrder : MapOrder} {left result : ItemStack}
    {right : Option ItemStack} {cost : Nat}
    (h : anvilOutput rightOrder combinedOrder left right = some (result, cost)) : 0 < cost := by
  unfold anvilOutput at h
  obtain ⟨leftEnchants, -, h⟩ := Option.bind_eq_some_iff.1 h
  obtain ⟨rightEnchants, -, h⟩ := Option.bind_eq_some_iff.1 h
  split at h
  · simp only [Option.some.injEq, Prod.mk.injEq] at h
    omega
  · simp only [Option.some.injEq, Prod.mk.injEq] at h
    omega

theorem anvilFair_iff (fl : Fractions F) (s : Table F) (w : BitVec 8) (rightOrder combinedOrder : MapOrder)
    (price : Nat) :
    AnvilFair fl s w rightOrder combinedOrder price ↔ AnvilReady fl s w rightOrder combinedOrder price := by
  unfold AnvilFair AnvilReady anvilClick
  cases hleft : s.windows.getSlot w 0 with
  | none => exact iff_of_true ⟨s, rfl, .inl rfl⟩ fun _ _ _ h => by cases h
  | some left =>
      cases hout : anvilOutput rightOrder combinedOrder left (s.windows.getSlot w 1) with
      | none =>
          refine iff_of_true ⟨s, ?_, .inl rfl⟩ fun left' _ _ h h' => ?_
          · dsimp only
            rw [hout]
          · cases h
            rw [hout] at h'
            cases h'
      | some made =>
          obtain ⟨result, cost⟩ := made
          have hfair := pay_fair_iff (s := s) (w := w) fl price (anvilOutput_cost hout)
            s.inventory result True
          constructor
          · rintro ⟨t, ht, hsame⟩ left' result' cost' hleft' hout' hle
            cases hleft'
            rw [hout] at hout'
            cases hout'
            dsimp only at ht
            rw [hout] at ht
            obtain ⟨hsome, hfree, -, -, hprice⟩ := hfair.1 ⟨t, ht, hsame.imp_right (by
              rintro ⟨left', result', cost', hleft', hout', hpaid⟩
              cases hleft'
              rw [hout] at hout'
              cases hout'
              exact ⟨trivial, hpaid⟩)⟩ hle
            exact ⟨hsome, hfree, hprice⟩
          · intro h
            obtain ⟨t, ht, hsame⟩ := hfair.2 fun hle => by
              obtain ⟨hsome, hfree, hprice⟩ := h left result cost rfl hout hle
              exact ⟨hsome, hfree, trivial, rfl, hprice⟩
            refine ⟨t, ?_, hsame.imp_right fun hp => ⟨left, result, cost, rfl, hout, hp.2⟩⟩
            dsimp only
            rw [hout]
            exact ht

end Clicks

/-- **Payments**: `remove_lapis` that reports failure, the enchanting table and the anvil leave
everything as it was or take their price for their goods exactly under the stated conditions, whatever
the price in lapis or in items of the second slot is. -/
theorem payments_law {F : Type} (fl : Fractions F) (s : Table F) (w : BitVec 8) (inv : Inventory)
    (count roll price : Nat) (rightOrder combinedOrder : MapOrder) :
    (((removeLapis inv count).2 = false → (removeLapis inv count).1 = inv) ↔
      count ≤ inv.countItem LAPIS ∨ NoLapis inv) ∧
      (EnchantFair fl s w roll price ↔ EnchantReady fl s w roll price) ∧
      (AnvilFair fl s w rightOrder combinedOrder price ↔
        AnvilReady fl s w rightOrder combinedOrder price) :=
  ⟨removeLapis_iff inv count, enchantFair_iff fl s w roll price,
    anvilFair_iff fl s w rightOrder combinedOrder price⟩

theorem first_lt : 0 < 36 := by decide

/-- Two lapis in the inventory. -/
def twoLapis : Inventory :=
  ⟨(Vector.replicate 36 none).set 0 (some (ItemStack.new LAPIS 2)) first_lt, none,
    Vector.replicate 4 none, 0⟩

/-- A sword and 64 lapis on the table, and two lapis in the inventory. -/
def fullTable : Table Rat where
  xp := ⟨0, 30, 1395⟩
  inventory := twoLapis
  windows := ⟨AList.singleton 1#8 ⟨⟨0#32, 0#32, 0#32⟩,
    [some (ItemStack.new (BlockState.new 785#32) 1), some (ItemStack.new LAPIS 64), none]⟩, ∅, 2#8, ∅⟩

/-- Three lapis are refused and the two are gone; an enchantment takes all 64 on the table. -/
theorem lapis_lost :
    (removeLapis twoLapis 3).2 = false ∧ (removeLapis twoLapis 3).1 ≠ twoLapis ∧
      ¬ EnchantFair exactFractions fullTable 1#8 0 1 := by
  have hslot : twoLapis.items.toList[0]? = some (some (ItemStack.new LAPIS 2)) := rfl
  have hcount : twoLapis.countItem LAPIS = 2 := by decide
  refine ⟨?_, fun h => ?_, fun h => ?_⟩
  · change decide (3 ≤ (twoLapis.removeItem LAPIS 3).2) = false
    rw [Inventory.removeItem_count.1, hcount]
    rfl
  · exact ((removeItem_eq_iff (by decide)).1 h _ (List.mem_of_getElem? hslot)).2 rfl
  · have hready := (enchantFair_iff _ _ _ _ _).1 h _ _ rfl rfl (by decide)
    exact absurd hready.2.2.2.1 (by decide)

end Apoptotic.Payments
