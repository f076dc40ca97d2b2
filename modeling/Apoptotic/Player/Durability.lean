import Apoptotic.Player.Enchant

/-!
# Durability

`damage_held_item` and `repair_held_item` of `mc-player/src/player.rs`, the mending of
`tick_xp_absorption` in `mc-server/src/tick.rs` and the repair in the anvil (`Enchant.anvilOutput`).
The durability of a stack is what remains of it: a new item starts at `max_durability`, damage takes
away and breaks the item when nothing is left.  The three repairs take away as well.

Principal result: `durability_law` — for every durability, exactly which amounts the damage and the
repairs treat as they should.
-/

namespace Apoptotic.Commands.Inventory

/-- Write to the selected slot. -/
def setHeld (inv : Inventory) (slot : Option ItemStack) : Inventory :=
  { inv with items := inv.items.setIfInBounds inv.selectedSlot slot }

def heldDurability (inv : Inventory) : Option Nat := inv.held.bind (·.durability)

/-- `damage_held_item`, on the inventory of a player who is there, and whether the item broke. -/
def damageHeldItem (inv : Inventory) (amount : Nat) : Inventory × Bool :=
  match inv.held with
  | some stack =>
      match stack.durability with
      | some dur =>
          if dur ≤ amount then (inv.setHeld none, true)
          else (inv.setHeld (some { stack with durability := some (dur - amount) }), false)
      | none => (inv, false)
  | none => (inv, false)

/-- `repair_held_item`, on the inventory of a player who is there. -/
def repairHeldItem (inv : Inventory) (amount : Nat) : Inventory × Bool :=
  match inv.held with
  | some stack =>
      match stack.durability with
      | some dur => (inv.setHeld (some { stack with durability := some (dur - amount) }), true)
      | none => (inv, false)
  | none => (inv, false)

/-- One damage after another, and whether the item broke on the way. -/
def damageAll (inv : Inventory) (amounts : List Nat) : Inventory × Bool :=
  amounts.foldl (fun s amount =>
    let (inv, broke) := s.1.damageHeldItem amount
    (inv, s.2 || broke)) (inv, false)

/-- `has_enchant`; none where the reader panics. -/
def hasEnchant (nbt : Option ByteArray) (name : String) : Option Bool :=
  (Enchant.parseItemEnchants nbt).map fun map => (map.lookup name).isSome

/-- What an orb of `xp` points does to the item in the hand, and whether it is used up by that. -/
def mend (inv : Inventory) (xp : Nat) : Option (Inventory × Bool) :=
  match inv.held with
  | some held => do
      let hasMending ← hasEnchant held.nbt "mending"
      match held.durability with
      | some dur =>
          if hasMending ∧ 0 < dur then some ((inv.repairHeldItem (xp * 2)).1, true)
          else some (inv, false)
      | none => some (inv, false)
  | none => some (inv, false)

/-! ## The law -/

section Law

variable (inv : Inventory) (d m : Nat)

/-- Damage and the same repair, on an item that does not break, give back the durability. -/
def GivesBack (amount : Nat) : Prop :=
  (inv.damageHeldItem amount).2 = false →
    ((inv.damageHeldItem amount).1.repairHeldItem amount).1.heldDurability = some d

/-- The item in the hand has not lost durability, and has no more than it can have. -/
def NotWorn (after : Inventory) : Prop :=
  ∃ new, after.heldDurability = some new ∧ d ≤ new ∧ new ≤ m

def Mends (xp : Nat) : Prop := ∀ after used, inv.mend xp = some (after, used) → NotWorn d m after

end Law

/-- An item of durability `d` does not come out of the anvil with less. -/
def AnvilKeeps (rightOrder combinedOrder : Enchant.MapOrder) (left : ItemStack)
    (right : Option ItemStack) (d : Nat) : Prop :=
  ∀ result cost, Enchant.anvilOutput rightOrder combinedOrder left right = some (result, cost) →
    ∃ new, result.durability = some new ∧ d ≤ new

/-! ## What each of them does -/

theorem selectedSlot_lt {inv : Inventory} {stack : ItemStack} (h : inv.held = some stack) :
    inv.selectedSlot < 36 := by
  unfold held at h
  by_contra hge
  rw [Vector.getElem?_eq_none (by omega)] at h
  cases h

theorem held_setHeld {inv : Inventory} (h : inv.selectedSlot < 36) (slot : Option ItemStack) :
    (inv.setHeld slot).held = slot := by
  simp [held, setHeld, h]

/-- What stands in the hand: a stack of durability `d`. -/
structure Holds (inv : Inventory) (stack : ItemStack) (d : Nat) : Prop where
  held : inv.held = some stack
  durability : stack.durability = some d

section Step

variable {inv : Inventory} {stack : ItemStack} {d : Nat}

theorem Holds.heldDurability (h : Holds inv stack d) : inv.heldDurability = some d := by
  rw [Inventory.heldDurability, h.held, Option.bind_some, h.durability]

/-- After a write to the hand, the hand holds what was written. -/
theorem Holds.write (h : Holds inv stack d) (new : Nat) :
    Holds (inv.setHeld (some { stack with durability := some new }))
      { stack with durability := some new } new where
  held := held_setHeld (selectedSlot_lt h.held) _
  durability := rfl

theorem Holds.damage_of_le (h : Holds inv stack d) {amount : Nat} (hle : d ≤ amount) :
    inv.damageHeldItem amount = (inv.setHeld none, true) := by
  unfold damageHeldItem
  rw [h.held]
  simp only [h.durability]
  rw [if_pos hle]

theorem Holds.damage_of_lt (h : Holds inv stack d) {amount : Nat} (hlt : amount < d) :
    inv.damageHeldItem amount =
      (inv.setHeld (some { stack with durability := some (d - amount) }), false) := by
  unfold damageHeldItem
  rw [h.held]
  simp only [h.durability]
  rw [if_neg (by omega)]

theorem Holds.repair (h : Holds inv stack d) (amount : Nat) :
    inv.repairHeldItem amount =
      (inv.setHeld (some { stack with durability := some (d - amount) }), true) := by
  unfold repairHeldItem
  rw [h.held]
  simp only [h.durability]

theorem Holds.heldDurability_repair (h : Holds inv stack d) (amount : Nat) :
    (inv.repairHeldItem amount).1.heldDurability = some (d - amount) := by
  rw [h.repair]
  exact (h.write _).heldDurability

theorem Holds.mend_eq (h : Holds inv stack d) {hasMending : Bool}
    (hm : hasEnchant stack.nbt "mending" = some hasMending) (xp : Nat) :
    inv.mend xp =
      if hasMending ∧ 0 < d then some ((inv.repairHeldItem (xp * 2)).1, true)
      else some (inv, false) := by
  unfold mend
  rw [h.held]
  simp only [hm, h.durability, Option.bind_eq_bind, Option.bind_some]

end Step

/-! ## The parts of the law -/

section Parts

variable {inv : Inventory} {stack : ItemStack} {d m : Nat}

theorem Holds.givesBack_iff (h : Holds inv stack d) (amount : Nat) :
    GivesBack inv d amount ↔ amount = 0 ∨ d ≤ amount := by
  unfold GivesBack
  by_cases hle : d ≤ amount
  · rw [h.damage_of_le hle]
    simp [hle]
  · rw [h.damage_of_lt (Nat.lt_of_not_le hle), (h.write _).heldDurability_repair]
    simp only [forall_const, Option.some.injEq]
    omega

theorem Holds.notWorn_repair_iff (h : Holds inv stack d) (hdm : d ≤ m) (amount : Nat) :
    NotWorn d m (inv.repairHeldItem amount).1 ↔ amount = 0 ∨ d = 0 := by
  unfold NotWorn
  rw [h.heldDurability_repair]
  constructor
  · rintro ⟨new, hnew, hle, -⟩
    rw [Option.some.injEq] at hnew
    omega
  · intro hzero
    exact ⟨d - amount, rfl, by omega, by omega⟩

theorem Holds.mends_iff (h : Holds inv stack d) (hdm : d ≤ m) {hasMending : Bool}
    (hm : hasEnchant stack.nbt "mending" = some hasMending) {xp : Nat} (hxp : 0 < xp) :
    Mends inv d m xp ↔ hasMending = false ∨ d = 0 := by
  unfold Mends
  rw [h.mend_eq hm]
  by_cases hused : hasMending = true ∧ 0 < d
  · rw [if_pos hused]
    have hrepair := h.notWorn_repair_iff hdm (xp * 2)
    constructor
    · intro hall
      have hzero := hrepair.1 (hall _ _ rfl)
      exact .inr (by omega)
    · rintro (hno | hzero)
      · rw [hno] at hused
        exact absurd hused.1 Bool.false_ne_true
      · omega
  · rw [if_neg hused]
    constructor
    · intro _
      cases hasMending with
      | false => exact .inl rfl
      | true => exact .inr (Nat.eq_zero_of_not_pos fun hpos => hused ⟨rfl, hpos⟩)
    · intro _ after used heq
      simp only [Option.some.injEq, Prod.mk.injEq] at heq
      rw [← heq.1]
      exact ⟨d, h.heldDurability, Nat.le_refl d, hdm⟩

/-- Once broken, always broken. -/
theorem foldl_damage_broke (amounts : List Nat) (inv : Inventory) :
    (amounts.foldl (fun s amount =>
      let (inv, broke) := s.1.damageHeldItem amount
      (inv, s.2 || broke)) (inv, true)).2 = true := by
  induction amounts generalizing inv with
  | nil => rfl
  | cons amount amounts ih => exact ih _

/-- The item breaks when the damages add up to what remains. -/
theorem Holds.damageAll_iff (h : Holds inv stack d) (amounts : List Nat) :
    (inv.damageAll amounts).2 = true ↔ amounts ≠ [] ∧ d ≤ amounts.sum := by
  unfold damageAll
  induction amounts generalizing inv stack d with
  | nil => simp
  | cons amount amounts ih =>
      rw [List.foldl_cons, List.sum_cons]
      by_cases hle : d ≤ amount
      · rw [h.damage_of_le hle]
        simp only [Bool.or_true, foldl_damage_broke, true_iff]
        exact ⟨List.cons_ne_nil _ _, by omega⟩
      · rw [h.damage_of_lt (Nat.lt_of_not_le hle)]
        simp only [Bool.or_false]
        rw [ih (h.write _)]
        constructor
        · rintro ⟨-, hsum⟩
          exact ⟨List.cons_ne_nil _ _, by omega⟩
        · rintro ⟨-, hsum⟩
          refine ⟨?_, by omega⟩
          -- Without a further damage the sum would be this one, which does not suffice.
          rintro rfl
          rw [List.sum_nil] at hsum
          omega

/-- Without enchantments on the right, three quarters of the durability come out. -/
theorem anvilOutput_repair {rightOrder combinedOrder : Enchant.MapOrder} {left : ItemStack}
    {right : Option ItemStack} {enchants : Enchant.Enchants}
    (hleft : Enchant.parseItemEnchants left.nbt = some enchants)
    (hright : Enchant.parseItemEnchants (right.bind (·.nbt)) = some ∅) :
    Enchant.anvilOutput rightOrder combinedOrder left right =
      some ({ left with durability := left.durability.map (· * 3 / 4) }, 1) := by
  unfold Enchant.anvilOutput
  simp only [hleft, hright, Option.bind_eq_bind, Option.bind_some]
  rw [if_neg fun h => h.2 rfl]

theorem anvilKeeps_iff {rightOrder combinedOrder : Enchant.MapOrder} {left : ItemStack}
    {right : Option ItemStack} {enchants : Enchant.Enchants}
    (hleft : Enchant.parseItemEnchants left.nbt = some enchants)
    (hright : Enchant.parseItemEnchants (right.bind (·.nbt)) = some ∅)
    (hdur : left.durability = some d) :
    AnvilKeeps rightOrder combinedOrder left right d ↔ d = 0 := by
  unfold AnvilKeeps
  rw [anvilOutput_repair hleft hright, hdur]
  constructor
  · intro hall
    obtain ⟨new, hnew, hle⟩ := hall _ _ rfl
    simp only [Option.map_some, Option.some.injEq] at hnew
    omega
  · rintro rfl result cost heq
    simp only [Option.some.injEq, Prod.mk.injEq] at heq
    rw [← heq.1]
    exact ⟨0, rfl, Nat.le_refl 0⟩

end Parts

/-- **Durability**, of an item with `d` of at most `m` left: damage and repair cancel only where
nothing is damaged or the item breaks; a repair, the mending and the anvil keep the durability only
where there is nothing to lose; and the item breaks exactly when the damages reach what is left. -/
theorem durability_law (inv : Inventory) (stack : ItemStack) (d m : Nat) (hheld : inv.held = some stack)
    (hdur : stack.durability = some d) (hdm : d ≤ m) :
    (∀ amount, GivesBack inv d amount ↔ amount = 0 ∨ d ≤ amount) ∧
      (∀ amount, NotWorn d m (inv.repairHeldItem amount).1 ↔ amount = 0 ∨ d = 0) ∧
      (∀ hasMending, hasEnchant stack.nbt "mending" = some hasMending →
        ∀ roll < 5, Mends inv d m (3 + roll) ↔ hasMending = false ∨ d = 0) ∧
      (∀ rightOrder combinedOrder right enchants,
        Enchant.parseItemEnchants stack.nbt = some enchants →
        Enchant.parseItemEnchants (right.bind (·.nbt)) = some ∅ →
          (AnvilKeeps rightOrder combinedOrder stack right d ↔ d = 0)) ∧
      ∀ amounts, (inv.damageAll amounts).2 = true ↔ amounts ≠ [] ∧ d ≤ amounts.sum := by
  have h : Holds inv stack d := ⟨hheld, hdur⟩
  refine ⟨h.givesBack_iff, h.notWorn_repair_iff hdm, ?_, ?_, h.damageAll_iff⟩
  · intro hasMending hm roll _
    exact h.mends_iff hdm hm (by omega)
  · intro rightOrder combinedOrder right enchants hleft hright
    exact anvilKeeps_iff hleft hright hdur

/-- A stone pickaxe of which 100 of 131 are left, in the hand. -/
def wornPickaxe : ItemStack := ⟨BlockState.new 786#32, 1, 1, none, some 100⟩

def pickaxeInHand : Inventory := ⟨Vector.replicate 36 (some wornPickaxe), none, Vector.replicate 4 none, 0⟩

theorem held_pickaxeInHand : pickaxeInHand.held = some wornPickaxe := rfl

theorem durability_pickaxe :
    (∀ amount, GivesBack pickaxeInHand 100 amount ↔ amount = 0 ∨ 100 ≤ amount) ∧
      ∀ amounts, (pickaxeInHand.damageAll amounts).2 = true ↔ amounts ≠ [] ∧ 100 ≤ amounts.sum := by
  have h := durability_law pickaxeInHand wornPickaxe 100 131 held_pickaxeInHand rfl (by omega)
  exact ⟨h.1, h.2.2.2.2⟩

/-- Damage of 10 and a repair of 10 leave 80, not 100. -/
theorem repair_wears :
    (pickaxeInHand.damageHeldItem 10).2 = false ∧
      ((pickaxeInHand.damageHeldItem 10).1.repairHeldItem 10).1.heldDurability = some 80 ∧
      ¬ GivesBack pickaxeInHand 100 10 := by
  have h : Holds pickaxeInHand wornPickaxe 100 := ⟨held_pickaxeInHand, rfl⟩
  refine ⟨by rw [h.damage_of_lt (by omega)], ?_, ?_⟩
  · rw [h.damage_of_lt (by omega), (h.write _).heldDurability_repair]
  · rw [h.givesBack_iff]
    omega

end Apoptotic.Commands.Inventory
