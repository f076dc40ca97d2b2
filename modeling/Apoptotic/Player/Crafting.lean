import Apoptotic.Player.RecipeGrids
import Apoptotic.Player.Items
import Apoptotic.Protocol.Packets
import Apoptotic.Server.Hoppers

/-!
# Crafting

The `PlaceRecipe` handler of `mc-network/src/play_loop.rs` with `remove_item_from_slot` and
`add_item_to_player` of `mc-player/src/player.rs`, and the crafter in the tick loop of
`mc-server/src/main.rs`.  What is consumed is worked out from the choice lists of the recipe, apart from
the cells in which it was matched.

Principal result: `crafting_law` — when a crafting takes the same number of items out of every cell and
hands over as many results.
-/

namespace Apoptotic.Crafting

open Bytes Outcome Commands Containers Recipes

/-- What crafting changes. -/
structure Bench where
  manager : ContainerManager
  inventory : Inventory

/-- A recipe that was matched: what is left when the ingredients are consumed, and how many results are
asked for. -/
structure Crafted where
  recipe : Recipe
  consumed : Bench
  count : Nat

def Crafted.result (c : Crafted) : BlockState := BlockState.new c.recipe.resultItem

/-- `add_item_to_player` -/
def Crafted.after (c : Crafted) : Bench :=
  { c.consumed with inventory := (c.consumed.inventory.addItem c.result c.count).1 }

/-- How many results are really added. -/
def Crafted.handed (c : Crafted) : Nat :=
  c.count - (c.consumed.inventory.addItem c.result c.count).2

/-- The slots of the two loops over the ingredients, with the choice that stands there: the place of an
ingredient in the list is taken for a row, and that of a choice for a column. -/
def places (recipe : Recipe) : List (Nat × ItemId) :=
  recipe.ingredients.zipIdx.flatMap fun (row, ry) =>
    row.zipIdx.map fun (acceptable, rx) => (1 + ry * recipe.width.toNat + rx, acceptable)

def slotOf (slots : List Slot) (i : Nat) : Slot := (slots[i]?).join

/-! ## The handler -/

/-- The grid of a crafting table. -/
def tableGrid (m : ContainerManager) : Grid 3 := Vector.ofFn fun i => m.getSlot 1 (i.val + 1)

def craft3x3 (recipes : List Recipe) (bench : Bench) : Outcome Unit (Option Crafted) := do
  let found ← findMatch3x3 recipes (tableGrid bench.manager)
  match found with
  | some (_, matched) =>
      let manager := (places matched).foldl (fun m p => m.setSlot 1 p.1 none) bench.manager
      pure (some ⟨matched, { bench with manager := manager }, matched.resultCount.toNat⟩)
  | none => pure none

/-- The grid of the inventory. -/
def handGrid (inventory : Inventory) : Grid 2 :=
  Vector.ofFn fun i => slotOf inventory.items.toList (i.val + 1)

def removeItemFromSlot (inventory : Inventory) (slot : Nat) (item : BlockState) (count : Nat) :
    Inventory :=
  match slotOf inventory.items.toList slot with
  | some stack =>
      if stack.item = item then
        let take := min count stack.count
        let newStack := { stack with count := stack.count - take }
        { inventory with
          items := inventory.items.setIfInBounds slot (if newStack.count > 0 then some newStack else none) }
      else inventory
  | none => inventory

def craft2x2 (recipes : List Recipe) (makeAll : Bool) (bench : Bench) : Outcome Unit (Option Crafted) := do
  let found ← findMatch recipes (handGrid bench.inventory)
  match found with
  | some (_, matched) =>
      let inventory := (places matched).foldl (fun inventory p =>
        if p.1 ≤ 4 then removeItemFromSlot inventory p.1 (BlockState.new p.2) 1 else inventory)
        bench.inventory
      let count :=
        if makeAll = true ∧ matched.resultCount.toNat > 1 then matched.resultCount.toNat * 2
        else matched.resultCount.toNat
      pure (some ⟨matched, { bench with inventory := inventory }, count⟩)
  | none => pure none

/-- The index in the packet is looked up, and what it names is not used. -/
def placeRecipe (recipes : List Recipe) (place : PlaceRecipe) (bench : Bench) :
    Outcome Unit (Option Crafted) :=
  if place.windowId > 1 then .ok none
  else
    match recipes[asUsize place.recipeIndex]? with
    | none => .ok none
    | some _ =>
        if place.windowId = 1 then craft3x3 recipes bench else craft2x2 recipes place.makeAll bench

/-! ## The crafter -/

/-- The containers, and what the items are that lie about and can be picked up. -/
structure Floor where
  manager : ContainerManager
  droppedItems : List ItemId

def crafterGrid (m : ContainerManager) (container : BitVec 8) : Grid 3 :=
  Vector.ofFn fun i => m.getSlot container i.val

/-- One of each slot is consumed. -/
def reduceSlot (container : BitVec 8) (m : ContainerManager) (s : Nat) : ContainerManager :=
  match m.getSlot container s with
  | some stack =>
      if stack.count ≤ 1 then m.setSlot container s none
      else m.setSlot container s (some { stack with count := stack.count - 1 })
  | none => m

/-- The result is a spawned entity that is not among the dropped items. -/
def crafter (recipes : List Recipe) (container : BitVec 8) (floor : Floor) :
    Outcome Unit (Option (Recipe × Floor)) := do
  let found ← findMatch3x3 recipes (crafterGrid floor.manager container)
  match found with
  | some (_, recipe) =>
      pure (some (recipe,
        { floor with manager := (List.range 9).foldl (reduceSlot container) floor.manager }))
  | none => pure none

/-! ## The law -/

/-- `k` units of what lies in each of the cells are gone, and nothing else. -/
def Takes (k : Nat) (cells : List Nat) (before after : List Slot) : Prop :=
  ∀ i kind, slotUnits kind (slotOf after i) +
    (if i ∈ cells then (slotOf before i).elim 0 fun stack => if stack.kind = kind then k else 0 else 0) =
      slotUnits kind (slotOf before i)

/-- From a crafting table: nothing but the cells of its window loses items. -/
def FairAtTable (bench : Bench) (c : Crafted) : Prop :=
  (∃ k, Takes k (List.range' 1 9) (bench.manager.allSlots 1) (c.consumed.manager.allSlots 1) ∧
      c.handed = k * c.recipe.resultCount.toNat) ∧
    c.consumed.inventory = bench.inventory ∧
      ∀ w, w ≠ 1 → c.consumed.manager.allSlots w = bench.manager.allSlots w

/-- From the inventory: nothing but its four cells loses items. -/
def FairInHand (bench : Bench) (c : Crafted) : Prop :=
  (∃ k, Takes k (List.range' 1 4) bench.inventory.items.toList c.consumed.inventory.items.toList ∧
      c.handed = k * c.recipe.resultCount.toNat) ∧
    c.consumed.inventory.offhand = bench.inventory.offhand ∧
      c.consumed.inventory.armor = bench.inventory.armor ∧ c.consumed.manager = bench.manager

/-- The packet is answered, and what is crafted is crafted fairly. -/
def PacketLaw (recipes : List Recipe) (place : PlaceRecipe) (bench : Bench) : Prop :=
  ∃ crafted, placeRecipe recipes place bench = .ok crafted ∧
    ∀ c ∈ crafted, if place.windowId = 1 then FairAtTable bench c else FairInHand bench c

/-- The crafter does the same, and its results can be picked up. -/
def CrafterLaw (recipes : List Recipe) (container : BitVec 8) (floor : Floor) : Prop :=
  ∃ crafted, crafter recipes container floor = .ok crafted ∧
    ∀ p ∈ crafted, ∃ k,
      Takes k (List.range 9) (floor.manager.allSlots container) (p.2.manager.allSlots container) ∧
        p.2.droppedItems.count p.1.resultItem =
          floor.droppedItems.count p.1.resultItem + k * p.1.resultCount.toNat

/-! ## The condition -/

/-- How many units the loops take, if there are as many: at the table all of a slot they reach, in the
inventory one each time a choice for the slot is the item in it, in the crafter one. -/
def reachedAtTable (recipe : Recipe) (i : Nat) (stack : ItemStack) : Nat :=
  if i ∈ (places recipe).map (·.1) then stack.count + 1 else 0

def reachedInHand (recipe : Recipe) (i : Nat) (stack : ItemStack) : Nat :=
  if i ≤ 4 then (places recipe).countP fun p => decide (p.1 = i ∧ BlockState.new p.2 = stack.item) else 0

def reachedByCrafter (i : Nat) (_ : ItemStack) : Nat := if i < 9 then 1 else 0

/-- Each cell loses `k` units, and no other slot any. -/
def Evenly (reached : Nat → ItemStack → Nat) (k : Nat) (cells : List Nat) (slots : List Slot) : Prop :=
  ∀ i stack, slotOf slots i = some stack →
    min (reached i stack) stack.count = if i ∈ cells then k else 0

/-- What is left of a stack without a number of units. -/
def without (t : Nat) (stack : ItemStack) : Slot :=
  if t = 0 then some stack
  else if stack.count ≤ t then none else some { stack with count := stack.count - t }

/-- The inventory when the loops have taken what they reach. -/
def leftInHand (recipe : Recipe) (inventory : Inventory) : Inventory :=
  { inventory with
    items := inventory.items.mapIdx fun i slot =>
      slot.bind fun stack => without (reachedInHand recipe i stack) stack }

/-- How many items of the kind that is made the inventory can take. -/
def capacity (inventory : Inventory) (item : BlockState) : Nat :=
  Inventory.room item inventory.items.toList + 64 * Inventory.empties inventory.items.toList

def ReadyAtTable (bench : Bench) (recipe : Recipe) : Prop :=
  ∃ k, Evenly (reachedAtTable recipe) k (List.range' 1 9) (bench.manager.allSlots 1) ∧
    min recipe.resultCount.toNat (capacity bench.inventory (BlockState.new recipe.resultItem)) =
      k * recipe.resultCount.toNat

/-- The number of results asked for. -/
def askedInHand (makeAll : Bool) (recipe : Recipe) : Nat :=
  if makeAll = true ∧ recipe.resultCount.toNat > 1 then recipe.resultCount.toNat * 2
  else recipe.resultCount.toNat

def ReadyInHand (bench : Bench) (makeAll : Bool) (recipe : Recipe) : Prop :=
  ∃ k, Evenly (reachedInHand recipe) k (List.range' 1 4) bench.inventory.items.toList ∧
    min (askedInHand makeAll recipe)
      (capacity (leftInHand recipe bench.inventory) (BlockState.new recipe.resultItem)) =
        k * recipe.resultCount.toNat

/-- The packet is for no window of these two or names no recipe; or the matcher answers, and a recipe that
it finds is ready. -/
def PacketReady (recipes : List Recipe) (place : PlaceRecipe) (bench : Bench) : Prop :=
  place.windowId > 1 ∨ recipes[asUsize place.recipeIndex]? = none ∨
    if place.windowId = 1 then
      ∃ found, findMatch3x3 recipes (tableGrid bench.manager) = .ok found ∧
        ∀ p ∈ found, ReadyAtTable bench p.2
    else
      ∃ found, findMatch recipes (handGrid bench.inventory) = .ok found ∧
        ∀ p ∈ found, ReadyInHand bench place.makeAll p.2

/-- The matcher answers, and a recipe that it finds makes nothing, or consumes nothing. -/
def CrafterReady (recipes : List Recipe) (container : BitVec 8) (floor : Floor) : Prop :=
  ∃ found, findMatch3x3 recipes (crafterGrid floor.manager container) = .ok found ∧
    ∀ p ∈ found, ∃ k, Evenly reachedByCrafter k (List.range 9) (floor.manager.allSlots container) ∧
      k * p.2.resultCount.toNat = 0

/-! ## What the loops take -/

variable {slots before after : List Slot} {k : Nat} {cells : List Nat} {recipe : Recipe}

theorem slotOf_set (slots : List Slot) (i j : Nat) (o : Slot) :
    slotOf (slots.set i o) j = if i = j ∧ j < slots.length then o else slotOf slots j := by
  unfold slotOf
  rw [List.getElem?_set]
  by_cases hij : i = j
  · subst hij
    by_cases hlt : i < slots.length
    · simp [hlt]
    · simp [hlt]
  · simp [hij]

theorem without_zero (stack : ItemStack) : without 0 stack = some stack := rfl

theorem without_of_le {t : Nat} {stack : ItemStack} (ht : t ≠ 0) (h : stack.count ≤ t) :
    without t stack = none := by
  rw [without, if_neg ht, if_pos h]

theorem without_of_lt {t : Nat} {stack : ItemStack} (ht : t ≠ 0) (h : t < stack.count) :
    without t stack = some { stack with count := stack.count - t } := by
  rw [without, if_neg ht, if_neg (Nat.not_le.2 h)]

theorem units_without (kind : Kind) (t : Nat) (stack : ItemStack) :
    slotUnits kind (without t stack) = if stack.kind = kind then stack.count - t else 0 := by
  by_cases ht : t = 0
  · rw [ht, without_zero]
    rfl
  · by_cases hall : stack.count ≤ t
    · rw [without_of_le ht hall, slotUnits_none, Nat.sub_eq_zero_of_le hall, ite_self]
    · rw [without_of_lt ht (Nat.not_le.1 hall), slotUnits_some, units_withCount]

/-- **What is taken is even** exactly when each cell loses as much and no other slot any. -/
theorem takes_iff {reached : Nat → ItemStack → Nat}
    (hafter : ∀ i, slotOf after i =
      (slotOf before i).bind fun stack => without (reached i stack) stack) :
    Takes k cells before after ↔ Evenly reached k cells before := by
  unfold Takes Evenly
  refine forall_congr' fun i => ?_
  rw [hafter i]
  cases hslot : slotOf before i with
  | none =>
      refine iff_of_true (fun kind => ?_) nofun
      simp
  | some stack =>
      simp only [Option.bind_some, Option.elim_some, Option.some.injEq, forall_eq', units_without,
        slotUnits_some, ItemStack.units]
      constructor
      · intro h
        have hself := h stack.kind
        simp only [if_true] at hself
        split at hself <;> rename_i hcell
        · rw [if_pos hcell]
          omega
        · rw [if_neg hcell]
          omega
      · intro h kind
        by_cases hkind : stack.kind = kind
        · simp only [if_pos hkind]
          split at h <;> rename_i hcell
          · rw [if_pos hcell]
            omega
          · rw [if_neg hcell]
            omega
        · simp only [if_neg hkind, ite_self]

/-! ## The loops -/

theorem slotOf_clear (ps : List (Nat × ItemId)) (slots : List Slot) (i : Nat) :
    slotOf (ps.foldl (fun slots p => slots.set p.1 none) slots) i =
      if i ∈ ps.map (·.1) then none else slotOf slots i := by
  induction ps generalizing slots with
  | nil => rfl
  | cons p ps ih =>
      rw [List.foldl_cons, ih, slotOf_set, List.map_cons]
      by_cases hlater : i ∈ ps.map (·.1)
      · rw [if_pos hlater, if_pos (List.mem_cons_of_mem _ hlater)]
      · rw [if_neg hlater]
        by_cases hp : p.1 = i
        · have hmem : i ∈ p.1 :: ps.map (·.1) := by
            rw [hp]
            exact List.mem_cons_self
          rw [if_pos hmem]
          by_cases hlt : i < slots.length
          · rw [if_pos ⟨hp, hlt⟩]
          · rw [if_neg fun h => hlt h.2, slotOf, List.getElem?_eq_none (Nat.le_of_not_lt hlt)]
            rfl
        · rw [if_neg fun h => hp h.1, if_neg]
          rw [List.mem_cons]
          exact fun h => h.elim (fun e => hp e.symm) hlater

theorem allSlots_clear (ps : List (Nat × ItemId)) (m : ContainerManager) :
    (ps.foldl (fun m p => m.setSlot 1 p.1 none) m).allSlots 1 =
        ps.foldl (fun slots p => slots.set p.1 none) (m.allSlots 1) ∧
      ∀ w, w ≠ 1 → (ps.foldl (fun m p => m.setSlot 1 p.1 none) m).allSlots w = m.allSlots w := by
  induction ps generalizing m with
  | nil => exact ⟨rfl, fun _ _ => rfl⟩
  | cons p ps ih =>
      have hrest := ih (m.setSlot 1 p.1 none)
      rw [List.foldl_cons, List.foldl_cons, hrest.1, Hopper.allSlots_setSlot]
      refine ⟨rfl, fun w hw => ?_⟩
      rw [hrest.2 w hw, Hopper.allSlots_setSlot_of_ne hw]

/-- The table loses all of what the loops reach. -/
theorem slotOf_table (recipe : Recipe) (m : ContainerManager) (i : Nat) :
    slotOf (((places recipe).foldl (fun m p => m.setSlot 1 p.1 none) m).allSlots 1) i =
      (slotOf (m.allSlots 1) i).bind fun stack => without (reachedAtTable recipe i stack) stack := by
  rw [(allSlots_clear _ m).1, slotOf_clear]
  unfold reachedAtTable
  cases slotOf (m.allSlots 1) i with
  | none => simp
  | some stack =>
      rw [Option.bind_some]
      by_cases hreached : i ∈ (places recipe).map (·.1)
      · rw [if_pos hreached, if_pos hreached, without_of_le (by omega) (by omega)]
      · rw [if_neg hreached, if_neg hreached, without_zero]

/-- One unit less of an item, if it is that item. -/
def takeOne (item : BlockState) (stack : ItemStack) : Slot :=
  if stack.item = item then without 1 stack else some stack

theorem slotOf_remove (inventory : Inventory) (slot i : Nat) (item : BlockState) :
    slotOf (removeItemFromSlot inventory slot item 1).items.toList i =
      if slot = i then (slotOf inventory.items.toList i).bind (takeOne item)
      else slotOf inventory.items.toList i := by
  unfold removeItemFromSlot
  cases hslot : slotOf inventory.items.toList slot with
  | none =>
      by_cases hi : slot = i
      · subst hi
        rw [if_pos rfl, hslot]
        rfl
      · rw [if_neg hi]
  | some stack =>
      dsimp only
      by_cases hitem : stack.item = item
      · rw [if_pos hitem]
        have hset : ∀ o, (inventory.items.setIfInBounds slot o).toList = inventory.items.toList.set slot o := by
          intro o
          simp
        rw [hset, slotOf_set]
        by_cases hi : slot = i
        · subst hi
          have hlt : slot < inventory.items.toList.length := by
            by_contra hout
            rw [slotOf, List.getElem?_eq_none (Nat.le_of_not_lt hout)] at hslot
            cases hslot
          rw [if_pos ⟨rfl, hlt⟩, if_pos rfl, hslot, Option.bind_some, takeOne, if_pos hitem]
          by_cases hone : stack.count ≤ 1
          · have hgone : ¬ stack.count - min 1 stack.count > 0 := by omega
            rw [if_neg hgone, without_of_le (by decide) hone]
          · have hleft : stack.count - min 1 stack.count > 0 := by omega
            rw [if_pos hleft, without_of_lt (by decide) (by omega), Nat.min_eq_left (by omega)]
        · rw [if_neg fun h => hi h.1, if_neg hi]
      · rw [if_neg hitem]
        by_cases hi : slot = i
        · subst hi
          rw [if_pos rfl, hslot, Option.bind_some, takeOne, if_neg hitem]
        · rw [if_neg hi]

/-- One unit less, and then more. -/
theorem without_succ (t : Nat) (stack : ItemStack) (reached : BlockState → Nat)
    (ht : reached stack.item = t) :
    ((without 1 stack).bind fun left => without (reached left.item) left) = without (t + 1) stack := by
  by_cases hone : stack.count ≤ 1
  · rw [without_of_le (by decide) hone, without_of_le (by omega) (by omega)]
    rfl
  · rw [without_of_lt (by decide) (by omega), Option.bind_some, ht]
    by_cases hzero : t = 0
    · rw [hzero, without_zero, without_of_lt (by decide) (by omega)]
    · by_cases hall : stack.count ≤ t + 1
      · rw [without_of_le hzero (by simp only; omega), without_of_le (by omega) hall]
      · rw [without_of_lt hzero (by simp only; omega), without_of_lt (by omega) (by omega)]
        simp only [Nat.sub_sub, Nat.add_comm 1 t]

/-- The loop over the ingredients in the inventory. -/
def takeAll (ps : List (Nat × ItemId)) (inventory : Inventory) : Inventory :=
  ps.foldl (fun inventory p =>
    if p.1 ≤ 4 then removeItemFromSlot inventory p.1 (BlockState.new p.2) 1 else inventory) inventory

/-- How often the loop asks for an item in a slot. -/
def asked (ps : List (Nat × ItemId)) (i : Nat) (item : BlockState) : Nat :=
  if i ≤ 4 then ps.countP fun p => decide (p.1 = i ∧ BlockState.new p.2 = item) else 0

theorem asked_cons (p : Nat × ItemId) (ps : List (Nat × ItemId)) (i : Nat) (item : BlockState) :
    asked (p :: ps) i item =
      asked ps i item + if i ≤ 4 ∧ p.1 = i ∧ BlockState.new p.2 = item then 1 else 0 := by
  unfold asked
  rw [List.countP_cons]
  by_cases hi : i ≤ 4
  · simp [hi]
  · simp [hi]

theorem slotOf_takeAll (ps : List (Nat × ItemId)) (inventory : Inventory) (i : Nat) :
    slotOf (takeAll ps inventory).items.toList i =
      (slotOf inventory.items.toList i).bind fun stack => without (asked ps i stack.item) stack := by
  induction ps generalizing inventory with
  | nil =>
      have hnone : ∀ item, asked [] i item = 0 := fun _ => ite_self 0
      simp only [hnone, without_zero]
      exact (Option.bind_fun_some _).symm
  | cons p ps ih =>
      have hstep : takeAll (p :: ps) inventory = takeAll ps
          (if p.1 ≤ 4 then removeItemFromSlot inventory p.1 (BlockState.new p.2) 1 else inventory) := rfl
      have hslot : slotOf (if p.1 ≤ 4 then removeItemFromSlot inventory p.1 (BlockState.new p.2) 1
          else inventory).items.toList i =
            if i ≤ 4 ∧ p.1 = i then (slotOf inventory.items.toList i).bind (takeOne (BlockState.new p.2))
            else slotOf inventory.items.toList i := by
        by_cases hp : p.1 ≤ 4
        · rw [if_pos hp, slotOf_remove]
          exact if_congr ⟨fun h => ⟨by omega, h⟩, fun h => h.2⟩ rfl rfl
        · rw [if_neg hp, if_neg (by omega)]
      rw [hstep, ih, hslot]
      cases slotOf inventory.items.toList i with
      | none => split <;> rfl
      | some stack =>
          simp only [Option.bind_some]
          by_cases hhere : i ≤ 4 ∧ p.1 = i
          · rw [if_pos hhere, takeOne, asked_cons]
            by_cases hitem : stack.item = BlockState.new p.2
            · rw [if_pos hitem, if_pos ⟨hhere.1, hhere.2, hitem.symm⟩]
              exact without_succ _ stack (asked ps i) rfl
            · rw [if_neg hitem, if_neg fun h => hitem h.2.2.symm]
              rfl
          · rw [if_neg hhere, asked_cons, if_neg fun h => hhere ⟨h.1, h.2.1⟩]
            rfl

theorem takeAll_other (ps : List (Nat × ItemId)) (inventory : Inventory) :
    (takeAll ps inventory).offhand = inventory.offhand ∧
      (takeAll ps inventory).armor = inventory.armor ∧
        (takeAll ps inventory).selectedSlot = inventory.selectedSlot := by
  induction ps generalizing inventory with
  | nil => exact ⟨rfl, rfl, rfl⟩
  | cons p ps ih =>
      have hstep : takeAll (p :: ps) inventory = takeAll ps
          (if p.1 ≤ 4 then removeItemFromSlot inventory p.1 (BlockState.new p.2) 1 else inventory) := rfl
      have hkept : ∀ slot item, (removeItemFromSlot inventory slot item 1).offhand = inventory.offhand ∧
          (removeItemFromSlot inventory slot item 1).armor = inventory.armor ∧
            (removeItemFromSlot inventory slot item 1).selectedSlot = inventory.selectedSlot := by
        intro slot item
        unfold removeItemFromSlot
        split
        · split <;> exact ⟨rfl, rfl, rfl⟩
        · exact ⟨rfl, rfl, rfl⟩
      rw [hstep]
      split
      · have hrest := ih (removeItemFromSlot inventory p.1 (BlockState.new p.2) 1)
        have hfirst := hkept p.1 (BlockState.new p.2)
        exact ⟨hrest.1.trans hfirst.1, hrest.2.1.trans hfirst.2.1, hrest.2.2.trans hfirst.2.2⟩
      · exact ih inventory

theorem items_ext {n : Nat} {a b : Vector Slot n} (h : ∀ i, slotOf a.toList i = slotOf b.toList i) :
    a = b := by
  refine Vector.ext fun i hi => ?_
  have hi' := h i
  unfold slotOf at hi'
  rw [Vector.getElem?_toList, Vector.getElem?_toList, Vector.getElem?_eq_getElem hi,
    Vector.getElem?_eq_getElem hi] at hi'
  exact hi'

/-- What is left in the inventory when the loop is done. -/
theorem takeAll_eq (recipe : Recipe) (inventory : Inventory) :
    takeAll (places recipe) inventory = leftInHand recipe inventory := by
  have hitems : (takeAll (places recipe) inventory).items = (leftInHand recipe inventory).items := by
    refine items_ext fun i => ?_
    rw [slotOf_takeAll]
    unfold leftInHand slotOf
    rw [Vector.getElem?_toList, Vector.getElem?_toList, Vector.getElem?_mapIdx]
    cases inventory.items[i]? with
    | none => rfl
    | some slot => rfl
  have hother := takeAll_other (places recipe) inventory
  generalize takeAll (places recipe) inventory = left at hitems hother
  obtain ⟨items, offhand, armor, selectedSlot⟩ := left
  obtain ⟨rfl, rfl, rfl⟩ := hother
  dsimp only at hitems
  subst hitems
  rfl

theorem slotOf_reduce (container : BitVec 8) (m : ContainerManager) (s i : Nat) :
    slotOf ((reduceSlot container m s).allSlots container) i =
      if s = i then (slotOf (m.allSlots container) i).bind (without 1)
      else slotOf (m.allSlots container) i := by
  unfold reduceSlot
  have hget : m.getSlot container s = slotOf (m.allSlots container) s := rfl
  rw [hget]
  cases hslot : slotOf (m.allSlots container) s with
  | none =>
      by_cases hi : s = i
      · subst hi
        rw [if_pos rfl, hslot]
        rfl
      · rw [if_neg hi]
  | some stack =>
      have hlt : s < (m.allSlots container).length := by
        by_contra hout
        rw [slotOf, List.getElem?_eq_none (Nat.le_of_not_lt hout)] at hslot
        cases hslot
      dsimp only
      by_cases hone : stack.count ≤ 1
      · rw [if_pos hone, Hopper.allSlots_setSlot, slotOf_set]
        by_cases hi : s = i
        · subst hi
          rw [if_pos ⟨rfl, hlt⟩, if_pos rfl, hslot, Option.bind_some, without_of_le (by decide) hone]
        · rw [if_neg fun h => hi h.1, if_neg hi]
      · rw [if_neg hone, Hopper.allSlots_setSlot, slotOf_set]
        by_cases hi : s = i
        · subst hi
          rw [if_pos ⟨rfl, hlt⟩, if_pos rfl, hslot, Option.bind_some, without_of_lt (by decide) (by omega)]
        · rw [if_neg fun h => hi h.1, if_neg hi]

/-- The crafter takes one of each slot. -/
theorem slotOf_crafter (container : BitVec 8) (m : ContainerManager) (n i : Nat) :
    slotOf (((List.range n).foldl (reduceSlot container) m).allSlots container) i =
      (slotOf (m.allSlots container) i).bind fun stack => without (if i < n then 1 else 0) stack := by
  induction n with
  | zero => exact (Option.bind_fun_some _).symm
  | succ n ih =>
      rw [List.range_succ, List.foldl_append, List.foldl_cons, List.foldl_nil, slotOf_reduce, ih]
      by_cases hi : n = i
      · subst hi
        rw [if_pos rfl]
        simp only [Nat.lt_irrefl, if_false, without_zero, Nat.lt_succ_self, if_true]
        cases slotOf (m.allSlots container) n <;> rfl
      · rw [if_neg hi]
        have hiff : i < n ↔ i < n + 1 := by omega
        simp only [hiff]

/-! ## What is handed over -/

/-- As many results are added as the inventory has room for. -/
theorem handed_eq (c : Crafted) :
    c.handed = min c.count (capacity c.consumed.inventory c.result) := by
  unfold Crafted.handed capacity
  rw [Inventory.snd_addItem]
  omega

/-! ## The law holds -/

theorem fairAtTable_iff (bench : Bench) (recipe : Recipe) :
    FairAtTable bench ⟨recipe,
        { bench with
          manager := (places recipe).foldl (fun m p => m.setSlot 1 p.1 none) bench.manager },
        recipe.resultCount.toNat⟩ ↔ ReadyAtTable bench recipe := by
  unfold FairAtTable ReadyAtTable
  refine (and_iff_left ⟨rfl, (allSlots_clear (places recipe) bench.manager).2⟩).trans ?_
  refine exists_congr fun k => and_congr (takes_iff fun i => slotOf_table recipe bench.manager i) ?_
  rw [handed_eq]
  rfl

theorem fairInHand_iff (bench : Bench) (makeAll : Bool) (recipe : Recipe) :
    FairInHand bench ⟨recipe, { bench with inventory := takeAll (places recipe) bench.inventory },
        askedInHand makeAll recipe⟩ ↔ ReadyInHand bench makeAll recipe := by
  unfold FairInHand ReadyInHand
  have hother := takeAll_other (places recipe) bench.inventory
  refine (and_iff_left ⟨hother.1, hother.2.1, rfl⟩).trans ?_
  refine exists_congr fun k => and_congr (takes_iff fun i => ?_) ?_
  · exact slotOf_takeAll (places recipe) bench.inventory i
  · rw [handed_eq]
    dsimp only
    rw [takeAll_eq]
    rfl

/-- What holds of an answer, whatever is found. -/
theorem answered_iff {γ δ : Type} {found : Outcome Unit (Option γ)} {make : γ → δ} {P : δ → Prop} :
    (∃ crafted, (found >>= fun found => .ok (found.map make)) = .ok crafted ∧ ∀ c ∈ crafted, P c) ↔
      ∃ answer, found = .ok answer ∧ ∀ g ∈ answer, P (make g) := by
  cases found with
  | ok answer => cases answer <;> simp
  | err e => simp
  | panic => simp

theorem craft3x3_eq (recipes : List Recipe) (bench : Bench) :
    craft3x3 recipes bench = findMatch3x3 recipes (tableGrid bench.manager) >>= fun found =>
      .ok (found.map fun p => ⟨p.2,
        { bench with manager := (places p.2).foldl (fun m p => m.setSlot 1 p.1 none) bench.manager },
        p.2.resultCount.toNat⟩) := by
  unfold craft3x3
  congr 1
  funext found
  cases found <;> rfl

theorem craft2x2_eq (recipes : List Recipe) (makeAll : Bool) (bench : Bench) :
    craft2x2 recipes makeAll bench = findMatch recipes (handGrid bench.inventory) >>= fun found =>
      .ok (found.map fun p => ⟨p.2, { bench with inventory := takeAll (places p.2) bench.inventory },
        askedInHand makeAll p.2⟩) := by
  unfold craft2x2
  congr 1
  funext found
  cases found <;> rfl

theorem crafter_eq (recipes : List Recipe) (container : BitVec 8) (floor : Floor) :
    crafter recipes container floor =
      findMatch3x3 recipes (crafterGrid floor.manager container) >>= fun found =>
        .ok (found.map fun p => (p.2,
          { floor with manager := (List.range 9).foldl (reduceSlot container) floor.manager })) := by
  unfold crafter
  congr 1
  funext found
  cases found <;> rfl

theorem packetLaw_iff (recipes : List Recipe) (place : PlaceRecipe) (bench : Bench) :
    PacketLaw recipes place bench ↔ PacketReady recipes place bench := by
  unfold PacketLaw PacketReady placeRecipe
  by_cases hother : place.windowId > 1
  · rw [if_pos hother]
    exact iff_of_true ⟨none, rfl, nofun⟩ (.inl hother)
  · rw [if_neg hother, or_iff_right hother]
    cases hlookup : recipes[asUsize place.recipeIndex]? with
    | none => exact iff_of_true ⟨none, rfl, nofun⟩ (.inl rfl)
    | some named =>
        rw [or_iff_right (by simp)]
        dsimp only
        by_cases htable : place.windowId = 1
        · simp only [if_pos htable, craft3x3_eq, answered_iff, fairAtTable_iff]
        · simp only [if_neg htable, craft2x2_eq, answered_iff, fairInHand_iff]

theorem crafterLaw_iff (recipes : List Recipe) (container : BitVec 8) (floor : Floor) :
    CrafterLaw recipes container floor ↔ CrafterReady recipes container floor := by
  have htakes : ∀ k, Takes k (List.range 9) (floor.manager.allSlots container)
      (((List.range 9).foldl (reduceSlot container) floor.manager).allSlots container) ↔
        Evenly reachedByCrafter k (List.range 9) (floor.manager.allSlots container) :=
    fun k => takes_iff fun i => slotOf_crafter container floor.manager 9 i
  have hgain : ∀ a b : Nat, a = a + b ↔ b = 0 := by omega
  unfold CrafterLaw CrafterReady
  rw [crafter_eq, answered_iff]
  simp only [htakes, hgain]

/-- **When crafting is fair**: every cell loses the same number of items, no other slot any, and as many
results are handed over, exactly when the loops over the recipe reach the cells that evenly and the
inventory has room; and of the crafter only when nothing is consumed, or made. -/
theorem crafting_law (recipes : List Recipe) (place : PlaceRecipe) (bench : Bench)
    (container : BitVec 8) (floor : Floor) :
    (PacketLaw recipes place bench ↔ PacketReady recipes place bench) ∧
      (CrafterLaw recipes container floor ↔ CrafterReady recipes container floor) :=
  ⟨packetLaw_iff recipes place bench, crafterLaw_iff recipes container floor⟩

/-- Four sticks from oak or spruce planks, one above the other. -/
def sticks : Recipe := ⟨1, 2, false, [[13, 14], [13, 14]], 974, 4⟩

/-- Oak planks in the left cells of the inventory grid. -/
def twoPlanks : Bench where
  manager := ContainerManager.new
  inventory :=
    { Inventory.new with
      items := (Inventory.new.items.setIfInBounds 1 (some (stackOf 13))).setIfInBounds 3
        (some (stackOf 13)) }

def fourPlanks : Recipe := ⟨1, 1, false, [[34]], 13, 4⟩

def oneLog : Floor := ⟨Hopper.twoWindows [some (stackOf 34)] [], []⟩

/-- The sticks cost one plank of the two, and what a crafter makes of a log cannot be picked up. -/
theorem crafting_unfair :
    ¬ PacketLaw [sticks] ⟨0, 0, false⟩ twoPlanks ∧ ¬ CrafterLaw [fourPlanks] 1 oneLog := by
  constructor
  · have hfound : findMatch [sticks] (handGrid twoPlanks.inventory) = .ok (some (0, sticks)) := rfl
    rw [packetLaw_iff]
    rintro (hother | hnone | hready)
    · exact absurd hother (by decide)
    · cases hnone
    · rw [if_neg (by decide), hfound] at hready
      obtain ⟨found, hok, hall⟩ := hready
      obtain rfl := Outcome.ok.inj hok
      obtain ⟨k, heven, _⟩ := hall _ rfl
      have hone : 1 = k := heven 1 (stackOf 13) rfl
      have hnone : 0 = k := heven 3 (stackOf 13) rfl
      omega
  · have hfound : findMatch3x3 [fourPlanks] (crafterGrid oneLog.manager 1) =
        .ok (some (0, fourPlanks)) := rfl
    rw [crafterLaw_iff]
    rintro ⟨found, hok, hall⟩
    rw [hfound] at hok
    obtain rfl := Outcome.ok.inj hok
    obtain ⟨k, heven, hnothing⟩ := hall _ rfl
    have hone : 1 = k := heven 0 (stackOf 34) rfl
    subst hone
    exact absurd hnothing (by decide)

end Apoptotic.Crafting
