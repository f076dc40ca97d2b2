import Apoptotic.Player.Items

/-!
# Clicks in a container

The default branch of the `ContainerClick` handler of `mc-network/src/play_loop.rs`, for a slot
that passed the check `0 <= slot < 100` and a player who is online.  A window that is no longer
there is one without slots.  The row that a drop leaves in the table of dropped items has no count;
here the dropped stack stands beside it.

Principal result: `conserved_click_iff` — a click moves items without making or losing any, and
leaves everything alone when the container has no such slot, exactly when it is `Harmless`.
-/

namespace Apoptotic.Commands

/-- What a click reads and writes. -/
structure ClickState where
  slots : List (Option ItemStack)
  inventory : Inventory
  cursor : Option ItemStack
  /-- The stacks that were dropped, latest first. -/
  dropped : List ItemStack

structure Click where
  slot : Nat
  button : Nat
  mode : Int

namespace ClickState

variable (s : ClickState) (i button : Nat)

def getSlot : Option ItemStack := s.slots[i]?.join

/-- `ContainerManager::set_slot` -/
def setSlot (item : Option ItemStack) : ClickState := { s with slots := s.slots.set i item }

def setCursorItem (item : Option ItemStack) : ClickState := { s with cursor := item }

def getInventorySlot : Option ItemStack := s.inventory.items[i]?.join

def setInventorySlot (item : Option ItemStack) : ClickState :=
  { s with inventory := { s.inventory with items := s.inventory.items.setIfInBounds i item } }

/-! ## The modes -/

/-- Swap cursor and slot. -/
def leftClick : ClickState := (s.setSlot i s.cursor).setCursorItem (s.getSlot i)

/-- The cursor after one item went from it. -/
def lessOne (cur : ItemStack) : Option ItemStack :=
  if 1 < cur.count then some { cur with count := cur.count - 1 } else none

/-- Take half or place one. -/
def rightClick : ClickState :=
  match s.cursor, s.getSlot i with
  | some cur, some item =>
      if item.item.id = cur.item.id ∧ item.count < item.maxCount then
        (s.setSlot i (some { item with count := min (item.count + 1) item.maxCount })).setCursorItem
          (lessOne cur)
      else s
  | some cur, none => (s.setSlot i (some { cur with count := 1 })).setCursorItem (lessOne cur)
  | none, some item =>
      let half := (item.count + 1) / 2
      (s.setCursorItem (some { item with count := half })).setSlot i
        (if half < item.count then some { item with count := item.count - half } else none)
  | none, none => s

/-- Quick transfer to the inventory.  What did not fit is not asked for. -/
def shiftClick : ClickState :=
  match s.getSlot i with
  | some item =>
      { s with inventory := (s.inventory.addItem item.item item.count).1 }.setSlot i none
  | none => s

/-- Swap with a slot of the hotbar. -/
def hotbarSwap : ClickState :=
  if button < 9 then
    (s.setSlot i (s.getInventorySlot button)).setInventorySlot button (s.getSlot i)
  else s

/-- Drop one, or the stack. -/
def drop : ClickState :=
  match s.getSlot i with
  | some item =>
      let dropCount := if button = 0 then 1 else item.count
      let remaining := item.count - dropCount
      { s.setSlot i (if 0 < remaining then some { item with count := remaining } else none) with
        dropped := { item with count := dropCount } :: s.dropped }
  | none => s

/-- A start or a slot of a drag swaps, its end places a quarter of the cursor. -/
def drag : ClickState :=
  if button ≤ 3 then s.leftClick i
  else
    match s.cursor with
    | none => s
    | some cur =>
        let toPlace := min ((cur.count + 3) / 4) cur.count
        let placed := if (s.getSlot i).isNone ∧ 0 < toPlace then toPlace else 0
        let t := if 0 < placed then s.setSlot i (some { cur with count := placed }) else s
        t.setCursorItem
          (if 0 < cur.count - placed then some { cur with count := cur.count - placed } else none)

/-- Onto the cursor from every slot with its item, until it is full: the slots and the count. -/
def collect (cur : ItemStack) : Nat → List (Option ItemStack) → List (Option ItemStack) × Nat
  | collected, [] => ([], collected)
  | collected, none :: slots => (none :: (collect cur collected slots).1,
      (collect cur collected slots).2)
  | collected, some item :: slots =>
      if item.item.id = cur.item.id ∧ collected < cur.maxCount then
        let toTake := min item.count (cur.maxCount - collected)
        let rest := collect cur (collected + toTake) slots
        ((if 0 < item.count - toTake then some { item with count := item.count - toTake }
          else none) :: rest.1, rest.2)
      else (some item :: (collect cur collected slots).1, (collect cur collected slots).2)

/-- Collect matching items, whatever the slot. -/
def doubleClick : ClickState :=
  match s.cursor with
  | some cur =>
      let collected := collect cur cur.count s.slots
      { s with
        slots := collected.1
        cursor := some { cur with count := min collected.2 cur.maxCount } }
  | none => s

def click (c : Click) : ClickState :=
  match c.mode with
  | 0 => if c.button = 0 then s.leftClick c.slot else s.rightClick c.slot
  | 1 => s.shiftClick c.slot
  | 2 => s.hotbarSwap c.slot c.button
  | 4 => s.drop c.slot c.button
  | 5 => s.drag c.slot c.button
  | 6 => s.doubleClick
  | _ => s

/-! ## Conservation -/

/-- How many items of a kind there are, a dropped stack with its full count. -/
def units (k : Kind) : Nat :=
  countOf k s.slots + s.inventory.units k + slotUnits k s.cursor +
    (s.dropped.map (ItemStack.units k)).sum

/-- From `s` to `t` no item is made or lost, and nothing changes when the container has no slot
    `i`. -/
structure Conserved (s t : ClickState) (i : Nat) : Prop where
  units_eq : ∀ k, t.units k = s.units k
  outside : s.slots.length ≤ i → t = s

/-- A swap needs a slot to put the cursor into. -/
def SwapOk : Prop := i < s.slots.length ∨ s.cursor = none

/-- One item goes onto a stack of its own kind, or into a slot that is there. -/
def RightOk : Prop :=
  match s.cursor, s.getSlot i with
  | some cur, some item => item.item.id = cur.item.id → item.count < item.maxCount →
      item.kind = cur.kind ∧ 1 ≤ cur.count
  | some cur, none => i < s.slots.length ∧ 1 ≤ cur.count
  | none, _ => True

/-- The inventory can take the stack in as it is. -/
def ShiftOk : Prop := ∀ item, s.getSlot i = some item → s.inventory.Fits item.kind item.count

/-- A swap with the hotbar needs a slot to put its item into. -/
def HotbarOk : Prop :=
  i < s.slots.length ∨ 9 ≤ button ∨ s.getInventorySlot button = none

/-- One item is dropped of a stack that has one. -/
def DropOk : Prop := ∀ item, s.getSlot i = some item → button = 0 → 1 ≤ item.count

/-- Everything that is collected is of the cursor's kind. -/
def CollectsAlike (cur : ItemStack) : Nat → List (Option ItemStack) → Prop
  | _, [] => True
  | collected, none :: slots => CollectsAlike cur collected slots
  | collected, some item :: slots =>
      if item.item.id = cur.item.id ∧ collected < cur.maxCount then
        (0 < item.count → item.kind = cur.kind) ∧
          CollectsAlike cur (collected + min item.count (cur.maxCount - collected)) slots
      else CollectsAlike cur collected slots

/-- The cursor is no overfull stack and collects its own kind; a slot outside the container is only
    clicked when there is nothing to collect. -/
def DoubleOk : Prop :=
  ∀ cur, s.cursor = some cur →
    cur.count ≤ cur.maxCount ∧ CollectsAlike cur cur.count s.slots ∧
      (i < s.slots.length ∨ cur.count = cur.maxCount ∨
        ∀ item, some item ∈ s.slots → item.item.id ≠ cur.item.id)

/-- The clicks that neither make nor lose an item. -/
def Harmless (c : Click) : Prop :=
  match c.mode with
  | 0 => if c.button = 0 then s.SwapOk c.slot else s.RightOk c.slot
  | 1 => s.ShiftOk c.slot
  | 2 => s.HotbarOk c.slot c.button
  | 4 => s.DropOk c.slot c.button
  | 5 => s.SwapOk c.slot
  | 6 => s.DoubleOk c.slot
  | _ => True

/-! ## The parts of a state -/

section

variable {s : ClickState} {i button : Nat} {k : Kind} {item cur : ItemStack}

theorem lt_of_getSlot (h : s.getSlot i = some item) : i < s.slots.length := by
  by_contra hi
  rw [getSlot, List.getElem?_eq_none (Nat.le_of_not_lt hi)] at h
  cases h

theorem getSlot_of_le (h : s.slots.length ≤ i) : s.getSlot i = none := by
  rw [getSlot, List.getElem?_eq_none h]
  rfl

theorem countOf_setSlot (hi : i < s.slots.length) (o : Option ItemStack) :
    countOf k (s.slots.set i o) + slotUnits k (s.getSlot i) = countOf k s.slots + slotUnits k o :=
  countOf_set k hi o

theorem set_slots_of_le (h : s.slots.length ≤ i) (o : Option ItemStack) :
    s.slots.set i o = s.slots :=
  List.set_eq_of_length_le h

/-- What is left on a stack counts, whatever the test for an empty stack is. -/
theorem slotUnits_left {p : Prop} [Decidable p] {n : Nat} (h : ¬p → n = 0) :
    slotUnits k (if p then some { item with count := n } else none) =
      if item.kind = k then n else 0 := by
  by_cases hp : p
  · rw [if_pos hp, slotUnits_some, units_withCount]
  · rw [if_neg hp, slotUnits_none, h hp, ite_self]

theorem slotUnits_lessOne :
    slotUnits k (lessOne cur) = if cur.kind = k then cur.count - 1 else 0 :=
  slotUnits_left fun h => by omega

theorem lessOne_ne (cur : ItemStack) : lessOne cur ≠ some cur := by
  unfold lessOne
  intro h
  split at h
  · have hcount : cur.count - 1 = cur.count := congrArg ItemStack.count (Option.some.inj h)
    omega
  · cases h

/-- A click on a slot that is there only has to keep the numbers. -/
theorem conserved_of_lt {t : ClickState} (hi : i < s.slots.length) :
    Conserved s t i ↔ ∀ k, t.units k = s.units k :=
  ⟨fun h => h.units_eq, fun h => ⟨h, fun hle => absurd hi (Nat.not_lt_of_le hle)⟩⟩

/-- A click outside the container has to leave everything alone. -/
theorem conserved_of_le {t : ClickState} (hi : s.slots.length ≤ i) : Conserved s t i ↔ t = s :=
  ⟨fun h => h.outside hi, fun h => ⟨fun _ => by rw [h], fun _ => h⟩⟩

theorem conserved_self : Conserved s s i := ⟨fun _ => rfl, fun _ => rfl⟩

/-! ## Mode by mode -/

theorem conserved_leftClick_iff : Conserved s (s.leftClick i) i ↔ s.SwapOk i := by
  unfold SwapOk
  by_cases hi : i < s.slots.length
  · rw [conserved_of_lt hi]
    refine iff_of_true (fun k => ?_) (.inl hi)
    have hset := countOf_setSlot (k := k) hi s.cursor
    simp only [units, leftClick, setSlot, setCursorItem]
    omega
  · have hle := Nat.le_of_not_lt hi
    rw [conserved_of_le hle, or_iff_right hi, leftClick, setSlot, setCursorItem, getSlot_of_le hle,
      set_slots_of_le hle]
    exact ⟨fun h => (congrArg ClickState.cursor h).symm, fun h => by rw [← h]⟩

theorem units_takeHalf (hcur : s.cursor = none) (hslot : s.getSlot i = some item) :
    ((s.setCursorItem (some { item with count := (item.count + 1) / 2 })).setSlot i
      (if (item.count + 1) / 2 < item.count then
        some { item with count := item.count - (item.count + 1) / 2 } else none)).units k =
      s.units k := by
  have hset := countOf_setSlot (k := k) (lt_of_getSlot hslot)
    (if (item.count + 1) / 2 < item.count then
      some { item with count := item.count - (item.count + 1) / 2 } else none)
  rw [slotUnits_left fun h => by omega, hslot, slotUnits_some] at hset
  simp only [units, setSlot, setCursorItem, hcur, slotUnits_some, slotUnits_none, units_withCount]
  by_cases hk : item.kind = k
  · rw [if_pos hk, ItemStack.units, if_pos hk] at hset
    rw [if_pos hk]
    omega
  · rw [if_neg hk, ItemStack.units, if_neg hk] at hset
    rw [if_neg hk]
    omega

/-- A slot is written and the cursor loses one. -/
theorem units_place (hi : i < s.slots.length) (hcur : s.cursor = some cur) (placed : ItemStack) :
    ((s.setSlot i (some placed)).setCursorItem (lessOne cur)).units k + slotUnits k (s.getSlot i) +
      cur.units k = s.units k + placed.units k + if cur.kind = k then cur.count - 1 else 0 := by
  have hset := countOf_setSlot (k := k) hi (some placed)
  rw [slotUnits_some] at hset
  simp only [units, setSlot, setCursorItem, slotUnits_lessOne, hcur, slotUnits_some]
  omega

/-- Placing one into an empty slot keeps the numbers of a cursor that holds something. -/
theorem conserved_placeOne_iff (hcur : s.cursor = some cur) (hslot : s.getSlot i = none) :
    Conserved s ((s.setSlot i (some { cur with count := 1 })).setCursorItem (lessOne cur)) i ↔
      i < s.slots.length ∧ 1 ≤ cur.count := by
  by_cases hi : i < s.slots.length
  · rw [conserved_of_lt hi, and_iff_right hi]
    have hunits : ∀ k, ((s.setSlot i (some { cur with count := 1 })).setCursorItem
        (lessOne cur)).units k + cur.units k = s.units k +
        if cur.kind = k then cur.count - 1 + 1 else 0 := by
      intro k
      have hplace := units_place (k := k) hi hcur { cur with count := 1 }
      have hone : ItemStack.units k { cur with count := 1 } = if cur.kind = k then 1 else 0 := rfl
      rw [hslot, slotUnits_none, hone] at hplace
      by_cases hk : cur.kind = k
      · rw [if_pos hk, if_pos hk] at hplace
        rw [if_pos hk]
        omega
      · rw [if_neg hk, if_neg hk] at hplace
        rw [if_neg hk]
        omega
    constructor
    · intro h
      have hk := hunits cur.kind
      rw [h cur.kind, units_self, if_pos rfl] at hk
      omega
    · intro hcount k
      have hk := hunits k
      rw [ItemStack.units] at hk
      split at hk <;> omega
  · have hle := Nat.le_of_not_lt hi
    rw [conserved_of_le hle]
    refine iff_of_false (fun h => lessOne_ne cur ?_) fun h => hi h.1
    rw [← hcur]
    exact congrArg ClickState.cursor h

/-- Placing one on a stack with room keeps the numbers when the cursor holds the same kind. -/
theorem conserved_addOne_iff (hcur : s.cursor = some cur) (hslot : s.getSlot i = some item)
    (hroom : item.count < item.maxCount) :
    Conserved s ((s.setSlot i
      (some { item with count := min (item.count + 1) item.maxCount })).setCursorItem
      (lessOne cur)) i ↔ item.kind = cur.kind ∧ 1 ≤ cur.count := by
  have hi := lt_of_getSlot hslot
  have hmin : min (item.count + 1) item.maxCount = item.count + 1 := by omega
  rw [conserved_of_lt hi, hmin]
  have hunits : ∀ k, ((s.setSlot i (some { item with count := item.count + 1 })).setCursorItem
      (lessOne cur)).units k + (if cur.kind = k then cur.count else 0) = s.units k +
      (if item.kind = k then 1 else 0) + if cur.kind = k then cur.count - 1 else 0 := by
    intro k
    have hplace := units_place (k := k) hi hcur { item with count := item.count + 1 }
    have hmore : ItemStack.units k { item with count := item.count + 1 } =
      if item.kind = k then item.count + 1 else 0 := rfl
    rw [hslot, slotUnits_some, hmore] at hplace
    have hcurk : cur.units k = if cur.kind = k then cur.count else 0 := rfl
    by_cases hk : item.kind = k
    · rw [if_pos hk, ItemStack.units, if_pos hk] at hplace
      rw [if_pos hk]
      omega
    · rw [if_neg hk, ItemStack.units, if_neg hk] at hplace
      rw [if_neg hk]
      omega
  constructor
  · intro h
    have hk := hunits item.kind
    rw [h item.kind, if_pos rfl] at hk
    by_cases hkind : cur.kind = item.kind
    · rw [if_pos hkind, if_pos hkind] at hk
      exact ⟨hkind.symm, by omega⟩
    · rw [if_neg hkind, if_neg hkind] at hk
      omega
  · rintro ⟨hkind, hcount⟩ k
    have hk := hunits k
    rw [hkind] at hk
    split at hk <;> omega

theorem conserved_rightClick_iff : Conserved s (s.rightClick i) i ↔ s.RightOk i := by
  unfold RightOk rightClick
  cases hcur : s.cursor with
  | none =>
      cases hslot : s.getSlot i with
      | none => exact iff_of_true conserved_self trivial
      | some item =>
          have hi := lt_of_getSlot hslot
          exact iff_of_true ((conserved_of_lt hi).2 fun k => units_takeHalf hcur hslot) trivial
  | some cur =>
      cases hslot : s.getSlot i with
      | none => exact conserved_placeOne_iff hcur hslot
      | some item =>
          simp only
          by_cases hcond : item.item.id = cur.item.id ∧ item.count < item.maxCount
          · rw [if_pos hcond, forall_prop_of_true hcond.1, forall_prop_of_true hcond.2]
            exact conserved_addOne_iff hcur hslot hcond.2
          · rw [if_neg hcond]
            exact iff_of_true conserved_self fun h₁ h₂ => absurd ⟨h₁, h₂⟩ hcond

theorem conserved_shiftClick_iff : Conserved s (s.shiftClick i) i ↔ s.ShiftOk i := by
  unfold ShiftOk shiftClick
  cases hslot : s.getSlot i with
  | none => exact iff_of_true conserved_self fun item h => nomatch h
  | some item =>
      have hi := lt_of_getSlot hslot
      simp only [Option.some.injEq, forall_eq']
      rw [conserved_of_lt hi, ← Inventory.addItem_iff]
      refine forall_congr' fun k => ?_
      have hset := countOf_setSlot (k := k) hi none
      rw [hslot, slotUnits_some, slotUnits_none, ItemStack.units] at hset
      simp only [units, setSlot]
      constructor
      · intro h
        have h' : countOf k (s.slots.set i none) +
          (s.inventory.addItem item.item item.count).1.units k = countOf k s.slots +
            s.inventory.units k := by omega
        have hgoal : (s.inventory.addItem item.item item.count).1.units k =
          s.inventory.units k + if item.kind = k then item.count else 0 := by omega
        exact hgoal
      · intro h
        have h' : (s.inventory.addItem item.item item.count).1.units k =
          s.inventory.units k + if item.kind = k then item.count else 0 := h
        omega

theorem conserved_hotbarSwap_iff :
    Conserved s (s.hotbarSwap i button) i ↔ s.HotbarOk i button := by
  unfold HotbarOk hotbarSwap
  by_cases hb : button < 9
  · rw [if_pos hb, or_iff_right (Nat.not_le_of_lt hb)]
    have hlt : button < s.inventory.items.toList.length := by
      rw [Vector.length_toList]
      omega
    have hitem : s.getInventorySlot button = s.inventory.items.toList[button]?.join := by
      rw [getInventorySlot, Vector.getElem?_toList]
    by_cases hi : i < s.slots.length
    · rw [conserved_of_lt hi]
      refine iff_of_true (fun k => ?_) (.inl hi)
      have hset := countOf_setSlot (k := k) hi (s.getInventorySlot button)
      have hinv := countOf_set k hlt (s.getSlot i)
      rw [← hitem] at hinv
      simp only [units, setSlot, setInventorySlot, Inventory.units, Vector.toList_setIfInBounds]
      omega
    · have hle := Nat.le_of_not_lt hi
      rw [conserved_of_le hle, or_iff_right hi]
      simp only [setSlot, setInventorySlot, getSlot_of_le hle, set_slots_of_le hle]
      constructor
      · intro h
        have hitems : s.inventory.items.setIfInBounds button none = s.inventory.items :=
          congrArg (fun t => t.inventory.items) h
        rw [getInventorySlot, ← hitems, Vector.getElem?_setIfInBounds]
        simp [show button < 36 by omega]
      · intro h
        have hitems : s.inventory.items.setIfInBounds button none = s.inventory.items := by
          rw [getInventorySlot, Vector.getElem?_eq_getElem (by omega), Option.join_some] at h
          refine Vector.ext fun j hj => ?_
          rw [Vector.getElem_setIfInBounds]
          by_cases hj' : button = j
          · subst hj'
            rw [if_pos rfl, h]
          · rw [if_neg hj']
        rw [hitems]
  · rw [if_neg hb]
    exact iff_of_true conserved_self (.inr (.inl (Nat.le_of_not_lt hb)))

theorem conserved_drop_iff : Conserved s (s.drop i button) i ↔ s.DropOk i button := by
  unfold DropOk drop
  cases hslot : s.getSlot i with
  | none => exact iff_of_true conserved_self fun item h => nomatch h
  | some item =>
      have hi := lt_of_getSlot hslot
      simp only [Option.some.injEq, forall_eq']
      rw [conserved_of_lt hi]
      generalize hdrop : (if button = 0 then 1 else item.count) = dropCount
      have hunits : ∀ k, ({ s.setSlot i (if 0 < item.count - dropCount then
            some { item with count := item.count - dropCount } else none) with
          dropped := { item with count := dropCount } :: s.dropped } : ClickState).units k +
          item.units k = s.units k +
            if item.kind = k then item.count - dropCount + dropCount else 0 := by
        intro k
        have hset := countOf_setSlot (k := k) hi (if 0 < item.count - dropCount then
          some { item with count := item.count - dropCount } else none)
        rw [slotUnits_left fun h => by omega, hslot, slotUnits_some] at hset
        simp only [units, setSlot, List.map_cons, List.sum_cons, units_withCount]
        by_cases hk : item.kind = k
        · rw [if_pos hk] at hset
          rw [if_pos hk, if_pos hk]
          omega
        · rw [if_neg hk] at hset
          rw [if_neg hk, if_neg hk]
          omega
      constructor
      · intro h hb
        have hk := hunits item.kind
        rw [h item.kind, units_self, if_pos rfl] at hk
        rw [if_pos hb] at hdrop
        omega
      · intro h k
        have hle : dropCount ≤ item.count := by
          by_cases hb : button = 0
          · rw [if_pos hb] at hdrop
            have := h hb
            omega
          · rw [if_neg hb] at hdrop
            omega
        refine Nat.add_right_cancel ((hunits k).trans ?_)
        rw [Nat.sub_add_cancel hle, ItemStack.units]

theorem conserved_drag_iff : Conserved s (s.drag i button) i ↔ s.SwapOk i := by
  by_cases hb : button ≤ 3
  · rw [drag, if_pos hb]
    exact conserved_leftClick_iff
  · unfold drag SwapOk
    rw [if_neg hb]
    cases hcur : s.cursor with
    | none => exact iff_of_true conserved_self (.inr rfl)
    | some cur =>
        simp only [reduceCtorEq, or_false]
        generalize hplaced : (if (s.getSlot i).isNone ∧ 0 < min ((cur.count + 3) / 4) cur.count then
          min ((cur.count + 3) / 4) cur.count else 0) = placed
        by_cases hi : i < s.slots.length
        · refine iff_of_true ((conserved_of_lt hi).2 fun k => ?_) hi
          have hle : placed ≤ cur.count := by
            rw [← hplaced]
            split <;> omega
          have hcursor : slotUnits k (if 0 < cur.count - placed then
              some { cur with count := cur.count - placed } else none) =
              if cur.kind = k then cur.count - placed else 0 := slotUnits_left fun h => by omega
          have hunits : cur.units k = if cur.kind = k then cur.count else 0 := rfl
          by_cases hpos : 0 < placed
          · have hslot : s.getSlot i = none := by
              by_contra hsome
              rw [if_neg fun h => hsome (Option.isNone_iff_eq_none.1 h.1)] at hplaced
              omega
            have hset := countOf_setSlot (k := k) hi (some { cur with count := placed })
            rw [hslot, slotUnits_none, slotUnits_some, units_withCount] at hset
            simp only [if_pos hpos, units, setSlot, setCursorItem, hcursor, hcur, slotUnits_some,
              hunits]
            by_cases hk : cur.kind = k
            · rw [if_pos hk] at hset
              rw [if_pos hk, if_pos hk]
              omega
            · rw [if_neg hk] at hset
              rw [if_neg hk, if_neg hk]
              omega
          · have hzero : placed = 0 := by omega
            rw [if_neg hpos]
            simp only [units, setCursorItem, hcursor, hcur, slotUnits_some, hunits]
            rw [hzero, Nat.sub_zero]
        · have hle := Nat.le_of_not_lt hi
          refine iff_of_false (fun h => ?_) hi
          have hcursor : (if 0 < cur.count - placed then
              some { cur with count := cur.count - placed } else none) = some cur := by
            rw [← hcur]
            exact congrArg ClickState.cursor ((conserved_of_le hle).1 h)
          -- the slot that is not there is empty, so the end of the drag takes from the cursor
          have hempty : (s.getSlot i).isNone := by rw [getSlot_of_le hle]; rfl
          split at hcursor
          · have hcount : cur.count - placed = cur.count :=
              congrArg ItemStack.count (Option.some.inj hcursor)
            rw [if_pos ⟨hempty, by omega⟩] at hplaced
            omega
          · cases hcursor

/-! ## Collecting -/

variable {slots : List (Option ItemStack)} {collected : Nat}

theorem collect_none : collect cur collected (none :: slots) =
    (none :: (collect cur collected slots).1, (collect cur collected slots).2) := rfl

theorem collect_skip (h : ¬(item.item.id = cur.item.id ∧ collected < cur.maxCount)) :
    collect cur collected (some item :: slots) =
      (some item :: (collect cur collected slots).1, (collect cur collected slots).2) := by
  rw [collect, if_neg h]

/-- The first slot has the item of the cursor. -/
theorem collect_take (h : item.item.id = cur.item.id ∧ collected < cur.maxCount) :
    collect cur collected (some item :: slots) =
      let toTake := min item.count (cur.maxCount - collected)
      ((if 0 < item.count - toTake then some { item with count := item.count - toTake }
          else none) :: (collect cur (collected + toTake) slots).1,
        (collect cur (collected + toTake) slots).2) := by
  rw [collect, if_pos h]

theorem le_collect : collected ≤ (collect cur collected slots).2 := by
  induction slots generalizing collected with
  | nil => exact Nat.le_refl _
  | cons o slots ih =>
      cases o with
      | none => exact ih
      | some item =>
          by_cases h : item.item.id = cur.item.id ∧ collected < cur.maxCount
          · rw [collect_take h]
            exact Nat.le_trans (Nat.le_add_right _ _) ih
          · rw [collect_skip h]
            exact ih

theorem collect_le (hle : collected ≤ cur.maxCount) :
    (collect cur collected slots).2 ≤ cur.maxCount := by
  induction slots generalizing collected with
  | nil => exact hle
  | cons o slots ih =>
      cases o with
      | none => exact ih hle
      | some item =>
          by_cases h : item.item.id = cur.item.id ∧ collected < cur.maxCount
          · rw [collect_take h]
            exact ih (by omega)
          · rw [collect_skip h]
            exact ih hle

theorem countOf_collect_le : countOf k (collect cur collected slots).1 ≤ countOf k slots := by
  induction slots generalizing collected with
  | nil => exact Nat.le_refl _
  | cons o slots ih =>
      cases o with
      | none =>
          rw [collect_none, countOf_cons, countOf_cons]
          exact Nat.add_le_add_left ih _
      | some item =>
          by_cases h : item.item.id = cur.item.id ∧ collected < cur.maxCount
          · rw [collect_take h, countOf_cons, countOf_cons, slotUnits_left fun h => by omega,
              slotUnits_some, ItemStack.units]
            refine Nat.add_le_add ?_ ih
            split <;> omega
          · rw [collect_skip h, countOf_cons, countOf_cons]
            exact Nat.add_le_add_left ih _

/-- A full cursor, or one whose item is nowhere, collects nothing. -/
theorem collect_idle (h : ∀ item, some item ∈ slots →
    ¬(item.item.id = cur.item.id ∧ collected < cur.maxCount)) :
    collect cur collected slots = (slots, collected) := by
  induction slots with
  | nil => rfl
  | cons o slots ih =>
      have hrest := ih fun item hitem => h item (List.mem_cons_of_mem _ hitem)
      cases o with
      | none => rw [collect_none, hrest]
      | some item => rw [collect_skip (h item List.mem_cons_self), hrest]

/-- Whoever collects nothing was full, or its item was nowhere. -/
theorem not_mem_of_collect (hslots : (collect cur collected slots).1 = slots)
    (hcount : (collect cur collected slots).2 = collected) (hlt : collected < cur.maxCount) :
    ∀ item, some item ∈ slots → item.item.id ≠ cur.item.id := by
  induction slots with
  | nil => exact fun item hitem => absurd hitem List.not_mem_nil
  | cons o slots ih =>
      cases o with
      | none =>
          intro item hitem
          rw [collect_none] at hslots hcount
          exact ih (List.cons.inj hslots).2 hcount item
            ((List.mem_cons.1 hitem).resolve_left (by simp))
      | some head =>
          by_cases h : head.item.id = cur.item.id ∧ collected < cur.maxCount
          · exfalso
            rw [collect_take h] at hslots hcount
            have hmono : collected + min head.count (cur.maxCount - collected) ≤
                (collect cur (collected + min head.count (cur.maxCount - collected)) slots).2 :=
              le_collect
            have hhead := (List.cons.inj hslots).1
            split at hhead
            · have := congrArg ItemStack.count (Option.some.inj hhead)
              simp only at hcount this
              omega
            · cases hhead
          · rw [collect_skip h] at hslots hcount
            intro item hitem
            cases List.mem_cons.1 hitem with
            | inl heq =>
                obtain rfl := Option.some.inj heq
                exact fun hid => h ⟨hid, hlt⟩
            | inr hmem => exact ih (List.cons.inj hslots).2 hcount item hmem

/-- Collecting turns nothing into another kind exactly when it meets only its own. -/
theorem countOf_collect_iff : (∀ k, countOf k (collect cur collected slots).1 +
      (if cur.kind = k then (collect cur collected slots).2 - collected else 0) =
        countOf k slots) ↔ CollectsAlike cur collected slots := by
  induction slots generalizing collected with
  | nil => exact iff_of_true (fun k => by simp [collect]) trivial
  | cons o slots ih =>
      cases o with
      | none =>
          simp only [collect_none, countOf_cons, slotUnits_none, Nat.zero_add]
          exact ih
      | some item =>
          rw [CollectsAlike]
          by_cases h : item.item.id = cur.item.id ∧ collected < cur.maxCount
          · rw [if_pos h, ← ih, collect_take h]
            simp only [countOf_cons, slotUnits_some]
            generalize htake : min item.count (cur.maxCount - collected) = toTake
            have hmono : collected + toTake ≤ (collect cur (collected + toTake) slots).2 :=
              le_collect
            have hleft : ∀ k, slotUnits k (if 0 < item.count - toTake then
                some { item with count := item.count - toTake } else none) =
                if item.kind = k then item.count - toTake else 0 :=
              fun k => slotUnits_left fun h => by omega
            simp only [hleft, ItemStack.units]
            by_cases hsame : 0 < item.count → item.kind = cur.kind
            · rw [and_iff_right hsame]
              refine forall_congr' fun k => ?_
              by_cases hcount : 0 < item.count
              · rw [hsame hcount]
                split <;> omega
              · split <;> split <;> omega
            · -- what is taken from a stack of another kind is missing there
              refine iff_of_false (fun hall => hsame fun hcount => ?_) fun hall => hsame hall.1
              by_contra hne
              have hk := hall item.kind
              have hle : countOf item.kind (collect cur (collected + toTake) slots).1 ≤
                countOf item.kind slots := countOf_collect_le
              rw [if_pos rfl, if_neg (Ne.symm hne), if_pos rfl] at hk
              omega
          · rw [if_neg h, ← ih, collect_skip h]
            simp only [countOf_cons]
            refine forall_congr' fun k => ?_
            omega

theorem conserved_doubleClick_iff : Conserved s s.doubleClick i ↔ s.DoubleOk i := by
  unfold DoubleOk doubleClick
  cases hcur : s.cursor with
  | none => exact iff_of_true conserved_self fun cur h => by cases h
  | some cur =>
      simp only [Option.some.injEq, forall_eq']
      by_cases hover : cur.count ≤ cur.maxCount
      · have hle : (collect cur cur.count s.slots).2 ≤ cur.maxCount := collect_le hover
        have hge : cur.count ≤ (collect cur cur.count s.slots).2 := le_collect
        rw [and_iff_right hover, Nat.min_eq_left hle]
        by_cases hi : i < s.slots.length
        · rw [conserved_of_lt hi, and_iff_left (.inl hi), ← countOf_collect_iff]
          refine forall_congr' fun k => ?_
          simp only [units, hcur, slotUnits_some, units_withCount]
          have hunits : cur.units k = if cur.kind = k then cur.count else 0 := rfl
          rw [hunits]
          split <;> omega
        · rw [conserved_of_le (Nat.le_of_not_lt hi), or_iff_right hi]
          constructor
          · intro h
            have hslots : (collect cur cur.count s.slots).1 = s.slots :=
              congrArg ClickState.slots h
            have hcount : (collect cur cur.count s.slots).2 = cur.count :=
              congrArg ItemStack.count (Option.some.inj ((congrArg ClickState.cursor h).trans hcur))
            refine ⟨countOf_collect_iff.1 fun k => ?_, ?_⟩
            · rw [hslots, hcount, Nat.sub_self, ite_self, Nat.add_zero]
            · by_cases hfull : cur.count = cur.maxCount
              · exact .inl hfull
              · exact .inr (not_mem_of_collect hslots hcount (by omega))
          · rintro ⟨-, hidle⟩
            have hcollect : collect cur cur.count s.slots = (s.slots, cur.count) := by
              refine collect_idle fun item hitem htakes => ?_
              cases hidle with
              | inl hfull => omega
              | inr hnone => exact hnone item hitem htakes.1
            rw [hcollect]
            cases s
            cases hcur
            rfl
      · -- the cursor is cut down to a full stack
        refine iff_of_false (fun h => ?_) fun h => hover h.1
        have hcollect : collect cur cur.count s.slots = (s.slots, cur.count) :=
          collect_idle fun item _ htakes => by omega
        have hk := h.units_eq cur.kind
        simp only [units, hcollect, hcur, slotUnits_some, units_withCount, if_true] at hk
        rw [units_self] at hk
        omega

end

end ClickState

open ClickState

/-- **A click neither makes nor loses an item, and leaves everything alone when the container has no
    such slot, exactly when it is harmless.** -/
theorem conserved_click_iff (s : ClickState) (c : Click) :
    Conserved s (s.click c) c.slot ↔ s.Harmless c := by
  obtain ⟨slot, button, mode⟩ := c
  unfold click Harmless
  simp only
  split
  · split
    · exact conserved_leftClick_iff
    · exact conserved_rightClick_iff
  · exact conserved_shiftClick_iff
  · exact conserved_hotbarSwap_iff
  · exact conserved_drop_iff
  · exact conserved_drag_iff
  · exact conserved_doubleClick_iff
  · exact iff_of_true conserved_self trivial

/-- Five items in a chest, beside an inventory full of others. -/
def fullInventory : ClickState where
  slots := [some (ItemStack.new ⟨2, 0⟩ 5)]
  inventory := { Inventory.new with items := Vector.replicate 36 (some (ItemStack.new ⟨1, 0⟩ 64)) }
  cursor := none
  dropped := []

/-- A shift-click on them makes them disappear. -/
theorem not_forall_conserved : ¬∀ s c, Conserved s (s.click c) c.slot := by
  intro h
  have hunits := (h fullInventory ⟨0, 0, 1⟩).units_eq (ItemStack.new ⟨2, 0⟩ 5).kind
  exact absurd hunits (by decide)

end Apoptotic.Commands
