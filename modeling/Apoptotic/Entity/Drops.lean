import Apoptotic.Lib.Totals
import Apoptotic.Player.Items
import Apoptotic.Player.SpatialIndex
import Mathlib.Algebra.Group.Pi.Basic

/-!
# Dropped items

The table of dropped items keeps an item id and a position for each entity.  Connection threads drop
items, look for items near a player who moved and pick them up one by one; the tick thread drops the
inventory and the orbs of dead players, merges items, pulls them to players and absorbs orbs.  A row
with item id 0 is an orb.  The passes of the tick thread are taken apart: the merge pass is one
`mergeOnto` for each key, with the keys after it, the attraction pass one `attract` for each player and
key, in any order.  Adding a picked-up item and removing its entity is one step.

A ledger counts the items that were dropped, by id and NBT; air is no item.

Principal result: `keepsLedger_and_takenOnce_iff` — the items that entities stand for and that players
were given are those that were dropped, and every entity a player is given goes then, exactly when
every step of the run is `Harmless`.
-/

namespace Apoptotic.Drops

open Commands hiding Position
open PlayerManager (Position)
open Totals

abbrev EntityId := BitVec 32

abbrev Uuid := Commands.Uuid

/-- What an item is as far as drops are concerned. -/
structure Ware where
  id : BitVec 32
  nbt : Option ByteArray

instance : DecidableEq Ware
  | ⟨id, nbt⟩, ⟨id', nbt'⟩ =>
      letI : DecidableEq ByteArray := ByteArray.instDecidableEq
      decidable_of_iff (id = id' ∧ nbt = nbt') (by rw [Ware.mk.injEq])

def ware (s : ItemStack) : Ware := ⟨s.item.id, s.nbt⟩

/-- How many items of a ware a stack holds. -/
def wareUnits (w : Ware) (s : ItemStack) : Nat := if ware s = w then s.count else 0

/-- How many items of a ware some slots hold. -/
def wareCount (w : Ware) (slots : List (Option ItemStack)) : Nat :=
  ((slots.filterMap id).map (wareUnits w)).sum

def inventoryCount (w : Ware) (inv : Inventory) : Nat :=
  wareCount w inv.items.toList + wareCount w (inv.offhand :: inv.armor.toList)

/-- `f64` with a division. -/
structure Reals (F : Type) extends Floats F where
  div : F → F → F

structure Row (F : Type) where
  item : BitVec 32
  pos : Position F

structure Player (F : Type) where
  position : Position F
  inventory : Inventory

structure World (F : Type) where
  dropped : AList fun _ : EntityId => Row F
  players : AList fun _ : Uuid => Player F
  /-- What the connection threads found near their players. -/
  toPickup : List (Uuid × EntityId × BitVec 32)
  /-- The orbs that the tick thread found near a player. -/
  absorbed : List EntityId
  /-- How many items players were given. -/
  credited : Ware → Int

inductive Action (F : Type) where
  /-- A broken block, a click, a closed container, a death, a campfire. -/
  | drop (eid : EntityId) (stack : ItemStack) (pos : Position F)
  | dropOrb (eid : EntityId) (pos : Position F)
  | mergeOnto (eid : EntityId) (later : List EntityId)
  | attract (uuid : Uuid) (eid : EntityId)
  | findNearby (uuid : Uuid) (pos : Position F) (eid : EntityId)
  | pickup (uuid : Uuid) (eid : EntityId) (item : BitVec 32)
  | findOrb (uuid : Uuid) (eid : EntityId)
  | absorb (eid : EntityId)
  /-- Whatever else happens to a player. -/
  | setPlayer (uuid : Uuid) (p : Player F)
  | removePlayer (uuid : Uuid)

namespace World

variable {F : Type} (fl : Reals F) (s : World F)

/-- `dx*dx + dy*dy + dz*dz` -/
def distSq (p q : Position F) : F := fl.dist2 p.x p.y p.z q.x q.y q.z

def midpoint (p q : Position F) : Position F where
  x := fl.div (fl.add p.x q.x) (fl.lit 2)
  y := fl.div (fl.add p.y q.y) (fl.lit 2)
  z := fl.div (fl.add p.z q.z) (fl.lit 2)

/-- `add_item_to_player` with one item. -/
def addItemToPlayer (uuid : Uuid) (item : BitVec 32) : World F :=
  match s.players.lookup uuid with
  | some p =>
      let inventory := (p.inventory.addItem (BlockState.new item) 1).1
      { s with
        players := s.players.insert uuid { p with inventory := inventory }
        credited := fun w => if w.id = 0 then s.credited w else
          s.credited w + (inventoryCount w inventory - inventoryCount w p.inventory) }
  | none => s

/-! ## The merge pass -/

/-- Two items of one kind within two blocks. -/
def mergeable (eid : EntityId) (a : Row F) (eid' : EntityId) (b : Row F) : Bool :=
  eid' ≠ eid && a.item = b.item && fl.lt (distSq fl a.pos b.pos) (fl.lit 4)

/-- The later item goes, the first one moves to the point between where it was and the later one. -/
def mergeOne (eid : EntityId) (a : Row F) (dropped : AList fun _ : EntityId => Row F)
    (eid' : EntityId) : AList fun _ : EntityId => Row F :=
  match dropped.lookup eid' with
  | some b =>
      if mergeable fl eid a eid' b then
        (dropped.erase eid').insert eid ⟨a.item, midpoint fl a.pos b.pos⟩
      else dropped
  | none => dropped

/-- One key of the pass and the keys after it. -/
def mergeOnto (eid : EntityId) (later : List EntityId) : World F :=
  match s.dropped.lookup eid with
  | some a => { s with dropped := later.foldl (mergeOne fl eid a) s.dropped }
  | none => s

/-! ## Attraction -/

/-- From the item to a block above the player's feet. -/
def attractionSq (p : Player F) (r : Row F) : F :=
  distSq fl ⟨p.position.x, fl.add p.position.y (fl.lit 1), p.position.z⟩ r.pos

def withinReach (p : Player F) (r : Row F) : Bool := fl.lt (attractionSq fl p r) (fl.lit (1 / 4))

/-- `*ix += dx / dist * speed`, fast close, slow far. -/
def pull (p : Player F) (r : Row F) : Row F :=
  let distSq := attractionSq fl p r
  if fl.lt distSq (fl.lit 64) && fl.lt (fl.lit 0) distSq then
    let dist := fl.sqrt distSq
    let speed := if fl.lt distSq (fl.lit (9 / 4)) then fl.lit (1 / 2) else fl.lit (3 / 20)
    let towards := fun i d => fl.add i (fl.mul (fl.div d dist) speed)
    { r with pos :=
        { x := towards r.pos.x (fl.sub p.position.x r.pos.x)
          y := towards r.pos.y (fl.sub (fl.add p.position.y (fl.lit 1)) r.pos.y)
          z := towards r.pos.z (fl.sub p.position.z r.pos.z) } }
  else r

/-- The item stays in the table when the player was given one. -/
def attract (uuid : Uuid) (eid : EntityId) : World F :=
  match s.players.lookup uuid, s.dropped.lookup eid with
  | some p, some r =>
      let s' := { s with dropped := s.dropped.insert eid (pull fl p r) }
      if withinReach fl p r then s'.addItemToPlayer uuid r.item else s'
  | _, _ => s

/-! ## Pickup and absorption -/

/-- An item within a block and a half of where the player moved to. -/
def findNearby (uuid : Uuid) (pos : Position F) (eid : EntityId) : World F :=
  match s.dropped.lookup eid with
  | some r =>
      if fl.lt (distSq fl pos r.pos) (fl.lit (9 / 4)) then
        { s with toPickup := (uuid, eid, r.item) :: s.toPickup }
      else s
  | none => s

/-- One of the items found. -/
def pickup (uuid : Uuid) (eid : EntityId) (item : BitVec 32) : World F :=
  if s.toPickup.contains (uuid, eid, item) then
    let s' := s.addItemToPlayer uuid item
    { s' with
      dropped := s.dropped.erase eid
      toPickup := s.toPickup.erase (uuid, eid, item) }
  else s

def findOrb (uuid : Uuid) (eid : EntityId) : World F :=
  match s.players.lookup uuid, s.dropped.lookup eid with
  | some p, some r =>
      if r.item = 0 && fl.lt (fl.sqrt (distSq fl p.position r.pos)) (fl.lit (3 / 2)) then
        { s with absorbed := eid :: s.absorbed }
      else s
  | _, _ => s

def absorb (eid : EntityId) : World F :=
  if s.absorbed.contains eid then
    { s with dropped := s.dropped.erase eid, absorbed := s.absorbed.erase eid }
  else s

def step : Action F → World F
  | .drop eid stack pos => { s with dropped := s.dropped.insert eid ⟨stack.item.id, pos⟩ }
  | .dropOrb eid pos => { s with dropped := s.dropped.insert eid ⟨0, pos⟩ }
  | .mergeOnto eid later => s.mergeOnto fl eid later
  | .attract uuid eid => s.attract fl uuid eid
  | .findNearby uuid pos eid => s.findNearby fl uuid pos eid
  | .pickup uuid eid item => s.pickup uuid eid item
  | .findOrb uuid eid => s.findOrb fl uuid eid
  | .absorb eid => s.absorb eid
  | .setPlayer uuid p => { s with players := s.players.insert uuid p }
  | .removePlayer uuid => { s with players := s.players.erase uuid }

/-! ## The ledger -/

/-- One item, or none. -/
def one (o : Option Ware) (w : Ware) : Int := if o = some w then 1 else 0

/-- What an entity stands for: a row has neither a count nor NBT. -/
def worth (r : Row F) : Option Ware := if r.item = 0 then none else some ⟨r.item, none⟩

def worthAt (eid : EntityId) : Option Ware := (s.dropped.lookup eid).bind worth

def amount : Ware → Int := fun w => s.credited w + total (fun _ r => one (worth r) w) s.dropped

/-- The items that are dropped. -/
def change : Action F → Ware → Int
  | .drop _ stack _ => fun w => if w.id = 0 then 0 else wareUnits w stack
  | _ => fun _ => 0

/-- A stack of the item that has room. -/
def hasRoom (item : BlockState) (s : ItemStack) : Bool := s.item = item && s.count < 64

/-- Where `add_item` puts one item: onto the first stack with room, or else into an empty slot. -/
def place (inv : Inventory) (item : BitVec 32) : Option Ware :=
  match (inv.items.toList.filterMap id).find? (hasRoom (BlockState.new item)) with
  | some s => some (ware s)
  | none => if inv.items.toList.any Option.isNone then some ⟨item, none⟩ else none

/-- What an inventory makes of one item. -/
def receives (inv : Inventory) (item : BitVec 32) : Option Ware :=
  if item = 0 then none else place inv item

def received (uuid : Uuid) (item : BitVec 32) : Option Ware :=
  (s.players.lookup uuid).bind fun p => receives p.inventory item

/-- The entity that a player is given. -/
def creditedEntity : Action F → Option EntityId
  | .attract uuid eid =>
      match s.players.lookup uuid, s.dropped.lookup eid with
      | some p, some r =>
          if withinReach fl p r && (receives p.inventory r.item).isSome then some eid else none
      | _, _ => none
  | .pickup uuid eid item =>
      if s.toPickup.contains (uuid, eid, item) && (s.received uuid item).isSome then some eid
      else none
  | _ => none

/-- An entity that a player is given was there, and is gone. -/
def TakenOnce (a : Action F) : Prop :=
  ∀ eid, s.creditedEntity fl a = some eid → eid ∈ s.dropped ∧ eid ∉ (s.step fl a).dropped

/-! ## Harmless steps -/

/-- A single item without NBT is dropped, under an id that no item has.  (A stack of air or of no
    items may only take the place of what it is worth.) -/
def DropOk (eid : EntityId) (stack : ItemStack) : Prop :=
  if stack.item.id = 0 then s.worthAt eid = none
  else
    stack.count = 1 ∧ stack.nbt = none ∧ s.worthAt eid = none ∨
      stack.count = 0 ∧ s.worthAt eid = some ⟨stack.item.id, none⟩

/-- Only orbs are merged. -/
def MergeOk (eid : EntityId) (later : List EntityId) : Prop :=
  ∀ a, s.dropped.lookup eid = some a → a.item = 0 ∨
    ∀ eid' ∈ later, ∀ b, s.dropped.lookup eid' = some b → mergeable fl eid a eid' b = false

/-- No item gets within half a block of a player who has room for it. -/
def AttractOk (uuid : Uuid) (eid : EntityId) : Prop :=
  ∀ p r, s.players.lookup uuid = some p → s.dropped.lookup eid = some r →
    withinReach fl p r = true → receives p.inventory r.item = none

/-- The player receives what the entity stands for: nobody else took it since it was found, and there
    is room for it, first on a stack without NBT. -/
def PickupOk (uuid : Uuid) (eid : EntityId) (item : BitVec 32) : Prop :=
  s.toPickup.contains (uuid, eid, item) = true → s.received uuid item = s.worthAt eid

/-- The steps that neither make nor lose an item. -/
def Harmless : Action F → Prop
  | .drop eid stack _ => s.DropOk eid stack
  | .dropOrb eid _ => s.worthAt eid = none
  | .mergeOnto eid later => s.MergeOk fl eid later
  | .attract uuid eid => s.AttractOk fl uuid eid
  | .pickup uuid eid item => s.PickupOk uuid eid item
  | .absorb eid => s.absorbed.contains eid = true → s.worthAt eid = none
  | _ => True

/-! ## Adding one item -/

theorem one_none (w : Ware) : one none w = 0 := rfl

theorem one_inj {o o' : Option Ware} : one o = one o' ↔ o = o' := by
  refine ⟨fun h => ?_, fun h => by rw [h]⟩
  refine Option.ext fun w => ?_
  have hw := congrFun h w
  unfold one at hw
  by_cases ho : o = some w
  · by_cases ho' : o' = some w
    · exact iff_of_true ho ho'
    · rw [if_pos ho, if_neg ho'] at hw
      cases hw
  · by_cases ho' : o' = some w
    · rw [if_neg ho, if_pos ho'] at hw
      cases hw
    · exact iff_of_false ho ho'

section

variable {w : Ware} {item : BlockState} {slots : List (Option ItemStack)}

theorem wareCount_none : wareCount w (none :: slots) = wareCount w slots := rfl

theorem wareCount_some (s : ItemStack) :
    wareCount w (some s :: slots) = wareUnits w s + wareCount w slots := rfl

theorem wareUnits_withCount (s : ItemStack) (n : Nat) :
    wareUnits w { s with count := n } = if ware s = w then n else 0 := rfl

theorem stackOnto_zero : Inventory.stackOnto item 0 slots = (slots, 0) := by
  induction slots with
  | nil => rfl
  | cons o slots ih =>
      cases o with
      | none => rw [Inventory.stackOnto, ih]
      | some s =>
          rw [Inventory.stackOnto]
          simp only [Nat.zero_min, Nat.sub_zero, Nat.add_zero, ih]
          split <;> rfl

theorem hasRoom_iff {s : ItemStack} : hasRoom item s = true ↔ s.item = item ∧ s.count < 64 := by
  unfold hasRoom
  rw [Bool.and_eq_true, decide_eq_true_eq, decide_eq_true_eq]

/-- One item goes onto the first stack with room. -/
theorem stackOnto_one_of_some {s : ItemStack}
    (h : (slots.filterMap id).find? (hasRoom item) = some s) :
    wareCount w (Inventory.stackOnto item 1 slots).1 =
        wareCount w slots + (if ware s = w then 1 else 0) ∧
      (Inventory.stackOnto item 1 slots).2 = 0 := by
  induction slots with
  | nil => cases h
  | cons o slots ih =>
      cases o with
      | none => exact ih h
      | some s' =>
          rw [List.filterMap_cons_some (f := id) rfl, List.find?_cons] at h
          rw [Inventory.stackOnto]
          cases hroom : hasRoom item s' with
          | true =>
              rw [hroom] at h
              obtain rfl := Option.some.inj h
              have hs := hasRoom_iff.1 hroom
              have hmin : min 1 (64 - s'.count) = 1 := by omega
              have hunits : wareUnits w s' = if ware s' = w then s'.count else 0 := rfl
              rw [if_pos hs, hmin]
              simp only [Nat.sub_self, stackOnto_zero, wareCount_some, wareUnits_withCount, hunits,
                and_true]
              split <;> omega
          | false =>
              rw [hroom] at h
              have hs : ¬(s'.item = item ∧ s'.count < 64) := fun hs => by
                rw [hasRoom_iff.2 hs] at hroom
                cases hroom
              rw [if_neg hs]
              simp only [wareCount_some, (ih h).1, (ih h).2, and_true]
              omega

/-- Without such a stack nothing happens. -/
theorem stackOnto_one_of_none (h : (slots.filterMap id).find? (hasRoom item) = none) :
    Inventory.stackOnto item 1 slots = (slots, 1) := by
  induction slots with
  | nil => rfl
  | cons o slots ih =>
      cases o with
      | none =>
          have hrest : Inventory.stackOnto item 1 slots = (slots, 1) := ih h
          rw [Inventory.stackOnto, hrest]
      | some s' =>
          rw [List.filterMap_cons_some (f := id) rfl, List.find?_cons] at h
          cases hroom : hasRoom item s' with
          | true =>
              rw [hroom] at h
              cases h
          | false =>
              rw [hroom] at h
              have hs : ¬(s'.item = item ∧ s'.count < 64) := fun hs => by
                rw [hasRoom_iff.2 hs] at hroom
                cases hroom
              rw [Inventory.stackOnto, if_neg hs, ih h]

/-- One item goes into the first empty slot. -/
theorem wareCount_fillEmpty_one : wareCount w (Inventory.fillEmpty item 1 slots).1 =
    wareCount w slots + if slots.any Option.isNone then
      (if (⟨item.id, none⟩ : Ware) = w then 1 else 0) else 0 := by
  induction slots with
  | nil => rfl
  | cons o slots ih =>
      cases o with
      | none =>
          have hnew : wareUnits w (ItemStack.new item 1) =
            if (⟨item.id, none⟩ : Ware) = w then 1 else 0 := rfl
          have hrest : (Inventory.fillEmpty item 0 slots).1 = slots := by rw [Inventory.fillEmpty_zero]
          rw [Inventory.fillEmpty, if_neg (by omega)]
          simp only [show min 1 64 = 1 from rfl, Nat.sub_self, hrest, wareCount_some, hnew,
            wareCount_none, List.any_cons, Option.isNone_none, Bool.true_or, if_true]
          omega
      | some s =>
          rw [Inventory.fillEmpty]
          simp only [wareCount_some, ih, List.any_cons, Option.isNone_some, Bool.false_or]
          omega

end

theorem place_id {inv : Inventory} {item : BitVec 32} {w : Ware} (h : place inv item = some w) :
    w.id = item := by
  unfold place at h
  split at h
  · rename_i s hs
    obtain rfl := Option.some.inj h
    rw [ware, (hasRoom_iff.1 (List.find?_some hs)).1]
    rfl
  · split at h
    · obtain rfl := Option.some.inj h
      rfl
    · cases h

theorem inventoryCount_addItem (inv : Inventory) (item : BitVec 32) (w : Ware) :
    (inventoryCount w (inv.addItem (BlockState.new item) 1).1 : Int) =
      inventoryCount w inv + one (place inv item) w := by
  have hitems : (inv.addItem (BlockState.new item) 1).1.items.toList =
      (Inventory.fillEmpty (BlockState.new item)
        (Inventory.stackOnto (BlockState.new item) 1 inv.items.toList).2
        (Inventory.stackOnto (BlockState.new item) 1 inv.items.toList).1).1 := by
    simp [Inventory.addItem, Vector.toList]
  have hrest : wareCount w ((inv.addItem (BlockState.new item) 1).1.offhand ::
      (inv.addItem (BlockState.new item) 1).1.armor.toList) =
      wareCount w (inv.offhand :: inv.armor.toList) := rfl
  unfold inventoryCount place one
  rw [hitems, hrest]
  cases hfind : (inv.items.toList.filterMap id).find? (hasRoom (BlockState.new item)) with
  | some s =>
      have hstack := stackOnto_one_of_some (w := w) hfind
      rw [hstack.2, Inventory.fillEmpty_zero, hstack.1]
      simp only [Option.some.injEq]
      split <;> omega
  | none =>
      rw [stackOnto_one_of_none hfind, wareCount_fillEmpty_one]
      have hid : (BlockState.new item).id = item := rfl
      by_cases hempty : inv.items.toList.any Option.isNone
      · simp only [hempty, if_true, Option.some.injEq, hid]
        split <;> omega
      · simp only [hempty, if_false, reduceCtorEq]
        omega

/-! ## What a step does to the amounts -/

section

variable {fl : Reals F} {s : World F} {eid : EntityId} {uuid : Uuid} {w : Ware}

theorem dropped_addItemToPlayer (item : BitVec 32) :
    (s.addItemToPlayer uuid item).dropped = s.dropped := by
  unfold addItemToPlayer
  split <;> rfl

/-- The player is given what the inventory makes of the item. -/
theorem credited_addItemToPlayer (item : BitVec 32) :
    (s.addItemToPlayer uuid item).credited w = s.credited w + one (s.received uuid item) w := by
  unfold addItemToPlayer received
  cases s.players.lookup uuid with
  | none => exact (Int.add_zero _).symm
  | some p =>
      simp only [Option.bind_some, receives]
      by_cases hair : w.id = 0
      · -- what counts as received is never air
        rw [if_pos hair]
        have hzero : one (if item = 0 then none else place p.inventory item) w = 0 := by
          refine if_neg fun h => ?_
          split at h
          · cases h
          · rename_i hitem
            exact hitem ((place_id h).symm.trans hair)
        rw [hzero, Int.add_zero]
      · rw [if_neg hair, inventoryCount_addItem]
        by_cases hitem : item = 0
        · have hplace : one (place p.inventory item) w = 0 :=
            if_neg fun h => hair ((place_id h).trans hitem)
          rw [if_pos hitem, hplace, one_none]
          omega
        · rw [if_neg hitem]
          omega

theorem amount_addItemToPlayer (s : World F) (uuid : Uuid) (item : BitVec 32) (w : Ware) :
    (s.addItemToPlayer uuid item).amount w = s.amount w + one (s.received uuid item) w := by
  unfold amount
  rw [credited_addItemToPlayer, dropped_addItemToPlayer]
  omega

/-- The amount is that of one entity, and that of the others. -/
theorem amount_eq_erase (s : World F) (eid : EntityId) (w : Ware) :
    s.amount w = s.credited w + (one (s.worthAt eid) w +
      total (fun _ r => one (worth r) w) (s.dropped.erase eid)) := by
  unfold amount worthAt
  rw [total_eq_erase _ s.dropped eid]
  cases h : s.dropped.lookup eid with
  | none => rw [weightAt_of_none h, Option.bind_none, one_none]
  | some r => rw [weightAt_of_some h, Option.bind_some]

theorem total_insert_row (t : AList fun _ : EntityId => Row F) (r : Row F) :
    total (fun _ r => one (worth r) w) (t.insert eid r) =
      one (worth r) w + total (fun _ r => one (worth r) w) (t.erase eid) :=
  total_insert _ _ _ _

/-- A new row takes the place of what was there. -/
theorem amount_insert_iff (r : Row F) (δ : Ware → Int) :
    ({ s with dropped := s.dropped.insert eid r } : World F).amount = s.amount + δ ↔
      ∀ w, one (worth r) w = one (s.worthAt eid) w + δ w := by
  rw [funext_iff]
  refine forall_congr' fun w => ?_
  have hbefore := amount_eq_erase s eid w
  have hafter : ({ s with dropped := s.dropped.insert eid r } : World F).amount w =
      s.credited w + (one (worth r) w + total (fun _ r => one (worth r) w) (s.dropped.erase eid)) :=
    congrArg (s.credited w + ·) (total_insert_row _ r)
  rw [Pi.add_apply, hbefore, hafter]
  constructor <;> intro h <;> omega

/-- A stack of items counts for its ware, unless it is air. -/
theorem change_drop (stack : ItemStack) (pos : Position F) : change (.drop eid stack pos) w =
    if stack.item.id ≠ 0 ∧ ware stack = w then (stack.count : Int) else 0 := by
  have hchange : change (.drop eid stack pos) w =
    if w.id = 0 then 0 else (wareUnits w stack : Int) := rfl
  rw [hchange, wareUnits]
  by_cases hw : ware stack = w
  · subst hw
    have hid : (ware stack).id = stack.item.id := rfl
    by_cases hair : stack.item.id = 0
    · rw [hid, if_pos hair, if_neg fun h => h.1 hair]
    · rw [hid, if_neg hair, if_pos rfl, if_pos ⟨hair, rfl⟩]
  · rw [if_neg hw, Int.natCast_zero, ite_self, if_neg fun h => hw h.2]

theorem one_some_self (w : Ware) : one (some w) w = 1 := if_pos rfl

theorem one_nonneg (o : Option Ware) (w : Ware) : 0 ≤ one o w := by
  unfold one
  split <;> omega

theorem amount_drop_iff {stack : ItemStack} {pos : Position F} :
    (s.step fl (.drop eid stack pos)).amount = s.amount + change (.drop eid stack pos) ↔
      s.DropOk eid stack := by
  rw [step, amount_insert_iff]
  simp only [change_drop]
  unfold DropOk worth
  by_cases hair : stack.item.id = 0
  · simp only [hair, if_true, ne_eq, not_true_eq_false, false_and, if_false, Int.add_zero]
    rw [← one_inj, funext_iff]
    exact forall_congr' fun w => eq_comm
  · simp only [hair, if_false, ne_eq, not_false_eq_true, true_and]
    constructor
    · intro h
      have hrow := h ⟨stack.item.id, none⟩
      rw [one_some_self] at hrow
      by_cases hware : ware stack = ⟨stack.item.id, none⟩
      · have hnbt : stack.nbt = none := congrArg Ware.nbt hware
        rw [if_pos hware] at hrow
        cases hold : s.worthAt eid with
        | none =>
            rw [hold, one_none] at hrow
            exact .inl ⟨by omega, hnbt, rfl⟩
        | some w' =>
            have hw' := h w'
            rw [hold, one_some_self] at hw'
            by_cases hsame : (⟨stack.item.id, none⟩ : Ware) = w'
            · subst hsame
              rw [hold, one_some_self] at hrow
              exact .inr ⟨by omega, rfl⟩
            · rw [one, if_neg fun e => hsame (Option.some.inj e)] at hw'
              split at hw' <;> omega
      · -- the row is worth nothing of what was dropped
        have hstack := h (ware stack)
        have hnonneg := one_nonneg (s.worthAt eid) (ware stack)
        rw [if_neg hware] at hrow
        rw [if_pos rfl, one, if_neg fun e => hware (Option.some.inj e).symm] at hstack
        refine .inr ⟨by omega, ?_⟩
        by_contra hold
        rw [one, if_neg hold] at hrow
        omega
    · rintro (⟨hcount, hnbt, hold⟩ | ⟨hcount, hold⟩) w
      · have hware : ware stack = ⟨stack.item.id, none⟩ := by rw [ware, hnbt]
        rw [hold, hcount, hware, one_none]
        unfold one
        simp only [Option.some.injEq, Int.natCast_one, Int.zero_add]
      · rw [hold, hcount, Int.natCast_zero, ite_self, Int.add_zero]

theorem amount_dropOrb_iff {pos : Position F} :
    (s.step fl (.dropOrb eid pos)).amount = s.amount + change (.dropOrb eid pos) ↔
      s.worthAt eid = none := by
  have hzero : (change (.dropOrb eid pos : Action F) : Ware → Int) = fun _ => 0 := rfl
  rw [step, amount_insert_iff, hzero, ← one_inj, funext_iff]
  refine forall_congr' fun w => ?_
  have hworth : worth (⟨0, pos⟩ : Row F) = none := if_pos rfl
  rw [hworth, Int.add_zero]
  exact eq_comm

/-- A world that stays as it is keeps the ledger of an action that changes nothing. -/
theorem amount_keep (s : World F) : s.amount = s.amount + fun _ => 0 :=
  funext fun w => (Int.add_zero (s.amount w)).symm

/-- **Taking a row out keeps the ledger exactly when a player is credited with its worth.** -/
theorem amount_erase_iff {s' : World F} {gained : Option Ware}
    (hdropped : s'.dropped = s.dropped.erase eid)
    (hcredited : ∀ w, s'.credited w = s.credited w + one gained w) :
    (s'.amount = s.amount + fun _ => 0) ↔ gained = s.worthAt eid := by
  rw [← one_inj, funext_iff, funext_iff]
  refine forall_congr' fun w => ?_
  have hbefore := amount_eq_erase s eid w
  have hafter : s'.amount w = s.credited w + one gained w +
      total (fun _ r => one (worth r) w) (s.dropped.erase eid) := by
    unfold amount
    rw [hcredited, hdropped]
  rw [hafter, Pi.add_apply, hbefore]
  constructor <;> intro h <;> omega

/-- An entity goes, and a player is given an item. -/
theorem amount_pickup_iff {item : BitVec 32} :
    (s.step fl (.pickup uuid eid item)).amount = s.amount + change (.pickup uuid eid item : Action F) ↔
      s.PickupOk uuid eid item := by
  have hzero : (change (.pickup uuid eid item : Action F) : Ware → Int) = fun _ => 0 := rfl
  unfold PickupOk
  rw [step, pickup, hzero]
  by_cases hfound : s.toPickup.contains (uuid, eid, item) = true
  · rw [if_pos hfound, forall_prop_of_true hfound]
    exact amount_erase_iff rfl fun w => credited_addItemToPlayer item
  · rw [if_neg hfound]
    exact iff_of_true (amount_keep s) fun h => absurd h hfound

theorem amount_absorb_iff :
    (s.step fl (.absorb eid)).amount = s.amount + change (.absorb eid : Action F) ↔
      (s.absorbed.contains eid = true → s.worthAt eid = none) := by
  have hzero : (change (.absorb eid : Action F) : Ware → Int) = fun _ => 0 := rfl
  rw [step, absorb, hzero]
  by_cases hfound : s.absorbed.contains eid = true
  · rw [if_pos hfound, forall_prop_of_true hfound, eq_comm (a := s.worthAt eid)]
    exact amount_erase_iff rfl fun w => (Int.add_zero (s.credited w)).symm
  · rw [if_neg hfound]
    exact iff_of_true (amount_keep s) fun h => absurd h hfound

theorem item_pull (p : Player F) (r : Row F) : (pull fl p r).item = r.item := by
  unfold pull
  simp only
  split <;> rfl

theorem attract_of_some {p : Player F} {r : Row F} (hp : s.players.lookup uuid = some p)
    (hr : s.dropped.lookup eid = some r) : s.attract fl uuid eid =
      if withinReach fl p r then
        ({ s with dropped := s.dropped.insert eid (pull fl p r) } : World F).addItemToPlayer
          uuid r.item
      else { s with dropped := s.dropped.insert eid (pull fl p r) } := by
  unfold attract
  rw [hp, hr]

/-- Nobody is attracted, or nothing attracts. -/
theorem attract_of_none (h : s.players.lookup uuid = none ∨ s.dropped.lookup eid = none) :
    s.attract fl uuid eid = s := by
  unfold attract
  split
  · rename_i hp hr
    rcases h with h | h
    · rw [hp] at h
      cases h
    · rw [hr] at h
      cases h
  · rfl

/-- A pulled item stays; what a player is given of it is too much. -/
theorem amount_attract_iff :
    (s.step fl (.attract uuid eid)).amount = s.amount + change (.attract uuid eid : Action F) ↔
      s.AttractOk fl uuid eid := by
  have hzero : (change (.attract uuid eid : Action F) : Ware → Int) = fun _ => 0 := rfl
  rw [step, hzero]
  cases hp : s.players.lookup uuid with
  | none =>
      rw [attract_of_none (.inl hp)]
      refine iff_of_true (amount_keep s) fun p r h => ?_
      rw [hp] at h
      cases h
  | some p =>
      cases hr : s.dropped.lookup eid with
      | none =>
          rw [attract_of_none (.inr hr)]
          refine iff_of_true (amount_keep s) fun p r _ h => ?_
          rw [hr] at h
          cases h
      | some r =>
          have hok : s.AttractOk fl uuid eid ↔
              (withinReach fl p r = true → receives p.inventory r.item = none) := by
            refine ⟨fun h => h p r hp hr, fun h p' r' hp' hr' => ?_⟩
            obtain rfl := Option.some.inj (hp.symm.trans hp')
            obtain rfl := Option.some.inj (hr.symm.trans hr')
            exact h
          rw [hok, attract_of_some hp hr]
          -- pulling changes nothing, so only what the player is given counts
          have hpull : ({ s with dropped := s.dropped.insert eid (pull fl p r) } : World F).amount =
              s.amount := by
            have hworth : worth (pull fl p r) = worth r := by
              unfold worth
              rw [item_pull]
            have hsame : ({ s with dropped := s.dropped.insert eid (pull fl p r) } : World F).amount =
                s.amount + fun _ => 0 :=
              (amount_insert_iff (pull fl p r) fun _ => 0).2
                fun w => by rw [worthAt, hr, Option.bind_some, hworth, Int.add_zero]
            exact hsame.trans (amount_keep s).symm
          by_cases hreach : withinReach fl p r = true
          · rw [if_pos hreach, forall_prop_of_true hreach, ← one_inj, funext_iff, funext_iff]
            refine forall_congr' fun w => ?_
            have hreceived : ({ s with dropped := s.dropped.insert eid (pull fl p r) } :
                World F).received uuid r.item = receives p.inventory r.item := by
              rw [received, hp, Option.bind_some]
            rw [amount_addItemToPlayer, hreceived, hpull, Pi.add_apply, one_none]
            constructor <;> intro h <;> omega
          · rw [if_neg hreach, hpull]
            exact iff_of_true (amount_keep s) fun h => absurd h hreach

/-! ## Merging -/

variable {a : Row F} {t : AList fun _ : EntityId => Row F} {later : List EntityId}

/-- The first item is there, and what it is stays the same. -/
def Keeps (t : AList fun _ : EntityId => Row F) (eid : EntityId) (item : BitVec 32) : Prop :=
  ∃ r, t.lookup eid = some r ∧ r.item = item

theorem mergeOne_of_mergeable {eid' : EntityId} {b : Row F} (hb : t.lookup eid' = some b)
    (hmerge : mergeable fl eid a eid' b = true) :
    mergeOne fl eid a t eid' = (t.erase eid').insert eid ⟨a.item, midpoint fl a.pos b.pos⟩ := by
  unfold mergeOne
  rw [hb]
  exact if_pos hmerge

theorem mergeOne_of_not {eid' : EntityId}
    (h : ∀ b, t.lookup eid' = some b → mergeable fl eid a eid' b = false) :
    mergeOne fl eid a t eid' = t := by
  unfold mergeOne
  cases hb : t.lookup eid' with
  | none => rfl
  | some b => simp only [h b hb, Bool.false_eq_true, if_false]

/-- A merge takes one item of the kind out of the table. -/
theorem total_mergeOne (hkeeps : Keeps t eid a.item) {eid' : EntityId} {b : Row F}
    (hb : t.lookup eid' = some b) (hmerge : mergeable fl eid a eid' b = true) :
    Keeps (mergeOne fl eid a t eid') eid a.item ∧
      total (fun _ r => one (worth r) w) (mergeOne fl eid a t eid') + one (worth a) w =
        total (fun _ r => one (worth r) w) t := by
  obtain ⟨r, hr, hitem⟩ := hkeeps
  have hne : eid' ≠ eid ∧ a.item = b.item := by
    unfold mergeable at hmerge
    simp only [Bool.and_eq_true, decide_eq_true_eq] at hmerge
    exact hmerge.1
  have hworth : ∀ {x : Row F}, x.item = a.item → worth x = worth a := by
    intro x hx
    unfold worth
    rw [hx]
  rw [mergeOne_of_mergeable hb hmerge]
  refine ⟨⟨_, AList.lookup_insert _, rfl⟩, ?_⟩
  have hfirst := total_eq_erase (fun _ r => one (worth r) w) t eid'
  have hsecond := total_eq_erase (fun _ r => one (worth r) w) (t.erase eid') eid
  have hr' : (t.erase eid').lookup eid = some r := by
    rw [AList.lookup_erase_ne hne.1.symm]
    exact hr
  rw [weightAt_of_some hb, hworth hne.2.symm] at hfirst
  rw [weightAt_of_some hr', hworth hitem] at hsecond
  have hnew : worth (⟨a.item, midpoint fl a.pos b.pos⟩ : Row F) = worth a := rfl
  rw [total_insert_row, hnew]
  omega

/-- The pass takes nothing but items of the kind out of the table, and one at least if there is one
    to merge. -/
theorem total_foldl_mergeOne (hkeeps : Keeps t eid a.item) :
    total (fun _ r => one (worth r) w) (later.foldl (mergeOne fl eid a) t) ≤
      total (fun _ r => one (worth r) w) t ∧
    ((∃ eid' ∈ later, ∃ b, t.lookup eid' = some b ∧ mergeable fl eid a eid' b = true) →
      total (fun _ r => one (worth r) w) (later.foldl (mergeOne fl eid a) t) + one (worth a) w ≤
        total (fun _ r => one (worth r) w) t) := by
  induction later generalizing t with
  | nil => exact ⟨le_refl _, fun ⟨_, h, _⟩ => absurd h List.not_mem_nil⟩
  | cons eid' later ih =>
      rw [List.foldl_cons]
      by_cases hfirst : ∃ b, t.lookup eid' = some b ∧ mergeable fl eid a eid' b = true
      · obtain ⟨b, hb, hmerge⟩ := hfirst
        have hstep := total_mergeOne (w := w) hkeeps hb hmerge
        have hrest := (ih hstep.1).1
        have hnonneg := one_nonneg (worth a) w
        exact ⟨by omega, fun _ => by omega⟩
      · have hsame : mergeOne fl eid a t eid' = t := by
          refine mergeOne_of_not fun b hb => ?_
          rw [← Bool.not_eq_true]
          exact fun hmerge => hfirst ⟨b, hb, hmerge⟩
        rw [hsame]
        refine ⟨(ih hkeeps).1, fun ⟨e, he, b, hb, hmerge⟩ => ?_⟩
        rcases List.mem_cons.1 he with rfl | he
        · exact absurd ⟨b, hb, hmerge⟩ hfirst
        · exact (ih hkeeps).2 ⟨e, he, b, hb, hmerge⟩

/-- When there is nothing to merge the pass does nothing. -/
theorem foldl_mergeOne_of_not
    (h : ∀ eid' ∈ later, ∀ b, t.lookup eid' = some b → mergeable fl eid a eid' b = false) :
    later.foldl (mergeOne fl eid a) t = t := by
  induction later with
  | nil => rfl
  | cons eid' later ih =>
      rw [List.foldl_cons, mergeOne_of_not (h eid' List.mem_cons_self)]
      exact ih fun e he => h e (List.mem_cons_of_mem _ he)

/-- Merging orbs takes no item out of the table. -/
theorem total_foldl_orbs (hkeeps : Keeps t eid a.item) (horb : a.item = 0) :
    total (fun _ r => one (worth r) w) (later.foldl (mergeOne fl eid a) t) =
      total (fun _ r => one (worth r) w) t := by
  have hworth : worth a = none := if_pos horb
  induction later generalizing t with
  | nil => rfl
  | cons eid' later ih =>
      rw [List.foldl_cons]
      by_cases hfirst : ∃ b, t.lookup eid' = some b ∧ mergeable fl eid a eid' b = true
      · obtain ⟨b, hb, hmerge⟩ := hfirst
        have hstep := total_mergeOne (w := w) hkeeps hb hmerge
        rw [hworth, one_none, Int.add_zero] at hstep
        rw [ih hstep.1, hstep.2]
      · have hsame : mergeOne fl eid a t eid' = t := by
          refine mergeOne_of_not fun b hb => ?_
          rw [← Bool.not_eq_true]
          exact fun hmerge => hfirst ⟨b, hb, hmerge⟩
        rw [hsame, ih hkeeps]

theorem amount_mergeOnto_iff :
    (s.step fl (.mergeOnto eid later)).amount =
      s.amount + change (.mergeOnto eid later : Action F) ↔ s.MergeOk fl eid later := by
  have hzero : (change (.mergeOnto eid later : Action F) : Ware → Int) = fun _ => 0 := rfl
  unfold MergeOk
  rw [step, mergeOnto, hzero]
  cases ha : s.dropped.lookup eid with
  | none => exact iff_of_true (amount_keep s) fun a h => by cases h
  | some a =>
      simp only [Option.some.injEq, forall_eq']
      have hkeeps : Keeps s.dropped eid a.item := ⟨a, ha, rfl⟩
      have hamount : ∀ t : AList fun _ : EntityId => Row F,
          ({ s with dropped := t } : World F).amount = s.amount + (fun _ => 0) ↔
            ∀ w, total (fun _ r => one (worth r) w) t =
              total (fun _ r => one (worth r) w) s.dropped := by
        intro t
        rw [funext_iff]
        refine forall_congr' fun w => ?_
        rw [Pi.add_apply, Int.add_zero]
        exact add_right_inj (s.credited w)
      rw [hamount]
      by_cases horb : a.item = 0
      · exact iff_of_true (fun w => total_foldl_orbs hkeeps horb) (.inl horb)
      · rw [or_iff_right horb]
        constructor
        · intro h eid' he b hb
          rw [← Bool.not_eq_true]
          intro hmerge
          have hless := (total_foldl_mergeOne (w := ⟨a.item, none⟩) hkeeps).2 ⟨eid', he, b, hb, hmerge⟩
          have hworth : worth a = some ⟨a.item, none⟩ := if_neg horb
          rw [h, hworth, one_some_self] at hless
          omega
        · intro h w
          rw [foldl_mergeOne_of_not h]

/-! ## Runs -/

/-- A given item came from an entity that is gone: a pulled one is not. -/
theorem takenOnce_of_harmless {a : Action F} (h : s.Harmless fl a) : s.TakenOnce fl a := by
  intro eid hcredited
  cases a with
  | attract uuid eid' =>
      exfalso
      simp only [creditedEntity] at hcredited
      split at hcredited
      · rename_i p r hp hr
        split at hcredited
        · rename_i hreach
          rw [Bool.and_eq_true] at hreach
          have hnone : receives p.inventory r.item = none := h p r hp hr hreach.1
          rw [hnone] at hreach
          cases hreach.2
        · cases hcredited
      · cases hcredited
  | pickup uuid eid' item =>
      simp only [creditedEntity] at hcredited
      split at hcredited
      · rename_i hfound
        obtain rfl := Option.some.inj hcredited
        rw [Bool.and_eq_true] at hfound
        have hworth : s.received uuid item = s.worthAt eid' := h hfound.1
        rw [hworth] at hfound
        have hthere : eid' ∈ s.dropped := by
          rw [← AList.lookup_isSome]
          have hsome := hfound.2
          unfold worthAt at hsome
          cases hlookup : s.dropped.lookup eid' with
          | none =>
              rw [hlookup] at hsome
              cases hsome
          | some r => rfl
        refine ⟨hthere, fun hgone => ?_⟩
        rw [step, pickup, if_pos hfound.1] at hgone
        exact (AList.mem_erase.1 hgone).1 rfl
      · cases hcredited
  | _ => cases hcredited

theorem amount_iff (s : World F) (a : Action F) :
    (s.step fl a).amount = s.amount + change a ↔ s.Harmless fl a := by
  have hnothing : s.amount = s.amount + fun _ => 0 := funext fun w => (Int.add_zero _).symm
  cases a with
  | drop eid stack pos => exact amount_drop_iff
  | dropOrb eid pos => exact amount_dropOrb_iff
  | mergeOnto eid later => exact amount_mergeOnto_iff
  | attract uuid eid => exact amount_attract_iff
  | pickup uuid eid item => exact amount_pickup_iff
  | absorb eid => exact amount_absorb_iff
  | findNearby uuid pos eid =>
      refine iff_of_true ?_ trivial
      rw [step, findNearby]
      split
      · split <;> exact hnothing
      · exact hnothing
  | findOrb uuid eid =>
      refine iff_of_true ?_ trivial
      rw [step, findOrb]
      split
      · split <;> exact hnothing
      · exact hnothing
  | setPlayer uuid p => exact iff_of_true hnothing trivial
  | removePlayer uuid => exact iff_of_true hnothing trivial

end

end World

open World

/-- **Along a run, what entities stand for and what players were given is what was dropped, and every
    entity that a player is given goes then, exactly when every step is harmless.** -/
theorem keepsLedger_and_takenOnce_iff {F : Type} (fl : Reals F) (s : World F)
    (actions : List (Action F)) :
    (KeepsLedger (step fl) amount (fun _ => change) s actions ∧
      Along (step fl) (TakenOnce fl) s actions) ↔ Along (step fl) (Harmless fl) s actions := by
  rw [keepsLedger_iff fun s a => amount_iff s a, along_and]
  exact along_iff (fun _ => True) (fun s a _ => and_iff_left_of_imp takenOnce_of_harmless)
    (fun _ _ _ _ => trivial) trivial actions

/-- Arithmetic without rounding. -/
def exactReals : Reals Rat where
  toFloats := Floats.exact
  div := (· / ·)

/-- A player with an empty inventory. -/
def onePlayer : World Rat where
  dropped := ∅
  players := AList.singleton 1 ⟨⟨0, 64, 0⟩, Inventory.new⟩
  toPickup := []
  absorbed := []
  credited := fun _ => 0

/-- A stack of 64 is dropped beside the player, who picks it up. -/
def pickUpStack : List (Action Rat) :=
  [.drop 10000 (ItemStack.new ⟨1, 0⟩ 64) ⟨1, 64, 0⟩, .findNearby 1 ⟨0, 64, 0⟩ 10000,
    .pickup 1 10000 1]

/-- The player got one item. -/
theorem not_forall_pickUpStack : ¬∀ (F : Type) (fl : Reals F) (s : World F)
    (actions : List (Action F)),
    KeepsLedger (step fl) amount (fun _ => change) s actions ∧
      Along (step fl) (TakenOnce fl) s actions := by
  intro h
  have hledger := (h Rat exactReals onePlayer pickUpStack).1
  have hunits := congrFun (hledger pickUpStack (List.prefix_refl _)) ⟨1, none⟩
  exact absurd hunits (by decide +kernel)

end Apoptotic.Drops
