import Apoptotic.Lib.Totals
import Apoptotic.Player.ContainerClick
import Mathlib.Algebra.Group.Pi.Basic

/-!
# Sessions on containers

`ContainerManager` of `mc-player/src/container.rs` with the handlers of `mc-network/src/play_loop.rs`
that open a container, click in it and close it.  Any number of players take these steps in any
order.  What a click does to the slots of its window and to the cursor is left open; a ledger says how
many items it moved into them.  State ids are left out.

A window shows the slots that are stored under its position, so a position is only counted in storage
while no window shows it.

Principal result: `keepsLedger_iff_harmless` — the items in storage, windows, cursors and dropped
stacks change only by what the clicks moved exactly when every step of the run is `Harmless`.
-/

namespace Apoptotic.Containers

open Commands Totals

abbrev Uuid := Commands.Uuid

structure BlockPos where
  x : BitVec 32
  y : BitVec 32
  z : BitVec 32
  deriving DecidableEq

structure ContainerData where
  pos : BlockPos
  slots : List (Option ItemStack)

abbrev Windows := AList fun _ : BitVec 8 => ContainerData

structure ContainerManager where
  containers : Windows
  playerWindows : AList fun _ : Uuid => BitVec 8
  nextWindowId : BitVec 8
  persistent : AList fun _ : BlockPos => List (Option ItemStack)

namespace ContainerManager

def new : ContainerManager := ⟨∅, ∅, 1, ∅⟩

variable (m : ContainerManager) (uuid : Uuid) (windowId : BitVec 8)

/-- `open` -/
def openWindow (pos : BlockPos) (slotCount : Nat) : ContainerManager where
  containers := m.containers.insert m.nextWindowId
    ⟨pos, (m.persistent.lookup pos).getD (List.replicate slotCount none)⟩
  playerWindows := m.playerWindows.insert uuid m.nextWindowId
  -- wrap around, skip 0
  nextWindowId := if m.nextWindowId + 1 = 0 then 1 else m.nextWindowId + 1
  persistent := m.persistent

def close : ContainerManager :=
  let m := { m with playerWindows := m.playerWindows.erase uuid }
  match m.containers.lookup windowId with
  | some container =>
      { m with
        containers := m.containers.erase windowId
        persistent := m.persistent.insert container.pos container.slots }
  | none => m

def playerWindow : Option (BitVec 8) := m.playerWindows.lookup uuid

def allSlots : List (Option ItemStack) :=
  match m.containers.lookup windowId with
  | some container => container.slots
  | none => []

/-- Any number of `set_slot`s. -/
def setSlots (slots : List (Option ItemStack)) : ContainerManager :=
  match m.containers.lookup windowId with
  | some container =>
      { m with containers := m.containers.insert windowId { container with slots := slots } }
  | none => m

end ContainerManager

/-- The containers and the cursors of the players, and the stacks dropped from these. -/
structure Sessions where
  manager : ContainerManager
  cursors : AList fun _ : Uuid => ItemStack
  dropped : List ItemStack

/-- What a click makes of the slots of its window and of the cursor. -/
abbrev Effect := List (Option ItemStack) → Option ItemStack →
  List (Option ItemStack) × Option ItemStack

/-- The effect of a click of the default branch. -/
def clickEffect (inventory : Inventory) (c : Click) : Effect := fun slots cursor =>
  let t := (⟨slots, inventory, cursor, []⟩ : ClickState).click c
  (t.slots, t.cursor)

inductive Action where
  | useItemOn (uuid : Uuid) (pos : BlockPos) (slotCount : Nat)
  | containerClick (uuid : Uuid) (windowId : BitVec 8) (effect : Effect)
  | containerClose (uuid : Uuid) (windowId : BitVec 8)

namespace Sessions

variable (s : Sessions)

def setCursorItem (uuid : Uuid) (item : Option ItemStack) : Sessions :=
  match item with
  | some stack => { s with cursors := s.cursors.insert uuid stack }
  | none => { s with cursors := s.cursors.erase uuid }

/-- The slots of the window and the cursor after a click. -/
def clicked (uuid : Uuid) (windowId : BitVec 8) (effect : Effect) :
    List (Option ItemStack) × Option ItemStack :=
  effect (s.manager.allSlots windowId) (s.cursors.lookup uuid)

/-- A player's own window is clicked, also when another player closed it. -/
def containerClick (uuid : Uuid) (windowId : BitVec 8) (effect : Effect) : Sessions :=
  if s.manager.playerWindow uuid = some windowId then
    let after := s.clicked uuid windowId effect
    { s with manager := s.manager.setSlots windowId after.1 }.setCursorItem uuid after.2
  else s

/-- The cursor is dropped, and whatever window the packet names is closed. -/
def containerClose (uuid : Uuid) (windowId : BitVec 8) : Sessions where
  manager := s.manager.close uuid windowId
  cursors := s.cursors.erase uuid
  dropped :=
    match s.cursors.lookup uuid with
    | some stack => stack :: s.dropped
    | none => s.dropped

def step : Action → Sessions
  | .useItemOn uuid pos slotCount =>
      { s with manager := s.manager.openWindow uuid pos slotCount }
  | .containerClick uuid windowId effect => s.containerClick uuid windowId effect
  | .containerClose uuid windowId => s.containerClose uuid windowId

end Sessions

/-! ## Counting -/

/-- Some window shows the position. -/
def Windows.Shows (windows : Windows) (pos : BlockPos) : Prop :=
  ∃ r ∈ windows.entries, r.2.pos = pos

instance (windows : Windows) (pos : BlockPos) : Decidable (windows.Shows pos) :=
  inferInstanceAs (Decidable (∃ r ∈ windows.entries, r.2.pos = pos))

/-- How many items of a kind are stored at a position that none of the windows shows. -/
def storedUnless (windows : Windows) (k : Kind) (pos : BlockPos)
    (slots : List (Option ItemStack)) : Nat :=
  if windows.Shows pos then 0 else countOf k slots

/-- How many items of a kind are in windows and storage. -/
def held (windows : Windows) (persistent : AList fun _ : BlockPos => List (Option ItemStack))
    (k : Kind) : Nat :=
  total (storedUnless windows k) persistent +
    total (fun _ container => countOf k container.slots) windows

namespace Sessions

variable (s : Sessions) (k : Kind)

def units : Nat :=
  held s.manager.containers s.manager.persistent k + total (fun _ stack => stack.units k) s.cursors +
    (s.dropped.map (ItemStack.units k)).sum

def amount : Kind → Int := fun k => s.units k

/-- By how much a step changes the numbers of items: a click by what it moves, the others not at
    all. -/
def moved : Action → Kind → Int
  | .containerClick uuid windowId effect => fun k =>
      if s.manager.playerWindow uuid = some windowId then
        let after := s.clicked uuid windowId effect
        (if (s.manager.containers.lookup windowId).isSome then
          (countOf k after.1 - countOf k (s.manager.allSlots windowId) : Int) else 0) +
          (slotUnits k after.2 - slotUnits k (s.cursors.lookup uuid))
      else 0
  | _ => fun _ => 0

end Sessions

/-! ## Harmless steps -/

namespace ContainerManager

variable (m : ContainerManager) (k : Kind)

/-- The windows under other ids. -/
def others (windowId : BitVec 8) : Windows := m.containers.erase windowId

/-- What is stored at a position. -/
def stored (pos : BlockPos) : Nat := weightAt (fun _ slots => countOf k slots) m.persistent pos

/-- What the next window would copy although another one shows it. -/
def copied (pos : BlockPos) : Nat :=
  if (m.others m.nextWindowId).Shows pos then m.stored k pos else 0

/-- What is stored at the position of a window and shown by no other. -/
def masked (windowId : BitVec 8) : Nat :=
  match m.containers.lookup windowId with
  | some container =>
      if (m.others windowId).Shows container.pos then 0 else m.stored k container.pos
  | none => 0

end ContainerManager

open ContainerManager

/-- A window is opened when its id is not in use and no other window shows the position, or it has no
    items; more generally when what is copied, and what shows up again in storage, makes up for the
    window that is overwritten.  A window is closed only when no other one shows its position, or it
    is empty. -/
def Harmless (s : Sessions) : Action → Prop
  | .useItemOn _ pos _ =>
      ∀ k, s.manager.copied k pos + s.manager.masked k s.manager.nextWindowId =
        countOf k (s.manager.allSlots s.manager.nextWindowId)
  | .containerClick .. => True
  | .containerClose _ windowId => ∀ container,
      s.manager.containers.lookup windowId = some container →
        (s.manager.others windowId).Shows container.pos → ∀ k, countOf k container.slots = 0

/-! ## One window more or less -/

section

variable {windows : Windows} {windowId : BitVec 8} {container : ContainerData} {pos : BlockPos}
  {persistent : AList fun _ : BlockPos => List (Option ItemStack)} {k : Kind}

theorem shows_of_lookup (h : windows.lookup windowId = some container) : windows.Shows pos ↔
    container.pos = pos ∨ Windows.Shows (windows.erase windowId) pos := by
  unfold Windows.Shows
  simp only [(entries_perm h).mem_iff, List.mem_cons, or_and_right, exists_or, exists_eq_left]

theorem weightAt_storedUnless : weightAt (storedUnless windows k) persistent pos =
    if windows.Shows pos then 0 else weightAt (fun _ slots => countOf k slots) persistent pos := by
  cases h : persistent.lookup pos with
  | none => rw [weightAt_of_none h, weightAt_of_none h, ite_self]
  | some slots =>
      rw [weightAt_of_some h, weightAt_of_some h]
      rfl

/-- Showing one more position takes what is stored there out of the count. -/
theorem total_storedUnless {windows' : Windows}
    (h : ∀ q, windows'.Shows q ↔ pos = q ∨ windows.Shows q) :
    total (storedUnless windows' k) persistent +
      (if windows.Shows pos then 0 else weightAt (fun _ slots => countOf k slots) persistent pos) =
      total (storedUnless windows k) persistent := by
  have hrest : total (storedUnless windows' k) (persistent.erase pos) =
      total (storedUnless windows k) (persistent.erase pos) := by
    refine total_erase_congr fun q hq slots => ?_
    unfold storedUnless
    rw [if_congr (h q) rfl rfl]
    simp [Ne.symm hq]
  have hshown : windows'.Shows pos := (h pos).2 (.inl rfl)
  have hsplit := total_eq_erase (storedUnless windows k) persistent pos
  rw [total_eq_erase (storedUnless windows' k) _ pos, hrest, weightAt_storedUnless, if_pos hshown]
  rw [weightAt_storedUnless] at hsplit
  omega

/-- Storing other slots at a position. -/
theorem total_storedUnless_insert {slots : List (Option ItemStack)} :
    total (storedUnless windows k) (persistent.insert pos slots) +
      (if windows.Shows pos then 0 else weightAt (fun _ slots => countOf k slots) persistent pos) =
      total (storedUnless windows k) persistent +
        if windows.Shows pos then 0 else countOf k slots := by
  have hsplit := total_eq_erase (storedUnless windows k) persistent pos
  rw [weightAt_storedUnless] at hsplit
  have hinsert := total_insert (storedUnless windows k) persistent pos slots
  rw [storedUnless] at hinsert
  omega

/-- A window adds its slots, and hides what is stored under it. -/
theorem held_eq_others (m : ContainerManager) (windowId : BitVec 8) :
    held m.containers m.persistent k + m.masked k windowId =
      held (m.others windowId) m.persistent k + countOf k (m.allSlots windowId) := by
  have hwindows : total (fun _ container => countOf k container.slots) m.containers =
      weightAt (fun _ container => countOf k container.slots) m.containers windowId +
        total (fun _ container => countOf k container.slots) (m.others windowId) :=
    total_eq_erase _ _ _
  unfold held masked allSlots
  cases hlookup : m.containers.lookup windowId with
  | none =>
      have hothers : m.others windowId = m.containers := erase_of_none hlookup
      simp only [hothers, countOf_nil]
  | some container =>
      have hstored : total (storedUnless m.containers k) m.persistent +
          (if (m.others windowId).Shows container.pos then 0 else m.stored k container.pos) =
          total (storedUnless (m.others windowId) k) m.persistent :=
        total_storedUnless fun q => shows_of_lookup hlookup
      rw [weightAt_of_some hlookup] at hwindows
      simp only
      omega

theorem countOf_replicate (n : Nat) : countOf k (List.replicate n none) = 0 := by
  induction n with
  | zero => rfl
  | succ n ih => rw [List.replicate_succ, countOf_cons, ih, slotUnits_none]

/-- The slots of a new window are those stored at its position. -/
theorem countOf_opened (m : ContainerManager) (pos : BlockPos) (slotCount : Nat) :
    countOf k ((m.persistent.lookup pos).getD (List.replicate slotCount none)) =
      m.stored k pos := by
  unfold stored
  cases h : m.persistent.lookup pos with
  | none => rw [weightAt_of_none h, Option.getD_none, countOf_replicate]
  | some slots => rw [weightAt_of_some h, Option.getD_some]

/-- An opened window brings a copy and hides its original, if nothing hid it yet; the window that it
    overwrites goes, and what it hid comes back. -/
theorem held_openWindow (m : ContainerManager) (uuid : Uuid) (pos : BlockPos) (slotCount : Nat) :
    held (m.openWindow uuid pos slotCount).containers m.persistent k +
      countOf k (m.allSlots m.nextWindowId) =
      held m.containers m.persistent k + (m.copied k pos + m.masked k m.nextWindowId) := by
  have hbefore := held_eq_others (k := k) m m.nextWindowId
  have hafter := held_eq_others (k := k) (m.openWindow uuid pos slotCount) m.nextWindowId
  have hlookup : (m.openWindow uuid pos slotCount).containers.lookup m.nextWindowId =
      some ⟨pos, (m.persistent.lookup pos).getD (List.replicate slotCount none)⟩ :=
    AList.lookup_insert _
  have hothers : (m.openWindow uuid pos slotCount).others m.nextWindowId =
      m.others m.nextWindowId := erase_insert _ _ _
  have hslots : countOf k ((m.openWindow uuid pos slotCount).allSlots m.nextWindowId) =
      m.stored k pos := by
    rw [allSlots, hlookup]
    exact countOf_opened m pos slotCount
  have hmasked : (m.openWindow uuid pos slotCount).masked k m.nextWindowId + m.copied k pos =
      m.stored k pos := by
    unfold masked copied
    simp only [hlookup, hothers]
    split
    · exact Nat.zero_add _
    · rfl
  have hpersistent : (m.openWindow uuid pos slotCount).persistent = m.persistent := rfl
  rw [hothers, hslots, hpersistent] at hafter
  omega

/-- A closed window's slots take the place of what is stored, unless another window hides that. -/
theorem held_close (m : ContainerManager) {windowId : BitVec 8} {container : ContainerData}
    (hlookup : m.containers.lookup windowId = some container) :
    held (m.others windowId) (m.persistent.insert container.pos container.slots) k +
      (if (m.others windowId).Shows container.pos then countOf k container.slots else 0) =
      held m.containers m.persistent k := by
  have hbefore := held_eq_others (k := k) m windowId
  have hinsert : total (storedUnless (m.others windowId) k)
        (m.persistent.insert container.pos container.slots) +
      (if (m.others windowId).Shows container.pos then 0 else m.stored k container.pos) =
      total (storedUnless (m.others windowId) k) m.persistent +
        if (m.others windowId).Shows container.pos then 0 else countOf k container.slots :=
    total_storedUnless_insert
  unfold masked allSlots at hbefore
  simp only [hlookup] at hbefore
  unfold held at hbefore ⊢
  by_cases hshows : (m.others windowId).Shows container.pos
  · simp only [if_pos hshows] at *
    omega
  · simp only [if_neg hshows] at *
    omega

theorem setSlots_of_some (m : ContainerManager)
    (hlookup : m.containers.lookup windowId = some container) (slots : List (Option ItemStack)) :
    m.setSlots windowId slots = { m with
      containers := m.containers.insert windowId { container with slots := slots } } := by
  unfold setSlots
  rw [hlookup]

theorem setSlots_of_none (m : ContainerManager) (hlookup : m.containers.lookup windowId = none)
    (slots : List (Option ItemStack)) : m.setSlots windowId slots = m := by
  unfold setSlots
  rw [hlookup]

theorem persistent_setSlots (m : ContainerManager) (windowId : BitVec 8)
    (slots : List (Option ItemStack)) :
    (m.setSlots windowId slots).persistent = m.persistent := by
  cases hlookup : m.containers.lookup windowId with
  | none => rw [setSlots_of_none m hlookup]
  | some container => rw [setSlots_of_some m hlookup]

/-- Clicks leave the position of a window alone. -/
theorem held_setSlots (m : ContainerManager) {windowId : BitVec 8} {container : ContainerData}
    (hlookup : m.containers.lookup windowId = some container) (slots : List (Option ItemStack)) :
    held (m.setSlots windowId slots).containers m.persistent k + countOf k container.slots =
      held m.containers m.persistent k + countOf k slots := by
  have hbefore := held_eq_others (k := k) m windowId
  have hafter := held_eq_others (k := k) (m.setSlots windowId slots) windowId
  have hset := setSlots_of_some m hlookup slots
  have hlookup' : (m.setSlots windowId slots).containers.lookup windowId =
      some { container with slots := slots } := by
    rw [hset]
    exact AList.lookup_insert _
  have hothers : (m.setSlots windowId slots).others windowId = m.others windowId := by
    rw [hset]
    exact erase_insert _ _ _
  have hpersistent := persistent_setSlots m windowId slots
  have hmasked : (m.setSlots windowId slots).masked k windowId = m.masked k windowId := by
    unfold masked stored
    simp only [hlookup, hlookup', hothers, hpersistent]
  rw [hothers, hpersistent, hmasked, allSlots, hlookup'] at hafter
  rw [allSlots, hlookup] at hbefore
  simp only at hafter hbefore
  omega

end

/-! ## Step by step -/

section

variable {s : Sessions} {k : Kind} {uuid : Uuid} {windowId : BitVec 8}

/-- The cursor of one player, and those of the others. -/
theorem total_cursors (s : Sessions) (uuid : Uuid) :
    total (fun _ stack => ItemStack.units k stack) s.cursors =
      slotUnits k (s.cursors.lookup uuid) +
        total (fun _ stack => ItemStack.units k stack) (s.cursors.erase uuid) := by
  rw [total_eq_erase _ _ uuid]
  cases h : s.cursors.lookup uuid with
  | none => rw [weightAt_of_none h, slotUnits_none]
  | some stack => rw [weightAt_of_some h, slotUnits_some]

theorem units_setCursorItem (item : Option ItemStack) :
    (s.setCursorItem uuid item).units k + slotUnits k (s.cursors.lookup uuid) =
      s.units k + slotUnits k item := by
  have hsplit := total_cursors (k := k) s uuid
  unfold Sessions.setCursorItem Sessions.units
  cases item with
  | none =>
      simp only [slotUnits_none]
      omega
  | some stack =>
      simp only [total_insert, slotUnits_some]
      omega

/-- Only what is copied, overwritten or shown again matters when a window is opened. -/
theorem amount_useItemOn_iff {pos : BlockPos} {slotCount : Nat} :
    (s.step (.useItemOn uuid pos slotCount)).amount =
      s.amount + s.moved (.useItemOn uuid pos slotCount) ↔
      Harmless s (.useItemOn uuid pos slotCount) := by
  rw [funext_iff]
  refine forall_congr' fun k => ?_
  have hopen := held_openWindow (k := k) s.manager uuid pos slotCount
  have hafter : (s.step (.useItemOn uuid pos slotCount)).amount k =
      (held (s.manager.openWindow uuid pos slotCount).containers s.manager.persistent k +
        total (fun _ stack => stack.units k) s.cursors +
        (s.dropped.map (ItemStack.units k)).sum : Nat) := rfl
  have hbefore : (s.amount + s.moved (.useItemOn uuid pos slotCount)) k =
      (held s.manager.containers s.manager.persistent k +
        total (fun _ stack => stack.units k) s.cursors +
        (s.dropped.map (ItemStack.units k)).sum : Nat) := Int.add_zero _
  rw [hafter, hbefore]
  omega

/-- The slots of a window that is there are replaced. -/
theorem units_setSlots (s : Sessions) (windowId : BitVec 8) (slots : List (Option ItemStack)) :
    (({ s with manager := s.manager.setSlots windowId slots } : Sessions).units k : Int) =
      s.units k + if (s.manager.containers.lookup windowId).isSome then
        (countOf k slots - countOf k (s.manager.allSlots windowId) : Int) else 0 := by
  cases hlookup : s.manager.containers.lookup windowId with
  | none =>
      rw [setSlots_of_none s.manager hlookup, if_neg (by simp), Int.add_zero]
  | some container =>
      have hslots := held_setSlots (k := k) s.manager hlookup slots
      have hall : s.manager.allSlots windowId = container.slots := by rw [allSlots, hlookup]
      have hpersistent := persistent_setSlots s.manager windowId slots
      rw [if_pos (by rfl), hall]
      simp only [Sessions.units, hpersistent]
      omega

/-- An id that is not in use overwrites nothing. -/
theorem harmless_useItemOn_iff {pos : BlockPos} {slotCount : Nat}
    (hunused : s.manager.containers.lookup s.manager.nextWindowId = none) :
    Harmless s (.useItemOn uuid pos slotCount) ↔
      (s.manager.containers.Shows pos → ∀ k, s.manager.stored k pos = 0) := by
  have hothers : s.manager.others s.manager.nextWindowId = s.manager.containers :=
    erase_of_none hunused
  unfold Harmless copied masked allSlots
  simp only [hunused, hothers, countOf_nil, Nat.add_zero]
  rw [forall_comm]
  refine forall_congr' fun k => ?_
  split <;> simp [*]

theorem amount_containerClick {effect : Effect} :
    (s.step (.containerClick uuid windowId effect)).amount =
      s.amount + s.moved (.containerClick uuid windowId effect) := by
  funext k
  simp only [Sessions.step, Sessions.containerClick, Sessions.moved, Pi.add_apply, Sessions.amount]
  by_cases hopen : s.manager.playerWindow uuid = some windowId
  · simp only [if_pos hopen]
    generalize s.clicked uuid windowId effect = after
    have hwindow := units_setSlots (k := k) s windowId after.1
    have hcursor : (({ s with manager := s.manager.setSlots windowId after.1 } :
          Sessions).setCursorItem uuid after.2).units k + slotUnits k (s.cursors.lookup uuid) =
        ({ s with manager := s.manager.setSlots windowId after.1 } : Sessions).units k +
          slotUnits k after.2 := units_setCursorItem after.2
    omega
  · simp only [if_neg hopen, Int.add_zero]

/-- Only a window whose position another one shows loses its items when it is closed. -/
theorem amount_containerClose_iff :
    (s.step (.containerClose uuid windowId)).amount =
      s.amount + s.moved (.containerClose uuid windowId) ↔
      Harmless s (.containerClose uuid windowId) := by
  have hdrop : ∀ k, total (fun _ stack => ItemStack.units k stack) (s.cursors.erase uuid) +
      ((s.step (.containerClose uuid windowId)).dropped.map (ItemStack.units k)).sum =
      total (fun _ stack => ItemStack.units k stack) s.cursors +
        (s.dropped.map (ItemStack.units k)).sum := by
    intro k
    rw [total_cursors s uuid]
    simp only [Sessions.step, Sessions.containerClose]
    cases s.cursors.lookup uuid with
    | none => simp only [slotUnits_none, Nat.zero_add]
    | some stack =>
        simp only [List.map_cons, List.sum_cons, slotUnits_some]
        omega
  have hamount : ∀ k, (s.step (.containerClose uuid windowId)).amount k =
      (held (s.manager.close uuid windowId).containers (s.manager.close uuid windowId).persistent k +
        total (fun _ stack => stack.units k) s.cursors +
        (s.dropped.map (ItemStack.units k)).sum : Nat) := by
    intro k
    have := hdrop k
    simp only [Sessions.amount, Sessions.units, Sessions.step, Sessions.containerClose] at this ⊢
    omega
  have hbefore : ∀ k, (s.amount + s.moved (.containerClose uuid windowId)) k =
      (held s.manager.containers s.manager.persistent k +
        total (fun _ stack => stack.units k) s.cursors +
        (s.dropped.map (ItemStack.units k)).sum : Nat) := fun k => Int.add_zero _
  unfold Harmless
  rw [funext_iff]
  cases hlookup : s.manager.containers.lookup windowId with
  | none =>
      have hclose : (s.manager.close uuid windowId).containers = s.manager.containers ∧
          (s.manager.close uuid windowId).persistent = s.manager.persistent := by
        simp [close, hlookup]
      refine iff_of_true (fun k => ?_) fun container h => by rw [hlookup] at h; cases h
      rw [hamount, hbefore, hclose.1, hclose.2]
  | some container =>
      have hclose : (s.manager.close uuid windowId).containers = s.manager.others windowId ∧
          (s.manager.close uuid windowId).persistent =
            s.manager.persistent.insert container.pos container.slots := by
        simp [close, hlookup, others]
      simp only [hlookup, Option.some.injEq, forall_eq']
      rw [forall_comm]
      refine forall_congr' fun k => ?_
      have hheld := held_close (k := k) s.manager hlookup
      rw [hamount, hbefore, hclose.1, hclose.2]
      split at hheld <;> rename_i hshows
      · simp only [hshows, forall_true_left]
        omega
      · simp only [hshows, false_implies, iff_true]
        omega

end

/-- **Along a run the items in storage, windows, cursors and dropped stacks change only by what the
    clicks moved exactly when every step is harmless.** -/
theorem keepsLedger_iff_harmless (s : Sessions) (actions : List Action) :
    KeepsLedger Sessions.step Sessions.amount Sessions.moved s actions ↔
      Along Sessions.step Harmless s actions := by
  refine keepsLedger_iff (fun s a => ?_) s actions
  cases a with
  | useItemOn uuid pos slotCount => exact amount_useItemOn_iff
  | containerClick uuid windowId effect => exact iff_of_true amount_containerClick trivial
  | containerClose uuid windowId => exact amount_containerClose_iff

/-- A container with five items. -/
def oneStack : Sessions where
  manager := { ContainerManager.new with
    persistent := AList.singleton ⟨0, 64, 0⟩ [some (ItemStack.new ⟨2, 0⟩ 5)] }
  cursors := ∅
  dropped := []

/-- Two players open the container, take the stack with a left click, and close it. -/
def bothTake : List Action :=
  [.useItemOn 1 ⟨0, 64, 0⟩ 27, .useItemOn 2 ⟨0, 64, 0⟩ 27,
    .containerClick 1 1 (clickEffect Inventory.new ⟨0, 0, 0⟩),
    .containerClick 2 2 (clickEffect Inventory.new ⟨0, 0, 0⟩),
    .containerClose 1 1, .containerClose 2 2]

/-- Then there are ten items, and no window is open. -/
theorem not_forall_keepsLedger : ¬∀ s actions,
    KeepsLedger Sessions.step Sessions.amount Sessions.moved s actions := by
  intro h
  have hunits := congrFun (h oneStack bothTake bothTake (List.prefix_refl _))
    (ItemStack.new ⟨2, 0⟩ 5).kind
  exact absurd hunits (by decide)

end Apoptotic.Containers
