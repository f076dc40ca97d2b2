import Apoptotic.Player.Containers

/-!
# Hoppers

The item transfer of the tick loop in `mc-server/src/main.rs`, with `get_slot`, `set_slot` and
`find_window_at` of `mc-player/src/container.rs`: a hopper moves an item from the window above it to the
window below it.

Principal result: `hopper_law` — when a transfer moves one item, and when any number of transfers keeps
the number of items of each kind.
-/

namespace Apoptotic.Containers

open Commands

namespace ContainerManager

variable (m : ContainerManager)

def getSlot (windowId : BitVec 8) (slot : Nat) : Option ItemStack := ((m.allSlots windowId)[slot]?).join

def setSlot (windowId : BitVec 8) (slot : Nat) (item : Option ItemStack) : ContainerManager :=
  match m.containers.lookup windowId with
  | some container =>
      if slot < container.slots.length then
        { m with
          containers := m.containers.insert windowId
            { container with slots := container.slots.set slot item } }
      else m
  | none => m

/-- The first window of the table that shows the position. -/
def findWindowAt (pos : BlockPos) : Option (BitVec 8) :=
  (m.containers.entries.find? fun r => r.2.pos = pos).map (·.1)

end ContainerManager

namespace Hopper

open ContainerManager

/-- An empty slot, or a stack of the same id with room. -/
def canTake (stack : ItemStack) : Option ItemStack → Bool
  | none => true
  | some ds => decide (ds.item.id = stack.item.id ∧ ds.count < ds.maxCount)

/-- The stack that is written into the destination. -/
def newStack (stack : ItemStack) : Option ItemStack → ItemStack
  | some ds => { stack with count := min (ds.count + 1) ds.maxCount }
  | none => { stack with count := 1 }

/-- The first source stack for which some slot is found, and the first such slot. -/
def chosen (m : ContainerManager) (src dst : BitVec 8) : Option (Nat × Nat × ItemStack) :=
  (List.range 27).findSome? fun s => (m.getSlot src s).bind fun stack =>
    ((List.range 27).find? fun d => canTake stack (m.getSlot dst d)).map fun d => (s, d, stack)

/-- One transfer: the whole source stack is taken out, and one item is put in. -/
def transfer (src dst : BitVec 8) (m : ContainerManager) : ContainerManager :=
  match chosen m src dst with
  | some (s, d, stack) =>
      (m.setSlot src s none).setSlot dst d (some (newStack stack (m.getSlot dst d)))
  | none => m

/-- One ready hopper. -/
def hopper (m : ContainerManager) (pos : BlockPos) : ContainerManager :=
  match m.findWindowAt { pos with y := pos.y + 1 }, m.findWindowAt { pos with y := pos.y - 1 } with
  | some src, some dst => transfer src dst m
  | _, _ => m

/-! ## What the operations do -/

variable {m : ContainerManager} {src dst windowId : BitVec 8}

theorem allSlots_setSlot (slot : Nat) (item : Option ItemStack) :
    (m.setSlot windowId slot item).allSlots windowId = (m.allSlots windowId).set slot item := by
  unfold setSlot
  cases hlookup : m.containers.lookup windowId with
  | none => simp [allSlots, hlookup]
  | some container =>
      dsimp only
      split
      · simp [allSlots, hlookup]
      · rename_i hout
        simp [allSlots, hlookup, List.set_eq_of_length_le (Nat.le_of_not_lt hout)]

theorem allSlots_setSlot_of_ne {other : BitVec 8} (hne : other ≠ windowId) (slot : Nat)
    (item : Option ItemStack) : (m.setSlot windowId slot item).allSlots other = m.allSlots other := by
  unfold setSlot
  cases hlookup : m.containers.lookup windowId with
  | none => rfl
  | some container =>
      dsimp only
      split
      · simp [allSlots, AList.lookup_insert_ne hne]
      · rfl

theorem findWindowAt_pos {pos : BlockPos} (h : m.findWindowAt pos = some windowId) :
    ∃ container, m.containers.lookup windowId = some container ∧ container.pos = pos := by
  unfold findWindowAt at h
  rw [Option.map_eq_some_iff] at h
  obtain ⟨⟨id, container⟩, hfind, rfl⟩ := h
  have hpos := List.find?_some hfind
  exact ⟨container, AList.mem_lookup_iff.2 (List.mem_of_find?_eq_some hfind), of_decide_eq_true hpos⟩

/-- A hopper moves items between two different windows, or does nothing. -/
theorem hopper_eq (m : ContainerManager) (pos : BlockPos) :
    hopper m pos = m ∨ ∃ src dst, src ≠ dst ∧ hopper m pos = transfer src dst m := by
  unfold hopper
  cases hsrc : m.findWindowAt { pos with y := pos.y + 1 } with
  | none => exact .inl rfl
  | some src =>
      cases hdst : m.findWindowAt { pos with y := pos.y - 1 } with
      | none => exact .inl rfl
      | some dst =>
          refine .inr ⟨src, dst, ?_, rfl⟩
          rintro rfl
          obtain ⟨container, hlookup, hup⟩ := findWindowAt_pos hsrc
          obtain ⟨container', hlookup', hdown⟩ := findWindowAt_pos hdst
          obtain rfl : container = container' := Option.some.inj (hlookup.symm.trans hlookup')
          have hy := congrArg BlockPos.y (hup.symm.trans hdown)
          dsimp only at hy
          bv_omega

/-- What is chosen: a stack of the source, and a slot that reads as able to take it. -/
theorem chosen_spec {s d : Nat} {stack : ItemStack} (h : chosen m src dst = some (s, d, stack)) :
    (m.allSlots src)[s]? = some (some stack) ∧ canTake stack (m.getSlot dst d) = true := by
  unfold chosen at h
  obtain ⟨s', _, hs⟩ := List.exists_of_findSome?_eq_some h
  rw [Option.bind_eq_some_iff] at hs
  obtain ⟨stack', hslot, hd⟩ := hs
  rw [Option.map_eq_some_iff] at hd
  obtain ⟨d', hfind, hsame⟩ := hd
  cases hsame
  refine ⟨?_, List.find?_some (p := fun d => canTake stack (m.getSlot dst d)) hfind⟩
  unfold getSlot at hslot
  cases hget : (m.allSlots src)[s]? with
  | none => simp [hget] at hslot
  | some slot => simpa [hget] using hslot

/-! ## The law -/

/-- Exactly one item, of one kind, went from the one to the other. -/
def MovesOne (src dst : BitVec 8) (m m' : ContainerManager) : Prop :=
  ∃ kind, ∀ k,
    countOf k (m'.allSlots src) + (if kind = k then 1 else 0) = countOf k (m.allSlots src) ∧
      countOf k (m'.allSlots dst) = countOf k (m.allSlots dst) + if kind = k then 1 else 0

/-- No slot of the destination can take any stack of the source. -/
def Blocked (src dst : BitVec 8) (m : ContainerManager) : Prop :=
  ∀ stack, some stack ∈ m.allSlots src → ∀ slot ∈ m.allSlots dst, canTake stack slot = false

def Law (src dst : BitVec 8) (m : ContainerManager) : Prop :=
  MovesOne src dst m (transfer src dst m) ∨ transfer src dst m = m ∧ Blocked src dst m

/-- The stack chosen is a single item, and what lies in the slot is of the same kind. -/
def Single (dst : BitVec 8) (m : ContainerManager) (d : Nat) (stack : ItemStack) : Prop :=
  stack.count = 1 ∧ ∀ ds, m.getSlot dst d = some ds → ds.kind = stack.kind ∨ ds.count = 0

/-- Nothing is chosen and nothing can be taken, or a single item for a slot that there is. -/
def Fair (src dst : BitVec 8) (m : ContainerManager) : Prop :=
  match chosen m src dst with
  | some (_, d, stack) => d < (m.allSlots dst).length ∧ Single dst m d stack
  | none => Blocked src dst m

/-- Nothing is chosen, or a single item for a slot that there is, or an empty stack for one that there is
not. -/
def Keeps (src dst : BitVec 8) (m : ContainerManager) : Prop :=
  match chosen m src dst with
  | some (_, d, stack) =>
      if d < (m.allSlots dst).length then Single dst m d stack else stack.count = 0
  | none => True

/-- How many items of a kind both have. -/
def both (src dst : BitVec 8) (m : ContainerManager) (k : Kind) : Nat :=
  countOf k (m.allSlots src) + countOf k (m.allSlots dst)

section

variable {s d : Nat} {stack : ItemStack} (hne : src ≠ dst) (hchosen : chosen m src dst = some (s, d, stack))
include hne hchosen

theorem transfer_slots :
    (transfer src dst m).allSlots src = (m.allSlots src).set s none ∧
      (transfer src dst m).allSlots dst =
        (m.allSlots dst).set d (some (newStack stack (m.getSlot dst d))) := by
  unfold transfer
  rw [hchosen]
  dsimp only
  rw [allSlots_setSlot_of_ne hne, allSlots_setSlot, allSlots_setSlot,
    allSlots_setSlot_of_ne (Ne.symm hne)]
  exact ⟨rfl, rfl⟩

/-- The source loses the whole stack. -/
theorem countOf_src (k : Kind) :
    countOf k ((transfer src dst m).allSlots src) + stack.units k = countOf k (m.allSlots src) := by
  obtain ⟨hget, _⟩ := chosen_spec hchosen
  have hlt : s < (m.allSlots src).length := (List.getElem?_eq_some_iff.1 hget).1
  have hset := countOf_set k hlt none
  rw [hget] at hset
  rw [(transfer_slots hne hchosen).1]
  simpa using hset

/-- The destination loses what was in the slot and gets one item more of the stack's kind, if the slot is
there. -/
theorem countOf_dst (k : Kind) :
    if d < (m.allSlots dst).length then
      countOf k ((transfer src dst m).allSlots dst) + slotUnits k (m.getSlot dst d) =
        countOf k (m.allSlots dst) +
          if stack.kind = k then ((m.getSlot dst d).map (·.count)).getD 0 + 1 else 0
    else countOf k ((transfer src dst m).allSlots dst) = countOf k (m.allSlots dst) := by
  rw [(transfer_slots hne hchosen).2]
  split
  · rename_i hlt
    have hset := countOf_set k hlt (some (newStack stack (m.getSlot dst d)))
    have hnew : (newStack stack (m.getSlot dst d)).units k =
        if stack.kind = k then ((m.getSlot dst d).map (·.count)).getD 0 + 1 else 0 := by
      have htake := (chosen_spec hchosen).2
      cases hslot : m.getSlot dst d with
      | none => rfl
      | some ds =>
          rw [hslot] at htake
          have hroom := (of_decide_eq_true htake).2
          rw [newStack, units_withCount, Nat.min_eq_left hroom]
          rfl
    rw [slotUnits_some, hnew] at hset
    exact hset
  · rename_i hout
    rw [List.set_eq_of_length_le (Nat.le_of_not_lt hout)]

omit hne hchosen in
/-- A single item is one whose stack, and what lies in the slot, make up for what is written. -/
theorem single_iff : Single dst m d stack ↔ ∀ k, stack.units k + slotUnits k (m.getSlot dst d) =
    if stack.kind = k then ((m.getSlot dst d).map (·.count)).getD 0 + 1 else 0 := by
  unfold Single
  cases hslot : m.getSlot dst d with
  | none =>
      simp only [slotUnits_none, Option.map_none, Option.getD_none, Nat.add_zero, Nat.zero_add]
      constructor
      · rintro ⟨hone, _⟩ k
        rw [ItemStack.units, hone]
      · intro h
        have hself := h stack.kind
        rw [units_self, if_pos rfl] at hself
        exact ⟨hself, fun _ hslot => by cases hslot⟩
  | some ds =>
      simp only [slotUnits_some, Option.map_some, Option.getD_some, Option.some.injEq, forall_eq']
      constructor
      · rintro ⟨hone, hsame⟩ k
        unfold ItemStack.units
        rw [hone]
        rcases hsame with hkind | hzero
        · rw [hkind]
          split <;> omega
        · rw [hzero]
          split <;> split <;> omega
      · intro h
        have hstack := h stack.kind
        have hslot := h ds.kind
        rw [units_self, if_pos rfl] at hstack
        rw [units_self] at hslot
        unfold ItemStack.units at hstack hslot
        by_cases hkind : ds.kind = stack.kind
        · rw [if_pos hkind] at hstack
          exact ⟨by omega, .inl hkind⟩
        · rw [if_neg hkind] at hstack
          rw [if_neg (Ne.symm hkind), if_neg (Ne.symm hkind)] at hslot
          exact ⟨by omega, .inr (by omega)⟩

theorem movesOne_iff : MovesOne src dst m (transfer src dst m) ↔
    d < (m.allSlots dst).length ∧ Single dst m d stack := by
  have hsrc := countOf_src hne hchosen
  have hdst := countOf_dst hne hchosen
  constructor
  · rintro ⟨kind, hmoves⟩
    -- the stack was one item of the kind that moved
    have hunits : ∀ k, stack.units k = if kind = k then 1 else 0 := by
      intro k
      have hlost := hsrc k
      have hmoved := (hmoves k).1
      omega
    have hkind : stack.kind = kind := by
      by_contra hother
      have hself := hunits kind
      rw [ItemStack.units, if_neg hother, if_pos rfl] at hself
      cases hself
    by_cases hlt : d < (m.allSlots dst).length
    · refine ⟨hlt, single_iff.2 fun k => ?_⟩
      have hgot := hdst k
      have hmoved := (hmoves k).2
      rw [if_pos hlt] at hgot
      rw [hunits k]
      omega
    · have hgot := hdst kind
      have hmoved := (hmoves kind).2
      rw [if_neg hlt] at hgot
      rw [if_pos rfl] at hmoved
      omega
  · rintro ⟨hlt, hsingle⟩
    refine ⟨stack.kind, fun k => ?_⟩
    have hlost := hsrc k
    have hgot := hdst k
    rw [if_pos hlt] at hgot
    have hjoin := single_iff.1 hsingle k
    have hunits : stack.units k = if stack.kind = k then 1 else 0 := by
      rw [ItemStack.units, hsingle.1]
    omega

theorem both_transfer_iff : (∀ k, both src dst (transfer src dst m) k = both src dst m k) ↔
    if d < (m.allSlots dst).length then Single dst m d stack else stack.count = 0 := by
  have hsrc := countOf_src hne hchosen
  have hdst := countOf_dst hne hchosen
  unfold both
  by_cases hlt : d < (m.allSlots dst).length
  · rw [if_pos hlt, single_iff]
    refine forall_congr' fun k => ?_
    have hlost := hsrc k
    have hgot := hdst k
    rw [if_pos hlt] at hgot
    omega
  · rw [if_neg hlt]
    constructor
    · intro h
      have hlost := hsrc stack.kind
      have hgot := hdst stack.kind
      have hkept := h stack.kind
      rw [if_neg hlt] at hgot
      rw [units_self] at hlost
      omega
    · intro hzero k
      have hlost := hsrc k
      have hgot := hdst k
      rw [if_neg hlt] at hgot
      have hunits : stack.units k = 0 := by
        rw [ItemStack.units, hzero, ite_self]
      omega

theorem transfer_ne : transfer src dst m ≠ m := by
  intro hsame
  have hslots := (transfer_slots hne hchosen).1
  obtain ⟨hget, _⟩ := chosen_spec hchosen
  have hlt : s < (m.allSlots src).length := (List.getElem?_eq_some_iff.1 hget).1
  rw [hsame] at hslots
  rw [hslots, List.getElem?_set_self hlt] at hget
  cases hget

end

theorem transfer_of_none (h : chosen m src dst = none) : transfer src dst m = m := by
  rw [transfer, h]

/-- One transfer. -/
theorem law_iff (hne : src ≠ dst) : Law src dst m ↔ Fair src dst m := by
  unfold Law Fair
  cases hchosen : chosen m src dst with
  | none =>
      rw [transfer_of_none hchosen]
      constructor
      · rintro (⟨kind, hmoves⟩ | ⟨_, hblocked⟩)
        · have hlost := (hmoves kind).1
          rw [if_pos rfl] at hlost
          omega
        · exact hblocked
      · exact fun hblocked => .inr ⟨rfl, hblocked⟩
  | some choice =>
      obtain ⟨s, d, stack⟩ := choice
      rw [movesOne_iff hne hchosen]
      exact or_iff_left fun h => transfer_ne hne hchosen h.1

theorem both_iff (hne : src ≠ dst) :
    (∀ k, both src dst (transfer src dst m) k = both src dst m k) ↔ Keeps src dst m := by
  unfold Keeps
  cases hchosen : chosen m src dst with
  | none =>
      rw [transfer_of_none hchosen]
      exact iff_of_true (fun _ => rfl) trivial
  | some choice => exact both_transfer_iff hne hchosen

/-- The windows after a number of transfers. -/
def after (src dst : BitVec 8) (m : ContainerManager) (n : Nat) : ContainerManager :=
  (transfer src dst)^[n] m

/-- **The law of the hopper**: a transfer moves one item, or nothing where nothing can be moved, exactly
when it is fair; and after each of `n` transfers both windows hold what they held exactly when each of
the transfers keeps it. -/
theorem hopper_law (src dst : BitVec 8) (hne : src ≠ dst) (m : ContainerManager) (n : Nat) :
    (Law src dst m ↔ Fair src dst m) ∧
      ((∀ i ≤ n, ∀ k, both src dst (after src dst m i) k = both src dst m k) ↔
        ∀ i < n, Keeps src dst (after src dst m i)) := by
  refine ⟨law_iff hne, ?_⟩
  have hnext : ∀ i, after src dst m (i + 1) = transfer src dst (after src dst m i) := fun i =>
    Function.iterate_succ_apply' _ _ _
  induction n with
  | zero =>
      refine iff_of_true (fun i hi k => ?_) fun i hi => absurd hi (Nat.not_lt_zero i)
      rw [Nat.le_zero.1 hi]
      rfl
  | succ n ih =>
      constructor
      · intro h
        rw [Nat.forall_lt_succ_right]
        refine ⟨ih.1 fun i hi => h i (by omega), (both_iff hne).1 fun k => ?_⟩
        rw [← hnext, h (n + 1) (by omega) k, h n (by omega) k]
      · intro h i hi k
        have hbefore := ih.2 fun j hj => h j (by omega)
        rcases Nat.lt_or_eq_of_le hi with hlt | rfl
        · exact hbefore i (by omega) k
        · rw [hnext, (both_iff hne).2 (h n (by omega)) k, hbefore n (Nat.le_refl n) k]

/-- Windows 1 and 2 with the slots that are given. -/
def twoWindows (above below : List (Option ItemStack)) : ContainerManager :=
  { ContainerManager.new with
    containers := ((∅ : Windows).insert 1 ⟨⟨0, 65, 0⟩, above⟩).insert 2 ⟨⟨0, 63, 0⟩, below⟩ }

/-- A single plank goes into an empty chest. -/
theorem hopper_plank :
    Law 1 2 (twoWindows [some (ItemStack.new ⟨13, 0⟩ 1)] [none]) ∧
      ∀ k, both 1 2 (after 1 2 (twoWindows [some (ItemStack.new ⟨13, 0⟩ 1)] [none]) 1) k =
        both 1 2 (twoWindows [some (ItemStack.new ⟨13, 0⟩ 1)] [none]) k := by
  have hchosen : chosen (twoWindows [some (ItemStack.new ⟨13, 0⟩ 1)] [none]) 1 2 =
      some (0, 0, ItemStack.new ⟨13, 0⟩ 1) := rfl
  have hsingle : Single 2 (twoWindows [some (ItemStack.new ⟨13, 0⟩ 1)] [none]) 0
      (ItemStack.new ⟨13, 0⟩ 1) := ⟨rfl, nofun⟩
  have h := hopper_law 1 2 (by decide) (twoWindows [some (ItemStack.new ⟨13, 0⟩ 1)] [none]) 1
  refine ⟨h.1.2 ?_, h.2.2 (fun i hi => ?_) 1 (Nat.le_refl 1)⟩
  · rw [Fair, hchosen]
    exact ⟨by decide, hsingle⟩
  · obtain rfl : i = 0 := by omega
    change Keeps 1 2 (twoWindows [some (ItemStack.new ⟨13, 0⟩ 1)] [none])
    rw [Keeps, hchosen]
    exact (if_pos (by decide)).mpr hsingle

/-- Of a stack of 64 planks one arrives and 63 are gone. -/
theorem hopper_loses :
    both 1 2 (twoWindows [some (ItemStack.new ⟨13, 0⟩ 64)] [none]) ⟨⟨13, 0⟩, none, none⟩ = 64 ∧
      both 1 2 (after 1 2 (twoWindows [some (ItemStack.new ⟨13, 0⟩ 64)] [none]) 1)
        ⟨⟨13, 0⟩, none, none⟩ = 1 := ⟨by decide, by decide⟩

end Hopper

end Apoptotic.Containers
