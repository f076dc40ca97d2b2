import Mathlib.Data.Int.Interval
import Apoptotic.Lib.Census
import Apoptotic.World.Sites

/-!
# Gravity, fire, grass and ice

`tick_physics` of `mc-world/src/physics.rs`.  The blocks of the index fall; then the topmost block of
each column spreads, burns down or melts.  Both read the chunks as they were when the tick began, and
the updates that they queue are written after that, in order.

Principal result: `conserves` — a block falls one cell, into air, and no falling block is doubled or
lost, except to fire.
-/

namespace Apoptotic.Physics

open Redstone Census
open Fluids (getBlock setBlock)

def FALLING_BLOCKS : List Nat :=
  [12, 13, 582, 583, 584, 585, 586, 587, 588, 589, 590, 591, 592, 593, 594, 595, 596, 597]

def FLAMMABLE_BLOCKS : List Nat :=
  [2, 3, 13, 14, 15, 16, 17, 18, 19, 20, 21, 22, 34, 35, 36, 37, 38, 39, 40, 56, 57, 58, 59, 60, 61,
    113, 47]

def isFallingBlock (id : BitVec 32) : Bool := id.toNat ∈ FALLING_BLOCKS

def isFlammable (id : BitVec 32) : Bool := id.toNat ∈ FLAMMABLE_BLOCKS

def FIRE : BitVec 32 := 51#32

/-- The chunks, and `FALLING_INDEX` in the order in which it is read. -/
structure State where
  world : World
  index : List Pos

/-- An entry of `updates`. -/
structure Update where
  pos : Pos
  block : BlockState

/-- `(x, y - 1, z)` -/
def below (p : Pos) : Pos := p - ⟨0, 1, 0⟩

/-! ## Falling blocks -/

/-- One position of the index: `updates` and `resolved` after it. -/
def visit (w : World) (acc : List Update × List Pos) (p : Pos) : List Update × List Pos :=
  match getBlock w p with
  | none => (acc.1, acc.2 ++ [p])
  | some block =>
    if isAir block then (acc.1, acc.2 ++ [p])
    else if isFallingBlock block.id then
      if ((getBlock w (below p)).map isAir).getD false then
        (acc.1 ++ [⟨below p, block⟩, ⟨p, BlockState.AIR⟩], acc.2 ++ [p])
      else acc
    else (acc.1, acc.2 ++ [p])

/-- `FALLING_INDEX.remove` -/
def remove (index : List Pos) (p : Pos) : List Pos := index.filter (· ≠ p)

/-! ## Fire, grass and ice -/

/-- `FALLING_INDEX`, `updates`, and how many numbers were drawn. -/
structure Scan where
  index : List Pos
  updates : List Update
  drawn : Nat

section

variable (draws : Nat → Fin 100) (w : World)

/-- `if fastrand::u32(0..100) < percent { updates.push(u) }` -/
def Scan.pushWith (s : Scan) (percent : Nat) (u : Update) : Scan where
  index := s.index
  updates := if (draws s.drawn).val < percent then s.updates ++ [u] else s.updates
  drawn := s.drawn + 1

def spreadFire (p : Pos) (s : Scan) (d : Pos) : Scan :=
  match getBlock w (p + d) with
  | none => s
  | some neighbor =>
    if isFlammable neighbor.id then s.pushWith draws 30 ⟨p + d, BlockState.new FIRE⟩ else s

def spreadGrass (p : Pos) (s : Scan) (d : Pos) : Scan :=
  match getBlock w (p + d) with
  | none => s
  | some neighbor =>
    if neighbor.id = 3#32 then
      match getBlock w (p + d + ⟨0, 1, 0⟩) with
      | none => s
      | some above => if isAir above then s.pushWith draws 10 ⟨p + d, BlockState.new 2#32⟩ else s
    else s

/-- The topmost block of a column. -/
def scanBlock (p : Pos) (block : BlockState) (s : Scan) : Scan :=
  if isFallingBlock block.id then { s with index := s.index.insert p }
  else
    let s := if block.id = FIRE then
        (sideways.foldl (spreadFire draws w p) s).pushWith draws 15 ⟨p, BlockState.AIR⟩
      else s
    let s := if block.id = 2#32 then sideways.foldl (spreadGrass draws w p) s else s
    if block.id = 79#32 then s.pushWith draws 5 ⟨p, BlockState.new 267#32⟩ else s

def scanColumn (cp : ChunkPos) (s : Scan) (c : Fin 16 × Fin 16) : Scan :=
  let wx := coordinate cp.x c.1
  let wz := coordinate cp.z c.2
  match topBlock w wx wz with
  | none => s
  | some (y, block) => scanBlock draws w ⟨wx, BitVec.ofInt 32 y, wz⟩ block s

def scanChunk (s : Scan) (cp : ChunkPos) : Scan :=
  match w cp with
  | none => s
  | some _ => columns.foldl (scanColumn draws w cp) s

end

/-! ## A tick -/

def applyUpdate (s : State) (u : Update) : State where
  world := setBlock s.world u.pos u.block
  index := if isFallingBlock u.block.id then s.index.insert u.pos else s.index

/-- What phases 1 and 2 leave, with the loaded chunks in the order of the map. -/
def scan (loaded : List ChunkPos) (draws : Nat → Fin 100) (s : State) : Scan :=
  let r := s.index.foldl (visit s.world) ([], [])
  loaded.foldl (scanChunk draws s.world) ⟨r.2.foldl remove s.index, r.1, 0⟩

def tickPhysics (loaded : List ChunkPos) (draws : Nat → Fin 100) (s : State) : State :=
  let r := scan loaded draws s
  r.updates.foldl applyUpdate ⟨s.world, r.index⟩

/-! ## What gravity keeps -/

/-- A block of the index that stands over air. -/
structure Falls (s : State) (p : Pos) : Prop where
  indexed : p ∈ s.index
  falling : ∃ id, idOf s.world p = some id ∧ isFallingBlock id
  room : idOf s.world (below p) = some 0#32

/-- No block falls from the site. -/
def Still (s : State) (c : Site) : Prop := ∀ p, siteOf p = some c → ¬ Falls s p

/-- The sites that are on fire after a step, and from which no block fell. -/
def burnt (s s' : State) : Set Site := {c | Still s c ∧ idIn s'.world c = some FIRE}

/-- Falling blocks fall one cell, into air, or stay, and only fire destroys them. -/
structure Conserves (s s' : State) : Prop where
  /-- A block that falls is one cell lower, and registered there. -/
  goes : ∀ p id, Falls s p → idOf s.world p = some id →
    idOf s'.world (below p) = some id ∧ below p ∈ s'.index ∧
      (idOf s'.world p = some 0#32 ∨ isFlammable id ∧ idOf s'.world p = some FIRE)
  /-- The others stay, unless they burn. -/
  stays : ∀ c id, isFallingBlock id → idIn s.world c = some id → Still s c →
    idIn s'.world c = some id ∨ isFlammable id ∧ idIn s'.world c = some FIRE
  /-- A falling block stood where it stands, or fell there from the cell above. -/
  comes : ∀ c id, isFallingBlock id → idIn s'.world c = some id →
    (idIn s.world c = some id ∧ Still s c) ∨
      ∃ p, Falls s p ∧ siteOf (below p) = some c ∧ idOf s.world p = some id
  /-- In all the loaded chunks there are as many of each kind, less the burnt ones. -/
  counts : ∀ id, isFallingBlock id →
    census Set.univ (idIn s'.world) id + census (burnt s s') (idIn s.world) id =
      census Set.univ (idIn s.world) id
  /-- The same chunks are loaded. -/
  loaded : ∀ cp, (s'.world cp).isSome = (s.world cp).isSome

/-! ## The updates -/

/-- What an update is made of, by the chunks as they were. -/
inductive Cause (s : State) : Update → Prop where
  | arrives {p : Pos} {block : BlockState} (h : Falls s p) (hblock : getBlock s.world p = some block) :
      Cause s ⟨below p, block⟩
  | leaves {p : Pos} (h : Falls s p) : Cause s ⟨p, BlockState.AIR⟩
  | burns {p : Pos} {id : BitVec 32} (hid : idOf s.world p = some id) (h : isFlammable id) :
      Cause s ⟨p, BlockState.new FIRE⟩
  | changes {p : Pos} {id : BitVec 32} {block : BlockState} (hid : idOf s.world p = some id)
      (hair : id ≠ 0#32) (h : isFallingBlock id = false) (hblock : isFallingBlock block.id = false)
      (hfits : block.id.toNat < 2 ^ GLOBAL_BITS) : Cause s ⟨p, block⟩

theorem isFallingBlock_air : isFallingBlock 0#32 = false := by decide

theorem isFallingBlock_fire : isFallingBlock FIRE = false := by decide

theorem ne_air_of_falling {id : BitVec 32} (h : isFallingBlock id) : id ≠ 0#32 := by
  rintro rfl
  cases isFallingBlock_air.symm.trans h

theorem ne_fire_of_falling {id : BitVec 32} (h : isFallingBlock id) : id ≠ FIRE := by
  rintro rfl
  cases isFallingBlock_fire.symm.trans h

theorem fire_registered : FIRE.toNat < 2 ^ GLOBAL_BITS := by decide

/-- The blocks that the updates write are blocks of the registry. -/
theorem Cause.fits {s : State} (hw : Registered s.world) {u : Update} (h : Cause s u) :
    u.block.id.toNat < 2 ^ GLOBAL_BITS := by
  cases h with
  | arrives _ hblock =>
      apply registered_idOf hw
      rw [idOf_eq_map_getBlock, hblock, Option.map_some]
  | leaves _ => exact air_registered
  | burns _ _ => exact fire_registered
  | changes _ _ _ _ hfits => exact hfits

/-- The updates of the first phase at one position of the index. -/
def fall (w : World) (p : Pos) : List Update :=
  match getBlock w p with
  | none => []
  | some block =>
    if isFallingBlock block.id ∧ ((getBlock w (below p)).map isAir).getD false then
      [⟨below p, block⟩, ⟨p, BlockState.AIR⟩]
    else []

theorem isAir_iff {block : BlockState} : isAir block = true ↔ block.id = 0#32 := beq_iff_eq

theorem visit_updates (w : World) (acc : List Update × List Pos) (p : Pos) :
    (visit w acc p).1 = acc.1 ++ fall w p := by
  unfold visit fall
  cases getBlock w p with
  | none => simp
  | some block =>
      dsimp only
      by_cases hair : isAir block
      · have hnot : isFallingBlock block.id = false := by
          rw [isAir_iff.1 hair]
          exact isFallingBlock_air
        simp [hair, hnot]
      · rw [if_neg hair]
        by_cases hfalling : isFallingBlock block.id
        · by_cases hroom : ((getBlock w (below p)).map isAir).getD false
          · rw [if_pos hfalling, if_pos hroom, if_pos ⟨hfalling, hroom⟩]
          · rw [if_pos hfalling, if_neg hroom, if_neg fun h => hroom h.2]
            simp
        · rw [if_neg hfalling, if_neg fun h => hfalling h.1]
          simp

theorem visited_updates (w : World) (index : List Pos) (acc : List Update × List Pos) :
    (index.foldl (visit w) acc).1 = acc.1 ++ index.flatMap (fall w) := by
  induction index generalizing acc with
  | nil => simp
  | cons p index ih => rw [List.foldl_cons, ih, visit_updates, List.flatMap_cons, List.append_assoc]

/-- The first phase moves the blocks of the index that stand over air. -/
theorem mem_fall {s : State} {p : Pos} (hp : p ∈ s.index) {u : Update} : u ∈ fall s.world p ↔
    Falls s p ∧ ∃ block, getBlock s.world p = some block ∧
      (u = ⟨below p, block⟩ ∨ u = ⟨p, BlockState.AIR⟩) := by
  unfold fall
  have hid := idOf_eq_map_getBlock s.world p
  have hroom : idOf s.world (below p) = some 0#32 ↔
      ((getBlock s.world (below p)).map isAir).getD false := by
    rw [idOf_eq_map_getBlock]
    cases getBlock s.world (below p) with
    | none => simp
    | some block => simp [isAir_iff]
  cases hblock : getBlock s.world p with
  | none =>
      constructor
      · intro hu
        cases hu
      · rintro ⟨_, _, hnone, _⟩
        cases hnone
  | some block =>
      rw [hblock, Option.map_some] at hid
      dsimp only
      constructor
      · intro hu
        split at hu
        · rename_i hfalls
          refine ⟨⟨hp, ⟨block.id, hid, hfalls.1⟩, hroom.2 hfalls.2⟩, block, rfl, ?_⟩
          simpa using hu
        · cases hu
      · rintro ⟨hfalls, _, hsome, hu⟩
        cases hsome
        obtain ⟨id, hid', hfalling⟩ := hfalls.falling
        cases hid.symm.trans hid'
        rw [if_pos ⟨hfalling, hroom.1 hfalls.room⟩]
        simpa using hu

/-! ## The second phase -/

/-- The scan goes on: the updates that it adds have a cause. -/
structure Goes (s : State) (a b : Scan) : Prop where
  kept : ∀ u ∈ a.updates, u ∈ b.updates
  added : ∀ u ∈ b.updates, u ∈ a.updates ∨ Cause s u

section

variable {s : State} {a b c : Scan} {draws : Nat → Fin 100}

theorem Goes.refl (s : State) (a : Scan) : Goes s a a := ⟨fun _ h => h, fun _ h => .inl h⟩

theorem Goes.trans (hab : Goes s a b) (hbc : Goes s b c) : Goes s a c where
  kept := fun u hu => hbc.kept u (hab.kept u hu)
  added := fun u hu => (hbc.added u hu).elim (hab.added u) .inr

theorem Goes.foldl {α : Type} {f : Scan → α → Scan} (h : ∀ a x, Goes s a (f a x)) (l : List α)
    (a : Scan) : Goes s a (l.foldl f a) := by
  induction l generalizing a with
  | nil => exact .refl s a
  | cons x l ih => exact (h a x).trans (ih (f a x))

theorem goes_pushWith (a : Scan) (percent : Nat) {u : Update} (h : Cause s u) :
    Goes s a (a.pushWith draws percent u) := by
  unfold Scan.pushWith
  split
  · refine ⟨fun v hv => List.mem_append_left _ hv, fun v hv => ?_⟩
    rcases List.mem_append.1 hv with hv | hv
    · exact .inl hv
    · rw [List.mem_singleton.1 hv]
      exact .inr h
  · exact ⟨fun _ h => h, fun _ h => .inl h⟩

theorem idOf_of_getBlock {w : World} {p : Pos} {block : BlockState} (h : getBlock w p = some block) :
    idOf w p = some block.id := by
  rw [idOf_eq_map_getBlock, h, Option.map_some]

theorem goes_spreadFire (p : Pos) (a : Scan) (d : Pos) :
    Goes s a (spreadFire draws s.world p a d) := by
  unfold spreadFire
  split
  · exact .refl s a
  · rename_i neighbor hneighbor
    split
    · rename_i hflammable
      exact goes_pushWith a 30 (.burns (idOf_of_getBlock hneighbor) hflammable)
    · exact .refl s a

theorem goes_spreadGrass (p : Pos) (a : Scan) (d : Pos) :
    Goes s a (spreadGrass draws s.world p a d) := by
  unfold spreadGrass
  split
  · exact .refl s a
  · rename_i neighbor hneighbor
    split
    · rename_i hdirt
      split
      · exact .refl s a
      · split
        · have hid := idOf_of_getBlock hneighbor
          rw [hdirt] at hid
          exact goes_pushWith a 10 (.changes hid (by decide) (by decide) (by decide) (by decide))
        · exact .refl s a
    · exact .refl s a

/-- Fire, grass and ice write no falling block, and only fire writes to one. -/
theorem goes_scanBlock {p : Pos} {block : BlockState} (hblock : getBlock s.world p = some block)
    (hair : isAir block = false) (a : Scan) : Goes s a (scanBlock draws s.world p block a) := by
  unfold scanBlock
  split
  · exact ⟨fun _ h => h, fun _ h => .inl h⟩
  · rename_i hnot
    have hid := idOf_of_getBlock hblock
    have hsolid : block.id ≠ 0#32 := fun h => Bool.eq_false_iff.1 hair (isAir_iff.2 h)
    have hchanges : ∀ new : BlockState, isFallingBlock new.id = false →
        new.id.toNat < 2 ^ GLOBAL_BITS → Cause s ⟨p, new⟩ := fun new hnew hfits =>
      .changes hid hsolid (Bool.eq_false_iff.2 hnot) hnew hfits
    have hfire : Goes s a (if block.id = FIRE then
        (sideways.foldl (spreadFire draws s.world p) a).pushWith draws 15 ⟨p, BlockState.AIR⟩
        else a) := by
      split
      · exact (Goes.foldl (goes_spreadFire p) sideways a).trans
          (goes_pushWith _ 15 (hchanges _ isFallingBlock_air air_registered))
      · exact .refl s a
    have hgrass : ∀ a, Goes s a (if block.id = 2#32 then
        sideways.foldl (spreadGrass draws s.world p) a else a) := by
      intro a
      split
      · exact Goes.foldl (goes_spreadGrass p) sideways a
      · exact .refl s a
    have hice : ∀ a, Goes s a (if block.id = 79#32 then
        a.pushWith draws 5 ⟨p, BlockState.new 267#32⟩ else a) := by
      intro a
      split
      · exact goes_pushWith a 5 (hchanges _ (by decide) (by decide))
      · exact .refl s a
    exact (hfire.trans (hgrass _)).trans (hice _)

theorem goes_scanColumn (cp : ChunkPos) (a : Scan) (c : Fin 16 × Fin 16) :
    Goes s a (scanColumn draws s.world cp a c) := by
  unfold scanColumn
  dsimp only
  split
  · exact .refl s a
  · rename_i y block htop
    obtain ⟨hblock, hair⟩ := getBlock_of_topBlock htop
    exact goes_scanBlock hblock hair a

theorem goes_scanChunk (a : Scan) (cp : ChunkPos) : Goes s a (scanChunk draws s.world a cp) := by
  unfold scanChunk
  split
  · exact .refl s a
  · exact Goes.foldl (goes_scanColumn cp) columns a

end

/-- **Whatever falls is moved, and every update has a cause.** -/
theorem scan_spec (loaded : List ChunkPos) (draws : Nat → Fin 100) (s : State) :
    (∀ p block, Falls s p → getBlock s.world p = some block →
      ⟨below p, block⟩ ∈ (scan loaded draws s).updates ∧
        ⟨p, BlockState.AIR⟩ ∈ (scan loaded draws s).updates) ∧
      ∀ u ∈ (scan loaded draws s).updates, Cause s u := by
  have hfirst : ∀ u, u ∈ (s.index.foldl (visit s.world) ([], [])).1 ↔
      ∃ p ∈ s.index, u ∈ fall s.world p := by
    intro u
    rw [visited_updates, List.nil_append, List.mem_flatMap]
  have hgoes : Goes s ⟨(s.index.foldl (visit s.world) ([], [])).2.foldl remove s.index,
      (s.index.foldl (visit s.world) ([], [])).1, 0⟩ (scan loaded draws s) :=
    Goes.foldl goes_scanChunk loaded _
  constructor
  · intro p block hfalls hblock
    constructor
    · apply hgoes.kept
      exact (hfirst _).2 ⟨p, hfalls.indexed, (mem_fall hfalls.indexed).2
        ⟨hfalls, block, hblock, .inl rfl⟩⟩
    · apply hgoes.kept
      exact (hfirst _).2 ⟨p, hfalls.indexed, (mem_fall hfalls.indexed).2
        ⟨hfalls, block, hblock, .inr rfl⟩⟩
  · intro u hu
    rcases hgoes.added u hu with hu | hu
    · obtain ⟨p, hp, hu⟩ := (hfirst u).1 hu
      obtain ⟨hfalls, block, hblock, rfl | rfl⟩ := (mem_fall hp).1 hu
      · exact .arrives hfalls hblock
      · exact .leaves hfalls
    · exact hu

/-! ## Writing the updates -/

/-- A site that no update writes keeps its block; else it holds what some update wrote. -/
theorem idIn_applied {updates : List Update} {s : State} (hw : Registered s.world)
    (hfits : ∀ u ∈ updates, u.block.id.toNat < 2 ^ GLOBAL_BITS) (c : Site) :
    ((∀ u ∈ updates, siteOf u.pos ≠ some c) ∧
      idIn (updates.foldl applyUpdate s).world c = idIn s.world c) ∨
    ∃ u ∈ updates, siteOf u.pos = some c ∧
      idIn (updates.foldl applyUpdate s).world c = (idIn s.world c).map fun _ => u.block.id := by
  induction updates generalizing s with
  | nil => exact .inl ⟨fun u hu => absurd hu List.not_mem_nil, rfl⟩
  | cons u updates ih =>
      have hu := hfits u List.mem_cons_self
      have hone : idIn (applyUpdate s u).world c =
          if siteOf u.pos = some c then (idIn s.world c).map fun _ => u.block.id
          else idIn s.world c := idIn_place hw u.pos hu c
      have hreg : Registered (applyUpdate s u).world := hw.place u.pos hu
      rw [List.foldl_cons]
      rcases ih hreg fun v hv => hfits v (List.mem_cons_of_mem _ hv) with ⟨hnone, hsame⟩ | ⟨v, hv, hsite, hlast⟩
      · rw [hone] at hsame
        by_cases hsite : siteOf u.pos = some c
        · rw [if_pos hsite] at hsame
          exact .inr ⟨u, List.mem_cons_self, hsite, hsame⟩
        · rw [if_neg hsite] at hsame
          refine .inl ⟨fun v hv => ?_, hsame⟩
          rcases List.mem_cons.1 hv with rfl | hv
          · exact hsite
          · exact hnone v hv
      · refine .inr ⟨v, List.mem_cons_of_mem _ hv, hsite, ?_⟩
        rw [hlast, hone]
        split
        · rw [Option.map_map]
          rfl
        · rfl

theorem mem_index_applyUpdate {s : State} {p : Pos} (h : p ∈ s.index) (u : Update) :
    p ∈ (applyUpdate s u).index := by
  unfold applyUpdate
  dsimp only
  split
  · exact List.mem_insert_of_mem h
  · exact h

theorem mem_index_applied {updates : List Update} {s : State} {p : Pos} (h : p ∈ s.index) :
    p ∈ (updates.foldl applyUpdate s).index := by
  induction updates generalizing s with
  | nil => exact h
  | cons u updates ih => exact ih (mem_index_applyUpdate h u)

/-- A falling block is registered where it is written. -/
theorem indexed_of_mem {updates : List Update} {s : State} {u : Update} (hu : u ∈ updates)
    (hfalling : isFallingBlock u.block.id) : u.pos ∈ (updates.foldl applyUpdate s).index := by
  induction updates generalizing s with
  | nil => cases hu
  | cons v updates ih =>
      rcases List.mem_cons.1 hu with rfl | hu
      · have hnow : u.pos ∈ (applyUpdate s u).index := by
          unfold applyUpdate
          rw [if_pos hfalling]
          exact List.mem_insert_self
        rw [List.foldl_cons]
        exact mem_index_applied hnow
      · exact ih hu

theorem loaded_applied (updates : List Update) (s : State) (cp : ChunkPos) :
    ((updates.foldl applyUpdate s).world cp).isSome = (s.world cp).isSome := by
  induction updates generalizing s with
  | nil => rfl
  | cons u updates ih =>
      rw [List.foldl_cons, ih]
      exact loaded_place s.world u.pos u.block cp

/-! ## Every place once -/

theorem below_inj {p q : Pos} (h : below p = below q) : p = q := by
  have hx := congrArg Pos.x h
  have hy := congrArg Pos.y h
  have hz := congrArg Pos.z h
  change p.x - 0#32 = q.x - 0#32 at hx
  change p.y - 1#32 = q.y - 1#32 at hy
  change p.z - 0#32 = q.z - 0#32 at hz
  apply Pos.ext
  · simpa using hx
  · bv_omega
  · simpa using hz

/-- A block that falls leaves one site for another. -/
theorem Falls.sites {s : State} {p : Pos} (h : Falls s p) : ∃ c d id, siteOf p = some c ∧
    siteOf (below p) = some d ∧ isFallingBlock id ∧ idIn s.world c = some id ∧
      idIn s.world d = some 0#32 := by
  obtain ⟨id, hid, hfalling⟩ := h.falling
  obtain ⟨c, hc, hid⟩ := Option.bind_eq_some_iff.1 hid
  obtain ⟨d, hd, hroom⟩ := Option.bind_eq_some_iff.1 h.room
  exact ⟨c, d, id, hc, hd, hfalling, hid, hroom⟩

section

variable {s : State} {u : Update} {c : Site} {id : BitVec 32}

/-- **Into air only a block that falls there is written.** -/
theorem Cause.at_air (h : Cause s u) (hc : siteOf u.pos = some c) (hair : idIn s.world c = some 0#32) :
    ∃ p, Falls s p ∧ below p = u.pos ∧ idOf s.world p = some u.block.id := by
  have hold := idOf_of_siteOf hc (w := s.world)
  rw [hair] at hold
  cases h with
  | arrives hfalls hblock => exact ⟨_, hfalls, rfl, idOf_of_getBlock hblock⟩
  | leaves hfalls =>
      obtain ⟨id, hid, hfalling⟩ := hfalls.falling
      cases hold.symm.trans hid
      exact absurd rfl (ne_air_of_falling hfalling)
  | burns hid hflammable =>
      cases hold.symm.trans hid
      cases hflammable
  | changes hid hsolid _ _ _ =>
      cases hold.symm.trans hid
      exact absurd rfl hsolid

/-- **To a falling block only air is written, when it falls, or fire.** -/
theorem Cause.at_falling (h : Cause s u) (hc : siteOf u.pos = some c)
    (hid : idIn s.world c = some id) (hfalling : isFallingBlock id) :
    (Falls s u.pos ∧ u.block.id = 0#32) ∨ (isFlammable id ∧ u.block.id = FIRE) := by
  have hold := idOf_of_siteOf hc (w := s.world)
  rw [hid] at hold
  cases h with
  | arrives hfalls _ =>
      cases hold.symm.trans hfalls.room
      exact absurd rfl (ne_air_of_falling hfalling)
  | leaves hfalls => exact .inl ⟨hfalls, rfl⟩
  | burns hid' hflammable =>
      cases hold.symm.trans hid'
      exact .inr ⟨hflammable, rfl⟩
  | changes hid' _ hnot _ _ =>
      cases hold.symm.trans hid'
      rw [hfalling] at hnot
      cases hnot

/-- A falling block is written only where one falls. -/
theorem Cause.falling (h : Cause s u) (hfalling : isFallingBlock u.block.id) :
    ∃ p, Falls s p ∧ below p = u.pos ∧ idOf s.world p = some u.block.id := by
  cases h with
  | arrives hfalls hblock => exact ⟨_, hfalls, rfl, idOf_of_getBlock hblock⟩
  | leaves _ => exact absurd rfl (ne_air_of_falling hfalling)
  | burns _ _ => exact absurd rfl (ne_fire_of_falling hfalling)
  | changes _ _ _ hnot _ => cases hnot.symm.trans hfalling

end

/-! ## Conservation -/

theorem finite_bitVec (n : Nat) : Finite (BitVec n) :=
  Finite.of_injective BitVec.toFin fun _ _ h => BitVec.eq_of_toFin_eq h

instance : Finite Site := by
  have hword := finite_bitVec 32
  have hheight : Finite Height := (Set.finite_Icc (-64 : Int) 319).to_subtype
  refine Finite.of_injective (fun c : Site => (c.chunk.x, c.chunk.z, c.x, c.y, c.z)) ?_
  rintro ⟨⟨cx, cz⟩, x, y, z⟩ ⟨⟨cx', cz'⟩, x', y', z'⟩ h
  simp only [Prod.mk.injEq] at h
  obtain ⟨rfl, rfl, rfl, rfl, rfl⟩ := h
  rfl

/-- Where the block of a site is after the tick. -/
noncomputable def landing (s : State) (c : Site) : Site :=
  open Classical in
  if h : ∃ d p, Falls s p ∧ siteOf p = some c ∧ siteOf (below p) = some d then h.choose else c

theorem landing_of_still {s : State} {c : Site} (h : Still s c) : landing s c = c := by
  unfold landing
  rw [dif_neg]
  rintro ⟨d, p, hfalls, hc, -⟩
  exact h p hc hfalls

theorem landing_of_falls {s : State} {p : Pos} (h : Falls s p) {c d : Site} (hc : siteOf p = some c)
    (hd : siteOf (below p) = some d) : landing s c = d := by
  have hlands : ∃ d p, Falls s p ∧ siteOf p = some c ∧ siteOf (below p) = some d :=
    ⟨d, p, h, hc, hd⟩
  unfold landing
  rw [dif_pos hlands]
  obtain ⟨q, _, hq, hchosen⟩ := hlands.choose_spec
  cases siteOf_inj hq hc
  exact Option.some.inj (hchosen.symm.trans hd)

/-- A site is still, or its block falls to its landing site, which is air. -/
theorem landing_cases (s : State) (c : Site) : (Still s c ∧ landing s c = c) ∨
    ∃ p, Falls s p ∧ siteOf p = some c ∧ siteOf (below p) = some (landing s c) ∧
      idIn s.world (landing s c) = some 0#32 := by
  by_cases hstill : Still s c
  · exact .inl ⟨hstill, landing_of_still hstill⟩
  · obtain ⟨p, hp, hfalls⟩ : ∃ p, siteOf p = some c ∧ Falls s p := by
      unfold Still at hstill
      push Not at hstill
      exact hstill
    obtain ⟨c', d, -, hc', hd, -, -, hair⟩ := hfalls.sites
    cases hp.symm.trans hc'
    rw [landing_of_falls hfalls hp hd]
    exact .inr ⟨p, hfalls, hp, hd, hair⟩

/-- **No two falling blocks land on one site.** -/
theorem injOn_landing (s : State) {id : BitVec 32} (hfalling : isFallingBlock id) :
    Set.InjOn (landing s) (holders Set.univ (idIn s.world) id) := by
  rintro c ⟨-, hid⟩ c' ⟨-, hid'⟩ heq
  have hair : ∀ d, idIn s.world d = some id → idIn s.world d ≠ some 0#32 := fun d hd hair =>
    ne_air_of_falling hfalling (Option.some.inj (hd.symm.trans hair))
  rcases landing_cases s c with ⟨-, hlanding⟩ | ⟨p, -, hp, hland, hroom⟩
  · rcases landing_cases s c' with ⟨-, hlanding'⟩ | ⟨p', -, -, -, hroom'⟩
    · exact hlanding.symm.trans (heq.trans hlanding')
    · rw [← heq, hlanding] at hroom'
      exact absurd hroom' (hair c hid)
  · rcases landing_cases s c' with ⟨-, hlanding'⟩ | ⟨p', -, hp', hland', -⟩
    · rw [heq, hlanding'] at hroom
      exact absurd hroom (hair c' hid')
    · rw [heq] at hland
      cases below_inj (siteOf_inj hland hland')
      exact Option.some.inj (hp.symm.trans hp')

theorem tickPhysics_eq (loaded : List ChunkPos) (draws : Nat → Fin 100) (s : State) :
    tickPhysics loaded draws s = (scan loaded draws s).updates.foldl applyUpdate
      ⟨s.world, (scan loaded draws s).index⟩ := rfl

/-- What a tick leaves on a site. -/
theorem idIn_tickPhysics (b : Blocks) (index : List Pos) (loaded : List ChunkPos)
    (draws : Nat → Fin 100) (c : Site) :
    let s : State := ⟨b.world, index⟩
    let updates := (scan loaded draws s).updates
    ((∀ u ∈ updates, siteOf u.pos ≠ some c) ∧
      idIn (tickPhysics loaded draws s).world c = idIn b.world c) ∨
    ∃ u, Cause s u ∧ siteOf u.pos = some c ∧
      idIn (tickPhysics loaded draws s).world c = (idIn b.world c).map fun _ => u.block.id := by
  intro s updates
  obtain ⟨-, hcause⟩ := scan_spec loaded draws s
  have hfits : ∀ u ∈ updates, u.block.id.toNat < 2 ^ GLOBAL_BITS := fun u hu =>
    (hcause u hu).fits b.registered
  rw [tickPhysics_eq]
  rcases idIn_applied (s := ⟨b.world, (scan loaded draws s).index⟩) b.registered hfits c with
    hnone | ⟨u, hu, hsite, hlast⟩
  · exact .inl hnone
  · exact .inr ⟨u, hcause u hu, hsite, hlast⟩

section

variable (b : Blocks) (index : List Pos) (loaded : List ChunkPos) (draws : Nat → Fin 100)

theorem goes_tickPhysics {p : Pos} {id : BitVec 32} (hfalls : Falls ⟨b.world, index⟩ p)
    (hid : idOf b.world p = some id) :
    let s' := tickPhysics loaded draws ⟨b.world, index⟩
    idOf s'.world (below p) = some id ∧ below p ∈ s'.index ∧
      (idOf s'.world p = some 0#32 ∨ isFlammable id ∧ idOf s'.world p = some FIRE) := by
  obtain ⟨c, d, id', hc, hd, hfalling, hidc, hidd⟩ := hfalls.sites
  have hsame : some id = some id' := hid.symm.trans ((idOf_of_siteOf hc).trans hidc)
  cases hsame
  obtain ⟨block, hblock, rfl⟩ : ∃ block, getBlock b.world p = some block ∧ block.id = id := by
    rw [idOf_eq_map_getBlock] at hid
    exact Option.map_eq_some_iff.1 hid
  obtain ⟨hmoves, -⟩ := scan_spec loaded draws ⟨b.world, index⟩
  obtain ⟨harrives, hleaves⟩ := hmoves p block hfalls hblock
  refine ⟨?_, ?_, ?_⟩
  · rw [idOf_of_siteOf hd]
    rcases idIn_tickPhysics b index loaded draws d with ⟨hnone, -⟩ | ⟨u, hu, hsite, hlast⟩
    · exact absurd hd (hnone ⟨below p, block⟩ harrives)
    · rw [hlast, hidd, Option.map_some]
      obtain ⟨q, -, hq, hidq⟩ := hu.at_air hsite hidd
      have hpq : q = p := below_inj (hq.trans (siteOf_inj hsite hd))
      rw [hpq] at hidq
      exact hidq.symm.trans hid
  · rw [tickPhysics_eq]
    exact indexed_of_mem harrives hfalling
  · rw [idOf_of_siteOf hc]
    rcases idIn_tickPhysics b index loaded draws c with ⟨hnone, -⟩ | ⟨u, hu, hsite, hlast⟩
    · exact absurd hc (hnone ⟨p, BlockState.AIR⟩ hleaves)
    · rw [hlast, hidc, Option.map_some]
      rcases hu.at_falling hsite hidc hfalling with ⟨-, hair⟩ | ⟨hflammable, hfire⟩
      · exact .inl (congrArg some hair)
      · exact .inr ⟨hflammable, congrArg some hfire⟩

theorem stays_tickPhysics {c : Site} {id : BitVec 32} (hfalling : isFallingBlock id)
    (hid : idIn b.world c = some id) (hstill : Still ⟨b.world, index⟩ c) :
    let s' := tickPhysics loaded draws ⟨b.world, index⟩
    idIn s'.world c = some id ∨ isFlammable id ∧ idIn s'.world c = some FIRE := by
  rcases idIn_tickPhysics b index loaded draws c with ⟨-, hsame⟩ | ⟨u, hu, hsite, hlast⟩
  · exact .inl (hsame.trans hid)
  · rw [hid, Option.map_some] at hlast
    rcases hu.at_falling hsite hid hfalling with ⟨hfalls, -⟩ | ⟨hflammable, hfire⟩
    · exact absurd hfalls (hstill _ hsite)
    · exact .inr ⟨hflammable, hlast.trans (congrArg some hfire)⟩

theorem comes_tickPhysics {c : Site} {id : BitVec 32} (hfalling : isFallingBlock id)
    (hid : idIn (tickPhysics loaded draws ⟨b.world, index⟩).world c = some id) :
    (idIn b.world c = some id ∧ Still ⟨b.world, index⟩ c) ∨
      ∃ p, Falls ⟨b.world, index⟩ p ∧ siteOf (below p) = some c ∧ idOf b.world p = some id := by
  rcases idIn_tickPhysics b index loaded draws c with ⟨hnone, hsame⟩ | ⟨u, hu, hsite, hlast⟩
  · refine .inl ⟨hsame.symm.trans hid, fun p hp hfalls => ?_⟩
    -- The cell that a block falls from is written.
    obtain ⟨id', hid', -⟩ := hfalls.falling
    rw [idOf_eq_map_getBlock] at hid'
    obtain ⟨block, hblock, -⟩ := Option.map_eq_some_iff.1 hid'
    obtain ⟨hmoves, -⟩ := scan_spec loaded draws ⟨b.world, index⟩
    exact hnone _ (hmoves p block hfalls hblock).2 hp
  · rw [hlast] at hid
    obtain ⟨_, -, rfl⟩ := Option.map_eq_some_iff.1 hid
    obtain ⟨p, hfalls, hp, hidp⟩ := hu.falling hfalling
    exact .inr ⟨p, hfalls, by rw [hp]; exact hsite, hidp⟩

/-- The blocks that are not burnt are on their landing sites. -/
theorem bijOn_landing {id : BitVec 32} (hfalling : isFallingBlock id) :
    let s : State := ⟨b.world, index⟩
    let s' := tickPhysics loaded draws s
    Set.BijOn (landing s) (holders Set.univ (idIn s.world) id \ burnt s s')
      (holders Set.univ (idIn s'.world) id) := by
  intro s s'
  refine ⟨?_, (injOn_landing s hfalling).mono Set.sdiff_subset, ?_⟩
  · rintro c ⟨⟨-, hid⟩, hkept⟩
    refine ⟨trivial, ?_⟩
    rcases landing_cases s c with ⟨hstill, hlanding⟩ | ⟨p, hfalls, hp, hland, -⟩
    · rw [hlanding]
      rcases stays_tickPhysics b index loaded draws hfalling hid hstill with hsame | ⟨-, hfire⟩
      · exact hsame
      · exact absurd ⟨hstill, hfire⟩ hkept
    · have hidp : idOf s.world p = some id := (idOf_of_siteOf hp).trans hid
      obtain ⟨hmoved, -⟩ := goes_tickPhysics b index loaded draws hfalls hidp
      exact (idOf_of_siteOf hland).symm.trans hmoved
  · rintro d ⟨-, hid⟩
    rcases comes_tickPhysics b index loaded draws hfalling hid with
      ⟨hold, hstill⟩ | ⟨p, hfalls, hd, hidp⟩
    · refine ⟨d, ⟨⟨trivial, hold⟩, ?_⟩, landing_of_still hstill⟩
      rintro ⟨-, hfire⟩
      exact ne_fire_of_falling hfalling (Option.some.inj (hid.symm.trans hfire))
    · obtain ⟨c, _, _, hc, -⟩ := hfalls.sites
      have hidc : idIn s.world c = some id := (idOf_of_siteOf hc).symm.trans hidp
      refine ⟨c, ⟨⟨trivial, hidc⟩, ?_⟩, landing_of_falls hfalls hc hd⟩
      rintro ⟨hstill, -⟩
      exact hstill p hc hfalls

theorem counts_tickPhysics {id : BitVec 32} (hfalling : isFallingBlock id) :
    let s : State := ⟨b.world, index⟩
    let s' := tickPhysics loaded draws s
    census Set.univ (idIn s'.world) id + census (burnt s s') (idIn s.world) id =
      census Set.univ (idIn s.world) id := by
  have hcarried := census_carried (Set.toFinite _) (bijOn_landing b index loaded draws hfalling)
  rw [Set.univ_inter] at hcarried
  exact hcarried

theorem registered_tickPhysics :
    Registered (tickPhysics loaded draws ⟨b.world, index⟩).world := by
  intro c id hid
  rcases idIn_tickPhysics b index loaded draws c with ⟨-, hsame⟩ | ⟨u, hu, -, hlast⟩
  · rw [hsame] at hid
    exact b.registered c id hid
  · rw [hlast] at hid
    obtain ⟨_, -, rfl⟩ := Option.map_eq_some_iff.1 hid
    exact hu.fits b.registered

end

/-- Of the falling blocks only gravel burns: what is not flammable stays as many over all the ticks. -/
theorem census_ticks {id : BitVec 32} (hfalling : isFallingBlock id) (hsafe : isFlammable id = false)
    (ticks : List (List ChunkPos × (Nat → Fin 100))) (b : Blocks) (index : List Pos) :
    census Set.univ (idIn (ticks.foldl (fun s t => tickPhysics t.1 t.2 s) ⟨b.world, index⟩).world) id =
      census Set.univ (idIn b.world) id := by
  induction ticks generalizing b index with
  | nil => rfl
  | cons t ticks ih =>
      have hnone : holders (burnt ⟨b.world, index⟩ (tickPhysics t.1 t.2 ⟨b.world, index⟩))
          (idIn b.world) id = ∅ := by
        rw [Set.eq_empty_iff_forall_notMem]
        rintro c ⟨⟨hstill, hfire⟩, hid⟩
        rcases stays_tickPhysics b index t.1 t.2 hfalling hid hstill with hsame | ⟨hflammable, -⟩
        · exact ne_fire_of_falling hfalling (Option.some.inj (hsame.symm.trans hfire))
        · rw [hsafe] at hflammable
          cases hflammable
      have hcount := counts_tickPhysics b index t.1 t.2 hfalling
      have hburnt : census (burnt ⟨b.world, index⟩ (tickPhysics t.1 t.2 ⟨b.world, index⟩))
          (idIn b.world) id = 0 := by
        unfold census
        rw [hnone, Set.ncard_empty]
      dsimp only at hcount
      rw [hburnt, Nat.add_zero] at hcount
      rw [List.foldl_cons, ← hcount]
      exact ih ⟨_, registered_tickPhysics b index t.1 t.2⟩ _

/-- **Gravity conserves blocks.** -/
theorem conserves (b : Blocks) (index : List Pos) (loaded : List ChunkPos) (draws : Nat → Fin 100) :
    Conserves ⟨b.world, index⟩ (tickPhysics loaded draws ⟨b.world, index⟩) where
  goes := fun _ _ hfalls hid => goes_tickPhysics b index loaded draws hfalls hid
  stays := fun _ _ hfalling hid hstill => stays_tickPhysics b index loaded draws hfalling hid hstill
  comes := fun _ _ hfalling hid => comes_tickPhysics b index loaded draws hfalling hid
  counts := fun _ hfalling => counts_tickPhysics b index loaded draws hfalling
  loaded := fun cp => by
    rw [tickPhysics_eq]
    exact loaded_applied _ _ cp

end Apoptotic.Physics
