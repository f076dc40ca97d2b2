import Apoptotic.Lib.Flood
import Apoptotic.World.Chunk
import Mathlib.Data.Fintype.Sigma
import Mathlib.Tactic.DeriveFintype
import Mathlib.Tactic.IntervalCases

/-!
# The light engine

`mc-world/src/lighting.rs` inside one chunk: sky light from the top of each column down, its
repair after one block changed, and the flood of block light.  A level is a `Fin 16`, four bits of
an array of a section; a block is named by its column and by its row, `y + 64`.

The containers of a chunk in memory do not panic (`Chunk.Reachable.sectionsOk`): a block that cannot
be read counts as air.

Principal results: `skyAt_setSky`, `blockLightAt_setBlockLight` — a write changes one level;
`blockLightGrid` — block light is the flood of `Lib/Flood`.
-/

namespace Apoptotic

open Bytes Flood

/-! ## Four bits of light -/

def getLightNibble (light : Light) (c : Cell) : Fin 16 :=
  let b := light.val.getD (c.idx / 2) 0#8
  if c.idx % 2 = 0 then ((b &&& 0x0F#8).setWidth 4).toFin else ((b >>> 4).setWidth 4).toFin

def setLightNibble (light : Light) (c : Cell) (value : Fin 16) : Light :=
  let b := light.val.getD (c.idx / 2) 0#8
  let v : Byte := (⟨value⟩ : BitVec 4).setWidth 8
  ⟨light.val.set (c.idx / 2)
    (if c.idx % 2 = 0 then (b &&& 0xF0#8) ||| v else (b &&& 0x0F#8) ||| (v <<< 4)),
    (List.length_set ..).trans light.property⟩

theorem low_setLow (b : Byte) (v : BitVec 4) :
    (((b &&& 0xF0#8) ||| v.setWidth 8) &&& 0x0F#8).setWidth 4 = v := by
  ext i hi
  interval_cases i <;> simp

theorem high_setLow (b : Byte) (v : BitVec 4) :
    (((b &&& 0xF0#8) ||| v.setWidth 8) >>> 4).setWidth 4 = (b >>> 4).setWidth 4 := by
  ext i hi
  interval_cases i <;> simp

theorem low_setHigh (b : Byte) (v : BitVec 4) :
    (((b &&& 0x0F#8) ||| v.setWidth 8 <<< 4) &&& 0x0F#8).setWidth 4 =
      (b &&& 0x0F#8).setWidth 4 := by
  ext i hi
  interval_cases i <;> simp

theorem high_setHigh (b : Byte) (v : BitVec 4) :
    (((b &&& 0x0F#8) ||| v.setWidth 8 <<< 4) >>> 4).setWidth 4 = v := by
  ext i hi
  interval_cases i <;> simp

theorem half_idx_lt (light : Light) (c : Cell) : c.idx / 2 < light.val.length := by
  have := c.idx_lt
  rw [light.property]
  unfold BLOCKS_PER_SECTION at this
  omega

/-- The byte of a cell after a write. -/
theorem getD_set_self (light : Light) (c : Cell) (b : Byte) :
    (light.val.set (c.idx / 2) b).getD (c.idx / 2) 0#8 = b := by
  rw [List.getD_eq_getElem?_getD, List.getElem?_set_self (half_idx_lt light c), Option.getD_some]

theorem get_setLightNibble_self (light : Light) (c : Cell) (v : Fin 16) :
    getLightNibble (setLightNibble light c v) c = v := by
  unfold getLightNibble setLightNibble
  dsimp only
  rw [getD_set_self]
  split
  · rw [low_setLow]
  · rw [high_setHigh]

theorem get_setLightNibble_of_ne (light : Light) {c d : Cell} (v : Fin 16) (h : d ≠ c) :
    getLightNibble (setLightNibble light c v) d = getLightNibble light d := by
  have hidx : d.idx ≠ c.idx := fun e => h (Cell.idx_inj e)
  unfold getLightNibble setLightNibble
  dsimp only
  by_cases hbyte : d.idx / 2 = c.idx / 2
  · rw [hbyte, getD_set_self]
    -- The two halves of one byte.
    by_cases hd : d.idx % 2 = 0
    · have hc : c.idx % 2 ≠ 0 := by omega
      rw [if_pos hd, if_pos hd, if_neg hc, low_setHigh]
    · have hc : c.idx % 2 = 0 := by omega
      rw [if_neg hd, if_neg hd, if_pos hc, high_setLow]
  · rw [List.getD_eq_getElem?_getD, List.getElem?_set_ne (Ne.symm hbyte),
      ← List.getD_eq_getElem?_getD]

theorem getLightNibble_filled (b : Byte) (c : Cell) :
    getLightNibble (Light.filled b) c =
      if c.idx % 2 = 0 then ((b &&& 0x0F#8).setWidth 4).toFin else ((b >>> 4).setWidth 4).toFin := by
  have hb : (Light.filled b).val.getD (c.idx / 2) 0#8 = b := by
    have hlt := half_idx_lt (Light.filled b) c
    rw [List.getD_eq_getElem?_getD, List.getElem?_eq_getElem hlt, Option.getD_some]
    exact List.getElem_replicate _
  unfold getLightNibble
  dsimp only
  rw [hb]

/-! ## Blocks of a chunk -/

/-- `y + 64` of a `y` inside the world. -/
abbrev Row := Fin 384

structure Spot where
  x : Fin 16
  row : Row
  z : Fin 16
  deriving DecidableEq, Fintype

/-- `section_index(y)`. -/
def Spot.section (p : Spot) : Fin SECTIONS_PER_CHUNK :=
  ⟨p.row / 16, by have := p.row.isLt; unfold SECTIONS_PER_CHUNK; omega⟩

/-- The cell `y.rem_euclid(16)` above the bottom of the section. -/
def Spot.cell (p : Spot) : Cell := ⟨p.x, ⟨p.row % 16, by omega⟩, p.z⟩

theorem Spot.ext_of {p q : Spot} (hsection : p.section = q.section) (hcell : p.cell = q.cell) :
    p = q := by
  obtain ⟨x, row, z⟩ := p
  obtain ⟨x', row', z'⟩ := q
  simp only [Spot.section, Spot.cell, Cell.mk.injEq, Fin.mk.injEq] at hsection hcell
  obtain ⟨hx, hy, hz⟩ := hcell
  have hrow : row = row' := Fin.ext (by omega)
  rw [hx, hrow, hz]

def BlockState.waterlogged (b : BlockState) : Bool := b.props &&& 1#16 != 0#16

def BlockState.isAir (b : BlockState) : Bool := b.id == 0#32

/-- The ids that `is_transparent` matches. -/
def TRANSPARENT : List Nat :=
  [ -- Liquids
   267, 268,
   -- Glass family
   66, 67, 68, 69, 70,
   -- Leaves
   56, 57, 58, 59, 60, 61,
   -- Ice, snow
   79, 80, 119, 120, 174, 250,
   -- Slabs
   44, 45, 46, 47, 48, 126, 127,
   -- Fences
   85, 86, 87, 88, 89, 113, 188, 189, 190, 191, 192,
   -- Doors + trapdoors
   64, 65, 71, 96, 97, 98, 99, 100, 101, 102, 103, 104, 193, 194, 195, 196, 197, 198, 199,
   -- Plants, flowers, grass, crops
   31, 32, 37, 38, 39, 40, 51, 59, 83, 105, 106, 107, 175, 176,
   -- Redstone components
   55, 75, 76, 93, 94, 131, 132, 143, 144, 148, 149, 150, 151, 152, 178,
   -- Buttons, pressure plates
   57, 58, 59, 60, 61, 62, 63,
   -- Beds, banners, signs
   26, 27, 28, 29, 30, 169, 170, 171, 172, 173,
   -- Misc: dispenser, piston, sticky_piston, observer
   23, 33, 34, 218, 317]

def isTransparent (block : BlockState) : Bool :=
  if block.waterlogged then false
  else if block.isAir then true
  else TRANSPARENT.contains block.id.toNat

def isOpaque (block : BlockState) : Bool := !isTransparent block

/-- The ids and levels that `light_emission` matches. -/
def EMISSIONS : List (Nat × Nat) :=
  [(130, 15), (131, 15), (268, 15), (176, 15), (177, 15), (180, 15), (152, 15), (50, 15), (91, 15),
   (108, 14), (169, 14), (90, 13), (92, 12), (93, 12), (94, 12),
   (167, 7), (178, 7), (179, 7), (181, 7), (38, 7), (37, 7),
   (71, 4), (72, 3), (73, 1), (74, 1)]

theorem mod_sixteen_lt (n : Nat) : n % 16 < 16 := Nat.mod_lt n (by decide)

theorem zero_lt_sixteen : 0 < 16 := by decide

def lightEmission (block : BlockState) : Fin 16 :=
  ⟨(EMISSIONS.lookup block.id.toNat).getD 0 % 16, mod_sixteen_lt _⟩

def Section.getBlock (sec : Section) (c : Cell) : BlockState :=
  (sec.blocks.get c.x c.y c.z).getD BlockState.AIR

def MAX_LIGHT : Fin 16 := ⟨15, by decide⟩

def NO_LIGHT : Fin 16 := ⟨0, zero_lt_sixteen⟩

section Reading

variable (s : Sections) (p : Spot)

/-- The block at a spot; none in a section that is not there. -/
def blockAt : Option BlockState := (s p.section).map fun sec => sec.getBlock p.cell

def skyAt : Option (Fin 16) := (s p.section).map fun sec => getLightNibble sec.skyLight p.cell

def blockLightAt : Option (Fin 16) :=
  (s p.section).map fun sec => getLightNibble sec.blockLight p.cell

def opaqueAt : Bool := (blockAt s p).any isOpaque

def transparentAt : Bool := (blockAt s p).any isTransparent

def emissionAt : Fin 16 := (blockAt s p).elim NO_LIGHT lightEmission

end Reading

/-- `if let Some(sec) = &mut chunk.sections[si]`. -/
def withSection (s : Sections) (i : Fin SECTIONS_PER_CHUNK) (f : Section → Section) : Sections :=
  Function.update s i ((s i).map f)

/-- `set_sky_light` in the section of the spot, if it is there. -/
def setSky (s : Sections) (p : Spot) (light : Fin 16) : Sections :=
  withSection s p.section fun sec =>
    { sec with skyLight := setLightNibble sec.skyLight p.cell light }

/-- `set_block_light` in the section of the spot, if it is there. -/
def setBlockLight (s : Sections) (p : Spot) (light : Fin 16) : Sections :=
  withSection s p.section fun sec =>
    { sec with blockLight := setLightNibble sec.blockLight p.cell light }

/-! ## Sky light -/

/-- One block of `compute_sky_light`, with the light above it. -/
def skyStep (x z : Fin 16) (acc : Sections × Fin 16) (t : Row) : Sections × Fin 16 :=
  let p : Spot := ⟨x, t, z⟩
  match acc.1 p.section with
  | none => acc
  | some sec =>
      let wy := sec.position.y * 16 + (p.cell.y : Nat)
      if -64 ≤ wy ∧ wy ≤ 319 then
        (setSky acc.1 p acc.2, if isOpaque (sec.getBlock p.cell) then lower acc.2 else acc.2)
      else acc

/-- The sections top-down, and the blocks top-down in each. -/
def computeColumn (s : Sections) (x z : Fin 16) : Sections :=
  ((List.finRange 384).reverse.foldl (skyStep x z) (s, MAX_LIGHT)).1

def computeSkyLight (s : Sections) : Sections :=
  (List.finRange 16).foldl
    (fun s x => (List.finRange 16).foldl (fun s z => computeColumn s x z) s) s

/-- The rows of `y..320`. -/
def rowsFrom (y : Row) : List Row := (List.finRange 384).filter fun t => y ≤ t

/-- The loop up a column that the two repairs share: the first opaque block that takes the last of
    the light ends it. -/
def climb (x z : Fin 16) (s : Sections) (light : Fin 16) : List Row → Sections
  | [] => s
  | t :: rows =>
      let p : Spot := ⟨x, t, z⟩
      let s' := setSky s p light
      if opaqueAt s p then
        if (lower light).val = 0 then s' else climb x z s' (lower light) rows
      else climb x z s' light rows

/-- The light above a removed block. -/
def lightAbove (s : Sections) (p : Spot) : Fin 16 :=
  match (rowsFrom p.row).reverse.find? fun t => t != p.row && opaqueAt s ⟨p.x, t, p.z⟩ with
  | some t => lower ((skyAt s ⟨p.x, t, p.z⟩).getD NO_LIGHT)
  | none => MAX_LIGHT

def recalcSkyLightOnRemove (s : Sections) (p : Spot) : Sections :=
  climb p.x p.z s (lightAbove s p) (rowsFrom p.row)

/-- The row of the placed block is set to 0 and skipped. -/
def recalcSkyLightOnPlace (s : Sections) (p : Spot) : Sections :=
  climb p.x p.z (setSky s p NO_LIGHT) NO_LIGHT ((rowsFrom p.row).filter fun t => t ≠ p.row)

/-! ## Block light -/

theorem sub_one_lt_of_fin {n : Nat} (i : Fin n) : i.val - 1 < n := by omega

/-- `i - 1`, if it is not below 0. -/
def before {n : Nat} (i : Fin n) : Option (Fin n) :=
  if 0 < i.val then some ⟨i.val - 1, sub_one_lt_of_fin i⟩ else none

/-- `i + 1`, if it is inside. -/
def after {n : Nat} (i : Fin n) : Option (Fin n) :=
  if h : i.val + 1 < n then some ⟨i.val + 1, h⟩ else none

/-- The six neighbours inside the chunk. -/
def Spot.neighbors (p : Spot) : List Spot :=
  [(before p.x).map fun x => { p with x := x }, (after p.x).map fun x => { p with x := x },
   (before p.row).map fun row => { p with row := row },
   (after p.row).map fun row => { p with row := row },
   (before p.z).map fun z => { p with z := z }, (after p.z).map fun z => { p with z := z }].reduceOption

/-- The spots in the order of the loops over `x`, `z`, the sections and their rows. -/
def chunkSpots : List Spot :=
  (List.finRange 16).flatMap fun x => (List.finRange 16).flatMap fun z =>
    (List.finRange 384).map fun row => ⟨x, row, z⟩

/-- The light-emitting blocks, in the order they are queued. -/
def emitters (s : Sections) : List (Spot × Fin 16) :=
  chunkSpots.filterMap fun p =>
    if 0 < (emissionAt s p).val then some (p, emissionAt s p) else none

/-! ## What a write changes -/

section Writing

variable (s : Sections) (p q : Spot) (light : Fin 16)

theorem withSection_of_ne {i j : Fin SECTIONS_PER_CHUNK} (f : Section → Section) (h : j ≠ i) :
    withSection s i f j = s j := Function.update_of_ne h _ _

theorem withSection_self (i : Fin SECTIONS_PER_CHUNK) (f : Section → Section) :
    withSection s i f i = (s i).map f := Function.update_self _ _ _

/-- What a change of one section keeps is kept everywhere. -/
theorem map_withSection {α : Type} (i j : Fin SECTIONS_PER_CHUNK) (f : Section → Section)
    (g : Section → α) (h : ∀ sec, g (f sec) = g sec) :
    (withSection s i f j).map g = (s j).map g := by
  by_cases hj : j = i
  · subst hj
    rw [withSection_self, Option.map_map]
    exact Option.map_congr fun sec _ => h sec
  · rw [withSection_of_ne s f hj]

@[simp] theorem blockAt_setSky : blockAt (setSky s p light) q = blockAt s q :=
  map_withSection s _ _ _ _ fun _ => rfl

@[simp] theorem blockAt_setBlockLight : blockAt (setBlockLight s p light) q = blockAt s q :=
  map_withSection s _ _ _ _ fun _ => rfl

@[simp] theorem skyAt_setBlockLight : skyAt (setBlockLight s p light) q = skyAt s q :=
  map_withSection s _ _ _ _ fun _ => rfl

@[simp] theorem blockLightAt_setSky : blockLightAt (setSky s p light) q = blockLightAt s q :=
  map_withSection s _ _ _ _ fun _ => rfl

theorem skyAt_setSky_self : skyAt (setSky s p light) p = (skyAt s p).map fun _ => light := by
  unfold skyAt setSky
  rw [withSection_self, Option.map_map, Option.map_map]
  exact Option.map_congr fun sec _ => get_setLightNibble_self _ _ _

theorem blockLightAt_setBlockLight_self :
    blockLightAt (setBlockLight s p light) p = (blockLightAt s p).map fun _ => light := by
  unfold blockLightAt setBlockLight
  rw [withSection_self, Option.map_map, Option.map_map]
  exact Option.map_congr fun sec _ => get_setLightNibble_self _ _ _

variable {p q}

theorem skyAt_setSky_of_ne (h : q ≠ p) : skyAt (setSky s p light) q = skyAt s q := by
  unfold skyAt setSky
  by_cases hs : q.section = p.section
  · rw [hs, withSection_self, Option.map_map]
    refine Option.map_congr fun sec _ => get_setLightNibble_of_ne _ _ fun hc => h ?_
    exact Spot.ext_of hs hc
  · rw [withSection_of_ne s _ hs]

theorem blockLightAt_setBlockLight_of_ne (h : q ≠ p) :
    blockLightAt (setBlockLight s p light) q = blockLightAt s q := by
  unfold blockLightAt setBlockLight
  by_cases hs : q.section = p.section
  · rw [hs, withSection_self, Option.map_map]
    refine Option.map_congr fun sec _ => get_setLightNibble_of_ne _ _ fun hc => h ?_
    exact Spot.ext_of hs hc
  · rw [withSection_of_ne s _ hs]

/-- A write to a level changes that level, when its section is there, and no other. -/
theorem skyAt_setSky (p q : Spot) :
    skyAt (setSky s p light) q = if q = p then (skyAt s q).map fun _ => light else skyAt s q := by
  split
  · rename_i h
    rw [h, skyAt_setSky_self]
  · rename_i h
    exact skyAt_setSky_of_ne s light h

end Writing

/-- Sections with the same blocks have the same emitters. -/
theorem emitters_congr {s s' : Sections} (h : ∀ p, blockAt s' p = blockAt s p) :
    emitters s' = emitters s := by
  unfold emitters emissionAt
  simp only [h]

theorem transparentAt_congr {s s' : Sections} {p : Spot} (h : blockAt s' p = blockAt s p) :
    transparentAt s' p = transparentAt s p := by
  unfold transparentAt
  rw [h]

theorem opaqueAt_congr {s s' : Sections} {p : Spot} (h : blockAt s' p = blockAt s p) :
    opaqueAt s' p = opaqueAt s p := by
  unfold opaqueAt
  rw [h]

/-- A transparent block is in a section that is there. -/
theorem exists_section_of_transparent {s : Sections} {p : Spot} (h : transparentAt s p = true) :
    ∃ sec, s p.section = some sec := by
  unfold transparentAt blockAt at h
  cases hs : s p.section with
  | none =>
      rw [hs] at h
      cases h
  | some sec => exact ⟨sec, rfl⟩

def blockLevel (s : Sections) (p : Spot) : Fin 16 := (blockLightAt s p).getD NO_LIGHT

/-- Block light as levels on the spots of a chunk. -/
def blockLightGrid : Grid Sections Spot 16 where
  neighbors := Spot.neighbors
  passable := transparentAt
  level := blockLevel
  setLevel := setBlockLight
  passable_setLevel s p light q := transparentAt_congr (blockAt_setBlockLight s p q light)
  level_setLevel_self s p light h := by
    obtain ⟨sec, hsec⟩ := exists_section_of_transparent h
    unfold blockLevel
    rw [blockLightAt_setBlockLight_self]
    unfold blockLightAt
    rw [hsec]
    rfl
  level_setLevel_of_ne s p light q h := by
    unfold blockLevel
    rw [blockLightAt_setBlockLight_of_ne s light h]

/-- The flood of `propagate_block_light`. -/
def propagateBlockLight (s : Sections) : Sections := flood blockLightGrid (emitters s) s

/-- The light arrays before `init_chunk_lighting` computes them. -/
def clearLight (s : Sections) : Sections := fun i => (s i).map fun sec =>
  { sec with skyLight := Light.filled 0xFF#8, blockLight := Light.filled 0x00#8 }

def initChunkLighting (s : Sections) : Sections :=
  propagateBlockLight (computeSkyLight (clearLight s))

end Apoptotic
