import Apoptotic.World.Biomes

/-!
# Feature placers

The placers of `mc-world/src/generator.rs` that do not draw.  A placer that does not read the chunk is
the list of its `set_block` calls; the others are functions of the chunk, where `none` is a panic.
An `i32` position wraps; a height is the `i32` as an integer.

Principal definitions: `Write`, `place` — a call and a list of calls; the placers, under the names of
the source.
-/

namespace Apoptotic.Terrain

/-- A call of `set_block`.  A negative coordinate wraps when it is cast to `usize`. -/
structure Write where
  x : Int
  y : Int
  z : Int
  id : BlockId
  deriving DecidableEq, Repr

def Write.run (c : Chunk) (w : Write) : Option Chunk :=
  c.setBlock (w.x % 2 ^ 64).toNat (BitVec.ofInt 32 w.y) (w.z % 2 ^ 64).toNat w.id.state

def place (ws : List Write) (c : Chunk) : Option Chunk := ws.foldlM Write.run c

/-- `a..b` -/
def span (a b : Int) : List Int := (List.range (b - a).toNat).map fun (i : Nat) => a + i

theorem mem_span {a b k : Int} : k ∈ span a b ↔ a ≤ k ∧ k < b := by
  unfold span
  rw [List.mem_map]
  constructor
  · rintro ⟨i, hi, rfl⟩
    rw [List.mem_range] at hi
    omega
  · intro h
    refine ⟨(k - a).toNat, ?_, by omega⟩
    rw [List.mem_range]
    omega

/-- `(0..16).contains(&v)`, also `(v as usize) < 16`. -/
abbrev Inside (v : Int) : Prop := 0 ≤ v ∧ v < 16

/-- The call if its column is in the chunk. -/
def clip (w : Write) : List Write := if Inside w.x ∧ Inside w.z then [w] else []

/-- `for x in 0..16 { for z in 0..16 { .. } }` -/
def columns : List (Int × Int) := (span 0 16).flatMap fun x => (span 0 16).map fun z => (x, z)

theorem mem_columns {p : Int × Int} : p ∈ columns ↔ Inside p.1 ∧ Inside p.2 := by
  unfold columns
  simp only [List.mem_flatMap, List.mem_map, mem_span]
  constructor
  · rintro ⟨x, hx, z, hz, rfl⟩
    exact ⟨hx, hz⟩
  · rintro ⟨hx, hz⟩
    exact ⟨p.1, hx, p.2, hz, rfl⟩

/-- `pos.x * 16 + x`, and with `z`. -/
def world (p : BitVec 32) (v : Int) : BitVec 32 := p * 16 + BitVec.ofInt 32 v

/-- The biome of the middle of a chunk. -/
def middleBiome (pos : ChunkPos) (seed : BitVec 64) : BiomeId :=
  sampleBiome (world pos.x 8) (world pos.z 8) seed

/-- `height_fn` -/
abbrev HeightFn := BitVec 32 → BitVec 32 → Int

namespace Blocks

def AIR : BlockId := 0
def STONE : BlockId := 1
def GRANITE : BlockId := 2
def DIRT : BlockId := 9
def COARSE_DIRT : BlockId := 10
def GRASS_BLOCK : BlockId := 8
def BEDROCK : BlockId := 266
def SAND : BlockId := 24
def GRAVEL : BlockId := 26
def OAK_LOG : BlockId := 34
def OAK_LEAVES : BlockId := 56
def SPRUCE_LOG : BlockId := 35
def SPRUCE_LEAVES : BlockId := 57
def BIRCH_LOG : BlockId := 36
def BIRCH_LEAVES : BlockId := 58
def JUNGLE_LOG : BlockId := 37
def JUNGLE_LEAVES : BlockId := 59
def ACACIA_LOG : BlockId := 38
def ACACIA_LEAVES : BlockId := 60
def DARK_OAK_LOG : BlockId := 40
def DARK_OAK_LEAVES : BlockId := 61
def CHERRY_LOG : BlockId := 39
def CHERRY_LEAVES : BlockId := 62
def MANGROVE_LOG : BlockId := 41
def MANGROVE_LEAVES : BlockId := 63
def PALE_OAK_LOG : BlockId := 40
def PALE_OAK_LEAVES : BlockId := 56
def SHORT_GRASS : BlockId := 79
def FERN : BlockId := 80
def DEAD_BUSH : BlockId := 81
def DANDELION : BlockId := 201
def POPPY : BlockId := 202
def BLUE_ORCHID : BlockId := 203
def ALLIUM : BlockId := 204
def AZURE_BLUET : BlockId := 205
def OXEYE_DAISY : BlockId := 210
def CORNFLOWER : BlockId := 211
def LILAC : BlockId := 213
def ROSE_BUSH : BlockId := 214
def PEONY : BlockId := 215
def TALL_GRASS : BlockId := 216
def WATER : BlockId := 267
def CACTUS : BlockId := 81
def MELON : BlockId := 103
def SUGAR_CANE : BlockId := 83

end Blocks

open Blocks

/-! ## Trees -/

/-- `for dy in 0..h { chunk.set_block(x, base + dy, z, log); }` -/
def trunk (x z base h : Int) (log : BlockId) : List Write :=
  (span 0 h).map fun dy => ⟨x, base + dy, z, log⟩

/-- A trunk of two by two. -/
def thickTrunk (x z base h : Int) (log : BlockId) : List Write :=
  (span 0 h).flatMap fun dy => [⟨x, base + dy, z, log⟩, ⟨x + 1, base + dy, z, log⟩,
    ⟨x, base + dy, z + 1, log⟩, ⟨x + 1, base + dy, z + 1, log⟩]

/-- Leaves at the heights `ys`, from `lo` to `hi` around a column, where `keep` holds. -/
def canopy (x z lo hi : Int) (keep : Int → Int → Bool) (ys : List Int) (leaves : BlockId) :
    List Write :=
  (span lo (hi + 1)).flatMap fun lx => (span lo (hi + 1)).flatMap fun lz =>
    if keep lx lz then ys.flatMap fun y => clip ⟨x + lx, y, z + lz, leaves⟩ else []

def square (_ _ : Int) : Bool := true

def diamond (lx lz : Int) : Bool := lx.natAbs + lz.natAbs ≤ 3

def rim (lx lz : Int) : Bool := lx.natAbs = 2 ∨ lz.natAbs = 2

/-- `base + (h >> 16) as i32 % n` -/
def trunkHeight (h : BitVec 64) (base n : Int) : Int := base + (signedBits h 16).tmod n

def spruce (h : BitVec 64) (x z surface : Int) : List Write :=
  let trunkH := trunkHeight h 5 4
  trunk x z (surface + 1) trunkH SPRUCE_LOG ++
    ((span 0 4).flatMap fun ly =>
      canopy x z (-(2 - ly / 2)) (2 - ly / 2) square [surface + trunkH - 1 - ly] SPRUCE_LEAVES) ++
    [⟨x, surface + trunkH, z, SPRUCE_LEAVES⟩]

def birch (h : BitVec 64) (x z surface : Int) : List Write :=
  let trunkH := trunkHeight h 5 3
  let top := surface + trunkH
  trunk x z (surface + 1) trunkH BIRCH_LOG ++ canopy x z (-1) 1 square [top, top - 1] BIRCH_LEAVES ++
    canopy x z (-2) 2 rim [top - 1] BIRCH_LEAVES

def jungleTree (h : BitVec 64) (x z surface : Int) : List Write :=
  let trunkH := trunkHeight h 8 5
  let base := surface + 1
  let top := base + trunkH
  (if bits h 8 % 3 = 0 ∧ x < 15 ∧ z < 15 then thickTrunk x z base trunkH JUNGLE_LOG
    else trunk x z base trunkH JUNGLE_LOG) ++ canopy x z (-2) 2 diamond [top, top + 1] JUNGLE_LEAVES

def acacia (h : BitVec 64) (x z surface : Int) : List Write :=
  let trunkH := trunkHeight h 5 3
  trunk x z (surface + 1) trunkH ACACIA_LOG ++
    canopy x z (-2) 2 diamond [surface + trunkH] ACACIA_LEAVES

def darkOak (h : BitVec 64) (x z surface : Int) : List Write :=
  let trunkH := trunkHeight h 5 3
  let base := surface + 1
  let top := base + trunkH
  (if x < 15 ∧ z < 15 then thickTrunk x z base trunkH DARK_OAK_LOG
    else trunk x z base trunkH DARK_OAK_LOG) ++
    canopy x z (-2) 2 square [top, top + 1, top + 2] DARK_OAK_LEAVES

def mangrove (h : BitVec 64) (x z surface : Int) : List Write :=
  let trunkH := trunkHeight h 6 4
  let base := surface + 1
  let top := base + trunkH
  trunk x z base trunkH MANGROVE_LOG ++
    ((span 0 3).flatMap fun dy => [(1, 0), (-1, 0), (0, 1), (0, -1)].flatMap fun (d : Int × Int) =>
      clip ⟨x + d.1, base + dy, z + d.2, MANGROVE_LOG⟩) ++
    canopy x z (-2) 2 square [top, top - 1] MANGROVE_LEAVES ++
    canopy x z (-2) 1 square [top + 1] MANGROVE_LEAVES

def cherry (h : BitVec 64) (x z surface : Int) : List Write :=
  let trunkH := trunkHeight h 4 4
  let base := surface + 1
  let top := base + trunkH
  trunk x z base trunkH CHERRY_LOG ++
    (span (-1) 2).flatMap fun ly =>
      canopy x z (-(2 - ly.natAbs)) (2 - ly.natAbs) square [top + ly + 1] CHERRY_LEAVES

def paleOak (h : BitVec 64) (x z surface : Int) : List Write :=
  let trunkH := trunkHeight h 5 3
  let base := surface + 1
  let top := base + trunkH
  (if x < 15 ∧ z < 15 ∧ bits h 8 % 2 = 0 then thickTrunk x z base trunkH PALE_OAK_LOG
    else trunk x z base trunkH PALE_OAK_LOG) ++
    canopy x z (-2) 2 square [top, top + 1] PALE_OAK_LEAVES

def oak (h : BitVec 64) (x z surface : Int) : List Write :=
  let trunkH := trunkHeight h 4 3
  let top := surface + trunkH
  trunk x z (surface + 1) trunkH OAK_LOG ++ canopy x z (-1) 1 square [top, top + 1] OAK_LEAVES ++
    canopy x z (-2) 2 square [top + 1] OAK_LEAVES

def tree : BiomeId → BitVec 64 → Int → Int → Int → List Write
  | .taiga => spruce
  | .forest => birch
  | .jungle => jungleTree
  | .swamp => acacia
  | .darkForest => darkOak
  | .mangroveSwamp => mangrove
  | .cherryGrove => cherry
  | .paleGarden => paleOak
  | _ => oak

def treeChance : BiomeId → Nat
  | .forest | .jungle => 15
  | .taiga => 10
  | _ => 5

def placeTrees (pos : ChunkPos) (seed : BitVec 64) (heightAt : HeightFn) : List Write :=
  (span 4 12).flatMap fun x => (span 4 12).flatMap fun z =>
    let wx := world pos.x x
    let wz := world pos.z z
    let biome := sampleBiome wx wz seed
    let h := mix wx wz seed 1619 31337 7919
    let surface := heightAt wx wz
    if biome ∈ [.desert, .ocean, .snowyPlains, .windsweptHills] then []
    else if treeChance biome ≤ absBits h % 100 then []
    else if -58 ≤ surface ∧ surface ≤ 300 then tree biome h x z surface
    else []

/-! ## Vegetation -/

def melonPatch (x z surface : Int) : List Write :=
  (span (-1) 2).flatMap fun dx => (span (-1) 2).flatMap fun dz =>
    if dx.natAbs + dz.natAbs ≤ 1 then [⟨x + dx, surface, z + dz, MELON⟩] else []

/-- The plants of a biome, except the cactus. -/
def plants (biome : BiomeId) (h : BitVec 64) (x z surface : Int) : List Write :=
  match biome with
  | .plains =>
      [⟨x, surface + 1, z, match bits h 4 % 12 with
        | 0 | 1 | 2 | 3 | 4 => SHORT_GRASS
        | 5 => DANDELION
        | 6 => POPPY
        | 7 => AZURE_BLUET
        | 8 => OXEYE_DAISY
        | 9 => CORNFLOWER
        | 10 => ALLIUM
        | _ => TALL_GRASS⟩]
  | .forest =>
      [⟨x, surface + 1, z, match bits h 4 % 8 with
        | 0 | 1 | 2 | 3 => SHORT_GRASS
        | 4 => FERN
        | 5 => LILAC
        | 6 => PEONY
        | _ => ROSE_BUSH⟩]
  | .taiga => [⟨x, surface + 1, z, if multipleOf h 4 then FERN else SHORT_GRASS⟩]
  | .swamp =>
      [⟨x, surface + 1, z, match bits h 4 % 6 with
        | 0 | 1 | 2 | 3 => SHORT_GRASS
        | 4 => BLUE_ORCHID
        | _ => FERN⟩]
  | .jungle =>
      ⟨x, surface + 1, z, if multipleOf h 3 then FERN else SHORT_GRASS⟩ ::
        if multipleOf h 50 then melonPatch x z surface else []
  | .desert => if multipleOf h 10 then [⟨x, surface + 1, z, DEAD_BUSH⟩] else []
  | .badlands | .erodedBadlands => if multipleOf h 8 then [⟨x, surface + 1, z, DEAD_BUSH⟩] else []
  | _ => []

/-- `for dy in 1..=n { chunk.set_block(x, surface_y + dy, z, id); }` -/
def stalk (x z surface n : Int) (id : BlockId) : List Write :=
  (span 1 (n + 1)).map fun dy => ⟨x, surface + dy, z, id⟩

/-- `chunk.get_block(x, y, z)` -/
def readBlock (c : Chunk) (x y z : Int) : Option BlockState :=
  c.getBlock (x % 2 ^ 64).toNat (BitVec.ofInt 32 y) (z % 2 ^ 64).toNat

def placeCactus (biome : BiomeId) (h : BitVec 64) (x z surface : Int) (c : Chunk) : Option Chunk :=
  if biome = .desert ∧ multipleOf h 25 then do
    let ground ← readBlock c x surface z
    if ground.id = 12 then place (stalk x z surface (1 + bits h 0 % 3) CACTUS) c else some c
  else some c

/-- Water next to a column, at its height. -/
def nearWater (x z surface : Int) (c : Chunk) : Option Bool :=
  [(1, 0), (-1, 0), (0, 1), (0, -1)].anyM fun (d : Int × Int) =>
    if Inside (x + d.1) ∧ Inside (z + d.2) then
      (readBlock c (x + d.1) surface (z + d.2)).map fun b => b.id = 267
    else some false

def placeSugarCane (h : BitVec 64) (x z surface : Int) (c : Chunk) : Option Chunk :=
  if multipleOf h 20 then do
    let ground ← readBlock c x surface z
    if ground.id = 12 ∨ ground.id = 13 ∨ ground.id = 2 then
      if ← nearWater x z surface c then
        place (stalk x z surface (2 + bits h 0 % 3) SUGAR_CANE) c
      else some c
    else some c
  else some c

/-- The body of the loop of `place_vegetation`. -/
def vegetate (pos : ChunkPos) (seed : BitVec 64) (heightAt : HeightFn) (c : Chunk) (at' : Int × Int) :
    Option Chunk :=
  let (x, z) := at'
  let wx := world pos.x x
  let wz := world pos.z z
  let biome := sampleBiome wx wz seed
  let h := mix wx wz seed 31397 21419 18181
  let surface := heightAt wx wz
  if 30 ≤ absBits h % 100 then some c
  else if -60 ≤ surface ∧ surface ≤ 300 then do
    let c ← place (plants biome h x z surface) c
    let c ← placeCactus biome h x z surface c
    placeSugarCane h x z surface c
  else some c

def placeVegetation (pos : ChunkPos) (seed : BitVec 64) (heightAt : HeightFn) (c : Chunk) :
    Option Chunk := columns.foldlM (vegetate pos seed heightAt) c

end Apoptotic.Terrain
