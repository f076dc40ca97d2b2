import Apoptotic.Lib.Reached
import Apoptotic.Lib.Text
import Apoptotic.World.Structures

/-!
# Terrain generators

The generators of `mc-world/src/generator.rs` with the state of the thread they run on: the tables that
the noise generator caches, and the random source of the ore veins.  Floating point and the noise
library are parameters; `i32` sums wrap.

Principal definitions: `Host` — what comes from outside; `Tables` — the caches of a thread;
`Generator.generateChunk`; `threads` — what can happen on a thread.
-/

namespace Apoptotic.Terrain

open Blocks Draws Text

/-- What the generators take from outside. -/
structure Host (F Table : Type) where
  fl : Floats F
  div : F → F → F
  sin : F → F
  cos : F → F
  /-- `x as i32` -/
  truncI32 : F → Int
  /-- `PermutationTable::new` -/
  newTable : BitVec 32 → Table
  perlin2d : F → F → Table → F
  perlin3d : F → F → F → Table → F
  /-- `str::to_lowercase` -/
  toLowercase : String → String

/-- `TERRAIN_TABLE` and `CAVE_TABLE` of a thread, each with the seed it is for. -/
structure Tables (Table : Type) where
  terrain : Option (BitVec 64 × Table)
  cave : Option (BitVec 64 × Table)

variable {F Table : Type} (h : Host F Table)

/-- The cached table if it is for `key`, a new one otherwise. -/
def cached (key : BitVec 64) (cache : Option (BitVec 64 × Table)) : BitVec 64 × Table :=
  match cache with
  | some (k, table) => if k = key then (k, table) else (key, h.newTable (key.setWidth 32))
  | none => (key, h.newTable (key.setWidth 32))

def getTerrainHasher (seed : BitVec 64) : Draws (Tables Table) Table :=
  access fun s =>
    let entry := cached h seed s.terrain
    (entry.2, { s with terrain := some entry })

def caveSeed (seed : BitVec 64) : BitVec 64 := seed ^^^ 0xCAFE#64

def getCaveHasher (seed : BitVec 64) : Draws (Tables Table) Table :=
  access fun s =>
    let entry := cached h (caveSeed seed) s.cave
    (entry.2, { s with cave := some entry })

/-! ## Noise -/

structure NoiseGenerator where
  baseHeight : BitVec 32
  amplitude : BitVec 32
  surfaceBlock : BlockId
  subsurfaceBlock : BlockId
  deepBlock : BlockId

namespace NoiseGenerator

def new : NoiseGenerator := ⟨BitVec.ofInt 32 (-59), 20, GRASS_BLOCK, DIRT, STONE⟩

variable (g : NoiseGenerator)

/-- The sums of `height_at`: the value, the frequency, the amplitude and the maximum. -/
def octave (x z : F) (terrain : Table) (acc : F × F × F × F) (_ : Nat) : F × F × F × F :=
  let (val, freq, amp, maxVal) := acc
  (h.fl.add val (h.fl.mul (h.perlin2d (h.fl.mul x freq) (h.fl.mul z freq) terrain) amp),
    h.fl.mul freq (h.fl.lit 2), h.fl.mul amp (h.fl.lit (1 / 2)), h.fl.add maxVal amp)

def heightAt (terrain : Table) : HeightFn := fun wx wz =>
  let x := h.fl.mul (h.fl.lit wx.toInt) (h.fl.lit (1 / 200))
  let z := h.fl.mul (h.fl.lit wz.toInt) (h.fl.lit (1 / 200))
  let (val, _, _, maxVal) := (List.range 4).foldl (octave h x z terrain)
    (h.fl.lit 0, h.fl.lit 1, h.fl.lit 1, h.fl.lit 0)
  let noise := h.truncI32 (h.fl.mul (h.div val maxVal) (h.fl.lit g.amplitude.toInt))
  (g.baseHeight + BitVec.ofInt 32 noise).toInt

def isCave (wx wy wz : F) (cave : Table) : Bool :=
  let fl := h.fl
  let scaled (v : F) (s : Rat) := fl.mul v (fl.lit s)
  let val := h.perlin3d (scaled wx (1 / 20)) (scaled wy (1 / 20)) (scaled wz (1 / 20)) cave
  let val2 := fl.mul (h.perlin3d (fl.add (scaled wx (1 / 10)) (fl.lit 100)) (scaled wy (1 / 10))
    (fl.add (scaled wz (1 / 10)) (fl.lit 100)) cave) (fl.lit (1 / 2))
  fl.lt (fl.abs (fl.add val val2)) (fl.lit (3 / 10))

/-- `DEEPSLATE` -/
def DEEPSLATE : BlockId := 338

/-- The block at `y` of a column below its surface. -/
def layer (biome : BiomeId) (surface y : Int) : BlockId :=
  let (_, subsurface, deep) := biome.surfaceBlocks
  let b := if surface - 4 ≤ y then subsurface else deep
  if b = STONE ∧ y < 0 then DEEPSLATE else b

def column (biome : BiomeId) (surface x z : Int) : List Write :=
  [⟨x, -64, z, BEDROCK⟩] ++ (span (-63) surface).map (fun y => ⟨x, y, z, layer biome surface y⟩) ++
    if -59 ≤ surface then [⟨x, surface, z, biome.surfaceBlocks.1⟩] else []

/-- The height of a column inside the world. -/
def surfaceAt (heightAt : HeightFn) (pos : ChunkPos) (x z : Int) : Int :=
  max (-64) (min (heightAt (world pos.x x) (world pos.z z)) 255)

def ground (heightAt : HeightFn) (pos : ChunkPos) (seed : BitVec 64) : List Write :=
  columns.flatMap fun (x, z) =>
    column (sampleBiome (world pos.x x) (world pos.z z) seed) (surfaceAt heightAt pos x z) x z

def caves (cave : Table) (pos : ChunkPos) : List Write :=
  columns.flatMap fun (x, z) => (span (-60) 50).flatMap fun (y : Int) =>
    if isCave h (h.fl.lit (world pos.x x).toInt) (h.fl.lit y) (h.fl.lit (world pos.z z).toInt) cave then
      [⟨x, y, z, AIR⟩]
    else []

end NoiseGenerator

/-- The placers between the ores and the ancient city. -/
def placeFeatures (pos : ChunkPos) (seed : BitVec 64) (heightAt : HeightFn) (c : Chunk) :
    Option Chunk := do
  let c ← place (placeTrees pos seed heightAt) c
  let c ← placeVegetation pos seed heightAt c
  let c ← place (placeVillage pos seed heightAt) c
  let c ← place (placeShipwreck pos seed heightAt) c
  let c ← place (placeRuinedPortal pos seed heightAt) c
  let c ← place (placeDesertTemple pos seed) c
  let c ← place (placeSwampHut pos seed) c
  let c ← place (placeIgloo pos seed) c
  let c ← placeMineshaft pos seed c
  let c ← place (placeJungleTemple pos seed) c
  let c ← place (placeOceanMonument pos seed) c
  place (placeTrialChambers pos seed) c

/-- The placers after the ancient city. -/
def placeRuins (fl : Floats F) (pos : ChunkPos) (seed : BitVec 64) (heightAt : HeightFn) (c : Chunk) :
    Option Chunk := do
  let c ← placeSulfurSprings fl pos seed heightAt c
  let c ← place (placePillagerOutpost pos seed heightAt) c
  let c ← place (placeWoodlandMansion pos seed heightAt) c
  let c ← place (placeFossil pos seed) c
  place (placeTrailRuins pos seed heightAt) c

/-- `fill_section_biomes` of one section, if it is filled. -/
def fillBiomes (pos : ChunkPos) (seed : BitVec 64) (c : Chunk) (i : Fin SECTIONS_PER_CHUNK) :
    Option Chunk :=
  match c.sections i with
  | none => some c
  | some sec =>
      (fillSectionBiomes sec.biomes (BitVec.ofInt 32 sec.position.y) pos seed).map fun biomes =>
        { c with sections := Function.update c.sections i (some { sec with biomes := biomes }) }

/-- `init_chunk_lighting(&mut chunk); chunk.dirty = false;` -/
def light (c : Chunk) : Chunk := { c with sections := initChunkLighting c.sections, dirty := false }

def NoiseGenerator.generateChunk (g : NoiseGenerator) (pos : ChunkPos) (seed : BitVec 64) :
    Draws (Tables Table) Chunk := do
  let terrain ← getTerrainHasher h seed
  let cave ← getCaveHasher h seed
  let heightAt := g.heightAt h terrain
  let c ← lift (place (ground heightAt pos seed ++ caves h cave pos) (Chunk.new pos))
  let c ← placeOres c
  let c ← lift (placeFeatures pos seed heightAt c)
  let c ← placeAncientCity pos seed c
  let c ← lift (placeRuins h.fl pos seed heightAt c)
  let c ← lift ((List.finRange SECTIONS_PER_CHUNK).foldlM (fillBiomes pos seed) c)
  pure (light c)

/-! ## Layers -/

/-- The blocks of a column of layers, from `y` up. -/
def layers (y : Int) : List (BlockState × Int) → List (Int × BlockState)
  | [] => []
  | (block, thickness) :: ls =>
      (span 0 thickness).map (fun dy => (y + dy, block)) ++ layers (y + thickness) ls

def applyLayers (ls : List (BlockState × Int)) (c : Chunk) : Option Chunk :=
  columns.foldlM (fun c (x, z) => (layers (-64) ls).foldlM (fun c (y, block) =>
    c.setBlock x.toNat (BitVec.ofInt 32 y) z.toNat block) c) c

/-- The layers of `FlatGenerator::new`, also where the options name none. -/
def defaultLayers : List (BlockState × Int) :=
  [(BlockId.state BEDROCK, 1), (BlockId.state STONE, 2), (BlockId.state DIRT, 2),
    (BlockId.state GRASS_BLOCK, 1)]

/-! ## The nether and the end -/

def netherColumn (pos : ChunkPos) (seed : BitVec 64) (x z : Int) : List Write :=
  let wx := world pos.x x
  let biome := sampleNetherBiome wx (world pos.z z) seed
  let b : BlockId := match biome with
    | .soulSandValley => 88
    | .basaltDeltas => 87
    | _ => biome.surfaceBlocks.1
  [⟨x, 0, z, BEDROCK⟩, ⟨x, 127, z, BEDROCK⟩] ++ (span 1 127).map (fun y => ⟨x, y, z, b⟩) ++
    (if biome = .soulSandValley ∧ (x + z) % 3 = 0 then (span 32 38).map fun y => ⟨x, y, z, 88⟩ else []) ++
    (if biome = .basaltDeltas ∧ (x + z) % 5 = 0 then (span 28 34).map fun y => ⟨x, y, z, 268⟩ else []) ++
    if (wx * 37).toInt.tmod 11 = 0 then [⟨x, 118 + z % 5, z, 89⟩] else []

def generateNether (pos : ChunkPos) (seed : BitVec 64) : Draws (Tables Table) Chunk := do
  let ws := (columns.flatMap fun (x, z) => netherColumn pos seed x z) ++ placeNetherFortress pos seed
  let c ← lift (place ws (Chunk.new pos))
  let c ← placeBastionRemnant h.fl pos seed c
  pure (light c)

/-- `((wx as f64 * 0.05).sin() * (wz as f64 * 0.07).cos() * 20.0) as i32 + 60` -/
def highland (wx wz : BitVec 32) : Int :=
  let fl := h.fl
  let wave := fl.mul (fl.mul (h.sin (fl.mul (fl.lit wx.toInt) (fl.lit (1 / 20))))
    (h.cos (fl.mul (fl.lit wz.toInt) (fl.lit (7 / 100))))) (fl.lit 20)
  (BitVec.ofInt 32 (h.truncI32 wave + 60)).toInt

def endColumn (pos : ChunkPos) (x z : Int) : List Write :=
  let fl := h.fl
  let wx := world pos.x x
  let wz := world pos.z z
  let dist := distance fl wx wz
  if fl.lt dist (fl.lit 80) then
    (span 60 65).map (fun y => ⟨x, y, z, 121⟩) ++
      if fl.lt (fl.lit 20) dist ∧ fl.lt dist (fl.lit 60) ∧ (wx + wz).toInt.tmod 20 = 0 then
        (span 65 75).map fun y => ⟨x, y, z, 71⟩
      else []
  else if fl.le (fl.lit 1000) dist ∧ sampleEndBiome fl wx wz = .endHighlands then
    let y0 := highland h wx wz
    ((span y0 (y0 + 5)).flatMap fun y => if 0 ≤ y ∧ y ≤ 255 then [⟨x, y, z, 121⟩] else []) ++
      if (wx + wz).toInt.tmod 13 = 0 then
        (span (y0 + 5) (y0 + 10)).map (fun y => ⟨x, y, z, 199⟩) ++ [⟨x, y0 + 10, z, 200⟩]
      else []
  else []

def generateEnd (pos : ChunkPos) : Option Chunk :=
  (place ((columns.flatMap fun (x, z) => endColumn h pos x z) ++ placeEndCity h.fl pos)
    (Chunk.new pos)).map light

/-! ## Options -/

/-- `HashMap<String, String>` -/
abbrev Options := String → Option String

def byName (name : String) : Option BlockId :=
  match h.toLowercase name with
  | "air" => some AIR
  | "stone" => some STONE
  | "granite" => some GRANITE
  | "dirt" => some DIRT
  | "coarse_dirt" => some COARSE_DIRT
  | "grass_block" | "grass" => some GRASS_BLOCK
  | "bedrock" => some BEDROCK
  | "sand" => some SAND
  | "gravel" => some GRAVEL
  | "oak_log" | "log" => some OAK_LOG
  | "oak_leaves" | "leaves" => some OAK_LEAVES
  | "water" => some WATER
  | _ => none

/-- `parse::<i32>` -/
def parseI32 (s : List Char) : Option Int := parseInt (-2 ^ 31) (2 ^ 31 - 1) s

/-- One `block:thickness` pair. -/
def parseLayer (part : List Char) : Option (BlockState × Int) := do
  let (name, thickness) ← splitOnce [':'] [] (trim part)
  let block ← byName h (String.ofList (trim name))
  let t ← parseI32 (trim thickness)
  some (block.state, t)

def buildLayers (options : Options) : List (BlockState × Int) :=
  let ls := match options "layers" with
    | some s => (splitOn ',' [] s.toList).filterMap (parseLayer h)
    | none => []
  if ls.isEmpty then defaultLayers else ls

def buildNoise (options : Options) : NoiseGenerator where
  baseHeight := BitVec.ofInt 32 (((options "base_height").bind fun s => parseI32 s.toList).getD (-59))
  amplitude := BitVec.ofInt 32 (((options "amplitude").bind fun s => parseI32 s.toList).getD 20)
  surfaceBlock := ((options "surface_block").bind (byName h)).getD GRASS_BLOCK
  subsurfaceBlock := ((options "subsurface_block").bind (byName h)).getD DIRT
  deepBlock := ((options "deep_block").bind (byName h)).getD STONE

/-- `mode` -/
def mode (options : Options) : String := (options "mode").getD "layered"

/-! ## Generators -/

inductive Generator where
  | flat (layers : List (BlockState × Int))
  | noise (g : NoiseGenerator)
  | empty
  | nether
  | end
  | custom (options : Options)
  | compose (generators : List Generator)

/-- Copies the blocks of `upper` that are not air. -/
def overlay (upper c : Chunk) : Option Chunk :=
  (columns.flatMap fun (x, z) => (span (-64) 320).map fun y => (x, z, y)).foldlM (fun c (x, z, y) => do
    let block ← readBlock upper x y z
    if block.isAir then some c else c.setBlock x.toNat (BitVec.ofInt 32 y) z.toNat block) c

namespace Generator

mutual

def generateChunk (pos : ChunkPos) (seed : BitVec 64) : Generator → Draws (Tables Table) Chunk
  | flat ls => lift ((applyLayers ls (Chunk.new pos)).map light)
  | noise g => g.generateChunk h pos seed
  | empty => pure (Chunk.new pos)
  | nether => generateNether h pos seed
  | «end» => lift (generateEnd h pos)
  | custom options =>
      if mode options = "heightmap" ∨ mode options = "noise" then
        (buildNoise h options).generateChunk h pos seed
      else
        lift ((applyLayers (buildLayers h options) (Chunk.new pos)).map fun c => { c with dirty := false })
  | compose [] => pure (Chunk.new pos)
  | compose (first :: rest) => do
      let c ← generateChunk pos seed first
      overlayAll pos seed rest c

/-- The other generators of a composition, over the chunk of the first. -/
def overlayAll (pos : ChunkPos) (seed : BitVec 64) : List Generator → Chunk → Draws (Tables Table) Chunk
  | [], c => pure c
  | g :: gs, c => do
      let upper ← generateChunk pos seed g
      let c ← lift (overlay upper c)
      overlayAll pos seed gs c

end

end Generator

/-! ## Threads -/

/-- What happens on a thread: a chunk is generated, or something else draws. -/
inductive Use where
  | generate (g : Generator) (pos : ChunkPos) (seed : BitVec 64)
  | draw (draws : Nat → Nat)

/-- The state after a use.  A chunk that cannot be generated takes the thread with it. -/
def Use.apply (t : Drawing (Tables Table)) : Use → Option (Drawing (Tables Table))
  | generate g pos seed => (g.generateChunk h pos seed t).map Prod.snd
  | draw draws => some ⟨draws, t.state⟩

/-- A thread: its tables are not cached at first, and its random source is in any state. -/
def threads : StepSystem (Drawing (Tables Table)) Use where
  init t := t.state = ⟨none, none⟩
  enabled t u := (u.apply h t).isSome
  apply t u := (u.apply h t).getD t

end Apoptotic.Terrain
