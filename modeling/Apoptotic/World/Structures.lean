import Apoptotic.Lib.Draws
import Apoptotic.World.Lighting
import Apoptotic.World.Placers

/-!
# Structures and ores

The structures and the ore veins of `mc-world/src/generator.rs`.  Three of them draw from the random
source of the thread: the veins, the sculk of an ancient city and the lava of a bastion.

Principal definitions: the placers, under the names of the source; `placeVein`, `placeAncientCity`,
`placeBastionRemnant` — those that draw.
-/

namespace Apoptotic.Terrain

open Blocks Draws

/-! ## By the height of the ground -/

/-- The houses of a village: where they begin from its middle, and their sides. -/
def houses : List (Int × Int × Int × Int) := [(-5, -4, 4, 4), (3, -2, 5, 4), (-2, 4, 4, 4)]

def house (base : Int) (at' : Int × Int × Int × Int) : List Write :=
  let (hx, hz, w, d) := at'
  let wsx := 8 + hx
  let wsz := 8 + hz
  let wex := 8 + hx + w - 1
  let wez := 8 + hz + d - 1
  ((span 0 w).flatMap fun fx => (span 0 d).flatMap fun fz => clip ⟨8 + hx + fx, base, 8 + hz + fz, 13⟩) ++
    ((span 1 4).flatMap fun fy => clip ⟨wsx, base + fy, wsz, 34⟩ ++ clip ⟨wex, base + fy, wez, 34⟩ ++
      clip ⟨wsx, base + fy, wez, 34⟩ ++ clip ⟨wex, base + fy, wsz, 34⟩) ++
    clip ⟨8 + hx + w / 2, base + 1, 8 + hz, 852⟩

/-- The well, the houses, the paths and the wall of a village. -/
def village (base : Int) : List Write :=
  [⟨7, base, 9, WATER⟩, ⟨8, base, 9, WATER⟩, ⟨9, base, 9, WATER⟩] ++
    ((span (-1) 3).flatMap fun dx => (span 0 3).flatMap fun dz => clip ⟨8 + dx, base + 1, 8 + dz, 98⟩) ++
    houses.flatMap (house base) ++
    ((span (-5) 7).flatMap fun dx => clip ⟨8 + dx, base, 8, 199⟩) ++
    ((span (-4) 5).flatMap fun dz => clip ⟨8, base, 8 + dz, 199⟩) ++
    (span 0 12).flatMap fun wx => (span 1 4).flatMap fun wy =>
      if wx = 0 ∨ wx = 11 ∨ wy = 3 then clip ⟨8 + wx - 5, base + wy, 3, 34⟩ else []

def placeVillage (pos : ChunkPos) (seed : BitVec 64) (heightAt : HeightFn) : List Write :=
  let base := heightAt (world pos.x 8) (world pos.z 8)
  if absBits (mix pos.x pos.z seed 131 137 7919) % 256 ≠ 0 then []
  else if middleBiome pos seed ∉ [.plains, .desert] then []
  else if base < -50 then []
  else village base

def shipwreck (base : Int) : List Write :=
  (span 4 12).flatMap fun dx => (span 4 8).flatMap fun dz =>
    clip ⟨dx, base, dz, 13⟩ ++ if dz = 5 ∧ dx % 3 = 0 then clip ⟨dx, base + 1, dz, 34⟩ else []

def placeShipwreck (pos : ChunkPos) (seed : BitVec 64) (heightAt : HeightFn) : List Write :=
  if ¬ multipleOf (mix pos.x pos.z seed 0x5DEECE66D 0x5DEECE66D 0x5DEECE66D) 800 then []
  else if middleBiome pos seed ≠ .ocean then []
  else shipwreck (heightAt (world pos.x 8) (world pos.z 8))

def ruinedPortal (base : Int) : List Write :=
  ((span (-1) 3).flatMap fun dx => (span 0 4).flatMap fun dy =>
    [(8 + dx, 7), (8 + dx, 11)].flatMap fun (s : Int × Int) =>
      clip ⟨s.1, base + dy, s.2, if dx = 0 ∧ dy = 1 then 310 else 49⟩) ++ [⟨7, base + 1, 9, 101⟩]

def placeRuinedPortal (pos : ChunkPos) (seed : BitVec 64) (heightAt : HeightFn) : List Write :=
  let base := heightAt (world pos.x 8) (world pos.z 8)
  if ¬ multipleOf (mix pos.x pos.z seed 0x9E3779B9 0x9E3779B9 0x9E3779B9) 600 then []
  else if base < 50 then []
  else ruinedPortal base

/-! ## At fixed heights -/

def desertTemple : List Write :=
  ((span 0 8).flatMap fun fx => (span 0 8).map fun fz => ⟨4 + fx, -56, 4 + fz, 71⟩) ++
    ((span 1 5).flatMap fun wy => (span 0 8).flatMap fun wx =>
      [⟨4 + wx, -56 + wy, 4, 71⟩, ⟨4 + wx, -56 + wy, 11, 71⟩]) ++
    [⟨8, -59, 8, 179⟩, ⟨8, -59, 8, 46⟩]

def swampHut : List Write :=
  ((span 0 6).flatMap fun fx => (span 0 6).map fun fz => ⟨5 + fx, -56, 5 + fz, 14⟩) ++
    (span 1 4).flatMap fun wy => (span 0 6).flatMap fun wx =>
      if wx = 0 ∨ wx = 5 ∨ wy = 3 then [⟨5 + wx, -56 + wy, 5, 35⟩, ⟨5 + wx, -56 + wy, 10, 35⟩] else []

def igloo : List Write :=
  ((span 0 5).flatMap fun fx => (span 0 5).map fun fz => ⟨6 + fx, -57, 6 + fz, 80⟩) ++
    ((span 1 4).flatMap fun wy => [⟨8, -57 + wy, 8, 80⟩, ⟨9, -57 + wy, 8, 80⟩]) ++ [⟨10, -56, 9, 119⟩]

/-- A structure of one biome, in one of `n` chunks. -/
def placeIn (biome : BiomeId) (n : Nat) (h : BitVec 64) (ws : List Write) (pos : ChunkPos)
    (seed : BitVec 64) : List Write :=
  if ¬ multipleOf h n then []
  else if middleBiome pos seed ≠ biome then []
  else ws

def placeDesertTemple (pos : ChunkPos) (seed : BitVec 64) : List Write :=
  placeIn .desert 512 (mix pos.x pos.z seed 131 139 8801) desertTemple pos seed

def placeSwampHut (pos : ChunkPos) (seed : BitVec 64) : List Write :=
  placeIn .swamp 400 (mix pos.x pos.z seed 173 179 9109) swampHut pos seed

def placeIgloo (pos : ChunkPos) (seed : BitVec 64) : List Write :=
  placeIn .snowyPlains 450 (mix pos.x pos.z seed 191 193 9901) igloo pos seed

/-- On the side of a box. -/
abbrev Side (v last : Int) : Prop := v = 0 ∨ v = last

def jungleTemple : List Write :=
  ((span 0 12).flatMap fun x => (span 0 10).flatMap fun z => (span 0 6).map fun y =>
    ⟨min x 15, 64 + y, min z 15, if Side x 11 ∨ Side z 9 ∨ Side y 5 then 12 else 0⟩) ++
    [⟨2, 66, 1, 14⟩, ⟨9, 66, 1, 14⟩, ⟨5, 64, 6, 13⟩, ⟨5, 64, 3, 13⟩]

def placeJungleTemple (pos : ChunkPos) (seed : BitVec 64) : List Write :=
  placeIn .jungle 512 (mix pos.x pos.z seed 0x5DEECE66D 0x5DEECE66D 0x5DEECE66D) jungleTemple pos seed

def oceanMonument : List Write :=
  ((span 0 12).flatMap fun x => (span 0 12).flatMap fun z => (span 0 5).flatMap fun y =>
    if Side x 11 ∨ Side z 11 ∨ Side y 4 then [⟨min (x + 2) 15, 45 + y, min (z + 2) 15, 168⟩] else []) ++
    [⟨4, 48, 4, 169⟩, ⟨8, 48, 8, 169⟩, ⟨6, 46, 6, 19⟩, ⟨6, 46, 7, 19⟩]

def placeOceanMonument (pos : ChunkPos) (seed : BitVec 64) : List Write :=
  placeIn .ocean 1024 (mix pos.x pos.z seed 0x6C078965 0x6C078965 0x6C078965) oceanMonument pos seed

/-- The tunnel goes through stone and deepslate only. -/
def dig (c : Chunk) (at' : Int × Int) : Option Chunk := do
  let (dy, dx) := at'
  let existing ← readBlock c dx (30 + dy) 8
  if existing = BlockId.state STONE ∨ existing = BlockId.state 338 then
    Write.run c ⟨dx, 30 + dy, 8, AIR⟩
  else some c

def mineshaftBeams : List Write :=
  ([0, 5, 10, 15].flatMap fun dx => [⟨dx, 30, 8, 13⟩, ⟨dx, 31, 8, 853⟩, ⟨dx, 32, 8, 853⟩]) ++
    [⟨8, 30, 8, 854⟩]

def placeMineshaft (pos : ChunkPos) (seed : BitVec 64) (c : Chunk) : Option Chunk :=
  if multipleOf (mix pos.x pos.z seed 211 223 10103) 200 then do
    let c ← ((span 0 3).flatMap fun dy => (span 0 16).map fun dx => (dy, dx)).foldlM dig c
    place mineshaftBeams c
  else some c

def trialChambers : List Write :=
  ((span 0 10).flatMap fun dx => (span 0 10).flatMap fun dz => (span 0 6).flatMap fun dy =>
    if Side dx 9 ∨ Side dz 9 ∨ Side dy 5 then
      [⟨2 + dx, -20 + dy, 2 + dz, if (dx + dz) % 6 ∈ [0, 3] then 165
        else if (dx + dz) % 6 ∈ [1, 4] then 163 else 162⟩]
    else []) ++
    [⟨7, -19, 3, 166⟩, ⟨7, -19, 11, 166⟩, ⟨3, -19, 7, 166⟩, ⟨11, -19, 7, 166⟩]

def placeTrialChambers (pos : ChunkPos) (seed : BitVec 64) : List Write :=
  if multipleOf (mix pos.x pos.z seed 313 317 20241) 350 then trialChambers else []

/-- The chamber of an ancient city: `338` is its deepslate. -/
def ancientChamber : List Write :=
  (span 0 14).flatMap fun dx => (span 0 14).flatMap fun dz => (span 0 5).map fun dy =>
    ⟨dx, -51 + dy, dz, if Side dx 13 ∨ Side dz 13 ∨ dy = 0 then
      if (dx + dz) % 5 = 0 then 339 else 338 else 0⟩

/-! ## Springs -/

section

variable {F : Type} (fl : Floats F)

/-- The block of a spring at `dx`, `dz` from its middle. -/
def springBlock (radius dx dz : Int) : Option BlockId :=
  let dist := fl.sqrt (fl.lit (dx * dx + dz * dz))
  if fl.le dist (fl.mul (fl.lit radius) (fl.lit (2 / 5))) then some 1252
  else if fl.le dist (fl.mul (fl.lit radius) (fl.lit (7 / 10))) then
    if (dx + dz).tmod 3 = 0 then some 1252 else some WATER
  else if fl.le dist (fl.mul (fl.lit radius) (fl.lit 1)) then
    if (dx.natAbs + dz.natAbs) % 4 = 0 then some 213 else some 1240
  else none

/-- The blocks that a spring replaces. -/
def springReplaces (existing : BlockState) : Bool :=
  existing.isAir || existing.id == 0#32 || [1, 2, 3, 8, 9, 10, 11].any fun id => existing.id == id

/-- The body of the loops of `place_sulfur_springs`. -/
def springStep (radius cx cz surface : Int) (c : Chunk) (d : Int × Int) : Option Chunk :=
  let (dx, dz) := d
  let lx := cx + dx
  let lz := cz + dz
  if Inside lx ∧ Inside lz ∧ 0 ≤ surface ∧ surface ≤ 255 then
    match springBlock fl radius dx dz with
    | some id => do
        let existing ← readBlock c lx surface lz
        if springReplaces existing then Write.run c ⟨lx, surface, lz, id⟩ else some c
    | none => some c
  else some c

def placeSulfurSprings (pos : ChunkPos) (seed : BitVec 64) (heightAt : HeightFn) (c : Chunk) :
    Option Chunk :=
  let cx := world pos.x 0
  let cz := world pos.z 0
  let hash := sum cx cz seed 0x9E3779B9 0x517CC1B7
  let radius : Int := match (hash.toNat / 16) % 4 with
    | 0 => 1
    | 1 => 2
    | 2 => 3
    | _ => 4
  let centerX : Int := (cx.signExtend 64 * BitVec.ofNat 64 0x45D9F3B3335B369).toNat % 16
  let centerZ : Int := (cz.signExtend 64 * BitVec.ofNat 64 0x6C0789655B9D4F1).toNat % 16
  let surface := heightAt (world pos.x centerX) (world pos.z centerZ)
  if ¬ multipleOf hash 27 then some c
  else if surface < 63 then some c
  else
    ((span (-radius) (radius + 1)).flatMap fun dx => (span (-radius) (radius + 1)).map fun dz =>
      (dx, dz)).foldlM (springStep fl radius centerX centerZ surface) c

end

/-! ## Towers, mansions and ruins -/

/-- `((hash >> k) % n + least) as usize` -/
def within (hash : BitVec 64) (k n least : Nat) : Int := (hash.toNat / 2 ^ k % n + least : Nat)

def outpostBlock (dx dy dz : Int) : Option BlockId :=
  let edge := dx = -2 ∨ dx = 2 ∨ dz = -2 ∨ dz = 2
  let corner := dx.natAbs = 2 ∧ dz.natAbs = 2
  if dy < 4 then if edge then some 4 else none
  else if dy < 8 then if corner then some 53 else if edge then some 85 else none
  else if corner then some 640 else if edge then some 85 else none

def outpost (x z surface : Int) : List Write :=
  (span 0 12).flatMap fun dy =>
    if 0 ≤ surface + dy ∧ surface + dy ≤ 319 then
      (span (-2) 3).flatMap fun dx => (span (-2) 3).flatMap fun dz =>
        match outpostBlock dx dy dz with
        | some id => clip ⟨x + dx, surface + dy, z + dz, id⟩
        | none => []
    else []

def placePillagerOutpost (pos : ChunkPos) (seed : BitVec 64) (heightAt : HeightFn) : List Write :=
  let hash := sum (world pos.x 0) (world pos.z 0) seed 0xCBF29CE4 0x84222325
  let x := within hash 8 13 1
  let z := within hash 16 13 1
  let surface := heightAt (world pos.x x) (world pos.z z)
  if middleBiome pos seed ∉ [.plains, .desert, .taiga, .snowyTaiga] then []
  else if ¬ multipleOf hash 311 then []
  else if 63 ≤ surface ∧ surface ≤ 280 then outpost x z surface
  else []

def mansionBlock (dx dy dz : Int) : Option BlockId :=
  let exterior := dx.natAbs = 4 ∨ dz.natAbs = 5
  let corner := dx.natAbs = 4 ∧ dz.natAbs = 5
  if dy = 0 then if exterior then some 4 else some 17
  else if dy < 5 then if corner then some 53 else if exterior then some 85 else none
  else if dy = 5 then some 17
  else if corner then some 53 else if exterior then some 85 else none

def mansion (x z surface : Int) : List Write :=
  (span (-4) 5).flatMap fun dx => (span (-5) 6).flatMap fun dz => (span 0 10).flatMap fun dy =>
    if 0 ≤ surface + dy ∧ surface + dy ≤ 319 then
      match mansionBlock dx dy dz with
      | some id => clip ⟨x + dx, surface + dy, z + dz, id⟩
      | none => []
    else []

def placeWoodlandMansion (pos : ChunkPos) (seed : BitVec 64) (heightAt : HeightFn) : List Write :=
  let hash := sum (world pos.x 0) (world pos.z 0) seed 0xAF63D42C 0x14057B7E
  let x := within hash 10 8 4
  let z := within hash 20 8 4
  let surface := heightAt (world pos.x x) (world pos.z z)
  if middleBiome pos seed ≠ .darkForest then []
  else if ¬ multipleOf hash 1201 then []
  else if 63 ≤ surface ∧ surface ≤ 280 then mansion x z surface
  else []

def fossil (x y z : Int) : List Write :=
  (span (-3) 4).flatMap fun dx =>
    clip ⟨x + dx, y, z, 678⟩ ++
      (if dx.natAbs = 1 ∨ dx.natAbs = 3 then
        (span (-2) 0).flatMap fun dz => clip ⟨x + dx, y, z + dz, 678⟩ else []) ++
      if dx.natAbs = 2 then (span 1 3).flatMap fun dz => clip ⟨x + dx, y, z + dz, 678⟩ else []

def placeFossil (pos : ChunkPos) (seed : BitVec 64) : List Write :=
  let hash := sum (world pos.x 0) (world pos.z 0) seed 0x9E3779B9 0xDEADBEEF
  if middleBiome pos seed ∉ [.desert, .swamp] then []
  else if ¬ multipleOf hash 317 then []
  else fossil (within hash 8 12 2) (within hash 4 25 15) (within hash 16 8 4)

def trailRuins (x y z : Int) : List Write :=
  (span (-3) 4).flatMap fun dx => (span (-2) 3).flatMap fun dz => (span (-1) 1).flatMap fun dy =>
    if 0 ≤ y + dy ∧ y + dy ≤ 319 then
      clip ⟨x + dx, y + dy, z + dz,
        if dy = 0 then if (dx + dz).tmod 3 = 0 then 40 else 764
        else if (dx.natAbs + dz.natAbs) % 2 = 0 then 583 else 40⟩
    else []

def placeTrailRuins (pos : ChunkPos) (seed : BitVec 64) (heightAt : HeightFn) : List Write :=
  let hash := sum (world pos.x 0) (world pos.z 0) seed 0x6B8E3F1A 0xD2A70C9B
  let x := within hash 8 12 2
  let z := within hash 16 10 3
  let surface := heightAt (world pos.x x) (world pos.z z)
  let below := (BitVec.ofInt 32 (surface - 2 - (signedBits hash 0).tmod 4)).toInt
  if middleBiome pos seed ∉ [.taiga, .oldGrowthPineTaiga, .oldGrowthSpruceTaiga, .jungle, .snowyTaiga]
  then []
  else if ¬ multipleOf hash 277 then []
  else trailRuins x (max 50 (min below 250)) z

/-! ## The nether and the end -/

def netherFortress : List Write :=
  (span 0 12).flatMap fun x => (span 0 12).flatMap fun z =>
    ((span 0 6).flatMap fun y => if Side x 11 ∨ Side z 11 ∨ Side y 5 then
      [⟨min (x + 2) 15, 60 + y, min (z + 2) 15, 112⟩] else []) ++
    if x % 4 = 0 ∧ z % 4 = 0 then
      (span 0 4).map fun y => ⟨min (x + 2) 15, 60 + y, min (z + 2) 15, 113⟩ else []

def placeNetherFortress (pos : ChunkPos) (seed : BitVec 64) : List Write :=
  if ¬ multipleOf (mix pos.x pos.z seed 0x7FEB352D 0x7FEB352D 0x7FEB352D) 800 then []
  else if sampleNetherBiome (world pos.x 8) (world pos.z 8) seed ∉ [.netherWastes, .soulSandValley] then []
  else netherFortress

def endCity : List Write :=
  ((span 0 8).flatMap fun x => (span 0 8).flatMap fun z =>
    ((span 0 8).flatMap fun y => if Side x 7 ∨ Side z 7 ∨ Side y 7 then
      [⟨min (x + 4) 15, 65 + y, min (z + 4) 15, 201⟩] else []) ++
    if (x = 2 ∨ x = 5) ∧ (z = 2 ∨ z = 5) then
      (span 0 6).map fun y => ⟨min (x + 4) 15, 65 + y, min (z + 4) 15, 202⟩ else []) ++
    [⟨8, 71, 8, 203⟩]

def placeEndCity {F : Type} (fl : Floats F) (pos : ChunkPos) : List Write :=
  let x := pos.x.signExtend 64
  let z := pos.z.signExtend 64
  if ¬ multipleOf (x * BitVec.ofNat 64 0x1D1D1D1D ^^^ z * BitVec.ofNat 64 0x1D1D1D1D ^^^ x * z) 600 then []
  else if sampleEndBiome fl (world pos.x 8) (world pos.z 8) ≠ .endHighlands then []
  else endCity

/-! ## Placers that draw -/

section

variable {σ : Type}

/-- An ore: above zero, below zero, its heights and the size of a vein. -/
structure Ore where
  ore : BlockId
  deepOre : BlockId
  yMin : Int
  yMax : Int
  size : Nat

/-- One block of a vein: the offsets are drawn, and stone or deepslate is replaced. -/
def veinStep (o : Ore) (ox oy oz : Int) (c : Chunk) (_ : Nat) : Draws σ Chunk := do
  let dx ← draw 3
  let dy ← draw 3
  let dz ← draw 3
  let px := max 0 (min (ox + dx - 1) 15)
  let py := oy + dy - 1
  let pz := max 0 (min (oz + dz - 1) 15)
  if -64 ≤ py ∧ py ≤ 319 then do
    let existing ← lift (readBlock c px py pz)
    if existing = BlockId.state STONE ∨ existing = BlockId.state 338 then
      lift (Write.run c ⟨px, py, pz, if py < 0 then o.deepOre else o.ore⟩)
    else pure c
  else pure c

def placeVein (o : Ore) (c : Chunk) : Draws σ Chunk := do
  let ox ← draw 16
  let oz ← draw 16
  let oy ← draw (2 ^ 32)
  loop (veinStep o ox (o.yMin + oy % (o.yMax - o.yMin)) oz) (List.range o.size) c

/-- The veins of a chunk, in order. -/
def veins : List Ore :=
  List.replicate 20 ⟨31, 31, 0, 128, 17⟩ ++ List.replicate 15 ⟨29, 337, -64, 64, 9⟩ ++
    List.replicate 8 ⟨27, 338, -64, 32, 9⟩ ++ [⟨47, 339, -64, 16, 6⟩] ++
    List.replicate 16 ⟨300, 340, -16, 112, 12⟩ ++ List.replicate 8 ⟨117, 341, -64, 16, 8⟩ ++
    List.replicate 4 ⟨59, 342, -64, 64, 7⟩ ++ List.replicate 3 ⟨303, 343, -16, 320, 3⟩

def placeOres (c : Chunk) : Draws σ Chunk := loop (fun c o => placeVein o c) veins c

/-- One patch of sculk. -/
def placeSculk (c : Chunk) (_ : Nat) : Draws σ Chunk := do
  let sx ← draw 10
  let sz ← draw 10
  lift (Write.run c ⟨2 + sx, -50, 2 + sz, 340⟩)

/-- The chunk has an ancient city. -/
def hasAncientCity (pos : ChunkPos) (seed : BitVec 64) : Bool :=
  multipleOf (mix pos.x pos.z seed 419 421 31337) 500

def placeAncientCity (pos : ChunkPos) (seed : BitVec 64) (c : Chunk) : Draws σ Chunk :=
  if hasAncientCity pos seed then do
    let c ← lift (place ancientChamber c)
    loop placeSculk (List.range 8) c
  else pure c

/-- A column of a bastion, of the blocks by the distance from its middle. -/
def bastionColumn {F : Type} (fl : Floats F) (base lx lz dx dz : Int) : List Write :=
  let dist := fl.sqrt (fl.lit (dx * dx + dz * dz))
  (span 0 4).flatMap fun dy =>
    if 0 ≤ base + dy ∧ base + dy ≤ 127 then
      if fl.le dist (fl.lit (3 / 2)) ∧ dy = 0 then [⟨lx, base + dy, lz, 83⟩]
      else if fl.le dist (fl.lit (5 / 2)) ∧ dy = 0 then [⟨lx, base + dy, lz, 819⟩]
      else if fl.le dist (fl.lit 4) then
        [⟨lx, base + dy, lz, if (dx.natAbs + dz.natAbs) % 3 = 0 then 819 else 880⟩]
      else []
    else []

/-- The body of the loops of `place_bastion_remnant`: lava is drawn near the middle. -/
def bastionStep {F : Type} (fl : Floats F) (base x z : Int) (c : Chunk) (d : Int × Int) :
    Draws σ Chunk :=
  let (dx, dz) := d
  let lx := x + dx
  let lz := z + dz
  if Inside lx ∧ Inside lz then do
    let c ← lift (place (bastionColumn fl base lx lz dx dz) c)
    if fl.le (fl.sqrt (fl.lit (dx * dx + dz * dz))) (fl.lit (3 / 2)) then do
      let lava ← draw (2 ^ 32)
      if lava % 4 = 0 then lift (Write.run c ⟨lx, base - 1, lz, 36⟩) else pure c
    else pure c
  else pure c

/-- Its biome is sampled as one of the overworld. -/
def placeBastionRemnant {F : Type} (fl : Floats F) (pos : ChunkPos) (seed : BitVec 64) (c : Chunk) :
    Draws σ Chunk :=
  let hash := sum (world pos.x 0) (world pos.z 0) seed 0x517CC1B7 0x8ABE6A01
  if ¬ (middleBiome pos seed).isNether then pure c
  else if ¬ multipleOf hash 211 then pure c
  else
    loop (bastionStep fl (35 + (hash.toNat / 16 % 4 : Nat)) (within hash 8 10 3) (within hash 16 10 3))
      ((span (-4) 5).flatMap fun dx => (span (-4) 5).map fun dz => (dx, dz)) c

end

end Apoptotic.Terrain
