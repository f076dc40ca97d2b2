import Apoptotic.Lib.Floats
import Apoptotic.World.Chunk

/-!
# Biomes

`BiomeId` of `mc-core/src/biome.rs` and the biome samples of `mc-world/src/generator.rs`: hashes of the
coordinates and the seed.  A temperature, a humidity and an elevation are the numerators of their
fractions, as percents and in ten thousandths; the `f32` quotients compare as these do.

Principal result: `sampleBiome_not_nether` — the sample of the overworld is never a biome of the nether.
-/

namespace Apoptotic.Terrain

/-- `BiomeId` -/
inductive BiomeId where
  | plains | sunflowerPlains | forest | flowerForest | birchForest | oldGrowthBirchForest | darkForest
  | swamp | mangroveSwamp | jungle | sparseJungle | bambooJungle | beach | mushroomFields
  | river | ocean | deepOcean | warmOcean | coldOcean | frozenOcean
  | taiga | oldGrowthPineTaiga | oldGrowthSpruceTaiga | snowyPlains | iceSpikes | snowyTaiga
  | snowyBeach | frozenRiver
  | desert | savanna | savannaPlateau | badlands | erodedBadlands | woodedBadlands
  | windsweptHills | windsweptGravellyHills | windsweptForest | meadow | grove | snowySlopes
  | jaggedPeaks | frozenPeaks | stonyPeaks
  | dripstoneCaves | lushCaves | deepDark | sulfurCaves | cherryGrove | paleGarden
  | netherWastes | soulSandValley | crimsonForest | warpedForest | basaltDeltas
  | theEnd | endHighlands | endMidlands | smallEndIslands | endBarrens
  deriving DecidableEq, Repr

/-- The number of a block that each mode of a container stores as it is. -/
abbrev BlockId := Fin 32768

instance BlockId.neZero : NeZero (32768 : Nat) := ⟨by decide⟩

/-- `BlockState::new` -/
def BlockId.state (id : BlockId) : BlockState := BlockState.new (BitVec.ofNat 32 id)

namespace BiomeId

/-- `id`, the discriminants of the enumeration. -/
def id : BiomeId → BlockId
  | plains => 0 | sunflowerPlains => 1 | forest => 2 | flowerForest => 3
  | birchForest => 4 | oldGrowthBirchForest => 5 | darkForest => 6
  | swamp => 7 | mangroveSwamp => 8 | jungle => 9 | sparseJungle => 10 | bambooJungle => 11
  | beach => 12 | mushroomFields => 13
  | river => 14 | ocean => 15 | deepOcean => 16 | warmOcean => 17 | coldOcean => 18 | frozenOcean => 19
  | taiga => 20 | oldGrowthPineTaiga => 21 | oldGrowthSpruceTaiga => 22
  | snowyPlains => 23 | iceSpikes => 24 | snowyTaiga => 25
  | snowyBeach => 26 | frozenRiver => 27
  | desert => 30 | savanna => 31 | savannaPlateau => 32
  | badlands => 33 | erodedBadlands => 34 | woodedBadlands => 35
  | windsweptHills => 40 | windsweptGravellyHills => 41 | windsweptForest => 42
  | meadow => 43 | grove => 44 | snowySlopes => 45
  | jaggedPeaks => 46 | frozenPeaks => 47 | stonyPeaks => 48
  | dripstoneCaves => 49 | lushCaves => 50 | deepDark => 51
  | sulfurCaves => 54
  | cherryGrove => 52 | paleGarden => 53
  | netherWastes => 60 | soulSandValley => 61 | crimsonForest => 62
  | warpedForest => 63 | basaltDeltas => 64
  | theEnd => 70 | endHighlands => 71 | endMidlands => 72
  | smallEndIslands => 73 | endBarrens => 74

/-- `surface_blocks`: of the surface, under it and deep. -/
def surfaceBlocks : BiomeId → BlockId × BlockId × BlockId
  | plains | sunflowerPlains | forest | flowerForest | birchForest | oldGrowthBirchForest | darkForest
  | swamp | mangroveSwamp | jungle | sparseJungle | bambooJungle | cherryGrove | paleGarden | meadow
  | grove => (8, 9, 1)
  | desert | savanna | savannaPlateau | badlands | erodedBadlands | woodedBadlands => (24, 24, 1)
  | taiga | oldGrowthPineTaiga | oldGrowthSpruceTaiga | snowyTaiga => (8, 9, 1)
  | snowyPlains => (78, 9, 1)
  | iceSpikes => (78, 78, 1)
  | windsweptHills | windsweptGravellyHills | windsweptForest | jaggedPeaks | stonyPeaks => (1, 1, 1)
  | snowySlopes | frozenPeaks => (78, 1, 1)
  | beach | snowyBeach => (24, 24, 1)
  | river | frozenRiver => (26, 9, 1)
  | ocean | deepOcean | warmOcean | coldOcean | frozenOcean => (26, 1, 1)
  | mushroomFields => (110, 9, 1)
  | dripstoneCaves => (1, 1, 1)
  | lushCaves => (9, 1, 1)
  | deepDark => (1, 269, 1)
  | sulfurCaves => (1240, 1, 269)
  | netherWastes | crimsonForest | warpedForest => (87, 87, 87)
  | soulSandValley => (88, 88, 88)
  | basaltDeltas => (87, 87, 268)
  | _ => (121, 121, 121)

def isNether : BiomeId → Bool
  | netherWastes | soulSandValley | crimsonForest | warpedForest | basaltDeltas => true
  | _ => false

/-- The biomes that the sample of the overworld can be. -/
def overworld : List BiomeId :=
  [frozenOcean, coldOcean, warmOcean, deepOcean, ocean, snowyBeach, beach, frozenRiver, river,
    frozenPeaks, snowySlopes, jaggedPeaks, stonyPeaks, windsweptHills, grove, meadow, cherryGrove,
    desert, badlands, erodedBadlands, woodedBadlands, savannaPlateau, savanna, snowyTaiga, taiga,
    oldGrowthSpruceTaiga, oldGrowthPineTaiga, snowyPlains, jungle, bambooJungle, sparseJungle,
    darkForest, birchForest, oldGrowthBirchForest, flowerForest, swamp, forest, sunflowerPlains,
    windsweptForest, windsweptGravellyHills, plains]

end BiomeId

/-! ## Hashes -/

/-- `(x as u64).wrapping_mul(a) ^ (z as u64).wrapping_mul(b) ^ seed.wrapping_mul(c)` -/
def mix (x z : BitVec 32) (seed : BitVec 64) (a b c : Nat) : BitVec 64 :=
  x.signExtend 64 * BitVec.ofNat 64 a ^^^ z.signExtend 64 * BitVec.ofNat 64 b ^^^
    seed * BitVec.ofNat 64 c

/-- `(x as u64).wrapping_mul(a).wrapping_add((z as u64).wrapping_mul(b)).wrapping_add(seed)` -/
def sum (x z : BitVec 32) (seed : BitVec 64) (a b : Nat) : BitVec 64 :=
  x.signExtend 64 * BitVec.ofNat 64 a + z.signExtend 64 * BitVec.ofNat 64 b + seed

/-- `h.is_multiple_of(n)` -/
def multipleOf (h : BitVec 64) (n : Nat) : Bool := h.toNat % n = 0

/-- `(h >> k) as u32` -/
def bits (h : BitVec 64) (k : Nat) : Nat := ((h >>> k).setWidth 32).toNat

/-- `(h >> k) as i32` -/
def signedBits (h : BitVec 64) (k : Nat) : Int := ((h >>> k).setWidth 32).toInt

/-- `(h as i32).wrapping_abs() as u32` -/
def absBits (h : BitVec 64) : Nat := (h.setWidth 32).abs.toNat

/-! ## The overworld -/

def sampleElevation (wx wz : BitVec 32) (seed : BitVec 64) : Nat :=
  bits (mix wx wz seed 7331 5779 4242) 8 % 10000

/-- `sample_biome` from its temperature, humidity and elevation. -/
def biomeOf (temp hum elev : Nat) : BiomeId :=
  if elev < 3500 then
    if temp < 10 then .frozenOcean
    else if temp < 30 then .coldOcean
    else if 70 < temp then .warmOcean
    else if elev < 2000 then .deepOcean
    else .ocean
  else if elev < 4200 then
    if temp < 10 then .snowyBeach else .beach
  else if elev < 4800 then
    if temp < 10 then .frozenRiver else .river
  else if 7000 < elev then
    if temp < 15 then .frozenPeaks
    else if temp < 35 then .snowySlopes
    else if temp < 50 then .jaggedPeaks
    else if temp < 65 then .stonyPeaks
    else if hum < 30 then .windsweptHills
    else if hum < 60 then .grove
    else .meadow
  else if 70 < hum ∧ 40 < temp ∧ temp < 60 ∧ 5000 < elev then .cherryGrove
  else if 65 < temp then
    if hum < 20 then .desert
    else if hum < 40 then
      if 6500 < elev then .badlands
      else if 5500 < elev then .erodedBadlands
      else .woodedBadlands
    else if 6000 < elev then .savannaPlateau
    else .savanna
  else if temp < 25 then
    if 60 < hum then .snowyTaiga
    else if 30 < hum then .taiga
    else if 15 < hum then .oldGrowthSpruceTaiga
    else if 5500 < elev then .oldGrowthPineTaiga
    else .snowyPlains
  else if 70 < hum then
    if 50 < temp then .jungle
    else if 40 < temp then .bambooJungle
    else if 30 < temp then .sparseJungle
    else .darkForest
  else if 55 < hum then
    if 35 < temp then .birchForest
    else if 30 < temp then .oldGrowthBirchForest
    else .flowerForest
  else if 40 < hum then
    if elev < 4500 then .swamp else .forest
  else if hum < 20 then .sunflowerPlains
  else if hum < 35 then .windsweptForest
  else if 5000 < elev then .windsweptGravellyHills
  else .plains

def sampleBiome (wx wz : BitVec 32) (seed : BitVec 64) : BiomeId :=
  let h := mix wx wz seed 1619 31337 1013
  biomeOf (bits h 16 % 100) (bits h 32 % 100) (sampleElevation wx wz seed)

theorem ite_mem {α : Type} {c : Prop} [Decidable c] {a b : α} {l : List α} (ha : a ∈ l) (hb : b ∈ l) :
    (if c then a else b) ∈ l := by
  split
  · exact ha
  · exact hb

theorem biomeOf_mem (temp hum elev : Nat) : biomeOf temp hum elev ∈ BiomeId.overworld := by
  unfold biomeOf
  repeat' apply ite_mem
  all_goals decide

/-- **The sample of the overworld is never a biome of the nether.** -/
theorem sampleBiome_not_nether (wx wz : BitVec 32) (seed : BitVec 64) :
    (sampleBiome wx wz seed).isNether = false := by
  have hall : ∀ b ∈ BiomeId.overworld, b.isNether = false := by decide
  exact hall _ (biomeOf_mem _ _ _)

/-- Deep in the overworld is stone, under stone is stone, and nothing else looks like stone. -/
theorem sampleBiome_stone (wx wz : BitVec 32) (seed : BitVec 64) :
    let blocks := (sampleBiome wx wz seed).surfaceBlocks
    blocks.2.2 = 1 ∧ (blocks.1 = 1 → blocks.2.1 = 1) ∧ blocks.1 ≠ 338 ∧ blocks.2.1 ≠ 338 := by
  have hall : ∀ b ∈ BiomeId.overworld, b.surfaceBlocks.2.2 = 1 ∧
      (b.surfaceBlocks.1 = 1 → b.surfaceBlocks.2.1 = 1) ∧ b.surfaceBlocks.1 ≠ 338 ∧
      b.surfaceBlocks.2.1 ≠ 338 := by decide
  exact hall _ (biomeOf_mem _ _ _)

/-- The hash of a cave. -/
def caveHash (wx wz y : BitVec 32) (seed : BitVec 64) : BitVec 64 :=
  wx.signExtend 64 * BitVec.ofNat 64 6364136223846793005 ^^^
    wz.signExtend 64 * BitVec.ofNat 64 1442695040888963407 ^^^
    y.signExtend 64 * BitVec.ofNat 64 3862890488820784953 ^^^ seed * BitVec.ofNat 64 2368427849236549237

def sampleBiomeAtY (wx wz y : BitVec 32) (seed : BitVec 64) : BiomeId :=
  let surface := sampleBiome wx wz seed
  if 0 ≤ y.toInt then surface
  else
    let h := caveHash wx wz y seed
    let caveNoise := bits h 16 % 100
    let humidity := bits h 32 % 100
    let temperature := bits h 24 % 100
    if y.toInt < -30 ∧ 85 < caveNoise then .deepDark
    else if y.toInt < 0 ∧ -30 < y.toInt ∧ 70 < humidity then .lushCaves
    else if y.toInt < 0 ∧ -30 < y.toInt ∧ humidity < 30 ∧ 50 < caveNoise then .dripstoneCaves
    else if y.toInt < -10 ∧ -45 < y.toInt ∧ 65 < temperature ∧ humidity < 60 ∧ 40 < caveNoise ∧
        caveNoise < 85 then .sulfurCaves
    else surface

/-- `fill_section_biomes`: a grid of four by four samples, each set in a block of four cells a side. -/
def fillSectionBiomes (biomes : PalettedContainer) (sectionY : BitVec 32) (pos : ChunkPos)
    (seed : BitVec 64) : Option PalettedContainer :=
  let cells := do
    let bx ← List.range 4
    let bz ← List.range 4
    let by' ← List.range 4
    let dx ← List.range 4
    let dy ← List.range 4
    let dz ← List.range 4
    pure (bx, bz, bx * 4 + dx, by' * 4 + dy, bz * 4 + dz)
  cells.foldlM (fun biomes (bx, bz, x, y, z) =>
    let wx := pos.x * 16 + BitVec.ofNat 32 (bx * 4 + 2)
    let wz := pos.z * 16 + BitVec.ofNat 32 (bz * 4 + 2)
    biomes.set x y z (sampleBiomeAtY wx wz (sectionY * 16 + 8) seed).id.state) biomes

/-! ## The nether and the end -/

def sampleNetherBiome (wx wz : BitVec 32) (seed : BitVec 64) : BiomeId :=
  match absBits (mix wx wz seed 0x9E3779B9 0x9E3779B9 0x9E3779B9) % 5 with
  | 0 => .netherWastes
  | 1 => .soulSandValley
  | 2 => .crimsonForest
  | 3 => .warpedForest
  | _ => .basaltDeltas

section

variable {F : Type} (fl : Floats F)

/-- `((wx as f64).powi(2) + (wz as f64).powi(2)).sqrt()` -/
def distance (wx wz : BitVec 32) : F :=
  fl.sqrt (fl.add (fl.mul (fl.lit wx.toInt) (fl.lit wx.toInt)) (fl.mul (fl.lit wz.toInt) (fl.lit wz.toInt)))

def sampleEndBiome (wx wz : BitVec 32) : BiomeId :=
  let dist := distance fl wx wz
  let region := (wx.toInt.tdiv 32 + wz.toInt.tdiv 32).tmod 3
  if fl.lt dist (fl.lit 80) then .theEnd
  else if fl.lt dist (fl.lit 500) then .endMidlands
  else if fl.lt dist (fl.lit 1000) then .endBarrens
  else if region = 0 then .endHighlands
  else if region = 1 then .smallEndIslands
  else .endBarrens

end

end Apoptotic.Terrain
