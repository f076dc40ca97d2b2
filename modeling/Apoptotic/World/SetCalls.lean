import Apoptotic.World.Growth

/-!
# The generators over their calls of `set_block`

The built-in generators of `mc-world/src/generator.rs` with their default options, written over the
function that they set blocks with: over `Chunk.setBlock` they are the generators, over a function that
refuses coordinates outside the chunk they show whether a call has such coordinates.

Principal result: `Builtin.generate_setBlock` — over `Chunk.setBlock` nothing changes.
-/

namespace Apoptotic.Terrain

open Draws Blocks

/-- `set_block(x, y, z, block)` of a chunk. -/
abbrev SetBlock := Chunk → Nat → BitVec 32 → Nat → BlockState → Option Chunk

/-- The coordinates of a call are in the chunk. -/
abbrev Local (x : Nat) (y : BitVec 32) (z : Nat) : Prop :=
  x < 16 ∧ z < 16 ∧ -64 ≤ y.toInt ∧ y.toInt ≤ 319

/-- `set_block` where the coordinates are in the chunk. -/
def setInside : SetBlock := fun c x y z block => if Local x y z then c.setBlock x y z block else none

/-! ## The generators -/

namespace Calls

variable (set : SetBlock)

def run (c : Chunk) (w : Write) : Option Chunk :=
  set c (w.x % 2 ^ 64).toNat (BitVec.ofInt 32 w.y) (w.z % 2 ^ 64).toNat w.id.state

def place (ws : List Write) (c : Chunk) : Option Chunk := ws.foldlM (run set) c

section

variable (pos : ChunkPos) (seed : BitVec 64) (heightAt : HeightFn)

def placeCactus (biome : BiomeId) (h : BitVec 64) (x z surface : Int) (c : Chunk) : Option Chunk :=
  if biome = .desert ∧ multipleOf h 25 then do
    let ground ← readBlock c x surface z
    if ground.id = 12 then place set (stalk x z surface (1 + bits h 0 % 3) CACTUS) c else some c
  else some c

def placeSugarCane (h : BitVec 64) (x z surface : Int) (c : Chunk) : Option Chunk :=
  if multipleOf h 20 then do
    let ground ← readBlock c x surface z
    if ground.id = 12 ∨ ground.id = 13 ∨ ground.id = 2 then
      if ← nearWater x z surface c then
        place set (stalk x z surface (2 + bits h 0 % 3) SUGAR_CANE) c
      else some c
    else some c
  else some c

def vegetate (c : Chunk) (at' : Int × Int) : Option Chunk :=
  let (x, z) := at'
  let wx := world pos.x x
  let wz := world pos.z z
  let biome := sampleBiome wx wz seed
  let h := mix wx wz seed 31397 21419 18181
  let surface := heightAt wx wz
  if 30 ≤ absBits h % 100 then some c
  else if -60 ≤ surface ∧ surface ≤ 300 then do
    let c ← place set (plants biome h x z surface) c
    let c ← placeCactus set biome h x z surface c
    placeSugarCane set h x z surface c
  else some c

def placeVegetation (c : Chunk) : Option Chunk := columns.foldlM (vegetate set pos seed heightAt) c

def dig (c : Chunk) (at' : Int × Int) : Option Chunk := do
  let (dy, dx) := at'
  let existing ← readBlock c dx (30 + dy) 8
  if existing = BlockId.state STONE ∨ existing = BlockId.state 338 then
    run set c ⟨dx, 30 + dy, 8, AIR⟩
  else some c

def placeMineshaft (c : Chunk) : Option Chunk :=
  if multipleOf (mix pos.x pos.z seed 211 223 10103) 200 then do
    let c ← ((span 0 3).flatMap fun dy => (span 0 16).map fun dx => (dy, dx)).foldlM (dig set) c
    place set mineshaftBeams c
  else some c

def springStep {F : Type} (fl : Floats F) (radius cx cz surface : Int) (c : Chunk) (d : Int × Int) :
    Option Chunk :=
  let (dx, dz) := d
  let lx := cx + dx
  let lz := cz + dz
  if Inside lx ∧ Inside lz ∧ 0 ≤ surface ∧ surface ≤ 255 then
    match springBlock fl radius dx dz with
    | some id => do
        let existing ← readBlock c lx surface lz
        if springReplaces existing then run set c ⟨lx, surface, lz, id⟩ else some c
    | none => some c
  else some c

def placeSulfurSprings {F : Type} (fl : Floats F) (c : Chunk) : Option Chunk :=
  let cx := world pos.x 0
  let cz := world pos.z 0
  let hash := sum cx cz seed 0x9E3779B9 0x517CC1B7
  let radius : Int := match (hash.toNat / 16) % 4 with
    | 0 => 1
    | 1 => 2
    | 2 => 3
    | _ => 4
  let centerX : Int := (cx.signExtend 64 * BitVec.ofNat 64 0x45D9F3B3335B369).toNat % 16
  let centerZ : Int := (cz.signExtend 64 * BitVec.ofNat 64 0x6C0789655B9D4F1).toNat % 16
  let surface := heightAt (world pos.x centerX) (world pos.z centerZ)
  if ¬ multipleOf hash 27 then some c
  else if surface < 63 then some c
  else
    ((span (-radius) (radius + 1)).flatMap fun dx => (span (-radius) (radius + 1)).map fun dz =>
      (dx, dz)).foldlM (springStep set fl radius centerX centerZ surface) c

def placeFeatures (c : Chunk) : Option Chunk := do
  let c ← place set (placeTrees pos seed heightAt) c
  let c ← placeVegetation set pos seed heightAt c
  let c ← place set (placeVillage pos seed heightAt) c
  let c ← place set (placeShipwreck pos seed heightAt) c
  let c ← place set (placeRuinedPortal pos seed heightAt) c
  let c ← place set (placeDesertTemple pos seed) c
  let c ← place set (placeSwampHut pos seed) c
  let c ← place set (placeIgloo pos seed) c
  let c ← placeMineshaft set pos seed c
  let c ← place set (placeJungleTemple pos seed) c
  let c ← place set (placeOceanMonument pos seed) c
  place set (placeTrialChambers pos seed) c

def placeRuins {F : Type} (fl : Floats F) (c : Chunk) : Option Chunk := do
  let c ← placeSulfurSprings set pos seed heightAt fl c
  let c ← place set (placePillagerOutpost pos seed heightAt) c
  let c ← place set (placeWoodlandMansion pos seed heightAt) c
  let c ← place set (placeFossil pos seed) c
  place set (placeTrailRuins pos seed heightAt) c

end

section

variable {σ : Type}

def veinStep (o : Ore) (ox oy oz : Int) (c : Chunk) (_ : Nat) : Draws σ Chunk := do
  let dx ← draw 3
  let dy ← draw 3
  let dz ← draw 3
  let px := max 0 (min (ox + dx - 1) 15)
  let py := oy + dy - 1
  let pz := max 0 (min (oz + dz - 1) 15)
  if -64 ≤ py ∧ py ≤ 319 then do
    let existing ← lift (readBlock c px py pz)
    if existing = BlockId.state STONE ∨ existing = BlockId.state 338 then
      lift (run set c ⟨px, py, pz, if py < 0 then o.deepOre else o.ore⟩)
    else pure c
  else pure c

def placeVein (o : Ore) (c : Chunk) : Draws σ Chunk := do
  let ox ← draw 16
  let oz ← draw 16
  let oy ← draw (2 ^ 32)
  loop (veinStep set o ox (o.yMin + oy % (o.yMax - o.yMin)) oz) (List.range o.size) c

def placeOres (c : Chunk) : Draws σ Chunk := loop (fun c o => placeVein set o c) veins c

def placeSculk (c : Chunk) (_ : Nat) : Draws σ Chunk := do
  let sx ← draw 10
  let sz ← draw 10
  lift (run set c ⟨2 + sx, -50, 2 + sz, 340⟩)

def placeAncientCity (pos : ChunkPos) (seed : BitVec 64) (c : Chunk) : Draws σ Chunk :=
  if hasAncientCity pos seed then do
    let c ← lift (place set ancientChamber c)
    loop (placeSculk set) (List.range 8) c
  else pure c

def bastionStep {F : Type} (fl : Floats F) (base x z : Int) (c : Chunk) (d : Int × Int) :
    Draws σ Chunk :=
  let (dx, dz) := d
  let lx := x + dx
  let lz := z + dz
  if Inside lx ∧ Inside lz then do
    let c ← lift (place set (bastionColumn fl base lx lz dx dz) c)
    if fl.le (fl.sqrt (fl.lit (dx * dx + dz * dz))) (fl.lit (3 / 2)) then do
      let lava ← draw (2 ^ 32)
      if lava % 4 = 0 then lift (run set c ⟨lx, base - 1, lz, 36⟩) else pure c
    else pure c
  else pure c

def placeBastionRemnant {F : Type} (fl : Floats F) (pos : ChunkPos) (seed : BitVec 64) (c : Chunk) :
    Draws σ Chunk :=
  let hash := sum (world pos.x 0) (world pos.z 0) seed 0x517CC1B7 0x8ABE6A01
  if ¬ (middleBiome pos seed).isNether then pure c
  else if ¬ multipleOf hash 211 then pure c
  else
    loop (bastionStep set fl (35 + (hash.toNat / 16 % 4 : Nat)) (within hash 8 10 3) (within hash 16 10 3))
      ((span (-4) 5).flatMap fun dx => (span (-4) 5).map fun dz => (dx, dz)) c

end

section

variable {F Table : Type} (h : Host F Table) (pos : ChunkPos) (seed : BitVec 64)

/-- The noise generator, once it has its tables. -/
def sculpt (heightAt : HeightFn) (cave : Table) : Draws (Tables Table) Chunk := do
  let c ← lift (place set (NoiseGenerator.ground heightAt pos seed ++ NoiseGenerator.caves h cave pos)
    (Chunk.new pos))
  let c ← placeOres set c
  let c ← lift (placeFeatures set pos seed heightAt c)
  let c ← placeAncientCity set pos seed c
  let c ← lift (placeRuins set pos seed heightAt h.fl c)
  let c ← lift ((List.finRange SECTIONS_PER_CHUNK).foldlM (fillBiomes pos seed) c)
  pure (light c)

def generateNoise (g : NoiseGenerator) : Draws (Tables Table) Chunk := do
  let terrain ← getTerrainHasher h seed
  let cave ← getCaveHasher h seed
  sculpt set h pos seed (g.heightAt h terrain) cave

/-- The tables are those of the thread. -/
theorem generateNoise_eq (g : NoiseGenerator) (t : Drawing (Tables Table)) :
    generateNoise set h pos seed g t =
      sculpt set h pos seed (g.heightAt h (cached h seed t.state.terrain).2)
        (cached h (caveSeed seed) t.state.cave).2
        ⟨t.draws, some (cached h seed t.state.terrain), some (cached h (caveSeed seed) t.state.cave)⟩ := rfl

def applyLayers (ls : List (BlockState × Int)) (c : Chunk) : Option Chunk :=
  columns.foldlM (fun c (x, z) => (layers (-64) ls).foldlM (fun c (y, block) =>
    set c x.toNat (BitVec.ofInt 32 y) z.toNat block) c) c

def generateNether : Draws (Tables Table) Chunk := do
  let ws := (columns.flatMap fun (x, z) => netherColumn pos seed x z) ++ placeNetherFortress pos seed
  let c ← lift (place set ws (Chunk.new pos))
  let c ← placeBastionRemnant set h.fl pos seed c
  pure (light c)

def generateEnd : Option Chunk :=
  (place set ((columns.flatMap fun (x, z) => endColumn h pos x z) ++ placeEndCity h.fl pos)
    (Chunk.new pos)).map light

end

end Calls

/-- The generators of the registry and a custom one, with the options they have by default. -/
inductive Builtin where
  | flat
  | noise
  | empty
  | nether
  | end
  | custom

namespace Builtin

def generator : Builtin → Generator
  | flat => .flat defaultLayers
  | noise => .noise .new
  | empty => .empty
  | nether => .nether
  | «end» => .end
  | custom => .custom fun _ => none

variable (set : SetBlock) {F Table : Type} (h : Host F Table) (pos : ChunkPos) (seed : BitVec 64)

/-- The chunk of a generator, over its calls of `set_block`. -/
def generate : Builtin → Draws (Tables Table) Chunk
  | flat => lift ((Calls.applyLayers set defaultLayers (Chunk.new pos)).map light)
  | noise => Calls.generateNoise set h pos seed .new
  | empty => pure (Chunk.new pos)
  | nether => Calls.generateNether set h pos seed
  | «end» => lift (Calls.generateEnd set h pos)
  | custom =>
      lift ((Calls.applyLayers set defaultLayers (Chunk.new pos)).map fun c => { c with dirty := false })

/-- Over `Chunk.setBlock` it is the generator. -/
theorem generate_setBlock (b : Builtin) :
    b.generate Chunk.setBlock h pos seed = b.generator.generateChunk h pos seed := by
  cases b with
  | custom =>
      unfold generator Generator.generateChunk
      rw [if_neg (by decide)]
      rfl
  | _ => rfl

end Builtin

end Apoptotic.Terrain
