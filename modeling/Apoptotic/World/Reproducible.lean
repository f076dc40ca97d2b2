import Apoptotic.World.WriteBounds

/-!
# Reproducible terrain

Whether two calls of `generate_chunk`, on any threads and after anything else, give the same blocks.

Principal result: `reproducible_of_quiet` — they do where no draw meets a block that it would change: the
ground is without stone, and there is no ancient city.
-/

namespace Apoptotic.Terrain

open Blocks Draws

variable {F Table : Type} {h : Host F Table}

/-! ## The tables of a thread -/

/-- A cached table is the one that its seed gives. -/
structure Cached (h : Host F Table) (s : Tables Table) : Prop where
  terrain : ∀ e ∈ s.terrain, e.2 = h.newTable (e.1.setWidth 32)
  cave : ∀ e ∈ s.cave, e.2 = h.newTable (e.1.setWidth 32)

theorem cached_eq {cache : Option (BitVec 64 × Table)}
    (hcache : ∀ e ∈ cache, e.2 = h.newTable (e.1.setWidth 32)) (key : BitVec 64) :
    cached h key cache = (key, h.newTable (key.setWidth 32)) := by
  unfold cached
  cases cache with
  | none => rfl
  | some e =>
      have htable : e.2 = h.newTable (e.1.setWidth 32) := hcache e rfl
      dsimp only
      split
      · rename_i hkey
        rw [htable, hkey]
      · rfl

/-- The table of the terrain. -/
def terrainTable (h : Host F Table) (seed : BitVec 64) : Table := h.newTable (seed.setWidth 32)

def caveTable (h : Host F Table) (seed : BitVec 64) : Table := h.newTable ((caveSeed seed).setWidth 32)

theorem getTerrainHasher_spec (seed : BitVec 64) (s : Tables Table) (hs : Cached h s) :
    (cached h seed s.terrain).2 = terrainTable h seed ∧
      Cached h { s with terrain := some (cached h seed s.terrain) } := by
  rw [cached_eq hs.terrain]
  refine ⟨rfl, ?_, hs.cave⟩
  rintro e ⟨⟩
  rfl

theorem getCaveHasher_spec (seed : BitVec 64) (s : Tables Table) (hs : Cached h s) :
    (cached h (caveSeed seed) s.cave).2 = caveTable h seed ∧
      Cached h { s with cave := some (cached h (caveSeed seed) s.cave) } := by
  rw [cached_eq hs.cave]
  refine ⟨rfl, hs.terrain, ?_⟩
  rintro e ⟨⟩
  rfl

/-! ## What every generator keeps -/

section

variable {σ : Type} {I : σ → Prop}

theorem keeps_veinStep (o : Ore) (ox oy oz : Int) (c : Chunk) (n : Nat) :
    Keeps I (veinStep o ox oy oz c n) := by
  unfold veinStep
  refine (Keeps.draw 3).bind fun dx => (Keeps.draw 3).bind fun dy => (Keeps.draw 3).bind fun dz => ?_
  dsimp only
  split
  · refine (Keeps.lift _).bind fun existing => ?_
    split
    · exact .lift _
    · exact .pure _
  · exact .pure _

theorem keeps_placeVein (o : Ore) (c : Chunk) : Keeps I (placeVein o c) :=
  (Keeps.draw 16).bind fun _ => (Keeps.draw 16).bind fun _ => (Keeps.draw (2 ^ 32)).bind fun _ =>
    .loop (keeps_veinStep _ _ _ _) _ _

theorem keeps_placeOres (c : Chunk) : Keeps I (placeOres c) := .loop (fun c o => keeps_placeVein o c) _ _

theorem keeps_placeSculk (c : Chunk) (n : Nat) : Keeps I (placeSculk c n) :=
  (Keeps.draw 10).bind fun _ => (Keeps.draw 10).bind fun _ => .lift _

theorem keeps_placeAncientCity (pos : ChunkPos) (seed : BitVec 64) (c : Chunk) :
    Keeps I (placeAncientCity pos seed c) := by
  unfold placeAncientCity
  split
  · exact (Keeps.lift _).bind fun c => .loop keeps_placeSculk _ _
  · exact .pure _

/-- No biome of the overworld is one of the nether: there are no bastions. -/
theorem placeBastionRemnant_eq (fl : Floats F) (pos : ChunkPos) (seed : BitVec 64) (c : Chunk) :
    placeBastionRemnant fl pos seed c = (pure c : Draws σ Chunk) := by
  unfold placeBastionRemnant middleBiome
  dsimp only
  rw [sampleBiome_not_nether]
  exact if_pos Bool.false_ne_true

end

theorem keeps_getTerrainHasher (seed : BitVec 64) : Keeps (Cached h) (getTerrainHasher h seed) :=
  .access fun s hs => (getTerrainHasher_spec seed s hs).2

theorem keeps_getCaveHasher (seed : BitVec 64) : Keeps (Cached h) (getCaveHasher h seed) :=
  .access fun s hs => (getCaveHasher_spec seed s hs).2

theorem keeps_noise (g : NoiseGenerator) (pos : ChunkPos) (seed : BitVec 64) :
    Keeps (Cached h) (g.generateChunk h pos seed) :=
  (keeps_getTerrainHasher seed).bind fun _ => (keeps_getCaveHasher seed).bind fun _ =>
    (Keeps.lift _).bind fun _ => (keeps_placeOres _).bind fun _ => (Keeps.lift _).bind fun _ =>
      (keeps_placeAncientCity _ _ _).bind fun _ => (Keeps.lift _).bind fun _ =>
        (Keeps.lift _).bind fun _ => .pure _

theorem settled_nether {I : Tables Table → Prop} (pos : ChunkPos) (seed : BitVec 64) :
    Settled I (generateNether h pos seed) := by
  refine (Settled.lift _).bind fun c => Settled.bind ?_ fun c => .of_always (.pure _) (.pure _)
  rw [placeBastionRemnant_eq]
  exact .of_always (.pure _) (.pure _)

mutual

theorem Generator.keeps (pos : ChunkPos) (seed : BitVec 64) :
    ∀ g : Generator, Keeps (Cached h) (g.generateChunk h pos seed)
  | .flat _ => .lift _
  | .noise g => keeps_noise g pos seed
  | .empty => .pure _
  | .nether => (settled_nether pos seed).keeps
  | .end => .lift _
  | .custom options => by
      unfold Generator.generateChunk
      split
      · exact keeps_noise _ pos seed
      · exact .lift _
  | .compose [] => .pure _
  | .compose (first :: rest) => (Generator.keeps pos seed first).bind (keeps_overlayAll pos seed rest)

theorem keeps_overlayAll (pos : ChunkPos) (seed : BitVec 64) :
    ∀ (gs : List Generator) (c : Chunk), Keeps (Cached h) (Generator.overlayAll h pos seed gs c)
  | [], _ => .pure _
  | g :: gs, _ => (Generator.keeps pos seed g).bind fun _ => (Keeps.lift _).bind fun c =>
      keeps_overlayAll pos seed gs c

end

/-- **The tables of a thread depend on nothing but their seeds.** -/
theorem cached_of_reached {ok : Drawing (Tables Table) → Use → Prop} {t : Drawing (Tables Table)}
    (ht : (threads h).Reached ok t) : Cached h t.state := by
  refine ht.invariant (P := fun t => Cached h t.state) (fun t ht => ?_) fun t u hs he _ => ?_
  · rw [show t.state = ⟨none, none⟩ from ht]
    exact ⟨nofun, nofun⟩
  · obtain ⟨t', ht'⟩ := Option.isSome_iff_exists.1 he
    show Cached h ((u.apply h t).getD t).state
    rw [ht', Option.getD_some]
    cases u with
    | generate g pos seed =>
        obtain ⟨r, hr, rfl⟩ := Option.map_eq_some_iff.1 ht'
        exact Generator.keeps pos seed g t r hs hr
    | draw draws =>
        cases ht'
        exact hs

/-! ## Ground without stone -/

/-- Nothing in the grid would be replaced by an ore. -/
def NoStone (f : BlockGrid) : Prop := ∀ x y z, f x y z ≠ STONE ∧ f x y z ≠ NoiseGenerator.DEEPSLATE

section

variable {σ : Type} {I : σ → Prop} {c : Chunk} {f : BlockGrid}

theorem always_veinStep (hc : Shows c f) (hf : NoStone f) (o : Ore) (ox oy oz : Int) (n : Nat) :
    Always I (veinStep o ox oy oz c n) (some c) := by
  unfold veinStep
  refine Always.draw_bind fun dx => Always.draw_bind fun dy => Always.draw_bind fun dz => ?_
  dsimp only
  split
  · rename_i hy
    rw [hc.readBlock (by omega) hy (by omega)]
    refine Always.bind (.lift _) (.lift _) ?_
    have hblock := hf ⟨(max 0 (min (ox + dx - 1) 15)).toNat, by omega⟩ ⟨oy + dy - 1, hy⟩
      ⟨(max 0 (min (oz + dz - 1) 15)).toNat, by omega⟩
    rw [if_neg]
    · exact .pure c
    · rintro (h | h)
      · exact hblock.1 (state_inj.1 h)
      · exact hblock.2 (state_inj.1 h)
  · exact .pure c

/-- **Where there is no stone, no vein leaves a trace.** -/
theorem always_placeOres (hc : Shows c f) (hf : NoStone f) : Always I (placeOres c) (some c) := by
  refine Always.loop (keeps_placeVein · c) fun o _ => ?_
  refine Always.draw_bind fun ox => Always.draw_bind fun oz => Always.draw_bind fun oy => ?_
  exact Always.loop (keeps_veinStep _ _ _ _ c) fun n _ => always_veinStep hc hf _ _ _ _ n

end

namespace NoiseGenerator

variable (h) (g : NoiseGenerator) (pos : ChunkPos) (seed : BitVec 64)

/-- The writes before the ores. -/
def terrain : List Write :=
  ground (g.heightAt h (terrainTable h seed)) pos seed ++ caves h (caveTable h seed) pos

/-- The subsurface of a column. -/
def subsurface (p : Int × Int) : BlockId :=
  (sampleBiome (world pos.x p.1) (world pos.z p.2) seed).surfaceBlocks.2.1

/-- The height of a column. -/
def surface (p : Int × Int) : Int := surfaceAt (g.heightAt h (terrainTable h seed)) pos p.1 p.2

/-- The ground is too low for stone. -/
def Low : Prop :=
  ∀ p ∈ columns, g.surface h pos seed p ≤ -63 ∨
    g.surface h pos seed p ≤ -59 ∧ subsurface pos seed p ≠ STONE

/-- Neither the veins nor an ancient city find a place. -/
def Quiet : Prop := g.Low h pos seed ∧ hasAncientCity pos seed = false

variable {h g pos seed}

/-- A write of a column: the bedrock, a layer, or the surface. -/
theorem mem_column {biome : BiomeId} {s x z : Int} {w : Write} : w ∈ column biome s x z ↔
    w = ⟨x, -64, z, BEDROCK⟩ ∨ (∃ y, (-63 ≤ y ∧ y < s) ∧ w = ⟨x, y, z, layer biome s y⟩) ∨
      -59 ≤ s ∧ w = ⟨x, s, z, biome.surfaceBlocks.1⟩ := by
  unfold column
  rw [List.mem_append, List.mem_append, List.mem_singleton, List.mem_map, or_assoc]
  refine or_congr_right (or_congr ?_ ?_)
  · exact exists_congr fun y => and_congr mem_span eq_comm
  · split
    · rename_i hs
      rw [List.mem_singleton, and_iff_right hs]
    · rename_i hs
      exact iff_of_false List.not_mem_nil fun h => hs h.1

theorem mem_terrain {w : Write} (hw : w ∈ g.terrain h pos seed) :
    ∃ p ∈ columns, w ∈ column (sampleBiome (world pos.x p.1) (world pos.z p.2) seed)
        (g.surface h pos seed p) p.1 p.2 ∨
      ∃ y, (-60 ≤ y ∧ y < 50) ∧ w = ⟨p.1, y, p.2, AIR⟩ := by
  rcases List.mem_append.1 hw with hw | hw
  · obtain ⟨p, hp, hw⟩ := List.mem_flatMap.1 hw
    exact ⟨p, hp, .inl hw⟩
  · obtain ⟨p, hp, hw⟩ := List.mem_flatMap.1 hw
    obtain ⟨y, hy, hw⟩ := List.mem_flatMap.1 hw
    split at hw
    · exact ⟨p, hp, .inr ⟨y, mem_span.1 hy, List.mem_singleton.1 hw⟩⟩
    · cases hw

/-- **Low ground has no stone.** -/
theorem id_of_mem_terrain (hground : g.Low h pos seed) {w : Write} (hw : w ∈ g.terrain h pos seed) :
    w.id ≠ STONE ∧ w.id ≠ DEEPSLATE := by
  obtain ⟨p, hp, hw⟩ := mem_terrain hw
  have hlow := hground p hp
  obtain ⟨hdeep, htop, hnot, hnot'⟩ := sampleBiome_stone (world pos.x p.1) (world pos.z p.2) seed
  rcases hw with hw | ⟨y, hy, rfl⟩
  · rcases mem_column.1 hw with rfl | ⟨y, hy, rfl⟩ | ⟨hs, rfl⟩
    · show BEDROCK ≠ STONE ∧ BEDROCK ≠ DEEPSLATE
      decide
    · -- A layer of such a column is all subsurface.
      obtain ⟨hs, hsub⟩ := hlow.resolve_left (by omega)
      have hlayer : layer (sampleBiome (world pos.x p.1) (world pos.z p.2) seed)
          (g.surface h pos seed p) y = subsurface pos seed p := by
        have hin : g.surface h pos seed p - 4 ≤ y := by omega
        unfold layer
        dsimp only
        rw [if_pos hin]
        exact if_neg fun hstone => hsub hstone.1
      rw [hlayer]
      exact ⟨hsub, hnot'⟩
    · obtain ⟨_, hsub⟩ := hlow.resolve_left (by omega)
      exact ⟨fun hstone => hsub (htop hstone), hnot⟩
  · show AIR ≠ STONE ∧ AIR ≠ DEEPSLATE
    decide

/-- The ground that a chunk begins with. -/
theorem shows_terrain (h : Host F Table) (g : NoiseGenerator) (pos : ChunkPos) (seed : BitVec 64) :
    ∃ c, place (g.terrain h pos seed) (Chunk.new pos) = some c ∧
    Shows c ((g.terrain h pos seed).foldl BlockGrid.write .air) :=
  (shows_new pos).place (AllInWorld.append (inWorld_ground _ pos seed) (inWorld_caves h _ pos))

theorem noStone_of_low (hground : g.Low h pos seed) :
    NoStone ((g.terrain h pos seed).foldl BlockGrid.write .air) := by
  intro x y z
  rcases foldl_write (g.terrain h pos seed) .air x y z with heq | ⟨w, hw, _, heq⟩
  · rw [heq]
    show AIR ≠ STONE ∧ AIR ≠ DEEPSLATE
    decide
  · rw [heq]
    exact id_of_mem_terrain hground hw

/-- **A quiet generator gives one chunk.** -/
theorem settled (hquiet : g.Quiet h pos seed) : Settled (Cached h) (g.generateChunk h pos seed) := by
  obtain ⟨c, hplace, hc⟩ := shows_terrain h g pos seed
  refine ⟨keeps_noise g pos seed, ?_⟩
  -- The tables, the ground and the ores come out the same.
  have hrest : Settled (Cached h) (do
      let c ← lift (placeFeatures pos seed (g.heightAt h (terrainTable h seed)) c)
      let c ← placeAncientCity pos seed c
      let c ← lift (placeRuins h.fl pos seed (g.heightAt h (terrainTable h seed)) c)
      let c ← lift ((List.finRange SECTIONS_PER_CHUNK).foldlM (fillBiomes pos seed) c)
      pure (light c) : Draws (Tables Table) Chunk) := by
    refine (Settled.lift _).bind fun c => Settled.bind ?_ fun c => (Settled.lift _).bind fun c =>
      (Settled.lift _).bind fun c => .of_always (.pure _) (.pure _)
    unfold placeAncientCity
    rw [hquiet.2]
    exact .of_always (.pure _) (.pure _)
  obtain ⟨r, hr⟩ := hrest.result
  refine ⟨r, ?_⟩
  refine Always.bind (keeps_getTerrainHasher seed)
    (.access fun s hs => (getTerrainHasher_spec seed s hs).1) ?_
  refine Always.bind (keeps_getCaveHasher seed)
    (.access fun s hs => (getCaveHasher_spec seed s hs).1) ?_
  refine Always.bind (.lift _) (a := c) ?_ ?_
  · rw [← hplace]
    exact .lift _
  exact Always.bind (keeps_placeOres c) (always_placeOres hc (noStone_of_low hquiet.1)) hr

end NoiseGenerator

/-! ## Every generator -/

namespace Generator

mutual

/-- No draw of the generator meets a block that it would change. -/
def Quiet (h : Host F Table) (pos : ChunkPos) (seed : BitVec 64) : Generator → Prop
  | noise g => g.Quiet h pos seed
  | custom options => mode options = "heightmap" ∨ mode options = "noise" →
      (buildNoise h options).Quiet h pos seed
  | compose gs => AllQuiet h pos seed gs
  | _ => True

def AllQuiet (h : Host F Table) (pos : ChunkPos) (seed : BitVec 64) : List Generator → Prop
  | [] => True
  | g :: gs => Quiet h pos seed g ∧ AllQuiet h pos seed gs

end

mutual

theorem settled (pos : ChunkPos) (seed : BitVec 64) :
    ∀ g : Generator, g.Quiet h pos seed → Settled (Cached h) (g.generateChunk h pos seed)
  | .flat _, _ => .lift _
  | .noise _, hquiet => NoiseGenerator.settled hquiet
  | .empty, _ => .of_always (.pure _) (.pure _)
  | .nether, _ => settled_nether pos seed
  | .end, _ => .lift _
  | .custom options, hquiet => by
      unfold Generator.generateChunk
      split
      · rename_i hmode
        exact NoiseGenerator.settled (hquiet hmode)
      · exact .lift _
  | .compose [], _ => .of_always (.pure _) (.pure _)
  | .compose (first :: rest), hquiet =>
      (settled pos seed first hquiet.1).bind (settled_overlayAll pos seed rest hquiet.2)

theorem settled_overlayAll (pos : ChunkPos) (seed : BitVec 64) :
    ∀ (gs : List Generator), AllQuiet h pos seed gs → ∀ c : Chunk,
      Settled (Cached h) (overlayAll h pos seed gs c)
  | [], _, _ => .of_always (.pure _) (.pure _)
  | g :: gs, hquiet, _ => (settled pos seed g hquiet.1).bind fun _ => (Settled.lift _).bind fun c =>
      settled_overlayAll pos seed gs hquiet.2 c

end

end Generator

/-! ## Two runs -/

/-- The blocks of a chunk. -/
def blocks (c : Chunk) : Fin 16 → Height → Fin 16 → Option BlockState := fun x y z =>
  c.getBlock x (BitVec.ofInt 32 y) z

/-- The chunk has the same blocks whenever and on whatever thread it is generated. -/
def Reproducible (h : Host F Table) (g : Generator) (pos : ChunkPos) (seed : BitVec 64) : Prop :=
  ∀ t t', (threads h).Reached (fun _ _ => True) t → (threads h).Reached (fun _ _ => True) t' →
    (g.generateChunk h pos seed t).map (fun r => blocks r.1) =
      (g.generateChunk h pos seed t').map fun r => blocks r.1

/-- **Quiet generators are reproducible.** -/
theorem reproducible_of_quiet {g : Generator} {pos : ChunkPos} {seed : BitVec 64}
    (hquiet : g.Quiet h pos seed) : Reproducible h g pos seed := by
  obtain ⟨r, hr⟩ := (Generator.settled pos seed g hquiet).result
  have hblocks : ∀ t, (threads h).Reached (fun _ _ => True) t →
      (g.generateChunk h pos seed t).map (fun r => blocks r.1) = r.map blocks := by
    intro t ht
    rw [← hr t (cached_of_reached ht), Option.map_map]
    rfl
  intro t t' ht ht'
  rw [hblocks t ht, hblocks t' ht']

/-! ### A lowland -/

/-- Exact arithmetic and noise that is zero everywhere. -/
def silentHost : Host Rat Unit where
  fl := Floats.exact
  div := (· / ·)
  sin := fun _ => 0
  cos := fun _ => 0
  truncI32 := fun q => saturate (if q < 0 then ⌈q⌉ else ⌊q⌋)
  newTable := fun _ => ()
  perlin2d := fun _ _ _ => 0
  perlin3d := fun _ _ _ _ => 0
  toLowercase := String.toLower

/-- `base_height` -64 and `amplitude` 0. -/
def lowland : NoiseGenerator := ⟨BitVec.ofInt 32 (-64), 0, GRASS_BLOCK, DIRT, STONE⟩

theorem heightAt_lowland : lowland.heightAt silentHost () = fun _ _ => -64 := by
  funext wx wz
  unfold NoiseGenerator.heightAt
  dsimp only
  have hzero : ∀ q : Rat, silentHost.fl.mul q (silentHost.fl.lit (lowland.amplitude.toInt : Rat)) = 0 :=
    fun q => mul_zero q
  rw [hzero]
  decide

theorem low_lowland (pos : ChunkPos) (seed : BitVec 64) : lowland.Low silentHost pos seed := by
  intro p _
  left
  show max (-64) (min (lowland.heightAt silentHost () _ _) 255) ≤ -63
  rw [heightAt_lowland]
  show (-64 : Int) ≤ -63
  decide

/-- With seed 1 there is no city at the origin. -/
theorem lowland_reproducible : Reproducible silentHost (.noise lowland) ⟨0, 0⟩ 1 :=
  reproducible_of_quiet ⟨low_lowland _ _, by decide⟩

end Apoptotic.Terrain
