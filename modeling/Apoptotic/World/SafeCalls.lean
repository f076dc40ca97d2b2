import Apoptotic.World.SetCalls
import Apoptotic.World.WriteBounds

/-!
# Generation that does not panic

Over a function that sets every block inside a chunk, a generator that only sets blocks inside the chunk
has a result, whatever it draws.

Principal definitions: `SetsInside` — such a function; `Contained` — the melons and the shipwreck of the
noise generator are inside the chunk.

Principal results: `sculpt_succeeds`, `generateNether_succeeds`, `generateEnd_succeeds` — the generators
have a result; `contained_of_sculpt` — over `setInside` only a contained chunk has one.
-/

namespace Apoptotic.Terrain

open Draws Blocks

/-! ## Setting blocks inside a chunk -/

/-- The function sets a block wherever the coordinates are in the chunk, and keeps the chunk sound. -/
def SetsInside (set : SetBlock) : Prop :=
  ∀ (c : Chunk) (x : Nat) (y : BitVec 32) (z : Nat) (block : BlockState), c.Grown → Local x y z →
    ∃ c', set c x y z block = some c' ∧ c'.Grown

theorem setsInside_setBlock : SetsInside Chunk.setBlock := by
  rintro c x y z block hc ⟨hx, hz, hlo, hhi⟩
  have hy : sectionIndex y < SECTIONS_PER_CHUNK := by
    unfold sectionIndex SECTIONS_PER_CHUNK MIN_SECTION_Y
    omega
  obtain ⟨c', hset⟩ := Chunk.setBlock_total hc.sound hy ⟨x, hx⟩ ⟨z, hz⟩ block
  exact ⟨c', hset, hc.setBlock hset⟩

theorem setsInside_setInside : SetsInside setInside := by
  intro c x y z block hc hlocal
  obtain ⟨c', hset, hc'⟩ := setsInside_setBlock c x y z block hc hlocal
  exact ⟨c', (if_pos hlocal).trans hset, hc'⟩

theorem toInt_ofInt_height {y : Int} (hy : -64 ≤ y ∧ y ≤ 319) : (BitVec.ofInt 32 y).toInt = y :=
  toInt_height ⟨y, hy⟩

/-- A write inside the world has its coordinates in the chunk. -/
theorem local_of_inWorld {w : Write} (hw : w.InWorld) :
    Local (w.x % 2 ^ 64).toNat (BitVec.ofInt 32 w.y) (w.z % 2 ^ 64).toNat := by
  obtain ⟨hx, hy, hz⟩ := hw
  rw [Local, toInt_ofInt_height hy]
  omega

/-- A write that does not wrap around all of `usize` or `i32`. -/
structure Write.Near (w : Write) : Prop where
  x : -2 ^ 63 ≤ w.x ∧ w.x < 2 ^ 63
  y : -2 ^ 31 ≤ w.y ∧ w.y < 2 ^ 31
  z : -2 ^ 63 ≤ w.z ∧ w.z < 2 ^ 63

theorem inWorld_of_local {w : Write} (hw : w.Near)
    (hlocal : Local (w.x % 2 ^ 64).toNat (BitVec.ofInt 32 w.y) (w.z % 2 ^ 64).toNat) : w.InWorld := by
  obtain ⟨hx, hy, hz⟩ := hw
  have hint : (BitVec.ofInt 32 w.y).toInt = w.y := by
    rw [BitVec.toInt_ofInt]
    exact Int.bmod_eq_of_le (by omega) (by omega)
  obtain ⟨hlx, hlz, hly⟩ := hlocal
  rw [hint] at hly
  exact ⟨by omega, hly, by omega⟩

/-- **Over `setInside`, calls that succeed are inside the world.** -/
theorem allInWorld_of_place {ws : List Write} {c c' : Chunk} (hnear : ∀ w ∈ ws, w.Near)
    (hplace : Calls.place setInside ws c = some c') : AllInWorld ws := by
  intro w hw
  obtain ⟨t, t', hrun⟩ := exists_step_of_foldlM hplace hw
  refine inWorld_of_local (hnear w hw) ?_
  by_contra hout
  have hnone : Calls.run setInside t w = none := if_neg hout
  rw [hnone] at hrun
  cases hrun

theorem exists_readBlock {c : Chunk} (hc : c.Grown) {x z : Int} (hx : Inside x) (hz : Inside z)
    (y : Int) : ∃ b, readBlock c x y z = some b := by
  have hget := Chunk.getBlock_total hc.sound ⟨(x % 2 ^ 64).toNat, by omega⟩
    ⟨(z % 2 ^ 64).toNat, by omega⟩ (BitVec.ofInt 32 y)
  exact Option.isSome_iff_exists.1 hget

/-! ## Placers that do not panic -/

/-- The placer has a result on every sound chunk, which is sound. -/
def Smooth (f : Chunk → Option Chunk) : Prop := ∀ c, c.Grown → ∃ c', f c = some c' ∧ c'.Grown

namespace Smooth

variable {set : SetBlock} {f g : Chunk → Option Chunk}

theorem id : Smooth some := fun c hc => ⟨c, rfl, hc⟩

theorem run (hset : SetsInside set) {w : Write} (hw : w.InWorld) : Smooth fun c => Calls.run set c w :=
  fun c hc => hset c _ _ _ _ hc (local_of_inWorld hw)

theorem bind (hf : Smooth f) (hg : Smooth g) : Smooth fun c => f c >>= g := by
  intro c hc
  obtain ⟨c₁, h₁, hc₁⟩ := hf c hc
  obtain ⟨c₂, h₂, hc₂⟩ := hg c₁ hc₁
  exact ⟨c₂, Option.bind_eq_some_iff.2 ⟨c₁, h₁, h₂⟩, hc₂⟩

/-- What is read does not matter. -/
theorem read {α : Type} {o : Chunk → Option α} {k : α → Chunk → Option Chunk}
    (ho : ∀ c, c.Grown → ∃ a, o c = some a) (hk : ∀ a, Smooth (k a)) :
    Smooth fun c => o c >>= fun a => k a c := by
  intro c hc
  obtain ⟨a, ha⟩ := ho c hc
  obtain ⟨c', h, hc'⟩ := hk a c hc
  exact ⟨c', Option.bind_eq_some_iff.2 ⟨a, ha, h⟩, hc'⟩

theorem ite {P : Prop} [Decidable P] (hf : P → Smooth f) (hg : ¬ P → Smooth g) :
    Smooth fun c => if P then f c else g c := by
  intro c hc
  dsimp only
  split
  · exact hf ‹_› c hc
  · exact hg ‹_› c hc

theorem foldlM {β : Type} {k : Chunk → β → Option Chunk} {bs : List β}
    (hk : ∀ b ∈ bs, Smooth fun c => k c b) : Smooth (bs.foldlM k) :=
  fun _ hc => foldlM_total (fun c b hb hc => hk b hb c hc) hc

theorem place (hset : SetsInside set) {ws : List Write} (hws : AllInWorld ws) :
    Smooth (Calls.place set ws) := .foldlM fun w hw => .run hset (hws w hw)

end Smooth

/-! ## The placers of the noise generator -/

/-- A patch of melons is rolled in a column. -/
structure Melons (pos : ChunkPos) (seed : BitVec 64) (heightAt : HeightFn) (x z : Int) : Prop where
  jungle : sampleBiome (world pos.x x) (world pos.z z) seed = .jungle
  planted : absBits (mix (world pos.x x) (world pos.z z) seed 31397 21419 18181) % 100 < 30
  surface : -60 ≤ heightAt (world pos.x x) (world pos.z z) ∧ heightAt (world pos.x x) (world pos.z z) ≤ 300
  patch : multipleOf (mix (world pos.x x) (world pos.z z) seed 31397 21419 18181) 50

/-- A shipwreck is rolled in the chunk. -/
structure Shipwreck (pos : ChunkPos) (seed : BitVec 64) : Prop where
  rolled : multipleOf (mix pos.x pos.z seed 0x5DEECE66D 0x5DEECE66D 0x5DEECE66D) 800
  ocean : middleBiome pos seed = .ocean

/-- No melons are rolled on the border of the chunk, and no shipwreck below the world. -/
structure Contained (pos : ChunkPos) (seed : BitVec 64) (heightAt : HeightFn) : Prop where
  melons : ∀ x z, Inside x → Inside z → Melons pos seed heightAt x z →
    (1 ≤ x ∧ x ≤ 14) ∧ 1 ≤ z ∧ z ≤ 14
  shipwreck : Shipwreck pos seed → -64 ≤ heightAt (world pos.x 8) (world pos.z 8)

section Placers

variable {set : SetBlock} (hset : SetsInside set) {pos : ChunkPos} {seed : BitVec 64}
  {heightAt : HeightFn} {x z surface : Int}

theorem exists_nearWater {c : Chunk} (hc : c.Grown) : ∃ b, nearWater x z surface c = some b := by
  refine anyM_total fun d _ => ?_
  split
  · rename_i hin
    obtain ⟨b, hb⟩ := exists_readBlock hc hin.1 hin.2 surface
    exact ⟨_, Option.map_eq_some_iff.2 ⟨b, hb, rfl⟩⟩
  · exact ⟨false, rfl⟩

include hset

theorem smooth_placeCactus {biome : BiomeId} {bits : BitVec 64} (hx : Inside x) (hz : Inside z)
    (hs : -60 ≤ surface ∧ surface ≤ 300) : Smooth (Calls.placeCactus set biome bits x z surface) := by
  refine .ite (fun _ => .read (fun c hc => exists_readBlock hc hx hz surface) fun ground => ?_) fun _ => .id
  exact .ite (fun _ => .place hset (inWorld_stalk hx hz (by omega) (by omega))) fun _ => .id

theorem smooth_placeSugarCane {bits : BitVec 64} (hx : Inside x) (hz : Inside z)
    (hs : -60 ≤ surface ∧ surface ≤ 300) : Smooth (Calls.placeSugarCane set bits x z surface) := by
  refine .ite (fun _ => .read (fun c hc => exists_readBlock hc hx hz surface) fun ground => ?_) fun _ => .id
  refine .ite (fun _ => .read (fun c hc => exists_nearWater hc) fun near => ?_) fun _ => .id
  exact .ite (fun _ => .place hset (inWorld_stalk hx hz (by omega) (by omega))) fun _ => .id

theorem smooth_placeVegetation (hcontained : Contained pos seed heightAt) :
    Smooth (Calls.placeVegetation set pos seed heightAt) := by
  refine .foldlM fun at' hat => ?_
  obtain ⟨hx, hz⟩ := mem_columns.1 hat
  refine .ite (fun _ => .id) fun hplanted => .ite (fun hs => ?_) fun _ => .id
  have hplants := (inWorld_plants_iff hx hz hs).2 fun hjungle hpatch =>
    hcontained.melons _ _ hx hz ⟨hjungle, not_le.1 hplanted, hs, hpatch⟩
  exact (Smooth.place hset hplants).bind <|
    (smooth_placeCactus hset hx hz hs).bind (smooth_placeSugarCane hset hx hz hs)

theorem smooth_placeMineshaft : Smooth (Calls.placeMineshaft set pos seed) := by
  refine .ite (fun _ => .bind (.foldlM fun at' hat => ?_) (.place hset inWorld_mineshaftBeams)) fun _ => .id
  obtain ⟨dy, hdy, hat⟩ := List.mem_flatMap.1 hat
  obtain ⟨dx, hdx, rfl⟩ := List.mem_map.1 hat
  have := mem_span.1 hdy
  have hx : Inside dx := mem_span.1 hdx
  refine .read (fun c hc => exists_readBlock hc hx (by omega) _) fun existing => ?_
  exact .ite (fun _ => .run hset (inWorld hx (by omega) (by omega))) fun _ => .id

theorem smooth_placeSulfurSprings {F : Type} (fl : Floats F) :
    Smooth (Calls.placeSulfurSprings set pos seed heightAt fl) := by
  refine .ite (fun _ => .id) fun _ => .ite (fun _ => .id) fun _ => .foldlM fun d _ => ?_
  refine .ite (fun hin => ?_) fun _ => .id
  obtain ⟨hx, hz, hs⟩ := hin
  cases springBlock fl _ d.1 d.2 with
  | none => exact .id
  | some id =>
      refine .read (fun c hc => exists_readBlock hc hx hz _) fun existing => ?_
      exact .ite (fun _ => .run hset (inWorld hx (by omega) hz)) fun _ => .id

theorem smooth_placeFeatures (hheight : ∀ wx wz, heightAt wx wz ≤ 300)
    (hcontained : Contained pos seed heightAt) : Smooth (Calls.placeFeatures set pos seed heightAt) := by
  have hbase := hheight (world pos.x 8) (world pos.z 8)
  have hvillage : AllInWorld (placeVillage pos seed heightAt) :=
    .ite (fun _ => .nil) fun _ => .ite (fun _ => .nil) fun _ => .ite (fun _ => .nil) fun _ =>
      inWorld_village (by omega)
  have hshipwreck : AllInWorld (placeShipwreck pos seed heightAt) := by
    refine .ite (fun _ => .nil) fun hrolled => .ite (fun _ => .nil) fun hocean => ?_
    have := hcontained.shipwreck ⟨not_not.1 hrolled, not_not.1 hocean⟩
    exact inWorld_shipwreck_iff.2 (by omega)
  have hportal : AllInWorld (placeRuinedPortal pos seed heightAt) :=
    .ite (fun _ => .nil) fun _ => .ite (fun _ => .nil) fun _ => inWorld_ruinedPortal (by omega)
  have hchambers : AllInWorld (placeTrialChambers pos seed) :=
    .ite (fun _ => inWorld_trialChambers) fun _ => .nil
  exact (Smooth.place hset (inWorld_placeTrees pos seed heightAt)).bind <|
    (smooth_placeVegetation hset hcontained).bind <| (Smooth.place hset hvillage).bind <|
    (Smooth.place hset hshipwreck).bind <| (Smooth.place hset hportal).bind <|
    (Smooth.place hset (inWorld_placeIn inWorld_desertTemple)).bind <|
    (Smooth.place hset (inWorld_placeIn inWorld_swampHut)).bind <|
    (Smooth.place hset (inWorld_placeIn inWorld_igloo)).bind <|
    (smooth_placeMineshaft hset).bind <|
    (Smooth.place hset (inWorld_placeIn inWorld_jungleTemple)).bind <|
    (Smooth.place hset (inWorld_placeIn inWorld_oceanMonument)).bind (Smooth.place hset hchambers)

omit hset in
theorem within_bounds (hash : BitVec 64) (k least : Nat) {n : Nat} (hn : 0 < n) :
    least ≤ within hash k n least ∧ within hash k n least < least + n := by
  have := Nat.mod_lt (hash.toNat / 2 ^ k) hn
  unfold within
  omega

theorem smooth_placeRuins {F : Type} (fl : Floats F) :
    Smooth (Calls.placeRuins set pos seed heightAt fl) := by
  have houtpost : AllInWorld (placePillagerOutpost pos seed heightAt) :=
    .ite (fun _ => .nil) fun _ => .ite (fun _ => .nil) fun _ => .ite (fun _ => inWorld_outpost) fun _ => .nil
  have hmansion : AllInWorld (placeWoodlandMansion pos seed heightAt) :=
    .ite (fun _ => .nil) fun _ => .ite (fun _ => .nil) fun _ => .ite (fun _ => inWorld_mansion) fun _ => .nil
  have hfossil : AllInWorld (placeFossil pos seed) := by
    refine .ite (fun _ => .nil) fun _ => .ite (fun _ => .nil) fun _ => inWorld_fossil ?_
    have := within_bounds (sum (world pos.x 0) (world pos.z 0) seed 0x9E3779B9 0xDEADBEEF) 4 15
      (show 0 < 25 by decide)
    omega
  have hruins : AllInWorld (placeTrailRuins pos seed heightAt) :=
    .ite (fun _ => .nil) fun _ => .ite (fun _ => .nil) fun _ => inWorld_trailRuins
  exact (smooth_placeSulfurSprings hset fl).bind <| (Smooth.place hset houtpost).bind <|
    (Smooth.place hset hmansion).bind <| (Smooth.place hset hfossil).bind (Smooth.place hset hruins)

end Placers

/-! ## The placers that draw -/

section Drawing

variable {set : SetBlock} (hset : SetsInside set) {σ : Type} {c : Chunk}

include hset

theorem succeeds_veinStep (o : Ore) (ox oy oz : Int) (hc : c.Grown) (n : Nat) :
    Succeeds Chunk.Grown (Calls.veinStep set o ox oy oz c n : Draws σ Chunk) := by
  refine .draw_bind (by decide) fun dx _ => .draw_bind (by decide) fun dy _ =>
    .draw_bind (by decide) fun dz _ => ?_
  have hx : Inside (max 0 (min (ox + dx - 1) 15)) := by omega
  have hz : Inside (max 0 (min (oz + dz - 1) 15)) := by omega
  dsimp only
  split
  · rename_i hy
    obtain ⟨existing, hread⟩ := exists_readBlock hc hx hz (oy + dy - 1)
    refine .bind (P := fun _ => True) (.lift ⟨existing, hread, trivial⟩) fun existing _ => ?_
    split
    · exact .lift (Smooth.run hset (inWorld hx hy hz) c hc)
    · exact .pure hc
  · exact .pure hc

theorem succeeds_placeOres (hc : c.Grown) : Succeeds Chunk.Grown (Calls.placeOres set c : Draws σ Chunk) := by
  refine .loop (fun c o _ hc => ?_) hc
  refine .draw_bind (by decide) fun ox _ => .draw_bind (by decide) fun oz _ =>
    .draw_bind (by decide) fun oy _ => ?_
  exact .loop (fun c n _ hc => succeeds_veinStep hset o _ _ _ hc n) hc

theorem succeeds_placeSculk (hc : c.Grown) (n : Nat) :
    Succeeds Chunk.Grown (Calls.placeSculk set c n : Draws σ Chunk) := by
  refine .draw_bind (by decide) fun sx hsx => .draw_bind (by decide) fun sz hsz => ?_
  exact .lift (Smooth.run hset (inWorld (by omega) (by omega) (by omega)) c hc)

theorem succeeds_placeAncientCity (pos : ChunkPos) (seed : BitVec 64) (hc : c.Grown) :
    Succeeds Chunk.Grown (Calls.placeAncientCity set pos seed c : Draws σ Chunk) := by
  unfold Calls.placeAncientCity
  split
  · refine .bind (.lift (Smooth.place hset inWorld_ancientChamber c hc)) fun c hc => ?_
    exact .loop (fun c n _ hc => succeeds_placeSculk hset hc n) hc
  · exact .pure hc

theorem succeeds_bastionStep {F : Type} (fl : Floats F) {base : Int} (hbase : 35 ≤ base ∧ base ≤ 38)
    (x z : Int) (d : Int × Int) (hc : c.Grown) :
    Succeeds Chunk.Grown (Calls.bastionStep set fl base x z c d : Draws σ Chunk) := by
  unfold Calls.bastionStep
  dsimp only
  split
  · rename_i hin
    obtain ⟨hx, hz⟩ := hin
    refine .bind (.lift (Smooth.place hset (inWorld_bastionColumn hx hz) c hc)) fun c hc => ?_
    split
    · refine .draw_bind (by decide) fun lava _ => ?_
      split
      · exact .lift (Smooth.run hset (inWorld hx (by omega) hz) c hc)
      · exact .pure hc
    · exact .pure hc
  · exact .pure hc

theorem succeeds_placeBastionRemnant {F : Type} (fl : Floats F) (pos : ChunkPos) (seed : BitVec 64)
    (hc : c.Grown) : Succeeds Chunk.Grown (Calls.placeBastionRemnant set fl pos seed c : Draws σ Chunk) := by
  unfold Calls.placeBastionRemnant
  dsimp only
  split
  · exact .pure hc
  · split
    · exact .pure hc
    · exact .loop (fun c d _ hc => succeeds_bastionStep hset fl (by omega) _ _ d hc) hc

end Drawing

/-! ## The generators -/

theorem smooth_fillBiomes (pos : ChunkPos) (seed : BitVec 64) (i : Fin SECTIONS_PER_CHUNK) :
    Smooth fun c => fillBiomes pos seed c i := by
  intro c hc
  cases hsec : c.sections i with
  | none => exact ⟨c, by simp only [fillBiomes, hsec], hc⟩
  | some sec =>
      obtain ⟨biomes, hfill, _⟩ : ∃ biomes, fillSectionBiomes sec.biomes (BitVec.ofInt 32 sec.position.y)
          pos seed = some biomes ∧ biomes.Sound := by
        refine foldlM_total (fun biomes cell hcell hsound => ?_) (hc.sound i sec hsec).biomes
        obtain ⟨seen, f, hf⟩ := hsound
        have hi : index cell.2.2.1 cell.2.2.2.1 cell.2.2.2.2 < BLOCKS_PER_SECTION := by
          simp only [List.pure_def, List.bind_eq_flatMap, List.mem_flatMap, List.mem_range,
            List.mem_singleton] at hcell
          obtain ⟨bx, hbx, bz, hbz, by', hby, dx, hdx, dy, hdy, dz, hdz, rfl⟩ := hcell
          dsimp only
          rw [index_eq (by omega) (by omega)]
          unfold BLOCKS_PER_SECTION
          omega
        obtain ⟨biomes', hset, hf'⟩ := set_represents hf hi _
        exact ⟨biomes', hset, _, _, hf'⟩
      have hfilled : ∃ c', fillBiomes pos seed c i = some c' := by
        unfold fillBiomes
        simp only [hsec, hfill]
        exact ⟨_, rfl⟩
      obtain ⟨c', hc'⟩ := hfilled
      exact ⟨c', hc', growing_fillBiomes pos seed i c c' hc hc'⟩

section Generators

variable {set : SetBlock} (hset : SetsInside set) {F Table : Type} (h : Host F Table) {pos : ChunkPos}
  {seed : BitVec 64} {heightAt : HeightFn}

include hset

/-- **A contained chunk of the noise generator has a result.** -/
theorem sculpt_succeeds (hheight : ∀ wx wz, heightAt wx wz ≤ 300) (hcontained : Contained pos seed heightAt)
    (cave : Table) : Succeeds Chunk.Grown (Calls.sculpt set h pos seed heightAt cave) := by
  have hground : AllInWorld (NoiseGenerator.ground heightAt pos seed ++ NoiseGenerator.caves h cave pos) :=
    .append (NoiseGenerator.inWorld_ground heightAt pos seed) (NoiseGenerator.inWorld_caves h cave pos)
  refine .bind (.lift (Smooth.place hset hground _ (.new pos))) fun c hc => ?_
  refine .bind (succeeds_placeOres hset hc) fun c hc => ?_
  refine .bind (.lift (smooth_placeFeatures hset hheight hcontained c hc)) fun c hc => ?_
  refine .bind (succeeds_placeAncientCity hset pos seed hc) fun c hc => ?_
  refine .bind (.lift (smooth_placeRuins hset h.fl c hc)) fun c hc => ?_
  refine .bind (.lift (Smooth.foldlM (fun i _ => smooth_fillBiomes pos seed i) c hc)) fun c hc => ?_
  exact .pure hc.initLighting

theorem applyLayers_smooth : Smooth (Calls.applyLayers set defaultLayers) := by
  refine .foldlM fun column hcolumn => .foldlM fun cell hcell => ?_
  obtain ⟨hx, hz⟩ := mem_columns.1 hcolumn
  have hy : ∀ cell ∈ layers (-64) defaultLayers, -64 ≤ cell.1 ∧ cell.1 ≤ 319 := by decide
  have hint := toInt_ofInt_height (hy cell hcell)
  have hheight := hy cell hcell
  intro c hc
  refine hset c _ _ _ _ hc ⟨by omega, by omega, ?_⟩
  rw [hint]
  exact hheight

theorem generateNether_succeeds : Succeeds Chunk.Grown (Calls.generateNether set h pos seed) := by
  have hfortress : AllInWorld (placeNetherFortress pos seed) := inWorld_placeNetherFortress
  refine .bind (.lift (Smooth.place hset (.append ?_ hfortress) _ (.new pos))) fun c hc => ?_
  · exact .columns fun x z hx hz => inWorld_netherColumn hx hz
  exact .bind (succeeds_placeBastionRemnant hset h.fl pos seed hc) fun c hc => .pure hc.initLighting

theorem exists_generateEnd (hland : ∀ wx wz, -64 ≤ highland h wx wz + 5 ∧ highland h wx wz ≤ 309) :
    ∃ c, Calls.generateEnd set h pos = some c := by
  have hcity : AllInWorld (placeEndCity h.fl pos) := inWorld_placeEndCity
  have hlight : ∀ {o : Option Chunk}, (∃ c, o = some c ∧ c.Grown) → ∃ c, o.map light = some c := by
    rintro _ ⟨c, rfl, _⟩
    exact ⟨light c, rfl⟩
  refine hlight (Smooth.place hset (.append ?_ hcity) _ (.new pos))
  exact .columns fun x z hx hz => inWorld_endColumn hx hz (hland _ _)

end Generators

/-! ## What a run over `setInside` shows -/

theorem near_melonPatch {x z surface : Int} (hx : Inside x) (hz : Inside z)
    (hs : -60 ≤ surface ∧ surface ≤ 300) : ∀ w ∈ melonPatch x z surface, w.Near := by
  intro w hw
  obtain ⟨dx, hdx, hw⟩ := List.mem_flatMap.1 hw
  obtain ⟨dz, hdz, hw⟩ := List.mem_flatMap.1 hw
  have := mem_span.1 hdx
  have := mem_span.1 hdz
  split at hw
  · obtain rfl := List.mem_singleton.1 hw
    constructor
    all_goals dsimp only; omega
  · cases hw

theorem eq_of_mem_clip {w w' : Write} (h : w ∈ clip w') : w = w' := by
  unfold clip at h
  split at h
  · exact List.mem_singleton.1 h
  · cases h

theorem near_shipwreck {base : Int} (hbase : -2 ^ 20 ≤ base ∧ base ≤ 2 ^ 20) :
    ∀ w ∈ shipwreck base, w.Near := by
  intro w hw
  obtain ⟨dx, hdx, hw⟩ := List.mem_flatMap.1 hw
  obtain ⟨dz, hdz, hw⟩ := List.mem_flatMap.1 hw
  have := mem_span.1 hdx
  have := mem_span.1 hdz
  rcases List.mem_append.1 hw with hw | hw
  · obtain rfl := eq_of_mem_clip hw
    constructor
    all_goals dsimp only; omega
  · split at hw
    · obtain rfl := eq_of_mem_clip hw
      constructor
      all_goals dsimp only; omega
    · cases hw

/-- **Over `setInside` only a contained chunk has a result.** -/
theorem contained_of_sculpt {F Table : Type} {h : Host F Table} {pos : ChunkPos} {seed : BitVec 64}
    {heightAt : HeightFn} {cave : Table} {s : Drawing (Tables Table)} {r : Chunk × Drawing (Tables Table)}
    (hheight : ∀ wx wz, -2 ^ 20 ≤ heightAt wx wz ∧ heightAt wx wz ≤ 2 ^ 20)
    (hrun : Calls.sculpt setInside h pos seed heightAt cave s = some r) : Contained pos seed heightAt := by
  -- The features are placed on some chunk.
  obtain ⟨c, c', hfeatures⟩ : ∃ c c', Calls.placeFeatures setInside pos seed heightAt c = some c' := by
    obtain ⟨r₁, _, hrun⟩ := Option.bind_eq_some_iff.1 hrun
    obtain ⟨r₂, _, hrun⟩ := Option.bind_eq_some_iff.1 hrun
    obtain ⟨r₃, hlift, _⟩ := Option.bind_eq_some_iff.1 hrun
    obtain ⟨c', hfeatures, _⟩ := Option.map_eq_some_iff.1 hlift
    exact ⟨r₂.1, c', hfeatures⟩
  obtain ⟨c₁, _, hrest⟩ := Option.bind_eq_some_iff.1 hfeatures
  obtain ⟨c₂, hvegetation, hrest⟩ := Option.bind_eq_some_iff.1 hrest
  obtain ⟨c₃, _, hrest⟩ := Option.bind_eq_some_iff.1 hrest
  obtain ⟨c₄, hwreck, _⟩ := Option.bind_eq_some_iff.1 hrest
  constructor
  · intro x z hx hz hmelons
    obtain ⟨t, t', hcolumn⟩ := exists_step_of_foldlM hvegetation (mem_columns.2 ⟨hx, hz⟩ : (x, z) ∈ columns)
    have hplanted := hmelons.planted
    unfold Calls.vegetate at hcolumn
    dsimp only at hcolumn
    rw [if_neg (by omega), if_pos hmelons.surface] at hcolumn
    obtain ⟨t₁, hplants, _⟩ := Option.bind_eq_some_iff.1 hcolumn
    have hs := hmelons.surface
    refine (inWorld_plants_iff hx hz hs).1 (allInWorld_of_place ?_ hplants) hmelons.jungle hmelons.patch
    rw [hmelons.jungle]
    refine List.forall_mem_cons.2 ⟨⟨by dsimp only; omega, by dsimp only; omega, by dsimp only; omega⟩, ?_⟩
    rw [if_pos hmelons.patch]
    exact near_melonPatch hx hz hs
  · rintro ⟨hrolled, hocean⟩
    unfold placeShipwreck at hwreck
    rw [if_neg (not_not.2 hrolled), if_neg (not_not.2 hocean)] at hwreck
    have hall := allInWorld_of_place (near_shipwreck (hheight _ _)) hwreck
    exact (inWorld_shipwreck_iff.1 hall).1

end Apoptotic.Terrain
