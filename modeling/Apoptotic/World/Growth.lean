import Apoptotic.World.Canvases
import Apoptotic.World.Generators

/-!
# Sound chunks from every generator

No placer leaves a container unsound, wherever it writes: a call of `set_block` that does not panic keeps
the chunk sound, and the placers change it by such calls only.

Principal result: `Generator.generateChunk_grown` — every chunk that a generator returns is sound.
-/

namespace Apoptotic.Terrain

open Draws

/-- The placer keeps a chunk sound. -/
def Growing (f : Chunk → Option Chunk) : Prop := ∀ c c', c.Grown → f c = some c' → c'.Grown

namespace Growing

variable {f g : Chunk → Option Chunk}

theorem id : Growing some := by
  intro c c' hc h
  cases h
  exact hc

theorem run (w : Write) : Growing fun c => w.run c := fun _ _ hc h => hc.setBlock h

theorem bind (hf : Growing f) (hg : Growing g) : Growing fun c => f c >>= g := by
  intro c c' hc h
  obtain ⟨c₁, h₁, h₂⟩ := Option.bind_eq_some_iff.1 h
  exact hg _ _ (hf _ _ hc h₁) h₂

/-- What is read from the chunk does not matter. -/
theorem read {α : Type} {o : Chunk → Option α} {k : α → Chunk → Option Chunk}
    (hk : ∀ a, Growing (k a)) : Growing fun c => o c >>= fun a => k a c := by
  intro c c' hc h
  obtain ⟨a, _, h⟩ := Option.bind_eq_some_iff.1 h
  exact hk a _ _ hc h

theorem ite {P : Chunk → Prop} [∀ c, Decidable (P c)] (hf : Growing f) (hg : Growing g) :
    Growing fun c => if P c then f c else g c := by
  intro c c' hc h
  dsimp only at h
  split at h
  · exact hf _ _ hc h
  · exact hg _ _ hc h

theorem foldlM {β : Type} {k : Chunk → β → Option Chunk} (hk : ∀ b, Growing fun c => k c b)
    (bs : List β) : Growing (bs.foldlM k) :=
  fun _ _ hc h => foldlM_keeps (fun s b s' hs hstep => hk b s s' hs hstep) hc h

theorem place (ws : List Write) : Growing (place ws) := .foldlM run ws

end Growing

/-! ## The placers -/

section Placers

variable {F : Type} (fl : Floats F) (pos : ChunkPos) (seed : BitVec 64) (heightAt : HeightFn)

theorem growing_placeCactus (biome : BiomeId) (h : BitVec 64) (x z surface : Int) :
    Growing (placeCactus biome h x z surface) :=
  .ite (.read fun _ => .ite (.place _) .id) .id

theorem growing_placeSugarCane (h : BitVec 64) (x z surface : Int) :
    Growing (placeSugarCane h x z surface) :=
  .ite (.read fun _ => .ite (.read fun _ => .ite (.place _) .id) .id) .id

theorem growing_placeVegetation : Growing (placeVegetation pos seed heightAt) := by
  refine .foldlM (fun at' => ?_) _
  refine .ite .id (.ite ?_ .id)
  exact (Growing.place _).bind ((growing_placeCactus _ _ _ _ _).bind (growing_placeSugarCane _ _ _ _))

theorem growing_placeMineshaft : Growing (placeMineshaft pos seed) := by
  refine .ite (.bind (.foldlM (fun at' => ?_) _) (.place _)) .id
  exact .read fun _ => .ite (.run _) .id

theorem growing_placeSulfurSprings : Growing (placeSulfurSprings fl pos seed heightAt) := by
  refine .ite .id (.ite .id (.foldlM (fun d => ?_) _))
  refine .ite ?_ .id
  cases springBlock fl _ d.1 d.2 with
  | none => exact .id
  | some id => exact .read fun _ => .ite (.run _) .id

theorem growing_placeFeatures : Growing (placeFeatures pos seed heightAt) :=
  (Growing.place _).bind <| (growing_placeVegetation pos seed heightAt).bind <|
    (Growing.place _).bind <| (Growing.place _).bind <| (Growing.place _).bind <|
    (Growing.place _).bind <| (Growing.place _).bind <| (Growing.place _).bind <|
    (growing_placeMineshaft pos seed).bind <| (Growing.place _).bind <|
    (Growing.place _).bind (Growing.place _)

theorem growing_placeRuins : Growing (placeRuins fl pos seed heightAt) :=
  (growing_placeSulfurSprings fl pos seed heightAt).bind <| (Growing.place _).bind <|
    (Growing.place _).bind <| (Growing.place _).bind (Growing.place _)

/-- Biomes are not blocks. -/
theorem growing_fillBiomes (i : Fin SECTIONS_PER_CHUNK) :
    Growing fun c => fillBiomes pos seed c i := by
  intro c c' hc h
  unfold fillBiomes at h
  dsimp only at h
  cases hold : c.sections i with
  | none =>
      rw [hold] at h
      cases h
      exact hc
  | some sec =>
      rw [hold] at h
      obtain ⟨biomes, hfill, rfl⟩ := Option.map_eq_some_iff.1 h
      have hok := hc.sound i sec hold
      have hsound : biomes.Sound :=
        foldlM_keeps (fun _ _ _ hs hset => hs.set hset) hok.biomes hfill
      refine ⟨hc.sound.put (show Section.Ok { sec with biomes := biomes } from ⟨hok.blocks, hsound⟩) i,
        hc.placed.congr (funext fun j => ?_)⟩
      unfold heights
      dsimp only
      by_cases hj : j = i
      · subst hj
        rw [Function.update_self, hold]
        rfl
      · rw [Function.update_of_ne hj]

end Placers

/-! ## The placers that draw -/

section Drawing

variable {σ : Type}

theorem growing_placeOres {c : Chunk} (hc : c.Grown) :
    Gives Chunk.Grown (placeOres c : Draws σ Chunk) := by
  refine .loop (fun c o hc => ?_) _ hc
  refine .after fun ox => .after fun oz => .after fun oy => .loop (fun c _ hc => ?_) _ hc
  refine .after fun dx => .after fun dy => .after fun dz => ?_
  dsimp only
  split
  · refine .after fun existing => ?_
    split
    · exact .lift fun c' h => hc.setBlock h
    · exact .pure hc
  · exact .pure hc

theorem growing_placeAncientCity (pos : ChunkPos) (seed : BitVec 64) {c : Chunk} (hc : c.Grown) :
    Gives Chunk.Grown (placeAncientCity pos seed c : Draws σ Chunk) := by
  unfold placeAncientCity
  split
  · refine .bind (.lift fun c' h => Growing.place _ _ _ hc h) fun c hc => .loop (fun c _ hc => ?_) _ hc
    exact .after fun sx => .after fun sz => .lift fun c' h => hc.setBlock h
  · exact .pure hc

theorem growing_placeBastionRemnant {F : Type} (fl : Floats F) (pos : ChunkPos) (seed : BitVec 64)
    {c : Chunk} (hc : c.Grown) :
    Gives Chunk.Grown (placeBastionRemnant fl pos seed c : Draws σ Chunk) := by
  unfold placeBastionRemnant
  dsimp only
  split
  · exact .pure hc
  · split
    · exact .pure hc
    · refine .loop (fun c d hc => ?_) _ hc
      unfold bastionStep
      dsimp only
      split
      · refine .bind (.lift fun c' h => Growing.place _ _ _ hc h) fun c hc => ?_
        split
        · refine .after fun lava => ?_
          split
          · exact .lift fun c' h => hc.setBlock h
          · exact .pure hc
        · exact .pure hc
      · exact .pure hc

end Drawing

/-! ## The generators -/

variable {F Table : Type} (h : Host F Table) (pos : ChunkPos) (seed : BitVec 64)

theorem NoiseGenerator.generateChunk_grown (g : NoiseGenerator) :
    Gives Chunk.Grown (g.generateChunk h pos seed) := by
  refine .after fun terrain => .after fun cave => ?_
  refine .bind (.lift fun c hc => Growing.place _ _ _ (.new pos) hc) fun c hc => ?_
  refine .bind (growing_placeOres hc) fun c hc => ?_
  refine .bind (.lift fun c' hc' => growing_placeFeatures _ _ _ _ _ hc hc') fun c hc => ?_
  refine .bind (growing_placeAncientCity pos seed hc) fun c hc => ?_
  refine .bind (.lift fun c' hc' => growing_placeRuins _ _ _ _ _ _ hc hc') fun c hc => ?_
  refine .bind (.lift fun c' hc' =>
    Growing.foldlM (growing_fillBiomes pos seed) _ _ _ hc hc') fun c hc => ?_
  exact .pure hc.initLighting

theorem growing_applyLayers (ls : List (BlockState × Int)) : Growing (applyLayers ls) := by
  refine .foldlM (fun column => .foldlM (fun cell => ?_) _) _
  exact fun _ _ hc hset => hc.setBlock hset

theorem generateNether_grown : Gives Chunk.Grown (generateNether h pos seed) := by
  refine .bind (.lift fun c hc => Growing.place _ _ _ (.new pos) hc) fun c hc => ?_
  exact .bind (growing_placeBastionRemnant h.fl pos seed hc) fun c hc => .pure hc.initLighting

theorem growing_overlay (upper : Chunk) : Growing (overlay upper) := by
  refine .foldlM (fun at' => ?_) _
  refine .read fun block => .ite .id ?_
  exact fun _ _ hc hset => hc.setBlock hset

namespace Generator

mutual

/-- **Every chunk that a generator returns is sound.** -/
theorem generateChunk_grown : ∀ g : Generator, Gives Chunk.Grown (g.generateChunk h pos seed)
  | flat ls => by
      refine .lift fun c hc => ?_
      obtain ⟨c', hlayers, rfl⟩ := Option.map_eq_some_iff.1 hc
      exact (growing_applyLayers ls _ _ (.new pos) hlayers).initLighting
  | noise g => g.generateChunk_grown h pos seed
  | empty => .pure (.new pos)
  | nether => generateNether_grown h pos seed
  | «end» => by
      refine .lift fun c hc => ?_
      obtain ⟨c', hplace, rfl⟩ := Option.map_eq_some_iff.1 hc
      exact (Growing.place _ _ _ (.new pos) hplace).initLighting
  | custom options => by
      unfold generateChunk
      split
      · exact (buildNoise h options).generateChunk_grown h pos seed
      · refine .lift fun c hc => ?_
        obtain ⟨c', hlayers, rfl⟩ := Option.map_eq_some_iff.1 hc
        have hgrown := growing_applyLayers _ _ _ (.new pos) hlayers
        exact ⟨hgrown.sound, hgrown.placed⟩
  | compose [] => .pure (.new pos)
  | compose (first :: rest) => (generateChunk_grown first).bind fun c hc => overlayAll_grown rest c hc

theorem overlayAll_grown : ∀ (gs : List Generator) (c : Chunk), c.Grown →
    Gives Chunk.Grown (overlayAll h pos seed gs c)
  | [], c, hc => .pure hc
  | g :: gs, c, hc => by
      refine .after fun upper => ?_
      exact .bind (.lift fun c' hc' => growing_overlay upper _ _ hc hc') fun c hc => overlayAll_grown gs c hc

end

end Generator

end Apoptotic.Terrain
