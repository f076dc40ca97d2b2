import Apoptotic.World.Reproducible

/-!
# Draws that decide about blocks

What the draws of the veins and of an ancient city may lead to, where the terrain is not quiet.

Principal results: `differ_of_not_quiet` — the veins leave a block to the draws, or the sculk does;
`not_reproducible_of_city` — a city in barren ground is in the finished chunk what it was drawn.
-/

namespace Apoptotic.Terrain

open Blocks Draws

variable {F Table : Type} {h : Host F Table}

/-! ## The end of a chunk -/

theorem Shows.light {c : Chunk} {f : BlockGrid} (hc : Shows c f) : Shows (light c) f :=
  hc.of_blocks hc.sections.initChunkLighting fun i => map_initChunkLighting _ i _ fun _ _ _ => rfl

/-- Cells of the section are set. -/
theorem foldlM_set {biomes : PalettedContainer} (hbiomes : biomes.Sound) {β : Type} (bs : List β)
    (cell : β → Nat × Nat × Nat) (hcell : ∀ b ∈ bs, (cell b).1 < 16 ∧ (cell b).2.1 < 16 ∧ (cell b).2.2 < 16)
    (state : β → BlockState) :
    ∃ biomes', bs.foldlM (fun biomes b =>
        biomes.set (cell b).1 (cell b).2.1 (cell b).2.2 (state b)) biomes = some biomes' ∧
      biomes'.Sound := by
  induction bs generalizing biomes with
  | nil => exact ⟨biomes, rfl, hbiomes⟩
  | cons b bs ih =>
      obtain ⟨seen, g, hg⟩ := hbiomes
      obtain ⟨hx, hy, hz⟩ := hcell b (List.mem_cons_self ..)
      obtain ⟨next, hset, hnext⟩ := set_represents hg
        (show index (cell b).1 (cell b).2.1 (cell b).2.2 < BLOCKS_PER_SECTION from
          Cell.idx_lt ⟨⟨_, hx⟩, ⟨_, hy⟩, ⟨_, hz⟩⟩) (state b)
      obtain ⟨biomes', hrest, hsound⟩ := ih ⟨_, _, hnext⟩ fun b hb => hcell b (List.mem_cons_of_mem _ hb)
      refine ⟨biomes', ?_, hsound⟩
      rw [List.foldlM_cons, hset]
      exact hrest

theorem fillSectionBiomes_total {biomes : PalettedContainer} (hbiomes : biomes.Sound) (y : BitVec 32)
    (pos : ChunkPos) (seed : BitVec 64) :
    ∃ biomes', fillSectionBiomes biomes y pos seed = some biomes' ∧ biomes'.Sound := by
  refine foldlM_set hbiomes _ (fun b : Nat × Nat × Nat × Nat × Nat => (b.2.2.1, b.2.2.2.1, b.2.2.2.2))
    ?_ fun b => (sampleBiomeAtY (pos.x * 16 + BitVec.ofNat 32 (b.1 * 4 + 2))
      (pos.z * 16 + BitVec.ofNat 32 (b.2.1 * 4 + 2)) (y * 16 + 8) seed).id.state
  intro b hb
  simp only [List.bind_eq_flatMap, List.mem_flatMap, List.mem_range, List.pure_def,
    List.mem_singleton] at hb
  obtain ⟨bx, hbx, bz, hbz, by', hby, dx, hdx, dy, hdy, dz, hdz, rfl⟩ := hb
  dsimp only
  omega

theorem Shows.fillBiomes {c : Chunk} {f : BlockGrid} (hc : Shows c f) (pos : ChunkPos)
    (seed : BitVec 64) (i : Fin SECTIONS_PER_CHUNK) :
    ∃ c', fillBiomes pos seed c i = some c' ∧ Shows c' f := by
  unfold Terrain.fillBiomes
  cases hsec : c.sections i with
  | none => exact ⟨c, rfl, hc⟩
  | some sec =>
      have hok := hc.sections i sec hsec
      obtain ⟨biomes', hfill, hsound⟩ :=
        fillSectionBiomes_total hok.biomes (BitVec.ofInt 32 sec.position.y) pos seed
      have hfilled : Section.Ok { sec with biomes := biomes' } := ⟨hok.blocks, hsound⟩
      dsimp only
      rw [hfill]
      refine ⟨_, rfl, hc.of_blocks (hc.sections.put hfilled i) fun j => ?_⟩
      dsimp only
      by_cases hj : j = i
      · subst hj
        rw [Function.update_self, hsec]
        rfl
      · rw [Function.update_of_ne hj]

theorem Shows.fillAllBiomes {f : BlockGrid} (pos : ChunkPos) (seed : BitVec 64)
    (is : List (Fin SECTIONS_PER_CHUNK)) {c : Chunk} (hc : Shows c f) :
    ∃ c', is.foldlM (Terrain.fillBiomes pos seed) c = some c' ∧ Shows c' f := by
  induction is generalizing c with
  | nil => exact ⟨c, rfl, hc⟩
  | cons i is ih =>
      obtain ⟨c₁, hfill, h₁⟩ := hc.fillBiomes pos seed i
      obtain ⟨c₂, hrest, h₂⟩ := ih h₁
      refine ⟨c₂, ?_, h₂⟩
      rw [List.foldlM_cons, hfill]
      exact hrest

/-! ## What a draw may decide -/

/-- Some draws lead to a chunk that shows a grid with the property. -/
def May {σ : Type} (I : σ → Prop) (m : Draws σ Chunk) (P : BlockGrid → Prop) : Prop :=
  ∃ c f, Shows c f ∧ P f ∧ Sometimes I m c

/-- The draws decide about a block. -/
def Differ {σ : Type} (I : σ → Prop) (m : Draws σ Chunk) : Prop :=
  ∃ a b, Sometimes I m a ∧ Sometimes I m b ∧ blocks a ≠ blocks b

section

variable {σ : Type} {I : σ → Prop} {c : Chunk} {f : BlockGrid} {P Q : BlockGrid → Prop}

theorem May.pure (hc : Shows c f) (hP : P f) : May I (pure c : Draws σ Chunk) P :=
  ⟨c, f, hc, hP, .pure c⟩

theorem May.bind {m : Draws σ Chunk} {k : Chunk → Draws σ Chunk} (hm : May I m P)
    (hk : ∀ c f, Shows c f → P f → May I (k c) Q) : May I (m >>= k) Q := by
  obtain ⟨c, f, hc, hP, hrun⟩ := hm
  obtain ⟨c', f', hc', hQ, hrest⟩ := hk c f hc hP
  exact ⟨c', f', hc', hQ, hrun.bind hrest⟩

theorem May.of_sometimes {α : Type} {m : Draws σ α} {a : α} {k : α → Draws σ Chunk}
    (hm : Sometimes I m a) (hk : May I (k a) P) : May I (m >>= k) P := by
  obtain ⟨c, f, hc, hP, hrun⟩ := hk
  exact ⟨c, f, hc, hP, hm.bind hrun⟩

theorem May.loop {β : Type} {step : Chunk → β → Draws σ Chunk} {bs : List β}
    (hstep : ∀ c f, Shows c f → P f → ∀ b ∈ bs, May I (step c b) P) (hc : Shows c f) (hP : P f) :
    May I (loop step bs c) P := by
  have hkeep : ∀ c, (∃ f, Shows c f ∧ P f) → ∀ b ∈ bs,
      ∃ c', (∃ f, Shows c' f ∧ P f) ∧ Sometimes I (step c b) c' := by
    rintro c ⟨f, hc, hP⟩ b hb
    obtain ⟨c', f', hc', hP', hrun⟩ := hstep c f hc hP b hb
    exact ⟨c', ⟨f', hc', hP'⟩, hrun⟩
  obtain ⟨c', ⟨f', hc', hP'⟩, hrun⟩ := Sometimes.loop hkeep ⟨f, hc, hP⟩
  exact ⟨c', f', hc', hP', hrun⟩

/-- Two grids that differ at one place. -/
theorem Differ.of_may {m : Draws σ Chunk} {x z : Fin 16} {y : Height} {id : BlockId}
    (hm : May I m fun f => f x y z = id) (hm' : May I m fun f => f x y z ≠ id) : Differ I m := by
  obtain ⟨a, f, ha, hf, hrun⟩ := hm
  obtain ⟨b, f', hb, hf', hrun'⟩ := hm'
  refine ⟨a, b, hrun, hrun', fun hsame => hf' ?_⟩
  have hblock := congrFun₃ hsame x y z
  unfold blocks at hblock
  rw [ha.block, hb.block] at hblock
  exact (state_inj.1 (Option.some.inj hblock)).symm.trans hf

/-! ## The veins -/

/-- The write of one step of a vein. -/
def veinWrite (o : Ore) (ox oy oz : Int) (dx dy dz : Nat) : Write :=
  ⟨max 0 (min (ox + dx - 1) 15), oy + dy - 1, max 0 (min (oz + dz - 1) 15),
    if oy + dy - 1 < 0 then o.deepOre else o.ore⟩

/-- What an ore replaces. -/
def Stony (id : BlockId) : Prop := id = STONE ∨ id = NoiseGenerator.DEEPSLATE

/-- **One step of a vein**: it writes where there is stone. -/
theorem may_veinStep (hc : Shows c f) (o : Ore) (ox oy oz : Int) (n dx dy dz : Nat)
    (hdx : dx < 3) (hdy : dy < 3) (hdz : dz < 3)
    (hwrite : ∀ x y z, (veinWrite o ox oy oz dx dy dz).At x y z → Stony (f x y z) →
      P (f.write (veinWrite o ox oy oz dx dy dz)))
    (hkeep : (∀ x y z, (veinWrite o ox oy oz dx dy dz).At x y z → ¬ Stony (f x y z)) → P f) :
    May I (veinStep o ox oy oz c n) P := by
  unfold veinStep
  refine .of_sometimes (.draw hdx) (.of_sometimes (.draw hdy) (.of_sometimes (.draw hdz) ?_))
  dsimp only
  split
  · rename_i hy
    have hx : Inside (max 0 (min (ox + dx - 1) 15)) := by omega
    have hz : Inside (max 0 (min (oz + dz - 1) 15)) := by omega
    have hat : (veinWrite o ox oy oz dx dy dz).At ⟨(max 0 (min (ox + dx - 1) 15)).toNat, by omega⟩
        ⟨oy + dy - 1, hy⟩ ⟨(max 0 (min (oz + dz - 1) 15)).toNat, by omega⟩ :=
      ⟨Int.toNat_of_nonneg hx.1, rfl, Int.toNat_of_nonneg hz.1⟩
    refine .of_sometimes (.lift (hc.readBlock hx hy hz)) ?_
    split
    · rename_i hstone
      have hrun : (veinWrite o ox oy oz dx dy dz).InWorld := ⟨hx, hy, hz⟩
      obtain ⟨c', hc', hshows⟩ := hc.run hrun
      exact ⟨c', _, hshows, hwrite _ _ _ hat (hstone.imp state_inj.1 state_inj.1), .lift hc'⟩
    · rename_i hstone
      refine .pure hc (hkeep fun x y z hat' => ?_)
      obtain ⟨rfl, rfl, rfl⟩ := hat'.unique hat
      exact fun h => hstone (h.imp state_inj.2 state_inj.2)
  · rename_i hy
    refine .pure hc (hkeep fun x y z hat => absurd ?_ hy)
    have hheight : (y : Int) = oy + dy - 1 := hat.2.1
    rw [← hheight]
    exact y.2

/-- A vein at chosen offsets. -/
theorem may_placeVein (o : Ore) (ox oz oy : Nat) (hox : ox < 16) (hoz : oz < 16) (hoy : oy < 2 ^ 32)
    {y : Int} (hy : o.yMin + oy % (o.yMax - o.yMin) = y)
    (hsteps : May I (loop (veinStep o ox y oz) (List.range o.size) c) P) : May I (placeVein o c) P := by
  subst hy
  exact .of_sometimes (.draw hox) <| .of_sometimes (.draw hoz) <| .of_sometimes (.draw hoy) hsteps

/-- Without stone the veins leave the grid as it is. -/
theorem may_placeOres_noStone (hc : Shows c f) (hf : NoStone f) : May I (placeOres c) (· = f) := by
  refine .loop (fun c f' hc heq o _ => ?_) hc rfl
  refine may_placeVein o 0 0 0 (by decide) (by decide) (by decide) rfl ?_
  refine .loop (P := fun f' => f' = f) (fun c f' hc heq n _ => ?_) hc heq
  refine may_veinStep hc o _ _ _ n 0 0 0 (by decide) (by decide) (by decide)
    (fun x y z _ hstone => ?_) fun _ => heq
  rw [heq] at hstone
  exact absurd hstone (not_or.2 (hf x y z))

/-- The lowest layer above the bedrock. -/
def lowest : Height := ⟨-63, by decide⟩

/-- What is written elsewhere leaves the lowest layer as it is. -/
theorem write_lowest {w : Write} (hw : w.y ≠ -63) (x z : Fin 16) :
    f.write w x lowest z = f x lowest z :=
  if_neg fun hat => hw hat.2.1.symm

/-- Each vein may lie above the lowest layer. -/
theorem may_placeVein_above (hc : Shows c f) {o : Ore} (ho : o ∈ veins) {x z : Fin 16}
    {p : BlockId → Prop} (hp : p (f x lowest z)) :
    May I (placeVein o c) fun f => p (f x lowest z) := by
  have hheights : ∀ o ∈ veins, o.yMin < o.yMax ∧ 16 ≤ o.yMax ∧ o.yMax - o.yMin < 2 ^ 32 := by decide
  obtain ⟨hmin, hmax, hsmall⟩ := hheights o ho
  have hy : o.yMin + ((o.yMax - o.yMin - 1).toNat : Int) % (o.yMax - o.yMin) = o.yMax - 1 := by
    rw [Int.toNat_of_nonneg (by omega), Int.emod_eq_of_lt (by omega) (by omega)]
    omega
  refine may_placeVein o 0 0 _ (by decide) (by decide) (by omega) hy ?_
  refine .loop (fun c f hc hp n _ => ?_) hc hp
  refine may_veinStep hc o _ _ _ n 1 1 1 (by decide) (by decide) (by decide)
    (fun _ _ _ _ _ => ?_) fun _ => hp
  have helsewhere : (veinWrite o (0 : Nat) (o.yMax - 1) (0 : Nat) 1 1 1).y ≠ -63 := by
    unfold veinWrite
    dsimp only
    omega
  rw [write_lowest helsewhere]
  exact hp

/-- The veins may leave the lowest layer as it is. -/
theorem may_placeOres_above (hc : Shows c f) {x z : Fin 16} {p : BlockId → Prop}
    (hp : p (f x lowest z)) {os : List Ore} (hos : ∀ o ∈ os, o ∈ veins) :
    May I (loop (fun c o => placeVein o c) os c) fun f => p (f x lowest z) :=
  .loop (fun _ _ hc hp _ ho => may_placeVein_above hc (hos _ ho) hp) hc hp

/-- The first vein of iron. -/
def iron : Ore := ⟨29, 337, -64, 64, 9⟩

theorem may_placeVein_iron (hc : Shows c f) {x z : Fin 16} (hstone : Stony (f x lowest z)) :
    May I (placeVein iron c) fun f => f x lowest z = 337 := by
  have hat : (veinWrite iron (x : Nat) (-64) (z : Nat) 1 2 1).At x lowest z := by
    unfold veinWrite Write.At
    dsimp only
    exact ⟨by omega, rfl, by omega⟩
  have helsewhere : (veinWrite iron (x : Nat) (-64) (z : Nat) 1 1 1).y ≠ -63 := by
    unfold veinWrite
    dsimp only
    omega
  have hsteps : List.range iron.size = 0 :: List.range' 1 8 := rfl
  refine may_placeVein iron x z 0 x.isLt z.isLt (by decide) (y := -64) (by decide) ?_
  rw [hsteps]
  refine May.bind (P := fun f => f x lowest z = 337) ?_ fun c f hc hiron => .loop ?_ hc hiron
  · refine may_veinStep hc iron _ _ _ 0 1 2 1 (by decide) (by decide) (by decide)
      (fun _ _ _ _ _ => if_pos hat) fun hnone => absurd hstone (hnone x lowest z hat)
  · intro c f hc hiron n _
    refine may_veinStep hc iron _ _ _ n 1 1 1 (by decide) (by decide) (by decide)
      (fun _ _ _ _ _ => ?_) fun _ => hiron
    rw [write_lowest helsewhere]
    exact hiron

/-- The veins may turn stone of the lowest layer into iron. -/
theorem may_placeOres_iron (hc : Shows c f) {x z : Fin 16} (hstone : Stony (f x lowest z)) :
    May I (placeOres c) fun f => f x lowest z = 337 := by
  have hveins : veins = veins.take 20 ++ iron :: veins.drop 21 := rfl
  unfold placeOres
  rw [hveins, loop_append]
  refine (may_placeOres_above hc hstone fun o => List.mem_of_mem_take).bind fun c f hc hstone => ?_
  refine (may_placeVein_iron hc hstone).bind fun c f hc hiron => ?_
  exact may_placeOres_above (p := (· = 337)) hc hiron fun o => List.mem_of_mem_drop

/-- **Stone in the lowest layer is left to the draws.** -/
theorem differ_placeOres (hc : Shows c f) {x z : Fin 16} (hstone : Stony (f x lowest z)) :
    Differ I (placeOres c) := by
  refine Differ.of_may (may_placeOres_iron hc hstone) ?_
  refine may_placeOres_above (p := (· ≠ 337)) hc (fun hiron => ?_) fun _ => id
  rw [hiron] at hstone
  exact absurd hstone (by unfold Stony; decide)

/-! ## The city -/

theorem may_placeSculk (hc : Shows c f) (sx sz : Nat) (hx : sx < 10) (hz : sz < 10) (n : Nat)
    (hwrite : P (f.write ⟨2 + sx, -50, 2 + sz, 340⟩)) : May I (placeSculk c n) P := by
  obtain ⟨c', hrun, hc'⟩ := hc.run (w := ⟨2 + sx, -50, 2 + sz, 340⟩)
    (inWorld (by omega) (by decide) (by omega))
  exact .of_sometimes (.draw hx) (.of_sometimes (.draw hz) ⟨c', _, hc', hwrite, .lift hrun⟩)

theorem mem_ancientChamber {w : Write} : w ∈ ancientChamber ↔
    ∃ dx dz dy, (0 ≤ dx ∧ dx < 14) ∧ (0 ≤ dz ∧ dz < 14) ∧ (0 ≤ dy ∧ dy < 5) ∧
      w = ⟨dx, -51 + dy, dz, if Side dx 13 ∨ Side dz 13 ∨ dy = 0 then
        if (dx + dz) % 5 = 0 then 339 else 338 else 0⟩ := by
  unfold ancientChamber
  simp only [List.mem_flatMap, List.mem_map, mem_span]
  constructor
  · rintro ⟨dx, hdx, dz, hdz, dy, hdy, rfl⟩
    exact ⟨dx, dz, dy, hdx, hdz, hdy, rfl⟩
  · rintro ⟨dx, dz, dy, hdx, hdz, hdy, rfl⟩
    exact ⟨dx, hdx, dz, hdz, dy, hdy, rfl⟩

/-- A place in the middle of the chamber. -/
def inside : Height := ⟨-50, by decide⟩

/-- The chamber is built inside the world, and its middle is not of sculk. -/
theorem chamber_spec : (∀ w ∈ ancientChamber, w.InWorld) ∧
    ∀ f : BlockGrid, ancientChamber.foldl BlockGrid.write f 2 inside 2 ≠ 340 := by
  constructor
  · intro w hw
    obtain ⟨dx, dz, dy, hdx, hdz, hdy, rfl⟩ := mem_ancientChamber.1 hw
    exact inWorld (by omega) (by omega) (by omega)
  · intro f
    have hmem : (⟨2, -50, 2, 0⟩ : Write) ∈ ancientChamber := mem_ancientChamber.2
      ⟨2, 2, 1, by decide, by decide, by decide, rfl⟩
    obtain ⟨w, hw, _, heq⟩ := foldl_write_of_mem f hmem (x := 2) (y := inside) (z := 2)
      ⟨rfl, rfl, rfl⟩
    obtain ⟨dx, dz, dy, _, _, _, rfl⟩ := mem_ancientChamber.1 hw
    rw [heq]
    dsimp only
    split
    · split <;> decide
    · decide

variable {pos : ChunkPos} {seed : BitVec 64}

/-- The patches of a city may all be drawn at one place, or all at another. -/
theorem may_placeAncientCity (hcity : hasAncientCity pos seed = true) (hc : Shows c f) :
    May I (placeAncientCity pos seed c) (fun f => f 2 inside 2 = 340) ∧
      May I (placeAncientCity pos seed c) fun f => f 2 inside 2 ≠ 340 := by
  obtain ⟨hworld, hmiddle⟩ := chamber_spec
  obtain ⟨c₁, hplace, h₁⟩ := hc.place hworld
  have hchamber : ∀ {P : BlockGrid → Prop}, May I (loop placeSculk (List.range 8) c₁) P →
      May I (placeAncientCity pos seed c) P := by
    intro P hsculk
    unfold placeAncientCity
    rw [hcity, if_pos rfl]
    exact .of_sometimes (.lift hplace) hsculk
  have hcovers : ∀ c f, Shows c f → ∀ n, May I (placeSculk c n) fun f => f 2 inside 2 = 340 :=
    fun c f hc n => may_placeSculk hc 0 0 (by decide) (by decide) n (if_pos ⟨rfl, rfl, rfl⟩)
  have hsteps : List.range 8 = 0 :: List.range' 1 7 := rfl
  refine ⟨hchamber ?_, hchamber ?_⟩
  · rw [hsteps]
    exact (hcovers _ _ h₁ 0).bind fun c f hc hcovered =>
      .loop (fun c f hc _ n _ => hcovers c f hc n) hc hcovered
  · refine .loop (P := fun f => f 2 inside 2 ≠ 340) (fun c f hc hspared n _ => ?_) h₁ (hmiddle f)
    refine may_placeSculk hc 1 1 (by decide) (by decide) n ?_
    rw [show f.write ⟨2 + (1 : Nat), -50, 2 + (1 : Nat), 340⟩ 2 inside 2 = f 2 inside 2 from
      if_neg fun hat => absurd hat.1 (by decide)]
    exact hspared

/-- **A city is left to the draws.** -/
theorem differ_placeAncientCity (hcity : hasAncientCity pos seed = true) (hc : Shows c f) :
    Differ I (placeAncientCity pos seed c) := by
  obtain ⟨hcovered, hspared⟩ := may_placeAncientCity (I := I) hcity hc
  exact Differ.of_may hcovered hspared

end

/-! ## What is not quiet -/

namespace NoiseGenerator

variable {g : NoiseGenerator} {pos : ChunkPos} {seed : BitVec 64}

/-- **Ground that is not low has deepslate in its lowest layer.** -/
theorem stony_of_not_low (hhigh : ¬ g.Low h pos seed) :
    ∃ x z, Stony ((g.terrain h pos seed).foldl BlockGrid.write .air x lowest z) := by
  unfold Low at hhigh
  push Not at hhigh
  obtain ⟨p, hp, hsurface, hsub⟩ := hhigh
  obtain ⟨hx, hz⟩ := mem_columns.1 hp
  have hlayer : layer (sampleBiome (world pos.x p.1) (world pos.z p.2) seed)
      (g.surface h pos seed p) (-63) = DEEPSLATE := by
    unfold layer
    dsimp only
    refine if_pos ⟨?_, by decide⟩
    split
    · exact hsub (by omega)
    · exact (sampleBiome_stone ..).1
  have hmem : (⟨p.1, -63, p.2, DEEPSLATE⟩ : Write) ∈ g.terrain h pos seed := by
    refine List.mem_append_left _ (List.mem_flatMap.2 ⟨p, hp, mem_column.2 (.inr (.inl ?_))⟩)
    refine ⟨-63, ⟨by decide, hsurface⟩, ?_⟩
    rw [← hlayer]
    rfl
  have hx' : ((p.1.toNat : Nat) : Int) = p.1 := Int.toNat_of_nonneg hx.1
  have hz' : ((p.2.toNat : Nat) : Int) = p.2 := Int.toNat_of_nonneg hz.1
  refine ⟨⟨p.1.toNat, by omega⟩, ⟨p.2.toNat, by omega⟩, ?_⟩
  obtain ⟨w, hw, hat, heq⟩ := foldl_write_of_mem .air hmem (x := ⟨p.1.toNat, by omega⟩) (y := lowest)
    (z := ⟨p.2.toNat, by omega⟩) ⟨hx', rfl, hz'⟩
  rw [heq]
  -- Every write at the place is that layer of that column.
  obtain ⟨p', hp', hw⟩ := mem_terrain hw
  have hwx : p.1 = w.x := hx'.symm.trans hat.1
  have hwy : -63 = w.y := hat.2.1
  have hwz : p.2 = w.z := hz'.symm.trans hat.2.2
  rcases hw with hw | ⟨y, hy, rfl⟩
  · rcases mem_column.1 hw with rfl | ⟨y, _, rfl⟩ | ⟨hs, rfl⟩
    · cases hwy
    · obtain rfl : p = p' := Prod.ext hwx hwz
      obtain rfl : (-63 : Int) = y := hwy
      exact .inr hlayer
    · have : (-63 : Int) = g.surface h pos seed p' := hwy
      omega
  · have : (-63 : Int) = y := hwy
    omega

/-- **What is not quiet leaves blocks to the draws**: the veins do, or the sculk. -/
theorem differ_of_not_quiet {I : Tables Table → Prop} (hloud : ¬ g.Quiet h pos seed) :
    (∃ c, place (g.terrain h pos seed) (Chunk.new pos) = some c ∧ Differ I (placeOres c)) ∨
      ∀ c f, Shows c f → Differ I (placeAncientCity pos seed c) := by
  by_cases hlow : g.Low h pos seed
  · refine .inr fun c f hc => differ_placeAncientCity ?_ hc
    cases hcity : hasAncientCity pos seed with
    | true => rfl
    | false => exact absurd ⟨hlow, hcity⟩ hloud
  · obtain ⟨c, hplace, hc⟩ := shows_terrain h g pos seed
    obtain ⟨x, z, hstone⟩ := stony_of_not_low hlow
    exact .inl ⟨c, hplace, differ_placeOres hc hstone⟩

end NoiseGenerator

/-- Draws that lead to two results tell them apart. -/
theorem Reproducible.eq_of_sometimes {g : Generator} {pos : ChunkPos} {seed : BitVec 64}
    (hg : Reproducible h g pos seed) {a b : Chunk}
    (ha : Sometimes (Cached h) (g.generateChunk h pos seed) a)
    (hb : Sometimes (Cached h) (g.generateChunk h pos seed) b) : blocks a = blocks b := by
  have hfresh : Cached h ⟨none, none⟩ := ⟨nofun, nofun⟩
  obtain ⟨ks, s, _, hrun⟩ := ha _ hfresh
  obtain ⟨ls, s', _, hrun'⟩ := hb _ hfresh
  have heq := hg ⟨prepend ks fun _ => 0, ⟨none, none⟩⟩ ⟨prepend ls fun _ => 0, ⟨none, none⟩⟩
    (.init rfl) (.init rfl)
  rw [hrun, hrun'] at heq
  exact Option.some.inj heq

/-- **Barren ground with a city**: the ground is low everywhere, and the other placers do nothing. -/
structure Barren (h : Host F Table) (g : NoiseGenerator) (pos : ChunkPos) (seed : BitVec 64) : Prop where
  low : g.Low h pos seed
  features : ∀ c, placeFeatures pos seed (g.heightAt h (terrainTable h seed)) c = some c
  ruins : ∀ c, placeRuins h.fl pos seed (g.heightAt h (terrainTable h seed)) c = some c

section

variable {g : NoiseGenerator} {pos : ChunkPos} {seed : BitVec 64}

/-- There a noise generator may show what its city may show. -/
theorem may_noise (hbarren : Barren h g pos seed) {P : BlockGrid → Prop}
    (hcity : ∀ c f, Shows c f → May (Cached h) (placeAncientCity pos seed c) P) :
    May (Cached h) (g.generateChunk h pos seed) P := by
  obtain ⟨c₁, hplace, h₁⟩ := NoiseGenerator.shows_terrain h g pos seed
  refine .of_sometimes (.access fun s hs => getTerrainHasher_spec seed s hs) ?_
  refine .of_sometimes (.access fun s hs => getCaveHasher_spec seed s hs) ?_
  refine .of_sometimes (.lift hplace) ?_
  refine (may_placeOres_noStone h₁ (NoiseGenerator.noStone_of_low hbarren.low)).bind fun c f hc _ => ?_
  refine .of_sometimes (.lift (hbarren.features c)) ?_
  refine (hcity c f hc).bind fun c f hc hP => ?_
  obtain ⟨c', hbiomes, hc'⟩ := hc.fillAllBiomes pos seed (List.finRange SECTIONS_PER_CHUNK)
  refine .of_sometimes (.lift (hbarren.ruins c)) ?_
  exact .of_sometimes (.lift hbiomes) (.pure hc'.light hP)

/-- Where draws lead to two results the generator is not reproducible. -/
theorem Reproducible.not_differ {g : Generator} (hg : Reproducible h g pos seed) :
    ¬ Differ (Cached h) (g.generateChunk h pos seed) := by
  rintro ⟨a, b, ha, hb, hne⟩
  exact hne (hg.eq_of_sometimes ha hb)

/-- **A city in barren ground is not reproducible.** -/
theorem not_reproducible_of_city (hbarren : Barren h g pos seed)
    (hcity : hasAncientCity pos seed = true) : ¬ Reproducible h (.noise g) pos seed := by
  have hcovered : May (Cached h) (g.generateChunk h pos seed) fun f => f 2 inside 2 = 340 :=
    may_noise hbarren fun c f hc => (may_placeAncientCity hcity hc).1
  have hspared : May (Cached h) (g.generateChunk h pos seed) fun f => f 2 inside 2 ≠ 340 :=
    may_noise hbarren fun c f hc => (may_placeAncientCity hcity hc).2
  exact fun hg => hg.not_differ (Differ.of_may hcovered hspared)

end

/-! ## A city and nothing else -/

theorem placeIn_nil {biome : BiomeId} {n : Nat} {hash : BitVec 64} {ws : List Write} {pos : ChunkPos}
    {seed : BitVec 64} (hhash : ¬ multipleOf hash n = true) : placeIn biome n hash ws pos seed = [] :=
  if_pos hhash

theorem placeTrees_low (pos : ChunkPos) (seed : BitVec 64) :
    placeTrees pos seed (fun _ _ => -64) = [] := by
  unfold placeTrees
  refine List.flatMap_eq_nil_iff.2 fun x _ => List.flatMap_eq_nil_iff.2 fun z _ => ?_
  dsimp only
  split_ifs <;> first | rfl | omega

theorem placeVegetation_low (pos : ChunkPos) (seed : BitVec 64) (c : Chunk) :
    placeVegetation pos seed (fun _ _ => -64) c = some c := by
  have hbare : ∀ p : Int × Int, vegetate pos seed (fun _ _ => -64) c p = some c := by
    intro p
    unfold vegetate
    dsimp only
    split_ifs <;> first | rfl | omega
  unfold placeVegetation
  induction columns with
  | nil => rfl
  | cons p ps ih =>
      rw [List.foldlM_cons, hbare]
      exact ih

/-- Of all structures seed 500 has only the city. -/
theorem barren_lowland : Barren silentHost lowland ⟨0, 0⟩ 500 where
  low := low_lowland _ _
  features c := by
    rw [show lowland.heightAt silentHost (terrainTable silentHost 500) = fun _ _ => -64 from
      heightAt_lowland]
    have hvillage : placeVillage ⟨0, 0⟩ 500 (fun _ _ => -64) = [] := by
      unfold placeVillage
      split_ifs <;> rfl
    have hportal : placeRuinedPortal ⟨0, 0⟩ 500 (fun _ _ => -64) = [] := by
      unfold placeRuinedPortal
      split_ifs <;> rfl
    have hwreck : placeShipwreck ⟨0, 0⟩ 500 (fun _ _ => -64) = [] := if_pos (by decide)
    have htemple : placeDesertTemple ⟨0, 0⟩ 500 = [] := placeIn_nil (by decide)
    have hhut : placeSwampHut ⟨0, 0⟩ 500 = [] := placeIn_nil (by decide)
    have higloo : placeIgloo ⟨0, 0⟩ 500 = [] := placeIn_nil (by decide)
    have hshaft : placeMineshaft ⟨0, 0⟩ 500 c = some c := if_neg (by decide)
    have hjungle : placeJungleTemple ⟨0, 0⟩ 500 = [] := placeIn_nil (by decide)
    have hmonument : placeOceanMonument ⟨0, 0⟩ 500 = [] := placeIn_nil (by decide)
    have hchambers : placeTrialChambers ⟨0, 0⟩ 500 = [] := if_neg (by decide)
    unfold placeFeatures
    rw [placeTrees_low, hvillage, hwreck, hportal, htemple, hhut, higloo, hjungle, hmonument, hchambers]
    have hnone : place [] c = some c := rfl
    simp only [hnone, Option.bind_eq_bind, Option.bind_some, placeVegetation_low, hshaft]
  ruins c := by
    rw [show lowland.heightAt silentHost (terrainTable silentHost 500) = fun _ _ => -64 from
      heightAt_lowland]
    have hsprings : placeSulfurSprings silentHost.fl ⟨0, 0⟩ 500 (fun _ _ => -64) c = some c := by
      unfold placeSulfurSprings
      dsimp only
      split_ifs <;> rfl
    have houtpost : placePillagerOutpost ⟨0, 0⟩ 500 (fun _ _ => -64) = [] := by
      unfold placePillagerOutpost
      dsimp only
      split_ifs <;> rfl
    have hmansion : placeWoodlandMansion ⟨0, 0⟩ 500 (fun _ _ => -64) = [] := by
      unfold placeWoodlandMansion
      dsimp only
      split_ifs <;> rfl
    have hfossil : placeFossil ⟨0, 0⟩ 500 = [] := by
      unfold placeFossil
      dsimp only
      split_ifs with hbiome hhash <;> first | rfl | exact absurd hhash (by decide)
    have htrail : placeTrailRuins ⟨0, 0⟩ 500 (fun _ _ => -64) = [] := by
      unfold placeTrailRuins
      dsimp only
      split_ifs with hbiome hhash <;> first | rfl | exact absurd hhash (by decide)
    unfold placeRuins
    rw [houtpost, hmansion, hfossil, htrail]
    have hnone : place [] c = some c := rfl
    simp only [hnone, Option.bind_eq_bind, Option.bind_some, hsprings]

/-- With seed 500 the chunk at the origin is not the same again. -/
theorem terrain_differs : ¬ Reproducible silentHost (.noise lowland) ⟨0, 0⟩ 500 :=
  not_reproducible_of_city barren_lowland (by decide)

end Apoptotic.Terrain
