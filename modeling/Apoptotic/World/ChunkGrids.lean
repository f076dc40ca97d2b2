import Apoptotic.World.Placers
import Apoptotic.World.SkyLight

/-!
# Chunks as grids of blocks

What a generator builds: sound containers that hold, at every place of the world, the block of a grid.

Principal results: `Shows.place` — writes inside the world do not panic, and change the grid as they say;
`Shows.readBlock` — a place is read back.
-/

namespace Apoptotic

open Flood

/-- What is read after a set, while only states are stored that direct mode can store. -/
theorem getAt_set {c c' : PalettedContainer} (h : c.Sound) {x y z i : Nat}
    (hi : index x y z < BLOCKS_PER_SECTION) {b old : BlockState} (hset : c.set x y z b = some c')
    (hb : b.Fits) (hlt : i < BLOCKS_PER_SECTION) (hold : c.getAt i = some old) (hfits : old.Fits) :
    c'.getAt i = some (if i = index x y z then b else old) := by
  obtain ⟨seen, f, hf⟩ := h
  obtain ⟨c'', hc'', hf'⟩ := set_represents hf hi b
  obtain rfl := Option.some.inj (hset.symm.trans hc'')
  rw [getAt_of_represents hf hlt] at hold
  rw [getAt_of_represents hf' hlt]
  by_cases hidx : i = index x y z
  · subst hidx
    rw [Function.update_self, if_pos rfl, (directState_eq_self_iff b).2 hb, ite_self]
  · rw [Function.update_of_ne hidx, if_neg hidx]
    have hlen : seen.length ≤ (see seen b).length := by
      unfold see
      split
      · exact Nat.le_refl _
      · rw [List.length_append]
        exact Nat.le_add_right _ _
    obtain rfl := Option.some.inj hold
    by_cases hseen : seen.length ≤ 2 ^ GLOBAL_BITS
    · rw [if_pos hseen] at hfits ⊢
      rw [(directState_eq_self_iff _).2 hfits, ite_self]
    · rw [if_neg hseen, if_neg fun h => hseen (hlen.trans h)]

/-- Two places of one section have the same index when they are the same. -/
theorem index_height_eq_iff {x z x' z' : Fin 16} {y y' : Height}
    (hsection : sectionIndex (BitVec.ofInt 32 y') = sectionIndex (BitVec.ofInt 32 y)) :
    index x' ((BitVec.ofInt 32 y').toInt % 16).toNat z' =
      index x ((BitVec.ofInt 32 y).toInt % 16).toNat z ↔ x' = x ∧ y' = y ∧ z' = z := by
  constructor
  · intro h
    have hcells := Cell.idx_inj (c := ⟨x', ⟨((BitVec.ofInt 32 y').toInt % 16).toNat, by omega⟩, z'⟩)
      (d := ⟨x, ⟨((BitVec.ofInt 32 y).toInt % 16).toNat, by omega⟩, z⟩) h
    injection hcells with hx hlow hz
    exact ⟨hx, height_eq hsection (Fin.mk.inj hlow), hz⟩
  · rintro ⟨rfl, rfl, rfl⟩
    rfl

/-! ## What the blocks of a chunk depend on -/

/-- Lighting changes nothing but the light of each section. -/
theorem map_initChunkLighting {α : Type} (s : Sections) (i : Fin SECTIONS_PER_CHUNK) (g : Section → α)
    (hg : ∀ sec sky block, g { sec with skyLight := sky, blockLight := block } = g sec) :
    (initChunkLighting s i).map g = (s i).map g := by
  unfold initChunkLighting propagateBlockLight
  rw [flood_frame blockLightGrid (fun s => (s i).map g)
    fun s p light => map_withSection s _ i _ g fun sec => hg sec sec.skyLight _]
  rw [frame_computeSkyLight (fun s => (s i).map g)
    fun s p light => map_withSection s _ i _ g fun sec => hg sec _ sec.blockLight]
  exact map_clearLight s i g fun sec => hg sec _ _

theorem SectionsOk.initChunkLighting {s : Sections} (h : SectionsOk s) :
    SectionsOk (Apoptotic.initChunkLighting s) := by
  intro i sec hsec
  have hparts := map_initChunkLighting s i (fun sec => (sec.blocks, sec.biomes)) fun _ _ _ => rfl
  rw [hsec] at hparts
  obtain ⟨old, hold, heq⟩ := Option.map_eq_some_iff.1 hparts.symm
  have hok := h i old hold
  have hblocks : old.blocks = sec.blocks := congrArg Prod.fst heq
  have hbiomes : old.biomes = sec.biomes := congrArg Prod.snd heq
  exact ⟨hblocks ▸ hok.blocks, hbiomes ▸ hok.biomes⟩

/-- The blocks are read from the containers of the sections. -/
theorem Chunk.getBlock_congr {c c' : Chunk}
    (h : ∀ i, (c'.sections i).map Section.blocks = (c.sections i).map Section.blocks) (x : Nat)
    (y : BitVec 32) (z : Nat) : c'.getBlock x y z = c.getBlock x y z := by
  have hread : ∀ (c : Chunk) (hy : sectionIndex y < SECTIONS_PER_CHUNK), c.getBlock x y z =
      (((c.sections ⟨sectionIndex y, hy⟩).map Section.blocks).map fun b =>
        b.get x (y.toInt % 16).toNat z).getD (some BlockState.AIR) := by
    intro c hy
    unfold Chunk.getBlock
    rw [dif_pos hy]
    cases c.sections ⟨sectionIndex y, hy⟩ with
    | none => rfl
    | some sec => rfl
  by_cases hy : sectionIndex y < SECTIONS_PER_CHUNK
  · rw [hread c hy, hread c' hy, h]
  · unfold Chunk.getBlock
    rw [dif_neg hy, dif_neg hy]

namespace Terrain

/-! ## Blocks -/

theorem fits_state (id : BlockId) : id.state.Fits := by
  have hid := id.isLt
  refine ⟨rfl, ?_⟩
  show (BitVec.ofNat 32 id).toNat < 2 ^ GLOBAL_BITS
  rw [BitVec.toNat_ofNat, Nat.mod_eq_of_lt (by omega)]
  exact hid

theorem state_inj {a b : BlockId} : a.state = b.state ↔ a = b := by
  refine ⟨fun h => ?_, congrArg _⟩
  have hid := congrArg (fun s => s.id.toNat) h
  have ha := a.isLt
  have hb := b.isLt
  have hstate : ∀ id : BlockId, id.state.id.toNat = id % 2 ^ 32 := fun id => BitVec.toNat_ofNat ..
  rw [hstate, hstate, Nat.mod_eq_of_lt (by omega), Nat.mod_eq_of_lt (by omega)] at hid
  exact Fin.ext hid

/-! ## Grids -/

abbrev BlockGrid := Fin 16 → Height → Fin 16 → BlockId

def BlockGrid.air : BlockGrid := fun _ _ _ => Blocks.AIR

/-- The write is at this place. -/
abbrev Write.At (w : Write) (x : Fin 16) (y : Height) (z : Fin 16) : Prop :=
  (x : Int) = w.x ∧ (y : Int) = w.y ∧ (z : Int) = w.z

/-- A write is at one place only. -/
theorem Write.At.unique {w : Write} {x x' z z' : Fin 16} {y y' : Height} (h : w.At x y z)
    (h' : w.At x' y' z') : x = x' ∧ y = y' ∧ z = z' := by
  obtain ⟨hx, hy, hz⟩ := h
  obtain ⟨hx', hy', hz'⟩ := h'
  exact ⟨Fin.ext (by omega), Subtype.ext (hy.trans hy'.symm), Fin.ext (by omega)⟩

def BlockGrid.write (f : BlockGrid) (w : Write) : BlockGrid := fun x y z =>
  if w.At x y z then w.id else f x y z

/-- The write is at some place of the world. -/
structure Write.InWorld (w : Write) : Prop where
  x : Inside w.x
  y : -64 ≤ w.y ∧ w.y ≤ 319
  z : Inside w.z

theorem inWorld {x y z : Int} {id : BlockId} (hx : Inside x) (hy : -64 ≤ y ∧ y ≤ 319) (hz : Inside z) :
    (⟨x, y, z, id⟩ : Write).InWorld := ⟨hx, hy, hz⟩

theorem foldl_write (ws : List Write) (f : BlockGrid) (x : Fin 16) (y : Height) (z : Fin 16) :
    ws.foldl BlockGrid.write f x y z = f x y z ∨
      ∃ w ∈ ws, w.At x y z ∧ ws.foldl BlockGrid.write f x y z = w.id := by
  induction ws generalizing f with
  | nil => exact .inl rfl
  | cons w ws ih =>
      rw [List.foldl_cons]
      rcases ih (f.write w) with h | ⟨w', hw', hat, h⟩
      · rw [h]
        unfold BlockGrid.write
        split
        · rename_i hat
          exact .inr ⟨w, List.mem_cons_self .., hat, rfl⟩
        · exact .inl rfl
      · exact .inr ⟨w', List.mem_cons_of_mem _ hw', hat, h⟩

/-- A place that is written holds the block of one of its writes. -/
theorem foldl_write_of_mem {ws : List Write} (f : BlockGrid) {x : Fin 16} {y : Height} {z : Fin 16}
    {w : Write} (hw : w ∈ ws) (hat : w.At x y z) :
    ∃ w' ∈ ws, w'.At x y z ∧ ws.foldl BlockGrid.write f x y z = w'.id := by
  obtain ⟨as, bs, rfl⟩ := List.append_of_mem hw
  rw [List.foldl_append, List.foldl_cons]
  rcases foldl_write bs ((as.foldl BlockGrid.write f).write w) x y z with h | ⟨w', hw', hat', h⟩
  · refine ⟨w, hw, hat, h.trans ?_⟩
    exact if_pos hat
  · exact ⟨w', List.mem_append_right _ (List.mem_cons_of_mem _ hw'), hat', h⟩

/-- The chunk holds the blocks of the grid. -/
structure Shows (c : Chunk) (f : BlockGrid) : Prop where
  sections : SectionsOk c.sections
  block : ∀ (x : Fin 16) (y : Height) (z : Fin 16),
    c.getBlock x (BitVec.ofInt 32 y) z = some (f x y z).state

theorem shows_new (pos : ChunkPos) : Shows (Chunk.new pos) .air where
  sections _ _ h := by cases h
  block x y z := by
    unfold Chunk.getBlock
    rw [dif_pos (sectionIndex_height y)]
    rfl

namespace Shows

variable {c : Chunk} {f : BlockGrid}

theorem setBlock (h : Shows c f) (x z : Fin 16) (y : Height) (id : BlockId) :
    ∃ c', c.setBlock x (BitVec.ofInt 32 y) z id.state = some c' ∧
      Shows c' fun x' y' z' => if x' = x ∧ y' = y ∧ z' = z then id else f x' y' z' := by
  obtain ⟨c', hc'⟩ := Chunk.setBlock_total h.sections (sectionIndex_height y) x z id.state
  refine ⟨c', hc', ?_, fun x' y' z' => ?_⟩
  · obtain ⟨idx, sec, _, hsec, rfl⟩ := Chunk.setBlock_spec hc'
    refine h.sections.put (Section.Ok.setBlock ?_ (index_of_block x z _) hsec) idx
    cases hold : c.sections idx with
    | none => exact Section.ok_new _
    | some old => exact h.sections idx old hold
  · obtain ⟨hy, hset, hothers⟩ := Chunk.setBlock_container hc'
    have hy' := sectionIndex_height y'
    have hold := h.block x' y' z'
    rw [Chunk.getBlock_eq_get _ _ _ hy', PalettedContainer.get] at hold ⊢
    by_cases hidx : sectionIndex (BitVec.ofInt 32 y'.1) = sectionIndex (BitVec.ofInt 32 y.1)
    · have hsame : (⟨_, hy'⟩ : Fin SECTIONS_PER_CHUNK) = ⟨_, hy⟩ := Fin.ext hidx
      rw [hsame] at hold ⊢
      rw [getAt_set (Chunk.sound_container h.sections _) (index_of_block x z _) hset (fits_state id)
        (index_of_block x' z' _) hold (fits_state _)]
      simp only [index_height_eq_iff hidx]
      split <;> rfl
    · rw [hothers _ fun h => hidx (Fin.mk.inj h), hold, if_neg]
      rintro ⟨rfl, rfl, rfl⟩
      exact hidx rfl

/-- **A write inside the world.** -/
theorem run (h : Shows c f) {w : Write} (hw : w.InWorld) :
    ∃ c', Write.run c w = some c' ∧ Shows c' (f.write w) := by
  obtain ⟨⟨hx, hx'⟩, hy, hz, hz'⟩ := hw
  obtain ⟨c', hc', hshows⟩ := h.setBlock ⟨w.x.toNat, by omega⟩ ⟨w.z.toNat, by omega⟩ ⟨w.y, hy⟩ w.id
  have hcast : ∀ v : Int, 0 ≤ v → v < 16 → (v % 2 ^ 64).toNat = v.toNat := by omega
  refine ⟨c', ?_, ?_⟩
  · unfold Write.run
    rw [hcast _ hx hx', hcast _ hz hz']
    exact hc'
  · convert hshows using 4 with x y z
    unfold BlockGrid.write Write.At
    congr 1
    rw [Fin.ext_iff, Fin.ext_iff, Subtype.ext_iff]
    dsimp only
    exact propext ⟨fun h => ⟨by omega, h.2.1, by omega⟩, fun h => ⟨by omega, h.2.1, by omega⟩⟩

/-- **Writes inside the world** do not panic, and change the grid as they say. -/
theorem place {ws : List Write} (h : Shows c f) (hws : ∀ w ∈ ws, w.InWorld) :
    ∃ c', Terrain.place ws c = some c' ∧ Shows c' (ws.foldl BlockGrid.write f) := by
  induction ws generalizing c f with
  | nil => exact ⟨c, rfl, h⟩
  | cons w ws ih =>
      obtain ⟨c₁, hrun, h₁⟩ := h.run (hws w (List.mem_cons_self ..))
      obtain ⟨c₂, hplace, h₂⟩ := ih h₁ fun w hw => hws w (List.mem_cons_of_mem _ hw)
      refine ⟨c₂, ?_, h₂⟩
      unfold Terrain.place
      rw [List.foldlM_cons, hrun]
      exact hplace

/-- The same containers of blocks show the same grid. -/
theorem of_blocks {c' : Chunk} (h : Shows c f) (hok : SectionsOk c'.sections)
    (hsame : ∀ i, (c'.sections i).map Section.blocks = (c.sections i).map Section.blocks) :
    Shows c' f :=
  ⟨hok, fun x y z => (Chunk.getBlock_congr hsame ..).trans (h.block x y z)⟩

theorem readBlock (h : Shows c f) {x y z : Int} (hx : Inside x) (hy : -64 ≤ y ∧ y ≤ 319)
    (hz : Inside z) : Terrain.readBlock c x y z =
      some (f ⟨x.toNat, by omega⟩ ⟨y, hy⟩ ⟨z.toNat, by omega⟩).state := by
  have hcast : ∀ v : Int, 0 ≤ v → v < 16 → (v % 2 ^ 64).toNat = v.toNat := by omega
  unfold Terrain.readBlock
  rw [hcast _ hx.1 hx.2, hcast _ hz.1 hz.2]
  exact h.block ⟨x.toNat, by omega⟩ ⟨y, hy⟩ ⟨z.toNat, by omega⟩

end Shows

end Terrain

end Apoptotic
