import Apoptotic.Lib.Bytes
import Apoptotic.World.Paletted
import Mathlib.Data.Fintype.Card

/-!
# Chunks

`Chunk` and `Section` of `mc-world/src/chunk.rs`, with the coordinates of
`mc-core/src/position.rs`: 24 sections, each made on the first block set in it.  `none` is the
panic of a section index or of the container.

Principal results: `Chunk.Reachable.sectionsOk` — the containers of a chunk built by `set_block`
calls represent arrays; `filledSections_put` — which sections a new one fills.
-/

namespace Apoptotic

open Bytes

structure ChunkPos where
  x : BitVec 32
  z : BitVec 32
  deriving DecidableEq, Repr

structure SectionPos where
  chunk : ChunkPos
  y : Int
  deriving DecidableEq, Repr

def SECTIONS_PER_CHUNK : Nat := 24

def MIN_SECTION_Y : Int := -4

/-- Four bits of light a block: 2048 bytes. -/
def Light := { bytes : List Byte // bytes.length = 2048 }

def Light.filled (b : Byte) : Light := ⟨List.replicate 2048 b, List.length_replicate⟩

structure Section where
  position : SectionPos
  blocks : PalettedContainer
  biomes : PalettedContainer
  skyLight : Light
  blockLight : Light

/-- `[Option<Section>; SECTIONS_PER_CHUNK]`. -/
abbrev Sections := Fin SECTIONS_PER_CHUNK → Option Section

structure Chunk where
  position : ChunkPos
  sections : Sections
  dirty : Bool

/-- `section_index`: the cast of a negative index to `usize` wraps. -/
def sectionIndex (y : BitVec 32) : Nat := ((y.toInt / 16 - MIN_SECTION_Y) % 2 ^ 64).toNat

namespace Section

def new (pos : SectionPos) : Section where
  position := pos
  blocks := PalettedContainer.new
  biomes := PalettedContainer.filled (BlockState.new 0#32)
  skyLight := Light.filled 0xFF#8
  blockLight := Light.filled 0x00#8

def setBlock (s : Section) (x y z : Nat) (block : BlockState) : Option Section :=
  (s.blocks.set x y z block).map fun blocks => { s with blocks := blocks }

end Section

namespace Chunk

def new (pos : ChunkPos) : Chunk := ⟨pos, fun _ => none, true⟩

def setBlock (c : Chunk) (x : Nat) (y : BitVec 32) (z : Nat) (block : BlockState) :
    Option Chunk :=
  if h : sectionIndex y < SECTIONS_PER_CHUNK then
    let idx : Fin SECTIONS_PER_CHUNK := ⟨sectionIndex y, h⟩
    let sec := (c.sections idx).getD (Section.new ⟨c.position, MIN_SECTION_Y + idx⟩)
    (sec.setBlock x (y.toInt % 16).toNat z block).map fun sec =>
      { c with sections := Function.update c.sections idx (some sec), dirty := true }
  else none

/-- Writing the light arrays of a filled section. -/
def setLight (c : Chunk) (idx : Fin SECTIONS_PER_CHUNK) (skyLight blockLight : Light) : Chunk :=
  { c with sections := Function.update c.sections idx ((c.sections idx).map fun sec =>
      { sec with skyLight := skyLight, blockLight := blockLight }) }

/-- The indices of the filled sections, in order. -/
def filled (c : Chunk) : List (Fin SECTIONS_PER_CHUNK) :=
  (List.finRange SECTIONS_PER_CHUNK).filter fun i => (c.sections i).isSome

end Chunk

/-! ## Filled sections -/

/-- The filled sections as a set. -/
def filledSections (s : Sections) : Finset (Fin SECTIONS_PER_CHUNK) :=
  Finset.univ.filter fun i => (s i).isSome

theorem mem_filledSections {s : Sections} {i : Fin SECTIONS_PER_CHUNK} :
    i ∈ filledSections s ↔ (s i).isSome := by
  simp [filledSections]

/-- Putting a section fills its index and no other. -/
theorem filledSections_put (s : Sections) (i : Fin SECTIONS_PER_CHUNK) (sec : Section) :
    filledSections (Function.update s i (some sec)) = insert i (filledSections s) := by
  ext j
  rw [Finset.mem_insert, mem_filledSections, mem_filledSections]
  by_cases h : j = i
  · subst h
    simp
  · simp [h]

theorem card_filledSections (c : Chunk) : (filledSections c.sections).card = c.filled.length := by
  have hnd : c.filled.Nodup := (List.nodup_finRange _).filter _
  rw [← List.toFinset_card_of_nodup hnd]
  congr 1
  ext i
  simp [mem_filledSections, Chunk.filled]

/-! ## Chunks that `set_block` reaches -/

/-- The chunks built by `Chunk::new`, `set_block` calls and writes to the light arrays. -/
inductive Chunk.Reachable : Chunk → Prop where
  | new (pos : ChunkPos) : Reachable (Chunk.new pos)
  | setBlock {c c' : Chunk} (h : Reachable c) (x z : Fin 16) (y : BitVec 32) (block : BlockState)
      (hset : c.setBlock x y z block = some c') : Reachable c'
  | setLight {c : Chunk} (h : Reachable c) (idx : Fin SECTIONS_PER_CHUNK)
      (skyLight blockLight : Light) : Reachable (c.setLight idx skyLight blockLight)

/-- A chunk with the calls that built it. -/
structure ReachableChunk where
  chunk : Chunk
  reachable : chunk.Reachable

/-- The container represents an array of block states. -/
def PalettedContainer.Sound (c : PalettedContainer) : Prop := ∃ seen f, Represents seen f c.mode

theorem sound_filled (b : BlockState) : (PalettedContainer.filled b).Sound :=
  ⟨_, _, represents_filled b⟩

structure Section.Ok (s : Section) : Prop where
  blocks : s.blocks.Sound
  biomes : s.biomes.Sound

theorem Section.ok_new (pos : SectionPos) : (Section.new pos).Ok :=
  ⟨sound_filled _, sound_filled _⟩

theorem Section.Ok.setBlock {s s' : Section} (h : s.Ok) {x y z : Nat}
    (hi : index x y z < BLOCKS_PER_SECTION) {block : BlockState}
    (hset : s.setBlock x y z block = some s') : s'.Ok := by
  obtain ⟨blocks, hblocks, rfl⟩ := Option.map_eq_some_iff.1 hset
  obtain ⟨seen, f, hf⟩ := h.blocks
  obtain ⟨c', hc', hf'⟩ := set_represents hf hi block
  rw [hc'] at hblocks
  cases hblocks
  exact ⟨⟨_, _, hf'⟩, h.biomes⟩

/-- What one `set_block` does: it puts the section it made from the old one. -/
theorem Chunk.setBlock_spec {c c' : Chunk} {x : Nat} {y : BitVec 32} {z : Nat} {block : BlockState}
    (h : c.setBlock x y z block = some c') :
    ∃ (idx : Fin SECTIONS_PER_CHUNK) (sec : Section), idx.val = sectionIndex y ∧
      ((c.sections idx).getD (Section.new ⟨c.position, MIN_SECTION_Y + idx⟩)).setBlock
        x (y.toInt % 16).toNat z block = some sec ∧
      c' = { c with sections := Function.update c.sections idx (some sec), dirty := true } := by
  unfold Chunk.setBlock at h
  split at h
  · rename_i hlt
    obtain ⟨sec, hsec, rfl⟩ := Option.map_eq_some_iff.1 h
    exact ⟨⟨sectionIndex y, hlt⟩, sec, rfl, hsec, rfl⟩
  · cases h

/-- The cell coordinates of a `set_block` are inside the section. -/
theorem index_of_block (x z : Fin 16) (y : BitVec 32) :
    index x (y.toInt % 16).toNat z < BLOCKS_PER_SECTION := by
  have hy : (y.toInt % 16).toNat < 16 := by omega
  have := Cell.idx_lt ⟨x, ⟨(y.toInt % 16).toNat, hy⟩, z⟩
  exact this

/-- Every filled section is well formed. -/
def SectionsOk (s : Sections) : Prop := ∀ i sec, s i = some sec → sec.Ok

theorem SectionsOk.put {s : Sections} (h : SectionsOk s) {sec : Section} (hsec : sec.Ok)
    (idx : Fin SECTIONS_PER_CHUNK) : SectionsOk (Function.update s idx (some sec)) := by
  intro i sec' hi
  by_cases hidx : i = idx
  · subst hidx
    rw [Function.update_self] at hi
    cases hi
    exact hsec
  · rw [Function.update_of_ne hidx] at hi
    exact h i sec' hi

/-- `set_block` does not panic at a `y` inside the world. -/
theorem Chunk.setBlock_total {c : Chunk} (h : SectionsOk c.sections) {y : BitVec 32}
    (hy : sectionIndex y < SECTIONS_PER_CHUNK) (x z : Fin 16) (block : BlockState) :
    ∃ c', c.setBlock x y z block = some c' := by
  unfold Chunk.setBlock
  rw [dif_pos hy]
  have hsec : ((c.sections ⟨sectionIndex y, hy⟩).getD
      (Section.new ⟨c.position, MIN_SECTION_Y + sectionIndex y⟩)).Ok := by
    cases hold : c.sections ⟨sectionIndex y, hy⟩ with
    | none => exact Section.ok_new _
    | some old => exact h _ old hold
  obtain ⟨seen, f, hf⟩ := hsec.blocks
  obtain ⟨blocks, hset, _⟩ := set_represents hf (index_of_block x z y) block
  dsimp only
  rw [Section.setBlock, hset]
  exact ⟨_, rfl⟩

/-- **Every section of a reachable chunk has sound containers.** -/
theorem Chunk.Reachable.sectionsOk {c : Chunk} (h : c.Reachable) : SectionsOk c.sections := by
  induction h with
  | new pos => intro i sec hi; cases hi
  | setBlock h x z y block hset ih =>
      obtain ⟨idx, sec, _, hsec, rfl⟩ := Chunk.setBlock_spec hset
      refine ih.put (Section.Ok.setBlock ?_ (index_of_block x z y) hsec) idx
      cases hold : Chunk.sections _ idx with
      | none => exact Section.ok_new _
      | some old => exact ih idx old hold
  | @setLight c h idx skyLight blockLight ih =>
      unfold Chunk.setLight
      cases hold : c.sections idx with
      | none =>
          rw [Option.map_none, ← hold, Function.update_eq_self]
          exact ih
      | some old =>
          have hok := ih idx old hold
          exact ih.put (show Section.Ok { old with skyLight := skyLight, blockLight := blockLight }
            from ⟨hok.blocks, hok.biomes⟩) idx

/-! ## Blocks of the world -/

/-- The heights inside the world. -/
abbrev Height := { y : Int // -64 ≤ y ∧ y ≤ 319 }

theorem toInt_height (y : Height) : (BitVec.ofInt 32 y).toInt = y := by
  have hlo := y.2.1
  have hhi := y.2.2
  rw [BitVec.toInt_ofInt]
  exact Int.bmod_eq_of_le (by omega) (by omega)

theorem sectionIndex_height (y : Height) :
    sectionIndex (BitVec.ofInt 32 y) < SECTIONS_PER_CHUNK := by
  have hy := toInt_height y
  obtain ⟨y, hlo, hhi⟩ := y
  unfold sectionIndex SECTIONS_PER_CHUNK MIN_SECTION_Y
  dsimp only at hy ⊢
  rw [hy]
  omega

/-- A height is its section and its place in the section. -/
theorem height_eq {y y' : Height}
    (hsection : sectionIndex (BitVec.ofInt 32 y) = sectionIndex (BitVec.ofInt 32 y'))
    (hlow : ((BitVec.ofInt 32 y).toInt % 16).toNat = ((BitVec.ofInt 32 y').toInt % 16).toNat) :
    y = y' := by
  rw [toInt_height, toInt_height] at hlow
  unfold sectionIndex MIN_SECTION_Y at hsection
  rw [toInt_height, toInt_height] at hsection
  have hlo := y.2.1
  have hlo' := y'.2.1
  exact Subtype.ext (by omega)

def Chunk.getBlock (c : Chunk) (x : Nat) (y : BitVec 32) (z : Nat) : Option BlockState :=
  if h : sectionIndex y < SECTIONS_PER_CHUNK then
    match c.sections ⟨sectionIndex y, h⟩ with
    | some sec => sec.blocks.get x (y.toInt % 16).toNat z
    | none => some BlockState.AIR
  else some BlockState.AIR

theorem Chunk.getBlock_total {c : Chunk} (h : SectionsOk c.sections) (x z : Fin 16)
    (y : BitVec 32) : (c.getBlock x y z).isSome := by
  unfold Chunk.getBlock
  split
  · split
    · rename_i sec hsec
      obtain ⟨seen, f, hf⟩ := (h _ sec hsec).blocks
      rw [PalettedContainer.get, getAt_of_represents hf (index_of_block x z y)]
      rfl
    · rfl
  · rfl

/-! ## Reading back a block -/

/-- A stored id below `2 ^ GLOBAL_BITS` is read back, in each mode. -/
theorem id_directState {b : BlockState} (h : b.id.toNat < 2 ^ GLOBAL_BITS) :
    (directState b).id = b.id := by
  unfold directState BlockState.new
  rw [Nat.mod_eq_of_lt h, BitVec.ofNat_toNat, BitVec.setWidth_eq]

/-- The id at the index that was set. -/
theorem id_getAt_set_self {c c' : PalettedContainer} (h : c.Sound) {x y z : Nat}
    (hi : index x y z < BLOCKS_PER_SECTION) {b : BlockState} (hset : c.set x y z b = some c')
    (hb : b.id.toNat < 2 ^ GLOBAL_BITS) : (c'.getAt (index x y z)).map BlockState.id = some b.id := by
  obtain ⟨seen, f, hf⟩ := h
  obtain ⟨c'', hc'', hf'⟩ := set_represents hf hi b
  obtain rfl := Option.some.inj (hset.symm.trans hc'')
  rw [getAt_of_represents hf' hi, Function.update_self, Option.map_some]
  split
  · rfl
  · rw [id_directState hb]

/-- The ids at the other indices. -/
theorem id_getAt_set_of_ne {c c' : PalettedContainer} (h : c.Sound) {x y z i : Nat}
    (hi : index x y z < BLOCKS_PER_SECTION) {b old : BlockState} (hset : c.set x y z b = some c')
    (hne : i ≠ index x y z) (hlt : i < BLOCKS_PER_SECTION) (hold : c.getAt i = some old)
    (hsmall : old.id.toNat < 2 ^ GLOBAL_BITS) :
    (c'.getAt i).map BlockState.id = some old.id := by
  obtain ⟨seen, f, hf⟩ := h
  obtain ⟨c'', hc'', hf'⟩ := set_represents hf hi b
  obtain rfl := Option.some.inj (hset.symm.trans hc'')
  rw [getAt_of_represents hf hlt] at hold
  rw [getAt_of_represents hf' hlt, Function.update_of_ne hne, Option.map_some]
  have hlen : seen.length ≤ (see seen b).length := by
    unfold see
    split
    · exact Nat.le_refl _
    · rw [List.length_append]
      exact Nat.le_add_right _ _
  obtain rfl := Option.some.inj hold
  by_cases hseen : seen.length ≤ 2 ^ GLOBAL_BITS
  · rw [if_pos hseen] at hsmall ⊢
    split
    · rfl
    · rw [id_directState hsmall]
  · rw [if_neg hseen, if_neg fun h => hseen (hlen.trans h)]

/-- The container that a block of the section is set in. -/
def Chunk.container (c : Chunk) (idx : Fin SECTIONS_PER_CHUNK) : PalettedContainer :=
  ((c.sections idx).getD (Section.new ⟨c.position, MIN_SECTION_Y + idx⟩)).blocks

theorem Chunk.sound_container {c : Chunk} (h : SectionsOk c.sections)
    (idx : Fin SECTIONS_PER_CHUNK) : (c.container idx).Sound := by
  unfold Chunk.container
  cases hsec : c.sections idx with
  | none => exact (Section.ok_new _).blocks
  | some sec => exact (h idx sec hsec).blocks

theorem Chunk.getBlock_eq_get (c : Chunk) (x z : Nat) {y : BitVec 32}
    (hy : sectionIndex y < SECTIONS_PER_CHUNK) :
    c.getBlock x y z = (c.container ⟨sectionIndex y, hy⟩).get x (y.toInt % 16).toNat z := by
  unfold Chunk.getBlock Chunk.container
  rw [dif_pos hy]
  cases c.sections ⟨sectionIndex y, hy⟩ with
  | none => rfl
  | some sec => rfl

/-- `set_block` sets a block of one container. -/
theorem Chunk.setBlock_container {c c' : Chunk} {x : Nat} {y : BitVec 32} {z : Nat}
    {block : BlockState} (h : c.setBlock x y z block = some c') :
    ∃ hy : sectionIndex y < SECTIONS_PER_CHUNK,
      (c.container ⟨sectionIndex y, hy⟩).set x (y.toInt % 16).toNat z block =
        some (c'.container ⟨sectionIndex y, hy⟩) ∧
      ∀ idx, idx ≠ ⟨sectionIndex y, hy⟩ → c'.container idx = c.container idx := by
  obtain ⟨⟨i, hi⟩, sec, hidx, hsec, rfl⟩ := Chunk.setBlock_spec h
  dsimp only at hidx
  subst hidx
  obtain ⟨blocks, hblocks, rfl⟩ := Option.map_eq_some_iff.1 hsec
  refine ⟨hi, ?_, fun idx hne => ?_⟩
  · unfold Chunk.container
    dsimp only
    rw [Function.update_self]
    exact hblocks
  · unfold Chunk.container
    dsimp only
    rw [Function.update_of_ne hne]

namespace ReachableChunk

/-- `get_block` of a chunk in memory; it does not panic. -/
def getBlock (c : ReachableChunk) (x z : Fin 16) (y : Height) : BlockState :=
  (c.chunk.getBlock x (BitVec.ofInt 32 y) z).get
    (Chunk.getBlock_total c.reachable.sectionsOk x z _)

theorem setBlock_isSome (c : ReachableChunk) (x z : Fin 16) (y : Height) (block : BlockState) :
    (c.chunk.setBlock x (BitVec.ofInt 32 y) z block).isSome := by
  obtain ⟨c', hc'⟩ :=
    Chunk.setBlock_total c.reachable.sectionsOk (sectionIndex_height y) x z block
  rw [hc']
  rfl

/-- `set_block` of a chunk in memory; it does not panic. -/
def setBlock (c : ReachableChunk) (x z : Fin 16) (y : Height) (block : BlockState) :
    ReachableChunk :=
  ⟨_, .setBlock c.reachable x z _ block (Option.some_get (c.setBlock_isSome x z y block)).symm⟩

theorem chunk_getBlock (c : ReachableChunk) (x z : Fin 16) (y : Height) :
    c.chunk.getBlock x (BitVec.ofInt 32 y) z = some (c.getBlock x z y) := (Option.some_get _).symm

theorem chunk_setBlock (c : ReachableChunk) (x z : Fin 16) (y : Height) (block : BlockState) :
    c.chunk.setBlock x (BitVec.ofInt 32 y) z block = some (c.setBlock x z y block).chunk :=
  (Option.some_get (c.setBlock_isSome x z y block)).symm

theorem id_getBlock_setBlock_self (c : ReachableChunk) (x z : Fin 16) (y : Height)
    {block : BlockState} (hb : block.id.toNat < 2 ^ GLOBAL_BITS) :
    ((c.setBlock x z y block).getBlock x z y).id = block.id := by
  obtain ⟨hy, hset, _⟩ := Chunk.setBlock_container (c.chunk_setBlock x z y block)
  have hget := (c.setBlock x z y block).chunk_getBlock x z y
  rw [Chunk.getBlock_eq_get _ _ _ hy, PalettedContainer.get] at hget
  have hid := id_getAt_set_self (Chunk.sound_container c.reachable.sectionsOk _)
    (index_of_block x z _) hset hb
  rw [hget] at hid
  exact Option.some.inj hid

theorem id_getBlock_setBlock_of_ne (c : ReachableChunk) {x z x' z' : Fin 16} {y y' : Height}
    (block : BlockState) (hne : ¬ (x' = x ∧ y' = y ∧ z' = z))
    (hsmall : (c.getBlock x' z' y').id.toNat < 2 ^ GLOBAL_BITS) :
    ((c.setBlock x z y block).getBlock x' z' y').id = (c.getBlock x' z' y').id := by
  obtain ⟨hy, hset, hothers⟩ := Chunk.setBlock_container (c.chunk_setBlock x z y block)
  have hy' := sectionIndex_height y'
  have hget := (c.setBlock x z y block).chunk_getBlock x' z' y'
  have hold := c.chunk_getBlock x' z' y'
  rw [Chunk.getBlock_eq_get _ _ _ hy', PalettedContainer.get] at hget hold
  have hsound := Chunk.sound_container c.reachable.sectionsOk ⟨_, hy'⟩
  by_cases hidx : sectionIndex (BitVec.ofInt 32 y'.1) = sectionIndex (BitVec.ofInt 32 y.1)
  · have hcell : index x' ((BitVec.ofInt 32 y'.1).toInt % 16).toNat z' ≠
        index x ((BitVec.ofInt 32 y.1).toInt % 16).toNat z := by
      intro h
      have hcells := Cell.idx_inj (c := ⟨x', ⟨((BitVec.ofInt 32 y'.1).toInt % 16).toNat, by omega⟩, z'⟩)
        (d := ⟨x, ⟨((BitVec.ofInt 32 y.1).toInt % 16).toNat, by omega⟩, z⟩) h
      injection hcells with hx hlow hz
      exact hne ⟨hx, height_eq hidx (Fin.mk.inj hlow), hz⟩
    have hsame : (⟨_, hy'⟩ : Fin SECTIONS_PER_CHUNK) = ⟨_, hy⟩ := Fin.ext hidx
    rw [hsame] at hget hold hsound
    have hid := id_getAt_set_of_ne hsound (index_of_block x z _) hset hcell (index_of_block x' z' _)
      hold hsmall
    rw [hget] at hid
    exact Option.some.inj hid
  · rw [hothers _ fun h => hidx (Fin.mk.inj h), hold] at hget
    rw [Option.some.inj hget]

end ReachableChunk

end Apoptotic
