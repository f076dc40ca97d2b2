import Apoptotic.World.AnvilNbt
import Apoptotic.World.ChunkBinary

/-!
# Chunk files

`WorldSaver::save_chunk` and `load_chunk` of `mc-persistence/src/world_save.rs`: the position, the
number of filled sections, and for each its height and its two containers in the network format.  The
light is not written, and the network format has no properties.

Principal results: `loadChunk_saveChunk` — the chunk that is read back;
`saver_roundTrips_iff` — the chunks that come back as they were.
-/

namespace Apoptotic.WorldSaver

open Bytes Outcome PackedBits PalettedContainer Slices

/-! ## The writer -/

/-- `idx as i32 + MIN_SECTION_Y` -/
def sectionY (idx : Fin SECTIONS_PER_CHUNK) : BitVec 32 := BitVec.ofInt 32 (MIN_SECTION_Y + idx)

def saveSection (idx : Fin SECTIONS_PER_CHUNK) (sec : Section) : List Byte :=
  let blocks := sec.blocks.encodeNetwork
  let biomes := sec.biomes.encodeNetwork
  toBe 4 (sectionY idx).toNat ++ (toBe 4 blocks.length ++ (blocks ++
    (toBe 4 biomes.length ++ biomes)))

/-- `for (idx, section) in &non_empty { .. }` -/
def saveSections (chunk : Chunk) (nonEmpty : List (Fin SECTIONS_PER_CHUNK)) : List Byte :=
  nonEmpty.flatMap fun idx =>
    match chunk.sections idx with
    | some sec => saveSection idx sec
    | none => []

/-- The bytes that `save_chunk` writes to the file. -/
def saveChunk (chunk : Chunk) : List Byte :=
  toBe 4 chunk.position.x.toNat ++ (toBe 4 chunk.position.z.toNat ++
    (toBe 4 chunk.filled.length ++ saveSections chunk chunk.filled))

/-! ## The reader -/

/-- `decode_network` into a container, with a warning for an error. -/
def decodeInto (c : PalettedContainer) (data : List Byte) : Outcome String PalettedContainer :=
  match decodeNetwork data with
  | .ok c' => .ok c'
  | .err _ => .ok c
  | .panic => .panic

/-- `get_or_create_section`, and what is decoded into it. -/
def decodeSection (pos : ChunkPos) (y : BitVec 32) (blockData biomeData : List Byte)
    (s : Sections) : Outcome String Sections :=
  if h : sectionIndexFromSectionY y.toInt < SECTIONS_PER_CHUNK then do
    let idx : Fin SECTIONS_PER_CHUNK := ⟨sectionIndexFromSectionY y.toInt, h⟩
    let sec := (s idx).getD (Section.new ⟨pos, y.toInt⟩)
    let blocks ← decodeInto sec.blocks blockData
    let biomes ← decodeInto sec.biomes biomeData
    pure (Function.update s idx (some { sec with blocks := blocks, biomes := biomes }))
  else .panic

/-- One iteration of the section loop, past its check. -/
def loadSection (pos : ChunkPos) (data : List Byte) (offset : Nat) (s : Sections) :
    Outcome String (Sections × Nat) := do
  let y := BitVec.ofNat 32 (readBe data offset 4)
  let blockLen := readBe data (offset + 4) 4
  let blockData ← slice data (offset + 8) (offset + 8 + blockLen)
  let offset := offset + 8 + blockLen
  let biomeLen ← slice data offset (offset + 4)
  let biomeLen := ofBe biomeLen
  let biomeData ← slice data (offset + 4) (offset + 4 + biomeLen)
  let s ← decodeSection pos y blockData biomeData s
  pure (s, offset + 4 + biomeLen)

/-- `for _ in 0..section_count { .. }` -/
def loadSections (pos : ChunkPos) (data : List Byte) :
    (count offset : Nat) → Sections → Outcome String Sections
  | 0, _, s => .ok s
  | count + 1, offset, s =>
      if data.length < offset + 8 then .ok s
      else do
        let (s, offset) ← loadSection pos data offset s
        loadSections pos data count offset s

def positionMismatch (chunkX chunkZ cx cz : BitVec 32) : String :=
  "chunk position mismatch: expected (" ++ toString chunkX.toInt ++ "," ++ toString chunkZ.toInt ++
    "), got (" ++ toString cx.toInt ++ "," ++ toString cz.toInt ++ ")"

/-- `load_chunk` once the file is read. -/
def loadBytes (chunkX chunkZ : BitVec 32) (data : List Byte) : Outcome String (Option Chunk) := do
  require (12 ≤ data.length) "chunk file too short"
  let cx := BitVec.ofNat 32 (readBe data 0 4)
  let cz := BitVec.ofNat 32 (readBe data 4 4)
  require (cx = chunkX ∧ cz = chunkZ) (positionMismatch chunkX chunkZ cx cz)
  let sectionCount := readBe data 8 4
  let chunk := Chunk.new ⟨chunkX, chunkZ⟩
  let sections ← loadSections ⟨chunkX, chunkZ⟩ data sectionCount 12 chunk.sections
  pure (some { chunk with sections := sections, dirty := false })

/-- `load_chunk`, on the bytes of the file if there is one. -/
def loadChunk (chunkX chunkZ : BitVec 32) (file : Option (List Byte)) :
    Outcome String (Option Chunk) :=
  match file with
  | none => .ok none
  | some data => loadBytes chunkX chunkZ data

/-- **The saved chunk loads as it was.** -/
def RoundTrips (c : Chunk) : Prop :=
  ∃ c', loadChunk c.position.x c.position.z (some (saveChunk c)) = .ok (some c') ∧ SameChunk c c'

/-- No cell of the container has properties. -/
def Plain (c : PalettedContainer) : Prop := ∀ (cell : Cell) b, c.getCell cell = some b → b.props = 0

/-- What the file says of a section is all there is: no block has properties, and the light is that of a
    new section. -/
structure Kept (s : Section) : Prop where
  plain : Plain s.blocks
  skyLight : s.skyLight = Light.filled 0xFF#8
  blockLight : s.blockLight = Light.filled 0x00#8

/-! ## Lengths -/

theorem length_wordsNetwork_le (words : List Word) :
    (wordsNetwork words).length ≤ words.length * 8 :=
  length_flatMap_le fun _ _ => Nat.le_of_eq (length_toBe ..)

theorem encodeNetwork_length_lt {c : PalettedContainer} (h : c.Sound) :
    c.encodeNetwork.length < 256 ^ 4 := by
  obtain ⟨mode⟩ := c
  obtain ⟨seen, f, hf⟩ := h
  have henc := encodable_of_represents hf
  have hwords {words : List Word} {bits : Nat} (hlen : words.length = packedWords BLOCKS_PER_SECTION bits)
      (hb : bits ≤ 15) : words.length ≤ 960 := by
    rw [hlen]
    unfold packedWords BLOCKS_PER_SECTION
    split <;> omega
  cases mode with
  | single b =>
      have h1 := length_writeVarint_le 1#32
      have h2 := length_writeVarint_le b.id
      have h3 := length_writeVarint_le 0#32
      simp only [encodeNetwork, List.length_append, List.length_singleton]
      omega
  | indirect palette data bits =>
      obtain ⟨rfl, _, h2, hle, rfl, g, hg, _⟩ := hf
      have h1 := length_writeVarint_le (BitVec.ofNat 32 palette.length)
      have h3 := length_writeVarint_le (BitVec.ofNat 32 data.length)
      have hpal := length_flatMap_le (l := palette) (f := fun b => writeVarint b.id) (n := 5)
        fun b _ => length_writeVarint_le b.id
      have hdata := hwords hg.length (bitsFor_bounds h2 hle).2.1
      have hbytes := length_wordsNetwork_le data
      unfold GLOBAL_BITS at hle
      unfold wordsNetwork at hbytes
      simp only [encodeNetwork, List.length_append, List.length_singleton]
      omega
  | direct data =>
      have h1 := length_writeVarint_le 0#32
      have h3 := length_writeVarint_le (BitVec.ofNat 32 data.length)
      have hdata := hwords hf.2.length (Nat.le_refl 15)
      have hbytes := length_wordsNetwork_le data
      unfold wordsNetwork at hbytes
      simp only [encodeNetwork, List.length_append, List.length_singleton]
      omega

/-! ## What is read back -/

/-- What is read back of a section. -/
def reloaded (pos : ChunkPos) (idx : Fin SECTIONS_PER_CHUNK) (sec : Section) : Section :=
  { Section.new ⟨pos, MIN_SECTION_Y + idx⟩ with
    blocks := sec.blocks.stripped, biomes := sec.biomes.stripped }

section

variable {data rest : List Byte} {offset : Nat} {sec : Section}

theorem toInt_sectionY : ∀ idx : Fin SECTIONS_PER_CHUNK, (sectionY idx).toInt = MIN_SECTION_Y + idx := by
  decide

theorem encodable_of_sound {c : PalettedContainer} (h : c.Sound) : Encodable c.mode := by
  obtain ⟨seen, f, hf⟩ := h
  exact encodable_of_represents hf

theorem decodeInto_encodeNetwork {c : PalettedContainer} (h : c.Sound) (c0 : PalettedContainer) :
    decodeInto c0 c.encodeNetwork = .ok c.stripped := by
  unfold decodeInto
  rw [decodeNetwork_encodeNetwork (encodable_of_sound h)]

/-- Reading a section where none was. -/
theorem decodeSection_at (hok : sec.Ok) (pos : ChunkPos) {idx : Fin SECTIONS_PER_CHUNK} {s : Sections}
    (hs : s idx = none) :
    decodeSection pos (sectionY idx) sec.blocks.encodeNetwork sec.biomes.encodeNetwork s =
      .ok (Function.update s idx (some (reloaded pos idx sec))) := by
  have hidx : sectionIndexFromSectionY (sectionY idx).toInt = idx := by
    rw [toInt_sectionY]
    exact sectionIndex_sectionY idx
  have hlt : sectionIndexFromSectionY (sectionY idx).toInt < SECTIONS_PER_CHUNK := hidx ▸ idx.isLt
  have hfin : (⟨sectionIndexFromSectionY (sectionY idx).toInt, hlt⟩ : Fin SECTIONS_PER_CHUNK) = idx :=
    Fin.ext hidx
  unfold decodeSection
  rw [dif_pos hlt]
  dsimp only
  rw [hfin, hs, Option.getD_none, decodeInto_encodeNetwork hok.blocks, ok_bind,
    decodeInto_encodeNetwork hok.biomes, toInt_sectionY]
  rfl

theorem loadSection_at (hok : sec.Ok) (pos : ChunkPos) {idx : Fin SECTIONS_PER_CHUNK} {s : Sections}
    (hs : s idx = none) (h : At data offset (saveSection idx sec ++ rest)) :
    loadSection pos data offset s =
      .ok (Function.update s idx (some (reloaded pos idx sec)),
        offset + (saveSection idx sec).length) := by
  unfold saveSection at h
  simp only [List.append_assoc] at h
  have hlen := h.skip (length_toBe ..)
  have hblocks := hlen.skip (length_toBe ..)
  have hbiomesLen := hblocks.skip rfl
  have hbiomes := hbiomesLen.skip (length_toBe ..)
  have hend := hbiomes.skip rfl
  have hblockLen := hlen.readBe (encodeNetwork_length_lt hok.blocks)
  have hblockData : (slice data (offset + 8) (offset + 8 + sec.blocks.encodeNetwork.length) :
      Outcome String _) = .ok sec.blocks.encodeNetwork := slice_at hblocks rfl
  have hlenData : (slice data (offset + 8 + sec.blocks.encodeNetwork.length)
      (offset + 8 + sec.blocks.encodeNetwork.length + 4) : Outcome String _) =
        .ok (toBe 4 sec.biomes.encodeNetwork.length) := slice_at hbiomesLen (length_toBe ..)
  have hbiomeData : (slice data (offset + 8 + sec.blocks.encodeNetwork.length + 4)
      (offset + 8 + sec.blocks.encodeNetwork.length + 4 + sec.biomes.encodeNetwork.length) :
        Outcome String _) = .ok sec.biomes.encodeNetwork := slice_at hbiomes rfl
  unfold loadSection
  rw [h.readBe (sectionY idx).isLt, hblockLen]
  dsimp only
  rw [hblockData, ok_bind, hlenData, ok_bind, ofBe_toBe (encodeNetwork_length_lt hok.biomes),
    hbiomeData, ok_bind, BitVec.ofNat_toNat, BitVec.setWidth_eq, decodeSection_at hok pos hs, ok_bind]
  rw [pure_eq, Outcome.ok.injEq, Prod.mk.injEq]
  refine ⟨rfl, ?_⟩
  unfold saveSection
  simp only [List.length_append, length_toBe]
  omega

/-- The sections `l` of `c`, read back into `s`. -/
def reloadInto (c : Chunk) : List (Fin SECTIONS_PER_CHUNK) → Sections → Sections
  | [], s => s
  | idx :: l, s =>
      reloadInto c l (Function.update s idx ((c.sections idx).map (reloaded c.position idx)))

theorem loadSections_at {c : Chunk} (hok : SectionsOk c.sections)
    {l : List (Fin SECTIONS_PER_CHUNK)} (hnd : l.Nodup) (hfilled : ∀ idx ∈ l, (c.sections idx).isSome)
    {s : Sections} (hs : ∀ idx ∈ l, s idx = none) (h : At data offset (saveSections c l)) :
    loadSections c.position data l.length offset s = .ok (reloadInto c l s) := by
  induction l generalizing offset s with
  | nil => rfl
  | cons idx l ih =>
      obtain ⟨sec, hsec⟩ := Option.isSome_iff_exists.1 (hfilled idx List.mem_cons_self)
      have hbytes : saveSections c (idx :: l) = saveSection idx sec ++ saveSections c l := by
        unfold saveSections
        rw [List.flatMap_cons, hsec]
      rw [hbytes] at h
      have hroom : ¬ data.length < offset + 8 := by
        have hlen := h.length_eq
        unfold saveSection at hlen
        simp only [List.length_append, length_toBe] at hlen
        omega
      rw [List.length_cons, loadSections, if_neg hroom,
        loadSection_at (hok idx sec hsec) c.position (hs idx List.mem_cons_self) h, ok_bind]
      dsimp only
      rw [reloadInto, hsec]
      refine ih (List.nodup_cons.1 hnd).2 (fun i hi => hfilled i (List.mem_cons_of_mem _ hi)) ?_
        (h.skip rfl)
      intro i hi
      have hne : i ≠ idx := fun e => (List.nodup_cons.1 hnd).1 (e ▸ hi)
      rw [Function.update_of_ne hne]
      exact hs i (List.mem_cons_of_mem _ hi)

theorem reloadInto_apply (c : Chunk) (l : List (Fin SECTIONS_PER_CHUNK)) (s : Sections)
    (i : Fin SECTIONS_PER_CHUNK) :
    reloadInto c l s i =
      if i ∈ l then (c.sections i).map (reloaded c.position i) else s i := by
  induction l generalizing s with
  | nil => rfl
  | cons idx l ih =>
      rw [reloadInto, ih]
      by_cases hl : i ∈ l
      · rw [if_pos hl, if_pos (List.mem_cons_of_mem _ hl)]
      · rw [if_neg hl]
        by_cases hi : i = idx
        · subst hi
          rw [Function.update_self, if_pos List.mem_cons_self]
        · rw [Function.update_of_ne hi, if_neg]
          exact fun hm => (List.mem_cons.1 hm).elim hi hl

/-- **The chunk that is read back: its sections without properties and with the light of new ones.** -/
theorem loadChunk_saveChunk {c : Chunk} (hok : SectionsOk c.sections) :
    loadChunk c.position.x c.position.z (some (saveChunk c)) =
      .ok (some ⟨c.position, fun i => (c.sections i).map (reloaded c.position i), false⟩) := by
  have hat : At (saveChunk c) 0 (toBe 4 c.position.x.toNat ++ (toBe 4 c.position.z.toNat ++
      (toBe 4 c.filled.length ++ saveSections c c.filled))) := At.start _
  have hz : At (saveChunk c) 4 _ := hat.skip (length_toBe ..)
  have hcount : At (saveChunk c) 8 _ := hz.skip (length_toBe ..)
  have hsections : At (saveChunk c) 12 (saveSections c c.filled) := hcount.skip (length_toBe ..)
  have hfew : c.filled.length < 256 ^ 4 := by
    have hle := List.length_filter_le (fun i => (c.sections i).isSome)
      (List.finRange SECTIONS_PER_CHUNK)
    rw [List.length_finRange] at hle
    exact Nat.lt_of_le_of_lt hle (by decide)
  have hfilled : ∀ idx ∈ c.filled, (c.sections idx).isSome :=
    fun idx hidx => (List.mem_filter.1 hidx).2
  have hnd : c.filled.Nodup := (List.nodup_finRange _).filter _
  have hload := loadSections_at hok hnd hfilled
    (fun _ _ => rfl : ∀ idx ∈ c.filled, (fun _ => none : Sections) idx = none) hsections
  have hread : reloadInto c c.filled (fun _ => none) =
      fun i => (c.sections i).map (reloaded c.position i) := by
    funext i
    rw [reloadInto_apply]
    split
    · rfl
    · rename_i hi
      have hnone : c.sections i = none := by
        by_contra hne
        refine hi (List.mem_filter.2 ⟨List.mem_finRange i, ?_⟩)
        exact Option.isSome_iff_ne_none.2 hne
      rw [hnone]
      rfl
  have hx := hat.readBe c.position.x.isLt
  have hzRead := hz.readBe c.position.z.isLt
  change loadBytes c.position.x c.position.z (saveChunk c) = _
  unfold loadBytes
  rw [require_pos hsections.le, ok_bind, hx, hzRead, hcount.readBe hfew]
  dsimp only
  rw [BitVec.ofNat_toNat, BitVec.setWidth_eq, BitVec.ofNat_toNat, BitVec.setWidth_eq,
    require_pos ⟨rfl, rfl⟩, ok_bind]
  change (loadSections c.position (saveChunk c) c.filled.length 12 (fun _ => none) >>= _) = _
  rw [hload, ok_bind]
  exact congrArg (fun s => Outcome.ok (some (Chunk.mk c.position s false))) hread

end

/-! ## Which chunks survive -/

theorem getAt_stripped_eq (c : PalettedContainer) (i : Nat) :
    c.stripped.getAt i = (c.getAt i).map BlockState.stripped := by
  obtain ⟨mode⟩ := c
  cases mode with
  | single b => rfl
  | indirect palette data bits =>
      simp only [getAt, PalettedContainer.stripped, ContainerMode.stripped, List.getElem?_map]
      split
      · rfl
      · rw [Option.map_map]
        congr 1
        funext v
        cases h : palette[v.toNat]? with
        | none => simp [h, BlockState.stripped, BlockState.AIR, BlockState.new]
        | some b => simp [h]
  | direct data =>
      simp only [getAt, PalettedContainer.stripped, ContainerMode.stripped, Option.map_map]
      rfl

theorem stripped_eq_self_iff {b : BlockState} : b.stripped = b ↔ b.props = 0 := by
  constructor
  · intro h
    exact (congrArg BlockState.props h).symm
  · intro h
    exact congrArg (BlockState.mk b.id) h.symm

/-- The cells of a container come back exactly when none has properties. -/
theorem getCell_stripped_iff (c : PalettedContainer) :
    (∀ cell : Cell, c.stripped.getCell cell = c.getCell cell) ↔ Plain c := by
  have hcell : ∀ cell : Cell, c.stripped.getCell cell = (c.getCell cell).map BlockState.stripped :=
    fun cell => getAt_stripped_eq c _
  constructor
  · intro h cell b hb
    have hmap := (hcell cell).symm.trans (h cell)
    rw [hb] at hmap
    exact stripped_eq_self_iff.1 (Option.some.inj hmap)
  · intro h cell
    rw [hcell]
    cases hb : c.getCell cell with
    | none => rfl
    | some b => exact congrArg some (stripped_eq_self_iff.2 (h cell b hb))

/-- `set_block` leaves the biomes as a new section has them. -/
theorem biomes_of_reachable {c : Chunk} (h : c.Reachable) {i : Fin SECTIONS_PER_CHUNK}
    {sec : Section} (hsec : c.sections i = some sec) :
    sec.biomes = PalettedContainer.filled (BlockState.new 0#32) := by
  induction h generalizing sec with
  | new pos => cases hsec
  | @setBlock c c' h x z y block hset ih =>
      obtain ⟨idx, sec', -, hsec', rfl⟩ := Chunk.setBlock_spec hset
      dsimp only at hsec
      by_cases hi : i = idx
      · subst hi
        rw [Function.update_self] at hsec
        obtain rfl := Option.some.inj hsec
        obtain ⟨blocks, -, rfl⟩ := Option.map_eq_some_iff.1 hsec'
        cases hold : c.sections i with
        | none => rfl
        | some old =>
            have hbiomes := ih hold
            exact hbiomes
      · rw [Function.update_of_ne hi] at hsec
        exact ih hsec
  | @setLight c h idx skyLight blockLight ih =>
      unfold Chunk.setLight at hsec
      dsimp only at hsec
      by_cases hi : i = idx
      · subst hi
        rw [Function.update_self] at hsec
        obtain ⟨old, hold, rfl⟩ := Option.map_eq_some_iff.1 hsec
        have hbiomes := ih hold
        exact hbiomes
      · rw [Function.update_of_ne hi] at hsec
        exact ih hsec

theorem sameSection_reloaded_iff {pos : ChunkPos} {i : Fin SECTIONS_PER_CHUNK} {sec : Section}
    (hbiomes : sec.biomes = PalettedContainer.filled (BlockState.new 0#32)) :
    SameSection sec (reloaded pos i sec) ↔ Kept sec := by
  constructor
  · intro h
    exact ⟨(getCell_stripped_iff sec.blocks).1 h.blocks, h.skyLight.symm, h.blockLight.symm⟩
  · intro h
    refine ⟨(getCell_stripped_iff sec.blocks).2 h.plain, fun cell => ?_, h.skyLight.symm,
      h.blockLight.symm⟩
    change sec.biomes.stripped.getCell cell = sec.biomes.getCell cell
    rw [hbiomes]
    rfl

/-- Reading the file of a chunk gives the same chunk exactly when its sections are kept. -/
theorem roundTrips_iff_of_ok {c : Chunk} (hok : SectionsOk c.sections)
    (hbiomes : ∀ i sec, c.sections i = some sec →
      sec.biomes = PalettedContainer.filled (BlockState.new 0#32)) :
    RoundTrips c ↔ ∀ i sec, c.sections i = some sec → Kept sec := by
  have hload := loadChunk_saveChunk hok
  constructor
  · rintro ⟨c', hc', hsame⟩ i sec hsec
    rw [hload] at hc'
    obtain rfl := Option.some.inj (Outcome.ok.inj hc')
    have h := hsame.sections i sec (reloaded c.position i sec) hsec
      (congrArg (Option.map (reloaded c.position i)) hsec)
    exact (sameSection_reloaded_iff (hbiomes i sec hsec)).1 h
  · intro hkept
    refine ⟨_, hload, rfl, fun i => Option.isSome_map .., ?_⟩
    intro i sec sec' hsec hsec'
    dsimp only at hsec'
    rw [hsec] at hsec'
    obtain rfl := Option.some.inj hsec'
    exact (sameSection_reloaded_iff (hbiomes i sec hsec)).2 (hkept i sec hsec)

/-- **The saved chunk loads as it was exactly when no block has properties and the light is that of new
    sections.** -/
theorem saver_roundTrips_iff (c : ReachableChunk) :
    RoundTrips c.chunk ↔ ∀ i sec, c.chunk.sections i = some sec → Kept sec :=
  roundTrips_iff_of_ok c.reachable.sectionsOk fun _ _ hsec => biomes_of_reachable c.reachable hsec

/-- A waterlogged block. -/
def waterlogged : BlockState := BlockState.withProps 1#32 1#16

/-- A block that was set in a new chunk is in it. -/
theorem getCell_setBlock {c : Chunk} (hset : (Chunk.new ⟨0#32, 0#32⟩).setBlock 0 0#32 0 waterlogged =
    some c) : ∃ i sec, c.sections i = some sec ∧ sec.blocks.getCell ⟨0, 0, 0⟩ = some waterlogged := by
  obtain ⟨idx, sec, -, hsec, rfl⟩ := Chunk.setBlock_spec hset
  obtain ⟨blocks, hblocks, rfl⟩ := Option.map_eq_some_iff.1 hsec
  refine ⟨idx, _, Function.update_self .., ?_⟩
  have hi : index 0 0 0 < BLOCKS_PER_SECTION := by decide
  obtain ⟨blocks', hset', hrep⟩ := set_represents (represents_filled BlockState.AIR) hi waterlogged
  obtain rfl : blocks' = blocks := Option.some.inj (hset'.symm.trans hblocks)
  have hget := getAt_of_represents hrep hi
  rw [if_pos (by decide), Function.update_self] at hget
  exact hget

/-- **A waterlogged block loads as a dry one.** -/
theorem not_forall_roundTrips : ¬ ∀ c : ReachableChunk, RoundTrips c.chunk := by
  intro h
  have hnew := Chunk.Reachable.new ⟨0#32, 0#32⟩
  obtain ⟨c, hset⟩ := Chunk.setBlock_total hnew.sectionsOk
    (show sectionIndex 0#32 < SECTIONS_PER_CHUNK by decide) 0 0 waterlogged
  have hreach := hnew.setBlock 0 0 0#32 waterlogged hset
  obtain ⟨i, sec, hsec, hcell⟩ := getCell_setBlock hset
  have hkept := (roundTrips_iff_of_ok hreach.sectionsOk fun _ _ hsec =>
    biomes_of_reachable hreach hsec).1 (h ⟨c, hreach⟩) i sec hsec
  exact absurd (hkept.plain ⟨0, 0, 0⟩ waterlogged hcell) (by decide)

end Apoptotic.WorldSaver
