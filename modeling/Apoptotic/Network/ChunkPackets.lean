import Apoptotic.Lib.SelfDelimiting
import Apoptotic.Network.ChunkCache
import Apoptotic.Persistence.ChunkFile
import Apoptotic.World.Relighting

/-!
# What the chunk packet says

`to_chunk_data` of `mc-world/src/chunk.rs` and `ChunkData::encode_payload` of
`mc-protocol/src/packets/play.rs`.  The sections that are there are written one after another, without
their height, and the light masks, which have it, are not written; of a block the id is written.

Principal results: `encodePayload_eq_iff` — the chunks that have the same packet;
`determines_iff` — those of them that agree everywhere.
-/

namespace Apoptotic.ChunkPackets

open Bytes PalettedContainer
open ChunkCache

/-! ## The packet is self-delimiting -/

theorem selfDelimiting_writeVarint : SelfDelimiting (fun _ => True) writeVarint := by
  intro v w r r' _ _ h
  have hread := (readVarint_writeVarint v r).symm.trans ((congrArg readVarint h).trans
    (readVarint_writeVarint w r'))
  injection hread with hpair
  obtain ⟨rfl, -⟩ := Prod.mk.inj hpair
  exact ⟨rfl, List.append_cancel_left h⟩

theorem selfDelimiting_writeLen : SelfDelimiting (· < 2 ^ 32) writeLen :=
  selfDelimiting_writeVarint.comap (BitVec.ofNat 32) (fun _ _ => trivial) fun n m hn hm h => by
    have hval := congrArg BitVec.toNat h
    rwa [BitVec.toNat_ofNat, BitVec.toNat_ofNat, Nat.mod_eq_of_lt hn, Nat.mod_eq_of_lt hm] at hval

theorem selfDelimiting_toBe (n : Nat) : SelfDelimiting (· < 256 ^ n) (toBe n) :=
  SelfDelimiting.of_length (fun _ _ => length_toBe ..) fun a b ha hb h => by
    rw [← ofBe_toBe ha, h, ofBe_toBe hb]

/-- The lengths in a section fit their prefixes. -/
structure SizedSection (sec : ChunkSectionData) : Prop where
  blocks : sec.blocks.length < 2 ^ 32
  biomes : sec.biomes.length < 2 ^ 32

/-- `sectionBuf` of one section. -/
def encodeSection (sec : ChunkSectionData) : List Byte :=
  toBe 2 sec.blockCount.toNat ++ writeLen sec.blocks.length ++ sec.blocks ++
    writeLen sec.biomes.length ++ sec.biomes

theorem selfDelimiting_encodeSection : SelfDelimiting SizedSection encodeSection := by
  have hseq := (selfDelimiting_toBe 2).seq
    (selfDelimiting_writeLen.prefixed.seq selfDelimiting_writeLen.prefixed)
  have hcomap := hseq.comap
    (fun sec : ChunkSectionData => (sec.blockCount.toNat, sec.blocks, sec.biomes))
    (fun sec (hsec : SizedSection sec) => ⟨sec.blockCount.isLt, hsec.blocks, hsec.biomes⟩)
    fun a b _ _ h => by
      obtain ⟨hcount, hrest⟩ := Prod.mk.inj h
      obtain ⟨hblocks, hbiomes⟩ := Prod.mk.inj hrest
      cases a
      cases b
      cases BitVec.eq_of_toNat_eq hcount
      cases hblocks
      cases hbiomes
      rfl
  intro a b r r' ha hb h
  refine hcomap a b r r' ha hb ?_
  simpa only [encodeSection, List.append_assoc] using h

/-- All lengths in the packet fit their prefixes. -/
structure Sized (d : ChunkData) : Prop where
  sections : d.sections.length < 2 ^ 32
  sized : ∀ sec ∈ d.sections, SizedSection sec
  blockEntities : d.blockEntities.length < 2 ^ 32
  skyLights : d.skyLightArrays.length < 2 ^ 32
  skyLight : ∀ arr ∈ d.skyLightArrays, arr.length < 2 ^ 32
  blockLights : d.blockLightArrays.length < 2 ^ 32
  blockLight : ∀ arr ∈ d.blockLightArrays, arr.length < 2 ^ 32

/-- What the payload has of the packet. -/
structure SamePayload (d d' : ChunkData) : Prop where
  chunkX : d.chunkX = d'.chunkX
  chunkZ : d.chunkZ = d'.chunkZ
  sections : d.sections = d'.sections
  blockEntities : d.blockEntities = d'.blockEntities
  skyLightArrays : d.skyLightArrays = d'.skyLightArrays
  blockLightArrays : d.blockLightArrays = d'.blockLightArrays

theorem selfDelimiting_writeLightArrays776 :
    SelfDelimiting (fun arrays => arrays.length < 2 ^ 32 ∧ ∀ arr ∈ arrays, arr.length < 2 ^ 32)
      writeLightArrays776 :=
  selfDelimiting_writeLen.counted selfDelimiting_writeLen.prefixed

/-- **The payload determines everything of the packet but the masks and the height map.** -/
theorem samePayload_of_eq {d d' : ChunkData} (hd : Sized d) (hd' : Sized d')
    (h : d.encodePayload = d'.encodePayload) : SamePayload d d' := by
  have hsections := selfDelimiting_writeLen.counted selfDelimiting_encodeSection
  unfold ChunkData.encodePayload at h
  simp only [List.append_assoc] at h
  obtain ⟨hx, h⟩ := selfDelimiting_toBe 4 _ _ _ _ d.chunkX.isLt d'.chunkX.isLt h
  obtain ⟨hz, h⟩ := selfDelimiting_toBe 4 _ _ _ _ d.chunkZ.isLt d'.chunkZ.isLt h
  obtain ⟨-, h⟩ := selfDelimiting_writeVarint _ _ _ _ trivial trivial h
  obtain ⟨-, h⟩ := selfDelimiting_writeVarint _ _ _ _ trivial trivial h
  obtain ⟨hsec, h⟩ := hsections _ _ _ _ ⟨hd.sections, hd.sized⟩ ⟨hd'.sections, hd'.sized⟩ h
  have hentities := selfDelimiting_writeLen.prefixed d.blockEntities d'.blockEntities _ _
    hd.blockEntities hd'.blockEntities (by simpa only [List.append_assoc] using h)
  obtain ⟨hsky, h⟩ := selfDelimiting_writeLightArrays776 _ _ _ _ ⟨hd.skyLights, hd.skyLight⟩
    ⟨hd'.skyLights, hd'.skyLight⟩ hentities.2
  rw [← List.append_nil (writeLightArrays776 d.blockLightArrays),
    ← List.append_nil (writeLightArrays776 d'.blockLightArrays)] at h
  obtain ⟨hblock, -⟩ := selfDelimiting_writeLightArrays776 _ _ _ _ ⟨hd.blockLights, hd.blockLight⟩
    ⟨hd'.blockLights, hd'.blockLight⟩ h
  exact ⟨BitVec.eq_of_toNat_eq hx, BitVec.eq_of_toNat_eq hz, hsec, hentities.1, hsky, hblock⟩

theorem encodePayload_congr {d d' : ChunkData} (h : SamePayload d d') :
    d.encodePayload = d'.encodePayload := by
  unfold ChunkData.encodePayload
  rw [h.chunkX, h.chunkZ, h.sections, h.blockEntities, h.skyLightArrays, h.blockLightArrays]

/-! ## Chunks that have the same packet -/

/-- The same ids at the same places, the same biomes and the same light. -/
structure SectionAlike (a b : Section) : Prop where
  blocks : a.blocks.stripped = b.blocks.stripped
  biomes : a.biomes.stripped = b.biomes.stripped
  skyLight : a.skyLight = b.skyLight
  blockLight : a.blockLight = b.blockLight

/-- The sections that are there are alike from the bottom up, wherever they are. -/
def Alike (c d : Chunk) : Prop :=
  List.Forall₂ SectionAlike (present c.sections) (present d.sections)

variable {a b : Section} {c d : Chunk}

theorem encodeNetwork_stripped (c : PalettedContainer) :
    c.stripped.encodeNetwork = c.encodeNetwork := by
  obtain ⟨mode⟩ := c
  cases mode with
  | single block => rfl
  | indirect palette data bits =>
      change _ ++ writeVarint (BitVec.ofNat 32 (palette.map BlockState.stripped).length) ++
        (palette.map BlockState.stripped).flatMap _ ++ _ ++ _ = _
      rw [List.length_map, List.flatMap_map]
      rfl
  | direct data => rfl

/-- A sound container encodes as another exactly when they differ in the properties at most. -/
theorem encodeNetwork_eq_iff {c c' : PalettedContainer} (h : c.Sound) (h' : c'.Sound) :
    c.encodeNetwork = c'.encodeNetwork ↔ c.stripped = c'.stripped := by
  constructor
  · intro heq
    have hread := (decodeNetwork_encodeNetwork (WorldSaver.encodable_of_sound h)).symm.trans
      ((congrArg decodeNetwork heq).trans
        (decodeNetwork_encodeNetwork (WorldSaver.encodable_of_sound h')))
    injection hread
  · intro heq
    rw [← encodeNetwork_stripped c, heq, encodeNetwork_stripped]

theorem id_getBlock_stripped (h : a.blocks.Sound) (cell : Cell) :
    ∃ b, a.blocks.stripped.getCell cell = some b ∧ b.id = (a.getBlock cell).id := by
  obtain ⟨f, hf⟩ := h.getCell
  obtain ⟨b, hb, hid⟩ := getAt_stripped (hf cell)
  refine ⟨b, hb, hid.trans ?_⟩
  unfold Section.getBlock
  rw [show a.blocks.get cell.x cell.y cell.z = _ from hf cell]
  rfl

/-- Sections with the same ids. -/
theorem id_getBlock_congr (ha : a.blocks.Sound) (hb : b.blocks.Sound)
    (h : a.blocks.stripped = b.blocks.stripped) (cell : Cell) :
    (a.getBlock cell).id = (b.getBlock cell).id := by
  obtain ⟨x, hx, hxid⟩ := id_getBlock_stripped ha cell
  obtain ⟨y, hy, hyid⟩ := id_getBlock_stripped hb cell
  rw [h, hy] at hx
  cases hx
  exact hxid.symm.trans hyid

theorem sectionData_eq_iff (ha : a.Ok) (hb : b.Ok) :
    sectionData a = sectionData b ↔
      a.blocks.stripped = b.blocks.stripped ∧ a.biomes.stripped = b.biomes.stripped := by
  rw [← encodeNetwork_eq_iff ha.blocks hb.blocks, ← encodeNetwork_eq_iff ha.biomes hb.biomes]
  constructor
  · intro h
    injection h with _ hblocks hbiomes
    exact ⟨hblocks, hbiomes⟩
  · rintro ⟨hblocks, hbiomes⟩
    have hids := id_getBlock_congr ha.blocks hb.blocks
      ((encodeNetwork_eq_iff ha.blocks hb.blocks).1 hblocks)
    have hcount : countNonAir a = countNonAir b := by
      unfold countNonAir BlockState.isAir
      simp only [hids]
    unfold sectionData
    rw [hcount, hblocks, hbiomes]

theorem sectionAlike_iff (ha : a.Ok) (hb : b.Ok) :
    SectionAlike a b ↔ sectionData a = sectionData b ∧ a.skyLight.val = b.skyLight.val ∧
      a.blockLight.val = b.blockLight.val := by
  rw [sectionData_eq_iff ha hb]
  constructor
  · intro h
    exact ⟨⟨h.blocks, h.biomes⟩, congrArg _ h.skyLight, congrArg _ h.blockLight⟩
  · rintro ⟨⟨hblocks, hbiomes⟩, hsky, hblock⟩
    exact ⟨hblocks, hbiomes, Subtype.ext hsky, Subtype.ext hblock⟩

theorem forall₂_alike_iff {l l' : List Section} (hl : ∀ s ∈ l, s.Ok) (hl' : ∀ s ∈ l', s.Ok) :
    List.Forall₂ SectionAlike l l' ↔ l.map sectionData = l'.map sectionData ∧
      l.map (fun sec => sec.skyLight.val) = l'.map (fun sec => sec.skyLight.val) ∧
        l.map (fun sec => sec.blockLight.val) = l'.map (fun sec => sec.blockLight.val) := by
  induction l generalizing l' with
  | nil =>
      cases l' with
      | nil => exact iff_of_true .nil ⟨rfl, rfl, rfl⟩
      | cons b l' => exact iff_of_false nofun (fun h => nomatch h.1)
  | cons a l ih =>
      cases l' with
      | nil => exact iff_of_false nofun (fun h => nomatch h.1)
      | cons b l' =>
          rw [List.forall₂_cons, sectionAlike_iff (hl a List.mem_cons_self) (hl' b List.mem_cons_self),
            ih (fun s hs => hl s (List.mem_cons_of_mem _ hs))
              fun s hs => hl' s (List.mem_cons_of_mem _ hs)]
          simp only [List.map_cons, List.cons.injEq]
          tauto

theorem mem_present {s : Sections} {sec : Section} (h : sec ∈ present s) : ∃ i, s i = some sec := by
  obtain ⟨i, -, hi⟩ := List.mem_filterMap.1 h
  exact ⟨i, hi⟩

theorem ok_of_mem_present {s : Sections} (hs : SectionsOk s) :
    ∀ sec ∈ present s, sec.Ok := by
  intro sec hsec
  obtain ⟨i, hi⟩ := mem_present hsec
  exact hs i sec hi

theorem length_present_lt (s : Sections) : (present s).length < 2 ^ 32 := by
  have hle := List.length_filterMap_le s (List.finRange SECTIONS_PER_CHUNK)
  rw [List.length_finRange] at hle
  exact Nat.lt_of_le_of_lt hle (by decide)

theorem sized_toChunkData (hc : SectionsOk c.sections) : Sized (toChunkData c) := by
  have hlength := length_present_lt c.sections
  constructor
  · exact (List.length_map _).trans_lt hlength
  · intro data hdata
    obtain ⟨sec, hsec, rfl⟩ := List.mem_map.1 hdata
    have hok := ok_of_mem_present hc sec hsec
    exact ⟨WorldSaver.encodeNetwork_length_lt hok.blocks, WorldSaver.encodeNetwork_length_lt hok.biomes⟩
  · exact Nat.two_pow_pos 32
  · exact (List.length_map _).trans_lt hlength
  · intro arr harr
    obtain ⟨sec, -, rfl⟩ := List.mem_map.1 harr
    rw [sec.skyLight.2]
    decide
  · exact (List.length_map _).trans_lt hlength
  · intro arr harr
    obtain ⟨sec, -, rfl⟩ := List.mem_map.1 harr
    rw [sec.blockLight.2]
    decide

/-- **Two chunks at a position have the same packet exactly when the sections that are there are alike,
wherever they are.** -/
theorem encodePayload_eq_iff (hc : SectionsOk c.sections) (hd : SectionsOk d.sections)
    (hpos : c.position = d.position) :
    (toChunkData c).encodePayload = (toChunkData d).encodePayload ↔ Alike c d := by
  unfold Alike
  rw [forall₂_alike_iff (ok_of_mem_present hc) (ok_of_mem_present hd)]
  constructor
  · intro h
    have hsame := samePayload_of_eq (sized_toChunkData hc) (sized_toChunkData hd) h
    exact ⟨hsame.sections, hsame.skyLightArrays, hsame.blockLightArrays⟩
  · rintro ⟨hsections, hsky, hblock⟩
    refine encodePayload_congr ⟨?_, ?_, hsections, rfl, hsky, hblock⟩
    · exact congrArg ChunkPos.x hpos
    · exact congrArg ChunkPos.z hpos

/-! ## Chunks that agree -/

/-- **The same blocks and the same light everywhere in the world's height.** -/
structure Agree (c d : ReachableChunk) : Prop where
  block : ∀ p : Spot, c.getBlock p.x p.z p.height = d.getBlock p.x p.z p.height
  light : SameLight c.chunk.sections d.chunk.sections

/-- The same sections are there. -/
def SameHeights (c d : Chunk) : Prop := ∀ i, (c.sections i).isSome = (d.sections i).isSome

/-- Blocks in sections that both have have the same properties. -/
def SameProps (c d : Chunk) : Prop := ∀ i a b, c.sections i = some a → d.sections i = some b →
  ∀ cell, (a.getBlock cell).props = (b.getBlock cell).props

theorem getBlock_height (c : ReachableChunk) (p : Spot) :
    c.getBlock p.x p.z p.height = (blockAt c.chunk.sections p).getD BlockState.AIR := by
  have hlt := Apoptotic.sectionIndex_height p.height
  have hindex : (⟨_, hlt⟩ : Fin SECTIONS_PER_CHUNK) = p.section := Fin.ext p.sectionIndex_height
  have hget : c.chunk.getBlock p.x (BitVec.ofInt 32 p.height) p.z =
      some ((blockAt c.chunk.sections p).getD BlockState.AIR) := by
    unfold Chunk.getBlock blockAt
    rw [dif_pos hlt, hindex, p.cell_height]
    cases hsec : c.chunk.sections p.section with
    | none => rfl
    | some sec =>
        obtain ⟨f, hf⟩ := (c.reachable.sectionsOk _ _ hsec).blocks.getCell
        have hcell := hf p.cell
        rw [Option.map_some, Option.getD_some]
        unfold Section.getBlock
        rw [show sec.blocks.get p.cell.x p.cell.y p.cell.z = some (f p.cell) from hcell]
        exact hcell
  unfold ReachableChunk.getBlock
  exact Option.get_of_eq_some _ hget

/-- A spot of a section. -/
def spotOf (i : Fin SECTIONS_PER_CHUNK) (cell : Cell) : Spot :=
  ⟨cell.x, ⟨i * 16 + cell.y, by have := i.isLt; have := cell.y.isLt; unfold SECTIONS_PER_CHUNK at *; omega⟩,
    cell.z⟩

theorem section_spotOf (i : Fin SECTIONS_PER_CHUNK) (cell : Cell) : (spotOf i cell).section = i := by
  apply Fin.ext
  change (i.val * 16 + cell.y.val) / 16 = i.val
  omega

theorem cell_spotOf (i : Fin SECTIONS_PER_CHUNK) (cell : Cell) : (spotOf i cell).cell = cell := by
  have hy : (⟨(i.val * 16 + cell.y.val) % 16, by omega⟩ : Fin 16) = cell.y := Fin.ext (by
    change (i.val * 16 + cell.y.val) % 16 = cell.y.val
    omega)
  change (⟨cell.x, ⟨(i.val * 16 + cell.y.val) % 16, _⟩, cell.z⟩ : Cell) = cell
  rw [hy]

/-- Sections that are there at the same indices are alike index by index. -/
theorem alike_at {s t : Sections} {l : List (Fin SECTIONS_PER_CHUNK)}
    (hsame : ∀ i, (s i).isSome = (t i).isSome)
    (h : List.Forall₂ SectionAlike (l.filterMap s) (l.filterMap t)) {i : Fin SECTIONS_PER_CHUNK}
    (hi : i ∈ l) (ha : s i = some a) (hb : t i = some b) : SectionAlike a b := by
  induction l with
  | nil => cases hi
  | cons j l ih =>
      have hj := hsame j
      cases hs : s j with
      | none =>
          rw [hs] at hj
          have ht := Option.isNone_iff_eq_none.1 (Option.isSome_eq_false_iff.1 hj.symm)
          rw [List.filterMap_cons_none hs, List.filterMap_cons_none ht] at h
          rcases List.mem_cons.1 hi with rfl | hi
          · cases hs.symm.trans ha
          · exact ih h hi
      | some x =>
          rw [hs] at hj
          obtain ⟨y, ht⟩ := Option.isSome_iff_exists.1 hj.symm
          rw [List.filterMap_cons_some hs, List.filterMap_cons_some ht, List.forall₂_cons] at h
          rcases List.mem_cons.1 hi with rfl | hi
          · cases hs.symm.trans ha
            cases ht.symm.trans hb
            exact h.1
          · exact ih h.2 hi

theorem agree_of_alike {c d : ReachableChunk} (h : Alike c.chunk d.chunk)
    (hheights : SameHeights c.chunk d.chunk) (hprops : SameProps c.chunk d.chunk) : Agree c d := by
  have hblock : ∀ p, blockAt c.chunk.sections p = blockAt d.chunk.sections p ∧
      skyAt c.chunk.sections p = skyAt d.chunk.sections p ∧
        blockLightAt c.chunk.sections p = blockLightAt d.chunk.sections p := by
    intro p
    have hp := hheights p.section
    unfold blockAt skyAt blockLightAt
    cases hs : c.chunk.sections p.section with
    | none =>
        rw [hs] at hp
        rw [Option.isNone_iff_eq_none.1 (Option.isSome_eq_false_iff.1 hp.symm)]
        exact ⟨rfl, rfl, rfl⟩
    | some a =>
        rw [hs] at hp
        obtain ⟨b, ht⟩ := Option.isSome_iff_exists.1 hp.symm
        have halike := alike_at hheights h (List.mem_finRange _) hs ht
        have hid := id_getBlock_congr (c.reachable.sectionsOk _ _ hs).blocks
          (d.reachable.sectionsOk _ _ ht).blocks halike.blocks p.cell
        have hprop := hprops _ a b hs ht p.cell
        rw [ht]
        simp only [Option.map_some, Option.some.injEq]
        refine ⟨?_, by rw [halike.skyLight], by rw [halike.blockLight]⟩
        cases hx : a.getBlock p.cell
        cases hy : b.getBlock p.cell
        rw [hx, hy] at hid hprop
        cases hid
        cases hprop
        rfl
  refine ⟨fun p => ?_, fun p => (hblock p).2⟩
  rw [getBlock_height, getBlock_height, (hblock p).1]

theorem sameHeights_of_agree {c d : ReachableChunk} (h : Agree c d) : SameHeights c.chunk d.chunk := by
  intro i
  have hsky := congrArg Option.isSome (h.light (spotOf i ⟨0, 0, 0⟩)).1
  unfold skyAt at hsky
  rwa [Option.isSome_map, Option.isSome_map, section_spotOf] at hsky

theorem sameProps_of_agree {c d : ReachableChunk} (h : Agree c d) : SameProps c.chunk d.chunk := by
  intro i a b ha hb cell
  have hblock := h.block (spotOf i cell)
  rw [getBlock_height, getBlock_height] at hblock
  unfold blockAt at hblock
  rw [section_spotOf, cell_spotOf, ha, hb] at hblock
  exact congrArg BlockState.props hblock

/-- **The packets of two chunks at a position tell whether they agree everywhere, exactly unless the chunks
have the same sections in the same order, but at other heights or with other properties.** -/
theorem determines_iff (c d : ReachableChunk) :
    (c.chunk.position = d.chunk.position →
        (toChunkData c.chunk).encodePayload = (toChunkData d.chunk).encodePayload → Agree c d) ↔
      (c.chunk.position = d.chunk.position → Alike c.chunk d.chunk →
        SameHeights c.chunk d.chunk ∧ SameProps c.chunk d.chunk) := by
  refine forall_congr' fun hpos => ?_
  rw [encodePayload_eq_iff c.reachable.sectionsOk d.reachable.sectionsOk hpos]
  constructor
  · intro h halike
    exact ⟨sameHeights_of_agree (h halike), sameProps_of_agree (h halike)⟩
  · intro h halike
    obtain ⟨hheights, hprops⟩ := h halike
    exact agree_of_alike halike hheights hprops

/-! ## One block, one section higher -/

theorem present_single (i : Fin SECTIONS_PER_CHUNK) (sec : Section) :
    present (Function.update (fun _ => none) i (some sec)) = [sec] := by
  have hunit : ∀ i : Fin SECTIONS_PER_CHUNK, ((List.finRange SECTIONS_PER_CHUNK).filterMap fun j =>
      if j = i then some () else none) = [()] := by decide
  have hmap : Function.update (fun _ => none) i (some sec) =
      fun j => (if j = i then some () else none).map fun _ => sec := by
    funext j
    by_cases h : j = i
    · rw [h, Function.update_self, if_pos rfl, Option.map_some]
    · rw [Function.update_of_ne h, if_neg h, Option.map_none]
  unfold present
  rw [hmap, ← List.map_filterMap, hunit]
  rfl

/-- `Chunk::new` -/
def newChunk (pos : ChunkPos) : ReachableChunk := ⟨Chunk.new pos, .new pos⟩

theorem position_setBlock (c : ReachableChunk) (x z : Fin 16) (y : Height) (block : BlockState) :
    (c.setBlock x z y block).chunk.position = c.chunk.position := by
  obtain ⟨_, _, _, _, hchunk⟩ := Chunk.setBlock_spec (c.chunk_setBlock x z y block)
  rw [hchunk]

/-- The one section of a chunk after its first `set_block`. -/
theorem setBlock_newChunk (pos : ChunkPos) (x z : Fin 16) (y : Height) (block : BlockState) :
    ∃ (i : Fin SECTIONS_PER_CHUNK) (blocks : PalettedContainer),
      i.val = sectionIndex (BitVec.ofInt 32 y) ∧
        PalettedContainer.new.set x (y.1 % 16).toNat z block = some blocks ∧
        ((newChunk pos).setBlock x z y block).chunk.sections = Function.update (fun _ => none) i
          (some { Section.new ⟨pos, MIN_SECTION_Y + i⟩ with blocks := blocks }) := by
  obtain ⟨i, sec, hi, hsec, hchunk⟩ :=
    Chunk.setBlock_spec ((newChunk pos).chunk_setBlock x z y block)
  obtain ⟨blocks, hblocks, rfl⟩ := Option.map_eq_some_iff.1 hsec
  rw [toInt_height] at hblocks
  exact ⟨i, blocks, hi, hblocks, congrArg Chunk.sections hchunk⟩

/-- **A block set in a new chunk gives the same packet in every section.** -/
theorem alike_setBlock (pos : ChunkPos) (x z : Fin 16) (y y' : Height) (block : BlockState)
    (h : y.1 % 16 = y'.1 % 16) :
    Alike ((newChunk pos).setBlock x z y block).chunk ((newChunk pos).setBlock x z y' block).chunk := by
  obtain ⟨i, blocks, -, hblocks, hsections⟩ := setBlock_newChunk pos x z y block
  obtain ⟨i', blocks', -, hblocks', hsections'⟩ := setBlock_newChunk pos x z y' block
  rw [← h] at hblocks'
  cases hblocks.symm.trans hblocks'
  unfold Alike
  rw [hsections, hsections', present_single, present_single]
  exact .cons ⟨rfl, rfl, rfl, rfl⟩ .nil

/-- **Stone on the floor of one section and on that of the next are told the same way.** -/
theorem not_forall_determines :
    ¬ ∀ c d : ReachableChunk, c.chunk.position = d.chunk.position →
      (toChunkData c.chunk).encodePayload = (toChunkData d.chunk).encodePayload → Agree c d := by
  intro h
  obtain ⟨i, blocks, hi, -, hlow⟩ :=
    setBlock_newChunk ⟨0#32, 0#32⟩ 0 0 ⟨0, by decide⟩ (BlockState.new 1#32)
  obtain ⟨i', blocks', hi', -, hhigh⟩ :=
    setBlock_newChunk ⟨0#32, 0#32⟩ 0 0 ⟨16, by decide⟩ (BlockState.new 1#32)
  have hpacket := (encodePayload_eq_iff (ReachableChunk.reachable _).sectionsOk
    (ReachableChunk.reachable _).sectionsOk
    ((position_setBlock _ _ _ _ _).trans (position_setBlock _ _ _ _ _).symm)).2
    (alike_setBlock ⟨0#32, 0#32⟩ 0 0 ⟨0, by decide⟩ ⟨16, by decide⟩ (BlockState.new 1#32) rfl)
  have hagree := h _ _ ((position_setBlock _ _ _ _ _).trans (position_setBlock _ _ _ _ _).symm) hpacket
  have hne : i ≠ i' := by
    intro heq
    rw [heq, hi'] at hi
    exact absurd hi (by decide)
  have hthere := sameHeights_of_agree hagree i
  rw [hlow, hhigh, Function.update_self, Function.update_of_ne hne] at hthere
  cases hthere

end Apoptotic.ChunkPackets
