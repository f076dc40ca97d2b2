import Apoptotic.Lib.Outcome
import Apoptotic.World.Chunk
import Mathlib.Data.Finset.Sort

/-!
# Anvil NBT

`serialize_chunk_nbt` and `parse_chunk_nbt` of `mc-world/src/anvil.rs`.  The writer's struct is
taken as the value that parsing its bytes gives: a struct is a compound, a `Vec<i64>` a list.
The reader looks for the block data in a long array.

Principal results: `parseSection_spec` — what the reader makes of a written section: its one
block if it has one id, air otherwise; `anvil_roundTrip_iff` — a chunk of named blocks comes
back exactly when every filled section has a single id.
-/

namespace Apoptotic

open Bytes PackedBits

/-! ## NBT values -/

/-- `fastnbt::Value`, without its floating-point variants. -/
inductive NbtValue where
  | byte (v : BitVec 8)
  | short (v : BitVec 16)
  | int (v : BitVec 32)
  | long (v : BitVec 64)
  | string (v : String)
  | byteArray (v : List (BitVec 8))
  | intArray (v : List (BitVec 32))
  | longArray (v : List (BitVec 64))
  | list (v : List NbtValue)
  | compound (v : List (String × NbtValue))

inductive AnvilError where
  | io (msg : String)
  | format (msg : String)
  | nbt (msg : String)
  deriving DecidableEq, Repr

/-! ## The block tables -/

/-- `STANDARD_BLOCKS`, the reader's table. -/
def STANDARD_BLOCKS : List (String × Nat) :=
  [("minecraft:air", 0), ("minecraft:stone", 1), ("minecraft:granite", 2),
    ("minecraft:grass_block", 9), ("minecraft:dirt", 10), ("minecraft:coarse_dirt", 11),
    ("minecraft:sand", 12), ("minecraft:gravel", 13), ("minecraft:oak_log", 17),
    ("minecraft:oak_leaves", 18), ("minecraft:bedrock", 33), ("minecraft:water", 34)]

/-- `block_id_to_name`, the writer's table. -/
def blockIdToName : Nat → String
  | 0 => "minecraft:air"
  | 1 => "minecraft:stone"
  | 2 => "minecraft:granite"
  | 9 => "minecraft:grass_block"
  | 10 => "minecraft:dirt"
  | 11 => "minecraft:coarse_dirt"
  | 12 => "minecraft:sand"
  | 13 => "minecraft:gravel"
  | 17 => "minecraft:oak_log"
  | 18 => "minecraft:oak_leaves"
  | 33 => "minecraft:bedrock"
  | 34 => "minecraft:water"
  | 79 => "minecraft:ice"
  | 80 => "minecraft:snow"
  | 81 => "minecraft:snow_block"
  | 82 => "minecraft:clay"
  | _ => "minecraft:stone"

/-- The id has a name in both tables. -/
def SharedId (id : Nat) : Prop := (blockIdToName id, id) ∈ STANDARD_BLOCKS

instance (id : Nat) : Decidable (SharedId id) := inferInstanceAs (Decidable (_ ∈ _))

/-! ## The writer -/

/-- `iter_blocks`. -/
def PalettedContainer.iterBlocks (c : PalettedContainer) : Option (List BlockState) :=
  (List.range BLOCKS_PER_SECTION).mapM fun i => c.get (i &&& 0xF) ((i >>> 8) &&& 0xF) ((i >>> 4) &&& 0xF)

/-- The ids of a `BTreeSet`, in increasing order. -/
def uniqueIds (blocks : List BlockState) : List Nat :=
  (blocks.map fun b => b.id.toNat).toFinset.sort

/-- `max(1, usize::BITS - (len - 1).leading_zeros())`. -/
def paletteBits (len : Nat) : Nat := max 1 (bitsFor len)

/-- The packing of one block: its index is shifted into one word, and what is past the top of the
word is lost. -/
def packIndex (palette : List String) (words : List Word) (entry : BlockState × Nat) :
    Option (List Word) :=
  let idx := (palette.findIdx? (· == blockIdToName entry.1.id.toNat)).getD 0
  let bitOff := entry.2 * paletteBits palette.length
  (words[bitOff / 64]?).map fun w =>
    words.set (bitOff / 64) (w ||| BitVec.ofNat 64 idx <<< (bitOff % 64))

/-- The words of a section: `total_bits.div_ceil(64)` of them. -/
def packedCount (palette : List String) : Nat := (4096 * paletteBits palette.length + 63) / 64

/-- The packing loop. -/
def packIndices (palette : List String) (blocks : List BlockState) : Option (List Word) :=
  blocks.zipIdx.foldlM (packIndex palette) (List.replicate (packedCount palette) 0#64)

/-- `BlockStatesNbt`: an empty `data` is skipped. -/
def blockStatesNbt (palette : List String) (data : List Word) : NbtValue :=
  .compound (("palette", .list (palette.map fun name => .compound [("Name", .string name)])) ::
    if data = [] then [] else [("data", .list (data.map .long))])

/-- `SectionNbt`. -/
def sectionNbt (i : Fin SECTIONS_PER_CHUNK) (sec : Section) (palette : List String)
    (data : List Word) : NbtValue :=
  .compound
    [("Y", .byte (BitVec.ofInt 8 (MIN_SECTION_Y + i))),
      ("block_states", blockStatesNbt palette data),
      ("biomes", .compound [("palette", .list [.string "minecraft:plains"])]),
      ("SkyLight", .list (sec.skyLight.val.map .byte)),
      ("BlockLight", .list (sec.blockLight.val.map .byte))]

/-- Section `i`, as the section loop writes it. -/
def serializeSectionNbt (i : Fin SECTIONS_PER_CHUNK) (sec : Section) : Option NbtValue := do
  let blocks ← sec.blocks.iterBlocks
  let palette := (uniqueIds blocks).map blockIdToName
  let data ← if palette.length > 1 then packIndices palette blocks else some []
  some (sectionNbt i sec palette data)

/-- The section loop. -/
def sectionsNbt (chunk : Chunk) : List (Fin SECTIONS_PER_CHUNK) → Option (List NbtValue)
  | [] => some []
  | i :: is =>
      match chunk.sections i with
      | none => sectionsNbt chunk is
      | some sec => do
          let v ← serializeSectionNbt i sec
          let vs ← sectionsNbt chunk is
          some (v :: vs)

/-- `serialize_chunk_nbt`. -/
def serializeChunkNbt (chunk : Chunk) : Option NbtValue := do
  let sections ← sectionsNbt chunk (List.finRange SECTIONS_PER_CHUNK)
  some (.compound
    [("DataVersion", .int 3700#32),
      ("Level", .compound
        [("xPos", .int chunk.position.x), ("zPos", .int chunk.position.z),
          ("Sections", .list sections), ("isLightOn", .byte 1#8)])])

/-! ## The reader -/

/-- `AnvilReader`: the known names and the next id for an unknown one. -/
structure AnvilReader where
  blockRegistry : List (String × BlockState)
  nextUnknownId : BitVec 32
  deriving DecidableEq

namespace AnvilReader

def new : AnvilReader where
  blockRegistry := STANDARD_BLOCKS.map fun (name, id) => (name, BlockState.new (BitVec.ofNat 32 id))
  nextUnknownId := 10000#32

/-- `resolve_block`: the name up to a `[` is looked up, and registered if it is unknown. -/
def resolveBlock (r : AnvilReader) (name : String) : BlockState × AnvilReader :=
  let base := String.ofList (name.toList.takeWhile (· ≠ '['))
  match r.blockRegistry.lookup base with
  | some b => (b, r)
  | none =>
      let block := BlockState.new r.nextUnknownId
      (block, ⟨(base, block) :: r.blockRegistry, r.nextUnknownId + 1#32⟩)

/-- One palette entry. -/
def resolveEntry (r : AnvilReader) (e : NbtValue) : BlockState × AnvilReader :=
  match e with
  | .compound c =>
      match c.lookup "Name" with
      | some (.string s) => r.resolveBlock s
      | _ => (BlockState.AIR, r)
  | _ => (BlockState.AIR, r)

/-- The palette, in order. -/
def resolvePalette (r : AnvilReader) : List NbtValue → List BlockState × AnvilReader
  | [] => ([], r)
  | e :: es =>
      let (b, r) := r.resolveEntry e
      let (bs, r) := r.resolvePalette es
      (b :: bs, r)

end AnvilReader

/-- The loops over `y`, `z`, `x` that unpack a long array. -/
def unpackBlocks (entries : List BlockState) (data : List Word) (bits : Nat) :
    Option PalettedContainer :=
  (List.range BLOCKS_PER_SECTION).foldlM (fun blocks i =>
    match data[i * bits / 64]? with
    | none => some blocks
    | some raw =>
        let val := (raw >>> (i * bits % 64)) &&& maskBits bits
        match entries[val.toNat]? with
        | some b => blocks.set (i % 16) (i / 256) (i / 16 % 16) b
        | none => some blocks) PalettedContainer.new

/-- `block_states` of a section; `entries.len() - 1` overflows on an empty palette. -/
def parseBlocks (r : AnvilReader) (s : List (String × NbtValue)) :
    Outcome AnvilError (PalettedContainer × AnvilReader) :=
  match s.lookup "block_states" with
  | some (.compound bs) =>
      match bs.lookup "palette" with
      | some (.list pal) =>
          let (entries, r) := r.resolvePalette pal
          if entries.length = 1 then do
            let b ← Outcome.orPanic entries[0]?
            pure (PalettedContainer.filled b, r)
          else
            match bs.lookup "data" with
            | some (.longArray data) => do
                Outcome.demand (entries ≠ [])
                let blocks ← Outcome.orPanic (unpackBlocks entries data (paletteBits entries.length))
                pure (blocks, r)
            | _ => pure (PalettedContainer.new, r)
      | _ => pure (PalettedContainer.new, r)
  | _ => pure (PalettedContainer.new, r)

/-- `section_index_from_section_y`. -/
def sectionIndexFromSectionY (sectionY : Int) : Nat := ((sectionY - MIN_SECTION_Y) % 2 ^ 64).toNat

/-- One element of `Sections`. -/
def parseSection (pos : ChunkPos) (st : Sections × AnvilReader) (sec : NbtValue) :
    Outcome AnvilError (Sections × AnvilReader) :=
  match sec with
  | .compound s =>
      match s.lookup "Y" with
      | some (.byte y) =>
          let idx := sectionIndexFromSectionY y.toInt
          if h : idx < SECTIONS_PER_CHUNK then do
            let (blocks, r) ← parseBlocks st.2 s
            pure (Function.update st.1 ⟨idx, h⟩ (some
              { Section.new ⟨pos, y.toInt⟩ with blocks := blocks }), r)
          else pure st
      | _ => pure st
  | _ => pure st

/-- The level data: the `Level` compound, or the root itself from 1.18 on. -/
def levelCompound (nbt : NbtValue) : Outcome AnvilError (List (String × NbtValue)) :=
  match nbt with
  | .compound c =>
      match c.lookup "Level" with
      | some (.compound l) => .ok l
      | some _ => .err (.nbt "Level is not a compound")
      | none => .ok c
  | _ => .err (.nbt "expected compound")

/-- The loop over `Sections`. -/
def parseSections (r : AnvilReader) (pos : ChunkPos) (level : List (String × NbtValue)) :
    Outcome AnvilError (Sections × AnvilReader) :=
  match level.lookup "Sections" with
  | some (.list sections) => sections.foldlM (parseSection pos) (fun _ => none, r)
  | _ => .ok (fun _ => none, r)

/-- `parse_chunk_nbt`. -/
def parseChunkNbt (r : AnvilReader) (cx cz : BitVec 32) (nbt : NbtValue) :
    Outcome AnvilError (Option Chunk × AnvilReader) := do
  let level ← levelCompound nbt
  let (sections, r) ← parseSections r ⟨cx, cz⟩ level
  pure (some { Chunk.new ⟨cx, cz⟩ with sections := sections, dirty := false }, r)

/-! ## What a round trip is -/

/-- The block id at a cell of section `i`; an unfilled section is air. -/
def Chunk.idAt (c : Chunk) (i : Fin SECTIONS_PER_CHUNK) (cell : Cell) : Option (BitVec 32) :=
  match c.sections i with
  | some sec => (sec.blocks.getCell cell).map fun b => b.id
  | none => some BlockState.AIR.id

/-- Writing the chunk and parsing it gives every block id back. -/
def AnvilRoundTrips (c : Chunk) : Prop :=
  ∃ nbt c' r, serializeChunkNbt c = some nbt ∧
    parseChunkNbt AnvilReader.new c.position.x c.position.z nbt = .ok (some c', r) ∧
    ∀ i cell, c'.idAt i cell = c.idAt i cell

/-- Every block of the chunk has a name in both tables. -/
def SharedNames (c : Chunk) : Prop :=
  ∀ i sec, c.sections i = some sec →
    ∀ cell b, sec.blocks.getCell cell = some b → SharedId b.id.toNat

/-- A reachable chunk of named blocks. -/
structure NamedChunk extends ReachableChunk where
  named : SharedNames chunk

/-- Every filled section holds a single block id. -/
def SingleIds (c : Chunk) : Prop :=
  ∀ i sec, c.sections i = some sec → ∃ id, ∀ cell, (sec.blocks.getCell cell).map (fun b => b.id) = some id

/-! ## The writer on a sound container -/

theorem PalettedContainer.Sound.getCell {c : PalettedContainer} (h : c.Sound) :
    ∃ f : Cell → BlockState, ∀ cell, c.getCell cell = some (f cell) := by
  obtain ⟨seen, f, hf⟩ := h
  exact ⟨_, fun cell => getAt_of_represents hf cell.idx_lt⟩

theorem iterBlocks_spec {c : PalettedContainer} {f : Cell → BlockState}
    (h : ∀ cell, c.getCell cell = some (f cell)) :
    c.iterBlocks = some ((List.range BLOCKS_PER_SECTION).map fun i => f (Cell.ofIdx i)) := by
  refine mapM_of_forall fun i _ => ?_
  rw [← h (Cell.ofIdx i)]
  have hmask (n : Nat) : n &&& 0xF = n % 16 := Nat.and_two_pow_sub_one_eq_mod n 4
  simp only [hmask, Nat.shiftRight_eq_div_pow]
  rfl

/-- The ids of a container, as the writer's palette lists them. -/
def idsOf (f : Cell → BlockState) : List Nat :=
  uniqueIds ((List.range BLOCKS_PER_SECTION).map fun i => f (Cell.ofIdx i))

theorem Cell.ofIdx_idx (cell : Cell) : Cell.ofIdx cell.idx = cell :=
  Cell.idx_inj (Cell.idx_ofIdx cell.idx_lt)

theorem mem_idsOf {f : Cell → BlockState} {id : Nat} :
    id ∈ idsOf f ↔ ∃ cell, (f cell).id.toNat = id := by
  unfold idsOf uniqueIds
  rw [Finset.mem_sort, List.mem_toFinset, List.map_map, List.mem_map]
  constructor
  · rintro ⟨i, _, rfl⟩
    exact ⟨_, rfl⟩
  · rintro ⟨cell, rfl⟩
    refine ⟨cell.idx, List.mem_range.2 cell.idx_lt, ?_⟩
    rw [Function.comp_apply, Cell.ofIdx_idx]

theorem packIndex_total {palette : List String} {words : List Word} (b : BlockState) {i : Nat}
    (hi : i < 4096) (hlen : words.length = packedCount palette) :
    ∃ words', packIndex palette words (b, i) = some words' ∧
      words'.length = packedCount palette := by
  have hmul : (i + 1) * paletteBits palette.length ≤ 4096 * paletteBits palette.length :=
    Nat.mul_le_mul_right _ hi
  have hpos : 1 ≤ paletteBits palette.length := Nat.le_max_left _ _
  rw [Nat.succ_mul] at hmul
  have hw : i * paletteBits palette.length / 64 < words.length := by
    rw [hlen, packedCount]
    omega
  unfold packIndex
  dsimp only
  rw [List.getElem?_eq_getElem hw]
  exact ⟨_, rfl, by rw [List.length_set, hlen]⟩

theorem packIndices_total (palette : List String) {blocks : List BlockState}
    (h : blocks.length ≤ 4096) : ∃ data, packIndices palette blocks = some data := by
  obtain ⟨data, hd, _⟩ := foldlM_total
    (P := fun words : List Word => words.length = packedCount palette)
    (f := packIndex palette) (l := blocks.zipIdx)
    (fun words entry hmem hlen =>
      packIndex_total entry.1 (Nat.lt_of_lt_of_le (List.snd_lt_of_mem_zipIdx hmem) (by omega)) hlen)
    List.length_replicate
  exact ⟨data, hd⟩

theorem serializeSectionNbt_spec (i : Fin SECTIONS_PER_CHUNK) {sec : Section}
    {blocks : List BlockState} (h : sec.blocks.iterBlocks = some blocks)
    (hlen : blocks.length ≤ 4096) :
    ∃ data, serializeSectionNbt i sec =
      some (sectionNbt i sec ((uniqueIds blocks).map blockIdToName) data) := by
  unfold serializeSectionNbt
  obtain ⟨data, hdata⟩ := packIndices_total ((uniqueIds blocks).map blockIdToName) hlen
  by_cases hmany : ((uniqueIds blocks).map blockIdToName).length > 1
  · refine ⟨data, ?_⟩
    simp only [h, Option.bind_eq_bind, Option.bind_some, if_pos hmany, hdata]
  · refine ⟨[], ?_⟩
    simp only [h, Option.bind_eq_bind, Option.bind_some, if_neg hmany]

/-! ## The reader on a written section -/

theorem resolveBlock_standard : ∀ p ∈ STANDARD_BLOCKS, AnvilReader.new.resolveBlock p.1 =
    (BlockState.new (BitVec.ofNat 32 p.2), AnvilReader.new) := by
  decide +kernel

theorem resolveEntry_name (r : AnvilReader) (name : String) :
    r.resolveEntry (.compound [("Name", .string name)]) = r.resolveBlock name := by
  simp [AnvilReader.resolveEntry]

theorem resolvePalette_shared {ids : List Nat} (h : ∀ id ∈ ids, SharedId id) :
    AnvilReader.new.resolvePalette
        ((ids.map blockIdToName).map fun name => .compound [("Name", .string name)]) =
      (ids.map fun id => BlockState.new (BitVec.ofNat 32 id), AnvilReader.new) := by
  induction ids with
  | nil => rfl
  | cons id ids ih =>
      have hid := resolveBlock_standard _ (h id List.mem_cons_self)
      simp only [List.map_cons, AnvilReader.resolvePalette, resolveEntry_name, hid,
        ih fun j hj => h j (List.mem_cons_of_mem id hj)]

/-- What the reader makes of a section whose blocks have the ids `ids`: one block if there is one
id; with more, the data is a list and not the long array the reader looks for, and the section
stays air. -/
def rereadBlocks (ids : List Nat) : PalettedContainer :=
  match ids with
  | [id] => PalettedContainer.filled (BlockState.new (BitVec.ofNat 32 id))
  | _ => PalettedContainer.new

theorem rereadBlocks_of_length {ids : List Nat} (h : ¬ ids.length = 1) :
    rereadBlocks ids = PalettedContainer.new := by
  unfold rereadBlocks
  split
  · exact absurd rfl h
  · rfl

theorem lookup_data_blockStates (palette : List String) (data : List Word) :
    ∃ bs, blockStatesNbt palette data = .compound bs ∧
      bs.lookup "palette" =
        some (.list (palette.map fun name => .compound [("Name", .string name)])) ∧
      ∀ words, bs.lookup "data" ≠ some (.longArray words) := by
  unfold blockStatesNbt
  refine ⟨_, rfl, rfl, fun words => ?_⟩
  split
  · exact nofun
  · exact nofun

theorem parseBlocks_written {ids : List Nat} (h : ∀ id ∈ ids, SharedId id)
    (i : Fin SECTIONS_PER_CHUNK) (sec : Section) (data : List Word) :
    ∃ s, sectionNbt i sec (ids.map blockIdToName) data = .compound s ∧
      s.lookup "Y" = some (.byte (BitVec.ofInt 8 (MIN_SECTION_Y + i))) ∧
      parseBlocks AnvilReader.new s = .ok (rereadBlocks ids, AnvilReader.new) := by
  obtain ⟨bs, hbs, hpal, hdata⟩ := lookup_data_blockStates (ids.map blockIdToName) data
  unfold sectionNbt
  refine ⟨_, rfl, rfl, ?_⟩
  have hlookup : List.lookup "block_states"
      [("Y", NbtValue.byte (BitVec.ofInt 8 (MIN_SECTION_Y + i))),
        ("block_states", blockStatesNbt (ids.map blockIdToName) data),
        ("biomes", .compound [("palette", .list [.string "minecraft:plains"])]),
        ("SkyLight", .list (sec.skyLight.val.map .byte)),
        ("BlockLight", .list (sec.blockLight.val.map .byte))] = some (.compound bs) := by
    rw [← hbs]
    rfl
  unfold parseBlocks
  simp only [hlookup, hpal, resolvePalette_shared h, List.length_map]
  by_cases hlen : ids.length = 1
  · obtain ⟨id, rfl⟩ := List.length_eq_one_iff.1 hlen
    rfl
  · -- the data is not a long array, so no arm unpacks it
    rw [if_neg hlen, rereadBlocks_of_length hlen]
    rfl

/-- The `Y` byte of a section gives its index back. -/
theorem toInt_sectionY : ∀ i : Fin SECTIONS_PER_CHUNK,
    (BitVec.ofInt 8 (MIN_SECTION_Y + i)).toInt = MIN_SECTION_Y + i := by
  decide

theorem sectionIndex_sectionY : ∀ i : Fin SECTIONS_PER_CHUNK,
    sectionIndexFromSectionY (MIN_SECTION_Y + i) = i := by
  decide

theorem parseSection_written {ids : List Nat} (h : ∀ id ∈ ids, SharedId id)
    (i : Fin SECTIONS_PER_CHUNK) (sec : Section) (data : List Word) (pos : ChunkPos)
    (s : Sections) :
    parseSection pos (s, AnvilReader.new) (sectionNbt i sec (ids.map blockIdToName) data) =
      .ok (Function.update s i
        (some { Section.new ⟨pos, MIN_SECTION_Y + i⟩ with blocks := rereadBlocks ids }),
        AnvilReader.new) := by
  obtain ⟨fields, hnbt, hy, hblocks⟩ := parseBlocks_written h i sec data
  unfold parseSection
  simp only [hnbt, hy, toInt_sectionY, sectionIndex_sectionY, dif_pos i.isLt, Fin.eta, hblocks,
    Outcome.ok_bind, Outcome.pure_eq]

/-! ## The section loop -/

/-- The section that the reader makes of `sec`, written at index `i`. -/
def reread (pos : ChunkPos) (i : Fin SECTIONS_PER_CHUNK) (sec : Section) : Section :=
  { Section.new ⟨pos, MIN_SECTION_Y + i⟩ with
    blocks := rereadBlocks (uniqueIds (sec.blocks.iterBlocks.getD [])) }

/-- The section can be written, and its ids are in both tables. -/
structure Section.Written (sec : Section) : Prop where
  blocks : ∃ blocks, sec.blocks.iterBlocks = some blocks ∧ blocks.length ≤ 4096
  shared : ∀ id ∈ uniqueIds (sec.blocks.iterBlocks.getD []), SharedId id

/-- **The section loop of the writer, read back by the section loop of the reader.** -/
theorem sections_reread {c : Chunk} (h : ∀ i sec, c.sections i = some sec → sec.Written)
    (is : List (Fin SECTIONS_PER_CHUNK)) :
    ∃ vs, sectionsNbt c is = some vs ∧ ∀ s, ∃ s',
      vs.foldlM (parseSection c.position) (s, AnvilReader.new) = .ok (s', AnvilReader.new) ∧
        ∀ j, s' j = if j ∈ is ∧ (c.sections j).isSome then (c.sections j).map (reread c.position j)
          else s j := by
  induction is with
  | nil => exact ⟨[], rfl, fun s => ⟨s, rfl, fun j => by simp⟩⟩
  | cons i is ih =>
      obtain ⟨vs, hvs, hread⟩ := ih
      cases hi : c.sections i with
      | none =>
          refine ⟨vs, by rw [sectionsNbt, hi]; exact hvs, fun s => ?_⟩
          obtain ⟨s', hs', hj⟩ := hread s
          refine ⟨s', hs', fun j => ?_⟩
          rw [hj j]
          by_cases hij : j = i
          · subst hij
            simp [hi]
          · simp [hij]
      | some sec =>
          obtain ⟨blocks, hblocks, hlen⟩ := (h i sec hi).blocks
          have hshared := (h i sec hi).shared
          obtain ⟨data, hdata⟩ := serializeSectionNbt_spec i hblocks hlen
          rw [hblocks, Option.getD_some] at hshared
          refine ⟨_ :: vs, by rw [sectionsNbt, hi]; simp only [hdata, hvs]; rfl, fun s => ?_⟩
          obtain ⟨s', hs', hj⟩ := hread (Function.update s i (some (reread c.position i sec)))
          refine ⟨s', ?_, fun j => ?_⟩
          · rw [List.foldlM_cons, parseSection_written hshared, Outcome.ok_bind, ← hs', reread,
              hblocks, Option.getD_some]
          · rw [hj j]
            by_cases hij : j = i
            · subst hij
              simp [hi]
            · simp [hij]

/-! ## Whole chunks -/

/-- The ids of a section, as the writer's palette lists them. -/
def Section.ids (sec : Section) : List Nat := uniqueIds (sec.blocks.iterBlocks.getD [])

/-- The one id of a section that the reader made. -/
def rereadId (ids : List Nat) : BitVec 32 :=
  match ids with
  | [id] => BitVec.ofNat 32 id
  | _ => BlockState.AIR.id

theorem getCell_rereadBlocks (ids : List Nat) (cell : Cell) :
    (rereadBlocks ids).getCell cell = some (BlockState.new (rereadId ids)) := by
  unfold rereadBlocks rereadId
  split <;> rfl

theorem written_of_named {c : NamedChunk} {i : Fin SECTIONS_PER_CHUNK} {sec : Section}
    (hi : c.chunk.sections i = some sec) : sec.Written := by
  obtain ⟨f, hf⟩ := (c.reachable.sectionsOk i sec hi).blocks.getCell
  have hblocks := iterBlocks_spec hf
  refine ⟨⟨_, hblocks, by simp [BLOCKS_PER_SECTION]⟩, fun id hid => ?_⟩
  rw [hblocks, Option.getD_some] at hid
  obtain ⟨cell, rfl⟩ := mem_idsOf.1 hid
  exact c.named i sec hi cell (f cell) (hf cell)

/-- **A chunk of named blocks is written and parsed without error, and each filled section comes
back with one id.** -/
theorem parse_serialize (c : NamedChunk) :
    ∃ nbt c', serializeChunkNbt c.chunk = some nbt ∧
      parseChunkNbt AnvilReader.new c.chunk.position.x c.chunk.position.z nbt =
        .ok (some c', AnvilReader.new) ∧
      ∀ i, c'.sections i = (c.chunk.sections i).map (reread c.chunk.position i) := by
  obtain ⟨vs, hvs, hread⟩ := sections_reread (c := c.chunk) (fun i sec hi => written_of_named hi)
    (List.finRange SECTIONS_PER_CHUNK)
  obtain ⟨s, hs, hj⟩ := hread fun _ => none
  refine ⟨_, ⟨c.chunk.position, s, false⟩, by rw [serializeChunkNbt, hvs]; rfl, ?_, fun i => ?_⟩
  · have hsections : parseSections AnvilReader.new c.chunk.position
        [("xPos", .int c.chunk.position.x), ("zPos", .int c.chunk.position.z),
          ("Sections", .list vs), ("isLightOn", .byte 1#8)] = .ok (s, AnvilReader.new) := hs
    rw [parseChunkNbt, show levelCompound _ = .ok _ from rfl, Outcome.ok_bind, hsections]
    rfl
  · refine (hj i).trans ?_
    cases c.chunk.sections i with
    | none => simp
    | some sec => simp

theorem anvilRoundTrips_iff_reread (c : NamedChunk) :
    AnvilRoundTrips c.chunk ↔ ∀ i sec, c.chunk.sections i = some sec →
      ∀ cell, (sec.blocks.getCell cell).map (fun b => b.id) = some (rereadId sec.ids) := by
  obtain ⟨nbt, c', hnbt, hparse, hsec⟩ := parse_serialize c
  have hid : ∀ i sec, c.chunk.sections i = some sec → ∀ cell,
      c'.idAt i cell = some (rereadId sec.ids) ∧
      c.chunk.idAt i cell = (sec.blocks.getCell cell).map fun b => b.id := by
    intro i sec hi cell
    unfold Chunk.idAt
    rw [hsec i, hi]
    exact ⟨congrArg (Option.map _) (getCell_rereadBlocks sec.ids cell), rfl⟩
  constructor
  · rintro ⟨nbt2, c2, r2, hnbt2, hparse2, hsame⟩ i sec hi cell
    rw [hnbt] at hnbt2
    cases hnbt2
    rw [hparse] at hparse2
    cases hparse2
    rw [← (hid i sec hi cell).2, ← hsame, (hid i sec hi cell).1]
  · intro h
    refine ⟨nbt, c', _, hnbt, hparse, fun i cell => ?_⟩
    cases hi : c.chunk.sections i with
    | none =>
        unfold Chunk.idAt
        rw [hsec i, hi]
        rfl
    | some sec => rw [(hid i sec hi cell).1, (hid i sec hi cell).2, h i sec hi cell]

/-- The palette of a section with a single id has one entry. -/
theorem ids_of_single {sec : Section} {f : Cell → BlockState} {id : BitVec 32}
    (hf : ∀ cell, sec.blocks.getCell cell = some (f cell)) (hid : ∀ cell, (f cell).id = id) :
    sec.ids = [id.toNat] := by
  have hmem : ∀ n, n ∈ idsOf f ↔ n = id.toNat := by
    intro n
    rw [mem_idsOf]
    constructor
    · rintro ⟨cell, rfl⟩
      rw [hid cell]
    · rintro rfl
      exact ⟨⟨0, 0, 0⟩, by rw [hid]⟩
  have hset : (((List.range BLOCKS_PER_SECTION).map fun i => f (Cell.ofIdx i)).map
      fun b => b.id.toNat).toFinset = {id.toNat} := by
    ext n
    rw [Finset.mem_singleton, ← hmem n, idsOf, uniqueIds, Finset.mem_sort]
  rw [Section.ids, iterBlocks_spec hf, Option.getD_some, uniqueIds, hset, Finset.sort_singleton]

/-- **A chunk of named blocks comes back from its NBT exactly when every filled section holds a
single block id.** -/
theorem anvil_roundTrip_iff (c : NamedChunk) : AnvilRoundTrips c.chunk ↔ SingleIds c.chunk := by
  rw [anvilRoundTrips_iff_reread]
  constructor
  · exact fun h i sec hi => ⟨_, h i sec hi⟩
  · intro h i sec hi cell
    obtain ⟨id, hid⟩ := h i sec hi
    obtain ⟨f, hf⟩ := (c.reachable.sectionsOk i sec hi).blocks.getCell
    have hids : sec.ids = [id.toNat] := ids_of_single hf fun cell => by
      have := hid cell
      rw [hf cell] at this
      exact Option.some.inj this
    rw [hid cell, hids]
    simp [rereadId]

/-! ## A chunk that comes back as air -/

/-- A new section after one block is set in it. -/
theorem getCell_of_new {pos : SectionPos} {x y z : Nat} {block : BlockState} {sec : Section}
    (hi : index x y z < BLOCKS_PER_SECTION)
    (h : (Section.new pos).setBlock x y z block = some sec) (cell : Cell) :
    sec.blocks.getCell cell = some (if cell.idx = index x y z then block else BlockState.AIR) := by
  obtain ⟨blocks, hblocks, rfl⟩ := Option.map_eq_some_iff.1 h
  obtain ⟨c', hc', hf⟩ := set_represents (represents_filled BlockState.AIR) hi block
  cases hc'.symm.trans hblocks
  have hlen : (see [BlockState.AIR] block).length ≤ 2 ^ GLOBAL_BITS := by
    unfold see
    split <;> simp [GLOBAL_BITS]
  have hget := getAt_of_represents hf cell.idx_lt
  rw [if_pos hlen] at hget
  refine hget.trans ?_
  rw [Function.update_apply]

/-- A stone block in a section of air: both ids are in the tables, and the chunk comes back as
air. -/
theorem not_anvilRoundTrips_stone :
    ∃ c : NamedChunk,
      (Chunk.new ⟨0#32, 0#32⟩).setBlock 0 0#32 0 (BlockState.new 1#32) = some c.chunk ∧
        ¬ AnvilRoundTrips c.chunk := by
  have hnew := Chunk.Reachable.new ⟨0#32, 0#32⟩
  obtain ⟨c, hset⟩ := Chunk.setBlock_total hnew.sectionsOk
    (show sectionIndex 0#32 < SECTIONS_PER_CHUNK by decide) 0 0 (BlockState.new 1#32)
  have hreach := hnew.setBlock 0 0 0#32 (BlockState.new 1#32) hset
  obtain ⟨idx, sec, _, hsec, rfl⟩ := Chunk.setBlock_spec hset
  have hget := getCell_of_new (index_of_block 0 0 0#32) hsec
  have hnamed : SharedNames (ReachableChunk.mk _ hreach).chunk := by
    intro i sec' hi cell b hb
    dsimp only at hi
    by_cases hidx : i = idx
    · subst hidx
      rw [Function.update_self] at hi
      cases hi
      rw [hget cell] at hb
      cases hb
      split <;> decide
    · rw [Function.update_of_ne hidx] at hi
      cases hi
  refine ⟨⟨⟨_, hreach⟩, hnamed⟩, hset, fun h => ?_⟩
  have hread := (anvilRoundTrips_iff_reread ⟨⟨_, hreach⟩, hnamed⟩).1 h idx sec (by simp)
  -- two cells of the section would have the same id
  have h0 := hread ⟨0, 0, 0⟩
  have h1 := hread ⟨1, 0, 0⟩
  rw [hget] at h0 h1
  exact absurd (h0.trans h1.symm) (by decide)

end Apoptotic
