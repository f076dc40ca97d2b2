import Apoptotic.World.Chunk
import Apoptotic.World.PalettedCodec

/-!
# The binary form of a chunk

`serialize_chunk_binary` and `deserialize_chunk_binary` of `mc-world/src/chunk_store.rs`.  The
writer puts the chunk's coordinates before the section count; the reader takes the section
count from the first two bytes.  It so reads the count and the first section index out of `x`
and the first length out of `z`.

Principal results: `roundTrips_of_empty` — a chunk without filled sections comes back;
`coincides_of_roundTrips` — a chunk with a filled section comes back only where its coordinates
happen to look like the header the reader expects; `chunk_roundTrip` — both, for every chunk
that `set_block` builds; `roundTrips_coincidence` — such coordinates exist.
-/

namespace Apoptotic

open Bytes Outcome PalettedContainer Slices

/-! ## The writer -/

/-- The bytes of one filled section. -/
def serializeSection (idx : Nat) (sec : Section) : List Byte :=
  let blocksData := sec.blocks.encodeBinary
  let biomesData := sec.biomes.encodeBinary
  toLe 2 idx ++ toLe 4 blocksData.length ++ blocksData ++ toLe 4 biomesData.length ++ biomesData ++
    sec.skyLight.val ++ sec.blockLight.val

/-- The section count and the filled sections. -/
def serializeFilled (chunk : Chunk) : List Byte :=
  toLe 2 chunk.filled.length ++
    chunk.filled.flatMap fun idx =>
      match chunk.sections idx with
      | some sec => serializeSection idx sec
      | none => []

/-- `serialize_chunk_binary`. -/
def serializeChunkBinary (chunk : Chunk) : List Byte :=
  toLe 4 chunk.position.x.toNat ++ toLe 4 chunk.position.z.toNat ++ serializeFilled chunk

/-! ## The reader -/

/-- `let _ = blocks.decode_binary(slice)` on a new container: an error leaves it as it was. -/
def decodeOrNew (slice : List Byte) : Outcome Unit PalettedContainer :=
  match decodeBinary slice with
  | .ok (c, _) => .ok c
  | .err _ => .ok PalettedContainer.new
  | .panic => .panic

/-- A length-prefixed container of the section loop; `err` is the loop's `break`. -/
def readContainer (data : List Byte) (pos : Nat) : Outcome Unit (PalettedContainer × Nat) := do
  require (pos + 4 ≤ data.length) ()
  let len := readLe data pos 4
  let pos := pos + 4
  require (pos + len ≤ data.length) ()
  let c ← decodeOrNew ((data.drop pos).take len)
  pure (c, pos + len)

/-- `copy_from_slice(&data[pos..pos + 2048])`. -/
def readLight (data : List Byte) (pos : Nat) : Outcome Unit Light :=
  if h : pos + 2048 ≤ data.length then
    .ok ⟨(data.drop pos).take 2048, by rw [List.length_take, List.length_drop]; omega⟩
  else .panic

/-- What one iteration of the section loop reads. -/
structure SectionRecord where
  idx : Nat
  blocks : PalettedContainer
  biomes : PalettedContainer
  skyLight : Light
  blockLight : Light

/-- The reads of one iteration of the section loop. -/
def readSection (data : List Byte) (pos : Nat) : Outcome Unit (SectionRecord × Nat) := do
  require (pos + 2 ≤ data.length) ()
  let idx := readLe data pos 2
  let (blocks, pos) ← readContainer data (pos + 2)
  let (biomes, pos) ← readContainer data pos
  require (pos + 4096 ≤ data.length) ()
  let skyLight ← readLight data pos
  let blockLight ← readLight data (pos + 2048)
  pure (⟨idx, blocks, biomes, skyLight, blockLight⟩, pos + 2048 + 2048)

/-- `if idx < chunk.sections.len() { chunk.sections[idx] = Some(..) }`. -/
def putRecord (pos : ChunkPos) (r : SectionRecord) (sections : Sections) : Sections :=
  if h : r.idx < SECTIONS_PER_CHUNK then
    Function.update sections ⟨r.idx, h⟩
      (some ⟨⟨pos, MIN_SECTION_Y + r.idx⟩, r.blocks, r.biomes, r.skyLight, r.blockLight⟩)
  else sections

/-- `for _ in 0..count { .. }`. -/
def readSections (chunkPos : ChunkPos) (data : List Byte) :
    (count pos : Nat) → Sections → Outcome String Sections
  | 0, _, sections => .ok sections
  | count + 1, pos, sections =>
      match readSection data pos with
      | .ok (r, pos) => readSections chunkPos data count pos (putRecord chunkPos r sections)
      | .err () => .ok sections
      | .panic => .panic

/-- `deserialize_chunk_binary`. -/
def deserializeChunkBinary (cx cz : BitVec 32) (data : List Byte) : Outcome String Chunk := do
  let chunk := Chunk.new ⟨cx, cz⟩
  if data.length < 2 then pure chunk
  else
    let count := readLe data 0 2
    let sections ← readSections ⟨cx, cz⟩ data count 2 chunk.sections
    pure { chunk with sections := sections, dirty := false }

/-! ## What a round trip is -/

structure SameSection (s s' : Section) : Prop where
  blocks : ∀ cell : Cell, s'.blocks.getCell cell = s.blocks.getCell cell
  biomes : ∀ cell : Cell, s'.biomes.getCell cell = s.biomes.getCell cell
  skyLight : s'.skyLight = s.skyLight
  blockLight : s'.blockLight = s.blockLight

/-- The same chunk: position, filled sections, and the contents of each. -/
structure SameChunk (c c' : Chunk) : Prop where
  position : c'.position = c.position
  filled : ∀ i, (c'.sections i).isSome = (c.sections i).isSome
  sections : ∀ i s s', c.sections i = some s → c'.sections i = some s' → SameSection s s'

/-- Saving the chunk and loading it back gives the same chunk. -/
def RoundTrips (c : Chunk) : Prop :=
  ∃ c', deserializeChunkBinary c.position.x c.position.z (serializeChunkBinary c) = .ok c' ∧
    SameChunk c c'

/-- No section of the chunk is filled. -/
def Chunk.Empty (c : Chunk) : Prop := ∀ i, c.sections i = none

/-- The coordinates of the chunk look like the header the reader expects: the low half of `x`
counts at least the filled sections, the high half is the index of one of them (or of none, and
then the low half counts one more), and `z` is not longer than the data. -/
structure Chunk.Coincides (c : Chunk) : Prop where
  count : c.filled.length ≤ c.position.x.toNat % 2 ^ 16
  index : ∀ i : Fin SECTIONS_PER_CHUNK, c.position.x.toNat / 2 ^ 16 = i → (c.sections i).isSome
  skipped : SECTIONS_PER_CHUNK ≤ c.position.x.toNat / 2 ^ 16 →
    c.filled.length < c.position.x.toNat % 2 ^ 16
  length : c.position.z.toNat < 2 ^ 23

/-! ## The header as the reader sees it -/

theorem serialize_at (c : Chunk) :
    At (serializeChunkBinary c) 0 (toLe 2 c.position.x.toNat ++
      (toLe 2 (c.position.x.toNat / 2 ^ 16) ++ (toLe 4 c.position.z.toNat ++ serializeFilled c))) := by
  have h4 : toLe 4 c.position.x.toNat =
      toLe 2 c.position.x.toNat ++ toLe 2 (c.position.x.toNat / 2 ^ 16) := toLe_add 2 2 _
  have h : serializeChunkBinary c = toLe 2 c.position.x.toNat ++
      (toLe 2 (c.position.x.toNat / 2 ^ 16) ++
        (toLe 4 c.position.z.toNat ++ serializeFilled c)) := by
    rw [serializeChunkBinary, h4, List.append_assoc, List.append_assoc]
  rw [← h]
  exact At.start _

/-- **The reader takes its section count from the low half of `x`.** -/
theorem deserialize_serialize (c : Chunk) :
    deserializeChunkBinary c.position.x c.position.z (serializeChunkBinary c) =
      (do
        let sections ← readSections c.position (serializeChunkBinary c)
          (c.position.x.toNat % 2 ^ 16) 2 (fun _ => none)
        pure ⟨c.position, sections, false⟩) := by
  have hat := serialize_at c
  have hlen := hat.length_eq
  rw [List.length_append, length_toLe] at hlen
  unfold deserializeChunkBinary
  rw [if_neg (by omega), hat.readLe_mod]
  rfl

/-! ## One iteration of the section loop -/

theorem readContainer_spec {data : List Byte} {pos pos' : Nat} {c : PalettedContainer}
    (h : readContainer data pos = .ok (c, pos')) :
    pos' = pos + 4 + readLe data pos 4 ∧ pos' ≤ data.length := by
  simp only [readContainer, bind_eq_ok, require_eq_ok, exists_const] at h
  obtain ⟨_, hle, c', _, hpure⟩ := h
  cases hpure
  exact ⟨rfl, hle⟩

/-- A section that is read has its index and its first length where the reader looks for them,
and all its light behind them. -/
theorem readSection_spec {data : List Byte} {pos pos' : Nat} {r : SectionRecord}
    (h : readSection data pos = .ok (r, pos')) :
    r.idx = readLe data pos 2 ∧ pos + 6 + readLe data (pos + 2) 4 + 4096 ≤ data.length := by
  simp only [readSection, bind_eq_ok, require_eq_ok, exists_const, Prod.exists] at h
  obtain ⟨_, blocks, p1, h1, biomes, p2, h2, hlight, sky, _, block, _, hpure⟩ := h
  obtain ⟨hp1, _⟩ := readContainer_spec h1
  obtain ⟨hp2, _⟩ := readContainer_spec h2
  cases hpure
  exact ⟨rfl, by omega⟩

theorem decodeOrNew_ne_panic (slice : List Byte) : decodeOrNew slice ≠ .panic := by
  unfold decodeOrNew
  split
  · exact ok_ne_panic _
  · exact ok_ne_panic _
  · rename_i h
    exact absurd h (decodeBinary_ne_panic slice)

theorem readContainer_ne_panic (data : List Byte) (pos : Nat) :
    readContainer data pos ≠ .panic := by
  refine require_bind_ne_panic fun _ => ?_
  refine require_bind_ne_panic fun _ => ?_
  exact bind_ne_panic (decodeOrNew_ne_panic _) fun _ _ => ok_ne_panic _

theorem readLight_of_le {data : List Byte} {pos : Nat} (h : pos + 2048 ≤ data.length) :
    ∃ l, readLight data pos = .ok l := ⟨_, dif_pos h⟩

theorem readSection_ne_panic (data : List Byte) (pos : Nat) : readSection data pos ≠ .panic := by
  refine require_bind_ne_panic fun _ => ?_
  refine bind_ne_panic (readContainer_ne_panic _ _) fun _ _ => ?_
  refine bind_ne_panic (readContainer_ne_panic _ _) fun biomes _ => ?_
  refine require_bind_ne_panic fun hle => ?_
  obtain ⟨sky, hsky⟩ := readLight_of_le (show biomes.2 + 2048 ≤ data.length by omega)
  obtain ⟨block, hblock⟩ := readLight_of_le (show biomes.2 + 2048 + 2048 ≤ data.length by omega)
  rw [hsky, ok_bind, hblock]
  exact ok_ne_panic _

/-! ## The section loop -/

theorem filledSections_putRecord (chunkPos : ChunkPos) (r : SectionRecord) (s : Sections) :
    filledSections s ⊆ filledSections (putRecord chunkPos r s) ∧
      (filledSections (putRecord chunkPos r s)).card ≤ (filledSections s).card + 1 := by
  unfold putRecord
  split
  · rw [filledSections_put]
    exact ⟨Finset.subset_insert _ _, Finset.card_insert_le _ _⟩
  · exact ⟨Finset.Subset.refl _, Nat.le_succ _⟩

/-- **The loop keeps filled sections filled and fills at most one for each count.** -/
theorem readSections_filled {chunkPos : ChunkPos} {data : List Byte} {count pos : Nat}
    {s s' : Sections} (h : readSections chunkPos data count pos s = .ok s') :
    filledSections s ⊆ filledSections s' ∧
      (filledSections s').card ≤ (filledSections s).card + count := by
  induction count generalizing pos s with
  | zero =>
      cases h
      exact ⟨Finset.Subset.refl _, Nat.le_refl _⟩
  | succ count ih =>
      unfold readSections at h
      split at h
      · rename_i r pos' _
        obtain ⟨hsub, hcard⟩ := ih h
        obtain ⟨hsub1, hcard1⟩ := filledSections_putRecord chunkPos r s
        exact ⟨hsub1.trans hsub, by omega⟩
      · cases h
        exact ⟨Finset.Subset.refl _, Nat.le_add_right _ _⟩
      · cases h

/-- Bytes too short for one section end the loop at once. -/
theorem readSections_short {chunkPos : ChunkPos} {data : List Byte} {pos : Nat}
    (h : data.length < 4096) (count : Nat) (s : Sections) :
    readSections chunkPos data count pos s = .ok s := by
  cases count with
  | zero => rfl
  | succ count =>
      unfold readSections
      split
      · rename_i r pos' hr
        have := (readSection_spec hr).2
        omega
      · rfl
      · rename_i hp
        exact absurd hp (readSection_ne_panic data pos)

/-- **A chunk without filled sections comes back, whatever its coordinates.** -/
theorem roundTrips_of_empty {c : Chunk} (h : c.Empty) : RoundTrips c := by
  have hfilled : c.filled = [] := by
    unfold Chunk.Empty at h
    simp [Chunk.filled, h]
  have hlen : (serializeChunkBinary c).length < 4096 := by
    simp [serializeChunkBinary, serializeFilled, hfilled]
  refine ⟨⟨c.position, fun _ => none, false⟩, ?_, rfl, fun i => ?_, fun i s s' hs => ?_⟩
  · rw [deserialize_serialize, readSections_short hlen]
    rfl
  · rw [h i]
  · rw [h i] at hs
    cases hs

/-! ## A chunk with filled sections -/

theorem encodeBinary_length_le {c : PalettedContainer} (h : c.Sound) :
    c.encodeBinary.length ≤ 138760 := by
  obtain ⟨mode⟩ := c
  obtain ⟨seen, f, hf⟩ := h
  have hwords (bits : Nat) (hb : bits ≤ 15) : packedWords BLOCKS_PER_SECTION bits ≤ 960 := by
    unfold packedWords BLOCKS_PER_SECTION
    split <;> omega
  cases mode with
  | single b => simp [encodeBinary]
  | indirect palette data bits =>
      obtain ⟨rfl, _, h2, hle, rfl, g, hg, _⟩ := hf
      have hpal := length_flatMap_le (l := palette) (f := fun b => toLe 4 b.id.toNat) (n := 4)
        fun b _ => by simp
      have hdata := hwords _ (bitsFor_bounds h2 hle).2.1
      rw [← hg.length] at hdata
      unfold GLOBAL_BITS at hle
      simp only [encodeBinary, List.length_append, List.length_singleton, length_toLe,
        length_fastU64ToBytes]
      omega
  | direct data =>
      have hdata := hwords _ (Nat.le_refl 15)
      have hlen := hf.2.length
      unfold GLOBAL_BITS at hlen
      simp only [encodeBinary, List.length_append, List.length_singleton, length_toLe,
        length_fastU64ToBytes]
      omega

theorem serialize_length_lt {c : Chunk} (h : SectionsOk c.sections) :
    (serializeChunkBinary c).length < 2 ^ 23 := by
  have hsec : ∀ idx ∈ c.filled, (match c.sections idx with
      | some sec => serializeSection idx sec
      | none => []).length ≤ 281626 := by
    intro idx _
    cases hs : c.sections idx with
    | none => simp
    | some sec =>
        have h1 := encodeBinary_length_le (h idx sec hs).blocks
        have h2 := encodeBinary_length_le (h idx sec hs).biomes
        simp only [serializeSection, List.length_append, length_toLe, sec.skyLight.property,
          sec.blockLight.property]
        omega
  have hcount : c.filled.length ≤ 24 := by
    have := List.length_filter_le (fun i => (c.sections i).isSome)
      (List.finRange SECTIONS_PER_CHUNK)
    rw [List.length_finRange] at this
    exact this
  have hall := length_flatMap_le hsec
  simp only [serializeChunkBinary, serializeFilled, List.length_append, length_toLe]
  omega

/-- **A chunk with a filled section comes back only where its coordinates look like the header
that the reader expects.** -/
theorem coincides_of_roundTrips {c : Chunk} (hok : SectionsOk c.sections) (hne : ¬ c.Empty)
    (h : RoundTrips c) : c.Coincides := by
  obtain ⟨c', hc', hsame⟩ := h
  rw [deserialize_serialize, bind_eq_ok] at hc'
  obtain ⟨sections, hread, hpure⟩ := hc'
  cases hpure
  have hfilled : filledSections sections = filledSections c.sections := by
    ext i
    rw [mem_filledSections, mem_filledSections, ← hsame.filled i]
  have hcard := card_filledSections c
  have hpos : 0 < c.filled.length := by
    rw [← hcard, Finset.card_pos]
    by_contra hemp
    refine hne fun i => ?_
    by_contra hi
    exact hemp ⟨i, mem_filledSections.2 (Option.isSome_iff_ne_none.2 hi)⟩
  have hnone : filledSections (fun _ => none) = ∅ := by
    ext i
    simp [mem_filledSections]
  cases hcount : c.position.x.toNat % 2 ^ 16 with
  | zero =>
      rw [hcount] at hread
      have := (readSections_filled hread).2
      rw [hfilled, hcard, hnone, Finset.card_empty] at this
      omega
  | succ count =>
      rw [hcount] at hread
      have hall := (readSections_filled hread).2
      rw [hfilled, hcard, hnone, Finset.card_empty] at hall
      unfold readSections at hread
      split at hread
      · rename_i r pos' hr
        obtain ⟨hidx, hlen⟩ := readSection_spec hr
        have h2 := (serialize_at c).skip (length_toLe 2 _)
        have h4 := h2.skip (length_toLe 2 _)
        have hx := c.position.x.isLt
        have hz := c.position.z.isLt
        rw [h2.readLe (by omega)] at hidx
        rw [h4.readLe (by omega)] at hlen
        have hlt := serialize_length_lt hok
        obtain ⟨hsub, hrest⟩ := readSections_filled hread
        refine ⟨by omega, fun i hi => ?_, fun hge => ?_, by omega⟩
        · -- the index read is the one just filled
          have hlt24 : r.idx < SECTIONS_PER_CHUNK := by rw [hidx, hi]; exact i.isLt
          have hmem : i ∈ filledSections (putRecord c.position r fun _ => none) := by
            unfold putRecord
            rw [dif_pos hlt24, filledSections_put, Finset.mem_insert]
            exact Or.inl (Fin.ext (by rw [← hi, ← hidx]))
          have := hsub hmem
          rw [hfilled, mem_filledSections] at this
          exact this
        · -- the first section is skipped, so the others must come from the rest of the count
          have hskip : putRecord c.position r (fun _ => none) = fun _ => none := by
            unfold putRecord
            rw [dif_neg (by omega)]
          rw [hskip, hfilled, hcard, hnone, Finset.card_empty] at hrest
          omega
      · cases hread
        rw [hnone, eq_comm, Finset.eq_empty_iff_forall_notMem] at hfilled
        rw [← hcard, Finset.card_pos] at hpos
        obtain ⟨i, hi⟩ := hpos
        exact absurd hi (hfilled i)
      · cases hread

/-- **Saving and loading a chunk that `set_block` builds**: without filled sections it comes
back; with one, it does not unless its coordinates coincide with a header. -/
theorem chunk_roundTrip (c : ReachableChunk) :
    (c.chunk.Empty → RoundTrips c.chunk) ∧
      (RoundTrips c.chunk → c.chunk.Empty ∨ c.chunk.Coincides) := by
  refine ⟨roundTrips_of_empty, fun h => ?_⟩
  by_cases hemp : c.chunk.Empty
  · exact Or.inl hemp
  · exact Or.inr (coincides_of_roundTrips c.reachable.sectionsOk hemp h)

/-- A chunk with one block set in it, saved and loaded: the section count read is the low half of
`x`, which is zero, and the chunk comes back empty. -/
theorem not_roundTrips_origin :
    ∃ c : ReachableChunk,
      (Chunk.new ⟨0#32, 0#32⟩).setBlock 0 0#32 0 (BlockState.new 1#32) = some c.chunk ∧
        ¬ RoundTrips c.chunk := by
  have hnew := Chunk.Reachable.new ⟨0#32, 0#32⟩
  obtain ⟨c, hset⟩ := Chunk.setBlock_total hnew.sectionsOk
    (show sectionIndex 0#32 < SECTIONS_PER_CHUNK by decide) 0 0 (BlockState.new 1#32)
  have hreach := hnew.setBlock 0 0 0#32 (BlockState.new 1#32) hset
  refine ⟨⟨c, hreach⟩, hset, fun h => ?_⟩
  obtain ⟨idx, sec, _, _, rfl⟩ := Chunk.setBlock_spec hset
  have hcount := (coincides_of_roundTrips hreach.sectionsOk (fun hemp => ?_) h).count
  · rw [← card_filledSections, filledSections_put] at hcount
    have hpos := Finset.card_pos.2 (Finset.insert_nonempty idx (filledSections fun _ => none))
    exact absurd (Nat.lt_of_lt_of_le hpos hcount) (Nat.lt_irrefl 0)
  · have := hemp idx
    simp at this

/-! ## Coordinates that do coincide -/

theorem readContainer_at {data slice rest : List Byte} {pos : Nat} {c : PalettedContainer}
    (h : At data pos (toLe 4 slice.length ++ (slice ++ rest))) (hlen : slice.length < 2 ^ 32)
    (hc : decodeOrNew slice = .ok c) :
    readContainer data pos = .ok (c, pos + 4 + slice.length) := by
  have h4 := h.skip (length_toLe 4 slice.length)
  have hend := h4.skip rfl
  unfold readContainer
  rw [require_pos h4.le, h.readLe (by omega)]
  simp only [ok_bind, require_pos hend.le, h4.take rfl, hc, pure_eq]

theorem readLight_at {data rest : List Byte} {pos : Nat} {l : Light}
    (h : At data pos (l.val ++ rest)) : readLight data pos = .ok l := by
  unfold readLight
  rw [dif_pos (h.skip l.property).le]
  congr 1
  exact Subtype.ext (h.take l.property)

/-- **A section record is read back from where it starts.** -/
theorem readSection_at {data s1 s2 rest : List Byte} {pos idx : Nat} {c1 c2 : PalettedContainer}
    {sky block : Light}
    (h : At data pos (toLe 2 idx ++ (toLe 4 s1.length ++ (s1 ++ (toLe 4 s2.length ++ (s2 ++
      (sky.val ++ (block.val ++ rest))))))))
    (hidx : idx < 2 ^ 16) (hs1 : s1.length < 2 ^ 32) (hs2 : s2.length < 2 ^ 32)
    (hc1 : decodeOrNew s1 = .ok c1) (hc2 : decodeOrNew s2 = .ok c2) :
    ∃ pos', readSection data pos = .ok (⟨idx, c1, c2, sky, block⟩, pos') ∧ At data pos' rest := by
  have hblocks := h.skip (length_toLe 2 idx)
  have hbiomes := (hblocks.skip (length_toLe 4 _)).skip rfl
  have hsky := (hbiomes.skip (length_toLe 4 _)).skip rfl
  have hblock := hsky.skip sky.property
  have hend := hblock.skip block.property
  refine ⟨_, ?_, hend⟩
  unfold readSection
  rw [require_pos hblocks.le, h.readLe (by omega)]
  simp only [ok_bind, readContainer_at hblocks hs1 hc1, readContainer_at hbiomes hs2 hc2,
    require_pos hend.le, readLight_at hsky, readLight_at hblock, pure_eq]

/-- The count, the index and the first length, read as the blocks of section `i`: a palette of
`256 * i` entries that is cut off. -/
theorem decodeOrNew_header {i : Nat} (h0 : 0 < i) (hi : i < 256) :
    decodeOrNew (toLe 2 1 ++ (toLe 2 i ++ (toLe 4 5 ++ [0#8, 0#8, 0#8, 0#8, 0#8]))) =
      .ok PalettedContainer.new := by
  generalize hslice : toLe 2 1 ++ (toLe 2 i ++ (toLe 4 5 ++ [0#8, 0#8, 0#8, 0#8, 0#8])) = slice
  have hlen : slice.length = 13 := by simp [← hslice]
  have hhead : slice[0]? = some 1#8 := by rw [← hslice]; rfl
  have hplen : readLe slice 1 2 = 256 * i := by
    rw [← hslice]
    simp only [readLe, toLe, List.cons_append, List.nil_append, List.drop_succ_cons,
      List.drop_zero, List.take_succ_cons, List.take_zero, ofLe, BitVec.toNat_ofNat]
    omega
  have herr : decodeBinary slice = .err "truncated palette entry" := by
    unfold decodeBinary
    rw [require_pos (by intro e; simp [e] at hlen), hhead]
    simp only [orPanic_some, ok_bind, show ¬ 1#8 = 0#8 by decide, if_neg, not_false_eq_true,
      if_pos, require_pos (show 1 + 2 ≤ slice.length by omega), hplen,
      withCapacity_of_lt (show 8 * (256 * i) < 2 ^ 63 by omega),
      readPaletteBinary_short (show 1 + 2 ≤ slice.length by omega)
        (show slice.length < 1 + 2 + 4 * (256 * i) by omega), err_bind]
  rw [decodeOrNew, herr]

/-- A chunk with the one section `sec` at index `i`, whose coordinates are the header of a chunk
with one section at index `i` and 13 bytes of blocks. -/
def coincidence (i : Fin SECTIONS_PER_CHUNK) (sec : Section) : Chunk where
  position := ⟨BitVec.ofNat 32 (2 ^ 16 * i + 1), 13#32⟩
  sections := Function.update (fun _ => none) i (some sec)
  dirty := true

theorem filled_coincidence (i : Fin SECTIONS_PER_CHUNK) (sec : Section) :
    (coincidence i sec).filled = [i] := by
  have hfilter : (coincidence i sec).filled =
      (List.finRange SECTIONS_PER_CHUNK).filter fun j => j == i := by
    unfold Chunk.filled coincidence
    refine List.filter_congr fun j _ => ?_
    by_cases h : j = i
    · subst h
      simp
    · simp [h]
  rw [hfilter, List.filter_beq,
    List.count_eq_one_of_mem (List.nodup_finRange _) (List.mem_finRange i)]
  rfl

/-- **A coincidence**: a section of air at index `i > 0`, at these coordinates, comes back. -/
theorem roundTrips_coincidence (i : Fin SECTIONS_PER_CHUNK) (hi : 0 < i.val) (sec : Section)
    (hblocks : sec.blocks = PalettedContainer.new) (hbiomes : sec.biomes = PalettedContainer.new) :
    RoundTrips (coincidence i sec) := by
  have hi24 : i.val < 24 := i.isLt
  have hx : (coincidence i sec).position.x.toNat = 2 ^ 16 * i + 1 := by
    show (BitVec.ofNat 32 (2 ^ 16 * i + 1)).toNat = _
    rw [BitVec.toNat_ofNat, Nat.mod_eq_of_lt (by omega)]
  have hsec : (coincidence i sec).sections i = some sec := by simp [coincidence]
  -- the bytes, split where the reader splits them
  have hat := (serialize_at (coincidence i sec)).skip (length_toLe 2 _)
  have hair : encodeBinary PalettedContainer.new = [0#8, 0#8, 0#8, 0#8, 0#8] := rfl
  rw [hx, serializeFilled, filled_coincidence, List.flatMap_singleton, hsec,
    show (2 ^ 16 * i.val + 1) / 2 ^ 16 = i by omega] at hat
  simp only [serializeSection, hblocks, hbiomes, hair] at hat
  have h2 : At (serializeChunkBinary (coincidence i sec)) 2 (toLe 2 i ++
      (toLe 4 (toLe 2 1 ++ (toLe 2 i ++ (toLe 4 5 ++ [0#8, 0#8, 0#8, 0#8, 0#8]))).length ++
        ((toLe 2 1 ++ (toLe 2 i ++ (toLe 4 5 ++ [0#8, 0#8, 0#8, 0#8, 0#8]))) ++
          (toLe 4 [0#8, 0#8, 0#8, 0#8, 0#8].length ++ ([0#8, 0#8, 0#8, 0#8, 0#8] ++
            (sec.skyLight.val ++ (sec.blockLight.val ++ []))))))) := by
    simpa [coincidence] using hat
  obtain ⟨pos', hread, _⟩ := readSection_at h2 (by omega) (by simp) (by simp)
    (decodeOrNew_header hi (by omega)) (show decodeOrNew _ = .ok PalettedContainer.new from rfl)
  let read : Section := ⟨⟨(coincidence i sec).position, MIN_SECTION_Y + (i.val : Nat)⟩,
    PalettedContainer.new, PalettedContainer.new, sec.skyLight, sec.blockLight⟩
  refine ⟨⟨(coincidence i sec).position, Function.update (fun _ => none) i (some read), false⟩, ?_,
    rfl, fun j => ?_, fun j s s' hs hs' => ?_⟩
  · rw [deserialize_serialize, hx, show (2 ^ 16 * i.val + 1) % 2 ^ 16 = 1 by omega]
    simp only [readSections, hread, putRecord, dif_pos i.isLt, Fin.eta]
    rfl
  · by_cases hj : j = i
    · subst hj
      simp [coincidence]
    · simp [coincidence, hj]
  · dsimp only at hs'
    by_cases hj : j = i
    · subst hj
      rw [hsec] at hs
      rw [Function.update_self] at hs'
      cases hs
      rw [← Option.some.inj hs']
      exact ⟨fun _ => by rw [hblocks], fun _ => by rw [hbiomes], rfl, rfl⟩
    · rw [Function.update_of_ne hj] at hs'
      cases hs'

end Apoptotic
