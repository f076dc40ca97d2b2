import Apoptotic.Lib.LastWrite
import Apoptotic.World.ChunkBinary
import Apoptotic.World.CorruptContainers

/-!
# Chunk files out of any bytes

`deserialize_chunk_binary` and `load_linear_file` of `mc-world/src/chunk_store.rs` on bytes that nobody
vouches for.  Neither panics, and a section whose record is cut short is left out; but the containers
are taken as `decode_binary` returns them.  `lz4_flex` is a parameter that returns the bytes or refuses.

Principal results: `deserializeChunkBinary_safe_iff`, `loadLinearFile_safe_iff` — the data on which
each reader returns well-formed containers.
-/

namespace Apoptotic

open Bytes Outcome Slices

/-- The containers of a section are well formed. -/
structure Section.WellFormed (s : Section) : Prop where
  blocks : s.blocks.WellFormed
  biomes : s.biomes.WellFormed

/-- The containers of a section, if it is filled, are well formed. -/
def SlotWellFormed (slot : Option Section) : Prop := ∀ s, slot = some s → s.WellFormed

def Chunk.WellFormed (c : Chunk) : Prop := ∀ i, SlotWellFormed (c.sections i)

/-! ## The records of the binary form -/

section

variable (data : List Byte) (pos : Nat)

def blocksLength : Nat := readLe data (pos + 2) 4

def biomesLength : Nat := readLe data (pos + 6 + blocksLength data pos) 4

/-- The bytes of the block container of a record at `pos`. -/
def recordBlocks : List Byte := (data.drop (pos + 6)).take (blocksLength data pos)

/-- The bytes of its biome container. -/
def recordBiomes : List Byte :=
  (data.drop (pos + 6 + blocksLength data pos + 4)).take (biomesLength data pos)

/-- Where a record at `pos` ends: two lengths, two containers and the light. -/
def recordEnd : Nat := pos + 6 + blocksLength data pos + 4 + biomesLength data pos + 4096

/-- Where the records begin that are all there, `count` at most. -/
def recordStarts : (count pos : Nat) → List Nat
  | 0, _ => []
  | count + 1, pos =>
      if recordEnd data pos ≤ data.length then pos :: recordStarts count (recordEnd data pos)
      else []

/-- The section that a record is for. -/
def recordKey : Option (Fin SECTIONS_PER_CHUNK) :=
  if h : readLe data pos 2 < SECTIONS_PER_CHUNK then some ⟨readLe data pos 2, h⟩ else none

end

/-- **The last record of each section holds containers whose words serve their headers.** -/
def ChunkBinaryFits (data : List Byte) : Prop :=
  LastWrite.LastHave (recordKey data)
    (fun pos => BinaryFits (recordBlocks data pos) ∧ BinaryFits (recordBiomes data pos))
    (recordStarts data (readLe data 0 2) 2)

/-! ## Reading a record -/

section

variable {data : List Byte} {pos : Nat}

/-- A container made of `slice`, or left new. -/
theorem decodeOrNew_wellFormed (slice : List Byte) :
    ∃ c, decodeOrNew slice = .ok c ∧ (c.WellFormed ↔ BinaryFits slice) := by
  unfold decodeOrNew
  rcases decodeBinary_agrees slice with ⟨hfits, e, h⟩ | ⟨c, next, h, hiff⟩
  · rw [h]
    exact ⟨_, rfl, fun _ => hfits, fun _ => trivial⟩
  · rw [h]
    exact ⟨c, rfl, hiff⟩

theorem readContainer_whole (h : pos + 4 + readLe data pos 4 ≤ data.length) :
    ∃ c, readContainer data pos = .ok (c, pos + 4 + readLe data pos 4) ∧
      (c.WellFormed ↔ BinaryFits ((data.drop (pos + 4)).take (readLe data pos 4))) := by
  obtain ⟨c, hc, hiff⟩ := decodeOrNew_wellFormed ((data.drop (pos + 4)).take (readLe data pos 4))
  refine ⟨c, ?_, hiff⟩
  unfold readContainer
  rw [require_pos (show pos + 4 ≤ data.length by omega)]
  simp only [ok_bind]
  rw [require_pos h, ok_bind, hc]
  rfl

theorem readContainer_cut (h : data.length < pos + 4 + readLe data pos 4) :
    readContainer data pos = .err () := by
  unfold readContainer
  by_cases h4 : pos + 4 ≤ data.length
  · rw [require_pos h4]
    simp only [ok_bind]
    rw [require_neg (Nat.not_le.2 h)]
    rfl
  · rw [require_neg h4]
    rfl

/-- A record that is all there. -/
theorem readSection_whole (h : recordEnd data pos ≤ data.length) :
    ∃ r, readSection data pos = .ok (r, recordEnd data pos) ∧ r.idx = readLe data pos 2 ∧
      (r.blocks.WellFormed ↔ BinaryFits (recordBlocks data pos)) ∧
      (r.biomes.WellFormed ↔ BinaryFits (recordBiomes data pos)) := by
  have hend : pos + 6 + blocksLength data pos + 4 + biomesLength data pos + 4096 ≤ data.length := h
  obtain ⟨blocks, hblocks, hblocksIff⟩ :=
    readContainer_whole (show pos + 2 + 4 + blocksLength data pos ≤ data.length by omega)
  obtain ⟨biomes, hbiomes, hbiomesIff⟩ := readContainer_whole
    (show pos + 6 + blocksLength data pos + 4 + biomesLength data pos ≤ data.length by omega)
  obtain ⟨sky, hsky⟩ := readLight_of_le
    (show pos + 6 + blocksLength data pos + 4 + biomesLength data pos + 2048 ≤ data.length by omega)
  obtain ⟨block, hblock⟩ := readLight_of_le
    (show pos + 6 + blocksLength data pos + 4 + biomesLength data pos + 2048 + 2048 ≤ data.length
      by omega)
  refine ⟨⟨readLe data pos 2, blocks, biomes, sky, block⟩, ?_, rfl, hblocksIff, hbiomesIff⟩
  unfold readSection
  rw [require_pos (show pos + 2 ≤ data.length by omega), ok_bind, hblocks, ok_bind]
  change (readContainer data (pos + 6 + blocksLength data pos) >>= fun r => _) = _
  rw [hbiomes, ok_bind]
  change (require (recordEnd data pos ≤ data.length) () >>= fun _ => _) = _
  rw [require_pos h, ok_bind]
  change (readLight data (pos + 6 + blocksLength data pos + 4 + biomesLength data pos) >>= fun l => _) = _
  rw [hsky, ok_bind]
  change (readLight data (pos + 6 + blocksLength data pos + 4 + biomesLength data pos + 2048) >>=
    fun l => _) = _
  rw [hblock]
  rfl

/-- A record that is cut ends the loop. -/
theorem readSection_cut (h : data.length < recordEnd data pos) : readSection data pos = .err () := by
  unfold readSection
  by_cases h2 : pos + 2 ≤ data.length
  · rw [require_pos h2, ok_bind]
    by_cases hb : pos + 2 + 4 + blocksLength data pos ≤ data.length
    · obtain ⟨blocks, hblocks, -⟩ := readContainer_whole hb
      rw [hblocks, ok_bind]
      change (readContainer data (pos + 6 + blocksLength data pos) >>= fun r => _) = _
      by_cases hm : pos + 6 + blocksLength data pos + 4 + biomesLength data pos ≤ data.length
      · obtain ⟨biomes, hbiomes, -⟩ := readContainer_whole hm
        rw [hbiomes, ok_bind]
        change (require (recordEnd data pos ≤ data.length) () >>= fun _ => _) = _
        rw [require_neg (Nat.not_le.2 h)]
        rfl
      · rw [readContainer_cut (Nat.not_le.1 hm)]
        rfl
    · rw [readContainer_cut (Nat.not_le.1 hb)]
      rfl
  · rw [require_neg h2]
    rfl

/-! ## The section loop -/

/-- The section that a record makes. -/
def recordSection (chunkPos : ChunkPos) (data : List Byte) (pos : Nat) : Option Section :=
  match readSection data pos with
  | .ok (r, _) => some ⟨⟨chunkPos, MIN_SECTION_Y + r.idx⟩, r.blocks, r.biomes, r.skyLight, r.blockLight⟩
  | _ => none

theorem putRecord_eq_put {chunkPos : ChunkPos} {r : SectionRecord} {next : Nat}
    (h : readSection data pos = .ok (r, next)) (hidx : r.idx = readLe data pos 2) (s : Sections) :
    putRecord chunkPos r s =
      LastWrite.put (recordKey data) (recordSection chunkPos data) s pos := by
  have hsec : recordSection chunkPos data pos = some ⟨⟨chunkPos, MIN_SECTION_Y + r.idx⟩,
      r.blocks, r.biomes, r.skyLight, r.blockLight⟩ := by
    unfold recordSection
    rw [h]
  unfold putRecord LastWrite.put recordKey
  rw [hsec]
  by_cases hlt : readLe data pos 2 < SECTIONS_PER_CHUNK
  · rw [dif_pos (hidx ▸ hlt), dif_pos hlt]
    dsimp only
    congr 1
    exact Fin.ext hidx
  · rw [dif_neg (hidx ▸ hlt), dif_neg hlt]

theorem readSections_eq_puts (chunkPos : ChunkPos) (count : Nat) (s : Sections) :
    readSections chunkPos data count pos s =
      .ok (LastWrite.puts (recordKey data) (recordSection chunkPos data) s
        (recordStarts data count pos)) := by
  induction count generalizing pos s with
  | zero => rfl
  | succ count ih =>
      unfold readSections recordStarts
      by_cases hend : recordEnd data pos ≤ data.length
      · obtain ⟨r, hread, hidx, -⟩ := readSection_whole hend
        rw [hread, if_pos hend]
        dsimp only
        rw [ih, putRecord_eq_put hread hidx]
        rfl
      · rw [readSection_cut (Nat.not_le.1 hend), if_neg hend]
        rfl

theorem recordEnd_of_mem_recordStarts {count p : Nat} (h : p ∈ recordStarts data count pos) :
    recordEnd data p ≤ data.length := by
  induction count generalizing pos with
  | zero => cases h
  | succ count ih =>
      unfold recordStarts at h
      split at h
      · rcases List.mem_cons.1 h with rfl | h
        · assumption
        · exact ih h
      · cases h

/-- A record makes a well-formed section exactly when its containers fit. -/
theorem recordSection_wellFormed {chunkPos : ChunkPos} (h : recordEnd data pos ≤ data.length) :
    SlotWellFormed (recordSection chunkPos data pos) ↔
      BinaryFits (recordBlocks data pos) ∧ BinaryFits (recordBiomes data pos) := by
  obtain ⟨r, hread, -, hblocks, hbiomes⟩ := readSection_whole h
  unfold recordSection SlotWellFormed
  rw [hread, ← hblocks, ← hbiomes]
  constructor
  · intro hs
    obtain ⟨h1, h2⟩ := hs _ rfl
    exact ⟨h1, h2⟩
  · rintro ⟨h1, h2⟩ s hs
    obtain rfl := Option.some.inj hs
    exact ⟨h1, h2⟩

end

/-- The sections that `deserialize_chunk_binary` leaves in the chunk. -/
theorem deserializeChunkBinary_eq (cx cz : BitVec 32) (data : List Byte) :
    ∃ c, deserializeChunkBinary cx cz data = .ok c ∧
      c.sections = LastWrite.puts (recordKey data) (recordSection ⟨cx, cz⟩ data) (fun _ => none)
        (recordStarts data (readLe data 0 2) 2) := by
  unfold deserializeChunkBinary
  by_cases h2 : data.length < 2
  · rw [if_pos h2]
    refine ⟨_, rfl, ?_⟩
    have hnone : recordStarts data (readLe data 0 2) 2 = [] := by
      cases readLe data 0 2 with
      | zero => rfl
      | succ count => exact if_neg (by unfold recordEnd; omega)
    rw [hnone]
    rfl
  · rw [if_neg h2]
    dsimp only
    rw [readSections_eq_puts]
    exact ⟨_, rfl, rfl⟩

/-- **`deserialize_chunk_binary` never panics, and the chunk it returns is well formed exactly when the
    last record of each section is.** -/
theorem deserializeChunkBinary_safe_iff (cx cz : BitVec 32) (data : List Byte) :
    Safe Chunk.WellFormed (deserializeChunkBinary cx cz data) ↔ ChunkBinaryFits data := by
  obtain ⟨c, hc, hsections⟩ := deserializeChunkBinary_eq cx cz data
  have hfits : c.WellFormed ↔ ChunkBinaryFits data := by
    unfold Chunk.WellFormed ChunkBinaryFits
    rw [hsections]
    have hempty : ∀ _ : Fin SECTIONS_PER_CHUNK, SlotWellFormed none := fun _ => nofun
    refine (LastWrite.forall_puts_iff hempty).trans ?_
    exact LastWrite.lastHave_congr fun pos hpos =>
      recordSection_wellFormed (recordEnd_of_mem_recordStarts hpos)
  rw [hc, ← hfits]
  exact safe_ok_iff

/-! ## The compressed file -/

/-- `load_linear_file` on the bytes of the file.  `decompress` is `decompress_size_prepended`. -/
def loadLinearFile (decompress : List Byte → Option (List Byte)) (data : List Byte) :
    Outcome String Chunk := do
  require (12 ≤ data.length) "file too small"
  let cx := BitVec.ofNat 32 (readLe data 0 4)
  let cz := BitVec.ofNat 32 (readLe data 4 4)
  let byte8 ← orPanic data[8]?
  -- a format byte of 0 or 1, or the old layout without one
  let dataOffset := if byte8.toNat ≤ 1 then 13 else 8
  require (dataOffset ≤ data.length) "truncated header"
  let lenPos := if byte8.toNat ≤ 1 then 9 else 8
  let dataLen ← slice data lenPos (lenPos + 4)
  let dataLen := ofLe dataLen
  require (dataLen ≠ 0 ∧ dataLen ≤ 10000000 ∧ dataOffset + dataLen ≤ data.length)
    "invalid data length"
  let compressed ← slice data dataOffset (dataOffset + dataLen)
  match decompress compressed with
  | some raw => deserializeChunkBinary cx cz raw
  | none => .err "decompress"

/-- The file says which of two compressions it uses; the old layout does not. -/
def hasFormat (data : List Byte) : Prop := (data[8]?.getD 0).toNat ≤ 1

instance (data : List Byte) : Decidable (hasFormat data) := Nat.decLe ..

/-- Where the compressed bytes begin. -/
def linearOffset (data : List Byte) : Nat := if hasFormat data then 13 else 8

def lengthPos (data : List Byte) : Nat := if hasFormat data then 9 else 8

/-- How many they are said to be: in the old layout by their own first four bytes. -/
def linearLength (data : List Byte) : Nat := readLe data (lengthPos data) 4

/-- The header is in order, and the bytes behind it are there. -/
structure LinearHeader (data : List Byte) : Prop where
  header : 12 ≤ data.length
  ne_zero : linearLength data ≠ 0
  le_max : linearLength data ≤ 10000000
  le_length : linearOffset data + linearLength data ≤ data.length

/-- The compressed bytes. -/
def linearBytes (data : List Byte) : List Byte :=
  (data.drop (linearOffset data)).take (linearLength data)

/-- **Where the header is in order and the bytes behind it decompress, the chunk in them fits.** -/
def LinearFits (decompress : List Byte → Option (List Byte)) (data : List Byte) : Prop :=
  LinearHeader data → ∀ raw, decompress (linearBytes data) = some raw → ChunkBinaryFits raw

/-- The checks of the header come down to one. -/
theorem loadLinearFile_eq (decompress : List Byte → Option (List Byte)) (data : List Byte) :
    (LinearHeader data ∧ ∃ cx cz, loadLinearFile decompress data =
        match decompress (linearBytes data) with
        | some raw => deserializeChunkBinary cx cz raw
        | none => .err "decompress") ∨
      (¬ LinearHeader data ∧ ∃ e, loadLinearFile decompress data = .err e) := by
  unfold loadLinearFile
  by_cases h12 : 12 ≤ data.length
  · have h8 : data[8]? = some data[8] := List.getElem?_eq_getElem (by omega)
    have hformat : hasFormat data ↔ data[8].toNat ≤ 1 := by
      unfold hasFormat
      rw [h8]
      rfl
    have hoffset : (if data[8].toNat ≤ 1 then 13 else 8) = linearOffset data :=
      if_congr hformat.symm rfl rfl
    have hpos : (if data[8].toNat ≤ 1 then 9 else 8) = lengthPos data :=
      if_congr hformat.symm rfl rfl
    have hle : lengthPos data + 4 ≤ 12 ∨ lengthPos data + 4 ≤ linearOffset data := by
      unfold lengthPos linearOffset
      split
      · exact .inr (Nat.le_refl 13)
      · exact .inl (Nat.le_refl 12)
    rw [require_pos h12, h8]
    simp only [ok_bind, orPanic_some, hoffset, hpos]
    by_cases hheader : linearOffset data ≤ data.length
    · rw [require_pos hheader, slice_of_le (Nat.le_add_right ..) (by omega), Nat.add_sub_cancel_left]
      simp only [ok_bind]
      by_cases hlen : linearLength data ≠ 0 ∧ linearLength data ≤ 10000000 ∧
          linearOffset data + linearLength data ≤ data.length
      · have hslice : (slice data (linearOffset data) (linearOffset data + linearLength data) :
            Outcome String (List Byte)) = .ok (linearBytes data) := by
          rw [slice_of_le (Nat.le_add_right ..) hlen.2.2, Nat.add_sub_cancel_left]
          rfl
        refine .inl ⟨⟨h12, hlen.1, hlen.2.1, hlen.2.2⟩, BitVec.ofNat 32 (readLe data 0 4),
          BitVec.ofNat 32 (readLe data 4 4), ?_⟩
        refine (congrArg (· >>= _) (require_pos hlen _)).trans ?_
        rw [ok_bind]
        exact (congrArg (· >>= _) hslice).trans rfl
      · refine .inr ⟨fun h => hlen ⟨h.ne_zero, h.le_max, h.le_length⟩, "invalid data length", ?_⟩
        exact congrArg (· >>= _) (require_neg hlen _)
    · rw [require_neg hheader]
      refine .inr ⟨fun h => hheader ?_, _, rfl⟩
      exact Nat.le_trans (Nat.le_add_right ..) h.le_length
  · rw [require_neg h12]
    exact .inr ⟨fun h => h12 h.header, _, rfl⟩

/-- **`load_linear_file` never panics, in neither layout, and the chunk it returns is well formed exactly
    when the bytes it decompresses fit.** -/
theorem loadLinearFile_safe_iff (decompress : List Byte → Option (List Byte)) (data : List Byte) :
    Safe Chunk.WellFormed (loadLinearFile decompress data) ↔ LinearFits decompress data := by
  rcases loadLinearFile_eq decompress data with
    ⟨hheader, cx, cz, h⟩ | ⟨hheader, e, h⟩
  · rw [h]
    unfold LinearFits
    cases hraw : decompress (linearBytes data) with
    | none => exact iff_of_true (safe_err _) fun _ _ => nofun
    | some raw =>
        rw [deserializeChunkBinary_safe_iff]
        exact ⟨fun hfits _ raw' hraw' => by cases hraw'; exact hfits, fun hfits => hfits hheader raw rfl⟩
  · rw [h]
    exact iff_of_true (safe_err e) fun hh => absurd hh hheader

end Apoptotic
