import Apoptotic.Persistence.ChunkFile
import Apoptotic.World.CorruptChunks

/-!
# World files out of any bytes

`WorldSaver::load_chunk` of `mc-persistence/src/world_save.rs` on bytes that nobody vouches for: its
slices and its section index are not checked, and it takes the containers as `decode_network` returns
them.  With the readers of `mc-world` this is every reader of a world file.

Principal results: `loadBytes_safe_iff` — the files on which `load_chunk` is safe;
`worldFiles_safe_iff` — all the readers.
-/

namespace Apoptotic.WorldSaver

open Bytes Outcome PackedBits PalettedContainer Slices

/-! ## The records of a chunk file -/

section

variable (data : List Byte) (offset : Nat)

def blockLen : Nat := readBe data (offset + 4) 4

def blockData : List Byte := (data.drop (offset + 8)).take (blockLen data offset)

def biomeLen : Nat := readBe data (offset + 8 + blockLen data offset) 4

def biomeData : List Byte :=
  (data.drop (offset + 8 + blockLen data offset + 4)).take (biomeLen data offset)

/-- Where a record at `offset` ends. -/
def recordEnd : Nat := offset + 8 + blockLen data offset + 4 + biomeLen data offset

/-- Where the loop looks for records, `count` times at most. -/
def recordStarts : (count offset : Nat) → List Nat
  | 0, _ => []
  | count + 1, offset =>
      if data.length < offset + 8 then []
      else offset :: recordStarts count (recordEnd data offset)

/-- The height that a record is for. -/
def recordY : BitVec 32 := BitVec.ofNat 32 (readBe data offset 4)

/-- Its section, if there is one at the height. -/
def recordKey : Option (Fin SECTIONS_PER_CHUNK) :=
  if h : sectionIndexFromSectionY (recordY data offset).toInt < SECTIONS_PER_CHUNK then
    some ⟨sectionIndexFromSectionY (recordY data offset).toInt, h⟩
  else none

end

/-- The network bytes hold all that they declare. -/
def Whole (bytes : List Byte) : Prop := ∃ fields, declared bytes = .whole fields

instance (bytes : List Byte) : Decidable (Whole bytes) :=
  match h : declared bytes with
  | .whole fields => isTrue ⟨fields, h⟩
  | .cut => isFalse fun ⟨_, hf⟩ => by rw [h] at hf; cases hf
  | .negative => isFalse fun ⟨_, hf⟩ => by rw [h] at hf; cases hf

/-- The section to which a record writes the container of `bytes`, if these hold all they declare. -/
def writeKey (bytes : List Byte → Nat → List Byte) (data : List Byte) (offset : Nat) :
    Option (Fin SECTIONS_PER_CHUNK) :=
  if Whole (bytes data offset) then recordKey data offset else none

/-- **A record that is read without a panic**: it is all there, for a section of the world, and declares
    no negative length. -/
structure RecordFits (data : List Byte) (offset : Nat) : Prop where
  whole : recordEnd data offset ≤ data.length
  height : (recordKey data offset).isSome
  blocks : declared (blockData data offset) ≠ .negative
  biomes : declared (biomeData data offset) ≠ .negative

/-- **Every record is read without a panic, and the last blocks and the last biomes of each section serve
    their palettes.** -/
structure ChunkFileFits (data : List Byte) : Prop where
  records : ∀ offset ∈ recordStarts data (readBe data 8 4) 12, RecordFits data offset
  blocks : LastWrite.LastHave (writeKey blockData data)
    (fun offset => NetworkFits (blockData data offset)) (recordStarts data (readBe data 8 4) 12)
  biomes : LastWrite.LastHave (writeKey biomeData data)
    (fun offset => NetworkFits (biomeData data offset)) (recordStarts data (readBe data 8 4) 12)

/-! ## Reading a record -/

/-- The container that the bytes make, or `c`. -/
def decodedOr (c : PalettedContainer) (bytes : List Byte) : PalettedContainer :=
  match decodeNetwork bytes with
  | .ok c' => c'
  | _ => c

theorem decodeInto_eq (c : PalettedContainer) {bytes : List Byte} (h : declared bytes ≠ .negative) :
    decodeInto c bytes = .ok (decodedOr c bytes) := by
  unfold decodeInto decodedOr
  cases hd : declared bytes with
  | cut =>
      obtain ⟨-, e, hread⟩ := decodeNetwork_of_cut hd
      rw [hread]
  | negative => exact absurd hd h
  | whole fields =>
      obtain ⟨c', hread, -⟩ := decodeNetwork_of_whole hd
      rw [hread]

theorem decodeInto_negative (c : PalettedContainer) {bytes : List Byte}
    (h : declared bytes = .negative) : decodeInto c bytes = .panic := by
  unfold decodeInto
  rw [(decodeNetwork_of_negative h).2]

/-- Bytes that do not hold all they declare leave the container alone. -/
theorem decodedOr_of_not_whole (c : PalettedContainer) {bytes : List Byte} (h : ¬ Whole bytes) :
    decodedOr c bytes = c := by
  unfold decodedOr
  cases hd : declared bytes with
  | cut =>
      obtain ⟨-, e, hread⟩ := decodeNetwork_of_cut hd
      rw [hread]
  | negative => rw [(decodeNetwork_of_negative hd).2]
  | whole fields => exact absurd ⟨fields, hd⟩ h

/-- Bytes that do make a container that serves its palette when they do. -/
theorem decodedOr_of_whole (c c0 : PalettedContainer) {bytes : List Byte} (h : Whole bytes) :
    decodedOr c bytes = decodedOr c0 bytes ∧ ((decodedOr c bytes).WellFormed ↔ NetworkFits bytes) := by
  unfold decodedOr
  obtain ⟨fields, hw⟩ := h
  obtain ⟨c', hread, hiff⟩ := decodeNetwork_of_whole hw
  rw [hread]
  exact ⟨rfl, hiff⟩

/-- The section after a record is read into it. -/
def written (data : List Byte) (offset : Nat) (sec : Section) : Section :=
  { sec with
    blocks := decodedOr sec.blocks (blockData data offset)
    biomes := decodedOr sec.biomes (biomeData data offset) }

/-- The sections after a record is read. -/
def putRecord (pos : ChunkPos) (data : List Byte) (s : Sections) (offset : Nat) : Sections :=
  match recordKey data offset with
  | some idx =>
      Function.update s idx (some (written data offset
        ((s idx).getD (Section.new ⟨pos, (recordY data offset).toInt⟩))))
  | none => s

section

variable {data : List Byte} {offset : Nat} {pos : ChunkPos} {s : Sections}

theorem blockSlice (h : offset + 8 + blockLen data offset ≤ data.length) :
    (slice data (offset + 8) (offset + 8 + blockLen data offset) : Outcome String _) =
      .ok (blockData data offset) := by
  rw [slice_of_le (Nat.le_add_right ..) h, Nat.add_sub_cancel_left]
  rfl

theorem biomeSlice (h : recordEnd data offset ≤ data.length) :
    (slice data (offset + 8 + blockLen data offset + 4) (recordEnd data offset) : Outcome String _) =
      .ok (biomeData data offset) := by
  unfold recordEnd at h ⊢
  rw [slice_of_le (Nat.le_add_right ..) h, Nat.add_sub_cancel_left]
  rfl

theorem biomeLenSlice (h : offset + 8 + blockLen data offset + 4 ≤ data.length) :
    (slice data (offset + 8 + blockLen data offset) (offset + 8 + blockLen data offset + 4) :
      Outcome String _) = .ok ((data.drop (offset + 8 + blockLen data offset)).take 4) := by
  rw [slice_of_le (Nat.le_add_right ..) h, Nat.add_sub_cancel_left]

theorem slice_cut {start stop : Nat} (h : data.length < stop) :
    (slice data start stop : Outcome String _) = .panic :=
  if_neg fun hs => Nat.not_le.2 h hs.2

/-- A record that is all there is decoded into its section. -/
theorem loadSection_whole (h : recordEnd data offset ≤ data.length) :
    loadSection pos data offset s = (do
      let s ← decodeSection pos (recordY data offset) (blockData data offset)
        (biomeData data offset) s
      pure (s, recordEnd data offset)) := by
  have hle : offset + 8 + blockLen data offset + 4 + biomeLen data offset ≤ data.length := h
  unfold loadSection
  change (slice data (offset + 8) (offset + 8 + blockLen data offset) >>= fun _ => _) = _
  rw [blockSlice (by omega), ok_bind]
  change (slice data (offset + 8 + blockLen data offset) (offset + 8 + blockLen data offset + 4) >>=
    fun _ => _) = _
  rw [biomeLenSlice (by omega), ok_bind]
  change (slice data (offset + 8 + blockLen data offset + 4) (recordEnd data offset) >>= fun _ => _) = _
  rw [biomeSlice h, ok_bind]
  rfl

theorem loadSection_cut (h : data.length < recordEnd data offset) :
    loadSection pos data offset s = .panic := by
  unfold loadSection
  change (slice data (offset + 8) (offset + 8 + blockLen data offset) >>= fun _ => _) = _
  by_cases hblocks : offset + 8 + blockLen data offset ≤ data.length
  · rw [blockSlice hblocks, ok_bind]
    change (slice data (offset + 8 + blockLen data offset)
      (offset + 8 + blockLen data offset + 4) >>= fun _ => _) = _
    by_cases hlen : offset + 8 + blockLen data offset + 4 ≤ data.length
    · rw [biomeLenSlice hlen, ok_bind]
      change (slice data (offset + 8 + blockLen data offset + 4) (recordEnd data offset) >>=
        fun _ => _) = _
      rw [slice_cut h]
      rfl
    · rw [slice_cut (Nat.not_le.1 hlen)]
      rfl
  · rw [slice_cut (Nat.not_le.1 hblocks)]
    rfl

theorem decodeSection_fits (h : RecordFits data offset) :
    decodeSection pos (recordY data offset) (blockData data offset) (biomeData data offset) s =
      .ok (putRecord pos data s offset) := by
  have hheight := h.height
  unfold decodeSection putRecord
  unfold recordKey at hheight ⊢
  split at hheight
  · rename_i hlt
    rw [dif_pos hlt, dif_pos hlt]
    dsimp only
    rw [decodeInto_eq _ h.blocks, ok_bind, decodeInto_eq _ h.biomes]
    rfl
  · cases hheight

theorem decodeSection_panics (h : ¬ RecordFits data offset)
    (hwhole : recordEnd data offset ≤ data.length) :
    decodeSection pos (recordY data offset) (blockData data offset) (biomeData data offset) s =
      .panic := by
  unfold decodeSection
  by_cases hlt : sectionIndexFromSectionY (recordY data offset).toInt < SECTIONS_PER_CHUNK
  · rw [dif_pos hlt]
    dsimp only
    by_cases hblocks : declared (blockData data offset) = .negative
    · rw [decodeInto_negative _ hblocks]
      rfl
    · rw [decodeInto_eq _ hblocks, ok_bind]
      by_cases hbiomes : declared (biomeData data offset) = .negative
      · rw [decodeInto_negative _ hbiomes]
        rfl
      · refine absurd ⟨hwhole, ?_, hblocks, hbiomes⟩ h
        unfold recordKey
        rw [dif_pos hlt]
        rfl
  · rw [dif_neg hlt]

theorem loadSection_fits (h : RecordFits data offset) :
    loadSection pos data offset s = .ok (putRecord pos data s offset, recordEnd data offset) := by
  rw [loadSection_whole h.whole, decodeSection_fits h]
  rfl

theorem loadSection_panics (h : ¬ RecordFits data offset) :
    loadSection pos data offset s = .panic := by
  by_cases hwhole : recordEnd data offset ≤ data.length
  · rw [loadSection_whole hwhole, decodeSection_panics h hwhole]
    rfl
  · exact loadSection_cut (Nat.not_le.1 hwhole)

/-! ## The section loop -/

theorem loadSections_fit {count : Nat}
    (h : ∀ o ∈ recordStarts data count offset, RecordFits data o) :
    loadSections pos data count offset s =
      .ok ((recordStarts data count offset).foldl (putRecord pos data) s) := by
  induction count generalizing offset s with
  | zero => rfl
  | succ count ih =>
      unfold loadSections
      unfold recordStarts at h ⊢
      by_cases hshort : data.length < offset + 8
      · rw [if_pos hshort, if_pos hshort]
        rfl
      · rw [if_neg hshort] at h ⊢
        rw [if_neg hshort, loadSection_fits (h offset List.mem_cons_self), ok_bind]
        exact ih fun o ho => h o (List.mem_cons_of_mem _ ho)

theorem loadSections_panics {count : Nat}
    (h : ∃ o ∈ recordStarts data count offset, ¬ RecordFits data o) :
    loadSections pos data count offset s = .panic := by
  induction count generalizing offset s with
  | zero =>
      obtain ⟨o, ho, -⟩ := h
      cases ho
  | succ count ih =>
      unfold loadSections
      unfold recordStarts at h
      by_cases hshort : data.length < offset + 8
      · rw [if_pos hshort] at h
        obtain ⟨o, ho, -⟩ := h
        cases ho
      · rw [if_neg hshort] at h ⊢
        by_cases hfits : RecordFits data offset
        · rw [loadSection_fits hfits, ok_bind]
          obtain ⟨o, ho, hnot⟩ := h
          rcases List.mem_cons.1 ho with rfl | ho
          · exact absurd hfits hnot
          · exact ih ⟨o, ho, hnot⟩
        · rw [loadSection_panics hfits]
          rfl

/-! ## The last record of each section -/

/-- One of the two containers of a section. -/
structure Part where
  get : Section → PalettedContainer
  bytes : List Byte → Nat → List Byte
  fresh : PalettedContainer
  get_new : ∀ p, get (Section.new p) = fresh
  get_written : ∀ data offset sec,
    get (written data offset sec) = decodedOr (get sec) (bytes data offset)

def Part.blocks : Part where
  get := Section.blocks
  bytes := blockData
  fresh := PalettedContainer.new
  get_new _ := rfl
  get_written _ _ _ := rfl

def Part.biomes : Part where
  get := Section.biomes
  bytes := biomeData
  fresh := PalettedContainer.filled (BlockState.new 0#32)
  get_new _ := rfl
  get_written _ _ _ := rfl

/-- The containers of the sections; those of a section that is not filled are new. -/
def Part.view (p : Part) (s : Sections) (i : Fin SECTIONS_PER_CHUNK) : PalettedContainer :=
  ((s i).map p.get).getD p.fresh

theorem Part.get_getD (p : Part) (i : Fin SECTIONS_PER_CHUNK) (q : SectionPos) :
    p.get ((s i).getD (Section.new q)) = p.view s i := by
  unfold Part.view
  cases s i with
  | none => exact p.get_new q
  | some sec => rfl

/-- A record writes to the part when its bytes hold all they declare. -/
theorem Part.view_putRecord (p : Part) :
    p.view (putRecord pos data s offset) =
      LastWrite.put (writeKey p.bytes data) (fun o => decodedOr p.fresh (p.bytes data o)) (p.view s)
        offset := by
  funext i
  unfold putRecord LastWrite.put writeKey
  cases hkey : recordKey data offset with
  | none => rw [ite_self]
  | some k =>
      dsimp only
      have hview : ∀ i, p.view (Function.update s k (some (written data offset
          ((s k).getD (Section.new ⟨pos, (recordY data offset).toInt⟩))))) i =
            Function.update (p.view s) k (decodedOr (p.view s k) (p.bytes data offset)) i := by
        intro i
        by_cases hi : i = k
        · subst hi
          rw [Function.update_self]
          unfold Part.view
          rw [Function.update_self, Option.map_some, Option.getD_some, p.get_written, p.get_getD]
          rfl
        · rw [Function.update_of_ne hi, Part.view, Function.update_of_ne hi]
          rfl
      rw [hview]
      by_cases hwhole : Whole (p.bytes data offset)
      · rw [if_pos hwhole, (decodedOr_of_whole _ p.fresh hwhole).1]
      · rw [if_neg hwhole, decodedOr_of_not_whole _ hwhole, Function.update_eq_self]

theorem Part.view_foldl (p : Part) (os : List Nat) :
    p.view (os.foldl (putRecord pos data) s) =
      LastWrite.puts (writeKey p.bytes data) (fun o => decodedOr p.fresh (p.bytes data o))
        (p.view s) os := by
  induction os generalizing s with
  | nil => rfl
  | cons o os ih =>
      rw [List.foldl_cons, ih, p.view_putRecord]
      rfl

theorem decodedOr_wellFormed {c : PalettedContainer} (hc : c.WellFormed) {bytes : List Byte}
    (h : declared bytes ≠ .negative) : (decodedOr c bytes).WellFormed ↔ NetworkFits bytes := by
  by_cases hw : Whole bytes
  · exact (decodedOr_of_whole c c hw).2
  · rw [decodedOr_of_not_whole c hw]
    cases hd : declared bytes with
    | cut => exact iff_of_true hc (decodeNetwork_of_cut hd).1
    | negative => exact absurd hd h
    | whole fields => exact absurd ⟨fields, hd⟩ hw

theorem slots_wellFormed_iff :
    (∀ i, SlotWellFormed (s i)) ↔
      (∀ i, (Part.blocks.view s i).WellFormed) ∧ ∀ i, (Part.biomes.view s i).WellFormed := by
  have hslot : ∀ i, SlotWellFormed (s i) ↔
      (Part.blocks.view s i).WellFormed ∧ (Part.biomes.view s i).WellFormed := by
    intro i
    unfold SlotWellFormed Part.view
    cases s i with
    | none => exact iff_of_true nofun ⟨trivial, trivial⟩
    | some sec =>
        constructor
        · intro h
          exact ⟨(h sec rfl).blocks, (h sec rfl).biomes⟩
        · rintro ⟨h1, h2⟩ sec' hsec
          cases hsec
          exact ⟨h1, h2⟩
  rw [← forall_and]
  exact forall_congr' hslot

/-- The part of a file whose records are all read. -/
theorem Part.wellFormed_iff (p : Part) (hfresh : p.fresh.WellFormed) {os : List Nat}
    (h : ∀ o ∈ os, declared (p.bytes data o) ≠ .negative) :
    (∀ i, (p.view (os.foldl (putRecord pos data) (fun _ => none)) i).WellFormed) ↔
      LastWrite.LastHave (writeKey p.bytes data) (fun o => NetworkFits (p.bytes data o)) os := by
  rw [p.view_foldl]
  refine (LastWrite.forall_puts_iff fun _ => hfresh).trans ?_
  exact LastWrite.lastHave_congr fun o ho => decodedOr_wellFormed hfresh (h o ho)

end

/-- The chunk that all the records of a file make. -/
theorem wellFormed_foldl_iff {pos : ChunkPos} {data : List Byte} {os : List Nat}
    (h : ∀ o ∈ os, RecordFits data o) :
    (∀ i, SlotWellFormed (os.foldl (putRecord pos data) (fun _ => none) i)) ↔
      LastWrite.LastHave (writeKey blockData data) (fun o => NetworkFits (blockData data o)) os ∧
        LastWrite.LastHave (writeKey biomeData data) (fun o => NetworkFits (biomeData data o)) os := by
  rw [slots_wellFormed_iff, Part.blocks.wellFormed_iff trivial fun o ho => (h o ho).blocks,
    Part.biomes.wellFormed_iff trivial fun o ho => (h o ho).biomes]
  rfl

theorem safe_some_iff (c : Chunk) :
    Safe (fun o => ∀ c : Chunk, o = some c → c.WellFormed) (pure (some c) : Outcome String _) ↔
      c.WellFormed := by
  refine safe_ok_iff.trans ⟨fun h => h c rfl, ?_⟩
  intro h c' hc'
  cases hc'
  exact h

/-- The file is one of the chunk. -/
def Matches (chunkX chunkZ : BitVec 32) (data : List Byte) : Prop :=
  12 ≤ data.length ∧ BitVec.ofNat 32 (readBe data 0 4) = chunkX ∧
    BitVec.ofNat 32 (readBe data 4 4) = chunkZ

/-- **`load_chunk` is safe exactly on the files whose records are read without a panic and whose last
    blocks and biomes serve their palettes.** -/
theorem loadBytes_safe_iff (chunkX chunkZ : BitVec 32) (data : List Byte) :
    Safe (fun o => ∀ c, o = some c → c.WellFormed) (loadBytes chunkX chunkZ data) ↔
      (Matches chunkX chunkZ data → ChunkFileFits data) := by
  unfold loadBytes Matches
  by_cases h12 : 12 ≤ data.length
  · rw [require_pos h12, ok_bind]
    dsimp only
    by_cases hpos : BitVec.ofNat 32 (readBe data 0 4) = chunkX ∧
        BitVec.ofNat 32 (readBe data 4 4) = chunkZ
    · rw [require_pos hpos, ok_bind, forall_prop_of_true ⟨h12, hpos⟩]
      by_cases hrecords : ∀ o ∈ recordStarts data (readBe data 8 4) 12, RecordFits data o
      · rw [loadSections_fit hrecords, ok_bind]
        exact (safe_some_iff _).trans ((wellFormed_foldl_iff hrecords).trans
          ⟨fun h => ⟨hrecords, h.1, h.2⟩, fun h => ⟨h.blocks, h.biomes⟩⟩)
      · have hpanic : ∃ o ∈ recordStarts data (readBe data 8 4) 12, ¬ RecordFits data o := by
          simpa only [not_forall, exists_prop] using hrecords
        rw [loadSections_panics hpanic]
        exact iff_of_false not_safe_panic fun h => hrecords h.records
    · rw [require_neg hpos]
      exact iff_of_true (safe_err _) fun h => absurd h.2 hpos
  · rw [require_neg h12]
    exact iff_of_true (safe_err _) fun h => absurd h.1 h12

/-! ## All the readers -/

/-- **Each reader of world files is safe exactly on the bytes whose containers serve their palettes, none
    of them of a negative length and, for `load_chunk`, none of them cut; and what a well-formed container
    is asked for it has.** -/
theorem worldFiles_safe_iff (decompress : List Byte → Option (List Byte))
    (chunkX chunkZ cx cz : BitVec 32) (data : List Byte) :
    (Safe (fun o => ∀ c, o = some c → c.WellFormed) (loadChunk chunkX chunkZ (some data)) ↔
      (Matches chunkX chunkZ data → ChunkFileFits data)) ∧
    (Safe Chunk.WellFormed (loadLinearFile decompress data) ↔ LinearFits decompress data) ∧
    (Safe Chunk.WellFormed (deserializeChunkBinary cx cz data) ↔ ChunkBinaryFits data) ∧
    (Safe (fun r => r.1.WellFormed) (decodeBinary data) ↔ BinaryFits data) ∧
    (Safe PalettedContainer.WellFormed (decodeNetwork data) ↔ NetworkFits data) ∧
    ∀ c : PalettedContainer, c.WellFormed → ∀ i < BLOCKS_PER_SECTION, ∃ b, c.getAt i = some b :=
  ⟨loadBytes_safe_iff chunkX chunkZ data, loadLinearFile_safe_iff decompress data,
    deserializeChunkBinary_safe_iff cx cz data, decodeBinary_safe_iff data, decodeNetwork_safe_iff data,
    fun _ hc _ hi => exists_getAt hc hi⟩

/-- A file of one record that ends after the record's first length. -/
def cutFile : List Byte :=
  [0, 0, 0, 0, 0, 0, 0, 0, 0, 0, 0, 1, 0, 0, 0, 0, 0, 0, 0, 1]

/-- A count of -1 words ends `decode_network`, a file cut inside a record ends `load_chunk`, and
    `decode_binary` takes a direct container of no words, at whose first cell a later `get` ends. -/
theorem not_forall_worldFiles_safe :
    (decodeNetwork [0x00, 0x00, 0xFF, 0xFF, 0xFF, 0xFF, 0x0F] = .panic ∧
      loadChunk 0 0 (some cutFile) = .panic ∧
      decodeBinary [0x02, 0x0F, 0x00, 0x00, 0x00, 0x00] = .ok (⟨.direct []⟩, 6) ∧
      (⟨.direct []⟩ : PalettedContainer).getAt 0 = none) ∧
    ¬ (∀ data, Safe PalettedContainer.WellFormed (decodeNetwork data)) ∧
    ¬ (∀ data, Safe (fun o => ∀ c, o = some c → c.WellFormed) (loadChunk 0 0 (some data))) ∧
    ¬ ∀ data, Safe (fun r => r.1.WellFormed) (decodeBinary data) := by
  have hnegative : decodeNetwork [0x00, 0x00, 0xFF, 0xFF, 0xFF, 0xFF, 0x0F] = .panic := by rfl
  have hcut : loadChunk 0 0 (some cutFile) = .panic := by rfl
  have hempty : decodeBinary [0x02, 0x0F, 0x00, 0x00, 0x00, 0x00] = .ok (⟨.direct []⟩, 6) := by rfl
  have hget : (⟨.direct []⟩ : PalettedContainer).getAt 0 = none := by rfl
  refine ⟨⟨hnegative, hcut, hempty, hget⟩, ?_, ?_, ?_⟩
  · intro h
    exact (h _).ne_panic hnegative
  · intro h
    exact (h _).ne_panic hcut
  · intro h
    have hwf : (⟨.direct []⟩ : PalettedContainer).WellFormed := (h _).wellFormed _ hempty
    obtain ⟨b, hb⟩ := exists_getAt hwf (show 0 < BLOCKS_PER_SECTION by decide)
    rw [hget] at hb
    cases hb

end Apoptotic.WorldSaver
