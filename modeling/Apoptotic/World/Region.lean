import Apoptotic.World.AnvilNbt
import Mathlib.Data.List.Find

/-!
# Region files

`AnvilWriter::write_chunks`, `write_region` and `AnvilReader::load_chunk` of
`mc-world/src/anvil.rs`: a 4096-byte header of sector numbers, one padding sector, and the
sectors of the chunks.  A region file is created anew by every batch that has a chunk in it.

Principal results: `placed_layout` — the header and the sectors of a laid-out region;
`loadBytes_layout` — the reader finds the last entry of each index;
`returnsLatest_iff_covered` — a coordinate loads its latest version exactly when the last batch
that touched its region contains it.
-/

namespace Apoptotic

open Bytes Outcome

/-- The libraries outside the repository: `fastnbt` and `flate2`. -/
structure NbtFormat where
  toBytes : NbtValue → List Byte
  fromBytes : List Byte → Option NbtValue
  zlib : List Byte → List Byte
  unzlib : List Byte → Option (List Byte)
  gunzip : List Byte → Option (List Byte)

/-! ## The writer -/

/-- `(data_size as u32).div_ceil(4096)`. -/
def sectorsNeeded (compressed : List Byte) : Nat := (5 + compressed.length + 4095) / 4096

/-- Length, compression type 2 (zlib), data and padding. -/
def sectorData (compressed : List Byte) : List Byte :=
  toBe 4 compressed.length ++ ([2#8] ++ (compressed ++
    List.replicate (sectorsNeeded compressed * 4096 - (5 + compressed.length)) 0#8))

/-- The state of the loop over the entries of a region. -/
structure Layout where
  header : List Byte
  currentSector : Nat
  blocks : List Byte

/-- One entry: its header bytes and its sectors. -/
def placeEntry (st : Layout) (e : Nat × List Byte) : Layout :=
  let off := e.1 * 4
  { header := (((st.header.set off (BitVec.ofNat 8 (st.currentSector / 65536))).set (off + 1)
      (BitVec.ofNat 8 (st.currentSector / 256))).set (off + 2)
      (BitVec.ofNat 8 st.currentSector)).set (off + 3) (BitVec.ofNat 8 (sectorsNeeded e.2))
    currentSector := st.currentSector + sectorsNeeded e.2
    blocks := st.blocks ++ sectorData e.2 }

/-- The bytes of a region file with these entries. -/
def layoutRegion (entries : List (Nat × List Byte)) : List Byte :=
  let st := entries.foldl placeEntry ⟨List.replicate 4096 0#8, 2, []⟩
  st.header ++ (List.replicate 4096 0#8 ++ st.blocks)

/-- The entries by local index; the sort is stable. -/
def sortEntries (entries : List (Nat × List Byte)) : List (Nat × List Byte) :=
  entries.mergeSort fun a b => decide (a.1 ≤ b.1)

/-- `(x.div_euclid(32), z.div_euclid(32))`. -/
def regionOf (p : ChunkPos) : Int × Int := (p.x.toInt / 32, p.z.toInt / 32)

/-- `lx + lz * 32`. -/
def localIdx (p : ChunkPos) : Nat := (p.x.toInt % 32).toNat + (p.z.toInt % 32).toNat * 32

/-- A chunk that can be stored: it has an NBT form, the libraries give that form back from its
bytes, and the compressed bytes are within the size that the reader accepts. -/
structure Stored (Z : NbtFormat) where
  chunk : Chunk
  nbt : NbtValue
  serialized : serializeChunkNbt chunk = some nbt
  inflates : Z.unzlib (Z.zlib (Z.toBytes nbt)) = some (Z.toBytes nbt)
  parses : Z.fromBytes (Z.toBytes nbt) = some nbt
  nonempty : 0 < (Z.zlib (Z.toBytes nbt)).length
  bounded : (Z.zlib (Z.toBytes nbt)).length ≤ 10000000

section Files

variable {Z : NbtFormat}

def Stored.pos (s : Stored Z) : ChunkPos := s.chunk.position

/-- The compressed NBT of the chunk. -/
def Stored.compressed (s : Stored Z) : List Byte := Z.zlib (Z.toBytes s.nbt)

/-- The region directory: the bytes of each region file. -/
abbrev Dir := Int × Int → Option (List Byte)

/-- `write_region`: the new bytes of the file. -/
def writeRegion (chunks : List (Stored Z)) : List Byte :=
  layoutRegion (sortEntries (chunks.map fun s => (localIdx s.pos, s.compressed)))

/-- `write_chunks`: the chunks grouped by region, each group's file created anew. -/
def writeChunks (dir : Dir) (chunks : List (Stored Z)) : Dir := fun region =>
  match chunks.filter fun s => regionOf s.pos = region with
  | [] => dir region
  | group => some (writeRegion group)

/-! ## The reader -/

/-- The reads of `load_chunk` on an open region file: the compression type and the data. -/
def loadBytes (file : List Byte) (entryIdx : Nat) :
    Outcome AnvilError (Option (Byte × List Byte)) := do
  require (4096 ≤ file.length) (.io "failed to fill whole buffer")
  let header := file.take 4096
  let e0 ← orPanic header[entryIdx * 4]?
  let e1 ← orPanic header[entryIdx * 4 + 1]?
  let e2 ← orPanic header[entryIdx * 4 + 2]?
  let offset := ofBe [0#8, e0, e1, e2]
  if offset < 2 then pure none
  else do
    let pos := offset * 4096
    require (pos + 4 ≤ file.length) (.io "failed to fill whole buffer")
    let dataLen := readBe file pos 4
    require (pos + 5 ≤ file.length) (.io "failed to fill whole buffer")
    let compression ← orPanic file[pos + 4]?
    require (¬ (dataLen = 0 ∨ dataLen > 10000000)) (.format "invalid size")
    require (pos + 5 + dataLen ≤ file.length) (.io "failed to fill whole buffer")
    pure (some (compression, (file.drop (pos + 5)).take dataLen))

/-- `decompress`. -/
def decompress (Z : NbtFormat) (compression : Byte) (data : List Byte) :
    Outcome AnvilError (List Byte) :=
  let inflated (o : Option (List Byte)) : Outcome AnvilError (List Byte) :=
    match o with
    | some bytes => .ok bytes
    | none => .err (.io "corrupt deflate stream")
  if compression = 1#8 then inflated (Z.gunzip data)
  else if compression = 2#8 then inflated (Z.unzlib data)
  else .err (.format ("unknown compression: " ++ toString compression.toNat))

/-- `load_chunk`. -/
def loadChunk (Z : NbtFormat) (r : AnvilReader) (dir : Dir) (p : ChunkPos) :
    Outcome AnvilError (Option Chunk × AnvilReader) :=
  match dir (regionOf p) with
  | none => .ok (none, r)
  | some file => do
      match ← loadBytes file (localIdx p) with
      | none => pure (none, r)
      | some (compression, compressed) =>
          let decompressed ← decompress Z compression compressed
          match Z.fromBytes decompressed with
          | none => .err (.nbt "invalid nbt")
          | some nbt => parseChunkNbt r p.x p.z nbt

end Files

/-! ## Coordinates -/

theorem localIdx_lt (p : ChunkPos) : localIdx p < 1024 := by
  unfold localIdx
  omega

/-- A region and a local index determine the coordinate. -/
theorem pos_eq_of_region_local {p q : ChunkPos} (hr : regionOf p = regionOf q)
    (hl : localIdx p = localIdx q) : p = q := by
  obtain ⟨px, pz⟩ := p
  obtain ⟨qx, qz⟩ := q
  simp only [regionOf, Prod.mk.injEq, localIdx] at hr hl
  have hx : px.toInt = qx.toInt := by omega
  have hz : pz.toInt = qz.toInt := by omega
  rw [BitVec.eq_of_toInt_eq hx, BitVec.eq_of_toInt_eq hz]

/-! ## The last entry of an index -/

/-- The data of the last entry with index `i`. -/
def lastEntry (entries : List (Nat × List Byte)) (i : Nat) : Option (List Byte) :=
  (entries.reverse.find? fun e => e.1 == i).map Prod.snd

theorem lastEntry_append (entries : List (Nat × List Byte)) (e : Nat × List Byte) (i : Nat) :
    lastEntry (entries ++ [e]) i = if e.1 = i then some e.2 else lastEntry entries i := by
  unfold lastEntry
  rw [List.reverse_append, List.reverse_singleton, List.singleton_append]
  by_cases h : e.1 = i
  · rw [if_pos h, List.find?_cons_of_pos (by simpa using h), Option.map_some]
  · rw [if_neg h, List.find?_cons_of_neg (by simpa using h)]

theorem lastEntry_eq_filter (entries : List (Nat × List Byte)) (i : Nat) :
    lastEntry entries i = ((entries.filter fun e => e.1 == i).getLast?).map Prod.snd := by
  simp [lastEntry]

/-- The stable sort keeps the order of the entries of one index. -/
theorem filter_sortEntries (entries : List (Nat × List Byte)) (i : Nat) :
    (sortEntries entries).filter (fun e => e.1 == i) = entries.filter fun e => e.1 == i := by
  have hpair : (entries.filter fun e => e.1 == i).Pairwise
      (fun a b => decide (a.1 ≤ b.1) = true) := by
    rw [List.pairwise_iff_forall_sublist]
    intro a b hab
    have ha := List.of_mem_filter (hab.subset (List.mem_cons_self))
    have hb := List.of_mem_filter (hab.subset (List.mem_cons_of_mem a List.mem_cons_self))
    rw [beq_iff_eq] at ha hb
    exact decide_eq_true (by omega)
  have hsub : List.Sublist (entries.filter fun e => e.1 == i) (sortEntries entries) :=
    List.sublist_mergeSort (fun a b c hab hbc => by simp at hab hbc ⊢; omega)
      (fun a b => by simp; omega) hpair List.filter_sublist
  have hfilter := hsub.filter fun e => e.1 == i
  rw [List.filter_filter] at hfilter
  simp only [Bool.and_self] at hfilter
  exact (hfilter.eq_of_length ((List.mergeSort_perm entries _).filter _).length_eq.symm).symm

theorem lastEntry_sortEntries (entries : List (Nat × List Byte)) (i : Nat) :
    lastEntry (sortEntries entries) i = lastEntry entries i := by
  rw [lastEntry_eq_filter, lastEntry_eq_filter, filter_sortEntries]

/-! ## The layout -/

/-- The header names sector `s` at index `i`. -/
structure HeaderAt (header : List Byte) (i s : Nat) : Prop where
  high : header[i * 4]? = some (BitVec.ofNat 8 (s / 65536))
  mid : header[i * 4 + 1]? = some (BitVec.ofNat 8 (s / 256))
  low : header[i * 4 + 2]? = some (BitVec.ofNat 8 s)

theorem headerAt_placeEntry {st : Layout} (h : st.header.length = 4096) {e : Nat × List Byte}
    (he : e.1 < 1024) : HeaderAt (placeEntry st e).header e.1 st.currentSector := by
  unfold placeEntry
  constructor
  · simp [List.getElem?_set, h]
    omega
  · simp [List.getElem?_set, h]
    omega
  · simp [List.getElem?_set, h]
    omega

theorem HeaderAt.placeEntry {st : Layout} {i s : Nat} (h : HeaderAt st.header i s)
    {e : Nat × List Byte} (hi : i ≠ e.1) : HeaderAt (placeEntry st e).header i s := by
  unfold Apoptotic.placeEntry
  constructor
  · rw [← h.high]
    dsimp only
    rw [List.getElem?_set_ne (by omega), List.getElem?_set_ne (by omega),
      List.getElem?_set_ne (by omega), List.getElem?_set_ne (by omega)]
  · rw [← h.mid]
    dsimp only
    rw [List.getElem?_set_ne (by omega), List.getElem?_set_ne (by omega),
      List.getElem?_set_ne (by omega), List.getElem?_set_ne (by omega)]
  · rw [← h.low]
    dsimp only
    rw [List.getElem?_set_ne (by omega), List.getElem?_set_ne (by omega),
      List.getElem?_set_ne (by omega), List.getElem?_set_ne (by omega)]

theorem length_sectorData (compressed : List Byte) :
    (sectorData compressed).length = sectorsNeeded compressed * 4096 := by
  simp only [sectorData, List.length_append, length_toBe, List.length_singleton,
    List.length_replicate, sectorsNeeded]
  omega

/-- The entries of a region: local indices, and data within the reader's size. -/
def EntriesOk (entries : List (Nat × List Byte)) : Prop :=
  ∀ e ∈ entries, e.1 < 1024 ∧ 0 < e.2.length ∧ e.2.length ≤ 10000000

/-- What the loop has placed after the entries `entries`. -/
structure Placed (entries : List (Nat × List Byte)) (st : Layout) : Prop where
  header : st.header.length = 4096
  sectors : st.blocks.length + 2 * 4096 = st.currentSector * 4096
  bound : st.currentSector ≤ 2 + 2442 * entries.length
  absent : ∀ i < 1024, lastEntry entries i = none → HeaderAt st.header i 0
  present : ∀ i < 1024, ∀ data, lastEntry entries i = some data →
    ∃ s rest, 2 ≤ s ∧ s ≤ 2 + 2442 * entries.length ∧ HeaderAt st.header i s ∧
      At st.blocks ((s - 2) * 4096) (sectorData data ++ rest)

theorem placed_nil : Placed [] ⟨List.replicate 4096 0#8, 2, []⟩ where
  header := List.length_replicate
  sectors := rfl
  bound := Nat.le_refl 2
  absent := by
    intro i hi _
    have hget (k : Nat) (hk : k < 4096) : (List.replicate 4096 0#8)[k]? = some 0#8 := by
      rw [List.getElem?_replicate, if_pos hk]
    exact ⟨hget _ (by omega), hget _ (by omega), hget _ (by omega)⟩
  present := by
    intro i _ data h
    cases h

/-- **One entry**: its index now names its sectors, the other indices keep theirs. -/
theorem Placed.step {entries : List (Nat × List Byte)} {st : Layout} (h : Placed entries st)
    {e : Nat × List Byte} (he : e.1 < 1024) (hsize : e.2.length ≤ 10000000) :
    Placed (entries ++ [e]) (placeEntry st e) := by
  have hneed : sectorsNeeded e.2 ≤ 2442 := by
    unfold sectorsNeeded
    omega
  have hlen : (entries ++ [e]).length = entries.length + 1 := by simp
  have hsec := h.sectors
  have hbound := h.bound
  refine ⟨?_, ?_, ?_, fun i hi hnone => ?_, fun i hi data hsome => ?_⟩
  · simp [placeEntry, h.header]
  · simp only [placeEntry, List.length_append, length_sectorData, Nat.add_mul]
    omega
  · rw [hlen]
    simp only [placeEntry]
    omega
  · rw [lastEntry_append] at hnone
    split at hnone
    · cases hnone
    · rename_i hne
      exact (h.absent i hi hnone).placeEntry (Ne.symm hne)
  · rw [lastEntry_append] at hsome
    rw [hlen]
    split at hsome
    · rename_i heq
      subst heq
      cases hsome
      -- the sectors of the entry start where the blocks ended
      refine ⟨st.currentSector, [], by omega, by omega, headerAt_placeEntry h.header he, ?_⟩
      have hat := (At.start (sectorData e.2)).prepend st.blocks
      rw [Nat.add_zero, show st.blocks.length = (st.currentSector - 2) * 4096 by omega] at hat
      rw [List.append_nil]
      exact hat
    · rename_i hne
      obtain ⟨s, rest, h2, hs, hhead, hat⟩ := h.present i hi data hsome
      refine ⟨s, rest ++ sectorData e.2, h2, by omega, hhead.placeEntry (Ne.symm hne), ?_⟩
      have := hat.append (sectorData e.2)
      rw [List.append_assoc] at this
      exact this

/-- **The whole loop.** -/
theorem placed_layout {entries : List (Nat × List Byte)} (h : EntriesOk entries) :
    Placed entries (entries.foldl placeEntry ⟨List.replicate 4096 0#8, 2, []⟩) := by
  induction entries using List.reverseRecOn with
  | nil => exact placed_nil
  | append_singleton entries e ih =>
      have he := h e (by simp)
      rw [List.foldl_append]
      exact (ih fun a ha => h a (by simp [ha])).step he.1 he.2.2

/-- The sector number in three bytes. -/
theorem ofBe_sector {s : Nat} (h : s < 2 ^ 24) :
    ofBe [0#8, BitVec.ofNat 8 (s / 65536), BitVec.ofNat 8 (s / 256), BitVec.ofNat 8 s] = s := by
  simp only [ofBe, List.reverse_cons, List.reverse_nil, List.nil_append, List.cons_append, ofLe,
    BitVec.toNat_ofNat]
  omega

/-- **The reader finds the last entry of each index in a region of addressable size.** -/
theorem loadBytes_layout {entries : List (Nat × List Byte)} (h : EntriesOk entries)
    (hfit : 2 + 2442 * entries.length < 2 ^ 24) {i : Nat} (hi : i < 1024) :
    loadBytes (layoutRegion entries) i =
      .ok ((lastEntry entries i).map fun data => (2#8, data)) := by
  have hp := placed_layout h
  unfold layoutRegion
  generalize hst : entries.foldl placeEntry ⟨List.replicate 4096 0#8, 2, []⟩ = st at hp
  have htake : (st.header ++ (List.replicate 4096 0#8 ++ st.blocks)).take 4096 = st.header :=
    List.take_left' hp.header
  have hlen : 4096 ≤ (st.header ++ (List.replicate 4096 0#8 ++ st.blocks)).length := by
    rw [List.length_append, hp.header]
    exact Nat.le_add_right _ _
  unfold loadBytes
  rw [require_pos hlen, htake]
  cases hlast : lastEntry entries i with
  | none =>
      have hhead := hp.absent i hi hlast
      simp only [ok_bind, hhead.high, hhead.mid, hhead.low, orPanic_some, ofBe_sector (show 0 < 2 ^ 24 by decide)]
      rfl
  | some data =>
      obtain ⟨s, rest, h2, hs, hhead, hat⟩ := hp.present i hi data hlast
      obtain ⟨hpos, hsize⟩ : 0 < data.length ∧ data.length ≤ 10000000 := by
        unfold lastEntry at hlast
        obtain ⟨e, he, rfl⟩ := Option.map_eq_some_iff.1 hlast
        have := h e (by simpa using List.mem_of_find?_eq_some he)
        exact this.2
      have hfile := (hat.prepend (List.replicate 4096 0#8)).prepend st.header
      rw [hp.header, List.length_replicate,
        show 4096 + (4096 + (s - 2) * 4096) = s * 4096 by omega, sectorData, List.append_assoc,
        List.append_assoc, List.append_assoc] at hfile
      have h4 := hfile.skip (length_toBe 4 data.length)
      have h5 := h4.skip (show [2#8].length = 1 from rfl)
      rw [Nat.add_assoc] at h5
      have hsize' : ¬ (data.length = 0 ∨ data.length > 10000000) := by omega
      simp only [ok_bind, hhead.high, hhead.mid, hhead.low, orPanic_some,
        ofBe_sector (Nat.lt_of_le_of_lt hs hfit), if_neg (Nat.not_lt.2 h2),
        require_pos h4.le, hfile.readBe (show data.length < 256 ^ 4 by omega),
        require_pos h5.le, h4.getElem?, require_pos hsize', require_pos (h5.skip rfl).le,
        h5.take rfl]
      rfl

/-! ## Histories of batches -/

section Histories

variable {Z : NbtFormat}

/-- The chunks of a batch that go to a region. -/
def inRegion (region : Int × Int) (chunks : List (Stored Z)) : List (Stored Z) :=
  chunks.filter fun s => regionOf s.pos = region

theorem mem_inRegion {region : Int × Int} {chunks : List (Stored Z)} {s : Stored Z} :
    s ∈ inRegion region chunks ↔ s ∈ chunks ∧ regionOf s.pos = region := by
  simp [inRegion]

/-- The header's 24-bit sector numbers address the batch's part of every region. -/
def Addressable (chunks : List (Stored Z)) : Prop :=
  ∀ region, 2 + 2442 * (inRegion region chunks).length < 2 ^ 24

/-- A batch of chunks. -/
structure Batch (Z : NbtFormat) where
  chunks : List (Stored Z)
  addressable : Addressable chunks

/-- What writes region files. -/
inductive SaveStep (Z : NbtFormat) where
  /-- `AnvilWriter::write_chunks` of a batch -/
  | writeChunks (batch : Batch Z)
  /-- `save_world` over the loaded chunks: the dirty ones are written -/
  | saveWorld (loaded : Batch Z)
  /-- the stream eviction: the dirty ones of the evicted chunks are written -/
  | evict (evicted : Batch Z)

/-- The chunks that a step gives to the writer. -/
def SaveStep.written : SaveStep Z → List (Stored Z)
  | .writeChunks batch => batch.chunks
  | .saveWorld loaded => loaded.chunks.filter fun s => s.chunk.dirty
  | .evict evicted => evicted.chunks.filter fun s => s.chunk.dirty

/-- A step; `save_world` and the eviction do not call the writer without dirty chunks. -/
def SaveStep.apply (dir : Dir) : SaveStep Z → Dir
  | .writeChunks batch => Apoptotic.writeChunks dir batch.chunks
  | .saveWorld loaded =>
      let dirty := loaded.chunks.filter fun s => s.chunk.dirty
      if dirty.isEmpty then dir else Apoptotic.writeChunks dir dirty
  | .evict evicted =>
      let dirty := evicted.chunks.filter fun s => s.chunk.dirty
      if dirty.isEmpty then dir else Apoptotic.writeChunks dir dirty

/-- The directory after a history. -/
def runSaves (dir : Dir) (history : List (SaveStep Z)) : Dir := history.foldl SaveStep.apply dir

/-- The version of `p` written last. -/
def latest (history : List (SaveStep Z)) (p : ChunkPos) : Option (Stored Z) :=
  (history.flatMap SaveStep.written).reverse.find? fun s => s.pos = p

/-- The part in `region` of the last step that touched it. -/
def lastTouch (history : List (SaveStep Z)) (region : Int × Int) : List (Stored Z) :=
  history.foldl (fun group step =>
    match inRegion region step.written with
    | [] => group
    | group => group) []

/-- The last step that touched the region of `p` contains `p`. -/
def Covered (history : List (SaveStep Z)) (p : ChunkPos) : Prop :=
  ∃ s ∈ lastTouch history (regionOf p), s.pos = p

/-- `load_chunk` after the history returns the version of `p` written last: what that version's
own NBT parses to. -/
def ReturnsLatest (r : AnvilReader) (dir : Dir) (history : List (SaveStep Z)) (p : ChunkPos) :
    Prop :=
  ∀ v, latest history p = some v →
    loadChunk Z r (runSaves dir history) p = parseChunkNbt r p.x p.z v.nbt

theorem Addressable.filter {chunks : List (Stored Z)} (h : Addressable chunks)
    (q : Stored Z → Bool) : Addressable (chunks.filter q) := by
  intro region
  have hle : (inRegion region (chunks.filter q)).length ≤ (inRegion region chunks).length :=
    (List.filter_sublist.filter _).length_le
  have := h region
  omega

/-- Distinct coordinates, as every caller's chunks have them, are addressable. -/
theorem addressable_of_nodup {chunks : List (Stored Z)} (h : (chunks.map Stored.pos).Nodup) :
    Addressable chunks := by
  intro region
  have hnodup : ((inRegion region chunks).map fun s => localIdx s.pos).Nodup := by
    have hfilter : ((inRegion region chunks).map Stored.pos).Nodup :=
      h.sublist (List.filter_sublist.map _)
    rw [show (fun s : Stored Z => localIdx s.pos) = localIdx ∘ Stored.pos from rfl, ← List.map_map]
    refine List.Nodup.map_on (fun p hp q hq hl => ?_) hfilter
    obtain ⟨a, ha, rfl⟩ := List.mem_map.1 hp
    obtain ⟨b, hb, rfl⟩ := List.mem_map.1 hq
    have hr := (mem_inRegion.1 ha).2.trans (mem_inRegion.1 hb).2.symm
    exact pos_eq_of_region_local hr hl
  have hsub : ((inRegion region chunks).map fun s => localIdx s.pos) ⊆ List.range 1024 := by
    intro i hi
    obtain ⟨s, _, rfl⟩ := List.mem_map.1 hi
    exact List.mem_range.2 (localIdx_lt _)
  have := (hnodup.subperm hsub).length_le
  rw [List.length_map, List.length_range] at this
  omega

theorem SaveStep.addressable : ∀ step : SaveStep Z, Addressable step.written
  | .writeChunks batch => batch.addressable
  | .saveWorld loaded => loaded.addressable.filter _
  | .evict evicted => evicted.addressable.filter _

theorem writeChunks_nil (dir : Dir) : Apoptotic.writeChunks dir ([] : List (Stored Z)) = dir := rfl

/-- Every step is a call of the writer on the chunks it writes. -/
theorem SaveStep.apply_eq (dir : Dir) (step : SaveStep Z) :
    step.apply dir = Apoptotic.writeChunks dir step.written := by
  cases step with
  | writeChunks batch => rfl
  | saveWorld loaded =>
      unfold SaveStep.apply
      dsimp only
      split
      · rename_i hemp
        rw [SaveStep.written, List.isEmpty_iff.1 hemp, writeChunks_nil]
      · rfl
  | evict evicted =>
      unfold SaveStep.apply
      dsimp only
      split
      · rename_i hemp
        rw [SaveStep.written, List.isEmpty_iff.1 hemp, writeChunks_nil]
      · rfl

theorem lastTouch_append (history : List (SaveStep Z)) (step : SaveStep Z) (region : Int × Int) :
    lastTouch (history ++ [step]) region =
      if inRegion region step.written = [] then lastTouch history region
      else inRegion region step.written := by
  unfold lastTouch
  rw [List.foldl_append, List.foldl_cons, List.foldl_nil]
  cases inRegion region step.written with
  | nil => rfl
  | cons s group => rfl

theorem latest_append (history : List (SaveStep Z)) (step : SaveStep Z) (p : ChunkPos) :
    latest (history ++ [step]) p =
      ((inRegion (regionOf p) step.written).reverse.find? fun s => s.pos = p).or
        (latest history p) := by
  have hfind : (step.written.reverse.find? fun s => s.pos = p) =
      (inRegion (regionOf p) step.written).reverse.find? fun s => s.pos = p := by
    unfold inRegion
    rw [← List.filter_reverse, List.find?_filter]
    congr 1
    funext s
    by_cases h : s.pos = p
    · simp [h]
    · simp [h]
  unfold latest
  rw [List.flatMap_append, List.flatMap_singleton, List.reverse_append, List.find?_append, hfind]

/-- **The directory after a history**: a region holds the file of the last step that touched it. -/
theorem runSaves_region (dir : Dir) (history : List (SaveStep Z)) (region : Int × Int) :
    runSaves dir history region =
      if lastTouch history region = [] then dir region
      else some (writeRegion (lastTouch history region)) := by
  induction history using List.reverseRecOn with
  | nil => rfl
  | append_singleton history step ih =>
      have hrun : runSaves dir (history ++ [step]) =
          Apoptotic.writeChunks (runSaves dir history) step.written := by
        rw [runSaves, List.foldl_append, List.foldl_cons, List.foldl_nil, SaveStep.apply_eq]
        rfl
      rw [hrun, lastTouch_append]
      unfold Apoptotic.writeChunks
      cases hg : inRegion region step.written with
      | nil =>
          rw [inRegion] at hg
          rw [if_pos rfl, hg]
          exact ih
      | cons s group =>
          rw [inRegion] at hg
          rw [if_neg (List.cons_ne_nil s group), if_neg (List.cons_ne_nil s group), hg]

/-- The last step that touched a region touched it with chunks of that region, addressably. -/
theorem lastTouch_spec (history : List (SaveStep Z)) (region : Int × Int) :
    (∀ s ∈ lastTouch history region, regionOf s.pos = region) ∧
      2 + 2442 * (lastTouch history region).length < 2 ^ 24 := by
  induction history using List.reverseRecOn with
  | nil => exact ⟨nofun, Nat.lt_of_lt_of_le (Nat.lt_succ_self 2) (by decide)⟩
  | append_singleton history step ih =>
      rw [lastTouch_append]
      split
      · exact ih
      · exact ⟨fun s hs => (mem_inRegion.1 hs).2, step.addressable region⟩

/-- A region that a chunk was written to has been touched. -/
theorem lastTouch_ne_nil {history : List (SaveStep Z)} {s : Stored Z}
    (h : s ∈ history.flatMap SaveStep.written) : lastTouch history (regionOf s.pos) ≠ [] := by
  induction history using List.reverseRecOn with
  | nil => cases h
  | append_singleton history step ih =>
      rw [List.flatMap_append, List.flatMap_singleton, List.mem_append] at h
      rw [lastTouch_append]
      split
      · rename_i hemp
        rcases h with h | h
        · exact ih h
        · have := mem_inRegion.2 ⟨h, rfl⟩
          rw [hemp] at this
          cases this
      · assumption

/-- Where the last touch of its region contains `p`, it holds the latest version of `p`. -/
theorem latest_of_covered {history : List (SaveStep Z)} {p : ChunkPos}
    (h : Covered history p) :
    latest history p = (lastTouch history (regionOf p)).reverse.find? fun s => s.pos = p := by
  unfold Covered at h
  induction history using List.reverseRecOn with
  | nil =>
      obtain ⟨s, hs, _⟩ := h
      cases hs
  | append_singleton history step ih =>
      rw [lastTouch_append] at h ⊢
      rw [latest_append]
      split at h
      · rename_i hemp
        rw [if_pos hemp, hemp]
        exact ih h
      · rename_i hne
        rw [if_neg hne]
        obtain ⟨s, hs, hp⟩ := h
        cases hfind : (inRegion (regionOf p) step.written).reverse.find? fun s => s.pos = p with
        | some v => rfl
        | none =>
            have := List.find?_eq_none.1 hfind s (List.mem_reverse.2 hs)
            exact absurd hp (by simpa using this)

/-- **Loading from a region file**: the last chunk of the group with that coordinate. -/
theorem loadBytes_writeRegion {group : List (Stored Z)} {p : ChunkPos}
    (hregion : ∀ s ∈ group, regionOf s.pos = regionOf p)
    (hfit : 2 + 2442 * group.length < 2 ^ 24) :
    loadBytes (writeRegion group) (localIdx p) =
      .ok ((group.reverse.find? fun s => s.pos = p).map fun s => (2#8, s.compressed)) := by
  have hok : EntriesOk (group.map fun s => (localIdx s.pos, s.compressed)) := by
    intro e he
    obtain ⟨s, _, rfl⟩ := List.mem_map.1 he
    exact ⟨localIdx_lt _, s.nonempty, s.bounded⟩
  have hsorted : EntriesOk (sortEntries (group.map fun s => (localIdx s.pos, s.compressed))) :=
    fun e he => hok e ((List.mergeSort_perm _ _).mem_iff.1 he)
  have hlen : (sortEntries (group.map fun s => (localIdx s.pos, s.compressed))).length =
      group.length := by
    rw [sortEntries, List.length_mergeSort, List.length_map]
  have hlast : lastEntry (group.map fun s => (localIdx s.pos, s.compressed)) (localIdx p) =
      (group.reverse.find? fun s => s.pos = p).map Stored.compressed := by
    unfold lastEntry
    rw [← List.map_reverse, List.find?_map, Option.map_map]
    refine congrArg (Option.map _) (List.find?_congr fun s hs => ?_)
    have hr := hregion s (List.mem_reverse.1 hs)
    rw [Function.comp_apply, Bool.eq_iff_iff, beq_iff_eq, decide_eq_true_eq]
    exact ⟨fun hl => pos_eq_of_region_local hr hl, fun hp => by rw [hp]⟩
  rw [writeRegion, loadBytes_layout hsorted (by rw [hlen]; exact hfit) (localIdx_lt p),
    lastEntry_sortEntries, hlast, Option.map_map]
  rfl

theorem decompress_compressed (s : Stored Z) :
    decompress Z 2#8 s.compressed = .ok (Z.toBytes s.nbt) := by
  unfold decompress
  rw [if_neg (by decide), if_pos rfl, Stored.compressed, s.inflates]

/-- The parser returns a chunk or an error. -/
theorem parseChunkNbt_ne_none (r r' : AnvilReader) (cx cz : BitVec 32) (nbt : NbtValue) :
    parseChunkNbt r cx cz nbt ≠ .ok (none, r') := by
  intro h
  unfold parseChunkNbt at h
  obtain ⟨_, _, h⟩ := bind_eq_ok.1 h
  obtain ⟨_, _, h⟩ := bind_eq_ok.1 h
  cases h

theorem returnsLatest_of_covered (r : AnvilReader) (dir : Dir) {history : List (SaveStep Z)}
    {p : ChunkPos} (h : Covered history p) : ReturnsLatest r dir history p := by
  intro v hv
  obtain ⟨hregion, hfit⟩ := lastTouch_spec history (regionOf p)
  have hne : lastTouch history (regionOf p) ≠ [] := by
    obtain ⟨s, hs, _⟩ := h
    exact List.ne_nil_of_mem hs
  rw [latest_of_covered h] at hv
  unfold loadChunk
  rw [runSaves_region, if_neg hne]
  dsimp only
  rw [loadBytes_writeRegion hregion hfit, hv]
  simp only [Option.map_some, ok_bind, decompress_compressed, v.parses]

/-- A coordinate that the last touch of its region leaves out loads as absent. -/
theorem loadChunk_of_not_covered (r : AnvilReader) (dir : Dir) {history : List (SaveStep Z)}
    {p : ChunkPos} {v : Stored Z} (hv : latest history p = some v) (h : ¬ Covered history p) :
    loadChunk Z r (runSaves dir history) p = .ok (none, r) := by
  obtain ⟨hregion, hfit⟩ := lastTouch_spec history (regionOf p)
  have hmem := List.mem_of_find?_eq_some hv
  have hpos : v.pos = p := by simpa using List.find?_some hv
  have hne := lastTouch_ne_nil (List.mem_reverse.1 hmem)
  have hnone : ((lastTouch history (regionOf p)).reverse.find? fun s => s.pos = p) = none := by
    rw [List.find?_eq_none]
    intro s hs
    rw [decide_eq_true_eq]
    exact fun hp => h ⟨s, List.mem_reverse.1 hs, hp⟩
  unfold loadChunk
  rw [hpos] at hne
  rw [runSaves_region, if_neg hne]
  dsimp only
  rw [loadBytes_writeRegion hregion hfit, hnone]
  rfl

theorem covered_of_returnsLatest {r : AnvilReader} {dir : Dir} {history : List (SaveStep Z)}
    {p : ChunkPos} {v : Stored Z} (hv : latest history p = some v)
    (h : ReturnsLatest r dir history p) : Covered history p := by
  by_contra hcov
  have hload := h v hv
  rw [loadChunk_of_not_covered r dir hv hcov] at hload
  exact parseChunkNbt_ne_none r r p.x p.z v.nbt hload.symm

/-- **After a history, `load_chunk` returns the latest version of a coordinate exactly when the
last step that touched its region contains it.** -/
theorem returnsLatest_iff_covered (r : AnvilReader) (dir : Dir) (history : List (SaveStep Z))
    (p : ChunkPos) :
    ReturnsLatest r dir history p ↔ (latest history p = none ∨ Covered history p) := by
  constructor
  · intro h
    cases hv : latest history p with
    | none => exact Or.inl rfl
    | some v => exact Or.inr (covered_of_returnsLatest hv h)
  · rintro (hnone | h)
    · intro v hv
      rw [hnone] at hv
      cases hv
    · exact returnsLatest_of_covered r dir h

end Histories

/-! ## A history that loses a chunk -/

/-- The NBT of a chunk without sections. -/
def emptyNbt (p : ChunkPos) : NbtValue :=
  .compound
    [("DataVersion", .int 3700#32),
      ("Level", .compound
        [("xPos", .int p.x), ("zPos", .int p.z), ("Sections", .list []), ("isLightOn", .byte 1#8)])]

theorem serialize_new (p : ChunkPos) : serializeChunkNbt (Chunk.new p) = some (emptyNbt p) := rfl

/-- A format that stores chunks without sections: their two coordinates. -/
def coordFormat : NbtFormat where
  toBytes v :=
    match v with
    | .compound [_, (_, .compound ((_, .int x) :: (_, .int z) :: _))] =>
        toLe 4 x.toNat ++ toLe 4 z.toNat
    | _ => []
  fromBytes bytes :=
    some (emptyNbt ⟨BitVec.ofNat 32 (readLe bytes 0 4), BitVec.ofNat 32 (readLe bytes 4 4)⟩)
  zlib := id
  unzlib := some
  gunzip _ := none

/-- A stored chunk without sections. -/
def storedNew (p : ChunkPos) : Stored coordFormat where
  chunk := Chunk.new p
  nbt := emptyNbt p
  serialized := serialize_new p
  inflates := rfl
  parses := by
    have hat := At.start (toLe 4 p.x.toNat ++ (toLe 4 p.z.toNat ++ []))
    have hx := hat.readLe p.x.isLt
    have hz := (hat.skip (length_toLe 4 p.x.toNat)).readLe p.z.isLt
    rw [List.append_nil] at hx hz
    show some (emptyNbt ⟨BitVec.ofNat 32 (readLe (toLe 4 p.x.toNat ++ toLe 4 p.z.toNat) 0 4),
      BitVec.ofNat 32 (readLe (toLe 4 p.x.toNat ++ toLe 4 p.z.toNat) 4 4)⟩) = some (emptyNbt p)
    rw [hx, hz]
    simp
  nonempty := by
    show 0 < (toLe 4 p.x.toNat ++ toLe 4 p.z.toNat).length
    simp
  bounded := by
    show (toLe 4 p.x.toNat ++ toLe 4 p.z.toNat).length ≤ 10000000
    simp

/-- A batch of one chunk without sections. -/
def batchNew (p : ChunkPos) : Batch coordFormat :=
  ⟨[storedNew p], addressable_of_nodup (List.nodup_singleton _)⟩

/-- Two chunks of one region, written one after the other: the first is gone. -/
theorem not_returnsLatest_pair :
    ¬ ReturnsLatest AnvilReader.new (fun _ => none)
      [.writeChunks (batchNew ⟨0#32, 0#32⟩), .writeChunks (batchNew ⟨1#32, 0#32⟩)]
      ⟨0#32, 0#32⟩ := by
  intro h
  have hv : latest [.writeChunks (batchNew ⟨0#32, 0#32⟩), .writeChunks (batchNew ⟨1#32, 0#32⟩)]
      ⟨0#32, 0#32⟩ = some (storedNew ⟨0#32, 0#32⟩) := rfl
  obtain ⟨s, hs, hp⟩ := covered_of_returnsLatest hv h
  -- the last touch of the region is the second batch
  have hlast : s ∈ [storedNew ⟨1#32, 0#32⟩] := hs
  rw [List.mem_singleton.1 hlast] at hp
  exact absurd hp (by decide)

end Apoptotic
