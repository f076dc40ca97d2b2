import Apoptotic.Lib.Slices
import Apoptotic.Protocol.VarInt
import Apoptotic.World.Paletted

/-!
# The two encodings of a paletted container

`encode_network` / `decode_network` and `encode_binary` / `decode_binary` of
`mc-world/src/paletted.rs`.  A decoder returns the container it leaves in `self`; on an error
`self` is untouched.

Principal results: `decodeNetwork_encodeNetwork`, `decodeBinary_encodeBinary` — each decoder
returns the encoded container without its block properties; `encodings_roundtrip` — cell by
cell, for every container that `set` calls reach.
-/

namespace Apoptotic

open PackedBits Bytes Outcome Slices

namespace PalettedContainer

/-! ## Network format -/

def encodeNetwork (c : PalettedContainer) : List Byte :=
  match c.mode with
  | .single block =>
      [0#8] ++ writeVarint 1#32 ++ writeVarint block.id ++ writeVarint 0#32
  | .indirect palette data bits =>
      [BitVec.ofNat 8 bits] ++ writeVarint (BitVec.ofNat 32 palette.length) ++
        palette.flatMap (fun block => writeVarint block.id) ++
        writeVarint (BitVec.ofNat 32 data.length) ++
        data.flatMap fun word => toBe 8 word.toNat
  | .direct data =>
      [BitVec.ofNat 8 GLOBAL_BITS] ++ writeVarint 0#32 ++
        writeVarint (BitVec.ofNat 32 data.length) ++
        data.flatMap fun word => toBe 8 word.toNat

/-- `read_varint(&data[offset..])` with its error text: the value and the offset after it. -/
def readVarintAt (data : List Byte) (offset : Nat) (what : String) :
    Outcome String (BitVec 32 × Nat) := do
  demand (offset ≤ data.length)
  let (v, n) ← (readVarint (data.drop offset)).mapErr fun e => what ++ ": " ++ e.text
  pure (v, offset + n)

/-- The palette loop of `decode_network`. -/
def readPaletteNetwork (data : List Byte) :
    (n offset : Nat) → Outcome String (List BlockState × Nat)
  | 0, offset => pure ([], offset)
  | n + 1, offset => do
      let (blockId, offset) ← readVarintAt data offset "read palette entry"
      let (palette, offset) ← readPaletteNetwork data n offset
      pure (BlockState.new blockId :: palette, offset)

/-- The data loop of `decode_network`. -/
def readWordsNetwork (data : List Byte) : (n offset : Nat) → Outcome String (List Word)
  | 0, _ => pure []
  | n + 1, offset => do
      require (offset + 8 ≤ data.length) "data too short"
      let word := BitVec.ofNat 64 (readBe data offset 8)
      let packed ← readWordsNetwork data n (offset + 8)
      pure (word :: packed)

/-- The length-prefixed data array, as both arms of `decode_network` read it. -/
def readDataNetwork (data : List Byte) (offset : Nat) : Outcome String (List Word) := do
  let (dataLen, offset) ← readVarintAt data offset "read data len"
  let longCount := asUsize dataLen
  withCapacity 8 longCount
  readWordsNetwork data longCount offset

def decodeNetwork (data : List Byte) : Outcome String PalettedContainer := do
  require (data ≠ []) "empty data"
  let bitsPerEntry ← orPanic data[0]?
  let (paletteLen, offset) ← readVarintAt data 1 "read palette len"
  if paletteLen = 0#32 then
    let packed ← readDataNetwork data offset
    pure ⟨.direct packed⟩
  else
    let paletteLen := asUsize paletteLen
    withCapacity 8 paletteLen
    let (palette, offset) ← readPaletteNetwork data paletteLen offset
    let packed ← readDataNetwork data offset
    if paletteLen = 1 then
      let block ← orPanic palette[0]?
      pure ⟨.single block⟩
    else pure ⟨.indirect palette packed bitsPerEntry.toNat⟩

/-! ## Binary format -/

/-- `fast_u64_to_bytes`. -/
def fastU64ToBytes (data : List Word) : List Byte := data.flatMap fun d => toLe 8 d.toNat

/-- `fast_bytes_to_u64`: the words of the full 8-byte chunks, `count` at most. -/
def fastBytesToU64 : (count : Nat) → List Byte → List Word
  | 0, _ => []
  | count + 1, bytes =>
      if bytes.length < 8 then []
      else BitVec.ofNat 64 (ofLe (bytes.take 8)) :: fastBytesToU64 count (bytes.drop 8)

def encodeBinary (c : PalettedContainer) : List Byte :=
  match c.mode with
  | .single block => [0#8] ++ toLe 4 block.id.toNat
  | .indirect palette data bits =>
      [1#8] ++ toLe 2 palette.length ++ palette.flatMap (fun b => toLe 4 b.id.toNat) ++
        [BitVec.ofNat 8 bits] ++ toLe 4 data.length ++ fastU64ToBytes data
  | .direct data =>
      [2#8] ++ [15#8] ++ toLe 4 data.length ++ fastU64ToBytes data

/-- The palette loop of `decode_binary`. -/
def readPaletteBinary (data : List Byte) :
    (n pos : Nat) → Outcome String (List BlockState × Nat)
  | 0, pos => pure ([], pos)
  | n + 1, pos => do
      require (pos + 4 ≤ data.length) "truncated palette entry"
      let id := BitVec.ofNat 32 (readLe data pos 4)
      let (palette, pos) ← readPaletteBinary data n (pos + 4)
      pure (BlockState.new id :: palette, pos)

/-- The bit width, the data length and the words, as both arms of `decode_binary` read them. -/
def readDataBinary (data : List Byte) (pos : Nat) (noBits noLen : String) :
    Outcome String (Byte × List Word × Nat) := do
  require (pos < data.length) noBits
  let bits ← orPanic data[pos]?
  let pos := pos + 1
  require (pos + 4 ≤ data.length) noLen
  let dlen := readLe data pos 4
  let pos := pos + 4
  withCapacity 8 dlen
  let entries := fastBytesToU64 dlen (data.drop pos)
  pure (bits, entries, pos + entries.length * 8)

def decodeBinary (data : List Byte) : Outcome String (PalettedContainer × Nat) := do
  require (data ≠ []) "empty data"
  let modeByte ← orPanic data[0]?
  let pos := 1
  if modeByte = 0#8 then
    require (pos + 4 ≤ data.length) "truncated single"
    pure (⟨.single (BlockState.new (BitVec.ofNat 32 (readLe data pos 4)))⟩, pos + 4)
  else if modeByte = 1#8 then
    require (pos + 2 ≤ data.length) "truncated palette len"
    let plen := readLe data pos 2
    withCapacity 8 plen
    let (palette, pos) ← readPaletteBinary data plen (pos + 2)
    let (bits, entries, pos) ← readDataBinary data pos "truncated bits" "truncated data len"
    pure (⟨.indirect palette entries bits.toNat⟩, pos)
  else if modeByte = 2#8 then
    let (_, entries, pos) ←
      readDataBinary data pos "truncated direct bits" "truncated direct data len"
    pure (⟨.direct entries⟩, pos)
  else .err ("unknown container mode: " ++ toString modeByte.toNat)

end PalettedContainer

/-! ## What the formats can hold -/

/-- A block state as either format carries it. -/
def BlockState.stripped (b : BlockState) : BlockState := BlockState.new b.id

def ContainerMode.stripped : ContainerMode → ContainerMode
  | .single b => .single b.stripped
  | .indirect palette data bits => .indirect (palette.map BlockState.stripped) data bits
  | .direct data => .direct data

def PalettedContainer.stripped (c : PalettedContainer) : PalettedContainer := ⟨c.mode.stripped⟩

/-- The length prefixes of both formats hold the lengths of `mode`. -/
def Encodable : ContainerMode → Prop
  | .single _ => True
  | .indirect palette data bits =>
      2 ≤ palette.length ∧ palette.length < 2 ^ 16 ∧ bits < 2 ^ 8 ∧ data.length < 2 ^ 31
  | .direct data => data.length < 2 ^ 31

theorem packedWords_lt {bits : Nat} (h : bits ≤ GLOBAL_BITS) :
    packedWords BLOCKS_PER_SECTION bits < 2 ^ 31 := by
  unfold packedWords BLOCKS_PER_SECTION
  unfold GLOBAL_BITS at h
  split
  · decide
  · omega

theorem encodable_of_represents {seen : List BlockState} {f : Nat → BlockState} :
    ∀ {mode : ContainerMode}, Represents seen f mode → Encodable mode
  | .single _, _ => trivial
  | .indirect _ _ _, ⟨hp, _, h2, hle, hbits, _, hg, _⟩ => by
      subst hp hbits
      obtain ⟨_, h15, _⟩ := bitsFor_bounds h2 hle
      refine ⟨h2, by unfold GLOBAL_BITS at hle; omega, by unfold GLOBAL_BITS at h15; omega, ?_⟩
      rw [hg.length]
      exact packedWords_lt h15
  | .direct _, h => lt_of_eq_of_lt h.2.length (packedWords_lt (Nat.le_refl _))

/-- Stripping the properties keeps the id at every cell. -/
theorem getAt_stripped {c : PalettedContainer} {i : Nat} {b : BlockState} (h : c.getAt i = some b) :
    ∃ b', c.stripped.getAt i = some b' ∧ b'.id = b.id := by
  obtain ⟨mode⟩ := c
  cases mode with
  | single b0 =>
      cases h
      exact ⟨_, rfl, rfl⟩
  | indirect palette data bits =>
      simp only [PalettedContainer.getAt] at h
      simp only [PalettedContainer.getAt, PalettedContainer.stripped, ContainerMode.stripped,
        List.getElem?_map]
      split at h
      · rename_i h0
        rw [if_pos h0, h]
        exact ⟨_, rfl, rfl⟩
      · rename_i h0
        rw [if_neg h0]
        obtain ⟨v, hv, hb⟩ := Option.map_eq_some_iff.1 h
        refine ⟨(Option.map BlockState.stripped palette[v.toNat]?).getD BlockState.AIR,
          by rw [hv]; rfl, ?_⟩
        rw [← hb]
        cases palette[v.toNat]? with
        | none => rfl
        | some b0 => rfl
  | direct data => exact ⟨b, h, rfl⟩

theorem toNat_ofNat_byte {n : Nat} (h : n < 2 ^ 8) : (BitVec.ofNat 8 n).toNat = n := by
  rw [BitVec.toNat_ofNat, Nat.mod_eq_of_lt h]

namespace PalettedContainer

/-! ## Round trip of the network format -/

theorem readVarintAt_spec {data rest : List Byte} {pos : Nat} {v : BitVec 32}
    (h : At data pos (writeVarint v ++ rest)) (what : String) :
    readVarintAt data pos what = .ok (v, pos + (writeVarint v).length) := by
  unfold readVarintAt
  rw [demand_pos h.le, h.drop, readVarint_writeVarint]
  rfl

theorem readPaletteNetwork_spec {data rest : List Byte} {palette : List BlockState} {pos : Nat}
    (h : At data pos (palette.flatMap (fun block => writeVarint block.id) ++ rest)) :
    ∃ pos', readPaletteNetwork data palette.length pos =
        .ok (palette.map BlockState.stripped, pos') ∧ At data pos' rest := by
  induction palette generalizing pos with
  | nil => exact ⟨pos, rfl, h⟩
  | cons block palette ih =>
      rw [List.flatMap_cons, List.append_assoc] at h
      obtain ⟨pos', hr, hat⟩ := ih (h.skip rfl)
      refine ⟨pos', ?_, hat⟩
      rw [List.length_cons, readPaletteNetwork, readVarintAt_spec h]
      simp only [ok_bind, hr, pure_eq]
      rfl

theorem readWordsNetwork_spec {data rest : List Byte} {words : List Word} {pos : Nat}
    (h : At data pos (words.flatMap (fun word => toBe 8 word.toNat) ++ rest)) :
    readWordsNetwork data words.length pos = .ok words := by
  induction words generalizing pos with
  | nil => rfl
  | cons word words ih =>
      rw [List.flatMap_cons, List.append_assoc] at h
      have hat := h.skip (length_toBe 8 word.toNat)
      rw [List.length_cons, readWordsNetwork, require_pos hat.le, h.readBe word.isLt]
      simp only [ok_bind, ih hat, pure_eq, BitVec.ofNat_toNat, BitVec.setWidth_eq]

theorem readDataNetwork_spec {data : List Byte} {words : List Word} {pos : Nat}
    (hlen : words.length < 2 ^ 31)
    (h : At data pos (writeVarint (BitVec.ofNat 32 words.length) ++
      words.flatMap fun word => toBe 8 word.toNat)) :
    readDataNetwork data pos = .ok words := by
  have hat := h.skip rfl
  rw [← List.append_nil (words.flatMap _)] at hat
  unfold readDataNetwork
  rw [readVarintAt_spec h]
  simp only [ok_bind, asUsize_ofNat hlen, withCapacity_of_lt (show 8 * words.length < 2 ^ 63 by omega),
    readWordsNetwork_spec hat]

/-- The words of the network format. -/
def wordsNetwork (words : List Word) : List Byte := words.flatMap fun word => toBe 8 word.toNat

/-- `decode_network` on a palette of one entry or more: the single and the indirect layout. -/
theorem decodeNetwork_palette {data : List Byte} (bits : Byte) (palette : List BlockState)
    (words : List Word) (hpos : palette.length ≠ 0) (hlen : palette.length < 2 ^ 31)
    (hwords : words.length < 2 ^ 31)
    (h : At data 0 (bits :: (writeVarint (BitVec.ofNat 32 palette.length) ++
      (palette.flatMap (fun block => writeVarint block.id) ++
        (writeVarint (BitVec.ofNat 32 words.length) ++ wordsNetwork words))))) :
    decodeNetwork data =
      if palette.length = 1 then do
        let block ← orPanic (palette.map BlockState.stripped)[0]?
        pure ⟨.single block⟩
      else .ok ⟨.indirect (palette.map BlockState.stripped) words bits.toNat⟩ := by
  have h1 : At data 1 _ := h.tail
  obtain ⟨pos, hpal, hdata⟩ := readPaletteNetwork_spec (h1.skip rfl)
  have hne : ¬ BitVec.ofNat 32 palette.length = 0#32 := by
    intro e
    have := congrArg asUsize e
    rw [asUsize_ofNat hlen] at this
    exact hpos this
  unfold decodeNetwork
  rw [require_pos h.ne_nil, h.getElem?, readVarintAt_spec h1]
  simp only [orPanic_some, ok_bind, if_neg hne, asUsize_ofNat hlen,
    withCapacity_of_lt (show 8 * palette.length < 2 ^ 63 by omega), hpal,
    readDataNetwork_spec hwords hdata]
  rfl

/-- **`decode_network` inverts `encode_network` up to the block properties.** -/
theorem decodeNetwork_encodeNetwork {c : PalettedContainer} (h : Encodable c.mode) :
    decodeNetwork c.encodeNetwork = .ok c.stripped := by
  obtain ⟨mode⟩ := c
  have hat := At.start (encodeNetwork ⟨mode⟩)
  generalize hdata : encodeNetwork ⟨mode⟩ = data at hat ⊢
  cases mode with
  | single block =>
      rw [decodeNetwork_palette 0#8 [block] [] (by simp)
        (by simp) (by simp) (by simpa [encodeNetwork, wordsNetwork, ← hdata] using hat)]
      rfl
  | indirect palette words bits =>
      obtain ⟨h2, hlen, hbits, hwords⟩ := h
      rw [decodeNetwork_palette (BitVec.ofNat 8 bits) palette words
        (by omega) (by omega) hwords (by simpa [encodeNetwork, wordsNetwork, ← hdata] using hat),
        if_neg (by omega), toNat_ofNat_byte hbits]
      rfl
  | direct words =>
      have h0 : At data 0 (BitVec.ofNat 8 GLOBAL_BITS :: (writeVarint 0#32 ++
          (writeVarint (BitVec.ofNat 32 words.length) ++ wordsNetwork words))) := by
        simpa [encodeNetwork, wordsNetwork, ← hdata] using hat
      have h1 : At data 1 _ := h0.tail
      unfold decodeNetwork
      rw [require_pos h0.ne_nil, h0.getElem?, readVarintAt_spec h1]
      simp only [orPanic_some, ok_bind, if_pos]
      rw [readDataNetwork_spec h (h1.skip rfl)]
      rfl

/-! ## Round trip of the binary format -/

theorem fastBytesToU64_spec (words : List Word) (rest : List Byte) :
    fastBytesToU64 words.length (fastU64ToBytes words ++ rest) = words := by
  induction words with
  | nil => rfl
  | cons word words ih =>
      have hlen : (toLe 8 word.toNat).length = 8 := length_toLe 8 _
      rw [fastU64ToBytes, List.flatMap_cons, List.append_assoc, List.length_cons, fastBytesToU64,
        if_neg (by rw [List.length_append]; omega), List.take_left' hlen, List.drop_left' hlen,
        ofLe_toLe word.isLt]
      rw [fastU64ToBytes] at ih
      simp only [ih, BitVec.ofNat_toNat, BitVec.setWidth_eq]

theorem readPaletteBinary_spec {data rest : List Byte} {palette : List BlockState} {pos : Nat}
    (h : At data pos (palette.flatMap (fun b => toLe 4 b.id.toNat) ++ rest)) :
    ∃ pos', readPaletteBinary data palette.length pos =
        .ok (palette.map BlockState.stripped, pos') ∧ At data pos' rest := by
  induction palette generalizing pos with
  | nil => exact ⟨pos, rfl, h⟩
  | cons block palette ih =>
      rw [List.flatMap_cons, List.append_assoc] at h
      have hat := h.skip (length_toLe 4 block.id.toNat)
      obtain ⟨pos', hr, hat'⟩ := ih hat
      refine ⟨pos', ?_, hat'⟩
      rw [List.length_cons, readPaletteBinary, require_pos hat.le, h.readLe block.id.isLt]
      simp only [ok_bind, hr, pure_eq, BitVec.ofNat_toNat, BitVec.setWidth_eq]
      rfl

theorem length_fastU64ToBytes (words : List Word) :
    (fastU64ToBytes words).length = words.length * 8 := by
  induction words with
  | nil => rfl
  | cons word words ih =>
      rw [fastU64ToBytes, List.flatMap_cons, List.length_append, length_toLe, List.length_cons]
      rw [fastU64ToBytes] at ih
      omega

theorem readDataBinary_spec {data rest : List Byte} {words : List Word} {bits : Byte} {pos : Nat}
    (hlen : words.length < 2 ^ 31) (noBits noLen : String)
    (h : At data pos (bits :: (toLe 4 words.length ++ (fastU64ToBytes words ++ rest)))) :
    ∃ pos', readDataBinary data pos noBits noLen = .ok (bits, words, pos') ∧ At data pos' rest := by
  have h1 : At data (pos + 1) _ := h.tail
  have h5 := h1.skip (length_toLe 4 words.length)
  refine ⟨_, ?_, h5.skip (length_fastU64ToBytes words)⟩
  unfold readDataBinary
  rw [require_pos (show pos < data.length from h1.le), h.getElem?, orPanic_some]
  simp only [ok_bind, require_pos h5.le, h1.readLe (show words.length < 256 ^ 4 by omega),
    withCapacity_of_lt (show 8 * words.length < 2 ^ 63 by omega), h5.drop, fastBytesToU64_spec,
    pure_eq]

/-- **`decode_binary` inverts `encode_binary` up to the block properties, and consumes exactly
what was encoded.** -/
theorem decodeBinary_encodeBinary {c : PalettedContainer} (h : Encodable c.mode)
    (rest : List Byte) :
    decodeBinary (c.encodeBinary ++ rest) = .ok (c.stripped, c.encodeBinary.length) := by
  obtain ⟨mode⟩ := c
  have hat := At.start (encodeBinary ⟨mode⟩ ++ rest)
  have hlast {pos : Nat} (hpos : At (encodeBinary ⟨mode⟩ ++ rest) pos rest) :
      pos = (encodeBinary ⟨mode⟩).length := by
    have := hpos.length_eq
    rw [List.length_append] at this
    omega
  generalize hdata : encodeBinary ⟨mode⟩ ++ rest = data at hat hlast ⊢
  unfold decodeBinary
  cases mode with
  | single block =>
      have h0 : At data 0 (0#8 :: (toLe 4 block.id.toNat ++ rest)) := by
        simpa [encodeBinary, ← hdata] using hat
      have h1 : At data 1 (toLe 4 block.id.toNat ++ rest) := h0.tail
      have h5 := h1.skip (length_toLe 4 block.id.toNat)
      rw [require_pos h0.ne_nil, h0.getElem?, orPanic_some, ← hlast h5]
      simp only [ok_bind, if_pos, require_pos h5.le, h1.readLe block.id.isLt,
        BitVec.ofNat_toNat, BitVec.setWidth_eq, pure_eq]
      rfl
  | indirect palette words bits =>
      obtain ⟨h2, hlen, hbits, hwords⟩ := h
      have h0 : At data 0 (1#8 :: (toLe 2 palette.length ++
          (palette.flatMap (fun b => toLe 4 b.id.toNat) ++ (BitVec.ofNat 8 bits ::
            (toLe 4 words.length ++ (fastU64ToBytes words ++ rest)))))) := by
        simpa [encodeBinary, ← hdata] using hat
      have h1 : At data 1 _ := h0.tail
      have h3 := h1.skip (length_toLe 2 palette.length)
      obtain ⟨pos, hpal, hpos⟩ := readPaletteBinary_spec h3
      obtain ⟨pos', hread, hpos'⟩ :=
        readDataBinary_spec hwords "truncated bits" "truncated data len" hpos
      rw [require_pos h0.ne_nil, h0.getElem?, orPanic_some, ← hlast hpos']
      simp only [ok_bind, show ¬ 1#8 = 0#8 by decide, if_neg, if_pos, not_false_eq_true,
        require_pos h3.le, h1.readLe (show palette.length < 256 ^ 2 by omega),
        withCapacity_of_lt (show 8 * palette.length < 2 ^ 63 by omega), hpal, hread,
        toNat_ofNat_byte hbits, pure_eq]
      rfl
  | direct words =>
      have h0 : At data 0 (2#8 :: (15#8 ::
          (toLe 4 words.length ++ (fastU64ToBytes words ++ rest)))) := by
        simpa [encodeBinary, ← hdata] using hat
      have h1 : At data 1 _ := h0.tail
      obtain ⟨pos, hread, hpos⟩ :=
        readDataBinary_spec h "truncated direct bits" "truncated direct data len" h1
      rw [require_pos h0.ne_nil, h0.getElem?, orPanic_some, ← hlast hpos]
      simp only [ok_bind, show ¬ 2#8 = 0#8 by decide, show ¬ 2#8 = 1#8 by decide, if_neg, if_pos,
        not_false_eq_true, hread, pure_eq]
      rfl

/-! ## Reading arbitrary bytes -/

theorem readPaletteBinary_ne_panic (data : List Byte) (n pos : Nat) :
    readPaletteBinary data n pos ≠ .panic := by
  induction n generalizing pos with
  | zero => exact ok_ne_panic _
  | succ n ih =>
      refine require_bind_ne_panic fun _ => ?_
      exact bind_ne_panic (ih _) fun _ _ => ok_ne_panic _

/-- A palette that is cut off. -/
theorem readPaletteBinary_short {data : List Byte} {n pos : Nat} (hpos : pos ≤ data.length)
    (h : data.length < pos + 4 * n) :
    readPaletteBinary data n pos = .err "truncated palette entry" := by
  induction n generalizing pos with
  | zero => omega
  | succ n ih =>
      unfold readPaletteBinary
      by_cases hle : pos + 4 ≤ data.length
      · rw [require_pos hle, ok_bind, ih hle (by omega)]
        rfl
      · rw [require_neg hle]
        rfl

theorem readDataBinary_ne_panic (data : List Byte) (pos : Nat) (noBits noLen : String) :
    readDataBinary data pos noBits noLen ≠ .panic := by
  refine require_bind_ne_panic fun hpos => ?_
  rw [List.getElem?_eq_getElem hpos, orPanic_some, ok_bind]
  refine require_bind_ne_panic fun _ => ?_
  have hlen := readLe_lt data (pos + 1) 4
  dsimp only
  rw [withCapacity_of_lt (show 8 * readLe data (pos + 1) 4 < 2 ^ 63 by omega)]
  exact ok_ne_panic _

/-- **`decode_binary` panics on no input.** -/
theorem decodeBinary_ne_panic (data : List Byte) : decodeBinary data ≠ .panic := by
  refine require_bind_ne_panic fun hne => ?_
  have hpos : 0 < data.length := List.length_pos_iff.2 hne
  rw [List.getElem?_eq_getElem hpos, orPanic_some, ok_bind]
  split
  · exact require_bind_ne_panic fun _ => ok_ne_panic _
  · split
    · refine require_bind_ne_panic fun _ => ?_
      have hlen := readLe_lt data 1 2
      dsimp only
      rw [withCapacity_of_lt (show 8 * readLe data 1 2 < 2 ^ 63 by omega), ok_bind]
      refine bind_ne_panic (readPaletteBinary_ne_panic _ _ _) fun _ _ => ?_
      exact bind_ne_panic (readDataBinary_ne_panic _ _ _ _) fun _ _ => ok_ne_panic _
    · split
      · exact bind_ne_panic (readDataBinary_ne_panic _ _ _ _) fun _ _ => ok_ne_panic _
      · exact err_ne_panic _

end PalettedContainer

/-! ## Every container that `set` calls reach -/

/-- Every cell of `c'` has the block id that the cell has in `c`. -/
def SameIds (c c' : PalettedContainer) : Prop :=
  ∀ cell : Cell, ∃ b b', c.getCell cell = some b ∧ c'.getCell cell = some b' ∧ b'.id = b.id

theorem run_encodable (b0 : BlockState) (ops : List SetCall) :
    ∃ c, (PalettedContainer.filled b0).run ops = some c ∧ Encodable c.mode ∧
      SameIds c c.stripped := by
  obtain ⟨c, hrun, f, hf, _⟩ := run_represents b0 ops
  refine ⟨c, hrun, encodable_of_represents hf, fun cell => ?_⟩
  have hget := getAt_of_represents hf cell.idx_lt
  obtain ⟨b', hb', hid⟩ := getAt_stripped hget
  exact ⟨_, b', hget, hb', hid⟩

/-- **Both encodings of a container that `set` calls reach decode to the same block ids; the
binary one does so before any further bytes and reports its own length.** -/
theorem encodings_roundtrip (b0 : BlockState) (ops : List SetCall) :
    ∃ c, (PalettedContainer.filled b0).run ops = some c ∧
      (∃ c', PalettedContainer.decodeNetwork c.encodeNetwork = .ok c' ∧ SameIds c c') ∧
      ∀ rest : List Byte, ∃ c',
        PalettedContainer.decodeBinary (c.encodeBinary ++ rest) =
          .ok (c', c.encodeBinary.length) ∧ SameIds c c' := by
  obtain ⟨c, hrun, henc, hsame⟩ := run_encodable b0 ops
  refine ⟨c, hrun, ⟨c.stripped, ?_, hsame⟩, fun rest => ⟨c.stripped, ?_, hsame⟩⟩
  · exact PalettedContainer.decodeNetwork_encodeNetwork henc
  · exact PalettedContainer.decodeBinary_encodeBinary henc rest

end Apoptotic
