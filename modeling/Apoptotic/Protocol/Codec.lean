import Apoptotic.Lib.Slices
import Apoptotic.Protocol.VarInt

/-!
# Frames and compression

`MinecraftCodec` of `mc-protocol/src/codec.rs` and `PacketStream::read_frame` of
`mc-network/src/packet_io.rs`.  A frame is a length and a body.  With compression on, the body
starts with the length of the uncompressed data, 0 for a body that is not compressed.
`encode` and `decode_frame` know the three layouts of a body; `decode`, which the handlers call
on the body of a frame, parses every body as an uncompressed one.

Principal results: `encode_eq` — the frame `encode` writes; `readFrame_encode` — the transport
hands its body on; `decodeFrame_encode` — `decode_frame` undoes `encode` at every threshold;
`frameRoundTrips_iff` — exactly when `decode` does.
-/

namespace Apoptotic

open Bytes Outcome Slices

/-! ## Errors -/

inductive CodecError where
  | io (text : String)
  | varInt (e : VarIntError)
  | invalidPacketId (expected got : BitVec 32)
  | malformed (text : String)
  deriving DecidableEq, Repr

/-- The `Display` text of the error. -/
def CodecError.text : CodecError → String
  | io text => "IO error: " ++ text
  | varInt e => "VarInt error: " ++ e.text
  | invalidPacketId expected got =>
      "Invalid packet ID: expected " ++ toString expected.toInt ++ ", got " ++ toString got.toInt
  | malformed text => "Malformed packet: " ++ text

/-! ## Packets -/

/-- What `encode` asks of a packet. -/
structure PacketEncoder where
  packetId : BitVec 32
  encodePayload : List Byte

structure PacketDecoder (T : Type) where
  packetId : BitVec 32
  decodePayload : List Byte → Outcome CodecError T

/-- The compression library outside the repository, which loses nothing. -/
structure Zlib where
  deflate : List Byte → List Byte
  inflate : List Byte → Except String (List Byte)
  lossless : ∀ data, inflate (deflate data) = .ok data

/-! ## The codec -/

structure MinecraftCodec where
  compressionThreshold : BitVec 32
  deriving DecidableEq, Repr

/-- Packet id and payload: what is compressed. -/
def PacketEncoder.packetData (encoder : PacketEncoder) : List Byte :=
  writeVarint encoder.packetId ++ encoder.encodePayload

/-- `len() as i32`. -/
def lenAsI32 (data : List Byte) : BitVec 32 := BitVec.ofNat 32 data.length

namespace MinecraftCodec

def encode (Z : Zlib) (codec : MinecraftCodec) (encoder : PacketEncoder) :
    Outcome CodecError (List Byte) :=
  let packetData := encoder.packetData
  if codec.compressionThreshold.toNat > 0 then
    let (dataLenVarint, body) :=
      if packetData.length ≥ codec.compressionThreshold.toNat then
        (writeVarint (lenAsI32 packetData), Z.deflate packetData)
      else (writeVarint 0#32, packetData)
    .ok (writeVarint (BitVec.ofNat 32 (dataLenVarint.length + body.length)) ++ dataLenVarint ++ body)
  else .ok (writeVarint (lenAsI32 packetData) ++ packetData)

def parsePacketIdAndPayload (data : List Byte) : Outcome CodecError (BitVec 32 × List Byte) := do
  let (packetId, idBytes) ← (readVarint data).mapErr .varInt
  let payload ← sliceFrom data idBytes
  pure (packetId, payload)

/-- `read_to_end` of the decoder: the capacity that is asked for, then the bytes. -/
def decompress (Z : Zlib) (dataLen : BitVec 32) (payload : List Byte) :
    Outcome CodecError (List Byte) := do
  withCapacity 1 (asUsize dataLen)
  match Z.inflate payload with
  | .ok decompressed => .ok decompressed
  | .error e => .err (.io e)

/-- The compressed arm of `decode_frame`. -/
def parseCompressible (Z : Zlib) (packetData : List Byte) :
    Outcome CodecError (BitVec 32 × List Byte) := do
  let (dataLen, dlBytes) ← (readVarint packetData).mapErr .varInt
  let payload ← sliceFrom packetData dlBytes
  if dataLen = 0#32 then parsePacketIdAndPayload payload
  else
    let decompressed ← decompress Z dataLen payload
    parsePacketIdAndPayload decompressed

def decodeFrame (Z : Zlib) (codec : MinecraftCodec) (frame : List Byte) :
    Outcome CodecError (BitVec 32 × List Byte) := do
  let (totalLen, headerBytes) ← (readVarint frame).mapErr .varInt
  let remaining ← sliceFrom frame headerBytes
  require (asUsize totalLen ≤ remaining.length) (.malformed "frame too short")
  let packetData ← slice remaining 0 (asUsize totalLen)
  if codec.compressionThreshold.toNat > 0 then parseCompressible Z packetData
  else parsePacketIdAndPayload packetData

/-- `decode` of the body of a frame; the codec's threshold is not read. -/
def decode {T : Type} (_codec : MinecraftCodec) (decoder : PacketDecoder T) (frame : List Byte) :
    Outcome CodecError T := do
  let (packetId, payload) ← parsePacketIdAndPayload frame
  require (packetId = decoder.packetId) (.invalidPacketId decoder.packetId packetId)
  decoder.decodePayload payload

end MinecraftCodec

/-! ## The transport -/

inductive StreamError where
  | unexpectedEof
  | invalidData (text : String)
  deriving DecidableEq, Repr

/-- The length loop of `read_frame`: the length and the rest of the stream. -/
def readLength (length : BitVec 32) (shift : Nat) :
    List Byte → Outcome StreamError (BitVec 32 × List Byte)
  | [] => .err .unexpectedEof
  | byte :: stream =>
      let length := length ||| ((byte &&& 0x7F#8).setWidth 32 <<< shift)
      if byte &&& 0x80#8 = 0#8 then .ok (length, stream)
      else if shift + 7 ≥ 32 then .err (.invalidData "VarInt too large")
      else readLength length (shift + 7) stream

/-- `read_frame` on an unencrypted stream: the body of the first frame and the rest. -/
def readFrame (stream : List Byte) : Outcome StreamError (List Byte × List Byte) := do
  let (length, stream) ← readLength 0#32 0 stream
  let frameLen := asUsize length
  require (frameLen ≤ 2097152) (.invalidData ("frame too large: " ++ toString frameLen))
  require (frameLen ≤ stream.length) .unexpectedEof
  pure (stream.take frameLen, stream.drop frameLen)

/-! ## The frame of a packet -/

/-- The body `encode` puts behind the length. -/
def MinecraftCodec.frameBody (Z : Zlib) (codec : MinecraftCodec) (encoder : PacketEncoder) :
    List Byte :=
  if codec.compressionThreshold.toNat > 0 then
    if encoder.packetData.length ≥ codec.compressionThreshold.toNat then
      writeVarint (lenAsI32 encoder.packetData) ++ Z.deflate encoder.packetData
    else writeVarint 0#32 ++ encoder.packetData
  else encoder.packetData

section Codec

variable (Z : Zlib) (codec : MinecraftCodec) (encoder : PacketEncoder)

theorem encode_eq : codec.encode Z encoder =
    .ok (writeVarint (lenAsI32 (codec.frameBody Z encoder)) ++ codec.frameBody Z encoder) := by
  unfold MinecraftCodec.encode MinecraftCodec.frameBody
  dsimp only
  split
  · split
    · simp [lenAsI32]
    · simp [lenAsI32]
  · rfl

theorem parse_writeVarint (v : BitVec 32) (payload : List Byte) :
    MinecraftCodec.parsePacketIdAndPayload (writeVarint v ++ payload) = .ok (v, payload) := by
  unfold MinecraftCodec.parsePacketIdAndPayload
  rw [readVarint_writeVarint, mapErr_ok, ok_bind]
  dsimp only
  rw [sliceFrom_of_le (by simp), ok_bind, List.drop_left, pure_eq]

/-! ## The transport hands the body on -/

/-- `read_frame`'s length loop reads what `read_varint` reads. -/
theorem readLength_of_readVarintLoop {length v : BitVec 32} {shift bytesRead n : Nat}
    {stream : List Byte} (h : readVarintLoop length shift bytesRead stream = .ok (v, n)) :
    readLength length shift stream = .ok (v, stream.drop (n - bytesRead)) := by
  induction stream generalizing length shift bytesRead with
  | nil => cases h
  | cons byte stream ih =>
      have hn := readVarintLoop_le h
      unfold readVarintLoop at h
      unfold readLength
      dsimp only at h ⊢
      split at h
      · rename_i hlast
        cases h
        rw [if_pos hlast, Nat.add_sub_cancel_left, List.drop_succ_cons, List.drop_zero]
      · rename_i hlast
        split at h
        · cases h
        · rename_i hshift
          rw [if_neg hlast, if_neg hshift, ih h]
          rw [show n - bytesRead = n - (bytesRead + 1) + 1 by omega, List.drop_succ_cons]

theorem readLength_writeVarint (v : BitVec 32) (rest : List Byte) :
    readLength 0#32 0 (writeVarint v ++ rest) = .ok (v, rest) := by
  have h := readVarint_writeVarint v rest
  unfold readVarint at h
  rw [readLength_of_readVarintLoop h, Nat.sub_zero, List.drop_left]

/-- **A frame within the transport's limit is handed on whole.** -/
theorem readFrame_encode (rest : List Byte)
    (hbody : (codec.frameBody Z encoder).length ≤ 2097152) :
    (codec.encode Z encoder).mapErr (fun _ => StreamError.unexpectedEof) >>=
        (fun frame => readFrame (frame ++ rest)) =
      .ok (codec.frameBody Z encoder, rest) := by
  rw [encode_eq, mapErr_ok, ok_bind]
  unfold readFrame
  rw [List.append_assoc, readLength_writeVarint, ok_bind]
  dsimp only
  have hlen : asUsize (lenAsI32 (codec.frameBody Z encoder)) =
      (codec.frameBody Z encoder).length := asUsize_ofNat (by omega)
  rw [hlen, require_pos hbody, ok_bind, require_pos (by simp), ok_bind, List.take_left,
    List.drop_left, pure_eq]

/-! ## `decode_frame` -/

theorem decompress_deflate {data : List Byte} (h : data.length < 2 ^ 31) :
    MinecraftCodec.decompress Z (lenAsI32 data) (Z.deflate data) = .ok data := by
  unfold MinecraftCodec.decompress
  have hlen : asUsize (lenAsI32 data) = data.length := asUsize_ofNat h
  rw [hlen, withCapacity_of_lt (by omega), ok_bind, Z.lossless]

/-- **`decode_frame` undoes `encode` under every threshold**, for lengths that fit an `i32`. -/
theorem decodeFrame_encode (hbody : (codec.frameBody Z encoder).length < 2 ^ 31)
    (hdata : encoder.packetData.length < 2 ^ 31) :
    (codec.encode Z encoder >>= codec.decodeFrame Z) =
      .ok (encoder.packetId, encoder.encodePayload) := by
  have hplain : MinecraftCodec.parsePacketIdAndPayload encoder.packetData =
      .ok (encoder.packetId, encoder.encodePayload) := parse_writeVarint _ _
  have hlen : asUsize (lenAsI32 (codec.frameBody Z encoder)) =
      (codec.frameBody Z encoder).length := asUsize_ofNat hbody
  rw [encode_eq, ok_bind]
  unfold MinecraftCodec.decodeFrame
  rw [readVarint_writeVarint, mapErr_ok, ok_bind]
  dsimp only
  rw [sliceFrom_of_le (by simp), ok_bind, List.drop_left, hlen, require_pos (Nat.le_refl _),
    ok_bind, slice_of_le (Nat.zero_le _) (Nat.le_refl _), ok_bind, List.drop_zero, Nat.sub_zero,
    List.take_length]
  unfold MinecraftCodec.frameBody
  split
  · unfold MinecraftCodec.parseCompressible
    split
    · rename_i hge
      have hne : lenAsI32 encoder.packetData ≠ 0#32 := by
        intro h0
        have h1 := congrArg asUsize h0
        rw [lenAsI32, asUsize_ofNat hdata] at h1
        have : asUsize 0#32 = 0 := by decide
        omega
      rw [readVarint_writeVarint, mapErr_ok, ok_bind]
      dsimp only
      rw [sliceFrom_of_le (by simp), ok_bind, List.drop_left, if_neg hne,
        decompress_deflate Z hdata, ok_bind, hplain]
    · rw [readVarint_writeVarint, mapErr_ok, ok_bind]
      dsimp only
      rw [sliceFrom_of_le (by simp), ok_bind, List.drop_left, if_pos rfl, hplain]
  · exact hplain

end Codec

/-! ## `decode` -/

/-- A packet whose decoder gives back what its encoder wrote. -/
structure Packet (T : Type) where
  value : T
  encoder : PacketEncoder
  decoder : PacketDecoder T
  same_id : encoder.packetId = decoder.packetId
  inverts : decoder.decodePayload encoder.encodePayload = .ok value

/-- `encode`, the length stripped as `read_frame` strips it, and `decode` give back the packet. -/
def FrameRoundTrips {T : Type} (Z : Zlib) (codec : MinecraftCodec) (p : Packet T) : Prop :=
  ∃ frame length body, codec.encode Z p.encoder = .ok frame ∧
    readLength 0#32 0 frame = .ok (length, body) ∧ codec.decode p.decoder body = .ok p.value

/-- With compression on, the body happens to read as the packet uncompressed: its data length in
place of the packet id, and what follows in place of the payload. -/
def ReadsUncompressed {T : Type} (Z : Zlib) (codec : MinecraftCodec) (p : Packet T) : Prop :=
  if p.encoder.packetData.length ≥ codec.compressionThreshold.toNat then
    p.encoder.packetId = lenAsI32 p.encoder.packetData ∧
      p.decoder.decodePayload (Z.deflate p.encoder.packetData) = .ok p.value
  else
    p.encoder.packetId = 0#32 ∧
      p.decoder.decodePayload p.encoder.packetData = .ok p.value

theorem decode_writeVarint {T : Type} (codec : MinecraftCodec) (decoder : PacketDecoder T)
    (v : BitVec 32) (payload : List Byte) (x : T) :
    codec.decode decoder (writeVarint v ++ payload) = .ok x ↔
      v = decoder.packetId ∧ decoder.decodePayload payload = .ok x := by
  unfold MinecraftCodec.decode
  rw [parse_writeVarint, ok_bind]
  dsimp only
  constructor
  · intro h
    obtain ⟨u, hid, hp⟩ := bind_eq_ok.1 h
    exact ⟨require_eq_ok.1 hid, hp⟩
  · rintro ⟨hid, hp⟩
    rw [require_pos hid, ok_bind, hp]

/-- The round trip is `decode` on the body `encode` wrote. -/
theorem frameRoundTrips_iff_decode {T : Type} (Z : Zlib) (codec : MinecraftCodec) (p : Packet T) :
    FrameRoundTrips Z codec p ↔
      codec.decode p.decoder (codec.frameBody Z p.encoder) = .ok p.value := by
  have henc := encode_eq Z codec p.encoder
  have hlen := readLength_writeVarint (lenAsI32 (codec.frameBody Z p.encoder))
    (codec.frameBody Z p.encoder)
  constructor
  · rintro ⟨frame, length, body, hframe, hread, hdec⟩
    rw [henc] at hframe
    cases hframe
    rw [hlen] at hread
    cases hread
    exact hdec
  · intro hdec
    exact ⟨_, _, _, henc, hlen, hdec⟩

/-- **`decode` gives back every packet exactly when compression is off**, but for packets that a
compressed body happens to read as. -/
theorem frameRoundTrips_iff {T : Type} (Z : Zlib) (codec : MinecraftCodec) (p : Packet T) :
    FrameRoundTrips Z codec p ↔
      codec.compressionThreshold = 0#32 ∨ ReadsUncompressed Z codec p := by
  rw [frameRoundTrips_iff_decode]
  by_cases h0 : codec.compressionThreshold = 0#32
  · have hbody : codec.frameBody Z p.encoder =
        writeVarint p.encoder.packetId ++ p.encoder.encodePayload := by
      unfold MinecraftCodec.frameBody
      rw [if_neg (by simp [h0])]
      rfl
    rw [hbody, decode_writeVarint]
    exact ⟨fun _ => Or.inl h0, fun _ => ⟨p.same_id, p.inverts⟩⟩
  · have hpos : codec.compressionThreshold.toNat > 0 := by
      have hne : codec.compressionThreshold.toNat ≠ 0 := fun e =>
        h0 (BitVec.eq_of_toNat_eq (by simpa using e))
      omega
    -- Either body starts with a number that is read as the packet id.
    have hbody : ∀ (v : BitVec 32) (payload : List Byte),
        codec.decode p.decoder (writeVarint v ++ payload) = .ok p.value ↔
          codec.compressionThreshold = 0#32 ∨
            (p.encoder.packetId = v ∧ p.decoder.decodePayload payload = .ok p.value) := by
      intro v payload
      rw [decode_writeVarint, ← p.same_id, or_iff_right h0, eq_comm (a := v)]
    unfold MinecraftCodec.frameBody ReadsUncompressed
    rw [if_pos hpos]
    split
    · exact hbody _ _
    · exact hbody _ _

/-! ## The packet after the compression switch -/

namespace LoginAcknowledged

def encoder : PacketEncoder := ⟨0x03#32, []⟩

def decoder : PacketDecoder Unit := ⟨0x03#32, fun _ => .ok ()⟩

/-- The first packet the server decodes after it has switched compression on. -/
def packet : Packet Unit := ⟨(), encoder, decoder, rfl, rfl⟩

end LoginAcknowledged

/-- A library that stores what it is given. -/
def Zlib.stored : Zlib := ⟨id, .ok, fun _ => rfl⟩

/-- The threshold of 256 loses the packet: its body starts with a 0 where `decode` reads the id. -/
theorem not_forall_frameRoundTrips :
    ¬ ∀ (T : Type) (Z : Zlib) (codec : MinecraftCodec) (p : Packet T),
      FrameRoundTrips Z codec p := by
  intro h
  have hd := (frameRoundTrips_iff_decode Zlib.stored ⟨256#32⟩ LoginAcknowledged.packet).1
    (h Unit Zlib.stored ⟨256#32⟩ LoginAcknowledged.packet)
  have hdata : LoginAcknowledged.packet.encoder.packetData = [0x03#8] := by
    show writeVarint 0x03#32 ++ [] = [0x03#8]
    rw [writeVarint]
    decide
  have hbody : MinecraftCodec.frameBody Zlib.stored ⟨256#32⟩ LoginAcknowledged.packet.encoder =
      writeVarint 0#32 ++ LoginAcknowledged.packet.encoder.packetData := by
    unfold MinecraftCodec.frameBody
    rw [if_pos (by decide), if_neg (by rw [hdata]; decide)]
  rw [hbody, decode_writeVarint] at hd
  exact absurd hd.1 (by decide)

end Apoptotic
