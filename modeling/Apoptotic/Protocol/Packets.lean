import Apoptotic.Protocol.Codec

/-!
# The packets a client sends

The readers of `mc-protocol/src/codec.rs` and the decoders of `packets/login.rs` and
`packets/play.rs` that read the bytes of their packet.  `checks` tells whether the build checks
overflow.

Principal definitions: `readString`, `takeLen` and the `decodePayload` of each packet;
`PacketPanics` says on which inputs they panic.
-/

namespace Apoptotic

open Bytes Outcome Slices

/-! ## UTF-8 -/

/-- `std::str::Utf8Error`. -/
structure Utf8Error where
  validUpTo : Nat
  errorLen : Option Nat
  deriving DecidableEq, Repr

/-- The `Display` text of the error. -/
def Utf8Error.text (e : Utf8Error) : String :=
  match e.errorLen with
  | some n =>
      "invalid utf-8 sequence of " ++ toString n ++ " bytes from index " ++ toString e.validUpTo
  | none => "incomplete utf-8 byte sequence from index " ++ toString e.validUpTo

def isContinuation (b : Byte) : Bool := b &&& 0xC0#8 = 0x80#8

/-- The bytes that may follow the first byte of a sequence of three or four. -/
def isSecond (first b : Byte) : Bool :=
  if first = 0xE0#8 then 0xA0#8 ≤ b ∧ b ≤ 0xBF#8
  else if first = 0xED#8 then 0x80#8 ≤ b ∧ b ≤ 0x9F#8
  else if first = 0xF0#8 then 0x90#8 ≤ b ∧ b ≤ 0xBF#8
  else if first = 0xF4#8 then 0x80#8 ≤ b ∧ b ≤ 0x8F#8
  else isContinuation b

/-- Where the bytes from `index` on stop being UTF-8. -/
def utf8Error (index : Nat) : List Byte → Utf8Error
  | [] => ⟨index, none⟩
  | first :: rest =>
      if first < 0x80#8 then utf8Error (index + 1) rest
      else if 0xC2#8 ≤ first ∧ first ≤ 0xDF#8 then
        match rest with
        | [] => ⟨index, none⟩
        | b1 :: rest => if isContinuation b1 then utf8Error (index + 2) rest else ⟨index, some 1⟩
      else if 0xE0#8 ≤ first ∧ first ≤ 0xEF#8 then
        match rest with
        | [] => ⟨index, none⟩
        | b1 :: rest =>
            if isSecond first b1 then
              match rest with
              | [] => ⟨index, none⟩
              | b2 :: rest =>
                  if isContinuation b2 then utf8Error (index + 3) rest else ⟨index, some 2⟩
            else ⟨index, some 1⟩
      else if 0xF0#8 ≤ first ∧ first ≤ 0xF4#8 then
        match rest with
        | [] => ⟨index, none⟩
        | b1 :: rest =>
            if isSecond first b1 then
              match rest with
              | [] => ⟨index, none⟩
              | b2 :: rest =>
                  if isContinuation b2 then
                    match rest with
                    | [] => ⟨index, none⟩
                    | b3 :: rest =>
                        if isContinuation b3 then utf8Error (index + 4) rest
                        else ⟨index, some 3⟩
                  else ⟨index, some 2⟩
            else ⟨index, some 1⟩
      else ⟨index, some 1⟩

/-- `std::str::from_utf8`. -/
def fromUtf8 (bytes : List Byte) : Outcome Utf8Error String :=
  match String.fromUTF8? (bytes.map UInt8.ofBitVec).toByteArray with
  | some s => .ok s
  | none => .err (utf8Error 0 bytes)

/-! ## Readers -/

/-- `let end = offset + len as usize; if end > data.len() { return Err(..) } &data[offset..end]`:
the block and its end. -/
def takeLen (checks : Bool) (data : List Byte) (offset : Nat) (len : BitVec 32) (e : CodecError) :
    Outcome CodecError (List Byte × Nat) := do
  let stop ← usizeAdd checks offset (asUsize len)
  require (stop ≤ data.length) e
  let block ← slice data offset stop
  pure (block, stop)

def readVarintEnum (data : List Byte) : Outcome CodecError (BitVec 32 × Nat) :=
  (readVarint data).mapErr .varInt

def readString (checks : Bool) (data : List Byte) : Outcome CodecError (String × Nat) := do
  let (len, lenBytes) ← readVarintEnum data
  let (bytes, stop) ← takeLen checks data lenBytes len (.malformed "string data too short")
  let s ← (fromUtf8 bytes).mapErr fun e => .malformed ("invalid UTF-8: " ++ e.text)
  pure (s, stop)

def readU8 (data : List Byte) : Outcome CodecError (Byte × Nat) := do
  require (data ≠ []) (.malformed "u8 too short")
  let b ← orPanic data[0]?
  pure (b, 1)

def readBool (data : List Byte) : Outcome CodecError (Bool × Nat) := do
  require (data ≠ []) (.malformed "bool too short")
  let b ← orPanic data[0]?
  pure (b ≠ 0#8, 1)

def readI64 (data : List Byte) : Outcome CodecError (BitVec 64 × Nat) := do
  require (8 ≤ data.length) (.malformed "i64 too short")
  let block ← slice data 0 8
  pure (BitVec.ofNat 64 (ofBe block), 8)

abbrev Uuid := BitVec 128

def readUuid (data : List Byte) : Outcome CodecError (Uuid × Nat) := do
  require (16 ≤ data.length) (.malformed "UUID too short")
  let block ← slice data 0 16
  pure (BitVec.ofNat 128 (ofBe block), 16)

/-- `let (v, n) = read(&data[offset..])?; offset += n;`. -/
def readAt {α : Type} (checks : Bool) (read : List Byte → Outcome CodecError (α × Nat))
    (data : List Byte) (offset : Nat) : Outcome CodecError (α × Nat) := do
  let rest ← sliceFrom data offset
  let (v, n) ← read rest
  let offset ← usizeAdd checks offset n
  pure (v, offset)

/-- `let (v, _) = read(&data[offset..])?;`. -/
def readLast {α : Type} (read : List Byte → Outcome CodecError (α × Nat)) (data : List Byte)
    (offset : Nat) : Outcome CodecError α := do
  let rest ← sliceFrom data offset
  let (v, _) ← read rest
  pure v

/-! ## Login packets -/

structure LoginStart where
  username : String
  playerUuid : Option Uuid
  deriving DecidableEq, Repr

def LoginStart.decodePayload (checks : Bool) (data : List Byte) :
    Outcome CodecError LoginStart := do
  let (username, offset) ← readString checks data
  if offset < data.length then
    let uuid ← readLast readUuid data offset
    pure ⟨username, some uuid⟩
  else pure ⟨username, none⟩

structure EncryptionResponse where
  sharedSecret : List Byte
  verifyToken : List Byte
  deriving DecidableEq, Repr

/-- The token's length is read twice, for its value and for its size. -/
def EncryptionResponse.decodePayload (checks : Bool) (data : List Byte) :
    Outcome CodecError EncryptionResponse := do
  let (secretLen, offset) ← readVarintEnum data
  let (sharedSecret, offset) ←
    takeLen checks data offset secretLen (.malformed "shared secret too short")
  let tokenLen ← readLast readVarintEnum data offset
  let (_, offset) ← readAt checks readVarintEnum data offset
  let (verifyToken, _) ←
    takeLen checks data offset tokenLen (.malformed "verify token too short")
  pure ⟨sharedSecret, verifyToken⟩

structure SetCompression where
  threshold : BitVec 32
  deriving DecidableEq, Repr

def SetCompression.decodePayload (data : List Byte) : Outcome CodecError SetCompression := do
  let (threshold, _) ← readVarintEnum data
  pure ⟨threshold⟩

/-! ## Play packets -/

structure KeepAlive where
  id : BitVec 64
  deriving DecidableEq, Repr

def KeepAlive.decodePayload (data : List Byte) : Outcome CodecError KeepAlive := do
  let (id, _) ← readI64 data
  pure ⟨id⟩

structure ClientInformation where
  locale : String
  viewDistance : Byte
  chatMode : BitVec 32
  chatColors : Bool
  displayedSkinParts : Byte
  mainHand : BitVec 32
  enableTextFiltering : Bool
  allowServerListings : Bool
  deriving DecidableEq, Repr

def ClientInformation.decodePayload (checks : Bool) (data : List Byte) :
    Outcome CodecError ClientInformation := do
  let (locale, offset) ← readString checks data
  let (viewDistance, offset) ← readAt checks readU8 data offset
  let (chatMode, offset) ← readAt checks readVarintEnum data offset
  let (chatColors, offset) ← readAt checks readBool data offset
  let (displayedSkinParts, offset) ← readAt checks readU8 data offset
  let (mainHand, offset) ← readAt checks readVarintEnum data offset
  let (enableTextFiltering, offset) ← readAt checks readBool data offset
  let allowServerListings ← readLast readBool data offset
  pure ⟨locale, viewDistance, chatMode, chatColors, displayedSkinParts, mainHand,
    enableTextFiltering, allowServerListings⟩

structure TeleportConfirm where
  teleportId : BitVec 32
  deriving DecidableEq, Repr

def TeleportConfirm.decodePayload (data : List Byte) : Outcome CodecError TeleportConfirm := do
  let (teleportId, _) ← readVarintEnum data
  pure ⟨teleportId⟩

structure ChatCommand where
  command : String
  deriving DecidableEq, Repr

def ChatCommand.decodePayload (checks : Bool) (data : List Byte) :
    Outcome CodecError ChatCommand := do
  let (command, _) ← readString checks data
  pure ⟨command⟩

structure ClientCommand where
  action : BitVec 32
  deriving DecidableEq, Repr

def ClientCommand.decodePayload (data : List Byte) : Outcome CodecError ClientCommand := do
  let (action, _) ← readVarintEnum data
  pure ⟨action⟩

structure PlayerCommand where
  entityId : BitVec 32
  action : BitVec 32
  data : BitVec 32
  deriving DecidableEq, Repr

def PlayerCommand.decodePayload (checks : Bool) (data : List Byte) :
    Outcome CodecError PlayerCommand := do
  let (entityId, offset) ← readVarintEnum data
  let (action, offset) ← readAt checks readVarintEnum data offset
  let last ← readLast readVarintEnum data offset
  pure ⟨entityId, action, last⟩

/-- The two floats of the movement vector are their bit patterns. -/
structure PlayerInput where
  inputFlags : BitVec 32
  moveVector : BitVec 32 × BitVec 32
  isSprint : Bool
  isSneak : Bool
  deriving DecidableEq, Repr

def PlayerInput.decodePayload (data : List Byte) : Outcome CodecError PlayerInput := do
  require (11 ≤ data.length) (.malformed "PlayerInput too short")
  let flagBytes ← slice data 0 3
  let sidewaysBytes ← slice data 3 7
  let forwardBytes ← slice data 7 11
  let flags := BitVec.ofNat 32 (ofLe flagBytes)
  pure ⟨flags, (BitVec.ofNat 32 (ofLe sidewaysBytes), BitVec.ofNat 32 (ofLe forwardBytes)),
    flags &&& 0x20#32 ≠ 0#32, flags &&& 0x10#32 ≠ 0#32⟩

structure ContainerClick where
  windowId : Byte
  stateId : BitVec 32
  slot : BitVec 16
  button : Byte
  mode : BitVec 32
  deriving DecidableEq, Repr

/-- The button may be missing, the mode may not: the offset passes the button either way. -/
def ContainerClick.decodePayload (checks : Bool) (data : List Byte) :
    Outcome CodecError ContainerClick := do
  require (data ≠ []) (.malformed "too short")
  let windowId ← orPanic data[0]?
  let rest ← sliceFrom data 1
  let (stateId, off) ← readVarintEnum rest
  let off ← usizeAdd checks off 1
  let slotEnd ← usizeAdd checks off 2
  require (slotEnd ≤ data.length) (.malformed "too short for slot")
  let slotBytes ← slice data off slotEnd
  let off := slotEnd
  let button := data[off]?.getD 0#8
  let off ← usizeAdd checks off 1
  let mode ← readLast readVarintEnum data off
  pure ⟨windowId, stateId, BitVec.ofNat 16 (ofBe slotBytes), button, mode⟩

structure ContainerClose where
  windowId : Byte
  deriving DecidableEq, Repr

def ContainerClose.decodePayload (data : List Byte) : Outcome CodecError ContainerClose := do
  require (data ≠ []) (.malformed "too short")
  let windowId ← orPanic data[0]?
  pure ⟨windowId⟩

structure PlaceRecipe where
  windowId : Byte
  recipeIndex : BitVec 32
  makeAll : Bool
  deriving DecidableEq, Repr

/-- `while off < data.len() && data[off] & 0x80 != 0 { off += 1; }`. -/
def skipHighBytes (data : List Byte) (off : Nat) : Nat :=
  if h : off < data.length then
    if data[off] &&& 0x80#8 ≠ 0#8 then skipHighBytes data (off + 1) else off
  else off
termination_by data.length - off

def PlaceRecipe.decodePayload (checks : Bool) (data : List Byte) :
    Outcome CodecError PlaceRecipe := do
  require (data ≠ []) (.malformed "too short")
  let windowId ← orPanic data[0]?
  let recipeIndex ← readLast readVarintEnum data 1
  let off ← usizeAdd checks (skipHighBytes data 1) 1
  let makeAllOffset ← usizeAdd checks 1 off
  let makeAll := (data[makeAllOffset]?.map fun b => decide (b ≠ 0#8)).getD false
  pure ⟨windowId, recipeIndex, makeAll⟩

structure SetHeldItemS2C where
  slot : Byte
  deriving DecidableEq, Repr

def SetHeldItemS2C.decodePayload (data : List Byte) : Outcome CodecError SetHeldItemS2C := do
  require (data ≠ []) (.malformed "too short")
  let slot ← orPanic data[0]?
  pure ⟨slot⟩

structure CookieResponse where
  key : String
  payload : Option (List Byte)
  deriving DecidableEq, Repr

def CookieResponse.decodePayload (checks : Bool) (data : List Byte) :
    Outcome CodecError CookieResponse := do
  let (key, offset) ← readString checks data
  let (hasPayload, offset) ← readAt checks readBool data offset
  if hasPayload then
    let (len, offset) ← readAt checks readVarintEnum data offset
    let (p, _) ← takeLen checks data offset len (.malformed "cookie payload too short")
    pure ⟨key, some p⟩
  else pure ⟨key, none⟩

structure ResourcePackResponse where
  uuid : Uuid
  result : BitVec 32
  deriving DecidableEq, Repr

def ResourcePackResponse.decodePayload (data : List Byte) :
    Outcome CodecError ResourcePackResponse := do
  let (uuid, offset) ← readUuid data
  let result ← readLast readVarintEnum data offset
  pure ⟨uuid, result⟩

structure ChangeBeaconEffect where
  primaryEffect : Option (BitVec 32)
  secondaryEffect : Option (BitVec 32)
  deriving DecidableEq, Repr

/-- An effect that is present. -/
def readEffect (present : Bool) (data : List Byte) (off : Nat) :
    Outcome CodecError (Option (BitVec 32) × Nat) :=
  if present then do
    let rest ← sliceFrom data off
    let (v, o) ← readVarintEnum rest
    pure (some v, o)
  else pure (none, off)

/-- After the primary effect the offset is the size of its VarInt, not the end of it. -/
def ChangeBeaconEffect.decodePayload (data : List Byte) :
    Outcome CodecError ChangeBeaconEffect := do
  require (2 ≤ data.length) (.malformed "too short")
  let hasPrimary ← orPanic data[0]?
  let hasSecondary ← orPanic data[1]?
  let (primary, off) ← readEffect (hasPrimary ≠ 0#8) data 2
  let (secondary, _) ← readEffect (hasSecondary ≠ 0#8) data off
  pure ⟨primary, secondary⟩

structure MessageAcknowledgment where
  messageCount : BitVec 32
  deriving DecidableEq, Repr

def MessageAcknowledgment.decodePayload (data : List Byte) :
    Outcome CodecError MessageAcknowledgment := do
  let (count, _) ← readVarintEnum data
  pure ⟨count⟩

end Apoptotic
