import Apoptotic.Protocol.Packets

/-!
# Panics of the client packet decoders

A length is a signed VarInt cast to `usize`.  A negative length of magnitude at most the offset it
is added to makes the sum wrap to an earlier offset, which passes the length check: the slice that
follows starts behind its end.

Principal results: `takeLen_eq_panic_iff` — when reading a length-prefixed block panics;
`run_ne_panic_iff` — exactly when each decoder panics.
-/

namespace Apoptotic

open Bytes Outcome Slices

/-! ## Length-prefixed blocks -/

/-- `len`, added to `offset`, wraps to an offset before it. -/
def PointsBack (len : BitVec 32) (offset : Nat) : Prop := len.toInt < 0 ∧ 0 ≤ offset + len.toInt

/-- The length read at `offset` points back past its own end. -/
def PrefixPointsBack (data : List Byte) (offset : Nat) : Prop :=
  ∃ len n, readVarint (data.drop offset) = .ok (len, n) ∧ PointsBack len (offset + n)

/-- A length-prefixed block from `start` to `stop` leads the data. -/
def BlockAt (data : List Byte) (start stop : Nat) : Prop :=
  ∃ len, readVarint data = .ok (len, start) ∧ 0 ≤ len.toInt ∧ stop = start + len.toNat ∧
    stop ≤ data.length

section Blocks

variable {checks : Bool} {data : List Byte} {offset : Nat} {len : BitVec 32} {e : CodecError}

theorem toInt_of_nonneg (h : 0 ≤ len.toInt) : len.toInt = len.toNat := by
  have := BitVec.toInt_eq_toNat_cond len
  have := len.isLt
  split at * <;> omega

/-- A length that is not negative is one past the block or an error, never a panic. -/
theorem takeLen_of_nonneg (hdata : data.length < 2 ^ 63) (hoff : offset ≤ data.length)
    (hlen : 0 ≤ len.toInt) :
    takeLen checks data offset len e =
      if offset + len.toNat ≤ data.length then
        .ok ((data.drop offset).take len.toNat, offset + len.toNat)
      else .err e := by
  have hsize : asUsize len = len.toNat := by
    have h := asUsize_toInt len
    rw [if_neg (by omega), toInt_of_nonneg hlen] at h
    exact_mod_cast h
  have := len.isLt
  unfold takeLen
  rw [hsize, usizeAdd_of_lt (by omega), ok_bind]
  split
  · rename_i hle
    rw [require_pos hle, ok_bind, slice_of_le (by omega) hle, ok_bind, Nat.add_sub_cancel_left,
      pure_eq]
  · rename_i hle
    rw [require_neg hle, err_bind]

theorem takeLen_of_neg (hdata : data.length < 2 ^ 63) (hoff : offset ≤ data.length)
    (hlen : len.toInt < 0) :
    takeLen checks data offset len e = if 0 ≤ offset + len.toInt then .panic else .err e := by
  have hsize := asUsize_toInt len
  rw [if_pos hlen] at hsize
  have hint := BitVec.toInt_eq_toNat_cond len
  unfold takeLen
  split
  · rename_i hback
    unfold usizeAdd
    rw [if_neg (by omega)]
    -- a build that checks overflow panics here, the other one at the slice
    split
    · rfl
    · rw [ok_bind, require_pos (by omega), ok_bind, slice_eq_panic (by omega), panic_bind]
  · rename_i hback
    rw [usizeAdd_of_lt (by omega), ok_bind, require_neg (by split at hint <;> omega), err_bind]

theorem takeLen_eq_panic_iff (hdata : data.length < 2 ^ 63) (hoff : offset ≤ data.length) :
    takeLen checks data offset len e = .panic ↔ PointsBack len offset := by
  unfold PointsBack
  by_cases hlen : len.toInt < 0
  · rw [takeLen_of_neg hdata hoff hlen]
    split
    · rename_i hback
      exact ⟨fun _ => ⟨hlen, hback⟩, fun _ => rfl⟩
    · rename_i hback
      exact ⟨nofun, fun h => absurd h.2 hback⟩
  · rw [takeLen_of_nonneg hdata hoff (by omega)]
    split
    · exact ⟨nofun, fun h => absurd h.1 hlen⟩
    · exact ⟨nofun, fun h => absurd h.1 hlen⟩

theorem takeLen_eq_ok_iff (hdata : data.length < 2 ^ 63) (hoff : offset ≤ data.length)
    {block : List Byte} {stop : Nat} :
    takeLen checks data offset len e = .ok (block, stop) ↔
      0 ≤ len.toInt ∧ stop = offset + len.toNat ∧ stop ≤ data.length ∧
        block = (data.drop offset).take len.toNat := by
  by_cases hlen : len.toInt < 0
  · rw [takeLen_of_neg hdata hoff hlen]
    split
    · exact ⟨nofun, fun h => absurd h.1 (by omega)⟩
    · exact ⟨nofun, fun h => absurd h.1 (by omega)⟩
  · rw [takeLen_of_nonneg hdata hoff (by omega)]
    split
    · rename_i hle
      constructor
      · intro h
        cases h
        exact ⟨by omega, rfl, hle, rfl⟩
      · rintro ⟨-, rfl, -, rfl⟩
        rfl
    · rename_i hle
      refine ⟨nofun, ?_⟩
      rintro ⟨-, rfl, h, -⟩
      exact absurd h hle

end Blocks

/-! ## Readers that stay in range -/

/-- A reader that never panics and reads within its input. -/
structure Reader {α : Type} (read : List Byte → Outcome CodecError (α × Nat)) : Prop where
  ne_panic : ∀ data, read data ≠ .panic
  le : ∀ data v n, read data = .ok (v, n) → n ≤ data.length

theorem readVarintEnum_eq_ok {data : List Byte} {v : BitVec 32} {n : Nat} :
    readVarintEnum data = .ok (v, n) ↔ readVarint data = .ok (v, n) := by
  unfold readVarintEnum
  cases readVarint data with
  | ok a => simp
  | err e => simp
  | panic => exact ⟨nofun, nofun⟩

theorem reader_readVarintEnum : Reader readVarintEnum where
  ne_panic data := by
    unfold readVarintEnum
    cases h : readVarint data with
    | ok a => exact nofun
    | err e => exact nofun
    | panic => exact absurd h (readVarint_ne_panic data)
  le data v n h := (readVarint_le (readVarintEnum_eq_ok.1 h)).2

/-- A reader of one byte. -/
theorem reader_byte {α : Type} {e : CodecError} (f : Byte → α) :
    Reader fun data => do
      require (data ≠ []) e
      let b ← orPanic data[0]?
      pure (f b, 1) where
  ne_panic data := by
    refine require_bind_ne_panic fun hne => ?_
    rw [List.getElem?_eq_getElem (List.length_pos_iff.2 hne), orPanic_some, ok_bind]
    exact nofun
  le data v n h := by
    obtain ⟨_, hne, h⟩ := bind_eq_ok.1 h
    have := List.length_pos_iff.2 (require_eq_ok.1 hne)
    obtain ⟨_, -, h⟩ := bind_eq_ok.1 h
    cases h
    exact this

theorem reader_readU8 : Reader readU8 := reader_byte id

theorem reader_readBool : Reader readBool := reader_byte fun b => decide (b ≠ 0#8)

/-- A reader of `size` bytes. -/
theorem reader_block {α : Type} {e : CodecError} (size : Nat) (f : List Byte → α) :
    Reader fun data => do
      require (size ≤ data.length) e
      let block ← slice data 0 size
      pure (f block, size) where
  ne_panic data := by
    refine require_bind_ne_panic fun hle => ?_
    rw [slice_of_le (Nat.zero_le _) hle, ok_bind]
    exact nofun
  le data v n h := by
    obtain ⟨_, hle, h⟩ := bind_eq_ok.1 h
    have := require_eq_ok.1 hle
    obtain ⟨_, -, h⟩ := bind_eq_ok.1 h
    cases h
    exact this

theorem reader_readI64 : Reader readI64 := reader_block 8 fun block => BitVec.ofNat 64 (ofBe block)

theorem reader_readUuid : Reader readUuid :=
  reader_block 16 fun block => BitVec.ofNat 128 (ofBe block)

section Readers

variable {α β : Type} {checks : Bool} {read : List Byte → Outcome CodecError (α × Nat)}
variable {data : List Byte} {offset : Nat}

/-- A decoder that starts with a reader. -/
theorem Reader.bind_ne_panic (hr : Reader read) {f : α × Nat → Outcome CodecError β}
    (hf : ∀ v n, n ≤ data.length → f (v, n) ≠ .panic) : (read data >>= f) ≠ .panic :=
  Outcome.bind_ne_panic (hr.ne_panic data) fun ⟨v, n⟩ h => hf v n (hr.le data v n h)

/-- Reading at an offset moves it on by what was read. -/
theorem readAt_eq (hr : Reader read) (hdata : data.length < 2 ^ 63) (hoff : offset ≤ data.length) :
    readAt checks read data offset = (fun p => (p.1, offset + p.2)) <$> read (data.drop offset) := by
  unfold readAt
  rw [sliceFrom_of_le hoff, ok_bind]
  cases h : read (data.drop offset) with
  | ok p =>
      have hle := hr.le _ p.1 p.2 h
      rw [List.length_drop] at hle
      rw [ok_bind]
      dsimp only
      rw [usizeAdd_of_lt (by omega)]
      rfl
  | err e => rfl
  | panic => rfl

theorem readAt_bind_ne_panic (hr : Reader read) (hdata : data.length < 2 ^ 63)
    (hoff : offset ≤ data.length) {f : α × Nat → Outcome CodecError β}
    (hf : ∀ v off, off ≤ data.length → f (v, off) ≠ .panic) :
    (readAt checks read data offset >>= f) ≠ .panic := by
  rw [readAt_eq hr hdata hoff]
  cases h : read (data.drop offset) with
  | ok p =>
      have hle := hr.le _ p.1 p.2 h
      rw [List.length_drop] at hle
      exact hf p.1 (offset + p.2) (by omega)
  | err e => exact nofun
  | panic => exact absurd h (hr.ne_panic _)

theorem readLast_ne_panic (hr : Reader read) (hoff : offset ≤ data.length) :
    readLast read data offset ≠ .panic := by
  unfold readLast
  rw [sliceFrom_of_le hoff, ok_bind]
  exact hr.bind_ne_panic fun _ _ _ => nofun

theorem readLast_bind_ne_panic (hr : Reader read) (hoff : offset ≤ data.length)
    {f : α → Outcome CodecError β} (hf : ∀ v, f v ≠ .panic) :
    (readLast read data offset >>= f) ≠ .panic :=
  Outcome.bind_ne_panic (readLast_ne_panic hr hoff) fun v _ => hf v

end Readers

/-! ## Strings and blocks -/

section Strings

variable {checks : Bool} {data : List Byte}

theorem fromUtf8_ne_panic (bytes : List Byte) : fromUtf8 bytes ≠ .panic := by
  unfold fromUtf8
  split
  · exact nofun
  · exact nofun

/-- A block at the start of the data, read as `EncryptionResponse` reads its secret. -/
theorem takePrefixed_eq_panic_iff {e : CodecError} (hdata : data.length < 2 ^ 63) :
    (readVarintEnum data >>= fun p => takeLen checks data p.2 p.1 e) = .panic ↔
      PrefixPointsBack data 0 := by
  unfold PrefixPointsBack
  rw [List.drop_zero, bind_eq_panic]
  constructor
  · rintro (h | ⟨⟨len, n⟩, hread, h⟩)
    · exact absurd h (reader_readVarintEnum.ne_panic data)
    · have hn := reader_readVarintEnum.le data len n hread
      rw [takeLen_eq_panic_iff hdata hn] at h
      exact ⟨len, n, readVarintEnum_eq_ok.1 hread, by rwa [Nat.zero_add]⟩
  · rintro ⟨len, n, hread, h⟩
    rw [Nat.zero_add] at h
    have hread' := readVarintEnum_eq_ok.2 hread
    have hn := reader_readVarintEnum.le data len n hread'
    exact Or.inr ⟨(len, n), hread', (takeLen_eq_panic_iff hdata hn).2 h⟩

theorem takePrefixed_eq_ok_iff {e : CodecError} {block : List Byte} {stop : Nat}
    (hdata : data.length < 2 ^ 63) :
    (readVarintEnum data >>= fun p => takeLen checks data p.2 p.1 e) = .ok (block, stop) ↔
      ∃ start, BlockAt data start stop ∧ block = (data.drop start).take (stop - start) := by
  rw [bind_eq_ok]
  constructor
  · rintro ⟨⟨len, n⟩, hread, h⟩
    have hn := reader_readVarintEnum.le data len n hread
    obtain ⟨hlen, hstop, hle, hblock⟩ := (takeLen_eq_ok_iff hdata hn).1 h
    refine ⟨n, ⟨len, readVarintEnum_eq_ok.1 hread, hlen, hstop, hle⟩, ?_⟩
    rw [hblock, hstop, Nat.add_sub_cancel_left]
  · rintro ⟨start, ⟨len, hread, hlen, hstop, hle⟩, hblock⟩
    have hread' := readVarintEnum_eq_ok.2 hread
    have hn := reader_readVarintEnum.le data len start hread'
    refine ⟨(len, start), hread', (takeLen_eq_ok_iff hdata hn).2 ⟨hlen, hstop, hle, ?_⟩⟩
    rw [hblock, hstop, Nat.add_sub_cancel_left]

theorem readString_eq : readString checks data =
    ((readVarintEnum data >>= fun p =>
        takeLen checks data p.2 p.1 (.malformed "string data too short")) >>= fun q =>
      (fromUtf8 q.1).mapErr (fun e => CodecError.malformed ("invalid UTF-8: " ++ e.text)) >>=
        fun s => pure (s, q.2)) := by
  unfold readString
  cases readVarintEnum data with
  | ok p => rfl
  | err e => rfl
  | panic => rfl

/-- **`read_string` panics exactly when its length points back.** -/
theorem readString_eq_panic_iff (hdata : data.length < 2 ^ 63) :
    readString checks data = .panic ↔ PrefixPointsBack data 0 := by
  rw [readString_eq, bind_eq_panic, takePrefixed_eq_panic_iff hdata]
  refine or_iff_left ?_
  rintro ⟨⟨block, stop⟩, -, h⟩
  dsimp only at h
  cases hs : fromUtf8 block with
  | ok s => rw [hs] at h; cases h
  | err e => rw [hs] at h; cases h
  | panic => exact fromUtf8_ne_panic block hs

theorem readString_eq_ok_iff {s : String} {stop : Nat} (hdata : data.length < 2 ^ 63) :
    readString checks data = .ok (s, stop) ↔
      ∃ start, BlockAt data start stop ∧
        fromUtf8 ((data.drop start).take (stop - start)) = .ok s := by
  rw [readString_eq, bind_eq_ok]
  constructor
  · rintro ⟨⟨block, stop'⟩, hblock, h⟩
    dsimp only at h
    cases hs : fromUtf8 block with
    | ok s' =>
        rw [hs] at h
        cases h
        obtain ⟨start, hat, rfl⟩ := (takePrefixed_eq_ok_iff hdata).1 hblock
        exact ⟨start, hat, hs⟩
    | err e => rw [hs] at h; cases h
    | panic => rw [hs] at h; cases h
  · rintro ⟨start, hat, hs⟩
    refine ⟨_, (takePrefixed_eq_ok_iff hdata).2 ⟨start, hat, rfl⟩, ?_⟩
    dsimp only
    rw [hs]
    rfl

theorem readString_stop_le {s : String} {stop : Nat} (hdata : data.length < 2 ^ 63)
    (h : readString checks data = .ok (s, stop)) : stop ≤ data.length := by
  obtain ⟨_, ⟨_, _, _, _, hle⟩, _⟩ := (readString_eq_ok_iff hdata).1 h
  exact hle

/-- A decoder that reads a string and then stays in range. -/
theorem readString_bind_eq_panic_iff {β : Type} {f : String × Nat → Outcome CodecError β}
    (hdata : data.length < 2 ^ 63) (hf : ∀ s off, off ≤ data.length → f (s, off) ≠ .panic) :
    (readString checks data >>= f) = .panic ↔ PrefixPointsBack data 0 := by
  rw [bind_eq_panic, readString_eq_panic_iff hdata]
  refine or_iff_left ?_
  rintro ⟨⟨s, off⟩, h, hp⟩
  exact hf s off (readString_stop_le hdata h) hp

end Strings

/-! ## When a decoder panics -/

/-- The readers and decoders that see a client's bytes. -/
inductive ClientDecoder where
  | readString
  | decodeFrame (codec : MinecraftCodec)
  | loginStart
  | loginAcknowledged
  | encryptionResponse
  | setCompression
  | keepAlive
  | clientInformation
  | teleportConfirm
  | chatCommand
  | clientCommand
  | playerCommand
  | playerInput
  | containerClick
  | containerClose
  | placeRecipe
  | setHeldItem
  | cookieResponse
  | resourcePackResponse
  | changeBeaconEffect
  | messageAcknowledgment
  deriving DecidableEq, Repr

/-- Whether the decoder returns: the value is dropped. -/
def ClientDecoder.run (Z : Zlib) (checks : Bool) :
    ClientDecoder → List Byte → Outcome CodecError Unit
  | .readString, data => discard (Apoptotic.readString checks data)
  | .decodeFrame codec, data => discard (codec.decodeFrame Z data)
  | .loginStart, data => discard (LoginStart.decodePayload checks data)
  | .loginAcknowledged, data => LoginAcknowledged.decoder.decodePayload data
  | .encryptionResponse, data => discard (EncryptionResponse.decodePayload checks data)
  | .setCompression, data => discard (SetCompression.decodePayload data)
  | .keepAlive, data => discard (KeepAlive.decodePayload data)
  | .clientInformation, data => discard (ClientInformation.decodePayload checks data)
  | .teleportConfirm, data => discard (TeleportConfirm.decodePayload data)
  | .chatCommand, data => discard (ChatCommand.decodePayload checks data)
  | .clientCommand, data => discard (ClientCommand.decodePayload data)
  | .playerCommand, data => discard (PlayerCommand.decodePayload checks data)
  | .playerInput, data => discard (PlayerInput.decodePayload data)
  | .containerClick, data => discard (ContainerClick.decodePayload checks data)
  | .containerClose, data => discard (ContainerClose.decodePayload data)
  | .placeRecipe, data => discard (PlaceRecipe.decodePayload checks data)
  | .setHeldItem, data => discard (SetHeldItemS2C.decodePayload data)
  | .cookieResponse, data => discard (CookieResponse.decodePayload checks data)
  | .resourcePackResponse, data => discard (ResourcePackResponse.decodePayload data)
  | .changeBeaconEffect, data => discard (ChangeBeaconEffect.decodePayload data)
  | .messageAcknowledgment, data => discard (MessageAcknowledgment.decodePayload data)

/-- The inputs a decoder panics on. -/
def ClientDecoder.Hazard : ClientDecoder → List Byte → Prop
  | .readString, data => PrefixPointsBack data 0
  | .loginStart, data => PrefixPointsBack data 0
  | .clientInformation, data => PrefixPointsBack data 0
  | .chatCommand, data => PrefixPointsBack data 0
  -- a compressed frame with a negative data length
  | .decodeFrame codec, data =>
      codec.compressionThreshold.toNat > 0 ∧ ∃ start stop, BlockAt data start stop ∧
        ∃ dataLen n, readVarint ((data.drop start).take (stop - start)) = .ok (dataLen, n) ∧
          dataLen.toInt < 0
  -- the secret's length, or the token's behind it
  | .encryptionResponse, data =>
      PrefixPointsBack data 0 ∨ ∃ start stop, BlockAt data start stop ∧ PrefixPointsBack data stop
  -- the data ends with the slot
  | .containerClick, data => ∃ v n, readVarint (data.drop 1) = .ok (v, n) ∧ n + 3 = data.length
  -- the key's length, or the payload's behind a key and a flag that are well formed
  | .cookieResponse, data =>
      PrefixPointsBack data 0 ∨
        ∃ start stop b, BlockAt data start stop ∧
          (∃ s, fromUtf8 ((data.drop start).take (stop - start)) = .ok s) ∧
          data[stop]? = some b ∧ b ≠ 0#8 ∧ PrefixPointsBack data (stop + 1)
  | _, _ => False

theorem discard_eq_panic_iff {α : Type} {x : Outcome CodecError α} :
    discard x = .panic ↔ x = .panic := by
  cases x with
  | ok a => exact ⟨nofun, nofun⟩
  | err e => exact ⟨nofun, nofun⟩
  | panic => exact ⟨fun _ => rfl, fun _ => rfl⟩

section Decoders

variable {checks : Bool} {data : List Byte}

theorem loginStart_eq_panic_iff (hdata : data.length < 2 ^ 63) :
    LoginStart.decodePayload checks data = .panic ↔ PrefixPointsBack data 0 := by
  unfold LoginStart.decodePayload
  refine readString_bind_eq_panic_iff hdata fun s off hoff => ?_
  dsimp only
  split
  · exact readLast_bind_ne_panic reader_readUuid hoff fun _ => nofun
  · exact nofun

theorem chatCommand_eq_panic_iff (hdata : data.length < 2 ^ 63) :
    ChatCommand.decodePayload checks data = .panic ↔ PrefixPointsBack data 0 :=
  readString_bind_eq_panic_iff hdata fun _ _ _ => nofun

theorem clientInformation_eq_panic_iff (hdata : data.length < 2 ^ 63) :
    ClientInformation.decodePayload checks data = .panic ↔ PrefixPointsBack data 0 := by
  unfold ClientInformation.decodePayload
  refine readString_bind_eq_panic_iff hdata fun s off hoff => ?_
  refine readAt_bind_ne_panic reader_readU8 hdata hoff fun _ off hoff => ?_
  refine readAt_bind_ne_panic reader_readVarintEnum hdata hoff fun _ off hoff => ?_
  refine readAt_bind_ne_panic reader_readBool hdata hoff fun _ off hoff => ?_
  refine readAt_bind_ne_panic reader_readU8 hdata hoff fun _ off hoff => ?_
  refine readAt_bind_ne_panic reader_readVarintEnum hdata hoff fun _ off hoff => ?_
  refine readAt_bind_ne_panic reader_readBool hdata hoff fun _ off hoff => ?_
  exact readLast_bind_ne_panic reader_readBool hoff fun _ => nofun

theorem playerCommand_ne_panic (hdata : data.length < 2 ^ 63) :
    PlayerCommand.decodePayload checks data ≠ .panic := by
  unfold PlayerCommand.decodePayload
  refine reader_readVarintEnum.bind_ne_panic fun _ off hoff => ?_
  refine readAt_bind_ne_panic reader_readVarintEnum hdata hoff fun _ off hoff => ?_
  exact readLast_bind_ne_panic reader_readVarintEnum hoff fun _ => nofun

theorem playerInput_ne_panic : PlayerInput.decodePayload data ≠ .panic := by
  unfold PlayerInput.decodePayload
  refine require_bind_ne_panic fun hlen => ?_
  rw [slice_of_le (by omega) (by omega), ok_bind, slice_of_le (by omega) (by omega), ok_bind,
    slice_of_le (by omega) hlen, ok_bind]
  exact nofun

/-- A decoder that reads its first byte. -/
theorem head_bind_ne_panic {β : Type} {e : CodecError} {f : Byte → Outcome CodecError β}
    (hf : data ≠ [] → ∀ b, f b ≠ .panic) :
    (require (data ≠ []) e >>= fun _ => orPanic data[0]? >>= f) ≠ .panic := by
  refine require_bind_ne_panic fun hne => ?_
  rw [List.getElem?_eq_getElem (List.length_pos_iff.2 hne), orPanic_some, ok_bind]
  exact hf hne _

theorem skipHighBytes_le {off : Nat} (h : off ≤ data.length) :
    skipHighBytes data off ≤ data.length := by
  induction off using skipHighBytes.induct data with
  | case1 off hlt hhigh ih =>
      rw [skipHighBytes, dif_pos hlt, if_pos hhigh]
      exact ih hlt
  | case2 off hlt hlow =>
      rw [skipHighBytes, dif_pos hlt, if_neg hlow]
      exact h
  | case3 off hge =>
      rw [skipHighBytes, dif_neg hge]
      exact h

theorem placeRecipe_ne_panic (hdata : data.length < 2 ^ 63) :
    PlaceRecipe.decodePayload checks data ≠ .panic := by
  unfold PlaceRecipe.decodePayload
  refine head_bind_ne_panic fun hne _ => ?_
  have hpos := List.length_pos_iff.2 hne
  refine readLast_bind_ne_panic reader_readVarintEnum hpos fun _ => ?_
  have hskip : skipHighBytes data 1 ≤ data.length := skipHighBytes_le hpos
  rw [usizeAdd_of_lt (by omega), ok_bind, usizeAdd_of_lt (by omega), ok_bind]
  exact nofun

theorem resourcePackResponse_ne_panic : ResourcePackResponse.decodePayload data ≠ .panic := by
  unfold ResourcePackResponse.decodePayload
  refine reader_readUuid.bind_ne_panic fun _ off hoff => ?_
  exact readLast_bind_ne_panic reader_readVarintEnum hoff fun _ => nofun

theorem readEffect_bind_ne_panic {β : Type} {present : Bool} {off : Nat}
    {f : Option (BitVec 32) × Nat → Outcome CodecError β} (hoff : off ≤ data.length)
    (hf : ∀ v o, o ≤ data.length → f (v, o) ≠ .panic) :
    (readEffect present data off >>= f) ≠ .panic := by
  unfold readEffect
  split
  · rw [sliceFrom_of_le hoff, ok_bind]
    refine Outcome.bind_ne_panic (reader_readVarintEnum.bind_ne_panic fun _ _ _ => nofun) ?_
    rintro ⟨v, o⟩ h
    obtain ⟨⟨w, n⟩, hread, h⟩ := bind_eq_ok.1 h
    cases h
    have hle := reader_readVarintEnum.le _ _ _ hread
    rw [List.length_drop] at hle
    exact hf _ _ (by omega)
  · exact hf _ _ hoff

theorem changeBeaconEffect_ne_panic : ChangeBeaconEffect.decodePayload data ≠ .panic := by
  unfold ChangeBeaconEffect.decodePayload
  refine require_bind_ne_panic fun hlen => ?_
  rw [List.getElem?_eq_getElem (by omega), orPanic_some, ok_bind,
    List.getElem?_eq_getElem (by omega), orPanic_some, ok_bind]
  refine readEffect_bind_ne_panic hlen fun _ o ho => ?_
  exact readEffect_bind_ne_panic ho fun _ _ _ => nofun

/-- **A click that ends with its slot panics**: the offset passes the missing button. -/
theorem containerClick_eq_panic_iff (hdata : data.length < 2 ^ 63) :
    ContainerClick.decodePayload checks data = .panic ↔
      ∃ v n, readVarint (data.drop 1) = .ok (v, n) ∧ n + 3 = data.length := by
  unfold ContainerClick.decodePayload
  by_cases hne : data = []
  · subst hne
    refine ⟨nofun, ?_⟩
    rintro ⟨v, n, -, h⟩
    cases h
  have hpos := List.length_pos_iff.2 hne
  rw [require_pos hne, ok_bind, List.getElem?_eq_getElem hpos, orPanic_some, ok_bind,
    sliceFrom_of_le (by omega), ok_bind, bind_eq_panic]
  refine (or_iff_right (reader_readVarintEnum.ne_panic _)).trans ?_
  constructor
  · rintro ⟨⟨v, n⟩, hread, h⟩
    refine ⟨v, n, readVarintEnum_eq_ok.1 hread, ?_⟩
    have hle := reader_readVarintEnum.le _ _ _ hread
    rw [List.length_drop] at hle
    dsimp only at h
    rw [usizeAdd_of_lt (by omega), ok_bind, usizeAdd_of_lt (by omega), ok_bind] at h
    by_cases hslot : n + 1 + 2 ≤ data.length
    · rw [require_pos hslot, ok_bind, slice_of_le (by omega) hslot, ok_bind,
        usizeAdd_of_lt (by omega), ok_bind] at h
      by_cases hmode : n + 1 + 2 + 1 ≤ data.length
      · exact absurd h (readLast_bind_ne_panic reader_readVarintEnum hmode fun _ => nofun)
      · omega
    · rw [require_neg hslot] at h
      cases h
  · rintro ⟨v, n, hread, hlen⟩
    refine ⟨(v, n), readVarintEnum_eq_ok.2 hread, ?_⟩
    dsimp only
    rw [usizeAdd_of_lt (by omega), ok_bind, usizeAdd_of_lt (by omega), ok_bind,
      require_pos (by omega), ok_bind, slice_of_le (by omega) (by omega), ok_bind,
      usizeAdd_of_lt (by omega), ok_bind]
    unfold readLast
    rw [sliceFrom_eq_panic (by omega)]
    rfl

/-- A length and its block behind the first block: the token of `EncryptionResponse`, and the
payload of `CookieResponse` behind its flag. -/
theorem readAt_takeLen_eq_panic_iff {β : Type} {off : Nat} {e : CodecError}
    {f : List Byte × Nat → Outcome CodecError β} (hdata : data.length < 2 ^ 63)
    (hoff : off ≤ data.length) (hf : ∀ q, f q ≠ .panic) :
    (readAt checks readVarintEnum data off >>= fun p =>
      takeLen checks data p.2 p.1 e >>= f) = .panic ↔ PrefixPointsBack data off := by
  rw [readAt_eq reader_readVarintEnum hdata hoff]
  unfold PrefixPointsBack
  cases hread : readVarintEnum (data.drop off) with
  | ok p =>
      obtain ⟨len, n⟩ := p
      have hle := reader_readVarintEnum.le _ _ _ hread
      rw [List.length_drop] at hle
      show (takeLen checks data (off + n) len e >>= f) = .panic ↔ _
      rw [bind_eq_panic, takeLen_eq_panic_iff hdata (by omega), or_iff_left (by
        rintro ⟨q, -, h⟩
        exact hf q h)]
      constructor
      · intro h
        exact ⟨len, n, readVarintEnum_eq_ok.1 hread, h⟩
      · rintro ⟨len', n', hread', h⟩
        rw [readVarintEnum_eq_ok.1 hread] at hread'
        cases hread'
        exact h
  | err e =>
      refine ⟨nofun, ?_⟩
      rintro ⟨len, n, hread', -⟩
      rw [readVarintEnum_eq_ok.2 hread'] at hread
      cases hread
  | panic => exact absurd hread (reader_readVarintEnum.ne_panic _)

/-- The token's length is the one read again for its size. -/
theorem readLast_readAt {β : Type} {off : Nat} {f : BitVec 32 → Nat → Outcome CodecError β}
    (hdata : data.length < 2 ^ 63) (hoff : off ≤ data.length) :
    (readLast readVarintEnum data off >>= fun tokenLen =>
        readAt checks readVarintEnum data off >>= fun p => f tokenLen p.2) =
      (readAt checks readVarintEnum data off >>= fun p => f p.1 p.2) := by
  rw [readAt_eq reader_readVarintEnum hdata hoff]
  unfold readLast
  rw [sliceFrom_of_le hoff, ok_bind]
  cases readVarintEnum (data.drop off) with
  | ok p => rfl
  | err e => rfl
  | panic => rfl

theorem encryptionResponse_eq_panic_iff (hdata : data.length < 2 ^ 63) :
    EncryptionResponse.decodePayload checks data = .panic ↔
      PrefixPointsBack data 0 ∨
        ∃ start stop, BlockAt data start stop ∧ PrefixPointsBack data stop := by
  have heq : EncryptionResponse.decodePayload checks data =
      ((readVarintEnum data >>= fun p =>
        takeLen checks data p.2 p.1 (.malformed "shared secret too short")) >>= fun q =>
          readLast readVarintEnum data q.2 >>= fun tokenLen =>
            readAt checks readVarintEnum data q.2 >>= fun p =>
              takeLen checks data p.2 tokenLen (.malformed "verify token too short") >>= fun t =>
                pure ⟨q.1, t.1⟩) := by
    unfold EncryptionResponse.decodePayload
    cases readVarintEnum data with
    | ok p => rfl
    | err e => rfl
    | panic => rfl
  rw [heq, bind_eq_panic, takePrefixed_eq_panic_iff hdata]
  refine or_congr Iff.rfl ?_
  have htoken : ∀ {secret : List Byte} {off : Nat}, off ≤ data.length →
      ((readLast readVarintEnum data off >>= fun tokenLen =>
        readAt checks readVarintEnum data off >>= fun p =>
          takeLen checks data p.2 tokenLen (.malformed "verify token too short") >>= fun t =>
            pure (EncryptionResponse.mk secret t.1)) = .panic ↔ PrefixPointsBack data off) := by
    intro secret off hoff
    rw [readLast_readAt (f := fun tokenLen n =>
      takeLen checks data n tokenLen (.malformed "verify token too short") >>= fun t =>
        pure (EncryptionResponse.mk secret t.1)) hdata hoff]
    exact readAt_takeLen_eq_panic_iff hdata hoff fun _ => nofun
  constructor
  · rintro ⟨⟨secret, stop⟩, hsecret, h⟩
    obtain ⟨start, hat, -⟩ := (takePrefixed_eq_ok_iff hdata).1 hsecret
    have hle : stop ≤ data.length := hat.choose_spec.2.2.2
    exact ⟨start, stop, hat, (htoken hle).1 h⟩
  · rintro ⟨start, stop, hat, h⟩
    have hle : stop ≤ data.length := hat.choose_spec.2.2.2
    exact ⟨_, (takePrefixed_eq_ok_iff hdata).2 ⟨start, hat, rfl⟩, (htoken hle).2 h⟩

/-- The flag of `CookieResponse` and what is read behind it. -/
theorem readAt_readBool_eq {off : Nat} (hdata : data.length < 2 ^ 63) (hoff : off ≤ data.length) :
    readAt checks readBool data off =
      match data[off]? with
      | some b => .ok (decide (b ≠ 0#8), off + 1)
      | none => .err (.malformed "bool too short") := by
  rw [readAt_eq reader_readBool hdata hoff]
  unfold readBool
  rw [List.getElem?_drop, Nat.add_zero]
  by_cases hlt : off < data.length
  · rw [List.getElem?_eq_getElem hlt, require_pos (by
      rw [ne_eq, List.drop_eq_nil_iff]
      omega)]
    rfl
  · rw [List.getElem?_eq_none (by omega), require_neg (by
      rw [not_not, List.drop_eq_nil_iff]
      omega)]
    rfl

theorem cookieResponse_eq_panic_iff (hdata : data.length < 2 ^ 63) :
    CookieResponse.decodePayload checks data = .panic ↔
      PrefixPointsBack data 0 ∨
        ∃ start stop b, BlockAt data start stop ∧
          (∃ s, fromUtf8 ((data.drop start).take (stop - start)) = .ok s) ∧
          data[stop]? = some b ∧ b ≠ 0#8 ∧ PrefixPointsBack data (stop + 1) := by
  unfold CookieResponse.decodePayload
  rw [bind_eq_panic, readString_eq_panic_iff hdata]
  refine or_congr Iff.rfl ?_
  have hpure : ∀ (key : String) (q : List Byte × Nat),
      (pure ⟨key, some q.1⟩ : Outcome CodecError CookieResponse) ≠ .panic := fun _ _ => nofun
  constructor
  · rintro ⟨⟨key, off⟩, hkey, h⟩
    have hoff := readString_stop_le hdata hkey
    obtain ⟨start, hat, hs⟩ := (readString_eq_ok_iff hdata).1 hkey
    dsimp only at h
    rw [readAt_readBool_eq hdata hoff] at h
    cases hb : data[off]? with
    | none => rw [hb] at h; cases h
    | some b =>
        obtain ⟨hlt, -⟩ := List.getElem?_eq_some_iff.1 hb
        rw [hb] at h
        dsimp only at h
        rw [ok_bind] at h
        dsimp only at h
        split at h
        · rename_i hpayload
          exact ⟨start, off, b, hat, ⟨key, hs⟩, hb, of_decide_eq_true hpayload,
            (readAt_takeLen_eq_panic_iff hdata hlt (hpure key)).1 h⟩
        · cases h
  · rintro ⟨start, off, b, hat, ⟨key, hs⟩, hb, hb0, h⟩
    have hkey : readString checks data = .ok (key, off) :=
      (readString_eq_ok_iff hdata).2 ⟨start, hat, hs⟩
    obtain ⟨hlt, -⟩ := List.getElem?_eq_some_iff.1 hb
    refine ⟨(key, off), hkey, ?_⟩
    dsimp only
    rw [readAt_readBool_eq hdata (by omega), hb]
    dsimp only
    rw [ok_bind]
    dsimp only
    rw [if_pos (by simpa using hb0)]
    exact (readAt_takeLen_eq_panic_iff hdata hlt (hpure key)).2 h

/-! ## Frames -/

theorem parsePacketIdAndPayload_ne_panic :
    MinecraftCodec.parsePacketIdAndPayload data ≠ .panic := by
  unfold MinecraftCodec.parsePacketIdAndPayload
  refine reader_readVarintEnum.bind_ne_panic fun _ n hn => ?_
  dsimp only
  rw [sliceFrom_of_le hn, ok_bind]
  exact nofun

/-- Only a negative length asks for more than `isize::MAX` bytes. -/
theorem decompress_eq_panic_iff (Z : Zlib) (dataLen : BitVec 32) :
    MinecraftCodec.decompress Z dataLen data = .panic ↔ dataLen.toInt < 0 := by
  have hsize := asUsize_toInt dataLen
  have hint := BitVec.toInt_eq_toNat_cond dataLen
  unfold MinecraftCodec.decompress
  by_cases hneg : dataLen.toInt < 0
  · rw [if_pos hneg] at hsize
    rw [withCapacity_eq_panic (by split at hint <;> omega)]
    exact ⟨fun _ => hneg, fun _ => rfl⟩
  · rw [if_neg hneg] at hsize
    rw [withCapacity_of_lt (by split at hint <;> omega), ok_bind]
    refine ⟨fun h => ?_, fun h => absurd h hneg⟩
    split at h
    · cases h
    · cases h

theorem parseCompressible_eq_panic_iff (Z : Zlib) :
    MinecraftCodec.parseCompressible Z data = .panic ↔
      ∃ dataLen n, readVarint data = .ok (dataLen, n) ∧ dataLen.toInt < 0 := by
  unfold MinecraftCodec.parseCompressible
  refine bind_eq_panic.trans ((or_iff_right (reader_readVarintEnum.ne_panic data)).trans ?_)
  -- past the data length, only the decompression can panic
  have harm : ∀ {dataLen : BitVec 32} {n : Nat}, n ≤ data.length →
      (((sliceFrom data n : Outcome CodecError (List Byte)) >>= fun payload =>
        if dataLen = 0#32 then MinecraftCodec.parsePacketIdAndPayload payload
        else MinecraftCodec.decompress Z dataLen payload >>=
          MinecraftCodec.parsePacketIdAndPayload) = .panic ↔ dataLen.toInt < 0) := by
    intro dataLen n hn
    rw [sliceFrom_of_le hn, ok_bind]
    split
    · rename_i h0
      exact ⟨fun h => absurd h parsePacketIdAndPayload_ne_panic, fun h => by simp [h0] at h⟩
    · rw [bind_eq_panic, decompress_eq_panic_iff, or_iff_left (by
        rintro ⟨_, -, h⟩
        exact parsePacketIdAndPayload_ne_panic h)]
  constructor
  · rintro ⟨⟨dataLen, n⟩, hread, h⟩
    exact ⟨dataLen, n, readVarintEnum_eq_ok.1 hread,
      (harm (reader_readVarintEnum.le _ _ _ hread)).1 h⟩
  · rintro ⟨dataLen, n, hread, hneg⟩
    have hread' := readVarintEnum_eq_ok.2 hread
    exact ⟨(dataLen, n), hread', (harm (reader_readVarintEnum.le _ _ _ hread')).2 hneg⟩

/-- A frame that holds what its length says is parsed, any other is an error. -/
theorem decodeFrame_eq (Z : Zlib) (codec : MinecraftCodec) {len : BitVec 32} {n : Nat}
    (hdata : data.length < 2 ^ 63) (hread : readVarint data = .ok (len, n)) :
    codec.decodeFrame Z data =
      if 0 ≤ len.toInt ∧ n + len.toNat ≤ data.length then
        if codec.compressionThreshold.toNat > 0 then
          MinecraftCodec.parseCompressible Z ((data.drop n).take len.toNat)
        else MinecraftCodec.parsePacketIdAndPayload ((data.drop n).take len.toNat)
      else .err (.malformed "frame too short") := by
  have hn := (readVarint_le hread).2
  have hsize := asUsize_toInt len
  have hint := BitVec.toInt_eq_toNat_cond len
  have hlt := len.isLt
  have hdrop : (data.drop n).length = data.length - n := List.length_drop
  unfold MinecraftCodec.decodeFrame
  rw [hread, mapErr_ok, ok_bind]
  dsimp only
  rw [sliceFrom_of_le hn, ok_bind]
  by_cases hneg : len.toInt < 0
  · rw [if_pos hneg] at hsize
    rw [require_neg (by split at hint <;> omega), if_neg (by omega)]
    rfl
  · rw [if_neg hneg] at hsize
    have hlen : asUsize len = len.toNat := by split at hint <;> omega
    rw [hlen]
    by_cases hle : n + len.toNat ≤ data.length
    · have hblock : 0 ≤ len.toInt ∧ n + len.toNat ≤ data.length := ⟨by omega, hle⟩
      rw [if_pos hblock, require_pos (by omega), ok_bind,
        slice_of_le (Nat.zero_le _) (by omega), ok_bind, List.drop_zero, Nat.sub_zero]
    · rw [require_neg (by omega), if_neg (by omega)]
      rfl

/-- **`decode_frame` panics exactly on a compressed frame with a negative data length.** -/
theorem decodeFrame_eq_panic_iff (Z : Zlib) (codec : MinecraftCodec)
    (hdata : data.length < 2 ^ 63) :
    codec.decodeFrame Z data = .panic ↔
      codec.compressionThreshold.toNat > 0 ∧ ∃ start stop, BlockAt data start stop ∧
        ∃ dataLen n, readVarint ((data.drop start).take (stop - start)) = .ok (dataLen, n) ∧
          dataLen.toInt < 0 := by
  constructor
  · intro h
    cases hread : readVarint data with
    | ok p =>
        obtain ⟨len, n⟩ := p
        rw [decodeFrame_eq Z codec hdata hread] at h
        split at h
        · rename_i hblock
          split at h
          · rename_i hpos
            refine ⟨hpos, n, n + len.toNat, ⟨len, hread, hblock.1, rfl, hblock.2⟩, ?_⟩
            rw [Nat.add_sub_cancel_left]
            exact (parseCompressible_eq_panic_iff Z).1 h
          · exact absurd h parsePacketIdAndPayload_ne_panic
        · cases h
    | err e =>
        unfold MinecraftCodec.decodeFrame at h
        rw [hread] at h
        cases h
    | panic => exact absurd hread (readVarint_ne_panic data)
  · rintro ⟨hpos, start, stop, ⟨len, hread, hlen, rfl, hle⟩, h⟩
    rw [decodeFrame_eq Z codec hdata hread, if_pos ⟨hlen, hle⟩, if_pos hpos]
    rw [Nat.add_sub_cancel_left] at h
    exact (parseCompressible_eq_panic_iff Z).2 h

end Decoders

/-! ## Every decoder -/

/-- **A decoder returns on an input exactly when the input is not one of its hazards**, in a
build that checks overflow and in one that does not. -/
theorem run_ne_panic_iff (Z : Zlib) (checks : Bool) (d : ClientDecoder) (b : Slice) :
    d.run Z checks b.bytes ≠ .panic ↔ ¬ d.Hazard b.bytes := by
  have hdata := b.length_lt
  have hvarint : ∀ {β : Type} {f : BitVec 32 → β},
      (readVarintEnum b.bytes >>= fun p => pure (f p.1)) ≠ .panic := fun {_ _} =>
    reader_readVarintEnum.bind_ne_panic fun _ _ _ => nofun
  refine not_congr ?_
  cases d with
  | readString => exact discard_eq_panic_iff.trans (readString_eq_panic_iff hdata)
  | decodeFrame codec => exact discard_eq_panic_iff.trans (decodeFrame_eq_panic_iff Z codec hdata)
  | loginStart => exact discard_eq_panic_iff.trans (loginStart_eq_panic_iff hdata)
  | loginAcknowledged => exact iff_false_intro nofun
  | encryptionResponse => exact discard_eq_panic_iff.trans (encryptionResponse_eq_panic_iff hdata)
  | setCompression => exact discard_eq_panic_iff.trans (iff_false_intro hvarint)
  | keepAlive =>
      exact discard_eq_panic_iff.trans
        (iff_false_intro (reader_readI64.bind_ne_panic fun _ _ _ => nofun))
  | clientInformation => exact discard_eq_panic_iff.trans (clientInformation_eq_panic_iff hdata)
  | teleportConfirm => exact discard_eq_panic_iff.trans (iff_false_intro hvarint)
  | chatCommand => exact discard_eq_panic_iff.trans (chatCommand_eq_panic_iff hdata)
  | clientCommand => exact discard_eq_panic_iff.trans (iff_false_intro hvarint)
  | playerCommand => exact discard_eq_panic_iff.trans (iff_false_intro (playerCommand_ne_panic hdata))
  | playerInput => exact discard_eq_panic_iff.trans (iff_false_intro playerInput_ne_panic)
  | containerClick => exact discard_eq_panic_iff.trans (containerClick_eq_panic_iff hdata)
  | containerClose =>
      exact discard_eq_panic_iff.trans (iff_false_intro (head_bind_ne_panic fun _ _ => nofun))
  | placeRecipe => exact discard_eq_panic_iff.trans (iff_false_intro (placeRecipe_ne_panic hdata))
  | setHeldItem =>
      exact discard_eq_panic_iff.trans (iff_false_intro (head_bind_ne_panic fun _ _ => nofun))
  | cookieResponse => exact discard_eq_panic_iff.trans (cookieResponse_eq_panic_iff hdata)
  | resourcePackResponse =>
      exact discard_eq_panic_iff.trans (iff_false_intro resourcePackResponse_ne_panic)
  | changeBeaconEffect =>
      exact discard_eq_panic_iff.trans (iff_false_intro changeBeaconEffect_ne_panic)
  | messageAcknowledgment => exact discard_eq_panic_iff.trans (iff_false_intro hvarint)

/-- A click of four bytes: window, state, and a slot with nothing behind it. -/
theorem not_forall_run_ne_panic :
    ¬ ∀ (Z : Zlib) (checks : Bool) (d : ClientDecoder) (b : Slice),
      d.run Z checks b.bytes ≠ .panic := by
  intro h
  exact h Zlib.stored false .containerClick ⟨[0#8, 0#8, 0#8, 0#8], by decide⟩ (by decide)

end Apoptotic
