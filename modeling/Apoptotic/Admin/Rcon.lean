import Apoptotic.Lib.Slices
import Apoptotic.Protocol.VarInt

/-!
# RCON packets

`read_packet`, `send_packet` and `authenticate` of `mc-admin/src/rcon.rs`.  A stream is the bytes that
arrive before it closes; a payload is its UTF-8 bytes.

Principal results: `readPacket_eq` — `read_packet` panics on every packet that is all there and
returns none; `framing_iff` — what a round trip and freedom from panics come to.
-/

namespace Apoptotic.Rcon

open Bytes Outcome Slices

structure Packet where
  requestId : BitVec 32
  ptype : BitVec 32
  payload : List Byte
  deriving DecidableEq

def TYPE_LOGIN : BitVec 32 := 3

def AUTH_FAILED : BitVec 32 := -1

/-! ## The two functions -/

/-- `read_exact` of `n` bytes, and the stream behind them. -/
def readExact (stream : List Byte) (n : Nat) (what : String) :
    Outcome String (List Byte × List Byte) := do
  require (n ≤ stream.length) (what ++ ": early eof")
  pure (stream.take n, stream.drop n)

/-- The packet, and the stream behind it. -/
def readPacket (stream : List Byte) : Outcome String (Packet × List Byte) := do
  let (lenBuf, rest) ← readExact stream 4 "read length"
  let length := (BitVec.ofNat 32 (ofLe lenBuf)).toInt
  require (10 ≤ length ∧ length ≤ 4110) ("invalid RCON length: " ++ toString length)
  let payloadLen := (length - 10).toNat
  -- the length field takes the first four bytes of the buffer, and four bytes are left unread
  let (read, rest) ← readExact rest (length.toNat - 4) "read data"
  let data := lenBuf ++ read
  let requestId ← slice data 4 8
  let ptype ← slice data 8 12
  let payload ← slice data 12 (12 + payloadLen)
  pure (⟨BitVec.ofNat 32 (ofLe requestId), BitVec.ofNat 32 (ofLe ptype), payload⟩, rest)

/-- The bytes that `send_packet` writes. -/
def sendPacket (requestId ptype : BitVec 32) (payload : List Byte) : Outcome String (List Byte) := do
  let totalLen := 10#32 + BitVec.ofNat 32 payload.length
  withCapacity 1 ((4 + asUsize totalLen) % 2 ^ 64)
  pure (toLe 4 totalLen.toNat ++ (toLe 4 requestId.toNat ++ (toLe 4 ptype.toNat ++
    (payload ++ [0x00, 0x00]))))

/-- Whether the client gets in, and the request id of the answer.  `valid` compares the password. -/
def authenticate (valid : List Byte → Bool) (stream : List Byte) :
    Outcome String (Bool × Option (BitVec 32)) :=
  match readPacket stream with
  | .ok (packet, _) =>
      if packet.ptype = TYPE_LOGIN then
        if valid packet.payload then .ok (true, some packet.requestId)
        else .ok (false, some AUTH_FAILED)
      else .ok (false, some AUTH_FAILED)
  | .err _ => .ok (false, none)
  | .panic => .panic

/-- The length still fits: `read_packet` accepts no more. -/
def Fits (payload : List Byte) : Prop := payload.length ≤ 4100

/-- What was sent is read. -/
def RoundTrips (requestId ptype : BitVec 32) (payload : List Byte) : Prop :=
  ∃ bytes, sendPacket requestId ptype payload = .ok bytes ∧
    readPacket bytes = .ok (⟨requestId, ptype, payload⟩, [])

/-! ## What `read_packet` does -/

/-- The length field. -/
def lengthField (stream : List Byte) : Int := (BitVec.ofNat 32 (ofLe (stream.take 4))).toInt

/-- The stream begins with a length in range and has that many bytes, the field included. -/
structure Arrives (stream : List Byte) : Prop where
  field : 4 ≤ stream.length
  min : 10 ≤ lengthField stream
  max : lengthField stream ≤ 4110
  bytes : (lengthField stream).toNat ≤ stream.length

theorem readExact_of_le {stream : List Byte} {n : Nat} (h : n ≤ stream.length) (what : String) :
    readExact stream n what = .ok (stream.take n, stream.drop n) := by
  unfold readExact
  rw [require_pos h]
  rfl

theorem readExact_of_lt {stream : List Byte} {n : Nat} (h : stream.length < n) (what : String) :
    readExact stream n what = .err (what ++ ": early eof") := by
  unfold readExact
  rw [require_neg (Nat.not_le.2 h)]
  rfl

/-- The payload would end two bytes behind the buffer. -/
theorem slices_panic {α : Type} {data : List Byte} {n : Nat} (h10 : 10 ≤ n) (hlen : data.length = n)
    (f : List Byte → List Byte → List Byte → Outcome String α) :
    (slice data 4 8 >>= fun requestId => slice data 8 12 >>= fun ptype =>
      slice data 12 (12 + (n - 10)) >>= fun payload => f requestId ptype payload) = .panic := by
  rw [slice_of_le (by decide) (by omega), ok_bind]
  by_cases h12 : 12 ≤ data.length
  · have hpayload : (slice data 12 (12 + (n - 10)) : Outcome String _) = .panic :=
      if_neg fun h => by omega
    rw [slice_of_le (by decide) h12, ok_bind, hpayload]
    rfl
  · have htype : (slice data 8 12 : Outcome String _) = .panic := if_neg fun h => h12 h.2
    rw [htype]
    rfl

/-- **`read_packet` panics on what arrives whole, and returns an error for the rest.** -/
theorem readPacket_eq (stream : List Byte) :
    (Arrives stream ∧ readPacket stream = .panic) ∨
      (¬ Arrives stream ∧ ∃ e, readPacket stream = .err e) := by
  unfold readPacket
  by_cases h4 : 4 ≤ stream.length
  · rw [readExact_of_le h4, ok_bind]
    have hfield : (BitVec.ofNat 32 (ofLe (stream.take 4))).toInt = lengthField stream := rfl
    dsimp only
    rw [hfield]
    by_cases hrange : 10 ≤ lengthField stream ∧ lengthField stream ≤ 4110
    · rw [require_pos hrange, ok_bind]
      by_cases hbytes : (lengthField stream).toNat ≤ stream.length
      · have hrest : (lengthField stream).toNat - 4 ≤ (stream.drop 4).length := by
          rw [List.length_drop]
          omega
        have hdata : (stream.take 4 ++ (stream.drop 4).take ((lengthField stream).toNat - 4)).length =
            (lengthField stream).toNat := by
          rw [List.length_append, List.length_take_of_le h4, List.length_take_of_le hrest]
          omega
        have hpayload : (lengthField stream - 10).toNat = (lengthField stream).toNat - 10 := by omega
        refine .inl ⟨⟨h4, hrange.1, hrange.2, hbytes⟩, ?_⟩
        rw [readExact_of_le hrest, ok_bind, hpayload]
        exact slices_panic (by omega) hdata _
      · rw [readExact_of_lt (by rw [List.length_drop]; omega)]
        exact .inr ⟨fun h => hbytes h.bytes, _, rfl⟩
    · rw [require_neg hrange]
      exact .inr ⟨fun h => hrange ⟨h.min, h.max⟩, _, rfl⟩
  · rw [readExact_of_lt (Nat.not_le.1 h4)]
    exact .inr ⟨fun h => h4 h.field, _, rfl⟩

theorem readPacket_ne_ok (stream : List Byte) (r : Packet × List Byte) : readPacket stream ≠ .ok r := by
  rcases readPacket_eq stream with ⟨-, h⟩ | ⟨-, e, h⟩
  · rw [h]
    exact nofun
  · rw [h]
    exact nofun

theorem readPacket_panics_iff (stream : List Byte) : readPacket stream = .panic ↔ Arrives stream := by
  rcases readPacket_eq stream with ⟨harrives, h⟩ | ⟨hnot, e, h⟩
  · exact iff_of_true h harrives
  · rw [h]
    exact iff_of_false nofun hnot

/-- **No client is let in**, whatever its password. -/
theorem authenticate_ne_true (valid : List Byte → Bool) (stream : List Byte)
    (reply : Option (BitVec 32)) : authenticate valid stream ≠ .ok (true, reply) := by
  unfold authenticate
  rcases readPacket_eq stream with ⟨-, h⟩ | ⟨-, e, h⟩
  · rw [h]
    exact nofun
  · rw [h]
    exact nofun

/-- **What `send_packet` writes of a payload that fits is a whole packet**, on which `read_packet`
    panics. -/
theorem readPacket_sendPacket (requestId ptype : BitVec 32) {payload : List Byte} (h : Fits payload) :
    ∃ bytes, sendPacket requestId ptype payload = .ok bytes ∧ readPacket bytes = .panic := by
  unfold Fits at h
  have htotal : (10#32 + BitVec.ofNat 32 payload.length).toNat = 10 + payload.length := by
    rw [BitVec.toNat_add, BitVec.toNat_ofNat, BitVec.toNat_ofNat]
    omega
  have hint : (10#32 + BitVec.ofNat 32 payload.length).toInt = 10 + payload.length := by
    rw [BitVec.toInt_eq_toNat_of_lt (by omega), htotal]
    exact Int.natCast_add 10 payload.length
  have hcapacity : (4 + asUsize (10#32 + BitVec.ofNat 32 payload.length)) % 2 ^ 64 =
      14 + payload.length := by
    rw [asUsize_of_lt (by omega), htotal]
    omega
  unfold sendPacket
  dsimp only
  rw [hcapacity, withCapacity_of_lt (by omega), ok_bind]
  refine ⟨_, rfl, (readPacket_panics_iff _).2 ?_⟩
  have hfield : lengthField (toLe 4 (10#32 + BitVec.ofNat 32 payload.length).toNat ++
      (toLe 4 requestId.toNat ++ (toLe 4 ptype.toNat ++ (payload ++ [0x00, 0x00])))) =
        10 + payload.length := by
    unfold lengthField
    rw [List.take_left' (length_toLe ..), ofLe_toLe (by omega), BitVec.ofNat_toNat,
      BitVec.setWidth_eq, hint]
  refine ⟨?_, ?_, ?_, ?_⟩
  · simp only [List.length_append, length_toLe]
    omega
  · rw [hfield]
    omega
  · rw [hfield]
    omega
  · rw [hfield]
    simp only [List.length_append, length_toLe, List.length_cons, List.length_nil]
    omega

/-- **No packet is read back, and `read_packet` returns exactly on the streams on which no whole packet
    arrives.** -/
theorem framing_iff (requestId ptype : BitVec 32) (payload stream : List Byte) :
    ¬ RoundTrips requestId ptype payload ∧ (readPacket stream ≠ .panic ↔ ¬ Arrives stream) := by
  constructor
  · rintro ⟨bytes, -, hread⟩
    exact readPacket_ne_ok bytes _ hread
  · exact not_congr (readPacket_panics_iff stream)

/-- A login with the password `a`. -/
theorem not_forall_framing :
    readPacket [0x0B, 0, 0, 0, 7, 0, 0, 0, 3, 0, 0, 0, 0x61, 0, 0] = .panic ∧
      sendPacket 7 3 [0x61] = .ok [0x0B, 0, 0, 0, 7, 0, 0, 0, 3, 0, 0, 0, 0x61, 0, 0] ∧
      (¬ ∀ requestId ptype payload, Fits payload → RoundTrips requestId ptype payload) ∧
      ¬ ∀ stream, readPacket stream ≠ .panic := by
  have hread : readPacket [0x0B, 0, 0, 0, 7, 0, 0, 0, 3, 0, 0, 0, 0x61, 0, 0] = .panic := by decide
  have hsend : sendPacket 7 3 [0x61] = .ok [0x0B, 0, 0, 0, 7, 0, 0, 0, 3, 0, 0, 0, 0x61, 0, 0] := by
    decide
  refine ⟨hread, hsend, ?_, fun h => h _ hread⟩
  intro h
  obtain ⟨bytes, -, hback⟩ := h 7 3 [0x61] (by unfold Fits; decide)
  exact readPacket_ne_ok bytes _ hback

end Apoptotic.Rcon
