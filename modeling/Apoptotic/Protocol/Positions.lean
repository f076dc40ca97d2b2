import Apoptotic.Protocol.Codec

/-!
# Block positions on the wire

`write_position` of `mc-protocol/src/packets/play.rs`, the packets to the client that carry a block
position, and the expressions of `mc-network/src/c2s_handlers.rs` and `play_loop.rs` that take a
position out of 64 bits: x and z of 26 signed bits, y of 12.

Principal result: `position_survives_iff` — a position is read back exactly when its z is not negative, and every
packet but the world event has it in the layout of `write_position`.
-/

namespace Apoptotic.Positions

open Bytes

/-- A block position that fits on the wire. -/
structure BlockPosition where
  x : BitVec 26
  y : BitVec 12
  z : BitVec 26
  deriving DecidableEq, Repr

/-- A position as three `i32`. -/
abbrev Coordinates := BitVec 32 × BitVec 32 × BitVec 32

def BlockPosition.coordinates (p : BlockPosition) : Coordinates :=
  (p.x.signExtend 32, p.y.signExtend 32, p.z.signExtend 32)

/-- `write_position` before it is cut into bytes. -/
def packPosition (p : Coordinates) : BitVec 64 :=
  let (x, y, z) := p
  (x.signExtend 64 &&& 0x3FFFFFF#64) <<< 38 ||| (z.signExtend 64 &&& 0x3FFFFFF#64) <<< 12 |||
    (y.signExtend 64 &&& 0xFFF#64)

def writePosition (p : Coordinates) : List Byte := toBe 8 (packPosition p).toNat

/-- The expressions of `handle_player_action`, of `handle_use_item_on` and of its copy in the loop. -/
def decodePosition (raw : BitVec 64) : Coordinates :=
  ((raw.sshiftRight 38).setWidth 32, ((raw <<< 52).sshiftRight 52).setWidth 32,
    (raw.sshiftRight 12).setWidth 32 &&& 0x3FFFFFF#32)

/-- `i64::from_be_bytes` -/
def fromBeBytes (bytes : List Byte) : BitVec 64 := BitVec.ofNat 64 (ofBe bytes)

/-! ## Packets to the client -/

structure SetDefaultSpawnPosition where
  location : Coordinates
  angle : BitVec 32

def SetDefaultSpawnPosition.encoder (p : SetDefaultSpawnPosition) : PacketEncoder where
  packetId := 0x5A#32
  encodePayload := writePosition p.location ++ toBe 4 p.angle.toNat

structure WorldEvent where
  eventId : BitVec 32
  position : Coordinates
  data : BitVec 32
  disableRelativeVolume : Bool

/-- The position of a world event: y above z. -/
def packWorldEvent (p : Coordinates) : BitVec 64 :=
  let (x, y, z) := p
  (x.signExtend 64 &&& 0x3FFFFFF#64) <<< 38 ||| (y.signExtend 64 &&& 0xFFF#64) <<< 26 |||
    (z.signExtend 64 &&& 0x3FFFFFF#64)

def WorldEvent.encoder (p : WorldEvent) : PacketEncoder where
  packetId := 0x24#32
  encodePayload := writeVarint p.eventId ++ toBe 8 (packWorldEvent p.position).toNat ++
    writeVarint p.data ++ [if p.disableRelativeVolume then 1#8 else 0#8]

structure BlockDestroyStage where
  entityId : BitVec 32
  location : Coordinates
  destroyStage : Byte

def BlockDestroyStage.encoder (p : BlockDestroyStage) : PacketEncoder where
  packetId := 0x05#32
  encodePayload := writeVarint p.entityId ++ writePosition p.location ++ [p.destroyStage]

structure BlockEntityData where
  location : Coordinates
  blockEntityType : BitVec 32
  nbtData : List Byte

def BlockEntityData.encoder (p : BlockEntityData) : PacketEncoder where
  packetId := 0x07#32
  encodePayload := writePosition p.location ++ writeVarint p.blockEntityType ++ p.nbtData

structure BlockUpdate where
  location : Coordinates
  blockId : BitVec 32

def BlockUpdate.encoder (p : BlockUpdate) : PacketEncoder where
  packetId := 0x08#32
  encodePayload := writePosition p.location ++ writeVarint p.blockId

/-- The packets that carry a block position. -/
inductive PositionPacket where
  | setDefaultSpawnPosition (p : SetDefaultSpawnPosition)
  | worldEvent (p : WorldEvent)
  | blockDestroyStage (p : BlockDestroyStage)
  | blockEntityData (p : BlockEntityData)
  | blockUpdate (p : BlockUpdate)

namespace PositionPacket

def encoder : PositionPacket → PacketEncoder
  | setDefaultSpawnPosition p => p.encoder
  | worldEvent p => p.encoder
  | blockDestroyStage p => p.encoder
  | blockEntityData p => p.encoder
  | blockUpdate p => p.encoder

def location : PositionPacket → Coordinates
  | setDefaultSpawnPosition p => p.location
  | worldEvent p => p.position
  | blockDestroyStage p => p.location
  | blockEntityData p => p.location
  | blockUpdate p => p.location

/-- The VarInt before the position. -/
def before : PositionPacket → List Byte
  | setDefaultSpawnPosition _ | blockEntityData _ | blockUpdate _ => []
  | worldEvent p => writeVarint p.eventId
  | blockDestroyStage p => writeVarint p.entityId

/-- The eight bytes of the payload where the position is. -/
def positionBytes (q : PositionPacket) : List Byte :=
  (q.encoder.encodePayload.drop q.before.length).take 8

def IsWorldEvent : PositionPacket → Prop
  | worldEvent _ => True
  | _ => False

end PositionPacket

/-! ## The layouts -/

/-- The low `n` bits of a coordinate of `n` bits are the coordinate. -/
theorem mask_signExtend {n : Nat} (v : BitVec n) (hn : n ≤ 32) :
    (v.signExtend 32).signExtend 64 &&& BitVec.ofNat 64 (2 ^ n - 1) = v.setWidth 64 := by
  apply BitVec.eq_of_getLsbD_eq
  intro i hi
  rw [BitVec.getLsbD_and, BitVec.getLsbD_ofNat, Nat.testBit_two_pow_sub_one,
    BitVec.getLsbD_signExtend, BitVec.getLsbD_signExtend, BitVec.getLsbD_setWidth]
  by_cases h : i < n
  · simp [h, hi, show i < 32 by omega]
  · simp [h, hi, BitVec.getLsbD_of_ge v i (by omega)]

/-- Three fields side by side. -/
theorem pack_eq_append {k m n : Nat} (a : BitVec k) (b : BitVec m) (c : BitVec n) (h : k + m + n = 64) :
    (a.setWidth 64 <<< (m + n) ||| b.setWidth 64 <<< n ||| c.setWidth 64) = (a ++ b ++ c).cast h := by
  apply BitVec.eq_of_getLsbD_eq
  intro i hi
  rw [BitVec.getLsbD_cast, BitVec.getLsbD_append, BitVec.getLsbD_append]
  simp only [BitVec.getLsbD_or, BitVec.getLsbD_shiftLeft, BitVec.getLsbD_setWidth]
  by_cases hc : i < n
  · simp [hc, hi, show i < m + n by omega]
  · by_cases hb : i < m + n
    · simp [hc, hb, hi, show i - n < m by omega, show i - n < 64 by omega,
        BitVec.getLsbD_of_ge c i (by omega)]
    · simp [hc, hb, hi, show ¬ i - n < m by omega, show i - n < 64 by omega,
        show i - (m + n) < 64 by omega, BitVec.getLsbD_of_ge c i (by omega),
        BitVec.getLsbD_of_ge b (i - n) (by omega), show i - n - m = i - (m + n) by omega]

/-- `write_position`: x, z, y. -/
theorem packPosition_eq (p : BlockPosition) :
    packPosition p.coordinates = (p.x ++ p.z ++ p.y : BitVec 64) := by
  unfold packPosition BlockPosition.coordinates
  dsimp only
  have hx := mask_signExtend p.x (by decide)
  have hy := mask_signExtend p.y (by decide)
  have hz := mask_signExtend p.z (by decide)
  rw [show (0x3FFFFFF#64) = BitVec.ofNat 64 (2 ^ 26 - 1) by rfl,
    show (0xFFF#64) = BitVec.ofNat 64 (2 ^ 12 - 1) by rfl, hx, hy, hz]
  exact pack_eq_append p.x p.z p.y rfl

/-- A world event: x, y, z. -/
theorem packWorldEvent_eq (p : BlockPosition) :
    packWorldEvent p.coordinates = (p.x ++ p.y ++ p.z : BitVec 64) := by
  unfold packWorldEvent BlockPosition.coordinates
  dsimp only
  have hx := mask_signExtend p.x (by decide)
  have hy := mask_signExtend p.y (by decide)
  have hz := mask_signExtend p.z (by decide)
  rw [show (0x3FFFFFF#64) = BitVec.ofNat 64 (2 ^ 26 - 1) by rfl,
    show (0xFFF#64) = BitVec.ofNat 64 (2 ^ 12 - 1) by rfl, hx, hy, hz]
  exact pack_eq_append p.x p.y p.z rfl

/-! ## Reading back -/

/-- A field that reaches the top bit is read back with its sign. -/
theorem sshiftRight_append {k m : Nat} (a : BitVec k) (b : BitVec m) (h0 : 0 < k) (h : k + m = 64) :
    (((a ++ b).cast h).sshiftRight m).setWidth 32 = a.signExtend 32 := by
  apply BitVec.eq_of_getLsbD_eq
  intro i hi
  rw [BitVec.getLsbD_setWidth, BitVec.getLsbD_sshiftRight, BitVec.getLsbD_signExtend,
    BitVec.msb_eq_getLsbD_last, BitVec.msb_eq_getLsbD_last, BitVec.getLsbD_cast, BitVec.getLsbD_cast,
    BitVec.getLsbD_append, BitVec.getLsbD_append]
  by_cases hik : i < k
  · simp [hi, hik, show ¬ 64 ≤ i by omega, show m + i < 64 by omega]
  · simp [hi, hik, show ¬ 64 ≤ i by omega, show ¬ m + i < 64 by omega, show ¬ 63 < m by omega,
      show 63 - m = k - 1 by omega]

/-- Of two fields, what is above the first one's place is shifted out. -/
theorem shiftLeft_append {k m : Nat} (a : BitVec k) (b : BitVec m) (h : k + m = 64) :
    ((a ++ b).cast h) <<< k = (b ++ 0#k).cast (by omega) := by
  apply BitVec.eq_of_getLsbD_eq
  intro i hi
  rw [BitVec.getLsbD_shiftLeft, BitVec.getLsbD_cast, BitVec.getLsbD_cast, BitVec.getLsbD_append,
    BitVec.getLsbD_append]
  by_cases hik : i < k
  · simp [hik]
  · simp [hik, hi, show i - k < m by omega]

/-- The z that is read back has no sign. -/
theorem decode_z (p : BlockPosition) :
    ((p.x ++ p.z ++ p.y : BitVec 64).sshiftRight 12).setWidth 32 &&& 0x3FFFFFF#32 = p.z.setWidth 32 := by
  have h := sshiftRight_append (p.x ++ p.z) p.y (by decide) rfl
  rw [BitVec.cast_eq] at h
  rw [h]
  apply BitVec.eq_of_getLsbD_eq
  intro i hi
  rw [BitVec.getLsbD_and, show (0x3FFFFFF#32) = BitVec.ofNat 32 (2 ^ 26 - 1) by rfl,
    BitVec.getLsbD_ofNat, Nat.testBit_two_pow_sub_one, BitVec.getLsbD_signExtend,
    BitVec.getLsbD_append, BitVec.getLsbD_setWidth]
  by_cases h26 : i < 26
  · simp [h26, hi, show i < 52 by omega]
  · simp [h26, BitVec.getLsbD_of_ge p.z i (by omega)]

theorem fromBeBytes_writePosition (p : Coordinates) :
    fromBeBytes (writePosition p) = packPosition p := by
  unfold fromBeBytes writePosition
  rw [ofBe_toBe (packPosition p).isLt, BitVec.ofNat_toNat, BitVec.setWidth_eq]

/-- **What the handlers read back of a position**: x and y, and z without its sign. -/
theorem decode_writePosition (p : BlockPosition) :
    decodePosition (fromBeBytes (writePosition p.coordinates)) =
      (p.x.signExtend 32, p.y.signExtend 32, p.z.setWidth 32) := by
  rw [fromBeBytes_writePosition, packPosition_eq]
  have hx := sshiftRight_append p.x (p.z ++ p.y) (by decide) rfl
  have hleft := shiftLeft_append (p.x ++ p.z) p.y rfl
  have hy := sshiftRight_append p.y (0#52) (by decide) rfl
  have hassoc : (p.x ++ p.z ++ p.y : BitVec 64) = (p.x ++ (p.z ++ p.y)) := BitVec.append_assoc
  rw [BitVec.cast_eq] at hx hleft hy
  unfold decodePosition
  rw [decode_z, hleft, BitVec.cast_eq, hy, hassoc, hx]

theorem setWidth_eq_signExtend_iff (z : BitVec 26) : z.setWidth 32 = z.signExtend 32 ↔ 0 ≤ z.toInt := by
  constructor
  · intro h
    by_contra hneg
    have hmsb : z.msb = true := by
      rw [BitVec.msb_eq_toInt]
      exact decide_eq_true (by omega)
    have hbit := congrArg BitVec.msb h
    have hset : (z.setWidth 32).msb = false := by
      rw [BitVec.msb_setWidth]
      simp
    have hsign : (z.signExtend 32).msb = true := by
      rw [BitVec.msb_signExtend]
      simpa using hmsb
    rw [hset, hsign] at hbit
    cases hbit
  · intro h
    have hmsb : z.msb = false := by
      rw [BitVec.msb_eq_toInt]
      exact decide_eq_false (by omega)
    exact (BitVec.signExtend_eq_setWidth_of_msb_false hmsb).symm

/-! ## The packets -/

/-- The packet carries the position. -/
def Carries (q : PositionPacket) (p : BlockPosition) : Prop := q.location = p.coordinates

/-- The packet has its position in the layout of `write_position`. -/
def SameLayout (q : PositionPacket) : Prop := q.positionBytes = writePosition q.location

/-- The positions that both layouts write the same way. -/
def Swappable (p : BlockPosition) : Prop :=
  (p.y.toInt, p.z.toInt) ∈ [(0, 0), (1365, 22369621), (-1366, -22369622), (-1, -1)]

instance (p : BlockPosition) : Decidable (Swappable p) := inferInstanceAs (Decidable (_ ∈ _))

theorem take_eight (a : List Byte) (v : Nat) : (toBe 8 v ++ a).take 8 = toBe 8 v := by
  rw [List.take_append_of_le_length (by simp), List.take_of_length_le (by simp)]

theorem toBe_inj {a b : Nat} (ha : a < 256 ^ 8) (hb : b < 256 ^ 8) (h : toBe 8 a = toBe 8 b) : a = b := by
  rw [← ofBe_toBe ha, h, ofBe_toBe hb]

/-- The low words of the two layouts agree at four pairs only. -/
theorem lowWords_eq_iff {y z : Nat} (hy : y < 2 ^ 12) (hz : z < 2 ^ 26) :
    y * 2 ^ 26 + z = z * 2 ^ 12 + y ↔ ∃ k < 4, y = 1365 * k ∧ z = 22369621 * k := by
  constructor
  · intro h
    have hratio : 1365 * z = 22369621 * y := by omega
    have hz' : z = 16388 * y + y / 1365 := by omega
    exact ⟨y / 1365, by omega, by omega, by omega⟩
  · rintro ⟨k, -, rfl, rfl⟩
    omega

/-- The four pairs are the swappable ones. -/
theorem swappable_iff (p : BlockPosition) :
    Swappable p ↔ ∃ k < 4, p.y.toNat = 1365 * k ∧ p.z.toNat = 22369621 * k := by
  have hy := BitVec.toInt_eq_toNat_cond p.y
  have hz := BitVec.toInt_eq_toNat_cond p.z
  have hy' := p.y.isLt
  have hz' := p.z.isLt
  unfold Swappable
  simp only [List.mem_cons, Prod.mk.injEq, List.not_mem_nil, or_false]
  constructor
  · rintro (⟨h, h'⟩ | ⟨h, h'⟩ | ⟨h, h'⟩ | ⟨h, h'⟩)
    · exact ⟨0, by omega⟩
    · exact ⟨1, by omega⟩
    · exact ⟨2, by omega⟩
    · exact ⟨3, by omega⟩
  · rintro ⟨k, hk, h, h'⟩
    have hcases : k = 0 ∨ k = 1 ∨ k = 2 ∨ k = 3 := by omega
    rcases hcases with rfl | rfl | rfl | rfl
    · exact .inl (by omega)
    · exact .inr (.inl (by omega))
    · exact .inr (.inr (.inl (by omega)))
    · exact .inr (.inr (.inr (by omega)))

/-- The two layouts of one position. -/
theorem packWorldEvent_eq_iff (p : BlockPosition) :
    toBe 8 (packWorldEvent p.coordinates).toNat = writePosition p.coordinates ↔ Swappable p := by
  have hx := p.x.isLt
  have hy := p.y.isLt
  have hz := p.z.isLt
  have hwrite : (packPosition p.coordinates).toNat =
      p.x.toNat * 2 ^ 38 + p.z.toNat * 2 ^ 12 + p.y.toNat := by
    rw [packPosition_eq, BitVec.toNat_append, BitVec.toNat_append,
      ← Nat.shiftLeft_add_eq_or_of_lt hy, ← Nat.shiftLeft_add_eq_or_of_lt hz, Nat.shiftLeft_eq,
      Nat.shiftLeft_eq]
    omega
  have hevent : (packWorldEvent p.coordinates).toNat =
      p.x.toNat * 2 ^ 38 + p.y.toNat * 2 ^ 26 + p.z.toNat := by
    rw [packWorldEvent_eq, BitVec.toNat_append, BitVec.toNat_append,
      ← Nat.shiftLeft_add_eq_or_of_lt hz, ← Nat.shiftLeft_add_eq_or_of_lt hy, Nat.shiftLeft_eq,
      Nat.shiftLeft_eq]
    omega
  have hbytes : toBe 8 (packWorldEvent p.coordinates).toNat = writePosition p.coordinates ↔
      (packWorldEvent p.coordinates).toNat = (packPosition p.coordinates).toNat := by
    refine ⟨fun h => toBe_inj (packWorldEvent _).isLt (packPosition _).isLt h, fun h => ?_⟩
    rw [writePosition, h]
  rw [hbytes, hwrite, hevent, swappable_iff, ← lowWords_eq_iff hy hz, Nat.add_assoc, Nat.add_assoc,
    Nat.add_left_cancel_iff]

theorem positionBytes_cases (q : PositionPacket) :
    q.positionBytes = writePosition q.location ∧ ¬ q.IsWorldEvent ∨
      q.positionBytes = toBe 8 (packWorldEvent q.location).toNat ∧ q.IsWorldEvent := by
  cases q with
  | setDefaultSpawnPosition p => exact .inl ⟨take_eight _ _, id⟩
  | blockEntityData p =>
      refine .inl ⟨?_, id⟩
      change ((writePosition p.location ++ writeVarint p.blockEntityType ++ p.nbtData).drop 0).take 8 = _
      rw [List.append_assoc]
      exact take_eight _ _
  | blockUpdate p => exact .inl ⟨take_eight _ _, id⟩
  | blockDestroyStage p =>
      refine .inl ⟨?_, id⟩
      change ((writeVarint p.entityId ++ writePosition p.location ++ [p.destroyStage]).drop
        (writeVarint p.entityId).length).take 8 = _
      rw [List.append_assoc, List.drop_left]
      exact take_eight _ _
  | worldEvent p =>
      refine .inr ⟨?_, trivial⟩
      change ((writeVarint p.eventId ++ toBe 8 (packWorldEvent p.position).toNat ++
        writeVarint p.data ++ [if p.disableRelativeVolume then 1#8 else 0#8]).drop
          (writeVarint p.eventId).length).take 8 = _
      rw [List.append_assoc, List.append_assoc, List.drop_left]
      exact take_eight _ _

/-- Only the world event has a layout of its own. -/
theorem sameLayout_iff {q : PositionPacket} {p : BlockPosition} (h : Carries q p) :
    SameLayout q ↔ (q.IsWorldEvent → Swappable p) := by
  have hlocation : q.location = p.coordinates := h
  unfold SameLayout
  rcases positionBytes_cases q with ⟨hbytes, hother⟩ | ⟨hbytes, hevent⟩
  · rw [hbytes]
    exact ⟨fun _ hworld => absurd hworld hother, fun _ => rfl⟩
  · rw [hbytes, hlocation, packWorldEvent_eq_iff]
    exact ⟨fun hsame _ => hsame, fun hsame => hsame hevent⟩

/-- **When a position survives the wire**: it is read back exactly when its z is not negative, and a
packet that carries it has it in the layout of `write_position` exactly when the packet is no world
event, or y and z are one of the four pairs that both layouts write alike. -/
theorem position_survives_iff (p : BlockPosition) (q : PositionPacket) (hq : Carries q p) :
    (decodePosition (fromBeBytes (writePosition p.coordinates)) = p.coordinates ↔ 0 ≤ p.z.toInt) ∧
      (SameLayout q ↔ (q.IsWorldEvent → Swappable p)) := by
  refine ⟨?_, sameLayout_iff hq⟩
  rw [decode_writePosition, ← setWidth_eq_signExtend_iff]
  unfold BlockPosition.coordinates
  simp only [Prod.mk.injEq, true_and]

/-- A block update in the east. -/
theorem survives_update :
    decodePosition (fromBeBytes (writePosition (BlockPosition.mk 1 64 2).coordinates)) =
        (BlockPosition.mk 1 64 2).coordinates ∧
      SameLayout (.blockUpdate ⟨(BlockPosition.mk 1 64 2).coordinates, 1#32⟩) := by
  have h := position_survives_iff ⟨1, 64, 2⟩ (.blockUpdate ⟨(BlockPosition.mk 1 64 2).coordinates, 1#32⟩) rfl
  exact ⟨h.1.2 (by decide), h.2.2 fun hevent => hevent.elim⟩

/-- One block north of the origin comes back 67108863 blocks south of it, and a world event one block
above the origin is written as if it were elsewhere. -/
theorem position_lost :
    decodePosition (fromBeBytes (writePosition (BlockPosition.mk 0 0 (-1)).coordinates)) =
        (0#32, 0#32, 67108863#32) ∧
      (BlockPosition.mk 0 0 (-1)).coordinates = (0#32, 0#32, -1#32) ∧
      ¬ SameLayout (.worldEvent ⟨2001#32, (BlockPosition.mk 0 1 0).coordinates, 0#32, false⟩) := by
  refine ⟨by decide, by decide, ?_⟩
  intro hsame
  have hcarries : Carries (.worldEvent ⟨2001#32, (BlockPosition.mk 0 1 0).coordinates, 0#32, false⟩)
      ⟨0, 1, 0⟩ := rfl
  have hswap := (sameLayout_iff hcarries).1 hsame trivial
  exact absurd hswap (by decide)

end Apoptotic.Positions
