import Apoptotic.Protocol.Codec
import Apoptotic.Protocol.Packets

/-!
# Packet ids of the configuration and play loops

The `match packet_id` of `mc-network/src/connection.rs` (configuration, and the wait for its
acknowledgement) and of `mc-network/src/play_loop.rs`, with the types that the arms decode.  The id
of an arm is compared with the one that the type declares a second time, inside `decode`.  What the
arms do with a decoded packet, and the rate limiter in front of them, are left out.

Principal results: `accepted_iff` — a frame reaches its arm and is decoded there exactly when it is
for one of the arms whose two ids agree; `rejected` — the other arms reject every frame.
-/

namespace Apoptotic.PacketDispatch

open Bytes Outcome Slices

/-! ## Packets of the configuration phase -/

/-- The same fields in the same order as in `ClientInformation`. -/
abbrev ConfigClientInformation := ClientInformation

structure KnownPack where
  «namespace» : String
  id : String
  version : String
  deriving DecidableEq, Repr

/-- `for _ in 0..count` of `ServerboundKnownPacks::decode_payload`. -/
def readKnownPacks (checks : Bool) (data : List Byte) :
    Nat → Nat → Outcome CodecError (List KnownPack)
  | 0, _ => pure []
  | n + 1, offset => do
      let (ns, offset) ← readAt checks (readString checks) data offset
      let (id, offset) ← readAt checks (readString checks) data offset
      let (version, offset) ← readAt checks (readString checks) data offset
      let packs ← readKnownPacks checks data n offset
      pure (⟨ns, id, version⟩ :: packs)

structure ServerboundKnownPacks where
  knownPacks : List KnownPack
  deriving DecidableEq, Repr

def ServerboundKnownPacks.decodePayload (checks : Bool) (data : List Byte) :
    Outcome CodecError ServerboundKnownPacks := do
  let (count, offset) ← readVarintEnum data
  let packs ← readKnownPacks checks data count.toInt.toNat offset
  pure ⟨packs⟩

/-! ## The arms -/

inductive Stage where
  | configuration
  | acknowledgement
  | play
  deriving DecidableEq

inductive Arm where
  | configClientInformation
  | configPong
  | knownPacks
  | configCookieResponse
  | unknownConfig
  | ackFinishConfig
  | notAcknowledged
  | confirmTeleportation
  | messageAcknowledgment
  | chatCommand
  | clientCommand
  | clientInformation
  | setHeldItem
  | keepAlive
  | chatMessage
  | playerStatusOnly
  | playerPositionAndRotation
  | playerRotation
  | useItemOn
  | useItem
  | interactEntity
  | setCreativeModeSlot
  | containerClick
  | containerClose
  | placeRecipe
  | cookieResponse
  | playerCommand
  | playerInput
  | commandSuggestions
  | selectTrade
  | lockDifficulty
  | advancementTab
  | renameItem
  | recipeBookData
  | paddleBoat
  | pickFromBlock
  | setBeacon
  | updateSign
  | unknownPlay
  deriving DecidableEq

/-- `match packet_id`. -/
def Stage.dispatch (stage : Stage) (packetId : BitVec 32) : Arm :=
  match stage with
  | .configuration =>
      if packetId = 0x00#32 then .configClientInformation
      else if packetId = 0x04#32 then .configPong
      else if packetId = 0x07#32 then .knownPacks
      else if packetId = 0x02#32 then .configCookieResponse
      else .unknownConfig
  | .acknowledgement => if packetId = 0x03#32 then .ackFinishConfig else .notAcknowledged
  | .play =>
      if packetId = 0x00#32 then .confirmTeleportation
      else if packetId = 0x01#32 then .messageAcknowledgment
      else if packetId = 0x07#32 then .chatCommand
      else if packetId = 0x0A#32 then .clientCommand
      else if packetId = 0x0E#32 then .clientInformation
      else if packetId = 0x35#32 then .setHeldItem
      else if packetId = 0x1C#32 then .keepAlive
      else if packetId = 0x09#32 then .chatMessage
      else if packetId = 0x21#32 then .playerStatusOnly
      else if packetId = 0x1F#32 then .playerPositionAndRotation
      else if packetId = 0x20#32 then .playerRotation
      else if packetId = 0x42#32 then .useItemOn
      else if packetId = 0x43#32 then .useItem
      else if packetId = 0x18#32 then .interactEntity
      else if packetId = 0x3F#32 then .setCreativeModeSlot
      else if packetId = 0x12#32 then .containerClick
      else if packetId = 0x13#32 then .containerClose
      else if packetId = 0x1B#32 then .placeRecipe
      else if packetId = 0x15#32 then .cookieResponse
      else if packetId = 0x2A#32 then .playerCommand
      else if packetId = 0x29#32 then .playerInput
      else if packetId = 0x08#32 then .commandSuggestions
      else if packetId = 0x33#32 then .selectTrade
      else if packetId = 0x10#32 then .lockDifficulty
      else if packetId = 0x11#32 then .advancementTab
      else if packetId = 0x30#32 then .renameItem
      else if packetId = 0x2F#32 then .recipeBookData
      else if packetId = 0x23#32 then .paddleBoat
      else if packetId = 0x24#32 then .pickFromBlock
      else if packetId = 0x2B#32 then .setBeacon
      else if packetId = 0x2C#32 then .updateSign
      else .unknownPlay

/-- The loop's way to its arm: the play loop disconnects on an oversized frame, and no loop goes on
with a frame that has no packet id. -/
def Stage.route (stage : Stage) (frame : List Byte) : Option Arm :=
  if stage = .play ∧ frame.length > 2097152 then none
  else match MinecraftCodec.parsePacketIdAndPayload frame with
    | .ok (packetId, _) => some (stage.dispatch packetId)
    | _ => none

/-- The type that an arm decodes, with its declared id. -/
structure Decoding where
  T : Type
  decoder : PacketDecoder T

/-- `decode::<T>` in the arm. -/
def Arm.decoding (checks : Bool) : Arm → Option Decoding
  | .configClientInformation =>
      some ⟨ConfigClientInformation, 0x00#32, ClientInformation.decodePayload checks⟩
  | .knownPacks => some ⟨ServerboundKnownPacks, 0x07#32, ServerboundKnownPacks.decodePayload checks⟩
  | .configCookieResponse => some ⟨CookieResponse, 0x16#32, CookieResponse.decodePayload checks⟩
  | .ackFinishConfig => some ⟨Unit, 0x03#32, fun _ => .ok ()⟩
  | .messageAcknowledgment =>
      some ⟨MessageAcknowledgment, 0x01#32, MessageAcknowledgment.decodePayload⟩
  | .chatCommand => some ⟨ChatCommand, 0x05#32, ChatCommand.decodePayload checks⟩
  | .clientCommand => some ⟨ClientCommand, 0x0A#32, ClientCommand.decodePayload⟩
  | .clientInformation => some ⟨ClientInformation, 0x0C#32, ClientInformation.decodePayload checks⟩
  | .containerClick => some ⟨ContainerClick, 0x09#32, ContainerClick.decodePayload checks⟩
  | .containerClose => some ⟨ContainerClose, 0x0F#32, ContainerClose.decodePayload⟩
  | .placeRecipe => some ⟨PlaceRecipe, 0x1B#32, PlaceRecipe.decodePayload checks⟩
  | .cookieResponse => some ⟨CookieResponse, 0x16#32, CookieResponse.decodePayload checks⟩
  | .playerCommand => some ⟨PlayerCommand, 0x1F#32, PlayerCommand.decodePayload checks⟩
  | _ => none

/-! ## Frames for the arms that decode -/

/-- A frame for an arm that decodes, with a well-formed payload of the arm's type.  `read_frame` hands
on no longer frame. -/
structure Incoming where
  checks : Bool
  stage : Stage
  packetId : BitVec 32
  decoding : Decoding
  decodes : (stage.dispatch packetId).decoding checks = some decoding
  payload : List Byte
  value : decoding.T
  wellFormed : decoding.decoder.decodePayload payload = .ok value
  fits : (writeVarint packetId ++ payload).length ≤ 2097152

def Incoming.frame (i : Incoming) : List Byte := writeVarint i.packetId ++ i.payload

/-- The frame is routed to the arm and decoded there. -/
def Incoming.Accepted (codec : MinecraftCodec) (i : Incoming) : Prop :=
  i.stage.route i.frame = some (i.stage.dispatch i.packetId) ∧
    codec.decode i.decoding.decoder i.frame = .ok i.value

/-- The arms that take the packets of their types. -/
def agreeing : List Arm :=
  [.configClientInformation, .knownPacks, .ackFinishConfig, .messageAcknowledgment, .clientCommand,
    .placeRecipe]

/-- The literal in front of an arm that decodes. -/
def Arm.literal : Arm → Option (BitVec 32)
  | .configClientInformation => some 0x00#32
  | .knownPacks => some 0x07#32
  | .configCookieResponse => some 0x02#32
  | .ackFinishConfig => some 0x03#32
  | .messageAcknowledgment => some 0x01#32
  | .chatCommand => some 0x07#32
  | .clientCommand => some 0x0A#32
  | .clientInformation => some 0x0E#32
  | .containerClick => some 0x12#32
  | .containerClose => some 0x13#32
  | .placeRecipe => some 0x1B#32
  | .cookieResponse => some 0x15#32
  | .playerCommand => some 0x2A#32
  | _ => none

theorem literal_ite {c : Prop} [Decidable c] {arm rest : Arm} {v : BitVec 32} {P : Prop}
    (h : (if c then arm else rest).literal = some v) (harm : c → arm.literal = some v → P)
    (hrest : rest.literal = some v → P) : P := by
  split at h
  · exact harm ‹c› h
  · exact hrest h

/-- An arm that decodes is reached by its literal only. -/
theorem literal_dispatch {stage : Stage} {packetId v : BitVec 32}
    (h : (stage.dispatch packetId).literal = some v) : packetId = v := by
  revert h
  unfold Stage.dispatch
  -- One arm after another: its literal is `v`, or it does not decode.
  cases stage <;> dsimp only <;> repeat
    intro h
    refine literal_ite h (fun hid hliteral => ?_) ?_
    · first
        | exact hid.trans (Option.some.inj hliteral)
        | cases hliteral
  all_goals exact nofun

/-- The arms whose literal is the id that their type declares. -/
theorem packetId_eq_iff {checks : Bool} {stage : Stage} {packetId : BitVec 32} {d : Decoding}
    (h : (stage.dispatch packetId).decoding checks = some d) :
    packetId = d.decoder.packetId ↔ stage.dispatch packetId ∈ agreeing := by
  have hliteral : ∀ v, (stage.dispatch packetId).literal = some v → packetId = v :=
    fun v => literal_dispatch
  generalize stage.dispatch packetId = arm at h hliteral ⊢
  cases arm
  case configClientInformation | knownPacks | configCookieResponse | ackFinishConfig
    | messageAcknowledgment | chatCommand | clientCommand | clientInformation | containerClick
    | containerClose | placeRecipe | cookieResponse | playerCommand =>
    rw [hliteral _ rfl]
    cases h
    dsimp only
    decide
  all_goals cases h

theorem route_frame (i : Incoming) : i.stage.route i.frame = some (i.stage.dispatch i.packetId) := by
  have hfits := i.fits
  unfold Stage.route Incoming.frame
  rw [if_neg fun h => absurd h.2 (Nat.not_lt.2 hfits), parse_writeVarint]

/-- **A frame is routed to its arm and decoded there exactly when the arm is one of those that
    agree with their types.** -/
theorem accepted_iff (codec : MinecraftCodec) (i : Incoming) :
    i.Accepted codec ↔ i.stage.dispatch i.packetId ∈ agreeing := by
  unfold Incoming.Accepted
  rw [and_iff_right (route_frame i), Incoming.frame, decode_writeVarint, and_iff_left i.wellFormed,
    packetId_eq_iff i.decodes]

/-- The other arms that decode reject every frame they receive. -/
theorem rejected (codec : MinecraftCodec) {checks : Bool} {stage : Stage} {packetId : BitVec 32}
    {d : Decoding} (h : (stage.dispatch packetId).decoding checks = some d)
    (hnot : stage.dispatch packetId ∉ agreeing) (payload : List Byte) :
    codec.decode d.decoder (writeVarint packetId ++ payload) =
      .err (.invalidPacketId d.decoder.packetId packetId) := by
  have hne : packetId ≠ d.decoder.packetId := fun heq => hnot ((packetId_eq_iff h).1 heq)
  unfold MinecraftCodec.decode
  rw [parse_writeVarint, ok_bind]
  dsimp only
  rw [require_neg hne]
  rfl

/-- Window 1 is closed. -/
def closeWindow : Incoming where
  checks := true
  stage := .play
  packetId := 0x13#32
  decoding := ⟨ContainerClose, 0x0F#32, ContainerClose.decodePayload⟩
  decodes := rfl
  payload := [0x01#8]
  value := ⟨0x01#8⟩
  wellFormed := rfl
  fits := by
    have hid : writeVarint 0x13#32 = [0x13#8] := by
      rw [writeVarint]
      decide
    rw [hid]
    decide

/-- **The arm for `ContainerClose` stands at 0x13, the type declares 0x0F.** -/
theorem not_forall_accepted :
    ¬ ∀ (codec : MinecraftCodec) (i : Incoming), i.Accepted codec := by
  intro h
  have hdecode := (h ⟨0#32⟩ closeWindow).2
  unfold Incoming.frame at hdecode
  rw [decode_writeVarint] at hdecode
  exact absurd hdecode.1 (by decide)

end Apoptotic.PacketDispatch
