import Apoptotic.Command.Server
import Apoptotic.Lib.ExtendedRationals
import Apoptotic.Network.ChunkStreaming

/-!
# The validation of movement

The handlers of the position packets 0x21 and 0x1F of `mc-network/src/play_loop.rs` with what they use
of `mc-player/src/player.rs`, over one connection and the player it belongs to.  The rest of the server
is what a packet finds of it, and between two packets it may do anything.  Left out is what a handler
sends back to the player itself, and what 0x1F does to the world and the inventory: vibrations, the
spatial index, frosted ice, worn boots, picked-up items.

Principal result: `along_lawful_iff` — every packet of a run moves the player within the bound, or is
rejected without a trace, exactly when the packets with rotation stay within the bound, and each one
without rotation stays within it and does not end in a portal, or sets the player back where nothing is
left of its fall and its view.
-/

namespace Apoptotic.Movement

open ChunkStreaming

/-! ## Players -/

structure Coords where
  x : ERat
  y : ERat
  z : ERat
  deriving DecidableEq

structure Position extends Coords where
  yaw : ERat
  pitch : ERat

/-- What the handlers read of the effects, the armour and the input of a player. -/
structure Kit where
  /-- One of the effects is `SlowFalling`. -/
  slowFalling : Bool
  /-- `get_effect_level(uuid, 10)` -/
  resistance : Nat
  armorPoints : ERat
  armorToughness : ERat
  soulSpeed : Nat
  swiftSneak : Nat
  isSneaking : Bool

structure Player where
  entityId : BitVec 32
  position : Position
  gamemode : Commands.GameMode
  health : ERat
  fallDistance : ERat
  lastDamageTick : BitVec 64
  speedMultiplier : ERat
  dimension : String
  isFlying : Bool
  acLastValid : Coords
  acViolations : Nat
  acLastViolationTick : BitVec 64
  inventory : Commands.Inventory
  kit : Kit

namespace Player

variable (p : Player)

def updatePositionFull (next : Coords) (yaw pitch : ERat) : Player :=
  { p with position := ⟨next, yaw, pitch⟩ }

/-- Updates the valid position and lets the violations decay. -/
def acUpdateValid (next : Coords) (tick : BitVec 64) : Player :=
  { p with
    acViolations := if 20 ≤ (tick - p.acLastViolationTick).toNat then p.acViolations - 1
      else p.acViolations
    acLastValid := next }

/-- The violations after one more, in a `u8`. -/
def violations : Nat := min 255 (p.acViolations + 2)

def acAddViolation (tick : BitVec 64) : Player :=
  { p with acViolations := p.violations, acLastViolationTick := tick }

def acResetViolations : Player := { p with acViolations := 0 }

/-- What `SlowFalling` leaves of a fall. -/
def fallMultiplier : ERat := if p.kit.slowFalling then .finite (1 / 2) else 1

def addFallDistance (delta : ERat) : Player :=
  { p with fallDistance := p.fallDistance.add (delta.mul p.fallMultiplier) }

def setFlying (flying : Bool) : Player :=
  { p with isFlying := flying, fallDistance := if flying then p.fallDistance else 0 }

def setDimension (dim : String) : Player := { p with dimension := dim }

end Player

/-- `add_player` -/
def addPlayer (entityId : BitVec 32) : Player where
  entityId := entityId
  position := ⟨⟨0, 64, 0⟩, 0, 0⟩
  gamemode := .survival
  health := 20
  fallDistance := 0
  lastDamageTick := 0
  speedMultiplier := 1
  dimension := "minecraft:overworld"
  isFlying := false
  acLastValid := ⟨0, 64, 0⟩
  acViolations := 0
  acLastViolationTick := 0
  inventory := .new
  kit := ⟨false, 0, 0, 0, 0, 0, false⟩

def calculateArmorReduction (armorPoints armorToughness rawDamage : ERat) : ERat :=
  if rawDamage.le 0 then 0 else
    let effective := ((armorPoints.sub ((ERat.mul 4 rawDamage).div (armorToughness.add 8))).max
      (armorPoints.mul (.finite (1 / 5)))).min 20
    (rawDamage.mul (ERat.sub 1 (effective.div 25))).max 0

/-- `apply_damage`, without an attacker. -/
def Player.applyDamage (p : Player) (rawDamage : ERat) (tick : BitVec 64) : Player :=
  let effective := if 0 < p.kit.resistance then
      rawDamage.mul ((ERat.sub 1 (.mul (.finite p.kit.resistance) (.finite (1 / 5)))).max 0)
    else rawDamage
  let reduced := calculateArmorReduction p.kit.armorPoints p.kit.armorToughness effective
  { p with health := (p.health.sub reduced).max 0, lastDamageTick := tick }

/-! ## What a packet finds -/

/-- The server around a packet, and how the sets of chunks are iterated and which packets go out while it
    is handled. -/
structure Server where
  tickCount : BitVec 64
  chunkStore : ChunkPos → Option ReachableChunk
  viewRadius : Int
  iter : List ChunkPos → List ChunkPos
  iter_perm : ∀ s, (iter s).Perm s
  delivered : ChunkStreaming.Packet → Bool

namespace Server

variable (server : Server)

/-- The block at `i32` coordinates, in a chunk of the store. -/
def blockId (x y z : Int) : Option (BitVec 32) :=
  (server.chunkStore ⟨BitVec.ofInt 32 (x / 16), BitVec.ofInt 32 (z / 16)⟩).bind fun ch =>
    (ch.chunk.getBlock (x % 16).toNat (BitVec.ofInt 32 y) (z % 16).toNat).map BlockState.id

/-- A movement to these coordinates, as `stream_new_chunks` is called for it. -/
def move (next : Coords) : Move where
  newChunk := ⟨BitVec.ofInt 32 (next.x.floorI32 / 16), BitVec.ofInt 32 (next.z.floorI32 / 16)⟩
  viewRadius := server.viewRadius
  iter := server.iter
  iter_perm := server.iter_perm
  delivered := server.delivered

end Server

/-- A connection with its player. -/
structure Client where
  player : Player
  tracker : Tracker
  /-- The chunks generated for the client, oldest first. -/
  generated : List ChunkPos
  /-- The moves broadcast to the others, oldest first. -/
  moves : List (BitVec 32 × Position)

/-! ## The validation -/

/-- The square of `h_dist`. -/
def hDistSq (old next : Coords) : ERat :=
  ((next.x.sub old.x).mul (next.x.sub old.x)).add ((next.z.sub old.z).mul (next.z.sub old.z))

def vDist (old next : Coords) : ERat := (next.y.sub old.y).abs

def maxDelta (speedMul : ERat) : ERat := ERat.mul 10 speedMul

/-- `h_dist <= max_delta && v_dist <= max_delta` -/
def inBounds (speedMul : ERat) (old next : Coords) : Bool :=
  (hDistSq old next).sqrtLe (maxDelta speedMul) && (vDist old next).le (maxDelta speedMul)

/-- `h_dist > max_delta && h_dist > 3.0` -/
def violates (speedMul : ERat) (old next : Coords) : Bool :=
  (hDistSq old next).sqrtGt (maxDelta speedMul) && (hDistSq old next).sqrtGt 3

/-- With a finite bound, a move stays within it when it leads between finite coordinates that are close. -/
theorem inBounds_finite {m : Rat} {old next : Coords} : inBounds (.finite m) old next = true ↔
    (∃ x' x z' z, next.x = .finite x' ∧ old.x = .finite x ∧ next.z = .finite z' ∧ old.z = .finite z ∧
      Real.sqrt (((x' - x) * (x' - x) + (z' - z) * (z' - z) : Rat) : Real) ≤ (10 * m : Rat)) ∧
    ∃ y' y, next.y = .finite y' ∧ old.y = .finite y ∧ |y' - y| ≤ 10 * m := by
  have hmax : maxDelta (.finite m) = .finite (10 * m) := rfl
  unfold inBounds hDistSq vDist
  rw [hmax, Bool.and_eq_true_iff, ERat.hypot_le_finite, ERat.absSub_le_finite]
  refine and_congr_left fun _ => ?_
  constructor
  · rintro ⟨p, q, hp, hq, hle⟩
    obtain ⟨x', x, hx', hx, rfl⟩ := ERat.sub_eq_finite_iff.1 hp
    obtain ⟨z', z, hz', hz, rfl⟩ := ERat.sub_eq_finite_iff.1 hq
    exact ⟨x', x, z', z, hx', hx, hz', hz, hle⟩
  · rintro ⟨x', x, z', z, hx', hx, hz', hz, hle⟩
    exact ⟨x' - x, z' - z, ERat.sub_eq_finite_iff.2 ⟨x', x, hx', hx, rfl⟩,
      ERat.sub_eq_finite_iff.2 ⟨z', z, hz', hz, rfl⟩, hle⟩

/-- The anti-cheat validation with its violation buffer, and whether the move is `accepted`. -/
def validate (server : Server) (next : Coords) (p : Player) : Player × Bool :=
  if inBounds p.speedMultiplier p.position.toCoords next then
    ((p.acUpdateValid next server.tickCount).updatePositionFull next p.position.yaw p.position.pitch, true)
  else if violates p.speedMultiplier p.position.toCoords next then
    let q := p.acAddViolation server.tickCount
    if 8 ≤ q.acViolations then
      (q.acResetViolations.updatePositionFull q.acLastValid p.position.yaw p.position.pitch, false)
    else (q, true)
  else (p, true)

/-! ## What follows a move -/

/-- An elytra in slot 38. -/
def hasElytra (p : Player) : Bool :=
  (p.inventory.items[38]?.join.map fun s => decide (s.item.id = 843)).getD false

/-- Falling with an elytra starts a glide. -/
def glide (old next : Coords) (p : Player) : Player :=
  if !p.isFlying && (hasElytra p && (ERat.finite (1 / 2)).lt (old.y.sub next.y) && next.y.lt old.y) then
    p.setFlying true
  else p

/-- Within 0.3 blocks of a block below. -/
def onGround (server : Server) (here : Coords) : Bool :=
  ((server.blockId here.x.floorI32 (here.y.sub (.finite (3 / 10))).floorI32 here.z.floorI32).map
    fun id => decide (id ≠ 0)).getD false

/-- Landing stops a glide.  The drag of one that goes on is a placeholder. -/
def land (server : Server) (old next : Coords) (p : Player) : Player :=
  if old.y.le next.y && p.isFlying && onGround server p.position.toCoords then p.setFlying false else p

/-- Going down adds to the fall, and anything else takes it. -/
def trackFall (server : Server) (oldY y : ERat) (p : Player) : Player :=
  if y.lt oldY then p.addFallDistance (oldY.sub y)
  else
    let fd := p.fallDistance
    let q := { p with fallDistance := 0 }
    if ERat.lt 3 fd && (q.gamemode = .survival || q.gamemode = .adventure) then
      q.applyDamage (fd.sub 3) server.tickCount
    else q

/-- The fall of a player who does not glide. -/
def fall (server : Server) (old next : Coords) (p : Player) : Player :=
  if p.isFlying then p else trackFall server old.y next.y p

/-- Standing in a portal block, on a tick that looks for it. -/
def inPortal (server : Server) (next : Coords) : Bool :=
  server.blockId next.x.floorI32 next.y.floorI32 next.z.floorI32 = some 90 &&
    server.tickCount.toNat % 80 = 0

/-- Where a portal leads. -/
def portalTarget (dimension : String) (next : Coords) : String × Coords :=
  if dimension = "minecraft:the_nether" then ("minecraft:overworld", ⟨next.x.mul 8, 128, next.z.mul 8⟩)
  else ("minecraft:the_nether", ⟨next.x.div 8, 64, next.z.div 8⟩)

def portal (server : Server) (next : Coords) (p : Player) : Player :=
  if inPortal server next then
    let target := portalTarget p.dimension next
    (p.setDimension target.1).updatePositionFull target.2 p.position.yaw p.position.pitch
  else p

/-- The chunk ahead of the border, which is generated before it is needed. -/
def predicted (t : Tracker) (m : Move) : List ChunkPos :=
  let dirX := (m.newChunk.x - t.playerChunk.x).toInt.sign
  let dirZ := (m.newChunk.z - t.playerChunk.z).toInt.sign
  let cp : ChunkPos := ⟨m.newChunk.x + BitVec.ofInt 32 (dirX * (m.viewRadius + 1)),
    m.newChunk.z + BitVec.ofInt 32 (dirZ * (m.viewRadius + 1))⟩
  if (dirX ≠ 0 ∨ dirZ ≠ 0) ∧ cp ∉ t.loadedChunks then [cp] else []

/-- The chunks that a movement generates. -/
def generates (t : Tracker) (m : Move) : List ChunkPos :=
  if m.newChunk = t.playerChunk ∨ m.viewRadius ≤ 0 ∨ newChunks t m = [] then []
  else predicted t m ++ toSend t m

/-- The end of both handlers. -/
def stream (server : Server) (next : Coords) (c : Client) : Client :=
  { c with
    tracker := moved c.tracker (server.move next)
    generated := c.generated ++ generates c.tracker (server.move next) }

/-! ## The handlers -/

/-- `broadcast_entity_move` -/
def broadcastEntityMove (c : Client) (next : Position) : Client :=
  { c with moves := c.moves ++ [(c.player.entityId, next)] }

/-- What follows the validation in 0x21. -/
def settle (server : Server) (old next : Coords) (p : Player) : Player :=
  portal server next (fall server old next (land server old next (glide old next p)))

/-- 0x21 -/
def playerPosition (server : Server) (next : Coords) (c : Client) : Client :=
  let old := c.player.position
  let checked := validate server next c.player
  let c := { c with player := checked.1 }
  let c := if checked.2 then broadcastEntityMove c ⟨next, old.yaw, old.pitch⟩ else c
  stream server next { c with player := settle server old.toCoords next c.player }

/-- Soul speed on soul sand or soil, and swift sneak while sneaking. -/
def bootEnchants (server : Server) (next : Coords) (p : Player) : Player :=
  let ground := server.blockId next.x.floorI32 (next.y.floorI32 - 1) next.z.floorI32
  let p := if 0 < p.kit.soulSpeed ∧ (ground = some 961 ∨ ground = some 962) then
      { p with speedMultiplier := ERat.add 1 (.mul (.finite (31 / 200)) (.finite p.kit.soulSpeed)) }
    else p
  if 0 < p.kit.swiftSneak ∧ p.kit.isSneaking then
    { p with
      speedMultiplier := (ERat.finite (3 / 10)).add (.mul (.finite (3 / 20)) (.finite p.kit.swiftSneak)) }
  else p

/-- 0x1F -/
def playerPositionAndRotation (server : Server) (next : Position) (c : Client) : Client :=
  let oldY := c.player.position.y
  let c := { c with player := c.player.updatePositionFull next.toCoords next.yaw next.pitch }
  let c := broadcastEntityMove c next
  stream server next.toCoords
    { c with player := trackFall server oldY next.y (bootEnchants server next.toCoords c.player) }

/-- A position packet, or anything that the rest of the server does to the client between two of them. -/
inductive Event where
  | position (server : Server) (next : Coords)
  | positionAndRotation (server : Server) (next : Position)
  | elsewhere (c : Client)

def step (c : Client) : Event → Client
  | .position server next => playerPosition server next c
  | .positionAndRotation server next => playerPositionAndRotation server next c
  | .elsewhere c' => c'

/-! ## What is asked of a packet -/

/-- The packet asks for a move within the bound, and the player has made one. -/
structure Moves (c : Client) (next : Coords) (c' : Client) : Prop where
  asked : inBounds c.player.speedMultiplier c.player.position.toCoords next = true
  made : inBounds c.player.speedMultiplier c.player.position.toCoords c'.player.position.toCoords = true

/-- The packet has left nothing behind, but for the player set back to where a packet was last valid. -/
structure Rejects (c c' : Client) : Prop where
  position : c'.player.position.toCoords = c.player.position.toCoords ∨
    c'.player.position.toCoords = c.player.acLastValid
  moves : c'.moves = c.moves
  fallDistance : c'.player.fallDistance = c.player.fallDistance
  health : c'.player.health = c.player.health
  lastDamageTick : c'.player.lastDamageTick = c.player.lastDamageTick
  dimension : c'.player.dimension = c.player.dimension
  loadedChunks : c'.tracker.loadedChunks = c.tracker.loadedChunks
  sent : c'.tracker.sent = c.tracker.sent
  generated : c'.generated = c.generated

def Event.coords? : Event → Option Coords
  | .position _ next => some next
  | .positionAndRotation _ next => some next.toCoords
  | .elsewhere _ => none

/-- A packet moves the player within the bound, or is rejected. -/
def Lawful (c : Client) (e : Event) : Prop :=
  ∀ next, e.coords? = some next → Moves c next (step c e) ∨ Rejects c (step c e)

/-! ## When a packet meets it -/

/-- A violation that sets the player back. -/
def SetsBack (p : Player) (next : Coords) : Prop :=
  violates p.speedMultiplier p.position.toCoords next = true ∧ 8 ≤ p.violations

/-- A fall to these coordinates, tracked for a player who stands at `ground`, changes nothing. -/
def KeepsFall (server : Server) (p : Player) (ground next : Coords) : Prop :=
  p.isFlying = true ∧ (p.position.y.le next.y && onGround server ground) = false ∨
    if next.y.lt p.position.y = true then
      p.fallDistance.add ((p.position.y.sub next.y).mul p.fallMultiplier) = p.fallDistance
    else p.fallDistance = 0

/-- The view around these coordinates is the one the client has. -/
def KeepsView (server : Server) (t : Tracker) (next : Coords) : Prop :=
  (server.move next).newChunk = t.playerChunk ∨ server.viewRadius ≤ 0 ∨
    ∀ cp, cp ∈ (server.move next).visible ↔ cp ∈ t.loadedChunks

/-- Within the bound, a portal leads nowhere else beyond it; beyond it, the player is set back and the
    packet says nothing of a fall, a portal or another view. -/
def Acceptable (c : Client) : Event → Prop
  | .position server next =>
      if inBounds c.player.speedMultiplier c.player.position.toCoords next = true then
        inPortal server next = true → inBounds c.player.speedMultiplier c.player.position.toCoords
          (portalTarget c.player.dimension next).2 = true
      else SetsBack c.player next ∧ inPortal server next = false ∧
        KeepsFall server c.player c.player.acLastValid next ∧ KeepsView server c.tracker next
  | .positionAndRotation _ next =>
      inBounds c.player.speedMultiplier c.player.position.toCoords next.toCoords = true
  | .elsewhere _ => True

/-! ## The view -/

section

variable {t : Tracker} {m : Move}

theorem generates_eq_nil (hchunk : m.newChunk ≠ t.playerChunk) (hr : 0 < m.viewRadius) :
    generates t m = [] ↔ newChunks t m = [] := by
  have hbusy : (m.newChunk = t.playerChunk ∨ m.viewRadius ≤ 0 ∨ newChunks t m = []) ↔
      newChunks t m = [] := by
    rw [or_iff_right hchunk, or_iff_right (not_le.2 hr)]
  unfold generates
  constructor
  · intro h
    by_contra hnew
    rw [if_neg (mt hbusy.1 hnew)] at h
    have hlen := congrArg List.length (List.append_eq_nil_iff.1 h).2
    rw [length_toSend, List.length_nil] at hlen
    have hpos := List.length_pos_iff.2 hnew
    unfold MAX_CHUNKS_PER_SEND at hlen
    omega
  · exact fun h => if_pos (hbusy.2 h)

/-- A movement streams and generates nothing exactly when it does not change the view. -/
theorem view_kept_iff : ((moved t m).loadedChunks = t.loadedChunks ∧ (moved t m).sent = t.sent ∧
      generates t m = []) ↔
    m.newChunk = t.playerChunk ∨ m.viewRadius ≤ 0 ∨ ∀ cp, cp ∈ m.visible ↔ cp ∈ t.loadedChunks := by
  by_cases hchunk : m.newChunk = t.playerChunk
  · have hmoved : moved t m = t := if_neg (not_not.2 hchunk)
    exact iff_of_true ⟨by rw [hmoved], by rw [hmoved], if_pos (.inl hchunk)⟩ (.inl hchunk)
  have hmoved : moved t m = streamNewChunks t m := if_pos hchunk
  by_cases hr : m.viewRadius ≤ 0
  · have hstream : streamNewChunks t m = { t with playerChunk := m.newChunk } := if_pos hr
    rw [hmoved, hstream]
    exact iff_of_true ⟨rfl, rfl, if_pos (.inr (.inl hr))⟩ (.inr (.inl hr))
  have hpos : 0 < m.viewRadius := not_le.1 hr
  rw [hmoved, generates_eq_nil hchunk hpos, or_iff_right hchunk, or_iff_right hr]
  constructor
  · rintro ⟨hloaded, _, hnew⟩ cp
    have hstream : cp ∈ (streamNewChunks t m).loadedChunks ↔
        cp ∈ t.loadedChunks ∧ cp ∈ m.visible ∨ cp ∈ newChunks t m := mem_loadedChunks_stream hpos
    have hnone : ¬ (cp ∈ m.visible ∧ cp ∉ t.loadedChunks) := by
      rw [← mem_newChunks, hnew]
      exact List.not_mem_nil
    rw [hloaded, hnew, or_iff_left List.not_mem_nil] at hstream
    exact ⟨fun hcp => by_contra fun h => hnone ⟨hcp, h⟩, fun hcp => (hstream.1 hcp).2⟩
  · intro h
    have hnew : newChunks t m = [] := List.eq_nil_iff_forall_not_mem.2 fun cp hcp =>
      (mem_newChunks.1 hcp).2 ((h cp).1 (mem_newChunks.1 hcp).1)
    have hevicted : evicted t m = [] := List.eq_nil_iff_forall_not_mem.2 fun cp hcp =>
      (mem_evicted.1 hcp).2 ((h cp).2 (mem_evicted.1 hcp).1)
    have hpackets : packets t m = [] := by
      unfold packets
      rw [hnew, hevicted]
      rfl
    have hkept : (t.loadedChunks.filter fun cp => m.visible.contains cp) = t.loadedChunks :=
      List.filter_eq_self.2 fun cp hcp => List.contains_iff_mem.2 ((h cp).2 hcp)
    unfold streamNewChunks
    rw [if_neg hr, hpackets, hnew, hkept]
    exact ⟨rfl, List.append_nil _, rfl⟩

end

/-! ## The fall -/

section

variable (server : Server) (old next : Coords) (p : Player)

/-- There is no slot 38. -/
theorem hasElytra_eq_false : hasElytra p = false := rfl

theorem glide_eq : glide old next p = p := by
  unfold glide
  rw [hasElytra_eq_false, Bool.false_and, Bool.false_and, Bool.and_false]
  exact if_neg Bool.false_ne_true

theorem fall_land_frame :
    (fall server old next (land server old next p)).position = p.position ∧
      (fall server old next (land server old next p)).dimension = p.dimension := by
  unfold fall land trackFall
  dsimp only
  split_ifs <;> exact ⟨rfl, rfl⟩

/-- Of a tracked fall nothing is seen when it adds nothing, or has nothing to take. -/
theorem trackFall_kept_iff (oldY y : ERat) :
    ((trackFall server oldY y p).fallDistance = p.fallDistance ∧
        (trackFall server oldY y p).health = p.health ∧
        (trackFall server oldY y p).lastDamageTick = p.lastDamageTick) ↔
      if y.lt oldY = true then p.fallDistance.add ((oldY.sub y).mul p.fallMultiplier) = p.fallDistance
      else p.fallDistance = 0 := by
  unfold trackFall
  by_cases hlt : y.lt oldY = true
  · rw [if_pos hlt, if_pos hlt]
    exact ⟨And.left, fun h => ⟨h, rfl, rfl⟩⟩
  · rw [if_neg hlt, if_neg hlt]
    dsimp only
    constructor
    · rintro ⟨h, _⟩
      split_ifs at h <;> exact h.symm
    · intro h
      rw [h]
      exact ⟨rfl, rfl, rfl⟩

/-- Nor of one after a landing that does not happen. -/
theorem fall_land_kept_iff :
    ((fall server old next (land server old next p)).fallDistance = p.fallDistance ∧
        (fall server old next (land server old next p)).health = p.health ∧
        (fall server old next (land server old next p)).lastDamageTick = p.lastDamageTick) ↔
      p.isFlying = true ∧ (old.y.le next.y && onGround server p.position.toCoords) = false ∨
        if next.y.lt old.y = true then
          p.fallDistance.add ((old.y.sub next.y).mul p.fallMultiplier) = p.fallDistance
        else p.fallDistance = 0 := by
  by_cases hfly : p.isFlying = true
  · cases hland : old.y.le next.y && onGround server p.position.toCoords with
    | true =>
        obtain ⟨hle, hground⟩ := Bool.and_eq_true_iff.1 hland
        have hlt : ¬ next.y.lt old.y = true := fun h => by
          rw [ERat.not_le_of_lt h] at hle
          exact Bool.false_ne_true hle
        have hlanded : land server old next p = p.setFlying false := if_pos (by
          rw [hle, hfly, hground]
          rfl)
        have hfall : fall server old next (p.setFlying false) =
            trackFall server old.y next.y (p.setFlying false) := if_neg Bool.false_ne_true
        have hkept := trackFall_kept_iff server (p.setFlying false) old.y next.y
        rw [if_neg hlt] at hkept
        obtain ⟨hdistance, hhealth, htick⟩ := hkept.2 rfl
        rw [hlanded, hfall, hdistance, hhealth, htick, if_neg hlt]
        constructor
        · exact fun h => .inr h.1.symm
        · rintro (⟨_, h⟩ | h)
          · cases h
          · exact ⟨h.symm, rfl, rfl⟩
    | false =>
        have hflies : land server old next p = p := by
          refine if_neg fun h => ?_
          rw [hfly, Bool.and_true, hland] at h
          exact Bool.false_ne_true h
        have hfall : fall server old next p = p := if_pos hfly
        rw [hflies, hfall]
        exact iff_of_true ⟨rfl, rfl, rfl⟩ (.inl ⟨hfly, rfl⟩)
  · have hstays : land server old next p = p := by
      refine if_neg fun h => ?_
      rw [Bool.eq_false_iff.2 hfly, Bool.and_false, Bool.false_and] at h
      exact Bool.false_ne_true h
    have hfall : fall server old next p = trackFall server old.y next.y p := if_neg hfly
    rw [hstays, hfall, or_iff_right fun h => hfly h.1]
    exact trackFall_kept_iff server p old.y next.y

end

theorem portal_dimension_iff (server : Server) (next : Coords) (p : Player) :
    (portal server next p).dimension = p.dimension ↔ inPortal server next = false := by
  unfold portal
  split_ifs with hin
  · refine iff_of_false ?_ (Bool.not_eq_false _ ▸ hin)
    show (portalTarget p.dimension next).1 ≠ p.dimension
    unfold portalTarget
    split_ifs with hnether
    · rw [hnether]
      show "minecraft:overworld" ≠ "minecraft:the_nether"
      decide
    · exact fun h => hnether h.symm
  · exact iff_of_true rfl (Bool.eq_false_iff.2 hin)

/-! ## The validation -/

section

variable {server : Server} {next : Coords} {p : Player}

theorem validate_inBounds (h : inBounds p.speedMultiplier p.position.toCoords next = true) :
    validate server next p = ((p.acUpdateValid next server.tickCount).updatePositionFull next
      p.position.yaw p.position.pitch, true) := if_pos h

theorem validate_setsBack (hfar : ¬ inBounds p.speedMultiplier p.position.toCoords next = true)
    (hback : SetsBack p next) :
    validate server next p = (((p.acAddViolation server.tickCount).acResetViolations).updatePositionFull
      p.acLastValid p.position.yaw p.position.pitch, false) := by
  unfold validate
  rw [if_neg hfar, if_pos hback.1]
  exact if_pos hback.2

theorem validate_accepted (hfar : ¬ inBounds p.speedMultiplier p.position.toCoords next = true)
    (hback : ¬ SetsBack p next) : (validate server next p).2 = true := by
  unfold validate
  rw [if_neg hfar]
  split_ifs with hviolates
  · dsimp only
    exact congrArg Prod.snd (if_neg fun h => hback ⟨hviolates, h⟩)
  · rfl

end

/-! ## One packet -/

section

variable (server : Server) (old next : Coords) (p : Player) (c : Client)

theorem settle_coords : (settle server old next p).position.toCoords =
    if inPortal server next = true then (portalTarget p.dimension next).2
    else p.position.toCoords := by
  obtain ⟨hposition, hdimension⟩ := fall_land_frame server old next p
  unfold settle portal
  rw [glide_eq, ← hposition, ← hdimension]
  split_ifs <;> rfl

theorem settle_dimension_iff : (settle server old next p).dimension = p.dimension ↔
    inPortal server next = false := by
  unfold settle
  rw [glide_eq, ← portal_dimension_iff, (fall_land_frame server old next p).2]

theorem settle_of_not_inPortal (h : inPortal server next = false) :
    settle server old next p = fall server old next (land server old next p) := by
  unfold settle portal
  rw [glide_eq, if_neg (by rw [h]; exact Bool.false_ne_true)]

theorem playerPosition_player : (playerPosition server next c).player =
    settle server c.player.position.toCoords next (validate server next c.player).1 := by
  unfold playerPosition stream broadcastEntityMove
  dsimp only
  split_ifs <;> rfl

theorem playerPosition_moves : (playerPosition server next c).moves =
    c.moves ++ if (validate server next c.player).2 = true then
      [((validate server next c.player).1.entityId,
        ⟨next, c.player.position.yaw, c.player.position.pitch⟩)] else [] := by
  unfold playerPosition stream broadcastEntityMove
  dsimp only
  split_ifs
  · rfl
  · exact (List.append_nil _).symm

theorem playerPosition_view :
    (playerPosition server next c).tracker = moved c.tracker (server.move next) ∧
      (playerPosition server next c).generated =
        c.generated ++ generates c.tracker (server.move next) := by
  unfold playerPosition stream broadcastEntityMove
  dsimp only
  split_ifs <;> exact ⟨rfl, rfl⟩

end

section

variable {server : Server} {c : Client}

theorem lawful_position {next : Coords} : Lawful c (.position server next) ↔
    Moves c next (playerPosition server next c) ∨ Rejects c (playerPosition server next c) :=
  ⟨fun h => h next rfl, fun h _ hnext => Option.some.inj hnext ▸ h⟩

/-- Within the bound only a portal leads astray. -/
theorem lawful_position_inBounds {next : Coords}
    (h : inBounds c.player.speedMultiplier c.player.position.toCoords next = true) :
    Lawful c (.position server next) ↔ Acceptable c (.position server next) := by
  have hplayer := playerPosition_player server next c
  rw [validate_inBounds h] at hplayer
  have hcoords := congrArg (·.position.toCoords) hplayer
  have hdimension := (congrArg (·.dimension = c.player.dimension) hplayer).to_iff.trans
    (settle_dimension_iff ..)
  dsimp only at hcoords hdimension
  rw [settle_coords] at hcoords
  rw [lawful_position, Acceptable, if_pos h]
  by_cases hin : inPortal server next = true
  · rw [if_pos hin] at hcoords
    constructor
    · rintro (hmoves | hrejects) _
      · rw [← hmoves.made, hcoords]
        rfl
      · have hout := hdimension.1 hrejects.dimension
        rw [hin] at hout
        cases hout
    · intro htarget
      exact .inl ⟨h, by rw [hcoords]; exact htarget hin⟩
  · rw [if_neg hin] at hcoords
    exact iff_of_true (.inl ⟨h, by rw [hcoords]; exact h⟩) fun hin' => absurd hin' hin

/-- A packet that sets the player back leaves nothing behind exactly when it says nothing of a portal,
    a fall or another view. -/
theorem rejects_setsBack_iff {next : Coords}
    (hfar : ¬ inBounds c.player.speedMultiplier c.player.position.toCoords next = true)
    (hback : SetsBack c.player next) :
    Rejects c (playerPosition server next c) ↔ inPortal server next = false ∧
      KeepsFall server c.player c.player.acLastValid next ∧ KeepsView server c.tracker next := by
  have hplayer := playerPosition_player server next c
  have hmoves := playerPosition_moves server next c
  obtain ⟨htracker, hgenerated⟩ := playerPosition_view server next c
  rw [validate_setsBack hfar hback] at hplayer hmoves
  rw [if_neg Bool.false_ne_true, List.append_nil] at hmoves
  -- The player as he is set back falls as he did, and stands at the valid position.
  have hfall := fall_land_kept_iff server c.player.position.toCoords next
    (((c.player.acAddViolation server.tickCount).acResetViolations).updatePositionFull
      c.player.acLastValid c.player.position.yaw c.player.position.pitch)
  have hview := view_kept_iff (t := c.tracker) (m := server.move next)
  constructor
  · intro h
    have hout := (settle_dimension_iff ..).1 ((congrArg (·.dimension) hplayer).symm.trans h.dimension)
    rw [settle_of_not_inPortal _ _ _ _ hout] at hplayer
    rw [← hplayer] at hfall
    rw [← htracker] at hview
    exact ⟨hout, hfall.1 ⟨h.fallDistance, h.health, h.lastDamageTick⟩,
      hview.1 ⟨h.loadedChunks, h.sent, List.append_right_eq_self.1 (hgenerated.symm.trans h.generated)⟩⟩
  · rintro ⟨hout, hkeepsFall, hkeepsView⟩
    have hcoords := congrArg (·.position.toCoords) hplayer
    have hdimension := congrArg (·.dimension) hplayer
    dsimp only at hcoords hdimension
    rw [settle_coords, if_neg (by rw [hout]; exact Bool.false_ne_true)] at hcoords
    rw [(settle_dimension_iff ..).2 hout] at hdimension
    rw [settle_of_not_inPortal _ _ _ _ hout] at hplayer
    rw [← hplayer] at hfall
    rw [← htracker] at hview
    obtain ⟨hdistance, hhealth, htick⟩ := hfall.2 hkeepsFall
    obtain ⟨hloaded, hsent, hnone⟩ := hview.2 hkeepsView
    rw [hnone, List.append_nil] at hgenerated
    exact ⟨.inr hcoords, hmoves, hdistance, hhealth, htick, hdimension, hloaded, hsent, hgenerated⟩

/-- Beyond it the packet must set the player back, or it is broadcast. -/
theorem lawful_position_far {next : Coords}
    (hfar : ¬ inBounds c.player.speedMultiplier c.player.position.toCoords next = true) :
    Lawful c (.position server next) ↔ Acceptable c (.position server next) := by
  rw [lawful_position, Acceptable, if_neg hfar, or_iff_right fun h => hfar h.asked]
  by_cases hback : SetsBack c.player next
  · rw [and_iff_right hback]
    exact rejects_setsBack_iff hfar hback
  · have hmoves := playerPosition_moves server next c
    rw [validate_accepted hfar hback, if_pos rfl] at hmoves
    refine iff_of_false (fun h => ?_) fun h => hback h.1
    have hnone := List.append_right_eq_self.1 (hmoves.symm.trans h.moves)
    cases hnone

/-- With a rotation the packet is taken as it is, and always broadcast. -/
theorem lawful_positionAndRotation {next : Position} :
    Lawful c (.positionAndRotation server next) ↔ Acceptable c (.positionAndRotation server next) := by
  have hcoords : (playerPositionAndRotation server next c).player.position = next := by
    unfold playerPositionAndRotation stream broadcastEntityMove trackFall bootEnchants
    dsimp only
    split_ifs <;> rfl
  have hmoves : (playerPositionAndRotation server next c).moves =
      c.moves ++ [(c.player.entityId, next)] := rfl
  constructor
  · intro h
    rcases h next.toCoords rfl with hin | hrejects
    · exact hin.asked
    · have hnone := List.append_right_eq_self.1 (hmoves.symm.trans hrejects.moves)
      cases hnone
  · rintro h _ ⟨⟩
    refine .inl ⟨h, ?_⟩
    show inBounds _ _ (playerPositionAndRotation server next c).player.position.toCoords = true
    rw [hcoords]
    exact h

end

/-- **What one packet does.** -/
theorem lawful_iff (c : Client) (e : Event) : Lawful c e ↔ Acceptable c e := by
  cases e with
  | position server next =>
      by_cases h : inBounds c.player.speedMultiplier c.player.position.toCoords next = true
      · exact lawful_position_inBounds h
      · exact lawful_position_far h
  | positionAndRotation server next => exact lawful_positionAndRotation
  | elsewhere c' => exact iff_of_true (fun _ => nofun) trivial

/-- **The validation of movement.** -/
theorem along_lawful_iff (c : Client) (run : List Event) :
    Along step Lawful c run ↔ Along step Acceptable c run :=
  along_iff (fun _ => True) (fun c e _ => lawful_iff c e) (fun _ _ _ _ => trivial) trivial run

/-! ## A hostile client -/

/-- A client who has just joined, with nothing around it. -/
def newcomer : Client := ⟨addPlayer 0, joined 0, [], []⟩

def emptyServer : Server := ⟨1#64, fun _ => none, 0, id, perm_id, fun _ => true⟩

/-- A packet with a rotation moves a player a thousand blocks, and one without, whose coordinate is no
    number, is shown to the others. -/
theorem movement_unchecked :
    ¬ Along step Lawful newcomer [.positionAndRotation emptyServer ⟨⟨1000, 64, 0⟩, 0, 0⟩] ∧
      ¬ Along step Lawful newcomer [.position emptyServer ⟨.nan, 64, 0⟩] := by
  constructor
  · intro h
    have hin : inBounds 1 ⟨0, 64, 0⟩ ⟨1000, 64, 0⟩ = true := lawful_positionAndRotation.1 h.1
    exact absurd hin (by decide +kernel)
  · intro h
    have hfar : ¬ inBounds 1 ⟨0, 64, 0⟩ ⟨.nan, 64, 0⟩ = true := by decide
    have haccepted := (lawful_position_far (c := newcomer) hfar).1 h.1
    rw [Acceptable] at haccepted
    have hviolates := ((if_neg hfar).mp haccepted).1.1
    exact absurd hviolates (by decide)

end Apoptotic.Movement
