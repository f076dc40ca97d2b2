import Apoptotic.Lib.Floats
import Apoptotic.Lib.GridIndex
import Apoptotic.Lib.Reached
import Mathlib.Data.Finset.Basic

/-!
# Players see each other

The entity events of `mc-player/src/player.rs`, a broadcast channel, with the join of `handle_play` of
`mc-network/src/connection.rs` and the event loop of `mc-network/src/play_loop.rs`, as any number of
connections interleave them.  Of the packets only those are kept that show, move or remove an entity, and
of a player only the entity id and the position.

Principal result: `along_seeEachOther` — a client has been sent exactly one spawn and the last broadcast
position of every player in range, along every run in which nobody is announced, moves or comes into range
unnoticed: no event is lost that is the last one pending of its player, nothing is broadcast between a
greeting and the subscription, and the last pending event of a player finds him known.
-/

namespace Apoptotic.Visibility

abbrev Uuid := BitVec 128

abbrev EntityId := BitVec 32

structure Position (F : Type) where
  x : F
  y : F
  z : F
  yaw : F
  pitch : F
  deriving DecidableEq

/-! ## Events -/

/-- `EntityEventKind` -/
inductive Kind (F : Type) where
  | spawn (p : Position F)
  | mobSpawn (mobType : Int) (x y z : F)
  | move (p : Position F)
  | despawn
  | mobDespawn

structure EntityEvent (F : Type) where
  entityId : EntityId
  uuid : Uuid
  kind : Kind F

/-- Where the event says a player is. -/
def Kind.position? {F : Type} : Kind F → Option (Position F)
  | .spawn p => some p
  | .move p => some p
  | _ => none

def Kind.isSpawn {F : Type} : Kind F → Bool
  | .spawn _ => true
  | _ => false

/-- `broadcast::Receiver`: what is queued, and whether the channel has dropped something since the last
receive. -/
structure Receiver (F : Type) where
  pending : List (EntityEvent F)
  lagged : Bool

/-- `broadcast::channel::<EntityEvent>(128)` -/
def capacity : Nat := 128

namespace Receiver

variable {F : Type}

def new : Receiver F := ⟨[], false⟩

/-- A full channel drops the oldest event. -/
def send (r : Receiver F) (ev : EntityEvent F) : Receiver F :=
  if r.pending.length = capacity then ⟨r.pending.tail ++ [ev], true⟩
  else { r with pending := r.pending ++ [ev] }

end Receiver

/-! ## Tracking ranges -/

/-- What the server is configured with. -/
structure Config (F : Type) where
  viewDistance : BitVec 8
  entityBroadcastRadius : F

namespace Config

variable {F : Type} (fl : Floats F) (cfg : Config F)

/-- `f64::min` -/
def min (a b : F) : F := if fl.le a b then a else if fl.le b b then b else a

/-- `(server.view_distance as f64 * 16.0 + 32.0).powi(2)` -/
def maxRange : F :=
  let r := fl.add (fl.mul (fl.lit cfg.viewDistance.toNat) (fl.lit 16)) (fl.lit 32)
  fl.mul r r

def radiusCap : F :=
  min fl (fl.mul cfg.entityBroadcastRadius cfg.entityBroadcastRadius) (cfg.maxRange fl)

def hostileTypes : List Int :=
  [25, 33, 34, 35, 36, 37, 38, 43, 45, 46, 47, 48, 49, 50, 51, 52, 53, 54, 55, 56, 57, 58, 59, 60, 61, 62,
    63, 71, 72, 105, 106]

def mobRange (mobType : Int) : F :=
  let limit : F :=
    if mobType ∈ hostileTypes then fl.lit 48 else if mobType = 0 then fl.lit 16 else fl.lit 32
  let dist := min fl limit (fl.sqrt (cfg.radiusCap fl))
  fl.mul dist dist

/-- A player at `p` is out of the range of one at `my`. -/
def far (my p : Position F) : Bool :=
  fl.lt (cfg.maxRange fl) (fl.dist2 p.x p.y p.z my.x my.y my.z)

def tooFar (my : Position F) : Kind F → Bool
  | .spawn p => cfg.far fl my p
  | .move p => cfg.far fl my p
  | .mobSpawn mobType x y z => fl.lt (cfg.mobRange fl mobType) (fl.dist2 x y z my.x my.y my.z)
  | _ => false

end Config

/-! ## Connections -/

inductive Packet (F : Type) where
  | spawnPlayer (entityId : EntityId) (p : Position F)
  | spawnEntity (entityId : EntityId) (mobType : Int) (x y z : F)
  | teleportEntity (entityId : EntityId) (p : Position F)
  | removeEntities (entityId : EntityId)

/-- Where a connection is in `handle_play`. -/
inductive Stage where
  /-- `add_player` -/
  | joined
  /-- `broadcast_entity_spawn` -/
  | announced
  /-- The existing players have been sent. -/
  | greeted
  /-- `play_loop` -/
  | playing
  /-- `broadcast_entity_despawn` -/
  | leaving
  /-- `remove_player` -/
  | gone
  deriving DecidableEq, Repr

namespace Stage

def live : Stage → Bool
  | .gone => false
  | _ => true

/-- The player has not left. -/
def present : Stage → Bool
  | .leaving => false
  | .gone => false
  | _ => true

/-- The player has been announced and has not left. -/
def visible : Stage → Bool
  | .announced => true
  | .greeted => true
  | .playing => true
  | _ => false

/-- The client has been sent the others. -/
def watching : Stage → Bool
  | .greeted => true
  | .playing => true
  | _ => false

end Stage

structure Connection (F : Type) where
  uuid : Uuid
  entityId : EntityId
  stage : Stage
  /-- `entity_rx` -/
  receiver : Receiver F
  knownEntities : Finset EntityId
  /-- `(my_x, my_y, my_z)` -/
  my : Position F
  /-- The connection is in the loop over the events. -/
  reading : Bool
  /-- What the client was sent, the last packet first. -/
  sent : List (Packet F)

namespace Connection

variable {F : Type} (fl : Floats F) (cfg : Config F) (c : Connection F)

def forget (entityId : EntityId) : Connection F :=
  { c with knownEntities := c.knownEntities.erase entityId }

/-- Removes an entity that is known. -/
def remove (entityId : EntityId) : Connection F :=
  if entityId ∈ c.knownEntities then
    { c.forget entityId with sent := .removeEntities entityId :: c.sent }
  else c

/-- Shows an entity that is not known. -/
def spawn (entityId : EntityId) (packet : Packet F) : Connection F :=
  if entityId ∈ c.knownEntities then c
  else { c with knownEntities := insert entityId c.knownEntities, sent := packet :: c.sent }

/-- Moves an entity that is known. -/
def teleport (entityId : EntityId) (p : Position F) : Connection F :=
  if entityId ∈ c.knownEntities then { c with sent := .teleportEntity entityId p :: c.sent } else c

/-- The body of `while let Ok(ev) = entity_rx.try_recv()`. -/
def handle (ev : EntityEvent F) : Connection F :=
  if ev.uuid = c.uuid then
    match ev.kind with
    | .despawn => c.forget ev.entityId
    | _ => c
  else if cfg.tooFar fl c.my ev.kind then c.remove ev.entityId
  else
    match ev.kind with
    | .spawn p => c.spawn ev.entityId (.spawnPlayer ev.entityId p)
    | .move p => c.teleport ev.entityId p
    | .despawn => c.remove ev.entityId
    | .mobSpawn mobType x y z => c.spawn ev.entityId (.spawnEntity ev.entityId mobType x y z)
    | .mobDespawn => c.remove ev.entityId

def withPending (pending : List (EntityEvent F)) : Connection F :=
  { c with receiver := { c.receiver with pending := pending } }

/-- `entity_rx.try_recv()` and what follows it. -/
def receive : Connection F :=
  if c.receiver.lagged then
    { c with receiver := { c.receiver with lagged := false }, reading := false }
  else
    match c.receiver.pending with
    | [] => { c with reading := false }
    | ev :: rest => (c.withPending rest).handle fl cfg ev

/-- What a send on the channel does to a connection. -/
def deliver (ev : EntityEvent F) : Connection F :=
  if c.stage = .playing then { c with receiver := c.receiver.send ev } else c

end Connection

/-! ## The server -/

structure Player (F : Type) where
  entityId : EntityId
  position : Position F
  deriving DecidableEq

structure World (F : Type) where
  players : AList fun _ : Uuid => Player F
  nextEntityId : EntityId
  /-- In the order in which they came. -/
  connections : List (Connection F)
  /-- The last position broadcast for an entity. -/
  broadcast : EntityId → Option (Position F)

def World.new {F : Type} : World F := ⟨∅, 0, [], fun _ => none⟩

inductive Action (F : Type) where
  /-- `add_player` -/
  | join (uuid : Uuid)
  /-- `update_position_full`, also of a restored position. -/
  | updatePosition (uuid : Uuid) (p : Position F)
  /-- `broadcast_entity_spawn` -/
  | announce (i : Nat)
  /-- The loop over `others`. -/
  | greet (i : Nat)
  /-- `subscribe_entities` -/
  | subscribe (i : Nat)
  /-- `broadcast_entity_move` -/
  | broadcastMove (uuid : Uuid) (p : Position F)
  /-- `broadcast_mob_spawn` -/
  | mobSpawn (entityId : EntityId) (uuid : Uuid) (mobType : Int) (x y z : F)
  /-- `broadcast_mob_despawn` -/
  | mobDespawn (entityId : EntityId) (uuid : Uuid)
  /-- The loop over the events starts. -/
  | start (i : Nat)
  /-- One turn of the loop over the events. -/
  | receive (i : Nat)
  /-- `broadcast_entity_despawn` -/
  | leave (i : Nat)
  /-- `remove_player`, at the end or when a packet of the join cannot be sent. -/
  | quit (i : Nat)

namespace World

variable {F : Type} (fl : Floats F) (cfg : Config F) (w : World F)

/-- `Position::new(0.0, 64.0, 0.0)` -/
def spawnPosition : Position F := ⟨fl.lit 0, fl.lit 64, fl.lit 0, fl.lit 0, fl.lit 0⟩

/-- Where the loop takes a player to be. -/
def place (uuid : Uuid) : Position F :=
  ((w.players.lookup uuid).map Player.position).getD (spawnPosition fl)

/-- `entity_tx.send` -/
def send (ev : EntityEvent F) : World F :=
  { w with
    connections := w.connections.map fun c => c.deliver ev
    broadcast :=
      match ev.kind with
      | .spawn p => Function.update w.broadcast ev.entityId (some p)
      | .move p => Function.update w.broadcast ev.entityId (some p)
      | .despawn => Function.update w.broadcast ev.entityId none
      | _ => w.broadcast }

def put (i : Nat) (c : Connection F) : World F := { w with connections := w.connections.set i c }

def join (uuid : Uuid) : World F :=
  { w with
    players := w.players.insert uuid ⟨w.nextEntityId, spawnPosition fl⟩
    nextEntityId := w.nextEntityId + 1
    connections := w.connections ++
      [⟨uuid, w.nextEntityId, .joined, .new, ∅, spawnPosition fl, false, []⟩] }

def updatePosition (uuid : Uuid) (p : Position F) : World F :=
  match w.players.lookup uuid with
  | some player => { w with players := w.players.insert uuid { player with position := p } }
  | none => w

def announce (i : Nat) (c : Connection F) : World F :=
  (w.send ⟨c.entityId, c.uuid, .spawn (spawnPosition fl)⟩).put i { c with stage := .announced }

/-- `others` -/
def others (uuid : Uuid) : List (Uuid × Player F) :=
  (GridIndex.rows w.players).filter fun r => r.1 ≠ uuid

def greet (i : Nat) (c : Connection F) : World F :=
  w.put i { c with
    stage := .greeted
    sent := ((w.others c.uuid).map fun r => .spawnPlayer r.2.entityId r.2.position).reverse ++ c.sent }

def subscribe (i : Nat) (c : Connection F) : World F :=
  w.put i { c with stage := .playing, receiver := .new, knownEntities := ∅ }

def broadcastMove (uuid : Uuid) (p : Position F) : World F :=
  match w.players.lookup uuid with
  | some player => w.send ⟨player.entityId, uuid, .move p⟩
  | none => w

def start (i : Nat) (c : Connection F) : World F :=
  w.put i { c with my := w.place fl c.uuid, reading := true }

def leave (i : Nat) (c : Connection F) : World F :=
  (w.put i { c with stage := .leaving, receiver := .new, knownEntities := ∅ }).send
    ⟨c.entityId, c.uuid, .despawn⟩

def quit (i : Nat) (c : Connection F) : World F :=
  { w.put i { c with stage := .gone } with players := w.players.erase c.uuid }

/-- What a connection does where it takes the action. -/
def onStage (i : Nat) (stages : List Stage) (f : Connection F → World F) : World F :=
  match w.connections[i]? with
  | some c => if c.stage ∈ stages then f c else w
  | none => w

def step : Action F → World F
  | .join uuid => w.join fl uuid
  | .updatePosition uuid p => w.updatePosition uuid p
  | .announce i => w.onStage i [.joined] (w.announce fl i)
  | .greet i => w.onStage i [.announced] (w.greet i)
  | .subscribe i => w.onStage i [.greeted] (w.subscribe i)
  | .broadcastMove uuid p => w.broadcastMove uuid p
  | .mobSpawn entityId uuid mobType x y z => w.send ⟨entityId, uuid, .mobSpawn mobType x y z⟩
  | .mobDespawn entityId uuid => w.send ⟨entityId, uuid, .mobDespawn⟩
  | .start i => w.onStage i [.playing] (w.start fl i)
  | .receive i =>
      w.onStage i [.playing] fun c => if c.reading then w.put i (c.receive fl cfg) else w
  | .leave i => w.onStage i [.playing] (w.leave i)
  | .quit i => w.onStage i [.joined, .leaving] (w.quit i)

end World

/-! ## What a client sees -/

section

variable {F : Type}

/-- The spawns of the entity that no later removal cancelled. -/
def spawnCount (entityId : EntityId) : List (Packet F) → Nat
  | [] => 0
  | .spawnPlayer id _ :: sent =>
      if id = entityId then spawnCount entityId sent + 1 else spawnCount entityId sent
  | .removeEntities id :: sent => if id = entityId then 0 else spawnCount entityId sent
  | _ :: sent => spawnCount entityId sent

/-- The last position sent for the entity. -/
def lastPosition (entityId : EntityId) : List (Packet F) → Option (Position F)
  | [] => none
  | .spawnPlayer id p :: sent => if id = entityId then some p else lastPosition entityId sent
  | .teleportEntity id p :: sent => if id = entityId then some p else lastPosition entityId sent
  | _ :: sent => lastPosition entityId sent

/-- The client was sent one spawn of the entity, and last that position. -/
def Connection.Sees (c : Connection F) (entityId : EntityId) (p : Position F) : Prop :=
  spawnCount entityId c.sent = 1 ∧ lastPosition entityId c.sent = some p

/-- The last event of the entity in a queue. -/
def lastOf (entityId : EntityId) : List (EntityEvent F) → Option (EntityEvent F)
  | [] => none
  | ev :: rest => lastOf entityId rest <|> if ev.entityId = entityId then some ev else none

namespace World

variable (fl : Floats F) (cfg : Config F) (w : World F)

/-- **A client that has processed all events sees every other player in range where he was last
broadcast.** -/
def SeeEachOther : Prop :=
  ∀ a ∈ w.connections, a.stage = .playing → a.receiver.pending = [] →
    ∀ b ∈ w.connections, b.stage.visible → b.uuid ≠ a.uuid →
      ∀ p ∈ w.broadcast b.entityId, cfg.far fl (w.place fl a.uuid) p = false → a.Sees b.entityId p

/-! ## Orderly actions -/

/-- Nothing carries the id. -/
def Fresh (entityId : EntityId) : Prop :=
  ∀ c ∈ w.connections, (c.stage.live → c.entityId ≠ entityId) ∧ entityId ∉ c.knownEntities ∧
    ∀ ev ∈ c.receiver.pending, ev.entityId ≠ entityId

/-- Whoever comes into range when a player gets to `p` is known to his connection or has an event
pending. -/
def Clear (uuid : Uuid) (p : Position F) : Prop :=
  ∀ a ∈ w.connections, a.stage.watching → a.uuid = uuid →
    ∀ b ∈ w.connections, b.stage.visible → b.uuid ≠ uuid →
      ∀ q ∈ w.broadcast b.entityId, cfg.far fl p q = false →
        cfg.far fl (w.place fl uuid) q = false ∨ b.entityId ∈ a.knownEntities ∨
          (lastOf b.entityId a.receiver.pending).isSome

/-- A full channel does not drop the last pending event of a player. -/
def Kept (ev : EntityEvent F) : Prop :=
  ∀ a ∈ w.connections, a.stage = .playing → a.receiver.pending.length = capacity →
    ∀ b ∈ w.connections, b.stage.visible → b.uuid ≠ a.uuid →
      (lastOf b.entityId a.receiver.pending).isSome →
        (lastOf b.entityId (a.receiver.pending.tail ++ [ev])).isSome

/-- No connection between its greeting and its subscription is in range. -/
def Unmissed (uuid : Uuid) (p : Position F) : Prop :=
  ∀ a ∈ w.connections, a.stage = .greeted → a.uuid ≠ uuid → cfg.far fl (w.place fl a.uuid) p

/-- The table has the last broadcast position of whoever is in range. -/
def Current (uuid : Uuid) : Prop :=
  ∀ b ∈ w.connections, b.stage.visible → b.uuid ≠ uuid →
    ∀ q ∈ w.broadcast b.entityId, cfg.far fl (w.place fl uuid) q = false →
      w.players.lookup b.uuid = some ⟨b.entityId, q⟩

/-- A spawn shows a player who is not shown.  The last pending event of a player does not miss one who is
in range by now, and moves one who is known. -/
def Apt (c : Connection F) (ev : EntityEvent F) (rest : List (EntityEvent F)) : Prop :=
  ∀ b ∈ w.connections, b.stage.present → b.uuid ≠ c.uuid → b.entityId = ev.entityId →
    (ev.kind.isSpawn → cfg.tooFar fl c.my ev.kind = false → spawnCount ev.entityId c.sent = 0) ∧
      (b.stage.visible → lastOf ev.entityId rest = none →
        (cfg.tooFar fl c.my ev.kind → cfg.tooFar fl (w.place fl c.uuid) ev.kind) ∧
          (cfg.tooFar fl c.my ev.kind = false → ev.kind.isSpawn ∨ ev.entityId ∈ c.knownEntities))

/-- The first pending event. -/
def AptNext (c : Connection F) : Prop :=
  match c.receiver.pending with
  | [] => True
  | ev :: rest => c.reading → c.receiver.lagged = false → w.Apt fl cfg c ev rest

/-- No live connection has the id, and no event is lost. -/
def MobApart (ev : EntityEvent F) : Prop :=
  (∀ c ∈ w.connections, c.stage.present → c.entityId ≠ ev.entityId) ∧ w.Kept ev

def Orderly : Action F → Prop
  | .join uuid => w.Fresh w.nextEntityId ∧ w.Clear fl cfg uuid (spawnPosition fl)
  | .updatePosition uuid p => w.Clear fl cfg uuid p
  | .announce i => ∀ c ∈ w.connections[i]?, c.stage = .joined →
      w.Kept ⟨c.entityId, c.uuid, .spawn (spawnPosition fl)⟩ ∧
        w.Unmissed fl cfg c.uuid (spawnPosition fl)
  | .greet i => ∀ c ∈ w.connections[i]?, c.stage = .announced → w.Current fl cfg c.uuid
  | .broadcastMove uuid p => ∀ player ∈ w.players.lookup uuid,
      w.Kept ⟨player.entityId, uuid, .move p⟩ ∧ w.Unmissed fl cfg uuid p
  | .mobSpawn entityId uuid mobType x y z => w.MobApart ⟨entityId, uuid, .mobSpawn mobType x y z⟩
  | .mobDespawn entityId uuid => w.MobApart ⟨entityId, uuid, .mobDespawn⟩
  | .receive i => ∀ c ∈ w.connections[i]?, c.stage = .playing → w.AptNext fl cfg c
  | .leave i => ∀ c ∈ w.connections[i]?, c.stage = .playing →
      w.Kept ⟨c.entityId, c.uuid, .despawn⟩
  | .quit i => ∀ c ∈ w.connections[i]?, c.stage = .joined ∨ c.stage = .leaving →
      w.Clear fl cfg c.uuid (spawnPosition fl)
  | _ => True

section

variable [DecidableEq F]

instance (c : Connection F) (entityId : EntityId) (p : Position F) : Decidable (c.Sees entityId p) :=
  inferInstanceAs (Decidable (_ ∧ _))

instance : Decidable (w.SeeEachOther fl cfg) :=
  inferInstanceAs (Decidable (∀ a ∈ w.connections, _))

instance (entityId : EntityId) : Decidable (w.Fresh entityId) :=
  inferInstanceAs (Decidable (∀ c ∈ w.connections, _))

instance (uuid : Uuid) (p : Position F) : Decidable (w.Clear fl cfg uuid p) :=
  inferInstanceAs (Decidable (∀ a ∈ w.connections, _))

instance (ev : EntityEvent F) : Decidable (w.Kept ev) :=
  inferInstanceAs (Decidable (∀ a ∈ w.connections, _))

instance (uuid : Uuid) (p : Position F) : Decidable (w.Unmissed fl cfg uuid p) :=
  inferInstanceAs (Decidable (∀ a ∈ w.connections, _))

instance (uuid : Uuid) : Decidable (w.Current fl cfg uuid) :=
  inferInstanceAs (Decidable (∀ b ∈ w.connections, _))

instance (c : Connection F) (ev : EntityEvent F) (rest : List (EntityEvent F)) :
    Decidable (w.Apt fl cfg c ev rest) :=
  inferInstanceAs (Decidable (∀ b ∈ w.connections, _))

instance (c : Connection F) : Decidable (w.AptNext fl cfg c) :=
  match h : c.receiver.pending with
  | [] => .isTrue (by rw [AptNext, h]; trivial)
  | ev :: rest => decidable_of_iff (c.reading → c.receiver.lagged = false → w.Apt fl cfg c ev rest)
      (by rw [AptNext, h])

instance (ev : EntityEvent F) : Decidable (w.MobApart ev) := inferInstanceAs (Decidable (_ ∧ _))

instance : DecidablePred (w.Orderly fl cfg)
  | .join _ => inferInstanceAs (Decidable (_ ∧ _))
  | .updatePosition uuid p => inferInstanceAs (Decidable (w.Clear fl cfg uuid p))
  | .announce i => inferInstanceAs (Decidable (∀ c ∈ w.connections[i]?, _))
  | .greet i => inferInstanceAs (Decidable (∀ c ∈ w.connections[i]?, _))
  | .subscribe _ => .isTrue trivial
  | .broadcastMove uuid _ => inferInstanceAs (Decidable (∀ player ∈ w.players.lookup uuid, _))
  | .mobSpawn entityId uuid mobType x y z =>
      inferInstanceAs (Decidable (w.MobApart ⟨entityId, uuid, .mobSpawn mobType x y z⟩))
  | .mobDespawn entityId uuid => inferInstanceAs (Decidable (w.MobApart ⟨entityId, uuid, .mobDespawn⟩))
  | .start _ => .isTrue trivial
  | .receive i => inferInstanceAs (Decidable (∀ c ∈ w.connections[i]?, _))
  | .leave i => inferInstanceAs (Decidable (∀ c ∈ w.connections[i]?, _))
  | .quit i => inferInstanceAs (Decidable (∀ c ∈ w.connections[i]?, _))

end

end World

end

/-! ## The last pending event -/

section

variable {F : Type} {entityId : EntityId} {ev ev₀ : EntityEvent F} {rest pending : List (EntityEvent F)}

theorem lastOf_cons_of_isSome (h : (lastOf entityId rest).isSome) :
    lastOf entityId (ev :: rest) = lastOf entityId rest := by
  obtain ⟨l, hl⟩ := Option.isSome_iff_exists.1 h
  rw [lastOf, hl]
  rfl

theorem lastOf_cons_of_ne (h : ev.entityId ≠ entityId) :
    lastOf entityId (ev :: rest) = lastOf entityId rest := by
  rw [lastOf, if_neg h]
  cases lastOf entityId rest <;> rfl

theorem lastOf_cons_of_eq_none (h : lastOf entityId rest = none) (he : ev.entityId = entityId) :
    lastOf entityId (ev :: rest) = some ev := by
  rw [lastOf, if_pos he, h]
  rfl

theorem lastOf_append (pending : List (EntityEvent F)) (ev : EntityEvent F) :
    lastOf entityId (pending ++ [ev]) =
      if ev.entityId = entityId then some ev else lastOf entityId pending := by
  induction pending with
  | nil =>
      change (none <|> _) = _
      rfl
  | cons ev₀ pending ih =>
      rw [List.cons_append, lastOf, ih]
      split
      · rfl
      · rfl

theorem entityId_of_lastOf (h : lastOf entityId pending = some ev) :
    ev ∈ pending ∧ ev.entityId = entityId := by
  induction pending with
  | nil => cases h
  | cons ev₀ pending ih =>
      cases hl : lastOf entityId pending with
      | some l =>
          rw [lastOf_cons_of_isSome (by rw [hl]; rfl)] at h
          obtain ⟨hmem, he⟩ := ih h
          exact ⟨List.mem_cons_of_mem _ hmem, he⟩
      | none =>
          by_cases he : ev₀.entityId = entityId
          · rw [lastOf_cons_of_eq_none hl he] at h
            cases h
            exact ⟨List.mem_cons_self, he⟩
          · rw [lastOf_cons_of_ne he, hl] at h
            cases h

/-- What a receiver has pending after a send that drops nobody's last event. -/
theorem lastOf_send {r : Receiver F} (hne : ev.entityId ≠ entityId)
    (hkept : r.pending.length = capacity → (lastOf entityId r.pending).isSome →
      (lastOf entityId (r.pending.tail ++ [ev])).isSome) :
    lastOf entityId (r.send ev).pending = lastOf entityId r.pending := by
  unfold Receiver.send
  split
  · next hfull =>
      change lastOf entityId (r.pending.tail ++ [ev]) = _
      specialize hkept hfull
      rw [lastOf_append, if_neg hne] at hkept ⊢
      cases hp : r.pending with
      | nil => rfl
      | cons ev₀ rest =>
          rw [hp, List.tail_cons] at hkept
          rw [List.tail_cons]
          cases hl : lastOf entityId rest with
          | some l => rw [lastOf_cons_of_isSome (by rw [hl]; rfl), hl]
          | none =>
              cases hc : lastOf entityId (ev₀ :: rest) with
              | none => rfl
              | some l =>
                  rw [hc, hl] at hkept
                  cases hkept rfl
  · change lastOf entityId (r.pending ++ [ev]) = _
    rw [lastOf_append, if_neg hne]

theorem lastOf_send_self (r : Receiver F) (ev : EntityEvent F) :
    lastOf ev.entityId (r.send ev).pending = some ev := by
  unfold Receiver.send
  split
  · exact (lastOf_append _ _).trans (if_pos rfl)
  · exact (lastOf_append _ _).trans (if_pos rfl)

theorem mem_pending_send {r : Receiver F} (h : ev₀ ∈ (r.send ev).pending) :
    ev₀ ∈ r.pending ∨ ev₀ = ev := by
  unfold Receiver.send at h
  split at h
  · rcases List.mem_append.1 h with h | h
    · exact .inl (List.mem_of_mem_tail h)
    · exact .inr (List.mem_singleton.1 h)
  · rcases List.mem_append.1 h with h | h
    · exact .inl h
    · exact .inr (List.mem_singleton.1 h)

end

/-! ## What an event does to a connection -/

section

variable {F : Type} {c : Connection F} {ev : EntityEvent F} {entityId : EntityId}

namespace Connection

@[simp] theorem uuid_deliver : (c.deliver ev).uuid = c.uuid := by
  unfold deliver
  split <;> rfl

@[simp] theorem entityId_deliver : (c.deliver ev).entityId = c.entityId := by
  unfold deliver
  split <;> rfl

@[simp] theorem stage_deliver : (c.deliver ev).stage = c.stage := by
  unfold deliver
  split <;> rfl

@[simp] theorem knownEntities_deliver : (c.deliver ev).knownEntities = c.knownEntities := by
  unfold deliver
  split <;> rfl

@[simp] theorem sent_deliver : (c.deliver ev).sent = c.sent := by
  unfold deliver
  split <;> rfl

theorem deliver_of_playing (h : c.stage = .playing) :
    (c.deliver ev).receiver = c.receiver.send ev := by
  rw [deliver, if_pos h]

theorem deliver_of_not_playing (h : c.stage ≠ .playing) : c.deliver ev = c := if_neg h

/-- What a connection knows and has sent of an entity. -/
structure SameOf (entityId : EntityId) (c c' : Connection F) : Prop where
  known : entityId ∈ c'.knownEntities ↔ entityId ∈ c.knownEntities
  count : spawnCount entityId c'.sent = spawnCount entityId c.sent
  position : lastPosition entityId c'.sent = lastPosition entityId c.sent

theorem sameOf_forget (hne : ev.entityId ≠ entityId) : SameOf entityId c (c.forget ev.entityId) where
  known := by
    change entityId ∈ c.knownEntities.erase ev.entityId ↔ _
    rw [Finset.mem_erase]
    exact and_iff_right hne.symm
  count := rfl
  position := rfl

theorem sameOf_remove (hne : ev.entityId ≠ entityId) : SameOf entityId c (c.remove ev.entityId) := by
  unfold remove
  split
  · exact ⟨(sameOf_forget hne).known, if_neg hne, rfl⟩
  · exact ⟨Iff.rfl, rfl, rfl⟩

theorem sameOf_spawn (hne : ev.entityId ≠ entityId) {packet : Packet F}
    (hcount : spawnCount entityId (packet :: c.sent) = spawnCount entityId c.sent)
    (hposition : lastPosition entityId (packet :: c.sent) = lastPosition entityId c.sent) :
    SameOf entityId c (c.spawn ev.entityId packet) := by
  unfold spawn
  split
  · exact ⟨Iff.rfl, rfl, rfl⟩
  · refine ⟨?_, hcount, hposition⟩
    change entityId ∈ insert ev.entityId c.knownEntities ↔ _
    rw [Finset.mem_insert]
    exact or_iff_right hne.symm

theorem sameOf_teleport (hne : ev.entityId ≠ entityId) {p : Position F} :
    SameOf entityId c (c.teleport ev.entityId p) := by
  unfold teleport
  split
  · exact ⟨Iff.rfl, rfl, if_neg hne⟩
  · exact ⟨Iff.rfl, rfl, rfl⟩

/-- An event of one entity leaves the others alone. -/
theorem sameOf_handle (fl : Floats F) (cfg : Config F) (c : Connection F) (hne : ev.entityId ≠ entityId) :
    SameOf entityId c (c.handle fl cfg ev) := by
  unfold handle
  split
  · split
    · exact sameOf_forget hne
    · exact ⟨Iff.rfl, rfl, rfl⟩
  · split
    · exact sameOf_remove hne
    · split
      · exact sameOf_spawn hne (if_neg hne) (if_neg hne)
      · exact sameOf_teleport hne
      · exact sameOf_remove hne
      · exact sameOf_spawn hne rfl rfl
      · exact sameOf_remove hne

/-- What the code keeps of a connection that handles an event. -/
theorem handle_fixed (fl : Floats F) (cfg : Config F) (c : Connection F) (ev : EntityEvent F) :
    (c.handle fl cfg ev).uuid = c.uuid ∧ (c.handle fl cfg ev).entityId = c.entityId ∧
      (c.handle fl cfg ev).stage = c.stage ∧ (c.handle fl cfg ev).receiver = c.receiver := by
  unfold handle forget remove spawn teleport
  repeat' split
  all_goals exact ⟨rfl, rfl, rfl, rfl⟩

end Connection

end

/-! ## The invariant -/

theorem Stage.present_of_visible {s : Stage} (h : s.visible) : s.present := by
  cases s <;> first | rfl | cases h

theorem Stage.live_of_present {s : Stage} (h : s.present) : s.live := by
  cases s <;> first | rfl | cases h

namespace World

section

variable {F : Type} (fl : Floats F) (cfg : Config F) (w : World F)

/-- The last pending event of an entity that was last broadcast at `q` says so; without one the client
sees the entity there when it is known or in range. -/
structure Follows (a : Connection F) (entityId : EntityId) (q : Position F) : Prop where
  last : ∀ ev, lastOf entityId a.receiver.pending = some ev → ev.kind.position? = some q
  settled : lastOf entityId a.receiver.pending = none →
    entityId ∈ a.knownEntities ∨ cfg.far fl (w.place fl a.uuid) q = false → a.Sees entityId q

/-- A watching client was sent one spawn of every player it knows, and follows the visible ones. -/
structure Watched (a b : Connection F) : Prop where
  once : b.entityId ∈ a.knownEntities → spawnCount b.entityId a.sent = 1
  follows : b.stage.visible → ∀ q ∈ w.broadcast b.entityId, w.Follows fl cfg a b.entityId q

def WatchedBy (a b : Connection F) : Prop :=
  a.stage.watching → b.stage.present → b.uuid ≠ a.uuid → w.Watched fl cfg a b

/-- Nothing is queued before the subscription, and nothing sent before the greeting. -/
structure Idle (c : Connection F) : Prop where
  waiting : c.stage.present → c.stage ≠ .playing → c.receiver.pending = [] ∧ c.knownEntities = ∅
  ungreeted : c.stage = .joined ∨ c.stage = .announced → c.sent = []

structure Good : Prop where
  ids : ∀ (i j : Nat) (a b : Connection F), w.connections[i]? = some a → w.connections[j]? = some b →
    a.stage.live → b.stage.live → a.entityId = b.entityId → i = j
  table : ∀ uuid player, w.players.lookup uuid = some player →
    ∃ b ∈ w.connections, b.stage.live ∧ b.uuid = uuid ∧ b.entityId = player.entityId
  events : ∀ a ∈ w.connections, ∀ b ∈ w.connections, b.stage.present →
    ∀ ev ∈ a.receiver.pending, ev.entityId = b.entityId → ev.uuid = b.uuid ∧ ev.kind.position?.isSome
  idle : ∀ c ∈ w.connections, Idle c
  watched : ∀ a ∈ w.connections, ∀ b ∈ w.connections, w.WatchedBy fl cfg a b

variable {fl cfg w}

theorem good_new : (World.new : World F).Good fl cfg where
  ids i j a b ha hb := by cases ha
  table uuid player h := by cases h
  events a ha := by cases ha
  idle c hc := by cases hc
  watched a ha := by cases ha

/-- **Once all is processed, what is in range is seen.** -/
theorem Good.seeEachOther (hw : w.Good fl cfg) : w.SeeEachOther fl cfg := by
  intro a ha hplaying hpending b hb hvisible hne p hp hnear
  have hwatching : a.stage.watching := by
    rw [hplaying]
    rfl
  have hwatched := hw.watched a ha b hb hwatching (Stage.present_of_visible hvisible) hne
  refine (hwatched.follows hvisible p hp).settled ?_ (.inr hnear)
  rw [hpending]
  rfl

end

/-! ## Connections that change -/

section

variable {F : Type} {fl : Floats F} {cfg : Config F} {w : World F} {i : Nat} {a b c c' : Connection F}

/-- What concerns neither the last broadcast position nor brings the other into range unnoticed. -/
theorem WatchedBy.of_place {w' : World F} (h : w.WatchedBy fl cfg a b)
    (hbroadcast : w'.broadcast b.entityId = w.broadcast b.entityId)
    (hclear : b.stage.visible → b.uuid ≠ a.uuid → ∀ q ∈ w.broadcast b.entityId,
      cfg.far fl (w'.place fl a.uuid) q = false →
        cfg.far fl (w.place fl a.uuid) q = false ∨ b.entityId ∈ a.knownEntities ∨
          (lastOf b.entityId a.receiver.pending).isSome) : w'.WatchedBy fl cfg a b := by
  intro hwatching hpresent hne
  obtain ⟨once, follows⟩ := h hwatching hpresent hne
  refine ⟨once, fun hvis q hq => ?_⟩
  rw [hbroadcast] at hq
  obtain ⟨last, settled⟩ := follows hvis q hq
  refine ⟨last, fun hnone hcase => settled hnone ?_⟩
  rcases hcase with hknown | hnear
  · exact .inl hknown
  · rcases hclear hvis hne q hq hnear with hnear | hknown | hsome
    · exact .inr hnear
    · exact .inl hknown
    · rw [hnone] at hsome
      cases hsome

theorem mem_set {l : List (Connection F)} (h : b ∈ l.set i c') :
    b = c' ∨ ∃ j, j ≠ i ∧ l[j]? = some b := by
  obtain ⟨j, hj⟩ := List.mem_iff_getElem?.1 h
  rw [List.getElem?_set] at hj
  split at hj
  · split at hj
    · exact .inl (Option.some.inj hj).symm
    · cases hj
  · next hne => exact .inr ⟨j, fun h => hne h.symm, hj⟩

/-- A connection that changes, with what its client sees of the others and the others of it. -/
theorem Good.put (hw : w.Good fl cfg) (c' : Connection F) (hc : w.connections[i]? = some c)
    (huuid : c'.uuid = c.uuid) (hid : c'.entityId = c.entityId) (hlive : c'.stage.live → c.stage.live)
    (hstay : c'.stage.live ∨ w.players.lookup c.uuid = none)
    (hpresent : c'.stage.present → c.stage.present)
    (hpending : ∀ ev ∈ c'.receiver.pending, ev ∈ c.receiver.pending) (hidle : Idle c')
    (hview : ∀ b ∈ w.connections, w.WatchedBy fl cfg c' b)
    (hseen : ∀ a ∈ w.connections, w.WatchedBy fl cfg a c') : (w.put i c').Good fl cfg where
  ids j k a b ha hb hla hlb he := by
    have hold : ∀ (j : Nat) (a : Connection F), (w.connections.set i c')[j]? = some a → a.stage.live →
        ∃ a₀, w.connections[j]? = some a₀ ∧ a₀.stage.live ∧ a₀.entityId = a.entityId := by
      intro j a ha hla
      rw [List.getElem?_set] at ha
      split at ha
      · next h =>
          subst h
          split at ha
          · cases ha
            exact ⟨c, hc, hlive hla, hid.symm⟩
          · cases ha
      · exact ⟨a, ha, hla, rfl⟩
    obtain ⟨a₀, ha₀, hla₀, hea⟩ := hold j a ha hla
    obtain ⟨b₀, hb₀, hlb₀, heb⟩ := hold k b hb hlb
    exact hw.ids j k a₀ b₀ ha₀ hb₀ hla₀ hlb₀ (hea.trans (he.trans heb.symm))
  table uuid player h := by
    obtain ⟨b, hb, hlb, hu, he⟩ := hw.table uuid player h
    obtain ⟨j, hj⟩ := List.mem_iff_getElem?.1 hb
    by_cases hij : i = j
    · subst hij
      cases hc.symm.trans hj
      have hlive' : c'.stage.live := by
        refine hstay.resolve_right fun hnone => ?_
        rw [hu] at hnone
        cases hnone.symm.trans h
      refine ⟨c', List.mem_iff_getElem?.2 ⟨i, ?_⟩, hlive', huuid.trans hu, hid.trans he⟩
      exact List.getElem?_set_self (List.getElem?_eq_some_iff.1 hc).1
    · refine ⟨b, List.mem_iff_getElem?.2 ⟨j, ?_⟩, hlb, hu, he⟩
      exact (List.getElem?_set_ne hij).trans hj
  events a ha b hb hpb ev hev he := by
    have hcmem := List.mem_iff_getElem?.2 ⟨i, hc⟩
    have hqueue : ∃ a₀ ∈ w.connections, ev ∈ a₀.receiver.pending := by
      rcases mem_set ha with rfl | ⟨j, -, hj⟩
      · exact ⟨c, hcmem, hpending ev hev⟩
      · exact ⟨a, List.mem_iff_getElem?.2 ⟨j, hj⟩, hev⟩
    obtain ⟨a₀, ha₀, hev₀⟩ := hqueue
    rcases mem_set hb with rfl | ⟨j, -, hj⟩
    · rw [huuid]
      exact hw.events a₀ ha₀ c hcmem (hpresent hpb) ev hev₀ (he.trans hid)
    · exact hw.events a₀ ha₀ b (List.mem_iff_getElem?.2 ⟨j, hj⟩) hpb ev hev₀ he
  idle d hd := by
    rcases mem_set hd with rfl | ⟨j, -, hj⟩
    · exact hidle
    · exact hw.idle d (List.mem_iff_getElem?.2 ⟨j, hj⟩)
  watched a ha b hb := by
    refine WatchedBy.of_place (w := w) ?_ rfl fun _ _ _ _ hnear => .inl hnear
    rcases mem_set ha with rfl | ⟨j, -, hj⟩
    · rcases mem_set hb with rfl | ⟨k, -, hk⟩
      · exact fun _ _ hne => absurd rfl hne
      · exact hview b (List.mem_iff_getElem?.2 ⟨k, hk⟩)
    · rcases mem_set hb with rfl | ⟨k, -, hk⟩
      · exact hseen a (List.mem_iff_getElem?.2 ⟨j, hj⟩)
      · exact hw.watched a (List.mem_iff_getElem?.2 ⟨j, hj⟩) b (List.mem_iff_getElem?.2 ⟨k, hk⟩)

/-- Others see no more of a connection than they did. -/
theorem WatchedBy.of_seen (h : w.WatchedBy fl cfg a c) (huuid : c'.uuid = c.uuid)
    (hid : c'.entityId = c.entityId) (hpresent : c'.stage.present → c.stage.present)
    (hvisible : c'.stage.visible → c.stage.visible) : w.WatchedBy fl cfg a c' := by
  intro hwatching hpc hne
  rw [huuid] at hne
  have hwatched := h hwatching (hpresent hpc) hne
  refine ⟨?_, fun hvis => ?_⟩
  · rw [hid]
    exact hwatched.once
  · rw [hid]
    exact hwatched.follows (hvisible hvis)

/-- A client sees of the others what it did. -/
theorem WatchedBy.of_view (h : w.WatchedBy fl cfg c b) (huuid : c'.uuid = c.uuid)
    (hwatching : c'.stage.watching → c.stage.watching)
    (hpending : c'.receiver.pending = c.receiver.pending) (hknown : c'.knownEntities = c.knownEntities)
    (hsent : c'.sent = c.sent) : w.WatchedBy fl cfg c' b := by
  intro hwc hpb hne
  rw [huuid] at hne
  obtain ⟨once, follows⟩ := h (hwatching hwc) hpb hne
  refine ⟨fun hk => ?_, fun hvis q hq => ⟨fun ev hev => ?_, fun hnone hcase => ?_⟩⟩
  · rw [hsent]
    rw [hknown] at hk
    exact once hk
  · rw [hpending] at hev
    exact (follows hvis q hq).last ev hev
  · rw [hpending] at hnone
    rw [hknown, huuid] at hcase
    unfold Connection.Sees
    rw [hsent]
    exact (follows hvis q hq).settled hnone hcase

theorem watchedBy_of_not_watching (h : ¬ c.stage.watching) : w.WatchedBy fl cfg c b :=
  fun hwatching => absurd hwatching h

theorem watchedBy_of_not_present (h : ¬ b.stage.present) : w.WatchedBy fl cfg c b :=
  fun _ hpresent => absurd hpresent h

end

/-! ## Events that are sent -/

section

variable {F : Type} {fl : Floats F} {cfg : Config F} {w : World F} {a b : Connection F}
  {ev : EntityEvent F} {entityId : EntityId}

theorem eq_spawn_or_eq_move {kind : Kind F} (h : kind.position?.isSome) :
    (∃ p, kind = .spawn p) ∨ ∃ p, kind = .move p := by
  cases kind with
  | spawn p => exact .inl ⟨p, rfl⟩
  | move p => exact .inr ⟨p, rfl⟩
  | despawn => cases h
  | mobSpawn mobType x y z => cases h
  | mobDespawn => cases h

theorem broadcast_send_of_ne (hne : ev.entityId ≠ entityId) :
    (w.send ev).broadcast entityId = w.broadcast entityId := by
  unfold send
  cases ev.kind with
  | spawn p => exact Function.update_of_ne hne.symm _ _
  | move p => exact Function.update_of_ne hne.symm _ _
  | despawn => exact Function.update_of_ne hne.symm _ _
  | mobSpawn mobType x y z => rfl
  | mobDespawn => rfl

theorem broadcast_send_self {p : Position F} (h : ev.kind.position? = some p) :
    (w.send ev).broadcast ev.entityId = some p := by
  unfold send
  rcases eq_spawn_or_eq_move (by rw [h]; rfl) with ⟨p', hkind⟩ | ⟨p', hkind⟩
  · rw [hkind] at h ⊢
    cases h
    exact Function.update_self ..
  · rw [hkind] at h ⊢
    cases h
    exact Function.update_self ..

theorem greeted_of_watching {s : Stage} (h : s.watching) (hne : s ≠ .playing) : s = .greeted := by
  cases s with
  | greeted => rfl
  | playing => exact absurd rfl hne
  | joined => cases h
  | announced => cases h
  | leaving => cases h
  | gone => cases h

/-- The event is the last one pending of its player, where it is received at all. -/
theorem follows_deliver_self (hidle : Idle a) (hwatching : a.stage.watching) {p : Position F}
    (hp : ev.kind.position? = some p)
    (hunmissed : a.stage = .greeted → cfg.far fl (w.place fl a.uuid) p) :
    (w.send ev).Follows fl cfg (a.deliver ev) ev.entityId p := by
  by_cases hplaying : a.stage = .playing
  · have hlast : lastOf ev.entityId (a.deliver ev).receiver.pending = some ev := by
      rw [Connection.deliver_of_playing hplaying]
      exact lastOf_send_self _ _
    refine ⟨fun ev' hev' => ?_, fun hnone => ?_⟩
    · cases hlast.symm.trans hev'
      exact hp
    · cases hlast.symm.trans hnone
  · have hgreeted := greeted_of_watching hwatching hplaying
    obtain ⟨hpending, hknown⟩ := hidle.waiting (by rw [hgreeted]; rfl) hplaying
    rw [Connection.deliver_of_not_playing hplaying]
    refine ⟨fun ev' hev' => ?_, fun _ hcase => ?_⟩
    · rw [hpending] at hev'
      cases hev'
    · rcases hcase with hmem | hnear
      · rw [hknown] at hmem
        exact absurd hmem (Finset.notMem_empty _)
      · exact absurd (hunmissed hgreeted) (Bool.eq_false_iff.1 hnear)

/-- Of the others the last pending event stays. -/
theorem Follows.deliver {q : Position F} (h : w.Follows fl cfg a entityId q)
    (hne : ev.entityId ≠ entityId)
    (hkept : a.stage = .playing → a.receiver.pending.length = capacity →
      (lastOf entityId a.receiver.pending).isSome →
        (lastOf entityId (a.receiver.pending.tail ++ [ev])).isSome) :
    (w.send ev).Follows fl cfg (a.deliver ev) entityId q := by
  have hlast : lastOf entityId (a.deliver ev).receiver.pending = lastOf entityId a.receiver.pending := by
    by_cases hplaying : a.stage = .playing
    · rw [Connection.deliver_of_playing hplaying]
      exact lastOf_send hne (hkept hplaying)
    · rw [Connection.deliver_of_not_playing hplaying]
  refine ⟨fun ev' hev' => h.last ev' (hlast.symm.trans hev'), fun hnone hcase => ?_⟩
  rw [Connection.knownEntities_deliver, Connection.uuid_deliver] at hcase
  unfold Connection.Sees
  rw [Connection.sent_deliver]
  exact h.settled (hlast.symm.trans hnone) hcase

theorem mem_pending_deliver {ev' : EntityEvent F} (h : ev' ∈ (a.deliver ev).receiver.pending) :
    ev' ∈ a.receiver.pending ∨ ev' = ev := by
  by_cases hplaying : a.stage = .playing
  · rw [Connection.deliver_of_playing hplaying] at h
    exact mem_pending_send h
  · rw [Connection.deliver_of_not_playing hplaying] at h
    exact .inl h

/-- An event about the player who is named, which is neither lost nor drowns out another. -/
theorem Good.send (hw : w.Good fl cfg)
    (hown : ∀ b ∈ w.connections, b.stage.present → ev.entityId = b.entityId →
      ev.uuid = b.uuid ∧ ev.kind.position?.isSome)
    (hkept : w.Kept ev) (hunmissed : ∀ p, ev.kind.position? = some p → w.Unmissed fl cfg ev.uuid p) :
    (w.send ev).Good fl cfg where
  ids i j a b ha hb hla hlb he := by
    change (w.connections.map fun c => c.deliver ev)[i]? = some a at ha
    change (w.connections.map fun c => c.deliver ev)[j]? = some b at hb
    rw [List.getElem?_map, Option.map_eq_some_iff] at ha hb
    obtain ⟨a₀, ha₀, rfl⟩ := ha
    obtain ⟨b₀, hb₀, rfl⟩ := hb
    rw [Connection.stage_deliver] at hla hlb
    rw [Connection.entityId_deliver, Connection.entityId_deliver] at he
    exact hw.ids i j a₀ b₀ ha₀ hb₀ hla hlb he
  table uuid player h := by
    obtain ⟨b, hb, hlb, hu, he⟩ := hw.table uuid player h
    refine ⟨b.deliver ev, List.mem_map_of_mem hb, ?_, ?_, ?_⟩
    · rw [Connection.stage_deliver]
      exact hlb
    · rw [Connection.uuid_deliver]
      exact hu
    · rw [Connection.entityId_deliver]
      exact he
  events a ha b hb hpb ev' hev' he := by
    obtain ⟨a₀, ha₀, rfl⟩ := List.mem_map.1 ha
    obtain ⟨b₀, hb₀, rfl⟩ := List.mem_map.1 hb
    rw [Connection.stage_deliver] at hpb
    rw [Connection.entityId_deliver] at he
    rw [Connection.uuid_deliver]
    rcases mem_pending_deliver hev' with hold | rfl
    · exact hw.events a₀ ha₀ b₀ hb₀ hpb ev' hold he
    · exact hown b₀ hb₀ hpb he
  idle c hc := by
    obtain ⟨c₀, hc₀, rfl⟩ := List.mem_map.1 hc
    refine ⟨fun hpresent hne => ?_, fun hstage => ?_⟩
    · rw [Connection.stage_deliver] at hpresent hne
      rw [Connection.deliver_of_not_playing hne]
      exact (hw.idle c₀ hc₀).waiting hpresent hne
    · rw [Connection.stage_deliver] at hstage
      rw [Connection.sent_deliver]
      exact (hw.idle c₀ hc₀).ungreeted hstage
  watched a ha b hb := by
    obtain ⟨a₀, ha₀, rfl⟩ := List.mem_map.1 ha
    obtain ⟨b₀, hb₀, rfl⟩ := List.mem_map.1 hb
    intro hwatching hpresent hne
    rw [Connection.stage_deliver] at hwatching hpresent
    rw [Connection.uuid_deliver, Connection.uuid_deliver] at hne
    obtain ⟨once, follows⟩ := hw.watched a₀ ha₀ b₀ hb₀ hwatching hpresent hne
    refine ⟨?_, fun hvisible q hq => ?_⟩
    · rw [Connection.entityId_deliver, Connection.knownEntities_deliver, Connection.sent_deliver]
      exact once
    · rw [Connection.stage_deliver] at hvisible
      rw [Connection.entityId_deliver] at hq ⊢
      by_cases he : ev.entityId = b₀.entityId
      · obtain ⟨hu, hsome⟩ := hown b₀ hb₀ hpresent he
        obtain ⟨p, hp⟩ := Option.isSome_iff_exists.1 hsome
        rw [← he, broadcast_send_self hp] at hq
        cases hq
        rw [← he]
        refine follows_deliver_self (hw.idle a₀ ha₀) hwatching hp fun hgreeted => ?_
        exact hunmissed q hp a₀ ha₀ hgreeted fun h => hne (hu.symm.trans h.symm)
      · rw [broadcast_send_of_ne he] at hq
        exact (follows hvisible q hq).deliver he fun hplaying hfull hsome =>
          hkept a₀ ha₀ hplaying hfull b₀ hb₀ hvisible hne hsome

end

/-! ## The table -/

section

variable {F : Type} {fl : Floats F} {cfg : Config F} {w w' : World F} {uuid : Uuid} {i : Nat}
  {c : Connection F}

theorem place_of_ne {players : AList fun _ : Uuid => Player F}
    (h : ∀ uuid', uuid' ≠ uuid → players.lookup uuid' = w.players.lookup uuid') {uuid' : Uuid}
    (hne : uuid' ≠ uuid) : ({ w with players := players } : World F).place fl uuid' = w.place fl uuid' := by
  unfold place
  rw [h uuid' hne]

/-- A table that changes where one player is, and brings nobody into his range unnoticed. -/
theorem Good.withPlayers (hw : w.Good fl cfg) (uuid : Uuid) {players : AList fun _ : Uuid => Player F}
    (htable : ∀ uuid player, players.lookup uuid = some player →
      ∃ b ∈ w.connections, b.stage.live ∧ b.uuid = uuid ∧ b.entityId = player.entityId)
    (hsame : ∀ uuid', uuid' ≠ uuid → players.lookup uuid' = w.players.lookup uuid') {p : Position F}
    (hp : ((players.lookup uuid).map Player.position).getD (spawnPosition fl) = p)
    (hclear : w.Clear fl cfg uuid p) : ({ w with players := players } : World F).Good fl cfg where
  ids := hw.ids
  table := htable
  events := hw.events
  idle := hw.idle
  watched a ha b hb := by
    intro hwatching hpresent hne
    refine WatchedBy.of_place (w := w) (hw.watched a ha b hb) rfl ?_ hwatching hpresent hne
    intro hvisible _ q hq hnear
    by_cases hu : a.uuid = uuid
    · subst hu
      change cfg.far fl (((players.lookup a.uuid).map Player.position).getD (spawnPosition fl)) q = false
        at hnear
      rw [hp] at hnear
      exact hclear a ha hwatching rfl b hb hvisible hne q hq hnear
    · rw [place_of_ne hsame hu] at hnear
      exact .inl hnear

theorem Good.updatePosition (hw : w.Good fl cfg) {p : Position F} (hclear : w.Clear fl cfg uuid p) :
    (w.updatePosition uuid p).Good fl cfg := by
  unfold World.updatePosition
  cases hlookup : w.players.lookup uuid with
  | none => exact hw
  | some player =>
      refine hw.withPlayers uuid (fun uuid' player' h => ?_) (fun uuid' hne => ?_) ?_ hclear
      · by_cases hu : uuid' = uuid
        · subst hu
          rw [AList.lookup_insert] at h
          cases h
          exact hw.table _ player hlookup
        · rw [AList.lookup_insert_ne hu] at h
          exact hw.table _ _ h
      · exact AList.lookup_insert_ne hne
      · rw [AList.lookup_insert]
        rfl

/-- A connection that ends, and its row. -/
theorem Good.quit (hw : w.Good fl cfg) (hc : w.connections[i]? = some c)
    (hclear : w.Clear fl cfg c.uuid (spawnPosition fl)) : (w.quit i c).Good fl cfg := by
  have herase : ({ w with players := w.players.erase c.uuid } : World F).Good fl cfg := by
    refine hw.withPlayers c.uuid (fun uuid' player h => ?_) (fun uuid' hne => ?_) ?_ hclear
    · have hne : uuid' ≠ c.uuid := by
        rintro rfl
        rw [AList.lookup_erase] at h
        cases h
      rw [AList.lookup_erase_ne hne] at h
      exact hw.table _ _ h
    · exact AList.lookup_erase_ne hne
    · rw [AList.lookup_erase]
      rfl
  refine herase.put { c with stage := .gone } hc rfl rfl nofun (.inr (AList.lookup_erase ..)) nofun
    (fun _ h => h) ⟨nofun, ?_⟩ (fun b _ => watchedBy_of_not_watching nofun)
    (fun a _ => watchedBy_of_not_present nofun)
  rintro (h | h)
  · cases h
  · cases h

/-- A connection under a fresh id. -/
theorem Good.withConnection (hw : w.Good fl cfg) (hfresh : w.Fresh c.entityId)
    (hstage : c.stage = .joined) (hreceiver : c.receiver.pending = []) (hknown : c.knownEntities = ∅)
    (hsent : c.sent = []) (entityId : EntityId) :
    ({ w with connections := w.connections ++ [c], nextEntityId := entityId } : World F).Good fl cfg where
  ids j k a b ha hb hla hlb he := by
    have hpos : ∀ {j : Nat} {a : Connection F}, (w.connections ++ [c])[j]? = some a →
        w.connections[j]? = some a ∨ a = c ∧ j = w.connections.length := by
      intro j a ha
      rw [List.getElem?_append] at ha
      split at ha
      · exact .inl ha
      · next hge =>
          have hj : j - w.connections.length = 0 := by
            have := (List.getElem?_eq_some_iff.1 ha).1
            rw [List.length_singleton] at this
            omega
          rw [hj] at ha
          cases ha
          exact .inr ⟨rfl, by omega⟩
    rcases hpos ha with ha₀ | ⟨rfl, hj⟩
    · rcases hpos hb with hb₀ | ⟨rfl, hk⟩
      · exact hw.ids j k a b ha₀ hb₀ hla hlb he
      · exact absurd he ((hfresh a (List.mem_iff_getElem?.2 ⟨j, ha₀⟩)).1 hla)
    · rcases hpos hb with hb₀ | ⟨rfl, hk⟩
      · exact absurd he.symm ((hfresh b (List.mem_iff_getElem?.2 ⟨k, hb₀⟩)).1 hlb)
      · exact hj.trans hk.symm
  table uuid player h := by
    obtain ⟨b, hb, hrest⟩ := hw.table uuid player h
    exact ⟨b, List.mem_append_left _ hb, hrest⟩
  events a ha b hb hpb ev hev he := by
    rcases List.mem_append.1 ha with ha | ha
    · rcases List.mem_append.1 hb with hb | hb
      · exact hw.events a ha b hb hpb ev hev he
      · cases List.mem_singleton.1 hb
        exact absurd he ((hfresh a ha).2.2 ev hev)
    · cases List.mem_singleton.1 ha
      rw [hreceiver] at hev
      cases hev
  idle d hd := by
    rcases List.mem_append.1 hd with hd | hd
    · exact hw.idle d hd
    · cases List.mem_singleton.1 hd
      exact ⟨fun _ _ => ⟨hreceiver, hknown⟩, fun _ => hsent⟩
  watched a ha b hb := by
    rcases List.mem_append.1 ha with ha | ha
    · rcases List.mem_append.1 hb with hb | hb
      · exact WatchedBy.of_place (w := w) (hw.watched a ha b hb) rfl fun _ _ _ _ hnear => .inl hnear
      · cases List.mem_singleton.1 hb
        refine fun _ _ _ => ⟨fun hmem => absurd hmem (hfresh a ha).2.1, fun hvisible => ?_⟩
        rw [hstage] at hvisible
        cases hvisible
    · cases List.mem_singleton.1 ha
      refine watchedBy_of_not_watching ?_
      rw [hstage]
      exact nofun

theorem Good.join (hw : w.Good fl cfg) (hfresh : w.Fresh w.nextEntityId)
    (hclear : w.Clear fl cfg uuid (spawnPosition fl)) : (w.join fl uuid).Good fl cfg := by
  have hconn := hw.withConnection
    (c := ⟨uuid, w.nextEntityId, .joined, .new, ∅, spawnPosition fl, false, []⟩) hfresh rfl rfl rfl rfl
    (w.nextEntityId + 1)
  refine hconn.withPlayers uuid (p := spawnPosition fl) (fun uuid' player h => ?_)
    (fun uuid' hne => AList.lookup_insert_ne hne) ?_ ?_
  · by_cases hu : uuid' = uuid
    · subst hu
      rw [AList.lookup_insert] at h
      cases h
      exact ⟨_, List.mem_append_right _ (List.mem_singleton_self _), rfl, rfl, rfl⟩
    · rw [AList.lookup_insert_ne hu] at h
      exact hconn.table uuid' player h
  · rw [AList.lookup_insert]
    rfl
  · intro a ha hwatching hu b hb hvisible hne q hq hnear
    rcases List.mem_append.1 ha with ha | ha
    · rcases List.mem_append.1 hb with hb | hb
      · exact hclear a ha hwatching hu b hb hvisible hne q hq hnear
      · cases List.mem_singleton.1 hb
        cases hvisible
    · cases List.mem_singleton.1 ha
      cases hwatching

end

/-! ## Events that are received -/

section

variable {F : Type} {fl : Floats F} {cfg : Config F} {w : World F} {a b c : Connection F}
  {ev : EntityEvent F} {rest : List (EntityEvent F)} {i : Nat}

theorem tooFar_eq {kind : Kind F} {my q : Position F} (h : kind.position? = some q) :
    cfg.tooFar fl my kind = cfg.far fl my q := by
  rcases eq_spawn_or_eq_move (by rw [h]; rfl) with ⟨p, rfl⟩ | ⟨p, rfl⟩
  · cases h
    rfl
  · cases h
    rfl

theorem handle_of_far (hne : ev.uuid ≠ c.uuid) (hfar : cfg.tooFar fl c.my ev.kind) :
    c.handle fl cfg ev = c.remove ev.entityId := by
  rw [Connection.handle, if_neg hne, if_pos hfar]

theorem notMem_remove (entityId : EntityId) : entityId ∉ (c.remove entityId).knownEntities := by
  unfold Connection.remove
  split
  · exact Finset.notMem_erase _ _
  · next h => exact h

theorem handle_spawn (hne : ev.uuid ≠ c.uuid) (hnear : cfg.tooFar fl c.my ev.kind = false)
    {p : Position F} (hkind : ev.kind = .spawn p) (hunknown : ev.entityId ∉ c.knownEntities) :
    c.handle fl cfg ev = { c with
      knownEntities := insert ev.entityId c.knownEntities
      sent := .spawnPlayer ev.entityId p :: c.sent } := by
  rw [Connection.handle, if_neg hne, if_neg (Bool.eq_false_iff.1 hnear), hkind]
  exact if_neg hunknown

theorem handle_move (hne : ev.uuid ≠ c.uuid) (hnear : cfg.tooFar fl c.my ev.kind = false)
    {p : Position F} (hkind : ev.kind = .move p) :
    c.handle fl cfg ev = c.teleport ev.entityId p := by
  rw [Connection.handle, if_neg hne, if_neg (Bool.eq_false_iff.1 hnear), hkind]

/-- A client that receives an event of another entity. -/
theorem Watched.handle_other (h : w.Watched fl cfg c b) (hpending : c.receiver.pending = ev :: rest)
    (hne : ev.entityId ≠ b.entityId) : w.Watched fl cfg ((c.withPending rest).handle fl cfg ev) b := by
  have hsame := Connection.sameOf_handle fl cfg (c.withPending rest) hne
  obtain ⟨huuid, -, -, hreceiver⟩ := Connection.handle_fixed fl cfg (c.withPending rest) ev
  have hlast : lastOf b.entityId c.receiver.pending = lastOf b.entityId rest := by
    rw [hpending, lastOf_cons_of_ne hne]
  refine ⟨fun hknown => ?_, fun hvisible q hq => ⟨fun ev' hev' => ?_, fun hnone hcase => ?_⟩⟩
  · rw [hsame.count]
    exact h.once (hsame.known.1 hknown)
  · rw [hreceiver] at hev'
    exact (h.follows hvisible q hq).last ev' (hlast.trans hev')
  · rw [hreceiver] at hnone
    rw [hsame.known, huuid] at hcase
    unfold Connection.Sees
    rw [hsame.count, hsame.position]
    exact (h.follows hvisible q hq).settled (hlast.trans hnone) hcase

/-- What is to be seen of the entity of an event once it is handled. -/
theorem Watched.of_handled (h : w.Watched fl cfg c b) (hpending : c.receiver.pending = ev :: rest)
    (he : ev.entityId = b.entityId) {c' : Connection F} (huuid : c'.uuid = c.uuid)
    (hreceiver : c'.receiver.pending = rest)
    (honce : ev.entityId ∈ c'.knownEntities → spawnCount ev.entityId c'.sent = 1)
    (hsettled : b.stage.visible → lastOf ev.entityId rest = none → ∀ q, ev.kind.position? = some q →
      ev.entityId ∈ c'.knownEntities ∨ cfg.far fl (w.place fl c.uuid) q = false →
        c'.Sees ev.entityId q) : w.Watched fl cfg c' b := by
  rw [he] at honce hsettled
  refine ⟨honce, fun hvisible q hq => ⟨fun ev' hev' => ?_, fun hnone hcase => ?_⟩⟩
  · rw [hreceiver] at hev'
    refine (h.follows hvisible q hq).last ev' ?_
    rw [hpending, lastOf_cons_of_isSome (by rw [hev']; rfl), hev']
  · rw [hreceiver] at hnone
    rw [huuid] at hcase
    refine hsettled hvisible hnone q ((h.follows hvisible q hq).last ev ?_) hcase
    rw [hpending, lastOf_cons_of_eq_none hnone he]

/-- A player who is too far is removed if he was shown. -/
theorem Watched.handle_far (h : w.Watched fl cfg c b) (hpending : c.receiver.pending = ev :: rest)
    (he : ev.entityId = b.entityId) (hne : ev.uuid ≠ c.uuid) (hfar : cfg.tooFar fl c.my ev.kind)
    (hstill : b.stage.visible → lastOf ev.entityId rest = none → ∀ q, ev.kind.position? = some q →
      cfg.far fl (w.place fl c.uuid) q) :
    w.Watched fl cfg ((c.withPending rest).handle fl cfg ev) b := by
  obtain ⟨huuid, -, -, hreceiver⟩ := Connection.handle_fixed fl cfg (c.withPending rest) ev
  have hunknown : ev.entityId ∉ ((c.withPending rest).handle fl cfg ev).knownEntities := by
    rw [handle_of_far (c := c.withPending rest) hne hfar]
    exact notMem_remove _
  refine h.of_handled hpending he huuid (congrArg Receiver.pending hreceiver)
    (fun hknown => absurd hknown hunknown) fun hvisible hnone q hq hcase => ?_
  rcases hcase with hknown | hnear
  · exact absurd hknown hunknown
  · exact absurd (hstill hvisible hnone q hq) (Bool.eq_false_iff.1 hnear)

/-- A spawn in range shows a player who was not. -/
theorem Watched.handle_spawn (h : w.Watched fl cfg c b) (hpending : c.receiver.pending = ev :: rest)
    (he : ev.entityId = b.entityId) (hne : ev.uuid ≠ c.uuid)
    (hnear : cfg.tooFar fl c.my ev.kind = false) {p : Position F} (hkind : ev.kind = .spawn p)
    (hcount : spawnCount ev.entityId c.sent = 0) :
    w.Watched fl cfg ((c.withPending rest).handle fl cfg ev) b := by
  have hunknown : ev.entityId ∉ c.knownEntities := by
    intro hknown
    rw [he] at hknown hcount
    cases hcount.symm.trans (h.once hknown)
  have hcount' : spawnCount ev.entityId (.spawnPlayer ev.entityId p :: c.sent) = 1 := by
    rw [spawnCount, if_pos rfl, hcount]
  rw [World.handle_spawn (c := c.withPending rest) hne hnear hkind hunknown]
  refine h.of_handled hpending he rfl rfl (fun _ => hcount') fun _ _ q hq _ => ⟨hcount', ?_⟩
  rw [hkind] at hq
  cases hq
  exact if_pos rfl

/-- A move in range of a player who is known, or who has another event pending. -/
theorem Watched.handle_move (h : w.Watched fl cfg c b) (hpending : c.receiver.pending = ev :: rest)
    (he : ev.entityId = b.entityId) (hne : ev.uuid ≠ c.uuid)
    (hnear : cfg.tooFar fl c.my ev.kind = false) {p : Position F} (hkind : ev.kind = .move p)
    (hknown : b.stage.visible → lastOf ev.entityId rest = none → ev.entityId ∈ c.knownEntities) :
    w.Watched fl cfg ((c.withPending rest).handle fl cfg ev) b := by
  have honce := h.once
  rw [← he] at honce
  rw [World.handle_move (c := c.withPending rest) hne hnear hkind, Connection.teleport]
  split
  · next hk =>
      refine h.of_handled hpending he rfl rfl (fun _ => honce hk) fun _ _ q hq _ => ⟨honce hk, ?_⟩
      rw [hkind] at hq
      cases hq
      exact if_pos rfl
  · next hk =>
      exact h.of_handled hpending he rfl rfl honce fun hvisible hnone =>
        absurd (hknown hvisible hnone) hk

/-- **A client that receives an event follows the players it followed.** -/
theorem Good.watchedBy_handle (hw : w.Good fl cfg) (hc : c ∈ w.connections) (hb : b ∈ w.connections)
    (hpending : c.receiver.pending = ev :: rest) (hapt : w.Apt fl cfg c ev rest) :
    w.WatchedBy fl cfg ((c.withPending rest).handle fl cfg ev) b := by
  intro hwatching hpresent hne
  obtain ⟨huuid, -, hstage, -⟩ := Connection.handle_fixed fl cfg (c.withPending rest) ev
  rw [hstage] at hwatching
  rw [huuid] at hne
  have h := hw.watched c hc b hb hwatching hpresent hne
  by_cases he : ev.entityId = b.entityId
  · obtain ⟨hu, hsome⟩ := hw.events c hc b hb hpresent ev (by rw [hpending]; exact List.mem_cons_self) he
    have hne' : ev.uuid ≠ c.uuid := fun h => hne (hu.symm.trans h)
    obtain ⟨hspawn, hlast⟩ := hapt b hb hpresent hne he.symm
    cases hfar : cfg.tooFar fl c.my ev.kind with
    | true =>
        refine h.handle_far hpending he hne' hfar fun hvisible hnone q hq => ?_
        rw [← tooFar_eq hq]
        exact (hlast hvisible hnone).1 hfar
    | false =>
        rcases eq_spawn_or_eq_move hsome with ⟨p, hkind⟩ | ⟨p, hkind⟩
        · exact h.handle_spawn hpending he hne' hfar hkind (hspawn (by rw [hkind]; rfl) hfar)
        · refine h.handle_move hpending he hne' hfar hkind fun hvisible hnone => ?_
          refine ((hlast hvisible hnone).2 hfar).resolve_left ?_
          rw [hkind]
          exact nofun
  · exact h.handle_other hpending he

end

/-! ## One action -/

section

variable {F : Type} {fl : Floats F} {cfg : Config F} {w : World F} {a b c : Connection F} {i : Nat}

/-- The connection with the id of a live one. -/
theorem Good.eq_of_entityId (hw : w.Good fl cfg) (hc : c ∈ w.connections) (hlive : c.stage.live)
    (hb : b ∈ w.connections) (hlive' : b.stage.live) (he : c.entityId = b.entityId) : c = b := by
  obtain ⟨i, hi⟩ := List.mem_iff_getElem?.1 hc
  obtain ⟨j, hj⟩ := List.mem_iff_getElem?.1 hb
  obtain rfl := hw.ids i j c b hi hj hlive hlive' he
  exact Option.some.inj (hi.symm.trans hj)

theorem Good.announce (hw : w.Good fl cfg) (hc : w.connections[i]? = some c) (hjoined : c.stage = .joined)
    (hkept : w.Kept ⟨c.entityId, c.uuid, .spawn (spawnPosition fl)⟩)
    (hunmissed : w.Unmissed fl cfg c.uuid (spawnPosition fl)) : (w.announce fl i c).Good fl cfg := by
  have hmem := List.mem_iff_getElem?.2 ⟨i, hc⟩
  have hlive : c.stage.live := by
    rw [hjoined]
    rfl
  have hpresent : c.stage.present := by
    rw [hjoined]
    rfl
  have hsend : (w.send ⟨c.entityId, c.uuid, .spawn (spawnPosition fl)⟩).Good fl cfg := by
    refine hw.send (fun b hb hpb he => ⟨?_, rfl⟩) hkept fun p hp => ?_
    · exact congrArg Connection.uuid (hw.eq_of_entityId hmem hlive hb (Stage.live_of_present hpb) he)
    · cases hp
      exact hunmissed
  have hc' : (w.send ⟨c.entityId, c.uuid, .spawn (spawnPosition fl)⟩).connections[i]? = some c := by
    refine (List.getElem?_map ..).trans ?_
    rw [hc, Option.map_some, Connection.deliver_of_not_playing (by rw [hjoined]; exact nofun)]
  refine hsend.put { c with stage := .announced } hc' rfl rfl (fun _ => hlive) (.inl rfl) (fun _ => hpresent)
    (fun _ h => h) ?_ (fun b _ => watchedBy_of_not_watching nofun) ?_
  · have hidle := hw.idle c hmem
    refine ⟨fun _ _ => hidle.waiting hpresent ?_, fun _ => hidle.ungreeted (.inl hjoined)⟩
    rw [hjoined]
    exact nofun
  · intro a ha hwatching _ hne
    have hwatched := hsend.watched a ha c (List.mem_iff_getElem?.2 ⟨i, hc'⟩) hwatching hpresent hne
    refine ⟨hwatched.once, fun _ q hq => ?_⟩
    obtain ⟨a₀, ha₀, rfl⟩ := List.mem_map.1 ha
    rw [Connection.stage_deliver] at hwatching
    rw [Connection.uuid_deliver] at hne
    have hspawn : (w.send ⟨c.entityId, c.uuid, .spawn (spawnPosition fl)⟩).broadcast c.entityId =
        some (spawnPosition fl) := broadcast_send_self rfl
    cases hspawn.symm.trans hq
    exact follows_deliver_self (hw.idle a₀ ha₀) hwatching rfl fun hgreeted =>
      hunmissed a₀ ha₀ hgreeted fun h => hne h.symm

/-- What a list of spawns shows. -/
theorem sees_of_mem {entityId : EntityId} {q : Position F} {rs : List (EntityId × Position F)}
    (hmem : (entityId, q) ∈ rs) (hnodup : (rs.map Prod.fst).Nodup) :
    spawnCount entityId (rs.map fun r => .spawnPlayer r.1 r.2) = 1 ∧
      lastPosition entityId (rs.map fun r => .spawnPlayer r.1 r.2) = some q := by
  have hnone : ∀ rs : List (EntityId × Position F), entityId ∉ rs.map Prod.fst →
      spawnCount entityId (rs.map fun r => .spawnPlayer r.1 r.2) = 0 := by
    intro rs hrs
    induction rs with
    | nil => rfl
    | cons r rs ih =>
        rw [List.map_cons, List.mem_cons, not_or] at hrs
        rw [List.map_cons, spawnCount, if_neg fun h => hrs.1 h.symm]
        exact ih hrs.2
  induction rs with
  | nil => cases hmem
  | cons r rs ih =>
      rw [List.map_cons, List.nodup_cons] at hnodup
      rw [List.map_cons, spawnCount, lastPosition]
      rcases List.mem_cons.1 hmem with rfl | hmem
      · rw [if_pos rfl, if_pos rfl, hnone rs hnodup.1]
        exact ⟨rfl, rfl⟩
      · have hne : r.1 ≠ entityId := by
          rintro rfl
          exact hnodup.1 (List.mem_map.2 ⟨_, hmem, rfl⟩)
        rw [if_neg hne, if_neg hne]
        exact ih hmem hnodup.2

theorem mem_others {uuid : Uuid} {r : Uuid × Player F} :
    r ∈ w.others uuid ↔ w.players.lookup r.1 = some r.2 ∧ r.1 ≠ uuid := by
  unfold others GridIndex.rows
  rw [List.mem_filter, decide_eq_true_iff]
  refine and_congr_left fun _ => ?_
  rw [← Option.mem_def, AList.mem_lookup_iff, List.mem_map]
  constructor
  · rintro ⟨s, hs, rfl⟩
    exact hs
  · exact fun h => ⟨⟨r.1, r.2⟩, h, rfl⟩

/-- The others have different entities. -/
theorem Good.nodup_others (hw : w.Good fl cfg) (uuid : Uuid) :
    ((w.others uuid).map fun r => r.2.entityId).Nodup := by
  have hnodup : (w.others uuid).Nodup := by
    refine List.Nodup.filter _ (List.Nodup.map ?_ w.players.nodupKeys.nodup)
    rintro ⟨u, p⟩ ⟨u', p'⟩ h
    cases h
    rfl
  refine List.Nodup.map_on (fun r hr r' hr' he => ?_) hnodup
  have hlookup := (mem_others.1 hr).1
  have hlookup' := (mem_others.1 hr').1
  obtain ⟨b, hb, hlive, hu, hid⟩ := hw.table _ _ hlookup
  obtain ⟨b', hb', hlive', hu', hid'⟩ := hw.table _ _ hlookup'
  have heq := hw.eq_of_entityId hb hlive hb' hlive' (hid.trans (he.trans hid'.symm))
  have huuid : r.1 = r'.1 := by rw [← hu, ← hu', heq]
  rw [huuid, hlookup'] at hlookup
  exact Prod.ext huuid (Option.some.inj hlookup).symm

theorem Good.greet (hw : w.Good fl cfg) (hc : w.connections[i]? = some c) (hannounced : c.stage = .announced)
    (hcurrent : w.Current fl cfg c.uuid) : (w.greet i c).Good fl cfg := by
  have hmem := List.mem_iff_getElem?.2 ⟨i, hc⟩
  have hidle := hw.idle c hmem
  obtain ⟨hpending, hknown⟩ := hidle.waiting (by rw [hannounced]; rfl) (by rw [hannounced]; exact nofun)
  refine hw.put _ hc rfl rfl ?_ (.inl rfl) ?_ (fun _ h => h) ⟨fun _ _ => ⟨hpending, hknown⟩, ?_⟩ ?_ ?_
  · rw [hannounced]
    exact fun _ => rfl
  · rw [hannounced]
    exact fun _ => rfl
  · rintro (h | h)
    · cases h
    · cases h
  · intro b hb _ _ hne
    refine ⟨fun hk => ?_, fun hvisible q hq => ⟨fun ev hev => ?_, fun _ hcase => ?_⟩⟩
    · rw [hknown] at hk
      exact absurd hk (Finset.notMem_empty _)
    · rw [hpending] at hev
      cases hev
    · have hnear : cfg.far fl (w.place fl c.uuid) q = false := by
        refine hcase.resolve_left fun hk => ?_
        rw [hknown] at hk
        exact absurd hk (Finset.notMem_empty _)
      have hother : (b.uuid, (⟨b.entityId, q⟩ : Player F)) ∈ w.others c.uuid :=
        mem_others.2 ⟨hcurrent b hb hvisible hne q hq hnear, hne⟩
      have hspawns : ((w.others c.uuid).map fun r =>
          (Packet.spawnPlayer r.2.entityId r.2.position : Packet F)).reverse =
            (((w.others c.uuid).map fun r => (r.2.entityId, r.2.position)).reverse).map fun r =>
              .spawnPlayer r.1 r.2 := by
        rw [List.map_reverse, List.map_map]
        rfl
      unfold Connection.Sees
      rw [hidle.ungreeted (.inr hannounced), List.append_nil, hspawns]
      refine sees_of_mem (List.mem_reverse.2 (List.mem_map_of_mem hother)) ?_
      rw [List.map_reverse, List.nodup_reverse, List.map_map]
      exact hw.nodup_others c.uuid
  · intro a ha
    refine (hw.watched a ha c hmem).of_seen rfl rfl ?_ ?_
    · rw [hannounced]
      exact fun _ => rfl
    · rw [hannounced]
      exact fun _ => rfl

theorem Good.subscribe (hw : w.Good fl cfg) (hc : w.connections[i]? = some c) (hgreeted : c.stage = .greeted) :
    (w.subscribe i c).Good fl cfg := by
  have hmem := List.mem_iff_getElem?.2 ⟨i, hc⟩
  obtain ⟨hpending, hknown⟩ := (hw.idle c hmem).waiting (by rw [hgreeted]; rfl)
    (by rw [hgreeted]; exact nofun)
  have hlive : c.stage.live := by
    rw [hgreeted]
    rfl
  have hpresent : c.stage.present := by
    rw [hgreeted]
    rfl
  have hvisible : c.stage.visible := by
    rw [hgreeted]
    rfl
  have hwatching : c.stage.watching := by
    rw [hgreeted]
    rfl
  refine hw.put _ hc rfl rfl (fun _ => hlive) (.inl rfl) (fun _ => hpresent) nofun
    ⟨fun _ hne => absurd rfl hne, ?_⟩
    (fun b hb => (hw.watched c hmem b hb).of_view rfl (fun _ => hwatching) hpending.symm hknown.symm rfl)
    fun a ha => (hw.watched a ha c hmem).of_seen rfl rfl (fun _ => hpresent) fun _ => hvisible
  rintro (h | h)
  · cases h
  · cases h

/-- A playing connection that changes nothing that concerns the others. -/
theorem Good.put_of_same (hw : w.Good fl cfg) {c' : Connection F} (hc : w.connections[i]? = some c)
    (hplaying : c.stage = .playing) (huuid : c'.uuid = c.uuid) (hid : c'.entityId = c.entityId)
    (hstage : c'.stage = c.stage) (hpending : c'.receiver.pending = c.receiver.pending)
    (hknown : c'.knownEntities = c.knownEntities) (hsent : c'.sent = c.sent) :
    (w.put i c').Good fl cfg := by
  have hmem := List.mem_iff_getElem?.2 ⟨i, hc⟩
  have hplaying' := hstage.trans hplaying
  refine hw.put c' hc huuid hid ?_ (.inl ?_) ?_ ?_ ⟨fun _ hne => absurd hplaying' hne, ?_⟩
    (fun b hb => (hw.watched c hmem b hb).of_view huuid ?_ hpending hknown hsent)
    fun a ha => (hw.watched a ha c hmem).of_seen huuid hid ?_ ?_
  · rw [hstage]
    exact id
  · rw [hplaying']
    rfl
  · rw [hstage]
    exact id
  · rw [hpending]
    exact fun _ h => h
  · rw [hplaying']
    rintro (h | h)
    · cases h
    · cases h
  · rw [hstage]
    exact id
  · rw [hstage]
    exact id
  · rw [hstage]
    exact id

theorem Good.receive (hw : w.Good fl cfg) (hc : w.connections[i]? = some c) (hplaying : c.stage = .playing)
    (hreading : c.reading) (hapt : w.AptNext fl cfg c) : (w.put i (c.receive fl cfg)).Good fl cfg := by
  unfold Connection.receive
  split
  · exact hw.put_of_same hc hplaying rfl rfl rfl rfl rfl rfl
  · next hlagged =>
      split
      · exact hw.put_of_same hc hplaying rfl rfl rfl rfl rfl rfl
      · next ev rest hpending =>
          rw [AptNext, hpending] at hapt
          have hmem := List.mem_iff_getElem?.2 ⟨i, hc⟩
          obtain ⟨huuid, hid, hstage, hreceiver⟩ := Connection.handle_fixed fl cfg (c.withPending rest) ev
          have hstage' : ((c.withPending rest).handle fl cfg ev).stage = .playing := hstage.trans hplaying
          have hpresent : c.stage.present := by
            rw [hplaying]
            rfl
          have hvisible : c.stage.visible := by
            rw [hplaying]
            rfl
          refine hw.put _ hc huuid hid (fun _ => Stage.live_of_present hpresent) (.inl ?_)
            (fun _ => hpresent) (fun ev' hev' => ?_) ⟨fun _ hne => absurd hstage' hne, ?_⟩
            (fun b hb => hw.watchedBy_handle hmem hb hpending
              (hapt hreading (Bool.eq_false_iff.2 hlagged)))
            fun a ha => (hw.watched a ha c hmem).of_seen huuid hid (fun _ => hpresent) fun _ => hvisible
          · rw [hstage']
            rfl
          · rw [hreceiver] at hev'
            rw [hpending]
            exact List.mem_cons_of_mem _ hev'
          · rw [hstage']
            rintro (h | h)
            · cases h
            · cases h

theorem Good.leave (hw : w.Good fl cfg) (hc : w.connections[i]? = some c) (hplaying : c.stage = .playing)
    (hkept : w.Kept ⟨c.entityId, c.uuid, .despawn⟩) : (w.leave i c).Good fl cfg := by
  have hmem := List.mem_iff_getElem?.2 ⟨i, hc⟩
  have hlive : c.stage.live := by
    rw [hplaying]
    rfl
  have hput : (w.put i { c with
      stage := .leaving, receiver := .new, knownEntities := ∅ }).Good fl cfg := by
    refine hw.put _ hc rfl rfl (fun _ => hlive) (.inl rfl) nofun nofun ⟨nofun, ?_⟩
      (fun b _ => watchedBy_of_not_watching nofun) fun a _ => watchedBy_of_not_present nofun
    rintro (h | h)
    · cases h
    · cases h
  refine hput.send (fun b hb hpb he => ?_) (fun a ha hpa hfull b hb hvis hne hsome => ?_) nofun
  · rcases mem_set hb with rfl | ⟨j, hj, hb⟩
    · cases hpb
    · exact absurd (hw.ids j i b c hb hc (Stage.live_of_present hpb) hlive he.symm) hj
  · rcases mem_set ha with rfl | ⟨j, -, ha⟩
    · cases hpa
    · rcases mem_set hb with rfl | ⟨k, -, hb⟩
      · cases hvis
      · exact hkept a (List.mem_iff_getElem?.2 ⟨j, ha⟩) hpa hfull b (List.mem_iff_getElem?.2 ⟨k, hb⟩)
          hvis hne hsome

theorem Good.broadcastMove (hw : w.Good fl cfg) {uuid : Uuid} {p : Position F}
    (h : ∀ player ∈ w.players.lookup uuid,
      w.Kept ⟨player.entityId, uuid, .move p⟩ ∧ w.Unmissed fl cfg uuid p) :
    (w.broadcastMove uuid p).Good fl cfg := by
  unfold World.broadcastMove
  split
  · next player hlookup =>
      obtain ⟨hkept, hunmissed⟩ := h player hlookup
      obtain ⟨c, hc, hlive, hu, hid⟩ := hw.table uuid player hlookup
      refine hw.send (fun b hb hpb he => ⟨?_, rfl⟩) hkept fun q hq => ?_
      · have heq := hw.eq_of_entityId hc hlive hb (Stage.live_of_present hpb) (hid.trans he)
        exact hu.symm.trans (congrArg Connection.uuid heq)
      · cases hq
        exact hunmissed
  · exact hw

theorem Good.mobEvent (hw : w.Good fl cfg) {ev : EntityEvent F} (h : w.MobApart ev)
    (hmob : ev.kind.position? = none) : (w.send ev).Good fl cfg := by
  refine hw.send (fun b hb hpb he => absurd he.symm (h.1 b hb hpb)) h.2 fun p hp => ?_
  cases hmob.symm.trans hp

/-- An action of a connection that is where it takes it. -/
theorem Good.onStage (hw : w.Good fl cfg) {stages : List Stage} {f : Connection F → World F}
    (h : ∀ c, w.connections[i]? = some c → c.stage ∈ stages → (f c).Good fl cfg) :
    (w.onStage i stages f).Good fl cfg := by
  unfold World.onStage
  split
  · next c hc =>
      split
      · next hstage => exact h c hc hstage
      · exact hw
  · exact hw

/-- **One orderly action.** -/
theorem Good.step (hw : w.Good fl cfg) {action : Action F} (h : w.Orderly fl cfg action) :
    (w.step fl cfg action).Good fl cfg := by
  cases action with
  | join uuid => exact hw.join h.1 h.2
  | updatePosition uuid p => exact hw.updatePosition h
  | announce i =>
      refine hw.onStage fun c hc hstage => ?_
      have hjoined := List.mem_singleton.1 hstage
      exact hw.announce hc hjoined (h c hc hjoined).1 (h c hc hjoined).2
  | greet i =>
      refine hw.onStage fun c hc hstage => ?_
      have hannounced := List.mem_singleton.1 hstage
      exact hw.greet hc hannounced (h c hc hannounced)
  | subscribe i => exact hw.onStage fun c hc hstage => hw.subscribe hc (List.mem_singleton.1 hstage)
  | broadcastMove uuid p => exact hw.broadcastMove h
  | mobSpawn entityId uuid mobType x y z => exact hw.mobEvent h rfl
  | mobDespawn entityId uuid => exact hw.mobEvent h rfl
  | start i =>
      exact hw.onStage fun c hc hstage =>
        hw.put_of_same hc (List.mem_singleton.1 hstage) rfl rfl rfl rfl rfl rfl
  | receive i =>
      refine hw.onStage fun c hc hstage => ?_
      have hplaying := List.mem_singleton.1 hstage
      split
      · next hreading => exact hw.receive hc hplaying hreading (h c hc hplaying)
      · exact hw
  | leave i =>
      refine hw.onStage fun c hc hstage => ?_
      have hplaying := List.mem_singleton.1 hstage
      exact hw.leave hc hplaying (h c hc hplaying)
  | quit i =>
      refine hw.onStage fun c hc hstage => ?_
      rw [List.mem_cons, List.mem_singleton] at hstage
      exact hw.quit hc (h c hc hstage)

end

/-! ## Runs -/

section

variable {F : Type} {fl : Floats F} {cfg : Config F}

/-- **Along a run of orderly actions players see each other.** -/
theorem along_seeEachOther {actions : List (Action F)}
    (h : Along (World.step fl cfg) (World.Orderly fl cfg) .new actions) :
    Along (World.step fl cfg) (fun w action => (w.step fl cfg action).SeeEachOther fl cfg) .new actions :=
  Along.imp (Good fl cfg) (fun _ _ hw ho => (hw.step ho).seeEachOther) (fun _ _ hw ho => hw.step ho) good_new h

end

def overworld : Config Rat := ⟨8, 64⟩

/-- Two players come one after the other, the later one walks, and a mob turns up. -/
def oneAfterTheOther : List (Action Rat) :=
  [.join 1, .announce 0, .greet 0, .subscribe 0, .start 0, .receive 0, .join 2, .announce 1,
    .greet 1, .subscribe 1, .start 0, .receive 0, .updatePosition 2 ⟨5, 64, 0, 0, 0⟩,
    .broadcastMove 2 ⟨5, 64, 0, 0, 0⟩,
    .mobSpawn 10000 7 54 3 64 3, .receive 0, .receive 0, .leave 1]

theorem along_seeEachOther_oneAfterTheOther :
    Along (World.step .exact overworld) (fun w action => (w.step .exact overworld action).SeeEachOther
      .exact overworld) .new oneAfterTheOther := along_seeEachOther (by decide +kernel)

/-- The other was there before, and walks. -/
def thereBefore : List (Action Rat) :=
  [.join 1, .announce 0, .greet 0, .subscribe 0, .join 2, .announce 1, .greet 1, .subscribe 1,
    .updatePosition 1 ⟨5, 64, 0, 0, 0⟩, .broadcastMove 1 ⟨5, 64, 0, 0, 0⟩, .start 1, .receive 1]

theorem not_forall_along_seeEachOther :
    ¬ ∀ actions : List (Action Rat), Along (World.step .exact overworld)
      (fun w action => (w.step .exact overworld action).SeeEachOther .exact overworld) .new actions :=
  fun h => absurd (h thereBefore) (by decide +kernel)

end World

end Apoptotic.Visibility
