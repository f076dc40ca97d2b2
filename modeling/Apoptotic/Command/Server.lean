import Apoptotic.Lib.Calls
import Apoptotic.Lib.Text
import Apoptotic.World.Chunk

/-!
# What the commands read and write

The part of `PlayerManager`, `WorldState`, the chunk store, the scoreboard and the boss bars that
commands work on.  `guarded` is the part that only an operator may change: operator flags, game
modes, health, inventories, bans, the whitelist and whether the server runs.  A `Quiet` call
carries the proof that it leaves `guarded` alone; everything else is a `Cmd`.

The model is of the release build: arithmetic wraps and a panic aborts the process.

Principal definitions: `Server`, `Server.guarded`, `Quiet`, `Cmd` and the methods of the player
manager.
-/

namespace Apoptotic.Commands

open Calls

abbrev Uuid := BitVec 128

/-- An `i32` after wrapping arithmetic. -/
def i32 (n : Int) : Int := n.bmod (2 ^ 32)

/-! ## Items -/

/-- `max_durability`. -/
def maxDurability (id : Nat) : Option Nat :=
  if id ∈ [781, 782, 783, 784, 804] then some 59
  else if id ∈ [785, 786, 787, 788, 805] then some 131
  else if id ∈ [780, 768, 769, 770, 806] then some 250
  else if 789 ≤ id ∧ id ≤ 793 then some 1561
  else if id = 819 then some 165
  else if id = 820 then some 240
  else if id = 821 then some 225
  else if id = 822 then some 195
  else if id = 823 then some 363
  else if id = 824 then some 528
  else if id = 825 then some 495
  else if id = 826 then some 429
  else if id = 773 then some 384
  else if id = 844 then some 64
  else if id = 845 then some 238
  else if id = 995 then some 64
  else none

/-- `stack_size`. -/
def stackSize (id : Nat) : Nat :=
  if (maxDurability id).isSome then 1
  else if 790 ≤ id ∧ id ≤ 797 then 1
  else if 870 ≤ id ∧ id ≤ 874 then 16
  else if 909 ≤ id ∧ id ≤ 926 then 16
  else if 683 ≤ id ∧ id ≤ 733 then 1
  else if 969 ≤ id ∧ id ≤ 984 then 1
  else if id ∈ [879, 880, 890] then 16
  else 64

structure ItemStack where
  item : BlockState
  count : Nat
  maxCount : Nat
  nbt : Option ByteArray
  durability : Option Nat

def ItemStack.new (item : BlockState) (count : Nat) : ItemStack where
  item := item
  count := count
  maxCount := if (maxDurability item.id.toNat).isSome then 1 else stackSize item.id.toNat
  nbt := none
  durability := maxDurability item.id.toNat

structure Inventory where
  items : Vector (Option ItemStack) 36
  offhand : Option ItemStack
  armor : Vector (Option ItemStack) 4
  selectedSlot : Nat

namespace Inventory

def new : Inventory := ⟨Vector.replicate 36 none, none, Vector.replicate 4 none, 0⟩

/-- The first loop of `add_item`: onto the stacks of the same item that have room. -/
def stackOnto (item : BlockState) : Nat → List (Option ItemStack) → List (Option ItemStack) × Nat
  | remaining, [] => ([], remaining)
  | remaining, none :: slots =>
      let (slots, left) := stackOnto item remaining slots
      (none :: slots, left)
  | remaining, some slot :: slots =>
      if slot.item = item ∧ slot.count < 64 then
        let add := min remaining (64 - slot.count)
        let (slots, left) := stackOnto item (remaining - add) slots
        (some { slot with count := slot.count + add } :: slots, left)
      else
        let (slots, left) := stackOnto item remaining slots
        (some slot :: slots, left)

/-- The second loop of `add_item`: into the empty slots. -/
def fillEmpty (item : BlockState) : Nat → List (Option ItemStack) → List (Option ItemStack) × Nat
  | remaining, [] => ([], remaining)
  | remaining, some slot :: slots =>
      let (slots, left) := fillEmpty item remaining slots
      (some slot :: slots, left)
  | remaining, none :: slots =>
      if remaining = 0 then (none :: slots, 0)
      else
        let add := min remaining 64
        let (slots, left) := fillEmpty item (remaining - add) slots
        (some (ItemStack.new item add) :: slots, left)

theorem length_stackOnto (item : BlockState) (n : Nat) (slots : List (Option ItemStack)) :
    (stackOnto item n slots).1.length = slots.length := by
  fun_induction stackOnto item n slots <;> simp_all

theorem length_fillEmpty (item : BlockState) (n : Nat) (slots : List (Option ItemStack)) :
    (fillEmpty item n slots).1.length = slots.length := by
  fun_induction fillEmpty item n slots <;> simp_all

/-- `Inventory::add_item`: the inventory after it and how many items did not fit. -/
def addItem (inv : Inventory) (item : BlockState) (count : Nat) : Inventory × Nat :=
  let stacked := stackOnto item count inv.items.toList
  let filled := fillEmpty item stacked.2 stacked.1
  have hlen : filled.1.toArray.size = 36 := by
    simp [filled, stacked, length_fillEmpty, length_stackOnto]
  ({ inv with items := ⟨filled.1.toArray, hlen⟩ }, filled.2)

/-- The item in the selected slot. -/
def held (inv : Inventory) : Option ItemStack := (inv.items[inv.selectedSlot]?).join

/-- Put `nbt` on the item in the selected slot. -/
def setHeldNbt (inv : Inventory) (nbt : Option ByteArray) : Inventory :=
  { inv with items := inv.items.mapIdx fun i slot =>
      if i = inv.selectedSlot then slot.map fun item => { item with nbt := nbt } else slot }

end Inventory

/-! ## Players -/

inductive GameMode where
  | survival
  | creative
  | adventure
  | spectator
  deriving DecidableEq, Repr

/-- The `Debug` text. -/
def GameMode.debug : GameMode → String
  | survival => "Survival"
  | creative => "Creative"
  | adventure => "Adventure"
  | spectator => "Spectator"

structure Position where
  x : Float
  y : Float
  z : Float
  yaw : Float32
  pitch : Float32

/-- `EffectType`; the constructors stand in the order of the ids. -/
inductive EffectType where
  | speed | slowness | haste | miningFatigue | strength | instantHealth | instantDamage
  | jumpBoost | nausea | regeneration | resistance | fireResistance | waterBreathing
  | invisibility | blindness | nightVision | hunger | weakness | poison | wither | healthBoost
  | absorption | saturation | glowing | levitation | luck | unluck | slowFalling | conduitPower
  | dolphinGrace | badOmen | heroOfTheVillage | darkness | trialOmen | raidOmen | windCharged
  | weaving | oozing | infested | breathOfTheNautilus
  deriving DecidableEq, Repr

namespace EffectType

def id (e : EffectType) : Nat := e.ctorIdx

def isInstant (e : EffectType) : Bool := e = instantHealth || e = instantDamage

/-- The `Debug` text. -/
def debug : EffectType → String
  | speed => "Speed" | slowness => "Slowness" | haste => "Haste"
  | miningFatigue => "MiningFatigue" | strength => "Strength" | instantHealth => "InstantHealth"
  | instantDamage => "InstantDamage" | jumpBoost => "JumpBoost" | nausea => "Nausea"
  | regeneration => "Regeneration" | resistance => "Resistance"
  | fireResistance => "FireResistance" | waterBreathing => "WaterBreathing"
  | invisibility => "Invisibility" | blindness => "Blindness" | nightVision => "NightVision"
  | hunger => "Hunger" | weakness => "Weakness" | poison => "Poison" | wither => "Wither"
  | healthBoost => "HealthBoost" | absorption => "Absorption" | saturation => "Saturation"
  | glowing => "Glowing" | levitation => "Levitation" | luck => "Luck" | unluck => "Unluck"
  | slowFalling => "SlowFalling" | conduitPower => "ConduitPower"
  | dolphinGrace => "DolphinGrace" | badOmen => "BadOmen"
  | heroOfTheVillage => "HeroOfTheVillage" | darkness => "Darkness" | trialOmen => "TrialOmen"
  | raidOmen => "RaidOmen" | windCharged => "WindCharged" | weaving => "Weaving"
  | oozing => "Oozing" | infested => "Infested" | breathOfTheNautilus => "BreathOfTheNautilus"

/-- The names of `resolve_effect`, in lower case. -/
def ofName? : String → Option EffectType
  | "speed" => some speed | "slowness" => some slowness | "haste" => some haste
  | "mining_fatigue" | "miningfatigue" => some miningFatigue
  | "strength" => some strength
  | "instant_health" | "instanthealth" | "heal" => some instantHealth
  | "instant_damage" | "instantdamage" | "harm" => some instantDamage
  | "jump_boost" | "jumpboost" => some jumpBoost
  | "nausea" => some nausea
  | "regeneration" | "regen" => some regeneration
  | "resistance" => some resistance
  | "fire_resistance" | "fireresistance" => some fireResistance
  | "water_breathing" | "waterbreathing" => some waterBreathing
  | "invisibility" | "invis" => some invisibility
  | "blindness" => some blindness
  | "night_vision" | "nightvision" => some nightVision
  | "hunger" => some hunger | "weakness" => some weakness
  | "poison" => some poison | "wither" => some wither
  | "health_boost" | "healthboost" => some healthBoost
  | "absorption" => some absorption | "saturation" => some saturation
  | "glowing" => some glowing | "levitation" => some levitation
  | "luck" => some luck | "unluck" => some unluck
  | "slow_falling" | "slowfalling" => some slowFalling
  | "conduit_power" | "conduitpower" => some conduitPower
  | "dolphin_grace" | "dolphinsgrace" => some dolphinGrace
  | "bad_omen" | "badomen" => some badOmen
  | "hero_of_the_village" | "heroofthevillage" => some heroOfTheVillage
  | "darkness" => some darkness | "trial_omen" => some trialOmen
  | "raid_omen" => some raidOmen | "wind_charged" => some windCharged
  | "weaving" => some weaving | "oozing" => some oozing | "infested" => some infested
  | "breath_of_the_nautilus" => some breathOfTheNautilus
  | _ => none

end EffectType

structure ActiveEffect where
  effect : EffectType
  amplifier : Nat
  durationTicks : Nat

structure Player where
  entityId : Int
  uuid : Uuid
  username : String
  position : Position
  gamemode : GameMode
  health : Float32
  isOp : Bool
  inventory : Inventory
  activeEffects : List ActiveEffect
  xpBar : Float32
  xpLevel : Int
  xpTotal : Int
  tags : List String
  spawnPosition : Option (Float × Float × Float × Float32)

/-- Who a player is, and what only an operator may change of another player. -/
structure GuardedPlayer where
  uuid : Uuid
  username : String
  isOp : Bool
  gamemode : GameMode
  health : Float32
  inventory : Inventory

def Player.guarded (q : Player) : GuardedPlayer :=
  ⟨q.uuid, q.username, q.isOp, q.gamemode, q.health, q.inventory⟩

/-- The player map in its order of iteration. -/
structure Players where
  list : List Player
  nodup : (list.map Player.uuid).Nodup

namespace Players

def get (ps : Players) (uuid : Uuid) : Option Player := ps.list.find? (·.uuid = uuid)

theorem get_eq_some_iff {ps : Players} {uuid : Uuid} {q : Player} :
    ps.get uuid = some q ↔ q ∈ ps.list ∧ q.uuid = uuid := by
  constructor
  · intro h
    exact ⟨List.mem_of_find?_eq_some h, by simpa using List.find?_some h⟩
  · rintro ⟨hq, rfl⟩
    obtain ⟨r, hr⟩ : ∃ r, ps.get q.uuid = some r :=
      Option.isSome_iff_exists.1 (List.find?_isSome.2 ⟨q, hq, by simp⟩)
    have hrq : r.uuid = q.uuid := by simpa using List.find?_some hr
    rw [hr, List.inj_on_of_nodup_map ps.nodup (List.mem_of_find?_eq_some hr) hq hrq]

theorem uuid_update {uuid : Uuid} {f : Player → Player} (hf : ∀ q, (f q).uuid = q.uuid)
    (list : List Player) :
    (list.map fun q => if q.uuid = uuid then f q else q).map Player.uuid =
      list.map Player.uuid := by
  rw [List.map_map]
  refine List.map_congr_left fun q _ => ?_
  simp only [Function.comp]
  split
  · exact hf q
  · rfl

/-- Writing through `get_mut`; the key of an entry stays. -/
def update (ps : Players) (uuid : Uuid) (f : Player → Player)
    (hf : ∀ q, (f q).uuid = q.uuid := by exact fun _ => rfl) : Players :=
  ⟨ps.list.map fun q => if q.uuid = uuid then f q else q, by
    rw [uuid_update hf]
    exact ps.nodup⟩

theorem guarded_update {ps : Players} {uuid : Uuid} {f : Player → Player}
    (hf : ∀ q, (f q).guarded = q.guarded) (hu : ∀ q, (f q).uuid = q.uuid) :
    (ps.update uuid f hu).list.map Player.guarded = ps.list.map Player.guarded := by
  unfold update
  rw [List.map_map]
  refine List.map_congr_left fun q _ => ?_
  simp only [Function.comp]
  split
  · exact hf q
  · rfl

end Players

/-! ## The world -/

inductive Weather where
  | clear
  | rain
  | thunder
  deriving DecidableEq, Repr

inductive Difficulty where
  | peaceful
  | easy
  | normal
  | hard
  deriving DecidableEq, Repr

/-- The `Debug` text. -/
def Difficulty.debug : Difficulty → String
  | peaceful => "Peaceful"
  | easy => "Easy"
  | normal => "Normal"
  | hard => "Hard"

structure WorldBorder where
  centerX : Float
  centerZ : Float
  size : Float
  targetSize : Float
  lerpTimeTicks : Int
  damagePerBlock : Float
  safeZone : Float
  warningBlocks : Int

/-- `HashMap::insert`. -/
def insertKey {κ β : Type} [DecidableEq κ] (m : List (κ × β)) (k : κ) (b : β) : List (κ × β) :=
  (k, b) :: m.filter fun e => e.1 ≠ k

/-- `HashMap::remove`. -/
def removeKey {κ β : Type} [DecidableEq κ] (m : List (κ × β)) (k : κ) : List (κ × β) :=
  m.filter fun e => e.1 ≠ k

structure WorldState where
  time : Nat
  daytime : Nat
  weather : Weather
  difficulty : Difficulty
  seed : Nat
  defaultGamemode : GameMode
  spawnX : Float
  spawnY : Float
  spawnZ : Float
  gameRules : List (String × String)
  worldBorder : WorldBorder
  forceLoaded : List ((Int × Int) × Bool)
  debugMode : Bool
  tickFrozen : Bool
  tickSprintRate : Nat

namespace WorldState

def setTime (w : WorldState) (time : Nat) : WorldState :=
  { w with time := time, daytime := time % 24000 }

def addTime (w : WorldState) (ticks : Nat) : WorldState :=
  let cycle := ((w.gameRules.lookup "doDaylightCycle").map (· == "true")).getD true
  if cycle then w.setTime ((w.time + ticks) % 2 ^ 64) else w

def setDefaultSpawn (w : WorldState) (x y z : Float) : WorldState :=
  { w with spawnX := x, spawnY := y, spawnZ := z }

end WorldState

structure ScoreboardObjective where
  name : String
  criteria : String
  displayName : String

structure ScoreboardData where
  objectives : List (String × ScoreboardObjective)
  scores : List (String × List (String × Int))

namespace ScoreboardData

def setScore (sb : ScoreboardData) (player objective : String) (value : Int) :
    Except String ScoreboardData :=
  if (sb.objectives.lookup objective).isNone then .error s!"Unknown objective: {objective}"
  else
    let players := (sb.scores.lookup objective).getD []
    .ok { sb with scores := insertKey sb.scores objective (insertKey players player value) }

def getScore (sb : ScoreboardData) (player objective : String) : Option Int :=
  (sb.scores.lookup objective).bind (·.lookup player)

def addScore (sb : ScoreboardData) (player objective : String) (delta : Int) :
    Except String (ScoreboardData × Int) :=
  let value := i32 ((sb.getScore player objective).getD 0 + delta)
  (sb.setScore player objective value).map fun sb => (sb, value)

end ScoreboardData

structure BossBarData where
  uuid : Uuid
  title : String
  health : Float32
  color : Int
  division : Int
  flags : Nat

/-! ## Messages -/

/-- `PlayerStateEventKind`, the kinds that commands send. -/
inductive PlayerStateEventKind where
  | healthUpdate (health : Float32)
  | gamemodeUpdate (gm : GameMode)
  | xpUpdate (bar : Float32) (level total : Int)
  | title (action : Int) (text : String)
  | playSound (soundName : String) (category : Int) (volume pitch : Float32)
  | stopSound
  | clearInventory
  | effectAdd (entityId : Int) (effectId amplifier duration flags : Nat)
  | scoreboardObjective (name : String) (action : Nat) (displayName criteria : String)
  | scoreboardScore (entity objective : String) (score : Int) (action : Nat)
  | bossBarUpdate (barId : String) (action : Nat) (title : String) (health : Float32)
      (color division : Int) (flags : Nat)
  | transferPlayer (host : String) (port : Int)

inductive BroadcastType where
  | chat
  | system
  | kick (uuid : Uuid) (reason : String)
  | direct (uuid : Uuid) (message : String)

/-- What a command sends on the broadcast channels. -/
inductive Broadcast where
  | chat (senderName message : String) (msgType : BroadcastType)
  | playerState (uuid : Uuid) (kind : PlayerStateEventKind)

/-! ## The server -/

structure Server where
  players : Players
  banned : List Uuid
  whitelist : Bool × List Uuid
  /-- No shutdown was requested and the process was not aborted. -/
  running : Bool
  world : WorldState
  chunks : ChunkPos → Option ReachableChunk
  scoreboard : ScoreboardData
  bossbars : List (String × BossBarData)
  sent : List Broadcast
  /-- Sends on the save trigger. -/
  saves : Nat
  /-- Readings of the clock and random uuids drawn so far. -/
  draws : Nat

structure GuardedServer where
  players : List GuardedPlayer
  banned : List Uuid
  whitelist : Bool × List Uuid
  running : Bool

/-- **The part of the state that only an operator may change**, and who is online. -/
def Server.guarded (s : Server) : GuardedServer :=
  ⟨s.players.list.map Player.guarded, s.banned, s.whitelist, s.running⟩

/-- A call that leaves the guarded part of the server alone. -/
abbrev Quiet := Keeping Server.guarded String

/-- A call that may write anything. -/
abbrev Cmd := Call Server String

instance : MonadLift Quiet Cmd := ⟨Keeping.call⟩

/-- What the commands take from the standard library, from tables and from outside. -/
structure Host where
  /-- `str::to_lowercase`. -/
  toLowercase : String → String
  /-- `str::parse::<f64>` and `::<f32>`. -/
  parseF64 : String → Option Float
  parseF32 : String → Option Float32
  /-- The text of the error of a failed `str::parse::<u64>` and `::<f64>`. -/
  intError : String → String
  floatError : String → String
  /-- `{}` and `{:.n}` of a float. -/
  showF64 : Float → String
  showF32 : Float32 → String
  fixedF64 : Nat → Float → String
  fixedF32 : Nat → Float32 → String
  showUuid : Uuid → String
  /-- `duration_since(UNIX_EPOCH)?.subsec_nanos()` at the `n`th reading, `None` before 1970. -/
  subsecNanos : Nat → Option Nat
  /-- `Uuid::new_v4()`, the `n`th one. -/
  newV4 : Nat → Uuid
  offlineUuid : String → Uuid
  /-- `mc_core::item::resolve_item`. -/
  resolveItem : String → Option BlockState
  /-- Whether `EnchantmentRegistry::find` finds the name. -/
  findEnchantment : String → Bool
  /-- `sample_biome(x, z, seed).id()`. -/
  sampleBiome : Int → Int → Nat → Nat
  /-- Two chunks share a shard of the chunk map. -/
  sameShard : ChunkPos → ChunkPos → Bool
  /-- The file `datapacks/vanilla/data/<namespace>/functions/<path>.mcfunction`. -/
  functionFile : String → String → Option (Except String String)
  /-- The directories under `datapacks`. -/
  datapacks : List String

namespace Server

/-- `player_manager.get(uuid)`. -/
def get (s : Server) (uuid : Uuid) : Option Player := s.players.get uuid

/-- `player_manager.get_by_name(username)`. -/
def getByName (host : Host) (s : Server) (username : String) : Option Player :=
  s.players.list.find? fun q => host.toLowercase q.username = host.toLowercase username

/-- Write one player. -/
def update (s : Server) (uuid : Uuid) (f : Player → Player)
    (hf : ∀ q, (f q).uuid = q.uuid := by exact fun _ => rfl) : Server :=
  { s with players := s.players.update uuid f hf }

theorem guarded_update {s : Server} {uuid : Uuid} {f : Player → Player}
    (hf : ∀ q, (f q).guarded = q.guarded) (hu : ∀ q, (f q).uuid = q.uuid) :
    (s.update uuid f hu).guarded = s.guarded := by
  unfold guarded update
  dsimp only
  rw [Players.guarded_update hf]

/-- Send on a broadcast channel. -/
def send (s : Server) (b : Broadcast) : Server := { s with sent := s.sent ++ [b] }

def sendState (s : Server) (uuid : Uuid) (kind : PlayerStateEventKind) : Server :=
  s.send (.playerState uuid kind)

@[simp] theorem guarded_send (s : Server) (b : Broadcast) : (s.send b).guarded = s.guarded := rfl

end Server

/-! ## Quiet methods of the player manager -/

/-- `x.ok_or(e)?`. -/
def orFail {α : Type} (x : Option α) (e : String) : Quiet α := Keeping.orFail x e

/-- `return Err(e)`. -/
def fail {α : Type} (e : String) : Quiet α := Keeping.fail e

def read {α : Type} (f : Server → α) : Quiet α := Keeping.gets f

@[simp] theorem orFail_some_call {α : Type} (a : α) (e : String) (s : Server) :
    (orFail (some a) e).call s = (.ok a, s) := rfl

@[simp] theorem orFail_none_call {α : Type} (e : String) (s : Server) :
    (orFail none e : Quiet α).call s = (.err e, s) := rfl

@[simp] theorem fail_call {α : Type} (e : String) (s : Server) :
    (fail e : Quiet α).call s = (.err e, s) := rfl

@[simp] theorem read_call {α : Type} (f : Server → α) (s : Server) :
    (read f).call s = (.ok (f s), s) := rfl

@[simp] theorem liftM_quiet {α : Type} (x : Quiet α) : (liftM x : Cmd α) = x.call := rfl

/-- Write through `get_mut` if the player is online. -/
def writePlayer (uuid : Uuid) (f : Player → Player)
    (hf : ∀ q, (f q).guarded = q.guarded := by exact fun _ => rfl) : Quiet Unit :=
  have hu : ∀ q, (f q).uuid = q.uuid := fun q => congrArg GuardedPlayer.uuid (hf q)
  Keeping.modify (fun s => s.update uuid f hu) fun _ => Server.guarded_update hf hu

def broadcast (b : Broadcast) : Quiet Unit := Keeping.modify fun s => s.send b

@[simp] theorem broadcast_call (b : Broadcast) (s : Server) :
    (broadcast b).call s = (.ok (), s.send b) := rfl

def broadcastChat (senderName message : String) (isCmd : Bool) : Quiet Unit :=
  broadcast (.chat senderName message (if isCmd then .system else .chat))

def sendPrivateMsg (senderName : String) (target : Uuid) (message : String) : Quiet Unit :=
  broadcast (.chat senderName message (.direct target message))

def kickPlayer (uuid : Uuid) (reason : String) : Quiet Unit :=
  broadcast (.chat "Server" reason (.kick uuid reason))

def sendState (uuid : Uuid) (kind : PlayerStateEventKind) : Quiet Unit :=
  broadcast (.playerState uuid kind)

/-- `broadcast_global`: the nil uuid stands for everyone. -/
def broadcastGlobal (kind : PlayerStateEventKind) : Quiet Unit := sendState 0#128 kind

/-- The `n`th reading of the clock or of the random source. -/
def draw {α : Type} (f : Nat → α) : Quiet α := do
  let n ← read Server.draws
  Keeping.modify fun s => { s with draws := s.draws + 1 }
  pure (f n)

def modifyWorld (f : WorldState → WorldState) : Quiet Unit :=
  Keeping.modify fun s => { s with world := f s.world }

/-- The shape of most methods: an error if the player is not online. -/
def withPlayer {α : Type} (uuid : Uuid) (f : Player → Quiet α) : Quiet α := do
  match ← read (·.get uuid) with
  | some q => f q
  | none => fail "Player not found"

theorem withPlayer_of_some {α : Type} {uuid : Uuid} {s : Server} {q : Player}
    (h : s.get uuid = some q) (f : Player → Quiet α) :
    (withPlayer uuid f).call s = (f q).call s := by
  simp [withPlayer, Call.bind_apply, h]

theorem withPlayer_of_none {α : Type} {uuid : Uuid} {s : Server} (h : s.get uuid = none)
    (f : Player → Quiet α) : (withPlayer uuid f).call s = (.err "Player not found", s) := by
  simp [withPlayer, Call.bind_apply, h]

def updatePosition (uuid : Uuid) (x y z : Float) : Quiet Unit :=
  withPlayer uuid fun _ =>
    writePlayer uuid fun q => { q with position := { q.position with x := x, y := y, z := z } }

def updatePositionFull (uuid : Uuid) (x y z : Float) (yaw pitch : Float32) : Quiet Unit :=
  withPlayer uuid fun _ => writePlayer uuid fun q => { q with position := ⟨x, y, z, yaw, pitch⟩ }

def setSpawnPosition (uuid : Uuid) (x y z : Float) (yaw : Float32) : Quiet Unit :=
  withPlayer uuid fun _ => writePlayer uuid fun q => { q with spawnPosition := some (x, y, z, yaw) }

/-- `f32::clamp`. -/
def clampF32 (x lo hi : Float32) : Float32 := if x < lo then lo else if x > hi then hi else x

/-- Store the experience fields and tell the player. -/
def writeXp (uuid : Uuid) (bar : Float32) (level total : Int) : Quiet Unit := do
  writePlayer uuid fun q => { q with xpBar := bar, xpLevel := level, xpTotal := total }
  sendState uuid (.xpUpdate bar level total)

def setXp (uuid : Uuid) (bar : Float32) (level total : Int) : Quiet Unit :=
  withPlayer uuid fun _ => writeXp uuid (clampF32 bar 0 1) (max level 0) (max total 0)

/-- The experience from `level` to the next. -/
def xpForNext (level : Nat) : Nat :=
  if level < 16 then 2 * level + 7
  else if level < 31 then 5 * level - 38
  else 9 * level - 158

theorem xpForNext_pos (level : Nat) : 0 < xpForNext level := by
  unfold xpForNext
  split
  · omega
  · split <;> omega

/-- The loop of `add_xp`: the level, what remains and the cost of the next level. -/
def levelLoop (level : Nat) (remaining : Int) : Nat × Int × Nat :=
  if remaining ≥ xpForNext level then levelLoop (level + 1) (remaining - xpForNext level)
  else (level, remaining, xpForNext level)
termination_by remaining.toNat
decreasing_by
  have := xpForNext_pos level
  omega

def addXp (uuid : Uuid) (amount : Int) : Quiet Unit :=
  withPlayer uuid fun q =>
    let total := i32 (q.xpTotal + amount)
    let (level, remaining, next) := levelLoop 0 total
    writeXp uuid (Float32.ofInt remaining / Float32.ofNat next) level total

/-- `add_effect`.  The player's entry is write locked while an instant effect reads it again. -/
def addEffect (uuid : Uuid) (effect : ActiveEffect) : Quiet String :=
  withPlayer uuid fun q => do
    writePlayer uuid fun q =>
      { q with activeEffects := q.activeEffects.filter (·.effect ≠ effect.effect) }
    if effect.effect.isInstant then Keeping.block
    else
      writePlayer uuid fun q => { q with activeEffects := q.activeEffects ++ [effect] }
      sendState uuid (.effectAdd q.entityId effect.effect.id effect.amplifier effect.durationTicks 6)
      let name := effect.effect.debug
      let level := (effect.amplifier + 1) % 256
      let ticks := effect.durationTicks
      pure s!"Applied {name} x{level} for {ticks} ticks"

def clearEffects (uuid : Uuid) : Quiet String :=
  withPlayer uuid fun q => do
    let count := q.activeEffects.length
    writePlayer uuid fun q => { q with activeEffects := [] }
    pure s!"Cleared {count} effect(s)"

def sendTitle (uuid : Uuid) (action : Int) (text : String) : Quiet Unit :=
  withPlayer uuid fun _ => sendState uuid (.title action text)

def playSound (uuid : Uuid) (soundName : String) (category : Int) (volume pitch : Float32) :
    Quiet Unit :=
  withPlayer uuid fun _ => sendState uuid (.playSound soundName category volume pitch)

def stopSound (uuid : Uuid) : Quiet Unit := sendState uuid .stopSound

def sendTransfer (uuid : Uuid) (host : String) (port : Int) : Quiet Unit := do
  match ← read (·.get uuid) with
  | some _ => sendState uuid (.transferPlayer host port)
  | none => fail "Player not online"

def addTag (uuid : Uuid) (tag : String) : Quiet Bool := do
  match ← read (·.get uuid) with
  | some q =>
      writePlayer uuid fun q => { q with tags := q.tags.insert tag }
      pure (tag ∉ q.tags)
  | none => pure false

def removeTag (uuid : Uuid) (tag : String) : Quiet Bool := do
  match ← read (·.get uuid) with
  | some q =>
      writePlayer uuid fun q => { q with tags := q.tags.filter (· ≠ tag) }
      pure (tag ∈ q.tags)
  | none => pure false

def listTags (uuid : Uuid) : Quiet (List String) :=
  read fun s => ((s.get uuid).map Player.tags).getD []

/-! ## Guarded methods of the player manager -/

namespace Server

/-- `f32::max`. -/
def maxF32 (x y : Float32) : Float32 :=
  if x.isNaN then y else if y.isNaN then x else if x < y then y else x

end Server

def withOnline (uuid : Uuid) (f : Server → Server) : Cmd Unit := do
  match ← read (·.get uuid) with
  | some _ => Call.modify f
  | none => fail "Player not found"

def Player.setOp (isOp : Bool) (q : Player) : Player := { q with isOp := isOp }

def Player.setGamemode (gm : GameMode) (q : Player) : Player := { q with gamemode := gm }

/-- `health.max(0.0)`. -/
def Player.setHealth (health : Float32) (q : Player) : Player :=
  { q with health := Server.maxF32 health 0 }

def Player.addItem (item : BlockState) (count : Nat) (q : Player) : Player :=
  { q with inventory := (q.inventory.addItem item count).1 }

def Player.clearInventory (q : Player) : Player := { q with inventory := Inventory.new }

def Player.setHeldNbt (nbt : Option ByteArray) (q : Player) : Player :=
  { q with inventory := q.inventory.setHeldNbt nbt }

def setOp (uuid : Uuid) (isOp : Bool) : Cmd Unit :=
  withOnline uuid fun s => s.update uuid (Player.setOp isOp)

def setGamemode (uuid : Uuid) (gm : GameMode) : Cmd Unit :=
  withOnline uuid fun s =>
    (s.update uuid (Player.setGamemode gm)).sendState uuid (.gamemodeUpdate gm)

def setHealth (uuid : Uuid) (health : Float32) : Cmd Unit :=
  withOnline uuid fun s =>
    (s.update uuid (Player.setHealth health)).sendState uuid
      (.healthUpdate (Server.maxF32 health 0))

def clearInventory (uuid : Uuid) : Cmd Unit :=
  withOnline uuid fun s => (s.update uuid Player.clearInventory).sendState uuid .clearInventory

/-- `add_item_to_player`: how many items were added. -/
def addItemToPlayer (uuid : Uuid) (item : BlockState) (count : Nat) : Cmd Nat := do
  let q ← read (·.get uuid)
  withOnline uuid fun s => s.update uuid (Player.addItem item count)
  pure (count - ((q.map fun q => (q.inventory.addItem item count).2).getD 0))

def updateHeldItemNbt (uuid : Uuid) (nbt : Option ByteArray) : Cmd Unit :=
  Call.modify fun s => s.update uuid (Player.setHeldNbt nbt)

def ban (uuid : Uuid) : Cmd Unit := Call.modify fun s => { s with banned := s.banned.insert uuid }

def unban (uuid : Uuid) : Cmd Unit :=
  Call.modify fun s => { s with banned := s.banned.filter (· ≠ uuid) }

def setWhitelistEnabled (enabled : Bool) : Cmd Unit :=
  Call.modify fun s => { s with whitelist := (enabled, s.whitelist.2) }

def addWhitelist (uuid : Uuid) : Cmd Unit :=
  Call.modify fun s => { s with whitelist := (s.whitelist.1, s.whitelist.2.insert uuid) }

def removeWhitelist (uuid : Uuid) : Cmd Unit :=
  Call.modify fun s => { s with whitelist := (s.whitelist.1, s.whitelist.2.filter (· ≠ uuid)) }

/-- `shutdown_tx.send(())`. -/
def shutdown : Cmd Unit := Call.modify fun s => { s with running := false }

/-- A panic, which aborts the process. -/
def abort {α : Type} : Cmd α := fun s => (.panic, { s with running := false })

end Apoptotic.Commands
