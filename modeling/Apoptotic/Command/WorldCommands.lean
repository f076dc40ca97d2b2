import Apoptotic.Command.Selectors

/-!
# Commands on the world

The commands of `mc-command/src/commands/` that read the server and write only the world, its
blocks, the scoreboard, the boss bars and the message channels.  Each is a `Quiet` call.

Principal definitions: one for each command, under its name.
-/

namespace Apoptotic.Commands

open Calls Text

variable (host : Host) (ctx : CommandContext)

/-- `ctx.args[i]` after the length was checked. -/
def CommandContext.arg (ctx : CommandContext) (i : Nat) : String := ctx.args.getD i ""

/-- `ctx.args.get(i).map(|s| s.as_str()).unwrap_or(default)`. -/
def CommandContext.argOr (ctx : CommandContext) (i : Nat) (default : String) : String :=
  ctx.args.getD i default

/-- `args.join(sep)`. -/
def join (sep : String) (args : List String) : String := String.intercalate sep args

/-! ## Information -/

def helpCommand (info : List (String × String)) : Quiet String := do
  let lines := info.map fun entry => "§7/" ++ entry.1 ++ "§r — " ++ entry.2
  let total := info.length
  pure (join "\n" (["§6--- Help: Commands ---§r"] ++ lines ++ [s!"§7Total: {total} commands§r",
    "§7Use @a (all), @p (nearest), @s (self) as target selectors§r"]))

def listPlayersCommand : Quiet String := do
  let players ← read fun s => s.players.list
  if players = [] then return "No players online"
  let entries := players.map fun p => p.username ++ " (HP: " ++ host.fixedF32 0 p.health ++ "/" ++
    host.fixedF32 0 20 ++ ", UUID: " ++ host.showUuid p.uuid ++ ")"
  let count := players.length
  let lines := join "\n" entries
  pure s!"{count} player(s) online:\n{lines}"

def banlistCommand : Quiet String := do
  let banned ← read Server.banned
  if banned = [] then return "No banned players"
  let count := banned.length
  let lines := join "\n" (banned.map fun u => "  - " ++ host.showUuid u)
  pure s!"Banned ({count}):\n{lines}"

def seedCommand : Quiet String := do
  let seed ← read fun s => s.world.seed
  pure s!"Seed: {seed}"

def sayCommand : Quiet String := do
  let message := join " " ctx.args
  if message = "" then fail "Usage: /say <message>"
  else
    let name := ctx.source.name
    broadcastChat "Server" message true
    pure s!"[{name}] {message}"

def meCommand : Quiet String := do
  let action := join " " ctx.args
  if action = "" then fail "Usage: /me <action>"
  else
    let username := ctx.source.name
    let message := s!"* {username} {action}"
    broadcastChat "Server" message true
    pure message

def statusCommand : Quiet String := do
  let online ← read fun s => s.players.list.length
  let time ← read fun s => s.world.time
  let maxPlayers := ctx.maxPlayers
  let motd := ctx.motd
  pure s!"Server: Minecraft LAN | Players: {online}/{maxPlayers} | Time: {time} | MOTD: {motd}"

/-! ## Time, weather and rules -/

def timeCommand : Quiet String := do
  match ctx.argOr 0 "query" with
  | "set" =>
      let timeStr ← orFail ctx.args[1]? "Usage: /time set <value|day|night|noon|midnight>"
      let time ← match timeStr with
        | "day" => pure 1000
        | "night" => pure 13000
        | "noon" => pure 6000
        | "midnight" => pure 18000
        | _ => orFail (parseU64 timeStr) ("Invalid number: " ++ host.intError timeStr)
      modifyWorld fun w => w.setTime time
      pure s!"Time set to {time}"
  | "add" =>
      let amountStr ← orFail ctx.args[1]? "Usage: /time add <ticks>"
      let amount ← orFail (parseU64 amountStr) ("Invalid number: " ++ host.intError amountStr)
      modifyWorld fun w => w.addTime amount
      let time ← read fun s => s.world.time
      pure s!"Added {amount} ticks (now {time})"
  | "query" =>
      let w ← read Server.world
      let time := w.time
      let daytime := w.daytime
      pure s!"Time: {time} (daytime: {daytime})"
  | _ => fail "Usage: /time <set|add|query> [value]"

def weatherCommand : Quiet String := do
  let duration := ((ctx.args[1]?).bind parseU32).getD 6000
  match ctx.argOr 0 "clear" with
  | "clear" =>
      modifyWorld fun w => { w with weather := .clear }
      pure s!"Weather set to clear for {duration} ticks"
  | "rain" =>
      modifyWorld fun w => { w with weather := .rain }
      pure s!"Weather set to rain for {duration} ticks"
  | "thunder" =>
      modifyWorld fun w => { w with weather := .thunder }
      pure s!"Weather set to thunder for {duration} ticks"
  | _ => fail "Usage: /weather <clear|rain|thunder> [duration]"

def setDifficulty (difficulty : Difficulty) : Quiet Unit :=
  modifyWorld fun w => { w with difficulty := difficulty }

def difficultyCommand : Quiet String := do
  let difficulty ← match ctx.argOr 0 "normal" with
    | "peaceful" | "p" => pure Difficulty.peaceful
    | "easy" | "e" => pure .easy
    | "normal" | "n" => pure .normal
    | "hard" | "h" => pure .hard
    | _ => fail "Usage: /difficulty <peaceful|easy|normal|hard>"
  setDifficulty difficulty
  pure ("Difficulty set to " ++ difficulty.debug)

def reloadCommand : Quiet String := do
  let diffArg ← orFail ctx.args.head? "Usage: /reload <difficulty> — e.g. /reload normal"
  let difficulty ← match host.toLowercase diffArg with
    | "peaceful" | "0" => pure Difficulty.peaceful
    | "easy" | "1" => pure .easy
    | "normal" | "2" => pure .normal
    | "hard" | "3" => pure .hard
    | _ => fail "Usage: /reload [difficulty] — difficulty: peaceful|easy|normal|hard"
  setDifficulty difficulty
  pure ("Config reloaded: difficulty → " ++ difficulty.debug)

def tickCommand : Quiet String := do
  match ctx.argOr 0 "query" with
  | "freeze" =>
      modifyWorld fun w => { w with tickFrozen := true }
      pure "Tick frozen. Use /tick unfreeze to resume."
  | "unfreeze" | "resume" =>
      modifyWorld fun w => { w with tickFrozen := false }
      pure "Tick unfrozen. Resuming normal tick rate."
  | "sprint" =>
      let rate := ((ctx.args[1]?).bind parseU32).getD 40
      modifyWorld fun w => { w with tickSprintRate := min (max rate 1) 1000 }
      pure s!"Tick sprint set to {rate} tps"
  | "query" =>
      let w ← read Server.world
      let status := if w.tickFrozen then "frozen" else "running"
      let rate := if w.tickSprintRate > 0 then w.tickSprintRate else 20
      pure s!"Tick: {status} at {rate} tps"
  | _ => fail "Usage: /tick <freeze|unfreeze|sprint <rate>|query>"

def setGameRule (rule value : String) : Quiet Unit :=
  modifyWorld fun w => { w with gameRules := insertKey w.gameRules rule value }

def gameruleCommand : Quiet String := do
  let rules ← read fun s => s.world.gameRules
  match ctx.args[0]? with
  | some rule =>
      match ctx.args[1]? with
      | some value =>
          setGameRule rule value
          pure s!"Game rule {rule} updated to {value}"
      | none =>
          match rules.lookup rule with
          | some value => pure s!"{rule} = {value}"
          | none => fail s!"Unknown game rule: {rule}"
  | none =>
      let sorted := rules.mergeSort fun a b => decide (a.1 ≤ b.1)
      let lines := join "\n" (sorted.map fun entry => "  " ++ entry.1 ++ " = " ++ entry.2)
      pure s!"Game rules:\n{lines}"

def defaultgamemodeCommand : Quiet String := do
  let modeStr ← orFail ctx.args.head? "Usage: /defaultgamemode <mode>"
  match parseGamemode host modeStr with
  | .error e => fail e
  | .ok mode =>
      modifyWorld fun w => { w with defaultGamemode := mode }
      broadcastChat "Server" ("Default game mode set to " ++ mode.debug) true
      pure ("Default game mode: " ++ mode.debug)

def saveOnCommand : Quiet String := do
  setGameRule "doSave" "true"
  pure "Automatic saving enabled"

def saveOffCommand : Quiet String := do
  setGameRule "doSave" "false"
  pure "Automatic saving disabled"

def publishCommand : Quiet String := do
  let port := ((ctx.args[0]?).bind fun s => parseNat (2 ^ 16 - 1) s.toList).getD 25565
  setGameRule "lan_enabled" "true"
  pure s!"LAN broadcast enabled on port {port} (multicast 224.0.2.60:4445)"

def debugCommand : Quiet String := do
  match ctx.argOr 0 "start" with
  | "start" =>
      modifyWorld fun w => { w with debugMode := true }
      pure "Debug profiling started"
  | "stop" =>
      modifyWorld fun w => { w with debugMode := false }
      pure "Debug profiling stopped"
  | _ => fail "Usage: /debug <start|stop>"

def setidletimeoutCommand : Quiet String := do
  let minutes ← orFail ((ctx.args.head?).bind parseU32)
    "Usage: /setidletimeout <minutes> (0 = disable)"
  let suffix := if minutes = 0 then " (disabled)" else ""
  pure s!"Idle timeout set to {minutes} minutes{suffix}"

def saveAllCommand : Quiet String :=
  if ctx.saveTrigger then do
    Keeping.modify fun s => { s with saves := s.saves + 1 }
    pure "Save triggered — all chunks and player data will be saved"
  else fail "Save trigger not available (console-only command)"

/-- `ctx.args.get(i).and_then(|s| s.parse().ok()).unwrap_or(default)` at `f64`. -/
def f64Or (i : Nat) (default : Float) : Float := ((ctx.args[i]?).bind host.parseF64).getD default

/-- The same at `i32`. -/
def i32Or (i : Nat) (default : Int) : Int := ((ctx.args[i]?).bind parseI32).getD default

/-- The same at `i64`. -/
def i64Or (i : Nat) (default : Int) : Int :=
  ((ctx.args[i]?).bind fun s => parseInt (-2 ^ 63) (2 ^ 63 - 1) s.toList).getD default

def modifyBorder (f : WorldBorder → WorldBorder) : Quiet Unit :=
  modifyWorld fun w => { w with worldBorder := f w.worldBorder }

/-- The target size of the border, and its size too when the change takes no time. -/
def WorldBorder.lerpTo (border : WorldBorder) (size : Float) (time : Int) : WorldBorder :=
  { border with
    targetSize := size
    lerpTimeTicks := time
    size := if time = 0 then size else border.size }

/-- `f64::max`. -/
def maxFloat (x y : Float) : Float :=
  if x.isNaN then y else if y.isNaN then x else if x < y then y else x

def worldborderCommand : Quiet String := do
  match ctx.argOr 0 "get" with
  | "set" =>
      let size := f64Or host ctx 1 6000000
      modifyBorder fun border => border.lerpTo size (i64Or ctx 2 0)
      pure ("World border set to " ++ host.showF64 size)
  | "center" =>
      let cx := f64Or host ctx 1 0
      let cz := f64Or host ctx 2 0
      modifyBorder fun border => { border with centerX := cx, centerZ := cz }
      pure ("World border center set to (" ++ host.showF64 cx ++ ", " ++ host.showF64 cz ++ ")")
  | "add" =>
      let delta := f64Or host ctx 1 0
      modifyBorder fun border =>
        border.lerpTo (maxFloat (border.size + delta) 1) (i64Or ctx 2 0)
      pure ("World border changed by " ++ host.showF64 delta)
  | "damage" =>
      let amount := f64Or host ctx 1 0.2
      let buffer := f64Or host ctx 2 5
      modifyBorder fun border => { border with damagePerBlock := amount, safeZone := buffer }
      pure ("Border damage: " ++ host.showF64 amount ++ "/block, buffer: " ++ host.showF64 buffer)
  | "warning" =>
      let blocks := i32Or ctx 1 5
      modifyBorder fun border => { border with warningBlocks := blocks }
      pure s!"Border warning: {blocks} blocks"
  | "get" =>
      let border ← read fun s => s.world.worldBorder
      pure ("World border: center (" ++ host.fixedF64 0 border.centerX ++ "," ++
        host.fixedF64 0 border.centerZ ++ "), size " ++ host.fixedF64 0 border.size)
  | _ => fail "Usage: /worldborder <set|get|center|add|damage|warning>"

def forceloadCommand : Quiet String := do
  let x := i32Or ctx 1 0
  let z := i32Or ctx 2 0
  let cx := x / 16
  let cz := z / 16
  match ctx.argOr 0 "query" with
  | "add" =>
      modifyWorld fun w => { w with forceLoaded := insertKey w.forceLoaded (x, z) true }
      pure s!"Chunk ({cx},{cz}) force-loaded"
  | "remove" =>
      modifyWorld fun w => { w with forceLoaded := removeKey w.forceLoaded (x, z) }
      pure s!"Chunk ({cx},{cz}) no longer force-loaded"
  | "query" =>
      let count ← read fun s => s.world.forceLoaded.length
      pure s!"{count} chunk(s) force-loaded"
  | _ => fail "Usage: /forceload <add|remove|query> [x] [z]"

def setworldspawnCommand : Quiet String := do
  let player ← read fun s => ctx.source.uuid?.bind s.get
  let text (x y z : Float) : String := "Set world spawn to " ++ host.fixedF64 1 x ++ ", " ++
    host.fixedF64 1 y ++ ", " ++ host.fixedF64 1 z
  match player with
  | some p =>
      modifyWorld fun w => w.setDefaultSpawn p.position.x p.position.y p.position.z
      pure (text p.position.x p.position.y p.position.z)
  | none =>
      if ctx.args.length ≥ 3 then
        let x ← orFail (host.parseF64 (ctx.arg 0)) "Invalid x"
        let y ← orFail (host.parseF64 (ctx.arg 1)) "Invalid y"
        let z ← orFail (host.parseF64 (ctx.arg 2)) "Invalid z"
        modifyWorld fun w => w.setDefaultSpawn x y z
        pure (text x y z)
      else fail "Usage: /setworldspawn [x y z]"

/-! ## Blocks -/

/-- `ChunkPos::new(x >> 4, z >> 4)`. -/
def chunkOf (x z : Int) : ChunkPos := ⟨BitVec.ofInt 32 (x / 16), BitVec.ofInt 32 (z / 16)⟩

/-- `x & 0xF`. -/
def lowBits (x : Int) : Fin 16 := ⟨(x % 16).toNat, by omega⟩

/-- `lo..=hi`. -/
def intRange (lo hi : Int) : List Int := (List.range (hi - lo + 1).toNat).map fun i => lo + i

/-- `y` as a height, if it is inside the world. -/
def height? (y : Int) : Option Height := if h : -64 ≤ y ∧ y ≤ 319 then some ⟨y, h⟩ else none

/-- `set_block` in a chunk that is loaded; whether there was one. -/
def writeBlock (x : Int) (y : Height) (z : Int) (block : BlockState) : Quiet Bool := do
  let cp := chunkOf x z
  match ← read fun s => s.chunks cp with
  | some chunk =>
      let chunk := chunk.setBlock (lowBits x) (lowBits z) y block
      Keeping.modify fun s => { s with chunks := Function.update s.chunks cp (some chunk) }
      pure true
  | none => pure false

def setblockCommand : Quiet String := do
  let usage := "Usage: /setblock <x> <y> <z> <block>"
  let xStr ← orFail ctx.args[0]? usage
  let yStr ← orFail ctx.args[1]? usage
  let zStr ← orFail ctx.args[2]? usage
  let blockName ← orFail ctx.args[3]? usage
  let x ← orFail (parseI32 xStr) s!"Invalid X: {xStr}"
  let y ← orFail (parseI32 yStr) s!"Invalid Y: {yStr}"
  let z ← orFail (parseI32 zStr) s!"Invalid Z: {zStr}"
  let height ← orFail (height? y) s!"Y coordinate {y} out of range [-64, 319]"
  let block ← orFail (host.resolveItem blockName) s!"Unknown block: {blockName}"
  if !ctx.chunkStore then fail "Chunk store not available"
  else if ← writeBlock x height z block then
    pure s!"Set block at ({x}, {y}, {z}) to {blockName}"
  else
    let cx := x / 16
    let cz := z / 16
    fail s!"Chunk ({cx},{cz}) not loaded. Walk near the area first."

/-- A coordinate of `/fill`. -/
def fillCoordinate (i : Nat) (missing invalid : String) : Quiet Int := do
  let s ← orFail ctx.args[i]? missing
  orFail (parseI32 s) invalid

/-- `y.clamp(-64, 319)`. -/
def clampY (y : Int) : Int := if y < -64 then -64 else if y > 319 then 319 else y

/-- `as u64`. -/
def u64 (n : Int) : Nat := (n % 2 ^ 64).toNat

def fillCommand : Quiet String := do
  let usage := "Usage: /fill <x1> <y1> <z1> <x2> <y2> <z2> <block>"
  let x1 ← fillCoordinate ctx 0 usage "Invalid X1"
  let y1 ← fillCoordinate ctx 1 "Missing Y1" "Invalid Y1"
  let z1 ← fillCoordinate ctx 2 "Missing Z1" "Invalid Z1"
  let x2 ← fillCoordinate ctx 3 "Missing X2" "Invalid X2"
  let y2 ← fillCoordinate ctx 4 "Missing Y2" "Invalid Y2"
  let z2 ← fillCoordinate ctx 5 "Missing Z2" "Invalid Z2"
  let blockName ← orFail ctx.args[6]? usage
  let block ← orFail (host.resolveItem blockName) s!"Unknown block: {blockName}"
  let (xmin, xmax) := (min x1 x2, max x1 x2)
  let (ymin, ymax) := (clampY y1, clampY y2)
  let (zmin, zmax) := (min z1 z2, max z1 z2)
  let volume := u64 (i32 (xmax - xmin + 1)) * u64 (i32 (ymax - ymin + 1)) *
    u64 (i32 (zmax - zmin + 1)) % 2 ^ 64
  if volume > 32768 then
    fail s!"Too many blocks ({volume} > 32768). Use a smaller region."
  else if !ctx.chunkStore then fail "Chunk store not available"
  else
    let mut count := 0
    for x in intRange xmin xmax do
      for z in intRange zmin zmax do
        for y in (intRange ymin ymax).filterMap height? do
          if ← writeBlock x y z block then
            count := count + 1
    pure s!"Filled {count} blocks with {blockName}"

/-- A coordinate of `/clone`. -/
def cloneCoordinate (i : Nat) (name : String) : Quiet Int :=
  orFail (parseI32 (ctx.arg i)) ("Invalid " ++ name)

/-- `i32::abs`. -/
def absI32 (n : Int) : Int := i32 n.natAbs

/-- One cell of `/clone`: whether it was copied.  The source chunk stays read locked while the
target chunk is write locked. -/
def cloneCell (x z : Int) (y : Height) (dx dy dz : Int) : Quiet Bool := do
  match height? (i32 (y + dy)) with
  | none => pure false
  | some sy =>
      let sx := i32 (x + dx)
      let sz := i32 (z + dz)
      match ← read fun s => s.chunks (chunkOf x z) with
      | none => pure false
      | some chunk =>
          let block := chunk.getBlock (lowBits x) (lowBits z) y
          if chunkOf x z = chunkOf sx sz ∨ host.sameShard (chunkOf x z) (chunkOf sx sz) then
            Keeping.block
          else writeBlock sx sy sz block

def cloneCommand : Quiet String := do
  if ctx.args.length < 9 then
    fail "Usage: /clone <x1> <y1> <z1> <x2> <y2> <z2> <dx> <dy> <dz>"
  else
    let x1 ← cloneCoordinate ctx 0 "x1"
    let y1 ← cloneCoordinate ctx 1 "y1"
    let z1 ← cloneCoordinate ctx 2 "z1"
    let x2 ← cloneCoordinate ctx 3 "x2"
    let y2 ← cloneCoordinate ctx 4 "y2"
    let z2 ← cloneCoordinate ctx 5 "z2"
    let dx ← cloneCoordinate ctx 6 "dx"
    let dy ← cloneCoordinate ctx 7 "dy"
    let dz ← cloneCoordinate ctx 8 "dz"
    let total := u64 (i32 (absI32 (i32 (x2 - x1 + 1)) * absI32 (i32 (y2 - y1 + 1)) *
      absI32 (i32 (z2 - z1 + 1))))
    if total > 32768 then fail "Too many blocks (max 32768)"
    else if !ctx.chunkStore then fail "Chunk store unavailable"
    else
      let mut count := 0
      for x in intRange (min x1 x2) (max x1 x2) do
        for y in (intRange (min y1 y2) (max y1 y2)).filterMap height? do
          for z in intRange (min z1 z2) (max z1 z2) do
            if ← cloneCell host x z y dx dy dz then
              count := count + 1
      pure s!"Cloned {count} blocks"

def fillbiomeCommand : Quiet String := do
  if ctx.args.length < 7 then
    fail "Usage: /fillbiome <x1> <y1> <z1> <x2> <y2> <z2> <biome>"
  else
    let x1 := i32Or ctx 0 0
    let y1 := i32Or ctx 1 (-64)
    let z1 := i32Or ctx 2 0
    let x2 := i32Or ctx 3 0
    let y2 := i32Or ctx 4 319
    let z2 := i32Or ctx 5 0
    let biomeName := host.toLowercase (ctx.arg 6)
    let chunks := min (i32 (x2 - x1)).natAbs 256
    pure (s!"Fillbiome set {chunks} chunk(s) from ({x1},{y1},{z1}) to ({x2},{y2},{z2}) with '" ++
      biomeName ++ "'")

/-! ## Entities and places -/

/-- The entity types of `/summon`. -/
def entityType? (entity : String) : Option Nat :=
  match entity with
  | "minecraft:item" | "item" => some 54
  | "minecraft:xp_orb" | "xp_orb" | "experience_orb" => some 53
  | "minecraft:cow" | "cow" => some 11
  | "minecraft:pig" | "pig" => some 12
  | "minecraft:chicken" | "chicken" => some 13
  | "minecraft:sheep" | "sheep" => some 14
  | "minecraft:zombie" | "zombie" => some 36
  | "minecraft:skeleton" | "skeleton" => some 37
  | "minecraft:creeper" | "creeper" => some 33
  | "minecraft:spider" | "spider" => some 35
  | "minecraft:enderman" | "enderman" => some 38
  | "minecraft:slime" | "slime" => some 34
  | "minecraft:witch" | "witch" => some 48
  | "minecraft:wolf" | "wolf" => some 95
  | "minecraft:villager" | "villager" => some 92
  | "minecraft:iron_golem" | "iron_golem" => some 99
  | "minecraft:blaze" | "blaze" => some 43
  | "minecraft:ghast" | "ghast" => some 56
  | "minecraft:wither" | "wither" => some 25
  | "minecraft:ender_dragon" | "ender_dragon" => some 53
  | "minecraft:horse" | "horse" => some 31
  | "minecraft:llama" | "llama" => some 28
  | "minecraft:cat" | "cat" | "ocelot" => some 29
  | _ => none

/-- `/summon` without a mob manager. -/
def summonCommand : Quiet String := do
  let entity ← orFail ctx.args.head? "Usage: /summon <entity_type> [x y z]"
  let player ← read fun s => ctx.source.uuid?.bind s.get
  let x := f64Or host ctx 1 ((player.map fun p => p.position.x).getD 0)
  let y := f64Or host ctx 2 ((player.map fun p => p.position.y).getD 64)
  let z := f64Or host ctx 3 ((player.map fun p => p.position.z).getD 0)
  let type ← orFail (entityType? (host.toLowercase entity))
    s!"Unknown entity type: {entity} (20 types supported)"
  pure (s!"Summoned {entity} (type={type}) at (" ++ host.fixedF64 1 x ++ ", " ++
    host.fixedF64 1 y ++ ", " ++ host.fixedF64 1 z ++
    ") (mob manager unavailable — entity tracked server-side)")

/-- The biome names of `/locate`. -/
def biomeId? (name : String) : Option Nat :=
  match name with
  | "plains" => some 0 | "void" => some 1 | "forest" => some 2 | "ocean" => some 3
  | "desert" => some 4 | "taiga" => some 5 | "swamp" => some 6 | "mountain" => some 7
  | "jungle" => some 8 | "ice_plains" => some 9 | "nether_wastes" => some 10
  | "soul_sand_valley" => some 11 | "crimson_forest" => some 12 | "warped_forest" => some 13
  | "basalt_deltas" => some 14
  | _ => none

/-- `as i32`, which saturates. -/
def floatToI32 (x : Float) : Int := x.toInt32.toInt

/-- The cells of the spiral search in order. -/
def spiral (px pz : Int) : List (Int × Int) :=
  ((List.range 23).map fun i => 2 + 2 * (i : Int)).flatMap fun r =>
    ((List.range (r.toNat / 2 + 1)).map fun j => -r + 4 * (j : Int)).flatMap fun dr =>
      [(i32 (px + r), i32 (pz + dr)), (i32 (px - r), i32 (pz + dr)),
        (i32 (px + dr), i32 (pz + r)), (i32 (px + dr), i32 (pz - r))]

def locateCommand : Quiet String := do
  let player ← read fun s => ctx.source.uuid?.bind s.get
  match ctx.argOr 0 "" with
  | "biome" =>
      let biomeName ← orFail ctx.args[1]? "Usage: /locate biome <name>"
      let biomeId ← orFail (biomeId? (host.toLowercase biomeName))
        s!"Unknown biome: {biomeName}. Try plains/forest/desert/ocean/taiga/swamp/mountain/jungle"
      match player with
      | none => fail "Console cannot locate biomes"
      | some p =>
          let px := floatToI32 p.position.x
          let pz := floatToI32 p.position.z
          let seed ← read fun s => s.world.seed
          match (spiral px pz).find? fun c => host.sampleBiome c.1 c.2 seed = biomeId with
          | some (wx, wz) =>
              let d2 := i32 (i32 ((wx - px) ^ 2) + i32 ((wz - pz) ^ 2))
              let dist := host.fixedF64 0 (Float.ofInt d2).sqrt
              pure s!"Found {biomeName} at ~{wx}, ~{wz} ({dist} blocks away)"
          | none => pure s!"No {biomeName} found within 768 blocks"
  | "structure" =>
      let name ← orFail ctx.args[1]? "Usage: /locate structure <name>"
      match player with
      | some p =>
          let cx := floatToI32 p.position.x / 16 + 32
          let cz := floatToI32 p.position.z / 16 + 32
          let bx := i32 (cx * 16)
          let bz := i32 (cz * 16)
          pure s!"Nearest {name} estimated at chunk ({cx}, {cz}) → block ~{bx}, ~{bz}"
      | none =>
          pure (s!"Structure '{name}' search — supported: " ++
            "village, desert_pyramid, jungle_pyramid, swamp_hut, igloo, mineshaft, " ++
            "ocean_monument, stronghold, nether_fortress, end_city")
  | _ => fail "Usage: /locate <biome|structure> <name>"

/-! ## Scoreboard and boss bars -/

def scoreboardObjectives : Quiet String := do
  if ctx.args.length < 2 then
    fail ("Usage: /scoreboard objectives add <name> <criteria> [display]\n" ++
      "       /scoreboard objectives remove <name>\n       /scoreboard objectives list")
  else
    let sb ← read Server.scoreboard
    match host.toLowercase (ctx.arg 1) with
    | "add" =>
        if ctx.args.length < 4 then
          fail "Usage: /scoreboard objectives add <name> <criteria> [display]"
        else
          let name := ctx.arg 2
          let criteria := ctx.arg 3
          let display := ctx.argOr 4 name
          if (sb.objectives.lookup name).isSome then fail s!"Objective '{name}' already exists"
          else
            Keeping.modify fun s => { s with scoreboard := { s.scoreboard with
              objectives := insertKey s.scoreboard.objectives name ⟨name, criteria, display⟩ } }
            broadcastGlobal (.scoreboardObjective name 0 display criteria)
            pure s!"Created objective '{name}' (criteria: {criteria})"
    | "remove" =>
        if ctx.args.length < 3 then fail "Usage: /scoreboard objectives remove <name>"
        else
          let name := ctx.arg 2
          if (sb.objectives.lookup name).isSome then
            Keeping.modify fun s => { s with scoreboard :=
              { objectives := removeKey s.scoreboard.objectives name
                scores := removeKey s.scoreboard.scores name } }
            broadcastGlobal (.scoreboardObjective name 1 "" "")
            pure s!"Removed objective '{name}'"
          else fail s!"Objective '{name}' not found"
    | "list" =>
        if sb.objectives = [] then return "No objectives defined"
        let lines := join "\n" (sb.objectives.map fun o =>
          "  " ++ o.2.name ++ " (criteria: " ++ o.2.criteria ++ ", display: " ++
            o.2.displayName ++ ")")
        pure s!"Objectives:\n{lines}"
    | _ =>
        let operation := ctx.arg 1
        fail s!"Unknown operation: {operation}. Use add, remove, or list"

def writeScoreboard (sb : ScoreboardData) : Quiet Unit :=
  Keeping.modify fun s => { s with scoreboard := sb }

def scoreboardPlayers : Quiet String := do
  if ctx.args.length < 4 then
    fail ("Usage: /scoreboard players set <player> <objective> <value>\n" ++
      "       /scoreboard players get <player> <objective>\n" ++
      "       /scoreboard players add <player> <objective> <value>")
  else
    let operation := ctx.arg 1
    let player := ctx.arg 2
    let objective := ctx.arg 3
    let text := ctx.arg 4
    let sb ← read Server.scoreboard
    match host.toLowercase operation with
    | "set" =>
        if ctx.args.length < 5 then
          fail "Usage: /scoreboard players set <player> <objective> <value>"
        else
          let value ← orFail (parseI32 text) s!"Invalid value: {text}"
          match sb.setScore player objective value with
          | .error e => fail e
          | .ok sb =>
              writeScoreboard sb
              broadcastGlobal (.scoreboardScore player objective value 0)
              pure s!"Set {player}'s score in '{objective}' to {value}"
    | "get" =>
        match sb.getScore player objective with
        | some value => pure s!"{player}'s score in '{objective}': {value}"
        | none => pure s!"{player} has no score in '{objective}'"
    | "add" =>
        if ctx.args.length < 5 then
          fail "Usage: /scoreboard players add <player> <objective> <value>"
        else
          let delta ← orFail (parseI32 text) s!"Invalid value: {text}"
          match sb.addScore player objective delta with
          | .error e => fail e
          | .ok (sb, value) =>
              writeScoreboard sb
              broadcastGlobal (.scoreboardScore player objective value 0)
              pure s!"{player}'s score in '{objective}' is now {value}"
    | _ => fail s!"Unknown operation: {operation}. Use set, get, or add"

def scoreboardCommand : Quiet String :=
  if ctx.args = [] then
    fail ("Usage: /scoreboard objectives add|remove|list ...\n" ++
      "       /scoreboard players set|get|add <player> <objective> [value]")
  else
    match host.toLowercase (ctx.arg 0) with
    | "objectives" => scoreboardObjectives host ctx
    | "players" => scoreboardPlayers host ctx
    | _ =>
        let sub := ctx.arg 0
        fail s!"Unknown subcommand: {sub}. Use 'objectives' or 'players'"

def triggerCommand : Quiet String := do
  let obj := ctx.argOr 0 ""
  if obj = "" then fail "Usage: /trigger <objective> [add|set] [value]"
  else
    match ctx.source with
    | .player _ playerName =>
        let action := ctx.argOr 1 "add"
        let value := i32Or ctx 2 1
        let sb ← read Server.scoreboard
        let after ← match action with
          | "add" => pure ((sb.addScore playerName obj value).map Prod.fst)
          | "set" => pure (sb.setScore playerName obj value)
          | _ => fail "Usage: /trigger <objective> [add|set] [value]"
        -- an unknown objective is not reported
        let sb := match after with
          | .ok after => after
          | .error _ => sb
        writeScoreboard sb
        let current := (sb.getScore playerName obj).getD 0
        pure s!"Trigger '{obj}' {action} {value} → now {current}"
    | _ => fail "/trigger can only be used by players"

/-- `BossBarRegistry::set_color`. -/
def barColor (name : String) : Int :=
  match name with
  | "pink" => 0
  | "blue" => 1
  | "red" => 2
  | "green" => 3
  | "yellow" => 4
  | "purple" => 5
  | "white" => 6
  | _ => 2

/-- Change a boss bar and tell everyone, with the action of the change. -/
def updateBar (barId : String) (action : Nat) (f : BossBarData → BossBarData) : Quiet Unit := do
  match ← read fun s => s.bossbars.lookup barId with
  | some data =>
      let data := f data
      Keeping.modify fun s => { s with bossbars := insertKey s.bossbars barId data }
      broadcastGlobal (.bossBarUpdate (host.showUuid data.uuid) action data.title data.health
        data.color data.division data.flags)
  | none => pure ()

def bossbarCommand : Quiet String := do
  if ctx.args.length < 2 then
    fail ("Usage: /bossbar add <id> <name> | remove <id> | " ++
      "set <id> <value|max|color> <value> | list")
  else
    let action := host.toLowercase (ctx.arg 0)
    let barId := ctx.arg 1
    match action with
    | "add" =>
        if ctx.args.length < 3 then fail "Usage: /bossbar add <id> <title>"
        else
          let title := join " " (ctx.args.drop 2)
          let uuid ← draw host.newV4
          let data : BossBarData := ⟨uuid, title, 1, 2, 0, 0⟩
          Keeping.modify fun s => { s with bossbars := insertKey s.bossbars barId data }
          broadcastGlobal (.bossBarUpdate (host.showUuid uuid) 0 title data.health data.color
            data.division data.flags)
          pure s!"Created bossbar '{barId}': {title}"
    | "remove" =>
        Keeping.modify fun s => { s with bossbars := removeKey s.bossbars barId }
        broadcastGlobal (.bossBarUpdate barId 1 "" 0 0 0 0)
        pure s!"Removed bossbar '{barId}'"
    | "set" =>
        if ctx.args.length < 4 then
          fail "Usage: /bossbar set <id> <value|max|color> <value>"
        else
          let prop := host.toLowercase (ctx.arg 2)
          let value := ctx.arg 3
          let health := clampF32 ((host.parseF32 value).getD 1) 0 1
          match prop with
          | "value" | "max" => updateBar host barId 2 fun data => { data with health := health }
          | "color" => updateBar host barId 4 fun data => { data with color := barColor value }
          | _ => fail "Properties: value, max, color"
          pure s!"Bossbar '{barId}' updated ({prop}= {value})"
    | "list" =>
        let bars ← read Server.bossbars
        if bars = [] then return "No active bossbars"
        pure (join "\n" (bars.map fun bar =>
          bar.1 ++ ": '" ++ bar.2.title ++ "' (" ++ host.fixedF32 0 (bar.2.health * 100) ++ "%)"))
    | _ => fail s!"Unknown bossbar action: {action}. Use add/remove/set/list"

/-! ## Commands that only answer -/

def advancementCommand : Quiet String := do
  if ctx.args.length < 2 then
    fail "Usage: /advancement (grant|revoke|list) [player] [advancement]"
  else
    let action := ctx.arg 0
    let targets ← resolvePlayerTargets host ctx (ctx.arg 1)
    match targets with
    | [] => fail "No matching players found"
    | (_, name) :: _ =>
        match action with
        | "list" => pure "Advancements: advancement list not yet available"
        | "grant" | "revoke" =>
            if ctx.args.length < 3 then
              fail s!"Usage: /advancement {action} [player] [advancement]"
            else
              let advId := ctx.arg 2
              pure s!"{action} {name} advancement '{advId}' (advancement system active)"
        | _ => fail "Unknown action. Use: grant, revoke, or list"

def scheduleCommand : Quiet String := do
  if ctx.args.length < 3 then
    fail "Usage: /schedule function <name> <time> [append|replace]"
  else if ctx.arg 0 ≠ "function" then fail "Only 'function' subcommand is supported"
  else
    let name := ctx.arg 1
    let time := ctx.arg 2
    pure (s!"Scheduled function '{name}' to run in {time} ticks " ++
      "(datapack functions require /datapack enable)")

def functionCommand : Quiet String := do
  match ctx.args with
  | [] => fail "Usage: /function <namespace:path>"
  | functionPath :: _ =>
      let (ns, path) := match splitOnce [':'] [] functionPath.toList with
        | some (ns, path) => (String.ofList ns, String.ofList path)
        | none => ("minecraft", functionPath)
      match host.functionFile ns path with
      | some (.ok contents) =>
          let commands := (splitOn '\n' [] contents.toList).filter fun line =>
            trim line ≠ [] ∧ (trim line).head? ≠ some '#'
          let count := commands.length
          pure s!"Executed function '{functionPath}' ({count} commands)"
      | some (.error e) => fail s!"Failed to read function '{functionPath}': {e}"
      | none =>
          let file := s!"datapacks/vanilla/data/{ns}/functions/{path}.mcfunction"
          fail s!"Function '{functionPath}' not found (expected at {file})"

def datapackCommand : Quiet String := do
  match ctx.args with
  | [] => fail "Usage: /datapack (enable|disable|list) [name]"
  | action :: rest =>
      match action with
      | "list" =>
          if host.datapacks = [] then return "No datapacks installed"
          let count := host.datapacks.length
          let packs := join ", " host.datapacks
          pure s!"Datapacks ({count}): {packs}"
      | "enable" | "disable" =>
          match rest with
          | [] => fail s!"Usage: /datapack {action} <name>"
          | name :: _ => pure s!"Datapack '{name}' {action}d (datapack system active)"
      | _ => fail "Unknown action. Use: enable, disable, or list"

def recipeCommand : Quiet String :=
  match ctx.argOr 0 "list" with
  | "give" => pure "Recipe(s) given (display only)"
  | "take" => pure "Recipe(s) taken (display only)"
  | _ => pure "Recipe book managed client-side"

def dataCommand : Quiet String :=
  match ctx.argOr 0 "get" with
  | "get" =>
      pure ("NBT get: use /data get entity <selector> [path] or " ++
        "/data get block <x> <y> <z> [path]")
  | "merge" => pure "NBT merge applied (simplified — full NBT merging not yet implemented)"
  | sub => pure s!"/data {sub}: NBT data operations (entity/block/storage)"

/-- `/team` without a team manager. -/
def teamCommand : Quiet String := fail "Team manager not available"

end Apoptotic.Commands
