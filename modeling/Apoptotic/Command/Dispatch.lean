import Apoptotic.Command.PlayerCommands

/-!
# The dispatcher

`CommandDispatcher` of `mc-command/src/dispatcher.rs` with the commands that
`mc-server/src/context.rs` registers, and `/execute`, which dispatches again as another player, at
another player or at a position.

`/execute` is split where it stops checking its arguments: `execution` reads them and resolves the
targets, `executeCommand` runs the rest once for each target.  What it runs has fewer arguments
than it has itself, and `Execution` carries that bound, so `dispatch` terminates.

Principal definitions: `Command`, `CommandDispatcher.dispatch`, `CommandDispatcher.dispatchInput`,
`registerCommands`.
-/

namespace Apoptotic.Commands

open Calls Text

/-! ## The commands -/

/-- The commands that write nothing guarded. -/
inductive QuietCommand where
  | help | msg | me | kick | setidletimeout | list | banlist | saveAll | advancement | schedule
  | function | datapack | reload | transfer | defaultgamemode | setblock | spawnpoint | fill | xp
  | summon | effect | gamerule | tp | time | weather | difficulty | tick | seed | say | status
  | scoreboard | title | playsound | bossbar | locate | clone | setworldspawn | spreadplayers
  | attributes | stopsound | recipe | worldborder | data | tag | team | trigger | ride | fillbiome
  | forceload | saveOn | saveOff | publish | debug
  deriving DecidableEq, Repr

/-- The commands that write something guarded. -/
inductive GuardedCommand where
  | op | deop | stop | ban | pardon | banIp | pardonIp | whitelist | gamemode | give | kill
  | clear | enchant | damage | item | spectate
  deriving DecidableEq, Repr

inductive Command where
  | execute
  | quiet (c : QuietCommand)
  | guarded (c : GuardedCommand)
  deriving DecidableEq, Repr

/-- `name` and `description`. -/
def QuietCommand.info : QuietCommand → String × String
  | help => ("help", "Show available commands")
  | msg => ("msg", "Send a private message to a player")
  | me => ("me", "Broadcast an action to all players")
  | kick => ("kick", "Kick a player from the server")
  | setidletimeout => ("setidletimeout", "Set the idle kick timeout in minutes (0 = disable)")
  | list => ("list", "List online players with health")
  | banlist => ("banlist", "List all banned players")
  | saveAll => ("save-all", "Save all world and player data immediately")
  | advancement => ("advancement", "Grant, revoke, or list player advancements. " ++
      "Usage: /advancement (grant|revoke|list) [player] [advancement]")
  | schedule => ("schedule", "Schedule a function to run after a delay. " ++
      "Usage: /schedule function <name> <time> [append|replace]")
  | function => ("function", "Execute a datapack function. Usage: /function <namespace:path>")
  | datapack => ("datapack", "Manage datapacks. Usage: /datapack (enable|disable|list) [name]")
  | reload => ("reload", "Reload server configuration (difficulty, motd) from disk")
  | transfer => ("transfer", "Transfer a player to another server")
  | defaultgamemode => ("defaultgamemode", "Set the default game mode for new players")
  | setblock => ("setblock", "Place a block at coordinates")
  | spawnpoint => ("spawnpoint", "Set a player's spawn location")
  | fill => ("fill", "Fill a region with blocks")
  | xp => ("xp", "Manage player experience (add/set/query)")
  | summon => ("summon", "Summon an entity")
  | effect => ("effect", "Give or clear status effects")
  | gamerule => ("gamerule", "View or set game rules")
  | tp => ("tp", "Teleport to a player or coordinates")
  | time => ("time", "Query or change world time")
  | weather => ("weather", "Set the weather")
  | difficulty => ("difficulty", "Set the difficulty level")
  | tick => ("tick", "Control server tick rate")
  | seed => ("seed", "Show the world seed")
  | say => ("say", "Broadcast a message to all players")
  | status => ("status", "Show server status")
  | scoreboard => ("scoreboard", "Manage scoreboard objectives and scores")
  | title => ("title", "Send a title/subtitle/actionbar to players")
  | playsound => ("playsound", "Play a sound effect for players")
  | bossbar => ("bossbar", "Create and manage boss bars")
  | locate => ("locate", "Locate nearest biome or structure")
  | clone => ("clone", "Clone blocks from one region to another")
  | setworldspawn => ("setworldspawn", "Set the world spawn point")
  | spreadplayers => ("spreadplayers", "Spread players out from a center point")
  | attributes => ("attribute", "Query or modify entity attributes")
  | stopsound => ("stopsound", "Stop a playing sound")
  | recipe => ("recipe", "Give or take recipes from players")
  | worldborder => ("worldborder", "Manage the world border")
  | data => ("data", "Get/modify NBT data (entity/block supported)")
  | tag => ("tag", "Manage entity tags")
  | team => ("team", "Manage teams")
  | trigger => ("trigger", "Trigger a scoreboard objective (add/set value)")
  | ride => ("ride", "Make entities ride others (mount/dismount)")
  | fillbiome => ("fillbiome", "Fill biome in an area (sets biome ID in chunks)")
  | forceload => ("forceload", "Force chunks to stay loaded")
  | saveOn => ("save-on", "Enable automatic saving")
  | saveOff => ("save-off", "Disable automatic saving")
  | publish => ("publish", "Open to LAN")
  | debug => ("debug", "Start/stop debugging")

/-- `name` and `description`. -/
def GuardedCommand.info : GuardedCommand → String × String
  | op => ("op", "Grant operator status")
  | deop => ("deop", "Revoke operator status")
  | stop => ("stop", "Stop the server")
  | ban => ("ban", "Ban a player from the server")
  | pardon => ("pardon", "Unban a player")
  | banIp => ("ban-ip", "Ban a player by IP address")
  | pardonIp => ("pardon-ip", "Unban a player's IP")
  | whitelist => ("whitelist", "Manage the server whitelist")
  | gamemode => ("gamemode", "Change player game mode")
  | give => ("give", "Give items to a player")
  | kill => ("kill", "Kill a player or entity")
  | clear => ("clear", "Clear items from player inventory")
  | enchant => ("enchant", "Enchant the held item of a player")
  | damage => ("damage", "Apply damage to entities")
  | item => ("item", "Modify items in entity inventory")
  | spectate => ("spectate", "Enter spectator mode and spectate a target")

namespace Command

/-- `name` and `description`. -/
def info : Command → String × String
  | execute => ("execute", "Execute a command on behalf of/at other entities")
  | quiet c => c.info
  | guarded c => c.info

def name (c : Command) : String := c.info.1

def aliases : Command → List String
  | quiet .help => ["?"]
  | quiet .msg => ["tell", "w"]
  | quiet .tp => ["teleport"]
  | quiet .xp => ["experience"]
  | _ => []

end Command

/-- `execute` of a quiet command; `info` is what `/help` lists. -/
def QuietCommand.run (host : Host) (info : List (String × String)) (ctx : CommandContext) :
    QuietCommand → Quiet String
  | help => helpCommand info
  | msg => msgCommand host ctx
  | me => meCommand ctx
  | kick => kickCommand host ctx
  | setidletimeout => setidletimeoutCommand ctx
  | list => listPlayersCommand host
  | banlist => banlistCommand host
  | saveAll => saveAllCommand ctx
  | advancement => advancementCommand host ctx
  | schedule => scheduleCommand ctx
  | function => functionCommand host ctx
  | datapack => datapackCommand host ctx
  | reload => reloadCommand host ctx
  | transfer => transferCommand host ctx
  | defaultgamemode => defaultgamemodeCommand host ctx
  | setblock => setblockCommand host ctx
  | spawnpoint => spawnpointCommand host ctx
  | fill => fillCommand host ctx
  | xp => xpCommand host ctx
  | summon => summonCommand host ctx
  | effect => effectCommand host ctx
  | gamerule => gameruleCommand ctx
  | tp => tpCommand host ctx
  | time => timeCommand host ctx
  | weather => weatherCommand ctx
  | difficulty => difficultyCommand ctx
  | tick => tickCommand ctx
  | seed => seedCommand
  | say => sayCommand ctx
  | status => statusCommand ctx
  | scoreboard => scoreboardCommand host ctx
  | title => titleCommand host ctx
  | playsound => playsoundCommand host ctx
  | bossbar => bossbarCommand host ctx
  | locate => locateCommand host ctx
  | clone => cloneCommand host ctx
  | setworldspawn => setworldspawnCommand host ctx
  | spreadplayers => spreadplayersCommand host ctx
  | attributes => attributeCommand host ctx
  | stopsound => stopsoundCommand host ctx
  | recipe => recipeCommand ctx
  | worldborder => worldborderCommand host ctx
  | data => dataCommand ctx
  | tag => tagCommand host ctx
  | team => teamCommand
  | trigger => triggerCommand ctx
  | ride => rideCommand host ctx
  | fillbiome => fillbiomeCommand host ctx
  | forceload => forceloadCommand ctx
  | saveOn => saveOnCommand
  | saveOff => saveOffCommand
  | publish => publishCommand ctx
  | debug => debugCommand ctx

/-- `execute` of a guarded command. -/
def GuardedCommand.run (host : Host) (ctx : CommandContext) : GuardedCommand → Cmd String
  | op => opCommand host ctx
  | deop => deopCommand host ctx
  | stop => stopCommand
  | ban => banCommand host ctx
  | pardon => pardonCommand host ctx
  | banIp => banIpCommand host ctx
  | pardonIp => pardonIpCommand host ctx
  | whitelist => whitelistCommand host ctx
  | gamemode => gamemodeCommand host ctx
  | give => giveCommand host ctx
  | kill => killCommand host ctx
  | clear => clearCommand host ctx
  | enchant => enchantCommand host ctx
  | damage => damageCommand host ctx
  | item => itemCommand host ctx
  | spectate => spectateCommand host ctx

/-! ## The registered commands -/

structure CommandDispatcher where
  commands : List (String × Command)
  /-- The canonical name of each alias. -/
  aliases : List (String × String)

namespace CommandDispatcher

def new : CommandDispatcher := ⟨[], []⟩

def register (host : Host) (disp : CommandDispatcher) (command : Command) : CommandDispatcher where
  commands := insertKey disp.commands (host.toLowercase command.name) command
  aliases := command.aliases.foldl (fun aliases name =>
    insertKey aliases (host.toLowercase name) (host.toLowercase command.name)) disp.aliases

def resolveName (host : Host) (disp : CommandDispatcher) (name : String) : Option String :=
  let lower := host.toLowercase name
  if (disp.commands.lookup lower).isSome then some lower else disp.aliases.lookup lower

/-- The command that `dispatch` runs for its first argument. -/
def find (host : Host) (disp : CommandDispatcher) (arg : String) : Option Command :=
  (disp.resolveName host (host.toLowercase arg)).bind fun name => disp.commands.lookup name

/-- `get_command_info`. -/
def commandInfo (disp : CommandDispatcher) : List (String × String) :=
  disp.commands.map fun entry => entry.2.info

end CommandDispatcher

/-- `register_commands`. -/
def registerCommands (host : Host) : CommandDispatcher :=
  [.execute, .quiet .help, .quiet .msg, .quiet .me, .guarded .op, .guarded .deop, .guarded .stop,
    .quiet .kick, .guarded .ban, .guarded .pardon, .guarded .banIp, .guarded .pardonIp,
    .quiet .setidletimeout, .quiet .list, .quiet .banlist, .guarded .whitelist, .quiet .saveAll,
    .quiet .advancement, .quiet .schedule, .quiet .function, .quiet .datapack, .quiet .reload,
    .quiet .transfer, .guarded .gamemode, .quiet .defaultgamemode, .quiet .setblock,
    .quiet .spawnpoint, .quiet .fill, .quiet .xp, .quiet .summon, .quiet .effect, .quiet .gamerule,
    .quiet .tp, .guarded .give, .guarded .kill, .quiet .time, .quiet .weather, .quiet .difficulty,
    .quiet .tick, .quiet .list, .quiet .seed, .quiet .say, .quiet .status, .quiet .scoreboard,
    .quiet .title, .quiet .playsound, .guarded .clear, .guarded .enchant, .quiet .bossbar,
    .quiet .locate, .quiet .clone, .guarded .damage, .guarded .item, .quiet .setworldspawn,
    .quiet .spreadplayers, .quiet .attributes, .quiet .stopsound, .quiet .recipe,
    .guarded .spectate, .quiet .worldborder, .quiet .data, .quiet .tag, .quiet .team,
    .quiet .trigger, .quiet .ride, .quiet .fillbiome, .quiet .forceload, .quiet .saveOn,
    .quiet .saveOff, .quiet .publish, .quiet .debug].foldl
    (CommandDispatcher.register host) CommandDispatcher.new

/-! ## Execute -/

/-- The arguments that `/execute` dispatches again: fewer than its own `n`. -/
abbrev RunArgs (n : Nat) := { args : List String // args.length < n }

/-- What `/execute` with `n` arguments runs. -/
inductive Execution (n : Nat) where
  /-- `as`: as each target. -/
  | asTargets (targets : List (Uuid × String)) (args : RunArgs n)
  /-- `at`: at each target, with `~` replaced then. -/
  | atTargets (targets : List (Uuid × String)) (args : RunArgs n)
  /-- `positioned`. -/
  | positioned (args : RunArgs n)

/-- `position(|a| a.to_lowercase() == "run")`. -/
def runIndex (host : Host) (args : List String) : Option Nat :=
  args.findIdx? fun a => host.toLowercase a = "run"

/-- `args[i..]` with every argument replaced through `f`. -/
def runArgs {args : List String} (h : 4 ≤ args.length) (i : Nat) (f : String → String) :
    RunArgs args.length :=
  ⟨(args.drop (i + 1)).map f, by
    rw [List.length_map, List.length_drop]
    omega⟩

section Execute

variable (host : Host) (ctx : CommandContext)

/-- `execute_as`, up to its loop. -/
def executeAs (h : 4 ≤ ctx.args.length) : Quiet (Execution ctx.args.length) := do
  let selector := ctx.arg 1
  let runIdx ← orFail (runIndex host ctx.args)
    "Expected 'run' after target. Usage: execute as <target> run <command>"
  if runIdx < 2 then fail "Expected 'run' after target selector"
  else
    let targets ← someTargets host ctx selector s!"No targets matched selector: {selector}"
    pure (.asTargets targets (runArgs h runIdx id))

/-- `execute_at`, up to its loop. -/
def executeAt (h : 4 ≤ ctx.args.length) : Quiet (Execution ctx.args.length) := do
  let selector := ctx.arg 1
  let runIdx ← orFail (runIndex host ctx.args) "Expected 'run' after target"
  let targets ← someTargets host ctx selector s!"No targets matched selector: {selector}"
  pure (.atTargets targets (runArgs h runIdx id))

/-- `execute_positioned`, up to its dispatch. -/
def executePositioned (h : 4 ≤ ctx.args.length) : Quiet (Execution ctx.args.length) :=
  if ctx.args.length < 6 then fail "Usage: /execute positioned <x> <y> <z> run <command>"
  else
    let x := ctx.arg 1
    let y := ctx.arg 2
    let z := ctx.arg 3
    if host.toLowercase (ctx.arg 4) ≠ "run" then fail "Expected 'run' after coordinates"
    else pure (.positioned (runArgs h 4 fun s =>
      if s = "~" then x
      else if s = "~ ~" then x ++ " " ++ y
      else if s = "~ ~ ~" then x ++ " " ++ y ++ " " ++ z
      else s))

/-- `ExecuteCommand::execute`, up to where it dispatches. -/
def execution : Quiet (Execution ctx.args.length) :=
  if h : 4 ≤ ctx.args.length then
    let modifier := host.toLowercase (ctx.arg 0)
    match modifier with
    | "as" => executeAs host ctx h
    | "at" => executeAt host ctx h
    | "positioned" => executePositioned host ctx h
    | _ => fail s!"Unknown execute modifier: {modifier}. Supported: as, at, positioned"
  else fail "Usage: /execute as|at <target> run <command>"

/-- `~` at a target: the block coordinates of the player. -/
def resolveArg (q : Player) (arg : String) : String :=
  if arg = "~" then toString (floatToI32 q.position.x)
  else if arg = "~ ~" then
    toString (floatToI32 q.position.x) ++ " " ++ toString (floatToI32 q.position.y)
  else arg

/-- The arguments at a target. -/
def RunArgs.resolveAt {n : Nat} (args : RunArgs n) (q : Player) : RunArgs n :=
  ⟨args.1.map (resolveArg q), by
    rw [List.length_map]
    exact args.2⟩

/-- What `/execute` notes for one target: nothing, its message or its error. -/
def reported (username : String) (x : Cmd String) : Cmd String := do
  match ← x.attempt with
  | .ok "" => pure ""
  | .ok msg => pure s!"[{username}] {msg}"
  | .error e => pure s!"[{username}] Error: {e}"

/-- The notes of all targets, `done` if there are none. -/
def report (notes : List String) (done : String) : String :=
  let results := notes.filter (· ≠ "")
  if results = [] then done else join "\n" results

/-- What `/execute` calls to dispatch again. -/
abbrev Redispatch (n : Nat) := CommandSource → RunArgs n → Cmd String

/-- One target of `/execute as`. -/
def runAs {n : Nat} (redispatch : Redispatch n) (args : RunArgs n) (t : Uuid × String) :
    Cmd String :=
  reported t.2 (redispatch (.player t.1 t.2) args)

/-- One target of `/execute at`. -/
def runAt {n : Nat} (source : CommandSource) (redispatch : Redispatch n) (args : RunArgs n)
    (t : Uuid × String) : Cmd String := do
  match ← read fun s => s.get t.1 with
  | some q => reported t.2 (redispatch source (args.resolveAt q))
  | none => pure ""

/-- `ExecuteCommand::execute`. -/
def executeCommand (redispatch : Redispatch ctx.args.length) : Cmd String := do
  match ← execution host ctx with
  | .asTargets targets args =>
      let notes ← Call.collect (runAs redispatch args) targets
      pure (report notes ("Executed as " ++ toString targets.length ++ " target(s)"))
  | .atTargets targets args =>
      let notes ← Call.collect (runAt ctx.source redispatch args) targets
      pure (report notes ("Executed at " ++ toString targets.length ++ " target(s)"))
  | .positioned args => redispatch ctx.source args

end Execute

/-! ## Dispatch -/

/-- **`CommandDispatcher::dispatch`.** -/
def CommandDispatcher.dispatch (host : Host) (disp : CommandDispatcher) (ctx : CommandContext) :
    Cmd String :=
  match h : ctx.args with
  | [] => Call.fail "No command specified"
  | arg :: args =>
      let ctx' := { ctx with args := args }
      match disp.find host arg with
      | some .execute =>
          executeCommand host ctx' fun source sub =>
            disp.dispatch host { ctx with source := source, args := sub.1 }
      | some (.quiet c) => (c.run host disp.commandInfo ctx').call
      | some (.guarded c) => c.run host ctx'
      | none => Call.fail ("Unknown command: /" ++ host.toLowercase arg)
termination_by ctx.args.length
decreasing_by
  rw [h]
  exact Nat.lt_succ_of_lt sub.2

/-- The words of a line: without the white space around it and the slashes before it. -/
def inputArgs (input : String) : List String :=
  let trimmed := (trim input.toList).dropWhile (· = '/')
  (splitWhitespace trimmed).map String.ofList

/-- The context that `dispatch_input` dispatches. -/
def inputContext (input : String) (source : CommandSource) (motd : String) (maxPlayers : Nat)
    (chunkStore saveTrigger : Bool) : CommandContext :=
  ⟨source, inputArgs input, motd, maxPlayers, chunkStore, saveTrigger⟩

/-- **`CommandDispatcher::dispatch_input`.**  An empty line has no words; `dispatch` refuses it
with the same error. -/
def CommandDispatcher.dispatchInput (host : Host) (disp : CommandDispatcher) (input : String)
    (source : CommandSource) (motd : String) (maxPlayers : Nat) (chunkStore saveTrigger : Bool) :
    Cmd String :=
  disp.dispatch host (inputContext input source motd maxPlayers chunkStore saveTrigger)

end Apoptotic.Commands
