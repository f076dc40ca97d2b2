import Apoptotic.Command.WorldCommands

/-!
# Commands on players

The commands of `mc-command/src/commands/` that act on players.  The first part writes positions,
effects, experience, tags and messages and is `Quiet`; the second part writes operator flags, game
modes, health, inventories, bans, the whitelist or the running flag.

Principal definitions: one for each command, under its name.
-/

namespace Apoptotic.Commands

open Calls Text

variable (host : Host) (ctx : CommandContext)

/-- The targets of a selector, an error if there are none. -/
def someTargets (target none : String) : Quiet (List (Uuid × String)) := do
  let targets ← resolvePlayerTargets host ctx target
  if targets = [] then fail none else pure targets

theorem someTargets_of_nil {host : Host} {ctx : CommandContext} {target : String} {s : Server}
    (h : playerTargets host s ctx.source target = []) (none : String) :
    (someTargets host ctx target none).call s = (.err none, { s with draws := s.draws + 2 }) := by
  simp [someTargets, Call.bind_apply, resolvePlayerTargets_call, h]

theorem someTargets_of_ne_nil {host : Host} {ctx : CommandContext} {target : String} {s : Server}
    (h : playerTargets host s ctx.source target ≠ []) (none : String) :
    (someTargets host ctx target none).call s =
      (.ok (playerTargets host s ctx.source target), { s with draws := s.draws + 2 }) := by
  simp [someTargets, Call.bind_apply, resolvePlayerTargets_call, h]

/-- The names of the targets. -/
def names (targets : List (Uuid × String)) : List String := targets.map Prod.snd

/-! ## Messages and sounds -/

def msgCommand : Quiet String := do
  let targetName ← orFail ctx.args.head? "Usage: /msg <player> <message>"
  let message := join " " (ctx.args.drop 1)
  if message = "" then fail "Usage: /msg <player> <message>"
  else
    match ← resolvePlayerTarget host ctx targetName with
    | some (uuid, name) =>
        sendPrivateMsg ctx.source.name uuid message
        pure s!"[You → {name}] {message}"
    | none => fail s!"Player not found: {targetName}"

def kickCommand : Quiet String := do
  let target ← orFail ctx.args.head? "Usage: /kick <player> [reason]"
  let reason := ctx.argOr 1 "Kicked"
  match ← read fun s => s.getByName host target with
  | some p =>
      let name := p.username
      kickPlayer p.uuid reason
      broadcastChat "Server" s!"{name} was kicked: {reason}" true
      pure s!"Kicked {target}: {reason}"
  | none => fail s!"Player not found: {target}"

def transferCommand : Quiet String := do
  let usage := "Usage: /transfer <player> <host> [port]"
  let target ← orFail ctx.args[0]? usage
  let server ← orFail ctx.args[1]? usage
  let port := i32Or ctx 2 25565
  let targets ← someTargets host ctx target s!"No player matched: {target}"
  let mut count := 0
  for t in targets do
    match ← (sendTransfer t.1 server port).attempt with
    | .ok _ => count := count + 1
    | .error _ => pure ()
  pure s!"Transferring {count} player(s) to {server}:{port}"

/-- The actions of `/title`. -/
def titleAction? (action : String) : Option Int :=
  match action with
  | "title" => some 0
  | "subtitle" => some 1
  | "actionbar" => some 2
  | "clear" => some 4
  | "reset" => some 5
  | _ => none

/-- The text component of a title. -/
def titleJson (text : String) : String :=
  "\x7b\"text\":\"" ++ (text.replace "\\" "\\\\").replace "\"" "\\\"" ++ "\"\x7d"

def titleCommand : Quiet String := do
  if ctx.args.length < 3 then
    fail "Usage: /title <player> title|subtitle|actionbar|clear|reset <text>"
  else
    let target := ctx.arg 0
    let actionStr := host.toLowercase (ctx.arg 1)
    let action ← orFail (titleAction? actionStr)
      s!"Unknown title action: {actionStr}. Use title/subtitle/actionbar/clear/reset"
    let text := if action ≤ 2 then titleJson (ctx.arg 2) else ""
    let targets ← someTargets host ctx target s!"No player matched: {target}"
    let mut count := 0
    for t in targets do
      match ← (sendTitle t.1 action text).attempt with
      | .ok _ => count := count + 1
      | .error _ => pure ()
    pure s!"Sent {actionStr} to {count} player(s)"

def playsoundCommand : Quiet String := do
  if ctx.args.length < 2 then
    fail "Usage: /playsound <sound> <player> [volume] [pitch]"
  else
    let soundName := ctx.arg 0
    let target := ctx.arg 1
    let volume := ((ctx.args[2]?).bind host.parseF32).getD 1
    let pitch := ((ctx.args[3]?).bind host.parseF32).getD 1
    let fullSound := if ':' ∈ soundName.toList then soundName else "minecraft:" ++ soundName
    let targets ← someTargets host ctx target s!"No player matched: {target}"
    let mut count := 0
    for t in targets do
      match ← (playSound t.1 fullSound 7 volume pitch).attempt with
      | .ok _ => count := count + 1
      | .error _ => pure ()
    pure s!"Played {soundName} to {count} player(s)"

def stopsoundCommand : Quiet String := do
  let target ← orFail ctx.args.head? "Usage: /stopsound <player> [sound]"
  let targets ← someTargets host ctx target "No targets matched"
  for t in targets do
    stopSound t.1
  let count := targets.length
  pure s!"Stopped sounds for {count} player(s)"

/-! ## Positions -/

/-- `/tp <player>`. -/
def tpToPlayer (target : String) : Quiet String := do
  match ← resolvePlayerTarget host ctx target with
  | none => fail s!"Player not found: {target}"
  | some _ =>
      match ← read fun s => s.getByName host target, ctx.source with
      | some p, .player uuid _ =>
          updatePositionFull uuid p.position.x p.position.y p.position.z p.position.yaw
            p.position.pitch
          pure s!"Teleported to {target}"
      | _, _ => pure "(console cannot teleport)"

/-- `/tp <from> <to>`. -/
def tpBetween (source target : String) : Quiet String := do
  let fromPlayer ← resolvePlayerTarget host ctx source
  match fromPlayer, ← read fun s => s.getByName host target with
  | some (uuid, _), some p =>
      updatePositionFull uuid p.position.x p.position.y p.position.z p.position.yaw
        p.position.pitch
      pure s!"Teleported {source} to {target}"
  | _, _ => fail "Player not found"

/-- `parser::parse_f64`. -/
def parseF64 (input : String) : Quiet Float :=
  orFail (host.parseF64 input) ("Invalid number: " ++ host.floatError input)

/-- `/tp <x> <y> <z> [yaw] [pitch]`. -/
def tpToCoordinates : Quiet String := do
  let x ← parseF64 host (ctx.arg 0)
  let y ← parseF64 host (ctx.arg 1)
  let z ← parseF64 host (ctx.arg 2)
  let yaw ← if ctx.args.length ≥ 5 then parseF64 host (ctx.arg 3) else pure 0
  let pitch ← if ctx.args.length ≥ 5 then parseF64 host (ctx.arg 4) else pure 0
  match ctx.source with
  | .player uuid _ => updatePositionFull uuid x y z yaw.toFloat32 pitch.toFloat32
  | _ => pure ()
  pure ("Teleported to " ++ host.fixedF64 1 x ++ ", " ++ host.fixedF64 1 y ++ ", " ++
    host.fixedF64 1 z)

def tpCommand : Quiet String :=
  match ctx.args with
  | [target] => tpToPlayer host ctx target
  | [source, target] => tpBetween host ctx source target
  | [_, _, _] | [_, _, _, _, _] => tpToCoordinates host ctx
  | _ => fail "Usage: /tp <player> | /tp <x> <y> <z> [yaw] [pitch] | /tp <from> <to>"

/-- Make the position of an online player the spawn point of that player. -/
def spawnHere (uuid : Uuid) (prefixText : String) : Quiet String := do
  match ← read fun s => s.get uuid with
  | some p =>
      let _ ← (setSpawnPosition uuid p.position.x p.position.y p.position.z 0).attempt
      pure (prefixText ++ host.fixedF64 0 p.position.x ++ ", " ++ host.fixedF64 0 p.position.y ++
        ", " ++ host.fixedF64 0 p.position.z ++ ")")
  | none => fail "Usage: /spawnpoint [player] [x y z]"

def spawnpointCommand : Quiet String := do
  if ctx.args = [] then
    match ctx.source with
    | .player uuid _ => spawnHere host uuid "Spawnpoint set to ("
    | _ => fail "Usage: /spawnpoint [player] [x y z]"
  else if ctx.args.length ≥ 4 then
    let target := ctx.arg 0
    let x ← orFail (host.parseF64 (ctx.arg 1)) "Invalid X"
    let y ← orFail (host.parseF64 (ctx.arg 2)) "Invalid Y"
    let z ← orFail (host.parseF64 (ctx.arg 3)) "Invalid Z"
    let yaw := ((ctx.args[4]?).bind host.parseF32).getD 0
    let targets ← someTargets host ctx target s!"No player matched: {target}"
    for t in targets do
      let _ ← (setSpawnPosition t.1 x y z yaw).attempt
    let count := targets.length
    pure (s!"Spawnpoint set for {count} player(s) at (" ++ host.fixedF64 0 x ++ ", " ++
      host.fixedF64 0 y ++ ", " ++ host.fixedF64 0 z ++ ")")
  else if ctx.args.length = 1 then
    match ← resolvePlayerTarget host ctx (ctx.arg 0) with
    | some (uuid, name) => spawnHere host uuid s!"Spawnpoint for {name} set to ("
    | none => fail "Usage: /spawnpoint [player] [x y z]"
  else fail "Usage: /spawnpoint [player] [x y z]"

/-- The share of `hash` in `u128`, spread over `scale`. -/
def spread (hash : Nat) (scale : Float) : Float :=
  let share := Float.ofNat hash / Float.ofNat (2 ^ 128 - 1) * scale * 1000
  share - (if share < 0 then share.ceil else share.floor)

/-- `std::f64::consts::TAU`. -/
def tau : Float := Float.ofBits 0x401921FB54442D18

def spreadplayersCommand : Quiet String := do
  if ctx.args.length < 2 then
    fail "Usage: /spreadplayers <x> <z> <distance> <maxRange> <targets>"
  else
    let cx ← orFail (host.parseF64 (ctx.arg 0)) "Invalid x"
    let cz ← orFail (host.parseF64 (ctx.arg 1)) "Invalid z"
    let range := f64Or host ctx 3 100
    let targets ← someTargets host ctx (ctx.argOr 4 "@a") "No targets matched"
    for t in targets do
      let seed ← read fun s => s.world.seed
      let hash := (t.1.toNat ^^^ seed) * 6364136223846793005 % 2 ^ 128
      let angle := spread hash tau * tau
      let r := spread (hash * 7 % 2 ^ 128) range * range
      let _ ← (updatePosition t.1 (cx + angle.cos * r) 64 (cz + angle.sin * r)).attempt
    let count := targets.length
    pure (s!"Spread {count} player(s) around (" ++ host.fixedF64 0 cx ++ "," ++
      host.fixedF64 0 cz ++ ")")

def rideCommand : Quiet String := do
  if ctx.args.length < 2 then
    fail "Usage: /ride <target> <mount|dismount> [vehicle]"
  else
    let targets ← resolvePlayerTargets host ctx (ctx.arg 0)
    let count := targets.length
    match host.toLowercase (ctx.arg 1) with
    | "mount" =>
        let vehicleTarget ← orFail ctx.args[2]? "Usage: /ride <target> mount <vehicle>"
        let vehicles ← resolvePlayerTargets host ctx vehicleTarget
        match vehicles with
        | [] => fail "No matching entities"
        | (vehicle, _) :: _ =>
            if targets = [] then fail "No matching entities"
            else
              for t in targets do
                match ← read fun s => s.get vehicle with
                | some v =>
                    let _ ← (updatePosition t.1 v.position.x (v.position.y + 1.5)
                      v.position.z).attempt
                | none => pure ()
              pure s!"{count} entity(s) mounted"
    | "dismount" =>
        for t in targets do
          match ← read fun s => s.get t.1 with
          | some p =>
              let _ ← (updatePosition t.1 p.position.x p.position.y p.position.z).attempt
          | none => pure ()
        pure s!"{count} entity(s) dismounted"
    | _ => fail "Usage: /ride <target> <mount|dismount>"

/-! ## Experience, effects, attributes and tags -/

/-- The experience of all levels below `level`. -/
def xpForLevel (level : Int) : Int :=
  (List.range level.toNat).foldl (fun total l =>
    i32 (total + (if l < 16 then 2 * (l : Int) + 7 else if l < 31 then 5 * l - 38
      else i32 (9 * l - 158)))) 0

/-- `/xp add`, also without the `add`. -/
def xpAdd (amount : Int) (target : String) : Quiet String := do
  let targets ← someTargets host ctx target "No players matched"
  for t in targets do
    addXp t.1 amount
  let count := targets.length
  pure s!"Added {amount} XP to {count} player(s)"

def xpCommand : Quiet String := do
  match ctx.args with
  | [] =>
      fail ("Usage: /xp add <amount> [player] | /xp set <amount> [player] | " ++
        "/xp query <player> levels|points")
  | sub :: _ =>
      match host.toLowercase sub with
      | "add" =>
          let amount ← orFail ((ctx.args[1]?).bind parseI32)
            "Specify amount: /xp add <points> [player]"
          xpAdd host ctx amount (ctx.argOr 2 "@s")
      | "set" =>
          let amount ← orFail ((ctx.args[1]?).bind parseI32)
            "Specify amount: /xp set <levels> [player]"
          let targets ← someTargets host ctx (ctx.argOr 2 "@s") "No players matched"
          for t in targets do
            let _ ← (setXp t.1 0 amount (xpForLevel amount)).attempt
          let count := targets.length
          pure s!"Set {count} player(s) to level {amount}"
      | "query" =>
          let target ← orFail ctx.args[1]? "Specify player: /xp query <player>"
          let targets ← someTargets host ctx target "No players matched"
          match targets.head? with
          | none => fail "No players matched"
          | some (uuid, name) =>
              match ← read fun s => s.get uuid with
              | some p =>
                  let total := p.xpTotal
                  let level := p.xpLevel
                  let percent := host.fixedF32 0 (p.xpBar * 100)
                  pure s!"{name} has {total} XP (level {level}, {percent}%)"
              | none => fail "Player not found"
      | _ =>
          let amount ← orFail (parseI32 sub) "Invalid amount"
          xpAdd host ctx amount (ctx.argOr 1 "@s")

def effectGive : Quiet String := do
  if ctx.args.length < 3 then
    fail "Usage: /effect give <target> <effect> [seconds] [amplifier]"
  else
    let target := ctx.arg 1
    let effectName := ctx.arg 2
    let seconds := ((ctx.args[3]?).bind parseU32).getD 30
    let amplifier := ((ctx.args[4]?).bind fun s => parseNat 255 s.toList).getD 0
    let effect ← orFail (EffectType.ofName? (host.toLowercase effectName))
      s!"Unknown effect: {effectName}. Use /effect give <target> <effect>"
    let active : ActiveEffect := ⟨effect, amplifier, min (seconds * 20) (2 ^ 32 - 1)⟩
    let targets ← someTargets host ctx target s!"No targets matched: {target}"
    let mut results : List String := []
    for t in targets do
      match ← (addEffect t.1 active).attempt with
      | .ok msg => results := results ++ [t.2 ++ ": " ++ msg]
      | .error e => results := results ++ [t.2 ++ ": Error — " ++ e]
    pure (join "\n" results)

def effectClear : Quiet String := do
  if ctx.args.length < 2 then fail "Usage: /effect clear <target> [<effect>]"
  else
    let target := ctx.arg 1
    let targets ← someTargets host ctx target s!"No targets matched: {target}"
    let mut results : List String := []
    for t in targets do
      match ctx.args[2]? with
      | some effectName =>
          match EffectType.ofName? (host.toLowercase effectName) with
          | some effect =>
              -- the filtered list is not written back
              match ← read fun s => s.get t.1 with
              | some p =>
                  let remaining := (p.activeEffects.filter (·.effect ≠ effect)).length
                  results := results ++ [t.2 ++ ": cleared " ++ effect.debug ++
                    s!" ({remaining} effects remaining)"]
              | none => pure ()
          | none => results := results ++ [t.2 ++ s!": Unknown effect '{effectName}'"]
      | none =>
          match ← (clearEffects t.1).attempt with
          | .ok msg => results := results ++ [t.2 ++ ": " ++ msg]
          | .error e => results := results ++ [t.2 ++ ": Error — " ++ e]
    pure (join "\n" results)

def effectCommand : Quiet String :=
  match ctx.args with
  | [] =>
      fail ("Usage: /effect give <target> <effect> [seconds] [amplifier]\n" ++
        "       /effect clear <target>")
  | sub :: _ =>
      match host.toLowercase sub with
      | "give" => effectGive host ctx
      | "clear" => effectClear host ctx
      | _ => fail s!"Unknown effect subcommand: {sub}. Use 'give' or 'clear'"

def attributeCommand : Quiet String := do
  if ctx.args.length < 2 then
    fail "Usage: /attribute <target> <attribute> [get|set <value>]"
  else
    let targets ← someTargets host ctx (ctx.arg 0) "No targets matched"
    let attrName := ctx.arg 1
    match ctx.argOr 2 "get", targets.head? with
    | "get", some (uuid, name) =>
        match ← read fun s => s.get uuid with
        | some _ =>
            match attrName with
            | "minecraft:generic.max_health" => pure s!"{name}: {attrName} = 20"
            | "minecraft:generic.armor" => pure s!"{name}: {attrName} = 0"
            | "minecraft:generic.attack_damage" => pure s!"{name}: {attrName} = 1"
            | _ => pure s!"{name}: {attrName} = unknown (display only)"
        | none => fail "Unknown query"
    | "set", _ => pure s!"Attribute {attrName} set (display only)"
    | _, _ => fail "Use get or set"

def tagCommand : Quiet String := do
  if ctx.args.length < 2 then fail "Usage: /tag <target> <add|remove|list> [name]"
  else
    let players ← resolvePlayerTargets host ctx (ctx.arg 0)
    let action := host.toLowercase (ctx.arg 1)
    let tag := ctx.argOr 2 ""
    if action = "list" then
      let (uuid, name) ← orFail players.head? "No targets matched"
      let tags ← listTags uuid
      let list := join ", " tags
      pure s!"Tags for {name}: [{list}]"
    else
      let mut count := 0
      for t in players do
        let ok ← match action with
          | "add" => addTag t.1 tag
          | "remove" => removeTag t.1 tag
          | _ => fail "Usage: /tag <target> <add|remove|list> [name]"
        if ok then
          count := count + 1
      pure s!"{action} tags for {count} player(s)"

/-! ## Operators, bans and the whitelist -/

/-- `/op` and `/deop`. -/
def setOpCommand (isOp : Bool) (usage now done : String) : Cmd String := do
  let target ← orFail ctx.args.head? usage
  match ← read fun s => s.getByName host target with
  | some p =>
      setOp p.uuid isOp
      broadcastChat "Server" (p.username ++ now) true
      pure (done ++ target)
  | none => fail s!"Player not found: {target}"

def opCommand : Cmd String :=
  setOpCommand host ctx true "Usage: /op <player>" " is now an operator" "Opped "

def deopCommand : Cmd String :=
  setOpCommand host ctx false "Usage: /deop <player>" " is no longer an operator" "De-opped "

def stopCommand : Cmd String := do
  broadcastChat "Server" "Server is shutting down..." true
  shutdown
  pure "Stopping server..."

def banCommand : Cmd String := do
  let target ← orFail ctx.args.head? "Usage: /ban <player> [reason]"
  let reason := ctx.argOr 1 "Banned"
  match ← read fun s => s.getByName host target with
  | some p =>
      kickPlayer p.uuid s!"Banned: {reason}"
      ban p.uuid
      broadcastChat "Server" s!"{target} was banned: {reason}" true
      pure (s!"Banned {target} (" ++ host.showUuid p.uuid ++ s!"): {reason}")
  | none =>
      let uuid := host.offlineUuid target
      ban uuid
      broadcastChat "Server" s!"{target} was banned: {reason}" true
      pure (s!"Banned {target} (" ++ host.showUuid uuid ++ s!"): {reason}")

/-- `/pardon` and `/pardon-ip`. -/
def unbanCommand (usage was : String) (done : String → Uuid → String) : Cmd String := do
  let target ← orFail ctx.args.head? usage
  let uuid := host.offlineUuid target
  if ← read fun s => s.banned.contains uuid then
    unban uuid
    broadcastChat "Server" (target ++ was) true
    pure (done target uuid)
  else fail s!"{target} is not banned"

def pardonCommand : Cmd String :=
  unbanCommand host ctx "Usage: /pardon <player>" " was pardoned" fun target uuid =>
    s!"Pardoned {target} (" ++ host.showUuid uuid ++ "), they may rejoin now"

def pardonIpCommand : Cmd String :=
  unbanCommand host ctx "Usage: /pardon-ip <player>" " was IP-pardoned" fun target _ =>
    s!"IP-pardoned {target}"

def banIpCommand : Cmd String := do
  let target ← orFail ctx.args.head? "Usage: /ban-ip <player> [reason]"
  let reason := ctx.argOr 1 "Banned by operator"
  let uuid := host.offlineUuid target
  ban uuid
  broadcastChat "Server" s!"{target} was IP-banned: {reason}" true
  pure (s!"IP-banned {target} (" ++ host.showUuid uuid ++ s!") — {reason}")

def whitelistCommand : Cmd String := do
  match ctx.argOr 0 "list" with
  | "add" =>
      let player ← orFail ctx.args[1]? "Usage: /whitelist add <player>"
      addWhitelist (host.offlineUuid player)
      broadcastChat "Server" s!"{player} added to whitelist" true
      pure s!"Added {player} to whitelist"
  | "remove" =>
      let player ← orFail ctx.args[1]? "Usage: /whitelist remove <player>"
      removeWhitelist (host.offlineUuid player)
      pure s!"Removed {player} from whitelist"
  | "list" => pure "Whitelist: active (in-memory, not yet persisted)"
  | "on" =>
      setWhitelistEnabled true
      broadcastChat "Server" "Whitelist enabled" true
      pure "Whitelist enabled"
  | "off" =>
      setWhitelistEnabled false
      pure "Whitelist disabled"
  | _ => fail "Usage: /whitelist <add|remove|list|on|off>"

/-! ## Game modes, health and inventories -/

/-- The targets of a command that acts on its source by default. -/
def targetsOrSelf (target : Option String) (none : String → String) (console : String) :
    Quiet (List (Uuid × String)) :=
  match target with
  | some target => someTargets host ctx target (none target)
  | .none =>
      match ctx.source with
      | .player uuid username => pure [(uuid, username)]
      | _ => fail console

def gamemodeCommand : Cmd String := do
  let modeStr ← orFail ctx.args.head? "Usage: /gamemode <mode> [player]"
  match parseGamemode host modeStr with
  | .error e => fail e
  | .ok mode =>
      let targets ← targetsOrSelf host ctx ctx.args[1]? (fun t => s!"No players matched: {t}")
        "Console must specify a target player"
      let _ ← Call.collect (fun t => setGamemode t.1 mode) targets
      pure ("Set gamemode to " ++ mode.debug ++ " for " ++ join ", " (names targets))

def killCommand : Cmd String := do
  let targets ← targetsOrSelf host ctx ctx.args.head? (fun t => s!"No players matched: {t}")
    "Console must specify a target"
  let _ ← Call.collect (fun t => setHealth t.1 0) targets
  pure (if ctx.args = [] then "Killed self" else "Killed " ++ join ", " (names targets))

/-- One player of `/give`. -/
def giveOne (item : BlockState) (itemName : String) (count : Nat) (t : Uuid × String) :
    Cmd String := do
  match ← (addItemToPlayer t.1 item count).attempt with
  | .ok added => pure (toString added ++ "x " ++ itemName ++ " to " ++ t.2)
  | .error e => pure (t.2 ++ ": " ++ e)

/-- `normalize_item_name`: `trim_start_matches` takes the prefix off as often as it is there. -/
def normalizeItemName (name : String) : String :=
  let rec strip : Nat → List Char → List Char
    | 0, cs => cs
    | n + 1, cs =>
        if "minecraft:".toList.isPrefixOf cs then strip n (cs.drop 10) else cs
  let cs := (host.toLowercase name).toList
  String.ofList (strip cs.length cs)

def giveCommand : Cmd String := do
  let usage := "Usage: /give <player> <item> [count]"
  let target ← orFail ctx.args[0]? usage
  let name ← orFail ctx.args[1]? usage
  let itemName := normalizeItemName host name
  let count := ((ctx.args[2]?).bind parseU32).getD 1
  let item ← orFail (host.resolveItem itemName) s!"Unknown item: {itemName}"
  let targets ← someTargets host ctx target s!"No players matched: {target}"
  let results ← Call.collect (giveOne item itemName count) targets
  pure ("Gave " ++ join ", " results)

/-- One player of `/clear`. -/
def clearOne (t : Uuid × String) : Cmd String := do
  match ← (clearInventory t.1).attempt with
  | .ok _ => pure "cleared"
  | .error _ => pure ""

/-- The argument, or else the name of the source. -/
def clearTarget : Option String :=
  match ctx.args.head?, ctx.source with
  | some target, _ => some target
  | none, .player _ username => some username
  | none, _ => none

def clearCommand : Cmd String := do
  let target ← orFail (clearTarget ctx) "Usage: /clear [player]"
  let targets ← someTargets host ctx target s!"No player matched: {target}"
  let results ← Call.collect clearOne targets
  let count := (results.filter (· ≠ "")).length
  pure s!"Cleared inventory of {count} player(s)"

/-- The NBT that `/enchant` writes. -/
def enchantNbt (name : String) (level : Nat) : ByteArray :=
  ("\x7bEnchantments:[\x7bid:\"" ++ name ++ "\",lvl:" ++ toString level ++ "s\x7d]\x7d").toUTF8

/-- The message that `/enchant` sends. -/
def enchantTitle (name : String) (level : Nat) : String :=
  "\x7b\"text\":\"Enchanted: " ++ name ++ " " ++ toString level ++ "\",\"color\":\"aqua\"\x7d"

/-- One player of `/enchant`. -/
def enchantOne (name : String) (level : Nat) (t : Uuid × String) : Cmd String := do
  match (← read fun s => s.get t.1).bind fun p => p.inventory.held with
  | some _ =>
      updateHeldItemNbt t.1 (some (enchantNbt name level))
      let _ ← (sendTitle t.1 2 (enchantTitle name level)).attempt
      pure "enchanted"
  | none => pure ""

def enchantCommand : Cmd String := do
  if ctx.args.length < 2 then fail "Usage: /enchant <player> <enchantment> [level]"
  else
    let target := ctx.arg 0
    let enchantName := host.toLowercase (ctx.arg 1)
    let level := min (((ctx.args[2]?).bind parseU32).getD 1) 255
    let targets ← someTargets host ctx target s!"No player matched: {target}"
    if !host.findEnchantment enchantName then fail s!"Unknown enchantment: {enchantName}"
    else
      let results ← Call.collect (enchantOne enchantName level) targets
      let count := (results.filter (· ≠ "")).length
      pure s!"Applied '{enchantName}' level {level} to {count} player(s)"

/-- One player of `/damage`. -/
def damageOne (amount : Float32) (t : Uuid × String) : Cmd Unit := do
  match ← read fun s => s.get t.1 with
  | some p => setHealth t.1 (Server.maxF32 (p.health - amount) 0)
  | none => pure ()

def damageCommand : Cmd String := do
  if ctx.args.length < 2 then fail "Usage: /damage <target> <amount>"
  else
    let amount ← orFail (host.parseF32 (ctx.arg 1)) "Invalid damage amount"
    let targets ← someTargets host ctx (ctx.arg 0) "No targets matched"
    let _ ← Call.collect (damageOne amount) targets
    let count := targets.length
    pure ("Dealt " ++ host.showF32 amount ++ s!" damage to {count} player(s)")

/-- `/item`: five arguments pass the length check, and then `ctx.args[5]` is out of range. -/
def itemCommand : Cmd String := do
  if ctx.args.length < 5 then
    fail "Usage: /item replace entity <target> <slot> with <item> [count]"
  else
    let slotStr := ctx.arg 3
    match ctx.args[5]? with
    | none => abort
    | some itemName =>
        let count := ((ctx.args[6]?).bind parseU32).getD 1
        let slot ← orFail (parseNat 255 slotStr.toList) s!"Invalid slot: {slotStr}"
        let item ← orFail (host.resolveItem itemName) s!"Unknown item: {itemName}"
        let targets ← someTargets host ctx (ctx.arg 2) "No targets matched"
        let _ ← Call.collect (giveOne item itemName count) targets
        let players := targets.length
        pure s!"Gave {count}x {itemName} to slot {slot} of {players} player(s)"

def spectateCommand : Cmd String := do
  let target ← orFail ctx.args.head? "Usage: /spectate <target>"
  let targets ← someTargets host ctx target "No targets matched"
  match ctx.source, targets.head? with
  | .player uuid _, some (targetUuid, targetName) =>
      let _ ← (setGamemode uuid .spectator).attempt
      match ← read fun s => s.get targetUuid with
      | some p =>
          let _ ← (updatePosition uuid p.position.x p.position.y p.position.z).attempt
      | none => pure ()
      pure s!"Spectating {targetName}"
  | _, _ => fail "Console cannot spectate"

end Apoptotic.Commands
