import Apoptotic.Persistence.PlayerRows
import Apoptotic.Player.InventoryBytes

/-!
# Joining

What a player gets from `handle_play` of `mc-network/src/connection.rs`: `add_player` of
`mc-player/src/player.rs` and then the row that `load_all_player_data` of
`mc-persistence/src/save_manager.rs` read when the server started.  Of a player the name is kept, and
what is stored of it or counted as its progress.

Principal results: `sameProgress_handlePlay_iff` — what a player gets whose row was stored;
`carried_self_iff` — who is installed as stored: a player without experience, with health and food in
range and an inventory that survives.
-/

namespace Apoptotic.Join

open Commands
open PlayerRows (PlayerRow Database Value Column bindF32 bindF64)

abbrev Uuid := Commands.Uuid

/-- `f32` and `f64` values with the bounds that the setters put on them. -/
structure Reals (F D : Type) extends PlayerRows.Reals F D where
  /-- `x.max(0.0)` -/
  max0 : F → F
  /-- `x.clamp(0.0, 20.0)` -/
  clamp20 : F → F

structure Player (F D : Type) where
  username : String
  posX : D
  posY : D
  posZ : D
  yaw : F
  pitch : F
  gamemode : GameMode
  health : F
  isOp : Bool
  inventory : Inventory
  xpBar : F
  xpLevel : BitVec 32
  xpTotal : BitVec 32
  foodLevel : BitVec 32
  foodSaturation : F

def gamemodeId : GameMode → BitVec 8
  | .survival => 0
  | .creative => 1
  | .adventure => 2
  | .spectator => 3

def gamemodeFromId (id : BitVec 8) : Option GameMode :=
  if id = 0 then some .survival
  else if id = 1 then some .creative
  else if id = 2 then some .adventure
  else if id = 3 then some .spectator
  else none

variable {F D : Type} (r : Reals F D)

/-! ## The table of the players -/

/-- The player that `add_player` puts into the table. -/
def addPlayer (username : String) : Player F D where
  username := username
  posX := r.lit 0
  posY := r.lit 64
  posZ := r.lit 0
  yaw := r.litF32 0
  pitch := r.litF32 0
  gamemode := .survival
  health := r.litF32 20
  isOp := false
  inventory := Inventory.new
  xpBar := r.litF32 0
  xpLevel := 0
  xpTotal := 0
  foodLevel := 20
  foodSaturation := r.litF32 5

namespace Player

variable (p : Player F D)

def updatePositionFull (x y z : D) (yaw pitch : F) : Player F D :=
  { p with posX := x, posY := y, posZ := z, yaw := yaw, pitch := pitch }

def setHealth (health : F) : Player F D := { p with health := r.max0 health }

/-- `level.clamp(0, 20)` -/
def setFood (level : BitVec 32) (saturation : F) : Player F D :=
  { p with
    foodLevel := BitVec.ofInt 32 (max 0 (min level.toInt 20))
    foodSaturation := r.clamp20 saturation }

def setGamemode (gm : GameMode) : Player F D := { p with gamemode := gm }

def setOp (isOp : Bool) : Player F D := { p with isOp := isOp }

def setInventory (inv : Inventory) : Player F D := { p with inventory := inv }

end Player

/-! ## The stored row -/

/-- What is saved of a player who is online. -/
def row (p : Player F D) : PlayerRow F D where
  username := p.username
  health := p.health
  food := p.foodLevel
  saturation := p.foodSaturation
  gamemode := gamemodeId p.gamemode
  posX := p.posX
  posY := p.posY
  posZ := p.posZ
  yaw := p.yaw
  pitch := p.pitch
  isOp := p.isOp
  inventoryBlob := some (p.inventory.serialize.map UInt8.ofBitVec)

/-- What `load_all_player_data` selects behind the uuid. -/
def selectedAll : List Column :=
  [.username, .health, .food, .saturation, .gamemode, .posX, .posY, .posZ, .yaw, .pitch, .isOp,
    .inventory]

/-- The row of a uuid; a row with a value of another type is left out. -/
def loadAllPlayerData (db : Database D) (uuid : Uuid) : Option (PlayerRow F D) := do
  let row ← Rows.select db uuid selectedAll
  let username ← row[0]? >>= Value.asText
  let health ← row[1]? >>= Value.asF32 (r := r.toReals)
  let food ← row[2]? >>= Value.asI32
  let saturation ← row[3]? >>= Value.asF32 (r := r.toReals)
  let gamemode ← row[4]? >>= Value.asI32
  let posX ← row[5]? >>= Value.asF64 (r := r.toReals)
  let posY ← row[6]? >>= Value.asF64 (r := r.toReals)
  let posZ ← row[7]? >>= Value.asF64 (r := r.toReals)
  let yaw ← row[8]? >>= Value.asF32 (r := r.toReals)
  let pitch ← row[9]? >>= Value.asF32 (r := r.toReals)
  let isOp ← row[10]? >>= Value.asI32
  some
    { username, health, food, saturation, posX, posY, posZ, yaw, pitch
      gamemode := gamemode.setWidth 8
      isOp := isOp != 0
      inventoryBlob := row[11]? >>= Value.asBlob }

/-! ## Joining -/

/-- `if let Some(ref blob) = row.inventory_blob && !blob.is_empty() && let Some(inv) = ..` -/
def restoreInventory (blob : Option (List UInt8)) (p : Player F D) : Player F D :=
  let inv := blob.filter (· ≠ []) >>= fun b => Inventory.deserialize (b.map UInt8.toBitVec)
  (inv.map p.setInventory).getD p

/-- Restore saved player data. -/
def restore (row : PlayerRow F D) (p : Player F D) : Player F D :=
  let p := p.updatePositionFull row.posX row.posY row.posZ row.yaw row.pitch
  let p := p.setHealth r row.health
  let p := if 0 < row.food.toInt then p.setFood r row.food row.saturation else p
  let p := ((gamemodeFromId row.gamemode).map p.setGamemode).getD p
  let p := if row.isOp then p.setOp true else p
  restoreInventory row.inventoryBlob p

/-- The player that `handle_play` installs. -/
def handlePlay (savedPlayerData : Uuid → Option (PlayerRow F D)) (uuid : Uuid) (username : String) :
    Player F D :=
  let p := addPlayer r username
  ((savedPlayerData uuid).map fun row => restore r row p).getD p

/-- **The same position, health, food, game mode, operator flag, inventory and XP.** -/
structure SameProgress (p s : Player F D) : Prop where
  position : (p.posX, p.posY, p.posZ) = (s.posX, s.posY, s.posZ)
  health : p.health = s.health
  food : p.foodLevel = s.foodLevel
  gamemode : p.gamemode = s.gamemode
  isOp : p.isOp = s.isOp
  inventory : s.inventory.SameSlots p.inventory
  xp : (p.xpBar, p.xpLevel, p.xpTotal) = (s.xpBar, s.xpLevel, s.xpTotal)

/-- What is stored as `p` comes back as `s`. -/
structure Carried (p s : Player F D) : Prop where
  position : (p.posX, p.posY, p.posZ) = (s.posX, s.posY, s.posZ)
  health : r.max0 p.health = s.health
  food : s.foodLevel.toInt = if 0 < p.foodLevel.toInt then min p.foodLevel.toInt 20 else 20
  gamemode : p.gamemode = s.gamemode
  isOp : p.isOp = s.isOp
  inventory : ∃ inv, Inventory.deserialize p.inventory.serialize = some inv ∧
    s.inventory.SameSlots inv
  xp : (s.xpBar, s.xpLevel, s.xpTotal) = (r.litF32 0, 0, 0)

/-- No experience, health and food in range, and an inventory that survives. -/
structure Restorable (s : Player F D) : Prop where
  xp : (s.xpBar, s.xpLevel, s.xpTotal) = (r.litF32 0, 0, 0)
  health : r.max0 s.health = s.health
  food : 0 < s.foodLevel.toInt ∧ s.foodLevel.toInt ≤ 20
  inventory : s.inventory.Survives

/-- The row has no NaN. -/
def Numbers (s : Player F D) : Prop := (row s).Numbers r.toReals

/-! ## What comes back -/

variable {r} {db : Database D} {toText : Uuid → String} {now : String} {uuid : Uuid}

theorem gamemodeFromId_id (gm : GameMode) : gamemodeFromId (gamemodeId gm) = some gm := by
  cases gm <;> rfl

/-- The values of a row, read one after another. -/
theorem loadAllPlayerData_eq_some {v0 v1 v2 v3 v4 v5 v6 v7 v8 v9 v10 v11 : Value D}
    (hselect : Rows.select db uuid selectedAll =
      some [v0, v1, v2, v3, v4, v5, v6, v7, v8, v9, v10, v11]) {loaded : PlayerRow F D} :
    loadAllPlayerData r db uuid = some loaded ↔
      v0.asText = some loaded.username ∧ v1.asF32 (r := r.toReals) = some loaded.health ∧
        v2.asI32 = some loaded.food ∧ v3.asF32 (r := r.toReals) = some loaded.saturation ∧
        (∃ g, v4.asI32 = some g ∧ g.setWidth 8 = loaded.gamemode) ∧
        v5.asF64 (r := r.toReals) = some loaded.posX ∧
        v6.asF64 (r := r.toReals) = some loaded.posY ∧
        v7.asF64 (r := r.toReals) = some loaded.posZ ∧
        v8.asF32 (r := r.toReals) = some loaded.yaw ∧
        v9.asF32 (r := r.toReals) = some loaded.pitch ∧
        (∃ o, v10.asI32 = some o ∧ (o != 0) = loaded.isOp) ∧ v11.asBlob = loaded.inventoryBlob := by
  unfold loadAllPlayerData
  rw [hselect]
  obtain ⟨username, health, food, saturation, gamemode, posX, posY, posZ, yaw, pitch, isOp,
    blob⟩ := loaded
  change (v0.asText.bind fun username => (v1.asF32 (r := r.toReals)).bind fun health =>
    v2.asI32.bind fun food => (v3.asF32 (r := r.toReals)).bind fun saturation =>
    v4.asI32.bind fun gamemode => (v5.asF64 (r := r.toReals)).bind fun posX =>
    (v6.asF64 (r := r.toReals)).bind fun posY => (v7.asF64 (r := r.toReals)).bind fun posZ =>
    (v8.asF32 (r := r.toReals)).bind fun yaw => (v9.asF32 (r := r.toReals)).bind fun pitch =>
    v10.asI32.bind fun isOp => some (PlayerRow.mk username health food saturation
      (gamemode.setWidth 8) posX posY posZ yaw pitch (isOp != 0) v11.asBlob)) = some _ ↔ _
  simp only [Option.bind_eq_some_iff, Option.some.injEq, PlayerRow.mk.injEq]
  constructor
  · rintro ⟨_, h0, _, h1, _, h2, _, h3, g, h4, _, h5, _, h6, _, h7, _, h8, _, h9, o, h10,
      rfl, rfl, rfl, rfl, hg, rfl, rfl, rfl, rfl, rfl, ho, h11⟩
    exact ⟨h0, h1, h2, h3, ⟨g, h4, hg⟩, h5, h6, h7, h8, h9, ⟨o, h10, ho⟩, h11⟩
  · rintro ⟨h0, h1, h2, h3, ⟨g, h4, hg⟩, h5, h6, h7, h8, h9, ⟨o, h10, ho⟩, h11⟩
    exact ⟨_, h0, _, h1, _, h2, _, h3, g, h4, _, h5, _, h6, _, h7, _, h8, _, h9, o, h10,
      rfl, rfl, rfl, rfl, hg, rfl, rfl, rfl, rfl, rfl, ho, h11⟩

/-- What comes back after a full save: the row, if its numbers are. -/
theorem loadAllPlayerData_savePlayerFull {row loaded : PlayerRow F D} :
    loadAllPlayerData r (PlayerRows.savePlayerFull r.toReals db toText now uuid row) uuid =
        some loaded ↔
      row.Numbers r.toReals ∧
        loaded = { row with inventoryBlob := some (row.inventoryBlob.getD []) } := by
  have hselect : Rows.select (PlayerRows.savePlayerFull r.toReals db toText now uuid row) uuid
      selectedAll =
      some [.text row.username, bindF32 r.toReals row.health, .integer row.food.toInt,
        bindF32 r.toReals row.saturation, .integer row.gamemode.toNat, bindF64 r.toReals row.posX,
        bindF64 r.toReals row.posY, bindF64 r.toReals row.posZ, bindF32 r.toReals row.yaw,
        bindF32 r.toReals row.pitch, .integer (if row.isOp then 1 else 0),
        .blob (row.inventoryBlob.getD [])] :=
    (Rows.select_replace selectedAll).trans rfl
  rw [loadAllPlayerData_eq_some hselect]
  obtain ⟨username, health, food, saturation, gamemode, posX, posY, posZ, yaw, pitch, isOp,
    blob⟩ := loaded
  have hgamemode : (row.gamemode.setWidth 32).setWidth 8 = row.gamemode := by
    rw [BitVec.setWidth_setWidth_of_le _ (by decide), BitVec.setWidth_eq]
  have hisOp : ((if row.isOp then 1 else 0 : BitVec 32) != 0) = row.isOp := by
    cases row.isOp <;> rfl
  simp only [PlayerRows.asF32_bindF32, PlayerRows.asF64_bindF64, PlayerRows.asI32_food,
    PlayerRows.asI32_gamemode, PlayerRows.asI32_isOp, Value.asText, Value.asBlob,
    PlayerRow.Numbers, PlayerRow.mk.injEq, Option.some.injEq, exists_eq_left', hgamemode, hisOp,
    List.mem_cons, List.not_mem_nil, or_false, forall_eq_or_imp, forall_eq]
  constructor
  · rintro ⟨rfl, ⟨h1, rfl⟩, rfl, ⟨h3, rfl⟩, rfl, ⟨h5, rfl⟩, ⟨h6, rfl⟩, ⟨h7, rfl⟩, ⟨h8, rfl⟩,
      ⟨h9, rfl⟩, rfl, rfl⟩
    exact ⟨⟨⟨h1, h3, h8, h9⟩, h5, h6, h7⟩, rfl, rfl, rfl, rfl, rfl, rfl, rfl, rfl, rfl, rfl, rfl, rfl⟩
  · rintro ⟨⟨⟨h1, h3, h8, h9⟩, h5, h6, h7⟩, rfl, rfl, rfl, rfl, rfl, rfl, rfl, rfl, rfl, rfl, rfl, rfl⟩
    exact ⟨rfl, ⟨h1, rfl⟩, rfl, ⟨h3, rfl⟩, rfl, ⟨h5, rfl⟩, ⟨h6, rfl⟩, ⟨h7, rfl⟩, ⟨h8, rfl⟩,
      ⟨h9, rfl⟩, rfl, rfl⟩

theorem map_toBitVec_ofBitVec (bytes : List (BitVec 8)) :
    (bytes.map UInt8.ofBitVec).map UInt8.toBitVec = bytes := by
  rw [List.map_map]
  exact List.map_id'' (fun _ => rfl) bytes

/-- A written inventory is read. -/
theorem exists_restoreInventory (inv : Inventory) :
    ∃ inv', Inventory.deserialize inv.serialize = some inv' ∧ ∀ p : Player F D,
      restoreInventory (some (inv.serialize.map UInt8.ofBitVec)) p = p.setInventory inv' := by
  have hload : Inventory.deserialize inv.serialize =
      some (Inventory.readBody inv.serialize true 41 2) := rfl
  refine ⟨_, hload, fun p => ?_⟩
  change ((Inventory.deserialize
    ((inv.serialize.map UInt8.ofBitVec).map UInt8.toBitVec)).map p.setInventory).getD p = _
  rw [map_toBitVec_ofBitVec, hload]
  rfl

/-- The player that is installed with its own row. -/
theorem restore_row (s p : Player F D) :
    restore r (row s) p = restoreInventory (row s).inventoryBlob
      { s with
        username := p.username
        health := r.max0 s.health
        foodLevel := if 0 < s.foodLevel.toInt then BitVec.ofInt 32 (max 0 (min s.foodLevel.toInt 20))
          else p.foodLevel
        foodSaturation := if 0 < s.foodLevel.toInt then r.clamp20 s.foodSaturation
          else p.foodSaturation
        isOp := s.isOp || p.isOp
        inventory := p.inventory
        xpBar := p.xpBar
        xpLevel := p.xpLevel
        xpTotal := p.xpTotal } := by
  unfold restore
  change restoreInventory _ _ = _
  congr 1
  rw [show (row s).gamemode = gamemodeId s.gamemode from rfl, gamemodeFromId_id]
  change (if s.isOp then _ else _) = _
  by_cases hfood : 0 < s.foodLevel.toInt
  · rw [if_pos hfood, if_pos hfood, if_pos (show 0 < (row s).food.toInt from hfood)]
    cases s.isOp <;> rfl
  · rw [if_neg hfood, if_neg hfood, if_neg (show ¬ 0 < (row s).food.toInt from hfood)]
    cases s.isOp <;> rfl

/-- The food of a new player is 20, and other food stays within bounds. -/
theorem food_restored (food : BitVec 32) :
    (if 0 < food.toInt then BitVec.ofInt 32 (max 0 (min food.toInt 20)) else 20 : BitVec 32).toInt =
      if 0 < food.toInt then min food.toInt 20 else 20 := by
  split
  · next hpos =>
      rw [max_eq_right (le_min hpos.le (by decide)), BitVec.toInt_ofInt_eq_self]
      all_goals omega
  · rfl

/-- **A player who joins with the row of `p` is installed as what `p` comes back as.** -/
theorem sameProgress_handlePlay_iff {savedPlayerData : Uuid → Option (PlayerRow F D)}
    {p s : Player F D} (hsaved : savedPlayerData uuid = some (row p)) (username : String) :
    SameProgress (handlePlay r savedPlayerData uuid username) s ↔ Carried r p s := by
  unfold handlePlay
  rw [hsaved]
  change SameProgress (restore r (row p) (addPlayer r username)) s ↔ _
  rw [restore_row]
  obtain ⟨inv, hinv, hrestore⟩ := exists_restoreInventory (F := F) (D := D) p.inventory
  rw [show (row p).inventoryBlob = some (p.inventory.serialize.map UInt8.ofBitVec) from rfl,
    hrestore]
  have hfood := food_restored p.foodLevel
  constructor
  · intro h
    refine ⟨h.position, h.health, ?_, h.gamemode, (Bool.or_false _).symm.trans h.isOp,
      ⟨inv, hinv, h.inventory⟩, h.xp.symm⟩
    rw [← hfood, ← h.food]
    rfl
  · intro h
    obtain ⟨inv', hinv', hsame⟩ := h.inventory
    obtain rfl := Option.some.inj (hinv.symm.trans hinv')
    refine ⟨h.position, h.health, ?_, h.gamemode, (Bool.or_false _).trans h.isOp, hsame,
      h.xp.symm⟩
    exact BitVec.toInt_inj.1 (hfood.trans h.food.symm)

/-- **Who is installed as stored.** -/
theorem carried_self_iff {s : Player F D} : Carried r s s ↔ Restorable r s := by
  have hfood : (s.foodLevel.toInt = if 0 < s.foodLevel.toInt then min s.foodLevel.toInt 20 else 20) ↔
      0 < s.foodLevel.toInt ∧ s.foodLevel.toInt ≤ 20 := by
    split <;> omega
  constructor
  · intro h
    exact ⟨h.xp, h.health, hfood.1 h.food, h.inventory⟩
  · intro h
    exact ⟨rfl, h.health, hfood.2 h.food, rfl, rfl, h.inventory, h.xp⟩

/-- Numbers that fit. -/
def exactReals : Reals Int Int where
  toReals := PlayerRows.exactReals
  max0 := max 0
  clamp20 x := max 0 (min x 20)

end Apoptotic.Join
