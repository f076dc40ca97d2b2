import Apoptotic.Command.Server
import Apoptotic.Lib.Reached
import Apoptotic.Lib.Rows

/-!
# The table of the players

`PlayerDatabase` of `mc-persistence/src/player_data.rs` and the calls of `SaveManager` of
`mc-persistence/src/save_manager.rs` that write to its table `players`, one row for each player.
Statements succeed.  The library binds a NaN as NULL.  Beside the table, `lastFull` keeps what the
last full save of each player was given, as long as its row is the one in the table; no call reads
it.

Principal result: `along_loadable_iff` — full saves are loaded back and other saves leave their
columns alone exactly along the runs whose full saves have no inventory and no NaN and whose other
saves are of players without one.
-/

namespace Apoptotic.PlayerRows

open Commands

abbrev Uuid := Commands.Uuid

inductive Column where
  | uuid | username | health | food | saturation | gamemode
  | posX | posY | posZ | yaw | pitch | isOp | inventory | lastLogin | firstLogin
  deriving DecidableEq

inductive Value (D : Type) where
  | null
  | integer (i : Int)
  | real (x : D)
  | text (s : String)
  | blob (b : List UInt8)

/-- `f32` and `f64` values: every `f32` fits into an `f64`. -/
structure Reals (F D : Type) where
  lit : Int → D
  litF32 : Int → F
  widen : F → D
  narrow : D → F
  isNan : D → Bool
  narrow_widen : ∀ x, isNan (widen x) = false → narrow (widen x) = x

structure PlayerRow (F D : Type) where
  username : String
  health : F
  food : BitVec 32
  saturation : F
  gamemode : BitVec 8
  posX : D
  posY : D
  posZ : D
  yaw : F
  pitch : F
  isOp : Bool
  inventoryBlob : Option (List UInt8)

variable {F D : Type} (r : Reals F D)

/-! ## Values -/

def bindF64 (x : D) : Value D := if r.isNan x then .null else .real x

def bindF32 (x : F) : Value D := bindF64 r (r.widen x)

namespace Value

variable {r}

def asF64 : Value D → Option D
  | integer i => some (r.lit i)
  | real x => some x
  | _ => none

def asF32 : Value D → Option F
  | integer i => some (r.litF32 i)
  | real x => some (r.narrow x)
  | _ => none

def asI32 : Value D → Option (BitVec 32)
  | integer i => if -2 ^ 31 ≤ i ∧ i < 2 ^ 31 then some (BitVec.ofInt 32 i) else none
  | _ => none

def asText : Value D → Option String
  | text s => some s
  | _ => none

def asBlob : Value D → Option (List UInt8)
  | blob b => some b
  | _ => none

end Value

/-! ## Statements -/

/-- `CREATE TABLE players`, with the time of the statement. -/
def defaults (now : String) : Column → Value D
  | .health => .real (r.lit 20)
  | .food => .integer 20
  | .saturation => .real (r.lit 5)
  | .gamemode => .integer 0
  | .posX => .real (r.lit 0)
  | .posY => .real (r.lit 64)
  | .posZ => .real (r.lit 0)
  | .yaw => .real (r.lit 0)
  | .pitch => .real (r.lit 0)
  | .isOp => .integer 0
  | .lastLogin => .text now
  | .firstLogin => .text now
  | .uuid | .username | .inventory => .null

abbrev Database (D : Type) := Rows.Table Uuid Column (Value D)

variable (db : Database D) (toText : Uuid → String) (now : String)

/-- What `save_player_full` lists. -/
def fullColumns (uuid : Uuid) (row : PlayerRow F D) : List (Column × Value D) :=
  [(.uuid, .text (toText uuid)), (.username, .text row.username), (.health, bindF32 r row.health),
    (.food, .integer row.food.toInt), (.saturation, bindF32 r row.saturation),
    (.gamemode, .integer row.gamemode.toNat), (.posX, bindF64 r row.posX),
    (.posY, bindF64 r row.posY), (.posZ, bindF64 r row.posZ), (.yaw, bindF32 r row.yaw),
    (.pitch, bindF32 r row.pitch), (.isOp, .integer (if row.isOp then 1 else 0)),
    (.inventory, .blob (row.inventoryBlob.getD [])), (.lastLogin, .text now)]

/-- `save_player_full`, of both types. -/
def savePlayerFull (uuid : Uuid) (row : PlayerRow F D) : Database D :=
  Rows.replace (defaults r now) db uuid (fullColumns r toText now uuid row)

/-- `SaveManager::save_player` -/
def savePlayer (uuid : Uuid) (username : String) : Database D :=
  Rows.replace (defaults r now) db uuid
    [(.uuid, .text (toText uuid)), (.username, .text username), (.lastLogin, .text now)]

/-- `save_player_from_manager`: placeholder data. -/
def savePlayerFromManager (uuid : Uuid) : Database D :=
  Rows.replace (defaults r now) db uuid
    [(.uuid, .text (toText uuid)), (.username, .text "(offline)"),
      (.health, bindF32 r (r.litF32 20)), (.food, .integer 20),
      (.saturation, bindF32 r (r.litF32 5)), (.gamemode, .integer 0),
      (.posX, bindF64 r (r.lit 0)), (.posY, bindF64 r (r.lit 64)), (.posZ, bindF64 r (r.lit 0)),
      (.yaw, bindF32 r (r.litF32 0)), (.pitch, bindF32 r (r.litF32 0)), (.isOp, .integer 0),
      (.lastLogin, .text now)]

/-- What `load_player` selects. -/
def selected : List Column :=
  [.username, .health, .food, .saturation, .gamemode, .posX, .posY, .posZ, .yaw, .pitch, .isOp]

def loadPlayer (uuid : Uuid) : Option (PlayerRow F D) := do
  let row ← Rows.select db uuid selected
  let username ← row[0]? >>= Value.asText
  let health ← row[1]? >>= Value.asF32 (r := r)
  let food ← row[2]? >>= Value.asI32
  let saturation ← row[3]? >>= Value.asF32 (r := r)
  let gamemode ← row[4]? >>= Value.asI32
  let posX ← row[5]? >>= Value.asF64 (r := r)
  let posY ← row[6]? >>= Value.asF64 (r := r)
  let posZ ← row[7]? >>= Value.asF64 (r := r)
  let yaw ← row[8]? >>= Value.asF32 (r := r)
  let pitch ← row[9]? >>= Value.asF32 (r := r)
  let isOp ← row[10]? >>= Value.asI32
  some
    { username, health, food, saturation, posX, posY, posZ, yaw, pitch
      gamemode := gamemode.setWidth 8
      isOp := isOp != 0
      inventoryBlob := row[11]? >>= Value.asBlob }

/-! ## Runs -/

inductive Action (F D : Type) where
  | savePlayerFull (uuid : Uuid) (row : PlayerRow F D)
  | savePlayer (uuid : Uuid) (username : String)
  | savePlayerFromManager (uuid : Uuid)

structure State (F D : Type) where
  db : Database D
  lastFull : Uuid → Option (PlayerRow F D)

def State.new : State F D := ⟨fun _ => none, fun _ => none⟩

/-- A call at a time `now a`. -/
def State.step (s : State F D) (call : String × Action F D) : State F D :=
  match call.2 with
  | .savePlayerFull uuid row =>
      ⟨savePlayerFull r s.db toText call.1 uuid row, Function.update s.lastFull uuid (some row)⟩
  | .savePlayer uuid username =>
      ⟨savePlayer r s.db toText call.1 uuid username, Function.update s.lastFull uuid none⟩
  | .savePlayerFromManager uuid =>
      ⟨savePlayerFromManager r s.db toText call.1 uuid, Function.update s.lastFull uuid none⟩

/-- The columns that only a full save is about. -/
def dataColumns : List Column :=
  [.health, .food, .saturation, .gamemode, .posX, .posY, .posZ, .yaw, .pitch, .isOp, .inventory]

/-- The same position, health, food, game mode, operator flag and inventory. -/
structure SameState (a b : PlayerRow F D) : Prop where
  position : (a.posX, a.posY, a.posZ) = (b.posX, b.posY, b.posZ)
  health : a.health = b.health
  food : a.food = b.food
  gamemode : a.gamemode = b.gamemode
  isOp : a.isOp = b.isOp
  inventory : a.inventoryBlob = b.inventoryBlob

/-- The data columns of a player with a full save stay. -/
def KeepsColumns (s s' : State F D) (uuid : Uuid) : Prop :=
  (s.lastFull uuid).isSome → ∀ old, s.db uuid = some old →
    ∃ new, s'.db uuid = some new ∧ ∀ c ∈ dataColumns, new c = old c

/-- What is asked of a call: a full save is loaded back, another save leaves the data of full saves
alone. -/
def Loadable (s : State F D) (call : String × Action F D) : Prop :=
  match call.2 with
  | .savePlayerFull uuid row =>
      ∃ loaded, loadPlayer r (s.step r toText call).db uuid = some loaded ∧ SameState loaded row
  | .savePlayer uuid _ => KeepsColumns s (s.step r toText call) uuid
  | .savePlayerFromManager uuid => KeepsColumns s (s.step r toText call) uuid

/-- No number of the row is a NaN. -/
def PlayerRow.Numbers (row : PlayerRow F D) : Prop :=
  (∀ x ∈ [row.health, row.saturation, row.yaw, row.pitch], r.isNan (r.widen x) = false) ∧
    ∀ x ∈ [row.posX, row.posY, row.posZ], r.isNan x = false

/-- A full save without an inventory, or another save of a player who has no full save. -/
def Harmless (s : State F D) (call : String × Action F D) : Prop :=
  match call.2 with
  | .savePlayerFull _ row => row.inventoryBlob = none ∧ row.Numbers r
  | .savePlayer uuid _ => s.lastFull uuid = none
  | .savePlayerFromManager uuid => s.lastFull uuid = none

/-! ## One call -/

theorem asF64_bindF64 {x y : D} :
    (bindF64 r x).asF64 (r := r) = some y ↔ r.isNan x = false ∧ y = x := by
  unfold bindF64
  cases r.isNan x with
  | true => exact iff_of_false nofun nofun
  | false =>
      rw [if_neg Bool.false_ne_true, and_iff_right rfl]
      exact Option.some_inj.trans eq_comm

theorem asF32_bindF32 {x y : F} :
    (bindF32 r x).asF32 (r := r) = some y ↔ r.isNan (r.widen x) = false ∧ y = x := by
  unfold bindF32 bindF64
  cases h : r.isNan (r.widen x) with
  | true => exact iff_of_false nofun nofun
  | false =>
      rw [if_neg Bool.false_ne_true, and_iff_right rfl]
      change some (r.narrow (r.widen x)) = some y ↔ _
      rw [r.narrow_widen x h, Option.some_inj, eq_comm]

theorem asI32_integer {i : Int} (h : -2 ^ 31 ≤ i ∧ i < 2 ^ 31) :
    (Value.integer i : Value D).asI32 = some (BitVec.ofInt 32 i) := if_pos h

theorem asI32_food (i : BitVec 32) : (Value.integer i.toInt : Value D).asI32 = some i := by
  rw [asI32_integer ⟨i.le_toInt, i.toInt_lt⟩, BitVec.ofInt_toInt]

theorem asI32_gamemode (g : BitVec 8) :
    (Value.integer g.toNat : Value D).asI32 = some (g.setWidth 32) := by
  have hlt := g.isLt
  rw [asI32_integer ⟨by omega, by omega⟩, BitVec.ofInt_natCast, BitVec.ofNat_toNat]

theorem asI32_isOp (b : Bool) :
    (Value.integer (if b then 1 else 0) : Value D).asI32 = some (if b then 1 else 0) := by
  cases b <;> rfl

variable {r} {s : State F D} {toText : Uuid → String} {now : String} {uuid : Uuid}
  {row : PlayerRow F D}

/-- The values that `load_player` sees after a full save. -/
theorem select_savePlayerFull (db : Database D) :
    Rows.select (savePlayerFull r db toText now uuid row) uuid selected =
      some [.text row.username, bindF32 r row.health, .integer row.food.toInt,
        bindF32 r row.saturation, .integer row.gamemode.toNat, bindF64 r row.posX,
        bindF64 r row.posY, bindF64 r row.posZ, bindF32 r row.yaw, bindF32 r row.pitch,
        .integer (if row.isOp then 1 else 0)] :=
  (Rows.select_replace selected).trans rfl

/-- A row whose values are read one after another; nothing is selected at index 11. -/
theorem loadPlayer_eq_some {db : Database D} {v0 v1 v2 v3 v4 v5 v6 v7 v8 v9 v10 : Value D}
    (hselect : Rows.select db uuid selected = some [v0, v1, v2, v3, v4, v5, v6, v7, v8, v9, v10])
    {loaded : PlayerRow F D} :
    loadPlayer r db uuid = some loaded ↔
      v0.asText = some loaded.username ∧ v1.asF32 (r := r) = some loaded.health ∧
        v2.asI32 = some loaded.food ∧ v3.asF32 (r := r) = some loaded.saturation ∧
        (∃ g, v4.asI32 = some g ∧ g.setWidth 8 = loaded.gamemode) ∧
        v5.asF64 (r := r) = some loaded.posX ∧ v6.asF64 (r := r) = some loaded.posY ∧
        v7.asF64 (r := r) = some loaded.posZ ∧ v8.asF32 (r := r) = some loaded.yaw ∧
        v9.asF32 (r := r) = some loaded.pitch ∧
        (∃ o, v10.asI32 = some o ∧ (o != 0) = loaded.isOp) ∧ loaded.inventoryBlob = none := by
  unfold loadPlayer
  rw [hselect]
  obtain ⟨username, health, food, saturation, gamemode, posX, posY, posZ, yaw, pitch, isOp,
    blob⟩ := loaded
  change (v0.asText.bind fun username => (v1.asF32 (r := r)).bind fun health =>
    v2.asI32.bind fun food => (v3.asF32 (r := r)).bind fun saturation =>
    v4.asI32.bind fun gamemode => (v5.asF64 (r := r)).bind fun posX =>
    (v6.asF64 (r := r)).bind fun posY => (v7.asF64 (r := r)).bind fun posZ =>
    (v8.asF32 (r := r)).bind fun yaw => (v9.asF32 (r := r)).bind fun pitch =>
    v10.asI32.bind fun isOp => some (PlayerRow.mk username health food saturation
      (gamemode.setWidth 8) posX posY posZ yaw pitch (isOp != 0) none)) = some _ ↔ _
  simp only [Option.bind_eq_some_iff, Option.some.injEq, PlayerRow.mk.injEq]
  constructor
  · rintro ⟨_, h0, _, h1, _, h2, _, h3, g, h4, _, h5, _, h6, _, h7, _, h8, _, h9, o, h10,
      rfl, rfl, rfl, rfl, hg, rfl, rfl, rfl, rfl, rfl, ho, rfl⟩
    exact ⟨h0, h1, h2, h3, ⟨g, h4, hg⟩, h5, h6, h7, h8, h9, ⟨o, h10, ho⟩, rfl⟩
  · rintro ⟨h0, h1, h2, h3, ⟨g, h4, hg⟩, h5, h6, h7, h8, h9, ⟨o, h10, ho⟩, rfl⟩
    exact ⟨_, h0, _, h1, _, h2, _, h3, g, h4, _, h5, _, h6, _, h7, _, h8, _, h9, o, h10,
      rfl, rfl, rfl, rfl, hg, rfl, rfl, rfl, rfl, rfl, ho, rfl⟩

/-- What comes back after a full save: the row without its inventory, if its numbers are. -/
theorem loadPlayer_savePlayerFull (db : Database D) (loaded : PlayerRow F D) :
    loadPlayer r (savePlayerFull r db toText now uuid row) uuid = some loaded ↔
      row.Numbers r ∧ loaded = { row with inventoryBlob := none } := by
  rw [loadPlayer_eq_some (select_savePlayerFull db)]
  obtain ⟨username, health, food, saturation, gamemode, posX, posY, posZ, yaw, pitch, isOp,
    blob⟩ := loaded
  have hgamemode : (row.gamemode.setWidth 32).setWidth 8 = row.gamemode := by
    rw [BitVec.setWidth_setWidth_of_le _ (by decide), BitVec.setWidth_eq]
  have hisOp : ((if row.isOp then 1 else 0 : BitVec 32) != 0) = row.isOp := by
    cases row.isOp <;> rfl
  simp only [asF32_bindF32, asF64_bindF64, asI32_food, asI32_gamemode, asI32_isOp, Value.asText,
    PlayerRow.Numbers, PlayerRow.mk.injEq, Option.some.injEq, exists_eq_left', hgamemode, hisOp,
    List.mem_cons, List.not_mem_nil, or_false, forall_eq_or_imp, forall_eq]
  constructor
  · rintro ⟨rfl, ⟨h1, rfl⟩, rfl, ⟨h3, rfl⟩, rfl, ⟨h5, rfl⟩, ⟨h6, rfl⟩, ⟨h7, rfl⟩, ⟨h8, rfl⟩,
      ⟨h9, rfl⟩, rfl, rfl⟩
    exact ⟨⟨⟨h1, h3, h8, h9⟩, h5, h6, h7⟩, rfl, rfl, rfl, rfl, rfl, rfl, rfl, rfl, rfl, rfl, rfl, rfl⟩
  · rintro ⟨⟨⟨h1, h3, h8, h9⟩, h5, h6, h7⟩, rfl, rfl, rfl, rfl, rfl, rfl, rfl, rfl, rfl, rfl, rfl, rfl⟩
    exact ⟨rfl, ⟨h1, rfl⟩, rfl, ⟨h3, rfl⟩, rfl, ⟨h5, rfl⟩, ⟨h6, rfl⟩, ⟨h7, rfl⟩, ⟨h8, rfl⟩,
      ⟨h9, rfl⟩, rfl, rfl⟩

/-! ## Runs -/

/-- The rows of players with a full save hold an inventory, if only an empty one. -/
def HasInventories (s : State F D) : Prop :=
  ∀ uuid, (s.lastFull uuid).isSome →
    ∃ old b, s.db uuid = some old ∧ old .inventory = .blob b

theorem hasInventories_new : HasInventories (State.new : State F D) := by
  intro uuid h
  cases h

/-- A save that lists no inventory erases that of a full save. -/
theorem keepsColumns_iff (hs : HasInventories s) {s' : State F D} {new : Column → Value D}
    (hnew : s'.db uuid = some new) (hinventory : new .inventory = .null) :
    KeepsColumns s s' uuid ↔ s.lastFull uuid = none := by
  constructor
  · intro hkeeps
    by_contra hfull
    have hsome : (s.lastFull uuid).isSome := Option.isSome_iff_ne_none.2 hfull
    obtain ⟨old, b, hold, hb⟩ := hs uuid hsome
    obtain ⟨new', hnew', hcols⟩ := hkeeps hsome old hold
    rw [hnew] at hnew'
    obtain rfl := Option.some.inj hnew'
    have hsame := hcols .inventory (by decide)
    rw [hinventory, hb] at hsame
    cases hsame
  · intro hnone hsome
    rw [hnone] at hsome
    cases hsome

/-- One call. -/
theorem loadable_iff_harmless (hs : HasInventories s) (call : String × Action F D) :
    Loadable r toText s call ↔ Harmless r s call := by
  obtain ⟨now, a⟩ := call
  cases a with
  | savePlayerFull uuid row =>
      change (∃ loaded, loadPlayer r (savePlayerFull r s.db toText now uuid row) uuid = some loaded ∧
        SameState loaded row) ↔ row.inventoryBlob = none ∧ row.Numbers r
      constructor
      · rintro ⟨loaded, hload, hsame⟩
        obtain ⟨hnumbers, rfl⟩ := (loadPlayer_savePlayerFull s.db loaded).1 hload
        exact ⟨hsame.inventory.symm, hnumbers⟩
      · rintro ⟨hnone, hnumbers⟩
        refine ⟨_, (loadPlayer_savePlayerFull s.db _).2 ⟨hnumbers, rfl⟩, ?_⟩
        exact ⟨rfl, rfl, rfl, rfl, rfl, hnone.symm⟩
  | savePlayer uuid username => exact keepsColumns_iff hs Rows.replace_self (Rows.newRow_unlisted rfl)
  | savePlayerFromManager uuid => exact keepsColumns_iff hs Rows.replace_self (Rows.newRow_unlisted rfl)

theorem hasInventories_step (hs : HasInventories s) (call : String × Action F D) :
    HasInventories (s.step r toText call) := by
  obtain ⟨now, a⟩ := call
  -- a save of one player: its row after it, if it counts as a full save
  have hother : ∀ (u : Uuid) (listed : List (Column × Value D)) (full : Option (PlayerRow F D)),
      (full.isSome → ∃ b, Rows.newRow (defaults r now) listed .inventory = .blob b) →
      HasInventories (⟨Rows.replace (defaults r now) s.db u listed,
        Function.update s.lastFull u full⟩ : State F D) := by
    intro u listed full hfull v hv
    dsimp only at hv ⊢
    by_cases h : v = u
    · subst h
      rw [Function.update_self] at hv
      obtain ⟨b, hb⟩ := hfull hv
      exact ⟨_, b, Rows.replace_self, hb⟩
    · rw [Function.update_of_ne h] at hv
      rw [Rows.replace_of_ne h]
      exact hs v hv
  cases a with
  | savePlayerFull uuid row => exact hother uuid _ _ fun _ => ⟨_, Rows.newRow_listed rfl⟩
  | savePlayer uuid username => exact hother uuid _ none nofun
  | savePlayerFromManager uuid => exact hother uuid _ none nofun

/-- **Full saves are loaded back and other saves leave their columns alone exactly along the runs
whose full saves have no inventory and no NaN, and whose other saves are of players without a full
save.** -/
theorem along_loadable_iff (r : Reals F D) (toText : Uuid → String)
    (calls : List (String × Action F D)) :
    Along (State.step r toText) (Loadable r toText) State.new calls ↔
      Along (State.step r toText) (Harmless r) State.new calls :=
  along_iff HasInventories (fun _ call hs => loadable_iff_harmless hs call)
    (fun _ call hs _ => hasInventories_step hs call) hasInventories_new calls

/-- Numbers that fit. -/
def exactReals : Reals Int Int where
  lit := id
  litF32 := id
  widen := id
  narrow := id
  isNan _ := false
  narrow_widen _ _ := rfl

/-- A player as `main.rs` saves it, with an inventory. -/
def steve : PlayerRow Int Int :=
  ⟨"Steve", 20, 20, 5, 0, 0, 64, 0, 0, 0, false, some [2, 41]⟩

theorem not_forall_along_loadable :
    ¬ ∀ calls : List (String × Action Int Int),
      Along (State.step exactReals fun _ => "") (Loadable exactReals fun _ => "") State.new calls := by
  intro h
  have hkeeps := (h [("", .savePlayerFull 0 steve)]).1
  cases ((loadable_iff_harmless hasInventories_new _).1 hkeeps).1

end Apoptotic.PlayerRows
