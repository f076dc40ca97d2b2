import Apoptotic.Player.Containers
import Apoptotic.World.Chunk

/-!
# Three ways to save

The autosave, the save that `/save-all` triggers and the save at shutdown of `mc-server/src/main.rs`,
with `SaveManager` of `mc-persistence`, and what a restart reads.  Writes succeed.  The formats of
chunk files, inventories and `containers.bin` are those of their own modules, here `Formats`;
`level.dat` is kept as what it says.  `save_world` also writes the dirty chunks of `World::chunks`,
a store of its own that nothing is ever put into.

Principal result: `persisted_iff` — the three saves leave the same to a restart, none omits what the
autosave writes and every started job runs, exactly when no chunk is dirty and what only the autosave
writes is on disk already.
-/

namespace Apoptotic.Persistence

open Commands hiding Player Server
open Containers (BlockPos)

abbrev Uuid := Commands.Uuid

abbrev Persistent := AList fun _ : BlockPos => List (Option ItemStack)

/-- How things are written to files and read from them. -/
structure Formats (C : Type) where
  /-- The file of `save_chunk_linear`. -/
  chunkFile : C → ByteArray
  /-- The chunk at a position, with its file or without: read, or generated. -/
  loadChunk : ChunkPos → Option ByteArray → C
  serialize : Inventory → ByteArray
  serializeAll : Persistent → ByteArray
  deserializeAll : ByteArray → Persistent

/-! ## The server and the disk -/

/-- What is saved of a player. -/
structure Player where
  username : String
  health : Float32
  foodLevel : Int
  foodSaturation : Float32
  gamemode : GameMode
  position : Position
  isOp : Bool
  inventory : Inventory

/-- The fields of `World` that `level.dat` has. -/
structure Level where
  levelName : String
  seed : BitVec 64
  time : BitVec 64
  spawnPosition : BlockPos

structure Server (C : Type) where
  /-- The loaded chunks, and which of them are dirty. -/
  chunks : AList fun _ : ChunkPos => C × Bool
  players : AList fun _ : Uuid => Player
  banned : List Uuid
  whitelist : List Uuid
  persistent : Persistent
  world : Level

/-- A row of the table `players`. -/
structure PlayerRow where
  username : String
  health : Float32
  food : Int
  saturation : Float32
  gamemode : GameMode
  pos : Position
  isOp : Bool
  inventoryBlob : ByteArray

structure Disk where
  /-- The files `c.<x>.<z>.linear`. -/
  region : ChunkPos → Option ByteArray
  players : Uuid → Option PlayerRow
  ops : Uuid → Option Int
  bans : Uuid → Bool
  whitelist : Uuid → Bool
  containersBin : Option ByteArray
  levelDat : Option Level

/-- The disk after a save, and the jobs that it started but never polled. -/
structure Saved where
  disk : Disk
  dropped : List (Disk → Disk)

variable {C : Type} (fmt : Formats C) (d : Disk) (s : Server C)

/-! ## Writing -/

def Server.dirtyChunks : List (ChunkPos × C) :=
  (s.chunks.entries.filter fun e => e.2.2).map fun e => (e.1, e.2.1)

def saveChunkLinear (pos : ChunkPos) (chunk : C) : Disk :=
  { d with region := Function.update d.region pos (some (fmt.chunkFile chunk)) }

def saveDirtyChunksLinear (dirty : List (ChunkPos × C)) : Disk :=
  dirty.foldl (fun d e => saveChunkLinear fmt d e.1 e.2) d

def row (p : Player) : PlayerRow where
  username := p.username
  health := p.health
  food := p.foodLevel
  saturation := p.foodSaturation
  gamemode := p.gamemode
  pos := p.position
  isOp := p.isOp
  inventoryBlob := fmt.serialize p.inventory

/-- `INSERT OR REPLACE INTO players` -/
def savePlayerFull (uuid : Uuid) (p : Player) : Disk :=
  { d with players := Function.update d.players uuid (some (row fmt p)) }

def persistOp (uuid : Uuid) (isOp : Bool) : Disk :=
  { d with ops := Function.update d.ops uuid (if isOp then some 1 else none) }

def persistBans (banned : List Uuid) : Disk := { d with bans := banned.contains }

def persistWhitelist (entries : List Uuid) : Disk := { d with whitelist := entries.contains }

def writeContainers (persistent : Persistent) : Disk :=
  { d with containersBin := some (fmt.serializeAll persistent) }

def saveWorld (world : Level) : Disk := { d with levelDat := some world }

/-- The players' rows. -/
def savePlayers : Disk :=
  s.players.entries.foldl (fun d e => savePlayerFull fmt d e.1 e.2) d

/-- The players' rows, each followed by the operator status. -/
def savePlayersAndOps : Disk :=
  s.players.entries.foldl (fun d e => persistOp (savePlayerFull fmt d e.1 e.2) e.1 e.2.isOp) d

/-! ## The three saves -/

/-- `spawn_blocking_io` is an `async fn`, so nothing of the job runs before its future is polled. -/
def spawnBlockingIo (job : Disk → Disk) : List (Disk → Disk) := [job]

/-- The future of the chunk job is dropped at the end of its block. -/
def autosave : Saved where
  disk :=
    let d := savePlayersAndOps fmt d s
    let d := writeContainers fmt d s.persistent
    let d := persistBans d s.banned
    let d := persistWhitelist d s.whitelist
    saveWorld d s.world
  dropped :=
    if s.dirtyChunks.isEmpty then []
    else spawnBlockingIo fun d => saveDirtyChunksLinear fmt d s.dirtyChunks

def saveAll : Saved where
  disk :=
    let d := if s.dirtyChunks.isEmpty then d else saveDirtyChunksLinear fmt d s.dirtyChunks
    let d := savePlayers fmt d s
    let d := persistBans d s.banned
    persistWhitelist d s.whitelist
  dropped := []

def shutdown : Saved where
  disk :=
    let d := if s.dirtyChunks.isEmpty then d else saveDirtyChunksLinear fmt d s.dirtyChunks
    let d := savePlayersAndOps fmt d s
    let d := persistBans d s.banned
    let d := persistWhitelist d s.whitelist
    saveWorld d s.world
  dropped := []

/-! ## A restart -/

/-- What a server has after it was started again. -/
structure Restored (C : Type) where
  chunks : ChunkPos → C
  /-- `load_all_player_data`, with the operator status. -/
  players : Uuid → Option PlayerRow
  banned : Uuid → Bool
  whitelist : Uuid → Bool
  persistent : Persistent

/-- The table `ops` and `level.dat` are not read. -/
def restart : Restored C where
  chunks pos := fmt.loadChunk pos (d.region pos)
  players := d.players
  banned := d.bans
  whitelist := d.whitelist
  persistent := (d.containersBin.map fmt.deserializeAll).getD ∅

/-- The tables and files that an autosave writes. -/
structure Autosaved where
  players : Uuid → Option PlayerRow
  ops : Uuid → Option Int
  bans : Uuid → Bool
  whitelist : Uuid → Bool
  containersBin : Option ByteArray
  levelDat : Option Level

def Disk.autosaved : Autosaved :=
  ⟨d.players, d.ops, d.bans, d.whitelist, d.containersBin, d.levelDat⟩

/-- The three saves persist the same state. -/
structure Persisted : Prop where
  restart_saveAll : restart fmt (saveAll fmt d s).disk = restart fmt (autosave fmt d s).disk
  restart_shutdown : restart fmt (shutdown fmt d s).disk = restart fmt (autosave fmt d s).disk
  saveAll_omits : (saveAll fmt d s).disk.autosaved = (autosave fmt d s).disk.autosaved
  shutdown_omits : (shutdown fmt d s).disk.autosaved = (autosave fmt d s).disk.autosaved
  runs : (autosave fmt d s).dropped = [] ∧ (saveAll fmt d s).dropped = [] ∧
    (shutdown fmt d s).dropped = []

/-- The row of the table `ops`, if any. -/
def opValue (p : Player) : Option Int := if p.isOp then some 1 else none

/-- No chunk is dirty, and the container contents, the operators and the world data are on disk as
    an autosave would write them. -/
structure Current : Prop where
  chunks : s.dirtyChunks = []
  containers : d.containersBin = some (fmt.serializeAll s.persistent)
  ops : ∀ uuid p, s.players.lookup uuid = some p → d.ops uuid = opValue p
  level : d.levelDat = some s.world

/-! ## What the loops over the players write -/

abbrev Entries := List (Sigma fun _ : Uuid => Player)

/-- The table `players` after the loop. -/
def playersTable (fmt : Formats C) (players : Entries) (t : Uuid → Option PlayerRow) :
    Uuid → Option PlayerRow :=
  players.foldl (fun t e => Function.update t e.1 (some (row fmt e.2))) t

/-- The table `ops` after the loop. -/
def opsTable (players : Entries) (t : Uuid → Option Int) : Uuid → Option Int :=
  players.foldl (fun t e => Function.update t e.1 (opValue e.2)) t

section

variable {fmt} {s} {d}

theorem foldl_savePlayerFull (players : Entries) :
    players.foldl (fun d e => savePlayerFull fmt d e.1 e.2) d =
      { d with players := playersTable fmt players d.players } := by
  induction players generalizing d with
  | nil => rfl
  | cons e players ih =>
      rw [List.foldl_cons, ih]
      rfl

/-- Rows and operators are different tables. -/
theorem foldl_savePlayersAndOps (players : Entries) :
    players.foldl (fun d e => persistOp (savePlayerFull fmt d e.1 e.2) e.1 e.2.isOp) d =
      { d with
        players := playersTable fmt players d.players
        ops := opsTable players d.ops } := by
  induction players generalizing d with
  | nil => rfl
  | cons e players ih =>
      rw [List.foldl_cons, ih]
      rfl

theorem autosaved_saveDirtyChunksLinear (dirty : List (ChunkPos × C)) :
    (saveDirtyChunksLinear fmt d dirty).autosaved = d.autosaved := by
  unfold saveDirtyChunksLinear
  induction dirty generalizing d with
  | nil => rfl
  | cons e dirty ih =>
      rw [List.foldl_cons, ih]
      rfl

theorem opsTable_apply {players : Entries} (h : players.NodupKeys) (t : Uuid → Option Int)
    (uuid : Uuid) : opsTable players t uuid =
      match players.dlookup uuid with
      | some p => opValue p
      | none => t uuid := by
  induction players generalizing t with
  | nil => rfl
  | cons e players ih =>
      obtain ⟨key, p⟩ := e
      obtain ⟨hkey, hrest⟩ := List.nodupKeys_cons.1 h
      have hstep : opsTable (⟨key, p⟩ :: players) t =
        opsTable players (Function.update t key (opValue p)) := rfl
      rw [hstep, ih hrest]
      by_cases hu : uuid = key
      · subst hu
        rw [List.dlookup_cons_eq, List.dlookup_eq_none.2 hkey]
        exact Function.update_self _ _ _
      · rw [List.dlookup_cons_ne _ _ hu]
        split
        · rfl
        · exact Function.update_of_ne hu _ _

/-- The loop changes nothing exactly when every operator status is there. -/
theorem opsTable_eq_iff : opsTable s.players.entries d.ops = d.ops ↔
    ∀ uuid p, s.players.lookup uuid = some p → d.ops uuid = opValue p := by
  rw [funext_iff]
  refine forall_congr' fun uuid => ?_
  rw [opsTable_apply s.players.nodupKeys]
  have hlookup : s.players.entries.dlookup uuid = s.players.lookup uuid := rfl
  rw [hlookup]
  cases s.players.lookup uuid with
  | none => exact iff_of_true rfl fun p h => by cases h
  | some p =>
      simp only [Option.some.injEq, forall_eq']
      exact eq_comm

/-- Without dirty chunks no save touches the chunk files, and all three write the same when the disk
    is current. -/
theorem persisted_of_current (h : Current fmt d s) : Persisted fmt d s := by
  have hops := opsTable_eq_iff.2 h.ops
  have hempty : s.dirtyChunks.isEmpty = true := by rw [h.chunks]; rfl
  have hautosave : (autosave fmt d s).disk = { d with
      players := playersTable fmt s.players.entries d.players
      bans := s.banned.contains
      whitelist := s.whitelist.contains } := by
    simp only [autosave, savePlayersAndOps, foldl_savePlayersAndOps, writeContainers, persistBans,
      persistWhitelist, saveWorld, hops, ← h.containers, ← h.level]
  have hsaveAll : (saveAll fmt d s).disk = (autosave fmt d s).disk := by
    rw [hautosave]
    simp only [saveAll, hempty, if_true, savePlayers, foldl_savePlayerFull, persistBans,
      persistWhitelist]
  have hshutdown : (shutdown fmt d s).disk = (autosave fmt d s).disk := by
    rw [hautosave]
    simp only [shutdown, hempty, if_true, savePlayersAndOps, foldl_savePlayersAndOps, persistBans,
      persistWhitelist, saveWorld, hops, ← h.level]
  have hdropped : (autosave fmt d s).dropped = [] := by
    rw [autosave, if_pos hempty]
  exact ⟨by rw [hsaveAll], by rw [hshutdown], by rw [hsaveAll], by rw [hshutdown],
    hdropped, rfl, rfl⟩

/-- What only the autosave writes has to be there already. -/
theorem current_of_persisted (h : Persisted fmt d s) : Current fmt d s := by
  have hchunks : (if s.dirtyChunks.isEmpty then d
      else saveDirtyChunksLinear fmt d s.dirtyChunks).autosaved = d.autosaved := by
    split
    · rfl
    · exact autosaved_saveDirtyChunksLinear s.dirtyChunks
  have hsaveAll : (saveAll fmt d s).disk.containersBin = d.containersBin ∧
      (saveAll fmt d s).disk.ops = d.ops ∧ (saveAll fmt d s).disk.levelDat = d.levelDat := by
    simp only [saveAll, savePlayers, foldl_savePlayerFull, persistBans, persistWhitelist]
    exact ⟨congrArg Autosaved.containersBin hchunks, congrArg Autosaved.ops hchunks,
      congrArg Autosaved.levelDat hchunks⟩
  have hautosave : (autosave fmt d s).disk.ops = opsTable s.players.entries d.ops := by
    simp only [autosave, savePlayersAndOps, foldl_savePlayersAndOps, writeContainers, persistBans,
      persistWhitelist, saveWorld]
  refine ⟨?_, ?_, ?_, ?_⟩
  · by_contra hdirty
    have hruns := h.runs.1
    rw [autosave, if_neg fun hempty => hdirty (List.isEmpty_iff.1 hempty)] at hruns
    cases hruns
  · exact hsaveAll.1.symm.trans (congrArg Autosaved.containersBin h.saveAll_omits)
  · refine opsTable_eq_iff.1 ?_
    exact hautosave.symm.trans
      ((congrArg Autosaved.ops h.saveAll_omits).symm.trans hsaveAll.2.1)
  · exact hsaveAll.2.2.symm.trans (congrArg Autosaved.levelDat h.saveAll_omits)

end

/-- **The three saves persist the same state exactly when no chunk is dirty and the disk is
    current.** -/
theorem persisted_iff {C : Type} (fmt : Formats C) (d : Disk) (s : Server C) :
    Persisted fmt d s ↔ Current fmt d s :=
  ⟨current_of_persisted, persisted_of_current⟩

/-- A fresh disk. -/
def emptyDisk : Disk where
  region _ := none
  players _ := none
  ops _ := none
  bans _ := false
  whitelist _ := false
  containersBin := none
  levelDat := none

/-- A server with five items in a container, and nothing else to save. -/
def oneContainer (C : Type) : Server C where
  chunks := ∅
  players := ∅
  banned := []
  whitelist := []
  persistent := AList.singleton ⟨0, 64, 0⟩ [some (ItemStack.new ⟨2, 0⟩ 5)]
  world := ⟨"world", 0, 0, ⟨0, 64, 0⟩⟩

/-- Only the autosave writes the container, in whatever format. -/
theorem not_exists_persisted : ¬∃ (C : Type) (fmt : Formats C), ∀ d s, Persisted fmt d s := by
  rintro ⟨C, fmt, h⟩
  have hbin := congrArg Autosaved.containersBin (h emptyDisk (oneContainer C)).shutdown_omits
  have hshutdown : (shutdown fmt emptyDisk (oneContainer C)).disk.containersBin = none := rfl
  have hautosave : (autosave fmt emptyDisk (oneContainer C)).disk.containersBin =
    some (fmt.serializeAll (oneContainer C).persistent) := rfl
  cases hshutdown.symm.trans (hbin.trans hautosave)

end Apoptotic.Persistence
