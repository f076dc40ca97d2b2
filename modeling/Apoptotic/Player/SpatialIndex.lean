import Apoptotic.Lib.Floats
import Apoptotic.Lib.GridIndex
import Apoptotic.Lib.Reached

/-!
# The spatial index of the players

`add_player`, `remove_player`, `update_position` and `players_in_range` of
`mc-player/src/player.rs`, with the two movement handlers of `mc-network/src/play_loop.rs`.  Of a
player only the position is kept.  Cell coordinates are integers: a cell of a position is far from
the ends of `i32`.

Principal result: `along_spatialExact_iff` — the index is exact along a run exactly when no player
joins twice and every change of position but that of the position-and-rotation handler stays in
the player's cell.
-/

namespace Apoptotic

namespace PlayerManager

abbrev Uuid := BitVec 128

abbrev Cell := Int × Int

structure Position (F : Type) where
  x : F
  y : F
  z : F

end PlayerManager

open PlayerManager in
/-- `PlayerManager`: the players, and the ids of the players in each cell. -/
structure PlayerManager (F : Type) where
  players : AList fun _ : Uuid => Position F
  chunkPlayers : GridIndex.Buckets Cell Uuid

namespace PlayerManager

variable {F : Type} (fl : Floats F)

def new : PlayerManager F := ⟨∅, fun _ => []⟩

/-- `(x.floor() as i32).div_euclid(16)`, along both axes. -/
def cellOf (p : Position F) : Cell := (fl.cell p.x, fl.cell p.z)

/-- `Position::new(0.0, 64.0, 0.0)` -/
def spawn : Position F := ⟨fl.lit 0, fl.lit 64, fl.lit 0⟩

section

variable (m : PlayerManager F) (uuid : Uuid)

def addPlayer : PlayerManager F where
  players := m.players.insert uuid (spawn fl)
  chunkPlayers := GridIndex.push m.chunkPlayers (cellOf fl (spawn fl)) uuid

def removePlayer : PlayerManager F where
  players := m.players.erase uuid
  chunkPlayers :=
    match m.players.lookup uuid with
    | some p => GridIndex.drop m.chunkPlayers (cellOf fl p) uuid
    | none => m.chunkPlayers

/-- `update_position` and `update_position_full`. -/
def updatePosition (p : Position F) : PlayerManager F :=
  match m.players.lookup uuid with
  | some _ => { m with players := m.players.insert uuid p }
  | none => m

def updatePlayerChunk (old new : Cell) : PlayerManager F :=
  { m with chunkPlayers := GridIndex.push (GridIndex.drop m.chunkPlayers old uuid) new uuid }

/-- The handler of the position-and-rotation packet. -/
def positionAndRotation (p : Position F) : PlayerManager F :=
  let old := ((m.players.lookup uuid).map (cellOf fl)).getD (0, 0)
  let m := m.updatePosition uuid p
  if old ≠ cellOf fl p then m.updatePlayerChunk uuid old (cellOf fl p) else m

end

/-- What changes where a player is.  A restore, a teleport, a portal and the position packet all
    come down to `update_position`. -/
inductive Action (F : Type) where
  | addPlayer (uuid : Uuid)
  | removePlayer (uuid : Uuid)
  | updatePosition (uuid : Uuid) (p : Position F)
  | positionAndRotation (uuid : Uuid) (p : Position F)

def step (m : PlayerManager F) : Action F → PlayerManager F
  | .addPlayer uuid => m.addPlayer fl uuid
  | .removePlayer uuid => m.removePlayer fl uuid
  | .updatePosition uuid p => m.updatePosition uuid p
  | .positionAndRotation uuid p => m.positionAndRotation fl uuid p

/-! ## Range queries -/

section

variable (m : PlayerManager F) (x y z radius : F)

/-- A player's squared distance to the point. -/
def d2 (p : Position F) : F := fl.dist2 p.x p.y p.z x y z

/-- The distance test. -/
def inRange (p : Position F) : Bool := fl.le (d2 fl x y z p) (fl.mul radius radius)

/-- What a query reports of a player. -/
def reported (uuid : Uuid) (p : Position F) : Option (Uuid × F) :=
  if inRange fl x y z radius p then some (uuid, d2 fl x y z p) else none

def playersInRange : List (Uuid × F) :=
  ((GridIndex.around (fl.cell x, fl.cell z) (fl.cellRadius radius)).flatMap m.chunkPlayers).filterMap
    fun uuid => (m.players.lookup uuid).bind (reported fl x y z radius uuid)

def allPlayers : List (Uuid × Position F) := GridIndex.rows m.players

/-- The same test on all players. -/
def linearScan : List (Uuid × F) :=
  m.allPlayers.filterMap fun p => reported fl x y z radius p.1 p.2

/-- Rounding takes no player into range that is further away than the radius along an axis. -/
def RoundsInward : Prop :=
  ∀ uuid p, m.players.lookup uuid = some p → inRange fl x y z radius p = true →
    fl.Within p.x x radius ∧ fl.Within p.z z radius

end

/-- Without rounding, this is so for every radius that is not negative. -/
theorem roundsInward_exact (m : PlayerManager Rat) (x y z : Rat) {radius : Rat}
    (hr : 0 ≤ radius) : m.RoundsInward Floats.exact x y z radius :=
  fun _ _ _ hin => Floats.exact_within hr hin

/-! ## Exactness -/

/-- The buckets list each online player once, in the cell of its position. -/
def IndexExact (m : PlayerManager F) : Prop :=
  GridIndex.Exact m.chunkPlayers (GridIndex.place (cellOf fl) m.players)

/-- Each online uuid is listed once, in the cell of its position, and range queries find what a
    scan of all players finds. -/
structure SpatialExact (m : PlayerManager F) : Prop where
  index : m.IndexExact fl
  query : ∀ x y z radius, m.RoundsInward fl x y z radius →
    (m.playersInRange fl x y z radius).Perm (m.linearScan fl x y z radius)

/-- What keeps the index exact: a join of a player who is not online, a leave, a change of position
    within the cell, and any movement through the position-and-rotation handler. -/
def Kept (m : PlayerManager F) : Action F → Prop
  | .addPlayer uuid => m.players.lookup uuid = none
  | .removePlayer _ => True
  | .updatePosition uuid p => ∀ q, m.players.lookup uuid = some q → cellOf fl p = cellOf fl q
  | .positionAndRotation uuid p => m.players.lookup uuid = none → cellOf fl p = (0, 0)

section

variable {fl} {m : PlayerManager F} {uuid : Uuid} {p : Position F}

/-- **Range queries of an exact index.** -/
theorem playersInRange_perm (h : m.IndexExact fl) {x y z radius : F}
    (hround : m.RoundsInward fl x y z radius) :
    (m.playersInRange fl x y z radius).Perm (m.linearScan fl x y z radius) := by
  refine GridIndex.search_perm h (GridIndex.nodup_around _ _) _ fun u q r hq hr => ?_
  have hin : inRange fl x y z radius q = true := by
    by_contra hnot
    simp [reported, hnot] at hr
  obtain ⟨hx, hz⟩ := hround u q hq hin
  exact GridIndex.mem_around.2 ⟨Floats.cell_mem_around hx, Floats.cell_mem_around hz⟩

theorem spatialExact_iff : SpatialExact fl m ↔ m.IndexExact fl :=
  ⟨fun h => h.index, fun h => ⟨h, fun _ _ _ _ hround => playersInRange_perm h hround⟩⟩

/-! ## One action -/

theorem indexExact_removePlayer (h : m.IndexExact fl) : (m.removePlayer fl uuid).IndexExact fl := by
  unfold removePlayer IndexExact
  cases hq : m.players.lookup uuid with
  | some q => exact GridIndex.exact_erase h hq
  | none => exact GridIndex.exact_erase_of_none h hq

theorem indexExact_updatePosition_iff (h : m.IndexExact fl) :
    (m.updatePosition uuid p).IndexExact fl ↔
      ∀ q, m.players.lookup uuid = some q → cellOf fl p = cellOf fl q := by
  unfold updatePosition
  cases hq : m.players.lookup uuid with
  | none => simpa using h
  | some q =>
      simp only [Option.some.injEq, forall_eq']
      refine (GridIndex.exact_insert_iff h).trans ?_
      rw [GridIndex.place_eq_some hq, Option.some.injEq, eq_comm]

theorem indexExact_positionAndRotation_iff (h : m.IndexExact fl) :
    (m.positionAndRotation fl uuid p).IndexExact fl ↔
      (m.players.lookup uuid = none → cellOf fl p = (0, 0)) := by
  cases hq : m.players.lookup uuid with
  | none =>
      -- the handler of a player who is not online pushes a uuid that no row has
      have hpos : m.updatePosition uuid p = m := by simp [updatePosition, hq]
      simp only [positionAndRotation, hpos, hq, Option.map_none, Option.getD_none, forall_const]
      by_cases hcell : (0, 0) = cellOf fl p
      · simpa [hcell] using h
      · rw [if_pos hcell]
        refine iff_of_false (fun h' => ?_) fun e => hcell e.symm
        have hplace := (h'.mem_iff (cellOf fl p) uuid).1 (GridIndex.mem_push.2 (.inr ⟨rfl, rfl⟩))
        have hsome : GridIndex.place (cellOf fl) m.players uuid = some (cellOf fl p) := hplace
        rw [GridIndex.place_eq_none hq] at hsome
        cases hsome
  | some q =>
      have hpos : m.updatePosition uuid p = { m with players := m.players.insert uuid p } := by
        simp [updatePosition, hq]
      simp only [positionAndRotation, hpos, hq, Option.map_some, Option.getD_some, reduceCtorEq,
        IsEmpty.forall_iff, iff_true]
      by_cases hcell : cellOf fl q = cellOf fl p
      · rw [if_neg (by simpa using hcell)]
        exact (GridIndex.exact_insert_iff h).2 (by rw [GridIndex.place_eq_some hq, hcell])
      · rw [if_pos hcell]
        exact GridIndex.exact_move h hq

/-- **An action keeps the index exact exactly when it is of the kept kind.** -/
theorem indexExact_step_iff (h : m.IndexExact fl) (a : Action F) :
    (m.step fl a).IndexExact fl ↔ m.Kept fl a := by
  cases a with
  | addPlayer uuid => exact GridIndex.exact_insert_push_iff h
  | removePlayer uuid => exact iff_of_true (indexExact_removePlayer h) trivial
  | updatePosition uuid p => exact indexExact_updatePosition_iff h
  | positionAndRotation uuid p => exact indexExact_positionAndRotation_iff h

end

/-! ## Runs -/

theorem indexExact_new : (new : PlayerManager F).IndexExact fl := GridIndex.exact_empty

theorem spatialExact_step_iff {m : PlayerManager F} (hm : SpatialExact fl m) (a : Action F) :
    SpatialExact fl (m.step fl a) ↔ m.Kept fl a :=
  spatialExact_iff.trans (indexExact_step_iff hm.index a)

/-- **The index is exact along a run, and its queries with it, exactly when every action of the run
    is of the kept kind.** -/
theorem along_spatialExact_iff (actions : List (Action F)) :
    Along (step fl) (fun m a => SpatialExact fl (m.step fl a)) new actions ↔
      Along (step fl) (Kept fl) new actions :=
  along_iff (SpatialExact fl) (fun _ a hm => spatialExact_step_iff fl hm a)
    (fun _ a hm hkept => (spatialExact_step_iff fl hm a).2 hkept)
    (spatialExact_iff.2 (indexExact_new fl)) actions

/-- A join, and a position packet that leads into the next cell. -/
def walkEast : List (Action Rat) := [.addPlayer 1, .updatePosition 1 ⟨16, 64, 0⟩]

theorem not_spatialExact_walkEast :
    ¬ Along (step Floats.exact) (fun m a => SpatialExact Floats.exact (m.step Floats.exact a)) new
      walkEast := by
  intro h
  have hcell := (spatialExact_step_iff _ h.1 _).1 h.2.1 (spawn Floats.exact)
    (AList.lookup_insert _)
  exact absurd hcell (by decide +kernel)

end PlayerManager

end Apoptotic
