import Apoptotic.Lib.Floats
import Apoptotic.Lib.GridIndex
import Apoptotic.Lib.Reached

/-!
# The chunk index of the mobs

`MobManager` of `mc-player/src/mob.rs`: the mobs under their entity ids, the ids listed under each
chunk, the methods that create, move and remove mobs and the queries that go through the index.
What the random generator and the AI come up with are arguments.  Of a mob only what these methods
read is kept.

Principal result: `along_chunksExact_iff` — the index is exact along a run exactly when ids are
fresh, mobs move within their chunk only and no slime splits into an unlisted mob.
-/

namespace Apoptotic

namespace MobManager

abbrev EntityId := Int

abbrev Chunk := Int × Int

structure TrackedMob (F : Type) where
  mobType : Int
  x : F
  y : F
  z : F
  health : F
  maxHealth : F

end MobManager

open MobManager in
structure MobManager (F : Type) where
  mobs : AList fun _ : EntityId => TrackedMob F
  chunkMobs : GridIndex.Buckets Chunk EntityId

namespace MobManager

variable {F : Type} (fl : Floats F)

def new : MobManager F := ⟨∅, fun _ => []⟩

/-- The chunk of a mob's position. -/
def chunkOf (mob : TrackedMob F) : Chunk := (fl.cell mob.x, fl.cell mob.z)

/-- `is_hostile` -/
def isHostile (mobType : Int) : Bool :=
  [14, 16, 17, 22, 32, 38, 40, 41, 42, 43, 46, 57, 63, 64, 67, 68, 80, 97, 99, 101, 102, 109, 112,
    114, 115, 117, 124, 128, 139, 141, 143, 145, 146, 147, 150, 151, 154, 155].contains mobType

/-! ## Methods -/

section

variable (m : MobManager F) (eid : EntityId)

/-- `insert_mob`, `register`, and the insertion of `sulfur_cube_spawn_small`. -/
def insertMob (mob : TrackedMob F) : MobManager F where
  mobs := m.mobs.insert eid mob
  chunkMobs := GridIndex.push m.chunkMobs (chunkOf fl mob) eid

/-- What `sulfur_cube_spawn_small` makes of the parent and its two offsets. -/
def smallCube (parent : TrackedMob F) (dx dz : F) : TrackedMob F where
  mobType := 130
  x := fl.add parent.x dx
  y := parent.y
  z := fl.add parent.z dz
  health := fl.lit 4
  maxHealth := fl.lit 4

def sulfurCubeSpawnSmall (parent : TrackedMob F) (dx dz : F) : MobManager F :=
  m.insertMob fl eid (smallCube fl parent dx dz)

/-- `mob.mob_type == 34 && mob.max_health > 2.0` -/
def splits (mob : TrackedMob F) : Bool := mob.mobType == 34 && fl.lt (fl.lit 2) mob.maxHealth

/-- A baby, by the offsets that were drawn for it. -/
def baby (mob : TrackedMob F) (dx dz : F) : TrackedMob F :=
  { mob with
    health := fl.mul mob.maxHealth (fl.lit (1 / 2))
    maxHealth := fl.mul mob.maxHealth (fl.lit (1 / 2))
    x := fl.add mob.x dx
    z := fl.add mob.z dz }

/-- The babies of a slime, each with the id and the offsets drawn for it. -/
def babies (rolls : List (EntityId × F × F)) : List (EntityId × TrackedMob F) :=
  match m.mobs.lookup eid with
  | some mob => if splits fl mob then rolls.map fun r => (r.1, baby fl mob r.2.1 r.2.2) else []
  | none => []

/-- The babies are put into `mobs` only. -/
def splitSlime (rolls : List (EntityId × F × F)) : MobManager F :=
  { m with mobs := (m.babies fl eid rolls).foldl (fun t r => t.insert r.1 r.2) m.mobs }

/-- `dx < 0.01 && dy < 0.01 && dz < 0.01` -/
def unmoved (mob : TrackedMob F) (x y z : F) : Bool :=
  fl.lt (fl.abs (fl.sub mob.x x)) (fl.lit (1 / 100)) &&
    fl.lt (fl.abs (fl.sub mob.y y)) (fl.lit (1 / 100)) &&
    fl.lt (fl.abs (fl.sub mob.z z)) (fl.lit (1 / 100))

def sendPosition (x y z : F) : MobManager F :=
  match m.mobs.lookup eid with
  | some mob =>
      if unmoved fl mob x y z then m
      else { m with mobs := m.mobs.insert eid { mob with x := x, y := y, z := z } }
  | none => m

/-- A write through `get_mut`: `damage`, the other setters, and what `tick_ai` makes of a mob. -/
def write (f : TrackedMob F → TrackedMob F) : MobManager F :=
  match m.mobs.lookup eid with
  | some mob => { m with mobs := m.mobs.insert eid (f mob) }
  | none => m

/-- The chunk is the one of the position at the time of the removal. -/
def remove : MobManager F :=
  match m.mobs.lookup eid with
  | some mob =>
      { mobs := m.mobs.erase eid
        chunkMobs := GridIndex.drop m.chunkMobs (chunkOf fl mob) eid }
  | none => m

def allMobs : List (EntityId × TrackedMob F) := GridIndex.rows m.mobs

/-- The mobs with `health <= 0.0`. -/
def dead : List EntityId :=
  (m.allMobs.filter fun r => fl.le r.2.health (fl.lit 0)).map Prod.fst

def removeDead : MobManager F := (m.dead fl).foldl (remove fl) m

end

inductive Action (F : Type) where
  /-- `insert_mob` and `register`. -/
  | insertMob (eid : EntityId) (mob : TrackedMob F)
  | sulfurCubeSpawnSmall (eid : EntityId) (parent : TrackedMob F) (dx dz : F)
  | splitSlime (eid : EntityId) (rolls : List (EntityId × F × F))
  | sendPosition (eid : EntityId) (x y z : F)
  /-- `tick_ai` and every other write to a mob. -/
  | write (eid : EntityId) (f : TrackedMob F → TrackedMob F)
  | remove (eid : EntityId)
  | removeDead

def step (m : MobManager F) : Action F → MobManager F
  | .insertMob eid mob => m.insertMob fl eid mob
  | .sulfurCubeSpawnSmall eid parent dx dz => m.sulfurCubeSpawnSmall fl eid parent dx dz
  | .splitSlime eid rolls => m.splitSlime fl eid rolls
  | .sendPosition eid x y z => m.sendPosition fl eid x y z
  | .write eid f => m.write eid f
  | .remove eid => m.remove fl eid
  | .removeDead => m.removeDead fl

/-! ## Queries -/

section

variable (m : MobManager F)

/-- What is found of the mobs listed in some chunks. -/
def search {R : Type} (chunks : List Chunk) (f : EntityId → TrackedMob F → Option R) : List R :=
  (chunks.flatMap m.chunkMobs).filterMap fun eid => (m.mobs.lookup eid).bind (f eid)

/-- What is found of all mobs. -/
def scan {R : Type} (f : EntityId → TrackedMob F → Option R) : List R :=
  m.allMobs.filterMap fun r => f r.1 r.2

def getInChunk (chunk : Chunk) : List (EntityId × TrackedMob F) :=
  m.search [chunk] fun eid mob => some (eid, mob)

/-- The hostile mobs of a chunk and its neighbours. -/
def countNear (chunk : Chunk) : Nat :=
  (m.search (GridIndex.around chunk 1) fun eid mob =>
    if isHostile mob.mobType then some eid else none).length

/-- The listed ids of the chunks within the radius, whatever their distance. -/
def countInRange (x z radius : F) : Nat :=
  ((GridIndex.around (fl.cell x, fl.cell z) (fl.cellRadius radius)).flatMap m.chunkMobs).length

variable (x y z radius : F)

/-- `d2 <= r2` -/
def inRange (mob : TrackedMob F) : Bool :=
  fl.le (fl.dist2 mob.x mob.y mob.z x y z) (fl.mul radius radius)

/-- The id and the distance of a mob in range. -/
def reported (eid : EntityId) (mob : TrackedMob F) : Option (EntityId × F) :=
  if inRange fl x y z radius mob then
    some (eid, fl.sqrt (fl.dist2 mob.x mob.y mob.z x y z))
  else none

/-- Closest first. -/
def entitiesInRange : List (EntityId × F) :=
  (m.search (GridIndex.around (fl.cell x, fl.cell z) (fl.cellRadius radius))
    (reported fl x y z radius)).mergeSort fun a b => !fl.lt b.2 a.2

/-- Rounding takes no mob into range that is further away than the radius along an axis. -/
def RoundsInward : Prop :=
  ∀ eid mob, m.mobs.lookup eid = some mob → inRange fl x y z radius mob = true →
    fl.Within mob.x x radius ∧ fl.Within mob.z z radius

/-- Without rounding, this is so for every radius that is not negative. -/
theorem roundsInward_exact (m : MobManager Rat) (x y z : Rat) {radius : Rat} (hr : 0 ≤ radius) :
    m.RoundsInward Floats.exact x y z radius :=
  fun _ _ _ hin => Floats.exact_within hr hin

end

/-! ## Exactness -/

/-- The buckets list each live mob once, in the chunk of its position, and nothing else. -/
def IndexExact (m : MobManager F) : Prop :=
  GridIndex.Exact m.chunkMobs (GridIndex.place (chunkOf fl) m.mobs)

/-- The index is exact, and the queries through it agree with a scan of all mobs. -/
structure ChunksExact (m : MobManager F) : Prop where
  index : m.IndexExact fl
  range : ∀ x y z radius, m.RoundsInward fl x y z radius →
    (m.entitiesInRange fl x y z radius).Perm (m.scan (reported fl x y z radius))
  chunk : ∀ chunk, (m.getInChunk chunk).Perm
    (m.scan fun eid mob => if chunkOf fl mob = chunk then some (eid, mob) else none)
  near : ∀ chunk, m.countNear chunk = (m.scan fun eid mob =>
    if isHostile mob.mobType ∧ chunkOf fl mob ∈ GridIndex.around chunk 1 then some eid
    else none).length

/-- What keeps the index exact: a new id, a move within the chunk, a removal.  The babies of a slime
    are listed nowhere, so it has to be their ids that are those of mobs listed in their chunk. -/
def Kept (m : MobManager F) : Action F → Prop
  | .insertMob eid _ => m.mobs.lookup eid = none
  | .sulfurCubeSpawnSmall eid _ _ _ => m.mobs.lookup eid = none
  | .splitSlime eid rolls => ∀ e mob, (m.babies fl eid rolls).reverse.lookup e = some mob →
      GridIndex.place (chunkOf fl) m.mobs e = some (chunkOf fl mob)
  | .sendPosition eid x y z => ∀ mob, m.mobs.lookup eid = some mob →
      unmoved fl mob x y z = true ∨ (fl.cell x, fl.cell z) = chunkOf fl mob
  | .write eid f => ∀ mob, m.mobs.lookup eid = some mob → chunkOf fl (f mob) = chunkOf fl mob
  | .remove _ => True
  | .removeDead => True

section

variable {fl} {m : MobManager F}

theorem search_perm (h : m.IndexExact fl) {R : Type} {chunks : List Chunk} (hchunks : chunks.Nodup)
    (f : EntityId → TrackedMob F → Option R)
    (hf : ∀ eid mob r, m.mobs.lookup eid = some mob → f eid mob = some r →
      chunkOf fl mob ∈ chunks) :
    (m.search chunks f).Perm (m.scan f) :=
  GridIndex.search_perm h hchunks f hf

/-- **Range queries of an exact index.** -/
theorem entitiesInRange_perm (h : m.IndexExact fl) {x y z radius : F}
    (hround : m.RoundsInward fl x y z radius) :
    (m.entitiesInRange fl x y z radius).Perm (m.scan (reported fl x y z radius)) := by
  refine (List.mergeSort_perm _ _).trans (search_perm h (GridIndex.nodup_around _ _) _ ?_)
  intro eid mob r hmob hr
  have hin : inRange fl x y z radius mob = true := by
    by_contra hnot
    simp [reported, hnot] at hr
  obtain ⟨hx, hz⟩ := hround eid mob hmob hin
  exact GridIndex.mem_around.2 ⟨Floats.cell_mem_around hx, Floats.cell_mem_around hz⟩

/-- The mobs listed in some chunks are the mobs that are there. -/
theorem search_perm_filter (h : m.IndexExact fl) {R : Type} {chunks : List Chunk}
    (hchunks : chunks.Nodup) (f : EntityId → TrackedMob F → Option R) :
    (m.search chunks f).Perm
      (m.scan fun eid mob => if chunkOf fl mob ∈ chunks then f eid mob else none) := by
  have hsearch : m.search chunks f =
      m.search chunks fun eid mob => if chunkOf fl mob ∈ chunks then f eid mob else none := by
    unfold search
    refine List.filterMap_congr fun eid heid => ?_
    obtain ⟨c, hc, hlisted⟩ := List.mem_flatMap.1 heid
    obtain ⟨mob, hmob, rfl⟩ := Option.map_eq_some_iff.1 ((h.mem_iff c eid).1 hlisted)
    rw [hmob, Option.bind_some, Option.bind_some]
    exact (if_pos hc).symm
  rw [hsearch]
  refine search_perm h hchunks _ fun eid mob r _ hr => ?_
  by_contra hnot
  simp [hnot] at hr

theorem getInChunk_perm (h : m.IndexExact fl) (chunk : Chunk) : (m.getInChunk chunk).Perm
    (m.scan fun eid mob => if chunkOf fl mob = chunk then some (eid, mob) else none) := by
  have hperm := search_perm_filter h (List.nodup_singleton chunk) fun eid mob => some (eid, mob)
  simp only [List.mem_singleton] at hperm
  exact hperm

theorem countNear_eq (h : m.IndexExact fl) (chunk : Chunk) :
    m.countNear chunk = (m.scan fun eid mob =>
      if isHostile mob.mobType ∧ chunkOf fl mob ∈ GridIndex.around chunk 1 then some eid
      else none).length := by
  unfold countNear
  rw [(search_perm_filter h (GridIndex.nodup_around _ _) _).length_eq]
  congr 2
  funext eid mob
  by_cases hnear : chunkOf fl mob ∈ GridIndex.around chunk 1 <;> simp [hnear]

theorem chunksExact_iff : ChunksExact fl m ↔ m.IndexExact fl :=
  ⟨fun h => h.index, fun h => ⟨h, fun _ _ _ _ hround => entitiesInRange_perm h hround,
    getInChunk_perm h, countNear_eq h⟩⟩

/-- Of an exact index, `count_in_range` counts the mobs of the chunks within the radius. -/
theorem countInRange_eq (h : m.IndexExact fl) (x z radius : F) :
    m.countInRange fl x z radius = (m.scan fun eid mob =>
      if chunkOf fl mob ∈ GridIndex.around (fl.cell x, fl.cell z) (fl.cellRadius radius)
      then some eid else none).length := by
  rw [← (search_perm_filter h (GridIndex.nodup_around _ _) _).length_eq]
  unfold countInRange search
  congr 1
  symm
  refine (List.filterMap_congr fun eid heid => ?_).trans List.filterMap_some
  obtain ⟨c, -, hlisted⟩ := List.mem_flatMap.1 heid
  obtain ⟨mob, hmob, -⟩ := Option.map_eq_some_iff.1 ((h.mem_iff c eid).1 hlisted)
  rw [hmob, Option.bind_some]

/-! ## One action -/

variable {eid : EntityId}

theorem indexExact_remove (h : m.IndexExact fl) : (m.remove fl eid).IndexExact fl := by
  unfold remove IndexExact
  cases hmob : m.mobs.lookup eid with
  | some mob => exact GridIndex.exact_erase h hmob
  | none => exact h

theorem indexExact_removeDead (h : m.IndexExact fl) : (m.removeDead fl).IndexExact fl := by
  unfold removeDead
  generalize m.dead fl = ids
  induction ids generalizing m with
  | nil => exact h
  | cons eid ids ih => exact ih (indexExact_remove h)

theorem indexExact_write_iff (h : m.IndexExact fl) {f : TrackedMob F → TrackedMob F} :
    (m.write eid f).IndexExact fl ↔
      ∀ mob, m.mobs.lookup eid = some mob → chunkOf fl (f mob) = chunkOf fl mob := by
  unfold write
  cases hmob : m.mobs.lookup eid with
  | none => simpa using h
  | some mob =>
      simp only [Option.some.injEq, forall_eq']
      refine (GridIndex.exact_insert_iff h).trans ?_
      rw [GridIndex.place_eq_some hmob, Option.some.injEq, eq_comm]

theorem indexExact_sendPosition_iff (h : m.IndexExact fl) {x y z : F} :
    (m.sendPosition fl eid x y z).IndexExact fl ↔ ∀ mob, m.mobs.lookup eid = some mob →
      unmoved fl mob x y z = true ∨ (fl.cell x, fl.cell z) = chunkOf fl mob := by
  unfold sendPosition
  cases hmob : m.mobs.lookup eid with
  | none => simpa using h
  | some mob =>
      simp only [Option.some.injEq, forall_eq']
      by_cases hun : unmoved fl mob x y z = true
      · simpa [hun] using h
      · rw [if_neg hun, or_iff_right hun]
        refine (GridIndex.exact_insert_iff h).trans ?_
        rw [GridIndex.place_eq_some hmob, Option.some.injEq, eq_comm]
        rfl

/-- **An action keeps the index exact exactly when it is of the kept kind.** -/
theorem indexExact_step_iff (h : m.IndexExact fl) (a : Action F) :
    (m.step fl a).IndexExact fl ↔ m.Kept fl a := by
  cases a with
  | insertMob eid mob => exact GridIndex.exact_insert_push_iff h
  | sulfurCubeSpawnSmall eid parent dx dz => exact GridIndex.exact_insert_push_iff h
  | splitSlime eid rolls => exact GridIndex.exact_foldl_insert_iff h
  | sendPosition eid x y z => exact indexExact_sendPosition_iff h
  | write eid f => exact indexExact_write_iff h
  | remove eid => exact iff_of_true (indexExact_remove h) trivial
  | removeDead => exact iff_of_true (indexExact_removeDead h) trivial

end

/-! ## Runs -/

theorem indexExact_new : (new : MobManager F).IndexExact fl := GridIndex.exact_empty

theorem chunksExact_step_iff {m : MobManager F} (hm : ChunksExact fl m) (a : Action F) :
    ChunksExact fl (m.step fl a) ↔ m.Kept fl a :=
  chunksExact_iff.trans (indexExact_step_iff hm.index a)

/-- **The index is exact along a run, and its queries with it, exactly when every action of the run
    is of the kept kind.** -/
theorem along_chunksExact_iff (actions : List (Action F)) :
    Along (step fl) (fun m a => ChunksExact fl (m.step fl a)) new actions ↔
      Along (step fl) (Kept fl) new actions :=
  along_iff (ChunksExact fl) (fun _ a hm => chunksExact_step_iff fl hm a)
    (fun _ a hm hkept => (chunksExact_step_iff fl hm a).2 hkept)
    (chunksExact_iff.2 (indexExact_new fl)) actions

/-- A minecart that is registered and then rolls into the next chunk. -/
def rollEast : List (Action Rat) :=
  [.insertMob 10000 ⟨20, 0, 64, 0, 6, 6⟩, .sendPosition 10000 16 64 0]

theorem not_chunksExact_rollEast :
    ¬ Along (step Floats.exact) (fun m a => ChunksExact Floats.exact (m.step Floats.exact a)) new
      rollEast := by
  intro h
  have hcell := (chunksExact_step_iff _ h.1 _).1 h.2.1 ⟨20, 0, 64, 0, 6, 6⟩
    (AList.lookup_insert _)
  exact absurd hcell (by decide +kernel)

end MobManager

end Apoptotic
