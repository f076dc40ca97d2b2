import Apoptotic.Lib.Reached
import Apoptotic.Player.SpatialIndex
import Mathlib.Data.Finset.Basic
import Mathlib.Data.Finset.Lattice.Lemmas
import Mathlib.Data.Finset.SDiff
import Mathlib.Logic.Function.Iterate

/-!
# Raids

`RaidManager` of `mc-player/src/raid.rs`.  The map of active raids is a function to `Option`, and
the centres that `tick` reports are a predicate.  The random numbers of `spawn_wave` are an
argument.  `completed_raids` is left out: nothing is ever put into it.

A `Battle` is the driver that spawns a wave whenever `tick` reports the raid, lets its mobs live
for a while and kills them.

Principal result: `along_winnable_iff` — every raid that starts can be won by its driver, and no
active raid is stuck before its last wave, exactly along the runs whose raids have difficulty 2.
-/

namespace Apoptotic.Raids

open PlayerManager (Position Uuid)

structure Center where
  x : BitVec 32
  y : BitVec 32
  z : BitVec 32
  deriving DecidableEq

structure RaidWave where
  mobTypes : List (Int × Nat)
  deriving DecidableEq

/-- The types of the mobs, one by one. -/
def RaidWave.mobs (w : RaidWave) : List Int := w.mobTypes.flatMap fun m => List.replicate m.2 m.1

structure RaidState where
  center : Center
  currentWave : Nat
  totalWaves : Nat
  mobsAlive : Finset Int
  participants : Finset Uuid
  active : Bool
  ticksSinceLastWave : Nat

structure RaidManager where
  activeRaids : Center → Option RaidState
  villageCenters : List Center

def wavesForDifficulty : Nat → List RaidWave
  | 0 => []
  | 1 =>
      [⟨[(59, 3)]⟩,
       ⟨[(59, 2), (51, 1)]⟩,
       ⟨[(59, 2), (51, 1), (48, 1)]⟩]
  | 2 =>
      [⟨[(59, 3)]⟩,
       ⟨[(59, 3), (51, 1)]⟩,
       ⟨[(59, 2), (51, 1), (48, 1)]⟩,
       ⟨[(59, 3), (51, 2), (48, 1)]⟩,
       ⟨[(59, 3), (51, 2), (61, 1)]⟩]
  | _ =>
      [⟨[(59, 4)]⟩,
       ⟨[(59, 3), (51, 2)]⟩,
       ⟨[(59, 3), (51, 1), (48, 1)]⟩,
       ⟨[(59, 4), (51, 2), (48, 1)]⟩,
       ⟨[(59, 4), (51, 2), (48, 2)]⟩,
       ⟨[(59, 3), (51, 2), (61, 2)]⟩,
       ⟨[(59, 2), (51, 2), (61, 1), (52, 1)]⟩]

/-! ## One raid -/

namespace RaidState

variable (raid : RaidState)

/-- The wave that `spawn_wave` takes. -/
def nextWave : Option RaidWave :=
  if raid.totalWaves ≤ raid.currentWave then none
  -- default normal
  else (wavesForDifficulty 2)[raid.currentWave]?

def advance : RaidState :=
  { raid with currentWave := raid.currentWave + 1, ticksSinceLastWave := 0 }

def tick : RaidState :=
  if raid.active then
    { raid with ticksSinceLastWave := (raid.ticksSinceLastWave + 1) % 2 ^ 32 }
  else raid

/-- Reported after this tick. -/
def ready : Bool :=
  raid.active &&
    decide ((if raid.currentWave = 0 then 0 else 200) ≤ raid.ticksSinceLastWave) &&
    decide (raid.mobsAlive = ∅)

end RaidState

/-! ## The manager -/

namespace RaidManager

variable {F : Type} (f : Floats F) (s : RaidManager)

def new : RaidManager := ⟨fun _ => none, []⟩

/-- `dx * dx + dz * dz < 4096.0` -/
def near (pos : Position F) (center : Center) : Bool :=
  let dx := f.sub pos.x (f.lit center.x.toInt)
  let dz := f.sub pos.z (f.lit center.z.toInt)
  f.lt (f.add (f.mul dx dx) (f.mul dz dz)) (f.lit 4096)

/-- The first village near the player, if it has no raid. -/
def startCenter (pos : Position F) : Option Center :=
  (s.villageCenters.find? (near f pos)).filter fun center => (s.activeRaids center).isNone

/-- A raid before its first wave. -/
def starting (center : Center) (uuid : Uuid) (totalWaves : Nat) : RaidState where
  center := center
  currentWave := 0
  totalWaves := totalWaves
  mobsAlive := ∅
  participants := {uuid}
  active := true
  ticksSinceLastWave := 0

def tryStartRaid (uuid : Uuid) (pos : Position F) (hasBadOmen : Bool) (difficulty : Nat) :
    Option Nat × RaidManager :=
  if !hasBadOmen || difficulty = 0 then (none, s)
  else
    match s.startCenter f pos with
    | none => (none, s)
    | some center =>
        let waves := wavesForDifficulty difficulty
        if waves.isEmpty then (none, s)
        else
          (some waves.length,
            { s with
              activeRaids := Function.update s.activeRaids center
                (some (starting center uuid waves.length)) })

/-- The mobs of the next wave, the `i`-th at the offset `place i` from the centre. -/
def spawnWave (place : Nat → F × F) (center : Center) :
    List (Int × Position F) × RaidManager :=
  match s.activeRaids center with
  | none => ([], s)
  | some raid =>
      match raid.nextWave with
      | none => ([], s)
      | some wave =>
          (wave.mobs.mapIdx fun i mob =>
              (mob,
                ⟨f.add (f.lit center.x.toInt) (place i).1, f.lit center.y.toInt,
                  f.add (f.lit center.z.toInt) (place i).2⟩),
            { s with
              activeRaids := Function.update s.activeRaids center (some raid.advance) })

def checkWaveComplete (center : Center) : Bool :=
  (s.activeRaids center).any fun raid =>
    decide (raid.mobsAlive = ∅) && decide (60 < raid.ticksSinceLastWave)

/-- The raid is removed also when it has waves left. -/
def completeRaid (center : Center) : Option (Finset Uuid) × RaidManager :=
  ((s.activeRaids center).bind fun raid =>
      if raid.totalWaves ≤ raid.currentWave then some raid.participants else none,
    { s with activeRaids := Function.update s.activeRaids center none })

/-- `if let Some(raid) = raids.get_mut(&center) { .. }` -/
def modify (center : Center) (g : RaidState → RaidState) : RaidManager :=
  { s with
    activeRaids := Function.update s.activeRaids center ((s.activeRaids center).map g) }

def registerRaidMob (center : Center) (entityId : Int) : RaidManager :=
  s.modify center fun raid => { raid with mobsAlive := insert entityId raid.mobsAlive }

def removeRaidMob (center : Center) (entityId : Int) : RaidManager :=
  s.modify center fun raid => { raid with mobsAlive := raid.mobsAlive.erase entityId }

def addParticipant (center : Center) (uuid : Uuid) : RaidManager :=
  s.modify center fun raid => { raid with participants := insert uuid raid.participants }

def tick : (Center → Bool) × RaidManager :=
  let raids := fun center => (s.activeRaids center).map RaidState.tick
  (fun center => (raids center).any RaidState.ready, { s with activeRaids := raids })

def cancelRaid (center : Center) : RaidManager :=
  { s with activeRaids := Function.update s.activeRaids center none }

/-- `i32` arithmetic, which wraps. -/
def registerVillage (center : Center) : RaidManager :=
  let close := fun existing : Center =>
    let dx := existing.x - center.x
    let dz := existing.z - center.z
    (dx * dx + dz * dz).slt 4096#32
  if s.villageCenters.any close then s
  else { s with villageCenters := s.villageCenters ++ [center] }

end RaidManager

/-! ## The driver -/

/-- Where the mobs of each wave appear, their entity ids, and how many ticks they live. -/
structure Battle (F : Type) where
  place : Nat → Nat → F × F
  entityId : Nat → Nat → Int
  fight : Nat → Nat

/-- The manager, and the mobs of each wave spawned so far. -/
structure Siege where
  manager : RaidManager
  waves : List (List Int)

variable {F : Type} (f : Floats F)

/-- One tick of the driver: a raid that is reported gets its wave, whose mobs die in the end. -/
def Battle.turn (b : Battle F) (center : Center) (t : Siege) : Siege :=
  let (ready, m) := t.manager.tick
  if ready center then
    let k := t.waves.length
    let (spawns, m) := m.spawnWave f (b.place k) center
    let ids := (List.range spawns.length).map (b.entityId k)
    let m := ids.foldl (fun m id => m.registerRaidMob center id) m
    let m := (fun m : RaidManager => m.tick.2)^[b.fight k] m
    let m := ids.foldl (fun m id => m.removeRaidMob center id) m
    ⟨m, t.waves ++ [spawns.map Prod.fst]⟩
  else ⟨m, t.waves⟩

/-- **The raid at `center` is won**: however the battles go, the driver spawns the waves of the
difficulty one after another, and the raid is then completed for its participants. -/
def Won (s : RaidManager) (center : Center) (difficulty : Nat) (participants : Finset Uuid) :
    Prop :=
  ∀ b : Battle F, ∃ n,
    ((b.turn f center)^[n] ⟨s, []⟩).waves = (wavesForDifficulty difficulty).map RaidWave.mobs ∧
      (((b.turn f center)^[n] ⟨s, []⟩).manager.completeRaid center).1 = some participants

inductive Action (F : Type) where
  | tryStartRaid (uuid : Uuid) (pos : Position F) (hasBadOmen : Bool) (difficulty : Nat)
  | spawnWave (place : Nat → F × F) (center : Center)
  | completeRaid (center : Center)
  | registerRaidMob (center : Center) (entityId : Int)
  | removeRaidMob (center : Center) (entityId : Int)
  | addParticipant (center : Center) (uuid : Uuid)
  | tick
  | cancelRaid (center : Center)
  | registerVillage (center : Center)

def RaidManager.step (s : RaidManager) : Action F → RaidManager
  | .tryStartRaid uuid pos hasBadOmen difficulty =>
      (s.tryStartRaid f uuid pos hasBadOmen difficulty).2
  | .spawnWave place center => (s.spawnWave f place center).2
  | .completeRaid center => (s.completeRaid center).2
  | .registerRaidMob center entityId => s.registerRaidMob center entityId
  | .removeRaidMob center entityId => s.removeRaidMob center entityId
  | .addParticipant center uuid => s.addParticipant center uuid
  | .tick => s.tick.2
  | .cancelRaid center => s.cancelRaid center
  | .registerVillage center => s.registerVillage center

/-- No active raid with waves left gets an empty wave. -/
def Unstuck (s : RaidManager) : Prop :=
  ∀ center raid, s.activeRaids center = some raid → raid.active →
    raid.currentWave < raid.totalWaves → ∀ place, (s.spawnWave f place center).1 ≠ []

/-- What is asked of a step: no raid is stuck after it, and a raid that it starts has the waves of
its difficulty and can be won. -/
def Winnable (s : RaidManager) (a : Action F) : Prop :=
  Unstuck f (s.step f a) ∧
    ∀ uuid pos hasBadOmen difficulty n, a = .tryStartRaid uuid pos hasBadOmen difficulty →
      (s.tryStartRaid f uuid pos hasBadOmen difficulty).1 = some n →
      n = (wavesForDifficulty difficulty).length ∧
        ∀ center, s.activeRaids center = none → ((s.step f a).activeRaids center).isSome →
          Won f (s.step f a) center difficulty {uuid}

/-- A raid that is about to start has the normal difficulty. -/
def NormalStart (s : RaidManager) : Action F → Prop
  | .tryStartRaid _ pos hasBadOmen difficulty =>
      hasBadOmen → difficulty ≠ 0 → (s.startCenter f pos).isSome → difficulty = 2
  | _ => True

/-! ## The raid at one centre -/

namespace RaidState

variable (raid : RaidState)

/-- The raid after `spawn_wave`. -/
def spawned : RaidState := if raid.nextWave.isSome then raid.advance else raid

/-- The mobs of the wave that `spawn_wave` takes, if any. -/
def nextMobs : List Int := (raid.nextWave.map RaidWave.mobs).getD []

/-- Other mobs alive, and another timer. -/
def rest (mobs : Finset Int) (timer : Nat) : RaidState :=
  { raid with mobsAlive := mobs, ticksSinceLastWave := timer }

theorem rest_rest (mobs mobs' : Finset Int) (timer timer' : Nat) :
    (raid.rest mobs timer).rest mobs' timer' = raid.rest mobs' timer' := rfl

theorem tick_of_active (h : raid.active = true) :
    raid.tick = raid.rest raid.mobsAlive ((raid.ticksSinceLastWave + 1) % 2 ^ 32) := if_pos h

end RaidState

section

variable {s : RaidManager} {center : Center} {raid : RaidState}

theorem spawnWave_spec (h : s.activeRaids center = some raid) (place : Nat → F × F) :
    (s.spawnWave f place center).1.map Prod.fst = raid.nextMobs ∧
      (s.spawnWave f place center).2.activeRaids center = some raid.spawned := by
  unfold RaidManager.spawnWave RaidState.nextMobs RaidState.spawned
  rw [h]
  dsimp only
  cases hw : raid.nextWave with
  | none => exact ⟨rfl, h⟩
  | some wave =>
      refine ⟨?_, Function.update_self ..⟩
      dsimp only
      rw [List.mapIdx_eq_zipIdx_map, List.map_map]
      exact List.zipIdx_map_fst 0 _

theorem activeRaids_modify (h : s.activeRaids center = some raid) (g : RaidState → RaidState) :
    (s.modify center g).activeRaids center = some (g raid) := by
  refine (Function.update_self ..).trans ?_
  rw [h]
  rfl

theorem activeRaids_tick (h : s.activeRaids center = some raid) :
    s.tick.2.activeRaids center = some raid.tick := by
  change (s.activeRaids center).map _ = _
  rw [h]
  rfl

theorem activeRaids_register (h : s.activeRaids center = some raid) (ids : List Int) :
    (ids.foldl (fun m id => m.registerRaidMob center id) s).activeRaids center =
      some (raid.rest (raid.mobsAlive ∪ ids.toFinset) raid.ticksSinceLastWave) := by
  induction ids generalizing s raid with
  | nil =>
      rw [List.toFinset_nil, Finset.union_empty]
      exact h
  | cons id ids ih =>
      refine (ih (activeRaids_modify h _)).trans ?_
      rw [List.toFinset_cons, Finset.union_insert, ← Finset.insert_union]
      rfl

theorem activeRaids_remove (h : s.activeRaids center = some raid) (ids : List Int) :
    (ids.foldl (fun m id => m.removeRaidMob center id) s).activeRaids center =
      some (raid.rest (raid.mobsAlive \ ids.toFinset) raid.ticksSinceLastWave) := by
  induction ids generalizing s raid with
  | nil =>
      rw [List.toFinset_nil, Finset.sdiff_empty]
      exact h
  | cons id ids ih =>
      refine (ih (activeRaids_modify h _)).trans ?_
      rw [List.toFinset_cons, Finset.sdiff_insert, ← Finset.erase_sdiff_comm]
      rfl

/-- Ticks alone change nothing but the timer. -/
theorem activeRaids_iterate_tick (h : s.activeRaids center = some raid) (n : Nat) :
    ∃ k, ((fun m : RaidManager => m.tick.2)^[n] s).activeRaids center =
      some (raid.rest raid.mobsAlive k) := by
  induction n generalizing s raid with
  | zero => exact ⟨_, h⟩
  | succ n ih =>
      rw [Function.iterate_succ_apply]
      obtain ⟨k, hk⟩ := ih (activeRaids_tick h)
      refine ⟨k, hk.trans ?_⟩
      unfold RaidState.tick
      split <;> rfl

end

/-! ## The raid under its driver -/

variable {f} {b : Battle F} {center : Center} {t : Siege} {raid : RaidState}

theorem turn_of_not_ready (h : t.manager.activeRaids center = some raid)
    (hr : raid.tick.ready = false) :
    (b.turn f center t).manager.activeRaids center = some raid.tick ∧
      (b.turn f center t).waves = t.waves := by
  have hready : t.manager.tick.1 center = false := by
    change ((t.manager.activeRaids center).map _).any _ = false
    rwa [h]
  unfold Battle.turn
  simp only [hready]
  exact ⟨activeRaids_tick h, rfl⟩

/-- A raid that is reported gets its wave; when the mobs are dead only the timer is left open. -/
theorem turn_of_ready (h : t.manager.activeRaids center = some raid)
    (hr : raid.tick.ready = true) :
    (∃ k, (b.turn f center t).manager.activeRaids center =
        some (raid.tick.spawned.rest ∅ k)) ∧
      (b.turn f center t).waves = t.waves ++ [raid.tick.nextMobs] := by
  have hready : t.manager.tick.1 center = true := by
    change ((t.manager.activeRaids center).map _).any _ = true
    rwa [h]
  have hclear : raid.tick.spawned.mobsAlive = ∅ := by
    have hempty := of_decide_eq_true (Bool.and_eq_true_iff.1 hr).2
    unfold RaidState.spawned
    split
    · exact hempty
    · exact hempty
  obtain ⟨hmobs, hspawn⟩ := spawnWave_spec f (activeRaids_tick h) (b.place t.waves.length)
  unfold Battle.turn
  simp only [hready, if_true]
  generalize RaidManager.spawnWave f t.manager.tick.2 (b.place t.waves.length) center = r at *
  refine ⟨?_, by rw [hmobs]⟩
  obtain ⟨k, hk⟩ := activeRaids_iterate_tick
    (activeRaids_register hspawn ((List.range r.1.length).map (b.entityId t.waves.length)))
    (b.fight t.waves.length)
  refine ⟨k, (activeRaids_remove hk _).trans ?_⟩
  rw [RaidState.rest_rest, RaidState.rest_rest, hclear]
  congr 2
  change (∅ ∪ _) \ _ = _
  rw [Finset.empty_union, Finset.sdiff_self]

/-- The mobs of the `i`-th wave that the driver of a raid with `total` waves spawns. -/
def waveOf (total i : Nat) : List Int :=
  if total ≤ i then [] else ((wavesForDifficulty 2)[i]?.map RaidWave.mobs).getD []

/-- The raid between two waves. -/
structure Held (center : Center) (total : Nat) (participants : Finset Uuid) (raid : RaidState)
    (t : Siege) : Prop where
  lookup : t.manager.activeRaids center = some raid
  active : raid.active = true
  clear : raid.mobsAlive = ∅
  totalWaves : raid.totalWaves = total
  participants : raid.participants = participants
  currentWave : raid.currentWave = min t.waves.length (min total 5)
  waves : t.waves = (List.range t.waves.length).map (waveOf total)

variable {total : Nat} {participants : Finset Uuid}

theorem Held.tick (h : Held center total participants raid t)
    (hr : raid.tick.ready = false) :
    Held center total participants raid.tick (b.turn f center t) ∧
      (b.turn f center t).waves.length = t.waves.length := by
  obtain ⟨hlookup, hwaves⟩ := turn_of_not_ready (b := b) (f := f) h.lookup hr
  rw [raid.tick_of_active h.active] at hlookup ⊢
  refine ⟨⟨hlookup, h.active, h.clear, h.totalWaves, h.participants, ?_, ?_⟩, by rw [hwaves]⟩
  · rw [hwaves]
    exact h.currentWave
  · rw [hwaves]
    exact h.waves

/-- The waves that are left are those the log is due. -/
theorem Held.nextWave (h : Held center total participants raid t) :
    raid.nextWave = if t.waves.length < min total 5 then (wavesForDifficulty 2)[t.waves.length]?
      else none := by
  unfold RaidState.nextWave
  rw [h.totalWaves, h.currentWave]
  by_cases hdue : t.waves.length < min total 5
  · rw [if_pos hdue, min_eq_left hdue.le, if_neg (by omega)]
  · rw [if_neg hdue, min_eq_right (not_lt.1 hdue)]
    by_cases hlast : total ≤ 5
    · rw [min_eq_left hlast, if_pos le_rfl]
    · rw [min_eq_right (not_le.1 hlast).le, ite_eq_left_iff]
      exact fun _ => rfl

theorem Held.nextMobs (h : Held center total participants raid t) :
    raid.nextMobs = waveOf total t.waves.length := by
  unfold RaidState.nextMobs waveOf
  rw [h.nextWave]
  by_cases hdue : t.waves.length < min total 5
  · rw [if_pos hdue, if_neg (by omega)]
  · rw [if_neg hdue]
    split
    · rfl
    · have hlast : (wavesForDifficulty 2).length ≤ t.waves.length := by
        change 5 ≤ _
        omega
      rw [List.getElem?_eq_none hlast]

theorem Held.spawn (h : Held center total participants raid t)
    (hr : raid.tick.ready = true) :
    ∃ raid', Held center total participants raid' (b.turn f center t) ∧
      (b.turn f center t).waves.length = t.waves.length + 1 := by
  obtain ⟨⟨k, hlookup⟩, hwaves⟩ := turn_of_ready (b := b) (f := f) h.lookup hr
  have hlength : (b.turn f center t).waves.length = t.waves.length + 1 := by
    rw [hwaves, List.length_append, List.length_singleton]
  have hnext : raid.tick.nextWave = raid.nextWave := by
    rw [raid.tick_of_active h.active]
    rfl
  have hmobs : raid.tick.nextMobs = waveOf total t.waves.length := by
    rw [← h.nextMobs]
    unfold RaidState.nextMobs
    rw [hnext]
  have hspawned : raid.tick.spawned = if t.waves.length < min total 5 then raid.tick.advance
      else raid.tick := by
    unfold RaidState.spawned
    rw [hnext, h.nextWave]
    by_cases hdue : t.waves.length < min total 5
    · have hlast : t.waves.length < (wavesForDifficulty 2).length := by
        change _ < 5
        omega
      rw [if_pos hdue, if_pos hdue, List.getElem?_eq_getElem hlast]
      rfl
    · rw [if_neg hdue, if_neg hdue]
      rfl
  have hactive := raid.tick_of_active h.active
  refine ⟨_, ⟨hlookup, ?_, rfl, ?_, ?_, ?_, ?_⟩, hlength⟩
  · change raid.tick.spawned.active = true
    rw [hspawned, hactive]
    split <;> exact h.active
  · change raid.tick.spawned.totalWaves = _
    rw [hspawned, hactive]
    split <;> exact h.totalWaves
  · change raid.tick.spawned.participants = _
    rw [hspawned, hactive]
    split <;> exact h.participants
  · change raid.tick.spawned.currentWave = _
    rw [hspawned, hactive, hlength]
    split
    · change raid.currentWave + 1 = _
      rw [h.currentWave]
      omega
    · change raid.currentWave = _
      rw [h.currentWave]
      omega
  · rw [hlength, List.range_succ, List.map_append, ← h.waves, hwaves, hmobs]
    rfl

/-- Not reported yet: fewer than 200 ticks since the last wave. -/
theorem Held.timer_lt (h : Held center total participants raid t)
    (hr : raid.tick.ready = false) : raid.tick.ticksSinceLastWave < 200 := by
  rw [raid.tick_of_active h.active] at hr ⊢
  by_contra hge
  have hdelay : (if raid.currentWave = 0 then 0 else 200) ≤
      (raid.ticksSinceLastWave + 1) % 2 ^ 32 := by
    split
    · exact Nat.zero_le _
    · exact not_lt.1 hge
  have hready : (raid.rest raid.mobsAlive ((raid.ticksSinceLastWave + 1) % 2 ^ 32)).ready = true := by
    unfold RaidState.ready RaidState.rest
    simp only [Bool.and_eq_true, decide_eq_true_eq]
    exact ⟨⟨h.active, hdelay⟩, h.clear⟩
  rw [hready] at hr
  cases hr

/-- A wave within 200 ticks; the induction is on the ticks that are left. -/
theorem Held.exists_spawn_of_lt (k : Nat) (h : Held center total participants raid t)
    (hk : 200 ≤ raid.ticksSinceLastWave + k) (hlt : raid.ticksSinceLastWave < 200) :
    ∃ n raid', Held center total participants raid' ((b.turn f center)^[n] t) ∧
      ((b.turn f center)^[n] t).waves.length = t.waves.length + 1 := by
  induction k generalizing t raid with
  | zero => omega
  | succ k ih =>
      cases hr : raid.tick.ready with
      | true =>
          obtain ⟨raid', h', hlength⟩ := h.spawn (b := b) (f := f) hr
          exact ⟨1, raid', h', hlength⟩
      | false =>
          obtain ⟨h', hlength⟩ := h.tick (b := b) (f := f) hr
          have htimer := h.timer_lt hr
          have hnext : raid.tick.ticksSinceLastWave = raid.ticksSinceLastWave + 1 := by
            rw [raid.tick_of_active h.active]
            exact Nat.mod_eq_of_lt (by omega)
          obtain ⟨n, raid', hn, hlen⟩ := ih h' (by omega) htimer
          refine ⟨n + 1, raid', ?_, ?_⟩
          · rwa [Function.iterate_succ_apply]
          · rw [Function.iterate_succ_apply, hlen, hlength]

/-- **The next wave always comes**, also when the timer wraps. -/
theorem Held.exists_spawn (h : Held center total participants raid t) :
    ∃ n raid', Held center total participants raid' ((b.turn f center)^[n] t) ∧
      ((b.turn f center)^[n] t).waves.length = t.waves.length + 1 := by
  cases hr : raid.tick.ready with
  | true =>
      obtain ⟨raid', h', hlength⟩ := h.spawn (b := b) (f := f) hr
      exact ⟨1, raid', h', hlength⟩
  | false =>
      obtain ⟨h', hlength⟩ := h.tick (b := b) (f := f) hr
      obtain ⟨n, raid', hn, hlen⟩ :=
        h'.exists_spawn_of_lt (b := b) (f := f) 200 (by omega) (h.timer_lt hr)
      refine ⟨n + 1, raid', ?_, ?_⟩
      · rwa [Function.iterate_succ_apply]
      · rw [Function.iterate_succ_apply, hlen, hlength]

/-- Any number of waves comes. -/
theorem Held.exists_waves (h : Held center total participants raid t) (k : Nat) :
    ∃ n raid', Held center total participants raid' ((b.turn f center)^[n] t) ∧
      ((b.turn f center)^[n] t).waves.length = t.waves.length + k := by
  induction k with
  | zero => exact ⟨0, raid, h, rfl⟩
  | succ k ih =>
      obtain ⟨n, raid', h', hlength⟩ := ih
      obtain ⟨n', raid'', h'', hlength'⟩ := h'.exists_spawn (b := b) (f := f)
      refine ⟨n' + n, raid'', ?_, ?_⟩
      · rwa [Function.iterate_add_apply]
      · rw [Function.iterate_add_apply, hlength', hlength, Nat.add_assoc]

/-- The driver keeps the raid between two waves. -/
theorem Held.iterate (h : Held center total participants raid t) (n : Nat) :
    ∃ raid', Held center total participants raid' ((b.turn f center)^[n] t) := by
  induction n with
  | zero => exact ⟨raid, h⟩
  | succ n ih =>
      obtain ⟨raid', h'⟩ := ih
      rw [Function.iterate_succ_apply']
      cases hr : raid'.tick.ready with
      | true =>
          obtain ⟨raid'', h'', _⟩ := h'.spawn (b := b) (f := f) hr
          exact ⟨raid'', h''⟩
      | false => exact ⟨_, (h'.tick (b := b) (f := f) hr).1⟩

/-! ## Winning a raid -/

variable {s : RaidManager} {uuid : Uuid} {difficulty : Nat}

theorem held_starting (h : s.activeRaids center = some (RaidManager.starting center uuid total)) :
    Held center total {uuid} (RaidManager.starting center uuid total) ⟨s, []⟩ where
  lookup := h
  active := rfl
  clear := rfl
  totalWaves := rfl
  participants := rfl
  currentWave := (Nat.zero_min _).symm
  waves := rfl

theorem won_of_normal
    (h : s.activeRaids center =
      some (RaidManager.starting center uuid (wavesForDifficulty 2).length)) :
    Won f s center 2 {uuid} := by
  intro b
  obtain ⟨n, raid, hn, hlength⟩ := (held_starting h).exists_waves (b := b) (f := f) 5
  refine ⟨n, ?_, ?_⟩
  · rw [hn.waves, hlength]
    change (List.range 5).map (waveOf 5) = _
    decide
  · change ((_ : Option RaidState).bind _) = _
    have hcurrent : raid.currentWave = 5 := by
      rw [hn.currentWave, hlength]
      rfl
    rw [hn.lookup, Option.bind_some, hcurrent, hn.totalWaves, hn.participants]
    rfl

/-- The second wave of another difficulty is not the one that comes. -/
theorem second_wave_ne (h0 : difficulty ≠ 0) (h2 : difficulty ≠ 2) :
    ∃ mobs, ((wavesForDifficulty difficulty).map RaidWave.mobs)[1]? = some mobs ∧
      mobs ≠ waveOf (wavesForDifficulty difficulty).length 1 := by
  match difficulty, h0, h2 with
  | 1, _, _ => exact ⟨_, rfl, by decide⟩
  | d + 3, _, _ =>
      refine ⟨_, rfl, ?_⟩
      change _ ≠ waveOf 7 1
      decide

theorem not_won (h0 : difficulty ≠ 0) (h2 : difficulty ≠ 2)
    (h : s.activeRaids center =
      some (RaidManager.starting center uuid (wavesForDifficulty difficulty).length)) :
    ¬ Won f s center difficulty {uuid} := by
  intro hwon
  obtain ⟨n, hwaves, -⟩ := hwon ⟨fun _ _ => (f.lit 0, f.lit 0), fun _ i => i, fun _ => 0⟩
  obtain ⟨raid, hn⟩ := (held_starting h).iterate
    (b := ⟨fun _ _ => (f.lit 0, f.lit 0), fun _ i => i, fun _ => 0⟩) (f := f) n
  obtain ⟨mobs, hmobs, hne⟩ := second_wave_ne h0 h2
  have hlog := hn.waves
  rw [hwaves] at hlog
  rw [hlog, List.getElem?_map] at hmobs
  obtain ⟨i, hi, rfl⟩ := Option.map_eq_some_iff.1 hmobs
  obtain ⟨hlt, rfl⟩ := List.getElem?_eq_some_iff.1 hi
  rw [List.getElem_range] at hne
  exact hne rfl

/-! ## Runs -/

/-- Every raid has the waves of the normal difficulty. -/
def NormalRaids (s : RaidManager) : Prop :=
  ∀ center raid, s.activeRaids center = some raid → raid.totalWaves = 5

theorem NormalRaids.unstuck (h : NormalRaids s) : Unstuck f s := by
  intro center raid hraid _ hlt place hempty
  have htotal := h center raid hraid
  have hnext : raid.nextMobs = [] := by
    rw [← (spawnWave_spec f hraid place).1, hempty]
    rfl
  unfold RaidState.nextMobs RaidState.nextWave at hnext
  rw [if_neg (not_le.2 hlt)] at hnext
  rw [htotal] at hlt
  match hcurrent : raid.currentWave, hlt with
  | 0, _ | 1, _ | 2, _ | 3, _ | 4, _ =>
      rw [hcurrent] at hnext
      revert hnext
      decide

theorem waves_ne_empty (h : difficulty ≠ 0) : ¬ (wavesForDifficulty difficulty).isEmpty := by
  match difficulty, h with
  | 1, _ | 2, _ | _ + 3, _ => exact Bool.false_ne_true

/-- A raid that starts: where, and with how many waves. -/
theorem tryStartRaid_spec (s : RaidManager) (uuid : Uuid) (pos : Position F) (hasBadOmen : Bool)
    (difficulty : Nat) :
    (s.tryStartRaid f uuid pos hasBadOmen difficulty = (none, s) ∧
      ¬ (hasBadOmen = true ∧ difficulty ≠ 0 ∧ (s.startCenter f pos).isSome)) ∨
      ∃ center, hasBadOmen = true ∧ difficulty ≠ 0 ∧ s.startCenter f pos = some center ∧
        s.activeRaids center = none ∧
        s.tryStartRaid f uuid pos hasBadOmen difficulty =
          (some (wavesForDifficulty difficulty).length,
            { s with
              activeRaids := Function.update s.activeRaids center
                (some (RaidManager.starting center uuid
                  (wavesForDifficulty difficulty).length)) }) := by
  unfold RaidManager.tryStartRaid
  split
  · rename_i hrefused
    refine .inl ⟨rfl, fun ⟨homen, h0, _⟩ => ?_⟩
    simp [homen, h0] at hrefused
  · rename_i hstart
    simp only [Bool.or_eq_true, Bool.not_eq_true', decide_eq_true_eq, not_or,
      Bool.not_eq_false] at hstart
    cases hcenter : s.startCenter f pos with
    | none => exact .inl ⟨rfl, fun ⟨_, _, hsome⟩ => nomatch hsome⟩
    | some center =>
        dsimp only
        rw [if_neg (waves_ne_empty hstart.2)]
        refine .inr ⟨center, hstart.1, hstart.2, rfl, ?_, rfl⟩
        exact Option.isNone_iff_eq_none.1 (Option.mem_filter_iff.1 hcenter).2

/-- Raids that are edited keep the number of their waves. -/
theorem normalRaids_modify (h : NormalRaids s) (center : Center) (g : RaidState → RaidState)
    (hg : ∀ raid, (g raid).totalWaves = raid.totalWaves) : NormalRaids (s.modify center g) := by
  intro c raid hraid
  by_cases hc : c = center
  · subst hc
    unfold RaidManager.modify at hraid
    dsimp only at hraid
    rw [Function.update_self] at hraid
    obtain ⟨old, hold, rfl⟩ := Option.map_eq_some_iff.1 hraid
    rw [hg]
    exact h c old hold
  · exact h c raid ((Function.update_of_ne hc ..).symm.trans hraid)

theorem normalRaids_remove (h : NormalRaids s) (center : Center) :
    NormalRaids { s with activeRaids := Function.update s.activeRaids center none } := by
  intro c raid hraid
  by_cases hc : c = center
  · subst hc
    cases (Function.update_self ..).symm.trans hraid
  · exact h c raid ((Function.update_of_ne hc ..).symm.trans hraid)

theorem normalRaids_insert (h : NormalRaids s) (center : Center) {raid : RaidState}
    (htotal : raid.totalWaves = 5) :
    NormalRaids { s with activeRaids := Function.update s.activeRaids center (some raid) } := by
  intro c raid' hraid
  by_cases hc : c = center
  · subst hc
    cases (Function.update_self ..).symm.trans hraid
    exact htotal
  · exact h c raid' ((Function.update_of_ne hc ..).symm.trans hraid)

theorem normalRaids_tick (h : NormalRaids s) : NormalRaids s.tick.2 := by
  intro c raid hraid
  obtain ⟨old, hold, rfl⟩ := Option.map_eq_some_iff.1 hraid
  have htick : old.tick.totalWaves = old.totalWaves := by
    unfold RaidState.tick
    split <;> rfl
  rw [htick]
  exact h c old hold

theorem normalRaids_spawnWave (h : NormalRaids s) (place : Nat → F × F) (center : Center) :
    NormalRaids (s.spawnWave f place center).2 := by
  unfold RaidManager.spawnWave
  cases hraid : s.activeRaids center with
  | none => exact h
  | some raid =>
      dsimp only
      cases raid.nextWave with
      | none => exact h
      | some wave => exact normalRaids_insert h center (h center raid hraid)

/-- Steps that start no raid. -/
theorem normalRaids_step (h : NormalRaids s) {a : Action F} (ha : NormalStart f s a) :
    NormalRaids (s.step f a) := by
  cases a with
  | tryStartRaid uuid pos hasBadOmen difficulty =>
      change NormalRaids (s.tryStartRaid f uuid pos hasBadOmen difficulty).2
      rcases tryStartRaid_spec (f := f) s uuid pos hasBadOmen difficulty with
        ⟨hnone, -⟩ | ⟨center, homen, h0, hcenter, -, hstart⟩
      · rw [hnone]
        exact h
      · rw [hstart]
        obtain rfl : difficulty = 2 := ha homen h0 (hcenter ▸ rfl)
        exact normalRaids_insert h center rfl
  | spawnWave place center => exact normalRaids_spawnWave h place center
  | completeRaid center => exact normalRaids_remove h center
  | registerRaidMob center entityId => exact normalRaids_modify h center _ fun _ => rfl
  | removeRaidMob center entityId => exact normalRaids_modify h center _ fun _ => rfl
  | addParticipant center uuid => exact normalRaids_modify h center _ fun _ => rfl
  | tick => exact normalRaids_tick h
  | cancelRaid center => exact normalRaids_remove h center
  | registerVillage center =>
      change NormalRaids (s.registerVillage center)
      unfold RaidManager.registerVillage
      dsimp only
      split
      · exact h
      · exact h

/-- A raid started from normal raids is won exactly if it is normal itself. -/
theorem winnable_iff (h : NormalRaids s) (a : Action F) :
    Winnable f s a ↔ NormalStart f s a := by
  constructor
  · intro hwin
    cases a with
    | tryStartRaid uuid pos hasBadOmen difficulty =>
        intro homen h0 hcenter
        rcases tryStartRaid_spec (f := f) s uuid pos hasBadOmen difficulty with
          ⟨-, hrefused⟩ | ⟨center, -, -, -, hnew, hstart⟩
        · exact absurd ⟨homen, h0, hcenter⟩ hrefused
        · by_contra h2
          have hraid : (s.step f (.tryStartRaid uuid pos hasBadOmen difficulty)).activeRaids center =
              some (RaidManager.starting center uuid (wavesForDifficulty difficulty).length) := by
            change (s.tryStartRaid f uuid pos hasBadOmen difficulty).2.activeRaids center = _
            rw [hstart]
            exact Function.update_self ..
          obtain ⟨-, hwon⟩ := hwin.2 uuid pos hasBadOmen difficulty _ rfl (congrArg Prod.fst hstart)
          exact not_won h0 h2 hraid (hwon center hnew (hraid ▸ rfl))
    | _ => trivial
  · intro hnormal
    refine ⟨(normalRaids_step h hnormal).unstuck, ?_⟩
    rintro uuid pos hasBadOmen difficulty n rfl hn
    rcases tryStartRaid_spec (f := f) s uuid pos hasBadOmen difficulty with
      ⟨hnone, -⟩ | ⟨center, homen, h0, hcenter, hnew, hstart⟩
    · rw [hnone] at hn
      cases hn
    · obtain rfl : difficulty = 2 := hnormal homen h0 (hcenter ▸ rfl)
      rw [hstart] at hn
      refine ⟨(Option.some.inj hn).symm, fun c hc hsome => ?_⟩
      change ((s.tryStartRaid f uuid pos hasBadOmen 2).2.activeRaids c).isSome at hsome
      rw [hstart] at hsome
      have heq : c = center := by
        by_contra hne
        dsimp only at hsome
        rw [Function.update_of_ne hne, hc] at hsome
        cases hsome
      subst heq
      refine won_of_normal ?_
      change (s.tryStartRaid f uuid pos hasBadOmen 2).2.activeRaids c = _
      rw [hstart]
      exact Function.update_self ..

/-- **Every raid that starts can be won, and none is ever stuck, exactly along the runs in which
every raid that starts has difficulty 2.** -/
theorem along_winnable_iff (f : Floats F) (as : List (Action F)) :
    Along (RaidManager.step f) (Winnable f) RaidManager.new as ↔
      Along (RaidManager.step f) (NormalStart f) RaidManager.new as :=
  along_iff NormalRaids (fun _ a h => winnable_iff h a) (fun _ _ h ha => normalRaids_step h ha)
    (fun _ _ h => absurd h (Option.some_ne_none _).symm) as

/-- A raid on the hard difficulty in the first village. -/
theorem not_forall_along_winnable :
    ¬ ∀ as : List (Action Rat),
      Along (RaidManager.step Floats.exact) (Winnable Floats.exact) RaidManager.new as := by
  intro h
  obtain ⟨-, hwin, -⟩ := h [.registerVillage ⟨0, 64, 0⟩, .tryStartRaid 0 ⟨0, 64, 0⟩ true 3]
  have hnormal : NormalRaids
      (RaidManager.new.step Floats.exact (.registerVillage ⟨0, 64, 0⟩)) := fun _ _ h => nomatch h
  have hstart := (winnable_iff hnormal _).1 hwin rfl (by decide) (by decide +kernel)
  cases hstart

end Apoptotic.Raids
