import Apoptotic.Lib.Reached
import Apoptotic.Player.SpatialIndex

/-!
# Projectiles

`tick_projectiles` of `mc-player/src/mob.rs` and the part of the main loop of
`mc-server/src/main.rs` that handles its events.  The map of the projectiles is a list, in the order
of the sweep, with the entity id as key; a projectile is spawned between two ticks.  What an effect
does to the players near it is left out.

Principal result: `along_handled_iff` — the main loop handles the events of a tick, each once and at
the last position of its projectile, exactly along the runs in which no projectile ends.
-/

namespace Apoptotic.Projectiles

open PlayerManager (Position Uuid)

inductive ProjectileType where
  | arrow | fireball | smallFireball | snowball | egg | enderPearl | trident | splashPotion
  | lingeringPotion | windCharge | witherSkull | firework
  deriving DecidableEq

def ProjectileType.hasGravity : ProjectileType → Bool
  | arrow | snowball | egg | enderPearl | trident | splashPotion | lingeringPotion | firework => true
  | fireball | smallFireball | windCharge | witherSkull => false

structure Projectile (F : Type) where
  entityId : BitVec 32
  ownerUuid : Uuid
  projectileType : ProjectileType
  position : Position F
  velX : F
  velY : F
  velZ : F
  damage : F
  ticksAlive : BitVec 16
  maxTicks : BitVec 16
  inGround : Bool
  loyaltyLevel : BitVec 8
  launchY : F
  powerLevel : BitVec 8

inductive ProjectileEvent (F : Type) where
  | despawn (entityId : BitVec 32)
  | hitEntity (entityId target : BitVec 32)
  | hitBlock (entityId x y z : BitVec 32)
  | returnToOwner (entityId : BitVec 32) (owner : Uuid)
  | explode (entityId : BitVec 32) (position : Position F) (damage : F)

variable {F : Type} (fl : Floats F)

/-! ## `tick_projectiles` -/

namespace Projectile

variable (p : Projectile F)

def age : Projectile F := { p with ticksAlive := p.ticksAlive + 1 }

/-- `(5 - proj.loyalty_level as u16).max(1) * 20`, in `u16`. -/
def returnDelay : BitVec 16 :=
  let left := 5#16 - p.loyaltyLevel.setWidth 16
  (if left = 0#16 then 1#16 else left) * 20#16

/-- Gravity, and the next position. -/
def move : Projectile F :=
  let velY :=
    if p.projectileType.hasGravity then fl.sub p.velY (fl.lit (1 / 20)) else p.velY
  { p with
    velY := velY
    position := ⟨fl.add p.position.x p.velX, fl.add p.position.y velY,
      fl.add p.position.z p.velZ⟩ }

/-- One turn: the projectile after it, and the event with which it is removed. -/
def turn : Projectile F × Option (ProjectileEvent F) :=
  let p := p.age
  if p.maxTicks < p.ticksAlive then (p, some (.despawn p.entityId))
  else if p.inGround then
    if p.projectileType = .trident ∧ 0#8 < p.loyaltyLevel then
      if p.returnDelay < p.ticksAlive then (p, some (.returnToOwner p.entityId p.ownerUuid))
      else (p, none)
    else if 100#16 < p.ticksAlive then (p, some (.despawn p.entityId))
    else (p, none)
  else if p.projectileType = .firework ∧ fl.le p.velY (fl.lit 0) ∧ fl.lt p.position.y p.launchY then
    (p, some (.explode p.entityId p.position p.damage))
  else
    let p := p.move fl
    if fl.lt p.position.y (fl.lit (-64)) then (p, some (.despawn p.entityId)) else (p, none)

end Projectile

abbrev ProjectileMap (F : Type) := List (Projectile F)

namespace ProjectileMap

variable (m : ProjectileMap F) (entityId : BitVec 32)

def get : Option (Projectile F) := m.find? fun p => p.entityId = entityId

def remove : ProjectileMap F := m.filter fun p => p.entityId ≠ entityId

def insert (p : Projectile F) : ProjectileMap F := p :: remove m p.entityId

/-- The projectiles that are removed in this tick, as they are then, with their events. -/
def ended : List (Projectile F × ProjectileEvent F) :=
  m.filterMap fun p => (p.turn fl).2.map fun ev => ((p.turn fl).1, ev)

def tickProjectiles : List (ProjectileEvent F) × ProjectileMap F :=
  let toRemove := (ended fl m).map fun e => e.1.entityId
  ((ended fl m).map Prod.snd, toRemove.foldl remove (m.map fun p => (p.turn fl).1))

end ProjectileMap

/-! ## The main loop -/

inductive Effect (F : Type) where
  /-- Damage and slowness for the players within the radius. -/
  | splash (position : Position F) (radius : F)
  | areaEffectCloud (position : Position F)
  /-- `add_item_to_player(owner, 940, 1)` -/
  | giveTrident (owner : Uuid)
  | explosion (position : Position F) (damage : F)
  | lightning (position : Position F)
  | hitPlayers (position : Position F) (damage : F)

/-- An event that reached the code for it. -/
structure Handled (F : Type) where
  event : ProjectileEvent F
  position : Position F
  effects : List (Effect F)

/-- The potion that a projectile is. -/
def potionEffects (p : Projectile F) : List (Effect F) :=
  match p.projectileType with
  | .lingeringPotion => [.splash p.position (fl.lit 5), .areaEffectCloud p.position]
  | .splashPotion => [.splash p.position (fl.lit 8)]
  | _ => []

/-- Loyalty, channeling and hits, for a projectile with an owner. -/
def ownerEffects (p : Projectile F) : List (Effect F) :=
  if p.ownerUuid = 0 then []
  else
    (if p.projectileType = .trident ∧ 0#8 < p.loyaltyLevel then [.giveTrident p.ownerUuid]
      else []) ++
    (if p.projectileType = .trident ∧ 0#8 < p.powerLevel then [.lightning p.position] else []) ++
    [.hitPlayers p.position p.damage]

/-- The body of the loop over the events.  The tests for the two other events stand under the one
for `Despawn`. -/
def handle (m : ProjectileMap F) (ev : ProjectileEvent F) : Option (Handled F) × ProjectileMap F :=
  match ev with
  | .despawn eid =>
      match ProjectileMap.get m eid with
      | some p =>
          match ev with
          | .returnToOwner eid owner =>
              (some ⟨ev, p.position, potionEffects fl p ++ [.giveTrident owner]⟩,
                ProjectileMap.remove m eid)
          | .explode eid position damage =>
              (some ⟨ev, p.position, potionEffects fl p ++ [.explosion position damage]⟩,
                ProjectileMap.remove m eid)
          | _ => (some ⟨ev, p.position, potionEffects fl p ++ ownerEffects p⟩, m)
      | none => (none, m)
  | _ => (none, m)

/-- `for ev in &proj_events` -/
def handleAll : ProjectileMap F → List (ProjectileEvent F) → List (Handled F) × ProjectileMap F
  | m, [] => ([], m)
  | m, ev :: evs =>
      let (h, m) := handle fl m ev
      let (hs, m) := handleAll m evs
      (h.toList ++ hs, m)

/-- What is due for a projectile that ended. -/
def due (e : Projectile F × ProjectileEvent F) : Handled F :=
  ⟨e.2, e.1.position,
    match e.2 with
    | .returnToOwner _ owner => [.giveTrident owner]
    | .explode _ position damage => [.explosion position damage]
    | _ => potionEffects fl e.1 ++ ownerEffects e.1⟩

/-! ## Runs -/

inductive Action (F : Type) where
  | spawn (p : Projectile F)
  | tick

/-- What the main loop handles in a tick. -/
def handledIn (m : ProjectileMap F) : List (Handled F) :=
  (handleAll fl (ProjectileMap.tickProjectiles fl m).2 (ProjectileMap.tickProjectiles fl m).1).1

def step (m : ProjectileMap F) : Action F → ProjectileMap F
  | .spawn p => ProjectileMap.insert m p
  | .tick =>
      (handleAll fl (ProjectileMap.tickProjectiles fl m).2
        (ProjectileMap.tickProjectiles fl m).1).2

/-- **Every projectile that ends in a tick is handled once, with the effects due at its last
position.** -/
def HandlesAll (m : ProjectileMap F) : Action F → Prop
  | .spawn _ => True
  | .tick => handledIn fl m = (ProjectileMap.ended fl m).map (due fl)

/-- The projectile expires, has lain long enough, bursts or falls out of the world. -/
inductive Ends (p : Projectile F) : Prop where
  | expires (h : p.maxTicks < p.ticksAlive + 1)
  | returns (h : p.inGround) (ht : p.projectileType = .trident ∧ 0#8 < p.loyaltyLevel)
      (hd : p.returnDelay < p.ticksAlive + 1)
  | lies (h : p.inGround) (ht : ¬ (p.projectileType = .trident ∧ 0#8 < p.loyaltyLevel))
      (hd : 100#16 < p.ticksAlive + 1)
  | bursts (h : p.inGround = false) (ht : p.projectileType = .firework)
      (hv : fl.le p.velY (fl.lit 0)) (hy : fl.lt p.position.y p.launchY)
  | falls (h : p.inGround = false)
      (hf : ¬ (p.projectileType = .firework ∧ fl.le p.velY (fl.lit 0) ∧
        fl.lt p.position.y p.launchY))
      (hy : fl.lt (p.move fl).position.y (fl.lit (-64)))

/-- No projectile ends in this tick. -/
def NoneEnds (m : ProjectileMap F) : Action F → Prop
  | .spawn _ => True
  | .tick => ∀ p ∈ m, ¬ Ends fl p

/-! ## When a projectile ends -/

variable {fl}

/-- A turn removes the projectile exactly if it ends. -/
theorem isSome_turn_iff (p : Projectile F) : (p.turn fl).2.isSome ↔ Ends fl p := by
  have hmove : (p.age.move fl).position = (p.move fl).position := rfl
  unfold Projectile.turn
  dsimp only
  split_ifs with hexpires hground htrident hdelay hlies hburst hfalls
  · exact iff_of_true rfl (.expires hexpires)
  · exact iff_of_true rfl (.returns hground htrident hdelay)
  · refine iff_of_false Bool.false_ne_true ?_
    rintro (h | ⟨_, _, hd⟩ | ⟨_, ht, _⟩ | ⟨h, _, _, _⟩ | ⟨h, _, _⟩)
    · exact hexpires h
    · exact hdelay hd
    · exact ht htrident
    · exact absurd hground (Bool.eq_false_iff.1 h)
    · exact absurd hground (Bool.eq_false_iff.1 h)
  · exact iff_of_true rfl (.lies hground htrident hlies)
  · refine iff_of_false Bool.false_ne_true ?_
    rintro (h | ⟨_, ht, _⟩ | ⟨_, _, hd⟩ | ⟨h, _, _, _⟩ | ⟨h, _, _⟩)
    · exact hexpires h
    · exact htrident ht
    · exact hlies hd
    · exact absurd hground (Bool.eq_false_iff.1 h)
    · exact absurd hground (Bool.eq_false_iff.1 h)
  · exact iff_of_true rfl (.bursts (Bool.eq_false_iff.2 hground) hburst.1 hburst.2.1 hburst.2.2)
  · exact iff_of_true rfl (.falls (Bool.eq_false_iff.2 hground) hburst hfalls)
  · refine iff_of_false Bool.false_ne_true ?_
    rintro (h | ⟨h, _, _⟩ | ⟨h, _, _⟩ | ⟨_, ht, hv, hy⟩ | ⟨_, _, hy⟩)
    · exact hexpires h
    · exact hground h
    · exact hground h
    · exact hburst ⟨ht, hv, hy⟩
    · exact hfalls hy

theorem ended_eq_nil_iff (m : ProjectileMap F) :
    ProjectileMap.ended fl m = [] ↔ ∀ p ∈ m, ¬ Ends fl p := by
  unfold ProjectileMap.ended
  rw [List.filterMap_eq_nil_iff]
  refine forall₂_congr fun p _ => ?_
  rw [Option.map_eq_none_iff, ← isSome_turn_iff, Bool.not_eq_true, Option.isSome_eq_false_iff,
    Option.isNone_iff_eq_none]

/-! ## What the main loop finds -/

theorem get_remove_of_get {m : ProjectileMap F} {id : BitVec 32} (removed : BitVec 32)
    (h : ProjectileMap.get m id = none) : ProjectileMap.get (ProjectileMap.remove m removed) id =
      none := by
  unfold ProjectileMap.get at h ⊢
  rw [List.find?_eq_none] at h ⊢
  exact fun p hp => h p (List.mem_filter.1 hp).1

theorem get_remove_self (m : ProjectileMap F) (id : BitVec 32) :
    ProjectileMap.get (ProjectileMap.remove m id) id = none := by
  unfold ProjectileMap.get
  rw [List.find?_eq_none]
  intro p hp heq
  exact of_decide_eq_true (List.mem_filter.1 hp).2 (of_decide_eq_true heq)

/-- What is removed stays away. -/
theorem get_foldl_remove {m : ProjectileMap F} {id : BitVec 32} {ids : List (BitVec 32)}
    (h : id ∈ ids ∨ ProjectileMap.get m id = none) :
    ProjectileMap.get (ids.foldl ProjectileMap.remove m) id = none := by
  induction ids generalizing m with
  | nil => exact h.resolve_left List.not_mem_nil
  | cons i ids ih =>
      apply ih
      rcases h with hmem | hnone
      · rcases List.mem_cons.1 hmem with rfl | hmem
        · exact .inr (get_remove_self m id)
        · exact .inl hmem
      · exact .inr (get_remove_of_get i hnone)

/-- An event carries the id of its projectile. -/
theorem eq_of_turn_despawn {p : Projectile F} {eid : BitVec 32}
    (h : (p.turn fl).2 = some (.despawn eid)) : eid = (p.turn fl).1.entityId := by
  revert h
  unfold Projectile.turn
  dsimp only
  split_ifs
  all_goals rintro ⟨⟩
  all_goals rfl

/-- The projectile of each `Despawn` is gone when the event is handled. -/
theorem get_of_mem_events {m : ProjectileMap F} {eid : BitVec 32}
    (h : .despawn eid ∈ (ProjectileMap.tickProjectiles fl m).1) :
    ProjectileMap.get (ProjectileMap.tickProjectiles fl m).2 eid = none := by
  obtain ⟨e, he, hev⟩ := List.mem_map.1 h
  obtain ⟨p, hp, hpe⟩ := List.mem_filterMap.1 he
  obtain ⟨ev, hturn, rfl⟩ := Option.map_eq_some_iff.1 hpe
  obtain rfl : ev = .despawn eid := hev
  refine get_foldl_remove (.inl (List.mem_map.2 ⟨_, he, ?_⟩))
  exact (eq_of_turn_despawn hturn).symm

/-- Events that name no projectile are passed by. -/
theorem handleAll_eq {m : ProjectileMap F} {evs : List (ProjectileEvent F)}
    (h : ∀ eid, .despawn eid ∈ evs → ProjectileMap.get m eid = none) :
    handleAll fl m evs = ([], m) := by
  induction evs with
  | nil => rfl
  | cons ev evs ih =>
      have hev : handle fl m ev = (none, m) := by
        cases ev with
        | despawn eid =>
            unfold handle
            dsimp only
            rw [h eid List.mem_cons_self]
        | hitEntity _ _ => rfl
        | hitBlock _ _ _ _ => rfl
        | returnToOwner _ _ => rfl
        | explode _ _ _ => rfl
      unfold handleAll
      rw [hev]
      dsimp only
      rw [ih fun eid heid => h eid (List.mem_cons_of_mem ev heid)]
      rfl

/-- **The main loop handles no event at all.** -/
theorem handledIn_eq_nil (m : ProjectileMap F) : handledIn fl m = [] := by
  unfold handledIn
  rw [handleAll_eq fun eid heid => get_of_mem_events heid]

theorem handlesAll_iff_noneEnds (m : ProjectileMap F) (a : Action F) :
    HandlesAll fl m a ↔ NoneEnds fl m a := by
  cases a with
  | spawn p => exact Iff.rfl
  | tick =>
      unfold HandlesAll NoneEnds
      rw [handledIn_eq_nil, ← ended_eq_nil_iff, eq_comm, List.map_eq_nil_iff]

/-- **Projectiles that end are handled exactly along the runs in which none ends.** -/
theorem along_handled_iff (fl : Floats F) (as : List (Action F)) :
    Along (step fl) (HandlesAll fl) [] as ↔ Along (step fl) (NoneEnds fl) [] as :=
  along_iff (fun _ => True) (fun m a _ => handlesAll_iff_noneEnds m a) (fun _ _ _ _ => trivial)
    trivial as

/-- A splash potion of a player, thrown out of the world. -/
def potion : Projectile Rat where
  entityId := 100000
  ownerUuid := 1
  projectileType := .splashPotion
  position := ⟨0, -64, 0⟩
  velX := 0
  velY := -1
  velZ := 0
  damage := 0
  ticksAlive := 0
  maxTicks := 600
  inGround := false
  loyaltyLevel := 0
  launchY := 64
  powerLevel := 0

theorem not_forall_along_handled :
    ¬ ∀ as : List (Action Rat), Along (step Floats.exact) (HandlesAll Floats.exact) [] as := by
  intro h
  obtain ⟨-, htick, -⟩ := h [.spawn potion, .tick]
  have hends : Ends Floats.exact potion :=
    .falls rfl (by decide +kernel) (by decide +kernel)
  exact (handlesAll_iff_noneEnds _ _).1 htick potion List.mem_cons_self hends

end Apoptotic.Projectiles
