import Apoptotic.Lib.Reached
import Apoptotic.Network.Movement

/-!
# Hurt immunity

The damage functions of `mc-player/src/player.rs` with their one time stamp for each player, and
their callers in `main.rs`, `tick.rs`, `mob.rs` and `play_loop.rs`: on the tick count of the server,
on the local count of a connection, and on none of them.  What sets the health without a stamp, as
poison and hunger do, is left out.

Principal result: `along_timely_iff` — immunity lasts ten server ticks exactly when all that goes
through is stamped with the tick count of the server, respects the immunity, and comes from nobody
who was hurt before.
-/

namespace Apoptotic.Hurt

open Movement (calculateArmorReduction)

abbrev Uuid := Commands.Uuid

/-! ## Players -/

structure Player where
  health : ERat
  lastDamageTick : BitVec 64
  /-- `get_effect_level` -/
  effectLevel : Nat → Nat
  armorPoints : ERat
  armorToughness : ERat

namespace Player

def new : Player := ⟨20, 0, fun _ => 0, 0, 0⟩

variable (p : Player)

/-- `current_tick.saturating_sub(p.last_damage_tick) >= 10` -/
def canTakeDamage (currentTick : BitVec 64) : Bool :=
  decide (10 ≤ currentTick.toNat - p.lastDamageTick.toNat)

def setHealth (health : ERat) : Player := { p with health := health.max 0 }

def markDamageTaken (tick : BitVec 64) : Player := { p with lastDamageTick := tick }

/-- `apply_damage_with_enchants`, of what the attacker has left of the damage. -/
def hit (damage : ERat) (tick : BitVec 64) : Player :=
  let level := p.effectLevel 10
  let effective := if 0 < level then
      damage.mul ((ERat.sub 1 (.mul (.finite level) (.finite (1 / 5)))).max 0)
    else damage
  let reduced := calculateArmorReduction p.armorPoints p.armorToughness effective
  { p with health := (p.health.sub reduced).max 0, lastDamageTick := tick }

/-- What `apply_fall_damage` applies. -/
def fallDamage (fallDistance : ERat) (featherFalling : Nat) : Option ERat :=
  if 0 < p.effectLevel 27 then none
  else if ERat.lt 3 fallDistance then
    let damage := fallDistance.sub 3
    some (if 0 < featherFalling then
        damage.mul ((ERat.sub 1 (.mul (.finite featherFalling) (.finite (12 / 100)))).max 0)
      else damage)
  else none

/-- What `apply_environmental_damage` applies. -/
def environmentalDamage (dmgType : String) : Option ERat :=
  if dmgType = "fire" ∧ 0 < p.effectLevel 11 then none
  else if dmgType = "drowning" ∧ (0 < p.effectLevel 12 ∨ 0 < p.effectLevel 28) then none
  else some (if dmgType = "void" then 4 else if dmgType = "drowning" then 2 else 1)

end Player

/-- The ticks that a weapon needs. -/
def baseTicks (itemId : Nat) : Nat :=
  if itemId ∈ [780, 785, 792] then 32 else if itemId ∈ [769, 787, 790] then 24 else 20

/-! ## The server -/

structure Server where
  /-- `tick_count` of the main loop. -/
  tickCount : BitVec 64
  /-- `tick_count` of the loop that serves a player. -/
  connections : Uuid → BitVec 64
  players : Uuid → Option Player

/-- A blow: the weapon, its sharpness and the damage it does at a cooldown, before strength. -/
structure Blow where
  itemId : Nat
  sharpness : Option Nat
  damage : ERat → ERat

/-- What happens to clocks and players. -/
inductive Action where
  /-- The main loop begins a tick. -/
  | tick
  /-- The loop that serves a player begins a turn. -/
  | turn (uuid : Uuid)
  | join (uuid : Uuid)
  | leave (uuid : Uuid)
  /-- A mob, a stalactite or an explosion that asks `can_take_damage`, in the main loop. -/
  | strike (uuid : Uuid) (health : ERat)
  /-- A projectile or an explosion that does not ask, in the main loop. -/
  | blast (uuid : Uuid) (damage : ERat)
  /-- Lightning, with tick 0, or a mob that uses 0 or its own age. -/
  | stray (uuid : Uuid) (damage : ERat) (tick : BitVec 64)
  | fallDamage (uuid : Uuid) (fallDistance : ERat) (featherFalling : Nat)
  | environmentalDamage (uuid : Uuid) (dmgType : String)
  /-- A landing, in the loop that serves the player. -/
  | land (uuid : Uuid) (damage : ERat)
  /-- An attack, in the loop that serves the attacker. -/
  | attack (uuid target : Uuid) (blow : Blow)
  /-- One player near the target of a sweeping attack. -/
  | sweep (uuid nearby : Uuid) (damage : ERat)

namespace Server

def new : Server := ⟨0, fun _ => 0, fun _ => none⟩

variable (s : Server)

def modify (uuid : Uuid) (f : Player → Player) : Server :=
  { s with players := Function.update s.players uuid ((s.players uuid).map f) }

def canTakeDamage (uuid : Uuid) (currentTick : BitVec 64) : Bool :=
  ((s.players uuid).map fun p => p.canTakeDamage currentTick).getD false

def markDamageTaken (uuid : Uuid) (tick : BitVec 64) : Server :=
  s.modify uuid fun p => p.markDamageTaken tick

def getEffectLevel (uuid : Uuid) (effectId : Nat) : Nat :=
  ((s.players uuid).map fun p => p.effectLevel effectId).getD 0

/-- `apply_damage` -/
def applyDamage (uuid : Uuid) (damage : ERat) (tick : BitVec 64) : Server :=
  s.modify uuid fun p => p.hit damage tick

/-- `apply_damage_with_enchants` with an attacker. -/
def applyDamageFrom (attacker uuid : Uuid) (sharpness : Option Nat) (damage : ERat)
    (tick : BitVec 64) : Server :=
  let strength := ERat.finite (s.getEffectLevel attacker 4)
  let weakness := ERat.finite (s.getEffectLevel attacker 17)
  let effective := ((damage.add (strength.mul 3)).sub (weakness.mul 4)).max 0
  s.applyDamage uuid (match sharpness with
    | some sharp => effective.add (.mul (.finite sharp) (.finite (5 / 4)))
    | none => effective) tick

/-- `set_last_attack` reuses the stamp of the damage. -/
def setLastAttack (uuid : Uuid) (tick : BitVec 64) : Server :=
  s.modify uuid fun p => { p with lastDamageTick := tick }

/-- The subtraction wraps round. -/
def getAttackCooldown (uuid : Uuid) (itemId : Nat) (currentTick : BitVec 64) : ERat :=
  match s.players uuid with
  | some p => (ERat.finite ((currentTick - p.lastDamageTick).toNat / baseTicks itemId)).min 1
  | none => 1

/-- The stamp after the last one, 1 without a player. -/
def nextTick (uuid : Uuid) : BitVec 64 := ((s.players uuid).map Player.lastDamageTick).getD 0 + 1

/-- A check and the damage in the main loop. -/
def strike (uuid : Uuid) (health : ERat) : Server :=
  if s.canTakeDamage uuid s.tickCount then
    (s.modify uuid fun p => p.setHealth health).markDamageTaken uuid s.tickCount
  else s

def applyFallDamage (uuid : Uuid) (fallDistance : ERat) (featherFalling : Nat) : Server :=
  match (s.players uuid).bind fun p => p.fallDamage fallDistance featherFalling with
  | some damage => s.applyDamage uuid damage (s.nextTick uuid)
  | none => s

def applyEnvironmentalDamage (uuid : Uuid) (dmgType : String) : Server :=
  match (s.players uuid).bind fun p => p.environmentalDamage dmgType with
  | some damage => s.applyDamage uuid damage (s.nextTick uuid)
  | none => s

/-- The attack handler. -/
def attack (uuid target : Uuid) (blow : Blow) : Server :=
  let currentTick := s.connections uuid
  if s.canTakeDamage target currentTick then
    let cooldown := s.getAttackCooldown uuid blow.itemId currentTick
    (s.applyDamageFrom uuid target blow.sharpness (blow.damage cooldown) currentTick).setLastAttack
      uuid currentTick
  else s

def step : Action → Server
  | .tick => { s with tickCount := s.tickCount + 1 }
  | .turn uuid =>
      { s with connections := Function.update s.connections uuid (s.connections uuid + 1) }
  | .join uuid =>
      { s with
        connections := Function.update s.connections uuid 0
        players := Function.update s.players uuid (some .new) }
  | .leave uuid => { s with players := Function.update s.players uuid none }
  | .strike uuid health => s.strike uuid health
  | .blast uuid damage => s.applyDamage uuid damage s.tickCount
  | .stray uuid damage tick => s.applyDamage uuid damage tick
  | .fallDamage uuid fallDistance featherFalling =>
      s.applyFallDamage uuid fallDistance featherFalling
  | .environmentalDamage uuid dmgType => s.applyEnvironmentalDamage uuid dmgType
  | .land uuid damage => s.applyDamage uuid damage (s.connections uuid)
  | .attack uuid target blow => s.attack uuid target blow
  | .sweep uuid nearby damage => s.applyDamage nearby damage (s.connections uuid + 1)

end Server

/-! ## Attempts -/

/-- An attempt to damage a player: the tick it is stamped with, and whether it asks
`can_take_damage` at that tick first. -/
structure Attempt where
  target : Uuid
  tick : BitVec 64
  checked : Bool

/-- The attempt that an action makes. -/
def Server.attempt? (s : Server) : Action → Option Attempt
  | .strike uuid _ => some ⟨uuid, s.tickCount, true⟩
  | .blast uuid _ => some ⟨uuid, s.tickCount, false⟩
  | .stray uuid _ tick => some ⟨uuid, tick, false⟩
  | .fallDamage uuid fallDistance featherFalling =>
      ((s.players uuid).bind fun p => p.fallDamage fallDistance featherFalling).map fun _ =>
        ⟨uuid, s.nextTick uuid, false⟩
  | .environmentalDamage uuid dmgType =>
      ((s.players uuid).bind fun p => p.environmentalDamage dmgType).map fun _ =>
        ⟨uuid, s.nextTick uuid, false⟩
  | .land uuid _ => some ⟨uuid, s.connections uuid, false⟩
  | .attack uuid target _ => some ⟨target, s.connections uuid, true⟩
  | .sweep uuid nearby _ => some ⟨nearby, s.connections uuid + 1, false⟩
  | _ => none

/-- The player whose stamp an attack reuses. -/
def Action.attacker? : Action → Option Uuid
  | .attack uuid _ _ => some uuid
  | _ => none

def Action.isTick : Action → Bool
  | .tick => true
  | _ => false

/-- The target is there, and the attempt does not ask or is let through. -/
def Attempt.lands (s : Server) (t : Attempt) : Bool :=
  match s.players t.target with
  | some p => !t.checked || p.canTakeDamage t.tick
  | none => false

/-- The player who takes damage. -/
def Server.hurts (s : Server) (a : Action) : Option Uuid :=
  (s.attempt? a).bind fun t => if t.lands s then some t.target else none

/-! ## Time -/

/-- The server beside the ticks that have passed, and when each player last took damage. -/
structure Timed where
  server : Server
  now : Nat
  hurtAt : Uuid → Option Nat

namespace Timed

def new : Timed := ⟨.new, 0, fun _ => none⟩

variable (r : Timed)

def nowAfter : Action → Nat
  | .tick => r.now + 1
  | _ => r.now

def hurtAtAfter (a : Action) : Uuid → Option Nat :=
  match a with
  | .join uuid => Function.update r.hurtAt uuid none
  | .leave uuid => Function.update r.hurtAt uuid none
  | a =>
      match r.server.hurts a with
      | some uuid => Function.update r.hurtAt uuid (some r.now)
      | none => r.hurtAt

def step (a : Action) : Timed := ⟨r.server.step a, r.nowAfter a, r.hurtAtAfter a⟩

/-- From now on, a player who took damage can take damage again, by the clock of the server, exactly
when ten ticks have passed. -/
def Lasts : Prop := ∀ uuid h p, r.hurtAt uuid = some h → r.server.players uuid = some p →
  ∀ k ≤ 10, p.canTakeDamage (r.server.tickCount + BitVec.ofNat 64 k) = true ↔ h + 10 ≤ r.now + k

/-- What is asked of a step. -/
structure Timely (a : Action) : Prop where
  /-- Who took damage takes damage exactly when ten ticks have passed. -/
  taken : ∀ t h, r.server.attempt? a = some t → r.hurtAt t.target = some h →
    (t.lands r.server = true ↔ h + 10 ≤ r.now)
  /-- The subtraction in the cooldown does not underflow. -/
  cooldown : ∀ uuid t p, a.attacker? = some uuid → r.server.attempt? a = some t →
    t.lands r.server = true → r.server.players uuid = some p →
    p.lastDamageTick.toNat ≤ (r.server.connections uuid).toNat
  lasts : (r.step a).Lasts

/-- The attempt meets its target, and does not ask or is at least ten ticks past the stamp. -/
def Reaches (t : Attempt) : Prop := ∃ p, r.server.players t.target = some p ∧
  (t.checked = true → p.lastDamageTick.toNat + 10 ≤ t.tick.toNat)

/-- The condition on a step. -/
structure Fair (a : Action) : Prop where
  /-- What goes through is stamped with the tick count of the server ... -/
  clock : ∀ t, r.server.attempt? a = some t → r.Reaches t → t.tick = r.server.tickCount
  /-- ... and, if it does not ask, it meets nobody hurt within ten ticks. -/
  rested : ∀ t h, r.server.attempt? a = some t → r.Reaches t → t.checked = false →
    r.hurtAt t.target = some h → h + 10 ≤ r.now
  /-- What is refused to a player who was hurt, the server's tick count would refuse as well. -/
  refused : ∀ t h p, r.server.attempt? a = some t → ¬ r.Reaches t →
    r.hurtAt t.target = some h → r.server.players t.target = some p →
    r.server.tickCount.toNat < p.lastDamageTick.toNat + 10
  /-- An attacker who was hurt before is hurt in the same tick, or hurts itself. -/
  attacker : ∀ uuid t h, a.attacker? = some uuid → r.server.attempt? a = some t → r.Reaches t →
    r.hurtAt uuid = some h → uuid = t.target ∨ h = r.now

end Timed

/-! ## Stamps -/

namespace Server

variable (s : Server)

def stamp (uuid : Uuid) : Option (BitVec 64) := (s.players uuid).map Player.lastDamageTick

variable {s}

theorem modify_of_none {uuid : Uuid} (h : s.players uuid = none) (f : Player → Player) :
    s.modify uuid f = s := by
  unfold modify
  rw [h, Option.map_none, ← h, Function.update_eq_self]

/-- What a change of one player makes of the stamps. -/
theorem stamp_modify (s : Server) (uuid : Uuid) (f : Player → Player) {g : BitVec 64 → BitVec 64}
    (hf : ∀ p, (f p).lastDamageTick = g p.lastDamageTick) (v : Uuid) :
    (s.modify uuid f).stamp v = if v = uuid then (s.stamp v).map g else s.stamp v := by
  unfold stamp modify
  by_cases hv : v = uuid
  · subst hv
    simp [Function.comp_def, hf]
  · simp [hv]

theorem stamp_applyDamage (s : Server) (uuid : Uuid) (damage : ERat) (tick : BitVec 64) (v : Uuid) :
    (s.applyDamage uuid damage tick).stamp v =
      if v = uuid then (s.stamp v).map fun _ => tick else s.stamp v :=
  stamp_modify s uuid _ (fun _ => rfl) v

theorem stamp_markDamageTaken (s : Server) (uuid : Uuid) (tick : BitVec 64) (v : Uuid) :
    (s.markDamageTaken uuid tick).stamp v =
      if v = uuid then (s.stamp v).map fun _ => tick else s.stamp v :=
  stamp_modify s uuid _ (fun _ => rfl) v

theorem stamp_setLastAttack (s : Server) (uuid : Uuid) (tick : BitVec 64) (v : Uuid) :
    (s.setLastAttack uuid tick).stamp v =
      if v = uuid then (s.stamp v).map fun _ => tick else s.stamp v :=
  stamp_modify s uuid _ (fun _ => rfl) v

theorem stamp_setHealth (s : Server) (uuid : Uuid) (health : ERat) (v : Uuid) :
    (s.modify uuid fun p => p.setHealth health).stamp v = s.stamp v := by
  have h := stamp_modify s uuid (fun p => p.setHealth health) (g := id) (fun _ => rfl) v
  simpa using h

end Server

theorem lands_checked (s : Server) (uuid : Uuid) (tick : BitVec 64) :
    (⟨uuid, tick, true⟩ : Attempt).lands s = s.canTakeDamage uuid tick := by
  unfold Attempt.lands Server.canTakeDamage
  cases s.players uuid <;> rfl

theorem lands_unchecked (s : Server) (uuid : Uuid) (tick : BitVec 64) :
    (⟨uuid, tick, false⟩ : Attempt).lands s = (s.players uuid).isSome := by
  unfold Attempt.lands
  cases s.players uuid <;> rfl

theorem applyDamage_of_missed {s : Server} {uuid : Uuid} {tick : BitVec 64}
    (h : (⟨uuid, tick, false⟩ : Attempt).lands s = false) (damage : ERat) :
    s.applyDamage uuid damage tick = s := by
  rw [lands_unchecked, Option.isSome_eq_false_iff, Option.isNone_iff_eq_none] at h
  exact Server.modify_of_none h _

/-- What misses changes nothing. -/
theorem step_of_missed {s : Server} {a : Action} {t : Attempt} (ha : s.attempt? a = some t)
    (h : t.lands s = false) : s.step a = s := by
  cases a with
  | tick => cases ha
  | turn uuid => cases ha
  | join uuid => cases ha
  | leave uuid => cases ha
  | strike uuid health =>
      cases ha
      rw [lands_checked] at h
      simp [Server.step, Server.strike, h]
  | attack uuid target blow =>
      cases ha
      rw [lands_checked] at h
      simp [Server.step, Server.attack, h]
  | fallDamage uuid fallDistance featherFalling =>
      obtain ⟨damage, hdamage, rfl⟩ := Option.map_eq_some_iff.1 ha
      simp [Server.step, Server.applyFallDamage, hdamage, applyDamage_of_missed h]
  | environmentalDamage uuid dmgType =>
      obtain ⟨damage, hdamage, rfl⟩ := Option.map_eq_some_iff.1 ha
      simp [Server.step, Server.applyEnvironmentalDamage, hdamage, applyDamage_of_missed h]
  | blast uuid damage =>
      cases ha
      exact applyDamage_of_missed h damage
  | stray uuid damage tick =>
      cases ha
      exact applyDamage_of_missed h damage
  | land uuid damage =>
      cases ha
      exact applyDamage_of_missed h damage
  | sweep uuid nearby damage =>
      cases ha
      exact applyDamage_of_missed h damage

/-- What lands changes neither clock. -/
theorem clocks_of_attempt {s : Server} {a : Action} {t : Attempt} (ha : s.attempt? a = some t) :
    (s.step a).tickCount = s.tickCount ∧ (s.step a).connections = s.connections := by
  cases a with
  | tick => cases ha
  | turn uuid => cases ha
  | join uuid => cases ha
  | leave uuid => cases ha
  | strike uuid health =>
      simp only [Server.step, Server.strike]
      split <;> exact ⟨rfl, rfl⟩
  | attack uuid target blow =>
      simp only [Server.step, Server.attack]
      split <;> exact ⟨rfl, rfl⟩
  | fallDamage uuid fallDistance featherFalling =>
      simp only [Server.step, Server.applyFallDamage]
      split <;> exact ⟨rfl, rfl⟩
  | environmentalDamage uuid dmgType =>
      simp only [Server.step, Server.applyEnvironmentalDamage]
      split <;> exact ⟨rfl, rfl⟩
  | blast uuid damage => exact ⟨rfl, rfl⟩
  | stray uuid damage tick => exact ⟨rfl, rfl⟩
  | land uuid damage => exact ⟨rfl, rfl⟩
  | sweep uuid nearby damage => exact ⟨rfl, rfl⟩

theorem stamp_isSome_of_lands {s : Server} {t : Attempt} (h : t.lands s = true) :
    ∃ last, s.stamp t.target = some last := by
  unfold Attempt.lands at h
  unfold Server.stamp
  cases hp : s.players t.target with
  | none => simp [hp] at h
  | some p => exact ⟨p.lastDamageTick, rfl⟩

/-- **What lands stamps its target**, and an attack its attacker. -/
theorem stamp_of_landed {s : Server} {a : Action} {t : Attempt} (ha : s.attempt? a = some t)
    (h : t.lands s = true) (v : Uuid) :
    (s.step a).stamp v = if v = t.target ∨ a.attacker? = some v then (s.stamp v).map fun _ => t.tick
      else s.stamp v := by
  cases a with
  | tick => cases ha
  | turn uuid => cases ha
  | join uuid => cases ha
  | leave uuid => cases ha
  | strike uuid health =>
      cases ha
      rw [lands_checked] at h
      simp only [Server.step, Server.strike, h, if_true, Server.stamp_markDamageTaken,
        Server.stamp_setHealth]
      simp [Action.attacker?]
  | attack uuid target blow =>
      cases ha
      rw [lands_checked] at h
      simp only [Server.step, Server.attack, h, if_true, Server.applyDamageFrom,
        Server.stamp_setLastAttack, Server.stamp_applyDamage]
      by_cases huuid : uuid = v
      · subst huuid
        by_cases htarget : uuid = target <;> simp [Action.attacker?, htarget, Function.comp_def]
      · simp [Action.attacker?, huuid, Ne.symm huuid]
  | fallDamage uuid fallDistance featherFalling =>
      obtain ⟨damage, hdamage, rfl⟩ := Option.map_eq_some_iff.1 ha
      simpa [Server.step, Server.applyFallDamage, hdamage, Action.attacker?] using
        Server.stamp_applyDamage s uuid damage _ v
  | environmentalDamage uuid dmgType =>
      obtain ⟨damage, hdamage, rfl⟩ := Option.map_eq_some_iff.1 ha
      simpa [Server.step, Server.applyEnvironmentalDamage, hdamage, Action.attacker?] using
        Server.stamp_applyDamage s uuid damage _ v
  | blast uuid damage =>
      cases ha
      simpa [Server.step, Action.attacker?] using Server.stamp_applyDamage s uuid damage _ v
  | stray uuid damage tick =>
      cases ha
      simpa [Server.step, Action.attacker?] using Server.stamp_applyDamage s uuid damage _ v
  | land uuid damage =>
      cases ha
      simpa [Server.step, Action.attacker?] using Server.stamp_applyDamage s uuid damage _ v
  | sweep uuid nearby damage =>
      cases ha
      simpa [Server.step, Action.attacker?] using Server.stamp_applyDamage s nearby damage _ v

namespace Timed

variable {r : Timed}

/-! ## One step -/

theorem reaches_iff (t : Attempt) : r.Reaches t ↔ t.lands r.server = true := by
  unfold Reaches Attempt.lands
  cases hp : r.server.players t.target with
  | none => simp
  | some p =>
      cases t.checked with
      | false => simp
      | true =>
          simp [Player.canTakeDamage]
          omega

/-- The stamp stands for the tick of the damage, or both are ten ticks old. -/
def Dated (now : Nat) (last : BitVec 64) (h : Nat) : Prop :=
  last.toNat = h ∨ h + 10 ≤ now ∧ last.toNat + 10 ≤ now

/-- The tick count is right, and the stamps are. -/
structure Good (r : Timed) : Prop where
  count : r.server.tickCount.toNat = r.now
  room : r.now + 10 < 2 ^ 64
  stamps : ∀ uuid last, r.server.stamp uuid = some last → last.toNat ≤ r.now
  hurt : ∀ uuid h, r.hurtAt uuid = some h →
    h ≤ r.now ∧ ∃ last, r.server.stamp uuid = some last ∧ Dated r.now last h

/-- The tick count does not come to its end. -/
def Room (r : Timed) (a : Action) : Prop := a.isTick = true → r.now + 11 < 2 ^ 64

theorem dated_iff {now h : Nat} {last : BitVec 64} (hh : h ≤ now) :
    (∀ k ≤ 10, last.toNat + 10 ≤ now + k ↔ h + 10 ≤ now + k) ↔ Dated now last h := by
  unfold Dated
  constructor
  · intro hk
    by_cases hold : h + 10 ≤ now
    · have hzero := hk 0 (by omega)
      omega
    · -- the last tick of the immunity, and the first after it
      have hlast := hk (h + 9 - now) (by omega)
      have hfirst := hk (h + 10 - now) (by omega)
      omega
  · rintro (hlast | ⟨hnow, hlast⟩) k -
    · rw [hlast]
    · omega

theorem canTakeDamage_iff (hcount : r.server.tickCount.toNat = r.now) (hroom : r.now + 10 < 2 ^ 64)
    (p : Player) {k : Nat} (hk : k ≤ 10) :
    p.canTakeDamage (r.server.tickCount + BitVec.ofNat 64 k) = true ↔
      p.lastDamageTick.toNat + 10 ≤ r.now + k := by
  have hadd : (r.server.tickCount + BitVec.ofNat 64 k).toNat = r.now + k := by
    rw [BitVec.toNat_add, BitVec.toNat_ofNat, hcount]
    omega
  simp only [Player.canTakeDamage, hadd, decide_eq_true_eq]
  omega

/-- On a right tick count, immunity lasts as long as the stamps say. -/
theorem lasts_iff (hcount : r.server.tickCount.toNat = r.now) (hroom : r.now + 10 < 2 ^ 64)
    (hpast : ∀ uuid h, r.hurtAt uuid = some h → h ≤ r.now) :
    r.Lasts ↔ ∀ uuid h last, r.hurtAt uuid = some h → r.server.stamp uuid = some last →
      Dated r.now last h := by
  constructor
  · intro hlasts uuid h last hh hlast
    obtain ⟨p, hp, rfl⟩ := Option.map_eq_some_iff.1 hlast
    refine (dated_iff (hpast uuid h hh)).1 fun k hk => ?_
    rw [← hlasts uuid h p hh hp k hk, canTakeDamage_iff hcount hroom p hk]
  · intro hdated uuid h p hh hp k hk
    have hlast : r.server.stamp uuid = some p.lastDamageTick := by simp [Server.stamp, hp]
    rw [canTakeDamage_iff hcount hroom p hk]
    exact (dated_iff (hpast uuid h hh)).2 (hdated uuid h _ hh hlast) k hk

theorem Good.lasts (hr : Good r) : r.Lasts := by
  refine (lasts_iff hr.count hr.room fun uuid h hh => (hr.hurt uuid h hh).1).2 ?_
  intro uuid h last hh hlast
  obtain ⟨-, last', hlast', hdated⟩ := hr.hurt uuid h hh
  obtain rfl : last = last' := Option.some.inj (hlast.symm.trans hlast')
  exact hdated

/-! ### Without damage -/

/-- Time passes. -/
theorem good_tick (hr : Good r) (hroom : r.now + 11 < 2 ^ 64) : Good (r.step .tick) where
  count := by
    change (r.server.tickCount + 1).toNat = r.now + 1
    rw [BitVec.toNat_add, hr.count]
    simp
    omega
  room := by
    change r.now + 1 + 10 < 2 ^ 64
    omega
  stamps uuid last hlast := Nat.le_succ_of_le (hr.stamps uuid last hlast)
  hurt uuid h hh := by
    obtain ⟨hpast, last, hlast, hdated⟩ := hr.hurt uuid h hh
    refine ⟨Nat.le_succ_of_le hpast, last, hlast, hdated.imp id fun hold => ?_⟩
    change h + 10 ≤ r.now + 1 ∧ last.toNat + 10 ≤ r.now + 1
    omega

/-- A player comes without a history, or goes with it. -/
theorem good_update (hr : Good r) (uuid : Uuid) (connections : Uuid → BitVec 64) (q : Option Player)
    (hq : ∀ p, q = some p → p.lastDamageTick = 0) :
    Good ⟨⟨r.server.tickCount, connections, Function.update r.server.players uuid q⟩, r.now,
      Function.update r.hurtAt uuid none⟩ where
  count := hr.count
  room := hr.room
  stamps v last hlast := by
    by_cases hv : v = uuid
    · subst hv
      simp only [Server.stamp, Function.update_self, Option.map_eq_some_iff] at hlast
      obtain ⟨p, hp, rfl⟩ := hlast
      simp [hq p hp]
    · simp only [Server.stamp, Function.update_of_ne hv] at hlast
      exact hr.stamps v last hlast
  hurt v h hh := by
    by_cases hv : v = uuid
    · simp [hv] at hh
    · replace hh : r.hurtAt v = some h := by simpa [hv] using hh
      obtain ⟨hpast, last, hlast, hdated⟩ := hr.hurt v h hh
      exact ⟨hpast, last, by simpa [Server.stamp, hv] using hlast, hdated⟩

theorem good_of_none (hr : Good r) {a : Action} (hroom : r.Room a)
    (ha : r.server.attempt? a = none) : Good (r.step a) := by
  cases a with
  | tick => exact good_tick hr (hroom rfl)
  | turn uuid => exact ⟨hr.count, hr.room, hr.stamps, hr.hurt⟩
  | join uuid => exact good_update hr uuid _ (some .new) (by rintro p ⟨⟩; rfl)
  | leave uuid => exact good_update hr uuid _ none (by rintro p ⟨⟩)
  | fallDamage uuid fallDistance featherFalling =>
      have hnone := Option.map_eq_none_iff.1 ha
      have hsame : r.step (.fallDamage uuid fallDistance featherFalling) = r := by
        simp [step, nowAfter, hurtAtAfter, Server.hurts, ha, Server.step, Server.applyFallDamage,
          hnone]
      rwa [hsame]
  | environmentalDamage uuid dmgType =>
      have hnone := Option.map_eq_none_iff.1 ha
      have hsame : r.step (.environmentalDamage uuid dmgType) = r := by
        simp [step, nowAfter, hurtAtAfter, Server.hurts, ha, Server.step,
          Server.applyEnvironmentalDamage, hnone]
      rwa [hsame]
  | strike uuid health => cases ha
  | blast uuid damage => cases ha
  | stray uuid damage tick => cases ha
  | land uuid damage => cases ha
  | attack uuid target blow => cases ha
  | sweep uuid nearby damage => cases ha

/-! ### Damage -/

/-- An attempt leaves the time alone, and the history but for its target. -/
theorem step_of_attempt {a : Action} {t : Attempt} (ha : r.server.attempt? a = some t) :
    r.step a = ⟨r.server.step a, r.now,
      if t.lands r.server then Function.update r.hurtAt t.target (some r.now) else r.hurtAt⟩ := by
  have hhurts : r.server.hurts a = if t.lands r.server then some t.target else none := by
    simp [Server.hurts, ha]
  cases a with
  | tick => cases ha
  | turn uuid => cases ha
  | join uuid => cases ha
  | leave uuid => cases ha
  | strike | blast | stray | fallDamage | environmentalDamage | land | attack | sweep =>
      simp only [step, nowAfter, hurtAtAfter, hhurts]
      split <;> simp_all

/-- An attacker strikes on the clock of its connection. -/
theorem tick_of_attacker {a : Action} {t : Attempt} {uuid : Uuid}
    (ha : r.server.attempt? a = some t) (hattacker : a.attacker? = some uuid) :
    t.tick = r.server.connections uuid := by
  cases a <;> cases hattacker
  cases ha
  rfl

theorem step_of_missed (a : Action) {t : Attempt} (ha : r.server.attempt? a = some t)
    (h : t.lands r.server = false) : r.step a = r := by
  rw [step_of_attempt ha, Hurt.step_of_missed ha h, h]
  rfl

theorem hurtAt_of_landed {a : Action} {t : Attempt} (ha : r.server.attempt? a = some t)
    (h : t.lands r.server = true) (v : Uuid) :
    (r.step a).hurtAt v = if v = t.target then some r.now else r.hurtAt v := by
  rw [step_of_attempt ha, if_pos h]
  exact Function.update_apply ..

/-- What lands fairly: with the tick of the server, on nobody hurt within ten ticks, and from nobody
hurt before. -/
structure Fits (r : Timed) (a : Action) (t : Attempt) : Prop where
  clock : t.tick.toNat = r.now
  rested : ∀ h, r.hurtAt t.target = some h → h + 10 ≤ r.now
  attacker : ∀ uuid h, a.attacker? = some uuid → r.hurtAt uuid = some h →
    uuid = t.target ∨ h = r.now

/-- **A fair hit keeps clocks, stamps and history right.** -/
theorem good_of_fits (hr : Good r) {a : Action} {t : Attempt} (ha : r.server.attempt? a = some t)
    (h : t.lands r.server = true) (hfits : r.Fits a t) : Good (r.step a) := by
  have hnow : (r.step a).now = r.now := by rw [step_of_attempt ha]
  have hserver : (r.step a).server = r.server.step a := rfl
  refine ⟨?_, ?_, ?_, ?_⟩
  · rw [hserver, hnow, (clocks_of_attempt ha).1]
    exact hr.count
  · rw [hnow]
    exact hr.room
  · intro v last hlast
    rw [hserver, stamp_of_landed ha h] at hlast
    rw [hnow]
    split at hlast
    · obtain ⟨_, -, rfl⟩ := Option.map_eq_some_iff.1 hlast
      exact hfits.clock.le
    · exact hr.stamps v last hlast
  · intro v w hw
    rw [hurtAt_of_landed ha h] at hw
    rw [hserver, stamp_of_landed ha h, hnow]
    split at hw
    · rename_i hv
      cases hw
      obtain ⟨last, hlast⟩ := stamp_isSome_of_lands h
      rw [if_pos (Or.inl hv), hv, hlast]
      exact ⟨le_rfl, t.tick, rfl, Or.inl hfits.clock⟩
    · rename_i hv
      obtain ⟨hpast, last, hlast, hdated⟩ := hr.hurt v w hw
      by_cases hattacker : a.attacker? = some v
      · -- the stamp of the attacker is new, but not later than its own damage
        obtain rfl : w = r.now := (hfits.attacker v w hattacker hw).resolve_left hv
        rw [if_pos (Or.inr hattacker), hlast]
        exact ⟨hpast, t.tick, rfl, Or.inl hfits.clock⟩
      · rw [if_neg (by tauto), hlast]
        exact ⟨hpast, last, rfl, hdated⟩

/-- On right stamps, the check is passed ten ticks after the damage. -/
theorem old_of_reaches (hr : Good r) {t : Attempt} (hclock : t.tick.toNat = r.now)
    (hchecked : t.checked = true) (hreach : r.Reaches t) {h : Nat}
    (hh : r.hurtAt t.target = some h) : h + 10 ≤ r.now := by
  obtain ⟨p, hp, hpass⟩ := hreach
  obtain ⟨-, last, hlast, hdated⟩ := hr.hurt _ h hh
  obtain rfl : p.lastDamageTick = last := by simpa [Server.stamp, hp] using hlast
  have hten := hpass hchecked
  rw [hclock] at hten
  rcases hdated with hdated | hdated <;> omega

/-- What lands in time is a fair hit, ... -/
theorem Timely.fits (hr : Good r) {a : Action} {t : Attempt} (ha : r.server.attempt? a = some t)
    (h : t.lands r.server = true) (ht : r.Timely a) : r.Fits a t := by
  have hnow : (r.step a).now = r.now := by rw [step_of_attempt ha]
  have hserver : (r.step a).server = r.server.step a := rfl
  have hpast : ∀ uuid h, (r.step a).hurtAt uuid = some h → h ≤ (r.step a).now := by
    intro v w hw
    rw [hurtAt_of_landed ha h] at hw
    rw [hnow]
    split at hw
    · exact (Option.some.inj hw).ge
    · exact (hr.hurt v w hw).1
  have hcount : (r.step a).server.tickCount.toNat = (r.step a).now := by
    rw [hserver, hnow, (clocks_of_attempt ha).1]
    exact hr.count
  have hroom : (r.step a).now + 10 < 2 ^ 64 := by
    rw [hnow]
    exact hr.room
  have hlasts := (lasts_iff hcount hroom hpast).1 ht.lasts
  simp only [hurtAt_of_landed ha h, hserver, stamp_of_landed ha h, hnow] at hlasts
  obtain ⟨last, hlast⟩ := stamp_isSome_of_lands h
  have hclock : t.tick.toNat = r.now := by
    have hdated := hlasts t.target r.now t.tick (by simp) (by simp [hlast])
    rcases hdated with hdated | hdated <;> omega
  refine ⟨hclock, fun w hw => (ht.taken t w ha hw).1 h, fun v w hattacker hw => ?_⟩
  by_cases hv : v = t.target
  · exact Or.inl hv
  · obtain ⟨-, last', hlast', -⟩ := hr.hurt v w hw
    have hdated := hlasts v w t.tick (by simp [hv, hw]) (by simp [hattacker, hlast'])
    right
    rcases hdated with hdated | hdated <;> omega

/-- A step is about the one attempt that it makes. -/
theorem Timely.of_attempt {a : Action} {t : Attempt} (ha : r.server.attempt? a = some t)
    (htaken : ∀ h, r.hurtAt t.target = some h → (t.lands r.server = true ↔ h + 10 ≤ r.now))
    (hcooldown : ∀ uuid p, a.attacker? = some uuid → t.lands r.server = true →
      r.server.players uuid = some p →
        p.lastDamageTick.toNat ≤ (r.server.connections uuid).toNat)
    (hlasts : (r.step a).Lasts) : r.Timely a where
  taken t' w ha' := by
    obtain rfl : t = t' := Option.some.inj (ha.symm.trans ha')
    exact htaken w
  cooldown uuid t' p hattacker ha' := by
    obtain rfl : t = t' := Option.some.inj (ha.symm.trans ha')
    exact hcooldown uuid p hattacker
  lasts := hlasts

theorem Fair.of_attempt {a : Action} {t : Attempt} (ha : r.server.attempt? a = some t)
    (hclock : r.Reaches t → t.tick = r.server.tickCount)
    (hrested : ∀ h, r.Reaches t → t.checked = false → r.hurtAt t.target = some h → h + 10 ≤ r.now)
    (hrefused : ∀ h p, ¬ r.Reaches t → r.hurtAt t.target = some h →
      r.server.players t.target = some p → r.server.tickCount.toNat < p.lastDamageTick.toNat + 10)
    (hattacker : ∀ uuid h, a.attacker? = some uuid → r.Reaches t → r.hurtAt uuid = some h →
      uuid = t.target ∨ h = r.now) : r.Fair a where
  clock t' ha' := by
    obtain rfl : t = t' := Option.some.inj (ha.symm.trans ha')
    exact hclock
  rested t' w ha' := by
    obtain rfl : t = t' := Option.some.inj (ha.symm.trans ha')
    exact hrested w
  refused t' w q ha' := by
    obtain rfl : t = t' := Option.some.inj (ha.symm.trans ha')
    exact hrefused w q
  attacker uuid t' w hat ha' := by
    obtain rfl : t = t' := Option.some.inj (ha.symm.trans ha')
    exact hattacker uuid w hat

/-- ... and the other way round. -/
theorem timely_of_fits (hr : Good r) {a : Action} {t : Attempt} (ha : r.server.attempt? a = some t)
    (h : t.lands r.server = true) (hfits : r.Fits a t) : r.Timely a := by
  refine Timely.of_attempt ha (fun w hw => iff_of_true h (hfits.rested w hw)) ?_
    (good_of_fits hr ha h hfits).lasts
  intro uuid p hattacker _ hp
  have hstamp := hr.stamps uuid p.lastDamageTick (by simp [Server.stamp, hp])
  have hclock := hfits.clock
  rw [tick_of_attacker ha hattacker] at hclock
  omega

theorem fair_iff_fits (hr : Good r) {a : Action} {t : Attempt} (ha : r.server.attempt? a = some t)
    (h : t.lands r.server = true) : r.Fair a ↔ r.Fits a t := by
  have hreach := (reaches_iff t).2 h
  have hcount := hr.count
  constructor
  · intro hfair
    have hclock : t.tick.toNat = r.now := by rw [hfair.clock t ha hreach, hcount]
    refine ⟨hclock, fun w hw => ?_, fun v w hattacker hw => ?_⟩
    · cases hchecked : t.checked with
      | false => exact hfair.rested t w ha hreach hchecked hw
      | true => exact old_of_reaches hr hclock hchecked hreach hw
    · exact hfair.attacker v t w hattacker ha hreach hw
  · intro hfits
    refine Fair.of_attempt ha ?_ ?_ ?_ ?_
    · exact fun _ => BitVec.eq_of_toNat_eq (hfits.clock.trans hcount.symm)
    · exact fun w _ _ hw => hfits.rested w hw
    · exact fun w p hnot => absurd hreach hnot
    · exact fun v w hattacker _ hw => hfits.attacker v w hattacker hw

/-- What misses is in time when the tick count of the server would refuse it. -/
theorem timely_iff_of_missed (hr : Good r) {a : Action} {t : Attempt}
    (ha : r.server.attempt? a = some t) (h : t.lands r.server = false) : r.Timely a ↔ r.Fair a := by
  have hnot : ¬ r.Reaches t := by simp [reaches_iff, h]
  have hsame := step_of_missed a ha h
  have hcount := hr.count
  constructor
  · intro ht
    refine Fair.of_attempt ha ?_ ?_ ?_ ?_
    · exact fun hreach => absurd hreach hnot
    · exact fun w hreach => absurd hreach hnot
    · intro w p _ hw hp
      have htaken := ht.taken t w ha hw
      obtain ⟨-, last, hlast, hdated⟩ := hr.hurt _ w hw
      obtain rfl : p.lastDamageTick = last := by simpa [Server.stamp, hp] using hlast
      rw [h] at htaken
      have hyoung : ¬ w + 10 ≤ r.now := fun hold => absurd (htaken.2 hold) (by decide)
      rcases hdated with hdated | hdated <;> omega
    · exact fun v w _ hreach => absurd hreach hnot
  · intro hfair
    refine Timely.of_attempt ha ?_ ?_ ?_
    · intro w hw
      obtain ⟨-, last, hlast, hdated⟩ := hr.hurt _ w hw
      obtain ⟨p, hp, rfl⟩ := Option.map_eq_some_iff.1 hlast
      have hrefused := hfair.refused t w p ha hnot hw hp
      rw [h]
      refine iff_of_false (by decide) ?_
      rcases hdated with hdated | hdated <;> omega
    · intro uuid p _ hlands
      rw [h] at hlands
      cases hlands
    · rw [hsame]
      exact hr.lasts

/-! ### All steps -/

theorem timely_of_none (hr : Good r) {a : Action} (hroom : r.Room a)
    (ha : r.server.attempt? a = none) : r.Timely a where
  taken t w ha' := by rw [ha] at ha'; cases ha'
  cooldown uuid t p _ ha' := by rw [ha] at ha'; cases ha'
  lasts := (good_of_none hr hroom ha).lasts

theorem fair_of_none {a : Action} (ha : r.server.attempt? a = none) : r.Fair a where
  clock t ha' := by rw [ha] at ha'; cases ha'
  rested t w ha' := by rw [ha] at ha'; cases ha'
  refused t w p ha' := by rw [ha] at ha'; cases ha'
  attacker v t w _ ha' := by rw [ha] at ha'; cases ha'

/-- **When a step is in time.** -/
theorem timely_iff_fair (hr : Good r) {a : Action} (hroom : r.Room a) : r.Timely a ↔ r.Fair a := by
  cases ha : r.server.attempt? a with
  | none => exact iff_of_true (timely_of_none hr hroom ha) (fair_of_none ha)
  | some t =>
      cases h : t.lands r.server with
      | false => exact timely_iff_of_missed hr ha h
      | true =>
          rw [fair_iff_fits hr ha h]
          exact ⟨fun ht => ht.fits hr ha h, timely_of_fits hr ha h⟩

/-- **A fair step keeps clocks, stamps and history right.** -/
theorem good_step (hr : Good r) {a : Action} (hroom : r.Room a) (hfair : r.Fair a) :
    Good (r.step a) := by
  cases ha : r.server.attempt? a with
  | none => exact good_of_none hr hroom ha
  | some t =>
      cases h : t.lands r.server with
      | false =>
          rw [step_of_missed a ha h]
          exact hr
      | true => exact good_of_fits hr ha h ((fair_iff_fits hr ha h).1 hfair)

theorem good_new : Good new := by
  refine ⟨rfl, by decide, ?_, ?_⟩
  · intro uuid last hlast
    cases hlast
  · intro uuid h hh
    cases hh

/-- A run that is short enough leaves room for the tick count. -/
theorem along_room {as : List Action} (h : r.now + as.countP Action.isTick + 10 < 2 ^ 64) :
    Along step Room r as := by
  induction as generalizing r with
  | nil => trivial
  | cons a as ih =>
      rw [List.countP_cons] at h
      cases a with
      | tick =>
          simp only [Action.isTick, if_true] at h
          refine ⟨fun _ => by omega, ih ?_⟩
          change r.now + 1 + _ + 10 < _
          omega
      | _ =>
          simp only [Action.isTick] at h
          exact ⟨fun ha => absurd ha Bool.false_ne_true, ih h⟩

end Timed

/-! ## Whole runs -/

open Timed

/-- A run in which the tick count does not come to its end. -/
structure History where
  actions : List Action
  short : actions.countP Action.isTick + 10 < 2 ^ 64

/-- Two players join, the loop of the first makes ten turns before the server ticks, the first hits
the second, and ten ticks later a mob does. -/
def duel : List Action :=
  [.join 1, .join 2] ++ List.replicate 10 (.turn 1) ++
    [.attack 1 2 ⟨0, none, fun _ => 1⟩] ++ List.replicate 10 .tick ++ [.strike 2 18]

theorem duel_short : duel.countP Action.isTick + 10 < 2 ^ 64 := by decide

end Apoptotic.Hurt
