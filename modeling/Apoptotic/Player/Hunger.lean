import Apoptotic.Lib.Loops
import Apoptotic.Player.Effects
import Mathlib.Data.List.AList

/-!
# Hunger

`tick_hunger` of `mc-player/src/player.rs` on the table of the players, in the order in which it is
iterated.  Asking for the largest health of a player whose entry is held is taken to return.  A loop
that has not ended after some number of turns leaves the call without a result.

Principal result: `fair_iff` — a call treats every player as if alone, in range and with its events,
exactly when the food of every player is in range, the loops end, and no player at full health
regenerates.
-/

namespace Apoptotic.Hunger

open Commands (ActiveEffect GameMode)
open Loops

abbrev Uuid := BitVec 128

/-- The `f32` operations of hunger, with what is documented of them. -/
structure Singles (F : Type) where
  /-- A literal. -/
  lit : Rat → F
  add : F → F → F
  sub : F → F → F
  mul : F → F → F
  max : F → F → F
  min : F → F → F
  le : F → F → Bool
  lt : F → F → Bool
  le_of_lt : ∀ {x y}, lt x y = true → le x y = true
  zero_le_zero : le (lit 0) (lit 0) = true
  /-- `max` of a NaN is the other number. -/
  zero_le_max : ∀ x, le (lit 0) (max x (lit 0)) = true
  zero_le_of_four_le : ∀ {x}, le (lit 4) x = true → le (lit 0) x = true
  zero_le_sub_four : ∀ {x}, le (lit 4) x = true → le (lit 0) (sub x (lit 4)) = true
  zero_le_add_three : ∀ {x}, le (lit 0) x = true → le (lit 0) (add x (lit 3)) = true

structure Player (F : Type) where
  gamemode : GameMode
  isSprinting : Bool
  isSneaking : Bool
  health : F
  foodLevel : Int
  foodSaturation : F
  foodExhaustion : F
  activeEffects : List ActiveEffect

/-- The kinds of `PlayerStateEvent` that hunger sends. -/
inductive Event (F : Type) where
  | healthUpdate (health : F)
  | foodUpdate (level : Int) (saturation : F)

/-- The table in the order it is iterated in. -/
abbrev Players (F : Type) := AList fun _ : Uuid => Player F

section

variable {F : Type} (fl : Singles F)

/-! ## One player -/

/-- `get_max_health` -/
def maxHealth (p : Player F) : F :=
  fl.add (fl.lit 20) (fl.mul (fl.lit 4) (fl.lit (Effects.foundLevel p.activeEffects 20 : Nat)))

def exhaustionDelta (p : Player F) : F :=
  if p.isSprinting then fl.lit (1 / 10) else if p.isSneaking then fl.lit (1 / 200) else fl.lit (1 / 100)

def isSkipped (p : Player F) : Bool := p.gamemode = .creative || p.gamemode = .spectator

/-- One turn of the `while` loop. -/
def drainOnce (p : Player F) : Player F :=
  let p := { p with foodExhaustion := fl.sub p.foodExhaustion (fl.lit 4) }
  if fl.lt (fl.lit 0) p.foodSaturation then
    { p with foodSaturation := fl.max (fl.sub p.foodSaturation (fl.lit 1)) (fl.lit 0) }
  else if 0 < p.foodLevel then { p with foodLevel := p.foodLevel - 1 }
  else p

/-- The `while` loop, and `food_changed`. -/
def drain (turns : Nat) (p : Player F) : Option (Player F × Bool) :=
  whileLoop (fun p => fl.le (fl.lit 4) p.foodExhaustion) (drainOnce fl) turns p false

/-- What an iteration of the loop over the players leaves: the player, its events, and whether the loop
is left. -/
structure Turn (F : Type) where
  player : Player F
  events : List (Event F)
  breaks : Bool

/-- Starvation, regeneration or neither. -/
def settle (p : Player F) (foodChanged : Bool) : Turn F :=
  if p.foodLevel = 0 ∧ foodChanged then
    let newHealth := fl.max (fl.sub p.health (fl.lit 1)) (fl.lit 0)
    { player := { p with foodExhaustion := fl.lit 0, health := newHealth }
      events := [.healthUpdate newHealth, .foodUpdate p.foodLevel p.foodSaturation]
      breaks := false }
  else if 18 ≤ p.foodLevel ∧ fl.lt (fl.lit 0) p.foodSaturation ∧ foodChanged then
    let maxHp := maxHealth fl p
    if fl.le maxHp p.health then ⟨p, [], true⟩
    else
      let newHealth := fl.min (fl.add p.health (fl.lit 1)) maxHp
      { player := { p with foodExhaustion := fl.add p.foodExhaustion (fl.lit 3), health := newHealth }
        events := [.healthUpdate newHealth, .foodUpdate p.foodLevel p.foodSaturation]
        breaks := false }
  else if foodChanged then ⟨p, [.foodUpdate p.foodLevel p.foodSaturation], false⟩
  else ⟨p, [], false⟩

/-- With the exhaustion of this tick. -/
def exhausted (p : Player F) : Player F :=
  { p with foodExhaustion := fl.add p.foodExhaustion (exhaustionDelta fl p) }

/-- An iteration of the loop over the players. -/
def turn (turns : Nat) (p : Player F) : Option (Turn F) :=
  if isSkipped p then some ⟨p, [], false⟩
  else (drain fl turns (exhausted fl p)).map fun r => settle fl r.1 r.2

/-! ## All players -/

/-- The players, what is sent and who was visited. -/
structure Pass (F : Type) where
  players : Players F
  events : List (Uuid × Event F)
  visited : List Uuid

/-- The table after a turn. -/
def Pass.visit (s : Pass F) (uuid : Uuid) (t : Turn F) : Pass F where
  players := s.players.insert uuid t.player
  events := s.events ++ t.events.map fun e => (uuid, e)
  visited := s.visited ++ [uuid]

/-- `for uuid in &uuids` -/
def pass (turns : Nat) : List Uuid → Pass F → Option (Pass F)
  | [], s => some s
  | uuid :: rest, s =>
      match s.players.lookup uuid with
      | none => pass turns rest s
      | some p => (turn fl turns p).bind fun t =>
          if t.breaks then some (s.visit uuid t) else pass turns rest (s.visit uuid t)

def tickHunger (turns : Nat) (t : Players F) : Option (Pass F) := pass fl turns t.keys ⟨t, [], []⟩

def Pass.eventsOf (s : Pass F) (uuid : Uuid) : List (Event F) :=
  (s.events.filter fun e => e.1 = uuid).map Prod.snd

/-! ## The law -/

/-- Food, saturation and exhaustion are in range. -/
structure InRange (p : Player F) : Prop where
  food : 0 ≤ p.foodLevel ∧ p.foodLevel ≤ 20
  saturation : fl.le (fl.lit 0) p.foodSaturation = true
  exhaustion : fl.le (fl.lit 0) p.foodExhaustion = true

/-- Changes of food and health have their events. -/
def Announced (p p' : Player F) (events : List (Event F)) : Prop :=
  (p'.foodLevel ≠ p.foodLevel ∨ p'.foodSaturation ≠ p.foodSaturation →
    .foodUpdate p'.foodLevel p'.foodSaturation ∈ events) ∧
  (p'.health ≠ p.health → .healthUpdate p'.health ∈ events)

/-- **What a call does to a player is what it would do to it alone, in range and announced.** -/
structure Lawful (turns : Nat) (t : Players F) (s : Pass F) : Prop where
  visited : s.visited = t.keys
  own : ∀ uuid p, t.lookup uuid = some p → ∃ alone, tickHunger fl turns (AList.singleton uuid p) = some alone ∧
    s.players.lookup uuid = alone.players.lookup uuid ∧ s.eventsOf uuid = alone.eventsOf uuid
  range : ∀ uuid p', s.players.lookup uuid = some p' → InRange fl p'
  announced : ∀ uuid p, t.lookup uuid = some p → ∃ p', s.players.lookup uuid = some p' ∧
    Announced p p' (s.eventsOf uuid)

/-! ## What it takes -/

/-- Subtracting 4 gets below 4 after exactly `k` turns. -/
def LeavesAfter (exhaustion : F) (k : Nat) : Prop :=
  EndsAfter (fl.le (fl.lit 4)) (fl.sub · (fl.lit 4)) exhaustion k

/-- The saturation after one turn. -/
def saturationAfter (s : F) : F :=
  if fl.lt (fl.lit 0) s then fl.max (fl.sub s (fl.lit 1)) (fl.lit 0) else s

/-- How many of `k` turns find no saturation. -/
def dryTurns : Nat → F → Nat
  | 0, _ => 0
  | k + 1, s => (if fl.lt (fl.lit 0) s then 0 else 1) + dryTurns k (saturationAfter fl s)

/-- The player is in range, with the exhaustion of this tick and as many turns. -/
structure Fed (k : Nat) (p : Player F) : Prop where
  food : 0 ≤ p.foodLevel ∧ p.foodLevel ≤ 20 + dryTurns fl k p.foodSaturation
  saturation : fl.le (fl.lit 0) p.foodSaturation = true
  exhaustion : fl.le (fl.lit 0) (fl.add p.foodExhaustion (exhaustionDelta fl p)) = true

/-- After `k` turns, a player at full health would regenerate. -/
structure Sated (k : Nat) (p : Player F) : Prop where
  turns : 0 < k
  food : 18 ≤ p.foodLevel
  saturation : fl.lt (fl.lit 0) ((saturationAfter fl)^[k] p.foodSaturation) = true
  health : fl.le (maxHealth fl p) p.health = true

/-- A player that is skipped is in range; for any other the loop ends after some turns, it is in range,
and it is not sated, unless nobody comes behind it and its saturation is too large to change. -/
def Ready (turns : Nat) (p : Player F) (last : Prop) : Prop :=
  if isSkipped p then InRange fl p
  else ∃ k ≤ turns, LeavesAfter fl (fl.add p.foodExhaustion (exhaustionDelta fl p)) k ∧ Fed fl k p ∧
    (Sated fl k p → last ∧ (saturationAfter fl)^[k] p.foodSaturation = p.foodSaturation)

/-- Every player is ready. -/
def Fair (turns : Nat) (t : Players F) : Prop :=
  ∀ before uuid after, t.keys = before ++ uuid :: after → ∀ p, t.lookup uuid = some p →
    Ready fl turns p (after = [])

end

/-! ## One player -/

section

variable {F : Type} {fl : Singles F} {turns k : Nat} {p : Player F}

theorem drainOnce_exhaustion (p : Player F) :
    (drainOnce fl p).foodExhaustion = fl.sub p.foodExhaustion (fl.lit 4) := by
  unfold drainOnce
  dsimp only
  split
  · rfl
  · split <;> rfl

theorem drainOnce_saturation (p : Player F) :
    (drainOnce fl p).foodSaturation = saturationAfter fl p.foodSaturation := by
  unfold drainOnce saturationAfter
  dsimp only
  split
  · rfl
  · split <;> rfl

theorem drainOnce_food (p : Player F) : (drainOnce fl p).foodLevel =
    if fl.lt (fl.lit 0) p.foodSaturation then p.foodLevel else
      if 0 < p.foodLevel then p.foodLevel - 1 else p.foodLevel := by
  unfold drainOnce
  dsimp only
  split
  · rfl
  · split <;> rfl

/-- What the turns leave alone. -/
theorem iterate_frame (k : Nat) (p : Player F) : ((drainOnce fl)^[k] p).health = p.health ∧
    maxHealth fl ((drainOnce fl)^[k] p) = maxHealth fl p := by
  have hhealth : ∀ p, (drainOnce fl p).health = id p.health := by
    intro p
    unfold drainOnce
    dsimp only
    split
    · rfl
    · split <;> rfl
  have hmax : ∀ p, maxHealth fl (drainOnce fl p) = id (maxHealth fl p) := by
    intro p
    unfold drainOnce
    dsimp only
    split
    · rfl
    · split <;> rfl
  rw [iterate_part hhealth, iterate_part hmax, Function.iterate_id]
  exact ⟨rfl, rfl⟩

theorem iterate_saturation (k : Nat) (p : Player F) :
    ((drainOnce fl)^[k] p).foodSaturation = (saturationAfter fl)^[k] p.foodSaturation :=
  iterate_part drainOnce_saturation k p

theorem iterate_exhaustion (k : Nat) (p : Player F) :
    ((drainOnce fl)^[k] p).foodExhaustion = (fl.sub · (fl.lit 4))^[k] p.foodExhaustion :=
  iterate_part drainOnce_exhaustion k p

/-- Turns without saturation take food until none is left. -/
theorem iterate_food (k : Nat) (p : Player F) : ((drainOnce fl)^[k] p).foodLevel =
    if 0 ≤ p.foodLevel then max 0 (p.foodLevel - dryTurns fl k p.foodSaturation) else p.foodLevel := by
  induction k generalizing p with
  | zero =>
      simp only [Function.iterate_zero, id, dryTurns]
      split <;> omega
  | succ k ih =>
      rw [Function.iterate_succ_apply, ih, drainOnce_food, drainOnce_saturation, dryTurns]
      by_cases hsat : fl.lt (fl.lit 0) p.foodSaturation = true
      · simp [hsat]
      · simp only [hsat, if_false, Bool.false_eq_true]
        split <;> split <;> omega

/-- While saturation is left, every turn found some. -/
theorem dryTurns_eq_zero {s : F} (h : fl.lt (fl.lit 0) ((saturationAfter fl)^[k] s) = true) :
    dryTurns fl k s = 0 := by
  induction k generalizing s with
  | zero => rfl
  | succ k ih =>
      rw [Function.iterate_succ_apply] at h
      rw [dryTurns, ih h]
      by_cases hsat : fl.lt (fl.lit 0) s = true
      · rw [if_pos hsat]
      · -- without saturation a turn leaves it as it is, and so do all others
        have hstay : saturationAfter fl s = s := if_neg hsat
        rw [hstay, Function.iterate_fixed hstay] at h
        exact absurd h hsat

theorem zero_le_saturation_iff (k : Nat) (s : F) :
    fl.le (fl.lit 0) ((saturationAfter fl)^[k] s) = true ↔ fl.le (fl.lit 0) s = true := by
  induction k generalizing s with
  | zero => rfl
  | succ k ih =>
      rw [Function.iterate_succ_apply, ih, saturationAfter]
      split
      · rename_i hsat
        exact iff_of_true (fl.zero_le_max _) (fl.le_of_lt hsat)
      · rfl

/-- A loop that ran leaves the exhaustion from below 4 to 0. -/
theorem zero_le_iterate {x : F} (h : LeavesAfter fl x k) (hk : 0 < k) :
    fl.le (fl.lit 0) ((fl.sub · (fl.lit 4))^[k] x) = true ∧ fl.le (fl.lit 0) x = true := by
  refine ⟨?_, fl.zero_le_of_four_le (h.1 0 hk)⟩
  obtain ⟨j, rfl⟩ := Nat.exists_eq_succ_of_ne_zero (Nat.pos_iff_ne_zero.1 hk)
  rw [Function.iterate_succ_apply']
  exact fl.zero_le_sub_four (h.1 j (Nat.lt_succ_self j))

/-- The player after `k` turns of the loop. -/
def drained (fl : Singles F) (k : Nat) (p : Player F) : Player F := (drainOnce fl)^[k] (exhausted fl p)

/-- **What an iteration does to a player.** -/
theorem turn_eq_some_iff {t : Turn F} : turn fl turns p = some t ↔
    isSkipped p = true ∧ t = ⟨p, [], false⟩ ∨
      isSkipped p = false ∧ ∃ k ≤ turns,
        LeavesAfter fl (fl.add p.foodExhaustion (exhaustionDelta fl p)) k ∧
          t = settle fl (drained fl k p) (decide (0 < k)) := by
  unfold turn
  cases hskip : isSkipped p with
  | true => simp [eq_comm]
  | false =>
      simp only [Bool.false_eq_true, if_false, false_and, false_or, true_and,
        Option.map_eq_some_iff, Prod.exists, drain, whileLoop_eq_some_iff]
      have hends : ∀ k, EndsAfter (fun p => fl.le (fl.lit 4) p.foodExhaustion) (drainOnce fl)
          (exhausted fl p) k ↔ LeavesAfter fl (fl.add p.foodExhaustion (exhaustionDelta fl p)) k :=
        endsAfter_part drainOnce_exhaustion (exhausted fl p)
      constructor
      · rintro ⟨q, changed, ⟨k, hk, hleave, rfl, rfl⟩, rfl⟩
        exact ⟨k, hk, (hends k).1 hleave, by simp [drained]⟩
      · rintro ⟨k, hk, hleave, rfl⟩
        exact ⟨_, _, ⟨k, hk, (hends k).2 hleave, rfl, rfl⟩, by simp [drained]⟩

theorem drained_food : (drained fl k p).foodLevel = if 0 ≤ p.foodLevel then
    max 0 (p.foodLevel - dryTurns fl k p.foodSaturation) else p.foodLevel := iterate_food k (exhausted fl p)

theorem drained_food_mem_iff : 0 ≤ (drained fl k p).foodLevel ∧ (drained fl k p).foodLevel ≤ 20 ↔
    0 ≤ p.foodLevel ∧ p.foodLevel ≤ 20 + dryTurns fl k p.foodSaturation := by
  rw [drained_food]
  split <;> omega

theorem drained_saturation :
    (drained fl k p).foodSaturation = (saturationAfter fl)^[k] p.foodSaturation :=
  iterate_saturation k _

/-- While saturation is left, no food is taken. -/
theorem drained_food_of_saturation (h : fl.lt (fl.lit 0) (drained fl k p).foodSaturation = true) :
    (drained fl k p).foodLevel = p.foodLevel := by
  rw [drained_saturation] at h
  have hdry : dryTurns fl k p.foodSaturation = 0 := dryTurns_eq_zero h
  rw [drained_food, hdry]
  split <;> omega

/-! ## Starvation and regeneration -/

/-- Food and saturation are left alone. -/
theorem settle_frame (q : Player F) (changed : Bool) :
    (settle fl q changed).player.foodLevel = q.foodLevel ∧
      (settle fl q changed).player.foodSaturation = q.foodSaturation := by
  unfold settle
  dsimp only
  split
  · exact ⟨rfl, rfl⟩
  split
  · split <;> exact ⟨rfl, rfl⟩
  split <;> exact ⟨rfl, rfl⟩

theorem zero_le_settle (q : Player F) (changed : Bool)
    (h : fl.le (fl.lit 0) q.foodExhaustion = true) :
    fl.le (fl.lit 0) (settle fl q changed).player.foodExhaustion = true := by
  unfold settle
  dsimp only
  split
  · exact fl.zero_le_zero
  split
  · split
    · exact h
    · exact fl.zero_le_add_three h
  split <;> exact h

theorem settle_breaks_iff (q : Player F) (changed : Bool) : (settle fl q changed).breaks = true ↔
    changed = true ∧ 18 ≤ q.foodLevel ∧ fl.lt (fl.lit 0) q.foodSaturation = true ∧
      fl.le (maxHealth fl q) q.health = true := by
  unfold settle
  dsimp only
  split
  · rename_i hstarve
    refine iff_of_false Bool.false_ne_true ?_
    rintro ⟨-, hfood, -⟩
    omega
  split
  · rename_i hregen
    split
    · rename_i hfull
      exact iff_of_true rfl ⟨hregen.2.2, hregen.1, hregen.2.1, hfull⟩
    · rename_i hnot
      exact iff_of_false Bool.false_ne_true fun h => hnot h.2.2.2
  rename_i hnot
  have hno : ¬(changed = true ∧ 18 ≤ q.foodLevel ∧ fl.lt (fl.lit 0) q.foodSaturation = true ∧
      fl.le (maxHealth fl q) q.health = true) := fun h => hnot ⟨h.2.1, h.2.2.1, h.1⟩
  split <;> exact iff_of_false Bool.false_ne_true hno

theorem settle_of_breaks {q : Player F} {changed : Bool}
    (h : (settle fl q changed).breaks = true) : settle fl q changed = ⟨q, [], true⟩ := by
  obtain ⟨hchanged, hfood, hsat, hfull⟩ := (settle_breaks_iff q changed).1 h
  unfold settle
  dsimp only
  rw [if_neg (by omega), if_pos ⟨hfood, hsat, hchanged⟩, if_pos hfull]

theorem settle_false (q : Player F) : settle fl q false = ⟨q, [], false⟩ := by simp [settle]

/-- Unless the loop is left, a change is announced. -/
theorem announced_settle {p q : Player F} (hhealth : q.health = p.health)
    (h : ¬(settle fl q true).breaks = true) :
    Announced p (settle fl q true).player (settle fl q true).events := by
  rw [settle_breaks_iff] at h
  unfold settle
  by_cases hstarve : q.foodLevel = 0
  · simp only [hstarve, true_and, if_true]
    exact ⟨fun _ => by simp, fun _ => by simp⟩
  by_cases hregen : 18 ≤ q.foodLevel ∧ fl.lt (fl.lit 0) q.foodSaturation = true
  · have hnot : ¬fl.le (maxHealth fl q) q.health = true := fun hfull => h ⟨rfl, hregen.1, hregen.2, hfull⟩
    simp only [hstarve, hregen, hnot, false_and, true_and, if_false, if_true, Bool.false_eq_true]
    exact ⟨fun _ => by simp, fun _ => by simp⟩
  · simp only [hstarve, hregen, and_true, if_false, if_true]
    exact ⟨fun _ => by simp, fun hne => absurd hhealth hne⟩

/-- The turn of a player whose loop ends after `k` turns. -/
def turnAfter (fl : Singles F) (k : Nat) (p : Player F) : Turn F :=
  settle fl (drained fl k p) (decide (0 < k))

theorem turnAfter_zero : turnAfter fl 0 p = ⟨exhausted fl p, [], false⟩ := settle_false _

theorem turnAfter_breaks_iff : (turnAfter fl k p).breaks = true ↔ Sated fl k p := by
  have hframe : (drained fl k p).health = p.health ∧ maxHealth fl (drained fl k p) = maxHealth fl p :=
    iterate_frame k (exhausted fl p)
  unfold turnAfter
  rw [settle_breaks_iff, decide_eq_true_eq, hframe.1, hframe.2]
  constructor
  · rintro ⟨hk, hfood, hsat, hfull⟩
    rw [drained_food_of_saturation hsat] at hfood
    rw [drained_saturation] at hsat
    exact ⟨hk, hfood, hsat, hfull⟩
  · rintro ⟨hk, hfood, hsat, hfull⟩
    rw [← drained_saturation] at hsat
    rw [← drained_food_of_saturation hsat] at hfood
    exact ⟨hk, hfood, hsat, hfull⟩

theorem inRange_turnAfter_iff
    (hleave : LeavesAfter fl (fl.add p.foodExhaustion (exhaustionDelta fl p)) k) :
    InRange fl (turnAfter fl k p).player ↔ Fed fl k p := by
  have hframe : (settle fl (drained fl k p) (decide (0 < k))).player.foodLevel = (drained fl k p).foodLevel ∧
      (settle fl (drained fl k p) (decide (0 < k))).player.foodSaturation =
        (drained fl k p).foodSaturation := settle_frame _ _
  have hexh : fl.le (fl.lit 0) (turnAfter fl k p).player.foodExhaustion = true ↔
      fl.le (fl.lit 0) (fl.add p.foodExhaustion (exhaustionDelta fl p)) = true := by
    rcases Nat.eq_zero_or_pos k with rfl | hk
    · rw [turnAfter_zero]
      rfl
    · obtain ⟨hafter, hbefore⟩ := zero_le_iterate hleave hk
      refine iff_of_true (zero_le_settle _ _ ?_) hbefore
      rw [drained, iterate_exhaustion]
      exact hafter
  constructor
  · rintro ⟨hfood, hsat, h⟩
    rw [turnAfter, hframe.1, drained_food_mem_iff] at hfood
    rw [turnAfter, hframe.2, drained_saturation, zero_le_saturation_iff] at hsat
    exact ⟨hfood, hsat, hexh.1 h⟩
  · rintro ⟨hfood, hsat, h⟩
    refine ⟨?_, ?_, hexh.2 h⟩
    · rw [turnAfter, hframe.1, drained_food_mem_iff]
      exact hfood
    · rw [turnAfter, hframe.2, drained_saturation, zero_le_saturation_iff]
      exact hsat

theorem announced_turnAfter_iff :
    Announced p (turnAfter fl k p).player (turnAfter fl k p).events ↔
      (Sated fl k p → (saturationAfter fl)^[k] p.foodSaturation = p.foodSaturation) := by
  rw [← turnAfter_breaks_iff]
  by_cases hbreaks : (turnAfter fl k p).breaks = true
  · have hfood : (drained fl k p).foodLevel = p.foodLevel := by
      apply drained_food_of_saturation
      rw [drained_saturation]
      exact (turnAfter_breaks_iff.1 hbreaks).saturation
    have hhealth : (drained fl k p).health = p.health := (iterate_frame k (exhausted fl p)).1
    have hturn : turnAfter fl k p = ⟨drained fl k p, [], true⟩ := settle_of_breaks hbreaks
    simp [Announced, hturn, hfood, hhealth, drained_saturation]
  · refine iff_of_true ?_ fun h => absurd h hbreaks
    rcases Nat.eq_zero_or_pos k with rfl | hk
    · rw [turnAfter_zero]
      simp [Announced, exhausted]
    · unfold turnAfter at hbreaks ⊢
      rw [decide_eq_true hk] at hbreaks ⊢
      exact announced_settle (iterate_frame k (exhausted fl p)).1 hbreaks

/-- The law for one player. -/
structure LawfulTurn (fl : Singles F) (p : Player F) (t : Turn F) (last : Prop) : Prop where
  range : InRange fl t.player
  announced : Announced p t.player t.events
  goesOn : t.breaks = true → last

theorem ready_iff {last : Prop} :
    Ready fl turns p last ↔ ∃ t, turn fl turns p = some t ∧ LawfulTurn fl p t last := by
  simp only [turn_eq_some_iff]
  unfold Ready
  cases hskip : isSkipped p with
  | true =>
      constructor
      · intro h
        exact ⟨_, .inl ⟨rfl, rfl⟩, h, by simp [Announced], by simp⟩
      · rintro ⟨t, ⟨-, rfl⟩ | ⟨h, -⟩, ht⟩
        · exact ht.range
        · cases h
  | false =>
      constructor
      · rintro ⟨k, hk, hleave, hfed, hsated⟩
        refine ⟨turnAfter fl k p, .inr ⟨rfl, k, hk, hleave, rfl⟩, ?_⟩
        exact {
          range := (inRange_turnAfter_iff hleave).2 hfed
          announced := announced_turnAfter_iff.2 fun h => (hsated h).2
          goesOn := fun h => (hsated (turnAfter_breaks_iff.1 h)).1 }
      · rintro ⟨t, ⟨h, -⟩ | ⟨-, k, hk, hleave, rfl⟩, ht⟩
        · cases h
        · refine ⟨k, hk, hleave, (inRange_turnAfter_iff hleave).1 ht.range, fun hsated => ?_⟩
          exact ⟨ht.goesOn (turnAfter_breaks_iff.2 hsated), announced_turnAfter_iff.1 ht.announced hsated⟩

end

/-! ## All players -/

section

variable {F : Type} {fl : Singles F} {turns : Nat} {uuid uuid' : Uuid} {s s' : Pass F} {t : Turn F}

theorem lookup_visit (h : uuid' ≠ uuid) :
    (s.visit uuid t).players.lookup uuid' = s.players.lookup uuid' := AList.lookup_insert_ne h

theorem lookup_visit_self : (s.visit uuid t).players.lookup uuid = some t.player :=
  AList.lookup_insert _

theorem eventsOf_visit (h : uuid' ≠ uuid) : (s.visit uuid t).eventsOf uuid' = s.eventsOf uuid' := by
  have hnone : (t.events.map fun e => (uuid, e)).filter (fun e => e.1 = uuid') = [] := by
    rw [List.filter_eq_nil_iff]
    simp [h.symm]
  simp [Pass.eventsOf, Pass.visit, List.filter_append, hnone]

theorem eventsOf_visit_self :
    (s.visit uuid t).eventsOf uuid = s.eventsOf uuid ++ t.events := by
  have hall : (t.events.map fun e => (uuid, e)).filter (fun e => e.1 = uuid) =
      t.events.map fun e => (uuid, e) := by
    rw [List.filter_eq_self]
    simp
  simp [Pass.eventsOf, Pass.visit, List.filter_append, hall]

/-- Whoever is not visited is left alone. -/
theorem pass_frame {uuids : List Uuid} (h : pass fl turns uuids s = some s') (hout : uuid' ∉ uuids) :
    s'.players.lookup uuid' = s.players.lookup uuid' ∧ s'.eventsOf uuid' = s.eventsOf uuid' := by
  induction uuids generalizing s with
  | nil =>
      cases h
      exact ⟨rfl, rfl⟩
  | cons uuid rest ih =>
      rw [List.mem_cons, not_or] at hout
      unfold pass at h
      cases hp : s.players.lookup uuid with
      | none =>
          rw [hp] at h
          exact ih h hout.2
      | some p =>
          rw [hp] at h
          obtain ⟨t, -, h⟩ := Option.bind_eq_some_iff.1 h
          split at h
          · cases h
            exact ⟨lookup_visit hout.1, eventsOf_visit hout.1⟩
          · obtain ⟨hlookup, hevents⟩ := ih h hout.2
            rw [hlookup, hevents]
            exact ⟨lookup_visit hout.1, eventsOf_visit hout.1⟩

/-- Everybody's turn ends, and leaves the loop only behind everybody else's. -/
def GoesOn (fl : Singles F) (turns : Nat) (uuids : List Uuid) (players : Players F) : Prop :=
  ∀ before uuid after, uuids = before ++ uuid :: after → ∀ p, players.lookup uuid = some p →
    ∃ t, turn fl turns p = some t ∧ (t.breaks = true → after = [])

theorem pass_of_goesOn {uuids : List Uuid} (hnodup : uuids.Nodup)
    (hknown : ∀ uuid ∈ uuids, uuid ∈ s.players) (h : GoesOn fl turns uuids s.players) :
    ∃ s', pass fl turns uuids s = some s' ∧ s'.visited = s.visited ++ uuids := by
  induction uuids generalizing s with
  | nil => exact ⟨s, rfl, (List.append_nil _).symm⟩
  | cons uuid rest ih =>
      rw [List.nodup_cons] at hnodup
      have hother : ∀ {uuid'}, uuid' ∈ rest → uuid' ≠ uuid := by
        rintro uuid' hmem rfl
        exact hnodup.1 hmem
      obtain ⟨p, hp⟩ := Option.isSome_iff_exists.1 (AList.lookup_isSome.2 (hknown uuid List.mem_cons_self))
      obtain ⟨t, hturn, hlast⟩ := h [] uuid rest rfl p hp
      rw [pass, hp]
      simp only [hturn, Option.bind_some]
      split
      · rename_i hbreaks
        rw [hlast hbreaks]
        exact ⟨_, rfl, rfl⟩
      · obtain ⟨s', hpass, hvisited⟩ := ih hnodup.2 (s := s.visit uuid t)
          (fun uuid' hmem => (AList.mem_insert _).2 (.inr (hknown uuid' (List.mem_cons_of_mem uuid hmem))))
          (by
            rintro before uuid' after rfl p' hp'
            rw [lookup_visit (hother (by simp))] at hp'
            exact h (uuid :: before) uuid' after rfl p' hp')
        refine ⟨s', hpass, ?_⟩
        rw [hvisited, Pass.visit, List.append_assoc]
        rfl

/-- A pass that visits everybody gives everybody its turn. -/
theorem treated_of_pass {uuids : List Uuid} (hnodup : uuids.Nodup)
    (hknown : ∀ uuid ∈ uuids, uuid ∈ s.players) (h : pass fl turns uuids s = some s')
    (hall : s'.visited = s.visited ++ uuids) {before after : List Uuid}
    (hsplit : uuids = before ++ uuid' :: after) {p : Player F} (hp' : s.players.lookup uuid' = some p) :
    ∃ t, turn fl turns p = some t ∧ (t.breaks = true → after = []) ∧
      s'.players.lookup uuid' = some t.player ∧ s'.eventsOf uuid' = s.eventsOf uuid' ++ t.events := by
  induction uuids generalizing s before with
  | nil => simp at hsplit
  | cons uuid rest ih =>
      rw [List.nodup_cons] at hnodup
      obtain ⟨q, hq⟩ := Option.isSome_iff_exists.1 (AList.lookup_isSome.2 (hknown uuid List.mem_cons_self))
      rw [pass, hq] at h
      obtain ⟨t, hturn, hpass⟩ := Option.bind_eq_some_iff.1 h
      split at hpass
      · -- the loop is left, so nobody is behind
        cases hpass
        have hrest : rest = [] := by
          have hvisited : s.visited ++ [uuid] = s.visited ++ uuid :: rest := hall
          simpa [eq_comm] using hvisited
        rw [hrest] at hsplit
        obtain ⟨rfl, ⟨⟩⟩ := List.append_eq_cons_iff.1 hsplit.symm |>.resolve_right (by simp)
        rw [hq] at hp'
        cases hp'
        exact ⟨t, hturn, fun _ => rfl, lookup_visit_self, eventsOf_visit_self⟩
      · rename_i hon
        have hvisited : s'.visited = (s.visit uuid t).visited ++ rest := by
          rw [hall, Pass.visit, List.append_assoc]
          rfl
        cases before with
        | nil =>
            cases hsplit
            rw [hq] at hp'
            cases hp'
            obtain ⟨hlookup, hevents⟩ := pass_frame hpass hnodup.1
            refine ⟨t, hturn, fun hbreaks => absurd hbreaks hon, ?_, ?_⟩
            · rw [hlookup, lookup_visit_self]
            · rw [hevents, eventsOf_visit_self]
        | cons first before =>
            cases hsplit
            have hne : uuid' ≠ uuid := by
              rintro rfl
              exact hnodup.1 (by simp)
            have hknown' : ∀ u ∈ before ++ uuid' :: after, u ∈ (s.visit uuid t).players := fun u hu =>
              (AList.mem_insert _).2 (.inr (hknown u (List.mem_cons_of_mem uuid hu)))
            have hlookup := (lookup_visit (s := s) (t := t) hne).trans hp'
            have htreated := ih hnodup.2 hknown' hpass hvisited rfl hlookup
            rwa [eventsOf_visit hne] at htreated

/-- A player alone gets its turn. -/
theorem tickHunger_singleton (p : Player F) :
    tickHunger fl turns (AList.singleton uuid p : Players F) = (turn fl turns p).map fun t =>
      Pass.visit ⟨(AList.singleton uuid p : Players F), [], []⟩ uuid t := by
  unfold tickHunger
  have hkeys : (AList.singleton uuid p : Players F).keys = [uuid] := rfl
  have hlookup : (AList.singleton uuid p : Players F).lookup uuid = some p := List.dlookup_cons_eq ..
  rw [hkeys, pass]
  simp only [hlookup]
  cases turn fl turns p with
  | none => rfl
  | some t => simp [pass]

theorem treated {t : Players F} (h : tickHunger fl turns t = some s) (hall : s.visited = t.keys)
    {before after : List Uuid} (hsplit : t.keys = before ++ uuid :: after) {p : Player F}
    (hp : t.lookup uuid = some p) : ∃ r, turn fl turns p = some r ∧ (r.breaks = true → after = []) ∧
      s.players.lookup uuid = some r.player ∧ s.eventsOf uuid = r.events :=
  treated_of_pass (s := ⟨t, [], []⟩) t.nodupKeys (fun _ h => AList.mem_keys.2 h) h hall hsplit hp

/-- **A call treats everybody as if alone, in range and announced, exactly when everybody is ready.** -/
theorem fair_iff (fl : Singles F) (turns : Nat) (t : Players F) :
    (∃ s, tickHunger fl turns t = some s ∧ Lawful fl turns t s) ↔ Fair fl turns t := by
  constructor
  · rintro ⟨s, hpass, hlawful⟩ before uuid after hsplit p hp
    obtain ⟨r, hturn, hlast, hlookup, hevents⟩ := treated hpass hlawful.visited hsplit hp
    rw [ready_iff]
    refine ⟨r, hturn, hlawful.range uuid _ hlookup, ?_, hlast⟩
    obtain ⟨p', hp', hannounced⟩ := hlawful.announced uuid p hp
    rw [hlookup] at hp'
    cases hp'
    rwa [hevents] at hannounced
  · intro hfair
    have hgoesOn : GoesOn fl turns t.keys t := by
      intro before uuid after hsplit p hp
      obtain ⟨r, hturn, hr⟩ := ready_iff.1 (hfair before uuid after hsplit p hp)
      exact ⟨r, hturn, hr.goesOn⟩
    obtain ⟨s, hpass, hvisited⟩ := pass_of_goesOn (s := ⟨t, [], []⟩) t.nodupKeys
      (fun _ h => AList.mem_keys.2 h) hgoesOn
    -- what happened to a player of the table
    have htreated : ∀ uuid p, t.lookup uuid = some p → ∃ r, turn fl turns p = some r ∧
        s.players.lookup uuid = some r.player ∧ s.eventsOf uuid = r.events ∧
        LawfulTurn fl p r True := by
      intro uuid p hp
      have hmem : uuid ∈ t.keys := AList.mem_keys.1 (AList.lookup_isSome.1 (by rw [hp]; rfl))
      obtain ⟨before, after, hsplit⟩ := List.append_of_mem hmem
      obtain ⟨r, hturn, -, hlookup, hevents⟩ := treated hpass hvisited hsplit hp
      obtain ⟨r', hturn', hr⟩ := ready_iff.1 (hfair before uuid after hsplit p hp)
      rw [hturn] at hturn'
      cases hturn'
      exact ⟨r, hturn, hlookup, hevents, hr.range, hr.announced, fun _ => trivial⟩
    refine ⟨s, hpass, hvisited, ?_, ?_, ?_⟩
    · intro uuid p hp
      obtain ⟨r, hturn, hlookup, hevents, -⟩ := htreated uuid p hp
      refine ⟨_, by rw [tickHunger_singleton, hturn]; rfl, ?_, ?_⟩
      · rw [hlookup, lookup_visit_self]
      · rw [hevents, eventsOf_visit_self]
        rfl
    · intro uuid p' hp'
      cases hp : t.lookup uuid with
      | none =>
          have hout : uuid ∉ t.keys := fun h => by
            rw [← AList.mem_keys, ← AList.lookup_isSome, hp] at h
            cases h
          rw [(pass_frame hpass hout).1] at hp'
          exact absurd (hp.symm.trans hp') (by simp)
      | some p =>
          obtain ⟨r, -, hlookup, -, hr⟩ := htreated uuid p hp
          rw [hlookup] at hp'
          cases hp'
          exact hr.range
    · intro uuid p hp
      obtain ⟨r, -, hlookup, hevents, hr⟩ := htreated uuid p hp
      refine ⟨r.player, hlookup, ?_⟩
      rw [hevents]
      exact hr.announced

end

/-! ## A player at full health -/

/-- Exact numbers. -/
def exactSingles : Singles ℚ where
  lit := id
  add x y := x + y
  sub x y := x - y
  mul x y := x * y
  max := max
  min := min
  le x y := decide (x ≤ y)
  lt x y := decide (x < y)
  le_of_lt h := decide_eq_true (le_of_lt (of_decide_eq_true h))
  zero_le_zero := rfl
  zero_le_max x := decide_eq_true (le_max_right x 0)
  zero_le_of_four_le h := decide_eq_true ((by norm_num : (0 : ℚ) ≤ 4).trans (of_decide_eq_true h))
  zero_le_sub_four h := decide_eq_true (sub_nonneg.2 (of_decide_eq_true h))
  zero_le_add_three h := decide_eq_true (add_nonneg (of_decide_eq_true h) (by norm_num))

/-- Standing, about to lose a point of saturation. -/
def standing (health : ℚ) : Player ℚ where
  gamemode := .survival
  isSprinting := false
  isSneaking := false
  health := health
  foodLevel := 20
  foodSaturation := 5
  foodExhaustion := 4
  activeEffects := []

/-- One at full health before one that is hurt. -/
def together : Players ℚ := ⟨[⟨1, standing 20⟩, ⟨2, standing 10⟩], by simp [List.NodupKeys, List.keys]⟩

/-- The hurt player is skipped. -/
theorem not_forall_tickHunger_lawful : ¬ ∀ turns t s, tickHunger exactSingles turns t = some s →
    Lawful exactSingles turns t s := by
  intro h
  have hvisited : (tickHunger exactSingles 2 together).map Pass.visited = some [1] := by decide +kernel
  obtain ⟨s, hs, hone⟩ := Option.map_eq_some_iff.1 hvisited
  have hall := (h 2 together s hs).visited
  rw [hone] at hall
  exact absurd hall (by decide)

end Apoptotic.Hunger
