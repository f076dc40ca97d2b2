import Apoptotic.Command.Server
import Mathlib.Algebra.Order.Field.Rat
import Mathlib.Tactic.Linarith

/-!
# Status effects

`tick_effects`, `add_effect` and `clear_effects` of `mc-player/src/player.rs` and `/effect clear` of
`mc-command/src/commands/player.rs`, for one player.  Floats are exact rationals.  A call that asks for
the entry of the player while it is locked does not return.

`tick_effects` compares the ids of the effects with numbers that are one too large, so it reads the
effect after the one it means.

Principal result: `ends_iff` — exactly when an effect ends as it should, however it ends.
-/

namespace Apoptotic.Effects

open Commands (ActiveEffect EffectType)

/-- The fields of a player that the effects read and change. -/
structure Body where
  activeEffects : List ActiveEffect
  foodExhaustion : ℚ
  foodSaturation : ℚ
  foodLevel : Int
  speedMultiplier : ℚ
  miningMultiplier : ℚ
  jumpMultiplier : ℚ
  fallDamageMultiplier : ℚ
  swimSpeedMultiplier : ℚ
  isSprinting : Bool
  absorptionHealth : ℚ
  y : ℚ

/-- `amplifier + 1` of the first effect with an id, 0 when there is none. -/
def foundLevel (effects : List ActiveEffect) (id : Nat) : Nat :=
  ((effects.find? fun e => e.effect.id = id).map fun e => (e.amplifier + 1) % 256).getD 0

/-! ## The formulas -/

def speedFormula (speed slowness : Nat) : ℚ := max (1 + 1 / 5 * speed - 3 / 20 * slowness) (1 / 10)

def miningFormula (fatigue haste : Nat) : ℚ :=
  min (max (1 - 3 / 10 * (fatigue : ℚ)) (1 / 20) + 1 / 5 * haste) 5

def jumpFormula (jump : Nat) : ℚ := 1 + 1 / 2 * jump

def fallFormula (slowFall : Nat) : ℚ := if 0 < slowFall then 0 else 1

def swimFormula (dolphin : Nat) : ℚ := 1 + 1 / 2 * dolphin

/-! ## A tick -/

/-- One tick less. -/
def lessOne (e : ActiveEffect) : ActiveEffect := { e with durationTicks := e.durationTicks - 1 }

/-- The effects that outlast a tick. -/
def remaining (effects : List ActiveEffect) : List ActiveEffect :=
  (effects.map lessOne).filter fun e => 0 < e.durationTicks

/-- What the player regenerates with is read from the entry that is locked. -/
def blocks (tickCount : Nat) (effects : List ActiveEffect) : Bool :=
  let regenLevel := foundLevel effects 10
  0 < regenLevel && tickCount % max (50 / regenLevel) 1 = 0

/-- The golden hearts before the durations go down. -/
def absorb (effects : List ActiveEffect) (absorptionHealth : ℚ) : ℚ :=
  let absorptionLvl := foundLevel effects 22
  if 0 < absorptionLvl ∧ absorptionHealth ≤ 0 then 4 * absorptionLvl else absorptionHealth

/-- `tick_effects`; none where it does not return. -/
def tickEffects (tickCount : Nat) (p : Body) : Option Body :=
  let effects := p.activeEffects
  if blocks tickCount effects then none
  else
    let hungerLevel := foundLevel effects 17
    let p := if 0 < hungerLevel ∧ tickCount % 20 = 0 then
      { p with foodExhaustion := p.foodExhaustion + 1 / 200 * hungerLevel } else p
    let saturationLevel := foundLevel effects 23
    let p := if 0 < saturationLevel ∧ tickCount % 20 = 0 then
      { p with
        foodSaturation := min (p.foodSaturation + saturationLevel) 20
        foodLevel := min (p.foodLevel + saturationLevel) 20 } else p
    let p := { p with
      speedMultiplier := speedFormula (foundLevel effects 1) (foundLevel effects 2)
      miningMultiplier := miningFormula (foundLevel effects 4) (foundLevel effects 3)
      jumpMultiplier := jumpFormula (foundLevel effects 8)
      fallDamageMultiplier := fallFormula (foundLevel effects 28)
      swimSpeedMultiplier := swimFormula (foundLevel effects 30)
      isSprinting := p.isSprinting && foundLevel effects 15 = 0 && foundLevel effects 14 = 0
      absorptionHealth := absorb effects p.absorptionHealth }
    let levitationLvl := foundLevel effects 25
    if 0 < levitationLvl then
      let p := { p with y := min (p.y + 1 / 20 * levitationLvl) 256, activeEffects := remaining effects }
      if effects.any fun e => e.durationTicks ≤ 1 ∧ e.effect.id = 22 then
        some { p with absorptionHealth := 0 }
      else some p
    else some { p with activeEffects := remaining effects }

/-! ## Other ways to end -/

/-- `add_effect`; an instant effect does not return. -/
def addEffect (p : Body) (effect : ActiveEffect) : Option Body :=
  let p := { p with activeEffects := p.activeEffects.filter (·.effect ≠ effect.effect) }
  if effect.effect.isInstant then none
  else some { p with activeEffects := p.activeEffects ++ [effect] }

def clearEffects (p : Body) : Body := { p with activeEffects := [] }

/-- `/effect clear` of one effect, and how many effects it says remain: the list without the effect is
not written back. -/
def clearEffect (p : Body) (effect : EffectType) : Body × Nat :=
  (p, (p.activeEffects.filter (·.effect ≠ effect)).length)

/-- The ways in which effects stop. -/
inductive Stop where
  | expire (tickCount : Nat)
  | clearOne (effect : EffectType)
  | clearAll
  | replace (effect : ActiveEffect)

def Stop.perform (p : Body) : Stop → Option Body
  | .expire tickCount => tickEffects tickCount p
  | .clearOne effect => some (clearEffect p effect).1
  | .clearAll => some (clearEffects p)
  | .replace effect => addEffect p effect

/-! ## The law -/

/-- What is to remain of the active effects. -/
def Stop.left (effects : List ActiveEffect) : Stop → List ActiveEffect
  | .expire _ => (effects.filter fun e => 1 < e.durationTicks).map lessOne
  | .clearOne effect => effects.filter (·.effect ≠ effect)
  | .clearAll => []
  | .replace effect => effects.filter (·.effect ≠ effect.effect) ++ [effect]

/-- The level of an effect: `amplifier + 1`, 0 when it is not active. -/
def level (effects : List ActiveEffect) (effect : EffectType) : Nat :=
  ((effects.find? fun e => e.effect = effect).map fun e => e.amplifier + 1).getD 0

/-- The fields are what the effects alone give. -/
structure Derived (p : Body) (effects : List ActiveEffect) : Prop where
  speed : p.speedMultiplier = speedFormula (level effects .speed) (level effects .slowness)
  mining : p.miningMultiplier = miningFormula (level effects .miningFatigue) (level effects .haste)
  jump : p.jumpMultiplier = jumpFormula (level effects .jumpBoost)
  fall : p.fallDamageMultiplier = fallFormula (level effects .slowFalling)
  swim : p.swimSpeedMultiplier = swimFormula (level effects .dolphinGrace)
  absorption : (∀ e ∈ effects, e.effect ≠ .absorption) → p.absorptionHealth = 0

/-- The effects that stop are gone and the others are as they were, and after one more tick the
fields are what these give. -/
def Ends (stop : Stop) (tickCount : Nat) (p : Body) : Prop :=
  ∃ q, stop.perform p = some q ∧ q.activeEffects = stop.left p.activeEffects ∧
    ∃ r, tickEffects tickCount q = some r ∧ Derived r (stop.left p.activeEffects)

/-- The effects one after those that are meant give the same. -/
structure Agree (effects : List ActiveEffect) : Prop where
  speed : speedFormula (foundLevel effects EffectType.slowness.id) (foundLevel effects EffectType.haste.id) =
    speedFormula (level effects .speed) (level effects .slowness)
  mining : miningFormula (foundLevel effects EffectType.strength.id)
      (foundLevel effects EffectType.miningFatigue.id) =
    miningFormula (level effects .miningFatigue) (level effects .haste)
  jump : foundLevel effects EffectType.nausea.id = level effects .jumpBoost
  fall : 0 < foundLevel effects EffectType.conduitPower.id ↔ 0 < level effects .slowFalling
  swim : foundLevel effects EffectType.badOmen.id = level effects .dolphinGrace

/-- Luck is active when a saturation runs out. -/
def Resets (effects : List ActiveEffect) : Prop :=
  0 < foundLevel effects EffectType.luck.id ∧
    ∃ e ∈ effects, e.durationTicks ≤ 1 ∧ e.effect = .saturation

/-- There are no golden hearts after a tick. -/
def HeartsGone (effects : List ActiveEffect) (heartless : Prop) : Prop :=
  Resets effects ∨ heartless ∧ foundLevel effects EffectType.saturation.id = 0

/-- The effects that stop are taken out. -/
def Stop.Works (p : Body) : Stop → Prop
  | .expire tickCount => blocks tickCount p.activeEffects = false
  | .clearOne effect => ∀ e ∈ p.activeEffects, e.effect ≠ effect
  | .clearAll => True
  | .replace effect => effect.effect.isInstant = false

/-- There are no golden hearts afterwards. -/
def Stop.Heartless (p : Body) : Stop → Prop
  | .expire _ => HeartsGone p.activeEffects (p.absorptionHealth = 0)
  | _ => p.absorptionHealth = 0

/-- When an effect ends as it should. -/
structure EndsWell (stop : Stop) (tickCount : Nat) (p : Body) : Prop where
  works : stop.Works p
  returns : blocks tickCount (stop.left p.activeEffects) = false
  agree : Agree (stop.left p.activeEffects)
  hearts : (∃ e ∈ stop.left p.activeEffects, e.effect = .absorption) ∨
    HeartsGone (stop.left p.activeEffects) (stop.Heartless p)

/-! ## What a tick does -/

theorem id_eq_saturation (effect : EffectType) : effect.id = 22 ↔ effect = .saturation := by
  cases effect <;> decide

/-- The golden hearts before the durations go down are none exactly when there were none and no
saturation is active. -/
theorem absorb_eq_zero_iff (effects : List ActiveEffect) (hearts : ℚ) :
    absorb effects hearts = 0 ↔ hearts = 0 ∧ foundLevel effects EffectType.saturation.id = 0 := by
  change absorb effects hearts = 0 ↔ hearts = 0 ∧ foundLevel effects 22 = 0
  unfold absorb
  by_cases hlevel : 0 < foundLevel effects 22
  · have hpos : (0 : ℚ) < foundLevel effects 22 := Nat.cast_pos.2 hlevel
    refine iff_of_false ?_ fun h => by omega
    dsimp only
    split
    · linarith
    · rename_i hnot
      have hheart : 0 < hearts := lt_of_not_ge fun hle => hnot ⟨hlevel, hle⟩
      exact hheart.ne'
  · dsimp only
    rw [if_neg fun h => hlevel h.1]
    exact ⟨fun h => ⟨h, by omega⟩, fun h => h.1⟩

/-- What a tick that returns leaves in the fields. -/
structure Ticked (p q : Body) : Prop where
  effects : q.activeEffects = remaining p.activeEffects
  speed : q.speedMultiplier = speedFormula (foundLevel p.activeEffects 1) (foundLevel p.activeEffects 2)
  mining : q.miningMultiplier = miningFormula (foundLevel p.activeEffects 4) (foundLevel p.activeEffects 3)
  jump : q.jumpMultiplier = jumpFormula (foundLevel p.activeEffects 8)
  fall : q.fallDamageMultiplier = fallFormula (foundLevel p.activeEffects 28)
  swim : q.swimSpeedMultiplier = swimFormula (foundLevel p.activeEffects 30)
  hearts : q.absorptionHealth = 0 ↔ HeartsGone p.activeEffects (p.absorptionHealth = 0)

theorem resets_iff (effects : List ActiveEffect) : Resets effects ↔
    0 < foundLevel effects 25 ∧ (effects.any fun e => e.durationTicks ≤ 1 ∧ e.effect.id = 22) = true := by
  unfold Resets
  rw [List.any_eq_true]
  simp only [decide_eq_true_eq, id_eq_saturation]
  rfl

theorem tickEffects_some {tickCount : Nat} {p : Body} (h : blocks tickCount p.activeEffects = false) :
    ∃ q, tickEffects tickCount p = some q ∧ Ticked p q := by
  unfold tickEffects
  rw [if_neg (by rw [h]; exact Bool.false_ne_true)]
  dsimp only
  generalize hfed : (if 0 < foundLevel p.activeEffects 23 ∧ tickCount % 20 = 0 then _ else _ : Body) = fed
  have hhearts : fed.absorptionHealth = p.absorptionHealth := by
    rw [← hfed]
    split <;> split <;> rfl
  by_cases hlev : 0 < foundLevel p.activeEffects 25
  · rw [if_pos hlev]
    by_cases hreset : (p.activeEffects.any fun e => e.durationTicks ≤ 1 ∧ e.effect.id = 22) = true
    · rw [if_pos hreset]
      exact ⟨_, rfl, rfl, rfl, rfl, rfl, rfl, rfl, iff_of_true rfl (.inl ((resets_iff _).2 ⟨hlev, hreset⟩))⟩
    · rw [if_neg hreset]
      refine ⟨_, rfl, rfl, rfl, rfl, rfl, rfl, rfl, ?_⟩
      unfold HeartsGone
      rw [or_iff_right fun hr => hreset ((resets_iff _).1 hr).2, ← absorb_eq_zero_iff, ← hhearts]
  · rw [if_neg hlev]
    refine ⟨_, rfl, rfl, rfl, rfl, rfl, rfl, rfl, ?_⟩
    unfold HeartsGone
    rw [or_iff_right fun hr => hlev ((resets_iff _).1 hr).1, ← absorb_eq_zero_iff, ← hhearts]

theorem tickEffects_none {tickCount : Nat} {p : Body} (h : blocks tickCount p.activeEffects = true) :
    tickEffects tickCount p = none := by
  unfold tickEffects
  rw [if_pos h]

/-! ## Ending -/

/-- The effects with more than one tick left, with one tick less. -/
theorem remaining_eq (effects : List ActiveEffect) :
    remaining effects = (effects.filter fun e => 1 < e.durationTicks).map lessOne := by
  unfold remaining
  rw [List.filter_map]
  refine congrArg _ (List.filter_congr fun e _ => ?_)
  change decide (0 < e.durationTicks - 1) = decide (1 < e.durationTicks)
  rw [decide_eq_decide]
  omega

theorem jumpFormula_inj {a b : Nat} : jumpFormula a = jumpFormula b ↔ a = b := by
  unfold jumpFormula
  constructor
  · intro h
    have hcast : (a : ℚ) = b := by linarith
    exact Nat.cast_injective hcast
  · intro h
    rw [h]

theorem fallFormula_eq_iff {a b : Nat} : fallFormula a = fallFormula b ↔ (0 < a ↔ 0 < b) := by
  unfold fallFormula
  by_cases ha : 0 < a <;> by_cases hb : 0 < b <;> simp [ha, hb]

/-- **One further tick** gives what the active effects alone give exactly when it returns, the effects
after those that are meant give the same, and the golden hearts go. -/
theorem derived_iff (tickCount : Nat) (q : Body) :
    (∃ r, tickEffects tickCount q = some r ∧ Derived r q.activeEffects) ↔
      blocks tickCount q.activeEffects = false ∧ Agree q.activeEffects ∧
        ((∃ e ∈ q.activeEffects, e.effect = .absorption) ∨
          HeartsGone q.activeEffects (q.absorptionHealth = 0)) := by
  cases hblocks : blocks tickCount q.activeEffects with
  | true =>
      rw [tickEffects_none hblocks]
      refine iff_of_false ?_ fun h => Bool.false_ne_true h.1.symm
      rintro ⟨r, hr, -⟩
      cases hr
  | false =>
      obtain ⟨r, hr, ht⟩ := tickEffects_some hblocks
      rw [hr, and_iff_right rfl]
      have hhearts : ((∀ e ∈ q.activeEffects, e.effect ≠ .absorption) → r.absorptionHealth = 0) ↔
          (∃ e ∈ q.activeEffects, e.effect = .absorption) ∨
            HeartsGone q.activeEffects (q.absorptionHealth = 0) := by
        rw [ht.hearts]
        by_cases hactive : ∃ e ∈ q.activeEffects, e.effect = .absorption
        · obtain ⟨e, he, habs⟩ := hactive
          exact iff_of_true (fun hnone => absurd habs (hnone e he)) (.inl ⟨e, he, habs⟩)
        · rw [or_iff_right hactive]
          have hnone : ∀ e ∈ q.activeEffects, e.effect ≠ .absorption :=
            fun e he habs => hactive ⟨e, he, habs⟩
          exact forall_prop_of_true hnone
      rw [← hhearts]
      constructor
      · rintro ⟨r', hr', hd⟩
        cases hr'
        refine ⟨⟨?_, ?_, ?_, ?_, ?_⟩, hd.absorption⟩
        · exact ht.speed.symm.trans hd.speed
        · exact ht.mining.symm.trans hd.mining
        · exact jumpFormula_inj.1 (ht.jump.symm.trans hd.jump)
        · exact fallFormula_eq_iff.1 (ht.fall.symm.trans hd.fall)
        · exact jumpFormula_inj.1 (ht.swim.symm.trans hd.swim)
      · rintro ⟨ha, hgone⟩
        refine ⟨r, rfl, ⟨ht.speed.trans ha.speed, ht.mining.trans ha.mining, ?_, ?_, ?_, hgone⟩⟩
        · exact ht.jump.trans (jumpFormula_inj.2 ha.jump)
        · exact ht.fall.trans (fallFormula_eq_iff.2 ha.fall)
        · exact ht.swim.trans (jumpFormula_inj.2 ha.swim)

/-- What is left after a stop that works, and whether there are golden hearts. -/
theorem perform_some {stop : Stop} {p : Body} (h : stop.Works p) :
    ∃ q, stop.perform p = some q ∧ q.activeEffects = stop.left p.activeEffects ∧
      (q.absorptionHealth = 0 ↔ stop.Heartless p) := by
  cases stop with
  | expire tickCount =>
      obtain ⟨q, hq, ht⟩ := tickEffects_some h
      exact ⟨q, hq, ht.effects.trans (remaining_eq _), ht.hearts⟩
  | clearOne effect =>
      refine ⟨p, rfl, ?_, Iff.rfl⟩
      refine (List.filter_eq_self.2 fun e he => ?_).symm
      exact decide_eq_true (h e he)
  | clearAll => exact ⟨_, rfl, rfl, Iff.rfl⟩
  | replace effect =>
      have hadd : addEffect p effect = some { p with
          activeEffects := p.activeEffects.filter (·.effect ≠ effect.effect) ++ [effect] } := by
        unfold addEffect
        rw [show effect.effect.isInstant = false from h]
        rfl
      exact ⟨_, hadd, rfl, Iff.rfl⟩

theorem works_of_perform {stop : Stop} {p q : Body} (hq : stop.perform p = some q)
    (hleft : q.activeEffects = stop.left p.activeEffects) : stop.Works p := by
  cases stop with
  | expire tickCount =>
      change blocks tickCount p.activeEffects = false
      cases hblocks : blocks tickCount p.activeEffects with
      | false => rfl
      | true =>
          have hnone : tickEffects tickCount p = some q := hq
          rw [tickEffects_none hblocks] at hnone
          cases hnone
  | clearOne effect =>
      cases hq
      intro e he
      exact of_decide_eq_true (List.filter_eq_self.1 hleft.symm e he)
  | clearAll => trivial
  | replace effect =>
      change effect.effect.isInstant = false
      cases hinstant : effect.effect.isInstant with
      | false => rfl
      | true =>
          have hnone : addEffect p effect = some q := hq
          unfold addEffect at hnone
          rw [if_pos hinstant] at hnone
          cases hnone

/-- Speed and a boost of the jump, no golden hearts. -/
def runner : Body where
  activeEffects := [⟨.speed, 0, 600⟩, ⟨.jumpBoost, 1, 600⟩]
  foodExhaustion := 0
  foodSaturation := 5
  foodLevel := 20
  speedMultiplier := 1
  miningMultiplier := 1
  jumpMultiplier := 1
  fallDamageMultiplier := 1
  swimSpeedMultiplier := 1
  isSprinting := false
  absorptionHealth := 0
  y := 64

end Apoptotic.Effects
