import Apoptotic.Player.Effects
import Apoptotic.Player.Protection

/-!
# The rules of the effects

What `tick_effects`, `tick_effect_damage`, `apply_damage_with_enchants`, `apply_fall_damage` and
`apply_environmental_damage` of `mc-player/src/player.rs` do to a player.  Each looks up the levels of
effects by id; the comments beside the ids name the types.  Integers wrap, as in the release build; floats
are exact rationals.

Principal results: `named_withEffects_insert` — with the ids of the types that are named, an effect that no
rule of a call names changes nothing; `lawful_iff_meant` — for which lists of effects the functions do what
they do with these ids.
-/

namespace Apoptotic.EffectRules

open Commands (ActiveEffect EffectType Inventory)
open Effects
open Enchant (Enchants)
open Protection (calculateArmorReduction epf levelsOf totalArmorPoints totalArmorToughness)

/-- The player, as far as the five functions read and change it. -/
structure Patient where
  body : Body
  health : ℚ
  lastDamageTick : BitVec 64
  inventory : Inventory

/-- The id that is looked up for a type that a comment names. -/
abbrev Table := EffectType → Nat

/-- The ids in `tick_effects`. -/
def tickId : Table
  | .regeneration => 10
  | .hunger => 17
  | .saturation => 23
  | .speed => 1
  | .slowness => 2
  | .miningFatigue => 4
  | .haste => 3
  | .jumpBoost => 8
  | .slowFalling => 28
  | .dolphinGrace => 30
  | .blindness => 15
  | .invisibility => 14
  | .absorption => 22
  | .levitation => 25
  | effect => effect.id

/-- The ids that `get_effect_level` is called with. -/
def calledId : Table
  | .strength => 4
  | .weakness => 17
  | .resistance => 10
  | .slowFalling => 27
  | .fireResistance => 11
  | .waterBreathing => 12
  | .conduitPower => 28
  | .healthBoost => 20
  | .poison => 18
  | .wither => 19
  | effect => effect.id

section

variable (table : Table)

/-! ## A tick -/

/-- `get_max_health` -/
def maxHealth (effects : List ActiveEffect) : ℚ := 20 + 4 * foundLevel effects (table .healthBoost)

/-- An absorption runs out. -/
def expires (effects : List ActiveEffect) : Bool :=
  effects.any fun e => e.durationTicks ≤ 1 ∧ e.effect.id = table .absorption

/-- The golden hearts for a level of absorption. -/
def hearts (absorptionLvl : Nat) (absorptionHealth : ℚ) : ℚ :=
  if 0 < absorptionLvl ∧ absorptionHealth ≤ 0 then 4 * absorptionLvl else absorptionHealth

/-- The fields that a tick leaves, when it gets that far. -/
def tickBody (tickCount : Nat) (p : Body) : Body :=
  let level effect := foundLevel p.activeEffects (table effect)
  { activeEffects := remaining p.activeEffects
    foodExhaustion := if 0 < level .hunger ∧ tickCount % 20 = 0 then
      p.foodExhaustion + 1 / 200 * level .hunger else p.foodExhaustion
    foodSaturation := if 0 < level .saturation ∧ tickCount % 20 = 0 then
      min (p.foodSaturation + level .saturation) 20 else p.foodSaturation
    foodLevel := if 0 < level .saturation ∧ tickCount % 20 = 0 then
      min (p.foodLevel + level .saturation) 20 else p.foodLevel
    speedMultiplier := speedFormula (level .speed) (level .slowness)
    miningMultiplier := miningFormula (level .miningFatigue) (level .haste)
    jumpMultiplier := jumpFormula (level .jumpBoost)
    fallDamageMultiplier := fallFormula (level .slowFalling)
    swimSpeedMultiplier := swimFormula (level .dolphinGrace)
    isSprinting := p.isSprinting && level .blindness = 0 && level .invisibility = 0
    absorptionHealth := if 0 < level .levitation ∧ expires table p.activeEffects then 0
      else hearts (level .absorption) p.absorptionHealth
    y := if 0 < level .levitation then min (p.y + 1 / 20 * level .levitation) 256 else p.y }

/-- Regeneration is due. -/
def regenerates (tickCount : Nat) (effects : List ActiveEffect) : Prop :=
  let regenLevel := foundLevel effects (table .regeneration)
  0 < regenLevel ∧ tickCount % max (50 / regenLevel) 1 = 0

instance (tickCount : Nat) (effects : List ActiveEffect) :
    Decidable (regenerates table tickCount effects) := inferInstanceAs (Decidable (_ ∧ _))

def tickWith (tickCount : Nat) (p : Patient) : Patient :=
  { p with
    body := tickBody table tickCount p.body
    health := if regenerates table tickCount p.body.activeEffects then
      min (p.health + 1) (maxHealth table p.body.activeEffects) else p.health }

/-! ## Damage -/

def tickEffectDamage (p : Patient) : Patient :=
  let poisonLevel := foundLevel p.body.activeEffects (table .poison)
  let witherLevel := foundLevel p.body.activeEffects (table .wither)
  let health := if 0 < poisonLevel ∧ 1 < p.health then
    max (p.health - poisonLevel * (1 / 2)) 1 else p.health
  { p with health := if 0 < witherLevel then max (health - witherLevel) 0 else health }

/-- What comes in, before the armor. -/
def incoming (attacker : Option (List ActiveEffect)) (attackerItem : Option Enchants)
    (defender : List ActiveEffect) (rawDamage : ℚ) : ℚ :=
  let effective := match attacker with
    | some effects => max (rawDamage + foundLevel effects (table .strength) * 3 -
        foundLevel effects (table .weakness) * 4) 0
    | none => rawDamage
  let effective := match attackerItem.bind (·.lookup "sharpness") with
    | some sharp => effective + sharp * (5 / 4)
    | none => effective
  let resistanceLevel := foundLevel defender (table .resistance)
  if 0 < resistanceLevel then effective * max (1 - (resistanceLevel : ℚ) * (1 / 5)) 0 else effective

/-- `.sum()` of the levels of an enchantment. -/
def sumOf (name : String) (pieces : List Enchants) : Nat := (levelsOf name pieces).sum % 256

/-- What the armor enchantments leave of a damage. -/
def protect (armorEnchants : Option (List Enchants)) (effective : ℚ) : ℚ :=
  match armorEnchants with
  | some pieces => effective * (1 - epf (sumOf "protection" pieces) (sumOf "fire_protection" pieces)
      (sumOf "blast_protection" pieces) (sumOf "projectile_protection" pieces) / 100)
  | none => effective

/-- `apply_damage_with_enchants`, without the thorns, which hurt the attacker. -/
def applyDamageWithEnchants (attacker : Option (List ActiveEffect)) (attackerItem : Option Enchants)
    (armorEnchants : Option (List Enchants)) (rawDamage : ℚ) (tick : BitVec 64) (p : Patient) : Patient :=
  let effective :=
    protect armorEnchants (incoming table attacker attackerItem p.body.activeEffects rawDamage)
  let reduced := calculateArmorReduction (totalArmorPoints p.inventory) (totalArmorToughness p.inventory)
    effective
  { p with health := max (p.health - reduced) 0, lastDamageTick := tick }

def applyDamage : ℚ → BitVec 64 → Patient → Patient := applyDamageWithEnchants table none none none

def applyFallDamage (fallDistance : ℚ) (featherFalling : Nat) (p : Patient) : Patient :=
  if 0 < foundLevel p.body.activeEffects (table .slowFalling) then p
  else if 3 < fallDistance then
    let damage := (fallDistance - 3) * 1
    let damage := if 0 < featherFalling then damage * max (1 - (featherFalling : ℚ) * (3 / 25)) 0 else damage
    applyDamage table damage (p.lastDamageTick + 1) p
  else p

def environmentalDamage (dmgType : String) : ℚ :=
  if dmgType = "void" then 4 else if dmgType = "fire" then 1 else if dmgType = "drowning" then 2 else 1

def applyEnvironmentalDamage (dmgType : String) (p : Patient) : Patient :=
  let level effect := foundLevel p.body.activeEffects (table effect)
  if dmgType = "fire" ∧ 0 < level .fireResistance then p
  else if dmgType = "drowning" ∧ (0 < level .waterBreathing ∨ 0 < level .conduitPower) then p
  else applyDamage table (environmentalDamage dmgType) (p.lastDamageTick + 1) p

end

/-! ## The calls -/

inductive Call where
  | tickEffects (tickCount : Nat)
  | tickEffectDamage
  | applyDamageWithEnchants (attacker : Option (List ActiveEffect)) (attackerItem : Option Enchants)
      (armorEnchants : Option (List Enchants)) (rawDamage : ℚ) (tick : BitVec 64)
  | applyFallDamage (fallDistance : ℚ) (featherFalling : Nat)
  | applyEnvironmentalDamage (dmgType : String)

/-- A call, with the ids of a table. -/
def Call.performWith (table : Table) : Call → Patient → Patient
  | .tickEffects tickCount => tickWith table tickCount
  | .tickEffectDamage => EffectRules.tickEffectDamage table
  | .applyDamageWithEnchants attacker attackerItem armorEnchants rawDamage tick =>
      EffectRules.applyDamageWithEnchants table attacker attackerItem armorEnchants rawDamage tick
  | .applyFallDamage fallDistance featherFalling =>
      EffectRules.applyFallDamage table fallDistance featherFalling
  | .applyEnvironmentalDamage dmgType => EffectRules.applyEnvironmentalDamage table dmgType

/-- A call; none where it does not return. -/
def Call.perform : Call → Patient → Option Patient
  | .tickEffects tickCount, p => (Effects.tickEffects tickCount p.body).map fun b => { p with body := b }
  | call, p => some (call.performWith calledId p)

/-- A call, with the ids of the types that are named. -/
def Call.named (call : Call) : Patient → Patient := call.performWith EffectType.id

/-- The types that a call names. -/
def Call.rules : Call → List EffectType
  | .tickEffects _ => [.regeneration, .healthBoost, .hunger, .saturation, .speed, .slowness, .miningFatigue,
      .haste, .jumpBoost, .slowFalling, .dolphinGrace, .blindness, .invisibility, .absorption, .levitation]
  | .tickEffectDamage => [.poison, .wither]
  | .applyDamageWithEnchants .. => [.resistance]
  | .applyFallDamage .. => [.slowFalling, .resistance]
  | .applyEnvironmentalDamage _ => [.fireResistance, .waterBreathing, .conduitPower, .resistance]

/-! ## The law -/

def Active (effects : List ActiveEffect) (effect : EffectType) : Prop := ∃ e ∈ effects, e.effect = effect

/-- **Each effect does what its type says**: a call does what it does with the ids of the types that it
names, and the rules of five of them act exactly when they are active. -/
structure Lawful (effects : List ActiveEffect) : Prop where
  named : ∀ (call : Call) (p : Patient), p.body.activeEffects = effects → call.perform p = some (call.named p)
  acts : ∀ effect ∈ [EffectType.regeneration, .hunger, .levitation, .absorption, .slowFalling],
    (0 < foundLevel effects (tickId effect) ↔ Active effects effect)
  fall : 0 < foundLevel effects (calledId .slowFalling) ↔ Active effects .slowFalling

/-- The level of the first effect of a type. -/
def levelOf (effects : List ActiveEffect) (effect : EffectType) : Nat := foundLevel effects effect.id

/-- Something runs out while the player levitates. -/
def Lost (effects : List ActiveEffect) (lifting lost : EffectType) : Prop :=
  0 < levelOf effects lifting ∧ ∃ e ∈ effects, e.durationTicks ≤ 1 ∧ e.effect = lost

/-- Regeneration and resistance are not active, and the effects one after those that are named give the
same. -/
structure Meant (effects : List ActiveEffect) : Prop where
  regeneration : ¬Active effects .regeneration
  resistance : levelOf effects .resistance = 0
  hunger : levelOf effects .weakness = levelOf effects .hunger
  saturation : levelOf effects .glowing = levelOf effects .saturation
  speed : speedFormula (levelOf effects .slowness) (levelOf effects .haste) =
    speedFormula (levelOf effects .speed) (levelOf effects .slowness)
  mining : miningFormula (levelOf effects .strength) (levelOf effects .miningFatigue) =
    miningFormula (levelOf effects .miningFatigue) (levelOf effects .haste)
  jump : levelOf effects .nausea = levelOf effects .jumpBoost
  fall : 0 < levelOf effects .conduitPower ↔ 0 < levelOf effects .slowFalling
  swim : levelOf effects .badOmen = levelOf effects .dolphinGrace
  sprinting : levelOf effects .nightVision = 0 ∧ levelOf effects .blindness = 0 ↔
    levelOf effects .blindness = 0 ∧ levelOf effects .invisibility = 0
  levitation : levelOf effects .luck = levelOf effects .levitation
  lost : Lost effects .luck .saturation ↔ Lost effects .luck .absorption
  absorption : Lost effects .luck .saturation ∨ levelOf effects .saturation = levelOf effects .absorption
  golden : 0 < levelOf effects .saturation ↔ Active effects .absorption
  /-- The first of each is not at the largest amplifier. -/
  tame : ∀ effect ∈ [EffectType.hunger, .levitation, .slowFalling], Active effects effect →
    0 < levelOf effects effect

/-! ## The tables -/

theorem calledId_eq : calledId = EffectType.id := by
  funext effect
  cases effect <;> rfl

theorem ite_exhaustion (c : Prop) [Decidable c] (p : Body) (v : ℚ) :
    (if c then { p with foodExhaustion := v } else p) =
      { p with foodExhaustion := if c then v else p.foodExhaustion } := by
  split <;> rfl

theorem ite_fed (c : Prop) [Decidable c] (p : Body) (saturation : ℚ) (food : Int) :
    (if c then { p with foodSaturation := saturation, foodLevel := food } else p) =
      { p with
        foodSaturation := if c then saturation else p.foodSaturation
        foodLevel := if c then food else p.foodLevel } := by
  split <;> rfl

/-- A tick that gets past the regeneration leaves the fields of the table. -/
theorem tickEffects_eq (tickCount : Nat) (p : Body) : tickEffects tickCount p =
    if blocks tickCount p.activeEffects then none else some (tickBody tickId tickCount p) := by
  unfold tickEffects
  by_cases hblocks : blocks tickCount p.activeEffects = true
  · rw [if_pos hblocks, if_pos hblocks]
  rw [if_neg hblocks, if_neg hblocks]
  have hexpires : (p.activeEffects.any fun e => e.durationTicks ≤ 1 ∧ e.effect.id = 22) =
      expires tickId p.activeEffects := rfl
  have hhearts : absorb p.activeEffects = hearts (foundLevel p.activeEffects 22) := rfl
  unfold tickBody
  dsimp only
  rw [ite_exhaustion, ite_fed, hexpires, hhearts]
  by_cases hlevitation : 0 < foundLevel p.activeEffects 25
  · by_cases hlost : expires tickId p.activeEffects = true
    · simp only [tickId, hlevitation, hlost, and_true, if_true]
      rfl
    · simp only [tickId, hlevitation, hlost, and_false, if_true, if_false, Bool.false_eq_true]
      rfl
  · simp only [tickId, hlevitation, false_and, if_false]
    rfl

theorem perform_tickEffects (tickCount : Nat) (p : Patient) : (Call.tickEffects tickCount).perform p =
    if blocks tickCount p.body.activeEffects then none
    else some { p with body := tickBody tickId tickCount p.body } := by
  change (tickEffects tickCount p.body).map _ = _
  rw [tickEffects_eq]
  split <;> rfl

/-- The calls of `get_effect_level` have the ids of the types. -/
theorem perform_of_called {call : Call} (h : ∀ tickCount, call ≠ .tickEffects tickCount) (p : Patient) :
    call.perform p = some (call.named p) := by
  unfold Call.named
  rw [← calledId_eq]
  cases call with
  | tickEffects tickCount => exact absurd rfl (h tickCount)
  | _ => rfl

/-! ## Levels -/

theorem id_injective : Function.Injective EffectType.id :=
  Function.LeftInverse.injective EffectType.ofNat_ctorIdx

theorem foundLevel_lt (effects : List ActiveEffect) (id : Nat) : foundLevel effects id < 256 := by
  unfold foundLevel
  cases effects.find? fun e => e.effect.id = id with
  | none => exact Nat.zero_lt_succ 255
  | some e => exact Nat.mod_lt _ (by omega)

theorem active_of_levelOf {effects : List ActiveEffect} {effect : EffectType}
    (h : 0 < levelOf effects effect) : Active effects effect := by
  unfold levelOf foundLevel at h
  cases hfound : effects.find? fun e => e.effect.id = effect.id with
  | none =>
      rw [hfound] at h
      exact absurd h (Nat.lt_irrefl 0)
  | some e =>
      have hid : e.effect.id = effect.id := by simpa using List.find?_some hfound
      exact ⟨e, List.mem_of_find?_eq_some hfound, id_injective hid⟩

theorem expires_iff {table : Table} {lost : EffectType} (h : table .absorption = lost.id)
    (effects : List ActiveEffect) : expires table effects = true ↔
      ∃ e ∈ effects, e.durationTicks ≤ 1 ∧ e.effect = lost := by
  unfold expires
  rw [List.any_eq_true, h]
  simp only [decide_eq_true_eq, id_injective.eq_iff]

theorem expires_tickId (effects : List ActiveEffect) : expires tickId effects = true ↔
    ∃ e ∈ effects, e.durationTicks ≤ 1 ∧ e.effect = .saturation :=
  expires_iff (show tickId .absorption = EffectType.saturation.id from rfl) effects

theorem expires_id (effects : List ActiveEffect) : expires EffectType.id effects = true ↔
    ∃ e ∈ effects, e.durationTicks ≤ 1 ∧ e.effect = .absorption := expires_iff rfl effects

theorem blocks_iff (tickCount : Nat) (effects : List ActiveEffect) :
    blocks tickCount effects = true ↔ regenerates tickId tickCount effects := by
  simp [blocks, regenerates, tickId]

/-! ## Two runs -/

def Patient.withEffects (p : Patient) (effects : List ActiveEffect) : Patient :=
  { p with body := { p.body with activeEffects := effects } }

section Fields

variable (p : Patient) (effects effects' : List ActiveEffect)

@[simp] theorem activeEffects_withEffects : (p.withEffects effects).body.activeEffects = effects := rfl

@[simp] theorem lastDamageTick_withEffects : (p.withEffects effects).lastDamageTick = p.lastDamageTick := rfl

@[simp] theorem withEffects_withEffects :
    (p.withEffects effects).withEffects effects' = p.withEffects effects' := rfl

end Fields

section

variable {pre post : List ActiveEffect} {e : ActiveEffect}

theorem levelOf_insert {effect : EffectType} (h : e.effect ≠ effect) :
    foundLevel (pre ++ e :: post) effect.id = foundLevel (pre ++ post) effect.id := by
  have hid : ¬e.effect.id = effect.id := fun heq => h (id_injective heq)
  unfold foundLevel
  rw [List.find?_append, List.find?_append, List.find?_cons_of_neg (by simpa using hid)]

theorem expires_insert (h : e.effect ≠ .absorption) :
    expires EffectType.id (pre ++ e :: post) = expires EffectType.id (pre ++ post) := by
  have hid : ¬e.effect.id = EffectType.absorption.id := fun heq => h (id_injective heq)
  unfold expires
  rw [List.any_append, List.any_append, List.any_cons, decide_eq_false fun hboth => hid hboth.2,
    Bool.false_or]

/-- The damage depends on the resistance. -/
theorem damage_insert (h : foundLevel (pre ++ e :: post) EffectType.resistance.id =
    foundLevel (pre ++ post) EffectType.resistance.id) (attacker : Option (List ActiveEffect))
    (attackerItem : Option Enchants) (armorEnchants : Option (List Enchants)) (rawDamage : ℚ)
    (tick : BitVec 64) (p : Patient) :
    (applyDamageWithEnchants EffectType.id attacker attackerItem armorEnchants rawDamage tick
      (p.withEffects (pre ++ e :: post))).withEffects [] =
    (applyDamageWithEnchants EffectType.id attacker attackerItem armorEnchants rawDamage tick
      (p.withEffects (pre ++ post))).withEffects [] := by
  have hincoming : incoming EffectType.id attacker attackerItem (pre ++ e :: post) rawDamage =
      incoming EffectType.id attacker attackerItem (pre ++ post) rawDamage := by
    unfold incoming
    rw [h]
  unfold applyDamageWithEnchants Patient.withEffects
  dsimp only
  rw [hincoming]

/-- **With the ids of the types, an effect that no rule of a call names changes nothing but the list.** -/
theorem named_withEffects_insert {call : Call} (h : e.effect ∉ call.rules) (p : Patient) :
    (call.named (p.withEffects (pre ++ e :: post))).withEffects [] =
      (call.named (p.withEffects (pre ++ post))).withEffects [] := by
  have hlevel : ∀ effect ∈ call.rules,
      foundLevel (pre ++ e :: post) effect.id = foundLevel (pre ++ post) effect.id :=
    fun effect hmem => levelOf_insert fun heq => h (heq ▸ hmem)
  cases call with
  | tickEffects tickCount =>
      have habsorption : e.effect ≠ .absorption := fun heq => h (by rw [heq]; simp [Call.rules])
      have hexpires : expires EffectType.id (pre ++ e :: post) = expires EffectType.id (pre ++ post) :=
        expires_insert habsorption
      simp only [Call.rules, List.forall_mem_cons] at hlevel
      obtain ⟨h1, h2, h3, h4, h5, h6, h7, h8, h9, h10, h11, h12, h13, h14, h15, -⟩ := hlevel
      change (tickWith EffectType.id tickCount _).withEffects [] =
        (tickWith EffectType.id tickCount _).withEffects []
      have hregenerates : regenerates EffectType.id tickCount (pre ++ e :: post) ↔
          regenerates EffectType.id tickCount (pre ++ post) := by
        unfold regenerates
        rw [h1]
      have hmax : maxHealth EffectType.id (pre ++ e :: post) = maxHealth EffectType.id (pre ++ post) := by
        unfold maxHealth
        rw [h2]
      unfold tickWith tickBody Patient.withEffects
      simp only [hregenerates, hmax, h3, h4, h5, h6, h7, h8, h9, h10, h11, h12, h13, h14, h15, hexpires]
  | tickEffectDamage =>
      simp only [Call.rules, List.forall_mem_cons] at hlevel
      obtain ⟨hpoison, hwither, -⟩ := hlevel
      change (EffectRules.tickEffectDamage EffectType.id _).withEffects [] =
        (EffectRules.tickEffectDamage EffectType.id _).withEffects []
      unfold EffectRules.tickEffectDamage Patient.withEffects
      dsimp only
      rw [hpoison, hwither]
  | applyDamageWithEnchants attacker attackerItem armorEnchants rawDamage tick =>
      exact damage_insert (hlevel .resistance (by simp [Call.rules])) ..
  | applyFallDamage fallDistance featherFalling =>
      simp only [Call.rules, List.forall_mem_cons] at hlevel
      obtain ⟨hfall, hresistance, -⟩ := hlevel
      change (EffectRules.applyFallDamage EffectType.id _ _ _).withEffects [] =
        (EffectRules.applyFallDamage EffectType.id _ _ _).withEffects []
      unfold EffectRules.applyFallDamage
      simp only [apply_ite (Patient.withEffects · []), applyDamage, damage_insert hresistance]
      simp [hfall]
  | applyEnvironmentalDamage dmgType =>
      simp only [Call.rules, List.forall_mem_cons] at hlevel
      obtain ⟨hfire, hwater, hconduit, hresistance, -⟩ := hlevel
      change (EffectRules.applyEnvironmentalDamage EffectType.id _ _).withEffects [] =
        (EffectRules.applyEnvironmentalDamage EffectType.id _ _).withEffects []
      unfold EffectRules.applyEnvironmentalDamage
      simp only [apply_ite (Patient.withEffects · []), applyDamage, damage_insert hresistance]
      simp only [activeEffects_withEffects, lastDamageTick_withEffects, withEffects_withEffects, hfire, hwater,
        hconduit]
      congr

end

/-! ## Where the tables agree -/

/-- Where the effects are as they are meant, a tick leaves what it is meant to leave. -/
theorem Meant.tickBody_eq {p : Body} (h : Meant p.activeEffects) (tickCount : Nat) :
    tickBody tickId tickCount p = tickBody EffectType.id tickCount p := by
  have hhunger : foundLevel p.activeEffects (tickId .hunger) =
    foundLevel p.activeEffects EffectType.hunger.id := h.hunger
  have hsaturation : foundLevel p.activeEffects (tickId .saturation) =
    foundLevel p.activeEffects EffectType.saturation.id := h.saturation
  have hspeed : speedFormula (foundLevel p.activeEffects (tickId .speed))
      (foundLevel p.activeEffects (tickId .slowness)) = _ := h.speed
  have hmining : miningFormula (foundLevel p.activeEffects (tickId .miningFatigue))
      (foundLevel p.activeEffects (tickId .haste)) = _ := h.mining
  have hjump : foundLevel p.activeEffects (tickId .jumpBoost) =
    foundLevel p.activeEffects EffectType.jumpBoost.id := h.jump
  have hfall : fallFormula (foundLevel p.activeEffects (tickId .slowFalling)) =
    fallFormula (foundLevel p.activeEffects EffectType.slowFalling.id) := fallFormula_eq_iff.2 h.fall
  have hswim : foundLevel p.activeEffects (tickId .dolphinGrace) =
    foundLevel p.activeEffects EffectType.dolphinGrace.id := h.swim
  have hlevitation : foundLevel p.activeEffects (tickId .levitation) =
    foundLevel p.activeEffects EffectType.levitation.id := h.levitation
  have hsprinting : (decide (foundLevel p.activeEffects (tickId .blindness) = 0) &&
      decide (foundLevel p.activeEffects (tickId .invisibility) = 0)) =
      (decide (foundLevel p.activeEffects EffectType.blindness.id = 0) &&
        decide (foundLevel p.activeEffects EffectType.invisibility.id = 0)) := by
    rw [← Bool.decide_and, ← Bool.decide_and, decide_eq_decide]
    exact h.sprinting
  have hlost : (0 < foundLevel p.activeEffects EffectType.levitation.id ∧
      expires tickId p.activeEffects = true) ↔ (0 < foundLevel p.activeEffects EffectType.levitation.id ∧
      expires EffectType.id p.activeEffects = true) := by
    rw [expires_tickId, expires_id, ← hlevitation]
    exact h.lost
  have hhearts : ¬(0 < foundLevel p.activeEffects EffectType.levitation.id ∧
      expires EffectType.id p.activeEffects = true) →
      foundLevel p.activeEffects (tickId .absorption) =
        foundLevel p.activeEffects EffectType.absorption.id := by
    intro hnot
    refine h.absorption.resolve_left fun hresets => hnot (hlost.1 ?_)
    rw [expires_tickId, ← hlevitation]
    exact hresets
  unfold tickBody
  simp only [Bool.and_assoc, hhunger, hsaturation, hspeed, hmining, hjump, hfall, hswim, hlevitation,
    hsprinting, hlost]
  by_cases hresets : 0 < foundLevel p.activeEffects EffectType.levitation.id ∧
      expires EffectType.id p.activeEffects = true
  · simp only [if_pos hresets]
    rfl
  · simp only [if_neg hresets, hhearts hresets]
    rfl

theorem Meant.lawful {effects : List ActiveEffect} (h : Meant effects) : Lawful effects := by
  have hregeneration : levelOf effects .regeneration = 0 :=
    Nat.eq_zero_of_not_pos fun hpos => h.regeneration (active_of_levelOf hpos)
  refine ⟨?_, ?_, ?_⟩
  · rintro call p rfl
    by_cases htick : ∃ tickCount, call = .tickEffects tickCount
    · obtain ⟨tickCount, rfl⟩ := htick
      have hreturns : ¬blocks tickCount p.body.activeEffects = true := by
        rw [blocks_iff]
        exact fun hdue => Nat.lt_irrefl 0 (h.resistance ▸ hdue.1)
      have hnot : ¬regenerates EffectType.id tickCount p.body.activeEffects :=
        fun hdue => Nat.lt_irrefl 0 (hregeneration ▸ hdue.1)
      rw [perform_tickEffects, if_neg hreturns, h.tickBody_eq]
      change _ = some (tickWith EffectType.id tickCount p)
      unfold tickWith
      rw [if_neg hnot]
    · exact perform_of_called (fun tickCount heq => htick ⟨tickCount, heq⟩) p
  · have htame : ∀ {effect : EffectType}, effect ∈ [EffectType.hunger, .levitation, .slowFalling] →
        (0 < levelOf effects effect ↔ Active effects effect) :=
      fun hmem => ⟨active_of_levelOf, h.tame _ hmem⟩
    intro effect hmem
    simp only [List.mem_cons, List.not_mem_nil, or_false] at hmem
    rcases hmem with rfl | rfl | rfl | rfl | rfl
    · change 0 < levelOf effects .resistance ↔ _
      rw [h.resistance]
      exact iff_of_false (Nat.lt_irrefl 0) h.regeneration
    · change 0 < levelOf effects .weakness ↔ _
      rw [h.hunger]
      exact htame (by simp)
    · change 0 < levelOf effects .luck ↔ _
      rw [h.levitation]
      exact htame (by simp)
    · exact h.golden
    · exact h.fall.trans (htame (by simp))
  · change 0 < levelOf effects .slowFalling ↔ _
    exact ⟨active_of_levelOf, h.tame _ (by simp)⟩

/-! ## What the law takes -/

/-- A sprinting player, far below every limit. -/
def probe (effects : List ActiveEffect) (absorptionHealth : ℚ) : Patient where
  body := {
    activeEffects := effects
    foodExhaustion := 0
    foodSaturation := 0
    foodLevel := -1000
    speedMultiplier := 1
    miningMultiplier := 1
    jumpMultiplier := 1
    fallDamageMultiplier := 1
    swimSpeedMultiplier := 1
    isSprinting := true
    absorptionHealth := absorptionHealth
    y := 0 }
  health := 0
  lastDamageTick := 0
  inventory := Inventory.new

/-- What a tick does to it. -/
theorem Lawful.tick {effects : List ActiveEffect} (h : Lawful effects) (absorptionHealth : ℚ) :
    ¬regenerates tickId 0 effects ∧ ¬regenerates EffectType.id 0 effects ∧
      tickBody tickId 0 (probe effects absorptionHealth).body =
        tickBody EffectType.id 0 (probe effects absorptionHealth).body := by
  have hnamed := h.named (.tickEffects 0) (probe effects absorptionHealth) rfl
  rw [perform_tickEffects] at hnamed
  split at hnamed
  · cases hnamed
  · rename_i hreturns
    rw [blocks_iff] at hreturns
    have hsame := Option.some.inj hnamed
    refine ⟨hreturns, fun hdue => ?_, congrArg Patient.body hsame⟩
    have hhealth : 0 = if regenerates EffectType.id 0 effects then
        min (0 + 1) (maxHealth EffectType.id effects) else 0 := congrArg Patient.health hsame
    rw [if_pos hdue] at hhealth
    have hmax : (20 : ℚ) ≤ maxHealth EffectType.id effects := by
      unfold maxHealth
      have hboost : (0 : ℚ) ≤ foundLevel effects EffectType.healthBoost.id := Nat.cast_nonneg _
      linarith
    rw [min_eq_left (by linarith)] at hhealth
    linarith

theorem regenerates_zero (table : Table) (effects : List ActiveEffect) :
    regenerates table 0 effects ↔ 0 < foundLevel effects (table .regeneration) := by
  unfold regenerates
  dsimp only
  rw [Nat.zero_mod, and_iff_left rfl]

theorem ite_due (level : Nat) (c : ℚ) :
    (if 0 < level ∧ 0 % 20 = 0 then 0 + c * level else 0) = c * level := by
  by_cases hlevel : 0 < level
  · rw [if_pos ⟨hlevel, rfl⟩, zero_add]
  · rw [if_neg fun h => hlevel h.1, Nat.eq_zero_of_not_pos hlevel]
    simp

theorem ite_food {level : Nat} (h : level < 256) :
    (if 0 < level ∧ 0 % 20 = 0 then min (-1000 + (level : Int)) 20 else -1000) = -1000 + level := by
  split <;> omega

theorem ite_lift {level : Nat} (h : level < 256) :
    (if 0 < level then min (0 + 1 / 20 * (level : ℚ)) 256 else 0) = 1 / 20 * level := by
  have hcast : (level : ℚ) < 256 := by exact_mod_cast h
  by_cases hlevel : 0 < level
  · rw [if_pos hlevel, zero_add, min_eq_left (by linarith)]
  · rw [if_neg hlevel, Nat.eq_zero_of_not_pos hlevel]
    simp

theorem hearts_zero (level : Nat) : hearts level 0 = 4 * level := by
  unfold hearts
  by_cases hlevel : 0 < level
  · rw [if_pos ⟨hlevel, le_refl 0⟩]
  · rw [if_neg fun h => hlevel h.1, Nat.eq_zero_of_not_pos hlevel]
    simp

theorem hearts_one (level : Nat) : hearts level 1 = 1 := if_neg fun h => absurd h.2 (by norm_num)

theorem ite_zero_one_inj {a b : Prop} [Decidable a] [Decidable b]
    (h : (if a then (0 : ℚ) else 1) = if b then 0 else 1) : a ↔ b := by
  by_cases ha : a <;> by_cases hb : b <;> simp [ha, hb] at h ⊢

/-- What a tick does to the golden hearts of the player, with none and with half a heart. -/
theorem Lawful.hearts {effects : List ActiveEffect} (h : Lawful effects)
    (hlevitation : levelOf effects .luck = levelOf effects .levitation) :
    (Lost effects .luck .saturation ↔ Lost effects .luck .absorption) ∧
      (Lost effects .luck .saturation ∨ levelOf effects .saturation = levelOf effects .absorption) := by
  have hcode : (0 < foundLevel effects (tickId .levitation) ∧ expires tickId effects = true) ↔
      Lost effects .luck .saturation := by
    rw [expires_tickId]
    rfl
  have hnamed : (0 < foundLevel effects EffectType.levitation.id ∧ expires EffectType.id effects = true) ↔
      Lost effects .luck .absorption := by
    rw [expires_id]
    unfold Lost
    rw [hlevitation]
    rfl
  have hnone := congrArg Body.absorptionHealth (h.tick 0).2.2
  have hhalf := congrArg Body.absorptionHealth (h.tick 1).2.2
  dsimp only [tickBody, probe] at hnone hhalf
  rw [hearts_zero, hearts_zero] at hnone
  rw [hearts_one, hearts_one] at hhalf
  have hlost := ite_zero_one_inj hhalf
  refine ⟨hcode.symm.trans (hlost.trans hnamed), or_iff_not_imp_left.2 fun hkept => ?_⟩
  rw [← hcode] at hkept
  rw [if_neg hkept, if_neg fun hresets => hkept (hlost.2 hresets)] at hnone
  have hcast : (levelOf effects .saturation : ℚ) = levelOf effects .absorption :=
    mul_left_cancel₀ (by norm_num) hnone
  exact Nat.cast_injective hcast

theorem Lawful.meant {effects : List ActiveEffect} (h : Lawful effects) : Meant effects := by
  obtain ⟨hresistance, -, hbody⟩ := h.tick 0
  rw [regenerates_zero] at hresistance
  have hlt := foundLevel_lt effects
  have hhunger : levelOf effects .weakness = levelOf effects .hunger := by
    have hfield := congrArg Body.foodExhaustion hbody
    dsimp only [tickBody, probe] at hfield
    rw [ite_due, ite_due] at hfield
    exact Nat.cast_injective (mul_left_cancel₀ (by norm_num) hfield)
  have hsaturation : levelOf effects .glowing = levelOf effects .saturation := by
    have hfield := congrArg Body.foodLevel hbody
    dsimp only [tickBody, probe] at hfield
    rw [ite_food (hlt _), ite_food (hlt _)] at hfield
    exact Int.ofNat.inj (add_left_cancel hfield)
  have hlevitation : levelOf effects .luck = levelOf effects .levitation := by
    have hfield := congrArg Body.y hbody
    dsimp only [tickBody, probe] at hfield
    rw [ite_lift (hlt _), ite_lift (hlt _)] at hfield
    exact Nat.cast_injective (mul_left_cancel₀ (by norm_num) hfield)
  have hsprinting := congrArg Body.isSprinting hbody
  dsimp only [tickBody, probe] at hsprinting
  rw [Bool.true_and, Bool.true_and, ← Bool.decide_and, ← Bool.decide_and, decide_eq_decide] at hsprinting
  obtain ⟨hlost, habsorption⟩ := h.hearts hlevitation
  have hacts := h.acts
  simp only [List.forall_mem_cons] at hacts
  obtain ⟨hregenerationActs, hhungerActs, hlevitationActs, hgolden, -⟩ := hacts
  exact {
    regeneration := fun hactive => hresistance (hregenerationActs.2 hactive)
    resistance := Nat.eq_zero_of_not_pos hresistance
    hunger := hhunger
    saturation := hsaturation
    speed := congrArg Body.speedMultiplier hbody
    mining := congrArg Body.miningMultiplier hbody
    jump := jumpFormula_inj.1 (congrArg Body.jumpMultiplier hbody)
    fall := fallFormula_eq_iff.1 (congrArg Body.fallDamageMultiplier hbody)
    swim := jumpFormula_inj.1 (congrArg Body.swimSpeedMultiplier hbody)
    sprinting := hsprinting
    levitation := hlevitation
    lost := hlost
    absorption := habsorption
    golden := hgolden
    tame := by
      intro effect hmem hactive
      simp only [List.mem_cons, List.not_mem_nil, or_false] at hmem
      rcases hmem with rfl | rfl | rfl
      · rw [← hhunger]
        exact hhungerActs.2 hactive
      · rw [← hlevitation]
        exact hlevitationActs.2 hactive
      · exact h.fall.2 hactive }

end Apoptotic.EffectRules
