import Apoptotic.Player.Effects
import Apoptotic.Player.Enchant
import Apoptotic.Player.Experience

/-!
# The arithmetic of effects and protection

The computations of `add_effect`, `tick_effects`, `get_effect_level` and `apply_damage_with_enchants` of
`mc-player/src/player.rs` with checked integers: none where one overflows or shifts out of range.
Floats are exact rationals.

Principal result: `arithmetic_law` — exactly when each of them is in range, and where the damage is in
range, more protection never makes it larger.
-/

namespace Apoptotic.Protection

open Commands (ActiveEffect EffectType Inventory)
open Enchant (Enchants)
open Experience (i32? i32?_eq_some)
open Effects (blocks)

def u8? (n : Nat) : Option Nat := if n < 256 then some n else none

/-- `x << n` of an `i32` -/
def shl? (x n : Nat) : Option Int := if n < 32 then i32? (x * 2 ^ n) else none

/-- `get_effect_level`, and the levels in `tick_effects`. -/
def level? (effects : List ActiveEffect) (id : Nat) : Option Nat :=
  match effects.find? fun e => e.effect.id = id with
  | some e => u8? (e.amplifier + 1)
  | none => some 0

/-- What `add_effect` makes of the health, and its reply. -/
def addEffect? (health : ℚ) (effect : ActiveEffect) : Option (ℚ × String) :=
  let name := effect.effect.debug
  if effect.effect = .instantHealth then do
    let heal ← shl? 4 effect.amplifier
    some (max (min (health + heal) 20) 0, s!"Applied instant effect {name}")
  else if effect.effect = .instantDamage then do
    let damage ← shl? 3 effect.amplifier
    some (max (health - damage) 0, s!"Applied instant effect {name}")
  else do
    let level ← u8? (effect.amplifier + 1)
    let ticks := effect.durationTicks
    some (health, s!"Applied {name} x{level} for {ticks} ticks")

/-- The ids that a tick looks for, one after another; a tick that blocks does not get further than the
first. -/
def readIds (tickCount : Nat) (effects : List ActiveEffect) : List Nat :=
  if blocks tickCount effects then [10] else [10, 17, 23, 1, 2, 4, 3, 8, 28, 30, 15, 14, 22, 25]

/-- The levels in `tick_effects`. -/
def tickLevels? (tickCount : Nat) (effects : List ActiveEffect) : Option (List Nat) :=
  (readIds tickCount effects).mapM (level? effects)

/-! ## Damage -/

def armorPointsForItem (itemId : Nat) : Nat :=
  if itemId ∈ [811, 814] then 1
  else if itemId ∈ [813, 815, 818, 822, 827, 830] then 2
  else if itemId ∈ [812, 819, 823, 826, 831, 834, 842] then 3
  else if itemId ∈ [816, 817, 821, 829] then 5
  else if itemId ∈ [820, 825, 828, 833] then 6
  else if itemId ∈ [824, 832] then 8
  else 0

def armorToughnessForItem (itemId : Nat) : Nat :=
  if 831 ≤ itemId ∧ itemId ≤ 834 then 3
  else if 823 ≤ itemId ∧ itemId ≤ 826 then 2
  else 0

def armorSum (f : Nat → Nat) (inv : Inventory) : Nat :=
  ((inv.armor.toList.filterMap id).map fun s => f s.item.id.toNat).sum

def totalArmorPoints (inv : Inventory) : Nat := armorSum armorPointsForItem inv

def totalArmorToughness (inv : Inventory) : Nat := armorSum armorToughnessForItem inv

def calculateArmorReduction (armorPoints armorToughness rawDamage : ℚ) : ℚ :=
  if rawDamage ≤ 0 then 0
  else
    let effective :=
      min (max (armorPoints - 4 * rawDamage / (armorToughness + 8)) (armorPoints * (1 / 5))) 20
    let reduction := 1 - effective / 25
    max (rawDamage * reduction) 0

/-- The levels of an enchantment on the pieces of armor. -/
def levelsOf (name : String) (pieces : List Enchants) : List Nat :=
  pieces.filterMap fun enchants => enchants.lookup name

/-- `.sum()` of `u8`s -/
def sum? (levels : List Nat) : Option Nat := levels.foldlM (fun acc level => u8? (acc + level)) 0

def epf (general fire blast proj : Nat) : ℚ := min (general * 4 + fire * 8 + blast * 8 + proj * 8) 80

/-- What the armor enchantments leave of a damage. -/
def protect? (armorEnchants : Option (List Enchants)) (effective : ℚ) : Option ℚ :=
  match armorEnchants with
  | some pieces => do
      let general ← sum? (levelsOf "protection" pieces)
      let fire ← sum? (levelsOf "fire_protection" pieces)
      let blast ← sum? (levelsOf "blast_protection" pieces)
      let proj ← sum? (levelsOf "projectile_protection" pieces)
      some (effective * (1 - epf general fire blast proj / 100))
  | none => some effective

/-- What comes in, before the armor: the effects of the attacker, sharpness, and the resistance of the
defender. -/
def incoming? (attacker : Option (List ActiveEffect)) (attackerItem : Option Enchants)
    (defender : List ActiveEffect) (rawDamage : ℚ) : Option ℚ := do
  let effective ← match attacker with
    | some effects => do
        let strength ← level? effects 4
        let weakness ← level? effects 17
        some (max (rawDamage + strength * 3 - weakness * 4) 0)
    | none => some rawDamage
  let effective := match attackerItem.bind (·.lookup "sharpness") with
    | some sharp => effective + sharp * (5 / 4)
    | none => effective
  let resistanceLevel ← level? defender 10
  some (if 0 < resistanceLevel then effective * max (1 - (resistanceLevel : ℚ) * (1 / 5)) 0 else effective)

/-- The damage that `apply_damage_with_enchants` returns. -/
def applyDamageWithEnchants? (attacker : Option (List ActiveEffect)) (attackerItem : Option Enchants)
    (defender : List ActiveEffect) (inventory : Inventory) (armorEnchants : Option (List Enchants))
    (rawDamage : ℚ) : Option ℚ := do
  let effective ← incoming? attacker attackerItem defender rawDamage
  let effective ← protect? armorEnchants effective
  some (calculateArmorReduction (totalArmorPoints inventory) (totalArmorToughness inventory) effective)

/-! ## The law -/

/-- The first effect with an id is not at the largest amplifier. -/
def Tame (effects : List ActiveEffect) (id : Nat) : Prop :=
  ∀ e, effects.find? (fun e => e.effect.id = id) = some e → e.amplifier < 255

/-- The amplifiers that `add_effect` can compute with. -/
def AmplifierFits (effect : ActiveEffect) : Prop :=
  if effect.effect = .instantHealth then effect.amplifier ≤ 28
  else if effect.effect = .instantDamage then effect.amplifier ≤ 29
  else effect.amplifier < 255

/-- The four enchantments that protect. -/
def protections : List String :=
  ["protection", "fire_protection", "blast_protection", "projectile_protection"]

/-- The sum of the levels of an enchantment over the armor. -/
def total (armorEnchants : Option (List Enchants)) (name : String) : Nat :=
  (levelsOf name (armorEnchants.getD [])).sum

/-- Nothing that the damage is computed with is out of range. -/
structure DamageFits (attacker : Option (List ActiveEffect)) (defender : List ActiveEffect)
    (armorEnchants : Option (List Enchants)) : Prop where
  attacker : ∀ effects, attacker = some effects → Tame effects 4 ∧ Tame effects 17
  resistance : Tame defender 10
  armor : ∀ name ∈ protections, total armorEnchants name < 256

/-- One armor protects at least as much as another. -/
structure ProtectsMore (inv inv' : Inventory) (armorEnchants armorEnchants' : Option (List Enchants)) :
    Prop where
  points : totalArmorPoints inv ≤ totalArmorPoints inv'
  toughness : totalArmorToughness inv ≤ totalArmorToughness inv'
  enchants : ∀ name ∈ protections, total armorEnchants name ≤ total armorEnchants' name

/-! ## Ranges -/

theorem u8?_eq_some {n m : Nat} : u8? n = some m ↔ n < 256 ∧ n = m := by
  unfold u8?
  split
  · rename_i hlt
    rw [Option.some.injEq, and_iff_right hlt]
  · rename_i hge
    exact iff_of_false (fun h => by cases h) fun h => hge h.1

theorem isSome_u8? {n : Nat} : (u8? n).isSome ↔ n < 256 := by
  rw [Option.isSome_iff_exists]
  constructor
  · rintro ⟨m, hm⟩
    exact (u8?_eq_some.1 hm).1
  · exact fun h => ⟨n, u8?_eq_some.2 ⟨h, rfl⟩⟩

theorem isSome_level? (effects : List ActiveEffect) (id : Nat) :
    (level? effects id).isSome ↔ Tame effects id := by
  unfold level? Tame
  cases effects.find? fun e => e.effect.id = id with
  | none => exact iff_of_true rfl fun e h => by cases h
  | some e =>
      rw [isSome_u8?]
      simp only [Option.some.injEq, forall_eq']
      omega

/-- A shift of 4 is in range up to 28 places, a shift of 3 up to 29. -/
theorem isSome_shl? (x limit : Nat) (hx : 0 < x) (hfits : x * 2 ^ limit < 2147483648)
    (hnot : 2147483648 ≤ x * 2 ^ (limit + 1)) (n : Nat) : (shl? x n).isSome ↔ n ≤ limit := by
  have hmono : ∀ a b, a ≤ b → x * 2 ^ a ≤ x * 2 ^ b :=
    fun a b h => Nat.mul_le_mul_left x (Nat.pow_le_pow_right Nat.two_pos h)
  have hlimit : limit < 31 := by
    by_contra hlarge
    have h31 := hmono 31 limit (by omega)
    omega
  unfold shl?
  by_cases hn : n ≤ limit
  · have hle := hmono n limit hn
    have hcast : ((x * 2 ^ n : Nat) : Int) = (x : Int) * 2 ^ n := by push_cast; rfl
    rw [if_pos (by omega)]
    refine iff_of_true (Option.isSome_iff_exists.2 ⟨_, i32?_eq_some.2 ⟨?_, rfl⟩⟩) hn
    omega
  · refine iff_of_false (fun h => ?_) hn
    split at h
    · obtain ⟨y, hy⟩ := Option.isSome_iff_exists.1 h
      have hle := hmono (limit + 1) n (by omega)
      have hcast : ((x * 2 ^ n : Nat) : Int) = (x : Int) * 2 ^ n := by push_cast; rfl
      have hrange := (i32?_eq_some.1 hy).1
      omega
    · cases h

theorem isSome_addEffect? (health : ℚ) (effect : ActiveEffect) :
    (addEffect? health effect).isSome ↔ AmplifierFits effect := by
  unfold addEffect? AmplifierFits
  dsimp only
  split
  · rw [← isSome_shl? 4 28 (by decide) (by decide) (by decide)]
    cases shl? 4 effect.amplifier <;> rfl
  · split
    · rw [← isSome_shl? 3 29 (by decide) (by decide) (by decide)]
      cases shl? 3 effect.amplifier <;> rfl
    · have hu8 := isSome_u8? (n := effect.amplifier + 1)
      rw [show effect.amplifier < 255 ↔ effect.amplifier + 1 < 256 by omega, ← hu8]
      cases u8? (effect.amplifier + 1) <;> rfl

theorem isSome_mapM {A B : Type} (f : A → Option B) (l : List A) :
    (l.mapM f).isSome ↔ ∀ a ∈ l, (f a).isSome := by
  induction l with
  | nil => simp
  | cons a l ih =>
      rw [List.mapM_cons, List.forall_mem_cons, ← ih]
      cases f a with
      | none => simp
      | some b => cases l.mapM f <;> simp

theorem isSome_tickLevels? (tickCount : Nat) (effects : List ActiveEffect) :
    (tickLevels? tickCount effects).isSome ↔ ∀ id ∈ readIds tickCount effects, Tame effects id := by
  unfold tickLevels?
  rw [isSome_mapM]
  exact forall₂_congr fun id _ => isSome_level? effects id

theorem foldlM_u8? (levels : List Nat) (acc s : Nat) (hacc : acc < 256) :
    levels.foldlM (fun acc level => u8? (acc + level)) acc = some s ↔
      acc + levels.sum < 256 ∧ s = acc + levels.sum := by
  induction levels generalizing acc with
  | nil =>
      simp only [List.foldlM_nil, Option.pure_def, Option.some.injEq, List.sum_nil, Nat.add_zero]
      omega
  | cons level levels ih =>
      rw [List.foldlM_cons, List.sum_cons, ← Nat.add_assoc, Option.bind_eq_bind]
      by_cases hlt : acc + level < 256
      · rw [u8?_eq_some.2 ⟨hlt, rfl⟩, Option.bind_some, ih _ hlt]
      · unfold u8?
        rw [if_neg hlt, Option.bind_none]
        exact iff_of_false (fun h => by cases h) fun h => by omega

/-- The sum of bytes is in range when it is one. -/
theorem sum?_eq_some {levels : List Nat} {s : Nat} :
    sum? levels = some s ↔ levels.sum < 256 ∧ s = levels.sum := by
  unfold sum?
  rw [foldlM_u8? _ _ _ (by decide), Nat.zero_add]

/-- What the enchantments leave of a damage, by the sums of their levels. -/
theorem protect?_eq_some {armorEnchants : Option (List Enchants)} {effective left : ℚ} :
    protect? armorEnchants effective = some left ↔
      (∀ name ∈ protections, total armorEnchants name < 256) ∧
        left = effective * (1 - epf (total armorEnchants "protection") (total armorEnchants "fire_protection")
          (total armorEnchants "blast_protection") (total armorEnchants "projectile_protection") / 100) := by
  have hall : (∀ name ∈ protections, total armorEnchants name < 256) ↔
      total armorEnchants "protection" < 256 ∧ total armorEnchants "fire_protection" < 256 ∧
        total armorEnchants "blast_protection" < 256 ∧
          total armorEnchants "projectile_protection" < 256 := by
    simp only [protections, List.forall_mem_cons, List.not_mem_nil, false_implies, implies_true,
      and_true]
  rw [hall]
  cases armorEnchants with
  | none =>
      have hzero : ∀ name, total none name = 0 := fun _ => rfl
      simp only [protect?, hzero, epf]
      norm_num
      exact eq_comm
  | some pieces =>
      have htotal : ∀ name, (levelsOf name pieces).sum = total (some pieces) name := fun _ => rfl
      unfold protect?
      simp only [Option.bind_eq_bind, Option.bind_eq_some_iff, sum?_eq_some, htotal, Option.some.injEq]
      constructor
      · rintro ⟨_, ⟨hg, rfl⟩, _, ⟨hf, rfl⟩, _, ⟨hb, rfl⟩, _, ⟨hp, rfl⟩, hleft⟩
        exact ⟨⟨hg, hf, hb, hp⟩, hleft.symm⟩
      · rintro ⟨⟨hg, hf, hb, hp⟩, hleft⟩
        exact ⟨_, ⟨hg, rfl⟩, _, ⟨hf, rfl⟩, _, ⟨hb, rfl⟩, _, ⟨hp, rfl⟩, hleft.symm⟩

theorem isSome_incoming? (attacker : Option (List ActiveEffect)) (attackerItem : Option Enchants)
    (defender : List ActiveEffect) (rawDamage : ℚ) :
    (incoming? attacker attackerItem defender rawDamage).isSome ↔
      (∀ effects, attacker = some effects → Tame effects 4 ∧ Tame effects 17) ∧ Tame defender 10 := by
  unfold incoming?
  rw [← isSome_level? defender 10]
  cases attacker with
  | none =>
      simp only [Option.bind_eq_bind, Option.bind_some]
      cases level? defender 10 <;> simp
  | some effects =>
      simp only [Option.some.injEq, forall_eq', ← isSome_level?]
      cases level? effects 4 with
      | none => simp
      | some strength =>
          cases level? effects 17 with
          | none => simp
          | some weakness =>
              simp only [Option.bind_eq_bind, Option.bind_some]
              cases level? defender 10 <;> simp

theorem isSome_applyDamage? (attacker : Option (List ActiveEffect)) (attackerItem : Option Enchants)
    (defender : List ActiveEffect) (inventory : Inventory) (armorEnchants : Option (List Enchants))
    (rawDamage : ℚ) :
    (applyDamageWithEnchants? attacker attackerItem defender inventory armorEnchants rawDamage).isSome ↔
      DamageFits attacker defender armorEnchants := by
  have hincoming := isSome_incoming? attacker attackerItem defender rawDamage
  unfold applyDamageWithEnchants?
  cases hin : incoming? attacker attackerItem defender rawDamage with
  | none =>
      rw [hin] at hincoming
      exact iff_of_false (fun h => by cases h) fun h => by cases hincoming.2 ⟨h.attacker, h.resistance⟩
  | some effective =>
      rw [hin] at hincoming
      obtain ⟨hattacker, hresistance⟩ := hincoming.1 rfl
      rw [Option.bind_eq_bind, Option.bind_some]
      cases hleft : protect? armorEnchants effective with
      | none =>
          refine iff_of_false (fun h => by cases h) fun h => ?_
          rw [protect?_eq_some.2 ⟨h.armor, rfl⟩] at hleft
          cases hleft
      | some left => exact iff_of_true rfl ⟨hattacker, hresistance, (protect?_eq_some.1 hleft).1⟩

/-! ## More protection -/

theorem epf_mono {g f b p g' f' b' p' : Nat} (hg : g ≤ g') (hf : f ≤ f') (hb : b ≤ b') (hp : p ≤ p') :
    epf g f b p ≤ epf g' f' b' p' := by
  unfold epf
  gcongr

theorem epf_le (g f b p : Nat) : epf g f b p ≤ 80 := min_le_right _ _

/-- More damage comes through less armor. -/
theorem calculateArmorReduction_mono {armor armor' toughness toughness' damage damage' : ℚ}
    (harmor : armor' ≤ armor) (htough : 0 ≤ toughness') (htoughness : toughness' ≤ toughness)
    (hdamage : damage ≤ damage') :
    calculateArmorReduction armor toughness damage ≤ calculateArmorReduction armor' toughness' damage' := by
  unfold calculateArmorReduction
  by_cases hpos : damage ≤ 0
  · rw [if_pos hpos]
    split
    · exact le_refl 0
    · exact le_max_right _ _
  · have hd : 0 < damage := lt_of_not_ge hpos
    have hd' : 0 < damage' := lt_of_lt_of_le hd hdamage
    rw [if_neg hpos, if_neg (not_le.2 hd')]
    -- The larger damage wears the armor down more.
    have hworn : 4 * damage / (toughness + 8) ≤ 4 * damage' / (toughness' + 8) := by
      have hden : 0 < toughness' + 8 := by linarith
      gcongr
    have heffective : min (max (armor' - 4 * damage' / (toughness' + 8)) (armor' * (1 / 5))) 20 ≤
        min (max (armor - 4 * damage / (toughness + 8)) (armor * (1 / 5))) 20 := by
      refine min_le_min_right 20 (max_le_max ?_ ?_)
      · linarith
      · linarith
    have hcap : min (max (armor - 4 * damage / (toughness + 8)) (armor * (1 / 5))) 20 ≤ 20 :=
      min_le_right _ _
    refine max_le_max_right 0 (mul_le_mul hdamage ?_ ?_ hd'.le)
    · linarith
    · linarith

theorem calculateArmorReduction_nonpos {armor toughness damage : ℚ} (h : damage ≤ 0) :
    calculateArmorReduction armor toughness damage = 0 := if_pos h

/-- **More protection never makes the damage larger.** -/
theorem damage_mono {attacker : Option (List ActiveEffect)} {attackerItem : Option Enchants}
    {defender : List ActiveEffect} {inv inv' : Inventory} {enchants enchants' : Option (List Enchants)}
    {rawDamage damage damage' : ℚ} (hmore : ProtectsMore inv inv' enchants enchants')
    (h : applyDamageWithEnchants? attacker attackerItem defender inv enchants rawDamage = some damage)
    (h' : applyDamageWithEnchants? attacker attackerItem defender inv' enchants' rawDamage =
      some damage') : damage' ≤ damage := by
  obtain ⟨effective, hin, hrest⟩ := Option.bind_eq_some_iff.1 h
  obtain ⟨left, hleft, hdamage⟩ := Option.bind_eq_some_iff.1 hrest
  obtain ⟨effective', hin', hrest'⟩ := Option.bind_eq_some_iff.1 h'
  obtain ⟨left', hleft', hdamage'⟩ := Option.bind_eq_some_iff.1 hrest'
  obtain rfl : effective = effective' := Option.some.inj (hin.symm.trans hin')
  cases hdamage
  cases hdamage'
  obtain ⟨-, rfl⟩ := protect?_eq_some.1 hleft
  obtain ⟨-, rfl⟩ := protect?_eq_some.1 hleft'
  have hepf := epf_mono (hmore.enchants "protection" (by decide))
    (hmore.enchants "fire_protection" (by decide)) (hmore.enchants "blast_protection" (by decide))
    (hmore.enchants "projectile_protection" (by decide))
  have hcap := epf_le (total enchants "protection") (total enchants "fire_protection")
    (total enchants "blast_protection") (total enchants "projectile_protection")
  have hcap' := epf_le (total enchants' "protection") (total enchants' "fire_protection")
    (total enchants' "blast_protection") (total enchants' "projectile_protection")
  generalize epf (total enchants "protection") (total enchants "fire_protection")
    (total enchants "blast_protection") (total enchants "projectile_protection") = f at *
  generalize epf (total enchants' "protection") (total enchants' "fire_protection")
    (total enchants' "blast_protection") (total enchants' "projectile_protection") = f' at *
  by_cases hpos : effective ≤ 0
  · rw [calculateArmorReduction_nonpos (mul_nonpos_of_nonpos_of_nonneg hpos (by linarith)),
      calculateArmorReduction_nonpos (mul_nonpos_of_nonpos_of_nonneg hpos (by linarith))]
  · refine calculateArmorReduction_mono (Nat.cast_le.2 hmore.points) (Nat.cast_nonneg _)
      (Nat.cast_le.2 hmore.toughness) (mul_le_mul_of_nonneg_left ?_ (lt_of_not_ge hpos).le)
    linarith

/-- **The arithmetic** is in range for each of the functions exactly under the stated bounds, and where
the damage is in range, more protection never makes it larger. -/
theorem arithmetic_law (health : ℚ) (effect : ActiveEffect) (effects : List ActiveEffect)
    (id tickCount : Nat) (attacker : Option (List ActiveEffect)) (attackerItem : Option Enchants)
    (defender : List ActiveEffect) (inv : Inventory) (enchants : Option (List Enchants))
    (rawDamage : ℚ) :
    ((addEffect? health effect).isSome ↔ AmplifierFits effect) ∧
      ((level? effects id).isSome ↔ Tame effects id) ∧
      ((tickLevels? tickCount effects).isSome ↔ ∀ id ∈ readIds tickCount effects, Tame effects id) ∧
      ((applyDamageWithEnchants? attacker attackerItem defender inv enchants rawDamage).isSome ↔
        DamageFits attacker defender enchants) ∧
      ∀ inv' enchants' damage damage',
        ProtectsMore inv inv' enchants enchants' →
        applyDamageWithEnchants? attacker attackerItem defender inv enchants rawDamage = some damage →
        applyDamageWithEnchants? attacker attackerItem defender inv' enchants' rawDamage = some damage' →
          damage' ≤ damage :=
  ⟨isSome_addEffect? health effect, isSome_level? effects id, isSome_tickLevels? tickCount effects,
    isSome_applyDamage? attacker attackerItem defender inv enchants rawDamage,
    fun _ _ _ _ hmore h h' => damage_mono hmore h h'⟩

/-- Healing at amplifier 29, any effect at amplifier 255, and two pieces of armor with protection 200
and 100 are out of range. -/
theorem arithmetic_overflows :
    addEffect? 20 ⟨.instantHealth, 29, 1⟩ = none ∧ addEffect? 20 ⟨.speed, 255, 600⟩ = none ∧
      level? [⟨.strength, 255, 600⟩] 4 = none ∧
      applyDamageWithEnchants? none none [] Inventory.new
        (some [Finmap.singleton "protection" 200, Finmap.singleton "protection" 100]) 10 = none := by
  refine ⟨rfl, rfl, rfl, ?_⟩
  rw [← Option.not_isSome_iff_eq_none, isSome_applyDamage?]
  intro h
  have hsum := h.armor "protection" (by decide)
  exact absurd hsum (by decide)

end Apoptotic.Protection
