import Apoptotic.Player.SpatialIndex
import Apoptotic.Command.Server
import Apoptotic.World.Placers
import Apoptotic.World.Sites

/-!
# Beacons

`mc-player/src/beacon.rs`.  The map of the beacons is the list of its entries; the world that a tick
detects the pyramids in and the players it reaches are arguments.  A `Grant` is what a tick gives one
player for one beacon.

Principal result: `along_permitted_iff` — every grant is permitted at the level of the pyramid
exactly along the runs in which no pyramid is lower than the selected primary effect needs and no
full pyramid has the same effect twice.
-/

namespace Apoptotic.Beacons

open Commands (ActiveEffect EffectType)
open PlayerManager (Position)
open Redstone (Pos World blockIn chunkOf isAir idAt built)
open Terrain (span)

structure BeaconData where
  pos : Pos
  pyramidLevel : Nat
  primaryEffect : Option Nat
  secondaryEffect : Option Nat
  paymentItem : Option Nat

namespace BeaconData

def new (pos : Pos) : BeaconData := ⟨pos, 0, none, none, none⟩

def availableEffects : Nat → List (Nat × String)
  | 1 => [(0, "Speed"), (2, "Haste")]
  | 2 => [(0, "Speed"), (2, "Haste"), (10, "Resistance"), (7, "Jump Boost")]
  | 3 => [(0, "Speed"), (2, "Haste"), (10, "Resistance"), (7, "Jump Boost"), (4, "Strength")]
  | _ => [(0, "Speed"), (2, "Haste"), (10, "Resistance"), (7, "Jump Boost"), (4, "Strength")]

/-- Only at level 4, and different from the primary effect. -/
def availableSecondary (level : Nat) : List (Nat × String) :=
  if 4 ≤ level then
    [(0, "Speed"), (2, "Haste"), (10, "Resistance"), (7, "Jump Boost"), (4, "Strength"),
      (9, "Regeneration")]
  else []

end BeaconData

open BeaconData (availableEffects availableSecondary)

/-- `available_effects_for_level` -/
def availableEffectsForLevel (level : Nat) (primary secondary : Option Nat) : Bool :=
  primary.all (fun p => (availableEffects level).any fun e => e.1 = p) &&
    secondary.all (fun s => (availableSecondary level).any fun e => e.1 = s)

/-! ## The pyramid -/

/-- Iron, gold, diamond, emerald and netherite. -/
def beaconBlocks : List (BitVec 32) := [42#32, 41#32, 57#32, 133#32, 996#32]

/-- A block of a pyramid is at a position, in a loaded chunk. -/
def isPart (w : World) (p : Pos) : Bool :=
  match w (chunkOf p) with
  | some chunk =>
      let block := blockIn chunk p
      !isAir block && beaconBlocks.contains block.id
  | none => false

/-- A layer is complete: the lower ones are only looked at along their rim. -/
def layer (w : World) (pos : Pos) (level : Nat) : Bool :=
  (span (-level) (level + 1)).all fun dx => (span (-level) (level + 1)).all fun dz =>
    (level != 1 && dx.natAbs != level && dz.natAbs != level) ||
      isPart w (pos + ⟨.ofInt 32 dx, -.ofNat 32 level, .ofInt 32 dz⟩)

def detectPyramid (w : World) (pos : Pos) : Nat :=
  match [1, 2, 3, 4].find? fun level => !layer w pos level with
  | some level => level - 1
  | none => 4

/-! ## The manager -/

structure BeaconManager where
  beacons : List BeaconData
  newlyActivated : Bool

/-- The ids in their order. -/
def effectTypes : List EffectType :=
  [.speed, .slowness, .haste, .miningFatigue, .strength, .instantHealth, .instantDamage, .jumpBoost,
    .nausea, .regeneration, .resistance, .fireResistance, .waterBreathing, .invisibility, .blindness,
    .nightVision, .hunger, .weakness, .poison, .wither, .healthBoost, .absorption, .saturation,
    .glowing, .levitation, .luck, .unluck, .slowFalling, .conduitPower, .dolphinGrace, .badOmen,
    .heroOfTheVillage, .darkness, .trialOmen, .raidOmen, .windCharged, .weaving, .oozing, .infested,
    .breathOfTheNautilus]

/-- `EffectType::from_id(effect_id as u8)` -/
def fromId (effectId : Nat) : Option EffectType := effectTypes[effectId % 256]?

/-- The calls of `add_effect` for one player and one beacon. -/
structure Grant where
  beacon : Pos
  player : Commands.Uuid
  primary : Option ActiveEffect
  secondary : Option ActiveEffect

structure Player (F : Type) where
  uuid : Commands.Uuid
  position : Position F

section

variable {F : Type} (f : Floats F)

/-- `dist <= range` -/
def inRange (pos : Pos) (level : Nat) (player : Player F) : Bool :=
  let dist := f.sqrt (f.dist2 player.position.x player.position.y player.position.z
    (f.lit pos.x.toInt) (f.lit pos.y.toInt) (f.lit pos.z.toInt))
  f.le dist (f.lit (10 + level * 10))

/-- The level that a tick finds. -/
def BeaconData.detected (b : BeaconData) (w : World) : BeaconData :=
  { b with pyramidLevel := detectPyramid w b.pos }

/-- The beacon gives its effects to those in range. -/
def BeaconData.active (b : BeaconData) : Bool :=
  b.pyramidLevel != 0 && b.paymentItem.isSome && b.primaryEffect.isSome

def BeaconData.grant (b : BeaconData) (player : Player F) : Grant where
  beacon := b.pos
  player := player.uuid
  primary := b.primaryEffect.bind fun effectId =>
    (fromId effectId).map fun effect => ⟨effect, 0, 240⟩
  secondary :=
    if 4 ≤ b.pyramidLevel then
      b.secondaryEffect.bind fun effectId =>
        let amplifier := if effectId = 9 then 1 else 0
        (fromId effectId).map fun effect => ⟨effect, amplifier, 240⟩
    else none

/-- What one beacon gives the players. -/
def BeaconData.grants (b : BeaconData) (players : List (Player F)) : List Grant :=
  if b.active then (players.filter (inRange f b.pos b.pyramidLevel)).map b.grant else []

namespace BeaconManager

variable (s : BeaconManager)

def new : BeaconManager := ⟨[], false⟩

def getOrCreate (pos : Pos) : BeaconManager :=
  if s.beacons.any fun b => b.pos = pos then s
  else { s with beacons := s.beacons ++ [BeaconData.new pos] }

def remove (pos : Pos) : BeaconManager :=
  { s with beacons := s.beacons.filter fun b => b.pos ≠ pos }

/-- `if let Some(beacon) = self.beacons.get_mut(&pos) { .. }` -/
def modify (pos : Pos) (g : BeaconData → BeaconData) : BeaconManager :=
  { s with beacons := s.beacons.map fun b => if b.pos = pos then g b else b }

def setPayment (pos : Pos) (item : Option Nat) : BeaconManager :=
  s.modify pos fun b => { b with paymentItem := item }

def selectEffect (pos : Pos) (primary secondary : Option Nat) : Bool × BeaconManager :=
  match s.beacons.find? fun b => b.pos = pos with
  | some beacon =>
      if beacon.pyramidLevel = 0 then (false, s)
      else if availableEffectsForLevel beacon.pyramidLevel primary secondary then
        (true, s.modify pos fun b =>
          { b with primaryEffect := primary, secondaryEffect := secondary })
      else (false, s)
  | none => (false, s)

def tick (w : World) (players : List (Player F)) : List Grant × BeaconManager :=
  ((s.beacons.map (·.detected w)).flatMap fun b => b.grants f players,
    { beacons := s.beacons.map (·.detected w)
      newlyActivated := s.newlyActivated || s.beacons.any fun b =>
        b.pyramidLevel == 0 && (b.detected w).pyramidLevel != 0 && b.paymentItem.isSome })

end BeaconManager

inductive Action (F : Type) where
  | getOrCreate (pos : Pos)
  | remove (pos : Pos)
  | setPayment (pos : Pos) (item : Option Nat)
  | selectEffect (pos : Pos) (primary secondary : Option Nat)
  | tick (w : World) (players : List (Player F))

def BeaconManager.step (s : BeaconManager) : Action F → BeaconManager
  | .getOrCreate pos => s.getOrCreate pos
  | .remove pos => s.remove pos
  | .setPayment pos item => s.setPayment pos item
  | .selectEffect pos primary secondary => (s.selectEffect pos primary secondary).2
  | .tick w players => (s.tick f w players).2

/-! ## Permitted effects -/

def ids (effects : List (Nat × String)) : List Nat := effects.map Prod.fst

/-- What a grant may give when the pyramid has a level. -/
structure Grant.Allowed (g : Grant) (level : Nat) : Prop where
  primary : ∀ e ∈ g.primary, e.effect.id ∈ ids (availableEffects level)
  secondary : ∀ e ∈ g.secondary, e.effect.id ∈ ids (availableSecondary level)
  different : ∀ e ∈ g.primary, ∀ e' ∈ g.secondary, e.effect ≠ e'.effect

/-- What is asked of a step: every grant of a tick is allowed at the level detected in it, and a
selection that is refused changes nothing. -/
structure Permitted (s : BeaconManager) (a : Action F) : Prop where
  grants : ∀ w players, a = .tick w players →
    ∀ g ∈ (s.tick f w players).1, g.Allowed (detectPyramid w g.beacon)
  refused : ∀ pos primary secondary, a = .selectEffect pos primary secondary →
    (s.selectEffect pos primary secondary).1 = false → s.step f a = s

/-- The lowest pyramid for a primary effect. -/
def neededLevel : Nat → Nat
  | 4 => 3
  | 7 | 10 => 2
  | _ => 1

/-- The pyramid is still high enough for the selection, and a full one has two different effects. -/
def Fits (w : World) (b : BeaconData) : Prop :=
  ∀ p, b.primaryEffect = some p →
    neededLevel p ≤ detectPyramid w b.pos ∧
      (detectPyramid w b.pos = 4 → b.secondaryEffect ≠ some p)

/-- In a tick the selections fit, where they are paid for and reach a player. -/
def SelectionsFit (s : BeaconManager) (a : Action F) : Prop :=
  ∀ w players, a = .tick w players → ∀ b ∈ s.beacons, b.paymentItem.isSome →
    detectPyramid w b.pos ≠ 0 → (∃ q ∈ players, inRange f b.pos (detectPyramid w b.pos) q) →
      Fits w b

end

/-! ## The lists of effects -/

theorem detectPyramid_le (w : World) (pos : Pos) : detectPyramid w pos ≤ 4 := by
  unfold detectPyramid
  cases h : [1, 2, 3, 4].find? fun level => !layer w pos level with
  | none => exact le_rfl
  | some level =>
      have hmem := List.mem_of_find?_eq_some h
      simp only [List.mem_cons, List.not_mem_nil, or_false] at hmem
      dsimp only
      omega

theorem any_id_iff {effects : List (Nat × String)} {id : Nat} :
    (effects.any fun e => e.1 = id) ↔ id ∈ ids effects := by
  unfold ids
  rw [List.any_eq_true, List.mem_map]
  apply exists_congr
  intro e
  rw [decide_eq_true_eq]

/-- A primary effect is in the list of the third level. -/
theorem ids_availableEffects_subset (level : Nat) :
    ids (availableEffects level) ⊆ ids (availableEffects 3) := by
  intro id h
  unfold availableEffects at h
  split at h <;> simp [ids, availableEffects] at h ⊢ <;> omega

theorem ids_availableSecondary_subset (level : Nat) :
    ids (availableSecondary level) ⊆ ids (availableSecondary 4) := by
  intro id h
  unfold availableSecondary at h
  split at h
  · exact h
  · cases h

/-- **What a level allows.** -/
theorem mem_availableEffects_iff {level id : Nat} (hlevel : level ≠ 0) (h4 : level ≤ 4)
    (h : id ∈ ids (availableEffects 3)) :
    id ∈ ids (availableEffects level) ↔ neededLevel id ≤ level := by
  have hid : id = 0 ∨ id = 2 ∨ id = 10 ∨ id = 7 ∨ id = 4 := by
    simpa [ids, availableEffects] using h
  have hlevel : level = 1 ∨ level = 2 ∨ level = 3 ∨ level = 4 := by omega
  rcases hlevel with rfl | rfl | rfl | rfl <;> rcases hid with rfl | rfl | rfl | rfl | rfl <;> decide

theorem primary_mem_secondary : ids (availableEffects 3) ⊆ ids (availableSecondary 4) := by decide

/-- The effects of the lists exist. -/
theorem fromId_of_mem {id : Nat} (h : id ∈ ids (availableSecondary 4)) :
    ∃ effect, fromId id = some effect ∧ effect.id = id := by
  have hid : id = 0 ∨ id = 2 ∨ id = 10 ∨ id = 7 ∨ id = 4 ∨ id = 9 := by
    simpa [ids, availableSecondary] using h
  rcases hid with rfl | rfl | rfl | rfl | rfl | rfl <;> exact ⟨_, rfl, rfl⟩

theorem id_of_fromId {id : Nat} (h : id ∈ ids (availableSecondary 4)) {effect : EffectType}
    (hfrom : fromId id = some effect) : effect.id = id := by
  obtain ⟨effect', hfrom', hid⟩ := fromId_of_mem h
  rw [Option.some.inj (hfrom.symm.trans hfrom'), hid]

/-! ## The selections -/

/-- What is selected was permitted at some level. -/
def BeaconData.Chosen (b : BeaconData) : Prop :=
  (∀ p, b.primaryEffect = some p → p ∈ ids (availableEffects 3)) ∧
    ∀ q, b.secondaryEffect = some q → q ∈ ids (availableSecondary 4)

def Chosen (s : BeaconManager) : Prop := ∀ b ∈ s.beacons, b.Chosen

/-- The selections that pass the check. -/
theorem chosen_of_available {level : Nat} {primary secondary : Option Nat}
    (h : availableEffectsForLevel level primary secondary = true) (b : BeaconData) :
    BeaconData.Chosen { b with primaryEffect := primary, secondaryEffect := secondary } := by
  unfold availableEffectsForLevel at h
  rw [Bool.and_eq_true] at h
  constructor
  · rintro p rfl
    exact ids_availableEffects_subset level (any_id_iff.1 h.1)
  · rintro q rfl
    exact ids_availableSecondary_subset level (any_id_iff.1 h.2)

/-- A change of one beacon keeps the selections permitted, if it does. -/
theorem chosen_modify {s : BeaconManager} (hs : Chosen s) {pos : Pos} {g : BeaconData → BeaconData}
    (hg : ∀ b, b.Chosen → (g b).Chosen) : Chosen (s.modify pos g) := by
  intro b hb
  obtain ⟨b', hb', rfl⟩ := List.mem_map.1 hb
  by_cases hpos : b'.pos = pos
  · rw [if_pos hpos]
    exact hg b' (hs b' hb')
  · rw [if_neg hpos]
    exact hs b' hb'

/-- A selection is refused and changes nothing, or it is permitted and takes place. -/
theorem selectEffect_spec (s : BeaconManager) (pos : Pos) (primary secondary : Option Nat) :
    s.selectEffect pos primary secondary = (false, s) ∨
      ∃ level, availableEffectsForLevel level primary secondary ∧
        s.selectEffect pos primary secondary =
          (true, s.modify pos fun b =>
            { b with primaryEffect := primary, secondaryEffect := secondary }) := by
  unfold BeaconManager.selectEffect
  cases s.beacons.find? fun b => b.pos = pos with
  | none => exact .inl rfl
  | some beacon =>
      dsimp only
      by_cases h0 : beacon.pyramidLevel = 0
      · rw [if_pos h0]
        exact .inl rfl
      · rw [if_neg h0]
        by_cases hok : availableEffectsForLevel beacon.pyramidLevel primary secondary = true
        · rw [if_pos hok]
          exact .inr ⟨_, hok, rfl⟩
        · rw [if_neg hok]
          exact .inl rfl

section

variable {F : Type} (f : Floats F)

theorem chosen_step {s : BeaconManager} (hs : Chosen s) (a : Action F) : Chosen (s.step f a) := by
  cases a with
  | getOrCreate pos =>
      change Chosen (s.getOrCreate pos)
      unfold BeaconManager.getOrCreate
      split
      · exact hs
      · intro b hb
        rcases List.mem_append.1 hb with hold | hnew
        · exact hs b hold
        · rw [List.mem_singleton.1 hnew]
          exact ⟨fun _ h => (Option.some_ne_none _ h.symm).elim,
            fun _ h => (Option.some_ne_none _ h.symm).elim⟩
  | remove pos =>
      intro b hb
      exact hs b (List.mem_of_mem_filter hb)
  | setPayment pos item => exact chosen_modify hs fun _ h => h
  | selectEffect pos primary secondary =>
      change Chosen (s.selectEffect pos primary secondary).2
      rcases selectEffect_spec s pos primary secondary with h | ⟨level, hok, h⟩
      · rw [h]
        exact hs
      · rw [h]
        exact chosen_modify hs fun b _ => chosen_of_available hok b
  | tick w players =>
      intro b hb
      obtain ⟨b', hb', rfl⟩ := List.mem_map.1 hb
      exact hs b' hb'

/-! ## The grants -/

theorem mem_grant_primary {b : BeaconData} {p : Nat} (hp : b.primaryEffect = some p)
    {player : Player F} {e : ActiveEffect} :
    e ∈ (b.grant player).primary ↔ ∃ effect, fromId p = some effect ∧ e = ⟨effect, 0, 240⟩ := by
  unfold BeaconData.grant
  simp [hp, eq_comm]

theorem mem_grant_secondary {b : BeaconData} {player : Player F} {e : ActiveEffect} :
    e ∈ (b.grant player).secondary ↔
      4 ≤ b.pyramidLevel ∧ ∃ q, b.secondaryEffect = some q ∧ ∃ effect, fromId q = some effect ∧
        ⟨effect, if q = 9 then 1 else 0, 240⟩ = e := by
  unfold BeaconData.grant
  by_cases h4 : 4 ≤ b.pyramidLevel
  · rw [if_pos h4, and_iff_right h4]
    simp only [Option.mem_def, Option.bind_eq_some_iff, Option.map_eq_some_iff]
  · simp [h4]

/-- **A grant is allowed exactly if the selection fits the pyramid.** -/
theorem allowed_iff {b : BeaconData} (hb : b.Chosen) {w : World} (h0 : detectPyramid w b.pos ≠ 0)
    (hprimary : b.primaryEffect.isSome) (player : Player F) :
    ((b.detected w).grant player).Allowed (detectPyramid w b.pos) ↔ Fits w b := by
  obtain ⟨p, hp⟩ := Option.isSome_iff_exists.1 hprimary
  obtain ⟨effect, hfrom, hid⟩ := fromId_of_mem (primary_mem_secondary (hb.1 p hp))
  have h4 := detectPyramid_le w b.pos
  have hneeded := mem_availableEffects_iff h0 h4 (hb.1 p hp)
  have hprim (e : ActiveEffect) := @mem_grant_primary F (b.detected w) p hp player e
  constructor
  · rintro ⟨hallowed, -, hdiff⟩ p' hp'
    obtain rfl : p = p' := Option.some.inj (hp.symm.trans hp')
    have hgiven := (hprim _).2 ⟨effect, hfrom, rfl⟩
    refine ⟨hneeded.1 (hid ▸ hallowed _ hgiven), fun hfull hsame => ?_⟩
    -- The same effect is given twice.
    exact hdiff _ hgiven _ (mem_grant_secondary.2 ⟨hfull.ge, p, hsame, effect, hfrom, rfl⟩) rfl
  · intro hfits
    obtain ⟨hlevel, hdiff⟩ := hfits p hp
    refine ⟨fun e he => ?_, fun e he => ?_, fun e he e' he' heq => ?_⟩
    · obtain ⟨effect', hfrom', rfl⟩ := (hprim e).1 he
      obtain rfl : effect = effect' := Option.some.inj (hfrom.symm.trans hfrom')
      rw [hid]
      exact hneeded.2 hlevel
    · obtain ⟨hfull, q, hq, effect', hfrom', rfl⟩ := mem_grant_secondary.1 he
      rw [id_of_fromId (hb.2 q hq) hfrom', le_antisymm h4 hfull]
      exact hb.2 q hq
    · obtain ⟨effect', hfrom', rfl⟩ := (hprim e).1 he
      obtain rfl : effect = effect' := Option.some.inj (hfrom.symm.trans hfrom')
      obtain ⟨hfull, q, hq, effect', hfrom', rfl⟩ := mem_grant_secondary.1 he'
      obtain rfl : effect = effect' := heq
      refine hdiff (le_antisymm h4 hfull) ?_
      rw [← hid, id_of_fromId (hb.2 q hq) hfrom']
      exact hq

/-- The grants of a tick. -/
theorem mem_tick {s : BeaconManager} {w : World} {players : List (Player F)} {g : Grant} :
    g ∈ (s.tick f w players).1 ↔ ∃ b ∈ s.beacons,
      (detectPyramid w b.pos ≠ 0 ∧ b.paymentItem.isSome ∧ b.primaryEffect.isSome) ∧
        ∃ q ∈ players, inRange f b.pos (detectPyramid w b.pos) q ∧
          (b.detected w).grant q = g := by
  unfold BeaconManager.tick
  rw [List.flatMap_map, List.mem_flatMap]
  refine exists_congr fun b => and_congr_right fun _ => ?_
  unfold BeaconData.grants
  have hactive : (b.detected w).active = true ↔
      detectPyramid w b.pos ≠ 0 ∧ b.paymentItem.isSome ∧ b.primaryEffect.isSome := by
    simp [BeaconData.active, BeaconData.detected, and_assoc]
  by_cases h : (b.detected w).active = true
  · rw [if_pos h, List.mem_map]
    simp only [List.mem_filter, and_assoc, and_iff_right (hactive.1 h).1,
      and_iff_right (hactive.1 h).2.1, and_iff_right (hactive.1 h).2.2]
    exact Iff.rfl
  · rw [if_neg h]
    simp [mt hactive.2 h]

/-- A step from permitted selections is permitted exactly if the selections fit. -/
theorem permitted_iff {s : BeaconManager} (hs : Chosen s) (a : Action F) :
    Permitted f s a ↔ SelectionsFit f s a := by
  constructor
  · rintro ⟨hgrants, -⟩ w players rfl b hb hpay h0 ⟨q, hq, hrange⟩
    by_cases hprimary : b.primaryEffect.isSome
    · have hgrant := hgrants w players rfl _
        ((mem_tick f).2 ⟨b, hb, ⟨h0, hpay, hprimary⟩, q, hq, hrange, rfl⟩)
      exact (allowed_iff (hs b hb) h0 hprimary q).1 hgrant
    · intro p hp
      exact absurd (hp ▸ rfl) hprimary
  · intro hfit
    constructor
    · rintro w players rfl g hg
      obtain ⟨b, hb, ⟨h0, hpay, hprimary⟩, q, hq, hrange, rfl⟩ := (mem_tick f).1 hg
      exact (allowed_iff (hs b hb) h0 hprimary q).2 (hfit w players rfl b hb hpay h0 ⟨q, hq, hrange⟩)
    · rintro pos primary secondary rfl hfalse
      change (s.selectEffect pos primary secondary).2 = s
      rcases selectEffect_spec s pos primary secondary with h | ⟨level, -, h⟩
      · rw [h]
      · rw [h] at hfalse
        cases hfalse

/-- **The effects of the beacons are permitted exactly along the runs whose selections still fit
the pyramids.** -/
theorem along_permitted_iff (as : List (Action F)) :
    Along (BeaconManager.step f) (Permitted f) BeaconManager.new as ↔
      Along (BeaconManager.step f) (SelectionsFit f) BeaconManager.new as :=
  along_iff Chosen (fun _ a hs => permitted_iff f hs a) (fun _ a hs _ => chosen_step f hs a)
    (fun _ h => (List.not_mem_nil h).elim) as

end

/-! ## A pyramid with the same effect twice -/

/-- A beacon high up. -/
def corner : Pos := ⟨8#32, 100#32, 8#32⟩

/-- The four layers under it. -/
def pyramid : List Pos :=
  [1, 2, 3, 4].flatMap fun level : Nat =>
    (span (-level) (level + 1)).flatMap fun dx => (span (-level) (level + 1)).map fun dz =>
      corner + ⟨.ofInt 32 dx, -.ofNat 32 level, .ofInt 32 dz⟩

def ironWorld : World := built (pyramid.map fun p => (p, BlockState.new 42#32))

theorem isPart_of_idAt {w : World} {p : Pos} {id : BitVec 32} (h : idAt w p = some id)
    (hid : id ∈ beaconBlocks) : isPart w p = true := by
  unfold idAt at h
  obtain ⟨chunk, hchunk, rfl⟩ := Option.map_eq_some_iff.1 h
  have hair : (blockIn chunk p).id ≠ 0#32 := fun h0 => absurd (h0 ▸ hid) (by decide)
  unfold isPart isAir
  rw [hchunk]
  simp [hair, hid]

/-- One block at many positions. -/
theorem foldl_place_same (q : Pos) (id : BitVec 32) (ps : List Pos) (start : BitVec 32)
    (h : q ∈ ps ∨ start = id) : ps.foldl (fun b p => if q = p then id else b) start = id := by
  induction ps generalizing start with
  | nil => exact h.resolve_left List.not_mem_nil
  | cons p ps ih =>
      apply ih
      by_cases hq : q = p
      · exact .inr (if_pos hq)
      · dsimp only
        rw [if_neg hq]
        exact h.imp_left fun hmem => (List.mem_cons.1 hmem).resolve_left hq

theorem mem_pyramid {p : Pos} : p ∈ pyramid ↔ ∃ level ∈ [1, 2, 3, 4],
    ∃ dx ∈ span (-(level : Nat)) (level + 1), ∃ dz ∈ span (-(level : Nat)) (level + 1),
      corner + ⟨.ofInt 32 dx, -.ofNat 32 level, .ofInt 32 dz⟩ = p := by
  simp only [pyramid, List.mem_flatMap, List.mem_map]

theorem height_pyramid : ∀ level ∈ [1, 2, 3, 4],
    (Redstone.height? (100#32 + -.ofNat 32 level)).isSome := by decide

theorem isPart_ironWorld {p : Pos} (h : p ∈ pyramid) : isPart ironWorld p = true := by
  have hfits : (BlockState.new 42#32).id.toNat < 2 ^ GLOBAL_BITS := by decide
  have hblocks : ∀ b ∈ pyramid.map fun p => (p, BlockState.new 42#32),
      b.2.id.toNat < 2 ^ GLOBAL_BITS ∧ (Redstone.height? b.1.y).isSome := by
    intro b hb
    obtain ⟨q, hq, rfl⟩ := List.mem_map.1 hb
    obtain ⟨level, hlevel, dx, -, dz, -, rfl⟩ := mem_pyramid.1 hq
    exact ⟨hfits, height_pyramid level hlevel⟩
  have hid := Redstone.idAt_built hblocks p
  rw [List.foldl_map] at hid
  exact isPart_of_idAt (hid.trans (congrArg some (foldl_place_same p 42#32 pyramid 0#32 (.inl h))))
    (by decide)

theorem detectPyramid_ironWorld : detectPyramid ironWorld corner = 4 := by
  have hlayer (level : Nat) (hlevel : level ∈ [1, 2, 3, 4]) : layer ironWorld corner level = true := by
    unfold layer
    simp only [List.all_eq_true, Bool.or_eq_true]
    intro dx hdx dz hdz
    exact .inr (isPart_ironWorld (mem_pyramid.2 ⟨level, hlevel, dx, hdx, dz, hdz, rfl⟩))
  have hnone : ([1, 2, 3, 4].find? fun level => !layer ironWorld corner level) = none := by
    rw [List.find?_eq_none]
    intro level hlevel
    rw [hlayer level hlevel]
    decide
  unfold detectPyramid
  rw [hnone]

def paid (w : World) : List (Action Rat) :=
  [.getOrCreate corner, .setPayment corner (some 778), .tick w [],
    .selectEffect corner (some 0) (some 0)]

theorem beacons_paid {w : World} (h : detectPyramid w corner = 4) :
    ((paid w).foldl (BeaconManager.step Floats.exact) BeaconManager.new).beacons =
      [⟨corner, 4, some 0, some 0, some 778⟩] := by
  simp [paid, BeaconManager.step, BeaconManager.new, BeaconManager.getOrCreate,
    BeaconManager.setPayment, BeaconManager.tick, BeaconManager.selectEffect, BeaconManager.modify,
    BeaconData.new, BeaconData.detected, h, availableEffectsForLevel, availableEffects,
    availableSecondary]

/-- The primary effect selected once more as the secondary one. -/
theorem not_forall_along_permitted :
    ¬ ∀ as : List (Action Rat),
      Along (BeaconManager.step Floats.exact) (Permitted Floats.exact) BeaconManager.new as := by
  intro h
  have hall := h (paid ironWorld ++ [.tick ironWorld [⟨0, ⟨8, 100, 8⟩⟩]])
  obtain ⟨-, hlast, -⟩ := along_append.1 hall
  have hbeacons := beacons_paid detectPyramid_ironWorld
  have hchosen : Chosen ((paid ironWorld).foldl (BeaconManager.step Floats.exact) BeaconManager.new) := by
    unfold Chosen
    rw [hbeacons]
    simp [BeaconData.Chosen, ids, availableEffects, availableSecondary]
  have hfits := (permitted_iff Floats.exact hchosen _).1 hlast ironWorld [⟨0, ⟨8, 100, 8⟩⟩] rfl
    ⟨corner, 4, some 0, some 0, some 778⟩
  rw [hbeacons] at hfits
  dsimp only at hfits
  rw [detectPyramid_ironWorld] at hfits
  have hrange : inRange Floats.exact corner 4 ⟨0, ⟨8, 100, 8⟩⟩ = true := by decide +kernel
  have hsame := (hfits List.mem_cons_self rfl (by decide) ⟨_, List.mem_cons_self, hrange⟩ 0 rfl).2
  exact hsame detectPyramid_ironWorld rfl

end Apoptotic.Beacons
