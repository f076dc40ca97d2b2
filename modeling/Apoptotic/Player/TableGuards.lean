import Apoptotic.Command.Server
import Apoptotic.Lib.Guards
import Mathlib.Data.List.AList

/-!
# Guards on the tables of the players and of the mobs

`PlayerManager` and `MobManager` of `mc-player/src` keep their entries in one `DashMap` each, and
their methods call each other while a guard is alive.  For each method that does so, the tree of its
guards on its own table; all others hold one guard at a time.  Of a player and a mob only what
decides about the guards is kept.

Principal result: `granted_iff_harmless` — which calls get all their guards, whatever the shards.
-/

namespace Apoptotic.TableGuards

open Guards Guards.Uses
open Commands (ActiveEffect EffectType GameMode)

abbrev Uuid := Commands.Uuid

section

variable {K : Type}

def get (k : K) : Guard K := ⟨.shared, k⟩

/-- `get_mut`, `insert` and `remove` take the shard for writing. -/
def getMut (k : K) : Guard K := ⟨.exclusive, k⟩

/-- `iter`, one entry after another. -/
def iter (ks : List K) : Uses K := each (fun k => touch (get k)) ks

end

/-! ## Players -/

structure Player where
  gamemode : GameMode
  isSprinting : Bool
  isSneaking : Bool
  health : Float32
  foodLevel : Int
  foodSaturation : Float32
  foodExhaustion : Float32
  activeEffects : List ActiveEffect

/-- The table in the order it is iterated in. -/
abbrev Players := AList fun _ : Uuid => Player

def withPlayer (t : Players) (uuid : Uuid) : (Player → Uses Uuid) → Uses Uuid :=
  withEntry (getMut uuid) (t.lookup uuid)

/-- `amplifier + 1` of the effect with an id, 0 when it is not active. -/
def effectLevel (p : Player) (id : Nat) : Nat :=
  match p.activeEffects.find? fun e => e.effect.id = id with
  | some e => (e.amplifier + 1) % 256
  | none => 0

/-- `get_effect_level` -/
def getEffectLevel (uuid : Uuid) : Uses Uuid := touch (get uuid)

/-- `get_max_health` reads the level of the health boost. -/
def getMaxHealth (uuid : Uuid) : Uses Uuid := getEffectLevel uuid

/-- The value of `get_max_health`. -/
def maxHealth (p : Player) : Float32 := 20.0 + 4.0 * Float32.ofNat (effectLevel p 20)

/-- `add_effect`: an instant effect reads the player again and sets the health. -/
def addEffect (t : Players) (uuid : Uuid) (effect : EffectType) : Uses Uuid :=
  withPlayer t uuid fun _ =>
    if effect.isInstant then touch (get uuid) ++ touch (getMut uuid) else done

/-! ### Hunger -/

structure Food where
  level : Int
  saturation : Float32
  exhaustion : Float32

/-- One turn of the loop of `tick_hunger`. -/
def drainOnce (f : Food) : Food :=
  let f := { f with exhaustion := f.exhaustion - 4.0 }
  if 0.0 < f.saturation then
    { f with saturation := Commands.Server.maxF32 (f.saturation - 1.0) 0.0 }
  else if 0 < f.level then { f with level := f.level - 1 }
  else f

/-- `while player.food_exhaustion >= 4.0`, and whether the food changed; `none` when the loop has
not ended after `turns` turns. -/
def drain : Nat → Food → Bool → Option (Food × Bool)
  | 0, f, changed => if f.exhaustion ≥ 4.0 then none else some (f, changed)
  | n + 1, f, changed => if f.exhaustion ≥ 4.0 then drain n (drainOnce f) true else some (f, changed)

def exhaustionDelta (p : Player) : Float32 :=
  if p.isSprinting then 0.1 else if p.isSneaking then 0.005 else 0.01

def isSkipped (p : Player) : Bool := p.gamemode = .creative || p.gamemode = .spectator

/-- The food of a player in the loop. -/
def hungerOf (p : Player) : Food :=
  ⟨p.foodLevel, p.foodSaturation, p.foodExhaustion + exhaustionDelta p⟩

/-- The natural regeneration, which reads the largest health. -/
def regenerates (f : Food) (changed : Bool) : Bool :=
  !(f.level = 0 && changed) && decide (18 ≤ f.level) && decide (0.0 < f.saturation) && changed

/-- The players of `tick_hunger`, one after another.  A loop that does not end keeps its guard, and a
player at full health ends the whole tick. -/
def hungerTurns (turns : Nat) (t : Players) : List Uuid → Uses Uuid
  | [] => done
  | uuid :: rest =>
      match t.lookup uuid with
      | none => touch (getMut uuid) ++ hungerTurns turns t rest
      | some p =>
          if isSkipped p then touch (getMut uuid) ++ hungerTurns turns t rest
          else
            match drain turns (hungerOf p) false with
            | none => touch (getMut uuid)
            | some (f, changed) =>
                if regenerates f changed then
                  under (getMut uuid) (getMaxHealth uuid) ++
                    (if p.health ≥ maxHealth p then done else hungerTurns turns t rest)
                else touch (getMut uuid) ++ hungerTurns turns t rest

/-- `tick_hunger` -/
def tickHunger (turns : Nat) (t : Players) : Uses Uuid := iter t.keys ++ hungerTurns turns t t.keys

/-! ### Effects -/

/-- `tick_count.is_multiple_of((50 / regen_level).max(1))`, of the effect with id 10 -/
def regenTick (p : Player) (tick : Nat) : Bool :=
  decide (0 < effectLevel p 10) && decide (tick % max (50 / effectLevel p 10) 1 = 0)

/-- One player of `tick_effects`.  The effect with id 25 gives the guard back and takes it again. -/
def effectTurn (t : Players) (tick : Nat) (uuid : Uuid) : Uses Uuid :=
  withPlayer t uuid (fun p => if regenTick p tick then getMaxHealth uuid else done) ++
    match t.lookup uuid with
    | some p => if 0 < effectLevel p 25 then touch (getMut uuid) else done
    | none => done

def tickEffects (t : Players) (tick : Nat) : Uses Uuid :=
  iter t.keys ++ each (effectTurn t tick) t.keys

/-! ### Damage and boats -/

/-- `apply_damage_with_enchants`.  `thorns` are the levels on the armour of the defender; `hits n`
says whether the draw is below the chance of level `n`. -/
def applyDamageWithEnchants (t : Players) (uuid : Uuid) (attacker : Option Uuid)
    (thorns : Option (List (Option Nat))) (hits : Nat → Bool) : Uses Uuid :=
  (match attacker with
    | some a => getEffectLevel a ++ getEffectLevel a
    | none => done) ++
  getEffectLevel uuid ++ touch (get uuid) ++
  withPlayer t uuid fun _ =>
    match attacker, thorns with
    | some a, some levels =>
        let maxThorns := ((levels.filterMap id).max?).getD 0
        if 0 < maxThorns ∧ hits maxThorns then touch (getMut a) else done
    | _, _ => done

/-- `apply_boat_paddle` moves the player under the guard that it read the player with. -/
def applyBoatPaddle (t : Players) (uuid : Uuid) (left right : Bool) : Uses Uuid :=
  withEntry (get uuid) (t.lookup uuid) fun _ =>
    if left || right then touch (getMut uuid) else done

/-! ## Mobs -/

structure Mob where
  mobType : Int
  ageTicks : BitVec 64
  maxHealth : Float32

abbrev Mobs := AList fun _ : Int => Mob

/-- The age in the second pass of `tick_ai`: the first adds one to every mob. -/
def agedBy1 (m : Mob) : Nat := (m.ageTicks + 1).toNat

/-- A fox that looks for prey; `coin` decides whether it sleeps instead. -/
def looksForPrey (m : Mob) (coin : Bool) : Bool :=
  decide (m.mobType = 44) && !(decide (agedBy1 m % 200 = 0) && coin) && decide (agedBy1 m % 80 = 0)

/-- The ids that `any` looks at: up to the first hit. -/
def upToHit (hit : Int → Bool) : List Int → List Int
  | [] => []
  | k :: ks => k :: if hit k then [] else upToHit hit ks

/-- A chicken or a rabbit; `near` says whether it is within 8 blocks of the fox. -/
def isPrey (t : Mobs) (near : Int → Int → Bool) (fox k : Int) : Bool :=
  match t.lookup k with
  | some m => (decide (m.mobType = 13) || decide (m.mobType = 15)) && near fox k
  | none => false

/-- One mob of the second pass. -/
def specialTurn (t : Mobs) (coin : Int → Bool) (near : Int → Int → Bool) (k : Int) : Uses Int :=
  withEntry (getMut k) (t.lookup k) fun m =>
    if looksForPrey m (coin k) then iter (upToHit (isPrey t near k) t.keys) else done

/-- The two passes of `tick_ai`.  The first asks for no other mob under the guard of one. -/
def tickAi (t : Mobs) (coin : Int → Bool) (near : Int → Int → Bool) : Uses Int :=
  iter t.keys ++ each (fun k => touch (getMut k)) t.keys ++ iter t.keys ++
    each (specialTurn t coin near) t.keys

/-- `split_slime`: between two and four babies, with drawn ids, are inserted under the guard of their
parent. -/
def splitSlime (t : Mobs) (entityId : Int) (draw : Nat) (babies : Nat → Int) : Uses Int :=
  withEntry (getMut entityId) (t.lookup entityId) fun m =>
    if m.mobType = 34 ∧ m.maxHealth > 2.0 then
      each (fun i => touch (getMut (babies i))) (List.range (2 + draw % 3))
    else done

/-! ## The loop of `tick_hunger` -/

/-- Subtracting 4.0 gets below 4.0 after exactly `k` turns. -/
def LeavesAfter (exhaustion : Float32) (k : Nat) : Prop :=
  (∀ j < k, (fun x : Float32 => x - 4.0)^[j] exhaustion ≥ 4.0) ∧
    ¬ (fun x : Float32 => x - 4.0)^[k] exhaustion ≥ 4.0

/-- The saturation after one turn. -/
def saturationAfter (s : Float32) : Float32 :=
  if 0.0 < s then Commands.Server.maxF32 (s - 1.0) 0.0 else s

theorem drainOnce_exhaustion (f : Food) : (drainOnce f).exhaustion = f.exhaustion - 4.0 := by
  unfold drainOnce
  dsimp only
  split
  · rfl
  · split <;> rfl

theorem drainOnce_saturation (f : Food) :
    (drainOnce f).saturation = saturationAfter f.saturation := by
  unfold drainOnce saturationAfter
  dsimp only
  split
  · rfl
  · split <;> rfl

theorem drainOnce_level {f : Food} (h : 0.0 < f.saturation) : (drainOnce f).level = f.level := by
  unfold drainOnce
  dsimp only
  rw [if_pos h]

theorem iterate_saturation (f : Food) (k : Nat) :
    (drainOnce^[k] f).saturation = saturationAfter^[k] f.saturation := by
  induction k with
  | zero => rfl
  | succ k ih =>
      rw [Function.iterate_succ_apply', Function.iterate_succ_apply', drainOnce_saturation, ih]

/-- While saturation is left, the food level stays. -/
theorem iterate_level {f : Food} {k : Nat} (h : 0.0 < (drainOnce^[k] f).saturation) :
    (drainOnce^[k] f).level = f.level := by
  induction k with
  | zero => rfl
  | succ k ih =>
      rw [Function.iterate_succ_apply'] at h ⊢
      have hpos : 0.0 < (drainOnce^[k] f).saturation := by
        by_contra hno
        rw [drainOnce_saturation, saturationAfter, if_neg hno] at h
        exact hno h
      rw [drainOnce_level hpos, ih hpos]

/-- **The loop ends after the turns that bring the exhaustion below 4.0.** -/
theorem drain_eq_some_iff {turns : Nat} {f f' : Food} {changed changed' : Bool} :
    drain turns f changed = some (f', changed') ↔
      ∃ k ≤ turns, LeavesAfter f.exhaustion k ∧ f' = drainOnce^[k] f ∧
        changed' = (changed || decide (0 < k)) := by
  induction turns generalizing f changed with
  | zero =>
      unfold drain
      split
      · rename_i hge
        refine iff_of_false (fun h => nomatch h) ?_
        rintro ⟨k, hk, ⟨-, hleave⟩, -⟩
        cases Nat.le_zero.1 hk
        exact hleave hge
      · rename_i hlt
        constructor
        · rintro ⟨⟩
          exact ⟨0, Nat.le_refl 0, ⟨fun j hj => absurd hj (Nat.not_lt_zero j), hlt⟩, rfl,
            (Bool.or_false _).symm⟩
        · rintro ⟨k, hk, -, rfl, rfl⟩
          cases Nat.le_zero.1 hk
          exact congrArg (fun b => some (f, b)) (Bool.or_false changed).symm
  | succ n ih =>
      unfold drain
      split
      · rename_i hge
        rw [ih]
        constructor
        · rintro ⟨k, hk, ⟨hstay, hleave⟩, rfl, rfl⟩
          rw [drainOnce_exhaustion] at hstay hleave
          refine ⟨k + 1, Nat.succ_le_succ hk, ⟨?_, hleave⟩, rfl, by simp⟩
          intro j hj
          cases j with
          | zero => exact hge
          | succ j => exact hstay j (Nat.lt_of_succ_lt_succ hj)
        · rintro ⟨k, hk, ⟨hstay, hleave⟩, rfl, rfl⟩
          cases k with
          | zero => exact absurd hge hleave
          | succ k =>
              refine ⟨k, Nat.le_of_succ_le_succ hk, ⟨?_, ?_⟩, rfl, by simp⟩
              · intro j hj
                rw [drainOnce_exhaustion]
                exact hstay (j + 1) (Nat.succ_lt_succ hj)
              · rw [drainOnce_exhaustion]
                exact hleave
      · rename_i hlt
        constructor
        · rintro ⟨⟩
          exact ⟨0, Nat.zero_le _, ⟨fun j hj => absurd hj (Nat.not_lt_zero j), hlt⟩, rfl,
            (Bool.or_false _).symm⟩
        · rintro ⟨k, hk, ⟨hstay, -⟩, rfl, rfl⟩
          cases k with
          | zero => exact congrArg (fun b => some (f, b)) (Bool.or_false changed).symm
          | succ k => exact absurd (hstay 0 (Nat.succ_pos k)) hlt

/-- The loop of the player ends within the turns, or the player is skipped. -/
def LoopEnds (turns : Nat) (p : Player) : Prop :=
  isSkipped p ∨ ∃ k ≤ turns, LeavesAfter (p.foodExhaustion + exhaustionDelta p) k

/-- The player regenerates: some exhaustion is worked off, the food level is at least 18 and
saturation is left. -/
def Regenerates (turns : Nat) (p : Player) : Prop :=
  ¬ isSkipped p ∧ 18 ≤ p.foodLevel ∧ ∃ k ≤ turns, 0 < k ∧
    LeavesAfter (p.foodExhaustion + exhaustionDelta p) k ∧
    0.0 < saturationAfter^[k] p.foodSaturation

theorem regenerates_iff {f : Food} {changed : Bool} :
    regenerates f changed ↔ 18 ≤ f.level ∧ 0.0 < f.saturation ∧ changed := by
  unfold regenerates
  simp only [Bool.and_eq_true, decide_eq_true_eq, Bool.not_eq_true', Bool.and_eq_false_iff,
    decide_eq_false_iff_not]
  constructor
  · rintro ⟨⟨⟨-, hlevel⟩, hsat⟩, hchanged⟩
    exact ⟨hlevel, hsat, hchanged⟩
  · rintro ⟨hlevel, hsat, hchanged⟩
    exact ⟨⟨⟨Or.inl (by omega), hlevel⟩, hsat⟩, hchanged⟩

/-- A loop that ends ends after one number of turns. -/
theorem LeavesAfter.unique {x : Float32} {j k : Nat} (hj : LeavesAfter x j)
    (hk : LeavesAfter x k) : j = k := by
  rcases Nat.lt_trichotomy j k with hlt | heq | hgt
  · exact absurd (hk.1 j hlt) hj.2
  · exact heq
  · exact absurd (hj.1 k hgt) hk.2

/-- What `tick_hunger` decides after the loop, from the player before it. -/
theorem regenerates_iff_of_drain {turns : Nat} {p : Player} {f : Food} {changed : Bool}
    (hskip : ¬ isSkipped p) (h : drain turns (hungerOf p) false = some (f, changed)) :
    regenerates f changed ↔ Regenerates turns p := by
  obtain ⟨k, hk, hleave, rfl, rfl⟩ := drain_eq_some_iff.1 h
  rw [regenerates_iff, iterate_saturation]
  constructor
  · rintro ⟨hlevel, hsat, hchanged⟩
    have hpos : 0.0 < (drainOnce^[k] (hungerOf p)).saturation := by
      rw [iterate_saturation]
      exact hsat
    rw [iterate_level hpos] at hlevel
    exact ⟨hskip, hlevel, k, hk, by simpa using hchanged, hleave, hsat⟩
  · rintro ⟨-, hlevel, k', -, hk', hleave', hsat⟩
    cases hleave.unique hleave'
    have hpos : 0.0 < (drainOnce^[k] (hungerOf p)).saturation := by
      rw [iterate_saturation]
      exact hsat
    rw [iterate_level hpos]
    exact ⟨hlevel, hsat, by simpa using hk'⟩

/-- The loop of a player that is not skipped ends exactly when the model's does. -/
theorem loopEnds_iff {turns : Nat} {p : Player} (hskip : ¬ isSkipped p) :
    LoopEnds turns p ↔ (drain turns (hungerOf p) false).isSome := by
  unfold LoopEnds
  rw [or_iff_right hskip, Option.isSome_iff_exists]
  constructor
  · rintro ⟨k, hk, hleave⟩
    exact ⟨_, drain_eq_some_iff.2 ⟨k, hk, hleave, rfl, rfl⟩⟩
  · rintro ⟨⟨f, changed⟩, h⟩
    obtain ⟨k, hk, hleave, -⟩ := drain_eq_some_iff.1 h
    exact ⟨k, hk, hleave⟩

/-! ## When the guards of a call do not meet -/

section

variable {K : Type} {held : List Mode}

/-- Under a guard, nothing else of the table is granted. -/
theorem not_unnested_touch (m : Mode) (g : Guard K) :
    ¬ (touch g).Unnested mutex (m :: held) := by
  intro h
  exact Bool.false_ne_true ((unnested_touch g).1 h m List.mem_cons_self).symm

theorem unnested_alone (g : Guard K) : (touch g).Unnested mutex [] :=
  (unnested_touch g).2 (List.forall_mem_nil _)

theorem unnested_iter (ks : List K) : (iter ks).Unnested mutex [] :=
  (unnested_each _ ks).2 fun k _ => unnested_alone (get k)

/-- Without guards around it, an entry is as good as its body. -/
theorem unnested_entry {V : Type} (g : Guard K) (entry : Option V) (body : V → Uses K) :
    (withEntry g entry body).Unnested mutex [] ↔
      ∀ v, entry = some v → (body v).Unnested mutex [g.mode] :=
  (unnested_withEntry g entry body).trans (and_iff_right (List.forall_mem_nil _))

/-- A body that asks for something of the table exactly when `c` holds. -/
theorem unnested_ite {c : Prop} [Decidable c] {u : Uses K} {m : Mode}
    (hu : ¬ u.Unnested mutex [m]) : (if c then u else done).Unnested mutex [m] ↔ ¬ c := by
  split
  · rename_i hc
    exact iff_of_false hu (not_not_intro hc)
  · rename_i hc
    exact iff_of_true unnested_done hc

/-- No key that is looked at: a walk under a guard needs an empty table. -/
theorem not_unnested_iter (m : Mode) {ks : List K} (h : ks ≠ []) :
    ¬ (iter ks).Unnested mutex [m] := by
  intro hall
  obtain ⟨k, ks, rfl⟩ := List.exists_cons_of_ne_nil h
  exact not_unnested_touch m (get k) ((unnested_each _ _).1 hall k List.mem_cons_self)

end

theorem unnested_addEffect (t : Players) (uuid : Uuid) (effect : EffectType) :
    (addEffect t uuid effect).Unnested mutex [] ↔
      ∀ p, t.lookup uuid = some p → ¬ effect.isInstant := by
  unfold addEffect withPlayer
  rw [unnested_entry]
  refine forall₂_congr fun p _ => unnested_ite ?_
  rw [unnested_append]
  exact fun h => not_unnested_touch _ _ h.1

/-- No player regenerates, up to the first whose loop does not end. -/
def NoneRegenerates (turns : Nat) (t : Players) : List Uuid → Prop
  | [] => True
  | uuid :: rest =>
      (∀ p, t.lookup uuid = some p → ¬ Regenerates turns p) ∧
        ((∀ p, t.lookup uuid = some p → LoopEnds turns p) → NoneRegenerates turns t rest)

/-- **The hunger tick gets its guards exactly when nobody regenerates.** -/
theorem unnested_hungerTurns (turns : Nat) (t : Players) (uuids : List Uuid) :
    (hungerTurns turns t uuids).Unnested mutex [] ↔ NoneRegenerates turns t uuids := by
  induction uuids with
  | nil => exact iff_of_true unnested_done trivial
  | cons uuid rest ih =>
      -- A turn without a request under its guard.
      have hgoOn : (touch (getMut uuid) ++ hungerTurns turns t rest).Unnested mutex [] ↔
          NoneRegenerates turns t rest := by
        rw [unnested_append, and_iff_right (unnested_alone _), ih]
      unfold hungerTurns NoneRegenerates
      cases hp : t.lookup uuid with
      | none =>
          have hno : ∀ p : Player, (none : Option Player) ≠ some p := fun _ h => nomatch h
          dsimp only
          rw [hgoOn, and_iff_right fun p h => absurd h (hno p),
            imp_iff_right fun p h => absurd h (hno p)]
      | some p =>
          simp only [Option.some.injEq, forall_eq']
          by_cases hskip : isSkipped p
          · have hends : LoopEnds turns p := Or.inl hskip
            rw [if_pos hskip, hgoOn, and_iff_right fun h => h.1 hskip, imp_iff_right hends]
          · rw [if_neg hskip, loopEnds_iff hskip]
            cases hdrain : drain turns (hungerOf p) false with
            | none =>
                refine iff_of_true (unnested_alone _) ⟨?_, fun h => nomatch h⟩
                rintro ⟨-, -, k, hk, -, hleave, -⟩
                have hends := (loopEnds_iff hskip).1 (Or.inr ⟨k, hk, hleave⟩)
                rw [hdrain] at hends
                cases hends
            | some r =>
                obtain ⟨f, changed⟩ := r
                rw [imp_iff_right Option.isSome_some, ← regenerates_iff_of_drain hskip hdrain]
                dsimp only
                split
                · rename_i hregen
                  refine iff_of_false ?_ fun h => h.1 hregen
                  rw [unnested_append, unnested_under]
                  exact fun h => not_unnested_touch _ _ h.1.2
                · rename_i hregen
                  rw [hgoOn, and_iff_right hregen]

theorem unnested_tickHunger (turns : Nat) (t : Players) :
    (tickHunger turns t).Unnested mutex [] ↔ NoneRegenerates turns t t.keys := by
  unfold tickHunger
  rw [unnested_append, and_iff_right (unnested_iter _), unnested_hungerTurns]

theorem unnested_effectTurn (t : Players) (tick : Nat) (uuid : Uuid) :
    (effectTurn t tick uuid).Unnested mutex [] ↔
      ∀ p, t.lookup uuid = some p → ¬ regenTick p tick := by
  have hlevitation : (match t.lookup uuid with
      | some p => if 0 < effectLevel p 25 then touch (getMut uuid) else done
      | none => done).Unnested mutex [] := by
    split
    · split
      · exact unnested_alone _
      · exact unnested_done
    · exact unnested_done
  unfold effectTurn withPlayer
  rw [unnested_append, and_iff_left hlevitation, unnested_entry]
  exact forall₂_congr fun p _ => unnested_ite (not_unnested_touch _ _)

theorem unnested_tickEffects (t : Players) (tick : Nat) :
    (tickEffects t tick).Unnested mutex [] ↔
      ∀ uuid ∈ t.keys, ∀ p, t.lookup uuid = some p → ¬ regenTick p tick := by
  unfold tickEffects
  rw [unnested_append, and_iff_right (unnested_iter _), unnested_each]
  exact forall₂_congr fun uuid _ => unnested_effectTurn t tick uuid

/-- Thorns strike back: the armour has them and the draw hits. -/
def StrikesBack (thorns : Option (List (Option Nat))) (hits : Nat → Bool) : Prop :=
  ∃ levels, thorns = some levels ∧
    (let maxThorns := ((levels.filterMap id).max?).getD 0
     0 < maxThorns ∧ hits maxThorns)

theorem unnested_applyDamageWithEnchants (t : Players) (uuid : Uuid) (attacker : Option Uuid)
    (thorns : Option (List (Option Nat))) (hits : Nat → Bool) :
    (applyDamageWithEnchants t uuid attacker thorns hits).Unnested mutex [] ↔
      ∀ p, t.lookup uuid = some p → attacker.isSome → ¬ StrikesBack thorns hits := by
  have hbefore : ((match attacker with
      | some a => getEffectLevel a ++ getEffectLevel a
      | none => done) ++ getEffectLevel uuid ++ touch (get uuid)).Unnested mutex [] := by
    rw [unnested_append, unnested_append]
    refine ⟨⟨?_, unnested_alone _⟩, unnested_alone _⟩
    split
    · exact (unnested_append _ _).2 ⟨unnested_alone _, unnested_alone _⟩
    · exact unnested_done
  unfold applyDamageWithEnchants withPlayer
  rw [unnested_append, and_iff_right hbefore, unnested_entry]
  refine forall₂_congr fun p _ => ?_
  cases attacker with
  | none => exact iff_of_true unnested_done (fun h => nomatch h)
  | some a =>
      rw [imp_iff_right Option.isSome_some]
      cases thorns with
      | none =>
          refine iff_of_true unnested_done ?_
          rintro ⟨levels, h, -⟩
          cases h
      | some levels =>
          have hstrikes : StrikesBack (some levels) hits ↔
              0 < ((levels.filterMap id).max?).getD 0 ∧
                hits (((levels.filterMap id).max?).getD 0) := by
            constructor
            · rintro ⟨_, ⟨⟩, h⟩
              exact h
            · intro h
              exact ⟨levels, rfl, h⟩
          rw [hstrikes]
          exact unnested_ite (not_unnested_touch _ _)

theorem unnested_applyBoatPaddle (t : Players) (uuid : Uuid) (left right : Bool) :
    (applyBoatPaddle t uuid left right).Unnested mutex [] ↔
      ∀ p, t.lookup uuid = some p → ¬ (left || right) := by
  unfold applyBoatPaddle
  rw [unnested_entry]
  exact forall₂_congr fun p _ => unnested_ite (not_unnested_touch _ _)

theorem upToHit_ne_nil (hit : Int → Bool) {ks : List Int} (h : ks ≠ []) :
    upToHit hit ks ≠ [] := by
  cases ks with
  | nil => exact absurd rfl h
  | cons k ks => exact List.cons_ne_nil _ _

theorem unnested_specialTurn (t : Mobs) (coin : Int → Bool) (near : Int → Int → Bool) (k : Int) :
    (specialTurn t coin near k).Unnested mutex [] ↔
      ∀ m, t.lookup k = some m → ¬ looksForPrey m (coin k) := by
  unfold specialTurn
  rw [unnested_entry]
  refine forall₂_congr fun m hm => unnested_ite (not_unnested_iter _ (upToHit_ne_nil _ ?_))
  -- The fox itself is in the table.
  have hmem : k ∈ t.keys := AList.lookup_isSome.1 (by rw [hm]; rfl)
  exact List.ne_nil_of_mem hmem

theorem unnested_tickAi (t : Mobs) (coin : Int → Bool) (near : Int → Int → Bool) :
    (tickAi t coin near).Unnested mutex [] ↔
      ∀ k ∈ t.keys, ∀ m, t.lookup k = some m → ¬ looksForPrey m (coin k) := by
  have hfirst : (each (fun k => touch (getMut k)) t.keys).Unnested mutex [] :=
    (unnested_each _ _).2 fun k _ => unnested_alone _
  unfold tickAi
  rw [unnested_append, unnested_append, unnested_append,
    and_iff_right ⟨⟨unnested_iter _, hfirst⟩, unnested_iter _⟩, unnested_each]
  exact forall₂_congr fun k _ => unnested_specialTurn t coin near k

theorem unnested_splitSlime (t : Mobs) (entityId : Int) (draw : Nat) (babies : Nat → Int) :
    (splitSlime t entityId draw babies).Unnested mutex [] ↔
      ∀ m, t.lookup entityId = some m → ¬ (m.mobType = 34 ∧ m.maxHealth > 2.0) := by
  unfold splitSlime
  rw [unnested_entry]
  refine forall₂_congr fun m _ => unnested_ite ?_
  intro h
  have hzero : 0 ∈ List.range (2 + draw % 3) := List.mem_range.2 (by omega)
  exact not_unnested_touch _ _ ((unnested_each _ _).1 h 0 hzero)

/-! ## The calls -/

/-- The methods of `PlayerManager` with their arguments and draws; `tickHunger` is followed for
`turns` turns of each loop. -/
inductive PlayerCall where
  | addEffect (uuid : Uuid) (effect : EffectType)
  | tickHunger (turns : Nat)
  | tickEffects (tick : Nat)
  | applyDamageWithEnchants (uuid : Uuid) (attacker : Option Uuid)
      (thorns : Option (List (Option Nat))) (hits : Nat → Bool)
  | applyBoatPaddle (uuid : Uuid) (left right : Bool)
  /-- The other methods: no guard is held at a request. -/
  | oneAtATime (guards : List (Guard Uuid))

/-- The methods of `MobManager`. -/
inductive MobCall where
  | tickAi (coin : Int → Bool) (near : Int → Int → Bool)
  | splitSlime (entityId : Int) (draw : Nat) (babies : Nat → Int)
  | oneAtATime (guards : List (Guard Int))

def PlayerCall.uses (t : Players) : PlayerCall → Uses Uuid
  | addEffect uuid effect => TableGuards.addEffect t uuid effect
  | tickHunger turns => TableGuards.tickHunger turns t
  | tickEffects tick => TableGuards.tickEffects t tick
  | applyDamageWithEnchants uuid attacker thorns hits =>
      TableGuards.applyDamageWithEnchants t uuid attacker thorns hits
  | applyBoatPaddle uuid left right => TableGuards.applyBoatPaddle t uuid left right
  | oneAtATime guards => each touch guards

def MobCall.uses (t : Mobs) : MobCall → Uses Int
  | tickAi coin near => TableGuards.tickAi t coin near
  | splitSlime entityId draw babies => TableGuards.splitSlime t entityId draw babies
  | oneAtATime guards => each touch guards

/-- The states and arguments on which a call of the player manager is safe. -/
def PlayerCall.Harmless (t : Players) : PlayerCall → Prop
  | addEffect uuid effect => ∀ p, t.lookup uuid = some p → ¬ effect.isInstant
  | tickHunger turns => NoneRegenerates turns t t.keys
  | tickEffects tick => ∀ uuid ∈ t.keys, ∀ p, t.lookup uuid = some p → ¬ regenTick p tick
  | applyDamageWithEnchants uuid attacker thorns hits =>
      ∀ p, t.lookup uuid = some p → attacker.isSome → ¬ StrikesBack thorns hits
  | applyBoatPaddle uuid left right => ∀ p, t.lookup uuid = some p → ¬ (left || right)
  | oneAtATime _ => True

/-- The states and arguments on which a call of the mob manager is safe. -/
def MobCall.Harmless (t : Mobs) : MobCall → Prop
  | tickAi coin _ => ∀ k ∈ t.keys, ∀ m, t.lookup k = some m → ¬ looksForPrey m (coin k)
  | splitSlime entityId _ _ =>
      ∀ m, t.lookup entityId = some m → ¬ (m.mobType = 34 ∧ m.maxHealth > 2.0)
  | oneAtATime _ => True

theorem PlayerCall.unnested_uses (t : Players) (c : PlayerCall) :
    (c.uses t).Unnested mutex [] ↔ c.Harmless t := by
  cases c with
  | addEffect uuid effect => exact unnested_addEffect t uuid effect
  | tickHunger turns => exact unnested_tickHunger turns t
  | tickEffects tick => exact unnested_tickEffects t tick
  | applyDamageWithEnchants uuid attacker thorns hits =>
      exact unnested_applyDamageWithEnchants t uuid attacker thorns hits
  | applyBoatPaddle uuid left right => exact unnested_applyBoatPaddle t uuid left right
  | oneAtATime guards => exact iff_of_true ((unnested_each _ _).2 fun g _ => unnested_alone g) trivial

theorem MobCall.unnested_uses (t : Mobs) (c : MobCall) :
    (c.uses t).Unnested mutex [] ↔ c.Harmless t := by
  cases c with
  | tickAi coin near => exact unnested_tickAi t coin near
  | splitSlime entityId draw babies => exact unnested_splitSlime t entityId draw babies
  | oneAtATime guards => exact iff_of_true ((unnested_each _ _).2 fun g _ => unnested_alone g) trivial

structure Tables where
  players : Players
  mobs : Mobs

inductive Call where
  | player (c : PlayerCall)
  | mob (c : MobCall)

/-- The call gets every guard that it asks its table for, whatever the shards. -/
def Call.Granted (t : Tables) : Call → Prop
  | player c => ∀ shard : Uuid → Nat, Completes mutex shard (c.uses t.players)
  | mob c => ∀ shard : Int → Nat, Completes mutex shard (c.uses t.mobs)

def Call.Harmless (t : Tables) : Call → Prop
  | player c => c.Harmless t.players
  | mob c => c.Harmless t.mobs

/-- **Whatever the shards, a call gets all its guards exactly on the harmless inputs.** -/
theorem granted_iff_harmless (t : Tables) (c : Call) : c.Granted t ↔ c.Harmless t := by
  cases c with
  | player c => exact (forall_completes_iff (c.uses t.players)).trans (c.unnested_uses t.players)
  | mob c => exact (forall_completes_iff (c.uses t.mobs)).trans (c.unnested_uses t.mobs)

/-- An instant effect reads the player under the guard that it writes the player with. -/
theorem not_forall_granted : ¬ ∀ (t : Tables) (c : Call), c.Granted t := by
  intro h
  let p : Player := ⟨.survival, false, false, 20.0, 20, 5.0, 0.0, []⟩
  have hheal : (Call.player (.addEffect 0#128 .instantHealth)).Granted
      ⟨AList.insert 0#128 p ∅, ∅⟩ := h _ _
  have hharmless := (PlayerCall.unnested_uses _ _).1 ((forall_completes_iff _).1 hheal)
  exact hharmless p (AList.lookup_insert _) rfl

end Apoptotic.TableGuards
