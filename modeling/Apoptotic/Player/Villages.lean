import Apoptotic.Player.Raids

/-!
# The distance between villages

`RaidManager::register_village` of `mc-player/src/raid.rs` refuses a centre within 64 blocks of a
registered one.  It squares the coordinate differences in `i32`.

Principal result: `along_trueDistances_iff` — the true distances decide exactly along the runs in
which no squared distance wraps around to a small one.
-/

namespace Apoptotic.Raids

/-- The square of the horizontal distance. -/
def squaredDistance (v w : Center) : Int :=
  (v.x.toInt - w.x.toInt) ^ 2 + (v.z.toInt - w.z.toInt) ^ 2

/-- Within 64 blocks of each other. -/
def Near (v w : Center) : Prop := squaredDistance v w < 64 ^ 2

instance (v w : Center) : Decidable (Near v w) := inferInstanceAs (Decidable (_ < _))

/-- Too far from each other, with a squared distance that is small as an `i32`. -/
def WrapsNear (v w : Center) : Prop :=
  ¬ Near v w ∧ (squaredDistance v w).bmod (2 ^ 32) < 64 ^ 2

variable {F : Type} (f : Floats F)

/-- What is asked of a step: a centre is added exactly if no registered village is within 64 blocks
of it, and the registered villages stay that far apart. -/
structure TrueDistances (s : RaidManager) (a : Action F) : Prop where
  registers : ∀ center, a = .registerVillage center → (s.step f a).villageCenters =
    if ∃ v ∈ s.villageCenters, Near v center then s.villageCenters
    else s.villageCenters ++ [center]
  apart : (s.step f a).villageCenters.Pairwise fun v w => ¬ Near v w

/-- No squared distance to a registered village wraps around, or some village really is near. -/
def NoWrap (s : RaidManager) (a : Action F) : Prop :=
  ∀ center, a = .registerVillage center → (∃ v ∈ s.villageCenters, WrapsNear v center) →
    ∃ v ∈ s.villageCenters, Near v center

/-! ## The distance in `i32` -/

/-- The test of `register_village`. -/
def close (center existing : Center) : Bool :=
  let dx := existing.x - center.x
  let dz := existing.z - center.z
  (dx * dx + dz * dz).slt 4096#32

theorem close_iff {center v : Center} :
    close center v ↔ (squaredDistance v center).bmod (2 ^ 32) < 64 ^ 2 := by
  unfold close squaredDistance
  have h4096 : (4096#32).toInt = 64 ^ 2 := by decide
  simp [BitVec.slt_iff_toInt_lt, BitVec.toInt_add, BitVec.toInt_mul, BitVec.toInt_sub, h4096, pow_two]

/-- A near village is found: the squared distance fits. -/
theorem close_of_near {center v : Center} (h : Near v center) : close center v := by
  have h0 : 0 ≤ squaredDistance v center := by
    unfold squaredDistance
    positivity
  unfold Near at h
  rw [close_iff, Int.bmod_eq_of_le (by omega) (by omega)]
  exact h

/-- What the test finds is near, or wraps around. -/
theorem close_iff_near_or {center v : Center} :
    close center v ↔ Near v center ∨ WrapsNear v center := by
  constructor
  · intro h
    by_cases hnear : Near v center
    · exact .inl hnear
    · exact .inr ⟨hnear, close_iff.1 h⟩
  · rintro (h | h)
    · exact close_of_near h
    · exact close_iff.2 h.2

/-- **Nothing wraps around up to a distance of 32767 blocks on each axis.** -/
theorem not_wrapsNear {v w : Center} (hx : |v.x.toInt - w.x.toInt| ≤ 32767)
    (hz : |v.z.toInt - w.z.toInt| ≤ 32767) : ¬ WrapsNear v w := by
  rintro ⟨hfar, hwrap⟩
  have hx2 := sq_le_sq' (abs_le.1 hx).1 (abs_le.1 hx).2
  have hz2 := sq_le_sq' (abs_le.1 hz).1 (abs_le.1 hz).2
  have h0 : 0 ≤ squaredDistance v w := by
    unfold squaredDistance
    positivity
  have hle : squaredDistance v w ≤ 2 * 32767 ^ 2 := by
    unfold squaredDistance
    omega
  apply hfar
  rw [Int.bmod_eq_of_le (by omega) (by omega)] at hwrap
  exact hwrap

/-! ## Registering -/

theorem villageCenters_registerVillage (s : RaidManager) (center : Center) :
    (s.registerVillage center).villageCenters =
      if ∃ v ∈ s.villageCenters, close center v then s.villageCenters
      else s.villageCenters ++ [center] := by
  have hany : s.villageCenters.any (close center) ↔ ∃ v ∈ s.villageCenters, close center v :=
    List.any_eq_true
  unfold RaidManager.registerVillage
  change (if s.villageCenters.any (close center) then s else _).villageCenters = _
  by_cases h : ∃ v ∈ s.villageCenters, close center v
  · rw [if_pos h, if_pos (hany.2 h)]
  · rw [if_neg h, if_neg (mt hany.1 h)]

/-- Only `register_village` changes the list of the villages. -/
theorem villageCenters_step {s : RaidManager} {a : Action F}
    (h : ∀ center, a ≠ .registerVillage center) :
    (s.step f a).villageCenters = s.villageCenters := by
  cases a with
  | tryStartRaid uuid pos hasBadOmen difficulty =>
      change (s.tryStartRaid f uuid pos hasBadOmen difficulty).2.villageCenters = _
      rcases tryStartRaid_spec (f := f) s uuid pos hasBadOmen difficulty with
        ⟨hnone, -⟩ | ⟨center, -, -, -, -, hstart⟩
      · rw [hnone]
      · rw [hstart]
  | spawnWave place center =>
      change (s.spawnWave f place center).2.villageCenters = _
      unfold RaidManager.spawnWave
      cases s.activeRaids center with
      | none => rfl
      | some raid => cases h : raid.nextWave <;> simp [h]
  | registerVillage center => exact absurd rfl (h center)
  | _ => rfl

/-- The registered villages are 64 blocks apart, whether a distance wraps around or not. -/
theorem apart_step {s : RaidManager}
    (h : s.villageCenters.Pairwise fun v w => ¬ Near v w) (a : Action F) :
    (s.step f a).villageCenters.Pairwise fun v w => ¬ Near v w := by
  by_cases ha : ∃ center, a = .registerVillage center
  · obtain ⟨center, rfl⟩ := ha
    change (s.registerVillage center).villageCenters.Pairwise _
    rw [villageCenters_registerVillage]
    by_cases hclose : ∃ v ∈ s.villageCenters, close center v
    · rw [if_pos hclose]
      exact h
    · rw [if_neg hclose, List.pairwise_append]
      refine ⟨h, List.pairwise_singleton _ _, fun v hv w hw hnear => ?_⟩
      rw [List.mem_singleton.1 hw] at hnear
      exact hclose ⟨v, hv, close_of_near hnear⟩
  · rw [villageCenters_step f fun center hc => ha ⟨center, hc⟩]
    exact h

/-- A step decides by the true distance exactly if no distance wraps around. -/
theorem trueDistances_iff {s : RaidManager}
    (h : s.villageCenters.Pairwise fun v w => ¬ Near v w) (a : Action F) :
    TrueDistances f s a ↔ NoWrap s a := by
  constructor
  · rintro ⟨hreg, -⟩ center rfl ⟨v, hv, hwrap⟩
    -- The centre is refused, so there is a near village.
    by_contra hnone
    have hadd := hreg center rfl
    rw [if_neg hnone] at hadd
    change (s.registerVillage center).villageCenters = _ at hadd
    rw [villageCenters_registerVillage,
      if_pos ⟨v, hv, close_iff_near_or.2 (.inr hwrap)⟩] at hadd
    simp at hadd
  · intro hno
    refine ⟨?_, apart_step f h a⟩
    rintro center rfl
    change (s.registerVillage center).villageCenters = _
    have hiff : (∃ v ∈ s.villageCenters, close center v) ↔ ∃ v ∈ s.villageCenters, Near v center := by
      constructor
      · rintro ⟨v, hv, hclose⟩
        rcases close_iff_near_or.1 hclose with hnear | hwrap
        · exact ⟨v, hv, hnear⟩
        · exact hno center rfl ⟨v, hv, hwrap⟩
      · rintro ⟨v, hv, hnear⟩
        exact ⟨v, hv, close_of_near hnear⟩
    rw [villageCenters_registerVillage]
    exact if_congr hiff rfl rfl

/-- **Registration follows the true distances exactly along the runs in which no squared distance
wraps around.** -/
theorem along_trueDistances_iff (as : List (Action F)) :
    Along (RaidManager.step f) (TrueDistances f) RaidManager.new as ↔
      Along (RaidManager.step f) NoWrap RaidManager.new as :=
  along_iff (fun s => s.villageCenters.Pairwise fun v w => ¬ Near v w)
    (fun _ a h => trueDistances_iff f h a) (fun _ a h _ => apart_step f h a) List.Pairwise.nil as

/-- The second village is 65536 blocks away from the first. -/
theorem not_forall_along_trueDistances :
    ¬ ∀ as : List (Action Rat),
      Along (RaidManager.step Floats.exact) (TrueDistances Floats.exact) RaidManager.new as := by
  intro h
  obtain ⟨-, hsecond, -⟩ := h [.registerVillage ⟨0, 64, 0⟩, .registerVillage ⟨65536, 64, 0⟩]
  have hreg := hsecond.registers _ rfl
  revert hreg
  decide

end Apoptotic.Raids
