import Apoptotic.World.NoiseBounds
import Apoptotic.World.Reproducible
import Apoptotic.World.SafeCalls

/-!
# Generation inside the chunk

Whether a built-in generator with its default options returns a chunk, sets blocks inside that chunk only,
and computes no `i32` that overflows.

Principal definitions: `Computed` — the numbers that a generator computes from its position and from
noise; `Safe` — what is asked of a generator; `Builtin.Contained` — where it is so.

Principal result: `safe_iff` — the generators are safe but for melons on the border, a shipwreck below the
world, and two corners of the end.
-/

namespace Apoptotic.Terrain

open Draws Blocks

/-- `i32` -/
abbrev FitsI32 (n : Int) : Prop := -2 ^ 31 ≤ n ∧ n < 2 ^ 31

/-- The generator computes world coordinates. -/
def Builtin.located : Builtin → Bool
  | noise | nether | «end» => true
  | _ => false

section

variable {F Table : Type} (h : Host F Table) (pos : ChunkPos) (seed : BitVec 64) (terrain : Table)

/-- The column of the end takes `wx + wz`. -/
def Diagonal (fl : Floats F) (wx wz : BitVec 32) : Prop :=
  let dist := distance fl wx wz
  if fl.lt dist (fl.lit 80) then fl.lt (fl.lit 20) dist ∧ fl.lt dist (fl.lit 60)
  else fl.le (fl.lit 1000) dist ∧ sampleEndBiome fl wx wz = .endHighlands

/-- The numbers that a generator computes in `i32` from its position and from noise, before they wrap. -/
inductive Computed : Builtin → Int → Prop
  | worldX {b : Builtin} (hb : b.located) {x : Int} (hx : Inside x) : Computed b (pos.x.toInt * 16 + x)
  | worldZ {b : Builtin} (hb : b.located) {z : Int} (hz : Inside z) : Computed b (pos.z.toInt * 16 + z)
  | height (wx wz : BitVec 32) : Computed .noise
      (NoiseGenerator.new.baseHeight.toInt + NoiseGenerator.new.noiseVal h terrain wx wz)
  /-- A block over or under the ground. -/
  | offset (wx wz : BitVec 32) {dy : Int} (hdy : -64 ≤ dy ∧ dy ≤ 64) :
      Computed .noise (NoiseGenerator.new.heightAt h terrain wx wz + dy)
  | highland (wx wz : BitVec 32) : Computed .end (waveVal h wx wz + 60)
  /-- A block over the highlands. -/
  | plant (wx wz : BitVec 32) {dy : Int} (hdy : 0 ≤ dy ∧ dy ≤ 64) :
      Computed .end (Terrain.highland h wx wz + dy)
  | region (wx wz : BitVec 32) : Computed .end (wx.toInt.tdiv 32 + wz.toInt.tdiv 32)
  | diagonal {x z : Int} (hx : Inside x) (hz : Inside z)
      (hd : Diagonal h.fl (world pos.x x) (world pos.z z)) :
      Computed .end ((world pos.x x).toInt + (world pos.z z).toInt)

/-- The table of the terrain on a thread. -/
def tableOf (t : Drawing (Tables Table)) : Table := (cached h seed t.state.terrain).2

/-- The generator returns a chunk, sets blocks inside it only, and nothing overflows. -/
structure Safe (b : Builtin) (t : Drawing (Tables Table)) : Prop where
  returns : (b.generator.generateChunk h pos seed t).isSome
  inside : (b.generate setInside h pos seed t).isSome
  exact : ∀ n, Computed h pos (tableOf h seed t) b n → FitsI32 n

/-- Where a generator is safe. -/
def Builtin.Contained (t : Drawing (Tables Table)) : Builtin → Prop
  | noise => Terrain.Contained pos seed (NoiseGenerator.new.heightAt h (tableOf h seed t))
  | «end» => pos.x.toInt + pos.z.toInt ≠ 2 ^ 27 - 1
  | _ => True

end

/-! ## Chunks -/

section

variable {F Table : Type} {h : Host F Table} (hh : h.Lawful) {pos : ChunkPos} {seed : BitVec 64}

include hh

/-- **A contained chunk is generated**, over every function that sets blocks inside the chunk. -/
theorem generate_isSome {set : SetBlock} (hset : SetsInside set) {b : Builtin} {t : Drawing (Tables Table)}
    (hb : b.Contained h pos seed t) : (b.generate set h pos seed t).isSome := by
  have hlayers : ∃ c, Calls.applyLayers set defaultLayers (Chunk.new pos) = some c := by
    obtain ⟨c, hc, _⟩ := applyLayers_smooth hset _ (.new pos)
    exact ⟨c, hc⟩
  have hlift : ∀ {o : Option Chunk}, (∃ c, o = some c) → (lift o t).isSome := by
    rintro _ ⟨c, rfl⟩
    rfl
  have hsucceeds : ∀ {m : Draws (Tables Table) Chunk}, Succeeds Chunk.Grown m → ∀ s, (m s).isSome := by
    intro m hm s
    obtain ⟨r, hr, _⟩ := hm s
    rw [hr]
    rfl
  obtain ⟨c, hc⟩ := hlayers
  cases b with
  | flat => exact hlift ⟨light c, Option.map_eq_some_iff.2 ⟨c, hc, rfl⟩⟩
  | noise =>
      have hheight : ∀ wx wz, NoiseGenerator.new.heightAt h (tableOf h seed t) wx wz ≤ 300 := by
        intro wx wz
        have := NoiseGenerator.heightAt_between hh (tableOf h seed t) wx wz
        omega
      show (Calls.generateNoise set h pos seed .new t).isSome
      rw [Calls.generateNoise_eq]
      exact hsucceeds (sculpt_succeeds hset h hheight hb _) _
  | empty => rfl
  | nether => exact hsucceeds (generateNether_succeeds hset h) t
  | «end» =>
      refine hlift (exists_generateEnd hset h fun wx wz => ?_)
      have := highland_between hh wx wz
      omega
  | custom =>
      refine hlift ⟨{ c with dirty := false }, ?_⟩
      rw [hc]
      rfl

/-- **Over `setInside` the noise generator needs a contained chunk.** -/
theorem contained_of_noise {t : Drawing (Tables Table)}
    (hrun : (Builtin.noise.generate setInside h pos seed t).isSome) :
    Builtin.noise.Contained h pos seed t := by
  change (Calls.generateNoise setInside h pos seed .new t).isSome at hrun
  rw [Calls.generateNoise_eq] at hrun
  obtain ⟨r, hr⟩ := Option.isSome_iff_exists.1 hrun
  have hheight : ∀ wx wz, -2 ^ 20 ≤ NoiseGenerator.new.heightAt h (tableOf h seed t) wx wz ∧
      NoiseGenerator.new.heightAt h (tableOf h seed t) wx wz ≤ 2 ^ 20 := by
    intro wx wz
    have := NoiseGenerator.heightAt_between hh (tableOf h seed t) wx wz
    omega
  exact contained_of_sculpt hheight hr

end

/-! ## Numbers -/

theorem toInt_world {p : BitVec 32} (hp : |p.toInt| ≤ 2 ^ 26) {v : Int} (hv : Inside v) :
    (world p v).toInt = p.toInt * 16 + v := by
  obtain ⟨hlo, hhi⟩ := abs_le.1 hp
  have hv' : (BitVec.ofInt 32 v).toInt = v := by
    rw [BitVec.toInt_ofInt]
    exact Int.bmod_eq_of_le (by omega) (by omega)
  have hsixteen : (16 : BitVec 32).toInt = 16 := by decide
  have hmul : (p * 16).toInt = p.toInt * 16 := by
    rw [BitVec.toInt_mul, hsixteen]
    exact Int.bmod_eq_of_le (by omega) (by omega)
  unfold world
  rw [BitVec.toInt_add, hmul, hv']
  exact Int.bmod_eq_of_le (by omega) (by omega)

theorem tdiv_between (w : BitVec 32) : -2 ^ 26 ≤ w.toInt.tdiv 32 ∧ w.toInt.tdiv 32 ≤ 2 ^ 26 := by
  have hlo := w.le_toInt
  have hhi := w.toInt_lt
  rcases Int.le_total 0 w.toInt with hw | hw
  · rw [Int.tdiv_eq_ediv_of_nonneg hw]
    omega
  · have hneg := Int.neg_tdiv (a := w.toInt) (b := 32)
    rw [Int.tdiv_eq_ediv_of_nonneg (by omega)] at hneg
    omega

/-- Highlands are in the regions that are a multiple of three. -/
theorem region_of_highlands {F : Type} {fl : Floats F} {wx wz : BitVec 32}
    (h : sampleEndBiome fl wx wz = .endHighlands) :
    (wx.toInt.tdiv 32 + wz.toInt.tdiv 32).tmod 3 = 0 := by
  unfold sampleEndBiome at h
  dsimp only at h
  split at h
  · cases h
  · split at h
    · cases h
    · split at h
      · cases h
      · split at h
        · assumption
        · split at h
          · cases h
          · cases h

section

variable {F Table : Type} {h : Host F Table} (hh : h.Lawful) {pos : ChunkPos} (hx : |pos.x.toInt| ≤ 2 ^ 26)
  (hz : |pos.z.toInt| ≤ 2 ^ 26)

include hh hx hz

/-- The sum of the coordinates of a column overflows in two corners only, which are highlands. -/
theorem diagonal_fits (hcorner : pos.x.toInt + pos.z.toInt ≠ 2 ^ 27 - 1) {x z : Int} (hx' : Inside x)
    (hz' : Inside z) (hd : Diagonal h.fl (world pos.x x) (world pos.z z)) :
    FitsI32 ((world pos.x x).toInt + (world pos.z z).toInt) := by
  obtain ⟨hxlo, hxhi⟩ := abs_le.1 hx
  obtain ⟨hzlo, hzhi⟩ := abs_le.1 hz
  have hwx := toInt_world hx hx'
  have hwz := toInt_world hz hz'
  unfold Diagonal at hd
  dsimp only at hd
  split at hd
  · rename_i hnear
    have hlt := near_of_lt hh (n := 80) (by decide) (by simpa using hnear)
    have hltx := abs_lt.1 hlt.1
    have hltz := abs_lt.1 hlt.2
    omega
  · have hregion := region_of_highlands hd.2
    -- Where the sum overflows and the corner is neither, the region is not one of highlands.
    by_contra hover
    have hxcorner : pos.x.toInt = 2 ^ 26 := by omega
    have hzcorner : pos.z.toInt = 2 ^ 26 := by omega
    rw [Int.tdiv_eq_ediv_of_nonneg (by omega), Int.tdiv_eq_ediv_of_nonneg (by omega),
      Int.tmod_eq_emod_of_nonneg (by omega)] at hregion
    omega

/-- In the corners it does overflow. -/
theorem diagonal_corner (hcorner : pos.x.toInt + pos.z.toInt = 2 ^ 27 - 1) :
    Diagonal h.fl (world pos.x 15) (world pos.z 1) ∧
      ¬ FitsI32 ((world pos.x 15).toInt + (world pos.z 1).toInt) := by
  obtain ⟨hxlo, hxhi⟩ := abs_le.1 hx
  obtain ⟨hzlo, hzhi⟩ := abs_le.1 hz
  have hwx := toInt_world hx (v := 15) (by decide)
  have hwz := toInt_world hz (v := 1) (by decide)
  have hfar : ∀ n : Nat, n ≤ 2 ^ 20 → h.fl.le (h.fl.lit (n : Int)) (distance h.fl (world pos.x 15) (world pos.z 1)) = true ∧
      h.fl.lt (distance h.fl (world pos.x 15) (world pos.z 1)) (h.fl.lit (n : Int)) = false := by
    intro n hn
    refine le_lit_distance hh hn (.inl ?_)
    rw [abs_of_nonneg (by omega)]
    omega
  have h80 := (hfar 80 (by decide)).2
  have h500 := (hfar 500 (by decide)).2
  have h1000 := hfar 1000 (by decide)
  push_cast at h80 h500 h1000
  have hregion : ((world pos.x 15).toInt.tdiv 32 + (world pos.z 1).toInt.tdiv 32).tmod 3 = 0 := by
    rw [Int.tdiv_eq_ediv_of_nonneg (by omega), Int.tdiv_eq_ediv_of_nonneg (by omega),
      Int.tmod_eq_emod_of_nonneg (by omega)]
    omega
  have hbiome : sampleEndBiome h.fl (world pos.x 15) (world pos.z 1) = .endHighlands := by
    unfold sampleEndBiome
    dsimp only
    rw [h80, h500, h1000.2, if_pos hregion]
    rfl
  refine ⟨?_, by omega⟩
  unfold Diagonal
  dsimp only
  rw [h80, h1000.1, hbiome]
  exact ⟨rfl, rfl⟩

theorem computed_fits {terrain : Table} {b : Builtin} (hb : b = .end → pos.x.toInt + pos.z.toInt ≠ 2 ^ 27 - 1)
    {n : Int} (hn : Computed h pos terrain b n) : FitsI32 n := by
  obtain ⟨hxlo, hxhi⟩ := abs_le.1 hx
  obtain ⟨hzlo, hzhi⟩ := abs_le.1 hz
  cases hn with
  | worldX _ hv => omega
  | worldZ _ hv => omega
  | height wx wz =>
      have hbase : NoiseGenerator.new.baseHeight.toInt = -59 := by decide
      have := NoiseGenerator.noiseVal_between hh terrain wx wz
      omega
  | offset wx wz hdy =>
      have := NoiseGenerator.heightAt_between hh terrain wx wz
      omega
  | highland wx wz =>
      have := waveVal_between hh wx wz
      omega
  | plant wx wz hdy =>
      have := highland_between hh wx wz
      omega
  | region wx wz =>
      have := tdiv_between wx
      have := tdiv_between wz
      omega
  | diagonal hx' hz' hd => exact diagonal_fits hh hx hz (hb rfl) hx' hz' hd

end

/-! ## Safety -/

/-- **Where the built-in generators stay inside their chunk.** -/
theorem safe_iff {F Table : Type} {h : Host F Table} (hh : h.Lawful) (b : Builtin) {pos : ChunkPos}
    (hx : |pos.x.toInt| ≤ 2 ^ 26) (hz : |pos.z.toInt| ≤ 2 ^ 26) (seed : BitVec 64)
    (t : Drawing (Tables Table)) : Safe h pos seed b t ↔ b.Contained h pos seed t := by
  constructor
  · intro hsafe
    cases b with
    | noise => exact contained_of_noise hh hsafe.inside
    | «end» =>
        intro hcorner
        obtain ⟨hd, hover⟩ := diagonal_corner hh hx hz hcorner
        exact hover (hsafe.exact _ (.diagonal (by decide) (by decide) hd))
    | _ => trivial
  · intro hb
    refine ⟨?_, generate_isSome hh setsInside_setInside hb, fun n hn => computed_fits hh hx hz ?_ hn⟩
    · rw [← Builtin.generate_setBlock]
      exact generate_isSome hh setsInside_setBlock hb
    · rintro rfl
      exact hb

/-! ### A jungle at the origin -/

theorem lawful_silentHost : silentHost.Lawful where
  rounding := Floats.exact_rounding
  div := by
    rintro x y _ _ ⟨⟩ ⟨⟩ _
    exact Floats.rounded_exact _
  sin := fun _ => ⟨0, rfl, by norm_num, by norm_num⟩
  cos := fun _ => ⟨0, rfl, by norm_num, by norm_num⟩
  truncI32 := by
    rintro x _ ⟨⟩
    rfl
  perlin2d := fun _ _ _ => ⟨0, rfl, by norm_num, by norm_num⟩

/-- Where the noise is zero, the ground is at the base height. -/
theorem heightAt_silentHost (wx wz : BitVec 32) : NoiseGenerator.new.heightAt silentHost () wx wz = -59 := by
  have hfold : ∀ (x z : Rat) (ns : List Nat) (acc : Rat × Rat × Rat × Rat), acc.1 = 0 →
      (ns.foldl (NoiseGenerator.octave silentHost x z ()) acc).1 = 0 := by
    intro x z ns acc hacc
    refine List.foldlRecOn (motive := fun acc : Rat × Rat × Rat × Rat => acc.1 = 0) ns _ hacc fun acc hacc n _ => ?_
    show acc.1 + 0 * acc.2.2.1 = 0
    rw [hacc, zero_mul, add_zero]
  have hnoise : NoiseGenerator.new.noiseVal silentHost () wx wz = 0 := by
    unfold NoiseGenerator.noiseVal
    dsimp only
    rw [hfold _ _ _ _ rfl]
    have hzero : ∀ q r : Rat, silentHost.fl.mul (silentHost.div 0 q) r = 0 := by
      intro q r
      show 0 / q * r = 0
      rw [zero_div, zero_mul]
    rw [hzero]
    decide
  rw [NoiseGenerator.heightAt_new lawful_silentHost, hnoise]
  rfl

/-- At the origin a patch of melons is rolled in the corner of the chunk. -/
theorem melons_corner : Melons ⟨0, 0⟩ 301088000 (NoiseGenerator.new.heightAt silentHost ()) 0 0 where
  jungle := by decide
  planted := by decide
  surface := by
    rw [heightAt_silentHost]
    decide
  patch := by decide

/-- **Melons are placed across the border of the chunk.** -/
theorem not_forall_safe : ¬ ∀ (F Table : Type) (h : Host F Table), h.Lawful → ∀ (b : Builtin) (pos : ChunkPos),
    |pos.x.toInt| ≤ 2 ^ 26 → |pos.z.toInt| ≤ 2 ^ 26 → ∀ (seed : BitVec 64) (t : Drawing (Tables Table)),
      Safe h pos seed b t := by
  intro hall
  have hsafe := hall _ _ silentHost lawful_silentHost .noise ⟨0, 0⟩ (by decide) (by decide) 301088000
    ⟨fun _ => 0, ⟨none, none⟩⟩
  have hcontained := contained_of_noise lawful_silentHost hsafe.inside
  have hinside := (hcontained.melons 0 0 (by decide) (by decide) melons_corner).1
  omega

/-- With this seed the overworld is not safe there; the nether is. -/
theorem silentHost_safe : ¬ Safe silentHost ⟨0, 0⟩ 301088000 .noise ⟨fun _ => 0, ⟨none, none⟩⟩ ∧
    Safe silentHost ⟨0, 0⟩ 301088000 .nether ⟨fun _ => 0, ⟨none, none⟩⟩ := by
  constructor
  · intro hsafe
    have hcontained := (safe_iff lawful_silentHost .noise (by decide) (by decide) 301088000 _).1 hsafe
    have hinside := (hcontained.melons 0 0 (by decide) (by decide) melons_corner).1
    omega
  · exact (safe_iff lawful_silentHost .nether (by decide) (by decide) 301088000 _).2 trivial

end Apoptotic.Terrain
