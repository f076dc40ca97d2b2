import Apoptotic.World.Placers
import Mathlib.Data.List.ProdSigma

/-!
# Preloading the spawn

`ChunkStore::preload_spawn` of `mc-world/src/chunk_store.rs`: the chunks around the centre, sorted by
their distance, go to `generate_parallel` in bands.  The store and `generate_parallel` are arbitrary;
the bands are kept.

Principal result: `coversOnce_preloadSpawn`.
-/

namespace Apoptotic.SpawnPreload

open Terrain (span mem_span)

/-- The centre and the radius of a preload. -/
structure Area where
  centerX : BitVec 32
  centerZ : BitVec 32
  radius : Nat
  small_x : |centerX.toInt| ≤ 2 ^ 30
  small_z : |centerZ.toInt| ≤ 2 ^ 30
  small_radius : radius ≤ 1000

/-- `(a - b).unsigned_abs()` -/
def unsignedAbs (a b : BitVec 32) : Nat := (a - b).toInt.natAbs

namespace Area

variable (a : Area)

/-- The two loops that fill `positions`. -/
def square : List ChunkPos :=
  (span (-a.radius) (a.radius + 1)).flatMap fun dx =>
    (span (-a.radius) (a.radius + 1)).map fun dz =>
      ⟨a.centerX + BitVec.ofInt 32 dx, a.centerZ + BitVec.ofInt 32 dz⟩

def dist (cp : ChunkPos) : Nat := max (unsignedAbs cp.x a.centerX) (unsignedAbs cp.z a.centerZ)

/-- `positions` after `sort_by_cached_key`. -/
def positions : List ChunkPos := a.square.mergeSort fun p q => decide (a.dist p ≤ a.dist q)

end Area

/-- The variables of the loop over the bands, and the bands that it has passed on. -/
structure Preload (S : Type) where
  store : S
  processed : Nat
  currentDist : Nat
  bandStart : Nat
  passed : List (List ChunkPos)

section

variable {S : Type} (generateParallel : S → List ChunkPos → Nat × S) (positions : List ChunkPos)
  (dist : ChunkPos → Nat)

/-- `generate_parallel` is called with `positions[st.band_start..band_end]`, if that is not empty. -/
def Preload.pass (st : Preload S) (bandEnd : Nat) : Preload S :=
  if st.bandStart < bandEnd then
    let band := (positions.take bandEnd).drop st.bandStart
    let r := generateParallel st.store band
    { st with store := r.2, processed := st.processed + r.1, passed := st.passed ++ [band] }
  else st

/-- One turn of the loop. -/
def Preload.turn (st : Preload S) (i : Nat) (cp : ChunkPos) : Preload S :=
  if dist cp ≠ st.currentDist ∨ i = positions.length - 1 then
    let bandEnd := if i = positions.length - 1 then positions.length else i
    { st.pass generateParallel positions bandEnd with currentDist := dist cp, bandStart := i }
  else st

/-- `for (i, cp) in positions.iter().enumerate()`, from the turn `i` on. -/
def bandLoop : Preload S → Nat → List ChunkPos → Preload S
  | st, _, [] => st
  | st, i, cp :: rest => bandLoop (st.turn generateParallel positions dist i cp) (i + 1) rest

end

/-- `preload_spawn` -/
def preloadSpawn {S : Type} (generateParallel : S → List ChunkPos → Nat × S) (a : Area) (s : S) :
    Preload S :=
  bandLoop generateParallel a.positions a.dist ⟨s, 0, 0, 0, []⟩ 0 a.positions

/-! ## The square -/

/-- The Chebyshev distance. -/
def chebyshev (a : Area) (p : ChunkPos) : Int :=
  max |p.x.toInt - a.centerX.toInt| |p.z.toInt - a.centerZ.toInt|

/-- Each position of the square once, the nearest first. -/
structure CoversOnce (a : Area) (l : List ChunkPos) : Prop where
  once : l.Nodup
  covers : ∀ p, p ∈ l ↔ chebyshev a p ≤ a.radius
  size : l.length = (2 * a.radius + 1) ^ 2
  nearest_first : l.Pairwise fun p q => chebyshev a p ≤ chebyshev a q

/-! ## The bands -/

section

variable {S : Type} {generateParallel : S → List ChunkPos → Nat × S} {positions : List ChunkPos}
  {dist : ChunkPos → Nat}

/-- What was passed on reaches to the start of the band, and after `pass` to its end. -/
theorem passed_pass {st : Preload S} {bandEnd : Nat} (hstart : st.bandStart ≤ bandEnd)
    (h : st.passed.flatten = positions.take st.bandStart) :
    (st.pass generateParallel positions bandEnd).passed.flatten = positions.take bandEnd := by
  unfold Preload.pass
  by_cases hlt : st.bandStart < bandEnd
  · rw [if_pos hlt]
    have hmin : min st.bandStart bandEnd = st.bandStart := by omega
    calc (st.passed ++ [(positions.take bandEnd).drop st.bandStart]).flatten
        = positions.take st.bandStart ++ (positions.take bandEnd).drop st.bandStart := by
          simp [h]
      _ = (positions.take bandEnd).take st.bandStart ++
            (positions.take bandEnd).drop st.bandStart := by rw [List.take_take, hmin]
      _ = positions.take bandEnd := List.take_append_drop _ _
  · have heq : st.bandStart = bandEnd := by omega
    rw [if_neg hlt, h, heq]

/-- **The bands are cut from the list without a gap**, wherever they are cut. -/
theorem flatten_bandLoop {rest : List ChunkPos} {i : Nat} {st : Preload S} (hne : rest ≠ [])
    (hlen : i + rest.length = positions.length) (hstart : st.bandStart ≤ i)
    (h : st.passed.flatten = positions.take st.bandStart) :
    (bandLoop generateParallel positions dist st i rest).passed.flatten = positions := by
  induction rest generalizing i st with
  | nil => exact absurd rfl hne
  | cons cp rest ih =>
      rw [List.length_cons] at hlen
      unfold bandLoop
      by_cases hlast : rest = []
      · -- The last turn passes on everything that is left.
        subst hlast
        have hi : i = positions.length - 1 := by
          rw [List.length_nil] at hlen
          omega
        unfold bandLoop Preload.turn
        rw [if_pos (.inr hi)]
        dsimp only
        rw [if_pos hi, passed_pass (by omega) h, List.take_length]
      · have hpos := List.length_pos_iff.2 hlast
        have hi : i ≠ positions.length - 1 := by omega
        unfold Preload.turn
        by_cases hcut : dist cp ≠ st.currentDist
        · rw [if_pos (.inl hcut)]
          dsimp only
          rw [if_neg hi]
          exact ih hlast (by omega) (Nat.le_succ i) (passed_pass hstart h)
        · rw [if_neg (not_or.2 ⟨hcut, hi⟩)]
          exact ih hlast (by omega) (by omega) h

end

/-! ## The square and its order -/

theorem length_span (a b : Int) : (span a b).length = (b - a).toNat := by
  unfold span
  rw [List.length_map, List.length_range]

theorem nodup_span (a b : Int) : (span a b).Nodup := by
  unfold span
  refine List.Nodup.map (fun i j h => ?_) List.nodup_range
  omega

/-- Nothing wraps around a small centre. -/
theorem toInt_add_ofInt {c : BitVec 32} (hc : |c.toInt| ≤ 2 ^ 30) {d : Int} (hd : |d| ≤ 1000) :
    (c + BitVec.ofInt 32 d).toInt = c.toInt + d := by
  rw [abs_le] at hc hd
  rw [BitVec.toInt_add, BitVec.toInt_ofInt, Int.bmod_eq_of_le (n := d) (by omega) (by omega)]
  apply Int.bmod_eq_of_le <;> omega

theorem unsignedAbs_add {c : BitVec 32} {d : Int} (hd : |d| ≤ 1000) :
    (unsignedAbs (c + BitVec.ofInt 32 d) c : Int) = |d| := by
  rw [abs_le] at hd
  have hsub : c + BitVec.ofInt 32 d - c = BitVec.ofInt 32 d := by
    rw [BitVec.add_comm, BitVec.add_sub_cancel]
  unfold unsignedAbs
  rw [hsub, BitVec.toInt_ofInt, Int.bmod_eq_of_le (by omega) (by omega), Int.natCast_natAbs]

namespace Area

variable (a : Area)

/-- The position with the offset `o` from the centre. -/
def offset (o : Int × Int) : ChunkPos :=
  ⟨a.centerX + BitVec.ofInt 32 o.1, a.centerZ + BitVec.ofInt 32 o.2⟩

def offsets : List (Int × Int) :=
  span (-a.radius) (a.radius + 1) ×ˢ span (-a.radius) (a.radius + 1)

theorem square_eq_map : a.square = a.offsets.map a.offset := by
  unfold square offsets
  simp [SProd.sprod, List.product, List.map_flatMap, Function.comp_def, offset]

variable {a}

theorem mem_offsets {o : Int × Int} : o ∈ a.offsets ↔ |o.1| ≤ a.radius ∧ |o.2| ≤ a.radius := by
  unfold offsets
  rw [List.mem_product, mem_span, mem_span, abs_le, abs_le]
  omega

/-- An offset of the square is at most a thousand. -/
theorem small_of_mem_offsets {o : Int × Int} (h : o ∈ a.offsets) : |o.1| ≤ 1000 ∧ |o.2| ≤ 1000 := by
  have hsmall := a.small_radius
  have hmem := mem_offsets.1 h
  omega

theorem chebyshev_offset {o : Int × Int} (h : o ∈ a.offsets) :
    chebyshev a (a.offset o) = max |o.1| |o.2| := by
  have hsmall := small_of_mem_offsets h
  unfold chebyshev offset
  rw [toInt_add_ofInt a.small_x hsmall.1, toInt_add_ofInt a.small_z hsmall.2]
  simp

/-- **The key of the sort is the Chebyshev distance.** -/
theorem dist_eq_chebyshev {p : ChunkPos} (h : p ∈ a.square) : (a.dist p : Int) = chebyshev a p := by
  rw [square_eq_map] at h
  obtain ⟨o, ho, rfl⟩ := List.mem_map.1 h
  have hsmall := small_of_mem_offsets ho
  rw [chebyshev_offset ho]
  unfold dist offset
  rw [Nat.cast_max, unsignedAbs_add hsmall.1, unsignedAbs_add hsmall.2]

theorem mem_square {p : ChunkPos} : p ∈ a.square ↔ chebyshev a p ≤ a.radius := by
  rw [square_eq_map, List.mem_map]
  constructor
  · rintro ⟨o, ho, rfl⟩
    rw [chebyshev_offset ho]
    exact max_le_iff.2 (mem_offsets.1 ho)
  · intro h
    refine ⟨(p.x.toInt - a.centerX.toInt, p.z.toInt - a.centerZ.toInt),
      mem_offsets.2 (max_le_iff.1 h), ?_⟩
    have hback (c x : BitVec 32) : c + BitVec.ofInt 32 (x.toInt - c.toInt) = x := by
      rw [← BitVec.toInt_inj, BitVec.toInt_add, BitVec.toInt_ofInt, Int.add_bmod_bmod,
        add_sub_cancel, BitVec.toInt_bmod_cancel]
    unfold offset
    rw [hback, hback]

theorem nodup_square : a.square.Nodup := by
  rw [square_eq_map]
  refine List.Nodup.map_on (fun o ho o' ho' h => ?_) ((nodup_span _ _).product (nodup_span _ _))
  have hs := small_of_mem_offsets ho
  have hs' := small_of_mem_offsets ho'
  have hx := congrArg (fun p => p.x.toInt) h
  have hz := congrArg (fun p => p.z.toInt) h
  simp only [offset, toInt_add_ofInt a.small_x hs.1, toInt_add_ofInt a.small_x hs'.1] at hx
  simp only [offset, toInt_add_ofInt a.small_z hs.2, toInt_add_ofInt a.small_z hs'.2] at hz
  apply Prod.ext <;> omega

theorem length_square : a.square.length = (2 * a.radius + 1) ^ 2 := by
  have hside : ((a.radius : Int) + 1 - -a.radius).toNat = 2 * a.radius + 1 := by omega
  rw [square_eq_map, List.length_map]
  unfold offsets
  rw [List.length_product, length_span, hside, pow_two]

/-- The sort orders the positions by their key. -/
theorem pairwise_positions : a.positions.Pairwise fun p q => a.dist p ≤ a.dist q := by
  have h := @List.pairwise_mergeSort _ (fun p q => decide (a.dist p ≤ a.dist q))
    (by simp only [decide_eq_true_eq]; intros; omega)
    (by simp only [Bool.or_eq_true, decide_eq_true_eq]; intros; omega) a.square
  simp only [decide_eq_true_eq] at h
  exact h

theorem positions_perm : a.positions.Perm a.square :=
  List.mergeSort_perm _ _

theorem coversOnce_positions : CoversOnce a a.positions where
  once := positions_perm.nodup_iff.2 nodup_square
  covers p := by rw [positions_perm.mem_iff, mem_square]
  size := by rw [positions_perm.length_eq, length_square]
  nearest_first := by
    refine pairwise_positions.imp_of_mem fun {p q} hp hq h => ?_
    rw [← dist_eq_chebyshev (positions_perm.mem_iff.1 hp),
      ← dist_eq_chebyshev (positions_perm.mem_iff.1 hq)]
    exact_mod_cast h

theorem positions_ne_nil : a.positions ≠ [] := by
  rw [← List.length_pos_iff, coversOnce_positions.size]
  positivity

end Area

/-- **The bands cover the square once, the nearest chunks first.** -/
theorem coversOnce_preloadSpawn {S : Type} (generateParallel : S → List ChunkPos → Nat × S)
    (a : Area) (s : S) : CoversOnce a (preloadSpawn generateParallel a s).passed.flatten := by
  unfold preloadSpawn
  rw [flatten_bandLoop a.positions_ne_nil (Nat.zero_add _) le_rfl rfl]
  exact a.coversOnce_positions

end Apoptotic.SpawnPreload
