import Apoptotic.Lib.Expansions
import Apoptotic.Lib.ExtendedRationals
import Apoptotic.World.Redstone
import Mathlib.Data.List.AList

/-!
# Path finding

`find_path` of `mc-player/src/pathfind.rs`, on the chunks of the store and with the cache as a parameter.
The heap is any that lets out what costs least, and the cache is iterated in any order; coordinates and
costs wrap, as in the release build.

Principal results: `exists_findPath` — the search ends in every world; `expansions_law` — it expands at
most 256 cells exactly when it is not needed, or when at most 256 cells may lie on a path as short as any.
-/

open BestFirst

namespace Apoptotic.Pathfind

open Redstone (World chunkOf low blockIn isAir blockIn_new blockIn_of_height?)

/-! ## Cells -/

structure Point where
  x : ERat
  y : ERat
  z : ERat
  deriving DecidableEq

/-- `f as i32` -/
def asI32 : ERat → BitVec 32
  | .nan => 0#32
  | .negInf => BitVec.ofInt 32 (-2147483648)
  | .finite q => BitVec.ofInt 32 (saturate (if 0 ≤ q then ⌊q⌋ else ⌈q⌉))
  | .posInf => BitVec.ofInt 32 2147483647

@[ext] structure Cell where
  x : BitVec 32
  z : BitVec 32
  deriving DecidableEq, Repr

/-- `(p.x as i32, p.z as i32)` -/
def cellOf (p : Point) : Cell := ⟨asI32 p.x, asI32 p.z⟩

def isPassable (blockId : Nat) : Bool :=
  blockId ∈ [0, 31, 32, 33, 50, 78, 79, 83, 85, 96, 267, 268, 27, 28, 157] ∨
    37 ≤ blockId ∧ blockId ≤ 47

/-- Whether a mob whose feet are at `startY` can stand in the column, or jump onto its block.  A chunk
that is not loaded is not entered. -/
def passable (w : World) (startY : ERat) (c : Cell) : Bool :=
  match w (chunkOf ⟨c.x, 0#32, c.z⟩) with
  | some chunk =>
      let footY := asI32 startY
      let headY := footY + 1#32
      let foot := blockIn chunk ⟨c.x, footY, c.z⟩
      let head := blockIn chunk ⟨c.x, headY, c.z⟩
      isAir foot || isPassable foot.id.toNat || (!isAir foot && isAir head)
  | none => false

/-- The Manhattan distance. -/
def heuristic (target c : Cell) : BitVec 32 := (c.x - target.x).abs + (c.z - target.z).abs

def nodeKey (c : Cell) : BitVec 64 :=
  ((c.x.signExtend 64 &&& 0xFFFF#64) <<< 16) ||| (c.z.signExtend 64 &&& 0xFFFF#64)

/-- The 4 horizontal neighbours. -/
def neighbours (c : Cell) : List Cell :=
  [(1#32, 0#32), (-1#32, 0#32), (0#32, 1#32), (0#32, -1#32)].map fun d => ⟨c.x + d.1, c.z + d.2⟩

/-! ## The search -/

/-- `i32` arithmetic. -/
def wrapI32 (n : Int) : Int := (BitVec.ofInt 32 n).toInt

theorem wrapI32_eq (n : Int) (hn : 0 ≤ n) (hmax : n ≤ 2147483647) : wrapI32 n = n := by
  unfold wrapI32
  rw [BitVec.toInt_ofInt, Int.bmod_eq_of_le] <;> omega

theorem wrapI32_toInt (b : BitVec 32) : wrapI32 b.toInt = b.toInt := by
  unfold wrapI32
  rw [BitVec.ofInt_toInt]

theorem wrapI32_bmod (n : Int) : wrapI32 n = n.bmod (2 ^ 32) := by
  unfold wrapI32
  rw [BitVec.toInt_ofInt]

theorem wrapI32_sub (n : Int) (b : BitVec 32) (hn : 0 ≤ n) (hmax : n < 2147483647) :
    wrapI32 (wrapI32 (n + b.toInt) - b.toInt) = n := by
  have h : wrapI32 (wrapI32 (n + b.toInt) - b.toInt) = wrapI32 n := by
    simp only [wrapI32_bmod]
    rw [Int.bmod_sub_bmod, Int.add_sub_cancel]
  rw [h, wrapI32_eq n hn (by omega)]

theorem top_pos : (0 : Int) < 2147483647 := by decide

/-- The search of `find_path` for a path over the passable cells. -/
def problem (w : World) (start target : Point) : Problem Cell (BitVec 64) where
  key := nodeKey
  next c := (neighbours c).filter (passable w start.y)
  guess c := (heuristic (cellOf target) c).toInt
  wrap := wrapI32
  top := 2147483647
  start := cellOf start
  target := cellOf target
  top_pos := top_pos
  wrap_eq := wrapI32_eq
  wrap_guess c := wrapI32_toInt (heuristic (cellOf target) c)
  wrap_sub n c := wrapI32_sub n (heuristic (cellOf target) c)

/-- `(x as f64 + 0.5, target_y, z as f64 + 0.5)` -/
def waypoint (targetY : ERat) (c : Cell) : Point :=
  ⟨.finite (c.x.toInt + 1 / 2), targetY, .finite (c.z.toInt + 1 / 2)⟩

/-- The A* search: the waypoints if there is a path, and the cells that were expanded.  None out of
fuel. -/
def aStar (H : Heap Cell) (fuel : Nat) (w : World) (start target : Point) :
    Option (Option (List Point) × List Cell) :=
  let p := problem w start target
  (run p fuel (init p H)).bind fun (found, s) =>
    if found then
      (back p s.came fuel p.target).map fun path =>
        (some (path.reverse.map (waypoint target.y)), s.expanded)
    else some (none, s.expanded)

/-! ## The cache -/

/-- The chunks of the start and of the target. -/
abbrev CacheKey := Int × Int × Int × Int

/-- The waypoints and how often they have been asked for. -/
abbrev Cache := AList fun _ : CacheKey => List Point × BitVec 64

/-- The order in which the map is iterated. -/
structure Iteration where
  entries : Cache → List (Sigma fun _ : CacheKey => List Point × BitVec 64)
  perm : ∀ cache, (entries cache).Perm cache.entries

theorem entries_perm (cache : Cache) : cache.entries.Perm cache.entries := List.Perm.refl _

def inOrder : Iteration := ⟨AList.entries, entries_perm⟩

def CACHE_MAX : Nat := 64

def cacheKey (s t : Cell) : CacheKey := (s.x.toInt / 16, s.z.toInt / 16, t.x.toInt / 16, t.z.toInt / 16)

/-- The key of an entry that has been asked for least. -/
def oldestKey (iter : Iteration) (cache : Cache) : Option CacheKey :=
  (least (fun e => (e.2.2.toNat : Int)) (iter.entries cache)).map Sigma.fst

def evictOldest (iter : Iteration) (cache : Cache) : Cache :=
  match oldestKey iter cache with
  | some key => cache.erase key
  | none => cache

/-- Eight entries other than the new one are removed. -/
def cleanup (iter : Iteration) (key : CacheKey) (cache : Cache) : Cache :=
  ((((iter.entries cache).filter fun e => e.1 ≠ key).take 8).map Sigma.fst).foldl (fun c k => c.erase k) cache

/-- The loop that stores the waypoints, with the attempts that are left. -/
def store (iter : Iteration) (key : CacheKey) (waypoints : List Point) : Nat → Cache → Cache
  | attempts, cache =>
      if cache.entries.length < CACHE_MAX then cache.insert key (waypoints, 1#64)
      else
        let cache := (evictOldest iter cache).insert key (waypoints, 1#64)
        if cache.entries.length ≤ CACHE_MAX + 4 then cache
        else match attempts with
          | 0 => cleanup iter key cache
          | attempts + 1 => store iter key waypoints attempts cache

/-! ## `find_path` -/

/-- The path, the cache after the call, and the cells that were expanded. -/
structure Outcome where
  path : List Point
  cache : Cache
  expanded : List Cell

/-- The target is within one block. -/
def isNear (s t : Cell) : Prop := (s.x - t.x).abs.toInt ≤ 1 ∧ (s.z - t.z).abs.toInt ≤ 1

/-- The target is too far, and is chased directly. -/
def isFar (s t : Cell) : Prop := 16 < (s.x - t.x).abs.toInt ∨ 16 < (s.z - t.z).abs.toInt

instance (s t : Cell) : Decidable (isNear s t) := inferInstanceAs (Decidable (_ ∧ _))

instance (s t : Cell) : Decidable (isFar s t) := inferInstanceAs (Decidable (_ ∨ _))

def findPath (H : Heap Cell) (iter : Iteration) (fuel : Nat) (cache : Cache) (w : World)
    (start target : Point) : Option Outcome :=
  let s := cellOf start
  let t := cellOf target
  if isNear s t then some ⟨[target], cache, []⟩
  else if isFar s t then some ⟨[target], cache, []⟩
  else
    let key := cacheKey s t
    match cache.lookup key with
    | some (path, count) => some ⟨path, cache.insert key (path, count + 1#64), []⟩
    | none => (aStar H fuel w start target).map fun
        | (none, expanded) => ⟨[target], cache, expanded⟩
        | (some waypoints, expanded) =>
            ⟨waypoints, if waypoints = [] then cache else store iter key waypoints 3 cache, expanded⟩

/-! ## Distances -/

/-- How far two coordinates are apart, the shorter way round. -/
def offset (a b : BitVec 32) : Nat := (a - b).toInt.natAbs

/-- The Manhattan distance, which `heuristic` gives below 2^31. -/
def distance (target c : Cell) : Nat := offset c.x target.x + offset c.z target.z

theorem toNat_abs (d : BitVec 32) : d.abs.toNat = d.toInt.natAbs := by
  rw [BitVec.toNat_abs, BitVec.toInt_eq_msb_cond]
  have h := d.isLt
  split <;> omega

theorem toInt_abs (d : BitVec 32) :
    d.abs.toInt = if d.toInt.natAbs = 2147483648 then -2147483648 else (d.toInt.natAbs : Int) := by
  rw [BitVec.toInt_eq_toNat_cond, toNat_abs]
  have hlow := d.le_toInt
  have hhigh := d.toInt_lt
  split <;> split <;> omega

/-- A cost is a distance, wrapped. -/
theorem wrapI32_heuristic (n : Int) (target c : Cell) :
    wrapI32 (n + (heuristic target c).toInt) = (n + distance target c).bmod (2 ^ 32) := by
  have h : (heuristic target c).toNat = distance target c % 2 ^ 32 := by
    unfold heuristic distance offset
    rw [BitVec.toNat_add, toNat_abs, toNat_abs]
  rw [wrapI32_bmod, BitVec.toInt_eq_toNat_bmod, h, Int.add_bmod_bmod, Int.natCast_emod]
  exact Int.add_emod_bmod ..

theorem offset_step (a b d : BitVec 32) (hd : d = 1#32 ∨ d = -1#32) :
    offset a b ≤ offset (a + d) b + 1 ∧ offset (a + d) b ≤ offset a b + 1 := by
  unfold offset
  have h : a + d - b = a - b + d := by bv_omega
  rw [h, BitVec.toInt_add, Int.bmod_def]
  have hhigh := (a - b).toInt_lt
  have hlow := (a - b).le_toInt
  rcases hd with rfl | rfl
  · rw [show (1#32).toInt = 1 from rfl]
    split <;> omega
  · rw [show (-1#32).toInt = -1 from rfl]
    split <;> omega

theorem distance_neighbours {u v : Cell} (h : v ∈ neighbours u) (c : Cell) :
    distance c u ≤ distance c v + 1 ∧ distance c v ≤ distance c u + 1 := by
  simp only [neighbours, List.map_cons, List.map_nil, List.mem_cons, List.not_mem_nil, or_false] at h
  unfold distance
  rcases h with rfl | rfl | rfl | rfl
  · have hx := offset_step u.x c.x 1#32 (.inl rfl)
    simp only [BitVec.add_zero]
    omega
  · have hx := offset_step u.x c.x (-1#32) (.inr rfl)
    simp only [BitVec.add_zero]
    omega
  · have hz := offset_step u.z c.z 1#32 (.inl rfl)
    simp only [BitVec.add_zero]
    omega
  · have hz := offset_step u.z c.z (-1#32) (.inr rfl)
    simp only [BitVec.add_zero]
    omega

/-! ## Keys -/

theorem getLsbD_mask : ∀ j < 64, (0xFFFF#64).getLsbD j = decide (j < 16) := by decide

/-- The key holds the low 16 bits of both coordinates. -/
theorem extract_nodeKey (c : Cell) :
    (nodeKey c).extractLsb' 16 16 = c.x.setWidth 16 ∧ (nodeKey c).setWidth 16 = c.z.setWidth 16 := by
  constructor
  · apply BitVec.eq_of_getLsbD_eq
    intro i hi
    simp only [nodeKey, BitVec.getLsbD_extractLsb', BitVec.getLsbD_or, BitVec.getLsbD_shiftLeft,
      BitVec.getLsbD_and, BitVec.getLsbD_signExtend, BitVec.getLsbD_setWidth,
      getLsbD_mask (16 + i) (by omega), getLsbD_mask (16 + i - 16) (by omega)]
    simp [hi, show 16 + i < 64 by omega, show i < 64 by omega, show i < 32 by omega]
  · apply BitVec.eq_of_getLsbD_eq
    intro i hi
    simp only [nodeKey, BitVec.getLsbD_or, BitVec.getLsbD_shiftLeft, BitVec.getLsbD_and,
      BitVec.getLsbD_signExtend, BitVec.getLsbD_setWidth, getLsbD_mask i (by omega)]
    simp [hi, show i < 64 by omega, show i < 32 by omega]

theorem eq_of_low {s a b : BitVec 32} (ha : offset a s ≤ 256) (hb : offset b s ≤ 256)
    (h : a.setWidth 16 = b.setWidth 16) : a = b := by
  unfold offset at ha hb
  have h' := congrArg BitVec.toNat h
  rw [BitVec.toNat_setWidth, BitVec.toNat_setWidth] at h'
  rw [BitVec.toInt_sub, Int.bmod_def] at ha hb
  apply BitVec.eq_of_toNat_eq
  have h1 := a.isLt
  have h2 := b.isLt
  have h3 := s.isLt
  rw [BitVec.toInt_eq_toNat_cond, BitVec.toInt_eq_toNat_cond] at ha hb
  split at ha <;> split at hb <;> omega

/-- Cells within 256 steps of one have keys of their own. -/
theorem eq_of_nodeKey {s a b : Cell} (ha : distance s a ≤ 256) (hb : distance s b ≤ 256)
    (h : nodeKey a = nodeKey b) : a = b := by
  obtain ⟨hax, haz⟩ := extract_nodeKey a
  obtain ⟨hbx, hbz⟩ := extract_nodeKey b
  rw [h] at hax haz
  unfold distance at ha hb
  apply Cell.ext
  · exact eq_of_low (s := s.x) (by omega) (by omega) (hax.symm.trans hbx)
  · exact eq_of_low (s := s.z) (by omega) (by omega) (haz.symm.trans hbz)

/-! ## What the search gives -/

section Search

variable {H : Heap Cell} {w : World} {start target : Point}

instance finite_key : Finite (BitVec 64) :=
  Finite.of_injective BitVec.toFin fun _ _ h => BitVec.eq_of_toFin_eq h

/-- **What the search returns** is read off a finished search. -/
theorem aStar_eq_some {fuel : Nat} {r : Option (List Point) × List Cell} :
    aStar H fuel w start target = some r ↔
      ∃ found s, run (problem w start target) fuel (init (problem w start target) H) = some (found, s) ∧
        r.2 = s.expanded ∧
          (found = false ∧ r.1 = none ∨
            found = true ∧ ∃ path, back (problem w start target) s.came fuel (cellOf target) = some path ∧
              r.1 = some (path.reverse.map (waypoint target.y))) := by
  obtain ⟨path, expanded⟩ := r
  unfold aStar
  simp only [Option.bind_eq_some_iff, Prod.exists]
  constructor
  · rintro ⟨found, s, hrun, h⟩
    refine ⟨found, s, hrun, ?_⟩
    cases found with
    | false =>
        cases h
        exact ⟨rfl, .inl ⟨rfl, rfl⟩⟩
    | true =>
        obtain ⟨path', hback, heq⟩ := Option.map_eq_some_iff.1 h
        cases heq
        exact ⟨rfl, .inr ⟨rfl, path', hback, rfl⟩⟩
  · rintro ⟨found, s, hrun, rfl, ⟨rfl, rfl⟩ | ⟨rfl, path', hback, rfl⟩⟩
    · exact ⟨false, s, hrun, rfl⟩
    · refine ⟨true, s, hrun, ?_⟩
      rw [if_pos rfl]
      exact Option.map_eq_some_iff.2 ⟨path', hback, rfl⟩

/-- **The search ends** in every world, and so does the way back. -/
theorem exists_aStar (H : Heap Cell) (w : World) (start target : Point) :
    ∃ fuel, (aStar H fuel w start target).isSome := by
  obtain ⟨n, hn⟩ := exists_run (problem w start target) H
  obtain ⟨⟨found, s⟩, hrun⟩ := Option.isSome_iff_exists.1 hn
  have hsane : Sane (problem w start target) s := by
    obtain ⟨t, ht, -, hturn⟩ := run_induct (motive := fun _ => True) (fun _ _ _ _ _ => trivial)
      sane_init trivial hrun
    rcases turn_ends ht hturn with ⟨-, -, rfl⟩ | ⟨-, e, q, hpop, -, rfl⟩
    · exact ht
    · exact ht.withQueue hpop _
  obtain ⟨m, hm⟩ := exists_back hsane (cellOf target)
  obtain ⟨path, hback⟩ := Option.isSome_iff_exists.1 hm
  refine ⟨max n m, Option.isSome_iff_exists.2 ?_⟩
  have hrun' := run_mono (le_max_left n m) hrun
  cases found with
  | false => exact ⟨(none, s.expanded), aStar_eq_some.2 ⟨false, s, hrun', rfl, .inl ⟨rfl, rfl⟩⟩⟩
  | true =>
      exact ⟨(some (path.reverse.map (waypoint target.y)), s.expanded), aStar_eq_some.2
        ⟨true, s, hrun', rfl, .inr ⟨rfl, path, back_mono (le_max_right n m) hback, rfl⟩⟩⟩

end Search

section Calls

variable (H : Heap Cell) (iter : Iteration) (fuel : Nat) (cache : Cache) (w : World)
  (start target : Point)

theorem findPath_direct (h : isNear (cellOf start) (cellOf target) ∨ isFar (cellOf start) (cellOf target)) :
    findPath H iter fuel cache w start target = some ⟨[target], cache, []⟩ := by
  unfold findPath
  by_cases hnear : isNear (cellOf start) (cellOf target)
  · exact if_pos hnear
  · rw [if_neg hnear, if_pos (h.resolve_left hnear)]

variable (hnear : ¬ isNear (cellOf start) (cellOf target)) (hfar : ¬ isFar (cellOf start) (cellOf target))

include hnear hfar

theorem findPath_hit {entry : List Point × BitVec 64}
    (h : cache.lookup (cacheKey (cellOf start) (cellOf target)) = some entry) :
    findPath H iter fuel cache w start target =
      some ⟨entry.1, cache.insert (cacheKey (cellOf start) (cellOf target)) (entry.1, entry.2 + 1#64),
        []⟩ := by
  unfold findPath
  simp only [if_neg hnear, if_neg hfar, h]

theorem findPath_miss (h : cache.lookup (cacheKey (cellOf start) (cellOf target)) = none) :
    findPath H iter fuel cache w start target = (aStar H fuel w start target).map fun r =>
      match r with
      | (none, expanded) => ⟨[target], cache, expanded⟩
      | (some waypoints, expanded) =>
          ⟨waypoints, if waypoints = [] then cache
            else store iter (cacheKey (cellOf start) (cellOf target)) waypoints 3 cache, expanded⟩ := by
  unfold findPath
  simp only [if_neg hnear, if_neg hfar, h]

/-- What is expanded is what the search expands. -/
theorem findPath_expanded (h : cache.lookup (cacheKey (cellOf start) (cellOf target)) = none) :
    (findPath H iter fuel cache w start target).map Outcome.expanded =
      (aStar H fuel w start target).map Prod.snd := by
  rw [findPath_miss H iter fuel cache w start target hnear hfar h, Option.map_map]
  refine congrArg (fun f => (aStar H fuel w start target).map f) (funext fun r => ?_)
  obtain ⟨path, expanded⟩ := r
  cases path <;> rfl

end Calls

/-- **`find_path` returns** in every world, from every cache. -/
theorem exists_findPath (H : Heap Cell) (iter : Iteration) (cache : Cache) (w : World)
    (start target : Point) : ∃ fuel, (findPath H iter fuel cache w start target).isSome := by
  by_cases hdirect : isNear (cellOf start) (cellOf target) ∨ isFar (cellOf start) (cellOf target)
  · exact ⟨0, by rw [findPath_direct H iter 0 cache w start target hdirect]; rfl⟩
  · obtain ⟨hnear, hfar⟩ := not_or.1 hdirect
    cases hlookup : cache.lookup (cacheKey (cellOf start) (cellOf target)) with
    | some entry => exact ⟨0, by rw [findPath_hit H iter 0 cache w start target hnear hfar hlookup]; rfl⟩
    | none =>
        obtain ⟨fuel, hfuel⟩ := exists_aStar H w start target
        refine ⟨fuel, ?_⟩
        rw [findPath_miss H iter fuel cache w start target hnear hfar hlookup, Option.isSome_map]
        exact hfuel

/-! ## The bound -/

/-- The number of nodes that a search is to stay within. -/
def MAX_NODES : Nat := 256

/-- Whatever the order of equal costs is, the call returns and expands at most 256 cells. -/
def Bounded (iter : Iteration) (cache : Cache) (w : World) (start target : Point) : Prop :=
  ∀ H : Heap Cell, ∃ fuel r, findPath H iter fuel cache w start target = some r ∧
    r.expanded.length ≤ MAX_NODES

/-- At most 256 cells may lie on a path as short as any: those a walk of `n` steps leads to, such that no
walk to the target is shorter than `n` and the distance that is left. -/
def FewInner (w : World) (start target : Point) : Prop :=
  ∀ cells : List Cell, cells.Nodup →
    (∀ c ∈ cells, Inner (problem w start target) (distance (cellOf target)) c) →
      cells.length ≤ MAX_NODES

section Bound

variable {w : World} {start target : Point}

theorem distance_walk {n : Nat} {v : Cell} (h : Walk (problem w start target) n v) (c : Cell) :
    distance c (cellOf start) ≤ distance c v + n ∧ distance c v ≤ distance c (cellOf start) + n := by
  induction h with
  | start => exact ⟨le_refl _, le_refl _⟩
  | step _ hw ih =>
      have hstep := distance_neighbours (List.mem_of_mem_filter hw) c
      omega

theorem distance_self (c : Cell) : distance c c = 0 := by
  simp [distance, offset]

theorem apart_problem : Apart (problem w start target) 256 := by
  intro m n v v' hm hn hv hv' hkey
  have h := (distance_walk hv (cellOf start)).2
  have h' := (distance_walk hv' (cellOf start)).2
  rw [distance_self] at h h'
  exact eq_of_nodeKey (s := cellOf start) (by omega) (by omega) hkey

/-- The costs of a search: 2^32 off where the distance to the target does not fit. -/
theorem consistent_problem (hnear : ¬ isNear (cellOf start) (cellOf target))
    (hfar : ¬ isFar (cellOf start) (cellOf target)) :
    ∃ shift, Consistent (problem w start target) 256 (distance (cellOf target)) shift := by
  refine ⟨if distance (cellOf target) (cellOf start) < 2147483648 then 0 else -4294967296,
    distance_self _, fun u v hv => (distance_neighbours (List.mem_of_mem_filter hv) _).1, ?_,
    show (256 : Int) < 2147483647 by decide⟩
  intro n v hn hv
  obtain ⟨hlow, hhigh⟩ := distance_walk hv (cellOf target)
  have hstart : distance (cellOf target) (cellOf start) ≤ 32 ∨
      2147483650 ≤ distance (cellOf target) (cellOf start) ∧
        distance (cellOf target) (cellOf start) ≤ 2147483664 := by
    unfold isNear at hnear
    unfold isFar at hfar
    rw [toInt_abs, toInt_abs] at hnear hfar
    unfold distance offset
    split at hnear <;> split at hnear <;> omega
  change wrapI32 (n + (heuristic (cellOf target) v).toInt) = _
  rw [wrapI32_heuristic, Int.bmod_def]
  split <;> split <;> omega

/-- A call that has to search is bounded exactly when its search is. -/
theorem bounded_miss (iter : Iteration) {cache : Cache}
    (hnear : ¬ isNear (cellOf start) (cellOf target)) (hfar : ¬ isFar (cellOf start) (cellOf target))
    (h : cache.lookup (cacheKey (cellOf start) (cellOf target)) = none) :
    Bounded iter cache w start target ↔ FewInner w start target := by
  obtain ⟨shift, hc⟩ := consistent_problem (w := w) hnear hfar
  rw [FewInner, MAX_NODES, ← expanded_le_iff hc apart_problem]
  refine forall_congr' fun H => ?_
  have hexpanded := fun fuel => findPath_expanded H iter fuel cache w start target hnear hfar h
  constructor
  · rintro ⟨fuel, r, hr, hlen⟩
    have hmap := hexpanded fuel
    rw [hr, Option.map_some, eq_comm, Option.map_eq_some_iff] at hmap
    obtain ⟨r', hr', heq⟩ := hmap
    obtain ⟨found, s, hrun, hsame, -⟩ := aStar_eq_some.1 hr'
    exact ⟨fuel, found, s, hrun, by rwa [← hsame, heq]⟩
  · rintro ⟨n, found, s, hrun, hlen⟩
    obtain ⟨fuel, hfuel⟩ := exists_aStar H w start target
    obtain ⟨r', hr'⟩ := Option.isSome_iff_exists.1 hfuel
    obtain ⟨found', s', hrun', hsame, -⟩ := aStar_eq_some.1 hr'
    have heq := (run_mono (le_max_left n fuel) hrun).symm.trans (run_mono (le_max_right n fuel) hrun')
    cases heq
    have hmap := hexpanded fuel
    rw [hr', Option.map_some, Option.map_eq_some_iff] at hmap
    obtain ⟨r, hr, heq⟩ := hmap
    exact ⟨fuel, r, hr, by rwa [heq, hsame]⟩

end Bound

/-- **The expansions**: the call returns in every world, and expands at most 256 cells, whatever the
order of equal costs, exactly when it does not search or few cells are inner. -/
theorem expansions_law (iter : Iteration) (cache : Cache) (w : World) (start target : Point) :
    (∀ H, ∃ fuel, (findPath H iter fuel cache w start target).isSome) ∧
      (Bounded iter cache w start target ↔
        isNear (cellOf start) (cellOf target) ∨ isFar (cellOf start) (cellOf target) ∨
          (cache.lookup (cacheKey (cellOf start) (cellOf target))).isSome ∨
            FewInner w start target) := by
  refine ⟨fun H => exists_findPath H iter cache w start target, ?_⟩
  by_cases hdirect : isNear (cellOf start) (cellOf target) ∨ isFar (cellOf start) (cellOf target)
  · refine iff_of_true (fun H => ⟨0, _, findPath_direct H iter 0 cache w start target hdirect, ?_⟩) ?_
    · exact Nat.zero_le _
    · rw [← or_assoc]
      exact .inl hdirect
  · obtain ⟨hnear, hfar⟩ := not_or.1 hdirect
    simp only [hnear, hfar, false_or]
    cases hlookup : cache.lookup (cacheKey (cellOf start) (cellOf target)) with
    | some entry =>
        refine iff_of_true (fun H => ⟨0, _, findPath_hit H iter 0 cache w start target hnear hfar hlookup,
          Nat.zero_le _⟩) (.inl rfl)
    | none =>
        rw [bounded_miss iter hnear hfar hlookup, Option.isSome_none]
        simp

/-! ## A player on a pillar -/

theorem foot_le : -64 ≤ (64 : Int) ∧ (64 : Int) ≤ 319 := by decide

theorem head_le : -64 ≤ (65 : Int) ∧ (65 : Int) ≤ 319 := by decide

def stone : BlockState := BlockState.new 1#32

def emptyChunk (cp : ChunkPos) : ReachableChunk := ⟨Chunk.new cp, .new cp⟩

/-- A chunk of air with a pillar of two blocks of stone. -/
def pillarChunk : ReachableChunk :=
  ((emptyChunk ⟨-1#32, 0#32⟩).setBlock (low (-3#32)) (low 0#32) ⟨64, foot_le⟩ stone).setBlock
    (low (-3#32)) (low 0#32) ⟨65, head_le⟩ stone

/-- It and a chunk of air are loaded. -/
def pillarWorld : World := fun cp =>
  if cp = ⟨0#32, 0#32⟩ then some (emptyChunk cp)
  else if cp = ⟨-1#32, 0#32⟩ then some pillarChunk
  else none

def pillarStart : Point := ⟨.finite (-1), .finite 64, .finite 0⟩

/-- The player on the pillar. -/
def pillarTarget : Point := ⟨.finite (-3), .finite 66, .finite 0⟩

theorem passable_plain (i k : Fin 16) :
    passable pillarWorld pillarStart.y ⟨BitVec.ofNat 32 i, BitVec.ofNat 32 k⟩ = true := by
  have hchunk : ∀ i k : Fin 16, chunkOf ⟨BitVec.ofNat 32 i, 0#32, BitVec.ofNat 32 k⟩ = ⟨0#32, 0#32⟩ := by
    decide
  unfold passable
  rw [hchunk i k]
  simp [pillarWorld, emptyChunk, blockIn_new, isAir]
  decide

theorem id_pillarChunk :
    (blockIn pillarChunk ⟨-3#32, 64#32, 0#32⟩).id = 1#32 ∧
      (blockIn pillarChunk ⟨-3#32, 65#32, 0#32⟩).id = 1#32 := by
  have hfit : stone.id.toNat < 2 ^ GLOBAL_BITS := by decide
  constructor
  · rw [blockIn_of_height? (y := ⟨64, foot_le⟩) rfl]
    have hself := (emptyChunk ⟨-1#32, 0#32⟩).id_getBlock_setBlock_self (low (-3#32)) (low 0#32)
      ⟨64, foot_le⟩ hfit
    have hsmall := lt_of_eq_of_lt (congrArg BitVec.toNat hself) hfit
    exact (ReachableChunk.id_getBlock_setBlock_of_ne _ stone (by decide) hsmall).trans hself
  · rw [blockIn_of_height? (y := ⟨65, head_le⟩) rfl]
    exact ReachableChunk.id_getBlock_setBlock_self _ _ _ ⟨65, head_le⟩ hfit

theorem not_passable_pillar : passable pillarWorld pillarStart.y (cellOf pillarTarget) = false := by
  have hcell : cellOf pillarTarget = ⟨-3#32, 0#32⟩ := by decide
  have hfeet : asI32 pillarStart.y = 64#32 := by decide
  have hchunk : pillarWorld (chunkOf ⟨-3#32, 0#32, 0#32⟩) = some pillarChunk := rfl
  obtain ⟨hfoot, hhead⟩ := id_pillarChunk
  unfold passable
  simp only [hcell, hfeet, hchunk]
  rw [show 64#32 + 1#32 = 65#32 from rfl]
  unfold isAir
  rw [hfoot, hhead]
  decide

theorem not_walk_pillar {n : Nat} :
    ¬ Walk (problem pillarWorld pillarStart pillarTarget) n (cellOf pillarTarget) := by
  intro h
  generalize hv : cellOf pillarTarget = v at h
  cases h with
  | start => exact absurd hv (by decide)
  | step _ hw =>
      have hpass := List.of_mem_filter hw
      rw [← hv] at hpass
      exact absurd (hpass.symm.trans not_passable_pillar) (by decide)

/-- A column of the chunk of air. -/
def column (p : Fin 16 × Fin 16) : Cell := ⟨BitVec.ofNat 32 p.1, BitVec.ofNat 32 p.2⟩

theorem column_injective : Function.Injective column := by
  intro p q h
  have hx := congrArg (fun c : Cell => c.x.toNat) h
  have hz := congrArg (fun c : Cell => c.z.toNat) h
  simp only [column, BitVec.toNat_ofNat] at hx hz
  apply Prod.ext <;> apply Fin.ext <;> omega

/-- Every column is walked to: along the first row, and then to the side. -/
theorem walk_column (p : Fin 16 × Fin 16) :
    ∃ n, Walk (problem pillarWorld pillarStart pillarTarget) n (column p) := by
  have hnext : ∀ u (q : Fin 16 × Fin 16), column q ∈ neighbours u →
      column q ∈ (problem pillarWorld pillarStart pillarTarget).next u :=
    fun u q hq => List.mem_filter.2 ⟨hq, passable_plain q.1 q.2⟩
  have hrow : ∀ i (hi : i < 16),
      Walk (problem pillarWorld pillarStart pillarTarget) (i + 1) (column (⟨i, hi⟩, 0)) := by
    intro i
    induction i with
    | zero => exact fun _ => .step .start (hnext _ (0, 0) (by decide))
    | succ i ih =>
        intro hi
        refine .step (ih (by omega)) (hnext _ _ ?_)
        simp [neighbours, column, BitVec.ofNat_add]
  have hcolumn : ∀ k (hk : k < 16),
      Walk (problem pillarWorld pillarStart pillarTarget) (p.1 + 1 + k) (column (p.1, ⟨k, hk⟩)) := by
    intro k
    induction k with
    | zero => exact fun _ => hrow p.1 p.1.2
    | succ k ih =>
        intro hk
        refine .step (ih (by omega)) (hnext _ _ ?_)
        simp [neighbours, column, BitVec.ofNat_add]
  exact ⟨_, hcolumn p.2 p.2.2⟩

/-- The mob can walk to the 256 columns of the chunk of air, and not to the player. -/
theorem not_fewInner_pillar : ¬ FewInner pillarWorld pillarStart pillarTarget := by
  intro h
  have hstart : cellOf pillarStart ∉ (List.finRange 16 ×ˢ List.finRange 16).map column := by
    intro hmem
    obtain ⟨p, -, hp⟩ := List.mem_map.1 hmem
    have hx := congrArg (fun c : Cell => c.x.toNat) hp
    rw [show (cellOf pillarStart).x.toNat = 4294967295 by decide] at hx
    simp only [column, BitVec.toNat_ofNat] at hx
    omega
  have hlen := h (cellOf pillarStart :: (List.finRange 16 ×ˢ List.finRange 16).map column) ?_ ?_
  · rw [List.length_cons, List.length_map, List.length_product, List.length_finRange] at hlen
    exact absurd hlen (by decide)
  · exact List.nodup_cons.2 ⟨hstart,
      ((List.nodup_finRange 16).product (List.nodup_finRange 16)).map column_injective⟩
  · intro c hc
    rcases List.mem_cons.1 hc with rfl | hc
    · exact ⟨by decide, 0, .start, fun m hm => absurd hm not_walk_pillar⟩
    · obtain ⟨p, -, rfl⟩ := List.mem_map.1 hc
      obtain ⟨n, hn⟩ := walk_column p
      refine ⟨fun heq => not_walk_pillar (heq ▸ hn), n, hn, fun m hm => absurd hm not_walk_pillar⟩

/-- The mob expands more than 256 cells before the player on the pillar is chased directly. -/
theorem pillar_unbounded : ¬ Bounded inOrder ∅ pillarWorld pillarStart pillarTarget := by
  rw [bounded_miss inOrder (by decide) (by decide) rfl]
  exact not_fewInner_pillar

end Apoptotic.Pathfind
