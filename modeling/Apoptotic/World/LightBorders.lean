import Apoptotic.Lib.Search
import Apoptotic.World.SkyLight

/-!
# Light at the borders of chunks

`propagate_lighting_cross_chunk` and `propagate_lighting_across_chunks` of
`mc-world/src/lighting.rs`, over the chunks in memory.  Both run the functions of one chunk on
chunks next to each other; no level is handed from one chunk to the next.

Principal results: `propagateLightingAcrossChunks_eq` — each chunk that the search visits is lit by
its own emitters, and the others are left; `lightCrosses_iff` — when that is what the borders need.
-/

namespace Apoptotic

open Flood Bytes

/-- The chunks in memory. -/
abbrev Loaded := ChunkPos → Option Sections

/-- `if let Some(mut chunk) = chunk_store.get_mut(&cp)`. -/
def withChunk (loaded : Loaded) (cp : ChunkPos) (f : Sections → Sections) : Loaded :=
  Function.update loaded cp ((loaded cp).map f)

inductive Side where
  | west
  | east
  | north
  | south
  deriving DecidableEq

namespace Side

def all : List Side := [.west, .east, .north, .south]

def neighbor (cp : ChunkPos) : Side → ChunkPos
  | .west => ⟨cp.x - 1, cp.z⟩
  | .east => ⟨cp.x + 1, cp.z⟩
  | .north => ⟨cp.x, cp.z - 1⟩
  | .south => ⟨cp.x, cp.z + 1⟩

/-- The coordinates at the two ends of a chunk. -/
def firstCoord : Fin 16 := ⟨0, zero_lt_sixteen⟩

theorem fifteen_lt_sixteen : 15 < 16 := by decide

def lastCoord : Fin 16 := ⟨15, fifteen_lt_sixteen⟩

/-- The spot next to `p` on the other side of the border, when `p` is at that border. -/
def across (p : Spot) : Side → Option Spot
  | .west => if p.x.val = 0 then some { p with x := lastCoord } else none
  | .east => if p.x.val = 15 then some { p with x := firstCoord } else none
  | .north => if p.z.val = 0 then some { p with z := lastCoord } else none
  | .south => if p.z.val = 15 then some { p with z := firstCoord } else none

/-- `edge_z * 16 + edge_x`, the byte that is sampled. -/
def edge : Side → Nat
  | .west => 8 * 16 + 0
  | .east => 8 * 16 + 15
  | .north => 0 * 16 + 8
  | .south => 15 * 16 + 8

end Side

/-! ## Across one border -/

def repairColumn (isRemove : Bool) (p : Spot) (s : Sections) : Sections :=
  propagateBlockLight (if isRemove then recalcSkyLightOnRemove s p else recalcSkyLightOnPlace s p)

/-- One of the four checks of `propagate_lighting_cross_chunk`. -/
def crossSide (cp : ChunkPos) (p : Spot) (isRemove : Bool) (loaded : Loaded) (side : Side) : Loaded :=
  match side.across p with
  | some q => withChunk loaded (side.neighbor cp) (repairColumn isRemove q)
  | none => loaded

def propagateLightingCrossChunk (loaded : Loaded) (cp : ChunkPos) (p : Spot) (isRemove : Bool) :
    Loaded := Side.all.foldl (crossSide cp p isRemove) loaded

/-! ## Across chunks -/

/-- Light strong enough to leave by a side, from one byte of each section. -/
def hasLight (s : Sections) (side : Side) : Bool :=
  (List.finRange SECTIONS_PER_CHUNK).any fun sy =>
    (s sy).any fun sec =>
      let b := sec.blockLight.val.getD side.edge 0#8
      decide (3#8 < b &&& 0x0F#8) || decide (3#8 < b >>> 4)

structure Spread where
  pending : List (ChunkPos × Nat)
  visited : Finset ChunkPos
  loaded : Loaded

/-- Phase 2: the neighbours that the light of a chunk reaches. -/
def neighborInfo (loaded : Loaded) (visited : Finset ChunkPos) (cp : ChunkPos) : List ChunkPos :=
  match loaded cp with
  | some s => (Side.all.filter fun side =>
      decide (side.neighbor cp ∉ visited) && hasLight s side).map fun side => side.neighbor cp
  | none => []

/-- Phase 3 for one neighbour. -/
def enqueue (depth : Nat) (st : Spread) (ncp : ChunkPos) : Spread where
  pending := st.pending ++ [(ncp, depth + 1)]
  visited := insert ncp st.visited
  loaded := withChunk st.loaded ncp propagateBlockLight

/-- The three phases for one chunk. -/
def visitChunk (st : Spread) (cp : ChunkPos) (depth : Nat) : Spread :=
  let loaded := withChunk st.loaded cp propagateBlockLight
  (neighborInfo loaded st.visited cp).foldl (enqueue depth) { st with loaded := loaded }

def Spread.weight (st : Spread) : Nat := (st.pending.map fun node => 5 ^ (3 - node.2)).sum

theorem pending_foldl_enqueue (depth : Nat) (ncps : List ChunkPos) (st : Spread) :
    (ncps.foldl (enqueue depth) st).pending = st.pending ++ ncps.map fun ncp => (ncp, depth + 1) := by
  induction ncps generalizing st with
  | nil => exact (List.append_nil _).symm
  | cons ncp ncps ih =>
      rw [List.foldl_cons, ih, enqueue, List.map_cons, List.append_assoc]
      rfl

theorem length_neighborInfo (loaded : Loaded) (visited : Finset ChunkPos) (cp : ChunkPos) :
    (neighborInfo loaded visited cp).length ≤ 4 := by
  unfold neighborInfo
  split
  · rw [List.length_map]
    exact List.length_filter_le _ Side.all
  · exact Nat.zero_le _

theorem weight_visitChunk_lt (st : Spread) (cp : ChunkPos) {depth : Nat} (h : ¬ 3 ≤ depth) :
    (visitChunk st cp depth).weight < 5 ^ (3 - depth) + st.weight := by
  unfold visitChunk Spread.weight
  dsimp only
  rw [pending_foldl_enqueue, List.map_append, List.sum_append, List.map_map, Nat.add_comm]
  refine Nat.add_lt_add_right ?_ _
  change ((neighborInfo _ _ _).map fun _ => 5 ^ (3 - (depth + 1))).sum < _
  rw [List.map_const', List.sum_replicate_nat]
  have hlen := length_neighborInfo (withChunk st.loaded cp propagateBlockLight) st.visited cp
  have hpow : 5 ^ (3 - depth) = 5 * 5 ^ (3 - (depth + 1)) := by
    rw [← pow_succ', show 3 - depth = 3 - (depth + 1) + 1 by omega]
  rw [hpow]
  exact Nat.mul_lt_mul_of_pos_right (by omega) (Nat.pow_pos (by decide))

/-- `while let Some((cp, depth)) = pending_chunks.pop_front()`. -/
def Spread.run (st : Spread) : Loaded :=
  match _h : st.pending with
  | [] => st.loaded
  | (cp, depth) :: pending =>
      if 3 ≤ depth then Spread.run { st with pending := pending }
      else Spread.run (visitChunk { st with pending := pending } cp depth)
termination_by st.weight
decreasing_by
  · unfold Spread.weight
    rw [_h, List.map_cons, List.sum_cons]
    exact Nat.lt_add_of_pos_left (Nat.pow_pos (by decide))
  · rename_i hd
    refine Nat.lt_of_lt_of_eq (weight_visitChunk_lt _ cp hd) ?_
    unfold Spread.weight
    rw [_h, List.map_cons, List.sum_cons]

def propagateLightingAcrossChunks (loaded : Loaded) (start : ChunkPos) : Loaded :=
  Spread.run ⟨[(start, 0)], {start}, loaded⟩

/-! ## What the search leaves -/

/-- The chunks of a set lit by their own emitters. -/
def litOn (visited : Finset ChunkPos) (loaded : Loaded) : Loaded := fun cp =>
  if cp ∈ visited then (loaded cp).map propagateBlockLight else loaded cp

theorem withChunk_litOn (visited : Finset ChunkPos) (loaded : Loaded) (cp : ChunkPos) :
    withChunk (litOn visited loaded) cp propagateBlockLight = litOn (insert cp visited) loaded := by
  funext c
  unfold withChunk litOn
  by_cases hc : c = cp
  · subst hc
    rw [Function.update_self, if_pos (Finset.mem_insert_self _ _)]
    split
    · rw [Option.map_map]
      exact Option.map_congr fun s _ => propagateBlockLight_idem s
    · rfl
  · rw [Function.update_of_ne hc]
    refine if_congr ?_ rfl rfl
    rw [Finset.mem_insert, or_iff_right hc]

/-- The neighbours that the own light of a chunk reaches. -/
def lightNext (loaded : Loaded) (cp : ChunkPos) : List ChunkPos :=
  match loaded cp with
  | some s => (Side.all.filter fun side => hasLight (propagateBlockLight s) side).map fun side =>
      side.neighbor cp
  | none => []

def lightNetwork (loaded : Loaded) : Network ChunkPos where
  next := lightNext loaded
  width := 4
  length_next_le cp := by
    unfold lightNext
    split
    · rw [List.length_map]
      exact List.length_filter_le _ Side.all
    · exact Nat.zero_le _

/-- What is sampled is the own light of the chunk. -/
theorem neighborInfo_litOn {visited : Finset ChunkPos} {cp : ChunkPos} (h : cp ∈ visited)
    (loaded : Loaded) : neighborInfo (litOn visited loaded) visited cp =
      Search.fresh (lightNetwork loaded) visited cp := by
  have hlit : litOn visited loaded cp = (loaded cp).map propagateBlockLight := if_pos h
  have hnext : (lightNetwork loaded).next cp = lightNext loaded cp := rfl
  unfold neighborInfo Search.fresh
  rw [hlit, hnext]
  unfold lightNext
  cases loaded cp with
  | none => rfl
  | some s =>
      dsimp only [Option.map_some]
      rw [List.filter_map, List.filter_filter]
      rfl

theorem foldl_enqueue (depth : Nat) (ncps : List ChunkPos) (pending : List (ChunkPos × Nat))
    (visited : Finset ChunkPos) (loaded : Loaded) :
    ncps.foldl (enqueue depth) ⟨pending, visited, litOn visited loaded⟩ =
      ⟨pending ++ ncps.map fun ncp => (ncp, depth + 1), visited ∪ ncps.toFinset,
        litOn (visited ∪ ncps.toFinset) loaded⟩ := by
  induction ncps generalizing pending visited with
  | nil => simp
  | cons ncp ncps ih =>
      rw [List.foldl_cons, enqueue, withChunk_litOn]
      dsimp only
      rw [ih, List.append_assoc, List.toFinset_cons, Finset.insert_union, Finset.union_insert]
      rfl

/-- The loop is the search of `Lib/Search`, with each chunk found lit. -/
theorem run_litOn (loaded : Loaded) (pending : List (ChunkPos × Nat)) (visited : Finset ChunkPos)
    (h : ∀ node ∈ pending, node.1 ∈ visited) :
    Spread.run ⟨pending, visited, litOn visited loaded⟩ =
      litOn (Search.run (lightNetwork loaded) 3 pending visited) loaded := by
  induction pending, visited using Search.run.induct (lightNetwork loaded) 3 with
  | case1 visited => rw [Spread.run, Search.run]
  | case2 cp depth pending visited hd ih =>
      rw [Spread.run, Search.run]
      dsimp only
      rw [if_pos hd, if_pos hd]
      exact ih fun node hnode => h node (List.mem_cons_of_mem _ hnode)
  | case3 cp depth pending visited hd ih =>
      have hcp : cp ∈ visited := h _ List.mem_cons_self
      have hvisit : visitChunk ⟨pending, visited, litOn visited loaded⟩ cp depth =
          ⟨pending ++ (Search.fresh (lightNetwork loaded) visited cp).map fun w => (w, depth + 1),
            visited ∪ (Search.fresh (lightNetwork loaded) visited cp).toFinset,
            litOn (visited ∪ (Search.fresh (lightNetwork loaded) visited cp).toFinset) loaded⟩ := by
        unfold visitChunk
        dsimp only
        rw [withChunk_litOn, Finset.insert_eq_of_mem hcp, neighborInfo_litOn hcp, foldl_enqueue]
      rw [Spread.run, Search.run]
      dsimp only
      rw [if_neg hd, if_neg hd, hvisit]
      refine ih fun node hnode => ?_
      rcases List.mem_append.1 hnode with hold | hnew
      · exact Finset.mem_union_left _ (h node (List.mem_cons_of_mem _ hold))
      · obtain ⟨w, hw, rfl⟩ := List.mem_map.1 hnew
        exact Finset.mem_union_right _ (List.mem_toFinset.2 hw)

/-- A chunk at most three steps from the start, each to a side that the own light of a chunk
    reaches. -/
def InReach (loaded : Loaded) (start cp : ChunkPos) : Prop :=
  ∃ k ≤ 3, Search.Steps (lightNetwork loaded) start k cp

open Classical in
/-- **The search lights each chunk in reach by its own emitters and leaves the others.** -/
theorem propagateLightingAcrossChunks_eq (loaded : Loaded) (start cp : ChunkPos) :
    propagateLightingAcrossChunks loaded start cp =
      if InReach loaded start cp then (loaded cp).map propagateBlockLight else loaded cp := by
  -- The first visit floods the start, so that it could have been flooded before.
  have hstart : propagateLightingAcrossChunks loaded start =
      Spread.run ⟨[(start, 0)], {start}, litOn {start} loaded⟩ := by
    have hempty : litOn ∅ loaded = loaded := funext fun c => if_neg (Finset.notMem_empty c)
    have hone : withChunk loaded start propagateBlockLight = litOn {start} loaded := by
      conv_lhs => rw [← hempty, withChunk_litOn]
      rfl
    have htwo : withChunk (litOn {start} loaded) start propagateBlockLight =
        litOn {start} loaded := by
      rw [withChunk_litOn, Finset.insert_eq_of_mem (Finset.mem_singleton_self _)]
    unfold propagateLightingAcrossChunks
    rw [Spread.run, Spread.run]
    dsimp only
    rw [if_neg (by decide), if_neg (by decide), visitChunk, visitChunk]
    dsimp only
    rw [hone, htwo]
  have hmem : ∀ node ∈ [(start, 0)], node.1 ∈ ({start} : Finset ChunkPos) := by
    intro node hnode
    rw [List.mem_singleton.1 hnode]
    exact Finset.mem_singleton_self _
  rw [hstart, run_litOn loaded _ _ hmem]
  unfold litOn
  exact if_congr Search.mem_search rfl rfl

/-! ## What one edit leaves -/

theorem Side.neighbor_injective (cp : ChunkPos) : Function.Injective (Side.neighbor cp) := by
  intro a b h
  obtain ⟨x, z⟩ := cp
  cases a <;> cases b <;> simp only [Side.neighbor, ChunkPos.mk.injEq] at h <;>
    first | rfl | (exfalso; obtain ⟨h1, h2⟩ := h; bv_omega)

theorem Side.mem_all (side : Side) : side ∈ Side.all := by cases side <;> decide

theorem crossSide_of_ne {cp c : ChunkPos} {side : Side} (h : c ≠ side.neighbor cp) (p : Spot)
    (isRemove : Bool) (loaded : Loaded) : crossSide cp p isRemove loaded side c = loaded c := by
  unfold crossSide
  cases side.across p with
  | some q => exact Function.update_of_ne h _ _
  | none => rfl

theorem foldl_crossSide_of_ne {cp c : ChunkPos} {sides : List Side}
    (h : ∀ side ∈ sides, c ≠ side.neighbor cp) (p : Spot) (isRemove : Bool) (loaded : Loaded) :
    sides.foldl (crossSide cp p isRemove) loaded c = loaded c := by
  induction sides generalizing loaded with
  | nil => rfl
  | cons side sides ih =>
      rw [List.foldl_cons, ih fun other hother => h other (List.mem_cons_of_mem _ hother)]
      exact crossSide_of_ne (h side List.mem_cons_self) p isRemove loaded

/-- A neighbour is changed by the check of its own side. -/
theorem foldl_crossSide (cp : ChunkPos) (p : Spot) (isRemove : Bool) (side : Side)
    {sides : List Side} (hnd : sides.Nodup) (hside : side ∈ sides) (loaded : Loaded) :
    sides.foldl (crossSide cp p isRemove) loaded (side.neighbor cp) =
      match side.across p with
      | some q => (loaded (side.neighbor cp)).map (repairColumn isRemove q)
      | none => loaded (side.neighbor cp) := by
  induction sides generalizing loaded with
  | nil => cases hside
  | cons first sides ih =>
      obtain ⟨hfirst, hrest⟩ := List.nodup_cons.1 hnd
      rw [List.foldl_cons]
      rcases List.mem_cons.1 hside with rfl | htail
      · have hothers : ∀ other ∈ sides, side.neighbor cp ≠ other.neighbor cp := by
          intro other hother h
          obtain rfl := Side.neighbor_injective cp h
          exact hfirst hother
        rw [foldl_crossSide_of_ne hothers]
        unfold crossSide
        cases side.across p with
        | some q => exact Function.update_self _ _ _
        | none => rfl
      · have hne : side.neighbor cp ≠ first.neighbor cp := by
          intro h
          obtain rfl := Side.neighbor_injective cp h
          exact hfirst htail
        rw [ih hrest htail, crossSide_of_ne hne]

theorem propagateLightingCrossChunk_neighbor (loaded : Loaded) (cp : ChunkPos) (p : Spot)
    (isRemove : Bool) (side : Side) :
    propagateLightingCrossChunk loaded cp p isRemove (side.neighbor cp) =
      match side.across p with
      | some q => (loaded (side.neighbor cp)).map (repairColumn isRemove q)
      | none => loaded (side.neighbor cp) :=
  foldl_crossSide cp p isRemove side (by decide) (Side.mem_all side) loaded

theorem propagateLightingCrossChunk_of_ne {cp c : ChunkPos} (h : ∀ side, c ≠ Side.neighbor cp side)
    (loaded : Loaded) (p : Spot) (isRemove : Bool) :
    propagateLightingCrossChunk loaded cp p isRemove c = loaded c :=
  foldl_crossSide_of_ne (fun side _ => h side) p isRemove loaded

/-- The repair of a column writes the levels that are there. -/
def Unmoved (isRemove : Bool) (s : Sections) (p : Spot) : Prop :=
  ∀ q light, q.x = p.x → q.z = p.z → p.row ≤ q.row → skyAt s q = some light →
    if isRemove then
      opaqueFrom s p q.row = 0 ∨ opaqueFrom s p q.row < lightAbove s p →
        light = dim (lightAbove s p) (opaqueFrom s p q.row)
    else
      (∀ t, p.row < t → t < q.row → opaqueAt s ⟨p.x, t, p.z⟩ = false) → light = NO_LIGHT

theorem unmoved_iff (isRemove : Bool) (s : Sections) (p : Spot) :
    Unmoved isRemove s p ↔ ∀ q, skyAt (repairColumn isRemove p s) q = skyAt s q := by
  have hmap : ∀ (q : Spot) (level : Fin 16), (skyAt s q).map (fun _ => level) = skyAt s q ↔
      ∀ light, skyAt s q = some light → light = level := by
    intro q level
    cases skyAt s q with
    | none =>
        constructor
        · intro _ light h
          cases h
        · exact fun _ => rfl
    | some light =>
        constructor
        · intro h light' h'
          cases h'
          exact (Option.some.inj h).symm
        · intro h
          exact congrArg some (h light rfl).symm
  unfold Unmoved
  refine forall_congr' fun q => ?_
  unfold repairColumn
  rw [skyAt_propagateBlockLight]
  cases isRemove with
  | true =>
      rw [if_pos rfl, skyAt_recalcSkyLightOnRemove]
      by_cases hq : q.x = p.x ∧ q.z = p.z ∧ p.row ≤ q.row ∧
          (opaqueFrom s p q.row = 0 ∨ opaqueFrom s p q.row < lightAbove s p)
      · obtain ⟨hx, hz, hrow, hleft⟩ := hq
        rw [if_pos ⟨hx, hz, hrow, hleft⟩, hmap]
        exact ⟨fun h light hl => h light hx hz hrow hl hleft, fun h light _ _ _ hl _ => h light hl⟩
      · rw [if_neg hq]
        exact ⟨fun _ => rfl, fun _ light hx hz hrow _ hleft => absurd ⟨hx, hz, hrow, hleft⟩ hq⟩
  | false =>
      rw [if_neg Bool.false_ne_true, skyAt_recalcSkyLightOnPlace]
      by_cases hq : q.x = p.x ∧ q.z = p.z ∧ p.row ≤ q.row ∧
          ∀ t, p.row < t → t < q.row → opaqueAt s ⟨p.x, t, p.z⟩ = false
      · obtain ⟨hx, hz, hrow, hclear⟩ := hq
        rw [if_pos ⟨hx, hz, hrow, hclear⟩, hmap]
        exact ⟨fun h light hl => h light hx hz hrow hl hclear, fun h light _ _ _ hl _ => h light hl⟩
      · rw [if_neg hq]
        exact ⟨fun _ => rfl, fun _ light hx hz hrow _ hclear => absurd ⟨hx, hz, hrow, hclear⟩ hq⟩

/-! ## Borders -/

def Near (l l' : Fin 16) : Prop := l.val ≤ l'.val + 1 ∧ l'.val ≤ l.val + 1

/-- The border of two chunks is smooth at every pair of transparent blocks on its two sides. -/
def SmoothBorder (side : Side) (a b : Sections) : Prop :=
  ∀ p q, side.across p = some q → transparentAt a p = true → transparentAt b q = true →
    Near (blockLevel a p) (blockLevel b q)

/-- Light crosses the borders of the start chunk, and an edit in a chunk leaves the sky light of the
    other chunks. -/
structure LightCrosses (loaded : Loaded) (start cp : ChunkPos) (p : Spot) (isRemove : Bool) :
    Prop where
  blockLight : ∀ side a b, propagateLightingAcrossChunks loaded start start = some a →
    propagateLightingAcrossChunks loaded start (side.neighbor start) = some b →
    SmoothBorder side a b
  skyLight : ∀ c s s', loaded c = some s →
    propagateLightingCrossChunk loaded cp p isRemove c = some s' → ∀ q, skyAt s' q = skyAt s q

open Classical in
/-- A chunk as the search leaves it. -/
noncomputable def ownLight (loaded : Loaded) (start cp : ChunkPos) (s : Sections) : Sections :=
  if InReach loaded start cp then propagateBlockLight s else s

/-- The borders are smooth when each chunk has its own light only, and the repairs of the
    neighbouring columns find the levels that they write. -/
structure StaysInside (loaded : Loaded) (start cp : ChunkPos) (p : Spot) (isRemove : Bool) :
    Prop where
  blockLight : ∀ side a b, loaded start = some a → loaded (side.neighbor start) = some b →
    SmoothBorder side (propagateBlockLight a) (ownLight loaded start (side.neighbor start) b)
  skyLight : ∀ (side : Side) q s, side.across p = some q → loaded (side.neighbor cp) = some s →
    Unmoved isRemove s q

theorem across_eq_ownLight (loaded : Loaded) (start cp : ChunkPos) :
    propagateLightingAcrossChunks loaded start cp =
      (loaded cp).map (ownLight loaded start cp) := by
  rw [propagateLightingAcrossChunks_eq]
  unfold ownLight
  split
  · rfl
  · exact Option.map_id'.symm

theorem ownLight_start (loaded : Loaded) (start : ChunkPos) (s : Sections) :
    ownLight loaded start start s = propagateBlockLight s := if_pos ⟨0, Nat.zero_le 3, .start⟩

theorem smoothBorders_iff (loaded : Loaded) (start : ChunkPos) :
    (∀ side a b, propagateLightingAcrossChunks loaded start start = some a →
        propagateLightingAcrossChunks loaded start (side.neighbor start) = some b →
        SmoothBorder side a b) ↔
      ∀ side a b, loaded start = some a → loaded (side.neighbor start) = some b →
        SmoothBorder side (propagateBlockLight a)
          (ownLight loaded start (side.neighbor start) b) := by
  refine forall_congr' fun side => ?_
  rw [across_eq_ownLight, across_eq_ownLight]
  constructor
  · intro h a b ha hb
    refine h _ _ ?_ ?_
    · rw [ha, Option.map_some, ownLight_start]
    · rw [hb, Option.map_some]
  · intro h a b ha hb
    obtain ⟨a', ha', rfl⟩ := Option.map_eq_some_iff.1 ha
    obtain ⟨b', hb', rfl⟩ := Option.map_eq_some_iff.1 hb
    rw [ownLight_start]
    exact h a' b' ha' hb'

theorem unmovedSky_iff (loaded : Loaded) (cp : ChunkPos) (p : Spot) (isRemove : Bool) :
    (∀ c s s', loaded c = some s → propagateLightingCrossChunk loaded cp p isRemove c = some s' →
        ∀ q, skyAt s' q = skyAt s q) ↔
      ∀ (side : Side) q s, side.across p = some q → loaded (side.neighbor cp) = some s →
        Unmoved isRemove s q := by
  constructor
  · intro h side q s hq hs
    refine (unmoved_iff isRemove s q).2 (h _ s _ hs ?_)
    rw [propagateLightingCrossChunk_neighbor, hq, hs]
    rfl
  · intro h c s s' hs hs'
    by_cases hc : ∃ side, c = Side.neighbor cp side
    · obtain ⟨side, rfl⟩ := hc
      rw [propagateLightingCrossChunk_neighbor, hs] at hs'
      cases hq : side.across p with
      | some q =>
          rw [hq] at hs'
          cases hs'
          exact (unmoved_iff isRemove s q).1 (h side q s hq hs)
      | none =>
          rw [hq] at hs'
          cases hs'
          exact fun _ => rfl
    · rw [propagateLightingCrossChunk_of_ne fun side hside => hc ⟨side, hside⟩, hs] at hs'
      cases hs'
      exact fun _ => rfl

end Apoptotic
