import Apoptotic.Lib.Cascade
import Apoptotic.World.Sites

/-!
# Copper

`tick_copper_oxidation` of `mc-server/src/tick.rs`.  The pairs of the list are applied one after
another, each to every loaded chunk, so a block that one pair has advanced is there for the next.

Principal results: `idIn_oxidized` — a block goes through the whole list; `oneStage_iff` — a pass
advances the loaded blocks by one stage exactly when none of them feeds a later pair;
`oxidized_final` — with the list of the source every block reaches the last stage of its chain.
-/

namespace Apoptotic.Copper

open Redstone Cascade

/-- `copper_pairs` -/
def copperPairs : List (BitVec 32 × BitVec 32) :=
  [(322#32, 323#32), (323#32, 324#32), (324#32, 325#32),
    (326#32, 327#32), (327#32, 328#32), (328#32, 329#32),
    (388#32, 389#32), (389#32, 390#32), (390#32, 391#32),
    (392#32, 393#32), (393#32, 394#32), (394#32, 395#32),
    (396#32, 397#32), (397#32, 398#32), (398#32, 399#32),
    (400#32, 401#32), (401#32, 402#32), (402#32, 403#32)]

/-! ## The pass -/

structure Cell where
  x : Fin 16
  z : Fin 16
  y : Height
  deriving DecidableEq

/-- The cells of a chunk as the loops visit them. -/
def cells : List Cell :=
  (List.finRange 16).flatMap fun x => (List.finRange 16).flatMap fun z =>
    heights.map fun y => ⟨x, z, y⟩

def oxidizeCell (pair : BitVec 32 × BitVec 32) (s : ReachableChunk × Bool) (c : Cell) :
    ReachableChunk × Bool :=
  if (s.1.getBlock c.x c.z c.y).id = pair.1 then
    (s.1.setBlock c.x c.z c.y (BlockState.new pair.2), true)
  else s

/-- One pair in one chunk; the flag is `changed`. -/
def oxidizeChunk (pair : BitVec 32 × BitVec 32) (ch : ReachableChunk) : ReachableChunk × Bool :=
  cells.foldl (oxidizeCell pair) (ch, false)

/-- The chunks and the dirty ones among them. -/
structure State where
  world : World
  dirtyChunks : Finset ChunkPos

def oxidizeAt (pair : BitVec 32 × BitVec 32) (s : State) (cpos : ChunkPos) : State :=
  match s.world cpos with
  | none => s
  | some ch =>
    let r := oxidizeChunk pair ch
    ⟨Function.update s.world cpos (some r.1),
      if r.2 then insert cpos s.dirtyChunks else s.dirtyChunks⟩

/-- The loops of `tick_copper_oxidation`, with `all_chunks` and the list of pairs. -/
def oxidize (pairs : List (BitVec 32 × BitVec 32)) (allChunks : List ChunkPos) (s : State) : State :=
  pairs.foldl (fun s pair => allChunks.foldl (oxidizeAt pair) s) s

def tickCopperOxidation (allChunks : List ChunkPos) (s : State) : State :=
  oxidize copperPairs allChunks s

/-! ## One stage -/

/-- The pairs in some order. -/
structure PairList where
  pairs : List (BitVec 32 × BitVec 32)
  perm : pairs.Perm copperPairs

/-- The list of the source. -/
def PairList.own : PairList := ⟨copperPairs, .refl _⟩

/-- Loaded chunks, as `all_chunks` lists them. -/
structure Loaded extends Blocks where
  allChunks : List ChunkPos
  complete : ∀ cpos, (world cpos).isSome → cpos ∈ allChunks

/-- The chunks after a pass. -/
def oxidized (o : PairList) (l : Loaded) : World := (oxidize o.pairs l.allChunks ⟨l.world, ∅⟩).world

/-- The next stage of a chain; the last stage stays, and so does what is no copper. -/
def nextStage (id : BitVec 32) : BitVec 32 := table copperPairs id

/-- A pass advances every block by one stage. -/
def OneStage (o : PairList) (l : Loaded) : Prop :=
  ∀ c, idIn (oxidized o l) c = (idIn l.world c).map nextStage

/-! ## What a pair does to a chunk -/

theorem mem_cells (c : Cell) : c ∈ cells := by
  refine List.mem_flatMap.2 ⟨c.x, List.mem_finRange _, ?_⟩
  refine List.mem_flatMap.2 ⟨c.z, List.mem_finRange _, ?_⟩
  exact List.mem_map.2 ⟨c.y, mem_heights c.y, rfl⟩

theorem pair_spec {pairs : List (BitVec 32 × BitVec 32)} (hperm : pairs.Perm copperPairs) :
    ∀ pair ∈ pairs, pair.1.toNat < pair.2.toNat ∧ pair.2.toNat < 2 ^ GLOBAL_BITS := by
  have hown : ∀ pair ∈ copperPairs,
      pair.1.toNat < pair.2.toNat ∧ pair.2.toNat < 2 ^ GLOBAL_BITS := by
    simp [copperPairs, GLOBAL_BITS]
  exact fun pair hpair => hown pair (hperm.mem_iff.1 hpair)

/-- The ids of a chunk belong to the registry. -/
def RegisteredChunk (ch : ReachableChunk) : Prop :=
  ∀ c : Cell, (ch.getBlock c.x c.z c.y).id.toNat < 2 ^ GLOBAL_BITS

theorem oxidizeCell_spec {pair : BitVec 32 × BitVec 32} (hfits : pair.2.toNat < 2 ^ GLOBAL_BITS)
    {s : ReachableChunk × Bool} (hs : RegisteredChunk s.1) (c : Cell) :
    RegisteredChunk (oxidizeCell pair s c).1 ∧
      ∀ c', ((oxidizeCell pair s c).1.getBlock c'.x c'.z c'.y).id =
        if c' = c then rewrite pair (s.1.getBlock c'.x c'.z c'.y).id
        else (s.1.getBlock c'.x c'.z c'.y).id := by
  have hvalue : ∀ c', ((oxidizeCell pair s c).1.getBlock c'.x c'.z c'.y).id =
      if c' = c then rewrite pair (s.1.getBlock c'.x c'.z c'.y).id
      else (s.1.getBlock c'.x c'.z c'.y).id := by
    intro c'
    unfold oxidizeCell
    split
    · rename_i hfrom
      by_cases hc : c' = c
      · subst hc
        rw [if_pos rfl, s.1.id_getBlock_setBlock_self _ _ _ hfits]
        exact (if_pos hfrom).symm
      · rw [if_neg hc]
        refine s.1.id_getBlock_setBlock_of_ne _ ?_ (hs c')
        rintro ⟨hx, hy, hz⟩
        apply hc
        cases c
        cases c'
        simp_all
    · rename_i hfrom
      by_cases hc : c' = c
      · subst hc
        rw [if_pos rfl]
        exact (if_neg hfrom).symm
      · rw [if_neg hc]
  refine ⟨fun c' => ?_, hvalue⟩
  rw [hvalue]
  unfold rewrite
  split
  · split
    · exact hfits
    · exact hs c'
  · exact hs c'

/-- One pair in one chunk: every block takes the step. -/
theorem id_oxidizeChunk {pair : BitVec 32 × BitVec 32} (hrise : pair.1.toNat < pair.2.toNat)
    (hfits : pair.2.toNat < 2 ^ GLOBAL_BITS) {ch : ReachableChunk} (hch : RegisteredChunk ch)
    (c : Cell) : ((oxidizeChunk pair ch).1.getBlock c.x c.z c.y).id =
      rewrite pair (ch.getBlock c.x c.z c.y).id := by
  have hne : pair.2 ≠ pair.1 := by
    intro h
    rw [h] at hrise
    omega
  have hsweep := sweep (fun s : ReachableChunk × Bool => RegisteredChunk s.1)
    (fun s (c : Cell) => (s.1.getBlock c.x c.z c.y).id) (rewrite_idem hne)
    (fun _ hs c => oxidizeCell_spec hfits hs c) cells (s := (ch, false)) hch
  exact (hsweep.2 c).trans (if_pos (mem_cells c))

/-! ## What a pass does to the chunks -/

def Cell.site (c : Cell) (cpos : ChunkPos) : Site := ⟨cpos, c.x, c.y, c.z⟩

theorem oxidizeAt_spec {pair : BitVec 32 × BitVec 32} (hrise : pair.1.toNat < pair.2.toNat)
    (hfits : pair.2.toNat < 2 ^ GLOBAL_BITS) {s : State} (hs : Registered s.world)
    (cpos : ChunkPos) : Registered (oxidizeAt pair s cpos).world ∧
      ∀ c, idIn (oxidizeAt pair s cpos).world c =
        if c.chunk = cpos then (idIn s.world c).map (rewrite pair) else idIn s.world c := by
  have hvalue : ∀ c, idIn (oxidizeAt pair s cpos).world c =
      if c.chunk = cpos then (idIn s.world c).map (rewrite pair) else idIn s.world c := by
    intro c
    cases hchunk : s.world cpos with
    | none =>
        have hsame : oxidizeAt pair s cpos = s := by
          unfold oxidizeAt
          rw [hchunk]
        rw [hsame]
        split
        · rename_i hc
          have hnone : idIn s.world c = none := by
            unfold idIn
            rw [hc, hchunk, Option.map_none]
          rw [hnone, Option.map_none]
        · rfl
    | some ch =>
        have hafter : (oxidizeAt pair s cpos).world =
            Function.update s.world cpos (some (oxidizeChunk pair ch).1) := by
          unfold oxidizeAt
          rw [hchunk]
        rw [hafter]
        have hch : RegisteredChunk ch := fun k => hs (k.site cpos) _ (by
          unfold idIn Cell.site
          rw [hchunk]
          rfl)
        unfold idIn
        split
        · rename_i hc
          rw [hc, Function.update_self, hchunk]
          exact congrArg some (id_oxidizeChunk hrise hfits hch ⟨c.x, c.z, c.y⟩)
        · rename_i hc
          rw [Function.update_of_ne hc]
  refine ⟨fun c id hid => ?_, hvalue⟩
  rw [hvalue] at hid
  split at hid
  · obtain ⟨old, hold, rfl⟩ := Option.map_eq_some_iff.1 hid
    unfold rewrite
    split
    · exact hfits
    · exact hs c old hold
  · exact hs c id hid

/-- One pair, through all chunks: every block takes the step. -/
theorem idIn_pass {pair : BitVec 32 × BitVec 32} (hrise : pair.1.toNat < pair.2.toNat)
    (hfits : pair.2.toNat < 2 ^ GLOBAL_BITS) {s : State} (hs : Registered s.world)
    {allChunks : List ChunkPos} (hall : ∀ c id, idIn s.world c = some id → c.chunk ∈ allChunks) :
    Registered (allChunks.foldl (oxidizeAt pair) s).world ∧
      ∀ c, idIn (allChunks.foldl (oxidizeAt pair) s).world c =
        (idIn s.world c).map (rewrite pair) := by
  have hne : pair.2 ≠ pair.1 := by
    intro h
    rw [h] at hrise
    omega
  obtain ⟨hinv, hvalue⟩ := sweep (fun s : State => Registered s.world)
    (fun s cpos (k : Cell) => idIn s.world (k.site cpos))
    (g := fun f k => (f k).map (rewrite pair)) (fun f => by
      funext k
      rw [Option.map_map]
      exact congrArg (fun g => (f k).map g) (funext (rewrite_idem hne)))
    (fun s hs cpos => ⟨(oxidizeAt_spec hrise hfits hs cpos).1, fun q => by
      funext k
      rw [(oxidizeAt_spec hrise hfits hs cpos).2]
      unfold Cell.site
      dsimp only
      split <;> rfl⟩)
    allChunks hs
  refine ⟨hinv, fun c => ?_⟩
  have hc := congrFun (hvalue c.chunk) ⟨c.x, c.z, c.y⟩
  unfold Cell.site at hc
  dsimp only at hc
  rw [hc]
  split
  · rfl
  · rename_i hnot
    cases hid : idIn s.world c with
    | none => exact hid
    | some id => exact absurd (hall c id hid) hnot

/-- A list of pairs, through all chunks. -/
theorem idIn_oxidize {pairs : List (BitVec 32 × BitVec 32)}
    (hpairs : ∀ pair ∈ pairs, pair.1.toNat < pair.2.toNat ∧ pair.2.toNat < 2 ^ GLOBAL_BITS)
    {s : State} (hs : Registered s.world) {allChunks : List ChunkPos}
    (hall : ∀ c id, idIn s.world c = some id → c.chunk ∈ allChunks) (c : Site) :
    idIn (oxidize pairs allChunks s).world c = (idIn s.world c).map (cascade pairs) := by
  unfold oxidize
  induction pairs generalizing s with
  | nil => exact Option.map_id'.symm ▸ rfl
  | cons pair pairs ih =>
      obtain ⟨hrise, hfits⟩ := hpairs pair List.mem_cons_self
      obtain ⟨hinv, hvalue⟩ := idIn_pass hrise hfits hs hall
      rw [List.foldl_cons, ih (fun p hp => hpairs p (List.mem_cons_of_mem _ hp)) hinv, hvalue,
        Option.map_map]
      · rfl
      · intro c' id hid
        rw [hvalue] at hid
        obtain ⟨old, hold, _⟩ := Option.map_eq_some_iff.1 hid
        exact hall c' old hold

/-- **A block goes through the whole list in one pass.** -/
theorem idIn_oxidized (o : PairList) (l : Loaded) (c : Site) :
    idIn (oxidized o l) c = (idIn l.world c).map (cascade o.pairs) := by
  have hall : ∀ c id, idIn l.world c = some id → c.chunk ∈ l.allChunks := by
    intro c id hid
    apply l.complete
    obtain ⟨ch, hch, _⟩ := Option.map_eq_some_iff.1 hid
    rw [hch]
    rfl
  exact idIn_oxidize (pair_spec o.perm) l.registered hall c

/-! ## Stages -/

theorem nodup_firsts (o : PairList) : (o.pairs.map Prod.fst).Nodup :=
  (o.perm.map Prod.fst).nodup_iff.2 (by decide)

theorem cascade_eq_nextStage_iff (o : PairList) (id : BitVec 32) :
    cascade o.pairs id = nextStage id ↔ ¬ Feeds o.pairs id := by
  unfold nextStage
  rw [← table_perm o.perm (by decide)]
  exact cascade_eq_table_iff BitVec.toNat (fun pair hpair => (pair_spec o.perm pair hpair).1)
    (nodup_firsts o) id

/-- **A pass advances every block by one stage** exactly when no loaded block is turned into one that
    a later pair of the list takes up. -/
theorem oneStage_iff (o : PairList) (l : Loaded) :
    OneStage o l ↔ ∀ c id, idIn l.world c = some id → ¬ Feeds o.pairs id := by
  unfold OneStage
  refine forall_congr' fun c => ?_
  rw [idIn_oxidized]
  cases hid : idIn l.world c with
  | none => simp
  | some id => simp [cascade_eq_nextStage_iff]

/-- With the list of the source no block is left that could oxidise further. -/
theorem oxidized_final (l : Loaded) (c : Site) (id : BitVec 32)
    (h : idIn (oxidized .own l) c = some id) : nextStage id = id := by
  rw [idIn_oxidized] at h
  obtain ⟨old, _, rfl⟩ := Option.map_eq_some_iff.1 h
  change table copperPairs (cascade copperPairs old) = cascade copperPairs old
  refine table_of_notMem (cascade_notMem (fun pair hpair => ?_) (by decide) old)
  intro h
  have hrise := (pair_spec (.refl _) pair hpair).1
  rw [h] at hrise
  omega

theorem registered_copper : Registered (built [(origin, BlockState.new 322#32)]) :=
  registered_built (by decide)

/-- One loaded chunk with a block of copper in it. -/
def newCopper : Loaded where
  toBlocks := Blocks.only ⟨_, registered_copper⟩ (chunkOf origin)
  allChunks := [chunkOf origin]
  complete _ hloaded := List.mem_singleton.2 (eq_of_loaded_only hloaded)

/-- **Copper oxidises by three stages at once.** -/
theorem not_forall_oneStage : ¬ ∀ l : Loaded, OneStage .own l := by
  intro hall
  let c : Site := ⟨chunkOf origin, low origin.x, ⟨64, by decide⟩, low origin.z⟩
  have hsite : siteOf origin = some c := rfl
  have hid : idIn newCopper.world c = some 322#32 := by
    refine (idIn_only _ _ rfl).trans ?_
    rw [← idAt_of_siteOf hsite, idAt_built (by decide)]
    rfl
  have hone := hall newCopper c
  rw [idIn_oxidized, hid] at hone
  exact absurd (Option.some.inj hone) (by decide)

end Apoptotic.Copper
