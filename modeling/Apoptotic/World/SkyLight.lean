import Apoptotic.World.Lighting
import Mathlib.Data.Finset.Max

/-!
# Sky light, column by column

What `compute_sky_light` and the two repairs of `mc-world/src/lighting.rs` leave in a chunk, level
by level: each loop writes a light that falls by one at every opaque block it has passed.

Principal results: `skyAt_initChunkLighting` — the sky light of a spot is 15 less the opaque blocks
above it; `skyAt_recalcSkyLightOnRemove`, `skyAt_recalcSkyLightOnPlace` — what a repair writes, and
where.
-/

namespace Apoptotic

open Flood

/-! ## What the loops keep -/

theorem frame_foldl {α β : Type} (f : Sections → α) (step : Sections → β → Sections)
    (hstep : ∀ s b, f (step s b) = f s) (bs : List β) (s : Sections) :
    f (bs.foldl step s) = f s := by
  induction bs generalizing s with
  | nil => rfl
  | cons b bs ih => exact (ih _).trans (hstep s b)

section Frame

variable {α : Type} (f : Sections → α) (hf : ∀ s p light, f (setSky s p light) = f s)

include hf

theorem frame_skyStep (x z : Fin 16) (acc : Sections × Fin 16) (t : Row) :
    f (skyStep x z acc t).1 = f acc.1 := by
  unfold skyStep
  dsimp only
  split
  · rfl
  · split
    · exact hf _ _ _
    · rfl

theorem frame_computeColumn (s : Sections) (x z : Fin 16) : f (computeColumn s x z) = f s := by
  unfold computeColumn
  generalize (List.finRange 384).reverse = rows
  generalize MAX_LIGHT = light
  induction rows generalizing s light with
  | nil => rfl
  | cons t rows ih => exact (ih _ _).trans (frame_skyStep f hf x z (s, light) t)

theorem frame_computeSkyLight (s : Sections) : f (computeSkyLight s) = f s := by
  refine frame_foldl f _ (fun s x => ?_) _ s
  exact frame_foldl f _ (fun s z => frame_computeColumn f hf s x z) _ s

theorem frame_climb (x z : Fin 16) (s : Sections) (light : Fin 16) (rows : List Row) :
    f (climb x z s light rows) = f s := by
  induction rows generalizing s light with
  | nil => rfl
  | cons t rows ih =>
      unfold climb
      dsimp only
      split
      · split
        · exact hf _ _ _
        · exact (ih _ _).trans (hf _ _ _)
      · exact (ih _ _).trans (hf _ _ _)

theorem frame_recalcSkyLightOnRemove (s : Sections) (p : Spot) :
    f (recalcSkyLightOnRemove s p) = f s := frame_climb f hf _ _ _ _ _

theorem frame_recalcSkyLightOnPlace (s : Sections) (p : Spot) :
    f (recalcSkyLightOnPlace s p) = f s := (frame_climb f hf _ _ _ _ _).trans (hf _ _ _)

end Frame

/-! ## Light falls at opaque blocks -/

/-- `light` less `k`, saturating at 0. -/
def dim (light : Fin 16) (k : Nat) : Fin 16 := ⟨light.val - k, by omega⟩

theorem dim_zero (light : Fin 16) : dim light 0 = light := rfl

theorem dim_lower (light : Fin 16) (k : Nat) : dim (lower light) k = dim light (k + 1) :=
  Fin.ext (by simp only [dim, lower]; omega)

/-- The opaque blocks of a column in some rows. -/
def opaqueIn (s : Sections) (x z : Fin 16) (rows : List Row) : Nat :=
  rows.countP fun t => opaqueAt s ⟨x, t, z⟩

theorem opaqueIn_congr {s s' : Sections} (h : ∀ p, blockAt s' p = blockAt s p) (x z : Fin 16)
    (rows : List Row) : opaqueIn s' x z rows = opaqueIn s x z rows := by
  unfold opaqueIn
  simp only [opaqueAt_congr (h _)]

/-- The rows of a list before row `t`. -/
def rowsBefore (rows : List Row) (t : Row) : List Row := rows.takeWhile fun u => u ≠ t

theorem rowsBefore_cons_self (t : Row) (rows : List Row) : rowsBefore (t :: rows) t = [] :=
  List.takeWhile_cons_of_neg (by simp)

theorem rowsBefore_cons_of_ne {t u : Row} (h : u ≠ t) (rows : List Row) :
    rowsBefore (u :: rows) t = u :: rowsBefore rows t :=
  List.takeWhile_cons_of_pos (by simpa using h)

/-- In a sorted list the rows before `t` are those on its side. -/
theorem rowsBefore_eq_filter {r : Row → Row → Prop} [DecidableRel r] (hirr : ∀ t, ¬ r t t)
    (hasymm : ∀ t u, r t u → ¬ r u t) {rows : List Row} (hsorted : rows.Pairwise r) {t : Row}
    (ht : t ∈ rows) : rowsBefore rows t = rows.filter fun u => r u t := by
  induction rows with
  | nil => cases ht
  | cons u rows ih =>
      obtain ⟨hu, hrows⟩ := List.pairwise_cons.1 hsorted
      by_cases htu : u = t
      · subst htu
        rw [rowsBefore_cons_self, List.filter_cons_of_neg (by simpa using hirr u)]
        refine (List.filter_eq_nil_iff.2 fun v hv => ?_).symm
        simpa using hasymm u v (hu v hv)
      · have ht' : t ∈ rows := (List.mem_cons.1 ht).resolve_left fun e => htu e.symm
        rw [rowsBefore_cons_of_ne htu, ih hrows ht',
          List.filter_cons_of_pos (by simpa using hu t ht')]

/-- What one pass through an opaque block does to the light further on. -/
theorem dim_opaqueIn_cons (s : Sections) (x z : Fin 16) (light : Fin 16) (t : Row)
    (rows : List Row) :
    dim (if opaqueAt s ⟨x, t, z⟩ then lower light else light) (opaqueIn s x z rows) =
      dim light (opaqueIn s x z (t :: rows)) := by
  unfold opaqueIn
  rw [List.countP_cons]
  split
  · exact dim_lower _ _
  · rw [Nat.add_zero]

/-! ## `compute_sky_light` -/

/-- The heights of the sections that are there. -/
def heights (s : Sections) (i : Fin SECTIONS_PER_CHUNK) : Option Int :=
  (s i).map fun sec => sec.position.y

theorem heights_setSky (s : Sections) (p : Spot) (light : Fin 16) :
    heights (setSky s p light) = heights s :=
  funext fun i => map_withSection s p.section i _ _ fun _ => rfl

/-- Each section has the height of its index. -/
def SectionsPlaced (s : Sections) : Prop := ∀ i y, heights s i = some y → y = MIN_SECTION_Y + (i.val : Int)

theorem SectionsPlaced.congr {s s' : Sections} (h : SectionsPlaced s) (heq : heights s' = heights s) :
    SectionsPlaced s' := by
  unfold SectionsPlaced
  rw [heq]
  exact h

/-- A write to a section that is not there. -/
theorem setSky_of_none {s : Sections} {p : Spot} (h : s p.section = none) (light : Fin 16) :
    setSky s p light = s := by
  unfold setSky withSection
  rw [h, Option.map_none, ← h, Function.update_eq_self]

theorem skyStep_of_placed {s : Sections} (h : SectionsPlaced s) (x z : Fin 16) (light : Fin 16) (t : Row) :
    skyStep x z (s, light) t = (setSky s ⟨x, t, z⟩ light,
      if opaqueAt s ⟨x, t, z⟩ then lower light else light) := by
  unfold skyStep opaqueAt blockAt
  dsimp only
  have hsec := h (Spot.section ⟨x, t, z⟩)
  unfold heights at hsec
  cases hs : s (Spot.section ⟨x, t, z⟩) with
  | none =>
      rw [setSky_of_none hs]
      rfl
  | some sec =>
      rw [hs, Option.map_some] at hsec
      have hy : sec.position.y = MIN_SECTION_Y + ((t.val / 16 : Nat) : Int) := hsec _ rfl
      have hworld : -64 ≤ sec.position.y * 16 + ((t.val % 16 : Nat) : Int) ∧
          sec.position.y * 16 + ((t.val % 16 : Nat) : Int) ≤ 319 := by
        have := t.isLt
        unfold MIN_SECTION_Y at hy
        omega
      exact (if_pos hworld).trans rfl

/-- The loop down a column. -/
theorem skyAt_foldl_skyStep (x z : Fin 16) (rows : List Row) (hnd : rows.Nodup) (s : Sections)
    (light : Fin 16) (hp : SectionsPlaced s) (q : Spot) :
    skyAt (rows.foldl (skyStep x z) (s, light)).1 q =
      if q.x = x ∧ q.z = z ∧ q.row ∈ rows then
        (skyAt s q).map fun _ => dim light (opaqueIn s x z (rowsBefore rows q.row))
      else skyAt s q := by
  induction rows generalizing s light with
  | nil =>
      rw [if_neg fun h => List.not_mem_nil h.2.2]
      rfl
  | cons t rows ih =>
      obtain ⟨ht, hrows⟩ := List.nodup_cons.1 hnd
      rw [List.foldl_cons, skyStep_of_placed hp, ih hrows _ _ (hp.congr (heights_setSky _ _ _)),
        opaqueIn_congr fun p => blockAt_setSky s _ p light]
      by_cases hcol : q.x = x ∧ q.z = z
      · obtain ⟨rfl, rfl⟩ := hcol
        by_cases hqt : q.row = t
        · subst hqt
          rw [if_neg fun h => ht h.2.2, if_pos ⟨rfl, rfl, List.mem_cons_self⟩,
            rowsBefore_cons_self]
          exact skyAt_setSky_self s q light
        · have hne : q ≠ ⟨q.x, t, q.z⟩ := fun h => hqt (congrArg Spot.row h)
          rw [skyAt_setSky_of_ne s light hne, dim_opaqueIn_cons,
            rowsBefore_cons_of_ne fun h => hqt h.symm]
          refine if_congr ?_ rfl rfl
          rw [List.mem_cons, or_iff_right hqt]
      · rw [if_neg fun h => hcol ⟨h.1, h.2.1⟩, if_neg fun h => hcol ⟨h.1, h.2.1⟩]
        refine skyAt_setSky_of_ne s light fun h => hcol ?_
        rw [h]
        exact ⟨rfl, rfl⟩

/-- The opaque blocks above a spot. -/
def opaqueAbove (s : Sections) (p : Spot) : Nat :=
  opaqueIn s p.x p.z ((List.finRange 384).filter fun t => p.row < t)

/-- The light that the sky leaves at a spot. -/
def openSky (s : Sections) (p : Spot) : Fin 16 := dim MAX_LIGHT (opaqueAbove s p)

theorem opaqueAbove_congr {s s' : Sections} (h : ∀ p, blockAt s' p = blockAt s p) (p : Spot) :
    opaqueAbove s' p = opaqueAbove s p := opaqueIn_congr h _ _ _

theorem skyAt_computeColumn {s : Sections} (hp : SectionsPlaced s) (x z : Fin 16) (q : Spot) :
    skyAt (computeColumn s x z) q =
      if q.x = x ∧ q.z = z then (skyAt s q).map fun _ => openSky s q else skyAt s q := by
  have hrows : rowsBefore (List.finRange 384).reverse q.row =
      (List.finRange 384).reverse.filter fun t => q.row < t := by
    refine rowsBefore_eq_filter (r := fun t u => u < t) (fun t => lt_irrefl t)
      (fun t u h => not_lt.2 h.le) ?_ (List.mem_reverse.2 (List.mem_finRange _))
    exact List.pairwise_reverse.2 (List.pairwise_lt_finRange 384)
  unfold computeColumn
  rw [skyAt_foldl_skyStep x z _ (List.nodup_reverse.2 (List.nodup_finRange _)) s _ hp, hrows]
  have hmem : q.row ∈ (List.finRange 384).reverse := List.mem_reverse.2 (List.mem_finRange _)
  refine if_ctx_congr ⟨fun h => ⟨h.1, h.2.1⟩, fun h => ⟨h.1, h.2, hmem⟩⟩ (fun h => ?_) fun _ => rfl
  obtain ⟨hx, hz⟩ := h
  unfold openSky opaqueAbove opaqueIn
  rw [hx, hz, List.filter_reverse, List.countP_reverse]

/-- A loop of writes, each of which sets the spots it selects to their own light. -/
theorem skyAt_foldl {β : Type} (step : Sections → β → Sections) (hits : β → Prop)
    [DecidablePred hits] (q : Spot) (good : Sections → Prop)
    (hgood : ∀ s b, good s → good (step s b)) (level : Fin 16)
    (hstep : ∀ s b, good s → skyAt (step s b) q =
      if hits b then (skyAt s q).map fun _ => level else skyAt s q)
    (bs : List β) (s : Sections) (hs : good s) :
    skyAt (bs.foldl step s) q =
      if ∃ b ∈ bs, hits b then (skyAt s q).map fun _ => level else skyAt s q := by
  induction bs generalizing s with
  | nil => exact (if_neg fun ⟨_, hb, _⟩ => List.not_mem_nil hb).symm
  | cons b bs ih =>
      rw [List.foldl_cons, ih _ (hgood s b hs), hstep s b hs]
      simp only [List.mem_cons, exists_eq_or_imp]
      by_cases hb : hits b
      · rw [if_pos hb, if_pos (Or.inl hb), Option.map_map]
        exact ite_self _
      · rw [if_neg hb]
        exact if_congr (or_iff_right hb).symm rfl rfl

/-- `compute_sky_light` leaves the light of the sky at every spot. -/
theorem skyAt_computeSkyLight {s : Sections} (hp : SectionsPlaced s) (q : Spot) :
    skyAt (computeSkyLight s) q = (skyAt s q).map fun _ => openSky s q := by
  let good (s' : Sections) : Prop := heights s' = heights s ∧ ∀ p, blockAt s' p = blockAt s p
  have hgood : ∀ x s' z, good s' → good (computeColumn s' x z) := by
    intro x s' z hs'
    refine ⟨(frame_computeColumn heights heights_setSky s' x z).trans hs'.1, fun p => ?_⟩
    rw [frame_computeColumn (fun s => blockAt s p) (fun s r light => blockAt_setSky s r p light)]
    exact hs'.2 p
  have hcolumn : ∀ x s' z, good s' → skyAt (computeColumn s' x z) q =
      if q.x = x ∧ q.z = z then (skyAt s' q).map fun _ => openSky s q else skyAt s' q := by
    intro x s' z hs'
    rw [skyAt_computeColumn (hp.congr hs'.1)]
    unfold openSky
    rw [opaqueAbove_congr hs'.2]
  have hrow : ∀ s' x, good s' →
      skyAt ((List.finRange 16).foldl (fun s z => computeColumn s x z) s') q =
        if q.x = x then (skyAt s' q).map fun _ => openSky s q else skyAt s' q := by
    intro s' x hs'
    rw [skyAt_foldl _ (fun z => q.x = x ∧ q.z = z) q good (hgood x) (openSky s q) (hcolumn x) _ _ hs']
    by_cases hx : q.x = x
    · rw [if_pos hx]
      exact if_pos ⟨q.z, List.mem_finRange _, hx, rfl⟩
    · rw [if_neg hx]
      exact if_neg fun ⟨_, _, h⟩ => hx h.1
  have hgood' : ∀ s' x, good s' →
      good ((List.finRange 16).foldl (fun s z => computeColumn s x z) s') := by
    intro s' x hs'
    exact List.foldlRecOn _ _ hs' fun s'' h z _ => hgood x s'' z h
  unfold computeSkyLight
  rw [skyAt_foldl _ (fun x => q.x = x) q good hgood' (openSky s q) hrow _ _ ⟨rfl, fun _ => rfl⟩]
  exact if_pos ⟨q.x, List.mem_finRange _, rfl⟩

/-! ## `init_chunk_lighting` -/

theorem skyAt_propagateBlockLight (s : Sections) (p : Spot) :
    skyAt (propagateBlockLight s) p = skyAt s p :=
  flood_frame blockLightGrid (fun s => skyAt s p)
    (fun s q light => skyAt_setBlockLight s q p light) _ _

theorem blockAt_propagateBlockLight (s : Sections) (p : Spot) :
    blockAt (propagateBlockLight s) p = blockAt s p :=
  flood_frame blockLightGrid (fun s => blockAt s p)
    (fun s q light => blockAt_setBlockLight s q p light) _ _

/-- A second flood of a chunk changes nothing. -/
theorem propagateBlockLight_idem (s : Sections) :
    propagateBlockLight (propagateBlockLight s) = propagateBlockLight s := by
  have hsame := emitters_congr (blockAt_propagateBlockLight s)
  conv_lhs => rw [propagateBlockLight, hsame]
  exact flood_idem blockLightGrid (emitters s) s

/-- What clearing the light keeps. -/
theorem map_clearLight {α : Type} (s : Sections) (i : Fin SECTIONS_PER_CHUNK) (g : Section → α)
    (h : ∀ sec, g { sec with skyLight := Light.filled 0xFF#8, blockLight := Light.filled 0x00#8 } =
      g sec) : (clearLight s i).map g = (s i).map g := by
  unfold clearLight
  rw [Option.map_map]
  exact Option.map_congr fun sec _ => h sec

theorem blockAt_clearLight (s : Sections) (p : Spot) : blockAt (clearLight s) p = blockAt s p :=
  map_clearLight s p.section _ fun _ => rfl

theorem heights_clearLight (s : Sections) : heights (clearLight s) = heights s :=
  funext fun i => map_clearLight s i _ fun _ => rfl

theorem skyAt_clearLight (s : Sections) (p : Spot) :
    skyAt (clearLight s) p = (skyAt s p).map fun _ => MAX_LIGHT := by
  unfold skyAt clearLight
  rw [Option.map_map, Option.map_map]
  refine Option.map_congr fun sec _ => (getLightNibble_filled _ _).trans ?_
  split
  · rfl
  · rfl

theorem blockLightAt_clearLight (s : Sections) (p : Spot) :
    blockLightAt (clearLight s) p = (blockLightAt s p).map fun _ => NO_LIGHT := by
  unfold blockLightAt clearLight
  rw [Option.map_map, Option.map_map]
  refine Option.map_congr fun sec _ => (getLightNibble_filled _ _).trans ?_
  split
  · rfl
  · rfl

/-- **`init_chunk_lighting` leaves the light of the sky at every spot.** -/
theorem skyAt_initChunkLighting {s : Sections} (hp : SectionsPlaced s) (q : Spot) :
    skyAt (initChunkLighting s) q = (skyAt s q).map fun _ => openSky s q := by
  unfold initChunkLighting
  rw [skyAt_propagateBlockLight, skyAt_computeSkyLight (hp.congr (heights_clearLight s)),
    skyAt_clearLight, Option.map_map]
  unfold openSky
  rw [opaqueAbove_congr (blockAt_clearLight s)]
  rfl

/-! ## The repairs -/

/-- The loop up a column writes until the light is spent. -/
theorem skyAt_climb (x z : Fin 16) (rows : List Row) (hnd : rows.Nodup) (s : Sections)
    (light : Fin 16) (q : Spot) :
    skyAt (climb x z s light rows) q =
      if q.x = x ∧ q.z = z ∧ q.row ∈ rows ∧
          (opaqueIn s x z (rowsBefore rows q.row) = 0 ∨
            opaqueIn s x z (rowsBefore rows q.row) < light) then
        (skyAt s q).map fun _ => dim light (opaqueIn s x z (rowsBefore rows q.row))
      else skyAt s q := by
  induction rows generalizing s light with
  | nil => exact (if_neg fun h => List.not_mem_nil h.2.2.1).symm
  | cons t rows ih =>
      obtain ⟨ht, hrows⟩ := List.nodup_cons.1 hnd
      have hcount : ∀ rows, opaqueIn (setSky s ⟨x, t, z⟩ light) x z rows = opaqueIn s x z rows :=
        fun rows => opaqueIn_congr (fun p => blockAt_setSky s _ p light) x z rows
      unfold climb
      dsimp only
      by_cases hcol : q.x = x ∧ q.z = z
      · obtain ⟨rfl, rfl⟩ := hcol
        by_cases hqt : q.row = t
        · -- The row that is written first; the rest of the loop does not come back to it.
          subst hqt
          have hself := skyAt_setSky_self s q light
          have hlater : ∀ light', skyAt (climb q.x q.z (setSky s q light) light' rows) q =
              (skyAt s q).map fun _ => light := by
            intro light'
            rw [ih hrows, if_neg fun h => ht h.2.2.1]
            exact hself
          rw [rowsBefore_cons_self]
          refine Eq.trans ?_ (if_pos ⟨rfl, rfl, List.mem_cons_self, Or.inl rfl⟩).symm
          split
          · split
            · exact hself
            · exact hlater _
          · exact hlater _
        · have hne : q ≠ ⟨q.x, t, q.z⟩ := fun h => hqt (congrArg Spot.row h)
          have hmem : q.row ∈ rows ↔ q.row ∈ t :: rows := by rw [List.mem_cons, or_iff_right hqt]
          have hkeep := skyAt_setSky_of_ne s light hne
          rw [rowsBefore_cons_of_ne fun h => hqt h.symm]
          by_cases hop : opaqueAt s ⟨q.x, t, q.z⟩ = true
          · have hk : opaqueIn s q.x q.z (t :: rowsBefore rows q.row) =
                opaqueIn s q.x q.z (rowsBefore rows q.row) + 1 := by
              unfold opaqueIn
              rw [List.countP_cons, if_pos hop]
            have hlower : (lower light).val = light.val - 1 := rfl
            rw [if_pos hop, hk]
            split
            · rename_i hspent
              refine hkeep.trans (if_neg fun h => ?_).symm
              have := h.2.2.2
              omega
            · rename_i hleft
              rw [ih hrows, hcount, hkeep, dim_lower]
              refine if_congr ?_ rfl rfl
              rw [hmem]
              refine and_congr_right fun _ => and_congr_right fun _ => and_congr_right fun _ => ?_
              omega
          · have hk : opaqueIn s q.x q.z (t :: rowsBefore rows q.row) =
                opaqueIn s q.x q.z (rowsBefore rows q.row) := by
              unfold opaqueIn
              rw [List.countP_cons, if_neg hop, Nat.add_zero]
            rw [if_neg hop, hk, ih hrows, hcount, hkeep]
            refine if_congr ?_ rfl rfl
            rw [hmem]
      · have hne : q ≠ ⟨x, t, z⟩ := by
          intro h
          subst h
          exact hcol ⟨rfl, rfl⟩
        have hkeep := skyAt_setSky_of_ne s light hne
        have hlater : ∀ light', skyAt (climb x z (setSky s ⟨x, t, z⟩ light) light' rows) q =
            skyAt s q := by
          intro light'
          rw [ih hrows, if_neg fun h => hcol ⟨h.1, h.2.1⟩]
          exact hkeep
        refine Eq.trans ?_ (if_neg fun h => hcol ⟨h.1, h.2.1⟩).symm
        split
        · split
          · exact hkeep
          · exact hlater _
        · exact hlater _

theorem nodup_rowsFrom (y : Row) : (rowsFrom y).Nodup := (List.nodup_finRange _).filter _

theorem mem_rowsFrom {y t : Row} : t ∈ rowsFrom y ↔ y ≤ t := by
  unfold rowsFrom
  rw [List.mem_filter, decide_eq_true_iff]
  exact and_iff_right (List.mem_finRange _)

/-- The opaque blocks of the column of `p` from the row of `p` up to the one of `q`. -/
def opaqueFrom (s : Sections) (p : Spot) (t : Row) : Nat :=
  opaqueIn s p.x p.z ((rowsFrom p.row).filter fun u => u < t)

theorem rowsBefore_rowsFrom {y t : Row} (h : y ≤ t) :
    rowsBefore (rowsFrom y) t = (rowsFrom y).filter fun u => u < t :=
  rowsBefore_eq_filter (r := fun t u => t < u) (fun t => lt_irrefl t)
    (fun _ _ h => not_lt.2 h.le) ((List.pairwise_lt_finRange 384).filter _) (mem_rowsFrom.2 h)

/-- **What `recalc_sky_light_on_remove` writes**: from the row of the removed block up, the light
    above it, falling at every opaque block, until it is spent. -/
theorem skyAt_recalcSkyLightOnRemove (s : Sections) (p q : Spot) :
    skyAt (recalcSkyLightOnRemove s p) q =
      if q.x = p.x ∧ q.z = p.z ∧ p.row ≤ q.row ∧
          (opaqueFrom s p q.row = 0 ∨ opaqueFrom s p q.row < lightAbove s p) then
        (skyAt s q).map fun _ => dim (lightAbove s p) (opaqueFrom s p q.row)
      else skyAt s q := by
  unfold recalcSkyLightOnRemove
  rw [skyAt_climb _ _ _ (nodup_rowsFrom _)]
  by_cases hle : p.row ≤ q.row
  · rw [rowsBefore_rowsFrom hle]
    refine if_congr ?_ rfl rfl
    exact and_congr_right fun _ => and_congr_right fun _ => and_congr_left' mem_rowsFrom
  · refine (if_neg fun h => hle ?_).trans (if_neg fun h => hle h.2.2.1).symm
    exact mem_rowsFrom.1 h.2.2.1

/-- **What `recalc_sky_light_on_place` writes**: no light from the row of the placed block up to the
    first opaque block above it. -/
theorem skyAt_recalcSkyLightOnPlace (s : Sections) (p q : Spot) :
    skyAt (recalcSkyLightOnPlace s p) q =
      if q.x = p.x ∧ q.z = p.z ∧ p.row ≤ q.row ∧
          (∀ t, p.row < t → t < q.row → opaqueAt s ⟨p.x, t, p.z⟩ = false) then
        (skyAt s q).map fun _ => NO_LIGHT
      else skyAt s q := by
  let rows := (rowsFrom p.row).filter fun t => t ≠ p.row
  have hmem : ∀ {t}, t ∈ rows ↔ p.row ≤ t ∧ t ≠ p.row := by
    intro t
    rw [List.mem_filter, mem_rowsFrom, decide_eq_true_iff]
  have hblocks : ∀ t, opaqueAt (setSky s p NO_LIGHT) ⟨p.x, t, p.z⟩ = opaqueAt s ⟨p.x, t, p.z⟩ :=
    fun t => opaqueAt_congr (blockAt_setSky s p _ NO_LIGHT)
  have hdim : ∀ k, dim NO_LIGHT k = NO_LIGHT := fun k => Fin.ext (Nat.zero_sub k)
  unfold recalcSkyLightOnPlace
  rw [skyAt_climb _ _ rows ((nodup_rowsFrom _).filter _), hdim]
  by_cases hq : q = p
  · -- The row of the placed block is not among those that the loop climbs.
    subst hq
    refine (if_neg fun h => (hmem.1 h.2.2.1).2 rfl).trans ?_
    refine (skyAt_setSky_self s q NO_LIGHT).trans (if_pos ⟨rfl, rfl, le_rfl, ?_⟩).symm
    intro t ht ht'
    exact absurd ht' (not_lt.2 ht.le)
  · rw [skyAt_setSky_of_ne s NO_LIGHT hq]
    refine if_ctx_congr ?_ (fun _ => rfl) fun _ => rfl
    refine and_congr_right fun hx => and_congr_right fun hz => ?_
    have hne : q.row ≠ p.row := by
      intro h
      obtain ⟨x, row, z⟩ := q
      obtain ⟨rfl, rfl, rfl⟩ : x = p.x ∧ row = p.row ∧ z = p.z := ⟨hx, h, hz⟩
      exact hq rfl
    rw [hmem, and_iff_left hne]
    refine and_congr_right fun hle => ?_
    have hbefore : rowsBefore rows q.row = rows.filter fun u => u < q.row :=
      rowsBefore_eq_filter (r := fun t u => t < u) (fun t => lt_irrefl t)
        (fun _ _ h => not_lt.2 h.le) (((List.pairwise_lt_finRange 384).filter _).filter _)
        (hmem.2 ⟨hle, hne⟩)
    refine (or_iff_left (Nat.not_lt_zero _)).trans ?_
    rw [hbefore]
    unfold opaqueIn
    rw [List.countP_eq_zero]
    constructor
    · intro h t ht ht'
      have := h t (List.mem_filter.2 ⟨hmem.2 ⟨ht.le, ht.ne'⟩, decide_eq_true ht'⟩)
      rw [hblocks] at this
      exact Bool.eq_false_iff.2 this
    · intro h t ht
      obtain ⟨hrow, hlt⟩ := List.mem_filter.1 ht
      obtain ⟨hle', hne'⟩ := hmem.1 hrow
      rw [hblocks, h t (lt_of_le_of_ne hle' hne'.symm) (of_decide_eq_true hlt)]
      exact Bool.false_ne_true

/-- With no opaque block above, the light above is the light of the sky. -/
theorem lightAbove_of_clear {s : Sections} {p : Spot}
    (h : ∀ t, p.row < t → opaqueAt s ⟨p.x, t, p.z⟩ = false) : lightAbove s p = MAX_LIGHT := by
  unfold lightAbove
  have hnone : (rowsFrom p.row).reverse.find?
      (fun t => t != p.row && opaqueAt s ⟨p.x, t, p.z⟩) = none := by
    refine List.find?_eq_none.2 fun t ht hop => ?_
    obtain ⟨hne, hop⟩ := Bool.and_eq_true_iff.1 hop
    have hlt := lt_of_le_of_ne (mem_rowsFrom.1 (List.mem_reverse.1 ht)) (bne_iff_ne.1 hne).symm
    rw [h t hlt] at hop
    cases hop
  rw [hnone]

/-- The topmost opaque block above gives its own light less one. -/
theorem lightAbove_of_opaqueAt {s : Sections} {p : Spot} {t : Row} (ht : p.row < t)
    (hop : opaqueAt s ⟨p.x, t, p.z⟩ = true) (htop : ∀ u, t < u → opaqueAt s ⟨p.x, u, p.z⟩ = false) :
    lightAbove s p = lower ((skyAt s ⟨p.x, t, p.z⟩).getD NO_LIGHT) := by
  unfold lightAbove
  have hsorted : (rowsFrom p.row).reverse.Pairwise fun t u => u < t :=
    List.pairwise_reverse.2 ((List.pairwise_lt_finRange 384).filter _)
  cases hfind : (rowsFrom p.row).reverse.find?
      (fun t => t != p.row && opaqueAt s ⟨p.x, t, p.z⟩) with
  | none =>
      refine absurd ?_ (List.find?_eq_none.1 hfind t
        (List.mem_reverse.2 (mem_rowsFrom.2 ht.le)))
      exact Bool.and_eq_true_iff.2 ⟨bne_iff_ne.2 ht.ne', hop⟩
  | some u =>
      obtain ⟨hu, front, back, hsplit, hfront⟩ := List.find?_eq_some_iff_append.1 hfind
      obtain ⟨_, huop⟩ := Bool.and_eq_true_iff.1 hu
      have htu : t = u := by
        have hmem : t ∈ front ++ u :: back := hsplit ▸ List.mem_reverse.2 (mem_rowsFrom.2 ht.le)
        rcases List.mem_append.1 hmem with hf | hb
        · have := hfront t hf
          rw [hop, Bool.and_true] at this
          simp [ht.ne'] at this
        · rcases List.mem_cons.1 hb with heq | hback
          · exact heq
          · rw [hsplit] at hsorted
            have hlt := (List.pairwise_cons.1 (List.pairwise_append.1 hsorted).2.1).1 t hback
            rw [htop u hlt] at huop
            cases huop
      rw [htu]

/-! ## Counting opaque blocks -/

theorem opaqueIn_filter (s : Sections) (x z : Fin 16) (P : Row → Prop) [DecidablePred P] :
    opaqueIn s x z ((List.finRange 384).filter P) =
      (Finset.univ.filter fun t => P t ∧ opaqueAt s ⟨x, t, z⟩ = true).card := by
  unfold opaqueIn
  rw [List.countP_eq_length_filter, List.filter_filter,
    ← List.toFinset_card_of_nodup ((List.nodup_finRange _).filter _)]
  congr 1
  ext t
  rw [List.mem_toFinset, List.mem_filter, Finset.mem_filter, Bool.and_eq_true, decide_eq_true_iff,
    and_iff_right (List.mem_finRange t), and_iff_right (Finset.mem_univ t), and_comm]

section Counting

variable {s : Sections} {p : Spot} {t : Row}

theorem opaqueAbove_eq_zero :
    opaqueAbove s p = 0 ↔ ∀ u, p.row < u → opaqueAt s ⟨p.x, u, p.z⟩ = false := by
  unfold opaqueAbove
  rw [opaqueIn_filter, Finset.card_eq_zero, Finset.filter_eq_empty_iff]
  constructor
  · intro h u hu
    exact Bool.eq_false_iff.2 fun hop => h (Finset.mem_univ u) ⟨hu, hop⟩
  · rintro h u _ ⟨hu, hop⟩
    exact absurd hop (Bool.eq_false_iff.1 (h u hu))

theorem opaqueFrom_eq_zero :
    opaqueFrom s p t = 0 ↔ ∀ u, p.row ≤ u → u < t → opaqueAt s ⟨p.x, u, p.z⟩ = false := by
  unfold opaqueFrom opaqueIn
  rw [List.countP_eq_zero]
  constructor
  · intro h u hu hut
    refine Bool.eq_false_iff.2 (h u (List.mem_filter.2 ⟨mem_rowsFrom.2 hu, ?_⟩))
    exact decide_eq_true hut
  · intro h u hu
    obtain ⟨hrow, hut⟩ := List.mem_filter.1 hu
    exact Bool.eq_false_iff.1 (h u (mem_rowsFrom.1 hrow) (of_decide_eq_true hut))

/-- With nothing opaque in between, at most one opaque block is above `p` and not above row `t`. -/
theorem opaqueAbove_le_of_between
    (hclear : ∀ u, p.row < u → u < t → opaqueAt s ⟨p.x, u, p.z⟩ = false) :
    opaqueAbove s p ≤ opaqueAbove s ⟨p.x, t, p.z⟩ + 1 := by
  unfold opaqueAbove
  rw [opaqueIn_filter, opaqueIn_filter]
  refine le_trans (Finset.card_le_card ?_) (Finset.card_insert_le t _)
  intro u hu
  obtain ⟨_, hpu, hop⟩ := Finset.mem_filter.1 hu
  rcases lt_trichotomy u t with hlt | heq | hgt
  · rw [hclear u hpu hlt] at hop
    cases hop
  · exact heq ▸ Finset.mem_insert_self _ _
  · exact Finset.mem_insert_of_mem (Finset.mem_filter.2 ⟨Finset.mem_univ u, hgt, hop⟩)

/-- The first opaque block above `p` has one opaque block less above it. -/
theorem opaqueAbove_of_first (ht : p.row < t) (hop : opaqueAt s ⟨p.x, t, p.z⟩ = true)
    (hclear : ∀ u, p.row < u → u < t → opaqueAt s ⟨p.x, u, p.z⟩ = false) :
    opaqueAbove s p = opaqueAbove s ⟨p.x, t, p.z⟩ + 1 := by
  refine le_antisymm (opaqueAbove_le_of_between hclear) ?_
  unfold opaqueAbove
  rw [opaqueIn_filter, opaqueIn_filter]
  have hnot : t ∉ Finset.univ.filter fun u => t < u ∧ opaqueAt s ⟨p.x, u, p.z⟩ = true :=
    fun h => lt_irrefl t (Finset.mem_filter.1 h).2.1
  rw [← Finset.card_insert_of_notMem hnot]
  refine Finset.card_le_card fun u hu => ?_
  rcases Finset.mem_insert.1 hu with rfl | hu
  · exact Finset.mem_filter.2 ⟨Finset.mem_univ u, ht, hop⟩
  · obtain ⟨_, htu, huop⟩ := Finset.mem_filter.1 hu
    exact Finset.mem_filter.2 ⟨Finset.mem_univ u, ht.trans htu, huop⟩

/-- A column with an opaque block above `p` has a first and a topmost one. -/
theorem exists_first_opaqueAt (h : opaqueAbove s p ≠ 0) :
    ∃ t, p.row < t ∧ opaqueAt s ⟨p.x, t, p.z⟩ = true ∧
      ∀ u, p.row < u → u < t → opaqueAt s ⟨p.x, u, p.z⟩ = false := by
  unfold opaqueAbove at h
  rw [opaqueIn_filter] at h
  have hne := Finset.card_ne_zero.1 h
  obtain ⟨_, ht, hop⟩ := Finset.mem_filter.1 (Finset.min'_mem _ hne)
  refine ⟨_, ht, hop, fun u hu hut => Bool.eq_false_iff.2 fun huop => ?_⟩
  exact not_lt.2 (Finset.min'_le _ u (Finset.mem_filter.2 ⟨Finset.mem_univ u, hu, huop⟩)) hut

theorem exists_top_opaqueAt (h : opaqueAbove s p ≠ 0) :
    ∃ t, p.row < t ∧ opaqueAt s ⟨p.x, t, p.z⟩ = true ∧
      ∀ u, t < u → opaqueAt s ⟨p.x, u, p.z⟩ = false := by
  unfold opaqueAbove at h
  rw [opaqueIn_filter] at h
  have hne := Finset.card_ne_zero.1 h
  obtain ⟨_, ht, hop⟩ := Finset.mem_filter.1 (Finset.max'_mem _ hne)
  refine ⟨_, ht, hop, fun u htu => Bool.eq_false_iff.2 fun huop => ?_⟩
  exact not_lt.2 (Finset.le_max' _ u
    (Finset.mem_filter.2 ⟨Finset.mem_univ u, ht.trans htu, huop⟩)) htu

end Counting

end Apoptotic
