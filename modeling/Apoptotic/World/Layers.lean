import Apoptotic.World.Growth
import Mathlib.Algebra.Order.BigOperators.Group.List

/-!
# Layered generators

`CustomGenerator` in its layered mode next to `FlatGenerator::with_layers`, of
`mc-world/src/generator.rs`: the blocks they leave, and whether the light they return is the one that
`init_chunk_lighting` computes.

Principal results: `lit_of_paint_iff` — painted blocks are lit when no opaque one is left above a place
of a section that is written; `clear_iff_of_fitting` — what this says of layers; `customLaw_iff`.
-/

namespace Apoptotic

open Flood

/-! ## Light of a chunk -/

/-- The chunk carries the light that `init_chunk_lighting` computes for its blocks. -/
def Chunk.Lit (c : Chunk) : Prop := SameLight c.sections (initChunkLighting c.sections)

theorem skyAt_eq_iff {s : Sections} {q : Spot} {light : Fin 16} :
    skyAt s q = (skyAt s q).map (fun _ => light) ↔ (PresentAt s q → skyLevel s q = light) := by
  unfold skyLevel skyAt PresentAt
  cases s q.section with
  | none => exact ⟨fun _ h => absurd h (by decide), fun _ => rfl⟩
  | some sec => exact ⟨fun h _ => Option.some.inj h, fun h => congrArg some (h rfl)⟩

/-- The light is right when the sky is right in the sections that are there, and the block light
    everywhere. -/
theorem Chunk.Grown.lit_iff {c : Chunk} (h : c.Grown) :
    c.Lit ↔ (∀ q, PresentAt c.sections q → skyLevel c.sections q = openSky c.sections q) ∧
      ∀ q, blockLevel c.sections q = blockLevel (initChunkLighting c.sections) q := by
  have hsky : ∀ q, skyAt c.sections q = skyAt (initChunkLighting c.sections) q ↔
      (PresentAt c.sections q → skyLevel c.sections q = openSky c.sections q) := by
    intro q
    rw [skyAt_initChunkLighting h.placed]
    exact skyAt_eq_iff
  have hblock : ∀ q, blockLightAt c.sections q = blockLightAt (initChunkLighting c.sections) q ↔
      blockLevel c.sections q = blockLevel (initChunkLighting c.sections) q := fun q =>
    blockLightAt_eq_iff (blockAt_initChunkLighting c.sections q).symm
  unfold Chunk.Lit SameLight
  rw [forall_and]
  exact and_congr (forall_congr' hsky) (forall_congr' hblock)

/-- The light of `init_chunk_lighting` is that of the blocks. -/
theorem openSky_congr {s s' : Sections} (h : ∀ q, blockAt s' q = blockAt s q) (q : Spot) :
    openSky s' q = openSky s q := by
  unfold openSky
  rw [opaqueAbove_congr h]

theorem blockLevel_init_congr {s s' : Sections} (h : ∀ q, blockAt s' q = blockAt s q) (q : Spot) :
    blockLevel (initChunkLighting s') q = blockLevel (initChunkLighting s) q := by
  rw [blockLevel_initChunkLighting, blockLevel_initChunkLighting]
  refine blockLevel_propagate_congr (fun r => ?_) (fun r => ?_) q
  · rw [blockAt_clearLight, blockAt_clearLight, h]
  · rw [blockLevel_clearLight, blockLevel_clearLight]

theorem openSky_eq_max_iff {s : Sections} {q : Spot} :
    openSky s q = MAX_LIGHT ↔ opaqueAbove s q = 0 := by
  refine ⟨fun h => ?_, openSky_eq_max⟩
  have hval := congrArg Fin.val h
  rw [openSky_val, show MAX_LIGHT.val = 15 from rfl] at hval
  omega

/-- Where nothing emits light there is no block light. -/
theorem blockLevel_init_of_dark {s : Sections} (h : ∀ q, (emissionAt s q).val = 0) (q : Spot) :
    blockLevel (initChunkLighting s) q = NO_LIGHT := by
  have hnone : emitters (clearLight s) = [] := by
    rw [emitters_congr (blockAt_clearLight s)]
    refine List.filterMap_eq_nil_iff.2 fun p _ => if_neg ?_
    rw [h p]
    exact Nat.lt_irrefl 0
  rw [blockLevel_initChunkLighting]
  unfold propagateBlockLight
  rw [hnone]
  exact (congrArg (fun s => blockLevel s q) (run_nil _ _ _)).trans (blockLevel_clearLight s q)

namespace Terrain

open Draws Text Blocks

/-- `get_block` at a spot. -/
def blockOf (c : Chunk) (q : Spot) : BlockState := (blockAt c.sections q).getD BlockState.AIR

/-! ## Layers -/

/-- The `i32` of a height is inside the world. -/
abbrev InsideWorld (y : Int) : Prop :=
  -64 ≤ (BitVec.ofInt 32 y).toInt ∧ (BitVec.ofInt 32 y).toInt ≤ 319

/-- The row of a height inside the world. -/
def rowOf (y : Int) : Row := Fin.ofNat 384 ((BitVec.ofInt 32 y).toInt + 64).toNat

/-- Every block of the layers is inside the world. -/
def LayersInside (ls : List (BlockState × Int)) : Prop :=
  ∀ cell ∈ layers (-64) ls, InsideWorld cell.1

/-- The calls of `set_block` for the layers, column by column. -/
def layerWrites (ls : List (BlockState × Int)) : List (Spot × BlockState) :=
  (List.finRange 16).flatMap fun x => (List.finRange 16).flatMap fun z =>
    (layers (-64) ls).map fun cell => (⟨x, rowOf cell.1, z⟩, cell.2)

theorem sectionIndex_lt_iff (y : BitVec 32) :
    sectionIndex y < SECTIONS_PER_CHUNK ↔ -64 ≤ y.toInt ∧ y.toInt ≤ 319 := by
  have hlo := BitVec.le_toInt y
  have hhi := BitVec.toInt_lt (x := y)
  unfold sectionIndex SECTIONS_PER_CHUNK MIN_SECTION_Y
  omega

theorem ofInt_height_rowOf {y : Int} (h : InsideWorld y) (x z : Fin 16) :
    BitVec.ofInt 32 (Spot.height ⟨x, rowOf y, z⟩).val = BitVec.ofInt 32 y := by
  have hval : (Spot.height ⟨x, rowOf y, z⟩).val = (BitVec.ofInt 32 y).toInt := by
    unfold Spot.height rowOf
    dsimp only
    rw [Fin.val_ofNat]
    omega
  rw [hval, BitVec.ofInt_toInt]

theorem columns_eq : columns = (List.finRange 16).flatMap fun x =>
    (List.finRange 16).map fun z => ((x.val : Int), (z.val : Int)) := by
  have hspan : span 0 16 = (List.finRange 16).map fun x => (x.val : Int) := by decide
  unfold columns
  rw [hspan, List.flatMap_map]
  simp only [List.map_map, Function.comp_def]

theorem applyLayers_eq_paint {ls : List (BlockState × Int)} (h : LayersInside ls) (c : Chunk) :
    applyLayers ls c = paint (layerWrites ls) c := by
  unfold applyLayers paint layerWrites
  rw [columns_eq, foldlM_flatMap, foldlM_flatMap]
  refine foldlM_congr fun c x _ => ?_
  rw [List.foldlM_map, foldlM_flatMap]
  refine foldlM_congr fun c z _ => ?_
  rw [List.foldlM_map]
  refine foldlM_congr fun c cell hcell => ?_
  rw [ofInt_height_rowOf (h cell hcell), Int.toNat_natCast, Int.toNat_natCast]

/-- Layers that are applied are inside the world. -/
theorem layersInside_of_applyLayers {ls : List (BlockState × Int)} {c c' : Chunk}
    (h : applyLayers ls c = some c') : LayersInside ls := by
  intro cell hcell
  have hcolumn : ((0, 0) : Int × Int) ∈ columns := by decide
  obtain ⟨c₁, c₂, h₁⟩ := exists_step_of_foldlM h hcolumn
  obtain ⟨c₃, c₄, hset⟩ := exists_step_of_foldlM h₁ hcell
  obtain ⟨idx, _, hidx, _⟩ := Chunk.setBlock_spec hset
  exact (sectionIndex_lt_iff _).1 (hidx ▸ idx.isLt)

/-- The blocks that writes leave in an empty chunk. -/
def left (ws : List (Spot × BlockState)) : Spot → BlockState :=
  LastWrite.puts (fun w => some w.1) Prod.snd (fun _ => BlockState.AIR) ws

/-- No opaque block is left above a place of a section that is written. -/
def Clear (ws : List (Spot × BlockState)) : Prop :=
  ∀ q : Spot, (∃ w ∈ ws, w.1.section = q.section) →
    ∀ t, q.row < t → isOpaque (left ws ⟨q.x, t, q.z⟩) = false

/-- The block can be stored in every mode, and emits no light. -/
structure Plain (b : BlockState) : Prop where
  fits : b.Fits
  dark : (lightEmission b).val = 0

/-- A property of air and of every block that is written is one of the blocks that are left. -/
theorem left_of_forall {P : BlockState → Prop} {ws : List (Spot × BlockState)}
    (hair : P BlockState.AIR) (hws : ∀ w ∈ ws, P w.2) (q : Spot) : P (left ws q) := by
  refine (LastWrite.forall_puts_iff fun _ => hair).2 ?_ q
  intro pre w post hw _ _ _
  exact hws w (hw ▸ List.mem_append_right pre List.mem_cons_self)

theorem left_of_missing {ws : List (Spot × BlockState)} {q : Spot}
    (h : ¬ ∃ w ∈ ws, w.1.section = q.section) : left ws q = BlockState.AIR :=
  LastWrite.puts_of_forall_ne fun w hw hq =>
    h ⟨w, hw, congrArg Spot.section (Option.some.inj hq)⟩

def Canvas.empty : Canvas where
  seen _ := [BlockState.AIR]
  cells _ _ := BlockState.AIR
  present _ := false
  sky _ := MAX_LIGHT
  block _ := NO_LIGHT

theorem shown_new' (pos : ChunkPos) : Shown (Chunk.new pos) Canvas.empty where
  container _ := represents_filled BlockState.AIR
  present _ := rfl
  sky _ := rfl
  block _ := rfl

section Painted

variable {ws : List (Spot × BlockState)} {c : Chunk} {pos : ChunkPos}

theorem plain_air : Plain BlockState.AIR := ⟨by decide, by decide⟩

/-- What is read where plain blocks were painted on an empty chunk. -/
theorem blockAt_of_paint (hws : ∀ w ∈ ws, Plain w.2) (hpaint : paint ws (Chunk.new pos) = some c)
    (q : Spot) : blockAt c.sections q =
      if ws.any fun w => w.1.section = q.section then some (left ws q) else none := by
  obtain ⟨c', hc', hshown⟩ := (shown_new' pos).paint ws
  obtain rfl : c' = c := Option.some.inj (hc'.symm.trans hpaint)
  have hleft : (Canvas.empty.puts ws).at' q = left ws q := Canvas.at'_puts _ ws q
  have hfits : directState (left ws q) = left ws q :=
    (directState_eq_self_iff _).2 (left_of_forall plain_air hws q).fits
  rw [hshown.blockAt, Canvas.present_puts]
  unfold Canvas.kept
  rw [hleft, hfits, ite_self]
  rfl

theorem presentAt_of_paint (hpaint : paint ws (Chunk.new pos) = some c) (q : Spot) :
    PresentAt c.sections q ↔ ∃ w ∈ ws, w.1.section = q.section := by
  obtain ⟨c', hc', hshown⟩ := (shown_new' pos).paint ws
  obtain rfl : c' = c := Option.some.inj (hc'.symm.trans hpaint)
  unfold PresentAt
  rw [hshown.present, Canvas.present_puts]
  exact List.any_eq_true.trans (exists_congr fun w => and_congr_right fun _ => decide_eq_true_iff)

/-- **When painted blocks are lit**: the sections that are made come with the light of an open sky. -/
theorem lit_of_paint_iff (hws : ∀ w ∈ ws, Plain w.2) (hpaint : paint ws (Chunk.new pos) = some c) :
    c.Lit ↔ Clear ws := by
  obtain ⟨c', hc', hshown⟩ := (shown_new' pos).paint ws
  obtain rfl : c' = c := Option.some.inj (hc'.symm.trans hpaint)
  have hgrown := Chunk.Grown.paint (.new pos) hpaint
  have hblock := blockAt_of_paint hws hpaint
  have hsolid : ∀ q, opaqueAt c'.sections q = isOpaque (left ws q) := by
    intro q
    unfold opaqueAt
    rw [hblock]
    split
    · rfl
    · rename_i hnone
      rw [left_of_missing fun ⟨w, hw, hsec⟩ =>
        hnone (List.any_eq_true.2 ⟨w, hw, decide_eq_true hsec⟩)]
      rfl
  have hdark : ∀ q, (emissionAt c'.sections q).val = 0 := by
    intro q
    unfold emissionAt
    rw [hblock]
    split
    · exact (left_of_forall plain_air hws q).dark
    · rfl
  rw [hgrown.lit_iff, and_iff_left]
  · refine forall_congr' fun q => ?_
    have hsky : skyLevel c'.sections q = MAX_LIGHT := by
      rw [hshown.sky, Canvas.sky_puts]
      rfl
    rw [presentAt_of_paint hpaint, hsky, eq_comm, openSky_eq_max_iff, opaqueAbove_eq_zero]
    refine forall_congr' fun _ => forall_congr' fun t => forall_congr' fun _ => ?_
    rw [hsolid]
  · intro q
    rw [blockLevel_init_of_dark hdark, hshown.block, Canvas.block_puts]
    rfl

end Painted

/-! ## The layers of the options -/

section Options

variable {F Table : Type} (h : Host F Table)

/-- The layers that the options name. -/
def optionLayers (options : Options) : List (BlockState × Int) :=
  match options "layers" with
  | some s => (splitOn ',' [] s.toList).filterMap (parseLayer h)
  | none => []

theorem buildLayers_eq (options : Options) : buildLayers h options =
    if (optionLayers h options).isEmpty then defaultLayers else optionLayers h options := rfl

theorem plain_of_byName {name : String} {id : BlockId} (hname : byName h name = some id) :
    Plain id.state := by
  refine ⟨fits_state id, ?_⟩
  unfold byName at hname
  split at hname <;> first | (cases hname; decide) | cases hname

theorem plain_of_mem_optionLayers {options : Options} {l : BlockState × Int}
    (hl : l ∈ optionLayers h options) : Plain l.1 := by
  unfold optionLayers at hl
  cases hs : options "layers" with
  | none =>
      rw [hs] at hl
      cases hl
  | some s =>
      rw [hs] at hl
      obtain ⟨part, _, hpart⟩ := List.mem_filterMap.1 hl
      obtain ⟨⟨name, thickness⟩, _, hrest⟩ := Option.bind_eq_some_iff.1 hpart
      obtain ⟨id, hid, hrest⟩ := Option.bind_eq_some_iff.1 hrest
      obtain ⟨t, _, ht⟩ := Option.bind_eq_some_iff.1 hrest
      cases ht
      exact plain_of_byName h hid

theorem plain_of_mem_buildLayers {options : Options} {l : BlockState × Int}
    (hl : l ∈ buildLayers h options) : Plain l.1 := by
  rw [buildLayers_eq] at hl
  split at hl
  · have hall : ∀ l ∈ defaultLayers, (lightEmission l.1).val = 0 ∧ l.1.Fits := by decide
    exact ⟨(hall l hl).2, (hall l hl).1⟩
  · exact plain_of_mem_optionLayers h hl

end Options

/-! ## The blocks of a list of layers -/

theorem exists_layer_of_mem {ls : List (BlockState × Int)} {y : Int} {cell : Int × BlockState}
    (hcell : cell ∈ layers y ls) : ∃ l ∈ ls, l.1 = cell.2 := by
  induction ls generalizing y with
  | nil => cases hcell
  | cons l ls ih =>
      obtain ⟨block, thickness⟩ := l
      rcases List.mem_append.1 hcell with hfirst | hrest
      · obtain ⟨dy, _, rfl⟩ := List.mem_map.1 hfirst
        exact ⟨_, List.mem_cons_self, rfl⟩
      · obtain ⟨l, hl, hblock⟩ := ih hrest
        exact ⟨l, List.mem_cons_of_mem _ hl, hblock⟩

theorem mem_layerWrites {ls : List (BlockState × Int)} {w : Spot × BlockState} :
    w ∈ layerWrites ls ↔ ∃ x z, ∃ cell ∈ layers (-64) ls, (⟨x, rowOf cell.1, z⟩, cell.2) = w := by
  unfold layerWrites
  simp only [List.mem_flatMap, List.mem_map, List.mem_finRange, true_and]

theorem plain_of_mem_layerWrites {ls : List (BlockState × Int)} (hls : ∀ l ∈ ls, Plain l.1)
    {w : Spot × BlockState} (hw : w ∈ layerWrites ls) : Plain w.2 := by
  obtain ⟨x, z, cell, hcell, rfl⟩ := mem_layerWrites.1 hw
  obtain ⟨l, hl, hblock⟩ := exists_layer_of_mem hcell
  exact hblock ▸ hls l hl

/-- Thicknesses that are not negative, and fill the world at most. -/
structure Fitting (ls : List (BlockState × Int)) : Prop where
  nonneg : ∀ l ∈ ls, 0 ≤ l.2
  total : (ls.map Prod.snd).sum ≤ 384

theorem layers_between {ls : List (BlockState × Int)} (hnonneg : ∀ l ∈ ls, 0 ≤ l.2) {y : Int}
    {cell : Int × BlockState} (hcell : cell ∈ layers y ls) :
    y ≤ cell.1 ∧ cell.1 < y + (ls.map Prod.snd).sum := by
  induction ls generalizing y with
  | nil => cases hcell
  | cons l ls ih =>
      obtain ⟨block, thickness⟩ := l
      have hthick : 0 ≤ thickness := hnonneg _ List.mem_cons_self
      have hsum : 0 ≤ (ls.map Prod.snd).sum := by
        refine List.sum_nonneg fun t ht => ?_
        obtain ⟨l, hl, rfl⟩ := List.mem_map.1 ht
        exact hnonneg l (List.mem_cons_of_mem _ hl)
      rw [List.map_cons, List.sum_cons]
      rcases List.mem_append.1 hcell with hfirst | hrest
      · obtain ⟨dy, hdy, rfl⟩ := List.mem_map.1 hfirst
        have := mem_span.1 hdy
        omega
      · have := ih (fun l hl => hnonneg l (List.mem_cons_of_mem _ hl)) hrest
        omega

theorem Fitting.inside {ls : List (BlockState × Int)} (h : Fitting ls) : LayersInside ls := by
  intro cell hcell
  have hbetween := layers_between h.nonneg hcell
  have htotal := h.total
  have hy : (BitVec.ofInt 32 cell.1).toInt = cell.1 := toInt_height ⟨cell.1, by omega, by omega⟩
  unfold InsideWorld
  rw [hy]
  omega

/-- Layers inside the world are painted. -/
theorem exists_paint {ls : List (BlockState × Int)} (h : LayersInside ls) (pos : ChunkPos) :
    ∃ c, applyLayers ls (Chunk.new pos) = some c ∧ paint (layerWrites ls) (Chunk.new pos) = some c := by
  obtain ⟨c, hc, _⟩ := (shown_new' pos).paint (layerWrites ls)
  exact ⟨c, (applyLayers_eq_paint h _).trans hc, hc⟩

section Fitting

variable {ls : List (BlockState × Int)}

theorem Fitting.between (h : Fitting ls) {cell : Int × BlockState} (hcell : cell ∈ layers (-64) ls) :
    -64 ≤ cell.1 ∧ cell.1 ≤ 319 := by
  have hbetween := layers_between h.nonneg hcell
  have htotal := h.total
  omega

theorem rowOf_val {y : Int} (hy : -64 ≤ y ∧ y ≤ 319) : ((rowOf y).val : Int) = y + 64 := by
  have htoInt : (BitVec.ofInt 32 y).toInt = y := toInt_height ⟨y, hy⟩
  unfold rowOf
  rw [htoInt, Fin.val_ofNat]
  omega

/-- A height is filled by one layer. -/
theorem layers_unique (hnonneg : ∀ l ∈ ls, 0 ≤ l.2) {y : Int} {cell cell' : Int × BlockState}
    (hcell : cell ∈ layers y ls) (hcell' : cell' ∈ layers y ls) (heq : cell.1 = cell'.1) :
    cell = cell' := by
  induction ls generalizing y with
  | nil => cases hcell
  | cons l ls ih =>
      obtain ⟨block, thickness⟩ := l
      have hrest : ∀ l ∈ ls, 0 ≤ l.2 := fun l hl => hnonneg l (List.mem_cons_of_mem _ hl)
      -- The first layer is below the others.
      have hbelow : ∀ {c}, c ∈ (span 0 thickness).map (fun dy => (y + dy, block)) →
          c.1 < y + thickness ∧ c.2 = block := by
        intro c hc
        obtain ⟨dy, hdy, rfl⟩ := List.mem_map.1 hc
        have := mem_span.1 hdy
        exact ⟨by omega, rfl⟩
      have habove : ∀ {c}, c ∈ layers (y + thickness) ls → y + thickness ≤ c.1 :=
        fun hc => (layers_between hrest hc).1
      rcases List.mem_append.1 hcell with hfirst | hlater
      · rcases List.mem_append.1 hcell' with hfirst' | hlater'
        · exact Prod.ext heq ((hbelow hfirst).2.trans (hbelow hfirst').2.symm)
        · have := (hbelow hfirst).1
          have := habove hlater'
          omega
      · rcases List.mem_append.1 hcell' with hfirst' | hlater'
        · have := (hbelow hfirst').1
          have := habove hlater
          omega
        · exact ih hrest hlater hlater'

/-- Layers that fill anything fill the height they begin at. -/
theorem exists_bottom (hnonneg : ∀ l ∈ ls, 0 ≤ l.2) {y : Int} {cell : Int × BlockState}
    (hcell : cell ∈ layers y ls) : ∃ b, (y, b) ∈ layers y ls := by
  induction ls generalizing y with
  | nil => cases hcell
  | cons l ls ih =>
      obtain ⟨block, thickness⟩ := l
      have hthick : 0 ≤ thickness := hnonneg _ List.mem_cons_self
      by_cases hzero : thickness = 0
      · subst hzero
        rcases List.mem_append.1 hcell with hfirst | hlater
        · cases hfirst
        · rw [Int.add_zero] at hlater
          obtain ⟨b, hb⟩ := ih (fun l hl => hnonneg l (List.mem_cons_of_mem _ hl)) hlater
          refine ⟨b, List.mem_append_right _ ?_⟩
          rw [Int.add_zero]
          exact hb
      · refine ⟨block, List.mem_append_left _ (List.mem_map.2 ⟨0, ?_, ?_⟩)⟩
        · exact mem_span.2 ⟨le_rfl, by omega⟩
        · rw [Int.add_zero]

theorem left_layerWrites (h : Fitting ls) {cell : Int × BlockState} (hcell : cell ∈ layers (-64) ls)
    (x z : Fin 16) : left (layerWrites ls) ⟨x, rowOf cell.1, z⟩ = cell.2 := by
  refine LastWrite.puts_eq_of_forall ⟨_, mem_layerWrites.2 ⟨x, z, cell, hcell, rfl⟩, rfl⟩ ?_
  intro w hw hwq
  obtain ⟨x', z', cell', hcell', rfl⟩ := mem_layerWrites.1 hw
  have hrow : rowOf cell'.1 = rowOf cell.1 := congrArg Spot.row (Option.some.inj hwq)
  have hval : ((rowOf cell'.1).val : Int) = (rowOf cell.1).val := by rw [hrow]
  rw [rowOf_val (h.between hcell'), rowOf_val (h.between hcell)] at hval
  rw [layers_unique h.nonneg hcell' hcell (by omega)]

/-- **Where layers lie on each other** nothing opaque may be above the bottom of the world. -/
theorem clear_iff_of_fitting (h : Fitting ls) : Clear (layerWrites ls) ↔
    ∀ cell ∈ layers (-64) ls, -64 < cell.1 → isOpaque cell.2 = false := by
  constructor
  · intro hclear cell hcell habove
    obtain ⟨b, hb⟩ := exists_bottom h.nonneg hcell
    let q : Spot := ⟨⟨0, by decide⟩, rowOf (-64), ⟨0, by decide⟩⟩
    have hlow : q.row < rowOf cell.1 := by
      have := rowOf_val (h.between hcell)
      have hq : ((q.row.val : Nat) : Int) = -64 + 64 := rowOf_val ⟨by decide, by decide⟩
      exact Fin.lt_def.2 (by omega)
    have hleft := hclear q ⟨_, mem_layerWrites.2 ⟨q.x, q.z, (-64, b), hb, rfl⟩, rfl⟩ _ hlow
    rw [left_layerWrites h hcell] at hleft
    exact hleft
  · intro hsolid q _ t ht
    by_cases hfilled : ∃ cell ∈ layers (-64) ls, rowOf cell.1 = t
    · obtain ⟨cell, hcell, rfl⟩ := hfilled
      rw [left_layerWrites h hcell]
      refine hsolid cell hcell ?_
      have := rowOf_val (h.between hcell)
      have hlt := Fin.lt_def.1 ht
      omega
    · have hair : left (layerWrites ls) ⟨q.x, t, q.z⟩ = BlockState.AIR := by
        refine LastWrite.puts_of_forall_ne fun w hw hwq => hfilled ?_
        obtain ⟨x, z, cell, hcell, rfl⟩ := mem_layerWrites.1 hw
        exact ⟨cell, hcell, congrArg Spot.row (Option.some.inj hwq)⟩
      rw [hair]
      rfl

end Fitting

/-! ## Custom generators -/

section Custom

variable {F Table : Type} (h : Host F Table)

/-- The mode is one of layers. -/
def Layered (options : Options) : Prop := ¬ (mode options = "heightmap" ∨ mode options = "noise")

/-- What is asked of a custom generator: the blocks and the light of `FlatGenerator::with_layers` on
    its layers, and the light of its blocks when the generator that it uses has it. -/
structure CustomLaw (options : Options) (pos : ChunkPos) (seed : BitVec 64)
    (t : Drawing (Tables Table)) : Prop where
  agrees : Layered options → Fitting (optionLayers h options) → ∃ c c',
    (Generator.custom options).generateChunk h pos seed t = some (c, t) ∧
      (Generator.flat (optionLayers h options)).generateChunk h pos seed t = some (c', t) ∧
      (∀ q, blockOf c q = blockOf c' q) ∧ SameLight c.sections c'.sections
  lit : ∀ r, (Generator.custom options).generateChunk h pos seed t = some r →
    (¬ Layered options → ∀ r', (buildNoise h options).generateChunk h pos seed t = some r' → r'.1.Lit) →
    r.1.Lit

/-- The options name a layer, and their layers leave no opaque block above a place of a section that
    they write. -/
def LayersClear (options : Options) : Prop :=
  Layered options → optionLayers h options ≠ [] ∧
    (LayersInside (optionLayers h options) → Clear (layerWrites (optionLayers h options)))

theorem generateChunk_custom {options : Options} (hl : Layered options) (pos : ChunkPos)
    (seed : BitVec 64) (t : Drawing (Tables Table)) :
    (Generator.custom options).generateChunk h pos seed t =
      ((applyLayers (buildLayers h options) (Chunk.new pos)).map fun c => { c with dirty := false }).map
        fun c => (c, t) := by
  unfold Generator.generateChunk
  rw [if_neg hl]
  rfl

theorem buildLayers_of_ne_nil {options : Options} (hne : optionLayers h options ≠ []) :
    buildLayers h options = optionLayers h options := by
  rw [buildLayers_eq, if_neg (by simpa using hne)]

theorem generateChunk_flat (ls : List (BlockState × Int)) (pos : ChunkPos) (seed : BitVec 64)
    (t : Drawing (Tables Table)) : (Generator.flat ls).generateChunk h pos seed t =
      ((applyLayers ls (Chunk.new pos)).map light).map fun c => (c, t) := rfl

theorem mem_left_of_some {α β : Type} {a a' : α} {b b' : β} (h : some (a, b) = some (a', b')) : a = a' :=
  congrArg Prod.fst (Option.some.inj h)

/-- Options that name no layer have the default ones: their chunk has a section, the one of no layers
    has none. -/
theorem ne_nil_of_customLaw {options : Options} {pos : ChunkPos} {seed : BitVec 64}
    {t : Drawing (Tables Table)} (hlaw : CustomLaw h options pos seed t) (hl : Layered options) :
    optionLayers h options ≠ [] := by
  intro hnil
  have hfit : Fitting defaultLayers := ⟨by decide, by decide⟩
  have hfit' : Fitting (optionLayers h options) := by
    rw [hnil]
    exact ⟨by simp, by simp⟩
  obtain ⟨c, c', hc, hc', _, hlight⟩ := hlaw.agrees hl hfit'
  have hbuild : buildLayers h options = defaultLayers := by
    rw [buildLayers_eq, hnil]
    rfl
  obtain ⟨full, happly, hpaint⟩ := exists_paint hfit.inside pos
  obtain ⟨bare, happly', hpaint'⟩ := exists_paint hfit'.inside pos
  rw [generateChunk_custom h hl, hbuild, happly] at hc
  rw [generateChunk_flat, happly'] at hc'
  let q : Spot := ⟨⟨0, by decide⟩, rowOf (-64), ⟨0, by decide⟩⟩
  have hthere : PresentAt full.sections q := (presentAt_of_paint hpaint q).2
    ⟨_, mem_layerWrites.2 ⟨q.x, q.z, (-64, BlockId.state BEDROCK), by decide, rfl⟩, rfl⟩
  have hmissing : ¬ PresentAt bare.sections q := by
    rw [presentAt_of_paint hpaint', hnil]
    rintro ⟨w, hw, _⟩
    obtain ⟨_, _, cell, hcell, _⟩ := mem_layerWrites.1 hw
    cases hcell
  have hsky : skyAt full.sections q = (skyAt bare.sections q).map fun _ => openSky bare.sections q := by
    refine Eq.trans ?_ ((hlight q).1.trans ?_)
    · rw [← mem_left_of_some hc]
    · rw [← mem_left_of_some hc']
      exact skyAt_initChunkLighting (Chunk.Grown.paint (.new pos) hpaint').placed q
  unfold skyAt at hsky
  unfold PresentAt at hthere hmissing
  rw [Option.not_isSome_iff_eq_none.1 hmissing] at hsky
  obtain ⟨sec, hsec⟩ := Option.isSome_iff_exists.1 hthere
  rw [hsec] at hsky
  cases hsky

/-- **When the layers of a custom generator agree and are lit.** -/
theorem customLaw_iff (options : Options) (pos : ChunkPos) (seed : BitVec 64)
    (t : Drawing (Tables Table)) : CustomLaw h options pos seed t ↔ LayersClear h options := by
  constructor
  · intro hlaw hl
    have hne := ne_nil_of_customLaw h hlaw hl
    refine ⟨hne, fun hinside => ?_⟩
    obtain ⟨c, happly, hpaint⟩ := exists_paint hinside pos
    have hlit : c.Lit := by
      refine hlaw.lit ({ c with dirty := false }, t) ?_ fun hnot => absurd hl hnot
      rw [generateChunk_custom h hl, buildLayers_of_ne_nil h hne, happly]
      rfl
    exact (lit_of_paint_iff (fun w hw =>
      plain_of_mem_layerWrites (fun l hl => plain_of_mem_optionLayers h hl) hw) hpaint).1 hlit
  · intro hclear
    have hpainted : Layered options → LayersInside (optionLayers h options) → ∃ c,
        applyLayers (optionLayers h options) (Chunk.new pos) = some c ∧ c.Lit := by
      intro hl hinside
      obtain ⟨c, happly, hpaint⟩ := exists_paint hinside pos
      refine ⟨c, happly, (lit_of_paint_iff (fun w hw => plain_of_mem_layerWrites
        (fun l hl => plain_of_mem_optionLayers h hl) hw) hpaint).2 ?_⟩
      exact (hclear hl).2 hinside
    constructor
    · intro hl hfit
      obtain ⟨c, happly, hlit⟩ := hpainted hl hfit.inside
      refine ⟨{ c with dirty := false }, light c, ?_, ?_, fun q => ?_, hlit⟩
      · rw [generateChunk_custom h hl, buildLayers_of_ne_nil h (hclear hl).1, happly]
        rfl
      · unfold Generator.generateChunk
        rw [happly]
        rfl
      · exact congrArg (fun o : Option BlockState => o.getD BlockState.AIR)
          (blockAt_initChunkLighting c.sections q).symm
    · intro r hr hnoise
      by_cases hl : Layered options
      · rw [generateChunk_custom h hl, buildLayers_of_ne_nil h (hclear hl).1] at hr
        obtain ⟨c₁, hc₁, rfl⟩ := Option.map_eq_some_iff.1 hr
        obtain ⟨c₂, hc₂, rfl⟩ := Option.map_eq_some_iff.1 hc₁
        obtain ⟨c, happly, hlit⟩ := hpainted hl (layersInside_of_applyLayers hc₂)
        obtain rfl := Option.some.inj (happly.symm.trans hc₂)
        exact hlit
      · refine hnoise hl r ?_
        unfold Generator.generateChunk at hr
        rw [if_pos (not_not.1 hl)] at hr
        exact hr

end Custom

end Terrain

end Apoptotic
