import Apoptotic.World.Layers
import Apoptotic.World.Reproducible

/-!
# Composed generators

`LayerComposer` of `mc-world/src/generator.rs`: the blocks of the last generator that has one, and the
light of the first generator.

Principal results: `blockAt_of_overlays` — what a composition holds; `composed_iff`, `composeLaw_iff` —
it is lit when the blocks that are copied change no light; `equivalent_iff`.
-/

namespace Apoptotic.Terrain

open Draws Blocks

/-! ## Compositions -/

/-- What an upper chunk puts over the others: its blocks that are not air. -/
def overlayWrites (upper : Chunk) : List (Spot × BlockState) :=
  chunkSpots.filterMap fun q => if (blockOf upper q).isAir then none else some (q, blockOf upper q)

/-- What all the upper chunks put over the first one. -/
def overlays (uppers : List Chunk) : List (Spot × BlockState) := uppers.flatMap overlayWrites

/-- The block of the last chunk whose block at the spot is not air. -/
def lastBlock (cs : List Chunk) (q : Spot) : Option BlockState :=
  (cs.map fun c => blockOf c q).reverse.find? fun b => !b.isAir

/-- The container of a section has seen more states than direct mode can tell apart, once the states
    of the upper chunks are set in it. -/
def crowded (first : Chunk) (uppers : List Chunk) (i : Fin SECTIONS_PER_CHUNK) : Bool :=
  let states := ((overlays uppers).filter fun w => w.1.section = i).map Prod.snd
  match (first.container i).mode with
  | .single b => 2 ^ GLOBAL_BITS < (states.foldl see [b]).length
  | .indirect palette _ _ => 2 ^ GLOBAL_BITS < (states.foldl see palette).length
  | .direct _ => true

/-- The block of the last upper chunk that has one, and of the first chunk otherwise. -/
def topBlock (first : Chunk) (uppers : List Chunk) (q : Spot) : BlockState :=
  (lastBlock uppers q).getD (blockOf first q)

/-- The block that is left at a spot; none in a section that no chunk has. -/
def overlaid (first : Chunk) (uppers : List Chunk) (q : Spot) : Option BlockState :=
  if (first.sections q.section).isSome || (overlays uppers).any fun w => w.1.section = q.section then
    some (if crowded first uppers q.section then directState (topBlock first uppers q)
      else topBlock first uppers q)
  else none

/-- A place of the world is read. -/
theorem getBlock_spot {c : Chunk} (h : c.Grown) (q : Spot) :
    c.getBlock q.x (BitVec.ofInt 32 q.height.val) q.z = some (blockOf c q) := by
  have hidx : sectionIndex (BitVec.ofInt 32 q.height.val) < SECTIONS_PER_CHUNK :=
    sectionIndex_height q.height
  have hsection : (⟨_, hidx⟩ : Fin SECTIONS_PER_CHUNK) = q.section := Fin.ext q.sectionIndex_height
  unfold Chunk.getBlock blockOf blockAt
  rw [dif_pos hidx, q.cell_height, hsection]
  cases hsec : c.sections q.section with
  | none => rfl
  | some sec =>
      obtain ⟨seen, f, hf⟩ := (h.sound _ sec hsec).blocks
      have hget := getAt_of_represents hf q.cell.idx_lt
      have hblock : sec.getBlock q.cell = _ := congrArg (fun o => Option.getD o BlockState.AIR) hget
      exact hget.trans (congrArg some hblock.symm)

theorem heights_eq : span (-64) 320 = (List.finRange 384).map fun row => (row.val : Int) - 64 := by
  unfold span
  rw [show (320 - -64 : Int).toNat = 384 from rfl, ← List.map_coe_finRange_eq_range, List.map_map]
  refine List.map_congr_left fun row _ => ?_
  rw [Function.comp_apply]
  omega

/-- The loops of the composer copy what the upper chunk puts over the others. -/
theorem overlay_eq_paint {upper : Chunk} (h : upper.Grown) (c : Chunk) :
    overlay upper c = paint (overlayWrites upper) c := by
  have hcast : ∀ x : Fin 16, ((x.val : Int) % 2 ^ 64).toNat = x.val := by omega
  unfold overlay paint overlayWrites chunkSpots
  rw [columns_eq, heights_eq, List.foldlM_filterMap, foldlM_flatMap, foldlM_flatMap, foldlM_flatMap]
  refine foldlM_congr fun c x _ => ?_
  rw [List.foldlM_map, foldlM_flatMap]
  refine foldlM_congr fun c z _ => ?_
  rw [List.foldlM_map, List.foldlM_map, List.foldlM_map]
  refine foldlM_congr fun c row _ => ?_
  have hread : readBlock upper x.val ((row.val : Int) - 64) z.val = some (blockOf upper ⟨x, row, z⟩) := by
    unfold readBlock
    rw [hcast, hcast]
    exact getBlock_spot h ⟨x, row, z⟩
  dsimp only
  rw [hread]
  by_cases hair : (blockOf upper ⟨x, row, z⟩).isAir = true
  · rw [if_pos hair]
    exact if_pos hair
  · rw [if_neg hair]
    exact if_neg hair

theorem length_le_length_see (seen : List BlockState) (b : BlockState) :
    seen.length ≤ (see seen b).length := by
  unfold see
  split
  · exact le_rfl
  · rw [List.length_append]
    exact Nat.le_add_right _ _

theorem length_le_length_foldl_see (seen bs : List BlockState) :
    seen.length ≤ (bs.foldl see seen).length := by
  induction bs generalizing seen with
  | nil => exact le_rfl
  | cons b bs ih => exact (length_le_length_see seen b).trans (ih (see seen b))

/-- A canvas of the first chunk tells whether a section is crowded. -/
theorem crowded_iff {first : Chunk} {v : Canvas} (h : Shown first v) (uppers : List Chunk)
    (i : Fin SECTIONS_PER_CHUNK) :
    crowded first uppers i = true ↔ ¬ (v.puts (overlays uppers)).Roomy i := by
  have hrep := h.container i
  unfold crowded Canvas.Roomy
  rw [Canvas.seen_puts, not_le]
  dsimp only
  cases hmode : (first.container i).mode with
  | single b =>
      rw [hmode] at hrep
      obtain ⟨hseen, _⟩ := hrep
      rw [hseen]
      exact decide_eq_true_iff
  | indirect palette data bits =>
      rw [hmode] at hrep
      obtain ⟨hseen, _⟩ := hrep
      rw [hseen]
      exact decide_eq_true_iff
  | direct data =>
      rw [hmode] at hrep
      exact iff_of_true rfl (hrep.1.trans_le (length_le_length_foldl_see _ _))

theorem directState_idem (b : BlockState) : directState (directState b) = directState b := by
  refine (directState_eq_self_iff _).2 ⟨rfl, ?_⟩
  have hlt : b.id.toNat % 2 ^ GLOBAL_BITS < 2 ^ GLOBAL_BITS := Nat.mod_lt _ (Nat.two_pow_pos _)
  unfold directState BlockState.new
  dsimp only
  rw [BitVec.toNat_ofNat, Nat.mod_eq_of_lt (hlt.trans (by decide))]
  exact hlt

/-- The block that was set last is the one that is read, up to what direct mode keeps of it. -/
theorem at'_of_shown {c : Chunk} {v : Canvas} (h : Shown c v) (q : Spot) :
    (v.Roomy q.section → v.at' q = blockOf c q) ∧
      directState (v.at' q) = directState (blockOf c q) := by
  unfold blockOf
  rw [h.blockAt]
  by_cases hpresent : v.present q.section = true
  · rw [if_pos hpresent, Option.getD_some]
    unfold Canvas.kept
    split
    · exact ⟨fun _ => rfl, rfl⟩
    · rename_i hroomy
      exact ⟨fun hr => absurd hr hroomy, (directState_idem _).symm⟩
  · -- A section that is not there stands for one of air.
    have hair : v.at' q = BlockState.AIR := by
      have hrep := h.container q.section
      have hnone : c.sections q.section = none := by
        rw [← Option.not_isSome_iff_eq_none, h.present]
        exact hpresent
      unfold Chunk.container at hrep
      rw [hnone] at hrep
      exact hrep.2 _ q.cell.idx_lt
    rw [if_neg hpresent, hair]
    exact ⟨fun _ => rfl, rfl⟩

/-- A spot is written where one of the upper chunks has a block, by the last of them. -/
theorem puts_overlayWrites (t : Spot → BlockState) (upper : Chunk) (q : Spot) :
    LastWrite.puts (fun w => some w.1) Prod.snd t (overlayWrites upper) q =
      if (blockOf upper q).isAir then t q else blockOf upper q := by
  have hmem : ∀ w ∈ overlayWrites upper, (blockOf upper w.1).isAir = false ∧ w.2 = blockOf upper w.1 := by
    intro w hw
    obtain ⟨r, _, hr⟩ := List.mem_filterMap.1 hw
    split at hr
    · cases hr
    · rename_i hair
      cases hr
      exact ⟨Bool.eq_false_iff.2 hair, rfl⟩
  by_cases hair : (blockOf upper q).isAir = true
  · rw [if_pos hair]
    refine LastWrite.puts_of_forall_ne fun w hw hwq => ?_
    rw [← Option.some.inj hwq, (hmem w hw).1] at hair
    cases hair
  · rw [if_neg hair]
    refine LastWrite.puts_eq_of_forall ⟨(q, blockOf upper q), ?_, rfl⟩ fun w hw hwq => ?_
    · exact List.mem_filterMap.2 ⟨q, mem_chunkSpots q, if_neg hair⟩
    · rw [(hmem w hw).2, Option.some.inj hwq]

/-- The block that the overlays leave at a spot, before it is stored. -/
theorem puts_overlays (t : Spot → BlockState) (uppers : List Chunk) (q : Spot) :
    LastWrite.puts (fun w => some w.1) Prod.snd t (overlays uppers) q =
      (lastBlock uppers q).getD (t q) := by
  induction uppers using List.reverseRecOn with
  | nil => rfl
  | append_singleton uppers upper ih =>
      have happ : LastWrite.puts (fun w => some w.1) Prod.snd t (overlays (uppers ++ [upper])) =
          LastWrite.puts (fun w => some w.1) Prod.snd
            (LastWrite.puts (fun w => some w.1) Prod.snd t (overlays uppers)) (overlayWrites upper) := by
        unfold overlays LastWrite.puts
        rw [List.flatMap_append, List.foldl_append, List.flatMap_singleton]
      rw [happ, puts_overlayWrites]
      unfold lastBlock at ih ⊢
      rw [List.map_append, List.reverse_append, List.map_singleton, List.reverse_singleton,
        List.singleton_append, List.find?_cons]
      by_cases hair : (blockOf upper q).isAir = true
      · rw [if_pos hair, ih, hair]
        rfl
      · rw [if_neg hair, Bool.eq_false_iff.2 hair]
        rfl

section Composed

variable {first c : Chunk} {uppers : List Chunk}

/-- **What a composition holds.** -/
theorem blockAt_of_overlays {v : Canvas} (h : Shown first v)
    (hshown : Shown c (v.puts (overlays uppers))) (q : Spot) :
    blockAt c.sections q = overlaid first uppers q := by
  obtain ⟨hroomy, hdirect⟩ := at'_of_shown h q
  have hat : (v.puts (overlays uppers)).at' q = (lastBlock uppers q).getD (v.at' q) :=
    (Canvas.at'_puts v _ q).trans (puts_overlays _ _ _)
  have hcrowded := crowded_iff h uppers q.section
  rw [hshown.blockAt, Canvas.present_puts, ← h.present]
  unfold overlaid
  split
  · refine congrArg some ?_
    unfold Canvas.kept topBlock
    rw [hat]
    by_cases hr : (v.puts (overlays uppers)).Roomy q.section
    · have hfirst : v.Roomy q.section := by
        unfold Canvas.Roomy at hr ⊢
        rw [Canvas.seen_puts] at hr
        exact (length_le_length_foldl_see _ _).trans hr
      rw [if_pos hr, if_neg fun h => hcrowded.1 h hr, hroomy hfirst]
    · rw [if_neg hr, if_pos (hcrowded.2 hr)]
      cases lastBlock uppers q with
      | none => exact hdirect
      | some b => rfl
  · rfl

/-- What is asked of a composition of chunks: at every spot the block of the last chunk that is not air
    there, and the light of its blocks when all the chunks have theirs. -/
structure Composed (cs : List Chunk) (c : Chunk) : Prop where
  block : ∀ q b, lastBlock cs q = some b → blockOf c q = b
  air : ∀ q, lastBlock cs q = none → (blockOf c q).isAir = true
  lit : (∀ c' ∈ cs, c'.Lit) → c.Lit

/-- No upper chunk changes the light of the first one, nor the open sky in the sections that it
    lacks. -/
structure LightKept (first : Chunk) (uppers : List Chunk) : Prop where
  sky : ∀ s : Sections, (∀ q, blockAt s q = overlaid first uppers q) → ∀ q, PresentAt s q →
    openSky s q = if (first.sections q.section).isSome then openSky first.sections q else MAX_LIGHT
  block : ∀ s : Sections, (∀ q, blockAt s q = overlaid first uppers q) → ∀ q,
    blockLevel (initChunkLighting s) q = blockLevel (initChunkLighting first.sections) q

/-- The blocks of a crowded section are ones that direct mode can store, and the overlays change no
    light. -/
structure Overlayable (first : Chunk) (uppers : List Chunk) : Prop where
  fits : ∀ q b, lastBlock (first :: uppers) q = some b → crowded first uppers q.section = true → b.Fits
  light : (∀ c ∈ first :: uppers, c.Lit) → LightKept first uppers

theorem lastBlock_cons (first : Chunk) (uppers : List Chunk) (q : Spot) :
    lastBlock (first :: uppers) q =
      (lastBlock uppers q).or (if (blockOf first q).isAir then none else some (blockOf first q)) := by
  unfold lastBlock
  rw [List.map_cons, List.reverse_cons, List.find?_append]
  congr 1
  rw [List.find?_singleton]
  cases (blockOf first q).isAir
  · rfl
  · rfl

theorem mem_overlays_of_lastBlock {q : Spot} {b : BlockState} (h : lastBlock uppers q = some b) :
    ∃ w ∈ overlays uppers, w.1 = q := by
  have hmem := List.mem_of_find?_eq_some h
  have hair := List.find?_some h
  obtain ⟨upper, hupper, rfl⟩ := List.mem_map.1 (List.mem_reverse.1 hmem)
  refine ⟨(q, blockOf upper q), List.mem_flatMap.2 ⟨upper, hupper, ?_⟩, rfl⟩
  refine List.mem_filterMap.2 ⟨q, mem_chunkSpots q, if_neg ?_⟩
  rw [Bool.not_eq_true'] at hair
  rw [hair]
  exact Bool.false_ne_true

/-- The last block is left, as its section stores it. -/
theorem overlaid_of_lastBlock {q : Spot} {b : BlockState} (h : lastBlock (first :: uppers) q = some b) :
    overlaid first uppers q = some (if crowded first uppers q.section then directState b else b) := by
  rw [lastBlock_cons] at h
  unfold overlaid topBlock
  cases hupper : lastBlock uppers q with
  | some b' =>
      rw [hupper, Option.some_or] at h
      obtain rfl := Option.some.inj h
      obtain ⟨w, hw, hwq⟩ := mem_overlays_of_lastBlock hupper
      have hwritten : ((overlays uppers).any fun w => w.1.section = q.section) = true :=
        List.any_eq_true.2 ⟨w, hw, decide_eq_true (congrArg Spot.section hwq)⟩
      rw [if_pos (by rw [hwritten, Bool.or_true]), Option.getD_some]
  | none =>
      rw [hupper, Option.none_or] at h
      split at h
      · cases h
      · rename_i hair
        obtain rfl := Option.some.inj h
        have hpresent : (first.sections q.section).isSome = true := by
          cases hsec : first.sections q.section with
          | some sec => rfl
          | none =>
              unfold blockOf blockAt at hair
              rw [hsec] at hair
              exact absurd rfl hair
        rw [if_pos (by rw [hpresent, Bool.true_or]), Option.getD_none]

theorem isAir_directState {b : BlockState} (h : b.isAir = true) : (directState b).isAir = true := by
  have hid : b.id = 0#32 := by simpa [BlockState.isAir] using h
  unfold directState
  rw [hid]
  rfl

/-- Where no chunk has a block, air is left. -/
theorem isAir_of_lastBlock {q : Spot} (h : lastBlock (first :: uppers) q = none) :
    ((overlaid first uppers q).getD BlockState.AIR).isAir = true := by
  rw [lastBlock_cons, Option.or_eq_none_iff] at h
  obtain ⟨hupper, hfirst⟩ := h
  have hair : (topBlock first uppers q).isAir = true := by
    unfold topBlock
    rw [hupper, Option.getD_none]
    by_contra hnot
    rw [if_neg hnot] at hfirst
    cases hfirst
  unfold overlaid
  split
  · rw [Option.getD_some]
    split
    · exact isAir_directState hair
    · exact hair
  · rfl

/-- A section that is there has a block at each of its spots. -/
theorem presentAt_iff_blockAt {s : Sections} {q : Spot} : PresentAt s q ↔ (blockAt s q).isSome = true := by
  unfold PresentAt blockAt
  rw [Option.isSome_map]

/-- Over a lit chunk the composition has the light of that chunk. -/
theorem lit_of_overlays_iff {v : Canvas} (hfirst : first.Grown) (hgrown : c.Grown) (hv : Shown first v)
    (hshown : Shown c (v.puts (overlays uppers))) (hl : first.Lit) :
    c.Lit ↔ LightKept first uppers := by
  have hblocks := blockAt_of_overlays hv hshown
  obtain ⟨hskyFirst, hblockFirst⟩ := hfirst.lit_iff.1 hl
  have hsky : ∀ q, skyLevel c.sections q =
      if (first.sections q.section).isSome then openSky first.sections q else MAX_LIGHT := by
    intro q
    rw [hshown.sky, Canvas.sky_puts, ← hv.sky]
    split
    · rename_i hpresent
      exact hskyFirst q hpresent
    · rename_i hmissing
      unfold skyLevel skyAt
      rw [Option.not_isSome_iff_eq_none.1 hmissing]
      rfl
  have hblock : ∀ q, blockLevel c.sections q = blockLevel (initChunkLighting first.sections) q := by
    intro q
    rw [hshown.block, Canvas.block_puts, ← hv.block]
    exact hblockFirst q
  rw [hgrown.lit_iff]
  constructor
  · rintro ⟨hskyLit, hblockLit⟩
    constructor
    · intro s hs q hq
      have hsame : ∀ r, blockAt s r = blockAt c.sections r := fun r => (hs r).trans (hblocks r).symm
      rw [openSky_congr hsame, ← hsky]
      refine (hskyLit q ?_).symm
      rw [presentAt_iff_blockAt, ← hsame]
      exact presentAt_iff_blockAt.1 hq
    · intro s hs q
      have hsame : ∀ r, blockAt s r = blockAt c.sections r := fun r => (hs r).trans (hblocks r).symm
      rw [blockLevel_init_congr hsame, ← hblockLit, hblock]
  · intro h
    refine ⟨fun q hq => ?_, fun q => ?_⟩
    · rw [hsky, h.sky c.sections hblocks q hq]
    · rw [hblock, h.block c.sections hblocks q]

/-- **When a composition of chunks is as it should be.** -/
theorem composed_iff (hfirst : first.Grown) (hpaint : paint (overlays uppers) first = some c) :
    Composed (first :: uppers) c ↔ Overlayable first uppers := by
  obtain ⟨v, hv⟩ := hfirst.exists_shown
  obtain ⟨c', hc', hshown⟩ := hv.paint (overlays uppers)
  obtain rfl : c' = c := Option.some.inj (hc'.symm.trans hpaint)
  have hgrown := hfirst.paint hpaint
  have hblocks := blockAt_of_overlays hv hshown
  have hlast : ∀ {q b}, lastBlock (first :: uppers) q = some b →
      blockOf c' q = if crowded first uppers q.section then directState b else b := by
    intro q b hb
    unfold blockOf
    rw [hblocks, overlaid_of_lastBlock hb, Option.getD_some]
  have hlit := lit_of_overlays_iff hfirst hgrown hv hshown
  constructor
  · intro h
    refine ⟨fun q b hb hc => ?_, fun hl => (hlit (hl first List.mem_cons_self)).1 (h.lit hl)⟩
    have hsame := h.block q b hb
    rw [hlast hb, if_pos hc] at hsame
    exact (directState_eq_self_iff b).1 hsame
  · intro h
    refine ⟨fun q b hb => ?_, fun q hq => ?_, fun hl => (hlit (hl first List.mem_cons_self)).2 (h.light hl)⟩
    · rw [hlast hb]
      split
      · rename_i hc
        exact (directState_eq_self_iff b).2 (h.fits q b hb hc)
      · rfl
    · unfold blockOf
      rw [hblocks]
      exact isAir_of_lastBlock hq

end Composed

/-! ## Composers -/

section Composer

variable {F Table : Type} (h : Host F Table) (pos : ChunkPos) (seed : BitVec 64)

/-- The chunks of the generators, in turn. -/
def chunksOf : List Generator → Draws (Tables Table) (List Chunk)
  | [] => pure []
  | g :: gs => do
      let c ← g.generateChunk h pos seed
      let cs ← chunksOf gs
      pure (c :: cs)

theorem chunksOf_cons {g : Generator} {gs : List Generator} {t t' : Drawing (Tables Table)}
    {cs : List Chunk} (hcs : chunksOf h pos seed (g :: gs) t = some (cs, t')) :
    ∃ c rest t₁, cs = c :: rest ∧ g.generateChunk h pos seed t = some (c, t₁) ∧
      chunksOf h pos seed gs t₁ = some (rest, t') := by
  obtain ⟨⟨c, t₁⟩, hc, hcs⟩ := Option.bind_eq_some_iff.1 hcs
  obtain ⟨⟨rest, t₂⟩, hrest, hpure⟩ := Option.bind_eq_some_iff.1 hcs
  cases hpure
  exact ⟨c, rest, t₁, rfl, hc, hrest⟩

theorem paint_append (as bs : List (Spot × BlockState)) (c : Chunk) :
    paint (as ++ bs) c = paint as c >>= paint bs := List.foldlM_append

/-- The composer draws as its generators do, and paints what the upper chunks put over the first. -/
theorem overlayAll_eq {gs : List Generator} {t t' : Drawing (Tables Table)} {uppers : List Chunk}
    (huppers : chunksOf h pos seed gs t = some (uppers, t')) (c : Chunk) :
    Generator.overlayAll h pos seed gs c t = (paint (overlays uppers) c).map fun c => (c, t') := by
  induction gs generalizing t uppers c with
  | nil =>
      cases huppers
      rfl
  | cons g gs ih =>
      obtain ⟨upper, rest, t₁, rfl, hupper, hrest⟩ := chunksOf_cons h pos seed huppers
      have hgrown : upper.Grown := g.generateChunk_grown h pos seed t _ hupper
      have hstep : Generator.overlayAll h pos seed (g :: gs) c t =
          (lift (overlay upper c) >>= Generator.overlayAll h pos seed gs) t₁ := by
        show (g.generateChunk h pos seed t).bind _ = _
        rw [hupper]
        rfl
      rw [hstep, overlay_eq_paint hgrown]
      unfold overlays
      rw [List.flatMap_cons, paint_append]
      cases hpaint : paint (overlayWrites upper) c with
      | none => rfl
      | some c₁ => exact ih hrest c₁

/-- What is asked of a composer: of the chunks of its generators, in turn, the composition. -/
def ComposeLaw (gens : List Generator) (t : Drawing (Tables Table)) : Prop :=
  gens ≠ [] → ∀ cs t', chunksOf h pos seed gens t = some (cs, t') →
    ∃ c, (Generator.compose gens).generateChunk h pos seed t = some (c, t') ∧ Composed cs c

/-- The chunks of the generators can be laid over the first. -/
def UppersOverlayable (gens : List Generator) (t : Drawing (Tables Table)) : Prop :=
  ∀ first uppers t', chunksOf h pos seed gens t = some (first :: uppers, t') → Overlayable first uppers

/-- **When a composer is as it should be.** -/
theorem composeLaw_iff (gens : List Generator) (t : Drawing (Tables Table)) :
    ComposeLaw h pos seed gens t ↔ UppersOverlayable h pos seed gens t := by
  have hrun : ∀ first uppers t', chunksOf h pos seed gens t = some (first :: uppers, t') →
      first.Grown ∧ (Generator.compose gens).generateChunk h pos seed t =
        (paint (overlays uppers) first).map fun c => (c, t') := by
    intro first uppers t' hcs
    cases gens with
    | nil => cases hcs
    | cons g gs =>
        obtain ⟨c, rest, t₁, heq, hc, hrest⟩ := chunksOf_cons h pos seed hcs
        obtain ⟨rfl, rfl⟩ := List.cons.inj heq
        refine ⟨g.generateChunk_grown h pos seed t _ hc, ?_⟩
        rw [← overlayAll_eq h pos seed hrest]
        show (g.generateChunk h pos seed t).bind _ = _
        rw [hc]
        rfl
  constructor
  · intro hlaw first uppers t' hcs
    have hne : gens ≠ [] := by
      rintro rfl
      cases hcs
    obtain ⟨hgrown, hgen⟩ := hrun first uppers t' hcs
    obtain ⟨c, hc, hcomposed⟩ := hlaw hne _ _ hcs
    rw [hgen] at hc
    obtain ⟨c', hpaint, hpair⟩ := Option.map_eq_some_iff.1 hc
    obtain ⟨rfl, _⟩ := Prod.mk.inj hpair
    exact (composed_iff hgrown hpaint).1 hcomposed
  · intro hover hne cs t' hcs
    cases gens with
    | nil => exact absurd rfl hne
    | cons g gs =>
        obtain ⟨first, uppers, t₁, rfl, _, _⟩ := chunksOf_cons h pos seed hcs
        obtain ⟨hgrown, hgen⟩ := hrun first uppers t' hcs
        obtain ⟨v, hv⟩ := hgrown.exists_shown
        obtain ⟨c, hpaint, _⟩ := hv.paint (overlays uppers)
        refine ⟨c, ?_, (composed_iff hgrown hpaint).2 (hover first uppers t' hcs)⟩
        rw [hgen, hpaint]
        rfl

end Composer

/-! ## Both -/

/-- **When the generators that are built from others agree and are lit.** -/
theorem equivalent_iff {F Table : Type} (h : Host F Table) (options : Options) (gens : List Generator)
    (pos : ChunkPos) (seed : BitVec 64) (t : Drawing (Tables Table)) :
    (CustomLaw h options pos seed t ↔ LayersClear h options) ∧
      (ComposeLaw h pos seed gens t ↔ UppersOverlayable h pos seed gens t) :=
  ⟨customLaw_iff h options pos seed t, composeLaw_iff h pos seed gens t⟩

/-- Without options the layers are bedrock, stone, dirt and grass, and the chunk has the light of an
    open sky at the bottom of the world. -/
theorem not_forall_equivalent : ¬ ∀ {F Table : Type} (h : Host F Table) (options : Options)
    (gens : List Generator) (pos : ChunkPos) (seed : BitVec 64) (t : Drawing (Tables Table)),
    CustomLaw h options pos seed t ∧ ComposeLaw h pos seed gens t := by
  intro hall
  let t : Drawing (Tables Unit) := ⟨fun _ => 0, ⟨none, none⟩⟩
  have hl : Layered fun _ => none := by
    unfold Layered
    decide
  have hfit : Fitting defaultLayers := ⟨by decide, by decide⟩
  obtain ⟨c, happly, hpaint⟩ := exists_paint hfit.inside ⟨0#32, 0#32⟩
  have hlit : c.Lit := by
    refine (hall silentHost (fun _ => none) [] ⟨0#32, 0#32⟩ 0#64 t).1.lit ({ c with dirty := false }, t)
      ?_ fun hnot => absurd hl hnot
    rw [generateChunk_custom silentHost hl]
    show ((applyLayers defaultLayers _).map _).map _ = _
    rw [happly]
    rfl
  have hplain : ∀ w ∈ layerWrites defaultLayers, Plain w.2 := fun w hw => plain_of_mem_layerWrites
    (fun l hl => plain_of_mem_buildLayers silentHost (show l ∈ buildLayers silentHost fun _ => none from hl)) hw
  have hclear := (clear_iff_of_fitting hfit).1 ((lit_of_paint_iff hplain hpaint).1 hlit)
  exact absurd (hclear (-63, BlockId.state STONE) (by decide) (by decide)) (by decide)

end Apoptotic.Terrain
