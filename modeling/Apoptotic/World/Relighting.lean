import Apoptotic.World.SkyLight
import Mathlib.Data.List.ReduceOption

/-!
# Relighting after an edit

`block_break` of `mc-network/src/c2s_handlers.rs` and the block placement of `play_loop.rs`: a block
is set, its column is repaired, and the block light is flooded again.  The light they leave is
compared with the one that `init_chunk_lighting` computes for the changed chunk.

Principal results: `skyRelit_iff` — when the sky light is right; `blockRelit_of_dark` — the block
light is right when the edit is out of the light; `stillLit_of_blockRelit` — and only when no light
has to go; `relit_of_skyKept_of_blockDark` — both.
-/

namespace Apoptotic

open Flood

/-! ## The handlers -/

/-- The same light at every spot of the sections that are there. -/
def SameLight (s s' : Sections) : Prop :=
  ∀ q, skyAt s q = skyAt s' q ∧ blockLightAt s q = blockLightAt s' q

/-- A chunk in memory with the light of `init_chunk_lighting`. -/
structure LitChunk where
  chunk : ReachableChunk
  lit : SameLight chunk.chunk.sections (initChunkLighting chunk.chunk.sections)

inductive Edit where
  | remove
  | place (block : BlockState)

/-- The block that an edit sets. -/
def Edit.block : Edit → BlockState
  | .remove => BlockState.AIR
  | .place block => block

/-- The `y` of a row. -/
def Spot.height (p : Spot) : Height :=
  ⟨(p.row.val : Int) - 64, by omega, by have := p.row.isLt; omega⟩

namespace LitChunk

def sections (c : LitChunk) : Sections := c.chunk.chunk.sections

/-- The sections after `set_block`. -/
def set (c : LitChunk) (p : Spot) (block : BlockState) : Sections :=
  (c.chunk.setBlock p.x p.z p.height block).chunk.sections

/-- The sections after the calls of the handler. -/
def handle (c : LitChunk) (p : Spot) : Edit → Sections
  | .remove => propagateBlockLight (recalcSkyLightOnRemove (c.set p BlockState.AIR) p)
  | .place block =>
      propagateBlockLight
        (if isOpaque block then recalcSkyLightOnPlace (c.set p block) p else c.set p block)

end LitChunk

/-! ## What `set_block` changes -/

theorem Spot.toInt_height (p : Spot) :
    (BitVec.ofInt 32 p.height.val).toInt = (p.row.val : Int) - 64 := by
  have := p.row.isLt
  rw [BitVec.toInt_ofInt]
  exact Int.bmod_eq_of_le (by unfold Spot.height; dsimp only; omega)
    (by unfold Spot.height; dsimp only; omega)

theorem Spot.sectionIndex_height (p : Spot) :
    sectionIndex (BitVec.ofInt 32 p.height.val) = p.section.val := by
  have := p.row.isLt
  unfold sectionIndex Spot.section MIN_SECTION_Y
  rw [p.toInt_height]
  dsimp only
  omega

theorem Spot.cell_height (p : Spot) :
    ((BitVec.ofInt 32 p.height.val).toInt % 16).toNat = p.cell.y.val := by
  rw [p.toInt_height]
  unfold Spot.cell
  dsimp only
  omega

/-- The section that `set_block` finds or makes at a spot. -/
def foundSection (pos : ChunkPos) (s : Sections) (p : Spot) : Section :=
  (s p.section).getD (Section.new ⟨pos, MIN_SECTION_Y + (p.section.val : Int)⟩)

theorem LitChunk.set_spec (c : LitChunk) (p : Spot) (block : BlockState) :
    ∃ blocks, (foundSection c.chunk.chunk.position c.sections p).blocks.set
        p.cell.x p.cell.y p.cell.z block = some blocks ∧
      c.set p block = Function.update c.sections p.section
        (some { foundSection c.chunk.chunk.position c.sections p with blocks := blocks }) := by
  obtain ⟨idx, sec, hidx, hsec, hset⟩ := Chunk.setBlock_spec
    (Option.some_get (c.chunk.setBlock_isSome p.x p.z p.height block)).symm
  obtain rfl : idx = p.section := Fin.ext (hidx.trans p.sectionIndex_height)
  rw [p.cell_height] at hsec
  obtain ⟨blocks, hblocks, rfl⟩ := Option.map_eq_some_iff.1 hsec
  exact ⟨blocks, hblocks, congrArg Chunk.sections hset⟩

/-- The sections that `set_block` calls and light writes reach have the height of their index. -/
theorem Chunk.Reachable.placed {c : Chunk} (h : c.Reachable) : SectionsPlaced c.sections := by
  induction h with
  | new pos => intro i y hy; cases hy
  | setBlock h x z y block hset ih =>
      obtain ⟨idx, sec, _, hsec, rfl⟩ := Chunk.setBlock_spec hset
      obtain ⟨blocks, _, rfl⟩ := Option.map_eq_some_iff.1 hsec
      intro i y hy
      unfold heights at hy
      dsimp only at hy
      by_cases hi : i = idx
      · subst hi
        rw [Function.update_self, Option.map_some] at hy
        cases hold : Chunk.sections _ i with
        | none =>
            rw [hold] at hy
            exact (Option.some.inj hy).symm
        | some old =>
            rw [hold] at hy
            refine ih i y ?_
            unfold heights
            rw [hold]
            exact hy
      · rw [Function.update_of_ne hi] at hy
        exact ih i y hy
  | @setLight c h idx skyLight blockLight ih =>
      refine ih.congr ?_
      exact funext fun i => map_withSection c.sections idx i
        (fun sec => { sec with skyLight := skyLight, blockLight := blockLight })
        (fun sec => sec.position.y) fun _ => rfl

/-- The section of a spot is there. -/
def PresentAt (s : Sections) (q : Spot) : Prop := (s q.section).isSome

theorem skyAt_map_const (s : Sections) (q : Spot) (light : Fin 16) :
    (skyAt s q).map (fun _ => light) = (s q.section).map fun _ => light := Option.map_map ..

namespace LitChunk

variable (c : LitChunk) (p q : Spot) (block : BlockState)

theorem placed_set : SectionsPlaced (c.set p block) :=
  (c.chunk.setBlock p.x p.z p.height block).reachable.placed

/-- The sky light of a spot before a repair: a section that is made is fully lit. -/
def skyBefore : Fin 16 := (c.sections q.section).elim MAX_LIGHT fun _ => openSky c.sections q

theorem skyAt_sections :
    skyAt c.sections q = (c.sections q.section).map fun _ => openSky c.sections q := by
  rw [← skyAt_map_const]
  exact (c.lit q).1.trans (skyAt_initChunkLighting c.chunk.reachable.placed q)

theorem skyAt_set :
    skyAt (c.set p block) q = (c.set p block q.section).map fun _ => c.skyBefore q := by
  obtain ⟨blocks, _, hset⟩ := c.set_spec p block
  have hsky := c.skyAt_sections q
  unfold skyBefore
  unfold skyAt at hsky ⊢
  rw [hset]
  by_cases hq : q.section = p.section
  · rw [hq] at hsky ⊢
    rw [Function.update_self, Option.map_some, Option.map_some]
    unfold foundSection
    cases hold : c.sections p.section with
    | none =>
        refine congrArg some ((getLightNibble_filled _ _).trans ?_)
        split
        · rfl
        · rfl
    | some old =>
        rw [hold] at hsky
        exact hsky
  · rw [Function.update_of_ne hq]
    cases hold : c.sections q.section with
    | none => rfl
    | some old =>
        rw [hold] at hsky
        exact hsky

theorem blockLevel_set : blockLevel (c.set p block) q = blockLevel c.sections q := by
  obtain ⟨blocks, _, hset⟩ := c.set_spec p block
  unfold blockLevel blockLightAt
  rw [hset]
  by_cases hq : q.section = p.section
  · rw [hq, Function.update_self, Option.map_some, Option.getD_some]
    unfold foundSection
    cases c.sections p.section with
    | none =>
        refine (getLightNibble_filled _ _).trans ?_
        split
        · rfl
        · rfl
    | some old => rfl
  · rw [Function.update_of_ne hq]

theorem presentAt_set_self : PresentAt (c.set p block) p := by
  obtain ⟨blocks, _, hset⟩ := c.set_spec p block
  unfold PresentAt
  rw [hset, Function.update_self]
  rfl

theorem ok_foundSection : (foundSection c.chunk.chunk.position c.sections p).Ok := by
  unfold foundSection
  cases hold : c.sections p.section with
  | none => exact Section.ok_new _
  | some old => exact c.chunk.reachable.sectionsOk _ old hold

/-- A block of the registry reads back. -/
theorem id_blockAt_set {block : BlockState} (h : block.id.toNat < 2 ^ GLOBAL_BITS) :
    (blockAt (c.set p block) p).map BlockState.id = some block.id := by
  obtain ⟨blocks, hblocks, hset⟩ := c.set_spec p block
  have hid := id_getAt_set_self (c.ok_foundSection p).blocks (Cell.idx_lt p.cell) hblocks h
  obtain ⟨b, hb, hb'⟩ := Option.map_eq_some_iff.1 hid
  have hget : blocks.get p.cell.x p.cell.y p.cell.z = some b := hb
  unfold blockAt Section.getBlock
  rw [hset, Function.update_self, Option.map_some, Option.map_some, hget, Option.getD_some, hb']

/-- A removed block reads back as air. -/
theorem opaqueAt_set_air : opaqueAt (c.set p BlockState.AIR) p = false := by
  obtain ⟨blocks, hblocks, hset⟩ := c.set_spec p BlockState.AIR
  obtain ⟨seen, f, hf⟩ := (c.ok_foundSection p).blocks
  obtain ⟨blocks', hblocks', hf'⟩ := set_represents hf (Cell.idx_lt p.cell) BlockState.AIR
  obtain rfl : blocks' = blocks := Option.some.inj (hblocks'.symm.trans hblocks)
  have hget := getAt_of_represents hf' (Cell.idx_lt p.cell)
  have hair : blocks'.get p.cell.x p.cell.y p.cell.z = some BlockState.AIR := by
    refine hget.trans (congrArg some ?_)
    unfold Cell.idx
    rw [Function.update_self]
    split
    · rfl
    · decide
  unfold opaqueAt blockAt
  rw [hset, Function.update_self, Option.map_some]
  unfold Section.getBlock
  rw [hair]
  decide

end LitChunk

/-! ## Sky light -/

/-- The spots that the repair of an edit writes: the column from the edit up, or only up to the first
    opaque block above it. -/
def Rewritten (c : LitChunk) (p : Spot) (e : Edit) (q : Spot) : Prop :=
  match e with
  | .remove => q.x = p.x ∧ q.z = p.z ∧ p.row ≤ q.row
  | .place block => isOpaque block = true ∧ q.x = p.x ∧ q.z = p.z ∧ p.row ≤ q.row ∧
      ∀ t, p.row < t → t < q.row → opaqueAt (c.set p block) ⟨p.x, t, p.z⟩ = false

/-- What the repair writes is the light of the sky, and so is the light that it leaves. -/
structure SkyKept (c : LitChunk) (p : Spot) (e : Edit) : Prop where
  column : match e with
    | .remove => opaqueAbove (c.set p BlockState.AIR) p = 0
    | .place block => isOpaque block = true → 16 ≤ opaqueAbove (c.set p block) p
  others : ∀ q, PresentAt (c.set p e.block) q → ¬ Rewritten c p e q →
    c.skyBefore q = openSky (c.set p e.block) q

def SkyRelit (c : LitChunk) (p : Spot) (e : Edit) : Prop :=
  ∀ q, skyAt (c.handle p e) q = skyAt (initChunkLighting (c.set p e.block)) q

theorem skyAt_init_set (c : LitChunk) (p q : Spot) (block : BlockState) :
    skyAt (initChunkLighting (c.set p block)) q =
      (c.set p block q.section).map fun _ => openSky (c.set p block) q := by
  rw [skyAt_initChunkLighting (c.placed_set p block), skyAt_map_const]

theorem eq_of_present {s : Sections} {q : Spot} (hq : PresentAt s q) {a b : Fin 16}
    (h : (s q.section).map (fun _ => a) = (s q.section).map fun _ => b) : a = b := by
  obtain ⟨sec, hsec⟩ := Option.isSome_iff_exists.1 hq
  rw [hsec] at h
  exact Option.some.inj h

theorem map_congr_of_present {s : Sections} {q : Spot} {a b : Fin 16} (h : PresentAt s q → a = b) :
    (s q.section).map (fun _ => a) = (s q.section).map fun _ => b := by
  cases hsec : s q.section with
  | none => rfl
  | some sec =>
      have hq : PresentAt s q := by
        unfold PresentAt
        rw [hsec]
        rfl
      rw [h hq]

/-- An opaque block is in a section that is there. -/
theorem present_of_opaqueAt {s : Sections} {q : Spot} (h : opaqueAt s q = true) : PresentAt s q := by
  unfold opaqueAt blockAt at h
  unfold PresentAt
  cases hs : s q.section with
  | none =>
      rw [hs] at h
      cases h
  | some sec => rfl

theorem openSky_eq_max {s : Sections} {q : Spot} (h : opaqueAbove s q = 0) :
    openSky s q = MAX_LIGHT := by
  unfold openSky
  rw [h]
  exact dim_zero _

theorem openSky_val (s : Sections) (q : Spot) : (openSky s q).val = 15 - opaqueAbove s q := rfl

/-- What the handler of a removal leaves. -/
theorem skyAt_handle_remove (c : LitChunk) (p q : Spot) :
    skyAt (c.handle p .remove) q = (c.set p BlockState.AIR q.section).map fun _ =>
      if q.x = p.x ∧ q.z = p.z ∧ p.row ≤ q.row ∧
          (opaqueFrom (c.set p BlockState.AIR) p q.row = 0 ∨
            opaqueFrom (c.set p BlockState.AIR) p q.row < lightAbove (c.set p BlockState.AIR) p) then
        dim (lightAbove (c.set p BlockState.AIR) p) (opaqueFrom (c.set p BlockState.AIR) p q.row)
      else c.skyBefore q := by
  unfold LitChunk.handle
  rw [skyAt_propagateBlockLight, skyAt_recalcSkyLightOnRemove]
  split
  · exact skyAt_map_const _ _ _
  · exact c.skyAt_set p q _

/-- A removal under an opaque block is not relit: the light above the block is below that of the
    sky. -/
theorem opaqueAbove_of_skyRelit {c : LitChunk} {p : Spot} (h : SkyRelit c p .remove) :
    opaqueAbove (c.set p BlockState.AIR) p = 0 := by
  let s := c.set p BlockState.AIR
  have hair : opaqueAt s p = false := c.opaqueAt_set_air p
  have hlevel : ∀ q, PresentAt s q → (if q.x = p.x ∧ q.z = p.z ∧ p.row ≤ q.row ∧
      (opaqueFrom s p q.row = 0 ∨ opaqueFrom s p q.row < lightAbove s p) then
        dim (lightAbove s p) (opaqueFrom s p q.row) else c.skyBefore q) = openSky s q := by
    intro q hq
    have hrelit := h q
    rw [skyAt_handle_remove, skyAt_init_set] at hrelit
    exact eq_of_present hq hrelit
  by_contra hne
  change opaqueAbove s p ≠ 0 at hne
  obtain ⟨first, hfirst, hfop, hbetween⟩ := exists_first_opaqueAt hne
  obtain ⟨top, htop, htopop, habove⟩ := exists_top_opaqueAt hne
  -- Up to the first opaque block the light is the one above the removed block.
  have hfrom : ∀ t ≤ first, opaqueFrom s p t = 0 := by
    intro t ht
    refine opaqueFrom_eq_zero.2 fun u hu hut => ?_
    rcases lt_or_eq_of_le hu with hlt | heq
    · exact hbetween u hlt (hut.trans_le ht)
    · rw [← heq]
      exact hair
  have hself := hlevel p (c.presentAt_set_self p _)
  rw [if_pos ⟨rfl, rfl, le_rfl, Or.inl (hfrom _ hfirst.le)⟩, hfrom _ hfirst.le, dim_zero] at hself
  have hlast := hlevel ⟨p.x, first, p.z⟩ (present_of_opaqueAt hfop)
  rw [if_pos ⟨rfl, rfl, hfirst.le, Or.inl (hfrom _ le_rfl)⟩, hfrom _ le_rfl, dim_zero] at hlast
  -- Both are right only when no light is left at either.
  have hcount := opaqueAbove_of_first hfirst hfop hbetween
  have hsame := congrArg Fin.val (hself.symm.trans hlast)
  rw [openSky_val, openSky_val] at hsame
  have hmany : 16 ≤ opaqueAbove s p := by omega
  have hdark : (lightAbove s p).val = 0 := by
    rw [hself, openSky_val]
    omega
  -- But the topmost opaque block keeps the light it had, which was that of the sky.
  have hclear : opaqueAbove s ⟨p.x, top, p.z⟩ = 0 := opaqueAbove_eq_zero.2 habove
  have hne' : first ≠ top := by
    intro heq
    rw [heq, hclear] at hcount
    omega
  have hlt : first < top := by
    refine lt_of_le_of_ne (not_lt.1 fun hgt => ?_) hne'
    rw [hbetween top htop hgt] at htopop
    cases htopop
  have hkept := hlevel ⟨p.x, top, p.z⟩ (present_of_opaqueAt htopop)
  have hpassed : opaqueFrom s p top ≠ 0 := by
    intro h0
    rw [opaqueFrom_eq_zero.1 h0 first hfirst.le hlt] at hfop
    cases hfop
  rw [if_neg fun hw => hw.2.2.2.elim hpassed (by omega), openSky_eq_max hclear] at hkept
  have hlight := lightAbove_of_opaqueAt htop htopop habove
  have hsky : skyAt s ⟨p.x, top, p.z⟩ = some MAX_LIGHT := by
    obtain ⟨sec, hsec⟩ := Option.isSome_iff_exists.1 (present_of_opaqueAt htopop)
    refine (c.skyAt_set p _ _).trans ?_
    rw [show c.set p BlockState.AIR (Spot.section ⟨p.x, top, p.z⟩) = some sec from hsec, hkept]
    rfl
  rw [hsky] at hlight
  rw [hlight] at hdark
  exact absurd hdark (by decide)

theorem skyRelit_remove_iff (c : LitChunk) (p : Spot) :
    SkyRelit c p .remove ↔ SkyKept c p .remove := by
  constructor
  · intro h
    refine ⟨opaqueAbove_of_skyRelit h, fun q hq hnot => ?_⟩
    have hrelit := h q
    rw [skyAt_handle_remove, skyAt_init_set] at hrelit
    have hlevel := eq_of_present hq hrelit
    rw [if_neg fun hw => hnot ⟨hw.1, hw.2.1, hw.2.2.1⟩] at hlevel
    exact hlevel
  · intro h q
    have hcol : opaqueAbove (c.set p BlockState.AIR) p = 0 := h.column
    have hclear := opaqueAbove_eq_zero.1 hcol
    rw [skyAt_handle_remove, show Edit.block .remove = BlockState.AIR from rfl, skyAt_init_set]
    refine map_congr_of_present fun hq => ?_
    by_cases hw : q.x = p.x ∧ q.z = p.z ∧ p.row ≤ q.row
    · obtain ⟨hx, hz, hrow⟩ := hw
      have hfrom : opaqueFrom (c.set p BlockState.AIR) p q.row = 0 := by
        refine opaqueFrom_eq_zero.2 fun u hu _ => ?_
        rcases lt_or_eq_of_le hu with hlt | heq
        · exact hclear u hlt
        · rw [← heq]
          exact c.opaqueAt_set_air p
      have habove : opaqueAbove (c.set p BlockState.AIR) q = 0 := by
        refine opaqueAbove_eq_zero.2 fun u hu => ?_
        rw [hx, hz]
        exact hclear u (hrow.trans_lt hu)
      rw [if_pos ⟨hx, hz, hrow, Or.inl hfrom⟩, hfrom, lightAbove_of_clear hclear, dim_zero,
        openSky_eq_max habove]
    · rw [if_neg fun hw' => hw ⟨hw'.1, hw'.2.1, hw'.2.2.1⟩]
      exact h.others q hq hw

open Classical in
/-- What the handler of a placement leaves. -/
theorem skyAt_handle_place (c : LitChunk) (p q : Spot) (block : BlockState) :
    skyAt (c.handle p (.place block)) q = (c.set p block q.section).map fun _ =>
      if Rewritten c p (.place block) q then NO_LIGHT else c.skyBefore q := by
  unfold LitChunk.handle
  rw [skyAt_propagateBlockLight]
  by_cases hop : isOpaque block = true
  · rw [if_pos hop, skyAt_recalcSkyLightOnPlace]
    by_cases hw : Rewritten c p (.place block) q
    · rw [if_pos hw.2, if_pos hw, skyAt_map_const]
    · rw [if_neg fun hw' => hw ⟨hop, hw'⟩, if_neg hw]
      exact c.skyAt_set p q block
  · rw [if_neg hop, if_neg fun hw => hop hw.1]
    exact c.skyAt_set p q block

/-- An opaque block is relit right only far below the sky. -/
theorem le_opaqueAbove_of_skyRelit {c : LitChunk} {p : Spot} {block : BlockState}
    (h : SkyRelit c p (.place block)) (hop : isOpaque block = true) :
    16 ≤ opaqueAbove (c.set p block) p := by
  -- Where the repair writes there is no light, so that 15 opaque blocks are above.
  have hdark : ∀ q, PresentAt (c.set p block) q → Rewritten c p (.place block) q →
      15 ≤ opaqueAbove (c.set p block) q := by
    intro q hq hw
    have hrelit := h q
    rw [skyAt_handle_place, show Edit.block (.place block) = block from rfl, skyAt_init_set] at hrelit
    have hlevel := eq_of_present hq hrelit
    rw [if_pos hw] at hlevel
    have hval := congrArg Fin.val hlevel
    rw [openSky_val, show NO_LIGHT.val = 0 from rfl] at hval
    omega
  have hself := hdark p (c.presentAt_set_self p block)
    ⟨hop, rfl, rfl, le_rfl, fun t ht ht' => absurd ht' (not_lt.2 ht.le)⟩
  obtain ⟨first, hfirst, hfop, hbetween⟩ := exists_first_opaqueAt (s := c.set p block) (p := p)
    (by omega)
  have hlast := hdark ⟨p.x, first, p.z⟩ (present_of_opaqueAt hfop)
    ⟨hop, rfl, rfl, hfirst.le, hbetween⟩
  have hcount := opaqueAbove_of_first hfirst hfop hbetween
  omega

theorem skyRelit_place_iff (c : LitChunk) (p : Spot) (block : BlockState) :
    SkyRelit c p (.place block) ↔ SkyKept c p (.place block) := by
  constructor
  · intro h
    refine ⟨le_opaqueAbove_of_skyRelit h, fun q hq hnot => ?_⟩
    have hrelit := h q
    rw [skyAt_handle_place, show Edit.block (.place block) = block from rfl, skyAt_init_set] at hrelit
    have hlevel := eq_of_present hq hrelit
    rw [if_neg hnot] at hlevel
    exact hlevel
  · intro h q
    rw [skyAt_handle_place, show Edit.block (.place block) = block from rfl, skyAt_init_set]
    refine map_congr_of_present fun hq => ?_
    by_cases hw : Rewritten c p (.place block) q
    · obtain ⟨hop, hx, hz, hrow, hclear⟩ := hw
      rw [if_pos ⟨hop, hx, hz, hrow, hclear⟩]
      have hmany : 16 ≤ opaqueAbove (c.set p block) p := h.column hop
      have hle := opaqueAbove_le_of_between hclear
      rw [show (⟨p.x, q.row, p.z⟩ : Spot) = q by rw [← hx, ← hz]] at hle
      refine Fin.ext ?_
      rw [openSky_val, show NO_LIGHT.val = 0 from rfl]
      omega
    · rw [if_neg hw]
      exact h.others q hq hw

/-- **When the sky light is right**: the repair of the column writes the light of the sky, and
    wherever it does not write the light of the sky has not changed. -/
theorem skyRelit_iff (c : LitChunk) (p : Spot) (e : Edit) : SkyRelit c p e ↔ SkyKept c p e := by
  cases e with
  | remove => exact skyRelit_remove_iff c p
  | place block => exact skyRelit_place_iff c p block

/-! ## Block light -/

/-- Steps between two spots along the axes. -/
def Spot.dist (p q : Spot) : Nat :=
  ((p.x.val : Int) - q.x.val).natAbs + ((p.row.val : Int) - q.row.val).natAbs +
    ((p.z.val : Int) - q.z.val).natAbs

theorem Spot.dist_self (p : Spot) : p.dist p = 0 := by
  unfold Spot.dist
  omega

theorem before_val {n : Nat} {i j : Fin n} (h : before i = some j) : j.val + 1 = i.val := by
  unfold before at h
  split at h
  · cases h
    dsimp only
    omega
  · cases h

theorem after_val {n : Nat} {i j : Fin n} (h : after i = some j) : j.val = i.val + 1 := by
  unfold after at h
  split at h
  · cases h
    rfl
  · cases h

theorem Spot.dist_neighbor (p q r : Spot) (h : r ∈ q.neighbors) : p.dist r ≤ p.dist q + 1 := by
  unfold Spot.neighbors at h
  rw [List.reduceOption_mem_iff] at h
  simp only [List.mem_cons, List.not_mem_nil, or_false] at h
  unfold Spot.dist
  rcases h with h | h | h | h | h | h <;>
    obtain ⟨i, hi, rfl⟩ := Option.map_eq_some_iff.1 h.symm
  · have := before_val hi
    dsimp only
    omega
  · have := after_val hi
    dsimp only
    omega
  · have := before_val hi
    dsimp only
    omega
  · have := after_val hi
    dsimp only
    omega
  · have := before_val hi
    dsimp only
    omega
  · have := after_val hi
    dsimp only
    omega

theorem mem_chunkSpots (p : Spot) : p ∈ chunkSpots := by
  obtain ⟨x, row, z⟩ := p
  refine List.mem_flatMap.2 ⟨x, List.mem_finRange x, ?_⟩
  refine List.mem_flatMap.2 ⟨z, List.mem_finRange z, ?_⟩
  exact List.mem_map.2 ⟨row, List.mem_finRange row, rfl⟩

theorem mem_emitters {s : Sections} {node : Spot × Fin 16} (h : node ∈ emitters s) :
    node.2 = emissionAt s node.1 := by
  obtain ⟨p, _, hp⟩ := List.mem_filterMap.1 h
  split at hp
  · cases hp
    rfl
  · cases hp

theorem mem_map_emitters {s : Sections} {p : Spot} :
    p ∈ (emitters s).map Prod.fst ↔ 0 < (emissionAt s p).val := by
  constructor
  · intro h
    obtain ⟨node, hnode, rfl⟩ := List.mem_map.1 h
    obtain ⟨q, _, hq⟩ := List.mem_filterMap.1 hnode
    split at hq
    · cases hq
      assumption
    · cases hq
  · intro h
    refine List.mem_map.2 ⟨(p, emissionAt s p), ?_, rfl⟩
    exact List.mem_filterMap.2 ⟨p, mem_chunkSpots p, if_pos h⟩

/-- A block that emits nothing offers nothing. -/
theorem flatMap_emitters (s : Sections) : (emitters s).flatMap (offers blockLightGrid) =
    chunkSpots.flatMap fun p => offers blockLightGrid (p, emissionAt s p) := by
  unfold emitters
  induction chunkSpots with
  | nil => rfl
  | cons p ps ih =>
      rw [List.flatMap_cons, ← ih, List.filterMap_cons]
      by_cases hp : 0 < (emissionAt s p).val
      · rw [if_pos hp]
        exact List.flatMap_cons
      · rw [if_neg hp]
        have hnone : offers blockLightGrid (p, emissionAt s p) = [] := if_pos (by dsimp only; omega)
        rw [hnone, List.nil_append]

theorem offers_of_le_one {node : Spot × Fin 16} (h : node.2.val ≤ 1) :
    offers blockLightGrid node = [] := if_pos h

/-- What is offered to a spot comes from a burning block next to it. -/
theorem exists_of_mem_offers {s : Sections} {offer : Spot × Fin 16}
    (h : offer ∈ (emitters s).flatMap (offers blockLightGrid)) :
    ∃ q, offer.1 ∈ q.neighbors ∧ 1 < (emissionAt s q).val := by
  obtain ⟨node, hnode, hoffer⟩ := List.mem_flatMap.1 h
  unfold offers at hoffer
  split at hoffer
  · cases hoffer
  · rename_i hburns
    obtain ⟨w, hw, rfl⟩ := List.mem_map.1 hoffer
    exact ⟨node.1, hw, mem_emitters hnode ▸ not_le.1 hburns⟩

/-- Block light depends on the blocks and on the block light before. -/
theorem blockLevel_propagate_congr {s s' : Sections} (hblock : ∀ q, blockAt s' q = blockAt s q)
    (hlevel : ∀ q, blockLevel s' q = blockLevel s q) (q : Spot) :
    blockLevel (propagateBlockLight s') q = blockLevel (propagateBlockLight s) q := by
  unfold propagateBlockLight
  rw [emitters_congr hblock]
  exact flood_congr (g := blockLightGrid) (fun v => transparentAt_congr (hblock v)) hlevel q

theorem blockLightAt_eq_iff {s s' : Sections} {q : Spot} (h : blockAt s q = blockAt s' q) :
    blockLightAt s q = blockLightAt s' q ↔ blockLevel s q = blockLevel s' q := by
  unfold blockAt at h
  unfold blockLevel blockLightAt
  cases hs : s q.section with
  | none =>
      rw [hs] at h
      rw [Option.map_eq_none_iff.1 h.symm]
      exact ⟨fun _ => rfl, fun _ => rfl⟩
  | some sec =>
      rw [hs] at h
      obtain ⟨sec', hs', _⟩ := Option.map_eq_some_iff.1 h.symm
      rw [hs']
      exact Option.some_inj

def BlockRelit (c : LitChunk) (p : Spot) (e : Edit) : Prop :=
  ∀ q, blockLightAt (c.handle p e) q = blockLightAt (initChunkLighting (c.set p e.block)) q

theorem blockAt_initChunkLighting (s : Sections) (q : Spot) :
    blockAt (initChunkLighting s) q = blockAt s q := by
  unfold initChunkLighting
  rw [blockAt_propagateBlockLight, frame_computeSkyLight (fun s => blockAt s q)
    (fun s p light => blockAt_setSky s p q light), blockAt_clearLight]

/-- The sky light has no part in the block light of `init_chunk_lighting`. -/
theorem blockLevel_initChunkLighting (s : Sections) (q : Spot) :
    blockLevel (initChunkLighting s) q = blockLevel (propagateBlockLight (clearLight s)) q := by
  refine blockLevel_propagate_congr (fun r => ?_) (fun r => ?_) q
  · exact frame_computeSkyLight (fun s => blockAt s r)
      (fun s p light => blockAt_setSky s p r light) _
  · refine congrArg (fun o : Option (Fin 16) => o.getD NO_LIGHT) ?_
    exact frame_computeSkyLight (fun s => blockLightAt s r)
      (fun s p light => blockLightAt_setSky s p r light) _

theorem blockLevel_clearLight (s : Sections) (q : Spot) : blockLevel (clearLight s) q = NO_LIGHT := by
  unfold blockLevel
  rw [blockLightAt_clearLight]
  cases blockLightAt s q with
  | none => rfl
  | some light => rfl

namespace LitChunk

/-- The sections of the handler before the flood of block light. -/
def repaired (c : LitChunk) (p : Spot) : Edit → Sections
  | .remove => recalcSkyLightOnRemove (c.set p BlockState.AIR) p
  | .place block =>
      if isOpaque block then recalcSkyLightOnPlace (c.set p block) p else c.set p block

theorem handle_eq (c : LitChunk) (p : Spot) (e : Edit) :
    c.handle p e = propagateBlockLight (c.repaired p e) := by
  cases e with
  | remove => rfl
  | place block => rfl

/-- The repair of the sky light changes neither blocks nor block light. -/
theorem frame_repaired {α : Type} (f : Sections → α)
    (hf : ∀ s p light, f (setSky s p light) = f s) (c : LitChunk) (p : Spot) (e : Edit) :
    f (c.repaired p e) = f (c.set p e.block) := by
  cases e with
  | remove => exact frame_recalcSkyLightOnRemove f hf _ _
  | place block =>
      unfold repaired
      dsimp only
      split
      · exact frame_recalcSkyLightOnPlace f hf _ _
      · rfl

theorem blockAt_handle (c : LitChunk) (p q : Spot) (e : Edit) :
    blockAt (c.handle p e) q = blockAt (c.set p e.block) q := by
  rw [c.handle_eq, blockAt_propagateBlockLight]
  exact frame_repaired (fun s => blockAt s q) (fun s p light => blockAt_setSky s p q light) c p e

theorem blockLevel_handle (c : LitChunk) (p q : Spot) (e : Edit) :
    blockLevel (c.handle p e) q = blockLevel (propagateBlockLight (c.set p e.block)) q := by
  rw [c.handle_eq]
  refine blockLevel_propagate_congr (fun r => ?_) (fun r => ?_) q
  · exact frame_repaired (fun s => blockAt s r) (fun s p light => blockAt_setSky s p r light) c p e
  · refine congrArg (fun o : Option (Fin 16) => o.getD NO_LIGHT) ?_
    exact frame_repaired (fun s => blockLightAt s r)
      (fun s p light => blockLightAt_setSky s p r light) c p e

theorem blockLevel_lit (c : LitChunk) (q : Spot) :
    blockLevel c.sections q = blockLevel (propagateBlockLight (clearLight c.sections)) q := by
  rw [← blockLevel_initChunkLighting]
  exact congrArg (fun o : Option (Fin 16) => o.getD NO_LIGHT) (c.lit q).2

end LitChunk

/-- The levels that have to agree. -/
theorem blockRelit_iff_level (c : LitChunk) (p : Spot) (e : Edit) :
    BlockRelit c p e ↔ ∀ q, blockLevel (propagateBlockLight (c.set p e.block)) q =
      blockLevel (propagateBlockLight (clearLight (c.set p e.block))) q := by
  refine forall_congr' fun q => ?_
  rw [blockLightAt_eq_iff ((c.blockAt_handle p q e).trans (blockAt_initChunkLighting _ q).symm),
    c.blockLevel_handle, blockLevel_initChunkLighting]

/-- The light passes a spot or leaves it in another way after the edit. -/
def Changed (c : LitChunk) (p : Spot) (e : Edit) (q : Spot) : Prop :=
  transparentAt (c.set p e.block) q ≠ transparentAt c.sections q ∨
    emissionAt (c.set p e.block) q ≠ emissionAt c.sections q

/-- The edit is out of the light: what changes neither burns before or after it, nor borders on
    anything that burns. -/
structure OutOfLight (c : LitChunk) (p : Spot) (e : Edit) : Prop where
  dim : ∀ q, Changed c p e q →
    (emissionAt c.sections q).val ≤ 1 ∧ (emissionAt (c.set p e.block) q).val ≤ 1
  dark : ∀ q r, ¬ Changed c p e q → Changed c p e r → r ∈ q.neighbors →
    (blockLevel c.sections q).val ≤ 1 ∧ (emissionAt c.sections q).val ≤ 1

/-- No block light in the chunk before, or none where the edit is. -/
def BlockDark (c : LitChunk) (p : Spot) (e : Edit) : Prop :=
  (∀ q, blockLevel c.sections q = NO_LIGHT) ∨ OutOfLight c p e

theorem clearLight_congr_level (s s' : Sections) (q : Spot) :
    blockLevel (clearLight s) q = blockLevel (clearLight s') q :=
  (blockLevel_clearLight s q).trans (blockLevel_clearLight s' q).symm

theorem transparentAt_clearLight (s : Sections) (q : Spot) :
    transparentAt (clearLight s) q = transparentAt s q :=
  transparentAt_congr (blockAt_clearLight s q)

/-- Out of the light, the changed chunk has the levels of the chunk before. -/
theorem blockLevel_of_outOfLight {c : LitChunk} {p : Spot} {e : Edit} (h : OutOfLight c p e)
    (q : Spot) : blockLevel (propagateBlockLight (clearLight (c.set p e.block))) q =
      blockLevel c.sections q := by
  let s := c.sections
  let s' := c.set p e.block
  have hsame : ∀ v, ¬ Changed c p e v → transparentAt s v = transparentAt s' v ∧
      emissionAt s v = emissionAt s' v := by
    intro v hv
    exact ⟨by_contra fun hne => hv (Or.inl fun heq => hne heq.symm),
      by_contra fun hne => hv (Or.inr fun heq => hne heq.symm)⟩
  have hoffers : (emitters s).flatMap (offers blockLightGrid) =
      (emitters s').flatMap (offers blockLightGrid) := by
    rw [flatMap_emitters, flatMap_emitters]
    refine List.flatMap_congr fun v _ => ?_
    by_cases hv : Changed c p e v
    · rw [offers_of_le_one (h.dim v hv).1, offers_of_le_one (h.dim v hv).2]
    · rw [(hsame v hv).2]
  have hclear : ∀ s : Sections, emitters (clearLight s) = emitters s :=
    fun s => emitters_congr (blockAt_clearLight s)
  have hlevel := fun v => c.blockLevel_lit v
  unfold propagateBlockLight at hlevel ⊢
  rw [hclear] at hlevel ⊢
  have hsources : ∀ v ∉ {v | Changed c p e v},
      (v ∈ (emitters s).map Prod.fst ↔ v ∈ (emitters s').map Prod.fst) := by
    intro v hv
    rw [mem_map_emitters, mem_map_emitters, (hsame v hv).2]
  have haway : ∀ offer ∈ (emitters s).flatMap (offers blockLightGrid),
      offer.1 ∉ {v | Changed c p e v} := by
    intro offer hoffer hmem
    obtain ⟨v, hv, hburns⟩ := exists_of_mem_offers hoffer
    by_cases hchanged : Changed c p e v
    · exact absurd hburns (not_lt.2 (h.dim v hchanged).1)
    · exact absurd hburns (not_lt.2 (h.dark v _ hchanged hmem hv).2)
  have hpass : ∀ v ∉ {v | Changed c p e v},
      transparentAt (clearLight s) v = transparentAt (clearLight s') v := by
    intro v hv
    rw [transparentAt_clearLight, transparentAt_clearLight, (hsame v hv).1]
  have hdark : ∀ v ∉ {v | Changed c p e v}, ∀ w ∈ {v | Changed c p e v}, w ∈ v.neighbors →
      (blockLevel (flood blockLightGrid (emitters s) (clearLight s)) v).val ≤ 1 := by
    intro v hv w hw hnext
    rw [← hlevel v]
    exact (h.dark v w hv hw hnext).1
  obtain ⟨hout, hin, hin'⟩ := flood_agree (g := blockLightGrid) hoffers hsources haway hpass
    (fun v _ => clearLight_congr_level s s' v) hdark
  by_cases hq : Changed c p e q
  · exact (hin' q hq).trans ((clearLight_congr_level s' s q).trans
      ((hin q hq).symm.trans (hlevel q).symm))
  · exact (hout q hq).symm.trans (hlevel q).symm

/-- **Out of the light the block light is right.** -/
theorem blockRelit_of_dark {c : LitChunk} {p : Spot} {e : Edit} (h : BlockDark c p e) :
    BlockRelit c p e := by
  refine (blockRelit_iff_level c p e).2 fun q => ?_
  rcases h with hdark | hout
  · refine blockLevel_propagate_congr (fun r => (blockAt_clearLight _ r).symm) (fun r => ?_) q
    rw [c.blockLevel_set, hdark r, blockLevel_clearLight]
  · -- The flood starts from the levels that a flood of the changed chunk leaves.
    have hstart : ∀ r, blockLevel (c.set p e.block) r =
        blockLevel (propagateBlockLight (clearLight (c.set p e.block))) r :=
      fun r => (c.blockLevel_set p r _).trans (blockLevel_of_outOfLight hout r).symm
    have hblocks : ∀ r, blockAt (c.set p e.block) r =
        blockAt (propagateBlockLight (clearLight (c.set p e.block))) r :=
      fun r => ((blockAt_propagateBlockLight _ r).trans (blockAt_clearLight _ r)).symm
    rw [blockLevel_propagate_congr hblocks hstart, propagateBlockLight_idem]

/-- What a flood of block light does to one spot. -/
theorem blockLevel_propagate_reaches (s : Sections) (q : Spot) :
    blockLevel (propagateBlockLight s) q = blockLevel s q ∨
      (blockLevel s q < blockLevel (propagateBlockLight s) q ∧ transparentAt s q = true ∧
        ∃ r, (blockLevel (propagateBlockLight s) q).val + r.dist q ≤ (emissionAt s r).val) := by
  rcases flood_reaches blockLightGrid Spot.dist Spot.dist_self Spot.dist_neighbor (emitters s) s q
    with hsame | ⟨hrise, hpass, source, hsource, hreach⟩
  · exact Or.inl hsame
  · exact Or.inr ⟨hrise, hpass, source.1, mem_emitters hsource ▸ hreach⟩

/-- Every spot that was lit still lets light in, and still has an emitter in reach. -/
def StillLit (c : LitChunk) (p : Spot) (e : Edit) : Prop :=
  ∀ q, 0 < (blockLevel c.sections q).val → transparentAt (c.set p e.block) q = true ∧
    ∃ r, (blockLevel c.sections q).val + r.dist q ≤ (emissionAt (c.set p e.block) r).val

/-- **Block light is never taken away**: where it is right after the edit, nothing had to go dark. -/
theorem stillLit_of_blockRelit {c : LitChunk} {p : Spot} {e : Edit} (h : BlockRelit c p e) :
    StillLit c p e := by
  intro q hq
  have hlevel := (blockRelit_iff_level c p e).1 h q
  have hkept : (blockLevel c.sections q).val ≤
      (blockLevel (propagateBlockLight (c.set p e.block)) q).val := by
    rw [← c.blockLevel_set p q e.block]
    rcases blockLevel_propagate_reaches (c.set p e.block) q with hsame | ⟨hrise, _⟩
    · rw [hsame]
    · exact hrise.le
  rw [hlevel] at hkept
  rcases blockLevel_propagate_reaches (clearLight (c.set p e.block)) q
    with hsame | ⟨_, hpass, r, hreach⟩
  · rw [hsame, blockLevel_clearLight, show NO_LIGHT.val = 0 from rfl] at hkept
    omega
  · have hemit : emissionAt (clearLight (c.set p e.block)) r = emissionAt (c.set p e.block) r := by
      unfold emissionAt
      rw [blockAt_clearLight]
    rw [hemit] at hreach
    exact ⟨(transparentAt_clearLight _ q).symm.trans hpass, r, by omega⟩

/-! ## Both -/

/-- The handler leaves the light that `init_chunk_lighting` computes for the changed chunk. -/
def Relit (c : LitChunk) (p : Spot) (e : Edit) : Prop :=
  SameLight (c.handle p e) (initChunkLighting (c.set p e.block))

theorem relit_iff (c : LitChunk) (p : Spot) (e : Edit) :
    Relit c p e ↔ SkyRelit c p e ∧ BlockRelit c p e := forall_and

/-- **When an edit is relit**: it is when the sky light is kept and the edit is out of the block
    light; and only when the sky light is kept and no block light has to go. -/
theorem relit_of_skyKept_of_blockDark (c : LitChunk) (p : Spot) (e : Edit) :
    (SkyKept c p e ∧ BlockDark c p e → Relit c p e) ∧
      (Relit c p e → SkyKept c p e ∧ StillLit c p e) := by
  rw [relit_iff, skyRelit_iff]
  constructor
  · rintro ⟨hsky, hdark⟩
    exact ⟨hsky, blockRelit_of_dark hdark⟩
  · rintro ⟨hsky, hblock⟩
    exact ⟨hsky, stillLit_of_blockRelit hblock⟩

/-- A chunk without sections is lit. -/
def emptyLit : LitChunk where
  chunk := ⟨Chunk.new ⟨0#32, 0#32⟩, .new _⟩
  lit q := by
    have hnone : initChunkLighting (Chunk.new ⟨0#32, 0#32⟩).sections q.section = none :=
      Option.map_eq_none_iff.1 (blockAt_initChunkLighting (Chunk.new ⟨0#32, 0#32⟩).sections q)
    unfold skyAt blockLightAt
    rw [hnone]
    exact ⟨rfl, rfl⟩

/-- A stone placed in the top row of an empty chunk is set dark, below the open sky. -/
theorem not_forall_relit : ¬ ∀ (c : LitChunk) (p : Spot) (e : Edit), Relit c p e := by
  intro h
  have hsky := ((relit_iff _ _ _).1 (h emptyLit ⟨⟨0, by decide⟩, ⟨383, by decide⟩, ⟨0, by decide⟩⟩
    (.place (BlockState.new 1#32)))).1
  have hmany := le_opaqueAbove_of_skyRelit hsky (by decide)
  have hnone : opaqueAbove (emptyLit.set ⟨⟨0, by decide⟩, ⟨383, by decide⟩, ⟨0, by decide⟩⟩
      (BlockState.new 1#32)) ⟨⟨0, by decide⟩, ⟨383, by decide⟩, ⟨0, by decide⟩⟩ = 0 := by
    refine opaqueAbove_eq_zero.2 fun u hu => ?_
    have hrow : 383 < u.val := hu
    omega
  omega

end Apoptotic
