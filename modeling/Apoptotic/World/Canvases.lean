import Apoptotic.Lib.LastWrite
import Apoptotic.Lib.Outcome
import Apoptotic.World.ChunkGrids
import Apoptotic.World.Relighting

/-!
# Chunks as canvases

What a chunk holds while blocks are set in it: the states that each of its containers has seen, the
blocks that were set, the sections that are there and their light.  A new section comes with sky light
`MAX_LIGHT` and no block light, so a canvas gives the light of a missing section these values and a
write never changes light.

Principal results: `Shown.setBlock`, `Shown.paint` — a write and a list of writes; `Shown.blockAt` —
what is read; `Chunk.Grown.setBlock` — a chunk stays sound wherever `set_block` writes.
-/

namespace Apoptotic

open Flood LastWrite PackedBits

/-! ## Chunks that grow -/

/-- The containers are sound, and every section has the height of its index. -/
structure Chunk.Grown (c : Chunk) : Prop where
  sound : SectionsOk c.sections
  placed : SectionsPlaced c.sections

/-- An index after the last entry is not written. -/
theorem Holds.writePacked_none {data : List Word} {bits : Nat} {f : Nat → Nat}
    (h : Holds data BLOCKS_PER_SECTION bits f) (hbits : bits ≠ 0) {idx : Nat}
    (hi : BLOCKS_PER_SECTION ≤ idx) (value : Word) : writePacked data idx bits value = none := by
  have hlen : data.length ≤ idx * bits / 64 := by
    have hmul := Nat.mul_le_mul_right bits hi
    rw [h.length]
    unfold packedWords
    rw [if_neg hbits]
    unfold BLOCKS_PER_SECTION at hmul ⊢
    omega
  unfold writePacked
  rw [if_neg hbits]
  dsimp only
  rw [List.getElem?_eq_none hlen]

theorem Holds.setDirect_none {data : List Word} {f : Nat → Nat}
    (h : Holds data BLOCKS_PER_SECTION GLOBAL_BITS f) {idx : Nat} (hi : BLOCKS_PER_SECTION ≤ idx)
    (b : BlockState) : PalettedContainer.setDirect data idx b = none := by
  unfold PalettedContainer.setDirect
  rw [h.writePacked_none (by decide) hi]
  rfl

/-- An index after the last entry is not set: the container stays as it was, or the call panics. -/
theorem set_eq_self_of_le {c c' : PalettedContainer} (h : c.Sound) {x y z : Nat}
    (hi : BLOCKS_PER_SECTION ≤ index x y z) {b : BlockState} (hset : c.set x y z b = some c') :
    c' = c := by
  obtain ⟨seen, f, hf⟩ := h
  obtain ⟨mode⟩ := c
  unfold PalettedContainer.set at hset
  cases mode with
  | single current =>
      dsimp only at hset
      split at hset
      · exact (Option.some.inj hset).symm
      · have hnew := holds_newPacked BLOCKS_PER_SECTION (show 1 < 64 by decide)
        rw [hnew.writePacked_none one_ne_zero hi] at hset
        cases hset
  | indirect palette data bits =>
      obtain ⟨rfl, hnd, h2, hle, hbits, g, hg, hgf⟩ := hf
      have hb := bitsFor_bounds h2 hle
      have hnone := hg.writePacked_none (by omega) hi
      dsimp only at hset
      split at hset
      · rw [hnone] at hset
        cases hset
      · split at hset
        · split at hset
          · obtain ⟨data', hup, hh⟩ := upgradeToDirect_spec hle hg hgf
            rw [hup] at hset
            dsimp only at hset
            rw [hh.setDirect_none hi] at hset
            cases hset
          · obtain ⟨newData, hfill, hnew⟩ := fillPacked_spec BLOCKS_PER_SECTION
              (show bitsFor (palette.length + 1) < 64 by unfold GLOBAL_BITS at *; omega)
              (fun i => readPacked data i bits) hg.read
            rw [hfill, Option.bind_some, hnew.writePacked_none (by omega) hi] at hset
            cases hset
        · rw [hnone] at hset
          cases hset
  | direct data =>
      obtain ⟨_, hdata⟩ := hf
      dsimp only at hset
      rw [hdata.setDirect_none hi] at hset
      cases hset

/-- **A container stays sound wherever it is set.** -/
theorem PalettedContainer.Sound.set {c c' : PalettedContainer} (h : c.Sound) {x y z : Nat}
    {b : BlockState} (hset : c.set x y z b = some c') : c'.Sound := by
  by_cases hi : index x y z < BLOCKS_PER_SECTION
  · obtain ⟨seen, f, hf⟩ := h
    obtain ⟨c'', hc'', hf'⟩ := set_represents hf hi b
    obtain rfl := Option.some.inj (hset.symm.trans hc'')
    exact ⟨_, _, hf'⟩
  · rw [set_eq_self_of_le h (not_lt.1 hi) hset]
    exact h

namespace Chunk.Grown

theorem new (pos : ChunkPos) : (Chunk.new pos).Grown where
  sound _ _ h := by cases h
  placed _ _ h := by cases h

/-- **A chunk stays sound wherever `set_block` writes.** -/
theorem setBlock {c c' : Chunk} (h : c.Grown) {x z : Nat} {y : BitVec 32} {b : BlockState}
    (hset : c.setBlock x y z b = some c') : c'.Grown := by
  obtain ⟨idx, sec, _, hsec, rfl⟩ := Chunk.setBlock_spec hset
  obtain ⟨blocks, hblocks, rfl⟩ := Option.map_eq_some_iff.1 hsec
  refine ⟨?_, ?_⟩
  · refine h.sound.put ?_ idx
    cases hold : c.sections idx with
    | none =>
        rw [hold] at hblocks
        exact ⟨(sound_filled _).set hblocks, sound_filled _⟩
    | some old =>
        rw [hold] at hblocks
        exact ⟨(h.sound idx old hold).blocks.set hblocks, (h.sound idx old hold).biomes⟩
  · intro i y hy
    unfold heights at hy
    dsimp only at hy
    by_cases hi : i = idx
    · subst hi
      rw [Function.update_self, Option.map_some] at hy
      cases hold : c.sections i with
      | none =>
          rw [hold] at hy
          exact (Option.some.inj hy).symm
      | some old =>
          rw [hold] at hy
          refine h.placed i y ?_
          unfold heights
          rw [hold]
          exact hy
    · rw [Function.update_of_ne hi] at hy
      exact h.placed i y hy

theorem initLighting {c : Chunk} (h : c.Grown) :
    Chunk.Grown { c with sections := initChunkLighting c.sections, dirty := false } where
  sound := h.sound.initChunkLighting
  placed := h.placed.congr (funext fun i => map_initChunkLighting c.sections i _ fun _ _ _ => rfl)

end Chunk.Grown

/-! ## Canvases -/

/-- The level of the sky at a spot: a section that is made is fully lit. -/
def skyLevel (s : Sections) (q : Spot) : Fin 16 := (skyAt s q).getD MAX_LIGHT

structure Canvas where
  /-- The states that the container of a section has seen. -/
  seen : Fin SECTIONS_PER_CHUNK → List BlockState
  /-- The block that was set last, by section and index. -/
  cells : Fin SECTIONS_PER_CHUNK → Nat → BlockState
  present : Fin SECTIONS_PER_CHUNK → Bool
  sky : Spot → Fin 16
  block : Spot → Fin 16

namespace Canvas

variable (v : Canvas) (p q : Spot) (b : BlockState)

/-- The block that was set last at a spot. -/
def at' : BlockState := v.cells p.section p.cell.idx

def put : Canvas :=
  { v with
    seen := Function.update v.seen p.section (see (v.seen p.section) b)
    cells := Function.update v.cells p.section (Function.update (v.cells p.section) p.cell.idx b)
    present := Function.update v.present p.section true }

/-- The container of a section holds no more states than direct mode can tell apart. -/
def Roomy (i : Fin SECTIONS_PER_CHUNK) : Prop := (v.seen i).length ≤ 2 ^ GLOBAL_BITS

instance (i : Fin SECTIONS_PER_CHUNK) : Decidable (v.Roomy i) := inferInstanceAs (Decidable (_ ≤ _))

/-- The block that is read at a spot of a section that is there. -/
def kept : BlockState := if v.Roomy p.section then v.at' p else directState (v.at' p)

theorem at'_put : (v.put p b).at' q = if q = p then b else v.at' q := by
  unfold at' put
  dsimp only
  by_cases hs : q.section = p.section
  · rw [hs, Function.update_self]
    by_cases hc : q.cell = p.cell
    · rw [if_pos (Spot.ext_of hs hc), hc, Function.update_self]
    · rw [Function.update_of_ne fun h => hc (Cell.idx_inj h), if_neg fun h => hc (congrArg _ h)]
  · rw [Function.update_of_ne hs, if_neg fun h => hs (congrArg _ h)]

/-- A list of writes. -/
def puts (ws : List (Spot × BlockState)) : Canvas := ws.foldl (fun v w => v.put w.1 w.2) v

end Canvas

/-- The chunk holds what the canvas says. -/
structure Shown (c : Chunk) (v : Canvas) : Prop where
  container : ∀ i, Represents (v.seen i) (v.cells i) (c.container i).mode
  present : ∀ i, (c.sections i).isSome = v.present i
  sky : ∀ q, skyLevel c.sections q = v.sky q
  block : ∀ q, blockLevel c.sections q = v.block q

/-- A chunk with sound containers is shown by some canvas. -/
theorem Chunk.Grown.exists_shown {c : Chunk} (h : c.Grown) : ∃ v, Shown c v := by
  choose seen cells hcells using fun i => Chunk.sound_container h.sound i
  exact ⟨⟨seen, cells, fun i => (c.sections i).isSome, skyLevel c.sections, blockLevel c.sections⟩,
    hcells, fun _ => rfl, fun _ => rfl, fun _ => rfl⟩

theorem getLightNibble_full (c : Cell) : getLightNibble (Light.filled 0xFF#8) c = MAX_LIGHT := by
  refine (getLightNibble_filled _ _).trans ?_
  split
  · rfl
  · rfl

theorem getLightNibble_empty (c : Cell) : getLightNibble (Light.filled 0x00#8) c = NO_LIGHT := by
  refine (getLightNibble_filled _ _).trans ?_
  split
  · rfl
  · rfl

namespace Shown

variable {c : Chunk} {v : Canvas}

/-- **What is read.** -/
theorem blockAt (h : Shown c v) (q : Spot) :
    Apoptotic.blockAt c.sections q = if v.present q.section then some (v.kept q) else none := by
  have hpresent := h.present q.section
  have hrep := h.container q.section
  unfold Apoptotic.blockAt Section.getBlock
  unfold Chunk.container at hrep
  cases hold : c.sections q.section with
  | none =>
      rw [hold] at hpresent
      rw [← hpresent]
      rfl
  | some sec =>
      rw [hold] at hpresent hrep
      rw [← hpresent, Option.map_some, PalettedContainer.get]
      have hget : sec.blocks.getAt q.cell.idx = some (v.kept q) :=
        getAt_of_represents hrep q.cell.idx_lt
      rw [show index q.cell.x q.cell.y q.cell.z = q.cell.idx from rfl, hget]
      rfl

/-- A section that is made has the light of a missing one. -/
theorem light_foundSection (pos : ChunkPos) (s : Sections) (q : Spot) :
    getLightNibble (foundSection pos s q).skyLight q.cell = skyLevel s q ∧
      getLightNibble (foundSection pos s q).blockLight q.cell = blockLevel s q := by
  unfold foundSection skyLevel skyAt blockLevel blockLightAt
  cases s q.section with
  | none => exact ⟨getLightNibble_full _, getLightNibble_empty _⟩
  | some old => exact ⟨rfl, rfl⟩

/-- **A write** does not panic, and changes the canvas as it says. -/
theorem setBlock (h : Shown c v) (p : Spot) (b : BlockState) :
    ∃ c', c.setBlock p.x (BitVec.ofInt 32 p.height) p.z b = some c' ∧ Shown c' (v.put p b) := by
  let found := foundSection c.position c.sections p
  obtain ⟨blocks, hset, hrep⟩ := set_represents (h.container p.section) (x := p.cell.x)
    (y := p.cell.y) (z := p.cell.z) p.cell.idx_lt b
  have hidx : sectionIndex (BitVec.ofInt 32 p.height.val) < SECTIONS_PER_CHUNK :=
    sectionIndex_height p.height
  have hsection : (⟨_, hidx⟩ : Fin SECTIONS_PER_CHUNK) = p.section := Fin.ext p.sectionIndex_height
  have hnew : ∀ q : Spot, q.section = p.section →
      Function.update c.sections p.section (some { found with blocks := blocks }) q.section =
        some { foundSection c.position c.sections q with blocks := blocks } := by
    intro q hq
    rw [hq, Function.update_self]
    unfold found foundSection
    rw [hq]
  refine ⟨{ c with sections := Function.update c.sections p.section (some { found with blocks := blocks })
                   dirty := true }, ?_, ?_, ?_, ?_, ?_⟩
  · have hfound : found.blocks.set p.cell.x p.cell.y p.cell.z b = some blocks := hset
    unfold Chunk.setBlock
    rw [dif_pos hidx, p.cell_height]
    dsimp only
    rw [hsection, p.sectionIndex_height]
    show Option.map _ (Option.map _ (found.blocks.set p.cell.x p.cell.y p.cell.z b)) = _
    rw [hfound]
    rfl
  · intro i
    unfold Chunk.container Canvas.put
    dsimp only
    by_cases hi : i = p.section
    · subst hi
      rw [Function.update_self, Function.update_self, Function.update_self]
      exact hrep
    · rw [Function.update_of_ne hi, Function.update_of_ne hi, Function.update_of_ne hi]
      exact h.container i
  · intro i
    unfold Canvas.put
    dsimp only
    by_cases hi : i = p.section
    · subst hi
      rw [Function.update_self, Function.update_self]
      rfl
    · rw [Function.update_of_ne hi, Function.update_of_ne hi]
      exact h.present i
  · intro q
    refine Eq.trans ?_ (h.sky q)
    by_cases hq : q.section = p.section
    · unfold skyLevel skyAt
      dsimp only
      rw [hnew q hq, Option.map_some, Option.getD_some]
      exact (light_foundSection c.position c.sections q).1
    · unfold skyLevel skyAt
      dsimp only
      rw [Function.update_of_ne hq]
  · intro q
    refine Eq.trans ?_ (h.block q)
    by_cases hq : q.section = p.section
    · unfold blockLevel blockLightAt
      dsimp only
      rw [hnew q hq, Option.map_some, Option.getD_some]
      exact (light_foundSection c.position c.sections q).2
    · unfold blockLevel blockLightAt
      dsimp only
      rw [Function.update_of_ne hq]

end Shown

/-! ## Painting -/

/-- `set_block` at each spot. -/
def paint (ws : List (Spot × BlockState)) (c : Chunk) : Option Chunk :=
  ws.foldlM (fun c w => c.setBlock w.1.x (BitVec.ofInt 32 w.1.height) w.1.z w.2) c

/-- **A list of writes** does not panic either. -/
theorem Shown.paint {c : Chunk} {v : Canvas} (h : Shown c v) (ws : List (Spot × BlockState)) :
    ∃ c', Apoptotic.paint ws c = some c' ∧ Shown c' (v.puts ws) := by
  induction ws generalizing c v with
  | nil => exact ⟨c, rfl, h⟩
  | cons w ws ih =>
      obtain ⟨c₁, hset, h₁⟩ := h.setBlock w.1 w.2
      obtain ⟨c₂, hpaint, h₂⟩ := ih h₁
      refine ⟨c₂, ?_, h₂⟩
      unfold Apoptotic.paint
      rw [List.foldlM_cons, hset]
      exact hpaint

theorem Chunk.Grown.paint {c c' : Chunk} (h : c.Grown) {ws : List (Spot × BlockState)}
    (hpaint : Apoptotic.paint ws c = some c') : c'.Grown :=
  foldlM_keeps (fun _ _ _ hc hset => hc.setBlock hset) h hpaint

namespace Canvas

variable (v : Canvas) (ws : List (Spot × BlockState))

@[simp] theorem sky_puts : (v.puts ws).sky = v.sky := by
  induction ws generalizing v with
  | nil => rfl
  | cons w ws ih => exact ih (v.put w.1 w.2)

@[simp] theorem block_puts : (v.puts ws).block = v.block := by
  induction ws generalizing v with
  | nil => rfl
  | cons w ws ih => exact ih (v.put w.1 w.2)

/-- The last write of each spot is left. -/
theorem at'_puts (q : Spot) :
    (v.puts ws).at' q = LastWrite.puts (fun w => some w.1) Prod.snd v.at' ws q := by
  induction ws generalizing v with
  | nil => rfl
  | cons w ws ih =>
      refine (ih (v.put w.1 w.2)).trans ?_
      have hat : (v.put w.1 w.2).at' = LastWrite.put (fun w => some w.1) Prod.snd v.at' w := by
        funext q
        rw [at'_put]
        unfold LastWrite.put
        dsimp only
        rw [Function.update_apply]
      rw [hat]
      rfl

/-- A section is there when it was, or when something was written in it. -/
theorem present_puts (i : Fin SECTIONS_PER_CHUNK) :
    (v.puts ws).present i = (v.present i || ws.any fun w => w.1.section = i) := by
  induction ws generalizing v with
  | nil => simp [puts]
  | cons w ws ih =>
      refine (ih (v.put w.1 w.2)).trans ?_
      rw [List.any_cons]
      unfold put
      dsimp only
      by_cases hi : i = w.1.section
      · subst hi
        simp
      · rw [Function.update_of_ne hi, decide_eq_false fun h => hi h.symm, Bool.false_or]

/-- The states that a section sees are those that are written in it. -/
theorem seen_puts (i : Fin SECTIONS_PER_CHUNK) :
    (v.puts ws).seen i =
      ((ws.filter fun w => w.1.section = i).map Prod.snd).foldl see (v.seen i) := by
  induction ws generalizing v with
  | nil => rfl
  | cons w ws ih =>
      refine (ih (v.put w.1 w.2)).trans ?_
      unfold put
      dsimp only
      by_cases hi : i = w.1.section
      · subst hi
        rw [Function.update_self, List.filter_cons_of_pos (by simp), List.map_cons, List.foldl_cons]
      · rw [Function.update_of_ne hi, List.filter_cons_of_neg (by simpa using fun h => hi h.symm)]

end Canvas

end Apoptotic
