import Apoptotic.World.Redstone

/-!
# Addressing a block of a chunk

`get_block` and `set_block` of `mc-world/src/chunk.rs` at the coordinates of the world, which the
callers reduce to `(x & 0xF) as usize`.  `set_block` indexes the array of the sections without a
check, so it panics outside the world's height; `none` is the panic.

Principal result: `addressed_iff` — exactly when a position can be read and written.
-/

namespace Apoptotic.Addressing

open Redstone (Pos low)

/-- A chunk whose containers are well formed. -/
structure SoundChunk where
  chunk : Chunk
  sound : SectionsOk chunk.sections

/-- The chunks that `set_block` builds are among them. -/
def ofReachable (c : ReachableChunk) : SoundChunk := ⟨c.chunk, c.reachable.sectionsOk⟩

def InWorld (y : BitVec 32) : Prop := -64 ≤ y.toInt ∧ y.toInt ≤ 319

/-- `chunk.get_block((x & 0xF) as usize, y, (z & 0xF) as usize)` -/
def blockAt (c : Chunk) (p : Pos) : Option BlockState := c.getBlock (low p.x) p.y (low p.z)

/-- `chunk.set_block((x & 0xF) as usize, y, (z & 0xF) as usize, block)` -/
def putBlock (c : Chunk) (p : Pos) (block : BlockState) : Option Chunk :=
  c.setBlock (low p.x) p.y (low p.z) block

/-- The same cell of a chunk. -/
def SameCell (p q : Pos) : Prop := low p.x = low q.x ∧ p.y = q.y ∧ low p.z = low q.z

/-- What is asked of a position: it can be read, and written without a panic; outside the world's
height this changes no block, inside it puts the block there and changes no other. -/
structure Addressed (c : Chunk) (p : Pos) (block : BlockState) : Prop where
  reads : (blockAt c p).isSome
  writes : ∃ c', putBlock c p block = some c' ∧
    (¬ InWorld p.y → ∀ q, blockAt c' q = blockAt c q) ∧
    (InWorld p.y → blockAt c' p = some block ∧
      ∀ q, ¬ SameCell p q → blockAt c' q = blockAt c q)

/-- A container has room for a state, or it stores a plain one: a container that goes direct, or is
direct, keeps neither properties nor large ids. -/
def HasRoom (c : PalettedContainer) (idx : Nat) (block : BlockState) : Prop :=
  match c.mode with
  | .single _ => True
  | .indirect palette _ _ =>
      palette.length < 2 ^ GLOBAL_BITS ∨ block ∈ palette ∨
        block.Fits ∧ ∀ i < BLOCKS_PER_SECTION, i ≠ idx → ∀ old, c.getAt i = some old → old.Fits
  | .direct _ => block.Fits

/-- The position is inside the world, and its section has room. -/
def Fitting (c : Chunk) (p : Pos) (block : BlockState) : Prop :=
  InWorld p.y ∧ ∀ h : sectionIndex p.y < SECTIONS_PER_CHUNK,
    HasRoom (c.container ⟨sectionIndex p.y, h⟩) (index (low p.x) (p.y.toInt % 16).toNat (low p.z))
      block

/-! ## One container -/

theorem length_see_le_iff {seen : List BlockState} {b : BlockState}
    (h : seen.length ≤ 2 ^ GLOBAL_BITS) :
    (see seen b).length ≤ 2 ^ GLOBAL_BITS ↔ seen.length < 2 ^ GLOBAL_BITS ∨ b ∈ seen := by
  unfold see
  by_cases hb : b ∈ seen
  · rw [if_pos hb]
    exact ⟨fun _ => .inr hb, fun _ => h⟩
  · rw [if_neg hb, List.length_append, List.length_singleton]
    constructor
    · intro hle
      exact .inl (by omega)
    · rintro (hlt | hmem)
      · omega
      · exact absurd hmem hb

theorem length_le_see (seen : List BlockState) (b : BlockState) :
    seen.length ≤ (see seen b).length := by
  unfold see
  split
  · exact le_rfl
  · rw [List.length_append]
    omega

section

variable {seen : List BlockState} {f : Nat → BlockState} {c c' : PalettedContainer} {x y z : Nat}
  {b : BlockState}

/-- With few states, every cell keeps its own. -/
theorem kept_of_small (hf : Represents seen f c.mode) (hi : index x y z < BLOCKS_PER_SECTION)
    (hset : c.set x y z b = some c') (hsmall : (see seen b).length ≤ 2 ^ GLOBAL_BITS) :
    c'.getAt (index x y z) = some b ∧
      ∀ i < BLOCKS_PER_SECTION, i ≠ index x y z → c'.getAt i = c.getAt i := by
  obtain ⟨c'', hc'', hf'⟩ := set_represents hf hi b
  obtain rfl := Option.some.inj (hset.symm.trans hc'')
  have hseen := (length_le_see seen b).trans hsmall
  constructor
  · rw [getAt_of_represents hf' hi, if_pos hsmall, Function.update_self]
  · intro i hlt hne
    rw [getAt_of_represents hf' hlt, getAt_of_represents hf hlt, if_pos hsmall, if_pos hseen,
      Function.update_of_ne hne]

/-- With many, the container is direct afterwards. -/
theorem getAt_of_large (hf : Represents seen f c.mode) (hi : index x y z < BLOCKS_PER_SECTION)
    (hset : c.set x y z b = some c') (hlarge : ¬ (see seen b).length ≤ 2 ^ GLOBAL_BITS) :
    c'.getAt (index x y z) = some (directState b) ∧
      ∀ i < BLOCKS_PER_SECTION, i ≠ index x y z → c'.getAt i = some (directState (f i)) := by
  obtain ⟨c'', hc'', hf'⟩ := set_represents hf hi b
  obtain rfl := Option.some.inj (hset.symm.trans hc'')
  constructor
  · rw [getAt_of_represents hf' hi, if_neg hlarge, Function.update_self]
  · intro i hlt hne
    rw [getAt_of_represents hf' hlt, if_neg hlarge, Function.update_of_ne hne]

/-- **What `set` keeps of the states of a container.** -/
theorem hasRoom_iff (hc : c.Sound) (hi : index x y z < BLOCKS_PER_SECTION)
    (hset : c.set x y z b = some c') :
    (c'.getAt (index x y z) = some b ∧
      ∀ i < BLOCKS_PER_SECTION, i ≠ index x y z → c'.getAt i = c.getAt i) ↔
      HasRoom c (index x y z) b := by
  obtain ⟨seen, f, hf⟩ := hc
  have hsmall := kept_of_small hf hi hset
  have hlarge := getAt_of_large hf hi hset
  have hold (i : Nat) (hlt : i < BLOCKS_PER_SECTION) := getAt_of_represents hf hlt
  obtain ⟨mode⟩ := c
  cases mode with
  | single cur =>
      obtain ⟨rfl, -⟩ := hf
      have hlen : (see [cur] b).length ≤ 2 ^ GLOBAL_BITS := by
        apply (length_see_le_iff (by simp [GLOBAL_BITS])).2
        exact .inl (by simp [GLOBAL_BITS])
      exact iff_of_true (hsmall hlen) trivial
  | indirect palette data bits =>
      obtain ⟨rfl, -, -, hle, -⟩ := hf
      unfold HasRoom
      dsimp only
      rw [← or_assoc, ← length_see_le_iff hle]
      by_cases hlen : (see palette b).length ≤ 2 ^ GLOBAL_BITS
      · exact iff_of_true (hsmall hlen) (.inl hlen)
      · -- The palette is full: the container becomes direct.
        obtain ⟨hself, hother⟩ := hlarge hlen
        rw [hself, Option.some.injEq, directState_eq_self_iff, or_iff_right hlen]
        refine and_congr_right fun _ => forall_congr' fun i => forall_congr' fun hlt =>
          forall_congr' fun hne => ?_
        rw [hother i hlt hne, hold i hlt, if_pos hle, Option.some.injEq, directState_eq_self_iff]
        simp
  | direct data =>
      have hlen : ¬ (see seen b).length ≤ 2 ^ GLOBAL_BITS := by
        have := length_le_see seen b
        have := hf.1
        omega
      obtain ⟨hself, hother⟩ := hlarge hlen
      unfold HasRoom
      dsimp only
      rw [hself, Option.some.injEq, directState_eq_self_iff, and_iff_left_iff_imp]
      intro _ i hlt hne
      rw [hother i hlt hne, hold i hlt, if_neg (Nat.not_le.2 hf.1)]

end

/-! ## One chunk -/

theorem sectionIndex_lt_iff {y : BitVec 32} : sectionIndex y < SECTIONS_PER_CHUNK ↔ InWorld y := by
  have hlo := y.le_toInt
  have hhi := y.toInt_lt
  unfold sectionIndex SECTIONS_PER_CHUNK MIN_SECTION_Y InWorld
  omega

theorem blockAt_outside {c : Chunk} {p : Pos} (h : ¬ InWorld p.y) :
    blockAt c p = some BlockState.AIR := by
  unfold blockAt Chunk.getBlock
  rw [dif_neg (mt sectionIndex_lt_iff.1 h)]

/-- **Outside the world's height `set_block` panics.** -/
theorem putBlock_outside {c : Chunk} {p : Pos} (h : ¬ InWorld p.y) (block : BlockState) :
    putBlock c p block = none := by
  unfold putBlock Chunk.setBlock
  rw [dif_neg (mt sectionIndex_lt_iff.1 h)]

theorem putBlock_total {c : Chunk} (hc : SectionsOk c.sections) {p : Pos} (h : InWorld p.y)
    (block : BlockState) : ∃ c', putBlock c p block = some c' :=
  Chunk.setBlock_total hc (sectionIndex_lt_iff.2 h) (low p.x) (low p.z) block

/-- The place of a position in its section. -/
def placeOf (p : Pos) : Nat := index (low p.x) (p.y.toInt % 16).toNat (low p.z)

theorem placeOf_lt (p : Pos) : placeOf p < BLOCKS_PER_SECTION := index_of_block _ _ _

theorem blockAt_eq {c : Chunk} {p : Pos} (h : sectionIndex p.y < SECTIONS_PER_CHUNK) :
    blockAt c p = (c.container ⟨sectionIndex p.y, h⟩).getAt (placeOf p) :=
  Chunk.getBlock_eq_get c _ _ h

theorem placeOf_eq (p : Pos) :
    placeOf p = (p.y.toInt % 16).toNat * 256 + (low p.z).val * 16 + (low p.x).val :=
  index_eq (low p.x).isLt (low p.z).isLt

/-- A cell is its section and its place in it. -/
theorem sameCell_of_place {p q : Pos} (hp : InWorld p.y) (hq : InWorld q.y)
    (hsection : sectionIndex p.y = sectionIndex q.y) (hplace : placeOf p = placeOf q) :
    SameCell p q := by
  have hpx := (low p.x).isLt
  have hpz := (low p.z).isLt
  have hqx := (low q.x).isLt
  have hqz := (low q.z).isLt
  rw [placeOf_eq, placeOf_eq] at hplace
  unfold sectionIndex MIN_SECTION_Y at hsection
  obtain ⟨hp1, hp2⟩ := hp
  obtain ⟨hq1, hq2⟩ := hq
  have hy : p.y.toInt = q.y.toInt := by omega
  exact ⟨Fin.ext (by omega), BitVec.eq_of_toInt_eq hy, Fin.ext (by omega)⟩

/-- The position at a place of the section of `p`. -/
def posAt (p : Pos) (i : Nat) : Pos :=
  ⟨.ofNat 32 (i % 16), .ofInt 32 (p.y.toInt / 16 * 16 + (i / 256 : Nat)), .ofNat 32 (i / 16 % 16)⟩

theorem posAt_spec {p : Pos} (hp : InWorld p.y) {i : Nat} (hi : i < BLOCKS_PER_SECTION) :
    InWorld (posAt p i).y ∧ sectionIndex (posAt p i).y = sectionIndex p.y ∧
      placeOf (posAt p i) = i := by
  obtain ⟨hlo, hhi⟩ := hp
  unfold BLOCKS_PER_SECTION at hi
  have hy : (posAt p i).y.toInt = p.y.toInt / 16 * 16 + (i / 256 : Nat) := by
    unfold posAt
    rw [BitVec.toInt_ofInt]
    apply Int.bmod_eq_of_le <;> omega
  have hx : (low (posAt p i).x).val = i % 16 := by
    simp only [posAt, low, BitVec.toNat_ofNat]
    omega
  have hz : (low (posAt p i).z).val = i / 16 % 16 := by
    simp only [posAt, low, BitVec.toNat_ofNat]
    omega
  refine ⟨?_, ?_, ?_⟩
  · unfold InWorld
    rw [hy]
    omega
  · unfold sectionIndex MIN_SECTION_Y
    rw [hy]
    omega
  · rw [placeOf_eq, hy, hx, hz]
    omega

/-- The block at a position of the same section. -/
theorem blockAt_of_section {c : Chunk} {p q : Pos} (h : sectionIndex p.y < SECTIONS_PER_CHUNK)
    (hq : sectionIndex q.y = sectionIndex p.y) :
    blockAt c q = (c.container ⟨sectionIndex p.y, h⟩).getAt (placeOf q) := by
  have hlt : sectionIndex q.y < SECTIONS_PER_CHUNK := hq ▸ h
  rw [blockAt_eq hlt]
  congr 2
  exact Fin.ext hq

/-- **A position is addressed exactly if it is in the world and its section keeps what is stored.** -/
theorem addressed_iff (c : SoundChunk) (p : Pos) (block : BlockState) :
    Addressed c.chunk p block ↔ Fitting c.chunk p block := by
  by_cases hp : InWorld p.y
  · have hidx := sectionIndex_lt_iff.2 hp
    obtain ⟨c', hput⟩ := putBlock_total c.sound hp block
    obtain ⟨_, hset, hothers⟩ := Chunk.setBlock_container hput
    have hroom := hasRoom_iff (Chunk.sound_container c.sound _) (placeOf_lt p) hset
    have hfit : Fitting c.chunk p block ↔
        HasRoom (c.chunk.container ⟨sectionIndex p.y, hidx⟩) (placeOf p) block :=
      ⟨fun h => h.2 hidx, fun h => ⟨hp, fun _ => h⟩⟩
    rw [hfit]
    refine Iff.trans ?_ hroom
    constructor
    · rintro ⟨-, c'', hput', -, hin⟩
      obtain rfl := Option.some.inj (hput.symm.trans hput')
      obtain ⟨hself, hother⟩ := hin hp
      refine ⟨(blockAt_eq hidx).symm.trans hself, fun i hi hne => ?_⟩
      obtain ⟨-, hsection, hplace⟩ := posAt_spec hp hi
      have hkept := hother (posAt p i) fun hsame => hne ?_
      · rw [blockAt_of_section hidx hsection, blockAt_of_section hidx hsection, hplace] at hkept
        exact hkept
      · obtain ⟨hx, hy, hz⟩ := hsame
        rw [← hplace, placeOf_eq, ← hx, ← hy, ← hz, ← placeOf_eq]
        rfl
    · rintro ⟨hself, hother⟩
      refine ⟨Chunk.getBlock_total c.sound _ _ _, c', hput, fun h => absurd hp h, fun _ =>
        ⟨(blockAt_eq hidx).trans hself, fun q hne => ?_⟩⟩
      by_cases hq : InWorld q.y
      · by_cases hsection : sectionIndex q.y = sectionIndex p.y
        · rw [blockAt_of_section hidx hsection, blockAt_of_section hidx hsection]
          exact hother _ (placeOf_lt q) fun hplace =>
            hne (sameCell_of_place hp hq hsection.symm hplace.symm)
        · rw [blockAt_eq (sectionIndex_lt_iff.2 hq), blockAt_eq (sectionIndex_lt_iff.2 hq),
            hothers _ fun h => hsection (congrArg Fin.val h)]
      · rw [blockAt_outside hq, blockAt_outside hq]
  · constructor
    · rintro ⟨-, c', hput, -⟩
      rw [putBlock_outside hp] at hput
      cases hput
    · intro h
      exact absurd h.1 hp

/-- A block over the top of the world. -/
theorem not_forall_addressed : ¬ ∀ (c : SoundChunk) (p : Pos) (block : BlockState),
    Addressed c.chunk p block := by
  intro h
  obtain ⟨-, c', hput, -⟩ := h (ofReachable ⟨Chunk.new ⟨0#32, 0#32⟩, .new _⟩) ⟨0#32, 320#32, 0#32⟩
    (BlockState.new 1#32)
  rw [putBlock_outside (by unfold InWorld; decide)] at hput
  cases hput

end Apoptotic.Addressing
