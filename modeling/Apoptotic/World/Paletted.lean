import Apoptotic.World.Packed
import Mathlib.Data.List.Induction
import Mathlib.Data.List.Nodup

/-!
# Paletted containers

`BlockState` of `mc-core/src/block.rs` and `PalettedContainer` of `mc-world/src/paletted.rs`:
the three modes, `get`, `set` with its Single → Indirect → Direct transitions, and
`upgrade_to_direct`.  `none` is the panic of a slice index.

The abstract side is an array of block states indexed by cell (`lastSet`) together with the
list of distinct states stored so far (`statesSeen`), which the palette turns out to be.

Principal results: `set_represents` — one `set` from a container that represents an array;
`run_represents` — every run of `set` calls; `faithfulRun_iff` — exactly which runs return the
last state set at every cell.
-/

namespace Apoptotic

open PackedBits

/-- `BlockState`: `id` is the block type, `props` the property bits (bit 0 = waterlogged, …). -/
structure BlockState where
  id : BitVec 32
  props : BitVec 16
  deriving DecidableEq, Repr

namespace BlockState

def AIR : BlockState := ⟨0#32, 0#16⟩

def new (id : BitVec 32) : BlockState := ⟨id, 0#16⟩

def withProps (id : BitVec 32) (props : BitVec 16) : BlockState := ⟨id, props⟩

end BlockState

/-- `BLOCKS_PER_SECTION`. -/
def BLOCKS_PER_SECTION : Nat := 4096

/-- `GLOBAL_BITS`, the bit width of direct mode. -/
def GLOBAL_BITS : Nat := 15

/-- `bits_for`: `usize::BITS - (count - 1).leading_zeros()`. -/
def bitsFor (count : Nat) : Nat := if count ≤ 1 then 0 else Nat.log2 (count - 1) + 1

theorem bitsFor_le_iff (count bits : Nat) : bitsFor count ≤ bits ↔ count ≤ 2 ^ bits := by
  unfold bitsFor
  have hpos : 0 < 2 ^ bits := Nat.two_pow_pos bits
  split
  · omega
  · rw [Nat.add_one_le_iff, Nat.log2_lt (by omega)]
    omega

inductive ContainerMode where
  | single (block : BlockState)
  | indirect (palette : List BlockState) (data : List Word) (bitsPerEntry : Nat)
  | direct (data : List Word)
  deriving Repr

structure PalettedContainer where
  mode : ContainerMode
  deriving Repr

/-- `index`: YZX order. -/
def index (x y z : Nat) : Nat := (y <<< 8) ||| (z <<< 4) ||| x

namespace PalettedContainer

def filled (block : BlockState) : PalettedContainer := ⟨.single block⟩

def new : PalettedContainer := filled BlockState.AIR

/-- The body of `get` after `idx` is computed. -/
def getAt (c : PalettedContainer) (idx : Nat) : Option BlockState :=
  match c.mode with
  | .single b => some b
  | .indirect palette data bits =>
      if bits = 0 then palette[0]?
      else (readPacked data idx bits).map fun i => (palette[i.toNat]?).getD BlockState.AIR
  | .direct data => (readPacked data idx GLOBAL_BITS).map fun id => BlockState.new (id.setWidth 32)

def get (c : PalettedContainer) (x y z : Nat) : Option BlockState := c.getAt (index x y z)

/-- `upgrade_to_direct`. -/
def upgradeToDirect (c : PalettedContainer) : Option PalettedContainer :=
  match c.mode with
  | .direct _ => some c
  | .single b =>
      (fillPacked BLOCKS_PER_SECTION GLOBAL_BITS fun _ => some (b.id.setWidth 64)).map
        fun data => ⟨.direct data⟩
  | .indirect palette data bits =>
      (fillPacked BLOCKS_PER_SECTION GLOBAL_BITS fun i =>
        (readPacked data i bits).map fun p =>
          ((palette[p.toNat]?).getD BlockState.AIR).id.setWidth 64).map fun data => ⟨.direct data⟩

/-- The Direct arm of `set`. -/
def setDirect (data : List Word) (idx : Nat) (block : BlockState) : Option PalettedContainer :=
  (writePacked data idx GLOBAL_BITS (block.id.setWidth 64)).map fun data => ⟨.direct data⟩

def set (c : PalettedContainer) (x y z : Nat) (block : BlockState) : Option PalettedContainer :=
  let idx := index x y z
  match c.mode with
  | .single current =>
      if current = block then some c
      else
        -- Single → Indirect, one bit per entry
        (writePacked (newPacked BLOCKS_PER_SECTION 1) idx 1 1#64).map fun data =>
          ⟨.indirect [current, block] data 1⟩
  | .indirect palette data bits =>
      match palette.findIdx? (· == block) with
      | some pos =>
          (writePacked data idx bits (BitVec.ofNat 64 pos)).map fun data =>
            ⟨.indirect palette data bits⟩
      | none =>
          let newBits := bitsFor (palette.length + 1)
          if newBits > bits then
            if newBits > GLOBAL_BITS then
              -- the source calls `set` again, on the container just made direct
              match c.upgradeToDirect with
              | some ⟨.direct data⟩ => setDirect data idx block
              | _ => none
            else
              (fillPacked BLOCKS_PER_SECTION newBits fun i => readPacked data i bits).bind
                fun newData =>
                  (writePacked newData idx newBits (BitVec.ofNat 64 palette.length)).map
                    fun newData => ⟨.indirect (palette ++ [block]) newData newBits⟩
          else
            (writePacked data idx bits (BitVec.ofNat 64 palette.length)).map fun data =>
              ⟨.indirect (palette ++ [block]) data bits⟩
  | .direct data => setDirect data idx block

end PalettedContainer

/-! ## Cells -/

/-- A cell of the 16×16×16 section. -/
structure Cell where
  x : Fin 16
  y : Fin 16
  z : Fin 16
  deriving DecidableEq, Repr

/-- The linear index of a cell. -/
def Cell.idx (c : Cell) : Nat := index c.x c.y c.z

theorem index_eq {x y z : Nat} (hx : x < 16) (hz : z < 16) :
    index x y z = y * 256 + z * 16 + x := by
  unfold index
  have h1 : y <<< 8 ||| z <<< 4 = y <<< 8 + z <<< 4 :=
    (Nat.shiftLeft_add_eq_or_of_lt (by rw [Nat.shiftLeft_eq]; omega) y).symm
  have h2 : y <<< 8 + z <<< 4 = (y * 16 + z) <<< 4 := by
    simp only [Nat.shiftLeft_eq]; omega
  rw [h1, h2, ← Nat.shiftLeft_add_eq_or_of_lt (by omega) (y * 16 + z), Nat.shiftLeft_eq]
  omega

theorem Cell.idx_eq (c : Cell) : c.idx = c.y * 256 + c.z * 16 + c.x :=
  index_eq c.x.isLt c.z.isLt

theorem Cell.idx_lt (c : Cell) : c.idx < BLOCKS_PER_SECTION := by
  rw [c.idx_eq]
  have := c.x.isLt
  have := c.y.isLt
  have := c.z.isLt
  unfold BLOCKS_PER_SECTION
  omega

theorem Cell.idx_inj {c d : Cell} (h : c.idx = d.idx) : c = d := by
  rw [c.idx_eq, d.idx_eq] at h
  obtain ⟨x, y, z⟩ := c
  obtain ⟨x', y', z'⟩ := d
  simp only [Cell.mk.injEq, Fin.ext_iff] at h ⊢
  omega

/-- The cell of a linear index. -/
def Cell.ofIdx (i : Nat) : Cell := ⟨Fin.ofNat 16 i, Fin.ofNat 16 (i / 256), Fin.ofNat 16 (i / 16)⟩

theorem Cell.idx_ofIdx {i : Nat} (h : i < BLOCKS_PER_SECTION) : (Cell.ofIdx i).idx = i := by
  rw [Cell.idx_eq]
  simp only [Cell.ofIdx, Fin.val_ofNat]
  unfold BLOCKS_PER_SECTION at h
  omega

/-! ## The abstract array -/

/-- The block states stored so far, in order of first appearance. -/
def see (seen : List BlockState) (b : BlockState) : List BlockState :=
  if b ∈ seen then seen else seen ++ [b]

/-- The block state kept by direct mode: the low `GLOBAL_BITS` bits of the id, no properties. -/
def directState (b : BlockState) : BlockState :=
  BlockState.new (BitVec.ofNat 32 (b.id.toNat % 2 ^ GLOBAL_BITS))

/-- A state that direct mode can store: no properties and an id below `2 ^ GLOBAL_BITS`. -/
def BlockState.Fits (b : BlockState) : Prop := b.props = 0#16 ∧ b.id.toNat < 2 ^ GLOBAL_BITS

instance (b : BlockState) : Decidable b.Fits := inferInstanceAs (Decidable (_ ∧ _))

theorem directState_eq_self_iff (b : BlockState) : directState b = b ↔ b.Fits := by
  obtain ⟨id, props⟩ := b
  simp only [directState, BlockState.new, BlockState.mk.injEq, BlockState.Fits]
  have hlt : id.toNat % 2 ^ GLOBAL_BITS < 2 ^ 32 := by unfold GLOBAL_BITS; omega
  constructor
  · rintro ⟨hid, hp⟩
    refine ⟨hp.symm, ?_⟩
    have := congrArg BitVec.toNat hid
    rw [BitVec.toNat_ofNat, Nat.mod_eq_of_lt hlt] at this
    rw [← this]
    exact Nat.mod_lt _ (Nat.two_pow_pos _)
  · rintro ⟨hp, hid⟩
    refine ⟨BitVec.eq_of_toNat_eq ?_, hp.symm⟩
    rw [BitVec.toNat_ofNat, Nat.mod_eq_of_lt hlt, Nat.mod_eq_of_lt hid]

/-- `mode` represents the array `f` after the states `seen` were stored. -/
def Represents (seen : List BlockState) (f : Nat → BlockState) : ContainerMode → Prop
  | .single b => seen = [b] ∧ ∀ i < BLOCKS_PER_SECTION, f i = b
  | .indirect palette data bits =>
      palette = seen ∧ seen.Nodup ∧ 2 ≤ seen.length ∧ seen.length ≤ 2 ^ GLOBAL_BITS ∧
      bits = bitsFor seen.length ∧
      ∃ g : Nat → Nat, Holds data BLOCKS_PER_SECTION bits g ∧
        ∀ i < BLOCKS_PER_SECTION, seen[g i]? = some (f i)
  | .direct data =>
      2 ^ GLOBAL_BITS < seen.length ∧
      Holds data BLOCKS_PER_SECTION GLOBAL_BITS fun i => (f i).id.toNat % 2 ^ GLOBAL_BITS

theorem represents_filled (b : BlockState) :
    Represents [b] (fun _ => b) (PalettedContainer.filled b).mode := ⟨rfl, fun _ _ => rfl⟩

/-- The widths reached in indirect mode lie between one bit and `GLOBAL_BITS`. -/
theorem bitsFor_bounds {n : Nat} (h2 : 2 ≤ n) (hn : n ≤ 2 ^ GLOBAL_BITS) :
    1 ≤ bitsFor n ∧ bitsFor n ≤ GLOBAL_BITS ∧ bitsFor n < 64 := by
  have h1 : ¬ bitsFor n ≤ 0 := by rw [bitsFor_le_iff]; omega
  have h15 := (bitsFor_le_iff n GLOBAL_BITS).2 hn
  refine ⟨by omega, h15, ?_⟩
  unfold GLOBAL_BITS at h15
  omega

theorem lt_two_pow_bitsFor (n : Nat) {k : Nat} (hk : k < n) : k < 2 ^ bitsFor n :=
  Nat.lt_of_lt_of_le hk ((bitsFor_le_iff n _).1 (Nat.le_refl _))

/-- A palette index that fits in a word is read back from it. -/
theorem toNat_ofNat_lt {k : Nat} (hk : k < 2 ^ 64) : (BitVec.ofNat 64 k).toNat = k := by
  rw [BitVec.toNat_ofNat, Nat.mod_eq_of_lt hk]

theorem toNat_id_setWidth (b : BlockState) : (b.id.setWidth 64).toNat = b.id.toNat := by
  rw [BitVec.toNat_setWidth, Nat.mod_eq_of_lt]
  have := b.id.isLt
  omega

/-- Indices of a list of at most `2 ^ GLOBAL_BITS` states fit in a word. -/
theorem index_lt_two_pow {seen : List BlockState} (hle : seen.length ≤ 2 ^ GLOBAL_BITS)
    {k : Nat} {b : BlockState} (hk : seen[k]? = some b) : k < seen.length ∧ k < 2 ^ 64 := by
  obtain ⟨h, _⟩ := List.getElem?_eq_some_iff.1 hk
  unfold GLOBAL_BITS at hle
  omega

/-- **Reading a represented array.** -/
theorem getAt_of_represents {seen : List BlockState} {f : Nat → BlockState}
    {c : PalettedContainer} (h : Represents seen f c.mode) {i : Nat}
    (hi : i < BLOCKS_PER_SECTION) :
    c.getAt i = some (if seen.length ≤ 2 ^ GLOBAL_BITS then f i else directState (f i)) := by
  unfold PalettedContainer.getAt
  match hm : c.mode with
  | .single b =>
      rw [hm] at h
      obtain ⟨rfl, hf⟩ := h
      rw [if_pos (by simp [GLOBAL_BITS]), hf i hi]
  | .indirect palette data bits =>
      rw [hm] at h
      obtain ⟨rfl, _, h2, hle, hbits, g, hg, hgf⟩ := h
      have hb := bitsFor_bounds h2 hle
      have hlt := (index_lt_two_pow hle (hgf i hi)).2
      simp only [if_neg (show ¬ bits = 0 by omega), hg.read i hi, Option.map_some,
        toNat_ofNat_lt hlt, hgf i hi, Option.getD_some, if_pos hle]
  | .direct data =>
      rw [hm] at h
      obtain ⟨hlen, hd⟩ := h
      simp only [hd.read i hi, Option.map_some, if_neg (Nat.not_le.2 hlen), directState]
      congr 2
      exact BitVec.eq_of_toNat_eq (by
        simp only [BitVec.toNat_setWidth, BitVec.toNat_ofNat]
        rw [Nat.mod_mod_of_dvd _ (Nat.pow_dvd_pow 2 (by decide))])

/-- The words are as many as the width needs, and every packed index is a palette index. -/
def WellPacked : ContainerMode → Prop
  | .single _ => True
  | .indirect palette data bits =>
      data.length = packedWords BLOCKS_PER_SECTION bits ∧
      ∀ i < BLOCKS_PER_SECTION, ∃ v, readPacked data i bits = some v ∧ v.toNat < palette.length
  | .direct data => data.length = packedWords BLOCKS_PER_SECTION GLOBAL_BITS

theorem wellPacked_of_represents {seen : List BlockState} {f : Nat → BlockState} :
    ∀ {mode : ContainerMode}, Represents seen f mode → WellPacked mode
  | .single _, _ => trivial
  | .indirect _ _ _, ⟨hp, _, _, hle, _, _, hg, hgf⟩ => by
      subst hp
      refine ⟨hg.length, fun i hi => ⟨_, hg.read i hi, ?_⟩⟩
      obtain ⟨hk, h64⟩ := index_lt_two_pow hle (hgf i hi)
      rw [toNat_ofNat_lt h64]
      exact hk
  | .direct _, h => h.2.length

/-! ## One `set` -/

theorem see_of_mem {seen : List BlockState} {b : BlockState} (h : b ∈ seen) : see seen b = seen :=
  if_pos h

theorem see_of_not_mem {seen : List BlockState} {b : BlockState} (h : b ∉ seen) :
    see seen b = seen ++ [b] := if_neg h

/-- Pointing entry `idx` at a palette slot that holds `b`. -/
theorem palette_update {pal : List BlockState} {f : Nat → BlockState} {g : Nat → Nat}
    {b : BlockState} {idx pos : Nat} (hg : ∀ i < BLOCKS_PER_SECTION, pal[g i]? = some (f i))
    (hpos : pal[pos]? = some b) :
    ∀ i < BLOCKS_PER_SECTION,
      pal[Function.update g idx pos i]? = some (Function.update f idx b i) := by
  intro i hi
  by_cases h : i = idx
  · subst h
    rw [Function.update_self, Function.update_self, hpos]
  · rw [Function.update_of_ne h, Function.update_of_ne h, hg i hi]

/-- Appending a state to the palette keeps what the entries point at. -/
theorem palette_append {pal : List BlockState} {f : Nat → BlockState} {g : Nat → Nat}
    (b : BlockState) (hg : ∀ i < BLOCKS_PER_SECTION, pal[g i]? = some (f i)) :
    ∀ i < BLOCKS_PER_SECTION, (pal ++ [b])[g i]? = some (f i) := by
  intro i hi
  obtain ⟨h, _⟩ := List.getElem?_eq_some_iff.1 (hg i hi)
  rw [List.getElem?_append_left h, hg i hi]

theorem setDirect_represents {seen : List BlockState} {f : Nat → BlockState} {data : List Word}
    (hlen : 2 ^ GLOBAL_BITS < seen.length)
    (hd : Holds data BLOCKS_PER_SECTION GLOBAL_BITS fun i => (f i).id.toNat % 2 ^ GLOBAL_BITS)
    {idx : Nat} (hi : idx < BLOCKS_PER_SECTION) (b : BlockState) :
    ∃ c', PalettedContainer.setDirect data idx b = some c' ∧
      Represents seen (Function.update f idx b) c'.mode := by
  obtain ⟨data', hw, hh⟩ := hd.write (by decide) hi (b.id.setWidth 64)
  refine ⟨⟨.direct data'⟩, by rw [PalettedContainer.setDirect, hw]; rfl, hlen,
    hh.congr fun i _ => ?_⟩
  by_cases h : i = idx
  · subst h
    rw [Function.update_self, Function.update_self, toNat_id_setWidth]
  · rw [Function.update_of_ne h, Function.update_of_ne h]

/-- `upgrade_to_direct` on an indirect container keeps the low bits of every id. -/
theorem upgradeToDirect_spec {palette : List BlockState} {data : List Word} {bits : Nat}
    {f : Nat → BlockState} {g : Nat → Nat} (hle : palette.length ≤ 2 ^ GLOBAL_BITS)
    (hg : Holds data BLOCKS_PER_SECTION bits g)
    (hgf : ∀ i < BLOCKS_PER_SECTION, palette[g i]? = some (f i)) :
    ∃ data', PalettedContainer.upgradeToDirect ⟨.indirect palette data bits⟩ =
        some ⟨.direct data'⟩ ∧
      Holds data' BLOCKS_PER_SECTION GLOBAL_BITS fun i => (f i).id.toNat % 2 ^ GLOBAL_BITS := by
  obtain ⟨data', hf, hh⟩ := fillPacked_spec BLOCKS_PER_SECTION (show GLOBAL_BITS < 64 by decide)
    (fun i => (readPacked data i bits).map fun p =>
      ((palette[p.toNat]?).getD BlockState.AIR).id.setWidth 64)
    (g := fun i => (f i).id.setWidth 64) (by
      intro i hi
      simp only [hg.read i hi, Option.map_some, toNat_ofNat_lt (index_lt_two_pow hle (hgf i hi)).2,
        hgf i hi, Option.getD_some])
  refine ⟨data', by simp only [PalettedContainer.upgradeToDirect, hf, Option.map_some],
    hh.congr fun i _ => ?_⟩
  rw [toNat_id_setWidth]

section

variable {palette : List BlockState} {data : List Word} {bits : Nat} {f : Nat → BlockState}
  {b : BlockState} {idx : Nat}

/-- Storing a state of the palette writes its index. -/
theorem write_represents (h : Represents palette f (.indirect palette data bits)) {pos : Nat}
    (hpos : palette[pos]? = some b) (hi : idx < BLOCKS_PER_SECTION) :
    ∃ data', writePacked data idx bits (BitVec.ofNat 64 pos) = some data' ∧
      Represents palette (Function.update f idx b) (.indirect palette data' bits) := by
  obtain ⟨-, hnd, h2, hle, hbits, g, hg, hgf⟩ := h
  have hb := bitsFor_bounds h2 hle
  obtain ⟨hlt, h64⟩ := index_lt_two_pow hle hpos
  obtain ⟨data', hw, hh⟩ := hg.write (by omega) hi (BitVec.ofNat 64 pos)
  refine ⟨data', hw, rfl, hnd, h2, hle, hbits, _, hh, ?_⟩
  rw [toNat_ofNat_lt h64, Nat.mod_eq_of_lt (by rw [hbits]; exact lt_two_pow_bitsFor _ hlt)]
  exact palette_update hgf hpos

/-- A new state extends the palette, as long as the width stays. -/
theorem append_represents (h : Represents palette f (.indirect palette data bits))
    (hnew : b ∉ palette) (hfit : bitsFor (palette.length + 1) ≤ bits) :
    Represents (palette ++ [b]) f (.indirect (palette ++ [b]) data bits) := by
  obtain ⟨-, hnd, h2, hle, hbits, g, hg, hgf⟩ := h
  have hb := bitsFor_bounds h2 hle
  have hpow := (bitsFor_le_iff (palette.length + 1) bits).1 hfit
  have hle' : palette.length + 1 ≤ 2 ^ GLOBAL_BITS :=
    Nat.le_trans hpow (Nat.pow_le_pow_right (by decide) (by omega))
  have hmono : bitsFor palette.length ≤ bitsFor (palette.length + 1) := by
    have hself := (bitsFor_le_iff (palette.length + 1) _).1 (Nat.le_refl _)
    exact (bitsFor_le_iff _ _).2 (Nat.le_of_succ_le hself)
  have hlen : (palette ++ [b]).length = palette.length + 1 := by simp
  have hnd' : (palette ++ [b]).Nodup := List.concat_eq_append ▸ hnd.concat hnew
  refine ⟨rfl, hnd', by omega, by omega, ?_, g, hg, palette_append b hgf⟩
  rw [hlen]
  omega

/-- Repacking at a wider width keeps what is represented, the new state in the palette. -/
theorem repack_represents (h : Represents palette f (.indirect palette data bits))
    (hnew : b ∉ palette) (hfit : bitsFor (palette.length + 1) ≤ GLOBAL_BITS) :
    ∃ data', fillPacked BLOCKS_PER_SECTION (bitsFor (palette.length + 1))
        (fun i => readPacked data i bits) = some data' ∧
      Represents (palette ++ [b]) f
        (.indirect (palette ++ [b]) data' (bitsFor (palette.length + 1))) := by
  obtain ⟨-, hnd, h2, hle, hbits, g, hg, hgf⟩ := h
  have hle' := (bitsFor_le_iff (palette.length + 1) GLOBAL_BITS).1 hfit
  have hb := bitsFor_bounds (show 2 ≤ palette.length + 1 by omega) hle'
  have hlen : (palette ++ [b]).length = palette.length + 1 := by simp
  obtain ⟨data', hf, hh⟩ := fillPacked_spec BLOCKS_PER_SECTION hb.2.2
    (fun i => readPacked data i bits) (fun i hic => hg.read i hic)
  have hnd' : (palette ++ [b]).Nodup := List.concat_eq_append ▸ hnd.concat hnew
  refine ⟨data', hf, rfl, hnd', by omega, by omega, by rw [hlen], _, hh, ?_⟩
  refine palette_append b fun i hic => ?_
  obtain ⟨hk, h64⟩ := index_lt_two_pow hle (hgf i hic)
  rw [toNat_ofNat_lt h64, Nat.mod_eq_of_lt (lt_two_pow_bitsFor _ (Nat.lt_succ_of_lt hk)),
    hgf i hic]

end

section

variable {seen : List BlockState} {f : Nat → BlockState} {x y z : Nat}

/-- A container of one state stays one for that state, and has two for another. -/
theorem set_single_represents {cur : BlockState} (h : Represents seen f (.single cur))
    (hi : index x y z < BLOCKS_PER_SECTION) (b : BlockState) :
    ∃ c', PalettedContainer.set ⟨.single cur⟩ x y z b = some c' ∧
      Represents (see seen b) (Function.update f (index x y z) b) c'.mode := by
  obtain ⟨rfl, hf⟩ := h
  unfold PalettedContainer.set
  generalize index x y z = idx at *
  dsimp only
  split
  · rename_i hcur
    subst hcur
    refine ⟨_, rfl, ?_⟩
    rw [see_of_mem (by simp)]
    refine ⟨rfl, fun i hic => ?_⟩
    by_cases hii : i = idx
    · rw [hii, Function.update_self]
    · rw [Function.update_of_ne hii, hf i hic]
  · rename_i hcur
    obtain ⟨data, hw, hh⟩ := (holds_newPacked BLOCKS_PER_SECTION
      (show 1 < 64 by decide)).write (by decide) hi 1#64
    refine ⟨⟨.indirect [cur, b] data 1⟩, by rw [hw]; rfl, ?_⟩
    rw [see_of_not_mem (by simpa using Ne.symm hcur)]
    refine ⟨rfl, by simp [hcur], by simp, by simp [GLOBAL_BITS], rfl, _, hh, ?_⟩
    exact palette_update (fun i hic => by simp [hf i hic]) (by simp)

theorem set_indirect_represents {palette : List BlockState} {data : List Word} {bits : Nat}
    (h : Represents palette f (.indirect palette data bits)) (hi : index x y z < BLOCKS_PER_SECTION)
    (b : BlockState) :
    ∃ c', PalettedContainer.set ⟨.indirect palette data bits⟩ x y z b = some c' ∧
      Represents (see palette b) (Function.update f (index x y z) b) c'.mode := by
  have hlast : (palette ++ [b])[palette.length]? = some b := by simp
  unfold PalettedContainer.set
  generalize index x y z = idx at *
  dsimp only
  split
  · -- the state is already in the palette
    rename_i pos hpos
    obtain ⟨hlt, heq, -⟩ := List.findIdx?_eq_some_iff_getElem.1 hpos
    have heq : palette[pos] = b := by simpa using heq
    obtain ⟨data', hw, hh⟩ :=
      write_represents h (by rw [List.getElem?_eq_getElem hlt, heq]) hi
    rw [see_of_mem (heq ▸ List.getElem_mem hlt)]
    exact ⟨_, by rw [hw]; rfl, hh⟩
  · rename_i hnone
    have hnew : b ∉ palette := by
      intro hm
      simpa using List.findIdx?_eq_none_iff.1 hnone b hm
    rw [see_of_not_mem hnew]
    split
    · split
      · -- the palette is full: direct mode
        rename_i hfull
        obtain ⟨-, -, -, hle, -, g, hg, hgf⟩ := h
        have hover : ¬ palette.length + 1 ≤ 2 ^ GLOBAL_BITS := by
          rw [← bitsFor_le_iff]
          omega
        have hlen : (palette ++ [b]).length = palette.length + 1 := by simp
        obtain ⟨data', hup, hh⟩ := upgradeToDirect_spec hle hg hgf
        rw [hup]
        exact setDirect_represents (by rw [hlen]; omega) hh hi b
      · -- repack at the next width
        rename_i hfull
        obtain ⟨data', hf, hrep⟩ := repack_represents h hnew (Nat.le_of_not_lt hfull)
        obtain ⟨data'', hw, hh⟩ := write_represents hrep hlast hi
        exact ⟨_, by rw [hf, Option.bind_some, hw, Option.map_some], hh⟩
    · -- the width suffices for one more state
      rename_i hgrow
      obtain ⟨data', hw, hh⟩ :=
        write_represents (append_represents h hnew (Nat.le_of_not_lt hgrow)) hlast hi
      exact ⟨_, by rw [hw]; rfl, hh⟩

/-- **One `set`**: from a container that represents `f`, it does not panic and yields a container
that represents `f` with the one cell changed. -/
theorem set_represents {c : PalettedContainer} (h : Represents seen f c.mode)
    (hi : index x y z < BLOCKS_PER_SECTION) (b : BlockState) :
    ∃ c', c.set x y z b = some c' ∧
      Represents (see seen b) (Function.update f (index x y z) b) c'.mode := by
  obtain ⟨mode⟩ := c
  cases mode with
  | single cur => exact set_single_represents h hi b
  | indirect palette data bits =>
      obtain rfl : palette = seen := h.1
      exact set_indirect_represents h hi b
  | direct data =>
      obtain ⟨hlen, hd⟩ := h
      refine setDirect_represents ?_ hd hi b
      unfold see
      split
      · exact hlen
      · rw [List.length_append]
        omega

end

/-! ## Runs of `set` -/

/-- One `set(x, y, z, b)` call. -/
abbrev SetCall := Cell × BlockState

namespace PalettedContainer

/-- `get` at a cell. -/
def getCell (c : PalettedContainer) (cell : Cell) : Option BlockState := c.get cell.x cell.y cell.z

/-- `set` at a cell. -/
def setCell (c : PalettedContainer) (op : SetCall) : Option PalettedContainer :=
  c.set op.1.x op.1.y op.1.z op.2

/-- The calls of `ops`, in order. -/
def run (c : PalettedContainer) (ops : List SetCall) : Option PalettedContainer :=
  ops.foldlM setCell c

end PalettedContainer

/-- The state last set at a cell, `b0` if none was. -/
def lastSet (b0 : BlockState) (ops : List SetCall) : Cell → BlockState :=
  ops.foldl (fun f op => Function.update f op.1 op.2) fun _ => b0

/-- The distinct states stored by `ops` in a container first filled with `b0`. -/
def statesSeen (b0 : BlockState) (ops : List SetCall) : List BlockState :=
  ops.foldl (fun seen op => see seen op.2) [b0]

theorem lastSet_append (b0 : BlockState) (ops : List SetCall) (op : SetCall) :
    lastSet b0 (ops ++ [op]) = Function.update (lastSet b0 ops) op.1 op.2 := by
  simp [lastSet]

theorem statesSeen_append (b0 : BlockState) (ops : List SetCall) (op : SetCall) :
    statesSeen b0 (ops ++ [op]) = see (statesSeen b0 ops) op.2 := by
  simp [statesSeen]

theorem run_append (c : PalettedContainer) (ops : List SetCall) (op : SetCall) :
    c.run (ops ++ [op]) = (c.run ops).bind fun c' => c'.setCell op := by
  unfold PalettedContainer.run
  rw [List.foldlM_append]
  cases ops.foldlM PalettedContainer.setCell c with
  | none => rfl
  | some c' => simp

/-- **Every run**: it does not panic, and the container it reaches represents the array of last
states over the palette of states seen. -/
theorem run_represents (b0 : BlockState) (ops : List SetCall) :
    ∃ c, (PalettedContainer.filled b0).run ops = some c ∧ ∃ f : Nat → BlockState,
      Represents (statesSeen b0 ops) f c.mode ∧ ∀ cell : Cell, f cell.idx = lastSet b0 ops cell := by
  induction ops using List.reverseRecOn with
  | nil => exact ⟨_, rfl, _, represents_filled b0, fun _ => rfl⟩
  | append_singleton ops op ih =>
      obtain ⟨c, hrun, f, hf, hlast⟩ := ih
      obtain ⟨c', hset, hf'⟩ := set_represents hf (x := op.1.x) (y := op.1.y) (z := op.1.z)
        op.1.idx_lt op.2
      refine ⟨c', ?_, Function.update f op.1.idx op.2, ?_, fun cell => ?_⟩
      · rw [run_append, hrun]
        exact hset
      · rw [statesSeen_append]
        exact hf'
      · rw [lastSet_append]
        by_cases h : cell = op.1
        · subst h
          rw [Function.update_self, Function.update_self]
        · rw [Function.update_of_ne h, Function.update_of_ne fun e => h (Cell.idx_inj e), hlast]

/-- **What every cell reads after a run.** -/
theorem run_get (b0 : BlockState) (ops : List SetCall) :
    ∃ c, (PalettedContainer.filled b0).run ops = some c ∧ WellPacked c.mode ∧
      ∀ cell : Cell, c.getCell cell = some
        (if (statesSeen b0 ops).length ≤ 2 ^ GLOBAL_BITS then lastSet b0 ops cell
          else directState (lastSet b0 ops cell)) := by
  obtain ⟨c, hrun, f, hf, hlast⟩ := run_represents b0 ops
  refine ⟨c, hrun, wellPacked_of_represents hf, fun cell => ?_⟩
  rw [← hlast]
  exact getAt_of_represents hf cell.idx_lt

/-- The container after `ops` reads the last state set at every cell, and is well packed. -/
def ReadsBack (b0 : BlockState) (ops : List SetCall) : Prop :=
  ∃ c, (PalettedContainer.filled b0).run ops = some c ∧ WellPacked c.mode ∧
    ∀ cell : Cell, c.getCell cell = some (lastSet b0 ops cell)

/-- Every state of `lastSet` survives the mode the container is in after `ops`: at most
`2 ^ GLOBAL_BITS` distinct states were stored, or direct mode can store the state of every cell. -/
def Kept (b0 : BlockState) (ops : List SetCall) : Prop :=
  (statesSeen b0 ops).length ≤ 2 ^ GLOBAL_BITS ∨ ∀ cell : Cell, (lastSet b0 ops cell).Fits

theorem readsBack_iff_kept (b0 : BlockState) (ops : List SetCall) :
    ReadsBack b0 ops ↔ Kept b0 ops := by
  obtain ⟨c, hrun, hwell, hget⟩ := run_get b0 ops
  by_cases hlen : (statesSeen b0 ops).length ≤ 2 ^ GLOBAL_BITS
  · simp only [if_pos hlen] at hget
    exact ⟨fun _ => Or.inl hlen, fun _ => ⟨c, hrun, hwell, hget⟩⟩
  · simp only [if_neg hlen] at hget
    constructor
    · rintro ⟨c', hrun', _, hget'⟩
      rw [hrun] at hrun'
      cases hrun'
      refine Or.inr fun cell => ?_
      have := hget cell
      rw [hget' cell, Option.some.injEq] at this
      exact (directState_eq_self_iff _).1 this.symm
    · rintro (h | h)
      · exact absurd h hlen
      · refine ⟨c, hrun, hwell, fun cell => ?_⟩
        rw [hget cell, (directState_eq_self_iff _).2 (h cell)]

/-- The container is a faithful array throughout the calls `ops`. -/
structure FaithfulRun (b0 : BlockState) (ops : List SetCall) : Prop where
  /-- after every prefix of the calls each cell reads the last state set there -/
  reads : ∀ pre, pre <+: ops → ReadsBack b0 pre
  /-- every call leaves every other cell as it was -/
  frame : ∀ pre op, pre ++ [op] <+: ops → ∀ c c',
    (PalettedContainer.filled b0).run pre = some c → c.setCell op = some c' →
    ∀ cell : Cell, cell ≠ op.1 → c'.getCell cell = c.getCell cell

theorem frame_of_reads {b0 : BlockState} {pre : List SetCall} {op : SetCall}
    (hpre : ReadsBack b0 pre) (hpost : ReadsBack b0 (pre ++ [op])) {c c' : PalettedContainer}
    (hc : (PalettedContainer.filled b0).run pre = some c) (hc' : c.setCell op = some c')
    {cell : Cell} (hne : cell ≠ op.1) : c'.getCell cell = c.getCell cell := by
  obtain ⟨d, hd, _, hget⟩ := hpre
  obtain ⟨d', hd', _, hget'⟩ := hpost
  rw [run_append, hc, Option.bind_some, hc'] at hd'
  rw [hc] at hd
  cases hd
  cases hd'
  rw [hget, hget', lastSet_append, Function.update_of_ne hne]

/-- **A run of `set` calls is faithful exactly when, after each of its prefixes, the states of the
cells survive.** -/
theorem faithfulRun_iff (b0 : BlockState) (ops : List SetCall) :
    FaithfulRun b0 ops ↔ ∀ pre, pre <+: ops → Kept b0 pre := by
  constructor
  · exact fun h pre hp => (readsBack_iff_kept b0 pre).1 (h.reads pre hp)
  · intro h
    have hreads : ∀ pre, pre <+: ops → ReadsBack b0 pre :=
      fun pre hp => (readsBack_iff_kept b0 pre).2 (h pre hp)
    refine ⟨hreads, fun pre op hp c c' hc hc' cell hne => ?_⟩
    have hpre : pre <+: ops := (List.prefix_append pre [op]).trans hp
    exact frame_of_reads (hreads pre hpre) (hreads _ hp) hc hc' hne

/-! ## A run that loses a property -/

theorem statesSeen_of_nodup {b0 : BlockState} {ops : List SetCall}
    (h : (b0 :: ops.map Prod.snd).Nodup) : statesSeen b0 ops = b0 :: ops.map Prod.snd := by
  induction ops using List.reverseRecOn with
  | nil => rfl
  | append_singleton ops op ih =>
      rw [List.map_append, ← List.cons_append] at h ⊢
      rw [statesSeen_append, ih h.of_append_left, List.map_singleton]
      exact see_of_not_mem fun hm => (List.nodup_append.1 h).2.2 _ hm op.2 (by simp) rfl

/-- Every id from 1 to 32767, then a waterlogged state. -/
def floodStates : List BlockState :=
  (List.range 32767).map (fun i => BlockState.new (BitVec.ofNat 32 (i + 1))) ++
    [BlockState.withProps 1#32 1#16]

/-- The states of `floodStates`, all set at the first cell. -/
def floodCalls : List SetCall := floodStates.map fun b => (⟨0, 0, 0⟩, b)

theorem toNat_floodId {i : Nat} (hi : i < 32767) : (BitVec.ofNat 32 (i + 1)).toNat = i + 1 := by
  rw [BitVec.toNat_ofNat, Nat.mod_eq_of_lt (by omega)]

theorem nodup_floodStates : (BlockState.AIR :: floodStates).Nodup := by
  rw [floodStates, List.nodup_cons, List.nodup_append]
  refine ⟨?_, List.Nodup.map_on (fun i hi j hj e => ?_) List.nodup_range, by simp, ?_⟩
  · -- air has id 0 and no properties
    rw [List.mem_append, List.mem_map, not_or]
    refine ⟨?_, by decide⟩
    rintro ⟨i, hi, e⟩
    rw [List.mem_range] at hi
    have := congrArg (fun b => b.id.toNat) e
    simp only [BlockState.new, toNat_floodId hi] at this
    exact absurd this (Nat.succ_ne_zero i)
  · rw [List.mem_range] at hi hj
    have := congrArg (fun b => b.id.toNat) e
    simp only [BlockState.new, toNat_floodId hi, toNat_floodId hj] at this
    omega
  · rintro a ha b hb rfl
    obtain ⟨i, _, rfl⟩ := List.mem_map.1 ha
    have := congrArg BlockState.props (List.mem_singleton.1 hb)
    simp [BlockState.new, BlockState.withProps] at this

theorem length_floodStates : floodStates.length = 32768 := by
  simp [floodStates]

theorem lastSet_floodCalls :
    lastSet BlockState.AIR floodCalls ⟨0, 0, 0⟩ = BlockState.withProps 1#32 1#16 := by
  rw [floodCalls, floodStates, List.map_append, List.map_singleton, lastSet_append,
    Function.update_self]

theorem not_faithfulRun_flood : ¬ FaithfulRun BlockState.AIR floodCalls := by
  intro h
  have hseen : floodCalls.map Prod.snd = floodStates := by
    simp [floodCalls, Function.comp_def]
  have hstates : statesSeen BlockState.AIR floodCalls = BlockState.AIR :: floodStates := by
    rw [← hseen]
    exact statesSeen_of_nodup (hseen ▸ nodup_floodStates)
  rcases (readsBack_iff_kept _ _).1 (h.reads floodCalls (List.prefix_refl _)) with hlen | hfits
  · rw [hstates, List.length_cons, length_floodStates] at hlen
    exact absurd hlen (by decide)
  · have := hfits ⟨0, 0, 0⟩
    rw [lastSet_floodCalls] at this
    exact absurd this.1 (by decide)

end Apoptotic
