import Apoptotic.World.Fluids
import Apoptotic.World.RedstoneSettling

/-!
# Sites

A site is a cell of a chunk.  The ids on the sites of the loaded chunks are what a reader of the
chunks sees; where they belong to the registry, which has ids of `GLOBAL_BITS` bits, a write changes
one site.

Principal results: `idIn_writeAt`, `idIn_place` — what a write changes; `idAt_built` — the ids of a
world that is built block by block.
-/

namespace Apoptotic.Redstone

@[ext] structure Site where
  chunk : ChunkPos
  x : Fin 16
  y : Height
  z : Fin 16
  deriving DecidableEq

/-- The site of a position inside the world's height. -/
def siteOf (p : Pos) : Option Site :=
  (height? p.y).map fun y => ⟨chunkOf p, low p.x, y, low p.z⟩

/-- The block id on a site; none where the chunk is not loaded. -/
def idIn (w : World) (c : Site) : Option (BitVec 32) :=
  (w c.chunk).map fun chunk => (chunk.getBlock c.x c.z c.y).id

/-- The ids belong to the registry. -/
def Registered (w : World) : Prop := ∀ c id, idIn w c = some id → id.toNat < 2 ^ GLOBAL_BITS

/-- Chunks whose block ids belong to the registry. -/
structure Blocks where
  world : World
  registered : Registered world

/-- The block id at a position inside the world's height, in a loaded chunk. -/
def idOf (w : World) (p : Pos) : Option (BitVec 32) := (siteOf p).bind (idIn w)

/-- The heights from -64 to 319. -/
def heights : List Height := (List.finRange 384).map fun i => ⟨i.val - 64, by omega⟩

def columns : List (Fin 16 × Fin 16) :=
  (List.finRange 16).flatMap fun x => (List.finRange 16).map fun z => (x, z)

/-- The coordinate `cp.x * 16 + x_off`. -/
def coordinate (chunk : BitVec 32) (off : Fin 16) : BitVec 32 := chunk * 16#32 + BitVec.ofNat 32 off

/-- The topmost block of a column. -/
def topBlock (w : World) (x z : BitVec 32) : Option (Height × BlockState) :=
  heights.reverse.findSome? fun y : Height =>
    match Fluids.getBlock w ⟨x, BitVec.ofInt 32 y, z⟩ with
    | none => none
    | some block => if isAir block then none else some (y, block)

/-- `set_block` at a site, in a chunk that is loaded. -/
def writeAt (w : World) (c : Site) (block : BlockState) : World :=
  Function.update w c.chunk ((w c.chunk).map fun chunk => chunk.setBlock c.x c.z c.y block)

/-! ## Positions and sites -/

theorem siteOf_of_height? {p : Pos} {y : Height} (hy : height? p.y = some y) :
    siteOf p = some ⟨chunkOf p, low p.x, y, low p.z⟩ := by
  unfold siteOf
  rw [hy]
  rfl

theorem height?_of_siteOf {p : Pos} {c : Site} (h : siteOf p = some c) :
    height? p.y = some c.y ∧ c = ⟨chunkOf p, low p.x, c.y, low p.z⟩ := by
  obtain ⟨y, hy, rfl⟩ := Option.map_eq_some_iff.1 h
  exact ⟨hy, rfl⟩

theorem height?_ofInt (y : Height) : height? (BitVec.ofInt 32 y) = some y := by
  obtain ⟨y, hy⟩ := y
  have hint : (BitVec.ofInt 32 y).toInt = y := by
    rw [BitVec.toInt_ofInt, Int.bmod_eq_of_le] <;> omega
  unfold height?
  simp only [hint]
  exact dif_pos hy

/-- A site has one position. -/
theorem siteOf_inj {p q : Pos} {c : Site} (hp : siteOf p = some c) (hq : siteOf q = some c) :
    p = q := by
  obtain ⟨hy, hc⟩ := height?_of_siteOf hp
  obtain ⟨hy', hc'⟩ := height?_of_siteOf hq
  have heq := hc.symm.trans hc'
  simp only [Site.mk.injEq] at heq
  obtain ⟨hchunk, hx, _, hz⟩ := heq
  refine pos_eq hchunk hx ?_ hz
  apply BitVec.eq_of_toInt_eq
  exact (toInt_of_height? hy).trans (toInt_of_height? hy').symm

theorem idAt_of_siteOf {p : Pos} {c : Site} (h : siteOf p = some c) (w : World) :
    idAt w p = idIn w c := by
  obtain ⟨hy, hc⟩ := height?_of_siteOf h
  rw [hc]
  unfold idAt idIn
  dsimp only
  cases w (chunkOf p) with
  | none => rfl
  | some chunk => simp only [Option.map_some, blockIn_of_height? hy]

theorem idAt_of_outside {p : Pos} (h : height? p.y = none) (w : World) :
    idAt w p = (w (chunkOf p)).map fun _ => 0#32 := by
  unfold idAt blockIn
  simp only [h]
  rfl

theorem toInt_shift (a : BitVec 32) : (a.sshiftRight 4).toInt = a.toInt / 16 := by
  rw [BitVec.toInt_sshiftRight, Int.shiftRight_eq_div_pow]
  rfl

theorem idOf_eq_some {w : World} {p : Pos} {id : BitVec 32} : idOf w p = some id ↔
    ∃ y chunk, height? p.y = some y ∧ w (chunkOf p) = some chunk ∧ (blockIn chunk p).id = id := by
  unfold idOf
  rw [Option.bind_eq_some_iff]
  constructor
  · rintro ⟨c, hc, hid⟩
    obtain ⟨hy, hsite⟩ := height?_of_siteOf hc
    rw [hsite] at hid
    obtain ⟨chunk, hchunk, hid⟩ := Option.map_eq_some_iff.1 hid
    exact ⟨c.y, chunk, hy, hchunk, by rw [blockIn_of_height? hy]; exact hid⟩
  · rintro ⟨y, chunk, hy, hchunk, rfl⟩
    refine ⟨_, siteOf_of_height? hy, ?_⟩
    unfold idIn
    dsimp only
    rw [hchunk, Option.map_some, blockIn_of_height? hy]

theorem idOf_of_siteOf {w : World} {p : Pos} {c : Site} (h : siteOf p = some c) :
    idOf w p = idIn w c := by
  unfold idOf
  rw [h]
  rfl

theorem registered_idOf {w : World} (hw : Registered w) {p : Pos} {id : BitVec 32}
    (h : idOf w p = some id) : id.toNat < 2 ^ GLOBAL_BITS := by
  obtain ⟨c, _, hid⟩ := Option.bind_eq_some_iff.1 h
  exact hw c id hid

theorem air_registered : BlockState.AIR.id.toNat < 2 ^ GLOBAL_BITS := by decide

theorem idOf_eq_map_getBlock (w : World) (p : Pos) :
    idOf w p = (Fluids.getBlock w p).map BlockState.id := by
  unfold idOf siteOf Fluids.getBlock
  cases height? p.y with
  | none => rfl
  | some y =>
      rw [Option.map_some, Option.bind_some]
      unfold idIn
      dsimp only
      rw [Option.map_map]
      rfl

theorem mem_heights (y : Height) : y ∈ heights := by
  obtain ⟨y, hlow, hhigh⟩ := y
  refine List.mem_map.2 ⟨⟨(y + 64).toNat, by omega⟩, List.mem_finRange _, ?_⟩
  apply Subtype.ext
  dsimp only
  omega

/-- The topmost block of a column is a block of the column. -/
theorem getBlock_of_topBlock {w : World} {x z : BitVec 32} {y : Height} {block : BlockState}
    (h : topBlock w x z = some (y, block)) :
    Fluids.getBlock w ⟨x, BitVec.ofInt 32 y, z⟩ = some block ∧ isAir block = false := by
  obtain ⟨y', _, hy'⟩ := List.exists_of_findSome?_eq_some h
  split at hy'
  · cases hy'
  · split at hy'
    · cases hy'
    · rename_i hget hair
      cases hy'
      exact ⟨hget, Bool.eq_false_iff.2 hair⟩

/-! ## What a write changes -/

/-- A write to a site changes that site, when its chunk is loaded, and no other. -/
theorem idIn_writeAt {w : World} (hw : Registered w) (c : Site) {block : BlockState}
    (hblock : block.id.toNat < 2 ^ GLOBAL_BITS) (c' : Site) :
    idIn (writeAt w c block) c' = if c' = c then (idIn w c').map fun _ => block.id else idIn w c' := by
  obtain ⟨chunk, x, y, z⟩ := c'
  obtain ⟨cp, x', y', z'⟩ := c
  unfold idIn writeAt
  dsimp only
  by_cases hchunk : chunk = cp
  · subst hchunk
    rw [Function.update_self]
    cases hc : w chunk with
    | none => simp
    | some old =>
        simp only [Option.map_some, Site.mk.injEq, true_and]
        by_cases hsame : x = x' ∧ y = y' ∧ z = z'
        · obtain ⟨rfl, rfl, rfl⟩ := hsame
          rw [if_pos ⟨rfl, rfl, rfl⟩]
          exact congrArg some (old.id_getBlock_setBlock_self _ _ y hblock)
        · rw [if_neg hsame]
          have hold := hw ⟨chunk, x, y, z⟩ _ (by unfold idIn; rw [hc, Option.map_some])
          exact congrArg some (old.id_getBlock_setBlock_of_ne block hsame hold)
  · rw [Function.update_of_ne hchunk, if_neg]
    intro hsame
    exact hchunk (congrArg Site.chunk hsame)

theorem Registered.writeAt {w : World} (hw : Registered w) (c : Site) {block : BlockState}
    (hblock : block.id.toNat < 2 ^ GLOBAL_BITS) : Registered (writeAt w c block) := by
  intro c' id hid
  rw [idIn_writeAt hw c hblock] at hid
  split at hid
  · obtain ⟨_, _, rfl⟩ := Option.map_eq_some_iff.1 hid
    exact hblock
  · exact hw c' id hid

theorem loaded_writeAt (w : World) (c : Site) (block : BlockState) (cp : ChunkPos) :
    (writeAt w c block cp).isSome = (w cp).isSome := by
  unfold writeAt
  by_cases h : cp = c.chunk
  · rw [h, Function.update_self, Option.isSome_map]
  · rw [Function.update_of_ne h]

theorem idIn_setIn {w : World} (hw : Registered w) (cp : ChunkPos) (p : Pos) (y : Height)
    {block : BlockState} (hblock : block.id.toNat < 2 ^ GLOBAL_BITS) (c : Site) :
    idIn (setIn w cp p y block) c =
      if c = ⟨cp, low p.x, y, low p.z⟩ then (idIn w c).map fun _ => block.id else idIn w c :=
  idIn_writeAt hw ⟨cp, low p.x, y, low p.z⟩ hblock c

theorem Registered.setIn {w : World} (hw : Registered w) (cp : ChunkPos) (p : Pos) (y : Height)
    {block : BlockState} (hblock : block.id.toNat < 2 ^ GLOBAL_BITS) :
    Registered (setIn w cp p y block) := hw.writeAt ⟨cp, low p.x, y, low p.z⟩ hblock

theorem idIn_place {w : World} (hw : Registered w) (p : Pos) {block : BlockState}
    (hblock : block.id.toNat < 2 ^ GLOBAL_BITS) (c : Site) :
    idIn (place w p block) c =
      if siteOf p = some c then (idIn w c).map fun _ => block.id else idIn w c := by
  unfold place
  cases hy : height? p.y with
  | none =>
      have hout : siteOf p = none := by
        unfold siteOf
        rw [hy]
        rfl
      rw [hout]
      simp
  | some y =>
      dsimp only
      rw [idIn_setIn hw _ _ _ hblock]
      refine if_congr ⟨?_, fun hc => ?_⟩ rfl rfl
      · rintro rfl
        exact siteOf_of_height? hy
      · rw [siteOf_of_height? hy] at hc
        exact (Option.some.inj hc).symm

theorem Registered.place {w : World} (hw : Registered w) (p : Pos) {block : BlockState}
    (hblock : block.id.toNat < 2 ^ GLOBAL_BITS) : Registered (place w p block) := by
  unfold Redstone.place
  cases height? p.y with
  | none => exact hw
  | some y => exact hw.setIn _ _ _ hblock

theorem loaded_place (w : World) (p : Pos) (block : BlockState) (cp : ChunkPos) :
    (place w p block cp).isSome = (w cp).isSome := by
  unfold place
  cases height? p.y with
  | none => rfl
  | some y => exact loaded_setIn ..

theorem idOf_place {w : World} (hw : Registered w) (p : Pos) {block : BlockState}
    (hblock : block.id.toNat < 2 ^ GLOBAL_BITS) (q : Pos) :
    idOf (place w p block) q = if q = p then (idOf w q).map fun _ => block.id else idOf w q := by
  cases hq : siteOf q with
  | none =>
      have hnone : ∀ w, idOf w q = none := fun w => by
        unfold idOf
        rw [hq]
        rfl
      rw [hnone, hnone]
      simp
  | some c =>
      rw [idOf_of_siteOf hq, idOf_of_siteOf hq, idIn_place hw p hblock]
      refine if_congr ⟨fun hp => siteOf_inj hq hp, ?_⟩ rfl rfl
      rintro rfl
      exact hq

/-- At the positions: a write inside the height changes its own position only. -/
theorem idAt_place_of_registered {w : World} (hw : Registered w) (p : Pos) {block : BlockState}
    (hblock : block.id.toNat < 2 ^ GLOBAL_BITS) (q : Pos) :
    idAt (place w p block) q =
      if q = p ∧ (height? p.y).isSome then (idAt w q).map fun _ => block.id else idAt w q := by
  cases hq : siteOf q with
  | none =>
      have hy : height? q.y = none := Option.map_eq_none_iff.1 hq
      rw [idAt_of_outside hy, idAt_of_outside hy, if_neg]
      · have hsome := loaded_place w p block (chunkOf q)
        cases hw' : w (chunkOf q) <;> cases hp' : place w p block (chunkOf q) <;> simp_all
      · rintro ⟨rfl, hsome⟩
        rw [hy] at hsome
        cases hsome
  | some c =>
      rw [idAt_of_siteOf hq, idAt_of_siteOf hq, idIn_place hw p hblock]
      refine if_congr ⟨fun hp => ?_, ?_⟩ rfl rfl
      · obtain ⟨hy, _⟩ := height?_of_siteOf hp
        exact ⟨siteOf_inj hq hp, by rw [hy]; rfl⟩
      · rintro ⟨rfl, _⟩
        exact hq

/-- One chunk of a world, and no other. -/
def Blocks.only (b : Blocks) (cp : ChunkPos) : Blocks where
  world := fun cp' => if cp' = cp then b.world cp' else none
  registered := by
    intro c id hid
    unfold idIn at hid
    dsimp only at hid
    split at hid
    · exact b.registered c id hid
    · cases hid

theorem eq_of_loaded_only {b : Blocks} {cp cp' : ChunkPos} (h : ((b.only cp).world cp').isSome) :
    cp' = cp := by
  by_contra hne
  have hnone : (b.only cp).world cp' = none := if_neg hne
  rw [hnone] at h
  cases h

theorem idIn_only (b : Blocks) {cp : ChunkPos} (c : Site) (h : c.chunk = cp) :
    idIn (b.only cp).world c = idIn b.world c := by
  unfold idIn
  have hsame : (b.only cp).world c.chunk = b.world c.chunk := if_pos h
  rw [hsame]

/-! ## Worlds built block by block -/

/-- Blocks placed in a world of air. -/
def built (blocks : List (Pos × BlockState)) : World :=
  blocks.foldl (fun w b => place w b.1 b.2) openSky

theorem getBlock_new (cp : ChunkPos) (x z : Fin 16) (y : Height) :
    ReachableChunk.getBlock ⟨Chunk.new cp, .new cp⟩ x z y = BlockState.AIR := by
  have hget := ReachableChunk.chunk_getBlock ⟨Chunk.new cp, .new cp⟩ x z y
  have hair : (Chunk.new cp).getBlock x (BitVec.ofInt 32 y) z = some BlockState.AIR := by
    unfold Chunk.getBlock
    split
    · rfl
    · rfl
  exact Option.some.inj (hget.symm.trans hair)

theorem registered_openSky : Registered openSky := by
  intro c id hid
  have hair : idIn openSky c = some 0#32 := by
    change some (ReachableChunk.getBlock ⟨Chunk.new c.chunk, .new c.chunk⟩ c.x c.z c.y).id = _
    rw [getBlock_new]
    rfl
  rw [hair] at hid
  rw [← Option.some.inj hid]
  decide

theorem registered_built {blocks : List (Pos × BlockState)}
    (h : ∀ b ∈ blocks, b.2.id.toNat < 2 ^ GLOBAL_BITS) : Registered (built blocks) := by
  unfold built
  have hstart := registered_openSky
  generalize openSky = w at hstart ⊢
  induction blocks generalizing w with
  | nil => exact hstart
  | cons b blocks ih =>
      apply ih (fun b' hb' => h b' (List.mem_cons_of_mem _ hb'))
      exact hstart.place b.1 (h b List.mem_cons_self)

theorem loaded_built (blocks : List (Pos × BlockState)) (cp : ChunkPos) :
    (built blocks cp).isSome := by
  unfold built
  have hstart : (openSky cp).isSome := rfl
  generalize openSky = w at hstart ⊢
  induction blocks generalizing w with
  | nil => exact hstart
  | cons b blocks ih =>
      apply ih
      rw [loaded_place]
      exact hstart

/-- The block placed last at a position, or air. -/
theorem idAt_built {blocks : List (Pos × BlockState)}
    (h : ∀ b ∈ blocks, b.2.id.toNat < 2 ^ GLOBAL_BITS ∧ (height? b.1.y).isSome) (q : Pos) :
    idAt (built blocks) q =
      some (blocks.foldl (fun id b => if q = b.1 then b.2.id else id) 0#32) := by
  unfold built
  have hid := idAt_openSky q
  have hstart := registered_openSky
  generalize 0#32 = id at hid ⊢
  generalize openSky = w at hid hstart ⊢
  induction blocks generalizing w id with
  | nil => exact hid
  | cons b blocks ih =>
      obtain ⟨hfits, hheight⟩ := h b List.mem_cons_self
      apply ih (fun b' hb' => h b' (List.mem_cons_of_mem _ hb'))
      · dsimp only
        rw [idAt_place_of_registered hstart b.1 hfits, hid]
        by_cases hq : q = b.1
        · rw [if_pos ⟨hq, hheight⟩, if_pos hq, Option.map_some]
        · rw [if_neg fun hand => hq hand.1, if_neg hq]
      · exact hstart.place b.1 hfits

end Apoptotic.Redstone
