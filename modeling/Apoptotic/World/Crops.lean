import Apoptotic.Lib.Reached
import Apoptotic.World.Sites

/-!
# Crops

`mc-world/src/crops.rs`.  The ages of the crops are kept in a table by position, beside the chunks.
Blocks come and go by other means, which do not write to the table.  The stages that a crop has
grown since it was planted are kept beside the table; no operation reads them.

Principal result: `belongs_iff` — the age in the table is the age of the crop that stands there as
long as crops are planted only where the table has no age left.
-/

namespace Apoptotic.Crops

open Redstone
open Fluids (getBlock)

/-! ## The table -/

/-- `GROWABLE` -/
def GROWABLE : List (BitVec 32 × Nat) := [(59#32, 7), (141#32, 7), (142#32, 7), (207#32, 3)]

def getCropInfo (blockId : BitVec 32) : Option (BitVec 32 × Nat) :=
  GROWABLE.find? fun crop => crop.1 = blockId

/-- The chunks, and `CROP_AGES`. -/
structure State where
  world : World
  ages : Pos → Option Nat
  /-- The stages that the crop at a position has grown since it was planted. -/
  grown : Pos → Nat

namespace State

variable (s : State)

/-- `CROP_AGES.get(&pos).map(|r| *r).unwrap_or(0)` -/
def currentAge (p : Pos) : Nat := (s.ages p).getD 0

/-- The crop at `p` grows to `newAge`. -/
def grow (p : Pos) (newAge : Nat) : State where
  world := s.world
  ages := Function.update s.ages p (some newAge)
  grown := Function.update s.grown p (s.grown p + (newAge - s.currentAge p))

def isFullyGrown (p : Pos) : Bool :=
  match getBlock s.world p with
  | none => false
  | some block =>
    match getCropInfo block.id with
    | none => false
    | some (_, maxAge) =>
      match s.ages p with
      | none => false
      | some age => decide (maxAge ≤ age)

def removeCrop (p : Pos) : State := { s with ages := Function.update s.ages p none }

end State

/-! ## Growth -/

/-- An entry of `needs_update`. -/
structure Update where
  pos : Pos
  y : Height
  block : BlockState

/-- One column, with the two numbers it may draw. -/
def growColumn (draw : Nat × Nat) (wx wz : BitVec 32) (acc : State × List Update) :
    State × List Update :=
  if 30 ≤ draw.1 then acc
  else
    match topBlock acc.1.world wx wz with
    | none => acc
    | some (y, block) =>
      match getCropInfo block.id with
      | none => acc
      | some (_, maxAge) =>
        let pos : Pos := ⟨wx, BitVec.ofInt 32 y, wz⟩
        let currentAge := acc.1.currentAge pos
        if currentAge < maxAge ∧ draw.2 < 45 then
          (acc.1.grow pos (currentAge + 1), acc.2 ++ [⟨pos, y, block⟩])
        else acc

/-- The writes of `needs_update` to the chunk at `cp`. -/
def writeUpdates (w : World) (cp : ChunkPos) (updates : List Update) : World :=
  updates.foldl (fun w u => setIn w cp u.pos u.y u.block) w

def growChunk (draws : ChunkPos → Fin 16 → Fin 16 → Nat × Nat) (s : State) (cp : ChunkPos) : State :=
  match s.world cp with
  | none => s
  | some _ =>
    let r := columns.foldl (fun acc c =>
      growColumn (draws cp c.1 c.2) (coordinate cp.x c.1) (coordinate cp.z c.2) acc) (s, [])
    { r.1 with world := writeUpdates r.1.world cp r.2 }

/-- `tick_crops`, with the loaded chunks in the order of the map. -/
def tickCrops (s : State) (loaded : List ChunkPos)
    (draws : ChunkPos → Fin 16 → Fin 16 → Nat × Nat) : State := loaded.foldl (growChunk draws) s

/-- `apply_bonemeal`, which grows a crop by `growth + 1` stages. -/
def applyBonemeal (s : State) (p : Pos) (growth : Fin 3) : Bool × State :=
  match getBlock s.world p with
  | none => (false, s)
  | some block =>
    match getCropInfo block.id with
    | none => (false, s)
    | some (_, maxAge) =>
      let currentAge := s.currentAge p
      if currentAge < maxAge then
        let s := s.grow p (min (currentAge + (growth.val + 1)) maxAge)
        (true, { s with world := place s.world p block })
      else (true, s)

/-! ## Runs -/

/-- A block whose id is one of the registry. -/
structure RegistryBlock where
  block : BlockState
  fits : block.id.toNat < 2 ^ GLOBAL_BITS

inductive Event where
  /-- A player, an explosion, a piston, a fluid or a command puts a block, or air. -/
  | set (p : Pos) (b : RegistryBlock)
  | tickCrops (loaded : List ChunkPos) (draws : ChunkPos → Fin 16 → Fin 16 → Nat × Nat)
  | applyBonemeal (p : Pos) (growth : Fin 3)

/-- What is put somewhere has not grown there. -/
def State.step (s : State) : Event → State
  | .set p b =>
    { s with world := place s.world p b.block, grown := Function.update s.grown p 0 }
  | .tickCrops loaded draws => Crops.tickCrops s loaded draws
  | .applyBonemeal p growth => (Crops.applyBonemeal s p growth).2

/-- The start of the server: no ages. -/
def init (b : Blocks) : State := ⟨b.world, fun _ => none, fun _ => 0⟩

/-- The last stage of the crop at a position, if one stands there. -/
def maxAge? (w : World) (p : Pos) : Option Nat :=
  (idOf w p).bind fun id => (getCropInfo id).map Prod.snd

/-- The age in the table is the age of the crop at `p`. -/
structure AgeOf (s : State) (p : Pos) (maxAge : Nat) : Prop where
  bounded : s.currentAge p ≤ maxAge
  planted : s.grown p = 0 → s.currentAge p = 0
  full : s.isFullyGrown p ↔ s.grown p = maxAge

/-- Every age belongs to the crop that stands there. -/
def State.Belongs (s : State) : Prop := ∀ p maxAge, maxAge? s.world p = some maxAge → AgeOf s p maxAge

/-- A crop is planted only where the table has no age left. -/
def State.Fresh (s : State) : Event → Prop
  | .set p b => (idOf s.world p).isSome → (getCropInfo b.block.id).isSome → s.currentAge p = 0
  | .tickCrops _ _ => True
  | .applyBonemeal _ _ => True

/-! ## Growing keeps ages -/

theorem getCropInfo_pos {id : BitVec 32} {crop : BitVec 32 × Nat} (h : getCropInfo id = some crop) :
    0 < crop.2 := by
  have hall : ∀ crop ∈ GROWABLE, 0 < crop.2 := by decide
  exact hall crop (List.mem_of_find?_eq_some h)

theorem maxAge?_eq_some {w : World} {p : Pos} {maxAge : Nat} : maxAge? w p = some maxAge ↔
    ∃ block id, getBlock w p = some block ∧ getCropInfo block.id = some (id, maxAge) := by
  unfold maxAge?
  rw [idOf_eq_map_getBlock]
  cases getBlock w p with
  | none => simp
  | some block =>
      simp only [Option.map_some, Option.bind_some, Option.map_eq_some_iff, Option.some.injEq]
      constructor
      · rintro ⟨⟨id, _⟩, hcrop, rfl⟩
        exact ⟨block, id, rfl, hcrop⟩
      · rintro ⟨_, id, rfl, hcrop⟩
        exact ⟨(id, maxAge), hcrop, rfl⟩

theorem maxAge?_congr {w w' : World} (h : ∀ p, idOf w' p = idOf w p) (p : Pos) :
    maxAge? w' p = maxAge? w p := by
  unfold maxAge?
  rw [h]

/-- The table counts the stages of the crops that stand. -/
structure Good (s : State) : Prop where
  registered : Registered s.world
  counted : ∀ p maxAge, maxAge? s.world p = some maxAge →
    s.currentAge p = s.grown p ∧ s.grown p ≤ maxAge

theorem good_init (b : Blocks) : Good (init b) :=
  ⟨b.registered, fun _ maxAge _ => ⟨rfl, Nat.zero_le maxAge⟩⟩

theorem Good.belongs {s : State} (hs : Good s) : s.Belongs := by
  intro p maxAge hmax
  obtain ⟨hage, hbound⟩ := hs.counted p maxAge hmax
  refine ⟨hage ▸ hbound, fun hzero => hage.trans hzero, ?_⟩
  obtain ⟨block, id, hblock, hcrop⟩ := maxAge?_eq_some.1 hmax
  unfold State.isFullyGrown
  simp only [hblock, hcrop]
  unfold State.currentAge at hage
  cases hentry : s.ages p with
  | none =>
      rw [hentry] at hage
      have hpos : 0 < maxAge := getCropInfo_pos hcrop
      have hzero : s.grown p = 0 := hage.symm
      refine iff_of_false (fun h => Bool.noConfusion h) fun hfull => ?_
      omega
  | some age =>
      rw [hentry, Option.getD_some] at hage
      rw [hage, decide_eq_true_eq]
      omega

theorem Good.of_same {s : State} (hs : Good s) {w : World} (hw : Registered w)
    (h : ∀ p, idOf w p = idOf s.world p) : Good { s with world := w } := by
  refine ⟨hw, fun p maxAge hmax => hs.counted p maxAge ?_⟩
  rw [← maxAge?_congr h]
  exact hmax

/-- A crop that grows within its stages is counted. -/
theorem Good.grow {s : State} (hs : Good s) {p : Pos} {maxAge newAge : Nat}
    (hmax : maxAge? s.world p = some maxAge) (hup : s.currentAge p ≤ newAge) (hle : newAge ≤ maxAge) :
    Good (s.grow p newAge) := by
  refine ⟨hs.registered, fun q m hm => ?_⟩
  by_cases hq : q = p
  · subst hq
    have hsame : m = maxAge := Option.some.inj (hm.symm.trans hmax)
    have hage := (hs.counted q maxAge hmax).1
    have hafter : (s.grow q newAge).currentAge q = newAge := by
      unfold State.grow State.currentAge
      simp
    have hgrown : (s.grow q newAge).grown q = s.grown q + (newAge - s.currentAge q) :=
      Function.update_self ..
    rw [hafter, hgrown]
    omega
  · have hage : (s.grow p newAge).currentAge q = s.currentAge q := by
      unfold State.grow State.currentAge
      simp [hq]
    have hgrown : (s.grow p newAge).grown q = s.grown q := Function.update_of_ne hq ..
    rw [hage, hgrown]
    exact hs.counted q m hm

/-! ## A tick keeps ages -/

/-- The updates of the chunk at `cp` write what is there. -/
def Idle (w : World) (cp : ChunkPos) (updates : List Update) : Prop :=
  ∀ u ∈ updates, getBlock w u.pos = some u.block ∧
    ∃ x z, u.pos = ⟨coordinate cp.x x, BitVec.ofInt 32 u.y, coordinate cp.z z⟩

theorem growColumn_spec (draw : Nat × Nat) {cp : ChunkPos} (c : Fin 16 × Fin 16)
    {acc : State × List Update} (hs : Good acc.1) (hidle : Idle acc.1.world cp acc.2) :
    let r := growColumn draw (coordinate cp.x c.1) (coordinate cp.z c.2) acc
    r.1.world = acc.1.world ∧ Good r.1 ∧ Idle acc.1.world cp r.2 := by
  unfold growColumn
  dsimp only
  split
  · exact ⟨rfl, hs, hidle⟩
  · split
    · exact ⟨rfl, hs, hidle⟩
    · rename_i y block htop
      have hblock := (getBlock_of_topBlock htop).1
      split
      · exact ⟨rfl, hs, hidle⟩
      · rename_i id maxAge hcrop
        split
        · rename_i hgrows
          refine ⟨rfl, ?_, ?_⟩
          · exact hs.grow (maxAge?_eq_some.2 ⟨block, id, hblock, hcrop⟩) (by omega) (by omega)
          · intro u hu
            rcases List.mem_append.1 hu with hu | hu
            · exact hidle u hu
            · rw [List.mem_singleton.1 hu]
              exact ⟨hblock, c.1, c.2, rfl⟩
        · exact ⟨rfl, hs, hidle⟩

/-- A chunk that a position lies in is the chunk of its columns. -/
theorem coordinate_spec {a n : BitVec 32} (h : n.sshiftRight 4 = a) (off : Fin 16) :
    (coordinate a off).sshiftRight 4 = a ∧ low (coordinate a off) = off := by
  have ha := congrArg BitVec.toInt h
  rw [toInt_shift] at ha
  have hoff := off.isLt
  constructor
  · apply BitVec.eq_of_toInt_eq
    rw [toInt_shift]
    simp only [coordinate, BitVec.toInt_eq_toNat_cond, BitVec.toNat_add, BitVec.toNat_mul,
      BitVec.toNat_ofNat] at ha ⊢
    omega
  · apply Fin.ext
    simp only [coordinate, low, BitVec.toNat_add, BitVec.toNat_mul, BitVec.toNat_ofNat]
    omega

/-- A write of what is there changes nothing at any position. -/
theorem idOf_writeUpdates {w w' : World} (hw : Registered w') {cp : ChunkPos} {u : Update}
    (hblock : getBlock w u.pos = some u.block)
    (hpos : ∃ x z, u.pos = ⟨coordinate cp.x x, BitVec.ofInt 32 u.y, coordinate cp.z z⟩)
    (hsame : ∀ p, idOf w' p = idOf w p) :
    Registered (setIn w' cp u.pos u.y u.block) ∧
      ∀ p, idOf (setIn w' cp u.pos u.y u.block) p = idOf w p := by
  have hid : idOf w' u.pos = some u.block.id := by
    rw [hsame, idOf_eq_map_getBlock, hblock]
    rfl
  have hfits := registered_idOf hw hid
  refine ⟨hw.setIn cp u.pos u.y hfits, fun p => ?_⟩
  rw [← hsame]
  cases hp : siteOf p with
  | none =>
      unfold idOf
      rw [hp]
      rfl
  | some c =>
      rw [idOf_of_siteOf hp, idOf_of_siteOf hp, idIn_setIn hw _ _ _ hfits]
      split
      · rename_i hc
        have hchunk : chunkOf p = cp := by
          rw [(height?_of_siteOf hp).2] at hc
          exact congrArg Site.chunk hc
        obtain ⟨x, z, hu⟩ := hpos
        obtain ⟨hx, _⟩ := coordinate_spec (congrArg ChunkPos.x hchunk) x
        obtain ⟨hz, _⟩ := coordinate_spec (congrArg ChunkPos.z hchunk) z
        have hsite : siteOf u.pos = some c := by
          have hy : height? u.pos.y = some u.y := by
            rw [hu]
            exact height?_ofInt u.y
          have hat : chunkOf u.pos = cp := by
            unfold chunkOf
            rw [hu, hx, hz]
          rw [siteOf_of_height? hy, hc, hat]
        rw [← idOf_of_siteOf hsite, hid]
        rfl
      · rfl

theorem writeUpdates_spec {w : World} {cp : ChunkPos} {updates : List Update}
    (hidle : Idle w cp updates) {w' : World} (hw : Registered w')
    (hsame : ∀ p, idOf w' p = idOf w p) : Registered (writeUpdates w' cp updates) ∧
      ∀ p, idOf (writeUpdates w' cp updates) p = idOf w p := by
  unfold writeUpdates
  induction updates generalizing w' with
  | nil => exact ⟨hw, hsame⟩
  | cons u updates ih =>
      obtain ⟨hblock, hpos⟩ := hidle u List.mem_cons_self
      obtain ⟨hw', hsame'⟩ := idOf_writeUpdates hw hblock hpos hsame
      exact ih (fun v hv => hidle v (List.mem_cons_of_mem _ hv)) hw' hsame'

theorem Good.growChunk {s : State} (hs : Good s) (draws : ChunkPos → Fin 16 → Fin 16 → Nat × Nat)
    (cp : ChunkPos) : Good (growChunk draws s cp) := by
  unfold Crops.growChunk
  split
  · exact hs
  · -- The columns are scanned on the chunks as they are; only then the updates are written.
    have hscan : ∀ (cols : List (Fin 16 × Fin 16)) (acc : State × List Update), Good acc.1 →
        Idle acc.1.world cp acc.2 →
        let r := cols.foldl (fun acc c =>
          growColumn (draws cp c.1 c.2) (coordinate cp.x c.1) (coordinate cp.z c.2) acc) acc
        Good r.1 ∧ Idle r.1.world cp r.2 := by
      intro cols
      induction cols with
      | nil => exact fun _ hgood hidle => ⟨hgood, hidle⟩
      | cons c cols ih =>
          intro acc hgood hidle
          obtain ⟨hworld, hgood', hidle'⟩ := growColumn_spec (draws cp c.1 c.2) c hgood hidle
          exact ih _ hgood' (by rw [hworld]; exact hidle')
    obtain ⟨hgood, hidle⟩ := hscan columns (s, []) hs fun u hu => absurd hu List.not_mem_nil
    obtain ⟨hw, hsame⟩ := writeUpdates_spec hidle hgood.registered fun _ => rfl
    exact hgood.of_same hw hsame

theorem Good.tickCrops {s : State} (hs : Good s) (loaded : List ChunkPos)
    (draws : ChunkPos → Fin 16 → Fin 16 → Nat × Nat) : Good (tickCrops s loaded draws) := by
  unfold Crops.tickCrops
  induction loaded generalizing s with
  | nil => exact hs
  | cons cp loaded ih => exact ih (hs.growChunk draws cp)

theorem Good.applyBonemeal {s : State} (hs : Good s) (p : Pos) (growth : Fin 3) :
    Good (applyBonemeal s p growth).2 := by
  unfold Crops.applyBonemeal
  split
  · exact hs
  · rename_i block hblock
    split
    · exact hs
    · rename_i id maxAge hcrop
      dsimp only
      split
      · have hmax := maxAge?_eq_some.2 ⟨block, id, hblock, hcrop⟩
        have hgrown : Good (s.grow p (min (s.currentAge p + (growth.val + 1)) maxAge)) :=
          hs.grow hmax (by omega) (by omega)
        have hid : idOf s.world p = some block.id := by
          rw [idOf_eq_map_getBlock, hblock]
          rfl
        have hfits := registered_idOf hs.registered hid
        refine hgrown.of_same (hs.registered.place p hfits) fun q => ?_
        change idOf (place s.world p block) q = idOf s.world q
        rw [idOf_place hs.registered p hfits]
        split
        · rename_i hq
          rw [hq, hid]
          rfl
        · rfl
      · exact hs

/-! ## Planting -/

theorem maxAge?_set {s : State} (hs : Good s) (p : Pos) (b : RegistryBlock) (q : Pos) :
    maxAge? (s.step (.set p b)).world q =
      if q = p then (idOf s.world p).bind fun _ => (getCropInfo b.block.id).map Prod.snd
      else maxAge? s.world q := by
  unfold maxAge? State.step
  dsimp only
  rw [idOf_place hs.registered p b.fits]
  split
  · rename_i hq
    rw [hq]
    cases idOf s.world p with
    | none => rfl
    | some id => rfl
  · rfl

theorem Good.set {s : State} (hs : Good s) {p : Pos} {b : RegistryBlock} (hfresh : s.Fresh (.set p b)) :
    Good (s.step (.set p b)) := by
  refine ⟨hs.registered.place p b.fits, fun q maxAge hmax => ?_⟩
  rw [maxAge?_set hs] at hmax
  split at hmax
  · rename_i hq
    subst hq
    obtain ⟨id, hid, hcrop⟩ := Option.bind_eq_some_iff.1 hmax
    obtain ⟨crop, hcrop, _⟩ := Option.map_eq_some_iff.1 hcrop
    have hzero : (s.step (.set q b)).grown q = 0 := Function.update_self ..
    rw [hzero]
    exact ⟨hfresh (by rw [hid]; rfl) (by rw [hcrop]; rfl), Nat.zero_le _⟩
  · rename_i hq
    have hgrown : (s.step (.set p b)).grown q = s.grown q := Function.update_of_ne hq ..
    rw [hgrown]
    exact hs.counted q maxAge hmax

/-- Planting on an age that was left does not give a new crop. -/
theorem fresh_of_belongs {s : State} (hs : Good s) {p : Pos} {b : RegistryBlock}
    (h : (s.step (.set p b)).Belongs) : s.Fresh (.set p b) := by
  intro hloaded hcrop
  obtain ⟨id, hid⟩ := Option.isSome_iff_exists.1 hloaded
  obtain ⟨crop, hcrop⟩ := Option.isSome_iff_exists.1 hcrop
  have hmax : maxAge? (s.step (.set p b)).world p = some crop.2 := by
    rw [maxAge?_set hs, if_pos rfl, hid, hcrop]
    rfl
  exact (h p crop.2 hmax).planted (Function.update_self ..)

/-- Where `remove_crop` was called, a crop can be planted. -/
theorem fresh_removeCrop (s : State) (p : Pos) (b : RegistryBlock) :
    (s.removeCrop p).Fresh (.set p b) := by
  intro _ _
  unfold State.removeCrop State.currentAge
  simp

theorem Good.step {s : State} (hs : Good s) {e : Event} (h : s.Fresh e) : Good (s.step e) := by
  cases e with
  | set p b => exact hs.set h
  | tickCrops loaded draws => exact hs.tickCrops loaded draws
  | applyBonemeal p growth => exact hs.applyBonemeal p growth

/-- **The age in the table belongs to the crop that stands there**, after every event of a run, exactly
    when every crop of the run is planted where the table has no age left. -/
theorem belongs_iff (b : Blocks) (events : List Event) :
    Along State.step (fun s e => (s.step e).Belongs) (init b) events ↔
      Along State.step State.Fresh (init b) events := by
  refine along_iff Good (fun s e hs => ⟨fun h => ?_, fun h => (hs.step h).belongs⟩)
    (fun s e hs h => hs.step h) (good_init b) events
  cases e with
  | set p b => exact fresh_of_belongs hs h
  | tickCrops loaded draws => trivial
  | applyBonemeal p growth => trivial

def wheat : RegistryBlock := ⟨BlockState.new 59#32, by decide⟩

def air : RegistryBlock := ⟨BlockState.AIR, air_registered⟩

/-- Wheat is planted and grows, it goes, and wheat is planted again. -/
def replanting (p : Pos) : List Event := [.set p wheat, .applyBonemeal p 0, .set p air, .set p wheat]

theorem isSome_idOf_place {w : World} (hw : Registered w) (p : Pos) (b : RegistryBlock) (q : Pos) :
    (idOf (place w p b.block) q).isSome = (idOf w q).isSome := by
  rw [idOf_place hw p b.fits]
  split
  · rw [Option.isSome_map]
  · rfl

/-- The new wheat has the age of the old. -/
theorem not_belongs_replanting {b : Blocks} {p : Pos} (h : (idOf b.world p).isSome) :
    ¬ Along State.step (fun s e => (s.step e).Belongs) (init b) (replanting p) := by
  rintro ⟨_, _, _, hlast, _⟩
  have hgood := (good_init b).set (p := p) (b := wheat) fun _ _ => rfl
  have hloaded := (isSome_idOf_place b.registered p wheat p).trans h
  change (idOf ((init b).step (.set p wheat)).world p).isSome at hloaded
  have hmax : maxAge? ((init b).step (.set p wheat)).world p = some 7 := by
    rw [maxAge?_set (good_init b), if_pos rfl]
    obtain ⟨id, hid⟩ := Option.isSome_iff_exists.1 h
    change (idOf b.world p).bind _ = _
    rw [hid]
    rfl
  have hnone : ((init b).step (.set p wheat)).ages p = none := rfl
  generalize (init b).step (.set p wheat) = s at hlast hgood hloaded hmax hnone
  have hgrown := hgood.applyBonemeal p 0
  obtain ⟨block, id, hblock, hcrop⟩ := maxAge?_eq_some.1 hmax
  have hbone : (applyBonemeal s p 0).2 = { s.grow p 1 with world := place s.world p block } := by
    unfold applyBonemeal State.currentAge
    simp [hblock, hcrop, hnone]
    rfl
  have hair := hgrown.set (p := p) (b := air) fun _ hcrop => absurd hcrop (by decide)
  have hfits := hgood.registered
  have hthere : (idOf (((applyBonemeal s p 0).2.step (.set p air)).world) p).isSome := by
    refine (isSome_idOf_place hgrown.registered p air p).trans ?_
    have hid : idOf s.world p = some block.id := by
      rw [idOf_eq_map_getBlock, hblock]
      rfl
    rw [hbone]
    exact (isSome_idOf_place hfits p ⟨block, registered_idOf hfits hid⟩ p).trans hloaded
  have hzero : ((applyBonemeal s p 0).2).currentAge p = 0 :=
    fresh_of_belongs hair hlast hthere (by decide)
  rw [hbone] at hzero
  have hone : (s.grow p 1).currentAge p = 1 := by
    unfold State.grow State.currentAge
    simp
  exact absurd (hone.symm.trans hzero) (by decide)

/-- **A crop can have grown before it is planted.** -/
theorem not_forall_belongs : ¬ ∀ (b : Blocks) (events : List Event),
    Along State.step (fun s e => (s.step e).Belongs) (init b) events := by
  intro hall
  refine not_belongs_replanting (b := ⟨openSky, registered_openSky⟩) (p := origin) ?_ (hall _ _)
  have hsite : siteOf origin = some ⟨chunkOf origin, low origin.x, ⟨64, by decide⟩, low origin.z⟩ := rfl
  rw [idOf_of_siteOf hsite, ← idAt_of_siteOf hsite, idAt_openSky]
  rfl

end Apoptotic.Crops
