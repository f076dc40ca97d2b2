import Apoptotic.World.ChunkGrids
import Apoptotic.World.Generators

/-!
# Where the placers write

The calls of `set_block` of the placers that are lists of calls: each has its column in the chunk and its
height in the world, but for a patch of melons, which reaches one block around its column, and a
shipwreck, which lies at the height of the ground.

Principal results: `inWorld_tree`, `inWorld_placeTrees`, `inWorld_village` and the others, one for each
placer; `inWorld_melonPatch_iff`, `inWorld_shipwreck_iff`.
-/

namespace Apoptotic.Terrain

open Blocks

abbrev AllInWorld (ws : List Write) : Prop := ∀ w ∈ ws, w.InWorld

namespace AllInWorld

variable {α : Type} {w : Write} {ws ws' : List Write} {l : List α}

theorem nil : AllInWorld [] := fun _ h => absurd h List.not_mem_nil

theorem cons (hw : w.InWorld) (hws : AllInWorld ws) : AllInWorld (w :: ws) :=
  List.forall_mem_cons.2 ⟨hw, hws⟩

theorem append (h : AllInWorld ws) (h' : AllInWorld ws') : AllInWorld (ws ++ ws') :=
  List.forall_mem_append.2 ⟨h, h'⟩

theorem flatMap {f : α → List Write} (hf : ∀ a ∈ l, AllInWorld (f a)) : AllInWorld (l.flatMap f) := by
  intro w hw
  obtain ⟨a, ha, hw⟩ := List.mem_flatMap.1 hw
  exact hf a ha w hw

theorem map {f : α → Write} (hf : ∀ a ∈ l, (f a).InWorld) : AllInWorld (l.map f) := by
  intro w hw
  obtain ⟨a, ha, rfl⟩ := List.mem_map.1 hw
  exact hf a ha

theorem ite {P : Prop} [Decidable P] (ht : P → AllInWorld ws) (hf : ¬ P → AllInWorld ws') :
    AllInWorld (if P then ws else ws') := by
  split
  · exact ht ‹_›
  · exact hf ‹_›

/-- A call whose column may be outside. -/
theorem clip {x y z : Int} {id : BlockId} (hy : -64 ≤ y ∧ y ≤ 319) :
    AllInWorld (Terrain.clip ⟨x, y, z, id⟩) :=
  .ite (fun h => .cons ⟨h.1, hy, h.2⟩ .nil) fun _ => .nil

/-- The columns of a chunk. -/
theorem columns {f : Int × Int → List Write}
    (hf : ∀ x z, Inside x → Inside z → AllInWorld (f (x, z))) : AllInWorld (columns.flatMap f) := by
  refine flatMap fun column hcolumn => ?_
  obtain ⟨hx, hz⟩ := mem_columns.1 hcolumn
  exact hf _ _ hx hz

end AllInWorld

/-! ## Trees -/

section Trees

variable {x z base h surface : Int} {log leaves : BlockId}

theorem inWorld_trunk (hx : Inside x) (hz : Inside z) (hlo : -64 ≤ base) (hhi : base + h ≤ 320) :
    AllInWorld (trunk x z base h log) := by
  refine .map fun dy hdy => ?_
  have := mem_span.1 hdy
  exact inWorld hx (by omega) hz

theorem inWorld_thickTrunk (hx : 0 ≤ x ∧ x < 15) (hz : 0 ≤ z ∧ z < 15) (hlo : -64 ≤ base)
    (hhi : base + h ≤ 320) : AllInWorld (thickTrunk x z base h log) := by
  refine .flatMap fun dy hdy => ?_
  have := mem_span.1 hdy
  refine .cons ?_ (.cons ?_ (.cons ?_ (.cons ?_ .nil)))
  all_goals exact inWorld (by omega) (by omega) (by omega)

theorem inWorld_canopy {lo hi : Int} {keep : Int → Int → Bool} {ys : List Int}
    (hys : ∀ y ∈ ys, -64 ≤ y ∧ y ≤ 319) : AllInWorld (canopy x z lo hi keep ys leaves) :=
  .flatMap fun _ _ => .flatMap fun _ _ => .ite (fun _ => .flatMap fun y hy => .clip (hys y hy)) fun _ => .nil

theorem trunkHeight_between (bits : BitVec 64) (base : Int) {n : Int} (hn : 0 < n) :
    base - n < trunkHeight bits base n ∧ trunkHeight bits base n < base + n := by
  have hlo := Int.lt_tmod_of_pos (signedBits bits 16) hn
  have hhi := Int.tmod_lt_of_pos (signedBits bits 16) hn
  unfold trunkHeight
  omega

/-- The heights of one or more layers of leaves. -/
theorem forall_mem_pair {P : Int → Prop} {a b : Int} (ha : P a) (hb : P b) : ∀ y ∈ [a, b], P y :=
  List.forall_mem_cons.2 ⟨ha, List.forall_mem_singleton.2 hb⟩

/-- A tree stands off the border of the chunk, on the ground. -/
structure Rooted (x z surface : Int) : Prop where
  x : 4 ≤ x ∧ x < 12
  z : 4 ≤ z ∧ z < 12
  surface : -58 ≤ surface ∧ surface ≤ 300

variable (hroot : Rooted x z surface) (bits : BitVec 64)

include hroot

theorem Rooted.insideX : Inside x := by
  have := hroot.x
  omega

theorem Rooted.insideZ : Inside z := by
  have := hroot.z
  omega

theorem inWorld_spruce : AllInWorld (spruce bits x z surface) := by
  have hs := hroot.surface
  have ht := trunkHeight_between bits 5 (show (0 : Int) < 4 by decide)
  refine .append (.append ?_ (.flatMap fun ly hly => inWorld_canopy ?_)) (.cons ?_ .nil)
  · exact inWorld_trunk hroot.insideX hroot.insideZ (by omega) (by omega)
  · have := mem_span.1 hly
    exact List.forall_mem_singleton.2 (by omega)
  · exact inWorld hroot.insideX (by omega) hroot.insideZ

theorem inWorld_birch : AllInWorld (birch bits x z surface) := by
  have hs := hroot.surface
  have ht := trunkHeight_between bits 5 (show (0 : Int) < 3 by decide)
  refine .append (.append ?_ (inWorld_canopy ?_)) (inWorld_canopy ?_)
  · exact inWorld_trunk hroot.insideX hroot.insideZ (by omega) (by omega)
  · exact forall_mem_pair (by omega) (by omega)
  · exact List.forall_mem_singleton.2 (by omega)

theorem inWorld_jungleTree : AllInWorld (jungleTree bits x z surface) := by
  have hs := hroot.surface
  have hx := hroot.x
  have hz := hroot.z
  have ht := trunkHeight_between bits 8 (show (0 : Int) < 5 by decide)
  refine .append (.ite (fun _ => ?_) fun _ => ?_) (inWorld_canopy ?_)
  · exact inWorld_thickTrunk (by omega) (by omega) (by omega) (by omega)
  · exact inWorld_trunk hroot.insideX hroot.insideZ (by omega) (by omega)
  · exact forall_mem_pair (by omega) (by omega)

theorem inWorld_acacia : AllInWorld (acacia bits x z surface) := by
  have hs := hroot.surface
  have ht := trunkHeight_between bits 5 (show (0 : Int) < 3 by decide)
  refine .append ?_ (inWorld_canopy ?_)
  · exact inWorld_trunk hroot.insideX hroot.insideZ (by omega) (by omega)
  · exact List.forall_mem_singleton.2 (by omega)

theorem inWorld_darkOak : AllInWorld (darkOak bits x z surface) := by
  have hs := hroot.surface
  have hx := hroot.x
  have hz := hroot.z
  have ht := trunkHeight_between bits 5 (show (0 : Int) < 3 by decide)
  refine .append (.ite (fun _ => ?_) fun _ => ?_) (inWorld_canopy ?_)
  · exact inWorld_thickTrunk (by omega) (by omega) (by omega) (by omega)
  · exact inWorld_trunk hroot.insideX hroot.insideZ (by omega) (by omega)
  · exact List.forall_mem_cons.2 ⟨by omega, forall_mem_pair (by omega) (by omega)⟩

theorem inWorld_mangrove : AllInWorld (mangrove bits x z surface) := by
  have hs := hroot.surface
  have ht := trunkHeight_between bits 6 (show (0 : Int) < 4 by decide)
  refine .append (.append (.append ?_ (.flatMap fun dy hdy => .flatMap fun d _ => .clip ?_))
    (inWorld_canopy ?_)) (inWorld_canopy ?_)
  · exact inWorld_trunk hroot.insideX hroot.insideZ (by omega) (by omega)
  · have := mem_span.1 hdy
    omega
  · exact forall_mem_pair (by omega) (by omega)
  · exact List.forall_mem_singleton.2 (by omega)

theorem inWorld_cherry : AllInWorld (cherry bits x z surface) := by
  have hs := hroot.surface
  have ht := trunkHeight_between bits 4 (show (0 : Int) < 4 by decide)
  refine .append ?_ (.flatMap fun ly hly => inWorld_canopy ?_)
  · exact inWorld_trunk hroot.insideX hroot.insideZ (by omega) (by omega)
  · have := mem_span.1 hly
    exact List.forall_mem_singleton.2 (by omega)

theorem inWorld_paleOak : AllInWorld (paleOak bits x z surface) := by
  have hs := hroot.surface
  have hx := hroot.x
  have hz := hroot.z
  have ht := trunkHeight_between bits 5 (show (0 : Int) < 3 by decide)
  refine .append (.ite (fun _ => ?_) fun _ => ?_) (inWorld_canopy ?_)
  · exact inWorld_thickTrunk (by omega) (by omega) (by omega) (by omega)
  · exact inWorld_trunk hroot.insideX hroot.insideZ (by omega) (by omega)
  · exact forall_mem_pair (by omega) (by omega)

theorem inWorld_oak : AllInWorld (oak bits x z surface) := by
  have hs := hroot.surface
  have ht := trunkHeight_between bits 4 (show (0 : Int) < 3 by decide)
  refine .append (.append ?_ (inWorld_canopy ?_)) (inWorld_canopy ?_)
  · exact inWorld_trunk hroot.insideX hroot.insideZ (by omega) (by omega)
  · exact forall_mem_pair (by omega) (by omega)
  · exact List.forall_mem_singleton.2 (by omega)

theorem inWorld_tree (biome : BiomeId) : AllInWorld (tree biome bits x z surface) := by
  cases biome with
  | taiga => exact inWorld_spruce hroot bits
  | forest => exact inWorld_birch hroot bits
  | jungle => exact inWorld_jungleTree hroot bits
  | swamp => exact inWorld_acacia hroot bits
  | darkForest => exact inWorld_darkOak hroot bits
  | mangroveSwamp => exact inWorld_mangrove hroot bits
  | cherryGrove => exact inWorld_cherry hroot bits
  | paleGarden => exact inWorld_paleOak hroot bits
  | _ => exact inWorld_oak hroot bits

end Trees

section Overworld

variable (pos : ChunkPos) (seed : BitVec 64) (heightAt : HeightFn)

theorem inWorld_placeTrees : AllInWorld (placeTrees pos seed heightAt) := by
  refine .flatMap fun x hx => .flatMap fun z hz => ?_
  refine .ite (fun _ => .nil) fun _ => .ite (fun _ => .nil) fun _ => .ite (fun hs => ?_) fun _ => .nil
  exact inWorld_tree ⟨mem_span.1 hx, mem_span.1 hz, hs⟩ _ _

theorem inWorld_stalk {x z surface n : Int} {id : BlockId} (hx : Inside x) (hz : Inside z)
    (hlo : -65 ≤ surface) (hhi : surface + n ≤ 319) : AllInWorld (stalk x z surface n id) := by
  refine .map fun dy hdy => ?_
  have := mem_span.1 hdy
  exact inWorld hx (by omega) hz

/-- A patch of melons reaches one block around its column. -/
theorem inWorld_melonPatch_iff {x z surface : Int} (hs : -64 ≤ surface ∧ surface ≤ 319) :
    AllInWorld (melonPatch x z surface) ↔ (1 ≤ x ∧ x ≤ 14) ∧ 1 ≤ z ∧ z ≤ 14 := by
  have hmem : ∀ dx dz : Int, -1 ≤ dx → dx < 2 → -1 ≤ dz → dz < 2 → dx.natAbs + dz.natAbs ≤ 1 →
      ⟨x + dx, surface, z + dz, MELON⟩ ∈ melonPatch x z surface := by
    intro dx dz hx hx' hz hz' hd
    refine List.mem_flatMap.2 ⟨dx, mem_span.2 ⟨hx, hx'⟩, List.mem_flatMap.2 ⟨dz, mem_span.2 ⟨hz, hz'⟩, ?_⟩⟩
    rw [if_pos hd]
    exact List.mem_singleton.2 rfl
  constructor
  · intro h
    have hwest := (h _ (hmem (-1) 0 (by decide) (by decide) (by decide) (by decide) (by decide))).x
    have heast := (h _ (hmem 1 0 (by decide) (by decide) (by decide) (by decide) (by decide))).x
    have hnorth := (h _ (hmem 0 (-1) (by decide) (by decide) (by decide) (by decide) (by decide))).z
    have hsouth := (h _ (hmem 0 1 (by decide) (by decide) (by decide) (by decide) (by decide))).z
    dsimp only at hwest heast hnorth hsouth
    omega
  · rintro ⟨hx, hz⟩
    refine .flatMap fun dx hdx => .flatMap fun dz hdz => .ite (fun _ => .cons ?_ .nil) fun _ => .nil
    have := mem_span.1 hdx
    have := mem_span.1 hdz
    exact inWorld (by omega) hs (by omega)

theorem inWorld_plants {biome : BiomeId} {bits : BitVec 64} {x z surface : Int} (hx : Inside x)
    (hz : Inside z) (hs : -60 ≤ surface ∧ surface ≤ 300) (hbiome : biome ≠ .jungle) :
    AllInWorld (plants biome bits x z surface) := by
  have hone : ∀ id : BlockId, AllInWorld [⟨x, surface + 1, z, id⟩] :=
    fun id => .cons (inWorld hx (by omega) hz) .nil
  unfold plants
  split
  all_goals first
    | exact hone _
    | exact .ite (fun _ => hone _) fun _ => .nil
    | exact .nil
    | exact absurd rfl hbiome

/-- The plants of a jungle may be melons. -/
theorem inWorld_plants_iff {biome : BiomeId} {bits : BitVec 64} {x z surface : Int} (hx : Inside x)
    (hz : Inside z) (hs : -60 ≤ surface ∧ surface ≤ 300) :
    AllInWorld (plants biome bits x z surface) ↔
      (biome = .jungle → multipleOf bits 50 → (1 ≤ x ∧ x ≤ 14) ∧ 1 ≤ z ∧ z ≤ 14) := by
  by_cases hbiome : biome = .jungle
  · subst hbiome
    have hfern : (⟨x, surface + 1, z, if multipleOf bits 3 then FERN else SHORT_GRASS⟩ : Write).InWorld :=
      inWorld hx (by omega) hz
    have hmelons : AllInWorld (melonPatch x z surface) ↔ _ := inWorld_melonPatch_iff (by omega)
    rw [← hmelons]
    unfold plants
    constructor
    · intro h _ hmelon
      rw [if_pos hmelon] at h
      exact (List.forall_mem_cons.1 h).2
    · exact fun h => .cons hfern (.ite (fun hmelon => h rfl hmelon) fun _ => .nil)
  · exact iff_of_true (inWorld_plants hx hz hs hbiome) fun h => absurd h hbiome

end Overworld

/-! ## Structures by the height of the ground -/

section Heights

variable {base x z surface : Int}

theorem inWorld_house (hbase : -64 ≤ base ∧ base ≤ 316) (at' : Int × Int × Int × Int) :
    AllInWorld (house base at') := by
  obtain ⟨hx, hz, w, d⟩ := at'
  refine .append (.append ?_ (.flatMap fun fy hfy => ?_)) (.clip (by omega))
  · exact .flatMap fun fx _ => .flatMap fun fz _ => .clip (by omega)
  · have := mem_span.1 hfy
    exact .append (.append (.append (.clip (by omega)) (.clip (by omega))) (.clip (by omega)))
      (.clip (by omega))

theorem inWorld_village (hbase : -64 ≤ base ∧ base ≤ 316) : AllInWorld (village base) := by
  refine .append (.append (.append (.append (.append ?_ ?_) ?_) ?_) ?_) ?_
  · refine .cons ?_ (.cons ?_ (.cons ?_ .nil))
    all_goals exact inWorld (by omega) (by omega) (by omega)
  · exact .flatMap fun dx _ => .flatMap fun dz _ => .clip (by omega)
  · exact .flatMap fun at' _ => inWorld_house hbase at'
  · exact .flatMap fun dx _ => .clip (by omega)
  · exact .flatMap fun dz _ => .clip (by omega)
  · refine .flatMap fun wx _ => .flatMap fun wy hwy => .ite (fun _ => .clip ?_) fun _ => .nil
    have := mem_span.1 hwy
    omega

/-- A shipwreck lies at the height of the ground, wherever that is. -/
theorem inWorld_shipwreck_iff : AllInWorld (shipwreck base) ↔ -64 ≤ base ∧ base ≤ 318 := by
  have hmem : ∀ w ∈ ([⟨6, base, 5, 13⟩, ⟨6, base + 1, 5, 34⟩] : List Write), w ∈ shipwreck base := by
    intro w hw
    refine List.mem_flatMap.2 ⟨6, mem_span.2 (by decide), List.mem_flatMap.2 ⟨5, mem_span.2 (by decide), ?_⟩⟩
    exact hw
  constructor
  · intro h
    obtain ⟨hplank, hrest⟩ := List.forall_mem_cons.1 fun w hw => h w (hmem w hw)
    have hlog := (List.forall_mem_singleton.1 hrest).y
    have hlow := hplank.y
    dsimp only at hlow hlog
    omega
  · intro hbase
    refine .flatMap fun dx _ => .flatMap fun dz _ => .append (.clip (by omega)) ?_
    exact .ite (fun _ => .clip (by omega)) fun _ => .nil

theorem inWorld_ruinedPortal (hbase : -64 ≤ base ∧ base ≤ 316) : AllInWorld (ruinedPortal base) := by
  refine .append (.flatMap fun dx _ => .flatMap fun dy hdy => .flatMap fun s _ => .clip ?_) ?_
  · have := mem_span.1 hdy
    omega
  · exact .cons (inWorld (by omega) (by omega) (by omega)) .nil

theorem inWorld_outpost : AllInWorld (outpost x z surface) := by
  refine .flatMap fun dy _ => .ite (fun hy => ?_) fun _ => .nil
  refine .flatMap fun dx _ => .flatMap fun dz _ => ?_
  split
  · exact .clip (by omega)
  · exact .nil

theorem inWorld_mansion : AllInWorld (mansion x z surface) := by
  refine .flatMap fun dx _ => .flatMap fun dz _ => .flatMap fun dy _ => .ite (fun hy => ?_) fun _ => .nil
  split
  · exact .clip (by omega)
  · exact .nil

theorem inWorld_fossil (hbase : -64 ≤ base ∧ base ≤ 319) : AllInWorld (fossil x base z) := by
  refine .flatMap fun dx _ => .append (.append (.clip hbase) ?_) ?_
  · exact .ite (fun _ => .flatMap fun dz _ => .clip hbase) fun _ => .nil
  · exact .ite (fun _ => .flatMap fun dz _ => .clip hbase) fun _ => .nil

theorem inWorld_trailRuins : AllInWorld (trailRuins x base z) := by
  refine .flatMap fun dx _ => .flatMap fun dz _ => .flatMap fun dy _ => ?_
  exact .ite (fun hy => .clip (by omega)) fun _ => .nil

end Heights

/-! ## Structures at fixed heights -/

theorem inWorld_desertTemple : AllInWorld desertTemple := by
  refine .append (.append (.flatMap fun fx hfx => .map fun fz hfz => ?_) ?_) ?_
  · have := mem_span.1 hfx
    have := mem_span.1 hfz
    exact inWorld (by omega) (by omega) (by omega)
  · refine .flatMap fun wy hwy => .flatMap fun wx hwx => ?_
    have := mem_span.1 hwy
    have := mem_span.1 hwx
    refine .cons ?_ (.cons ?_ .nil)
    all_goals exact inWorld (by omega) (by omega) (by omega)
  · refine .cons ?_ (.cons ?_ .nil)
    all_goals exact inWorld (by omega) (by omega) (by omega)

theorem inWorld_swampHut : AllInWorld swampHut := by
  refine .append (.flatMap fun fx hfx => .map fun fz hfz => ?_) (.flatMap fun wy hwy => .flatMap fun wx hwx => ?_)
  · have := mem_span.1 hfx
    have := mem_span.1 hfz
    exact inWorld (by omega) (by omega) (by omega)
  · have := mem_span.1 hwy
    have := mem_span.1 hwx
    refine .ite (fun _ => .cons ?_ (.cons ?_ .nil)) fun _ => .nil
    all_goals exact inWorld (by omega) (by omega) (by omega)

theorem inWorld_igloo : AllInWorld igloo := by
  refine .append (.append (.flatMap fun fx hfx => .map fun fz hfz => ?_) (.flatMap fun wy hwy => ?_)) ?_
  · have := mem_span.1 hfx
    have := mem_span.1 hfz
    exact inWorld (by omega) (by omega) (by omega)
  · have := mem_span.1 hwy
    refine .cons ?_ (.cons ?_ .nil)
    all_goals exact inWorld (by omega) (by omega) (by omega)
  · exact .cons (inWorld (by omega) (by omega) (by omega)) .nil

theorem inWorld_jungleTemple : AllInWorld jungleTemple := by
  refine .append (.flatMap fun x hx => .flatMap fun z hz => .map fun y hy => ?_) ?_
  · have := mem_span.1 hx
    have := mem_span.1 hz
    have := mem_span.1 hy
    exact inWorld (by omega) (by omega) (by omega)
  · refine .cons ?_ (.cons ?_ (.cons ?_ (.cons ?_ .nil)))
    all_goals exact inWorld (by omega) (by omega) (by omega)

theorem inWorld_oceanMonument : AllInWorld oceanMonument := by
  refine .append (.flatMap fun x hx => .flatMap fun z hz => .flatMap fun y hy => ?_) ?_
  · have := mem_span.1 hx
    have := mem_span.1 hz
    have := mem_span.1 hy
    exact .ite (fun _ => .cons (inWorld (by omega) (by omega) (by omega)) .nil) fun _ => .nil
  · refine .cons ?_ (.cons ?_ (.cons ?_ (.cons ?_ .nil)))
    all_goals exact inWorld (by omega) (by omega) (by omega)

theorem inWorld_mineshaftBeams : AllInWorld mineshaftBeams := by
  refine .append (.flatMap fun dx hdx => ?_) (.cons ?_ .nil)
  · have : ∀ dx ∈ ([0, 5, 10, 15] : List Int), Inside dx := by decide
    have := this dx hdx
    refine .cons ?_ (.cons ?_ (.cons ?_ .nil))
    all_goals exact inWorld (by omega) (by omega) (by omega)
  · exact inWorld (by omega) (by omega) (by omega)

theorem inWorld_trialChambers : AllInWorld trialChambers := by
  refine .append (.flatMap fun dx hdx => .flatMap fun dz hdz => .flatMap fun dy hdy => ?_) ?_
  · have := mem_span.1 hdx
    have := mem_span.1 hdz
    have := mem_span.1 hdy
    exact .ite (fun _ => .cons (inWorld (by omega) (by omega) (by omega)) .nil) fun _ => .nil
  · refine .cons ?_ (.cons ?_ (.cons ?_ (.cons ?_ .nil)))
    all_goals exact inWorld (by omega) (by omega) (by omega)

theorem inWorld_ancientChamber : AllInWorld ancientChamber := by
  refine .flatMap fun dx hdx => .flatMap fun dz hdz => .map fun dy hdy => ?_
  have := mem_span.1 hdx
  have := mem_span.1 hdz
  have := mem_span.1 hdy
  exact inWorld (by omega) (by omega) (by omega)

/-- A structure of one biome lies where its calls do. -/
theorem inWorld_placeIn {biome : BiomeId} {n : Nat} {bits : BitVec 64} {ws : List Write} {pos : ChunkPos}
    {seed : BitVec 64} (hws : AllInWorld ws) : AllInWorld (placeIn biome n bits ws pos seed) :=
  .ite (fun _ => .nil) fun _ => .ite (fun _ => .nil) fun _ => hws

/-! ## The ground of the overworld -/

namespace NoiseGenerator

theorem inWorld_column {biome : BiomeId} {surface x z : Int} (hx : Inside x) (hz : Inside z)
    (hs : -64 ≤ surface ∧ surface ≤ 255) : AllInWorld (column biome surface x z) := by
  refine .append (.append (.cons (inWorld hx (by omega) hz) .nil) (.map fun y hy => ?_)) ?_
  · have := mem_span.1 hy
    exact inWorld hx (by omega) hz
  · exact .ite (fun _ => .cons (inWorld hx (by omega) hz) .nil) fun _ => .nil

theorem inWorld_ground (heightAt : HeightFn) (pos : ChunkPos) (seed : BitVec 64) :
    AllInWorld (ground heightAt pos seed) := by
  refine .columns fun x z hx hz => inWorld_column hx hz ?_
  unfold surfaceAt
  omega

theorem inWorld_caves {F Table : Type} (h : Host F Table) (cave : Table) (pos : ChunkPos) :
    AllInWorld (caves h cave pos) := by
  refine .columns fun x z hx hz => .flatMap fun y hy => ?_
  have := mem_span.1 hy
  exact .ite (fun _ => .cons (inWorld hx (by omega) hz) .nil) fun _ => .nil

end NoiseGenerator

/-! ## The nether and the end -/

section

variable {pos : ChunkPos} {seed : BitVec 64} {x z : Int}

theorem inWorld_netherColumn (hx : Inside x) (hz : Inside z) : AllInWorld (netherColumn pos seed x z) := by
  refine .append (.append (.append (.append ?_ (.map fun y hy => ?_)) ?_) ?_) ?_
  · exact .cons (inWorld hx (by omega) hz) (.cons (inWorld hx (by omega) hz) .nil)
  · have := mem_span.1 hy
    exact inWorld hx (by omega) hz
  · refine .ite (fun _ => .map fun y hy => ?_) fun _ => .nil
    have := mem_span.1 hy
    exact inWorld hx (by omega) hz
  · refine .ite (fun _ => .map fun y hy => ?_) fun _ => .nil
    have := mem_span.1 hy
    exact inWorld hx (by omega) hz
  · exact .ite (fun _ => .cons (inWorld hx (by omega) hz) .nil) fun _ => .nil

theorem inWorld_netherFortress : AllInWorld netherFortress := by
  refine .flatMap fun x hx => .flatMap fun z hz => ?_
  have := mem_span.1 hx
  have := mem_span.1 hz
  refine .append (.flatMap fun y hy => ?_) (.ite (fun _ => .map fun y hy => ?_) fun _ => .nil)
  · have := mem_span.1 hy
    exact .ite (fun _ => .cons (inWorld (by omega) (by omega) (by omega)) .nil) fun _ => .nil
  · have := mem_span.1 hy
    exact inWorld (by omega) (by omega) (by omega)

theorem inWorld_placeNetherFortress : AllInWorld (placeNetherFortress pos seed) :=
  .ite (fun _ => .nil) fun _ => .ite (fun _ => .nil) fun _ => inWorld_netherFortress

theorem inWorld_bastionColumn {F : Type} {fl : Floats F} {base lx lz dx dz : Int} (hx : Inside lx)
    (hz : Inside lz) : AllInWorld (bastionColumn fl base lx lz dx dz) := by
  refine .flatMap fun dy _ => .ite (fun hy => ?_) fun _ => .nil
  have hin : ∀ id : BlockId, AllInWorld [⟨lx, base + dy, lz, id⟩] :=
    fun id => .cons (inWorld hx (by omega) hz) .nil
  exact .ite (fun _ => hin _) fun _ => .ite (fun _ => hin _) fun _ => .ite (fun _ => hin _) fun _ => .nil

theorem inWorld_endColumn {F Table : Type} {h : Host F Table} (hx : Inside x) (hz : Inside z)
    (hland : -64 ≤ highland h (world pos.x x) (world pos.z z) + 5 ∧
      highland h (world pos.x x) (world pos.z z) ≤ 309) : AllInWorld (endColumn h pos x z) := by
  refine .ite (fun _ => .append (.map fun y hy => ?_) (.ite (fun _ => .map fun y hy => ?_) fun _ => .nil))
    fun _ => .ite (fun _ => .append (.flatMap fun y _ => ?_) (.ite (fun _ => .append (.map fun y hy => ?_) ?_)
      fun _ => .nil)) fun _ => .nil
  · have := mem_span.1 hy
    exact inWorld hx (by omega) hz
  · have := mem_span.1 hy
    exact inWorld hx (by omega) hz
  · exact .ite (fun hy => .cons (inWorld hx (by omega) hz) .nil) fun _ => .nil
  · have := mem_span.1 hy
    exact inWorld hx (by omega) hz
  · exact .cons (inWorld hx (by omega) hz) .nil

theorem inWorld_endCity : AllInWorld endCity := by
  refine .append (.flatMap fun x hx => .flatMap fun z hz => ?_)
    (.cons (inWorld (by omega) (by omega) (by omega)) .nil)
  have := mem_span.1 hx
  have := mem_span.1 hz
  refine .append (.flatMap fun y hy => ?_) (.ite (fun _ => .map fun y hy => ?_) fun _ => .nil)
  · have := mem_span.1 hy
    exact .ite (fun _ => .cons (inWorld (by omega) (by omega) (by omega)) .nil) fun _ => .nil
  · have := mem_span.1 hy
    exact inWorld (by omega) (by omega) (by omega)

theorem inWorld_placeEndCity {F : Type} {fl : Floats F} : AllInWorld (placeEndCity fl pos) :=
  .ite (fun _ => .nil) fun _ => .ite (fun _ => .nil) fun _ => inWorld_endCity

end

end Apoptotic.Terrain
