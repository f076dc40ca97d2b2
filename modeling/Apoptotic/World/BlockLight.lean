import Apoptotic.Lib.FloodField
import Apoptotic.World.Relighting

/-!
# Block light as a distance field

What `init_chunk_lighting` of `mc-world/src/lighting.rs` makes of the block light of a chunk, beside
the field that the sources would have: at every spot the most that a source leaves there, which is
its emission less the steps to the spot through transparent blocks.

Principal results: `blockLevel_of_emission` — the block that burns stays dark itself;
`isGreatest_of_equallyBright` — around sources of one strength block light is the field; `isField_iff` — it is
the field everywhere exactly in chunks without a source.
-/

namespace Apoptotic

open Flood

/-! ## The field -/

/-- A path of `k` steps from `p` inside the chunk, through transparent blocks after `p`. -/
inductive LightPath (s : Sections) (p : Spot) : Spot → Nat → Prop where
  | here : LightPath s p p 0
  | step {q r : Spot} {k : Nat} (h : LightPath s p q k) (hnext : r ∈ q.neighbors)
      (hclear : transparentAt s r = true) : LightPath s p r (k + 1)

/-- What the sources leave at a spot, along all paths, and 0. -/
def leftAt (s : Sections) (q : Spot) : Set Nat :=
  {n | n = 0 ∨ ∃ p k, 0 < (emissionAt s p).val ∧ LightPath s p q k ∧ n = (emissionAt s p).val - k}

/-- The block light of every spot is the most that the sources leave there. -/
def IsField (s : Sections) : Prop := ∀ q, IsGreatest (leftAt s q) (blockLevel s q).val

/-- The sections after `init_chunk_lighting`. -/
def ReachableChunk.initLighting (c : ReachableChunk) : Sections :=
  initChunkLighting c.chunk.sections

/-- No block of the chunk emits light. -/
def Unlit (c : ReachableChunk) : Prop := ∀ p, (emissionAt c.chunk.sections p).val = 0

theorem emissionAt_initChunkLighting (s : Sections) (p : Spot) :
    emissionAt (initChunkLighting s) p = emissionAt s p := by
  unfold emissionAt
  rw [blockAt_initChunkLighting]

/-! ## Around the sources -/

/-- All the sources burn equally bright. -/
def EquallyBright (s : Sections) (e : Fin 16) : Prop := ∀ p, 0 < (emissionAt s p).val → emissionAt s p = e

/-- The blocks decide how light goes. -/
theorem walk_iff_lightPath {s s' : Sections} (h : ∀ p, blockAt s' p = blockAt s p) {p q : Spot}
    {k : Nat} : Walk blockLightGrid s p q k ↔ LightPath s' p q k := by
  constructor
  · intro hwalk
    induction hwalk with
    | here => exact .here
    | step _ hnext hpass ih => exact .step ih hnext ((transparentAt_congr (h _)).trans hpass)
  · intro hpath
    induction hpath with
    | here => exact .here
    | step _ hnext hclear ih => exact .step ih hnext ((transparentAt_congr (h _)).symm.trans hclear)

theorem emitters_of_equallyBright {s : Sections} {e : Fin 16} (h : EquallyBright s e) :
    ((emitters s).map Prod.fst).map (fun p => (p, e)) = emitters s := by
  rw [List.map_map]
  refine (List.map_congr_left fun node hnode => ?_).trans (List.map_id _)
  obtain ⟨p, _, hp⟩ := List.mem_filterMap.1 hnode
  split at hp
  · rename_i hpos
    cases hp
    exact congrArg (Prod.mk p) (h p hpos).symm
  · cases hp

/-- **Off the sources block light is their field, where all burn equally bright.** -/
theorem isGreatest_of_equallyBright {s : Sections} {e : Fin 16} (h : EquallyBright s e) {q : Spot}
    (hq : (emissionAt s q).val = 0) :
    IsGreatest (leftAt (initChunkLighting s) q) (blockLevel (initChunkLighting s) q).val := by
  have hdark : ∀ p, (blockLightGrid.level (clearLight s) p).val = 0 := fun p =>
    congrArg Fin.val (blockLevel_clearLight s p)
  have hnot : q ∉ (emitters s).map Prod.fst := by
    rw [mem_map_emitters, hq]
    exact Nat.lt_irrefl 0
  have hfield := flood_field blockLightGrid ((emitters s).map Prod.fst) e hdark hnot
  have hblocks : ∀ p, blockAt (initChunkLighting s) p = blockAt (clearLight s) p := fun p =>
    (blockAt_initChunkLighting s p).trans (blockAt_clearLight s p).symm
  have hsame : remainders blockLightGrid ((emitters s).map Prod.fst) e.val (clearLight s) q =
      leftAt (initChunkLighting s) q := by
    ext m
    unfold remainders leftAt
    simp only [mem_map_emitters, walk_iff_lightPath hblocks, emissionAt_initChunkLighting]
    refine or_congr_right (exists_congr fun p => ⟨?_, ?_⟩)
    · rintro ⟨hpos, k, hpath, hm⟩
      exact ⟨k, hpos, hpath, by rw [h p hpos]; exact hm⟩
    · rintro ⟨k, hpos, hpath, hm⟩
      exact ⟨hpos, k, hpath, by rw [← h p hpos]; exact hm⟩
  rw [emitters_of_equallyBright h, hsame] at hfield
  rw [blockLevel_initChunkLighting]
  unfold propagateBlockLight
  rw [emitters_congr (blockAt_clearLight s)]
  exact hfield

/-! ## The sources themselves -/

/-- A source is visited from the start, so the flood does not write its level. -/
theorem blockLevel_of_emission {s : Sections} {p : Spot} (h : 0 < (emissionAt s p).val) :
    blockLevel (initChunkLighting s) p = NO_LIGHT := by
  have hblocks := blockAt_clearLight s
  have hsource : p ∈ (emitters (clearLight s)).map Prod.fst := by
    rw [emitters_congr hblocks, mem_map_emitters]
    exact h
  obtain ⟨_, hext⟩ := extends_run blockLightGrid
    ⟨((emitters (clearLight s)).map Prod.fst).toFinset, emitters (clearLight s), clearLight s⟩
  rw [blockLevel_initChunkLighting]
  exact (hext.level p (List.mem_toFinset.2 hsource)).trans (blockLevel_clearLight s p)

/-- A source leaves its emission at its own spot, where the flood writes nothing. -/
theorem not_isField_of_emission {s : Sections} {p : Spot} (h : 0 < (emissionAt s p).val) :
    ¬ IsField (initChunkLighting s) := by
  intro hfield
  have hown : (emissionAt s p).val ∈ leftAt (initChunkLighting s) p := by
    refine Or.inr ⟨p, 0, ?_, .here, ?_⟩
    · rw [emissionAt_initChunkLighting]
      exact h
    · rw [emissionAt_initChunkLighting]
      rfl
  have hle := (hfield p).2 hown
  rw [blockLevel_of_emission h] at hle
  exact Nat.not_le_of_lt h hle

/-- **Block light is the field of the sources** exactly in the chunks that have none. -/
theorem isField_iff (c : ReachableChunk) : IsField c.initLighting ↔ Unlit c := by
  unfold ReachableChunk.initLighting
  constructor
  · intro h p
    by_contra hsource
    exact not_isField_of_emission (Nat.pos_of_ne_zero hsource) h
  · intro h q
    have hbright : EquallyBright c.chunk.sections NO_LIGHT := fun p hpos => by
      rw [h p] at hpos
      exact absurd hpos (Nat.lt_irrefl 0)
    exact isGreatest_of_equallyBright hbright (h q)

/-- **The block of a lamp is dark.** -/
theorem not_forall_isField : ¬ ∀ c : ReachableChunk, IsField c.initLighting := by
  intro hall
  let p : Spot := ⟨⟨8, by decide⟩, ⟨128, by decide⟩, ⟨8, by decide⟩⟩
  have hid := @LitChunk.id_blockAt_set emptyLit p (BlockState.new 130#32) (by decide)
  obtain ⟨b, hb, hb'⟩ := Option.map_eq_some_iff.1 hid
  have hemits : 0 < (emissionAt (emptyLit.set p (BlockState.new 130#32)) p).val := by
    unfold emissionAt
    rw [hb]
    change 0 < (EMISSIONS.lookup b.id.toNat).getD 0 % 16
    rw [hb']
    decide
  exact not_isField_of_emission hemits
    (hall (emptyLit.chunk.setBlock p.x p.z p.height (BlockState.new 130#32)))

end Apoptotic
