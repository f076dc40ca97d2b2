import Apoptotic.Lib.Census
import Apoptotic.World.Sites

/-!
# Pistons

What a piston does to the chunks when `RedstoneEngine::tick` of `mc-world/src/redstone.rs` handles
it.  A piston should move a block one cell along its axis: with power the block in front one cell
further, and a sticky piston without power the block beyond its front one cell back.

Principal results: `moves_iff` — a piston does so unless it is sticky and loses its power with a
block to pull back, or takes the block behind it across a chunk border; `pull_far` — that block ends
sixteen cells behind the piston.
-/

namespace Apoptotic.Redstone

open Census

/-! ## Handling a piston -/

def PISTON_ID : Nat := 137

def STICKY_PISTON_ID : Nat := 138

/-- The part of the propagation that handles a piston. -/
def handlePiston (w : World) (p d : Pos) (id effective : Nat) : World :=
  let w := if id ∈ [137, 138] ∧ 0 < effective then extend w p d else w
  if id = 138 ∧ effective = 0 then pull w p d else w

/-- A piston reacts by being handled. -/
theorem react_of_piston {id : Nat} (h : id ∈ [137, 138]) (s : State) (p : Pos) (effective : Nat)
    (signals : SignalMap) : react s p id effective signals =
      handlePiston s.world p (detectPistonFacing signals p) id effective := by
  have hbulb : ¬ bulbToggles s p id effective := by
    rintro ⟨hlit, _⟩
    revert hlit
    simp only [List.mem_cons, List.not_mem_nil, or_false] at h
    rcases h with rfl | rfl <;> decide
  unfold react
  exact if_neg hbulb

/-- A piston in a world, with the direction it faces. -/
structure Piston where
  blocks : Blocks
  position : Pos
  sticky : Bool
  there : idAt blocks.world position = some (if sticky then 138#32 else 137#32)
  facing : Pos
  cardinal : facing ∈ pistonDirs

namespace Piston

variable (pi : Piston)

def id : Nat := if pi.sticky then STICKY_PISTON_ID else PISTON_ID

def front : Pos := pi.position + pi.facing

def beyond : Pos := pi.front + pi.facing

def behind : Pos := pi.position - pi.facing

/-- The world after the piston is handled. -/
def handled (power : Nat) : World :=
  handlePiston pi.blocks.world pi.position pi.facing pi.id power

end Piston

/-! ## Moving a block -/

/-- A block that a piston moves. -/
def Movable (w : World) (p : Pos) : Prop := ∃ id, idOf w p = some id ∧ id ≠ 0#32 ∧ id ≠ 266#32

/-- Room for a block. -/
def Free (w : World) (p : Pos) : Prop := idOf w p = some 0#32

/-- The block at `a` has moved to `b`, and nothing else has changed. -/
structure Moved (w w' : World) (a b : Pos) : Prop where
  arrived : idOf w' b = idOf w a
  left : Free w' a
  still : ∀ c, siteOf a ≠ some c → siteOf b ≠ some c → idIn w' c = idIn w c

/-- The same blocks. -/
def Same (w w' : World) : Prop := ∀ c, idIn w' c = idIn w c

/-- The positions in line with a piston. -/
def along (p d : Pos) (k : BitVec 32) : Pos := ⟨p.x + k * d.x, p.y + k * d.y, p.z + k * d.z⟩

def axis (p d : Pos) : Set Site := {c | ∃ k, siteOf (along p d k) = some c}

/-- What a piston should do: only cells of its axis change, which hold the same blocks as before,
    and a block moves one cell: the one in front away from the piston with power, the one beyond
    the front towards a sticky piston without power. -/
structure Moves (pi : Piston) (power : Nat) : Prop where
  off_axis : ∀ c, c ∉ axis pi.position pi.facing → idIn (pi.handled power) c = idIn pi.blocks.world c
  conserved : ∀ id, id ≠ 0#32 → census (axis pi.position pi.facing) (idIn (pi.handled power)) id =
    census (axis pi.position pi.facing) (idIn pi.blocks.world) id
  push : 0 < power → Movable pi.blocks.world pi.front → Free pi.blocks.world pi.beyond →
    Moved pi.blocks.world (pi.handled power) pi.front pi.beyond
  pull : power = 0 → pi.sticky = true → Movable pi.blocks.world pi.beyond →
    Free pi.blocks.world pi.front → Moved pi.blocks.world (pi.handled power) pi.beyond pi.front
  blocked : (0 < power → ¬ (Movable pi.blocks.world pi.front ∧ Free pi.blocks.world pi.beyond)) →
    (power = 0 → pi.sticky = true →
      ¬ (Movable pi.blocks.world pi.beyond ∧ Free pi.blocks.world pi.front)) →
    Same pi.blocks.world (pi.handled power)

/-! ## Pushing -/

theorem extend_of_not {w : World} {p d : Pos} (h : ¬ (Movable w (p + d) ∧ Free w (p + d + d))) :
    extend w p d = w := by
  unfold extend
  dsimp only
  cases hy : height? (p + d).y with
  | none => rfl
  | some fy =>
      cases hchunk : w (chunkOf (p + d)) with
      | none => rfl
      | some chunk =>
          dsimp only
          split
          · rfl
          · rename_i hmovable
            cases hy' : height? (p + d + d).y with
            | none => rfl
            | some b =>
                cases hchunk' : w (chunkOf (p + d + d)) with
                | none => rfl
                | some destination =>
                    dsimp only
                    refine if_neg fun hair => h ⟨⟨_, idOf_eq_some.2 ⟨fy, chunk, hy, hchunk, rfl⟩,
                      ?_, ?_⟩, idOf_eq_some.2 ⟨b, destination, hy', hchunk', ?_⟩⟩
                    · intro hzero
                      exact hmovable (.inl (beq_iff_eq.2 hzero))
                    · intro hbedrock
                      exact hmovable (.inr hbedrock)
                    · exact beq_iff_eq.1 hair

/-- **With power the block in front moves one cell further.** -/
theorem moved_extend {w : World} (hw : Registered w) {p d : Pos} (hne : p + d + d ≠ p + d)
    (hmovable : Movable w (p + d)) (hfree : Free w (p + d + d)) :
    Moved w (extend w p d) (p + d) (p + d + d) := by
  obtain ⟨id, hid, hair, hbedrock⟩ := hmovable
  obtain ⟨fy, chunk, hy, hchunk, rfl⟩ := idOf_eq_some.1 hid
  obtain ⟨b, destination, hy', hchunk', hroom⟩ := idOf_eq_some.1 hfree
  have hextend : extend w p d =
      setIn (setIn w (chunkOf (p + d + d)) (p + d + d) b (blockIn chunk (p + d)))
        (chunkOf (p + d)) (p + d) fy BlockState.AIR := by
    have hpushed : ¬ (isAir (blockIn chunk (p + d)) ∨ (blockIn chunk (p + d)).id = 266#32) := by
      rintro (hzero | hbed)
      · exact hair (beq_iff_eq.1 hzero)
      · exact hbedrock hbed
    unfold extend
    dsimp only
    rw [hy, hchunk]
    dsimp only
    rw [if_neg hpushed, hy', hchunk']
    exact if_pos (beq_iff_eq.2 hroom)
  have hfront := siteOf_of_height? hy
  have hbeyond := siteOf_of_height? hy'
  have hfits := registered_idOf hw hid
  have hinner := hw.setIn (chunkOf (p + d + d)) (p + d + d) b hfits
  have hafter : ∀ c, idIn (extend w p d) c = _ := fun c => by
    rw [hextend, idIn_setIn hinner _ _ _ air_registered, idIn_setIn hw _ _ _ hfits]
  have hsites : (⟨chunkOf (p + d + d), low (p + d + d).x, b, low (p + d + d).z⟩ : Site) ≠
      ⟨chunkOf (p + d), low (p + d).x, fy, low (p + d).z⟩ := by
    intro hsame
    rw [hsame] at hbeyond
    exact hne (siteOf_inj hbeyond hfront)
  refine ⟨?_, ?_, fun c hc hc' => ?_⟩
  · rw [hid, idOf_of_siteOf hbeyond, hafter, if_neg hsites, if_pos rfl,
      ← idOf_of_siteOf hbeyond, hfree]
    rfl
  · unfold Free
    rw [idOf_of_siteOf hfront, hafter, if_pos rfl, if_neg hsites.symm, ← idOf_of_siteOf hfront,
      hid]
    rfl
  · rw [hafter, if_neg, if_neg]
    · rintro rfl
      exact hc' hbeyond
    · rintro rfl
      exact hc hfront

/-! ## Pulling -/

/-- The cell with the piston's own place in the chunk of the block behind it. -/
def mirror (p d : Pos) (y : Height) : Site := ⟨chunkOf (p - d), low p.x, y, low p.z⟩

/-- A depowered sticky piston at `p` takes the block behind it. -/
def Pulls (w : World) (p d : Pos) : Prop :=
  ∃ y, height? p.y = some y ∧ Movable w (p - d) ∧ idIn w (mirror p d y) = some 0#32

theorem pull_of_not {w : World} {p d : Pos} (h : ¬ Pulls w p d) : pull w p d = w := by
  unfold pull
  dsimp only
  cases hb : height? (p - d).y with
  | none => rfl
  | some b =>
      cases hchunk : w (chunkOf (p - d)) with
      | none => rfl
      | some chunk =>
          dsimp only
          split
          · rfl
          · rename_i hmovable
            cases hy : height? p.y with
            | none => rfl
            | some y =>
                refine absurd ⟨y, hy, ⟨_, idOf_eq_some.2 ⟨b, chunk, hb, hchunk, rfl⟩, ?_, ?_⟩, ?_⟩ h
                · intro hzero
                  exact hmovable (.inl (beq_iff_eq.2 hzero))
                · intro hbedrock
                  exact hmovable (.inr (.inl hbedrock))
                · have hair : isAir (blockIn chunk p) = true := by
                    by_contra hair
                    exact hmovable (.inr (.inr hair))
                  rw [blockIn_of_height? hy] at hair
                  unfold idIn mirror
                  dsimp only
                  rw [hchunk, Option.map_some, beq_iff_eq.1 hair]

/-- What a pull does: the block behind goes to the mirror cell. -/
theorem idIn_pull {w : World} (hw : Registered w) {p d : Pos} {y : Height}
    (hy : height? p.y = some y) (hmovable : Movable w (p - d))
    (hmirror : idIn w (mirror p d y) = some 0#32) :
    ∃ c, siteOf (p - d) = some c ∧ c ≠ mirror p d y ∧ ∀ c', idIn (pull w p d) c' =
      if c' = c then some 0#32 else if c' = mirror p d y then idOf w (p - d) else idIn w c' := by
  obtain ⟨id, hid, hair, hbedrock⟩ := hmovable
  obtain ⟨b, chunk, hb, hchunk, rfl⟩ := idOf_eq_some.1 hid
  have hsite := siteOf_of_height? hb
  have hid' := hid
  rw [idOf_of_siteOf hsite] at hid'
  have hne : (⟨chunkOf (p - d), low (p - d).x, b, low (p - d).z⟩ : Site) ≠ mirror p d y := by
    intro hsame
    rw [hsame, hmirror] at hid'
    exact hair (Option.some.inj hid').symm
  refine ⟨_, hsite, hne, fun c' => ?_⟩
  have hroom : isAir (blockIn chunk p) = true := by
    have hmirror' := hmirror
    unfold idIn mirror at hmirror'
    dsimp only at hmirror'
    rw [hchunk, Option.map_some, Option.some.injEq] at hmirror'
    rw [blockIn_of_height? hy]
    exact beq_iff_eq.2 hmirror'
  have hpulled : ¬ (isAir (blockIn chunk (p - d)) ∨ (blockIn chunk (p - d)).id = 266#32 ∨
      ¬ isAir (blockIn chunk p)) := by
    rintro (hzero | hbed | hfull)
    · exact hair (beq_iff_eq.1 hzero)
    · exact hbedrock hbed
    · exact hfull hroom
  have hpull : pull w p d = setIn (setIn w (chunkOf (p - d)) p y (blockIn chunk (p - d)))
      (chunkOf (p - d)) (p - d) b BlockState.AIR := by
    unfold pull
    dsimp only
    rw [hb, hchunk]
    dsimp only
    rw [if_neg hpulled, hy]
  have hfits := registered_idOf hw hid
  have hback : (⟨chunkOf (p - d), low p.x, y, low p.z⟩ : Site) = mirror p d y := rfl
  rw [hpull, idIn_setIn (hw.setIn _ _ _ hfits) _ _ _ air_registered, idIn_setIn hw _ _ _ hfits,
    hback]
  by_cases hc : c' = ⟨chunkOf (p - d), low (p - d).x, b, low (p - d).z⟩
  · subst hc
    rw [if_pos rfl, if_neg hne, if_pos rfl, hid']
    rfl
  · rw [if_neg hc, if_neg hc]
    by_cases hc' : c' = mirror p d y
    · subst hc'
      rw [if_pos rfl, if_pos rfl, hmirror, hid]
      rfl
    · rw [if_neg hc', if_neg hc']

/-! ## The axis -/

theorem along_one (p d : Pos) : along p d 1#32 = p + d := by
  simp [along, Pos.ext_iff]

theorem along_two (p d : Pos) : along p d 2#32 = p + d + d := by
  have htwo : ∀ a b : BitVec 32, a + 2#32 * b = a + b + b := fun a b => by bv_omega
  simp [along, Pos.ext_iff, htwo]

theorem mem_axis_of_along {p d q : Pos} {k : BitVec 32} {c : Site} (hq : along p d k = q)
    (hc : siteOf q = some c) : c ∈ axis p d := ⟨k, by rw [hq]; exact hc⟩

/-- A step along an axis leads to another position. -/
theorem step_ne {d : Pos} (hd : d ∈ pistonDirs) (p : Pos) : p + d ≠ p := by
  simp only [pistonDirs, List.mem_cons, List.not_mem_nil, or_false] at hd
  rcases hd with rfl | rfl | rfl | rfl | rfl | rfl <;> simp [Pos.ext_iff]

/-- The cell behind a piston is neither of the two before it. -/
theorem behind_ne {d : Pos} (hd : d ∈ pistonDirs) (p : Pos) : p - d ≠ p + d ∧ p - d ≠ p + d + d := by
  constructor
  · intro h
    obtain ⟨hx, hy, hz⟩ := Pos.ext_iff.1 h
    simp only [sub_x, sub_y, sub_z, add_x, add_y, add_z] at hx hy hz
    simp only [pistonDirs, List.mem_cons, List.not_mem_nil, or_false] at hd
    rcases hd with rfl | rfl | rfl | rfl | rfl | rfl <;> bv_omega
  · intro h
    obtain ⟨hx, hy, hz⟩ := Pos.ext_iff.1 h
    simp only [sub_x, sub_y, sub_z, add_x, add_y, add_z] at hx hy hz
    simp only [pistonDirs, List.mem_cons, List.not_mem_nil, or_false] at hd
    rcases hd with rfl | rfl | rfl | rfl | rfl | rfl <;> bv_omega

/-- A block that moves along the axis into an empty cell leaves the other cells and the blocks of the
    axis as they are. -/
theorem conserved_of_moved {w w' : World} {p d a b : Pos} (hm : Moved w w' a b) (hfree : Free w b)
    {k l : BitVec 32} (ha : along p d k = a) (hb : along p d l = b) :
    (∀ c, c ∉ axis p d → idIn w' c = idIn w c) ∧
      ∀ id, census (axis p d) (idIn w') id = census (axis p d) (idIn w) id := by
  obtain ⟨sa, hsa, hleft⟩ := Option.bind_eq_some_iff.1 hm.left
  obtain ⟨sb, hsb, hroom⟩ := Option.bind_eq_some_iff.1 hfree
  have harrived := hm.arrived
  rw [idOf_of_siteOf hsb, idOf_of_siteOf hsa] at harrived
  have hstill : ∀ c, c ≠ sa → c ≠ sb → idIn w' c = idIn w c := by
    intro c hca hcb
    apply hm.still c
    · rw [hsa]
      exact fun h => hca (Option.some.inj h).symm
    · rw [hsb]
      exact fun h => hcb (Option.some.inj h).symm
  have hina := mem_axis_of_along ha hsa
  have hinb := mem_axis_of_along hb hsb
  refine ⟨fun c hc => hstill c ?_ ?_, fun id => ?_⟩
  · rintro rfl
    exact hc hina
  · rintro rfl
    exact hc hinb
  · exact census_exchange hina hinb harrived (hleft.trans hroom.symm) hstill id

/-! ## What a piston does -/

namespace Piston

variable (pi : Piston)

theorem handled_push {power : Nat} (h : 0 < power) :
    pi.handled power = extend pi.blocks.world pi.position pi.facing := by
  have hid : pi.id ∈ [137, 138] := by
    unfold id
    split
    · simp [STICKY_PISTON_ID]
    · simp [PISTON_ID]
  unfold handled handlePiston
  dsimp only
  rw [if_neg fun hand => absurd hand.2 (Nat.pos_iff_ne_zero.1 h)]
  exact if_pos ⟨hid, h⟩

theorem handled_pull (h : pi.sticky = true) :
    pi.handled 0 = pull pi.blocks.world pi.position pi.facing := by
  have hid : pi.id = 138 := by
    unfold id
    rw [if_pos h]
    rfl
  unfold handled handlePiston
  dsimp only
  rw [if_pos ⟨hid, rfl⟩, if_neg fun hand => absurd hand.2 (Nat.lt_irrefl 0)]

theorem handled_rest (h : ¬ pi.sticky = true) : pi.handled 0 = pi.blocks.world := by
  have hid : pi.id = 137 := by
    unfold id
    rw [if_neg h]
    rfl
  unfold handled handlePiston
  dsimp only
  rw [if_neg fun hand => absurd (hid.symm.trans hand.1) (by decide)]
  exact if_neg fun hand => absurd hand.2 (Nat.lt_irrefl 0)

theorem front_along : along pi.position pi.facing 1#32 = pi.front := along_one _ _

theorem beyond_along : along pi.position pi.facing 2#32 = pi.beyond := along_two _ _

end Piston

/-- A piston with power does what it should. -/
theorem moves_of_power (pi : Piston) {power : Nat} (h : 0 < power) : Moves pi power := by
  have hhandled := pi.handled_push h
  by_cases hpush : Movable pi.blocks.world pi.front ∧ Free pi.blocks.world pi.beyond
  · have hmoved : Moved pi.blocks.world (pi.handled power) pi.front pi.beyond := by
      rw [hhandled]
      exact moved_extend pi.blocks.registered (step_ne pi.cardinal _) hpush.1 hpush.2
    obtain ⟨hoff, hsame⟩ :=
      conserved_of_moved hmoved hpush.2 pi.front_along pi.beyond_along
    exact ⟨hoff, fun id _ => hsame id, fun _ _ _ => hmoved, fun hzero => by omega,
      fun hnot => absurd hpush (hnot h)⟩
  · have hstay : pi.handled power = pi.blocks.world := hhandled.trans (extend_of_not hpush)
    rw [← hstay] at hpush
    refine ⟨fun c _ => by rw [hstay], fun id _ => by rw [hstay], fun _ hmovable hfree => ?_,
      fun hzero => by omega, fun _ _ c => by rw [hstay]⟩
    rw [hstay] at hpush
    exact absurd ⟨hmovable, hfree⟩ hpush

/-- A piston that leaves the chunks alone with nothing to pull does what it should. -/
theorem moves_of_still (pi : Piston) (hstill : pi.handled 0 = pi.blocks.world)
    (hnone : pi.sticky = true → ¬ (Movable pi.blocks.world pi.beyond ∧
      Free pi.blocks.world pi.front)) : Moves pi 0 := by
  refine ⟨fun c _ => by rw [hstill], fun id _ => by rw [hstill], fun h => by omega,
    fun _ hsticky hmovable hfree => ?_, fun _ _ c => by rw [hstill]⟩
  exact absurd ⟨hmovable, hfree⟩ (hnone hsticky)

/-- A sticky piston that takes the block behind it does not do what it should. -/
theorem not_pulls_of_moves {pi : Piston} (hsticky : pi.sticky = true) (h : Moves pi 0) :
    ¬ Pulls pi.blocks.world pi.position pi.facing := by
  intro hpulls
  obtain ⟨y, hy, hmovable, hmirror⟩ := hpulls
  obtain ⟨c, hc, _, hafter⟩ := idIn_pull pi.blocks.registered hy hmovable hmirror
  have hchanged : idIn (pi.handled 0) c ≠ idIn pi.blocks.world c := by
    obtain ⟨id, hid, hair, _⟩ := hmovable
    rw [pi.handled_pull hsticky, hafter, if_pos rfl, ← idOf_of_siteOf hc, hid]
    intro heq
    exact hair (Option.some.inj heq).symm
  obtain ⟨hfront, hbeyond⟩ := behind_ne pi.cardinal pi.position
  by_cases hpullable : Movable pi.blocks.world pi.beyond ∧ Free pi.blocks.world pi.front
  · refine hchanged ((h.pull rfl hsticky hpullable.1 hpullable.2).still c ?_ ?_)
    · intro hsite
      exact hbeyond (siteOf_inj hc hsite)
    · intro hsite
      exact hfront (siteOf_inj hc hsite)
  · exact hchanged (h.blocked (fun hpos => by omega) (fun _ _ => hpullable) c)

/-- Over a border of chunks: sixteen cells back is the same place in the chunk one cell back. -/
theorem border_sub {a : BitVec 32} (h : (a - 1#32).sshiftRight 4 ≠ a.sshiftRight 4) :
    (a - 16#32).sshiftRight 4 = (a - 1#32).sshiftRight 4 ∧ low (a - 16#32) = low a := by
  have hne : (a - 1#32).toInt / 16 ≠ a.toInt / 16 := by
    intro heq
    apply h
    apply BitVec.eq_of_toInt_eq
    rw [toInt_shift, toInt_shift, heq]
  constructor
  · apply BitVec.eq_of_toInt_eq
    rw [toInt_shift, toInt_shift]
    simp only [BitVec.toInt_eq_toNat_cond, BitVec.toNat_sub, BitVec.toNat_ofNat] at hne ⊢
    omega
  · apply Fin.ext
    simp only [low, BitVec.toNat_sub, BitVec.toNat_ofNat]
    omega

theorem border_add {a : BitVec 32} (h : (a + 1#32).sshiftRight 4 ≠ a.sshiftRight 4) :
    (a + 16#32).sshiftRight 4 = (a + 1#32).sshiftRight 4 ∧ low (a + 16#32) = low a := by
  have hne : (a + 1#32).toInt / 16 ≠ a.toInt / 16 := by
    intro heq
    apply h
    apply BitVec.eq_of_toInt_eq
    rw [toInt_shift, toInt_shift, heq]
  constructor
  · apply BitVec.eq_of_toInt_eq
    rw [toInt_shift, toInt_shift]
    simp only [BitVec.toInt_eq_toNat_cond, BitVec.toNat_add, BitVec.toNat_ofNat] at hne ⊢
    omega
  · apply Fin.ext
    simp only [low, BitVec.toNat_add, BitVec.toNat_ofNat]
    omega

/-- A coordinate sixteen steps behind, where the chunk one step behind is another. -/
theorem border {a e : BitVec 32} (he : e = 0#32 ∨ e = 1#32 ∨ e = -1#32)
    (h : e = 0#32 ∨ (a - e).sshiftRight 4 ≠ a.sshiftRight 4) :
    (a + -16#32 * e).sshiftRight 4 = (a - e).sshiftRight 4 ∧ low (a + -16#32 * e) = low a := by
  rcases he with rfl | rfl | rfl
  · rw [BitVec.mul_zero, BitVec.add_zero, BitVec.sub_zero]
    exact ⟨rfl, rfl⟩
  · have hback : a + -16#32 * 1#32 = a - 16#32 := by bv_omega
    rw [hback]
    exact border_sub (h.resolve_left (by decide))
  · have hback : a + -16#32 * -1#32 = a + 16#32 := by bv_omega
    have hnext : a - -1#32 = a + 1#32 := by bv_omega
    rw [hback, hnext]
    refine border_add ?_
    rw [← hnext]
    exact h.resolve_left (by decide)

/-- The cell that the block behind is written to is sixteen cells behind the piston. -/
theorem siteOf_far {p d : Pos} (hd : d ∈ pistonDirs) (hborder : chunkOf (p - d) ≠ chunkOf p)
    {y : Height} (hy : height? p.y = some y) : siteOf (along p d (-16#32)) = some (mirror p d y) := by
  have hcases : d.y = 0#32 ∧ (d.x = 0#32 ∨ d.x = 1#32 ∨ d.x = -1#32) ∧
      (d.z = 0#32 ∨ d.z = 1#32 ∨ d.z = -1#32) ∧
      (d.x = 0#32 ∨ (p.x - d.x).sshiftRight 4 ≠ p.x.sshiftRight 4) ∧
      (d.z = 0#32 ∨ (p.z - d.z).sshiftRight 4 ≠ p.z.sshiftRight 4) := by
    simp only [chunkOf, ne_eq, ChunkPos.mk.injEq, sub_x, sub_z, not_and_or] at hborder
    simp only [pistonDirs, List.mem_cons, List.not_mem_nil, or_false] at hd
    rcases hd with rfl | rfl | rfl | rfl | rfl | rfl <;> simp_all
  obtain ⟨hdy, hdx, hdz, hx, hz⟩ := hcases
  obtain ⟨hxchunk, hxlow⟩ := border hdx hx
  obtain ⟨hzchunk, hzlow⟩ := border hdz hz
  have hheight : height? (along p d (-16#32)).y = some y := by
    change height? (p.y + -16#32 * d.y) = _
    rw [hdy, BitVec.mul_zero, BitVec.add_zero]
    exact hy
  rw [siteOf_of_height? hheight]
  unfold mirror along chunkOf
  dsimp only [sub_x, sub_z]
  rw [hxchunk, hxlow, hzchunk, hzlow]

/-- **A sticky piston that takes the block behind it puts it sixteen cells behind itself**, across the
    border of its chunk. -/
theorem pull_far (pi : Piston) (hsticky : pi.sticky = true)
    (h : Pulls pi.blocks.world pi.position pi.facing) :
    idOf (pi.handled 0) (along pi.position pi.facing (-16#32)) =
      idOf pi.blocks.world pi.behind := by
  obtain ⟨y, hy, hmovable, hmirror⟩ := h
  have hborder : chunkOf (pi.position - pi.facing) ≠ chunkOf pi.position := by
    intro hsame
    have hthere := pi.there
    rw [idAt_of_siteOf (siteOf_of_height? hy), ← hsame] at hthere
    have heq := hthere.symm.trans hmirror
    split at heq
    · exact absurd heq (by decide)
    · exact absurd heq (by decide)
  obtain ⟨c, _, hne, hafter⟩ := idIn_pull pi.blocks.registered hy hmovable hmirror
  rw [idOf_of_siteOf (siteOf_far pi.cardinal hborder hy), pi.handled_pull hsticky, hafter,
    if_neg hne.symm, if_pos rfl]
  rfl

def west : Pos := ⟨-1#32, 64#32, 0#32⟩

/-- A sticky piston at the border of its chunk with stone behind it. -/
def stuck : Piston where
  blocks := ⟨built [(origin, BlockState.new 138#32), (west, BlockState.new 1#32)],
    registered_built (by decide)⟩
  position := origin
  sticky := true
  there := idAt_built (by decide) origin
  facing := ⟨1, 0, 0⟩
  cardinal := List.mem_cons_self

theorem pulls_stuck : Pulls stuck.blocks.world stuck.position stuck.facing := by
  have hid : ∀ q, idAt stuck.blocks.world q = _ := idAt_built (by decide)
  have hof : ∀ q c, siteOf q = some c → idOf stuck.blocks.world q = idAt stuck.blocks.world q :=
    fun q c hq => (idOf_of_siteOf hq).trans (idAt_of_siteOf hq _).symm
  refine ⟨⟨64, by decide⟩, rfl, ⟨1#32, ?_, by decide, by decide⟩, ?_⟩
  · have hwest : siteOf west = some ⟨chunkOf west, low west.x, ⟨64, by decide⟩, low west.z⟩ := rfl
    exact (hof west _ hwest).trans ((hid west).trans (by decide))
  · have hfar : siteOf ⟨-16#32, 64#32, 0#32⟩ = some (mirror origin ⟨1, 0, 0⟩ ⟨64, by decide⟩) := by
      decide
    exact (idAt_of_siteOf hfar _).symm.trans ((hid _).trans (by decide))

end Apoptotic.Redstone
