import Apoptotic.Lib.Rounds
import Apoptotic.World.Lighting
import Apoptotic.World.Redstone

/-!
# The fluid engine

`FluidEngine::tick` of `mc-world/src/fluid.rs`: every cell in the queue flows down, then sideways at
a lower level, and the cells it flows into are queued for the next tick.  Coordinates wrap, as in
the release build.

Principal result: `comesToRest` — the queue is empty after finitely many ticks, and the world stays
as it is then.
-/

namespace Apoptotic.Fluids

open Redstone (Pos World chunkOf low height? isAir sideways)

def WATER_ID : BitVec 32 := 267#32

def LAVA_ID : BitVec 32 := 268#32

def isWaterloggable (id : BitVec 32) : Bool :=
  id.toNat ∈ [44, 126, 127, 128, 129, 130, 131, 182, 183, 184, 185, 186, 187, 53, 67, 108, 109, 110,
    111, 112, 134, 135, 136, 85, 188, 189, 190, 191, 192, 63, 68, 96, 147, 148, 355, 356, 357, 358,
    359, 25, 26]

/-- `set_waterlogged(true)` -/
def waterlogged (block : BlockState) : BlockState := { block with props := block.props ||| 1#16 }

def getBlock (w : World) (p : Pos) : Option BlockState :=
  match height? p.y with
  | some y => (w (chunkOf p)).map fun c => c.getBlock (low p.x) (low p.z) y
  | none => none

def setBlock (w : World) (p : Pos) (block : BlockState) : World :=
  match height? p.y with
  | some y => Redstone.setIn w (chunkOf p) p y block
  | none => w

/-! ## Infinite water -/

/-- Whether a place beside two water blocks and over a solid floor fills up. -/
def fills (w : World) (p : Pos) (block : BlockState) : Bool :=
  let sourceCount := sideways.countP fun d => ((getBlock w (p + d)).getD BlockState.AIR).id = WATER_ID
  let floor := (getBlock w (p - ⟨0, 1, 0⟩)).getD BlockState.AIR
  (isAir block || isWaterloggable block.id) && decide (2 ≤ sourceCount) &&
    (!isAir floor && !isWaterloggable floor.id && floor.id != WATER_ID)

def fillAt (w : World) (p : Pos) : World :=
  let block := (getBlock w p).getD BlockState.AIR
  if fills w p block then
    if isAir block then setBlock w p (BlockState.new WATER_ID) else setBlock w p (waterlogged block)
  else w

/-- `check_infinite_water_at` -/
def checkInfiniteWaterAt (w : World) (p : Pos) : World :=
  sideways.foldl (fun w d => fillAt w (p + d)) w

/-! ## Flowing -/

/-- An entry of `flow_queue`. -/
structure Flow where
  pos : Pos
  fluidId : BitVec 32
  level : Nat

structure FluidEngine where
  world : World
  flowQueue : List Flow

namespace FluidEngine

def push (s : FluidEngine) (f : Flow) : FluidEngine := { s with flowQueue := s.flowQueue ++ [f] }

/-- A fluid takes the place of air, and water fills what holds water; there it is queued. -/
def enter (s : FluidEngine) (f : Flow) (block : BlockState) : FluidEngine :=
  if isAir block then
    { s with world := setBlock s.world f.pos (BlockState.new f.fluidId) }.push f
  else if isWaterloggable block.id ∧ f.fluidId = WATER_ID then
    { s with world := setBlock s.world f.pos (waterlogged block) }.push f
  else s

/-- What becomes of a block that the other fluid, or lava, touches. -/
def mix (s : FluidEngine) (p : Pos) (fluidId : BitVec 32) (level : Nat) (block : BlockState) :
    FluidEngine :=
  let w := s.world
  let w := if fluidId = LAVA_ID ∧ block.id = WATER_ID then setBlock w p (BlockState.new 1#32) else w
  let w := if fluidId = WATER_ID ∧ block.id = LAVA_ID then
    setBlock w p (BlockState.new (if 5 ≤ level then 49#32 else 1#32)) else w
  let w := if fluidId = LAVA_ID ∧ block.id = 174#32 then setBlock w p (BlockState.new 213#32) else w
  { s with world := w }

/-- Gravity: below, the fluid is at its full level again. -/
def flowDown (s : FluidEngine) (f : Flow) : FluidEngine :=
  let below := f.pos - ⟨0, 1, 0⟩
  match getBlock s.world below with
  | some block => s.enter ⟨below, f.fluidId, 7⟩ block
  | none => s

def spreadTo (f : Flow) (remaining : Nat) (s : FluidEngine) (d : Pos) : FluidEngine :=
  match getBlock s.world (f.pos + d) with
  | some block =>
      (s.enter ⟨f.pos + d, f.fluidId, remaining⟩ block).mix (f.pos + d) f.fluidId f.level block
  | none => s

/-- One entry of the batch. -/
def flow (s : FluidEngine) (f : Flow) : FluidEngine :=
  if f.level = 0 then s
  else
    let s := s.flowDown f
    let nextLevel := f.level - 1
    if 0 < nextLevel then
      let maxSpread := if f.fluidId = LAVA_ID then 3 else 7
      sideways.foldl (spreadTo f (min nextLevel maxSpread)) s
    else s

/-- `FluidEngine::tick` -/
def tick (s : FluidEngine) : FluidEngine :=
  let world := s.flowQueue.foldl (fun w f =>
    if f.fluidId = WATER_ID then checkInfiniteWaterAt w f.pos else w) s.world
  s.flowQueue.foldl flow ⟨world, []⟩

/-! ## Ranks -/

/-- First by height, then by level. -/
def rank (f : Flow) : Nat := (f.pos.y.toInt + 64).toNat * 8 + f.level

theorem height_of_getBlock {w : World} {p : Pos} {block : BlockState}
    (h : getBlock w p = some block) : -64 ≤ p.y.toInt ∧ p.y.toInt ≤ 319 := by
  unfold getBlock height? at h
  by_cases hy : -64 ≤ p.y.toInt ∧ p.y.toInt ≤ 319
  · exact hy
  · simp [hy] at h

/-- A block inside the world is one below the next. -/
theorem toInt_below {y : BitVec 32} (h : -64 ≤ (y - 1#32).toInt ∧ (y - 1#32).toInt ≤ 319) :
    y.toInt = (y - 1#32).toInt + 1 := by
  have hy := y.toInt_lt
  have hy' := y.le_toInt
  rw [BitVec.toInt_sub, BitVec.toInt_one (by decide), Int.bmod_def] at h ⊢
  omega

theorem flowQueue_enter (s : FluidEngine) (f : Flow) (block : BlockState) :
    ∀ g ∈ (s.enter f block).flowQueue, g ∈ s.flowQueue ∨ g = f := by
  intro g hg
  unfold enter push at hg
  split_ifs at hg
  · simpa using hg
  · simpa using hg
  · exact .inl hg

/-- The flow down ranks lower. -/
theorem flowQueue_flowDown (s : FluidEngine) (f : Flow) (hf : 0 < f.level) :
    ∀ g ∈ (s.flowDown f).flowQueue, g ∈ s.flowQueue ∨ rank g < rank f := by
  intro g hg
  unfold flowDown at hg
  dsimp only at hg
  split at hg
  · rename_i block hblock
    rcases flowQueue_enter _ _ _ g hg with hold | rfl
    · exact .inl hold
    · have hheight := height_of_getBlock hblock
      have hy : f.pos.y.toInt = (f.pos - ⟨0, 1, 0⟩).y.toInt + 1 := toInt_below hheight
      right
      show ((f.pos - ⟨0, 1, 0⟩).y.toInt + 64).toNat * 8 + 7 < rank f
      unfold rank
      omega
  · exact .inl hg

theorem flowQueue_spreadTo (s : FluidEngine) (f : Flow) {remaining : Nat} (hlt : remaining < f.level)
    {d : Pos} (hd : d ∈ sideways) :
    ∀ g ∈ (spreadTo f remaining s d).flowQueue, g ∈ s.flowQueue ∨ rank g < rank f := by
  intro g hg
  unfold spreadTo at hg
  split at hg
  · rcases flowQueue_enter _ _ _ g hg with hold | rfl
    · exact .inl hold
    · have hy : (f.pos + d).y = f.pos.y := by
        show f.pos.y + d.y = f.pos.y
        have hflat : d.y = 0#32 := by
          simp only [sideways, List.mem_cons, List.not_mem_nil, or_false] at hd
          rcases hd with rfl | rfl | rfl | rfl <;> rfl
        simp [hflat]
      right
      show ((f.pos + d).y.toInt + 64).toNat * 8 + remaining < rank f
      unfold rank
      rw [hy]
      omega
  · exact .inl hg

/-- **What one entry puts into the queue ranks lower than it.** -/
theorem flowQueue_flow (s : FluidEngine) (f : Flow) :
    ∀ g ∈ (s.flow f).flowQueue, g ∈ s.flowQueue ∨ rank g < rank f := by
  unfold flow
  by_cases hzero : f.level = 0
  · rw [if_pos hzero]
    exact fun g hg => .inl hg
  · rw [if_neg hzero]
    dsimp only
    by_cases hnext : 0 < f.level - 1
    · rw [if_pos hnext]
      -- Each of the four sides adds to what is there.
      have hsides : ∀ (sides : List Pos) (remaining : Nat), remaining < f.level →
          (∀ d ∈ sides, d ∈ sideways) → ∀ s' : FluidEngine,
          (∀ g ∈ s'.flowQueue, g ∈ s.flowQueue ∨ rank g < rank f) →
          ∀ g ∈ (sides.foldl (spreadTo f remaining) s').flowQueue, g ∈ s.flowQueue ∨ rank g < rank f := by
        intro sides remaining hlt
        induction sides with
        | nil => exact fun _ _ hs' => hs'
        | cons d sides ih =>
            intro hmem s' hs'
            apply ih fun d hd => hmem d (List.mem_cons_of_mem _ hd)
            intro g hg
            rcases flowQueue_spreadTo s' f hlt (hmem d (List.mem_cons_self ..)) g hg with hold | hlow
            · exact hs' g hold
            · exact .inr hlow
      exact hsides _ _ (by omega) (fun _ hd => hd) _ (flowQueue_flowDown s f (Nat.pos_of_ne_zero hzero))
    · rw [if_neg hnext]
      exact flowQueue_flowDown s f (Nat.pos_of_ne_zero hzero)

/-- **What a tick leaves in the queue ranks lower than something that was in it.** -/
theorem descends_tick : Rounds.Descends tick flowQueue rank := by
  have hbatch : ∀ (batch : List Flow) (s : FluidEngine),
      ∀ g ∈ (batch.foldl flow s).flowQueue, g ∈ s.flowQueue ∨ ∃ f ∈ batch, rank g < rank f := by
    intro batch
    induction batch with
    | nil => exact fun s g hg => .inl hg
    | cons f batch ih =>
        intro s g hg
        rcases ih _ g hg with hold | ⟨f', hf', hlt⟩
        · rcases flowQueue_flow s f g hold with hold | hlt
          · exact .inl hold
          · exact .inr ⟨f, List.mem_cons_self .., hlt⟩
        · exact .inr ⟨f', List.mem_cons_of_mem _ hf', hlt⟩
  intro s g hg
  rcases hbatch _ _ g hg with hold | hlt
  · cases hold
  · exact hlt

/-- Nothing happens without an entry in the queue. -/
theorem tick_of_empty {s : FluidEngine} (h : s.flowQueue = []) : s.tick = s := by
  obtain ⟨w, queue⟩ := s
  subst h
  rfl

/-- **Fluids come to rest**: after finitely many ticks the queue is empty, and nothing changes any
more. -/
theorem comesToRest (s : FluidEngine) :
    ∃ n, (tick^[n] s).flowQueue = [] ∧ ∀ m ≥ n, tick^[m] s = tick^[n] s := by
  obtain ⟨n, hn⟩ := Rounds.exists_round_eq_nil descends_tick s
  refine ⟨n, hn n (Nat.le_refl n), fun m hm => ?_⟩
  induction m, hm using Nat.le_induction with
  | base => rfl
  | succ m hm ih => rw [Function.iterate_succ_apply', ih, tick_of_empty (hn n (Nat.le_refl n))]

end FluidEngine

end Apoptotic.Fluids
