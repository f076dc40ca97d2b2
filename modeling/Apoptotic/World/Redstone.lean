import Apoptotic.World.Chunk

/-!
# The redstone engine

`RedstoneEngine::tick` of `mc-world/src/redstone.rs`, on the chunks of the store.  The model is what
the tick computes when every lock it asks for is granted; coordinates wrap, as in the release build.

Principal results: `visit_world` and `propagate_world` — only a component that acts changes a chunk:
a piston that pushes or pulls, or a copper bulb on a rising edge; `length_turns_le` — a propagation
visits at most its budget of positions.
-/

namespace Apoptotic.Redstone

/-! ## Positions -/

@[ext] structure Pos where
  x : BitVec 32
  y : BitVec 32
  z : BitVec 32
  deriving DecidableEq, Repr

instance : Add Pos := ⟨fun p d => ⟨p.x + d.x, p.y + d.y, p.z + d.z⟩⟩

instance : Sub Pos := ⟨fun p d => ⟨p.x - d.x, p.y - d.y, p.z - d.z⟩⟩

/-- `ChunkPos::new(x >> 4, z >> 4)` -/
def chunkOf (p : Pos) : ChunkPos := ⟨p.x.sshiftRight 4, p.z.sshiftRight 4⟩

/-- `(n & 0xF) as usize` -/
def low (n : BitVec 32) : Fin 16 := ⟨n.toNat % 16, Nat.mod_lt _ (by decide)⟩

/-- `(-64..=319).contains(&y)` -/
def height? (y : BitVec 32) : Option Height :=
  if h : -64 ≤ y.toInt ∧ y.toInt ≤ 319 then some ⟨y.toInt, h⟩ else none

abbrev World := ChunkPos → Option ReachableChunk

/-- `get_block` of a chunk at the position's place in it: air outside the world's height. -/
def blockIn (c : ReachableChunk) (p : Pos) : BlockState :=
  match height? p.y with
  | some y => c.getBlock (low p.x) (low p.z) y
  | none => BlockState.AIR

theorem sectionIndex_of_height? {y : BitVec 32} (h : height? y = none) :
    ¬ sectionIndex y < SECTIONS_PER_CHUNK := by
  unfold height? at h
  split at h
  · cases h
  · have hlo : -2 ^ 31 ≤ y.toInt := BitVec.le_toInt y
    have hhi : y.toInt < 2 ^ 31 := BitVec.toInt_lt
    unfold sectionIndex SECTIONS_PER_CHUNK MIN_SECTION_Y
    omega

theorem blockIn_eq (c : ReachableChunk) (p : Pos) :
    c.chunk.getBlock (low p.x) p.y (low p.z) = some (blockIn c p) := by
  unfold blockIn
  cases hy : height? p.y with
  | none =>
      unfold Chunk.getBlock
      rw [dif_neg (sectionIndex_of_height? hy)]
  | some y =>
      have hback : BitVec.ofInt 32 y.1 = p.y := by
        unfold height? at hy
        split at hy
        · cases hy
          exact BitVec.ofInt_toInt
        · cases hy
      dsimp only
      unfold ReachableChunk.getBlock
      rw [Option.some_get, hback]

theorem blockIn_of_height? {c : ReachableChunk} {p : Pos} {y : Height} (hy : height? p.y = some y) :
    blockIn c p = c.getBlock (low p.x) (low p.z) y := by
  unfold blockIn
  rw [hy]

theorem blockIn_new (cp : ChunkPos) (p : Pos) :
    blockIn ⟨Chunk.new cp, .new cp⟩ p = BlockState.AIR := by
  have hget := blockIn_eq ⟨Chunk.new cp, .new cp⟩ p
  have hair : (Chunk.new cp).getBlock (low p.x) p.y (low p.z) = some BlockState.AIR := by
    unfold Chunk.getBlock
    split
    · rfl
    · rfl
  exact Option.some.inj (hget.symm.trans hair)

/-- `set_block` at the place of `p`, in the chunk at `cp`. -/
def setIn (w : World) (cp : ChunkPos) (p : Pos) (y : Height) (block : BlockState) : World :=
  Function.update w cp ((w cp).map fun c => c.setBlock (low p.x) (low p.z) y block)

def isAir (block : BlockState) : Bool := block.id == 0#32

/-! ## Components -/

def isRedstoneComponent (id : Nat) : Bool :=
  id ∈ [993, 994, 152, 852, 853, 995, 996, 997, 998, 70, 71, 46, 84, 137, 138, 149, 218, 317, 23,
    158, 74, 25, 146, 364, 319, 151, 354, 355, 296, 298, 299, 300, 301, 302, 303, 304, 305, 306,
    307, 308, 309, 310, 311, 312, 313, 314, 315, 316, 318, 287, 356, 1184, 1260, 1261, 1262, 1263,
    1264, 1265, 1266, 1267]

def isPressurePlate (id : Nat) : Bool :=
  id = 296 ∨ (298 ≤ id ∧ id ≤ 307) ∨ id = 1043 ∨ id = 1044

def isTripwireComponent (id : Nat) : Bool := id = 287 ∨ id = 286

def isConstantSource (id : Nat) : Bool := id = 152

def isToggleComponent (id : Nat) : Bool := id = 852

def isPulseComponent (id : Nat) : Bool := id = 853

def isCopperBulb (id : Nat) : Bool := 1260 ≤ id ∧ id ≤ 1267

def componentPower (id : Nat) (lit : Bool) : Nat :=
  if id = 994 ∨ id = 852 then (if lit then 15 else 0)
  else if id = 152 ∨ id = 853 then 15
  else if 308 ≤ id ∧ id ≤ 318 then (if lit then 15 else 0)
  else 0

/-- `count` is the number of entities that the registered provider sees on the block. -/
def entityComponentPower (id count : Nat) : Nat :=
  if ¬ isPressurePlate id ∧ id ≠ 286 then 0
  else if count = 0 then 0
  else if id = 296 ∨ (298 ≤ id ∧ id ≤ 307) then 15
  else if id = 1043 then min count 15
  else if id = 1044 then (if 0 < count / 10 then count / 10 else 1)
  else if id = 286 then 15
  else 0

/-! ## Signals -/

/-- `signal_map`. -/
abbrev SignalMap := Pos → Option Nat

/-- A signal, 0 where there is none. -/
def signalAt (signals : SignalMap) (p : Pos) : Nat := (signals p).getD 0

def isPowered (signals : SignalMap) (p : Pos) : Bool := decide (0 < signalAt signals p)

def isComparatorSubtract (signals : SignalMap) (p : Pos) : Bool :=
  decide (0 < signalAt signals (p + ⟨0, 0, 1⟩))

def getBackSignal (signals : SignalMap) (p : Pos) : Nat := signalAt signals (p - ⟨0, 0, 1⟩)

def getSideSignal (signals : SignalMap) (p : Pos) : Nat :=
  max (signalAt signals (p - ⟨1, 0, 0⟩)) (signalAt signals (p + ⟨1, 0, 0⟩))

def comparatorPower (signals : SignalMap) (p : Pos) : Nat :=
  let back := getBackSignal signals p
  let maxSide := max (getSideSignal signals p) (getSideSignal signals p)
  if isComparatorSubtract signals p then back - maxSide
  else if back > maxSide then back else 0

/-- The four horizontal neighbours' offsets. -/
def sideways : List Pos := [⟨1, 0, 0⟩, ⟨-1, 0, 0⟩, ⟨0, 0, 1⟩, ⟨0, 0, -1⟩]

/-- Redstone wire: one less than the strongest signal beside it, a block lower or a block higher. -/
def wirePower (signals : SignalMap) (p : Pos) : Nat :=
  let near := sideways.flatMap fun d => [p + d, p + d - ⟨0, 1, 0⟩, p + d + ⟨0, 1, 0⟩]
  (near.foldl (fun m q => max m (signalAt signals q)) 0) - 1

/-- The `power` of a component; `count q` entities stand on the block at `q`. -/
def power (count : Pos → Nat) (signals : SignalMap) (p : Pos) (id : Nat) : Nat :=
  if isConstantSource id ∨ isToggleComponent id ∨ isPulseComponent id then 15
  else if isPressurePlate id ∨ isTripwireComponent id then entityComponentPower id (count p)
  else if id = 149 then comparatorPower signals p
  else if id = 317 then 0
  else if id = 993 then wirePower signals p
  else componentPower id true

/-- Pistons, dispensers and droppers are also powered from the block above. -/
def effectivePower (count : Pos → Nat) (signals : SignalMap) (p : Pos) (id : Nat) : Nat :=
  if id ∈ [137, 138, 23, 158] ∧ isPowered signals (p + ⟨0, 1, 0⟩) then
    max (power count signals p id) 15
  else power count signals p id

def pistonDirs : List Pos :=
  [⟨1, 0, 0⟩, ⟨-1, 0, 0⟩, ⟨0, 0, 1⟩, ⟨0, 0, -1⟩, ⟨0, 1, 0⟩, ⟨0, -1, 0⟩]

def detectPistonFacing (signals : SignalMap) (p : Pos) : Pos :=
  match pistonDirs.find? fun d => isPowered signals (p + d) with
  | some d => d
  | none =>
      match pistonDirs.find? fun d => isPowered signals (p - d) with
      | some d => d
      | none => ⟨1, 0, 0⟩

/-! ## The engine -/

structure Engine where
  pendingUpdates : List Pos
  processed : List Pos
  signalMap : SignalMap
  pulses : List (Pos × Nat)
  repeaterDelays : List (Pos × Nat × Nat)
  tntFuses : List (Pos × Nat)
  /-- With the power of the explosion. -/
  pendingExplosions : List (Pos × Nat)
  /-- In the order the map is iterated in. -/
  observerStates : List (Pos × BitVec 32)
  noteBlockNotes : Pos → Option Nat
  pendingDispenserActivations : List Pos

namespace Engine

def onBlockChange (e : Engine) (p : Pos) : Engine :=
  { e with pendingUpdates := e.pendingUpdates ++ [p] }

def igniteTnt (e : Engine) (p : Pos) : Engine := { e with tntFuses := e.tntFuses ++ [(p, 80)] }

def playNote (e : Engine) (p : Pos) : Engine :=
  let note :=
    match e.noteBlockNotes p with
    | some note => (note + 1) % 25
    | none => 1
  { e with noteBlockNotes := Function.update e.noteBlockNotes p (some note) }

end Engine

/-- What the propagation works on. -/
structure State where
  world : World
  engine : Engine

variable (count : Pos → Nat)

/-- The block ahead of an observer, if both chunks are loaded. -/
def observedBlock (w : World) (o : Pos) : Option (BitVec 32) := do
  let _ ← w (chunkOf o)
  let c ← w (chunkOf (o + ⟨0, 0, 1⟩))
  some (blockIn c (o + ⟨0, 0, 1⟩)).id

/-- The observer sees another block than at the last tick. -/
def observerFires (w : World) (o : Pos × BitVec 32) : Bool :=
  match observedBlock w o.1 with
  | some current => current != o.2
  | none => false

def observerPulses (w : World) (e : Engine) : List Pos :=
  (e.observerStates.filter (observerFires w)).map Prod.fst

/-- The observers that fire remember the new block, output 15 and update their neighbours. -/
def runObservers (w : World) (e : Engine) : Engine :=
  let fired := observerPulses w e
  { e with
    observerStates := e.observerStates.map fun o => (o.1, (observedBlock w o.1).getD o.2)
    signalMap := fired.foldl (fun m o => Function.update m o (some 15)) e.signalMap
    pendingUpdates := e.pendingUpdates ++ fired.flatMap fun o => sideways.map fun d => o + d }

/-! ## Visiting a position -/

/-- What the propagation goes on with at a position: the component there and its new signal, when
the signal changed. -/
def reaction (s : State) (p : Pos) : Option (Nat × Nat) := do
  let chunk ← s.world (chunkOf p)
  let id := (blockIn chunk p).id.toNat
  if !isRedstoneComponent id then none
  else
    let effective := effectivePower count s.engine.signalMap p id
    if s.engine.signalMap p = some effective then none else some (id, effective)

/-- The six neighbours' offsets, in the order they are queued. -/
def around : List Pos :=
  [⟨1, 0, 0⟩, ⟨-1, 0, 0⟩, ⟨0, 1, 0⟩, ⟨0, -1, 0⟩, ⟨0, 0, 1⟩, ⟨0, 0, -1⟩]

/-- The neighbours inside the world's height. -/
def neighbours (p : Pos) : List Pos :=
  (around.map fun d => p + d).filter fun n => (height? n.y).isSome

/-- The neighbours that the signal is handed to. -/
def handedOn (s : State) (p : Pos) : List Pos :=
  (neighbours p).filter fun n =>
    match s.world (chunkOf n) with
    | some c => isRedstoneComponent (blockIn c n).id.toNat && decide (n ∉ s.engine.processed)
    | none => false

/-- A powered piston moves the block ahead of it one further. -/
def extend (w : World) (p d : Pos) : World :=
  let front := p + d
  match height? front.y, w (chunkOf front) with
  | some fy, some chunk =>
      let pushed := blockIn chunk front
      if isAir pushed ∨ pushed.id = 266#32 then w
      else
        let beyond := front + d
        match height? beyond.y, w (chunkOf beyond) with
        | some b, some destination =>
            if isAir (blockIn destination beyond) then
              setIn (setIn w (chunkOf beyond) beyond b pushed) (chunkOf front) front fy
                BlockState.AIR
            else w
        | _, _ => w
  | _, _ => w

/-- A sticky piston without power moves the block behind it to its own place; both are taken from
the chunk of the block behind. -/
def pull (w : World) (p d : Pos) : World :=
  let behind := p - d
  match height? behind.y, w (chunkOf behind) with
  | some b, some chunk =>
      let pulled := blockIn chunk behind
      if isAir pulled ∨ pulled.id = 266#32 ∨ ¬ isAir (blockIn chunk p) then w
      else
        match height? p.y with
        | some y =>
            setIn (setIn w (chunkOf behind) p y pulled) (chunkOf behind) behind b BlockState.AIR
        | none => w
  | _, _ => w

/-- A copper bulb changes between lit and unlit. -/
def toggleBulb (w : World) (p : Pos) (id : Nat) : World :=
  match height? p.y with
  | some y =>
      setIn w (chunkOf p) p y (BlockState.new (BitVec.ofNat 32 (if 1264 ≤ id then id - 4 else id + 4)))
  | none => w

/-- `is_copper_bulb(id) && effective_power > 0 && prev_signal == Some(0)` -/
def bulbToggles (s : State) (p : Pos) (id effective : Nat) : Prop :=
  isCopperBulb id ∧ 0 < effective ∧ s.engine.signalMap p = some 0

instance (s : State) (p : Pos) (id effective : Nat) : Decidable (bulbToggles s p id effective) := by
  unfold bulbToggles
  infer_instance

/-- What a component with a new signal does to the chunks. -/
def react (s : State) (p : Pos) (id effective : Nat) (signals : SignalMap) : World :=
  let d := detectPistonFacing signals p
  let w := if id ∈ [137, 138] ∧ 0 < effective then extend s.world p d else s.world
  let w := if id = 138 ∧ effective = 0 then pull w p d else w
  if bulbToggles s p id effective then toggleBulb w p id else w

/-- One position of the propagation. -/
def visit (s : State) (p : Pos) : State :=
  match reaction count s p with
  | none => s
  | some (id, effective) =>
      let signals := Function.update s.engine.signalMap p (some effective)
      let e := { s.engine with
        signalMap := signals
        pendingUpdates := s.engine.pendingUpdates ++ (if 0 < effective then handedOn s p else []) }
      let e := if id = 25 ∧ 0 < effective then e.igniteTnt p else e
      let e := if id ∈ [23, 158] ∧ 0 < effective then
        { e with pendingDispenserActivations := e.pendingDispenserActivations ++ [p] } else e
      let e := if id = 74 ∧ 0 < effective then e.playNote p else e
      ⟨react s p id effective signals, e⟩

/-! ## The propagation -/

/-- `MAX_NODES_PER_TICK`. -/
def MAX_NODES_PER_TICK : Nat := 4096

/-- The next position in the queue that was not visited yet, with the queue after it. -/
def Engine.next (e : Engine) : Option (Pos × List Pos) :=
  match e.pendingUpdates.dropWhile fun p => decide (p ∈ e.processed) with
  | [] => none
  | p :: rest => some (p, rest)

/-- Take the position from the queue and mark it visited. -/
def State.take (s : State) (p : Pos) (rest : List Pos) : State :=
  { s with engine :=
    { s.engine with pendingUpdates := rest, processed := p :: s.engine.processed } }

def State.queue (s : State) (pending : List Pos) : State :=
  { s with engine := { s.engine with pendingUpdates := pending } }

/-- The propagation, with what is left of the budget.  Without budget the position goes back to the
end of the queue. -/
def propagate : Nat → State → State
  | 0, s =>
      match s.engine.next with
      | none => s.queue []
      | some (p, rest) => s.queue (rest ++ [p])
  | n + 1, s =>
      match s.engine.next with
      | none => s.queue []
      | some (p, rest) => propagate n (visit count (s.take p rest) p)

/-- The positions that the propagation visits, each with the state it is visited in. -/
def turns : Nat → State → List (State × Pos)
  | 0, _ => []
  | n + 1, s =>
      match s.engine.next with
      | none => []
      | some (p, rest) => (s.take p rest, p) :: turns n (visit count (s.take p rest) p)

/-! ## The timers and the tick -/

/-- `retain_mut` of a list of timers: the ones still running, and the ones that ran out. -/
def countDown {A : Type} (timers : List (A × Nat)) : List (A × Nat) × List A :=
  (timers.filterMap fun t => if 0 < t.2 then some (t.1, t.2 - 1) else none,
    timers.filterMap fun t => if 0 < t.2 then none else some t.1)

def tickButtons (e : Engine) : Engine :=
  let timers := countDown e.pulses
  timers.2.foldl Engine.onBlockChange { e with pulses := timers.1 }

def tickRepeaters (e : Engine) : Engine :=
  let timers := countDown (e.repeaterDelays.map fun t => ((t.1, t.2.2), t.2.1))
  timers.2.foldl (fun e t => e.onBlockChange t.1)
    { e with repeaterDelays := timers.1.map fun t => (t.1.1, t.2, t.1.2) }

/-- The test of the fuses is the other way round: what still burns is dropped. -/
def tickFuses (e : Engine) : Engine :=
  { e with
    tntFuses := e.tntFuses.filter fun t => t.2 = 0
    pendingExplosions := e.pendingExplosions ++
      (e.tntFuses.filter fun t => t.2 = 0).map fun t => (t.1, 4) }

/-- Observers that fired before lose their signal. -/
def decayObservers (fired : List Pos) (e : Engine) : Engine :=
  let expired := (e.observerStates.map Prod.fst).filter fun o =>
    e.signalMap o = some 15 ∧ o ∉ fired
  expired.foldl (fun e o => { e with
    signalMap := Function.update e.signalMap o none
    pendingUpdates := e.pendingUpdates ++ sideways.map fun d => o + d }) e

/-- The state that the propagation of a tick starts in. -/
def startOf (w : World) (e : Engine) : State := ⟨w, runObservers w e⟩

def tick (w : World) (e : Engine) : State :=
  let s := propagate count MAX_NODES_PER_TICK (startOf w e)
  let e' := decayObservers (observerPulses w e) (tickFuses (tickRepeaters (tickButtons s.engine)))
  ⟨s.world, { e' with processed := [], pendingDispenserActivations := [] }⟩

/-! ## Which positions change a chunk -/

/-- The component at `p` writes to a chunk when it is visited: a piston with power whose front is
inside the world, a sticky piston that loses its power whose back is, or a copper bulb on a rising
edge. -/
def Acts (s : State) (p : Pos) : Prop :=
  ∃ id effective, reaction count s p = some (id, effective) ∧
    (let d := detectPistonFacing (Function.update s.engine.signalMap p (some effective)) p
     (id ∈ [137, 138] ∧ 0 < effective ∧ (height? (p + d).y).isSome) ∨
      (id = 138 ∧ effective = 0 ∧ (height? (p - d).y).isSome) ∨
      bulbToggles s p id effective)

theorem extend_of_outside {w : World} {p d : Pos} (h : ¬ (height? (p + d).y).isSome) :
    extend w p d = w := by
  unfold extend
  dsimp only
  rw [Option.not_isSome_iff_eq_none.1 h]

theorem pull_of_outside {w : World} {p d : Pos} (h : ¬ (height? (p - d).y).isSome) :
    pull w p d = w := by
  unfold pull
  dsimp only
  rw [Option.not_isSome_iff_eq_none.1 h]

variable {count}

/-- **A component that does not act leaves every chunk as it is.** -/
theorem visit_world {s : State} {p : Pos} (h : ¬ Acts count s p) :
    (visit count s p).world = s.world := by
  unfold visit
  cases hr : reaction count s p with
  | none => rfl
  | some r =>
      obtain ⟨id, effective⟩ := r
      have hno := fun hact => h ⟨id, effective, hr, hact⟩
      dsimp only at hno ⊢
      obtain ⟨hpush, hpull, hbulb⟩ := not_or.1 hno |>.imp_right not_or.1
      unfold react
      dsimp only
      rw [if_neg hbulb]
      have hextend : (if id ∈ [137, 138] ∧ 0 < effective then
          extend s.world p (detectPistonFacing
            (Function.update s.engine.signalMap p (some effective)) p) else s.world) = s.world := by
        split
        · rename_i hp
          exact extend_of_outside fun hy => hpush ⟨hp.1, hp.2, hy⟩
        · rfl
      rw [hextend]
      split
      · rename_i hp
        exact pull_of_outside fun hy => hpull ⟨hp.1, hp.2, hy⟩
      · rfl

/-- **A propagation in which no component acts leaves every chunk as it is.** -/
theorem propagate_world {n : Nat} {s : State}
    (h : ∀ t ∈ turns count n s, ¬ Acts count t.1 t.2) :
    (propagate count n s).world = s.world := by
  induction n generalizing s with
  | zero =>
      unfold propagate
      split <;> rfl
  | succ n ih =>
      unfold propagate
      unfold turns at h
      cases hnext : s.engine.next with
      | none => rfl
      | some next =>
          obtain ⟨p, rest⟩ := next
          rw [hnext] at h
          have hvisit : (visit count (s.take p rest) p).world = s.world :=
            visit_world (h _ List.mem_cons_self)
          exact (ih fun t ht => h t (List.mem_cons_of_mem _ ht)).trans hvisit

theorem length_turns_le (n : Nat) (s : State) : (turns count n s).length ≤ n := by
  induction n generalizing s with
  | zero => exact Nat.le_refl 0
  | succ n ih =>
      unfold turns
      cases s.engine.next with
      | none => exact Nat.zero_le _
      | some next => exact Nat.succ_le_succ (ih _)

end Apoptotic.Redstone
