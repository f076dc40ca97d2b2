import Apoptotic.World.Sites

/-!
# Runs of the redstone engine

Every operation of `RedstoneEngine` in `mc-world/src/redstone.rs`, in any order, with what
`mc-server/src/main.rs` does to the engine between two ticks: it takes the explosions and the
activations, and sets the signal of a detector rail.  The chunks change freely between operations.

What the ticks ignited, recorded and handed out is kept beside the engine; no operation reads it.

Principal results: `bounded_run` — no signal leaves 0 to 15; `onTime_iff` — TNT explodes on time as
long as no tick starts with a burning fuse; `delivered_run_iff` — the activations reach their consumer as
long as no tick records one; `attends_run` — what the budget of a tick loses.
-/

namespace Apoptotic.Redstone

/-! ## The operations -/

/-- The engine with the chunks, its hoppers and the registered vibrations. -/
structure Machine where
  state : State
  /-- With the cooldown. -/
  hoppers : List (Pos × Nat)
  /-- With the frequency. -/
  vibrations : List (Pos × Nat)
  /-- The TNT ignited so far, with the passes over the fuses since. -/
  ignited : List (Pos × Nat)
  /-- The explosions that the server has taken. -/
  exploded : List (Pos × Nat)
  /-- The activations that the ticks recorded. -/
  recorded : List Pos
  /-- The activations that were returned. -/
  returned : List Pos

def TNT_ID : Nat := 25

/-- A dispenser and a dropper. -/
def DISPENSERS : List Nat := [23, 158]

def DETECTOR_RAIL_ID : BitVec 32 := 28#32

/-- `insert` into the map of the observers. -/
def insertObserver (observers : List (Pos × BitVec 32)) (p : Pos) (id : BitVec 32) :
    List (Pos × BitVec 32) :=
  if p ∈ observers.map Prod.fst then observers.map fun o => if o.1 = p then (p, id) else o
  else observers ++ [(p, id)]

def registerObserver (s : State) (p : Pos) : Engine :=
  match observedBlock s.world p with
  | some id => { s.engine with observerStates := insertObserver s.engine.observerStates p id }
  | none => s.engine

/-- The map is iterated in another order from now on. -/
def rehash (e : Engine) (observers : List (Pos × BitVec 32)) : Engine :=
  if observers.Perm e.observerStates then { e with observerStates := observers } else e

/-- A minecart at `p`: a detector rail outputs 15. -/
def detectRail (s : State) (p : Pos) : Engine :=
  match s.world (chunkOf p) with
  | some chunk =>
      if (blockIn chunk p).id = DETECTOR_RAIL_ID then
        { s.engine with signalMap := Function.update s.engine.signalMap p (some 15) }
      else s.engine
  | none => s.engine

def tickHoppers (hoppers : List (Pos × Nat)) : List (Pos × Nat) :=
  hoppers.map fun h => (h.1, if 0 < h.2 then h.2 - 1 else 8)

/-- A pass over the fuses goes by. -/
def age (lit : List (Pos × Nat)) : List (Pos × Nat) := lit.map fun i => (i.1, i.2 + 1)

inductive Operation where
  /-- Something else changes the chunks. -/
  | change (w : World)
  | onBlockChange (p : Pos)
  | toggleLever (p : Pos)
  | pressButton (p : Pos)
  | registerObserver (p : Pos)
  | removeObserver (p : Pos)
  | rehash (observers : List (Pos × BitVec 32))
  | igniteTnt (p : Pos)
  | incrementNote (p : Pos)
  | setRepeaterDelay (p : Pos) (delay strength : Nat)
  | takeExplosions
  | takeDispenserActivations
  | detectRail (p : Pos)
  | registerHopper (p : Pos)
  | removeHopper (p : Pos)
  | tickHoppers
  | registerVibration (p : Pos) (frequency : Nat)
  | tickSculkSensors
  /-- `count` is what the registered provider counts on the blocks. -/
  | tick (count : Pos → Nat)

/-! ## What a tick visits -/

/-- The visit turns the component, one of `ids`, on. -/
def turnsOn (count : Pos → Nat) (ids : List Nat) (t : State × Pos) : Bool :=
  match reaction count t.1 t.2 with
  | some (id, effective) => id ∈ ids ∧ 0 < effective
  | none => false

/-- The turns of a tick. -/
def tickTurns (count : Pos → Nat) (s : State) : List (State × Pos) :=
  turns count MAX_NODES_PER_TICK (startOf s.world s.engine)

/-- The propagation of a tick. -/
def tickEnd (count : Pos → Nat) (s : State) : Engine :=
  (propagate count MAX_NODES_PER_TICK (startOf s.world s.engine)).engine

/-- The activations that the propagation of a tick pushes. -/
def activations (count : Pos → Nat) (s : State) : List Pos :=
  (tickEnd count s).pendingDispenserActivations.drop s.engine.pendingDispenserActivations.length

/-- The TNT that the propagation of a tick ignites. -/
def ignitions (count : Pos → Nat) (s : State) : List (Pos × Nat) :=
  ((tickEnd count s).tntFuses.drop s.engine.tntFuses.length).map fun f => (f.1, 0)

namespace Machine

def start (w : World) : Machine := ⟨⟨w, Engine.new⟩, [], [], [], [], [], []⟩

def withEngine (m : Machine) (e : Engine) : Machine := { m with state := ⟨m.state.world, e⟩ }

def perform (m : Machine) : Operation → Machine
  | .change w => { m with state := ⟨w, m.state.engine⟩ }
  | .onBlockChange p => m.withEngine (m.state.engine.onBlockChange p)
  | .toggleLever p => m.withEngine (m.state.engine.onBlockChange p)
  | .pressButton p =>
      m.withEngine { m.state.engine.onBlockChange p with
        pulses := m.state.engine.pulses ++ [(p, 20)] }
  | .registerObserver p => m.withEngine (Redstone.registerObserver m.state p)
  | .removeObserver p =>
      m.withEngine { m.state.engine with
        observerStates := m.state.engine.observerStates.filter fun o => o.1 ≠ p }
  | .rehash observers => m.withEngine (Redstone.rehash m.state.engine observers)
  | .igniteTnt p =>
      { m.withEngine (m.state.engine.igniteTnt p) with ignited := m.ignited ++ [(p, 0)] }
  | .incrementNote p => m.withEngine (m.state.engine.playNote p)
  | .setRepeaterDelay p delay strength =>
      m.withEngine { m.state.engine with
        repeaterDelays := m.state.engine.repeaterDelays ++ [(p, delay, strength)] }
  | .takeExplosions =>
      { m.withEngine { m.state.engine with pendingExplosions := [] } with
        exploded := m.exploded ++ m.state.engine.pendingExplosions }
  | .takeDispenserActivations =>
      { m.withEngine { m.state.engine with pendingDispenserActivations := [] } with
        returned := m.returned ++ m.state.engine.pendingDispenserActivations }
  | .detectRail p => m.withEngine (Redstone.detectRail m.state p)
  | .registerHopper p => { m with hoppers := m.hoppers ++ [(p, 8)] }
  | .removeHopper p => { m with hoppers := m.hoppers.filter fun h => h.1 ≠ p }
  | .tickHoppers => { m with hoppers := Redstone.tickHoppers m.hoppers }
  | .registerVibration p frequency => { m with vibrations := (p, frequency) :: m.vibrations }
  | .tickSculkSensors => { m with vibrations := [] }
  | .tick count =>
      { m with
        state := Redstone.tick count m.state.world m.state.engine
        ignited := age (m.ignited ++ ignitions count m.state)
        recorded := m.recorded ++ activations count m.state }

def run (w : World) (ops : List Operation) : Machine := ops.foldl perform (start w)

end Machine

/-! ## The range of the signals -/

theorem bounded_update {signals : SignalMap} (h : Bounded signals) (p : Pos) {v : Option Nat}
    (hv : v.getD 0 ≤ 15) : Bounded (Function.update signals p v) := by
  intro q
  unfold signalAt
  by_cases hq : q = p
  · subst hq
    rw [Function.update_self]
    exact hv
  · rw [Function.update_of_ne hq]
    exact h q

theorem bounded_runObservers (w : World) {e : Engine} (h : Bounded e.signalMap) :
    Bounded (runObservers w e).signalMap := by
  change Bounded ((observerPulses w e).foldl (fun m o => Function.update m o (some 15)) e.signalMap)
  generalize observerPulses w e = fired
  generalize e.signalMap = signals at h ⊢
  induction fired generalizing signals with
  | nil => exact h
  | cons o fired ih =>
      apply ih
      exact bounded_update h o (by simp)

/-! ### What the end of a tick leaves alone -/

section Frame

variable {B : Type} (field : Engine → B)

/-- Announcements change the queue only. -/
theorem frame_foldl_onBlockChange {A : Type} (h : ∀ e p, field (Engine.onBlockChange e p) = field e)
    (f : A → Pos) (l : List A) (e : Engine) :
    field (l.foldl (fun e a => e.onBlockChange (f a)) e) = field e := by
  induction l generalizing e with
  | nil => rfl
  | cons a l ih => exact (ih (e.onBlockChange (f a))).trans (h e (f a))

theorem frame_tickButtons (h : ∀ e p, field (Engine.onBlockChange e p) = field e)
    (hpulses : ∀ (e : Engine) pulses, field { e with pulses := pulses } = field e) (e : Engine) :
    field (tickButtons e) = field e :=
  (frame_foldl_onBlockChange field h id _ _).trans (hpulses e _)

theorem frame_tickRepeaters (h : ∀ e p, field (Engine.onBlockChange e p) = field e)
    (hdelays : ∀ (e : Engine) delays, field { e with repeaterDelays := delays } = field e)
    (e : Engine) : field (tickRepeaters e) = field e :=
  (frame_foldl_onBlockChange field h Prod.fst _ _).trans (hdelays e _)

theorem frame_decayObservers (h : ∀ (e : Engine) signals pending,
    field { e with signalMap := signals, pendingUpdates := pending } = field e)
    (fired : List Pos) (e : Engine) : field (decayObservers fired e) = field e := by
  unfold decayObservers
  dsimp only
  generalize (e.observerStates.map Prod.fst).filter _ = expired
  induction expired generalizing e with
  | nil => rfl
  | cons o expired ih => exact (ih _).trans (h e _ _)

end Frame

theorem bounded_decayObservers (fired : List Pos) {e : Engine} (h : Bounded e.signalMap) :
    Bounded (decayObservers fired e).signalMap := by
  unfold decayObservers
  dsimp only
  generalize (e.observerStates.map Prod.fst).filter _ = expired
  induction expired generalizing e with
  | nil => exact h
  | cons o expired ih =>
      apply ih
      exact bounded_update h o (by simp)

theorem bounded_tick (count : Pos → Nat) (w : World) {e : Engine} (h : Bounded e.signalMap) :
    Bounded (tick count w e).engine.signalMap := by
  have hstart : Bounded (startOf w e).engine.signalMap := bounded_runObservers w h
  have hvisits : Bounded (propagate count MAX_NODES_PER_TICK (startOf w e)).engine.signalMap :=
    bounded_propagate MAX_NODES_PER_TICK hstart
  apply bounded_decayObservers (observerPulses w e)
  change Bounded (tickRepeaters (tickButtons _)).signalMap
  rw [frame_tickRepeaters Engine.signalMap (fun _ _ => rfl) fun _ _ => rfl,
    frame_tickButtons Engine.signalMap (fun _ _ => rfl) fun _ _ => rfl]
  exact hvisits

theorem bounded_registerObserver {s : State} (h : Bounded s.engine.signalMap) (p : Pos) :
    Bounded (registerObserver s p).signalMap := by
  unfold registerObserver
  cases observedBlock s.world p with
  | none => exact h
  | some id => exact h

theorem bounded_detectRail {s : State} (h : Bounded s.engine.signalMap) (p : Pos) :
    Bounded (detectRail s p).signalMap := by
  unfold detectRail
  split
  · split
    · exact bounded_update h p (by simp)
    · exact h
  · exact h

/-- **Every operation keeps the signals in range.** -/
theorem bounded_perform {m : Machine} (h : Bounded m.state.engine.signalMap) (op : Operation) :
    Bounded (m.perform op).state.engine.signalMap := by
  cases op with
  | tick count => exact bounded_tick count m.state.world h
  | registerObserver p => exact bounded_registerObserver h p
  | detectRail p => exact bounded_detectRail h p
  | rehash observers =>
      change Bounded (rehash m.state.engine observers).signalMap
      unfold rehash
      split
      · exact h
      · exact h
  | _ => exact h

/-- **Signals stay in range**: after any operations on any chunks, whatever the provider counts, no
    signal is below 0 or above 15. -/
theorem bounded_run (w : World) (ops : List Operation) (p : Pos) :
    signalAt (Machine.run w ops).state.engine.signalMap p ≤ 15 := by
  have hrun : ∀ m : Machine, Bounded m.state.engine.signalMap →
      Bounded (ops.foldl Machine.perform m).state.engine.signalMap := by
    induction ops with
    | nil => exact fun m h => h
    | cons op ops ih => exact fun m h => ih _ (bounded_perform h op)
  exact hrun (Machine.start w) (fun _ => Nat.zero_le 15) p

/-! ## Operations that touch neither TNT nor activations -/

/-- A call that changes the observers or the signals only. -/
theorem registerObserver_eq (s : State) (p : Pos) :
    ∃ observers, registerObserver s p = { s.engine with observerStates := observers } := by
  unfold registerObserver
  cases observedBlock s.world p with
  | none => exact ⟨s.engine.observerStates, rfl⟩
  | some id => exact ⟨_, rfl⟩

theorem rehash_eq (e : Engine) (observers : List (Pos × BitVec 32)) :
    ∃ observers', rehash e observers = { e with observerStates := observers' } := by
  unfold rehash
  split
  · exact ⟨observers, rfl⟩
  · exact ⟨e.observerStates, rfl⟩

theorem detectRail_eq (s : State) (p : Pos) :
    ∃ signals, detectRail s p = { s.engine with signalMap := signals } := by
  unfold detectRail
  split
  · split
    · exact ⟨_, rfl⟩
    · exact ⟨s.engine.signalMap, rfl⟩
  · exact ⟨s.engine.signalMap, rfl⟩

/-- The TNT of the machine, with the explosions. -/
def Machine.tnt (m : Machine) :
    List (Pos × Nat) × List (Pos × Nat) × List (Pos × Nat) × List (Pos × Nat) :=
  (m.state.engine.tntFuses, m.state.engine.pendingExplosions, m.exploded, m.ignited)

/-- The activations of the machine. -/
def Machine.activated (m : Machine) : List Pos × List Pos × List Pos :=
  (m.state.engine.pendingDispenserActivations, m.recorded, m.returned)

theorem tnt_perform (m : Machine) (op : Operation) :
    (∃ p, op = .igniteTnt p) ∨ op = .takeExplosions ∨ (∃ count, op = .tick count) ∨
      (m.perform op).tnt = m.tnt := by
  cases op with
  | igniteTnt p => exact .inl ⟨p, rfl⟩
  | takeExplosions => exact .inr (.inl rfl)
  | tick count => exact .inr (.inr (.inl ⟨count, rfl⟩))
  | registerObserver p =>
      obtain ⟨observers, heq⟩ := registerObserver_eq m.state p
      simp [Machine.tnt, Machine.perform, Machine.withEngine, heq]
  | rehash observers =>
      obtain ⟨observers', heq⟩ := rehash_eq m.state.engine observers
      simp [Machine.tnt, Machine.perform, Machine.withEngine, heq]
  | detectRail p =>
      obtain ⟨signals, heq⟩ := detectRail_eq m.state p
      simp [Machine.tnt, Machine.perform, Machine.withEngine, heq]
  | _ => exact .inr (.inr (.inr rfl))

theorem activated_perform (m : Machine) (op : Operation) :
    op = .takeDispenserActivations ∨ (∃ count, op = .tick count) ∨
      (m.perform op).activated = m.activated := by
  cases op with
  | takeDispenserActivations => exact .inl rfl
  | tick count => exact .inr (.inl ⟨count, rfl⟩)
  | registerObserver p =>
      obtain ⟨observers, heq⟩ := registerObserver_eq m.state p
      simp [Machine.activated, Machine.perform, Machine.withEngine, heq]
  | rehash observers =>
      obtain ⟨observers', heq⟩ := rehash_eq m.state.engine observers
      simp [Machine.activated, Machine.perform, Machine.withEngine, heq]
  | detectRail p =>
      obtain ⟨signals, heq⟩ := detectRail_eq m.state p
      simp [Machine.activated, Machine.perform, Machine.withEngine, heq]
  | _ => exact .inr (.inr rfl)

/-! ## TNT -/

/-- The passes over the fuses that TNT burns for. -/
def FUSE : Nat := 80

/-- Each ignited TNT has exploded once or still burns; none has exploded before its fuse ran down,
    and none burns longer. -/
structure OnTime (m : Machine) : Prop where
  once : ∀ p, ((m.exploded ++ m.state.engine.pendingExplosions).map Prod.fst).count p +
    (m.state.engine.tntFuses.map Prod.fst).count p = (m.ignited.map Prod.fst).count p
  never_before : ∀ p, ((m.exploded ++ m.state.engine.pendingExplosions).map Prod.fst).count p ≤
    m.ignited.countP fun i => i.1 = p ∧ FUSE ≤ i.2
  in_time : ∀ p, (m.ignited.countP fun i => i.1 = p ∧ FUSE < i.2) ≤
    ((m.exploded ++ m.state.engine.pendingExplosions).map Prod.fst).count p

/-- TNT has no power of its own, so that no tick ignites it. -/
theorem effectivePower_tnt (count : Pos → Nat) (signals : SignalMap) (p : Pos) :
    effectivePower count signals p TNT_ID = 0 := by
  simp [effectivePower, power, componentPower, isConstantSource, isToggleComponent,
    isPulseComponent, isPressurePlate, isTripwireComponent, TNT_ID]

theorem reaction_of_componentAt {count : Pos → Nat} {s : State} {p : Pos} {id : Nat}
    (hid : componentAt s.world p = some id)
    (hnew : s.engine.signalMap p ≠ some (effectivePower count s.engine.signalMap p id)) :
    reaction count s p = some (id, effectivePower count s.engine.signalMap p id) := by
  rw [reaction_eq, hid]
  exact if_neg hnew

theorem effective_of_reaction {count : Pos → Nat} {s : State} {p : Pos} {id effective : Nat}
    (h : reaction count s p = some (id, effective)) :
    effective = effectivePower count s.engine.signalMap p id := by
  rw [reaction_eq] at h
  obtain ⟨id', _, h⟩ := Option.bind_eq_some_iff.1 h
  split at h
  · cases h
  · cases h
    rfl

theorem tntFuses_visit (count : Pos → Nat) (s : State) (p : Pos) :
    (visit count s p).engine.tntFuses = s.engine.tntFuses ∧
      (visit count s p).engine.pendingExplosions = s.engine.pendingExplosions := by
  unfold visit
  cases hr : reaction count s p with
  | none => exact ⟨rfl, rfl⟩
  | some r =>
      obtain ⟨id, effective⟩ := r
      have hdark : ¬ (id = 25 ∧ 0 < effective) := by
        rintro ⟨rfl, hpos⟩
        have hzero := (effective_of_reaction hr).trans (effectivePower_tnt ..)
        omega
      dsimp only
      rw [if_neg hdark]
      split_ifs <;> exact ⟨rfl, rfl⟩

theorem tntFuses_propagate (count : Pos → Nat) (n : Nat) (s : State) :
    (propagate count n s).engine.tntFuses = s.engine.tntFuses ∧
      (propagate count n s).engine.pendingExplosions = s.engine.pendingExplosions := by
  induction n generalizing s with
  | zero =>
      unfold propagate
      split
      · exact ⟨rfl, rfl⟩
      · exact ⟨rfl, rfl⟩
  | succ n ih =>
      unfold propagate
      split
      · exact ⟨rfl, rfl⟩
      · rename_i p rest _
        obtain ⟨hfuses, hpending⟩ := ih (visit count (s.take p rest) p)
        obtain ⟨hfuses', hpending'⟩ := tntFuses_visit count (s.take p rest) p
        exact ⟨hfuses.trans hfuses', hpending.trans hpending'⟩

theorem ignitions_eq (count : Pos → Nat) (s : State) : ignitions count s = [] := by
  unfold ignitions tickEnd
  rw [(tntFuses_propagate count MAX_NODES_PER_TICK (startOf s.world s.engine)).1]
  change (s.engine.tntFuses.drop s.engine.tntFuses.length).map _ = []
  rw [List.drop_length, List.map_nil]

/-- What a tick does to the fuses: those that still burn are dropped. -/
theorem tntFuses_tick (count : Pos → Nat) (w : World) (e : Engine) :
    (tick count w e).engine.tntFuses = e.tntFuses.filter (fun t => t.2 = 0) ∧
      (tick count w e).engine.pendingExplosions =
        e.pendingExplosions ++
          (e.tntFuses.filter fun t => t.2 = 0).map fun t : Pos × Nat => (t.1, 4) := by
  obtain ⟨hfuses, hpending⟩ := tntFuses_propagate count MAX_NODES_PER_TICK (startOf w e)
  have htimers : ∀ e : Engine, (tickRepeaters (tickButtons e)).tntFuses = e.tntFuses ∧
      (tickRepeaters (tickButtons e)).pendingExplosions = e.pendingExplosions := by
    intro e
    constructor
    · rw [frame_tickRepeaters Engine.tntFuses (fun _ _ => rfl) fun _ _ => rfl,
        frame_tickButtons Engine.tntFuses (fun _ _ => rfl) fun _ _ => rfl]
    · rw [frame_tickRepeaters Engine.pendingExplosions (fun _ _ => rfl) fun _ _ => rfl,
        frame_tickButtons Engine.pendingExplosions (fun _ _ => rfl) fun _ _ => rfl]
  obtain ⟨htimer, htimer'⟩ := htimers (propagate count MAX_NODES_PER_TICK (startOf w e)).engine
  constructor
  · refine (frame_decayObservers Engine.tntFuses (fun _ _ _ => rfl) _ _).trans ?_
    change (tickRepeaters (tickButtons _)).tntFuses.filter _ = _
    rw [htimer, hfuses]
    rfl
  · refine (frame_decayObservers Engine.pendingExplosions (fun _ _ _ => rfl) _ _).trans ?_
    change (tickRepeaters (tickButtons _)).pendingExplosions ++
      ((tickRepeaters (tickButtons _)).tntFuses.filter _).map _ = _
    rw [htimer, htimer', hfuses, hpending]
    rfl

/-- No fuse has run down, and nothing has exploded. -/
structure Dormant (m : Machine) : Prop where
  fuses : ∀ f ∈ m.state.engine.tntFuses, f.2 = FUSE
  pending : m.state.engine.pendingExplosions = []
  exploded : m.exploded = []

/-- Every TNT that was ignited burns since the last pass over the fuses. -/
def AllBurning (m : Machine) : Prop :=
  m.ignited = m.state.engine.tntFuses.map fun f => (f.1, 0)

/-- Some TNT is neither burning nor exploded. -/
def Dropped (m : Machine) : Prop :=
  ∃ p, (m.state.engine.tntFuses.map Prod.fst).count p < (m.ignited.map Prod.fst).count p

theorem Dormant.filter_eq {m : Machine} (h : Dormant m) :
    m.state.engine.tntFuses.filter (fun t => t.2 = 0) = [] := by
  rw [List.filter_eq_nil_iff]
  intro f hf
  rw [h.fuses f hf]
  decide

/-- **Nothing ever explodes.** -/
theorem dormant_perform {m : Machine} (h : Dormant m) (op : Operation) : Dormant (m.perform op) := by
  obtain ⟨p, rfl⟩ | rfl | ⟨count, rfl⟩ | hsame := tnt_perform m op
  · refine ⟨fun f hf => ?_, h.pending, h.exploded⟩
    rcases List.mem_append.1 hf with hold | hnew
    · exact h.fuses f hold
    · rw [List.mem_singleton.1 hnew]
      rfl
  · refine ⟨h.fuses, rfl, ?_⟩
    change m.exploded ++ m.state.engine.pendingExplosions = []
    rw [h.exploded, h.pending]
    rfl
  · obtain ⟨hfuses, hpending⟩ := tntFuses_tick count m.state.world m.state.engine
    rw [h.filter_eq] at hfuses hpending
    refine ⟨fun f hf => ?_, hpending.trans (by rw [h.pending]; rfl), h.exploded⟩
    change f ∈ (tick count m.state.world m.state.engine).engine.tntFuses at hf
    rw [hfuses] at hf
    cases hf
  · simp only [Machine.tnt, Prod.mk.injEq] at hsame
    obtain ⟨hfuses, hpending, hexploded, _⟩ := hsame
    exact ⟨hfuses ▸ h.fuses, hpending.trans h.pending, hexploded.trans h.exploded⟩

theorem map_fst_age (lit : List (Pos × Nat)) : (age lit).map Prod.fst = lit.map Prod.fst := by
  unfold age
  rw [List.map_map]
  rfl

/-- A tick counts a pass for every TNT that was ignited. -/
theorem ignited_tick (m : Machine) (count : Pos → Nat) :
    (m.perform (.tick count)).ignited = age m.ignited := by
  change age (m.ignited ++ ignitions count m.state) = _
  rw [ignitions_eq, List.append_nil]

/-- What was dropped stays so. -/
theorem dropped_perform {m : Machine} (hdormant : Dormant m) (h : Dropped m) (op : Operation) :
    Dropped (m.perform op) := by
  obtain ⟨p, hp⟩ := h
  refine ⟨p, ?_⟩
  obtain ⟨q, rfl⟩ | rfl | ⟨count, rfl⟩ | hsame := tnt_perform m op
  · change ((m.state.engine.tntFuses ++ [(q, 80)]).map Prod.fst).count p <
      ((m.ignited ++ [(q, 0)]).map Prod.fst).count p
    simp only [List.map_append, List.map_cons, List.map_nil, List.count_append]
    omega
  · exact hp
  · have hfuses := (tntFuses_tick count m.state.world m.state.engine).1
    rw [hdormant.filter_eq] at hfuses
    rw [ignited_tick, map_fst_age]
    change ((tick count m.state.world m.state.engine).engine.tntFuses.map Prod.fst).count p < _
    rw [hfuses, List.map_nil, List.count_nil]
    omega
  · simp only [Machine.tnt, Prod.mk.injEq] at hsame
    obtain ⟨hfuses, _, _, hignited⟩ := hsame
    rw [hfuses, hignited]
    exact hp

/-- No tick starts while a fuse burns. -/
def Unhurried (m : Machine) : Operation → Prop
  | .tick _ => m.state.engine.tntFuses = []
  | _ => True

theorem allBurning_perform {m : Machine} (h : AllBurning m) {op : Operation}
    (hop : Unhurried m op) : AllBurning (m.perform op) := by
  unfold AllBurning at h
  obtain ⟨p, rfl⟩ | rfl | ⟨count, rfl⟩ | hsame := tnt_perform m op
  · change m.ignited ++ [(p, 0)] =
      (m.state.engine.tntFuses ++ [(p, 80)]).map fun f : Pos × Nat => (f.1, 0)
    rw [h, List.map_append]
    rfl
  · exact h
  · have hnone : m.state.engine.tntFuses = [] := hop
    have hfuses := (tntFuses_tick count m.state.world m.state.engine).1
    rw [hnone, List.filter_nil] at hfuses
    rw [hnone] at h
    unfold AllBurning
    rw [ignited_tick, h]
    change age [] = (tick count m.state.world m.state.engine).engine.tntFuses.map _
    rw [hfuses]
    rfl
  · simp only [Machine.tnt, Prod.mk.injEq] at hsame
    obtain ⟨hfuses, _, _, hignited⟩ := hsame
    unfold AllBurning
    rw [hfuses, hignited]
    exact h

/-- A tick that starts with a burning fuse drops it. -/
theorem dropped_of_hurried {m : Machine} (hdormant : Dormant m) (h : AllBurning m) {op : Operation}
    (hop : ¬ Unhurried m op) : Dropped (m.perform op) := by
  cases op with
  | tick count =>
      cases hfuses : m.state.engine.tntFuses with
      | nil => exact absurd hfuses hop
      | cons f fuses =>
          refine ⟨f.1, ?_⟩
          have hafter := (tntFuses_tick count m.state.world m.state.engine).1
          rw [hdormant.filter_eq] at hafter
          rw [ignited_tick, map_fst_age, h, hfuses]
          change ((tick count m.state.world m.state.engine).engine.tntFuses.map Prod.fst).count f.1 < _
          rw [hafter]
          simp
  | _ => exact absurd trivial hop

theorem onTime_of_allBurning {m : Machine} (hdormant : Dormant m) (h : AllBurning m) : OnTime m := by
  have hnone : (m.exploded ++ m.state.engine.pendingExplosions).map Prod.fst = [] := by
    rw [hdormant.exploded, hdormant.pending]
    rfl
  refine ⟨fun p => ?_, fun p => ?_, fun p => ?_⟩
  · rw [hnone, h, List.map_map]
    simp only [List.count_nil, Nat.zero_add]
    rfl
  · rw [hnone]
    exact Nat.zero_le _
  · rw [hnone, h, List.countP_map, List.count_nil, Nat.le_zero, List.countP_eq_zero]
    intro f _
    simp [FUSE]

theorem not_onTime_of_dropped {m : Machine} (hdormant : Dormant m) (h : Dropped m) : ¬ OnTime m := by
  rintro ⟨honce, _, _⟩
  obtain ⟨p, hp⟩ := h
  have hp' := honce p
  rw [hdormant.exploded, hdormant.pending] at hp'
  simp only [List.append_nil, List.map_nil, List.count_nil] at hp'
  omega

theorem not_onTime_foldl {m : Machine} (hdormant : Dormant m) (h : Dropped m)
    (ops : List Operation) : ¬ OnTime (ops.foldl Machine.perform m) := by
  induction ops generalizing m with
  | nil => exact not_onTime_of_dropped hdormant h
  | cons op ops ih => exact ih (dormant_perform hdormant op) (dropped_perform hdormant h op)

theorem onTime_foldl {m : Machine} (hdormant : Dormant m) (h : AllBurning m)
    (ops : List Operation) : OnTime (ops.foldl Machine.perform m) ↔
      Along Machine.perform Unhurried m ops := by
  induction ops generalizing m with
  | nil => exact iff_of_true (onTime_of_allBurning hdormant h) trivial
  | cons op ops ih =>
      have hdormant' := dormant_perform hdormant op
      by_cases hop : Unhurried m op
      · exact (ih hdormant' (allBurning_perform h hop)).trans (and_iff_right hop).symm
      · refine iff_of_false ?_ fun hrun => hop hrun.1
        exact not_onTime_foldl hdormant' (dropped_of_hurried hdormant h hop) ops

theorem dormant_start (w : World) : Dormant (Machine.start w) :=
  ⟨fun _ hf => absurd hf List.not_mem_nil, rfl, rfl⟩

/-- **TNT explodes on time as long as no tick starts with a burning fuse**, so that it never
    explodes: the pass over the fuses drops what still burns. -/
theorem onTime_iff (w : World) (ops : List Operation) :
    OnTime (Machine.run w ops) ↔ Along Machine.perform Unhurried (Machine.start w) ops :=
  onTime_foldl (dormant_start w) rfl ops

/-- TNT is ignited, and the engine ticks. -/
theorem not_forall_onTime : ¬ ∀ (w : World) (ops : List Operation), OnTime (Machine.run w ops) := by
  intro hall
  have htime := hall openSky [.igniteTnt origin, .tick nobody]
  have halong := (onTime_foldl (dormant_start openSky) rfl _).1 htime
  have hnone : (Machine.start openSky |>.perform (.igniteTnt origin)).state.engine.tntFuses = [] :=
    halong.2.1
  cases hnone

/-! ## Activations -/

/-- Every activation that a tick recorded was returned once, or waits for the next call. -/
def Delivered (m : Machine) : Prop :=
  m.recorded.Perm (m.returned ++ m.state.engine.pendingDispenserActivations)

/-- No tick records an activation: it turns no dispenser and no dropper on. -/
def Idle (m : Machine) : Operation → Prop
  | .tick count => ∀ t ∈ tickTurns count m.state, turnsOn count DISPENSERS t = false
  | _ => True

/-- Nothing is handed out, and nothing waits. -/
structure Forgotten (m : Machine) : Prop where
  pending : m.state.engine.pendingDispenserActivations = []
  returned : m.returned = []

theorem forgotten_perform {m : Machine} (h : Forgotten m) (op : Operation) :
    Forgotten (m.perform op) := by
  obtain rfl | ⟨count, rfl⟩ | hsame := activated_perform m op
  · refine ⟨rfl, ?_⟩
    change m.returned ++ m.state.engine.pendingDispenserActivations = []
    rw [h.returned, h.pending]
    rfl
  · exact ⟨rfl, h.returned⟩
  · simp only [Machine.activated, Prod.mk.injEq] at hsame
    obtain ⟨hpending, _, hreturned⟩ := hsame
    exact ⟨hpending.trans h.pending, hreturned.trans h.returned⟩

theorem pendingDispenserActivations_visit (count : Pos → Nat) (s : State) (p : Pos) :
    (visit count s p).engine.pendingDispenserActivations = s.engine.pendingDispenserActivations ++
      if turnsOn count DISPENSERS (s, p) then [p] else [] := by
  unfold visit turnsOn
  cases hr : reaction count s p with
  | none => simp
  | some r =>
      obtain ⟨id, effective⟩ := r
      dsimp only
      by_cases hpush : id ∈ DISPENSERS ∧ 0 < effective
      · rw [if_pos (show id ∈ [23, 158] ∧ 0 < effective from hpush), if_pos (decide_eq_true hpush)]
        split_ifs <;> rfl
      · rw [if_neg (show ¬ (id ∈ [23, 158] ∧ 0 < effective) from hpush),
          if_neg fun h => hpush (of_decide_eq_true h), List.append_nil]
        split_ifs <;> rfl

/-- A propagation pushes the dispensers and the droppers that it turns on. -/
theorem pendingDispenserActivations_propagate (count : Pos → Nat) (n : Nat) (s : State) :
    (propagate count n s).engine.pendingDispenserActivations =
      s.engine.pendingDispenserActivations ++
        ((turns count n s).filter (turnsOn count DISPENSERS)).map Prod.snd := by
  induction n generalizing s with
  | zero =>
      unfold propagate turns
      split
      · exact (List.append_nil _).symm
      · exact (List.append_nil _).symm
  | succ n ih =>
      unfold propagate turns
      split
      · exact (List.append_nil _).symm
      · rename_i p rest _
        rw [ih, pendingDispenserActivations_visit, List.filter_cons, List.append_assoc]
        split_ifs
        · rfl
        · rfl

theorem activations_eq (count : Pos → Nat) (s : State) : activations count s =
    ((tickTurns count s).filter (turnsOn count DISPENSERS)).map Prod.snd := by
  unfold activations tickEnd
  rw [pendingDispenserActivations_propagate]
  exact List.drop_left

theorem activations_eq_nil_iff (count : Pos → Nat) (s : State) :
    activations count s = [] ↔ ∀ t ∈ tickTurns count s, turnsOn count DISPENSERS t = false := by
  rw [activations_eq, List.map_eq_nil_iff, List.filter_eq_nil_iff]
  simp only [Bool.not_eq_true]

theorem recorded_perform (m : Machine) (op : Operation) :
    ∃ new, (m.perform op).recorded = m.recorded ++ new ∧ (new = [] ↔ Idle m op) := by
  obtain rfl | ⟨count, rfl⟩ | hsame := activated_perform m op
  · exact ⟨[], (List.append_nil _).symm, iff_of_true rfl trivial⟩
  · exact ⟨activations count m.state, rfl, activations_eq_nil_iff count m.state⟩
  · simp only [Machine.activated, Prod.mk.injEq] at hsame
    cases op with
    | tick count =>
        exact ⟨activations count m.state, rfl, activations_eq_nil_iff count m.state⟩
    | _ => exact ⟨[], hsame.2.1.trans (List.append_nil _).symm, iff_of_true rfl trivial⟩

theorem recorded_foldl (ops : List Operation) (m : Machine) :
    (ops.foldl Machine.perform m).recorded = [] ↔
      m.recorded = [] ∧ Along Machine.perform Idle m ops := by
  induction ops generalizing m with
  | nil => exact (and_iff_left trivial).symm
  | cons op ops ih =>
      obtain ⟨new, hrecorded, hidle⟩ := recorded_perform m op
      rw [List.foldl_cons, ih, hrecorded, List.append_eq_nil_iff, hidle, and_assoc]
      rfl

theorem delivered_foldl {m : Machine} (h : Forgotten m) (ops : List Operation) :
    Delivered (ops.foldl Machine.perform m) ↔
      m.recorded = [] ∧ Along Machine.perform Idle m ops := by
  rw [← recorded_foldl]
  have hend : Forgotten (ops.foldl Machine.perform m) := by
    induction ops generalizing m with
    | nil => exact h
    | cons op ops ih => exact ih (forgotten_perform h op)
  unfold Delivered
  rw [hend.returned, hend.pending]
  exact List.perm_nil

/-- **The activations reach their consumer as long as no tick records one**, so that none is ever
    returned: the tick that records an activation forgets it. -/
theorem delivered_run_iff (w : World) (ops : List Operation) :
    Delivered (Machine.run w ops) ↔ Along Machine.perform Idle (Machine.start w) ops :=
  (delivered_foldl ⟨rfl, rfl⟩ ops).trans (and_iff_right rfl)

def above : Pos := ⟨0#32, 65#32, 0#32⟩

/-- A dispenser with a detector rail on it. -/
def railed : World := built [(origin, BlockState.new 23#32), (above, BlockState.new 28#32)]

theorem idAt_railed (q : Pos) : idAt railed q =
    some (if q = above then 28#32 else if q = origin then 23#32 else 0#32) :=
  idAt_built (by decide) q

theorem idAt_railed_above : idAt railed above = some DETECTOR_RAIL_ID := by
  rw [idAt_railed, if_pos rfl]
  rfl

theorem componentAt_railed : componentAt railed origin = some 23 := by
  rw [componentAt_eq, idAt_railed, if_neg (by decide), if_pos rfl]
  rfl

theorem detectRail_of_idAt {s : State} {p : Pos} (h : idAt s.world p = some DETECTOR_RAIL_ID) :
    detectRail s p =
      { s.engine with signalMap := Function.update s.engine.signalMap p (some 15) } := by
  obtain ⟨c, hc, hid⟩ := Option.map_eq_some_iff.1 h
  unfold detectRail
  rw [hc]
  exact if_pos hid

theorem mem_turns_of_next {count : Pos → Nat} {n : Nat} {s : State} {p : Pos} {rest : List Pos}
    (h : s.engine.next = some (p, rest)) : (s.take p rest, p) ∈ turns count (n + 1) s := by
  unfold turns
  rw [h]
  exact List.mem_cons_self

/-- The first position in the queue has the first turn of a tick without observers. -/
theorem mem_tickTurns {count : Pos → Nat} {s : State} (h : Plain s.engine) {p : Pos}
    {rest : List Pos} (hpending : s.engine.pendingUpdates = p :: rest) :
    (s.take p rest, p) ∈ tickTurns count s := by
  have hnext : s.engine.next = some (p, rest) := by
    unfold Engine.next
    rw [hpending, h.processed]
    rfl
  have hbudget : MAX_NODES_PER_TICK = 4095 + 1 := by decide
  unfold tickTurns
  rw [startOf_of_plain h, hbudget]
  exact mem_turns_of_next hnext

/-- A minecart stands on the rail, and the dispenser under it is announced. -/
def announced (w : World) : Machine :=
  ((Machine.start w).perform (.detectRail above)).perform (.onBlockChange origin)

section

variable {w : World} (hrail : idAt w above = some DETECTOR_RAIL_ID)

include hrail

theorem engine_announced : (announced w).state.engine =
    { Engine.new with
      signalMap := Function.update (fun _ => none) above (some 15)
      pendingUpdates := [origin] } := by
  change (detectRail (Machine.start w).state above).onBlockChange origin = _
  rw [detectRail_of_idAt (p := above) hrail]
  rfl

theorem reaction_announced (hdispenser : componentAt w origin = some 23) :
    reaction nobody ((announced w).state.take origin []) origin = some (23, 15) := by
  have hsignals : (announced w).state.engine.signalMap =
      Function.update (fun _ => none) above (some 15) := by rw [engine_announced hrail]
  have hpower : effectivePower nobody (announced w).state.engine.signalMap origin 23 = 15 := by
    rw [hsignals]
    decide
  have hnew : (announced w).state.engine.signalMap origin ≠
      some (effectivePower nobody (announced w).state.engine.signalMap origin 23) := by
    rw [hpower, hsignals]
    decide
  have hr := reaction_of_componentAt (s := (announced w).state.take origin []) hdispenser hnew
  exact hr.trans (congrArg (fun v => some (23, v)) hpower)

theorem not_idle_announced (hdispenser : componentAt w origin = some 23) :
    ¬ Idle (announced w) (.tick nobody) := by
  intro hidle
  have hplain : Plain (announced w).state.engine := by
    rw [engine_announced hrail]
    exact ⟨rfl, rfl, rfl, rfl⟩
  have hpending : (announced w).state.engine.pendingUpdates = [origin] := by
    rw [engine_announced hrail]
  have hdark := hidle _ (mem_tickTurns hplain hpending)
  unfold turnsOn at hdark
  rw [reaction_announced hrail hdispenser] at hdark
  cases hdark

end

/-- The tick after that records an activation and forgets it. -/
theorem not_forall_delivered_run :
    ¬ ∀ (w : World) (ops : List Operation), Delivered (Machine.run w ops) := by
  intro hall
  have hdelivered := hall railed [.detectRail above, .onBlockChange origin, .tick nobody]
  have hidle := ((delivered_foldl (m := Machine.start railed) ⟨rfl, rfl⟩ _).1 hdelivered).2
  exact not_idle_announced idAt_railed_above componentAt_railed hidle.2.2.1

end Apoptotic.Redstone
