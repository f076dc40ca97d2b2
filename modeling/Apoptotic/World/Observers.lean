import Apoptotic.Lib.Guards
import Apoptotic.World.RedstoneRuns

/-!
# Observers

The observers of `RedstoneEngine` in `mc-world/src/redstone.rs` over any operations of the engine.  Their
map is a `DashMap`: who iterates holds the shard of the entry that it is at, and `insert` asks for the
shard of its key.  All other locks are taken to be granted.

Beside the engine is kept what stood ahead of each registered observer when it was last looked at, by its
registration or by a tick.

Principal result: `pulsing_iff` — ticks finish, pulse on change and only then, and observers that are
removed leave no signal, exactly when no tick finds a change and no observer is removed with a signal on it.
-/

namespace Apoptotic.Redstone

open Guards Guards.Uses

/-! ## The guards of a tick -/

/-- An entry is compared under the iterator's guard, and written there when it fires. -/
def detectUses (w : World) (o : Pos × BitVec 32) : Uses Pos :=
  under ⟨.shared, o.1⟩ (if observerFires w o then touch ⟨.exclusive, o.1⟩ else done)

/-- The detection, and the decay of the pulses, which only reads. -/
def observerStateUses (w : World) (observers : List (Pos × BitVec 32)) : Uses Pos :=
  each (detectUses w) observers ++ each (fun o => touch ⟨.shared, o.1⟩) observers

/-- The tick gets the shards of the observers, whatever they are. -/
def Finishes (s : State) : Prop :=
  ∀ shard : Pos → Nat, Completes rwLock shard (observerStateUses s.world s.engine.observerStates)

/-! ## What was last seen -/

/-- A machine, with the block last seen ahead of each registered observer. -/
structure Watch where
  machine : Machine
  seen : Pos → Option (BitVec 32)

namespace Watch

/-- What stands ahead of an observer now is another block than was last seen. -/
def Changed (s : Watch) (p : Pos) : Prop :=
  ∃ old new, s.seen p = some old ∧ observedBlock s.machine.state.world p = some new ∧ new ≠ old

/-- What registrations and ticks see. -/
def look (s : Watch) : Operation → Pos → Option (BitVec 32)
  | .registerObserver p => Function.update s.seen p
      ((observedBlock s.machine.state.world p).or (s.seen p))
  | .removeObserver p => Function.update s.seen p none
  | .tick _ => fun p => (s.seen p).map fun old => (observedBlock s.machine.state.world p).getD old
  | _ => s.seen

def perform (s : Watch) (op : Operation) : Watch := ⟨s.machine.perform op, s.look op⟩

def start (w : World) : Watch := ⟨Machine.start w, fun _ => none⟩

/-- The signal at a position. -/
def signal (s : Watch) : SignalMap := s.machine.state.engine.signalMap

/-! ## The law -/

/-- A tick finishes, and outputs 15 for the observers ahead of which something changed and for no
others; an observer that is removed leaves no signal. -/
def Pulsing (s : Watch) : Operation → Prop
  | .tick count => Finishes s.machine.state ∧
      ∀ p, (s.seen p).isSome → ((s.perform (.tick count)).signal p = some 15 ↔ s.Changed p)
  | .removeObserver p => (s.seen p).isSome → signalAt (s.perform (.removeObserver p)).signal p = 0
  | _ => True

/-- No change is found, and no observer is removed with a signal on it. -/
def Quiet (s : Watch) : Operation → Prop
  | .tick _ => ∀ p, ¬s.Changed p
  | .removeObserver p => (s.seen p).isSome → signalAt s.signal p = 0
  | _ => True

end Watch

/-! ## The map of the observers -/

/-- **A tick gets its shards exactly when no observer fires.** -/
theorem finishes_iff (s : State) :
    Finishes s ↔ ∀ o ∈ s.engine.observerStates, observerFires s.world o = false := by
  unfold Finishes observerStateUses
  rw [forall_completes_iff, unnested_append, unnested_each, unnested_each]
  have hdecay : ∀ o ∈ s.engine.observerStates,
      (touch ⟨.shared, o.1⟩ : Uses Pos).Unnested rwLock [] := by
    intro o _
    simp
  rw [and_iff_left hdecay]
  refine forall₂_congr fun o _ => ?_
  unfold detectUses
  cases observerFires s.world o with
  | true => simp [rwLock]
  | false => simp

/-- What the map holds is what was last seen. -/
def Watch.Recorded (s : Watch) : Prop :=
  ∀ p id, (p, id) ∈ s.machine.state.engine.observerStates ↔ s.seen p = some id

theorem mem_insertObserver {observers : List (Pos × BitVec 32)} {p q : Pos} {id i : BitVec 32} :
    (q, i) ∈ insertObserver observers p id ↔ q = p ∧ i = id ∨ q ≠ p ∧ (q, i) ∈ observers := by
  unfold insertObserver
  split
  · rename_i hmem
    rw [List.mem_map]
    constructor
    · rintro ⟨o, ho, heq⟩
      split at heq
      · cases heq
        exact .inl ⟨rfl, rfl⟩
      · rename_i hne
        rw [heq] at ho hne
        exact .inr ⟨hne, ho⟩
    · rintro (⟨rfl, rfl⟩ | ⟨hne, ho⟩)
      · obtain ⟨o, ho, rfl⟩ := List.mem_map.1 hmem
        exact ⟨o, ho, if_pos rfl⟩
      · exact ⟨(q, i), ho, if_neg hne⟩
  · rename_i hnot
    have hne : (q, i) ∈ observers → q ≠ p := by
      rintro ho rfl
      exact hnot (List.mem_map_of_mem ho)
    rw [List.mem_append, List.mem_singleton, Prod.mk.injEq]
    constructor
    · rintro (ho | heq)
      · exact .inr ⟨hne ho, ho⟩
      · exact .inl heq
    · rintro (heq | ⟨-, ho⟩)
      · exact .inr heq
      · exact .inl ho

theorem observerFires_iff {w : World} {p : Pos} {old : BitVec 32} :
    observerFires w (p, old) = true ↔ ∃ new, observedBlock w p = some new ∧ new ≠ old := by
  unfold observerFires
  dsimp only
  cases observedBlock w p with
  | none => simp
  | some new => simp

theorem observerStates_tick (count : Pos → Nat) (w : World) (e : Engine) :
    (tick count w e).engine.observerStates =
      e.observerStates.map fun o => (o.1, (observedBlock w o.1).getD o.2) := by
  have hvisits := (timers_propagate count MAX_NODES_PER_TICK (startOf w e)).1
  unfold tick
  dsimp only
  rw [frame_decayObservers Engine.observerStates fun _ _ _ => rfl]
  change (tickRepeaters (tickButtons _)).observerStates = _
  rw [frame_tickRepeaters Engine.observerStates (fun _ _ => rfl) fun _ _ => rfl,
    frame_tickButtons Engine.observerStates (fun _ _ => rfl) fun _ _ => rfl, hvisits]
  rfl

namespace Watch

variable {s : Watch}

theorem changed_iff (h : s.Recorded) (p : Pos) : s.Changed p ↔
    ∃ old, (p, old) ∈ s.machine.state.engine.observerStates ∧
      observerFires s.machine.state.world (p, old) = true := by
  unfold Changed
  simp only [h p, observerFires_iff]
  constructor
  · rintro ⟨old, new, hseen, hblock, hne⟩
    exact ⟨old, hseen, new, hblock, hne⟩
  · rintro ⟨old, hseen, new, hblock, hne⟩
    exact ⟨old, new, hseen, hblock, hne⟩

theorem recorded_start (w : World) : (start w).Recorded := by
  intro p id
  refine iff_of_false ?_ ?_
  · exact List.not_mem_nil
  · intro h
    cases h

theorem recorded_registerObserver (h : s.Recorded) (p : Pos) :
    (s.perform (.registerObserver p)).Recorded := by
  intro q id
  change (q, id) ∈ (registerObserver s.machine.state p).observerStates ↔
    Function.update s.seen p ((observedBlock s.machine.state.world p).or (s.seen p)) q = some id
  unfold registerObserver
  cases observedBlock s.machine.state.world p with
  | none =>
      rw [Option.none_or, Function.update_eq_self]
      exact h q id
  | some block =>
      change (q, id) ∈ insertObserver _ p block ↔ _
      rw [mem_insertObserver, h q id]
      by_cases hq : q = p
      · subst hq
        simp [eq_comm]
      · simp [hq]

theorem recorded_removeObserver (h : s.Recorded) (p : Pos) :
    (s.perform (.removeObserver p)).Recorded := by
  intro q id
  change (q, id) ∈ s.machine.state.engine.observerStates.filter (fun o => o.1 ≠ p) ↔
    Function.update s.seen p none q = some id
  rw [List.mem_filter, h q id]
  by_cases hq : q = p
  · subst hq
    simp
  · simp [hq]

theorem recorded_rehash (h : s.Recorded) (observers : List (Pos × BitVec 32)) :
    (s.perform (.rehash observers)).Recorded := by
  intro q id
  change (q, id) ∈ (rehash s.machine.state.engine observers).observerStates ↔ s.seen q = some id
  unfold rehash
  split
  · rename_i hperm
    exact hperm.mem_iff.trans (h q id)
  · exact h q id

theorem recorded_detectRail (h : s.Recorded) (p : Pos) :
    (s.perform (.detectRail p)).Recorded := by
  intro q id
  obtain ⟨signals, heq⟩ := detectRail_eq s.machine.state p
  change (q, id) ∈ (detectRail s.machine.state p).observerStates ↔ s.seen q = some id
  rw [heq]
  exact h q id

theorem recorded_tick (h : s.Recorded) (count : Pos → Nat) : (s.perform (.tick count)).Recorded := by
  intro q id
  change (q, id) ∈ (tick count s.machine.state.world s.machine.state.engine).engine.observerStates ↔
    (s.seen q).map (fun old => (observedBlock s.machine.state.world q).getD old) = some id
  rw [observerStates_tick, List.mem_map, Option.map_eq_some_iff]
  constructor
  · rintro ⟨⟨p, old⟩, hmem, heq⟩
    cases heq
    exact ⟨old, (h p old).1 hmem, rfl⟩
  · rintro ⟨old, hseen, rfl⟩
    exact ⟨(q, old), (h q old).2 hseen, rfl⟩

/-- **Every operation keeps the map what was last seen.** -/
theorem recorded_perform (h : s.Recorded) (op : Operation) : (s.perform op).Recorded := by
  cases op with
  | registerObserver p => exact recorded_registerObserver h p
  | removeObserver p => exact recorded_removeObserver h p
  | rehash observers => exact recorded_rehash h observers
  | detectRail p => exact recorded_detectRail h p
  | tick count => exact recorded_tick h count
  | _ => exact h

end Watch

/-! ## Pulses -/

theorem signalMap_decayObservers (fired : List Pos) (e : Engine) (p : Pos) :
    (decayObservers fired e).signalMap p =
      if p ∈ e.observerStates.map Prod.fst ∧ e.signalMap p = some 15 ∧ p ∉ fired then none
      else e.signalMap p := by
  have hclear : ∀ (expired : List Pos) (e : Engine), (expired.foldl (fun e o => { e with
      signalMap := Function.update e.signalMap o none
      pendingUpdates := e.pendingUpdates ++ sideways.map fun d => o + d }) e).signalMap p =
      if p ∈ expired then none else e.signalMap p := by
    intro expired
    induction expired with
    | nil => intro e; rfl
    | cons o expired ih =>
        intro e
        rw [List.foldl_cons, ih]
        by_cases hp : p = o
        · simp [hp]
        · simp [hp]
  unfold decayObservers
  dsimp only
  rw [hclear]
  simp only [List.mem_filter, Bool.decide_and, Bool.and_eq_true, decide_eq_true_eq]

/-- After a tick, only an observer that fired has a signal of 15. -/
theorem signalMap_tick_ne (count : Pos → Nat) (w : World) {e : Engine} {p : Pos}
    (hp : p ∈ e.observerStates.map Prod.fst) (hquiet : p ∉ observerPulses w e) :
    (tick count w e).engine.signalMap p ≠ some 15 := by
  unfold tick
  dsimp only
  rw [signalMap_decayObservers]
  have hkeys : p ∈ (tickFuses (tickRepeaters (tickButtons
      (propagate count MAX_NODES_PER_TICK (startOf w e)).engine))).observerStates.map Prod.fst := by
    change p ∈ (tickRepeaters (tickButtons _)).observerStates.map Prod.fst
    rw [frame_tickRepeaters Engine.observerStates (fun _ _ => rfl) fun _ _ => rfl,
      frame_tickButtons Engine.observerStates (fun _ _ => rfl) fun _ _ => rfl,
      (timers_propagate count MAX_NODES_PER_TICK (startOf w e)).1]
    change p ∈ (e.observerStates.map fun o => (o.1, (observedBlock w o.1).getD o.2)).map Prod.fst
    rwa [List.map_map]
  split
  · simp
  · rename_i hnot
    exact fun h15 => hnot ⟨hkeys, h15, hquiet⟩

namespace Watch

variable {s : Watch}

/-- **An operation is as it should be exactly when it is quiet.** -/
theorem pulsing_iff_quiet (h : s.Recorded) (op : Operation) : s.Pulsing op ↔ s.Quiet op := by
  cases op with
  | tick count =>
      have hfinishes : Finishes s.machine.state ↔ ∀ p, ¬s.Changed p := by
        rw [finishes_iff]
        simp only [changed_iff h]
        constructor
        · rintro hquiet p ⟨old, hmem, hfires⟩
          exact Bool.false_ne_true ((hquiet _ hmem).symm.trans hfires)
        · intro hquiet o hmem
          exact Bool.eq_false_iff.2 fun hfires => hquiet o.1 ⟨o.2, hmem, hfires⟩
      change _ ∧ _ ↔ _
      rw [hfinishes]
      refine and_iff_left_of_imp fun hquiet p hp => iff_of_false ?_ (hquiet p)
      obtain ⟨old, hold⟩ := Option.isSome_iff_exists.1 hp
      refine signalMap_tick_ne count s.machine.state.world
        (List.mem_map_of_mem ((h p old).2 hold)) fun hfired => ?_
      obtain ⟨o, ho, rfl⟩ := List.mem_map.1 hfired
      obtain ⟨hmem, hfires⟩ := List.mem_filter.1 ho
      exact hquiet o.1 ((changed_iff h o.1).2 ⟨o.2, hmem, hfires⟩)
  | removeObserver p => exact Iff.rfl
  | _ => exact Iff.rfl

end Watch

/-- **Observers pulse as they should in a run exactly when the run is quiet.** -/
theorem pulsing_iff (w : World) (ops : List Operation) :
    Along Watch.perform Watch.Pulsing (Watch.start w) ops ↔
      Along Watch.perform Watch.Quiet (Watch.start w) ops :=
  along_iff Watch.Recorded (fun _ op h => Watch.pulsing_iff_quiet h op)
    (fun _ op h _ => Watch.recorded_perform h op) (Watch.recorded_start w) ops

/-! ## A block placed ahead of an observer -/

theorem observedBlock_eq {w : World} {o : Pos} (h : (w (chunkOf o)).isSome) :
    observedBlock w o = idAt w (o + ⟨0, 0, 1⟩) := by
  obtain ⟨c, hc⟩ := Option.isSome_iff_exists.1 h
  unfold observedBlock idAt
  rw [hc, Option.map_eq_bind]
  rfl

def ahead : Pos := origin + ⟨0, 0, 1⟩

/-- A world of air and one block. -/
def stoneAhead : World := place openSky ahead (BlockState.new 1#32)

theorem observedBlock_openSky : observedBlock openSky origin = some 0#32 := by
  rw [observedBlock_eq rfl]
  exact idAt_openSky ahead

theorem observedBlock_stoneAhead : observedBlock stoneAhead origin = some 1#32 := by
  have hloaded : (stoneAhead (chunkOf origin)).isSome := by
    unfold stoneAhead place
    rfl
  rw [observedBlock_eq hloaded]
  have hsmall : ∀ q id, idAt openSky q = some id → id.toNat < 2 ^ GLOBAL_BITS := by
    intro q id hid
    rw [idAt_openSky] at hid
    cases hid
    decide
  exact (idAt_place ahead (by decide) hsmall ahead).trans (if_pos ⟨rfl, rfl, rfl⟩)

/-- The tick after it does not finish. -/
theorem not_forall_pulsing :
    ¬ ∀ w ops, Along Watch.perform Watch.Pulsing (Watch.start w) ops := by
  intro h
  obtain ⟨-, -, htick, -⟩ := h openSky [.registerObserver origin, .change stoneAhead, .tick nobody]
  have hquiet := (finishes_iff _).1 htick.1
  have hobservers : (registerObserver (start openSky) origin).observerStates = [(origin, 0#32)] := by
    unfold registerObserver
    rw [show (start openSky).world = openSky from rfl, observedBlock_openSky]
    rfl
  have hfires : observerFires stoneAhead (origin, 0#32) = false := by
    refine hquiet _ ?_
    change _ ∈ (registerObserver (start openSky) origin).observerStates
    rw [hobservers]
    exact List.mem_cons_self
  rw [Bool.eq_false_iff, Ne, observerFires_iff] at hfires
  exact hfires ⟨1#32, observedBlock_stoneAhead, by decide⟩

end Apoptotic.Redstone
