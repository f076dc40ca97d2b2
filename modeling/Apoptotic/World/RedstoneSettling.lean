import Apoptotic.Lib.Formulas
import Apoptotic.Lib.Reached
import Apoptotic.World.Redstone
import Mathlib.Data.List.TakeWhile

/-!
# What the redstone engine settles to

The ticks of `mc-world/src/redstone.rs` between changes of blocks that `on_block_change` announces.
The engine is a worklist over the network of the components' formulas.

Principal result: `settled_of_harmless` — when the queue is empty every signal is that of its
component's formula, whatever the order of the changes, as long as each visit leaves the readers of
a signal that it changes settled or queued.
-/

namespace Apoptotic.Redstone

@[simp] theorem add_x (p d : Pos) : (p + d).x = p.x + d.x := rfl

@[simp] theorem add_y (p d : Pos) : (p + d).y = p.y + d.y := rfl

@[simp] theorem add_z (p d : Pos) : (p + d).z = p.z + d.z := rfl

@[simp] theorem sub_x (p d : Pos) : (p - d).x = p.x - d.x := rfl

@[simp] theorem sub_y (p d : Pos) : (p - d).y = p.y - d.y := rfl

@[simp] theorem sub_z (p d : Pos) : (p - d).z = p.z - d.z := rfl

variable (count : Pos → Nat)

/-! ## Components and their formulas -/

def componentOf (block : BlockState) : Option Nat :=
  if isRedstoneComponent block.id.toNat then some block.id.toNat else none

/-- The component at a position of a loaded chunk. -/
def componentAt (w : World) (p : Pos) : Option Nat :=
  (w (chunkOf p)).bind fun c => componentOf (blockIn c p)

/-- The positions whose signals the formula of a component reads. -/
def inputs (id : Nat) (p : Pos) : List Pos :=
  if id = 993 then sideways.flatMap fun d => [p + d, p + d - ⟨0, 1, 0⟩, p + d + ⟨0, 1, 0⟩]
  else if id = 149 then [p + ⟨0, 0, 1⟩, p - ⟨0, 0, 1⟩, p - ⟨1, 0, 0⟩, p + ⟨1, 0, 0⟩]
  else if id ∈ [137, 138, 23, 158] then [p + ⟨0, 1, 0⟩]
  else []

theorem foldl_max_congr {signals signals' : SignalMap} {l : List Pos} (m : Nat)
    (h : ∀ q ∈ l, signalAt signals q = signalAt signals' q) :
    l.foldl (fun m q => max m (signalAt signals q)) m =
      l.foldl (fun m q => max m (signalAt signals' q)) m := by
  induction l generalizing m with
  | nil => rfl
  | cons q l ih =>
      rw [List.foldl_cons, List.foldl_cons, h q List.mem_cons_self]
      exact ih _ fun r hr => h r (List.mem_cons_of_mem _ hr)

theorem comparatorPower_congr {signals signals' : SignalMap} {p : Pos}
    (h : ∀ q ∈ inputs 149 p, signalAt signals q = signalAt signals' q) :
    comparatorPower signals p = comparatorPower signals' p := by
  have hback : signalAt signals (p - ⟨0, 0, 1⟩) = signalAt signals' (p - ⟨0, 0, 1⟩) :=
    h _ (by simp [inputs])
  have hfront : signalAt signals (p + ⟨0, 0, 1⟩) = signalAt signals' (p + ⟨0, 0, 1⟩) :=
    h _ (by simp [inputs])
  have hwest : signalAt signals (p - ⟨1, 0, 0⟩) = signalAt signals' (p - ⟨1, 0, 0⟩) :=
    h _ (by simp [inputs])
  have heast : signalAt signals (p + ⟨1, 0, 0⟩) = signalAt signals' (p + ⟨1, 0, 0⟩) :=
    h _ (by simp [inputs])
  unfold comparatorPower isComparatorSubtract getBackSignal getSideSignal
  rw [hback, hfront, hwest, heast]

theorem power_congr {signals signals' : SignalMap} {p : Pos} {id : Nat}
    (h : ∀ q ∈ inputs id p, signalAt signals q = signalAt signals' q) :
    power count signals p id = power count signals' p id := by
  by_cases hcomparator : id = 149
  · subst hcomparator
    exact comparatorPower_congr h
  by_cases hwire : id = 993
  · subst hwire
    exact congrArg (· - 1) (foldl_max_congr 0 h)
  · unfold power
    rw [if_neg hcomparator, if_neg hwire, if_neg hcomparator, if_neg hwire]

/-- A formula gives the same value from the same signals at its inputs. -/
theorem effectivePower_congr {signals signals' : SignalMap} {p : Pos} {id : Nat}
    (h : ∀ q ∈ inputs id p, signalAt signals q = signalAt signals' q) :
    effectivePower count signals p id = effectivePower count signals' p id := by
  unfold effectivePower
  rw [power_congr count h]
  by_cases hid : id ∈ [137, 138, 23, 158]
  · have habove : p + ⟨0, 1, 0⟩ ∈ inputs id p := by
      have hwire : id ≠ 993 := by rintro rfl; exact absurd hid (by decide)
      have hcomparator : id ≠ 149 := by rintro rfl; exact absurd hid (by decide)
      unfold inputs
      rw [if_neg hwire, if_neg hcomparator, if_pos hid]
      exact List.mem_singleton_self _
    unfold isPowered
    rw [h _ habove]
  · rw [if_neg fun h => hid h.1, if_neg fun h => hid h.1]

/-- No component reads its own signal. -/
theorem self_notMem_inputs (id : Nat) (p : Pos) : p ∉ inputs id p := by
  unfold inputs
  split_ifs
  · simp [sideways, Pos.ext_iff]
  · have hx : p.x ≠ p.x - 1#32 := by bv_omega
    have hz : p.z ≠ p.z - 1#32 := by bv_omega
    simp [Pos.ext_iff, hx, hz]
  · simp [Pos.ext_iff]
  · exact List.not_mem_nil

/-- The network of the components' formulas; a position without a component has no signal. -/
def network (component : Pos → Option Nat) : Formulas Pos where
  reads p q := ∃ id, component p = some id ∧ q ∈ inputs id p
  formula p signal :=
    match component p with
    | some id => effectivePower count (fun q => some (signal q)) p id
    | none => 0
  formula_congr := by
    intro p s t h
    cases hp : component p with
    | none => rfl
    | some id => exact effectivePower_congr count fun q hq => h q ⟨id, hp, hq⟩

/-- The signals are those of the components' formulas. -/
structure Settled (w : World) (signals : SignalMap) : Prop where
  wire : ∀ p, componentAt w p = some 993 → signalAt signals p = wirePower signals p
  other : ∀ p id, componentAt w p = some id → id ≠ 993 →
    signalAt signals p = effectivePower count signals p id
  bare : ∀ p, componentAt w p = none → signalAt signals p = 0

variable {count}

theorem formula_signalAt {component : Pos → Option Nat} {p : Pos} {id : Nat}
    (hp : component p = some id) (signals : SignalMap) :
    (network count component).formula p (signalAt signals) = effectivePower count signals p id := by
  change (match component p with
    | some id => effectivePower count (fun q => some (signalAt signals q)) p id
    | none => 0) = _
  rw [hp]
  exact effectivePower_congr count fun q _ => rfl

theorem formula_none {component : Pos → Option Nat} {p : Pos} (hp : component p = none)
    (signal : Pos → Nat) : (network count component).formula p signal = 0 := by
  change (match component p with
    | some id => effectivePower count (fun q => some (signal q)) p id
    | none => 0) = _
  rw [hp]

theorem effectivePower_wire (signals : SignalMap) (p : Pos) :
    effectivePower count signals p 993 = wirePower signals p := by
  unfold effectivePower
  rw [if_neg fun h => absurd h.1 (by decide)]
  rfl

theorem settled_of_network {w : World} {signals : SignalMap}
    (h : ∀ p, (network count (componentAt w)).Settled (signalAt signals) p) :
    Settled count w signals where
  wire p hp := (h p).trans ((formula_signalAt hp signals).trans (effectivePower_wire signals p))
  other p _ hp _ := (h p).trans (formula_signalAt hp signals)
  bare p hp := (h p).trans (formula_none hp _)

/-! ## One visit -/

/-- The position waits to be visited in this tick. -/
def Queued (s : State) (p : Pos) : Prop :=
  p ∈ s.engine.pendingUpdates ∧ p ∉ s.engine.processed

/-- Every position is settled or waits. -/
def Attended (count : Pos → Nat) (s : State) : Prop :=
  ∀ p, Queued s p ∨
    (network count (componentAt s.world)).Settled (signalAt s.engine.signalMap) p

/-- The visit leaves every position settled or waiting: a position without a component has no signal;
    a component whose signal is new moves no component, and every reader of its signal waits, is
    handed the signal, or has the right value already. -/
def HarmlessVisit (count : Pos → Nat) (s : State) (p : Pos) : Prop :=
  match componentAt s.world p with
  | none => signalAt s.engine.signalMap p = 0
  | some id =>
      let effective := effectivePower count s.engine.signalMap p id
      let signals := Function.update s.engine.signalMap p (some effective)
      s.engine.signalMap p = some effective ∨
        (∀ q, componentAt (react s p id effective signals) q = componentAt s.world q) ∧
          ∀ q r, componentAt s.world q = some r → p ∈ inputs r q →
            Queued s q ∨ (0 < effective ∧ q ∈ handedOn s p) ∨
              signalAt s.engine.signalMap q = effectivePower count signals q r

theorem reaction_eq (s : State) (p : Pos) :
    reaction count s p = (componentAt s.world p).bind fun id =>
      if s.engine.signalMap p = some (effectivePower count s.engine.signalMap p id) then none
      else some (id, effectivePower count s.engine.signalMap p id) := by
  unfold reaction componentAt componentOf
  cases s.world (chunkOf p) with
  | none => rfl
  | some c =>
      dsimp only [Option.bind_some, bind, Option.bind]
      cases isRedstoneComponent (blockIn c p).id.toNat with
      | true => rfl
      | false => rfl

theorem signalAt_update (signals : SignalMap) (p : Pos) (v : Nat) :
    signalAt (Function.update signals p (some v)) = Function.update (signalAt signals) p v := by
  funext q
  unfold signalAt
  by_cases hq : q = p
  · subst hq
    rw [Function.update_self, Function.update_self, Option.getD_some]
  · rw [Function.update_of_ne hq, Function.update_of_ne hq]

theorem visit_of_none {s : State} {p : Pos} (h : reaction count s p = none) :
    visit count s p = s := by
  unfold visit
  rw [h]

/-- What a visit to a component with a new signal does. -/
theorem visit_of_some {s : State} {p : Pos} {id effective : Nat}
    (h : reaction count s p = some (id, effective)) :
    (visit count s p).world = react s p id effective
        (Function.update s.engine.signalMap p (some effective)) ∧
      (visit count s p).engine.signalMap =
        Function.update s.engine.signalMap p (some effective) ∧
      (visit count s p).engine.pendingUpdates =
        s.engine.pendingUpdates ++ (if 0 < effective then handedOn s p else []) ∧
      (visit count s p).engine.processed = s.engine.processed := by
  unfold visit
  rw [h]
  dsimp only
  refine ⟨rfl, ?_⟩
  split_ifs <;> exact ⟨rfl, rfl, rfl⟩

/-- A signal is handed on to unprocessed components. -/
theorem of_mem_handedOn {s : State} {p q : Pos} (h : q ∈ handedOn s p) :
    componentAt s.world q ≠ none ∧ q ∉ s.engine.processed := by
  unfold handedOn at h
  have hcond := (List.mem_filter.1 h).2
  unfold componentAt componentOf
  cases hc : s.world (chunkOf q) with
  | none =>
      rw [hc] at hcond
      cases hcond
  | some c =>
      rw [hc] at hcond
      obtain ⟨hid, hq⟩ := Bool.and_eq_true_iff.1 hcond
      rw [Option.bind_some, if_pos hid]
      exact ⟨Option.some_ne_none _, of_decide_eq_true hq⟩

/-- A harmless visit leaves the components where they are. -/
theorem componentAt_visit {s : State} {p : Pos} (hv : HarmlessVisit count s p) :
    componentAt (visit count s p).world = componentAt s.world := by
  cases hr : reaction count s p with
  | none => rw [visit_of_none hr]
  | some r =>
      obtain ⟨id, effective⟩ := r
      rw [(visit_of_some hr).1]
      rw [reaction_eq] at hr
      obtain ⟨id', hid, hr⟩ := Option.bind_eq_some_iff.1 hr
      split at hr
      · cases hr
      · rename_i hnew
        cases hr
        unfold HarmlessVisit at hv
        rw [hid] at hv
        exact funext (hv.resolve_left hnew).1

/-- **A harmless visit leaves every position settled or waiting.** -/
theorem attended_visit {s : State} {p : Pos}
    (h : ∀ q, q ≠ p → Queued s q ∨
      (network count (componentAt s.world)).Settled (signalAt s.engine.signalMap) q)
    (hv : HarmlessVisit count s p) : Attended count (visit count s p) := by
  have hcomponents := componentAt_visit hv
  unfold HarmlessVisit at hv
  cases hp : componentAt s.world p with
  | none =>
      rw [hp] at hv
      have hr : reaction count s p = none := by
        rw [reaction_eq, hp]
        rfl
      rw [visit_of_none hr]
      intro q
      by_cases hq : q = p
      · subst hq
        exact .inr (hv.trans (formula_none hp _).symm)
      · exact h q hq
  | some id =>
      rw [hp] at hv
      have hformula : (network count (componentAt s.world)).formula p
          (signalAt s.engine.signalMap) = effectivePower count s.engine.signalMap p id :=
        formula_signalAt hp _
      by_cases hsame : s.engine.signalMap p =
          some (effectivePower count s.engine.signalMap p id)
      · have hr : reaction count s p = none := by
          rw [reaction_eq, hp]
          exact if_pos hsame
        rw [visit_of_none hr]
        intro q
        by_cases hq : q = p
        · subst hq
          refine .inr (Eq.trans ?_ hformula.symm)
          unfold signalAt
          rw [hsame, Option.getD_some]
        · exact h q hq
      · have hr : reaction count s p =
            some (id, effectivePower count s.engine.signalMap p id) := by
          rw [reaction_eq, hp]
          exact if_neg hsame
        obtain ⟨_, hsignals, hpending, hprocessed⟩ := visit_of_some hr
        have hreaders := (hv.resolve_left hsame).2
        have hqueue : ∀ q, Queued s q → Queued (visit count s p) q := by
          intro q hq
          unfold Queued
          rw [hpending, hprocessed]
          exact ⟨List.mem_append_left _ hq.1, hq.2⟩
        unfold Attended
        rw [hcomponents, hsignals, signalAt_update, ← hformula]
        refine Formulas.attended_update h ?_ hqueue ?_
        · rintro ⟨id', _, hself⟩
          exact self_notMem_inputs id' p hself
        · rintro q ⟨r, hqr, hinput⟩
          rcases hreaders q r hqr hinput with hqueued | ⟨hpos, hhanded⟩ | hright
          · exact .inl (hqueue q hqueued)
          · refine .inl ⟨?_, ?_⟩
            · rw [hpending, if_pos hpos]
              exact List.mem_append_right _ hhanded
            · rw [hprocessed]
              exact (of_mem_handedOn hhanded).2
          · refine .inr (hright.trans ?_)
            rw [hformula, ← signalAt_update]
            exact (formula_signalAt hqr _).symm

/-! ## One tick -/

theorem Engine.next_none {e : Engine} (h : e.next = none) :
    ∀ p ∈ e.pendingUpdates, p ∈ e.processed := by
  unfold Engine.next at h
  split at h
  · rename_i hdrop
    intro p hp
    exact of_decide_eq_true (List.dropWhile_eq_nil_iff.1 hdrop p hp)
  · cases h

/-- What is left in the queue, besides the next position, and what was dropped. -/
theorem Engine.next_some {e : Engine} {p : Pos} {rest : List Pos} (h : e.next = some (p, rest)) :
    p ∉ e.processed ∧ ∀ q ∈ e.pendingUpdates, q ∉ e.processed → q = p ∨ q ∈ rest := by
  unfold Engine.next at h
  split at h
  · cases h
  · rename_i p' rest' hdrop
    cases h
    constructor
    · have hhead := List.head?_dropWhile_not (fun p => decide (p ∈ e.processed)) e.pendingUpdates
      rw [hdrop] at hhead
      exact of_decide_eq_false hhead
    · intro q hq hnot
      rw [← List.takeWhile_append_dropWhile (p := fun p => decide (p ∈ e.processed))
        (l := e.pendingUpdates), hdrop] at hq
      rcases List.mem_append.1 hq with htake | hrest
      · have hin := List.mem_takeWhile_imp (p := fun p => decide (p ∈ e.processed)) htake
        exact absurd (of_decide_eq_true hin) hnot
      · exact List.mem_cons.1 hrest

/-- Taking a position from the queue leaves the others waiting. -/
theorem attended_take {s : State} (h : Attended count s) {p : Pos} {rest : List Pos}
    (hnext : s.engine.next = some (p, rest)) (q : Pos) (hq : q ≠ p) : Queued (s.take p rest) q ∨
      (network count (componentAt (s.take p rest).world)).Settled
        (signalAt (s.take p rest).engine.signalMap) q := by
  refine (h q).imp_left fun hqueued => ⟨?_, ?_⟩
  · exact ((Engine.next_some hnext).2 q hqueued.1 hqueued.2).resolve_left hq
  · exact List.not_mem_cons_of_ne_of_not_mem hq hqueued.2

/-- **A propagation of harmless visits leaves every position settled or waiting**, and the components
    where they are. -/
theorem attended_propagate {n : Nat} {s : State} (h : Attended count s)
    (hvisits : ∀ t ∈ turns count n s, HarmlessVisit count t.1 t.2) :
    Attended count (propagate count n s) ∧
      componentAt (propagate count n s).world = componentAt s.world := by
  induction n generalizing s with
  | zero =>
      unfold propagate
      cases hnext : s.engine.next with
      | none =>
          refine ⟨fun q => .inr ((h q).resolve_left fun hq => ?_), rfl⟩
          exact hq.2 (Engine.next_none hnext q hq.1)
      | some next =>
          obtain ⟨p, rest⟩ := next
          refine ⟨fun q => (h q).imp_left fun hq => ⟨?_, hq.2⟩, rfl⟩
          rcases (Engine.next_some hnext).2 q hq.1 hq.2 with rfl | hrest
          · exact List.mem_append_right _ (List.mem_singleton_self _)
          · exact List.mem_append_left _ hrest
  | succ n ih =>
      unfold propagate
      unfold turns at hvisits
      cases hnext : s.engine.next with
      | none =>
          refine ⟨fun q => .inr ((h q).resolve_left fun hq => ?_), rfl⟩
          exact hq.2 (Engine.next_none hnext q hq.1)
      | some next =>
          obtain ⟨p, rest⟩ := next
          rw [hnext] at hvisits
          have hv := hvisits _ List.mem_cons_self
          have hvisit := attended_visit (attended_take h hnext) hv
          obtain ⟨hattended, hcomponents⟩ := ih hvisit fun t ht =>
            hvisits t (List.mem_cons_of_mem _ ht)
          exact ⟨hattended, hcomponents.trans (componentAt_visit hv)⟩

/-- An engine without observers and timers, between two ticks. -/
structure Plain (e : Engine) : Prop where
  observers : e.observerStates = []
  pulses : e.pulses = []
  repeaters : e.repeaterDelays = []
  processed : e.processed = []

theorem startOf_of_plain {w : World} {e : Engine} (h : Plain e) : startOf w e = ⟨w, e⟩ := by
  obtain ⟨hobservers, _, _, _⟩ := h
  cases e
  dsimp only at hobservers
  subst hobservers
  unfold startOf runObservers observerPulses
  simp only [List.filter_nil, List.map_nil, List.foldl_nil, List.flatMap_nil, List.append_nil]

/-- What a visit does to neither the observers nor the timers. -/
theorem timers_visit (count : Pos → Nat) (s : State) (p : Pos) :
    (visit count s p).engine.observerStates = s.engine.observerStates ∧
      (visit count s p).engine.pulses = s.engine.pulses ∧
      (visit count s p).engine.repeaterDelays = s.engine.repeaterDelays := by
  unfold visit
  split
  · exact ⟨rfl, rfl, rfl⟩
  · dsimp only
    split_ifs <;> exact ⟨rfl, rfl, rfl⟩

theorem timers_propagate (count : Pos → Nat) (n : Nat) (s : State) :
    (propagate count n s).engine.observerStates = s.engine.observerStates ∧
      (propagate count n s).engine.pulses = s.engine.pulses ∧
      (propagate count n s).engine.repeaterDelays = s.engine.repeaterDelays := by
  induction n generalizing s with
  | zero =>
      unfold propagate
      split
      · exact ⟨rfl, rfl, rfl⟩
      · exact ⟨rfl, rfl, rfl⟩
  | succ n ih =>
      unfold propagate
      split
      · exact ⟨rfl, rfl, rfl⟩
      · rename_i p rest _
        obtain ⟨hobservers, hpulses, hrepeaters⟩ := ih (visit count (s.take p rest) p)
        obtain ⟨hobservers', hpulses', hrepeaters'⟩ := timers_visit count (s.take p rest) p
        exact ⟨hobservers.trans hobservers', hpulses.trans hpulses', hrepeaters.trans hrepeaters'⟩

/-- A tick of a plain engine is its propagation. -/
theorem tick_of_plain (count : Pos → Nat) (w : World) {e : Engine} (h : Plain e) :
    Plain (tick count w e).engine ∧
      (tick count w e).world = (propagate count MAX_NODES_PER_TICK ⟨w, e⟩).world ∧
      (tick count w e).engine.signalMap =
        (propagate count MAX_NODES_PER_TICK ⟨w, e⟩).engine.signalMap ∧
      (tick count w e).engine.pendingUpdates =
        (propagate count MAX_NODES_PER_TICK ⟨w, e⟩).engine.pendingUpdates := by
  obtain ⟨hobservers, hpulses, hrepeaters⟩ :=
    timers_propagate count MAX_NODES_PER_TICK ⟨w, e⟩
  rw [h.observers] at hobservers
  rw [h.pulses] at hpulses
  rw [h.repeaters] at hrepeaters
  unfold tick
  rw [startOf_of_plain h]
  generalize propagate count MAX_NODES_PER_TICK ⟨w, e⟩ = s at *
  obtain ⟨w', e'⟩ := s
  cases e'
  dsimp only at hobservers hpulses hrepeaters
  subst hobservers hpulses hrepeaters
  exact ⟨⟨rfl, rfl, rfl, rfl⟩, rfl, rfl, rfl⟩

/-! ## Changes and runs -/

inductive Event where
  | change (p : Pos) (block : BlockState)
  | tick

/-- `set_block` of a chunk that is loaded. -/
def place (w : World) (p : Pos) (block : BlockState) : World :=
  match height? p.y with
  | some y => setIn w (chunkOf p) p y block
  | none => w

/-- A block is placed or removed and announced, or the engine ticks. -/
def step (count : Pos → Nat) (s : State) : Event → State
  | .change p block => ⟨place s.world p block, s.engine.onBlockChange p⟩
  | .tick => tick count s.world s.engine

def Engine.new : Engine where
  pendingUpdates := []
  processed := []
  signalMap _ := none
  pulses := []
  repeaterDelays := []
  tntFuses := []
  pendingExplosions := []
  observerStates := []
  noteBlockNotes _ := none
  pendingDispenserActivations := []

def start (w : World) : State := ⟨w, Engine.new⟩

/-- A block can be set at the position. -/
def Writable (w : World) (p : Pos) : Prop := (w (chunkOf p)).isSome ∧ (height? p.y).isSome

instance (w : World) (p : Pos) : Decidable (Writable w p) := inferInstanceAs (Decidable (_ ∧ _))

/-- A change changes the component of its own position; the visits of a tick are harmless. -/
def Harmless (count : Pos → Nat) (s : State) : Event → Prop
  | .change p block => ∀ q, componentAt (place s.world p block) q =
      if q = p ∧ Writable s.world p then componentOf block else componentAt s.world q
  | .tick => ∀ t ∈ turns count MAX_NODES_PER_TICK (startOf s.world s.engine),
      HarmlessVisit count t.1 t.2

/-- No component of the world gives a signal by itself. -/
def Unpowered (count : Pos → Nat) (w : World) : Prop :=
  ∀ p id, componentAt w p = some id → effectivePower count (fun _ => none) p id = 0

theorem attended_step {s : State} (hplain : Plain s.engine) (h : Attended count s) {a : Event}
    (ha : Harmless count s a) : Plain (step count s a).engine ∧ Attended count (step count s a) := by
  cases a with
  | change p block =>
      refine ⟨⟨hplain.observers, hplain.pulses, hplain.repeaters, hplain.processed⟩, fun q => ?_⟩
      by_cases hq : q = p
      · subst hq
        refine .inl ⟨List.mem_append_right _ (List.mem_singleton_self _), ?_⟩
        change q ∉ s.engine.processed
        rw [hplain.processed]
        exact List.not_mem_nil
      · refine (h q).imp (fun hqueued => ⟨List.mem_append_left _ hqueued.1, hqueued.2⟩) ?_
        have hsame : componentAt (place s.world p block) q = componentAt s.world q :=
          (ha q).trans (if_neg fun h => hq h.1)
        intro hsettled
        refine hsettled.trans ?_
        change (match componentAt s.world q with
          | some id => effectivePower count (fun q => some (signalAt s.engine.signalMap q)) q id
          | none => 0) = match componentAt (place s.world p block) q with
          | some id => effectivePower count (fun q => some (signalAt s.engine.signalMap q)) q id
          | none => 0
        rw [hsame]
  | tick =>
      obtain ⟨hplain', hworld, hsignals, hpending⟩ := tick_of_plain count s.world hplain
      change ∀ t ∈ turns count MAX_NODES_PER_TICK (startOf s.world s.engine), _ at ha
      rw [startOf_of_plain hplain] at ha
      refine ⟨hplain', fun q => ?_⟩
      change Queued (tick count s.world s.engine) q ∨ (network count
        (componentAt (tick count s.world s.engine).world)).Settled
          (signalAt (tick count s.world s.engine).engine.signalMap) q
      unfold Queued
      rw [hworld, hsignals, hpending, hplain'.processed]
      exact ((attended_propagate h ha).1 q).imp_left fun hq => ⟨hq.1, List.not_mem_nil⟩

theorem attended_start {w : World} (hw : Unpowered count w) : Attended count (start w) := by
  intro p
  refine .inr ?_
  change signalAt (fun _ => none) p =
    (network count (componentAt w)).formula p (signalAt fun _ => none)
  cases hp : componentAt w p with
  | none => exact (formula_none hp _).symm
  | some id => exact ((formula_signalAt hp _).trans (hw p id hp)).symm

/-! ## The range of a signal -/

/-- No signal is stronger than 15. -/
def Bounded (signals : SignalMap) : Prop := ∀ p, signalAt signals p ≤ 15

theorem foldl_max_le {signals : SignalMap} (h : Bounded signals) (l : List Pos) {m : Nat}
    (hm : m ≤ 15) : l.foldl (fun m q => max m (signalAt signals q)) m ≤ 15 := by
  induction l generalizing m with
  | nil => exact hm
  | cons q l ih => exact ih (max_le hm (h q))

theorem entityComponentPower_le {id : Nat} (hid : id ≠ 1044) (n : Nat) :
    entityComponentPower id n ≤ 15 := by
  unfold entityComponentPower
  split_ifs <;> omega

theorem componentPower_le (id : Nat) (lit : Bool) : componentPower id lit ≤ 15 := by
  unfold componentPower
  split_ifs <;> omega

theorem comparatorPower_le {signals : SignalMap} (h : Bounded signals) (p : Pos) :
    comparatorPower signals p ≤ 15 := by
  have hback : getBackSignal signals p ≤ 15 := h _
  unfold comparatorPower
  dsimp only
  split_ifs <;> omega

theorem power_le {signals : SignalMap} (h : Bounded signals) (p : Pos) {id : Nat}
    (hid : id ≠ 1044) : power count signals p id ≤ 15 := by
  unfold power
  split_ifs
  · exact le_rfl
  · exact entityComponentPower_le hid _
  · exact comparatorPower_le h p
  · exact Nat.zero_le _
  · have hmax := foldl_max_le h
      (sideways.flatMap fun d => [p + d, p + d - ⟨0, 1, 0⟩, p + d + ⟨0, 1, 0⟩]) (Nat.zero_le 15)
    exact (Nat.sub_le _ _).trans hmax
  · exact componentPower_le _ _

theorem effectivePower_le {signals : SignalMap} (h : Bounded signals) (p : Pos) {id : Nat}
    (hid : id ≠ 1044) : effectivePower count signals p id ≤ 15 := by
  unfold effectivePower
  split
  · exact max_le (power_le h p hid) le_rfl
  · exact power_le h p hid

theorem ne_of_componentAt {w : World} {p : Pos} {id : Nat} (h : componentAt w p = some id) :
    id ≠ 1044 := by
  rintro rfl
  obtain ⟨c, _, hc⟩ := Option.bind_eq_some_iff.1 h
  unfold componentOf at hc
  split at hc
  · rename_i hcomponent
    rw [Option.some.inj hc] at hcomponent
    exact absurd hcomponent (by decide)
  · cases hc

theorem bounded_visit {s : State} (h : Bounded s.engine.signalMap) (p : Pos) :
    Bounded (visit count s p).engine.signalMap := by
  cases hr : reaction count s p with
  | none => rwa [visit_of_none hr]
  | some r =>
      obtain ⟨id, effective⟩ := r
      rw [(visit_of_some hr).2.1]
      rw [reaction_eq] at hr
      obtain ⟨id', hid, hr⟩ := Option.bind_eq_some_iff.1 hr
      split at hr
      · cases hr
      · cases hr
        intro q
        rw [signalAt_update]
        by_cases hq : q = p
        · subst hq
          rw [Function.update_self]
          exact effectivePower_le h q (ne_of_componentAt hid)
        · rw [Function.update_of_ne hq]
          exact h q

theorem bounded_propagate (n : Nat) {s : State} (h : Bounded s.engine.signalMap) :
    Bounded (propagate count n s).engine.signalMap := by
  induction n generalizing s with
  | zero =>
      unfold propagate
      split
      · exact h
      · exact h
  | succ n ih =>
      unfold propagate
      split
      · exact h
      · exact ih (bounded_visit (s := s.take _ _) h _)

theorem bounded_step {s : State} (hplain : Plain s.engine) (h : Bounded s.engine.signalMap)
    (a : Event) : Bounded (step count s a).engine.signalMap := by
  cases a with
  | change p block => exact h
  | tick =>
      change Bounded (tick count s.world s.engine).engine.signalMap
      rw [(tick_of_plain _ _ hplain).2.2.1]
      exact bounded_propagate _ h

/-! ## The components at the end of a run -/

theorem loaded_setIn (w : World) (cp : ChunkPos) (p : Pos) (y : Height) (block : BlockState)
    (q : ChunkPos) : (setIn w cp p y block q).isSome = (w q).isSome := by
  unfold setIn
  by_cases hq : q = cp
  · subst hq
    rw [Function.update_self, Option.isSome_map]
  · rw [Function.update_of_ne hq]

theorem loaded_extend (w : World) (p d : Pos) (q : ChunkPos) :
    (extend w p d q).isSome = (w q).isSome := by
  unfold extend
  dsimp only
  cases height? (p + d).y with
  | none => rfl
  | some fy =>
      cases w (chunkOf (p + d)) with
      | none => rfl
      | some chunk =>
          cases height? (p + d + d).y with
          | none => dsimp only; rw [ite_self]
          | some b =>
              cases w (chunkOf (p + d + d)) with
              | none => dsimp only; rw [ite_self]
              | some destination =>
                  dsimp only
                  split_ifs
                  · rfl
                  · rw [loaded_setIn, loaded_setIn]
                  · rfl

theorem loaded_pull (w : World) (p d : Pos) (q : ChunkPos) :
    (pull w p d q).isSome = (w q).isSome := by
  unfold pull
  dsimp only
  cases height? (p - d).y with
  | none => rfl
  | some b =>
      cases w (chunkOf (p - d)) with
      | none => rfl
      | some chunk =>
          cases height? p.y with
          | none => dsimp only; rw [ite_self]
          | some y =>
              dsimp only
              split_ifs
              · rfl
              · rw [loaded_setIn, loaded_setIn]

theorem loaded_toggleBulb (w : World) (p : Pos) (id : Nat) (q : ChunkPos) :
    (toggleBulb w p id q).isSome = (w q).isSome := by
  unfold toggleBulb
  cases height? p.y with
  | none => rfl
  | some y => exact loaded_setIn ..

theorem loaded_react (s : State) (p : Pos) (id effective : Nat) (signals : SignalMap)
    (q : ChunkPos) : (react s p id effective signals q).isSome = (s.world q).isSome := by
  unfold react
  split_ifs <;> simp only [loaded_toggleBulb, loaded_pull, loaded_extend]

theorem loaded_visit (s : State) (p : Pos) (q : ChunkPos) :
    ((visit count s p).world q).isSome = (s.world q).isSome := by
  cases hr : reaction count s p with
  | none => rw [visit_of_none hr]
  | some r => rw [(visit_of_some hr).1, loaded_react]

theorem loaded_propagate (n : Nat) (s : State) (q : ChunkPos) :
    ((propagate count n s).world q).isSome = (s.world q).isSome := by
  induction n generalizing s with
  | zero =>
      unfold propagate
      split
      · rfl
      · rfl
  | succ n ih =>
      unfold propagate
      split
      · rfl
      · exact (ih _).trans (loaded_visit _ _ q)

theorem loaded_step {s : State} (hplain : Plain s.engine) (a : Event) (q : ChunkPos) :
    ((step count s a).world q).isSome = (s.world q).isSome := by
  cases a with
  | change p block =>
      change (place s.world p block q).isSome = _
      unfold place
      cases height? p.y with
      | none => rfl
      | some y => exact loaded_setIn ..
  | tick =>
      change ((tick count s.world s.engine).world q).isSome = _
      rw [(tick_of_plain _ _ hplain).2.1]
      exact loaded_propagate _ _ q

theorem writable_step {s : State} (hplain : Plain s.engine) (a : Event) (p : Pos) :
    Writable (step count s a).world p ↔ Writable s.world p := by
  unfold Writable
  rw [loaded_step hplain]

/-- The block that a run sets last at a position. -/
def lastBlock (p : Pos) : List Event → Option BlockState
  | [] => none
  | .change q block :: as => (lastBlock p as).or (if p = q then some block else none)
  | .tick :: as => lastBlock p as

/-- The components are those of the blocks set last. -/
theorem componentAt_foldl {s : State} (hplain : Plain s.engine) (h : Attended count s)
    {as : List Event} (has : Along (step count) (Harmless count) s as) (p : Pos) :
    componentAt (as.foldl (step count) s).world p =
      match lastBlock p as with
      | some block => if Writable s.world p then componentOf block else componentAt s.world p
      | none => componentAt s.world p := by
  induction as generalizing s with
  | nil => rfl
  | cons a as ih =>
      obtain ⟨ha, has⟩ := has
      obtain ⟨hplain', h'⟩ := attended_step hplain h ha
      rw [List.foldl_cons, ih hplain' h' has]
      have hw : (Writable (step count s a).world p) = Writable s.world p :=
        propext (writable_step hplain a p)
      simp only [hw]
      cases a with
      | change q block =>
          have hq := ha p
          change componentAt (step count s (.change q block)).world p = _ at hq
          have hcons : lastBlock p (.change q block :: as) =
              (lastBlock p as).or (if p = q then some block else none) := rfl
          rw [hcons]
          cases lastBlock p as with
          | some last =>
              dsimp only [Option.some_or]
              by_cases hwrite : Writable s.world p
              · rw [if_pos hwrite, if_pos hwrite]
              · rw [if_neg hwrite, if_neg hwrite, hq]
                refine if_neg ?_
                rintro ⟨rfl, hp⟩
                exact hwrite hp
          | none =>
              dsimp only [Option.none_or]
              rw [hq]
              by_cases hp : p = q
              · subst hp
                rw [if_pos rfl]
                by_cases hwrite : Writable s.world p
                · exact (if_pos ⟨rfl, hwrite⟩).trans (if_pos hwrite).symm
                · exact (if_neg fun h => hwrite h.2).trans (if_neg hwrite).symm
              · rw [if_neg fun h => hp h.1, if_neg hp]
      | tick =>
          obtain ⟨_, hworld, _, _⟩ := tick_of_plain count s.world hplain
          have hsame : componentAt (step count s .tick).world p = componentAt s.world p := by
            change componentAt (tick count s.world s.engine).world p = _
            change ∀ t ∈ turns count MAX_NODES_PER_TICK (startOf s.world s.engine), _ at ha
            rw [startOf_of_plain hplain] at ha
            rw [hworld]
            exact congrFun (attended_propagate h ha).2 p
          rw [hsame]
          rfl

/-! ## Whole runs -/

/-- No comparator, piston, dispenser or dropper reads a signal that depends on its own: each ranks
    above what it reads, and a wire not below. -/
def FeedbackFree (w : World) : Prop :=
  ∃ rank : Pos → Nat, ∀ p id q, componentAt w p = some id → q ∈ inputs id p →
    rank q ≤ rank p ∧ (id ≠ 993 → rank q < rank p)

theorem le_foldl_max (signals : SignalMap) {l : List Pos} {m : Nat} :
    m ≤ l.foldl (fun m q => max m (signalAt signals q)) m ∧
      ∀ q ∈ l, signalAt signals q ≤ l.foldl (fun m q => max m (signalAt signals q)) m := by
  induction l generalizing m with
  | nil => exact ⟨le_rfl, fun q hq => absurd hq List.not_mem_nil⟩
  | cons q l ih =>
      obtain ⟨hstart, hall⟩ := ih (m := max m (signalAt signals q))
      refine ⟨(le_max_left _ _).trans hstart, fun r hr => ?_⟩
      rcases List.mem_cons.1 hr with rfl | hr
      · exact (le_max_right _ _).trans hstart
      · exact hall r hr

theorem foldl_max_mem (signals : SignalMap) {l : List Pos} {m : Nat} :
    l.foldl (fun m q => max m (signalAt signals q)) m = m ∨
      ∃ q ∈ l, signalAt signals q = l.foldl (fun m q => max m (signalAt signals q)) m := by
  induction l generalizing m with
  | nil => exact .inl rfl
  | cons q l ih =>
      rcases ih (m := max m (signalAt signals q)) with hstart | ⟨r, hr, hval⟩
      · rcases max_cases m (signalAt signals q) with ⟨hmax, _⟩ | ⟨hmax, _⟩
        · exact .inl (hstart.trans hmax)
        · exact .inr ⟨q, List.mem_cons_self, (hstart.trans hmax).symm⟩
      · exact .inr ⟨r, List.mem_cons_of_mem _ hr, hval⟩

/-- A wire fades. -/
theorem fades_of_wire {component : Pos → Option Nat} {p : Pos} (hp : component p = some 993) :
    (network count component).Fades p := by
  have hformula : ∀ s, (network count component).formula p s = (inputs 993 p).foldl
      (fun m q => max m (signalAt (fun q => some (s q)) q)) 0 - 1 := fun s =>
    (formula_signalAt hp fun q => some (s q)).trans (effectivePower_wire _ p)
  constructor
  · rintro s q ⟨id, hid, hq⟩
    obtain rfl := Option.some.inj (hp.symm.trans hid)
    have hle : s q ≤ _ := (le_foldl_max (fun q => some (s q)) (m := 0)).2 q hq
    rw [hformula]
    omega
  · intro s hpos
    rw [hformula] at hpos ⊢
    rcases foldl_max_mem (fun q => some (s q)) (l := inputs 993 p) (m := 0) with
      hzero | ⟨q, hq, hval⟩
    · omega
    · refine ⟨q, ⟨993, hp, hq⟩, ?_⟩
      change s q = _ at hval
      omega

theorem ranked_of_feedbackFree (count : Pos → Nat) {w : World} (h : FeedbackFree w) :
    ∃ rank, (network count (componentAt w)).Ranked rank := by
  obtain ⟨rank, hrank⟩ := h
  refine ⟨rank, ⟨?_, fun p => ?_⟩⟩
  · rintro p q ⟨id, hid, hq⟩
    exact (hrank p id q hid hq).1
  · by_cases hwire : componentAt w p = some 993
    · exact .inl (fades_of_wire hwire)
    · refine .inr ?_
      rintro q ⟨id, hid, hq⟩
      refine (hrank p id q hid hq).2 ?_
      rintro rfl
      exact hwire hid

/-- What holds in every state of a harmless run. -/
structure Tended (count : Pos → Nat) (s : State) : Prop where
  plain : Plain s.engine
  attended : Attended count s
  bounded : Bounded s.engine.signalMap

theorem tended_foldl {w : World} (hw : Unpowered count w) {as : List Event}
    (has : Along (step count) (Harmless count) (start w) as) :
    Tended count (as.foldl (step count) (start w)) := by
  refine Along.invariant (fun s a hs ha => ?_) ?_ has
  · obtain ⟨hplain, hattended⟩ := attended_step hs.plain hs.attended ha
    exact ⟨hplain, hattended, bounded_step hs.plain hs.bounded a⟩
  · exact ⟨⟨rfl, rfl, rfl, rfl⟩, attended_start hw, fun p => Nat.zero_le _⟩

theorem settled_of_tended {s : State} (hs : Tended count s)
    (hdone : s.engine.pendingUpdates = []) (p : Pos) :
    (network count (componentAt s.world)).Settled (signalAt s.engine.signalMap) p := by
  refine (hs.attended p).resolve_left fun hq => ?_
  rw [Queued, hdone] at hq
  exact absurd hq.1 List.not_mem_nil

/-- **A harmless run settles**: whenever its queue is empty every signal is that of its component's
    formula; and without feedback the signals depend on the blocks set last, not on the order. -/
theorem settled_of_harmless {w : World} (hw : Unpowered count w) {as : List Event}
    (has : Along (step count) (Harmless count) (start w) as)
    (hdone : (as.foldl (step count) (start w)).engine.pendingUpdates = []) :
    Settled count (as.foldl (step count) (start w)).world
        (as.foldl (step count) (start w)).engine.signalMap ∧
      ∀ bs : List Event, Along (step count) (Harmless count) (start w) bs →
        (bs.foldl (step count) (start w)).engine.pendingUpdates = [] →
        (∀ p, lastBlock p bs = lastBlock p as) →
        FeedbackFree (as.foldl (step count) (start w)).world →
        ∀ p, signalAt (bs.foldl (step count) (start w)).engine.signalMap p =
          signalAt (as.foldl (step count) (start w)).engine.signalMap p := by
  have htended := tended_foldl hw has
  refine ⟨settled_of_network (settled_of_tended htended hdone), ?_⟩
  intro bs hbs hdone' hlast hfree
  have htended' := tended_foldl hw hbs
  have hplain : Plain (start w).engine := ⟨rfl, rfl, rfl, rfl⟩
  have hcomponents : componentAt (bs.foldl (step count) (start w)).world =
      componentAt (as.foldl (step count) (start w)).world := by
    funext p
    rw [componentAt_foldl hplain (attended_start hw) hbs p,
      componentAt_foldl hplain (attended_start hw) has p, hlast p]
  have hsettled := settled_of_tended htended' hdone'
  rw [hcomponents] at hsettled
  obtain ⟨rank, hrank⟩ := ranked_of_feedbackFree count hfree
  exact congrFun (Formulas.eq_of_settled hrank hsettled (settled_of_tended htended hdone)
    htended'.bounded htended.bounded)

/-! ## What a change changes -/

theorem toInt_ediv_emod (a : BitVec 32) :
    a.toInt = (a.sshiftRight 4).toInt * 16 + ((a.toNat % 16 : Nat) : Int) := by
  rw [BitVec.toInt_sshiftRight, Int.shiftRight_eq_div_pow]
  have htoInt := BitVec.toInt_eq_toNat_cond a
  split at htoInt <;> omega

/-- A position is its chunk and its place in the chunk. -/
theorem pos_eq {p q : Pos} (hchunk : chunkOf p = chunkOf q) (hx : low p.x = low q.x)
    (hy : p.y = q.y) (hz : low p.z = low q.z) : p = q := by
  have hcoordinate : ∀ a b : BitVec 32, a.sshiftRight 4 = b.sshiftRight 4 → low a = low b → a = b := by
    intro a b hhigh hlow
    refine BitVec.eq_of_toInt_eq ?_
    rw [toInt_ediv_emod a, toInt_ediv_emod b, hhigh, Fin.mk.inj hlow]
  exact Pos.ext (hcoordinate _ _ (congrArg ChunkPos.x hchunk) hx) hy
    (hcoordinate _ _ (congrArg ChunkPos.z hchunk) hz)

theorem toInt_of_height? {y : BitVec 32} {h : Height} (hy : height? y = some h) : y.toInt = h := by
  unfold height? at hy
  split at hy
  · rw [← Option.some.inj hy]
  · cases hy

/-- The id at a position of a loaded chunk. -/
def idAt (w : World) (q : Pos) : Option (BitVec 32) :=
  (w (chunkOf q)).map fun c => (blockIn c q).id

theorem componentAt_eq (w : World) (q : Pos) : componentAt w q =
    (idAt w q).bind fun id => if isRedstoneComponent id.toNat then some id.toNat else none := by
  unfold componentAt idAt
  rw [Option.bind_map]
  rfl

/-- **Where the ids fit the global palette, a change changes its own position only.** -/
theorem idAt_place {w : World} (p : Pos) {block : BlockState}
    (hblock : block.id.toNat < 2 ^ GLOBAL_BITS)
    (hw : ∀ q id, idAt w q = some id → id.toNat < 2 ^ GLOBAL_BITS) (q : Pos) :
    idAt (place w p block) q = if q = p ∧ Writable w p then some block.id else idAt w q := by
  unfold place
  cases hy : height? p.y with
  | none =>
      refine (if_neg fun h => ?_).symm
      have hsome := h.2.2
      rw [hy] at hsome
      cases hsome
  | some y =>
      dsimp only
      unfold idAt setIn
      by_cases hchunk : chunkOf q = chunkOf p
      · rw [hchunk, Function.update_self]
        cases hc : w (chunkOf p) with
        | none =>
            refine (if_neg fun h => ?_).symm
            have hsome := h.2.1
            rw [hc] at hsome
            cases hsome
        | some c =>
            have hwritable : Writable w p := ⟨by rw [hc]; rfl, by rw [hy]; rfl⟩
            rw [Option.map_some, Option.map_some, Option.map_some]
            by_cases hq : q = p
            · subst hq
              rw [if_pos ⟨rfl, hwritable⟩, blockIn_of_height? hy]
              exact congrArg some (c.id_getBlock_setBlock_self _ _ y hblock)
            · rw [if_neg fun h => hq h.1]
              refine congrArg some ?_
              cases hy' : height? q.y with
              | none =>
                  unfold blockIn
                  rw [hy']
              | some y' =>
                  have hsmall : (blockIn c q).id.toNat < 2 ^ GLOBAL_BITS := by
                    refine hw q _ ?_
                    unfold idAt
                    rw [hchunk, hc, Option.map_some]
                  rw [blockIn_of_height? hy'] at hsmall
                  rw [blockIn_of_height? hy', blockIn_of_height? hy']
                  refine c.id_getBlock_setBlock_of_ne block ?_ hsmall
                  rintro ⟨hx, rfl, hz⟩
                  have hsame : q.y = p.y := BitVec.eq_of_toInt_eq
                    ((toInt_of_height? hy').trans (toInt_of_height? hy).symm)
                  exact hq (pos_eq hchunk hx hsame hz)
      · rw [Function.update_of_ne hchunk, if_neg]
        rintro ⟨rfl, _⟩
        exact hchunk rfl

/-- So it meets the condition of a harmless change. -/
theorem componentAt_place {w : World} (p : Pos) {block : BlockState}
    (hblock : block.id.toNat < 2 ^ GLOBAL_BITS)
    (hw : ∀ q id, idAt w q = some id → id.toNat < 2 ^ GLOBAL_BITS) (q : Pos) :
    componentAt (place w p block) q =
      if q = p ∧ Writable w p then componentOf block else componentAt w q := by
  rw [componentAt_eq, idAt_place p hblock hw]
  split
  · rfl
  · exact (componentAt_eq w q).symm

/-! ## A redstone block that is placed and removed -/

/-- A position in the queue with no other component in the world: its visit is the tick. -/
theorem tick_alone (count : Pos → Nat) {s : State} (hplain : Plain s.engine) {p : Pos}
    (hpending : s.engine.pendingUpdates = [p]) (halone : ∀ q, q ≠ p → componentAt s.world q = none) :
    turns count MAX_NODES_PER_TICK s = [(s.take p [], p)] ∧
      propagate count MAX_NODES_PER_TICK s = (visit count (s.take p []) p).queue [] := by
  have hnext : s.engine.next = some (p, []) := by
    unfold Engine.next
    rw [hpending, hplain.processed]
    rfl
  have hnone : handedOn (s.take p []) p = [] := by
    refine List.eq_nil_iff_forall_not_mem.2 fun q hq => ?_
    have hne : q ≠ p := by
      obtain ⟨d, hd, rfl⟩ := List.mem_map.1 (List.mem_filter.1 (List.mem_filter.1 hq).1).1
      revert hd
      simp only [around, List.mem_cons, List.not_mem_nil, or_false]
      rintro (rfl | rfl | rfl | rfl | rfl | rfl) <;> simp [Pos.ext_iff]
    exact (of_mem_handedOn hq).1 (halone q hne)
  have hempty : (visit count (s.take p []) p).engine.next = none := by
    unfold Engine.next
    have hvisit : (visit count (s.take p []) p).engine.pendingUpdates = [] := by
      cases hr : reaction count (s.take p []) p with
      | none =>
          rw [visit_of_none hr]
          rfl
      | some r =>
          rw [(visit_of_some hr).2.2.1, hnone, ite_self]
          rfl
    rw [hvisit]
    rfl
  have hdone : ∀ n, turns count n (visit count (s.take p []) p) = [] ∧
      propagate count n (visit count (s.take p []) p) =
        (visit count (s.take p []) p).queue [] := by
    intro n
    cases n with
    | zero =>
        unfold turns propagate
        rw [hempty]
        exact ⟨rfl, rfl⟩
    | succ n =>
        unfold turns propagate
        rw [hempty]
        exact ⟨rfl, rfl⟩
  unfold MAX_NODES_PER_TICK turns propagate
  rw [hnext]
  exact ⟨congrArg _ (hdone _).1, (hdone _).2⟩

/-- A world of air. -/
def openSky : World := fun cp => some ⟨Chunk.new cp, .new cp⟩

theorem idAt_openSky (p : Pos) : idAt openSky p = some 0#32 := by
  change some (blockIn ⟨Chunk.new (chunkOf p), .new (chunkOf p)⟩ p).id = some 0#32
  rw [blockIn_new]
  rfl

theorem componentAt_openSky (p : Pos) : componentAt openSky p = none := by
  rw [componentAt_eq, idAt_openSky]
  rfl

theorem unpowered_openSky : Unpowered count openSky := by
  intro p id hp
  rw [componentAt_openSky] at hp
  cases hp

def origin : Pos := ⟨0#32, 64#32, 0#32⟩

def REDSTONE_BLOCK : BlockState := BlockState.new 152#32

/-- Nothing stands on a plate. -/
def nobody : Pos → Nat := fun _ => 0

def placed : State := step nobody (start openSky) (.change origin REDSTONE_BLOCK)

theorem small_openSky (q : Pos) (id : BitVec 32) (h : idAt openSky q = some id) :
    id.toNat < 2 ^ GLOBAL_BITS := by
  rw [idAt_openSky] at h
  rw [← Option.some.inj h]
  decide

theorem harmless_placed : Harmless nobody (start openSky) (.change origin REDSTONE_BLOCK) :=
  componentAt_place origin (by decide) small_openSky

theorem componentAt_placed (q : Pos) :
    componentAt placed.world q = if q = origin then some 152 else none := by
  refine (harmless_placed q).trans ?_
  by_cases hq : q = origin
  · rw [if_pos hq]
    exact if_pos ⟨hq, by decide⟩
  · rw [if_neg hq]
    exact (if_neg fun h => hq h.1).trans (componentAt_openSky q)

theorem plain_placed : Plain placed.engine := ⟨rfl, rfl, rfl, rfl⟩

theorem alone_placed (q : Pos) (hq : q ≠ origin) : componentAt placed.world q = none :=
  (componentAt_placed q).trans (if_neg hq)

/-- A component that is no piston and no copper bulb leaves the chunks alone. -/
theorem react_of_still {id : Nat} (hpiston : id ∉ [137, 138]) (hbulb : isCopperBulb id = false)
    (s : State) (p : Pos) (effective : Nat) (signals : SignalMap) :
    react s p id effective signals = s.world := by
  have hsticky : id ≠ 138 := fun h => hpiston (by simp [h])
  have hlit : ¬ isCopperBulb id = true := by simp [hbulb]
  unfold react
  dsimp only
  rw [if_neg fun h => hlit h.1, if_neg fun h => hsticky h.1, if_neg fun h => hpiston h.1]

theorem harmlessVisit_placed : HarmlessVisit nobody (placed.take origin []) origin := by
  have hcomponent : componentAt (placed.take origin []).world origin = some 152 :=
    (componentAt_placed origin).trans (if_pos rfl)
  unfold HarmlessVisit
  rw [hcomponent]
  refine .inr ⟨fun q => ?_, fun q r hr hinput => ?_⟩
  · rw [react_of_still (by decide) rfl]
  · have hplaced := componentAt_placed q
    change componentAt placed.world q = some r at hr
    rw [hr] at hplaced
    split at hplaced
    · rw [Option.some.inj hplaced] at hinput
      exact absurd hinput List.not_mem_nil
    · cases hplaced

theorem along_placed : Along (step nobody) (Harmless nobody) (start openSky)
    [.change origin REDSTONE_BLOCK, .tick] := by
  refine ⟨harmless_placed, ?_, trivial⟩
  change ∀ t ∈ turns nobody MAX_NODES_PER_TICK (startOf placed.world placed.engine),
    HarmlessVisit nobody t.1 t.2
  rw [startOf_of_plain plain_placed, (tick_alone nobody plain_placed rfl alone_placed).1]
  intro t ht
  obtain rfl := List.mem_singleton.1 ht
  exact harmlessVisit_placed

theorem pendingUpdates_placed_tick : (step nobody placed .tick).engine.pendingUpdates = [] := by
  refine (tick_of_plain _ _ plain_placed).2.2.2.trans ?_
  rw [(tick_alone nobody plain_placed rfl alone_placed).2]
  rfl

/-- A redstone block alone settles. -/
theorem settled_of_harmless_placed : Settled nobody
    ([.change origin REDSTONE_BLOCK, .tick].foldl (step nobody) (start openSky)).world
    ([.change origin REDSTONE_BLOCK, .tick].foldl (step nobody) (start openSky)).engine.signalMap :=
  (settled_of_harmless unpowered_openSky along_placed pendingUpdates_placed_tick).1

/-- The tick after the redstone block is placed. -/
def powered : State := step nobody placed .tick

theorem powered_eq : powered.world = placed.world ∧
    powered.engine.signalMap = Function.update (fun _ => none) origin (some 15) := by
  have hr : reaction nobody (placed.take origin []) origin = some (152, 15) := by
    rw [reaction_eq]
    change ((componentAt placed.world origin).bind _) = _
    rw [componentAt_placed, if_pos rfl]
    rfl
  obtain ⟨_, hworld, hsignals, _⟩ := tick_of_plain nobody placed.world plain_placed
  rw [(tick_alone nobody plain_placed rfl alone_placed).2] at hworld hsignals
  obtain ⟨hvisit, hvisitSignals, _⟩ := visit_of_some hr
  refine ⟨hworld.trans ?_, hsignals.trans hvisitSignals⟩
  exact hvisit.trans (react_of_still (by decide) rfl ..)

theorem idAt_powered (q : Pos) :
    idAt powered.world q = if q = origin then some 152#32 else some 0#32 := by
  rw [powered_eq.1]
  refine (idAt_place (w := openSky) origin (by decide) small_openSky q).trans ?_
  by_cases hq : q = origin
  · rw [if_pos hq]
    exact if_pos ⟨hq, by decide⟩
  · rw [if_neg hq]
    exact (if_neg fun h => hq h.1).trans (idAt_openSky q)

/-- The redstone block is removed. -/
def removed : State := step nobody powered (.change origin BlockState.AIR)

theorem componentAt_removed (q : Pos) : componentAt removed.world q = none := by
  have hsmall : ∀ q id, idAt powered.world q = some id → id.toNat < 2 ^ GLOBAL_BITS := by
    intro q id hid
    rw [idAt_powered] at hid
    split at hid
    · rw [← Option.some.inj hid]
      decide
    · rw [← Option.some.inj hid]
      decide
  have hid : idAt (place powered.world origin BlockState.AIR) q = _ :=
    idAt_place origin (by decide) hsmall q
  change componentAt (place powered.world origin BlockState.AIR) q = none
  rw [componentAt_eq, hid]
  split
  · rfl
  · rename_i hnot
    rw [idAt_powered, if_neg]
    · rfl
    · rintro rfl
      refine hnot ⟨rfl, ?_, by decide⟩
      rw [powered_eq.1]
      decide

/-- **The signal of a removed source stays**: a redstone block is placed, the engine ticks, the block
    is removed, and the engine ticks. -/
theorem not_forall_settled : ¬ ∀ (count : Pos → Nat) (w : World) (as : List Event),
    Unpowered count w → (as.foldl (step count) (start w)).engine.pendingUpdates = [] →
      Settled count (as.foldl (step count) (start w)).world
        (as.foldl (step count) (start w)).engine.signalMap := by
  intro hall
  have hplain : Plain removed.engine := by
    obtain ⟨hobservers, hpulses, hrepeaters, hprocessed⟩ :=
      (tick_of_plain nobody placed.world plain_placed).1
    exact ⟨hobservers, hpulses, hrepeaters, hprocessed⟩
  have hpending : removed.engine.pendingUpdates = [origin] := by
    change (step nobody placed .tick).engine.pendingUpdates ++ [origin] = _
    rw [pendingUpdates_placed_tick]
    rfl
  have halone := tick_alone nobody hplain hpending fun q _ => componentAt_removed q
  obtain ⟨_, hworld, hsignals, hqueue⟩ :=
    tick_of_plain nobody removed.world hplain
  rw [halone.2] at hworld hsignals hqueue
  have hr : reaction nobody (removed.take origin []) origin = none := by
    rw [reaction_eq]
    change ((componentAt removed.world origin).bind _) = _
    rw [componentAt_removed]
    rfl
  rw [visit_of_none hr] at hworld hsignals hqueue
  have hsettled := hall nobody openSky [.change origin REDSTONE_BLOCK, .tick,
    .change origin BlockState.AIR, .tick] unpowered_openSky hqueue
  have hbare := hsettled.bare origin
  change componentAt (tick nobody removed.world removed.engine).world origin = none →
    signalAt (tick nobody removed.world removed.engine).engine.signalMap origin = 0 at hbare
  rw [hworld, hsignals] at hbare
  have hstays : signalAt powered.engine.signalMap origin = 0 := hbare (componentAt_removed origin)
  rw [powered_eq.2] at hstays
  exact absurd hstays (by decide)

end Apoptotic.Redstone
