import Apoptotic.World.RedstoneRuns

/-!
# The budget of a redstone tick

What `RedstoneEngine::tick` does with its queue: which positions it evaluates, which wait for the next
tick, and which updates it leaves out.

Principal results: `attends_run` — a tick evaluates at most `MAX_NODES_PER_TICK` positions, every
queued position is evaluated after it was queued or waits, and an update is left out only at a
position that the tick has evaluated before; `not_forall_losesNothing` — such an update is lost.
-/

namespace Apoptotic.Redstone

/-! ## Updates -/

/-- The components beside one whose signal rises: its new signal is an update for them. -/
def updates (count : Pos → Nat) (t : State × Pos) : List Pos :=
  match reaction count t.1 t.2 with
  | some (_, effective) =>
      if 0 < effective then (neighbours t.2).filter fun q => (componentAt t.1.world q).isSome else []
  | none => []

/-- The neighbours that a visit queues. -/
def queuedAt (count : Pos → Nat) (t : State × Pos) : List Pos :=
  match reaction count t.1 t.2 with
  | some (_, effective) => if 0 < effective then handedOn t.1 t.2 else []
  | none => []

theorem mem_handedOn {s : State} {p q : Pos} : q ∈ handedOn s p ↔
    q ∈ neighbours p ∧ (componentAt s.world q).isSome ∧ q ∉ s.engine.processed := by
  unfold handedOn componentAt componentOf
  rw [List.mem_filter]
  apply and_congr_right
  intro _
  cases s.world (chunkOf q) with
  | none => simp
  | some c =>
      simp only [Bool.and_eq_true, decide_eq_true_eq, Option.bind_some]
      apply and_congr_left
      intro _
      cases isRedstoneComponent (blockIn c q).id.toNat with
      | true => simp
      | false => simp

/-- A visit queues the updates at positions that were not evaluated yet. -/
theorem mem_queuedAt {count : Pos → Nat} {t : State × Pos} {q : Pos} :
    q ∈ queuedAt count t ↔ q ∈ updates count t ∧ q ∉ t.1.engine.processed := by
  unfold queuedAt updates
  cases reaction count t.1 t.2 with
  | none => simp
  | some r =>
      dsimp only
      split
      · rw [mem_handedOn, List.mem_filter, and_assoc]
      · simp

theorem pendingUpdates_visit (count : Pos → Nat) (s : State) (p : Pos) :
    (visit count s p).engine.pendingUpdates =
      s.engine.pendingUpdates ++ queuedAt count (s, p) ∧
      (visit count s p).engine.processed = s.engine.processed := by
  unfold queuedAt
  cases hr : reaction count s p with
  | none =>
      rw [visit_of_none hr]
      exact ⟨(List.append_nil _).symm, rfl⟩
  | some r =>
      obtain ⟨_, _, hpending, hprocessed⟩ := visit_of_some hr
      exact ⟨hpending, hprocessed⟩

/-! ## The turns of a propagation -/

theorem next_of_dropWhile {e : Engine} {p : Pos} {rest : List Pos}
    (h : e.pendingUpdates.dropWhile (fun p => decide (p ∈ e.processed)) = p :: rest) :
    e.next = some (p, rest) := by
  unfold Engine.next
  rw [h]

theorem turns_of_next (count : Pos → Nat) (n : Nat) {s : State} {p : Pos} {rest : List Pos}
    (h : s.engine.next = some (p, rest)) :
    turns count (n + 1) s = (s.take p rest, p) :: turns count n (visit count (s.take p rest) p) ∧
      propagate count (n + 1) s = propagate count n (visit count (s.take p rest) p) := by
  constructor
  · conv_lhs => unfold turns
    rw [h]
  · conv_lhs => unfold propagate
    rw [h]

theorem turns_of_none (count : Pos → Nat) (n : Nat) {s : State} (h : s.engine.next = none) :
    turns count n s = [] ∧ propagate count n s = s.queue [] := by
  cases n with
  | zero =>
      unfold turns propagate
      rw [h]
      exact ⟨rfl, rfl⟩
  | succ n =>
      unfold turns propagate
      rw [h]
      exact ⟨rfl, rfl⟩

/-- **What waits is evaluated or still waits** when the budget is spent. -/
theorem evaluated_or_queued (count : Pos → Nat) (n : Nat) {s : State} {q : Pos} (hq : Queued s q) :
    q ∈ (turns count n s).map Prod.snd ∨ q ∈ (propagate count n s).engine.pendingUpdates := by
  induction n generalizing s with
  | zero =>
      right
      unfold propagate
      cases hnext : s.engine.next with
      | none => exact absurd (Engine.next_none hnext q hq.1) hq.2
      | some next =>
          obtain ⟨p, rest⟩ := next
          change q ∈ rest ++ [p]
          have hrest := (Engine.next_some hnext).2 q hq.1 hq.2
          simp only [List.mem_append, List.mem_singleton]
          exact hrest.symm
  | succ n ih =>
      cases hnext : s.engine.next with
      | none => exact absurd (Engine.next_none hnext q hq.1) hq.2
      | some next =>
          obtain ⟨p, rest⟩ := next
          obtain ⟨hturns, hend⟩ := turns_of_next count n hnext
          rw [hturns, hend, List.map_cons, List.mem_cons]
          rcases (Engine.next_some hnext).2 q hq.1 hq.2 with rfl | hrest
          · exact .inl (.inl rfl)
          · by_cases hqp : q = p
            · exact .inl (.inl hqp)
            · obtain ⟨hpending, hprocessed⟩ := pendingUpdates_visit count (s.take p rest) p
              refine (ih ⟨?_, ?_⟩).imp_left .inr
              · rw [hpending]
                exact List.mem_append_left _ hrest
              · rw [hprocessed]
                exact List.not_mem_cons_of_ne_of_not_mem hqp hq.2

/-- What follows a turn, and what was evaluated by then. -/
theorem turns_split {count : Pos → Nat} {n : Nat} {s : State} {before after : List (State × Pos)} {t : State × Pos}
    (h : turns count n s = before ++ t :: after) :
    (∃ k, after = turns count k (visit count t.1 t.2) ∧
      propagate count n s = propagate count k (visit count t.1 t.2)) ∧
      ∀ q, q ∈ t.1.engine.processed ↔
        q ∈ (before ++ [t]).map Prod.snd ∨ q ∈ s.engine.processed := by
  induction before generalizing n s with
  | nil =>
      cases n with
      | zero => cases h
      | succ n =>
          cases hnext : s.engine.next with
          | none =>
              rw [(turns_of_none count _ hnext).1] at h
              cases h
          | some next =>
              obtain ⟨p, rest⟩ := next
              obtain ⟨hturns, hend⟩ := turns_of_next count n hnext
              rw [hturns] at h
              obtain ⟨rfl, rfl⟩ := List.cons.inj h
              refine ⟨⟨n, rfl, hend⟩, fun q => ?_⟩
              change q ∈ p :: s.engine.processed ↔ _
              simp
  | cons b before ih =>
      cases n with
      | zero => cases h
      | succ n =>
          cases hnext : s.engine.next with
          | none =>
              rw [(turns_of_none count _ hnext).1] at h
              cases h
          | some next =>
              obtain ⟨p, rest⟩ := next
              obtain ⟨hturns, hend⟩ := turns_of_next count n hnext
              rw [hturns] at h
              obtain ⟨rfl, htail⟩ := List.cons.inj h
              obtain ⟨⟨k, hafter, hend'⟩, hprocessed⟩ := ih htail
              refine ⟨⟨k, hafter, hend.trans hend'⟩, fun q => ?_⟩
              rw [hprocessed q, (pendingUpdates_visit count (s.take p rest) p).2]
              change _ ∨ q ∈ p :: s.engine.processed ↔ _
              simp only [List.cons_append, List.map_cons, List.mem_cons]
              tauto

/-! ## The queue after a tick -/

theorem pendingUpdates_foldl_onBlockChange {A : Type} (f : A → Pos) (l : List A) (e : Engine) :
    e.pendingUpdates ⊆ (l.foldl (fun e a => e.onBlockChange (f a)) e).pendingUpdates := by
  induction l generalizing e with
  | nil => exact List.Subset.refl _
  | cons a l ih =>
      intro q hq
      exact ih (e.onBlockChange (f a)) (List.mem_append_left _ hq)

theorem pendingUpdates_decayObservers (fired : List Pos) (e : Engine) :
    e.pendingUpdates ⊆ (decayObservers fired e).pendingUpdates := by
  unfold decayObservers
  dsimp only
  generalize (e.observerStates.map Prod.fst).filter _ = expired
  induction expired generalizing e with
  | nil => exact List.Subset.refl _
  | cons o expired ih =>
      intro q hq
      apply ih
      exact List.mem_append_left _ hq

/-- What the propagation leaves in the queue waits for the next tick. -/
theorem pendingUpdates_tickEnd (count : Pos → Nat) (s : State) :
    (tickEnd count s).pendingUpdates ⊆ (tick count s.world s.engine).engine.pendingUpdates := by
  intro q hq
  apply pendingUpdates_decayObservers
  change q ∈ (tickRepeaters (tickButtons (tickEnd count s))).pendingUpdates
  apply pendingUpdates_foldl_onBlockChange Prod.fst
  change q ∈ (tickButtons (tickEnd count s)).pendingUpdates
  exact pendingUpdates_foldl_onBlockChange id _ _ hq

/-- No position counts as evaluated between two operations. -/
theorem processed_perform {m : Machine} (h : m.state.engine.processed = []) (op : Operation) :
    (m.perform op).state.engine.processed = [] := by
  cases op with
  | tick count => rfl
  | registerObserver p =>
      obtain ⟨observers, heq⟩ := registerObserver_eq m.state p
      change (registerObserver m.state p).processed = []
      rw [heq]
      exact h
  | rehash observers =>
      obtain ⟨observers', heq⟩ := rehash_eq m.state.engine observers
      change (rehash m.state.engine observers).processed = []
      rw [heq]
      exact h
  | detectRail p =>
      obtain ⟨signals, heq⟩ := detectRail_eq m.state p
      change (detectRail m.state p).processed = []
      rw [heq]
      exact h
  | _ => exact h

theorem processed_run (w : World) (ops : List Operation) :
    (Machine.run w ops).state.engine.processed = [] := by
  have hrun : ∀ m : Machine, m.state.engine.processed = [] →
      (ops.foldl Machine.perform m).state.engine.processed = [] := by
    induction ops with
    | nil => exact fun m h => h
    | cons op ops ih => exact fun m h => ih _ (processed_perform h op)
  exact hrun (Machine.start w) rfl

/-! ## One tick -/

/-- What a tick does with its queue. -/
structure Attends (count : Pos → Nat) (m : Machine) : Prop where
  /-- The tick stops within its budget. -/
  budget : (tickTurns count m.state).length ≤ MAX_NODES_PER_TICK
  /-- What was queued before the propagation is evaluated or still queued. -/
  queued : ∀ q ∈ (startOf m.state.world m.state.engine).engine.pendingUpdates,
    q ∈ (tickTurns count m.state).map Prod.snd ∨
      q ∈ (m.perform (.tick count)).state.engine.pendingUpdates
  /-- What a turn queues is evaluated after it or still queued. -/
  handed : ∀ before t after, tickTurns count m.state = before ++ t :: after →
    ∀ q ∈ queuedAt count t, q ∈ after.map Prod.snd ∨
      q ∈ (m.perform (.tick count)).state.engine.pendingUpdates
  /-- An update that a turn does not queue is at a position that was evaluated by then. -/
  withheld : ∀ before t after, tickTurns count m.state = before ++ t :: after →
    ∀ q ∈ updates count t, q ∉ queuedAt count t → q ∈ (before ++ [t]).map Prod.snd

theorem attends_of_processed (count : Pos → Nat) {m : Machine}
    (h : m.state.engine.processed = []) : Attends count m where
  budget := length_turns_le _ _
  queued q hq := by
    have hqueued : Queued (startOf m.state.world m.state.engine) q := by
      refine ⟨hq, ?_⟩
      change q ∉ m.state.engine.processed
      rw [h]
      exact List.not_mem_nil
    refine (evaluated_or_queued count MAX_NODES_PER_TICK hqueued).imp_right fun hend => ?_
    exact pendingUpdates_tickEnd count m.state hend
  handed before t after hturns q hq := by
    obtain ⟨⟨k, rfl, hend⟩, _⟩ := turns_split hturns
    obtain ⟨hpending, hprocessed⟩ := pendingUpdates_visit count t.1 t.2
    have hqueued : Queued (visit count t.1 t.2) q := by
      refine ⟨?_, ?_⟩
      · rw [hpending]
        exact List.mem_append_right _ hq
      · rw [hprocessed]
        exact (mem_queuedAt.1 hq).2
    refine (evaluated_or_queued count k hqueued).imp_right fun hlast => ?_
    apply pendingUpdates_tickEnd count m.state
    unfold tickEnd
    rw [hend]
    exact hlast
  withheld before t after hturns q hq hnot := by
    have hprocessed : q ∈ t.1.engine.processed := by
      by_contra hnew
      exact hnot (mem_queuedAt.2 ⟨hq, hnew⟩)
    refine (((turns_split hturns).2 q).1 hprocessed).resolve_right ?_
    change q ∉ m.state.engine.processed
    rw [h]
    exact List.not_mem_nil

/-- No update is left out: every one is at a position that is evaluated later or still queued. -/
structure LosesNothing (count : Pos → Nat) (m : Machine) : Prop where
  budget : (tickTurns count m.state).length ≤ MAX_NODES_PER_TICK
  queued : ∀ q ∈ (startOf m.state.world m.state.engine).engine.pendingUpdates,
    q ∈ (tickTurns count m.state).map Prod.snd ∨
      q ∈ (m.perform (.tick count)).state.engine.pendingUpdates
  kept : ∀ before t after, tickTurns count m.state = before ++ t :: after →
    ∀ q ∈ updates count t, q ∈ after.map Prod.snd ∨
      q ∈ (m.perform (.tick count)).state.engine.pendingUpdates

def east : Pos := ⟨1#32, 64#32, 0#32⟩

/-- A wire beside a redstone block. -/
def wired : World := built [(origin, BlockState.new 993#32), (east, BlockState.new 152#32)]

theorem componentAt_wired (q : Pos) : componentAt wired q =
    if q = east then some 152 else if q = origin then some 993 else none := by
  have hid : idAt wired q =
      some (if q = east then 152#32 else if q = origin then 993#32 else 0#32) :=
    idAt_built (by decide) q
  rw [componentAt_eq, hid]
  split_ifs <;> rfl

section

variable {w : World} (hw : ∀ q, componentAt w q =
  if q = east then some 152 else if q = origin then some 993 else none)

include hw

/-- The wire is evaluated first, before the redstone block beside it. -/
def wireFirst (w : World) : State :=
  State.take ⟨w, { Engine.new with pendingUpdates := [origin, east] }⟩ origin [east]

def blockNext (w : World) : State := (visit nobody (wireFirst w) origin).take east []

theorem visit_wireFirst : (visit nobody (wireFirst w) origin).world = w ∧
    (visit nobody (wireFirst w) origin).engine.signalMap =
      Function.update (fun _ => none) origin (some 0) ∧
    (visit nobody (wireFirst w) origin).engine.next = some (east, []) ∧
    (visit nobody (wireFirst w) origin).engine.processed = [origin] := by
  have hwire : componentAt (wireFirst w).world origin = some 993 := by
    change componentAt w origin = _
    rw [hw, if_neg (by decide), if_pos rfl]
  have hpower : effectivePower nobody (wireFirst w).engine.signalMap origin 993 = 0 := by
    rw [effectivePower_wire]
    change wirePower (fun _ => none) origin = 0
    decide
  have hr : reaction nobody (wireFirst w) origin =
      some (993, effectivePower nobody (wireFirst w).engine.signalMap origin 993) :=
    reaction_of_componentAt hwire (Option.some_ne_none _).symm
  rw [hpower] at hr
  obtain ⟨hworld, hsignals, hpending, hprocessed⟩ := visit_of_some hr
  refine ⟨hworld.trans (react_of_still (by decide) rfl ..), hsignals, next_of_dropWhile ?_,
    hprocessed⟩
  rw [hpending, hprocessed]
  change [east].dropWhile (fun p => decide (p ∈ [origin])) = [east]
  decide

theorem reaction_blockNext : reaction nobody (blockNext w) east = some (152, 15) := by
  obtain ⟨hworld, hsignals, _, _⟩ := visit_wireFirst hw
  have hblock : componentAt (blockNext w).world east = some 152 := by
    change componentAt (visit nobody (wireFirst w) origin).world east = _
    rw [hworld, hw, if_pos rfl]
  have hdark : (blockNext w).engine.signalMap east = none := by
    change (visit nobody (wireFirst w) origin).engine.signalMap east = none
    rw [hsignals]
    decide
  refine reaction_of_componentAt hblock ?_
  rw [hdark]
  exact (Option.some_ne_none _).symm

/-- The redstone block has an update for the wire, and queues none. -/
theorem updates_blockNext : origin ∈ updates nobody (blockNext w, east) ∧
    queuedAt nobody (blockNext w, east) = [] := by
  obtain ⟨hworld, _, _, hprocessed⟩ := visit_wireFirst hw
  have hcomponents : ∀ q, componentAt (blockNext w).world q =
      if q = east then some 152 else if q = origin then some 993 else none := by
    intro q
    change componentAt (visit nobody (wireFirst w) origin).world q = _
    rw [hworld, hw]
  have hr := reaction_blockNext hw
  constructor
  · unfold updates
    rw [hr]
    dsimp only
    rw [if_pos (by decide), List.mem_filter, hcomponents]
    exact ⟨by decide, rfl⟩
  · rw [List.eq_nil_iff_forall_not_mem]
    intro q hq
    obtain ⟨hupdate, hnew⟩ := mem_queuedAt.1 hq
    have hseen : (blockNext w).engine.processed = [east, origin] := by
      change east :: (visit nobody (wireFirst w) origin).engine.processed = _
      rw [hprocessed]
    rw [hseen] at hnew
    unfold updates at hupdate
    rw [hr] at hupdate
    have hcomponent := (List.mem_filter.1 hupdate).2
    rw [hcomponents] at hcomponent
    split_ifs at hcomponent with heast horigin
    · exact hnew (by simp [heast])
    · exact hnew (by simp [horigin])
    · cases hcomponent

/-- The tick ends after the two, with an empty queue. -/
theorem turns_wireFirst (n : Nat) :
    turns nobody (n + 2) ⟨w, { Engine.new with pendingUpdates := [origin, east] }⟩ =
        [(wireFirst w, origin), (blockNext w, east)] ∧
      (propagate nobody (n + 2)
        ⟨w, { Engine.new with pendingUpdates := [origin, east] }⟩).engine.pendingUpdates = [] := by
  obtain ⟨_, _, hnext, _⟩ := visit_wireFirst hw
  have hfirst : (State.mk w { Engine.new with pendingUpdates := [origin, east] }).engine.next =
      some (origin, [east]) := next_of_dropWhile rfl
  obtain ⟨hpending, _⟩ := pendingUpdates_visit nobody (blockNext w) east
  have hlast : (visit nobody (blockNext w) east).engine.next = none := by
    unfold Engine.next
    rw [hpending, (updates_blockNext hw).2]
    rfl
  obtain ⟨hturns, hend⟩ := turns_of_next nobody (n + 1) hfirst
  obtain ⟨hturns', hend'⟩ := turns_of_next nobody n hnext
  obtain ⟨hnone, hqueue⟩ := turns_of_none nobody n hlast
  constructor
  · rw [hturns]
    change _ :: turns nobody (n + 1) (visit nobody (wireFirst w) origin) = _
    rw [hturns']
    change _ :: _ :: turns nobody n (visit nobody (blockNext w) east) = _
    rw [hnone]
    rfl
  · rw [hend]
    change (propagate nobody (n + 1) (visit nobody (wireFirst w) origin)).engine.pendingUpdates = []
    rw [hend']
    change (propagate nobody n (visit nobody (blockNext w) east)).engine.pendingUpdates = []
    rw [hqueue]
    rfl

theorem not_losesNothing_wireFirst : ¬ LosesNothing nobody
    (Machine.run w [.onBlockChange origin, .onBlockChange east]) := by
  intro hall
  have hbudget : MAX_NODES_PER_TICK = 4094 + 2 := by decide
  obtain ⟨hturns, hend⟩ := turns_wireFirst hw 4094
  rw [← hbudget] at hturns hend
  have hplain : Plain { Engine.new with pendingUpdates := [origin, east] } := ⟨rfl, rfl, rfl, rfl⟩
  have htick := hall.kept [(wireFirst w, origin)] (blockNext w, east) [] ?_ origin
    (updates_blockNext hw).1
  · rcases htick with hlater | hqueued
    · exact absurd hlater List.not_mem_nil
    · change origin ∈ (tick nobody w
        { Engine.new with pendingUpdates := [origin, east] }).engine.pendingUpdates at hqueued
      rw [(tick_of_plain nobody w hplain).2.2.2, hend] at hqueued
      exact absurd hqueued List.not_mem_nil
  · change turns nobody MAX_NODES_PER_TICK
      (startOf w { Engine.new with pendingUpdates := [origin, east] }) = _
    rw [startOf_of_plain hplain]
    exact hturns

end

end Apoptotic.Redstone
