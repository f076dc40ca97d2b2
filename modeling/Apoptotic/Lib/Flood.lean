import Mathlib.Data.Fintype.Card
import Mathlib.Data.Finset.Card

/-!
# Flood fills

A breadth-first flood of levels through the vertices of a grid.  A vertex is touched once, by the
first node in the queue that borders on it; it takes the level of that node less one when it is
passable and its own level is lower.  The store that holds the levels is arbitrary.

Principal results: `flood_reaches` — levels rise only, within reach of a source; `flood_idem` — a
second flood changes nothing; `flood_agree` — vertices that no burning node borders on have no part
in a flood.
-/

/-- Levels below `n` on the vertices of a store. -/
structure Grid (S V : Type) (n : Nat) where
  neighbors : V → List V
  passable : S → V → Bool
  level : S → V → Fin n
  setLevel : S → V → Fin n → S
  passable_setLevel : ∀ s v l w, passable (setLevel s v l) w = passable s w
  level_setLevel_self : ∀ s v l, passable s v = true → level (setLevel s v l) v = l
  level_setLevel_of_ne : ∀ s v l w, w ≠ v → level (setLevel s v l) w = level s w

namespace Flood

variable {S V : Type} {n : Nat}

/-- One level down. -/
def lower (l : Fin n) : Fin n := ⟨l.val - 1, by omega⟩

structure State (S V : Type) (n : Nat) where
  visited : Finset V
  queue : List (V × Fin n)
  store : S

variable (g : Grid S V n)

/-- What a node offers to its neighbours: nothing when its level is 0 or 1. -/
def offers (node : V × Fin n) : List (V × Fin n) :=
  if node.2.val ≤ 1 then [] else (g.neighbors node.1).map fun v => (v, lower node.2)

/-- A neighbour is offered a level. -/
def touch [DecidableEq V] (st : State S V n) (offer : V × Fin n) : State S V n :=
  if offer.1 ∈ st.visited then st
  else if g.passable st.store offer.1 = true ∧ g.level st.store offer.1 < offer.2 then
    ⟨insert offer.1 st.visited, st.queue ++ [offer], g.setLevel st.store offer.1 offer.2⟩
  else { st with visited := insert offer.1 st.visited }

def sweep [DecidableEq V] (st : State S V n) (offered : List (V × Fin n)) : State S V n :=
  offered.foldl (touch g) st

/-! ## What a sweep keeps -/

/-- Nothing of `st` but the levels of vertices that it has not visited differs in `st'`. -/
structure Extends (st st' : State S V n) : Prop where
  visited : st.visited ⊆ st'.visited
  passable : ∀ v, g.passable st'.store v = g.passable st.store v
  level : ∀ v ∈ st.visited, g.level st'.store v = g.level st.store v

variable {g} in
theorem Extends.trans {st st' st'' : State S V n} (h : Extends g st st') (h' : Extends g st' st'') :
    Extends g st st'' where
  visited := h.visited.trans h'.visited
  passable v := (h'.passable v).trans (h.passable v)
  level v hv := (h'.level v (h.visited hv)).trans (h.level v hv)

variable [DecidableEq V]

theorem extends_touch (st : State S V n) (offer : V × Fin n) : Extends g st (touch g st offer) := by
  unfold touch
  split
  · exact ⟨Finset.Subset.refl _, fun _ => rfl, fun _ _ => rfl⟩
  · rename_i hnew
    split
    · refine ⟨Finset.subset_insert _ _, fun v => g.passable_setLevel _ _ _ _, fun v hv => ?_⟩
      exact g.level_setLevel_of_ne _ _ _ _ fun h => hnew (h ▸ hv)
    · exact ⟨Finset.subset_insert _ _, fun _ => rfl, fun _ _ => rfl⟩

theorem extends_sweep (offered : List (V × Fin n)) (st : State S V n) :
    Extends g st (sweep g st offered) := by
  unfold sweep
  induction offered generalizing st with
  | nil => exact ⟨Finset.Subset.refl _, fun _ => rfl, fun _ _ => rfl⟩
  | cons offer offered ih => exact (extends_touch g st offer).trans (ih _)

/-- A vertex that is offered a level has at least that level afterwards, or it was visited before or
is not passable. -/
theorem le_level_touch (st : State S V n) (offer : V × Fin n) (hnew : offer.1 ∉ st.visited)
    (hpass : g.passable st.store offer.1 = true) :
    offer.2 ≤ g.level (touch g st offer).store offer.1 := by
  unfold touch
  rw [if_neg hnew]
  split
  · rw [g.level_setLevel_self _ _ _ hpass]
  · rename_i h
    exact not_lt.1 fun hlt => h ⟨hpass, hlt⟩

theorem mem_visited_touch (st : State S V n) (offer : V × Fin n) :
    offer.1 ∈ (touch g st offer).visited := by
  unfold touch
  split
  · assumption
  · split
    · exact Finset.mem_insert_self _ _
    · exact Finset.mem_insert_self _ _

/-- What a sweep does to a queue does not depend on what stands before it. -/
theorem touch_append (visited : Finset V) (front queue : List (V × Fin n)) (s : S)
    (offer : V × Fin n) :
    touch g ⟨visited, front ++ queue, s⟩ offer =
      { touch g ⟨visited, queue, s⟩ offer with
        queue := front ++ (touch g ⟨visited, queue, s⟩ offer).queue } := by
  unfold touch
  dsimp only
  split
  · rfl
  · split
    · rw [List.append_assoc]
    · rfl

theorem sweep_append (offered front : List (V × Fin n)) (st : State S V n) :
    sweep g { st with queue := front ++ st.queue } offered =
      { sweep g st offered with queue := front ++ (sweep g st offered).queue } := by
  unfold sweep
  induction offered generalizing st with
  | nil => rfl
  | cons offer offered ih =>
      rw [List.foldl_cons, List.foldl_cons, touch_append]
      exact ih (touch g st offer)

/-- A sweep whose offers were made before changes no level. -/
theorem sweep_again {s' : S} (queue : List (V × Fin n)) (offered : List (V × Fin n))
    (st : State S V n)
    (hpass : ∀ v, g.passable s' v = g.passable st.store v)
    (hlevel : ∀ v ∈ (sweep g st offered).visited,
      g.level s' v = g.level (sweep g st offered).store v) :
    sweep g ⟨st.visited, queue, s'⟩ offered = ⟨(sweep g st offered).visited, queue, s'⟩ := by
  unfold sweep at hlevel ⊢
  induction offered generalizing st with
  | nil => rfl
  | cons offer offered ih =>
      rw [List.foldl_cons, List.foldl_cons]
      have hsame : touch g ⟨st.visited, queue, s'⟩ offer =
          ⟨(touch g st offer).visited, queue, s'⟩ := by
        by_cases hold : offer.1 ∈ st.visited
        · unfold touch
          rw [if_pos hold, if_pos hold]
        · have hafter : g.passable st.store offer.1 = true → offer.2 ≤ g.level s' offer.1 := by
            intro hp
            have hext := extends_sweep g offered (touch g st offer)
            have hmem := mem_visited_touch g st offer
            rw [hlevel offer.1 (hext.visited hmem)]
            exact (le_level_touch g st offer hold hp).trans (hext.level offer.1 hmem).ge
          unfold touch
          rw [if_neg hold, if_neg hold, if_neg fun h => not_lt.2 (hafter (hpass _ ▸ h.1)) h.2]
          split
          · rfl
          · rfl
      rw [hsame]
      refine ih _ (fun v => (hpass v).trans ?_) hlevel
      exact ((extends_touch g st offer).passable v).symm

/-! ## What sources can reach -/

/-- A level that one step along a queue cannot raise above what the sources allow. -/
structure Reaches (dist : V → V → Nat) (sources : List (V × Fin n)) (s : S) (st : State S V n) :
    Prop where
  queued : ∀ node ∈ st.queue, ∃ source ∈ sources, node.2.val + dist source.1 node.1 ≤ source.2.val
  passable : ∀ v, g.passable st.store v = g.passable s v
  level : ∀ v, g.level st.store v = g.level s v ∨
    (g.level s v < g.level st.store v ∧ g.passable s v = true ∧ ∃ source ∈ sources,
      (g.level st.store v).val + dist source.1 v ≤ source.2.val)

variable {g} in
theorem Reaches.touch {dist : V → V → Nat} {sources : List (V × Fin n)} {s : S}
    {st : State S V n} (h : Reaches g dist sources s st) {offer : V × Fin n}
    (hoffer : ∃ source ∈ sources, offer.2.val + dist source.1 offer.1 ≤ source.2.val) :
    Reaches g dist sources s (touch g st offer) := by
  unfold Flood.touch
  split
  · exact h
  · rename_i hnew
    split
    · rename_i hset
      obtain ⟨hpass, hlt⟩ := hset
      refine ⟨fun node hnode => ?_, fun v => (g.passable_setLevel _ _ _ _).trans (h.passable v),
        fun v => ?_⟩
      · rcases List.mem_append.1 hnode with hold | hlast
        · exact h.queued node hold
        · rw [List.mem_singleton.1 hlast]
          exact hoffer
      · by_cases hv : v = offer.1
        · subst hv
          dsimp only
          rw [g.level_setLevel_self _ _ _ hpass]
          refine Or.inr ⟨?_, (h.passable _).symm.trans hpass, hoffer⟩
          rcases h.level offer.1 with hsame | ⟨hrise, _⟩
          · exact hsame ▸ hlt
          · exact hrise.trans hlt
        · dsimp only
          rw [g.level_setLevel_of_ne _ _ _ _ hv]
          exact h.level v
    · exact ⟨h.queued, h.passable, h.level⟩

/-! ## Two sweeps side by side -/

/-- Two states that differ on `D` only, where they are as `s` and `s'`. -/
structure Agree (D : Set V) (s s' : S) (st st' : State S V n) : Prop where
  visited : ∀ v ∉ D, (v ∈ st.visited ↔ v ∈ st'.visited)
  queue : st.queue = st'.queue
  passable : ∀ v ∉ D, g.passable st.store v = g.passable st'.store v
  level : ∀ v ∉ D, g.level st.store v = g.level st'.store v
  queued : ∀ node ∈ st.queue,
    node.1 ∉ D ∧ node.1 ∈ st.visited ∧ g.level st.store node.1 = node.2
  still : ∀ v ∈ D, g.level st.store v = g.level s v
  still' : ∀ v ∈ D, g.level st'.store v = g.level s' v

section

variable {g} {D : Set V} {s s' : S} {st st' : State S V n}

/-- What is visited and what is queued agree after the same vertex outside `D` is visited. -/
theorem Agree.visit (h : Agree g D s s' st st') (v : V) :
    Agree g D s s' { st with visited := insert v st.visited }
      { st' with visited := insert v st'.visited } where
  visited w hw := by rw [Finset.mem_insert, Finset.mem_insert, h.visited w hw]
  queue := h.queue
  passable := h.passable
  level := h.level
  queued node hnode := by
    obtain ⟨hout, hvisited, hlevel⟩ := h.queued node hnode
    exact ⟨hout, Finset.mem_insert_of_mem hvisited, hlevel⟩
  still := h.still
  still' := h.still'

/-- A vertex outside `D` that was not visited takes the same level in both. -/
theorem Agree.setLevel (h : Agree g D s s' st st') {offer : V × Fin n} (hout : offer.1 ∉ D)
    (hnew : offer.1 ∉ st.visited) (hpass : g.passable st.store offer.1 = true) :
    Agree g D s s'
      ⟨insert offer.1 st.visited, st.queue ++ [offer], g.setLevel st.store offer.1 offer.2⟩
      ⟨insert offer.1 st'.visited, st'.queue ++ [offer], g.setLevel st'.store offer.1 offer.2⟩ where
  visited := (h.visit offer.1).visited
  queue := by rw [h.queue]
  passable v hv := by
    rw [g.passable_setLevel, g.passable_setLevel]
    exact h.passable v hv
  level v hv := by
    by_cases hvo : v = offer.1
    · subst hvo
      rw [g.level_setLevel_self _ _ _ hpass,
        g.level_setLevel_self _ _ _ ((h.passable _ hout).symm.trans hpass)]
    · rw [g.level_setLevel_of_ne _ _ _ _ hvo, g.level_setLevel_of_ne _ _ _ _ hvo]
      exact h.level v hv
  queued node hnode := by
    rcases List.mem_append.1 hnode with hold | hlast
    · obtain ⟨hnout, hvisited, hlevel⟩ := h.queued node hold
      refine ⟨hnout, Finset.mem_insert_of_mem hvisited, ?_⟩
      have hne : node.1 ≠ offer.1 := fun heq => hnew (heq ▸ hvisited)
      exact (g.level_setLevel_of_ne _ _ _ _ hne).trans hlevel
    · rw [List.mem_singleton] at hlast
      subst hlast
      exact ⟨hout, Finset.mem_insert_self _ _, g.level_setLevel_self _ _ _ hpass⟩
  still v hv := by
    have hne : v ≠ offer.1 := fun heq => hout (heq ▸ hv)
    exact (g.level_setLevel_of_ne _ _ _ _ hne).trans (h.still v hv)
  still' v hv := by
    have hne : v ≠ offer.1 := fun heq => hout (heq ▸ hv)
    exact (g.level_setLevel_of_ne _ _ _ _ hne).trans (h.still' v hv)

theorem Agree.touch (h : Agree g D s s' st st') {offer : V × Fin n} (hout : offer.1 ∉ D) :
    Agree g D s s' (touch g st offer) (touch g st' offer) := by
  unfold Flood.touch
  rw [← h.passable _ hout, ← h.level _ hout]
  by_cases hold : offer.1 ∈ st.visited
  · rw [if_pos hold, if_pos ((h.visited _ hout).1 hold)]
    exact h
  · rw [if_neg hold, if_neg fun hold' => hold ((h.visited _ hout).2 hold')]
    by_cases hset : g.passable st.store offer.1 = true ∧ g.level st.store offer.1 < offer.2
    · rw [if_pos hset, if_pos hset]
      exact h.setLevel hout hold hset.1
    · rw [if_neg hset, if_neg hset]
      exact h.visit offer.1

theorem Agree.sweep (h : Agree g D s s' st st') {offered : List (V × Fin n)}
    (hout : ∀ offer ∈ offered, offer.1 ∉ D) :
    Agree g D s s' (sweep g st offered) (sweep g st' offered) := by
  unfold Flood.sweep
  induction offered generalizing st st' with
  | nil => exact h
  | cons offer offered ih =>
      exact ih (h.touch (hout offer List.mem_cons_self))
        fun other hother => hout other (List.mem_cons_of_mem _ hother)

end

/-! ## The queue runs empty -/

/-- The vertices still to be visited count twice, so that they can be queued. -/
def State.fuel [Fintype V] (st : State S V n) : Nat := 2 * (Finset.univ \ st.visited).card + st.queue.length

theorem fuel_touch [Fintype V] (st : State S V n) (offer : V × Fin n) :
    (touch g st offer).fuel ≤ st.fuel := by
  unfold touch
  split
  · exact Nat.le_refl _
  · rename_i hnew
    have hlt : (Finset.univ \ insert offer.1 st.visited).card < (Finset.univ \ st.visited).card := by
      refine Finset.card_lt_card ((Finset.ssubset_iff_of_subset
        (Finset.sdiff_subset_sdiff (Finset.Subset.refl _) (Finset.subset_insert _ _))).2
          ⟨offer.1, ?_, ?_⟩)
      · exact Finset.mem_sdiff.2 ⟨Finset.mem_univ _, hnew⟩
      · intro h
        exact (Finset.mem_sdiff.1 h).2 (Finset.mem_insert_self _ _)
    unfold State.fuel
    split
    · dsimp only
      rw [List.length_append, List.length_singleton]
      omega
    · dsimp only
      omega

theorem fuel_sweep [Fintype V] (offered : List (V × Fin n)) (st : State S V n) :
    (sweep g st offered).fuel ≤ st.fuel := by
  unfold sweep
  induction offered generalizing st with
  | nil => exact Nat.le_refl _
  | cons offer offered ih => exact (ih _).trans (fuel_touch g st offer)

/-- `while let Some(node) = queue.pop_front()`. -/
def run [Fintype V] (st : State S V n) : S :=
  match _hqueue : st.queue with
  | [] => st.store
  | node :: queue => run (sweep g { st with queue := queue } (offers g node))
termination_by st.fuel
decreasing_by
  refine Nat.lt_of_le_of_lt (fuel_sweep g _ _) ?_
  unfold State.fuel
  rw [_hqueue]
  exact Nat.lt_succ_self _

variable [Fintype V]

/-- The flood from some sources, which count as visited. -/
def flood (sources : List (V × Fin n)) (s : S) : S :=
  run g ⟨(sources.map Prod.fst).toFinset, sources, s⟩

theorem run_nil (visited : Finset V) (s : S) : run g ⟨visited, [], s⟩ = s := by rw [run]

theorem run_cons (visited : Finset V) (node : V × Fin n) (queue : List (V × Fin n)) (s : S) :
    run g ⟨visited, node :: queue, s⟩ = run g (sweep g ⟨visited, queue, s⟩ (offers g node)) := by
  rw [run]

/-- An invariant of the states that one pop and its sweep keep holds when the queue is empty. -/
theorem run_invariant {P : State S V n → Prop}
    (hstep : ∀ visited node queue s, P ⟨visited, node :: queue, s⟩ →
      P (sweep g ⟨visited, queue, s⟩ (offers g node)))
    (st : State S V n) (h : P st) : ∃ visited, P ⟨visited, [], run g st⟩ := by
  induction hfuel : st.fuel using Nat.strong_induction_on generalizing st with
  | _ fuel ih =>
      obtain ⟨visited, queue, s⟩ := st
      cases queue with
      | nil =>
          rw [run_nil]
          exact ⟨visited, h⟩
      | cons node queue =>
          rw [run_cons]
          refine ih _ ?_ _ (hstep _ _ _ _ h) rfl
          rw [← hfuel]
          exact Nat.lt_of_le_of_lt (fuel_sweep g _ _) (Nat.lt_succ_self _)

theorem extends_run (st : State S V n) :
    ∃ visited, Extends g st ⟨visited, [], run g st⟩ := by
  refine run_invariant g (P := fun st' => Extends g st st') ?_ st
    ⟨Finset.Subset.refl _, fun _ => rfl, fun _ _ => rfl⟩
  intro visited node queue s h
  have hqueue : Extends g st ⟨visited, queue, s⟩ := ⟨h.visited, h.passable, h.level⟩
  exact hqueue.trans (extends_sweep g _ _)

/-- What no change of a level changes, a flood does not change. -/
theorem flood_frame {α : Type} (f : S → α) (hf : ∀ s v l, f (g.setLevel s v l) = f s)
    (sources : List (V × Fin n)) (s : S) : f (flood g sources s) = f s := by
  have htouch : ∀ (st : State S V n) offer, f (touch g st offer).store = f st.store := by
    intro st offer
    unfold touch
    split
    · rfl
    · split
      · exact hf _ _ _
      · rfl
  have hsweep : ∀ offered (st : State S V n), f (sweep g st offered).store = f st.store := by
    intro offered
    unfold sweep
    induction offered with
    | nil => exact fun _ => rfl
    | cons offer offered ih => exact fun st => (ih _).trans (htouch st offer)
  obtain ⟨_, hend⟩ := run_invariant g (P := fun st => f st.store = f s)
    (fun _ _ _ _ h => (hsweep _ _).trans h) ⟨(sources.map Prod.fst).toFinset, sources, s⟩ rfl
  exact hend

/-! ## How far a flood goes -/

/-- **A flood raises levels only, and only within reach of a source**: a level that it sets is at
    most that of some source less the distance. -/
theorem flood_reaches (dist : V → V → Nat) (hself : ∀ v, dist v v = 0)
    (hnext : ∀ u v w, w ∈ g.neighbors v → dist u w ≤ dist u v + 1) (sources : List (V × Fin n))
    (s : S) (v : V) :
    g.level (flood g sources s) v = g.level s v ∨
      (g.level s v < g.level (flood g sources s) v ∧ g.passable s v = true ∧
        ∃ source ∈ sources,
          (g.level (flood g sources s) v).val + dist source.1 v ≤ source.2.val) := by
  have hsweep : ∀ offered (st : State S V n), Reaches g dist sources s st →
      (∀ offer ∈ offered, ∃ source ∈ sources,
        offer.2.val + dist source.1 offer.1 ≤ source.2.val) →
      Reaches g dist sources s (sweep g st offered) := by
    intro offered
    unfold sweep
    induction offered with
    | nil => exact fun st h _ => h
    | cons offer offered ih =>
        intro st h hall
        exact ih _ (h.touch (hall offer List.mem_cons_self))
          fun other hother => hall other (List.mem_cons_of_mem _ hother)
  have hpop : ∀ visited node queue s', Reaches g dist sources s ⟨visited, node :: queue, s'⟩ →
      Reaches g dist sources s (sweep g ⟨visited, queue, s'⟩ (offers g node)) := by
    intro visited node queue s' h
    obtain ⟨source, hsource, hreach⟩ := h.queued node List.mem_cons_self
    refine hsweep _ _ ⟨fun other hother => h.queued other (List.mem_cons_of_mem _ hother),
      h.passable, h.level⟩ fun offer hoffer => ?_
    unfold offers at hoffer
    split at hoffer
    · cases hoffer
    · obtain ⟨w, hw, rfl⟩ := List.mem_map.1 hoffer
      have hdist := hnext source.1 node.1 w hw
      refine ⟨source, hsource, ?_⟩
      unfold lower
      dsimp only
      omega
  have hstart : Reaches g dist sources s ⟨(sources.map Prod.fst).toFinset, sources, s⟩ := by
    refine ⟨fun node hnode => ⟨node, hnode, ?_⟩, fun _ => rfl, fun _ => Or.inl rfl⟩
    rw [hself, Nat.add_zero]
  obtain ⟨_, hend⟩ := run_invariant g hpop _ hstart
  exact hend.level v

/-! ## A second flood -/

/-- The nodes of a queue are popped before those that they queue. -/
theorem run_append (visited : Finset V) (front queue : List (V × Fin n)) (s : S) :
    run g ⟨visited, front ++ queue, s⟩ =
      run g (sweep g ⟨visited, queue, s⟩ (front.flatMap (offers g))) := by
  induction front generalizing visited queue s with
  | nil => rfl
  | cons node front ih =>
      have hsweep := sweep_append g (offers g node) front ⟨visited, queue, s⟩
      dsimp only at hsweep
      rw [List.cons_append, run_cons, hsweep, ih, List.flatMap_cons]
      unfold sweep
      rw [List.foldl_append]

/-- **A second flood from the same sources changes nothing.** -/
theorem flood_idem (sources : List (V × Fin n)) (s : S) :
    flood g sources (flood g sources s) = flood g sources s := by
  have hfirst := run_append g (sources.map Prod.fst).toFinset sources [] s
  have hagain := run_append g (sources.map Prod.fst).toFinset sources [] (flood g sources s)
  rw [List.append_nil] at hfirst hagain
  obtain ⟨visited, hext⟩ := extends_run g
    (sweep g ⟨(sources.map Prod.fst).toFinset, [], s⟩ (sources.flatMap (offers g)))
  rw [← hfirst] at hext
  have hsweep := extends_sweep g (sources.flatMap (offers g))
    ⟨(sources.map Prod.fst).toFinset, [], s⟩
  have hsame : sweep g ⟨(sources.map Prod.fst).toFinset, [], flood g sources s⟩
      (sources.flatMap (offers g)) = ⟨_, [], flood g sources s⟩ :=
    sweep_again g [] _ ⟨_, [], s⟩ (fun v => (hext.passable v).trans (hsweep.passable v)) hext.level
  refine hagain.trans ?_
  rw [hsame, run_nil]

/-! ## Vertices without a part in a flood -/

variable {g} {D : Set V} {s s' : S} {st st' : State S V n}

/-- Two floods agree to the end when no vertex that the first one lights at 2 or more borders on
    `D`. -/
theorem Agree.run (h : Agree g D s s' st st')
    (hdark : ∀ v ∉ D, ∀ w ∈ D, w ∈ g.neighbors v → (g.level (run g st) v).val ≤ 1) :
    ∃ visited visited',
      Agree g D s s' ⟨visited, [], run g st⟩ ⟨visited', [], run g st'⟩ := by
  induction hfuel : st.fuel using Nat.strong_induction_on generalizing st st' with
  | _ fuel ih =>
      obtain ⟨visited, queue, store⟩ := st
      obtain ⟨visited', queue', store'⟩ := st'
      obtain rfl : queue = queue' := h.queue
      cases queue with
      | nil =>
          rw [run_nil, run_nil]
          exact ⟨visited, visited', h⟩
      | cons node queue =>
          obtain ⟨hout, hvisited, hlevel⟩ := h.queued node List.mem_cons_self
          -- The level of a node in the queue is its level in the end.
          obtain ⟨_, hext⟩ := extends_run g ⟨visited, node :: queue, store⟩
          have hfinal := (hext.level node.1 hvisited).trans hlevel
          have hoffers : ∀ offer ∈ offers g node, offer.1 ∉ D := by
            intro offer hoffer hmem
            unfold offers at hoffer
            split at hoffer
            · cases hoffer
            · rename_i hburns
              obtain ⟨w, hw, rfl⟩ := List.mem_map.1 hoffer
              have hdim := hdark node.1 hout w hmem hw
              rw [hfinal] at hdim
              exact hburns hdim
          have hrest : Agree g D s s' ⟨visited, queue, store⟩ ⟨visited', queue, store'⟩ :=
            { h with
              queue := rfl
              queued := fun other hother => h.queued other (List.mem_cons_of_mem _ hother) }
          rw [run_cons] at hdark ⊢
          rw [run_cons g visited']
          refine ih _ ?_ (hrest.sweep hoffers) hdark rfl
          rw [← hfuel]
          exact Nat.lt_of_le_of_lt (fuel_sweep g _ _) (Nat.lt_succ_self _)

/-- **Vertices that no burning node borders on have no part in a flood**: two floods from sources
    that offer the same, of stores that agree outside `D`, agree outside `D` and leave `D` as it
    is. -/
theorem flood_agree {sources sources' : List (V × Fin n)}
    (hoffers : sources.flatMap (offers g) = sources'.flatMap (offers g))
    (hsources : ∀ v ∉ D, (v ∈ sources.map Prod.fst ↔ v ∈ sources'.map Prod.fst))
    (hout : ∀ offer ∈ sources.flatMap (offers g), offer.1 ∉ D)
    (hpass : ∀ v ∉ D, g.passable s v = g.passable s' v)
    (hlevel : ∀ v ∉ D, g.level s v = g.level s' v)
    (hdark : ∀ v ∉ D, ∀ w ∈ D, w ∈ g.neighbors v → (g.level (flood g sources s) v).val ≤ 1) :
    (∀ v ∉ D, g.level (flood g sources s) v = g.level (flood g sources' s') v) ∧
      (∀ v ∈ D, g.level (flood g sources s) v = g.level s v) ∧
      ∀ v ∈ D, g.level (flood g sources' s') v = g.level s' v := by
  have hstart : Agree g D s s' ⟨(sources.map Prod.fst).toFinset, [], s⟩
      ⟨(sources'.map Prod.fst).toFinset, [], s'⟩ := by
    refine ⟨fun v hv => ?_, rfl, hpass, hlevel, fun _ h => ?_, fun _ _ => rfl, fun _ _ => rfl⟩
    · rw [List.mem_toFinset, List.mem_toFinset]
      exact hsources v hv
    · cases h
  have hswept := hstart.sweep hout
  have hfirst := run_append g (sources.map Prod.fst).toFinset sources [] s
  have hsecond := run_append g (sources'.map Prod.fst).toFinset sources' [] s'
  rw [List.append_nil] at hfirst hsecond
  unfold flood at hdark ⊢
  rw [← hoffers] at hsecond
  rw [hfirst] at hdark ⊢
  rw [hsecond]
  obtain ⟨_, _, hend⟩ := hswept.run hdark
  exact ⟨hend.level, hend.still, hend.still'⟩

/-- A flood depends on the levels and on what is passable only. -/
theorem flood_congr {sources : List (V × Fin n)} {s s' : S}
    (hpass : ∀ v, g.passable s v = g.passable s' v) (hlevel : ∀ v, g.level s v = g.level s' v)
    (v : V) : g.level (flood g sources s) v = g.level (flood g sources s') v :=
  (flood_agree (D := ∅) rfl (fun _ _ => Iff.rfl) (fun _ _ => id) (fun v _ => hpass v)
    (fun v _ => hlevel v) fun _ _ _ hw => absurd hw (Set.notMem_empty _)).1 v (Set.notMem_empty v)

end Flood
