import Apoptotic.Lib.Flood
import Mathlib.Order.Bounds.Basic

/-!
# Floods from sources of one strength

The field of some sources is at every vertex the most that a source leaves there: its strength less
the steps of a walk over passable vertices.  A flood touches each vertex once, in the order of the
queue; where the sources are equally strong the queue is sorted, so the first touch is the best.

Principal result: `flood_field` — a flood from sources of one strength makes the field, but for the
sources themselves.
-/

namespace Flood

variable {S V : Type} {n : Nat} (g : Grid S V n)

/-- A walk of `k` steps from `p`, over passable vertices after `p`. -/
inductive Walk (s : S) (p : V) : V → Nat → Prop where
  | here : Walk s p p 0
  | step {q r : V} {k : Nat} (h : Walk s p q k) (hnext : r ∈ g.neighbors q)
      (hpass : g.passable s r = true) : Walk s p r (k + 1)

section

variable [DecidableEq V] (sources : List V) (strength : Fin n)

/-- The strength of a source, and the level of another vertex. -/
def value (s : S) (v : V) : Nat := if v ∈ sources then strength.val else (g.level s v).val

/-- The visited vertices have their values, and the queue leads on from them.  A vertex of `X` is
    being expanded: its neighbours may not be visited yet. -/
structure Spread (s : S) (X : Set V) (st : State S V n) : Prop where
  passable : ∀ v, g.passable st.store v = g.passable s v
  started : ∀ p ∈ sources, p ∈ st.visited
  dark : ∀ v, v ∉ st.visited → (g.level st.store v).val = 0
  sound : ∀ v, value g sources strength st.store v = 0 ∨
    ∃ p ∈ sources, ∃ k, Walk g s p v k ∧ value g sources strength st.store v + k = strength.val
  complete : ∀ p ∈ sources, ∀ v k, Walk g s p v k → v ∈ st.visited →
    strength.val ≤ value g sources strength st.store v + k
  queued : ∀ node ∈ st.queue, node.1 ∈ st.visited ∧
    node.2.val = value g sources strength st.store node.1
  sorted : st.queue.Pairwise fun a b => b.2.val ≤ a.2.val ∧ a.2.val ≤ b.2.val + 1
  closed : ∀ v ∈ st.visited, v ∉ X → (∃ node ∈ st.queue, node.1 = v) ∨
    value g sources strength st.store v ≤ 1 ∨ ∀ r ∈ g.neighbors v, r ∈ st.visited

/-- The neighbours of `u` are offered the level `m`. -/
structure Expanding (s : S) (u : V) (m : Fin n) (st : State S V n) : Prop
    extends Spread g sources strength s {u} st where
  burns : 0 < m.val
  near : ∀ node ∈ st.queue, m.val ≤ node.2.val ∧ node.2.val ≤ m.val + 1
  far : ∀ p ∈ sources, ∀ v k, Walk g s p v k → v ∉ st.visited → strength.val ≤ m.val + k
  lit : ∃ p ∈ sources, ∃ k, Walk g s p u k ∧ m.val + 1 + k = strength.val

variable {g sources strength} {s : S}

theorem value_of_mem {v : V} (h : v ∈ sources) : value g sources strength s v = strength.val := if_pos h

theorem value_of_not_mem {v : V} (h : v ∉ sources) :
    value g sources strength s v = (g.level s v).val := if_neg h

theorem value_setLevel_self {v : V} (h : v ∉ sources) (hpass : g.passable s v = true) (l : Fin n) :
    value g sources strength (g.setLevel s v l) v = l.val := by
  rw [value_of_not_mem h, g.level_setLevel_self s v l hpass]

theorem value_setLevel_of_ne {v w : V} (h : w ≠ v) (l : Fin n) :
    value g sources strength (g.setLevel s v l) w = value g sources strength s w := by
  unfold value
  rw [g.level_setLevel_of_ne s v l w h]

/-! ## The edge of what is visited -/

/-- A walk to a vertex that is not visited leaves the visited vertices somewhere. -/
theorem Spread.crossing {X : Set V} {st : State S V n} (h : Spread g sources strength s X st) {p v : V}
    (hp : p ∈ sources) {k : Nat} (hwalk : Walk g s p v k) (hv : v ∉ st.visited) :
    ∃ q i, Walk g s p q i ∧ q ∈ st.visited ∧ i < k ∧ ∃ r ∈ g.neighbors q, r ∉ st.visited := by
  induction hwalk with
  | here => exact absurd (h.started p hp) hv
  | @step q r k hwalk hnext hpass ih =>
      by_cases hq : q ∈ st.visited
      · exact ⟨q, k, hwalk, hq, Nat.lt_succ_self k, r, hnext, hv⟩
      · obtain ⟨q', i, hwalk', hq', hi, hedge⟩ := ih hq
        exact ⟨q', i, hwalk', hq', by omega, hedge⟩

/-- A source that reaches a vertex not visited yet has something in the queue that is strong enough,
    or no source reaches it. -/
theorem Spread.edge {st : State S V n} (h : Spread g sources strength s ∅ st) {p v : V}
    (hp : p ∈ sources) {k : Nat} (hwalk : Walk g s p v k) (hv : v ∉ st.visited) :
    strength.val ≤ k ∨ ∃ node ∈ st.queue, strength.val < node.2.val + k := by
  obtain ⟨q, i, hwalk', hq, hi, r, hr, hnew⟩ := h.crossing hp hwalk hv
  have hvalue := h.complete p hp q i hwalk' hq
  rcases h.closed q hq (Set.notMem_empty q) with ⟨node, hnode, rfl⟩ | hweak | hall
  · right
    refine ⟨node, hnode, ?_⟩
    rw [(h.queued node hnode).2]
    omega
  · left
    omega
  · exact absurd (hall r hr) hnew

/-! ## Expanding a vertex -/

/-- A vertex that is not passable is only marked. -/
theorem Expanding.mark {u r : V} {m : Fin n} {st : State S V n}
    (h : Expanding g sources strength s u m st) (hnew : r ∉ st.visited)
    (hpass : g.passable st.store r = false) :
    Expanding g sources strength s u m { st with visited := insert r st.visited } where
  passable := h.passable
  started := fun p hp => Finset.mem_insert_of_mem (h.started p hp)
  dark := fun v hv => h.dark v fun hold => hv (Finset.mem_insert_of_mem hold)
  sound := h.sound
  complete := by
    intro p hp v k hwalk hv
    rcases Finset.mem_insert.1 hv with rfl | hv
    · cases hwalk with
      | here => exact absurd (h.started p hp) hnew
      | step _ _ hclear =>
          rw [← h.passable, hpass] at hclear
          cases hclear
    · exact h.complete p hp v k hwalk hv
  queued := fun node hnode =>
    ⟨Finset.mem_insert_of_mem (h.queued node hnode).1, (h.queued node hnode).2⟩
  sorted := h.sorted
  closed := by
    intro v hv hne
    rcases Finset.mem_insert.1 hv with rfl | hv
    · right
      left
      have hsource : v ∉ sources := fun hp => hnew (h.started v hp)
      dsimp only
      rw [value_of_not_mem hsource, h.dark v hnew]
      omega
    · rcases h.closed v hv hne with hqueued | hweak | hall
      · exact .inl hqueued
      · exact .inr (.inl hweak)
      · exact .inr (.inr fun r hr => Finset.mem_insert_of_mem (hall r hr))
  burns := h.burns
  near := h.near
  far := fun p hp v k hwalk hv => h.far p hp v k hwalk fun hold => hv (Finset.mem_insert_of_mem hold)
  lit := h.lit

/-- A passable neighbour takes the level, and is queued. -/
theorem Expanding.light {u r : V} {m : Fin n} {st : State S V n}
    (h : Expanding g sources strength s u m st) (hr : r ∈ g.neighbors u) (hnew : r ∉ st.visited)
    (hpass : g.passable st.store r = true) :
    Expanding g sources strength s u m
      ⟨insert r st.visited, st.queue ++ [(r, m)], g.setLevel st.store r m⟩ := by
  have hsource : r ∉ sources := fun hp => hnew (h.started r hp)
  have hself : value g sources strength (g.setLevel st.store r m) r = m.val :=
    value_setLevel_self hsource hpass m
  have hother : ∀ v, v ≠ r → value g sources strength (g.setLevel st.store r m) v =
      value g sources strength st.store v := fun v hv => value_setLevel_of_ne hv m
  have hne : ∀ v, v ∈ st.visited → v ≠ r := fun v hv heq => hnew (heq ▸ hv)
  refine ⟨⟨?_, ?_, ?_, ?_, ?_, ?_, ?_, ?_⟩, h.burns, ?_, ?_, h.lit⟩
  · intro v
    exact (g.passable_setLevel _ _ _ _).trans (h.passable v)
  · exact fun p hp => Finset.mem_insert_of_mem (h.started p hp)
  · intro v hv
    have hvr : v ≠ r := fun heq => hv (heq ▸ Finset.mem_insert_self _ _)
    dsimp only
    rw [g.level_setLevel_of_ne _ _ _ _ hvr]
    exact h.dark v fun hold => hv (Finset.mem_insert_of_mem hold)
  · intro v
    by_cases hv : v = r
    · subst hv
      right
      obtain ⟨p, hp, k, hwalk, hk⟩ := h.lit
      refine ⟨p, hp, k + 1, .step hwalk hr ((h.passable v).symm.trans hpass), ?_⟩
      dsimp only
      rw [hself]
      omega
    · dsimp only
      rw [hother v hv]
      exact h.sound v
  · intro p hp v k hwalk hv
    dsimp only
    rcases Finset.mem_insert.1 hv with rfl | hv
    · rw [hself]
      exact h.far p hp v k hwalk hnew
    · rw [hother v (hne v hv)]
      exact h.complete p hp v k hwalk hv
  · intro node hnode
    dsimp only
    rcases List.mem_append.1 hnode with hnode | hnode
    · obtain ⟨hvisited, hvalue⟩ := h.queued node hnode
      rw [hother _ (hne _ hvisited)]
      exact ⟨Finset.mem_insert_of_mem hvisited, hvalue⟩
    · rw [List.mem_singleton.1 hnode, hself]
      exact ⟨Finset.mem_insert_self _ _, rfl⟩
  · refine List.pairwise_append.2 ⟨h.sorted, List.pairwise_singleton _ _, fun a ha b hb => ?_⟩
    rw [List.mem_singleton.1 hb]
    exact h.near a ha
  · intro v hv hnot
    dsimp only
    rcases Finset.mem_insert.1 hv with rfl | hv
    · exact .inl ⟨(v, m), List.mem_append_right _ (List.mem_singleton_self _), rfl⟩
    · rw [hother v (hne v hv)]
      rcases h.closed v hv hnot with ⟨node, hnode, hat⟩ | hweak | hall
      · exact .inl ⟨node, List.mem_append_left _ hnode, hat⟩
      · exact .inr (.inl hweak)
      · exact .inr (.inr fun r' hr' => Finset.mem_insert_of_mem (hall r' hr'))
  · intro node hnode
    rcases List.mem_append.1 hnode with hnode | hnode
    · exact h.near node hnode
    · rw [List.mem_singleton.1 hnode]
      exact ⟨Nat.le_refl _, Nat.le_succ _⟩
  · exact fun p hp v k hwalk hv =>
      h.far p hp v k hwalk fun hold => hv (Finset.mem_insert_of_mem hold)

/-- **Offering a neighbour the level keeps what the expansion needs.** -/
theorem Expanding.touch {u r : V} {m : Fin n} {st : State S V n}
    (h : Expanding g sources strength s u m st) (hr : r ∈ g.neighbors u) :
    Expanding g sources strength s u m (touch g st (r, m)) := by
  unfold Flood.touch
  by_cases hvisited : r ∈ st.visited
  · rw [if_pos hvisited]
    exact h
  · have hdark : g.level st.store r < m := by
      rw [Fin.lt_def, h.dark r hvisited]
      exact h.burns
    rw [if_neg hvisited]
    by_cases hpass : g.passable st.store r = true
    · rw [if_pos ⟨hpass, hdark⟩]
      exact h.light hr hvisited hpass
    · rw [if_neg fun hand => hpass hand.1]
      exact h.mark hvisited (Bool.eq_false_iff.2 hpass)

theorem Expanding.sweep {u : V} {m : Fin n} {vs : List V} {st : State S V n}
    (h : Expanding g sources strength s u m st) (hvs : ∀ r ∈ vs, r ∈ g.neighbors u) :
    Expanding g sources strength s u m (sweep g st (vs.map fun r => (r, m))) ∧
      ∀ r ∈ vs, r ∈ (sweep g st (vs.map fun r => (r, m))).visited := by
  unfold Flood.sweep
  induction vs generalizing st with
  | nil => exact ⟨h, fun r hr => absurd hr List.not_mem_nil⟩
  | cons r vs ih =>
      obtain ⟨hexp, hall⟩ := ih (h.touch (hvs r List.mem_cons_self)) fun r' hr' =>
        hvs r' (List.mem_cons_of_mem _ hr')
      refine ⟨hexp, fun r' hr' => ?_⟩
      rcases List.mem_cons.1 hr' with rfl | hr'
      · exact (extends_sweep g (vs.map fun r => (r, m)) _).visited (mem_visited_touch g st (r', m))
      · exact hall r' hr'

/-! ## Popping a node -/

/-- **One turn of the flood.** -/
theorem Spread.pop {visited : Finset V} {node : V × Fin n} {queue : List (V × Fin n)} {store : S}
    (h : Spread g sources strength s ∅ ⟨visited, node :: queue, store⟩) :
    Spread g sources strength s ∅ (Flood.sweep g ⟨visited, queue, store⟩ (offers g node)) := by
  obtain ⟨u, l⟩ := node
  obtain ⟨hvisited, hvalue⟩ := h.queued (u, l) List.mem_cons_self
  obtain ⟨hhead, hsorted⟩ := List.pairwise_cons.1 h.sorted
  have hrest : Spread g sources strength s {u} ⟨visited, queue, store⟩ := by
    refine { h with queued := ?_, sorted := hsorted, closed := ?_ }
    · exact fun node hnode => h.queued node (List.mem_cons_of_mem _ hnode)
    · intro v hv hne
      rcases h.closed v hv (Set.notMem_empty v) with ⟨node, hnode, rfl⟩ | hother
      · rcases List.mem_cons.1 hnode with rfl | hnode
        · exact absurd rfl hne
        · exact .inl ⟨node, hnode, rfl⟩
      · exact .inr hother
  unfold offers
  by_cases hweak : l.val ≤ 1
  · rw [if_pos hweak]
    refine { hrest with closed := fun v hv _ => ?_ }
    by_cases hv' : v = u
    · subst hv'
      exact .inr (.inl (hvalue ▸ hweak))
    · exact hrest.closed v hv hv'
  · rw [if_neg hweak]
    have hlower : (lower l).val = l.val - 1 := rfl
    have hexp : Expanding g sources strength s u (lower l) ⟨visited, queue, store⟩ := by
      refine { hrest with burns := ?_, near := ?_, far := ?_, lit := ?_ }
      · omega
      · intro node hnode
        have hnear := hhead node hnode
        dsimp only at hnear
        omega
      · intro p hp v k hwalk hv
        rcases h.edge hp hwalk hv with hnone | ⟨node, hnode, hstrong⟩
        · omega
        · rcases List.mem_cons.1 hnode with rfl | hnode
          · dsimp only at hstrong
            omega
          · have hnear := hhead node hnode
            dsimp only at hnear
            omega
      · rcases h.sound u with hzero | ⟨p, hp, k, hwalk, hk⟩
        · dsimp only at hvalue hzero
          omega
        · dsimp only at hvalue hk
          exact ⟨p, hp, k, hwalk, by omega⟩
    have hneighbors : ∀ r ∈ g.neighbors u, r ∈ g.neighbors u := fun _ hr => hr
    obtain ⟨hend, hall⟩ := hexp.sweep hneighbors
    refine { hend.toSpread with closed := fun v hv _ => ?_ }
    by_cases hv' : v = u
    · subst hv'
      exact .inr (.inr hall)
    · exact hend.closed v hv hv'

end

/-- What the sources leave at a vertex, along all walks, and 0. -/
def remainders (sources : List V) (strength : Nat) (s : S) (v : V) : Set Nat :=
  {m | m = 0 ∨ ∃ p ∈ sources, ∃ k, Walk g s p v k ∧ m = strength - k}

/-- **A flood from sources of one strength makes their field.** -/
theorem flood_field [DecidableEq V] [Fintype V] (sources : List V) (strength : Fin n) {s : S}
    (hdark : ∀ v, (g.level s v).val = 0) {v : V} (hv : v ∉ sources) :
    IsGreatest (remainders g sources strength.val s v)
      (g.level (flood g (sources.map fun p => (p, strength)) s) v).val := by
  have hsources : ((sources.map fun p => (p, strength)).map Prod.fst) = sources := by
    simp [List.map_map, Function.comp_def]
  have hstart : Spread g sources strength s ∅
      ⟨sources.toFinset, sources.map fun p => (p, strength), s⟩ := by
    have hvalue : ∀ v, v ∉ sources → value g sources strength s v = 0 := fun v hv =>
      (value_of_not_mem hv).trans (hdark v)
    refine ⟨fun _ => rfl, fun p hp => List.mem_toFinset.2 hp, fun v _ => hdark v, ?_, ?_, ?_, ?_, ?_⟩
    · intro v
      by_cases hv : v ∈ sources
      · exact .inr ⟨v, hv, 0, .here, value_of_mem hv⟩
      · exact .inl (hvalue v hv)
    · intro p _ v k _ hv
      dsimp only
      rw [value_of_mem (List.mem_toFinset.1 hv)]
      exact Nat.le_add_right _ _
    · intro node hnode
      obtain ⟨p, hp, rfl⟩ := List.mem_map.1 hnode
      exact ⟨List.mem_toFinset.2 hp, (value_of_mem hp).symm⟩
    · refine List.pairwise_map.2 (List.pairwise_of_forall fun _ _ => ?_)
      exact ⟨Nat.le_refl _, Nat.le_succ _⟩
    · intro v hv _
      exact .inl ⟨(v, strength), List.mem_map.2 ⟨v, List.mem_toFinset.1 hv, rfl⟩, rfl⟩
  obtain ⟨visited, hend⟩ := run_invariant g (P := Spread g sources strength s ∅)
    (fun _ _ _ _ h => h.pop) _ hstart
  unfold flood
  rw [hsources]
  generalize run g _ = store at hend ⊢
  have hvalue : value g sources strength store v = (g.level store v).val := value_of_not_mem hv
  constructor
  · rcases hend.sound v with hzero | ⟨p, hp, k, hwalk, hk⟩
    · exact .inl (hvalue.symm.trans hzero)
    · right
      refine ⟨p, hp, k, hwalk, ?_⟩
      dsimp only at hk
      omega
  · rintro m (rfl | ⟨p, hp, k, hwalk, rfl⟩)
    · exact Nat.zero_le _
    · by_cases hvisited : v ∈ visited
      · have hle := hend.complete p hp v k hwalk hvisited
        dsimp only at hle
        omega
      · rcases hend.edge hp hwalk hvisited with hfar | ⟨node, hnode, -⟩
        · omega
        · cases hnode

end Flood
