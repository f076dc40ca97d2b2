import Mathlib.Data.Finset.Union

/-!
# Breadth-first search to a depth

A search from one vertex that does not look further from vertices at `limit` steps.  The queue holds
each vertex with the number of steps it was found at.

Principal result: `mem_search` — the search finds the vertices that can be reached in at most
`limit` steps.
-/

/-- A graph whose vertices have at most `width` successors. -/
structure Network (V : Type) where
  next : V → List V
  width : Nat
  length_next_le : ∀ v, (next v).length ≤ width

namespace Search

variable {V : Type} (g : Network V)

/-- `v` is `k` steps from `start`. -/
inductive Steps (start : V) : Nat → V → Prop where
  | start : Steps start 0 start
  | step {k : Nat} {v w : V} (h : Steps start k v) (hw : w ∈ g.next v) : Steps start (k + 1) w

variable (limit : Nat)

/-! ## The queue of a search -/

/-- The queue is sorted by the steps at which its vertices were found, and holds each vertex found
    that was not yet looked from. -/
structure Sound (start : V) (label : V → Nat) (pending : List (V × Nat)) (visited : Finset V) :
    Prop where
  started : start ∈ visited ∧ label start = 0
  queued : ∀ node ∈ pending, node.1 ∈ visited ∧ node.2 = label node.1
  sorted : pending.Pairwise fun node node' => node.2 ≤ node'.2
  near : ∀ u ∈ visited, ∀ node ∈ pending, label u ≤ node.2 + 1
  steps : ∀ u ∈ visited, Steps g start (label u) u ∧ label u ≤ limit
  looked : ∀ u ∈ visited, (∃ d, (u, d) ∈ pending) ∨ limit ≤ label u ∨
    ∀ w ∈ g.next u, w ∈ visited ∧ label w ≤ label u + 1

section

variable {g limit} {start v : V} {label : V → Nat} {d : Nat} {pending : List (V × Nat)}
  {visited : Finset V}

/-- A vertex at the limit is dropped. -/
theorem Sound.drop (h : Sound g limit start label ((v, d) :: pending) visited) (hd : limit ≤ d) :
    Sound g limit start label pending visited where
  started := h.started
  queued node hnode := h.queued node (List.mem_cons_of_mem _ hnode)
  sorted := (List.pairwise_cons.1 h.sorted).2
  near u hu node hnode := h.near u hu node (List.mem_cons_of_mem _ hnode)
  steps := h.steps
  looked u hu := by
    rcases h.looked u hu with ⟨k, hk⟩ | hrest
    · rcases List.mem_cons.1 hk with heq | htail
      · cases heq
        have hlabel : d = label v := (h.queued _ List.mem_cons_self).2
        exact Or.inr (Or.inl (hlabel ▸ hd))
      · exact Or.inl ⟨k, htail⟩
    · exact Or.inr hrest

theorem sound_start (g : Network V) (limit : Nat) (start : V) :
    Sound g limit start (fun _ => 0) [(start, 0)] {start} where
  started := ⟨Finset.mem_singleton_self _, rfl⟩
  queued node hnode := by
    rw [List.mem_singleton] at hnode
    subst hnode
    exact ⟨Finset.mem_singleton_self _, rfl⟩
  sorted := List.pairwise_singleton _ _
  near u hu node hnode := Nat.zero_le _
  steps u hu := by
    rw [Finset.mem_singleton] at hu
    subst hu
    exact ⟨.start, Nat.zero_le _⟩
  looked u hu := by
    rw [Finset.mem_singleton] at hu
    subst hu
    exact Or.inl ⟨0, List.mem_singleton_self _⟩

end

/-! ## The search -/

/-- A vertex found a step earlier weighs more than all that it can queue. -/
def weight : List (V × Nat) → Nat
  | [] => 0
  | node :: pending => (g.width + 1) ^ (limit - node.2) + weight pending

theorem weight_append (pending queued : List (V × Nat)) :
    weight g limit (pending ++ queued) = weight g limit pending + weight g limit queued := by
  induction pending with
  | nil => exact (Nat.zero_add _).symm
  | cons node pending ih =>
      rw [List.cons_append, weight, weight, ih, Nat.add_assoc]

theorem weight_map (ws : List V) (d : Nat) :
    weight g limit (ws.map fun w => (w, d)) = ws.length * (g.width + 1) ^ (limit - d) := by
  induction ws with
  | nil => exact (Nat.zero_mul _).symm
  | cons w ws ih => rw [List.map_cons, weight, ih, List.length_cons, Nat.succ_mul, Nat.add_comm]

variable [DecidableEq V]

def fresh (visited : Finset V) (v : V) : List V := (g.next v).filter fun w => w ∉ visited

theorem weight_fresh_lt (visited : Finset V) (v : V) {d : Nat} (h : ¬ limit ≤ d) :
    weight g limit ((fresh g visited v).map fun w => (w, d + 1)) <
      (g.width + 1) ^ (limit - d) := by
  have hlen : (fresh g visited v).length ≤ g.width :=
    (List.length_filter_le _ _).trans (g.length_next_le v)
  have hpow : (g.width + 1) ^ (limit - d) =
      (g.width + 1) * (g.width + 1) ^ (limit - (d + 1)) := by
    rw [← Nat.pow_succ', show limit - d = limit - (d + 1) + 1 by omega]
  rw [weight_map, hpow]
  exact Nat.mul_lt_mul_of_pos_right (Nat.lt_succ_of_le hlen) (Nat.pow_pos (Nat.succ_pos _))

/-- `while let Some((v, d)) = pending.pop_front()`. -/
def run : List (V × Nat) → Finset V → Finset V
  | [], visited => visited
  | (v, d) :: pending, visited =>
      if limit ≤ d then run pending visited
      else
        run (pending ++ (fresh g visited v).map fun w => (w, d + 1))
          (visited ∪ (fresh g visited v).toFinset)
termination_by pending _ => weight g limit pending
decreasing_by
  · rw [weight]
    exact Nat.lt_add_of_pos_left (Nat.pow_pos (Nat.succ_pos _))
  · rename_i h
    rw [weight_append, weight, Nat.add_comm]
    exact Nat.add_lt_add_right (weight_fresh_lt g limit visited v h) _

def search (start : V) : Finset V := run g limit [(start, 0)] {start}

/-! ## What is found -/

variable {g limit} {start v : V} {label : V → Nat} {d : Nat} {pending : List (V × Nat)}
  {visited : Finset V}

/-- The labels after a vertex at `d` steps was looked from. -/
def relabel (g : Network V) (label : V → Nat) (visited : Finset V) (v : V) (d : Nat) (w : V) : Nat :=
  if w ∈ fresh g visited v then d + 1 else label w

theorem mem_fresh {w : V} : w ∈ fresh g visited v ↔ w ∈ g.next v ∧ w ∉ visited := by
  unfold fresh
  rw [List.mem_filter, decide_eq_true_iff]

theorem relabel_of_mem {w : V} (h : w ∈ visited) :
    relabel g label visited v d w = label w := if_neg fun hw => (mem_fresh.1 hw).2 h

theorem Sound.look (h : Sound g limit start label ((v, d) :: pending) visited) (hd : ¬ limit ≤ d) :
    Sound g limit start (relabel g label visited v d)
      (pending ++ (fresh g visited v).map fun w => (w, d + 1))
      (visited ∪ (fresh g visited v).toFinset) := by
  obtain ⟨hv, hlabel⟩ := h.queued _ List.mem_cons_self
  obtain ⟨hhead, hsorted⟩ := List.pairwise_cons.1 h.sorted
  have hmem : ∀ {w}, w ∈ visited ∪ (fresh g visited v).toFinset ↔
      w ∈ visited ∨ w ∈ fresh g visited v := by
    intro w
    rw [Finset.mem_union, List.mem_toFinset]
  have hnew : ∀ {w}, w ∈ fresh g visited v → relabel g label visited v d w = d + 1 :=
    fun hw => if_pos hw
  -- Every vertex found so far is at most one step further than the head of the queue.
  have hle : ∀ u ∈ visited ∪ (fresh g visited v).toFinset,
      relabel g label visited v d u ≤ d + 1 := by
    intro u hu
    rcases hmem.1 hu with hold | hfresh
    · rw [relabel_of_mem hold]
      exact h.near u hold _ List.mem_cons_self
    · rw [hnew hfresh]
  have hpending : ∀ node ∈ pending, node.2 ≤ d + 1 := by
    intro node hnode
    obtain ⟨hvisited, hnode'⟩ := h.queued node (List.mem_cons_of_mem _ hnode)
    rw [hnode']
    exact h.near _ hvisited _ List.mem_cons_self
  refine ⟨?_, ?_, ?_, ?_, ?_, ?_⟩
  · exact ⟨hmem.2 (Or.inl h.started.1), (relabel_of_mem h.started.1).trans h.started.2⟩
  · intro node hnode
    rcases List.mem_append.1 hnode with hold | hlast
    · obtain ⟨hvisited, hnode'⟩ := h.queued node (List.mem_cons_of_mem _ hold)
      exact ⟨hmem.2 (Or.inl hvisited), hnode'.trans (relabel_of_mem hvisited).symm⟩
    · obtain ⟨w, hw, rfl⟩ := List.mem_map.1 hlast
      exact ⟨hmem.2 (Or.inr hw), (hnew hw).symm⟩
  · refine List.pairwise_append.2 ⟨hsorted, ?_, ?_⟩
    · exact List.pairwise_map.2 (List.pairwise_of_forall fun _ _ => Nat.le_refl _)
    · intro node hnode node' hnode'
      obtain ⟨w, _, rfl⟩ := List.mem_map.1 hnode'
      exact hpending node hnode
  · intro u hu node hnode
    refine (hle u hu).trans (Nat.succ_le_succ ?_)
    rcases List.mem_append.1 hnode with hold | hlast
    · exact hhead node hold
    · obtain ⟨w, _, rfl⟩ := List.mem_map.1 hlast
      exact Nat.le_succ d
  · intro u hu
    rcases hmem.1 hu with hold | hfresh
    · rw [relabel_of_mem hold]
      exact h.steps u hold
    · rw [hnew hfresh]
      have hsteps : Steps g start d v := (show d = label v from hlabel) ▸ (h.steps v hv).1
      exact ⟨.step hsteps (mem_fresh.1 hfresh).1, by omega⟩
  · intro u hu
    rcases hmem.1 hu with hold | hfresh
    · rw [relabel_of_mem hold]
      rcases h.looked u hold with ⟨k, hk⟩ | hlimit | hall
      · rcases List.mem_cons.1 hk with heq | htail
        · -- The vertex that is looked from: what it leads to is found now.
          cases heq
          refine Or.inr (Or.inr fun w hw => ?_)
          have hw' : w ∈ visited ∪ (fresh g visited v).toFinset := by
            by_cases hseen : w ∈ visited
            · exact hmem.2 (Or.inl hseen)
            · exact hmem.2 (Or.inr (mem_fresh.2 ⟨hw, hseen⟩))
          exact ⟨hw', (hle w hw').trans (hlabel ▸ Nat.le_refl _)⟩
        · exact Or.inl ⟨k, List.mem_append_left _ htail⟩
      · exact Or.inr (Or.inl hlimit)
      · refine Or.inr (Or.inr fun w hw => ?_)
        obtain ⟨hw', hlabel'⟩ := hall w hw
        exact ⟨hmem.2 (Or.inl hw'), (relabel_of_mem hw').trans_le hlabel'⟩
    · exact Or.inl ⟨d + 1, List.mem_append_right _ (List.mem_map.2 ⟨u, hfresh, rfl⟩)⟩

theorem Sound.run (h : Sound g limit start label pending visited) :
    ∃ label', Sound g limit start label' [] (run g limit pending visited) := by
  induction pending, visited using run.induct g limit generalizing label with
  | case1 visited =>
      rw [Search.run]
      exact ⟨label, h⟩
  | case2 v d pending visited hd ih =>
      rw [Search.run, if_pos hd]
      exact ih (h.drop hd)
  | case3 v d pending visited hd ih =>
      rw [Search.run, if_neg hd]
      exact ih (h.look hd)

/-- **The search finds what can be reached in at most `limit` steps.** -/
theorem mem_search : v ∈ search g limit start ↔ ∃ k ≤ limit, Steps g start k v := by
  obtain ⟨label, hend⟩ := (sound_start g limit start).run
  constructor
  · intro hv
    obtain ⟨hsteps, hle⟩ := hend.steps v hv
    exact ⟨_, hle, hsteps⟩
  · rintro ⟨k, hk, hsteps⟩
    -- Each vertex is found, and no later than at its distance.
    have hfound : v ∈ search g limit start ∧ label v ≤ k := by
      induction hsteps with
      | start => exact ⟨hend.started.1, hend.started.2.le⟩
      | @step k u w _ hw ih =>
          obtain ⟨hu, hlabel⟩ := ih (by omega)
          rcases hend.looked u hu with ⟨_, hnil⟩ | hlimit | hall
          · cases hnil
          · omega
          · obtain ⟨hw', hle⟩ := hall w hw
            exact ⟨hw', by omega⟩
    exact hfound.1

end Search
