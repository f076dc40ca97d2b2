import Apoptotic.Lib.BestFirst
import Mathlib.Data.List.Perm.Subperm

/-!
# What a best-first search expands

The guess is the distance to the target up to a constant, and falls by at most one along an edge.  A
search then expands every vertex at most once, and only inner ones: those that may lie on a walk as
short as any to the target.  A queue that lets the target out after its equals makes it expand them all.

Principal results: `length_expanded_le`, `subset_expanded`, `expanded_le_iff` — every search expands at
most `N` vertices exactly when there are at most `N` inner ones.
-/

namespace BestFirst

/-- Over walks of at most `N` steps the costs are the distances to the target, up to `shift`. -/
structure Consistent {V K : Type} (P : Problem V K) (N : Nat) (dist : V → Nat) (shift : Int) : Prop where
  target : dist P.target = 0
  step : ∀ u, ∀ w ∈ P.next u, dist u ≤ dist w + 1
  cost : ∀ n v, n ≤ N → Walk P n v → P.wrap (n + P.guess v) = shift + n + dist v
  lt_top : (N : Int) < P.top

/-- A walk over `v` may be as short as any to the target. -/
def Inner {V K : Type} (P : Problem V K) (dist : V → Nat) (v : V) : Prop :=
  v ≠ P.target ∧ ∃ n, Walk P n v ∧ ∀ m, Walk P m P.target → n + dist v ≤ m

/-- What has been expanded is inner, distinct and done with: its cost is behind the `floor` of the
queue, and its entry is taken. -/
structure Tidy {V K : Type} (P : Problem V K) {H : Heap V} (dist : V → Nat) (shift floor : Int)
    (s : Search H K) : Prop where
  nodup : (H.entries s.queue).Nodup
  floor_le : ∀ e ∈ H.entries s.queue, floor ≤ e.cost
  done : ∀ v ∈ s.expanded, ∃ n, Scored P s v n ∧ shift + n + dist v ≤ floor ∧
    ⟨v, shift + n + dist v⟩ ∉ H.entries s.queue
  distinct : s.expanded.Nodup
  inner : ∀ v ∈ s.expanded, Inner P dist v

section Steps

variable {V K : Type} {P : Problem V K} {H : Heap V} {s : Search H K} {N : Nat} {dist : V → Nat}
  {shift floor : Int}

/-- Some entry of the queue costs no more than a vertex that is reached and not closed. -/
theorem Consistent.frontier (hc : Consistent P N dist shift) (hs : Inv P (fun _ => False) s)
    (hapart : Apart P N) (hlen : s.expanded.length ≤ N) {i : Nat} {v : V} (hv : Walk P i v)
    (hopen : v ∉ s.expanded) :
    ∃ e ∈ H.entries s.queue, e.cost ≤ shift + i + dist v ∧
      ∃ i' ≤ i, Walk P i' e.node ∧ (i' = i → e.node = v) := by
  have htop := hc.lt_top
  rcases hs.frontier hapart hlen hv (by omega) with
    ⟨k, -, -, hclosed⟩ | ⟨i', u, k, hi', hk, hwalk, hscored, hmem, hlast, hdist⟩
  · exact absurd hclosed.expanded hopen
  · refine ⟨_, hmem, ?_, i', hi', hwalk, hlast⟩
    have hle := hdist dist hc.step
    dsimp only
    rw [hc.cost k u (le_trans hscored.le hlen) hscored.walk]
    omega

theorem Tidy.popped (ht : Tidy P dist shift floor s) {e : Entry V} {q : H.State}
    (hpop : H.pop s.queue = some (e, q)) :
    Tidy P dist shift e.cost { s with queue := q } := by
  have hperm := H.entries_pop _ _ _ hpop
  have hnodup := hperm.nodup_iff.1 ht.nodup
  have hfloor := ht.floor_le e (hperm.mem_iff.2 List.mem_cons_self)
  refine ⟨(List.nodup_cons.1 hnodup).2, H.pop_le _ _ _ hpop, ?_, ht.distinct, ht.inner⟩
  intro v hv
  obtain ⟨n, hn, hle, hnot⟩ := ht.done v hv
  exact ⟨n, ⟨hn.score, hn.walk, hn.le⟩, le_trans hle hfloor,
    fun hmem => hnot (hperm.mem_iff.2 (List.mem_cons_of_mem _ hmem))⟩

/-- The vertex whose entry is taken is inner, and has not been expanded before. -/
theorem Tidy.expanding (hc : Consistent P N dist shift) (hapart : Apart P N)
    (hs : Inv P (fun _ => False) s) (ht : Tidy P dist shift floor s) (hlen : s.expanded.length ≤ N)
    {e : Entry V} {q : H.State} (hpop : H.pop s.queue = some (e, q)) (htarget : e.node ≠ P.target)
    {n : Nat} (hn : Scored P s e.node n) (hcost : e.cost = shift + n + dist e.node) :
    Tidy P dist shift e.cost { s with queue := q, expanded := e.node :: s.expanded } := by
  have hperm := H.entries_pop _ _ _ hpop
  have hmem : e ∈ H.entries s.queue := hperm.mem_iff.2 List.mem_cons_self
  have hleft : e ∉ H.entries q := (List.nodup_cons.1 (hperm.nodup_iff.1 ht.nodup)).1
  have hentry : (⟨e.node, shift + n + dist e.node⟩ : Entry V) = e := by rw [← hcost]
  have hnew : e.node ∉ s.expanded := by
    intro hold
    obtain ⟨m, hm, -, hnot⟩ := ht.done _ hold
    have hsame : (m : Int) = n := Option.some.inj (hm.score.symm.trans hn.score)
    rw [hsame, hentry] at hnot
    exact hnot hmem
  have hpopped := ht.popped hpop
  refine ⟨hpopped.nodup, hpopped.floor_le, ?_, List.nodup_cons.2 ⟨hnew, ht.distinct⟩, ?_⟩
  · intro v hv
    rcases List.mem_cons.1 hv with rfl | hv
    · exact ⟨n, ⟨hn.score, hn.walk, Nat.le_succ_of_le hn.le⟩, hcost.ge, by rwa [hentry]⟩
    · obtain ⟨m, hm, hle, hnot⟩ := hpopped.done v hv
      exact ⟨m, ⟨hm.score, hm.walk, Nat.le_succ_of_le hm.le⟩, hle, hnot⟩
  · intro v hv
    rcases List.mem_cons.1 hv with rfl | hv
    · refine ⟨htarget, n, hn.walk, fun m hm => ?_⟩
      obtain ⟨e', he', hle, -⟩ := hc.frontier hs hapart hlen hm hs.spared
      rw [hc.target] at hle
      have hleast : e.cost ≤ e'.cost := by
        rcases List.mem_cons.1 (hperm.mem_iff.1 he') with rfl | he'
        · exact le_refl _
        · exact H.pop_le _ _ _ hpop _ he'
      omega
    · exact ht.inner v hv

variable [DecidableEq K]

/-- A vertex whose score is lowered has not been expanded, and has no such entry yet. -/
theorem Tidy.lowered (hc : Consistent P N dist shift) (hapart : Apart P N) {busy : V → Prop}
    (hs : Inv P busy s) (ht : Tidy P dist shift floor s) (hlen : s.expanded.length ≤ N) {u w : V}
    {n : Nat} (hu : Scored P s u n) (hn : n < s.expanded.length) (hfloor : floor = shift + n + dist u)
    (hw : w ∈ P.next u) (hlt : (n : Int) + 1 < s.scoreOf P (P.key w)) :
    Tidy P dist shift floor (s.lowered P u w (n + 1)) := by
  have hwalk : Walk P (n + 1) w := .step hu.walk hw
  have hstep := hc.step u w hw
  have hcost : P.wrap ((n : Int) + 1 + P.guess w) = shift + (n + 1) + dist w := by
    have h := hc.cost (n + 1) w (le_trans hn hlen) hwalk
    push_cast at h
    exact h
  have hnew : (⟨w, P.wrap ((n : Int) + 1 + P.guess w)⟩ : Entry V) ∉ H.entries s.queue := by
    intro hmem
    obtain ⟨m, -, hwalk', hle, hcost', hscore⟩ := hs.entry _ hmem
    dsimp only at hcost' hwalk' hscore
    rw [hcost, hc.cost m w (le_trans hle hlen) hwalk'] at hcost'
    omega
  refine ⟨?_, ?_, ?_, ht.distinct, ht.inner⟩
  · exact (H.entries_push _ _).nodup_iff.2 (List.nodup_cons.2 ⟨hnew, ht.nodup⟩)
  · intro e he
    rcases (mem_entries_lowered _ _ _ _).1 he with rfl | he
    · dsimp only
      omega
    · exact ht.floor_le e he
  · intro v hv
    obtain ⟨m, hm, hle, hnot⟩ := ht.done v hv
    have hne : P.key v ≠ P.key w := by
      intro hkey
      obtain rfl := hapart m (n + 1) v w (le_trans hm.le hlen) (le_trans hn hlen) hm.walk hwalk hkey
      rw [Search.scoreOf_eq hm.score] at hlt
      omega
    refine ⟨m, hm.lowered hne, hle, fun hmem => ?_⟩
    rcases (mem_entries_lowered _ _ _ _).1 hmem with heq | hmem
    · exact hne (congrArg (fun e : Entry V => P.key e.node) heq)
    · exact hnot hmem

theorem tidy_init : Tidy P dist shift (P.guess P.start) (init P H) := by
  have hperm : (H.entries (init P H).queue).Perm [⟨P.start, P.guess P.start⟩] := by
    have h := H.entries_push ⟨P.start, P.guess P.start⟩ H.empty
    rwa [H.entries_empty] at h
  refine ⟨hperm.nodup_iff.2 (List.nodup_singleton _), ?_, fun v hv => (by cases hv), List.nodup_nil,
    fun v hv => (by cases hv)⟩
  intro e he
  rw [List.mem_singleton.1 (hperm.mem_iff.1 he)]

variable [DecidableEq V]

/-- **A turn** keeps what has been expanded inner and distinct. -/
theorem Tidy.more (hc : Consistent P N dist shift) (hapart : Apart P N)
    (hs : Inv P (fun _ => False) s) (ht : Tidy P dist shift floor s) (hlen : s.expanded.length ≤ N)
    (hbound : ∀ l : List V, l.Nodup → (∀ v ∈ l, Inner P dist v) → l.length ≤ N) {s' : Search H K}
    (h : turn P s = .more s') :
    s'.expanded.length ≤ N ∧ ∃ floor, Tidy P dist shift floor s' := by
  obtain ⟨e, q, hpop, htarget, ⟨-, rfl⟩ | ⟨n, hn, hcost, rfl⟩⟩ := hs.more_cases h
  · exact ⟨hlen, _, ht.popped hpop⟩
  · have hcost' : e.cost = shift + n + dist e.node := by
      rw [hcost, hc.cost n _ (le_trans hn.le hlen) hn.walk]
    have htidy := Tidy.expanding hc hapart hs ht hlen hpop htarget hn hcost'
    have hlen' := hbound _ htidy.distinct htidy.inner
    refine ⟨by rwa [expanded_expand], e.cost, ?_⟩
    refine (Inv.foldl (motive := fun t => Tidy P dist shift e.cost t) hapart ?_ (fun _ hw => hw)
      (hs.expanding hpop htarget) hlen' ⟨hn.score, hn.walk, Nat.le_succ_of_le hn.le⟩
      (Nat.lt_succ_of_le hn.le) htidy).1
    intro t w hw hinv hsame hscored hlt _ htidy'
    have hle : n < t.expanded.length := by
      rw [hsame]
      exact Nat.lt_succ_of_le hn.le
    exact htidy'.lowered hc hapart hinv (by rwa [hsame]) hscored hle hcost' hw hlt

end Steps

/-! ## Bounds -/

section Bounds

variable {V K : Type} [DecidableEq K] [DecidableEq V] {P : Problem V K} {H : Heap V} {N : Nat}
  {dist : V → Nat} {shift : Int}

/-- **No search expands more** than there are inner vertices. -/
theorem length_expanded_le (hc : Consistent P N dist shift) (hapart : Apart P N)
    (hbound : ∀ l : List V, l.Nodup → (∀ v ∈ l, Inner P dist v) → l.length ≤ N) {n : Nat} {b : Bool}
    {t : Search H K} (hrun : run P n (init P H) = some (b, t)) : t.expanded.length ≤ N := by
  obtain ⟨s, hs, ⟨-, hlen, -⟩, hturn⟩ := run_induct
    (motive := fun s => Inv P (fun _ => False) s ∧ s.expanded.length ≤ N ∧
      ∃ floor, Tidy P dist shift floor s)
    (fun s s' _ hs hmore => by
      obtain ⟨hinv, hlen, floor, htidy⟩ := hs
      obtain ⟨hlen', htidy'⟩ := htidy.more hc hapart hinv hlen hbound hmore
      exact ⟨hinv.more hapart hmore hlen', hlen', htidy'⟩)
    sane_init ⟨inv_init, Nat.zero_le _, _, tidy_init⟩ hrun
  rcases turn_ends hs hturn with ⟨-, -, rfl⟩ | ⟨-, e, q, -, -, rfl⟩
  · exact hlen
  · exact hlen

/-- **A search that lets the target out last** expands every inner vertex. -/
theorem subset_expanded (hc : Consistent P N dist shift) (hapart : Apart P N)
    (hdefers : H.Defers P.target) {n : Nat} {b : Bool} {t : Search H K}
    (hrun : run P n (init P H) = some (b, t)) (hlen : t.expanded.length ≤ N) {v : V}
    (hv : Inner P dist v) : v ∈ t.expanded := by
  by_contra hnot
  obtain ⟨htarget, j, hwalk, hleast⟩ := hv
  obtain ⟨s, hs, hlen, hsame, hturn⟩ := run_inv hapart hrun hlen
  rw [hsame] at hnot
  obtain ⟨e', he', hcost, i, hi, hwalk', hlast⟩ := hc.frontier hs hapart hlen hwalk hnot
  rcases turn_ends hs.sane hturn with ⟨-, hempty, -⟩ | ⟨-, e, q, hpop, hnode, -⟩
  · rw [hempty] at he'
    cases he'
  · have hperm := H.entries_pop _ _ _ hpop
    obtain ⟨m, -, hm, hle, hcost', -⟩ := hs.entry e (hperm.mem_iff.2 List.mem_cons_self)
    rw [hc.cost m _ (le_trans hle hlen) hm, hnode, hc.target] at hcost'
    rw [hnode] at hm
    have hshort := hleast m hm
    -- The entry on the way to `v` is not the target's, so it is behind the target's in the queue.
    have hother : e'.node ≠ P.target := by
      intro heq
      rw [heq] at hwalk'
      have hle' := hleast i hwalk'
      by_cases hij : i = j
      · exact htarget ((hlast hij).symm.trans heq)
      · omega
    rcases List.mem_cons.1 (hperm.mem_iff.1 he') with rfl | hmem
    · exact hother hnode
    · have hlt := hdefers _ _ _ hpop hnode _ hmem hother
      omega

end Bounds

/-! ## Lists as queues -/

section Lists

variable {A : Type} (weight : A → Int)

/-- The first element of the least weight. -/
def least : List A → Option A
  | [] => none
  | a :: l =>
      match least l with
      | none => some a
      | some b => if weight a ≤ weight b then some a else some b

variable {weight} {l : List A} {a : A}

theorem least_eq_none (h : least weight l = none) : l = [] := by
  cases l with
  | nil => rfl
  | cons b l =>
      rw [least] at h
      split at h
      · cases h
      · split at h <;> cases h

theorem least_spec (h : least weight l = some a) : a ∈ l ∧ ∀ b ∈ l, weight a ≤ weight b := by
  induction l generalizing a with
  | nil => cases h
  | cons c l ih =>
      rw [least] at h
      split at h
      · rename_i hnone
        cases h
        simp [least_eq_none hnone]
      · rename_i d hd
        obtain ⟨hmem, hle⟩ := ih hd
        split at h
        · cases h
          simp only [List.mem_cons, true_or, forall_eq_or_imp, le_refl, true_and]
          intro b hb
          have hb' := hle b hb
          omega
        · cases h
          simp only [List.mem_cons, forall_eq_or_imp]
          exact ⟨.inr hmem, by omega, hle⟩

end Lists

section Deferring

variable {V : Type} [DecidableEq V]

/-- The first entry of the least weight, and the others. -/
def popLeast (weight : Entry V → Int) (q : List (Entry V)) : Option (Entry V × List (Entry V)) :=
  (least weight q).map fun e => (e, q.erase e)

variable {weight : Entry V → Int} {q q' : List (Entry V)} {e : Entry V}

theorem popLeast_none (weight : Entry V → Int) (q : List (Entry V)) (h : popLeast weight q = none) :
    q = [] :=
  least_eq_none (Option.map_eq_none_iff.1 h)

theorem popLeast_some (h : popLeast weight q = some (e, q')) :
    least weight q = some e ∧ q' = q.erase e := by
  obtain ⟨a, ha, heq⟩ := Option.map_eq_some_iff.1 h
  cases heq
  exact ⟨ha, rfl⟩

theorem popLeast_perm (weight : Entry V → Int) (q : List (Entry V)) (e : Entry V) (q' : List (Entry V))
    (h : popLeast weight q = some (e, q')) : q.Perm (e :: q') := by
  obtain ⟨hleast, rfl⟩ := popLeast_some h
  exact List.perm_cons_erase (least_spec hleast).1

theorem popLeast_le (h : popLeast weight q = some (e, q')) {e' : Entry V} (he' : e' ∈ q') :
    weight e ≤ weight e' := by
  obtain ⟨hleast, rfl⟩ := popLeast_some h
  exact (least_spec hleast).2 e' (List.mem_of_mem_erase he')

/-- The target's entries weigh more than the others of their cost. -/
def deferredWeight (target : V) (e : Entry V) : Int := 2 * e.cost + if e.node = target then 1 else 0

theorem deferred_le (target : V) (q : List (Entry V)) (e : Entry V) (q' : List (Entry V))
    (h : popLeast (deferredWeight target) q = some (e, q')) (e' : Entry V) (he' : e' ∈ q') :
    e.cost ≤ e'.cost := by
  have hle := popLeast_le h he'
  unfold deferredWeight at hle
  split at hle <;> split at hle <;> omega

/-- A queue that lets the target out after all others of its cost. -/
def Heap.deferring (target : V) : Heap V where
  State := List (Entry V)
  empty := []
  push := List.cons
  pop := popLeast (deferredWeight target)
  entries := id
  entries_empty := rfl
  entries_push _ _ := List.Perm.refl _
  pop_none := popLeast_none _
  entries_pop := popLeast_perm _
  pop_le := deferred_le target

theorem deferring_defers (target : V) : (Heap.deferring target).Defers target := by
  intro q e q' h hnode e' he' hne
  have hle := popLeast_le h he'
  unfold deferredWeight at hle
  rw [if_pos hnode, if_neg hne] at hle
  omega

variable {K : Type} [DecidableEq K] {P : Problem V K} {N : Nat} {dist : V → Nat} {shift : Int}

/-- **The expansions**: every search ends after at most `N` of them exactly when there are at most `N`
inner vertices. -/
theorem expanded_le_iff [Finite K] (hc : Consistent P N dist shift) (hapart : Apart P N) :
    (∀ H : Heap V, ∃ n b t, run P n (init P H) = some (b, t) ∧ t.expanded.length ≤ N) ↔
      ∀ l : List V, l.Nodup → (∀ v ∈ l, Inner P dist v) → l.length ≤ N := by
  constructor
  · intro h l hnodup hinner
    obtain ⟨n, b, t, hrun, hlen⟩ := h (Heap.deferring P.target)
    have hsub : l ⊆ t.expanded := fun v hv =>
      subset_expanded hc hapart (deferring_defers P.target) hrun hlen (hinner v hv)
    exact le_trans (hnodup.length_le_of_subset hsub) hlen
  · intro h H
    obtain ⟨n, hn⟩ := exists_run P H
    obtain ⟨⟨b, t⟩, hrun⟩ := Option.isSome_iff_exists.1 hn
    exact ⟨n, b, t, hrun, length_expanded_le hc hapart h hrun⟩

end Deferring

end BestFirst
