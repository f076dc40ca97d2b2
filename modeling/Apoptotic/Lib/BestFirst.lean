import Mathlib.Algebra.BigOperators.Group.Finset.Basic
import Mathlib.Algebra.Order.BigOperators.Group.Finset
import Mathlib.Data.Fintype.BigOperators
import Mathlib.Logic.Function.Basic

/-!
# Best-first search with scores under keys

A search of a graph whose edges have length one.  Scores and predecessors are stored under keys, which
two vertices can share; a vertex is queued again whenever its score falls, and the entries that are out
of date are skipped.  The costs are wrapped, and the queue may break ties as it likes.

Principal results: `exists_run` — the search ends, whatever the graph; `Inv.frontier` — a vertex that is
reached is closed, or one on the way to it is queued; `chain_of_found`, `not_walk_of_lost` — where the
vertices reached have keys of their own, what is found is a walk to the target, and what is not found
has none.
-/

namespace BestFirst

/-! ## Queues -/

structure Entry (V : Type) where
  node : V
  cost : Int
  deriving DecidableEq

/-- A priority queue: what comes out costs no more than what is left.  Ties are its own matter. -/
structure Heap (V : Type) where
  State : Type
  empty : State
  push : Entry V → State → State
  pop : State → Option (Entry V × State)
  entries : State → List (Entry V)
  entries_empty : entries empty = []
  entries_push : ∀ e q, (entries (push e q)).Perm (e :: entries q)
  pop_none : ∀ q, pop q = none → entries q = []
  entries_pop : ∀ q e q', pop q = some (e, q') → (entries q).Perm (e :: entries q')
  pop_le : ∀ q e q', pop q = some (e, q') → ∀ e' ∈ entries q', e.cost ≤ e'.cost

/-- Entries for `target` come out after all others of the same cost. -/
def Heap.Defers {V : Type} (H : Heap V) (target : V) : Prop :=
  ∀ q e q', H.pop q = some (e, q') → e.node = target →
    ∀ e' ∈ H.entries q', e'.node ≠ target → e.cost < e'.cost

/-! ## The search -/

/-- A graph, the vertices to go from and to, and the arithmetic of the costs.  A score below `top` is
itself after wrapping, and is read off the cost of its entry. -/
structure Problem (V K : Type) where
  key : V → K
  next : V → List V
  guess : V → Int
  wrap : Int → Int
  top : Int
  start : V
  target : V
  top_pos : 0 < top
  wrap_eq : ∀ n, 0 ≤ n → n ≤ top → wrap n = n
  wrap_guess : ∀ v, wrap (guess v) = guess v
  wrap_sub : ∀ n v, 0 ≤ n → n < top → wrap (wrap (n + guess v) - guess v) = n

/-- `expanded` is what the search has expanded so far, the last first. -/
structure Search {V : Type} (H : Heap V) (K : Type) where
  queue : H.State
  score : K → Option Int
  came : K → Option V
  expanded : List V

section Search

variable {V K : Type} (P : Problem V K) {H : Heap V}

def Search.scoreOf (s : Search H K) (k : K) : Int := (s.score k).getD P.top

variable [DecidableEq K]

/-- A shorter way to `w`, over `u`, is taken down. -/
def relax (u : V) (s : Search H K) (w : V) : Search H K :=
  let tentative := P.wrap (s.scoreOf P (P.key u) + 1)
  if tentative < s.scoreOf P (P.key w) then
    { s with
      came := Function.update s.came (P.key w) (some u)
      score := Function.update s.score (P.key w) (some tentative)
      queue := H.push ⟨w, P.wrap (tentative + P.guess w)⟩ s.queue }
  else s

def expand (u : V) (s : Search H K) : Search H K :=
  (P.next u).foldl (relax P u) { s with expanded := u :: s.expanded }

def init (H : Heap V) : Search H K where
  queue := H.push ⟨P.start, P.guess P.start⟩ H.empty
  score := Function.update (fun _ => none) (P.key P.start) (some 0)
  came := fun _ => none
  expanded := []

variable [DecidableEq V]

inductive Turn (H : Heap V) (K : Type) where
  | lost (s : Search H K)
  | found (s : Search H K)
  | more (s : Search H K)

def turn (s : Search H K) : Turn H K :=
  match H.pop s.queue with
  | none => .lost s
  | some (e, queue) =>
      let s := { s with queue := queue }
      if e.node = P.target then .found s
      else if s.scoreOf P (P.key e.node) < P.wrap (e.cost - P.guess e.node) then .more s
      else .more (expand P e.node s)

/-- Whether the target is found, and the search at its end.  None out of fuel. -/
def run : Nat → Search H K → Option (Bool × Search H K)
  | 0, _ => none
  | n + 1, s =>
      match turn P s with
      | .lost s' => some (false, s')
      | .found s' => some (true, s')
      | .more s' => run n s'

theorem run_succ (n : Nat) (s : Search H K) :
    run P (n + 1) s = match turn P s with
      | .lost s' => some (false, s')
      | .found s' => some (true, s')
      | .more s' => run P n s' := rfl

/-- The way back from `v`, without the start. -/
def back (came : K → Option V) : Nat → V → Option (List V)
  | 0, _ => none
  | n + 1, v =>
      if v = P.start then some []
      else match came (P.key v) with
        | some u => (back came n u).map (v :: ·)
        | none => some [v]

omit [DecidableEq K] in
theorem back_succ (came : K → Option V) (n : Nat) (v : V) :
    back P came (n + 1) v =
      if v = P.start then some []
      else match came (P.key v) with
        | some u => (back P came n u).map (v :: ·)
        | none => some [v] := rfl

end Search

/-! ## Scores -/

/-- The scores are below `top`, what is queued has one, and predecessors have smaller ones. -/
structure Sane {V K : Type} (P : Problem V K) {H : Heap V} (s : Search H K) : Prop where
  scored : ∀ k m, s.score k = some m → 0 ≤ m ∧ m < P.top
  queued : ∀ e ∈ H.entries s.queue, (s.score (P.key e.node)).isSome
  came : ∀ k u, s.came k = some u → ∃ m n, s.score (P.key u) = some m ∧ s.score k = some n ∧ m < n

section Scores

variable {V K : Type} {P : Problem V K} {H : Heap V} {s : Search H K}

theorem Search.scoreOf_eq {k : K} {m : Int} (h : s.score k = some m) : s.scoreOf P k = m := by
  simp [Search.scoreOf, h]

theorem Sane.scoreOf_le (hs : Sane P s) (k : K) : 0 ≤ s.scoreOf P k ∧ s.scoreOf P k ≤ P.top := by
  have htop := P.top_pos
  unfold Search.scoreOf
  cases hk : s.score k with
  | none => simp; omega
  | some m =>
      have hm := hs.scored k m hk
      simp
      omega

/-- A smaller score is one that is written. -/
theorem Search.score_of_lt {k : K} (h : s.scoreOf P k < P.top) :
    s.score k = some (s.scoreOf P k) := by
  unfold Search.scoreOf at h ⊢
  cases hk : s.score k with
  | none =>
      rw [hk, Option.getD_none] at h
      omega
  | some m => rfl

theorem mem_entries_push (e e' : Entry V) (q : H.State) :
    e' ∈ H.entries (H.push e q) ↔ e' = e ∨ e' ∈ H.entries q := by
  rw [(H.entries_push e q).mem_iff, List.mem_cons]

theorem Sane.withQueue (hs : Sane P s) {e : Entry V} {q : H.State} (h : H.pop s.queue = some (e, q))
    (l : List V) : Sane P { s with queue := q, expanded := l } :=
  ⟨hs.scored, fun _ he => hs.queued _ ((H.entries_pop _ _ _ h).mem_iff.2 (List.mem_cons_of_mem _ he)),
    hs.came⟩

variable [DecidableEq K]

theorem sane_init : Sane P (init P H) := by
  have htop := P.top_pos
  refine ⟨?_, ?_, fun k u h => by cases h⟩
  · intro k m hm
    simp only [init, Function.update_apply] at hm
    split at hm
    · cases hm
      omega
    · cases hm
  · intro e he
    simp only [init, mem_entries_push, H.entries_empty, List.not_mem_nil, or_false] at he
    subst he
    simp [init]

/-- The state in which `w` has been queued with the score `n` over `u`. -/
def Search.lowered (s : Search H K) (P : Problem V K) (u w : V) (n : Int) : Search H K :=
  { s with
    came := Function.update s.came (P.key w) (some u)
    score := Function.update s.score (P.key w) (some n)
    queue := H.push ⟨w, P.wrap (n + P.guess w)⟩ s.queue }

/-- **What `relax` can do**: nothing, where `w` has no larger score already, or lower it. -/
theorem relax_cases (hs : Sane P s) {u : V} {n : Int} (hu : s.score (P.key u) = some n) (w : V) :
    s.scoreOf P (P.key w) ≤ n + 1 ∧ relax P u s w = s ∨
      n + 1 < s.scoreOf P (P.key w) ∧ P.key w ≠ P.key u ∧ relax P u s w = s.lowered P u w (n + 1) := by
  have hn := hs.scored _ _ hu
  have htentative : P.wrap (s.scoreOf P (P.key u) + 1) = n + 1 := by
    rw [Search.scoreOf_eq hu]
    exact P.wrap_eq _ (by omega) (by omega)
  unfold relax
  simp only [htentative]
  by_cases hlt : n + 1 < s.scoreOf P (P.key w)
  · refine .inr ⟨hlt, fun hkey => ?_, if_pos hlt⟩
    rw [hkey, Search.scoreOf_eq hu] at hlt
    omega
  · exact .inl ⟨by omega, if_neg hlt⟩

/-- Lowering a score writes one smaller score and changes no other. -/
theorem score_lowered (u w : V) (n : Int) (k : K) :
    (s.lowered P u w n).score k = if k = P.key w then some n else s.score k := by
  simp [Search.lowered, Function.update_apply]

theorem came_lowered (u w : V) (n : Int) (k : K) :
    (s.lowered P u w n).came k = if k = P.key w then some u else s.came k := by
  simp [Search.lowered, Function.update_apply]

theorem mem_entries_lowered (u w : V) (n : Int) (e : Entry V) :
    e ∈ H.entries (s.lowered P u w n).queue ↔
      e = ⟨w, P.wrap (n + P.guess w)⟩ ∨ e ∈ H.entries s.queue :=
  mem_entries_push _ _ _

theorem score_of_lowered {u w : V} {n m : Int} {k : K} (h : s.score k = some m)
    (hlt : n < s.scoreOf P (P.key w)) : ∃ m' ≤ m, (s.lowered P u w n).score k = some m' := by
  rw [score_lowered]
  by_cases hk : k = P.key w
  · subst hk
    rw [Search.scoreOf_eq h] at hlt
    exact ⟨n, by omega, if_pos rfl⟩
  · exact ⟨m, le_refl _, by rw [if_neg hk, h]⟩

theorem Sane.lowered (hs : Sane P s) {u w : V} {n : Int} (hu : s.score (P.key u) = some n)
    (hlt : n + 1 < s.scoreOf P (P.key w)) (hne : P.key w ≠ P.key u) :
    Sane P (s.lowered P u w (n + 1)) := by
  have htop := (hs.scoreOf_le (P.key w)).2
  have hn := hs.scored _ _ hu
  refine ⟨?_, ?_, ?_⟩
  · intro k m hm
    rw [score_lowered] at hm
    split at hm
    · cases hm
      omega
    · exact hs.scored k m hm
  · intro e he
    rw [score_lowered]
    split
    · rfl
    · rcases (mem_entries_lowered _ _ _ _).1 he with rfl | he
      · rename_i hk
        exact absurd rfl hk
      · exact hs.queued e he
  · intro k v hv
    rw [came_lowered] at hv
    split at hv
    · rename_i hk
      cases hv
      subst hk
      refine ⟨n, n + 1, ?_, ?_, by omega⟩
      · rw [score_lowered, if_neg hne.symm, hu]
      · rw [score_lowered, if_pos rfl]
    · rename_i hk
      obtain ⟨m, m', hm, hm', hlt'⟩ := hs.came k v hv
      obtain ⟨m'', hle, hm''⟩ := score_of_lowered (u := u) hm hlt
      exact ⟨m'', m', hm'', by rw [score_lowered, if_neg hk, hm'], by omega⟩

theorem Sane.relax (hs : Sane P s) {u : V} {n : Int} (hu : s.score (P.key u) = some n) (w : V) :
    Sane P (relax P u s w) ∧ (relax P u s w).score (P.key u) = some n := by
  rcases relax_cases hs hu w with ⟨-, hsame⟩ | ⟨hlt, hne, hlow⟩
  · rw [hsame]
    exact ⟨hs, hu⟩
  · rw [hlow, score_lowered, if_neg hne.symm]
    exact ⟨hs.lowered hu hlt hne, hu⟩

/-- **What the relaxing of a list keeps**: whatever each lowering keeps. -/
theorem foldl_relax_induct {u : V} {n : Int} {motive : Search H K → Prop} (l : List V)
    (hstep : ∀ s : Search H K, ∀ w ∈ l, Sane P s → s.score (P.key u) = some n →
      n + 1 < s.scoreOf P (P.key w) → P.key w ≠ P.key u → motive s →
        motive (s.lowered P u w (n + 1)))
    (hs : Sane P s) (hu : s.score (P.key u) = some n) (h : motive s) :
    motive (l.foldl (BestFirst.relax P u) s) ∧ Sane P (l.foldl (BestFirst.relax P u) s) ∧
      (l.foldl (BestFirst.relax P u) s).score (P.key u) = some n := by
  induction l generalizing s with
  | nil => exact ⟨h, hs, hu⟩
  | cons w l ih =>
      obtain ⟨hs', hu'⟩ := hs.relax hu w
      refine ih (fun s w' hw' => hstep s w' (List.mem_cons_of_mem _ hw')) hs' hu' ?_
      rcases relax_cases hs hu w with ⟨-, hsame⟩ | ⟨hlt, hne, hlow⟩
      · rw [hsame]
        exact h
      · rw [hlow]
        exact hstep s w List.mem_cons_self hs hu hlt hne h

theorem scoreOf_lowered_le {u w : V} {n : Int} (hlt : n < s.scoreOf P (P.key w)) (k : K) :
    (s.lowered P u w n).scoreOf P k ≤ s.scoreOf P k := by
  unfold Search.scoreOf
  rw [score_lowered]
  split
  · rename_i hk
    subst hk
    exact hlt.le
  · exact le_refl _

/-- Every vertex relaxed over `u` has a score of at most one more. -/
theorem scoreOf_foldl_relax {u : V} {n : Int} (l : List V) (hs : Sane P s)
    (hu : s.score (P.key u) = some n) {w : V} (hw : w ∈ l) :
    (l.foldl (BestFirst.relax P u) s).scoreOf P (P.key w) ≤ n + 1 := by
  induction l generalizing s with
  | nil => cases hw
  | cons w' l ih =>
      obtain ⟨hs', hu'⟩ := hs.relax hu w'
      rcases List.mem_cons.1 hw with rfl | hmem
      · have hle : (BestFirst.relax P u s w).scoreOf P (P.key w) ≤ n + 1 := by
          rcases relax_cases hs hu w with ⟨hle, hsame⟩ | ⟨-, -, hlow⟩
          · rw [hsame]
            exact hle
          · rw [hlow]
            simp [Search.scoreOf, score_lowered]
        refine (foldl_relax_induct (motive := fun t => t.scoreOf P (P.key w) ≤ n + 1) l ?_ hs' hu' hle).1
        intro t w'' _ _ _ hlt _ ht
        exact le_trans (scoreOf_lowered_le hlt _) ht
      · exact ih hs' hu' hmem

/-- What is queued and what the scores can still lose. -/
def Search.potential [Fintype K] (P : Problem V K) (s : Search H K) : Nat :=
  (H.entries s.queue).length + ∑ k, (s.scoreOf P k).toNat

theorem potential_lowered [Fintype K] (hs : Sane P s) {u w : V} {n : Int}
    (hu : s.score (P.key u) = some n) (hlt : n + 1 < s.scoreOf P (P.key w)) :
    (s.lowered P u w (n + 1)).potential P ≤ s.potential P := by
  have hn := hs.scored _ _ hu
  have hle : ∀ k, ((s.lowered P u w (n + 1)).scoreOf P k).toNat ≤ (s.scoreOf P k).toNat :=
    fun k => Int.toNat_le_toNat (scoreOf_lowered_le hlt k)
  have hkey : ((s.lowered P u w (n + 1)).scoreOf P (P.key w)).toNat < (s.scoreOf P (P.key w)).toNat := by
    rw [show (s.lowered P u w (n + 1)).scoreOf P (P.key w) = n + 1 by
      simp [Search.scoreOf, score_lowered]]
    omega
  have hsum := Finset.sum_lt_sum (fun k _ => hle k) ⟨P.key w, Finset.mem_univ _, hkey⟩
  have hlength : (H.entries (s.lowered P u w (n + 1)).queue).length = (H.entries s.queue).length + 1 :=
    (H.entries_push _ _).length_eq
  unfold Search.potential
  omega

/-! ### Turns -/

variable [DecidableEq V]

/-- **What a turn can do.** -/
theorem turn_cases (hs : Sane P s) :
    (H.entries s.queue = [] ∧ turn P s = .lost s) ∨
      ∃ e q, H.pop s.queue = some (e, q) ∧
        ((e.node = P.target ∧ turn P s = .found { s with queue := q }) ∨
          e.node ≠ P.target ∧ ∃ n, s.score (P.key e.node) = some n ∧
            (n < P.wrap (e.cost - P.guess e.node) ∧ turn P s = .more { s with queue := q } ∨
              P.wrap (e.cost - P.guess e.node) ≤ n ∧
                turn P s = .more (expand P e.node { s with queue := q }))) := by
  unfold turn
  cases hpop : H.pop s.queue with
  | none => exact .inl ⟨H.pop_none _ hpop, rfl⟩
  | some p =>
      obtain ⟨e, q⟩ := p
      refine .inr ⟨e, q, rfl, ?_⟩
      have hmem : e ∈ H.entries s.queue := (H.entries_pop _ _ _ hpop).mem_iff.2 List.mem_cons_self
      obtain ⟨n, hn⟩ := Option.isSome_iff_exists.1 (hs.queued e hmem)
      by_cases htarget : e.node = P.target
      · exact .inl ⟨htarget, if_pos htarget⟩
      · refine .inr ⟨htarget, n, hn, ?_⟩
        simp only [if_neg htarget]
        rw [show Search.scoreOf P { s with queue := q } (P.key e.node) = n from Search.scoreOf_eq hn]
        by_cases hstale : n < P.wrap (e.cost - P.guess e.node)
        · exact .inl ⟨hstale, if_pos hstale⟩
        · exact .inr ⟨by omega, if_neg hstale⟩

/-- **How a search ends.** -/
theorem turn_ends (hs : Sane P s) {b : Bool} {t : Search H K}
    (h : turn P s = if b then .found t else .lost t) :
    b = false ∧ H.entries s.queue = [] ∧ t = s ∨
      b = true ∧ ∃ e q, H.pop s.queue = some (e, q) ∧ e.node = P.target ∧ t = { s with queue := q } := by
  rcases turn_cases hs with
    ⟨hempty, hturn⟩ | ⟨e, q, hpop, ⟨hnode, hturn⟩ | ⟨-, n, -, ⟨-, hturn⟩ | ⟨-, hturn⟩⟩⟩
  · rw [hturn] at h
    cases b <;> cases h
    exact .inl ⟨rfl, hempty, rfl⟩
  · rw [hturn] at h
    cases b <;> cases h
    exact .inr ⟨rfl, e, q, hpop, hnode, rfl⟩
  · rw [hturn] at h
    cases b <;> cases h
  · rw [hturn] at h
    cases b <;> cases h

/-- **How a search goes on**: it drops an entry, or expands its vertex. -/
theorem turn_more (hs : Sane P s) {s' : Search H K} (h : turn P s = .more s') :
    ∃ e q, H.pop s.queue = some (e, q) ∧ e.node ≠ P.target ∧ ∃ n, s.score (P.key e.node) = some n ∧
      (n < P.wrap (e.cost - P.guess e.node) ∧ s' = { s with queue := q } ∨
        P.wrap (e.cost - P.guess e.node) ≤ n ∧ s' = expand P e.node { s with queue := q }) := by
  rcases turn_cases hs with
    ⟨-, hturn⟩ | ⟨e, q, hpop, ⟨-, hturn⟩ | ⟨htarget, n, hn, ⟨hold, hturn⟩ | ⟨hcurrent, hturn⟩⟩⟩
  · rw [hturn] at h
    cases h
  · rw [hturn] at h
    cases h
  · rw [hturn] at h
    cases h
    exact ⟨e, q, hpop, htarget, n, hn, .inl ⟨hold, rfl⟩⟩
  · rw [hturn] at h
    cases h
    exact ⟨e, q, hpop, htarget, n, hn, .inr ⟨hcurrent, rfl⟩⟩

theorem Sane.more (hs : Sane P s) {s' : Search H K} (h : turn P s = .more s') : Sane P s' := by
  obtain ⟨e, q, hpop, -, n, hn, ⟨-, rfl⟩ | ⟨-, rfl⟩⟩ := turn_more hs h
  · exact hs.withQueue hpop _
  · exact (foldl_relax_induct (motive := fun _ => True) _ (fun _ _ _ _ _ _ _ _ => trivial)
      (hs.withQueue hpop _) hn trivial).2.1

/-! ### The search ends -/

theorem potential_more [Fintype K] (hs : Sane P s) {s' : Search H K} (h : turn P s = .more s') :
    s'.potential P < s.potential P := by
  have hpopped : ∀ {e q} l, H.pop s.queue = some (e, q) →
      Search.potential P { s with queue := q, expanded := l } < s.potential P := by
    intro e q l hpop
    have hlength := (H.entries_pop _ _ _ hpop).length_eq
    rw [List.length_cons] at hlength
    exact Nat.add_lt_add_right (by dsimp only; omega) _
  obtain ⟨e, q, hpop, -, n, hn, ⟨-, rfl⟩ | ⟨-, rfl⟩⟩ := turn_more hs h
  · exact hpopped _ hpop
  · refine (foldl_relax_induct (motive := fun t => t.potential P < s.potential P) _ ?_
      (hs.withQueue hpop _) hn (hpopped _ hpop)).1
    intro t w _ ht hu hlt _ hpot
    exact lt_of_le_of_lt (potential_lowered ht hu hlt) hpot

/-- **The search ends**, whatever the graph is: each turn takes an entry, and each new entry lowers a
score. -/
theorem exists_run [Finite K] (P : Problem V K) (H : Heap V) : ∃ n, (run P n (init P H)).isSome := by
  have := Fintype.ofFinite K
  suffices h : ∀ n (s : Search H K), Sane P s → s.potential P < n → (run P n s).isSome from
    ⟨_, h _ _ sane_init (Nat.lt_succ_self _)⟩
  intro n
  induction n with
  | zero => exact fun s _ hn => absurd hn (Nat.not_lt_zero _)
  | succ n ih =>
      intro s hs hn
      rw [run_succ]
      cases hturn : turn P s with
      | lost s' => rfl
      | found s' => rfl
      | more s' =>
          have hless := potential_more hs hturn
          exact ih s' (hs.more hturn) (by omega)

theorem run_mono {n m : Nat} (h : n ≤ m) {s : Search H K} {r : Bool × Search H K}
    (hrun : run P n s = some r) : run P m s = some r := by
  induction n generalizing m s with
  | zero => cases hrun
  | succ n ih =>
      obtain ⟨m, rfl⟩ := Nat.exists_eq_succ_of_ne_zero (Nat.ne_zero_of_lt h)
      rw [run_succ] at hrun ⊢
      split at hrun
      · exact hrun
      · exact hrun
      · exact ih (Nat.le_of_succ_le_succ h) hrun

/-- **What a run keeps**: whatever each of its turns keeps. -/
theorem run_induct {motive : Search H K → Prop}
    (hmore : ∀ s s', Sane P s → motive s → turn P s = .more s' → motive s') {n : Nat} (hs : Sane P s)
    (h : motive s) {b : Bool} {t : Search H K} (hrun : run P n s = some (b, t)) :
    ∃ s', Sane P s' ∧ motive s' ∧ turn P s' = if b then .found t else .lost t := by
  induction n generalizing s with
  | zero => cases hrun
  | succ n ih =>
      rw [run_succ] at hrun
      cases hturn : turn P s with
      | lost s' =>
          rw [hturn] at hrun
          cases hrun
          exact ⟨s, hs, h, hturn⟩
      | found s' =>
          rw [hturn] at hrun
          cases hrun
          exact ⟨s, hs, h, hturn⟩
      | more s' =>
          rw [hturn] at hrun
          exact ih (hs.more hturn) (hmore s s' hs h hturn) hrun

end Scores

/-! ## Walks -/

/-- `v` is `n` steps from the start. -/
inductive Walk {V K : Type} (P : Problem V K) : Nat → V → Prop where
  | start : Walk P 0 P.start
  | step {n : Nat} {u w : V} (h : Walk P n u) (hw : w ∈ P.next u) : Walk P (n + 1) w

/-- The vertices within `N` steps have keys of their own. -/
def Apart {V K : Type} (P : Problem V K) (N : Nat) : Prop :=
  ∀ m n v w, m ≤ N → n ≤ N → Walk P m v → Walk P n w → P.key v = P.key w → v = w

/-- The score of `v` is the length of a walk to it, and no larger than what has been expanded. -/
structure Scored {V K : Type} (P : Problem V K) {H : Heap V} (s : Search H K) (v : V) (n : Nat) :
    Prop where
  score : s.score (P.key v) = some (n : Int)
  walk : Walk P n v
  le : n ≤ s.expanded.length

/-- `v` is expanded, and its neighbours have a score of at most one more. -/
structure Closed {V K : Type} (P : Problem V K) {H : Heap V} (s : Search H K) (v : V) (n : Nat) :
    Prop where
  expanded : v ∈ s.expanded
  lt : n < s.expanded.length
  next : ∀ w ∈ P.next v, s.scoreOf P (P.key w) ≤ n + 1

/-- What the scores, the queue and the predecessors say of the graph.  The vertices with a score are
closed or have a current entry in the queue, except those that are `busy`. -/
structure Inv {V K : Type} (P : Problem V K) {H : Heap V} (busy : V → Prop) (s : Search H K) :
    Prop where
  sane : Sane P s
  scored : ∀ k m, s.score k = some m → ∃ v n, P.key v = k ∧ m = (n : Nat) ∧ Scored P s v n
  entry : ∀ e ∈ H.entries s.queue, ∃ n : Nat, (n : Int) < P.top ∧ Walk P n e.node ∧
    n ≤ s.expanded.length ∧ e.cost = P.wrap (n + P.guess e.node) ∧ s.scoreOf P (P.key e.node) ≤ n
  start : s.score (P.key P.start) = some 0
  pending : ∀ v n, Scored P s v n →
    busy v ∨ Closed P s v n ∨ ⟨v, P.wrap (n + P.guess v)⟩ ∈ H.entries s.queue
  came : ∀ k u, s.came k = some u → ∃ v m n, P.key v = k ∧ v ∈ P.next u ∧ Walk P n v ∧
    n ≤ s.expanded.length ∧ Walk P m u ∧ m ≤ s.expanded.length
  behind : ∀ k, (s.score k).isSome → k ≠ P.key P.start → (s.came k).isSome
  spared : P.target ∉ s.expanded

section Walks

variable {V K : Type} {P : Problem V K} {H : Heap V} {s : Search H K} {busy : V → Prop} {N : Nat}

/-- A vertex near the start that has a score is the one its key was scored for. -/
theorem Inv.scored_of_walk (hs : Inv P busy s) (hapart : Apart P N) (hlen : s.expanded.length ≤ N)
    {v : V} {n : Nat} (hv : Walk P n v) (hn : n ≤ N) {m : Int} (h : s.score (P.key v) = some m) :
    ∃ k : Nat, m = k ∧ Scored P s v k := by
  obtain ⟨w, k, hkey, hm, hscored⟩ := hs.scored _ _ h
  obtain rfl := hapart k n w v (le_trans hscored.le hlen) hn hscored.walk hv hkey
  exact ⟨k, hm, hscored⟩

/-- An entry that is not out of date is for the score its vertex has. -/
theorem Inv.current (hs : Inv P busy s) {e : Entry V} (he : e ∈ H.entries s.queue)
    (hle : P.wrap (e.cost - P.guess e.node) ≤ s.scoreOf P (P.key e.node)) :
    ∃ n : Nat, Scored P s e.node n ∧ e.cost = P.wrap (n + P.guess e.node) := by
  obtain ⟨n, hn, hwalk, hlen, hcost, hscore⟩ := hs.entry e he
  rw [hcost, P.wrap_sub n _ (Int.natCast_nonneg n) hn] at hle
  have hsame := le_antisymm hscore hle
  refine ⟨n, ⟨?_, hwalk, hlen⟩, hcost⟩
  rw [Search.score_of_lt (P := P) (by omega), hsame]

theorem Inv.dropped (hs : Inv P (fun _ => False) s) {e : Entry V} {q : H.State}
    (hpop : H.pop s.queue = some (e, q))
    (hold : s.scoreOf P (P.key e.node) < P.wrap (e.cost - P.guess e.node)) :
    Inv P (fun _ => False) { s with queue := q } := by
  have hmem := fun e' => (H.entries_pop _ _ _ hpop).mem_iff (a := e')
  refine ⟨hs.sane.withQueue hpop _, ?_, fun e' he' => hs.entry e' ?_, hs.start, ?_, hs.came,
    hs.behind, hs.spared⟩
  · intro k m hm
    obtain ⟨v, n, hkey, hm, hv⟩ := hs.scored k m hm
    exact ⟨v, n, hkey, hm, hv.score, hv.walk, hv.le⟩
  · exact (hmem e').2 (List.mem_cons_of_mem _ he')
  · intro v n hv
    rcases hs.pending v n ⟨hv.score, hv.walk, hv.le⟩ with hbusy | hclosed | hqueued
    · exact hbusy.elim
    · exact .inr (.inl ⟨hclosed.expanded, hclosed.lt, hclosed.next⟩)
    · rcases List.mem_cons.1 ((hmem _).1 hqueued) with rfl | hleft
      · -- The entry taken is out of date, and this one is not.
        have hlt := hs.sane.scored _ _ hv.score
        have hscore : s.scoreOf P (P.key v) = n := Search.scoreOf_eq hv.score
        rw [hscore, P.wrap_sub n _ hlt.1 hlt.2] at hold
        exact absurd hold (lt_irrefl _)
      · exact .inr (.inr hleft)

/-- The entry of `u` is taken to expand it. -/
theorem Inv.expanding (hs : Inv P (fun _ => False) s) {e : Entry V} {q : H.State}
    (hpop : H.pop s.queue = some (e, q)) (htarget : e.node ≠ P.target) :
    Inv P (· = e.node) { s with queue := q, expanded := e.node :: s.expanded } := by
  have hmem := fun e' => (H.entries_pop _ _ _ hpop).mem_iff (a := e')
  have hlen : s.expanded.length ≤ (e.node :: s.expanded).length := Nat.le_succ _
  refine ⟨hs.sane.withQueue hpop _, ?_, ?_, hs.start, ?_, ?_, hs.behind, ?_⟩
  · intro k m hm
    obtain ⟨v, n, hkey, hm, hv⟩ := hs.scored k m hm
    exact ⟨v, n, hkey, hm, hv.score, hv.walk, le_trans hv.le hlen⟩
  · intro e' he'
    obtain ⟨n, hn, hwalk, hle, hcost⟩ := hs.entry e' ((hmem e').2 (List.mem_cons_of_mem _ he'))
    exact ⟨n, hn, hwalk, le_trans hle hlen, hcost⟩
  · intro v n hv
    by_cases hve : v = e.node
    · exact .inl hve
    · obtain ⟨v', n', -, hn, hv'⟩ := hs.scored _ _ hv.score
      obtain rfl := Int.ofNat_inj.1 hn
      rcases hs.pending v n ⟨hv.score, hv.walk, hv'.le⟩ with hbusy | hclosed | hqueued
      · exact hbusy.elim
      · exact .inr (.inl ⟨List.mem_cons_of_mem _ hclosed.expanded, lt_of_lt_of_le hclosed.lt hlen,
          hclosed.next⟩)
      · rcases List.mem_cons.1 ((hmem _).1 hqueued) with hfirst | hleft
        · exact absurd (congrArg Entry.node hfirst) hve
        · exact .inr (.inr hleft)
  · intro k u hu
    obtain ⟨v, m, n, hkey, hnext, hwalk, hle, hwalk', hle'⟩ := hs.came k u hu
    exact ⟨v, m, n, hkey, hnext, hwalk, le_trans hle hlen, hwalk', le_trans hle' hlen⟩
  · intro hmem'
    rcases List.mem_cons.1 hmem' with heq | hmem'
    · exact htarget heq.symm
    · exact hs.spared hmem'

theorem Inv.settled {u : V} {n : Nat} (hs : Inv P (· = u) s) (hu : Scored P s u n)
    (hclosed : Closed P s u n) : Inv P (fun _ => False) s := by
  refine ⟨hs.sane, hs.scored, hs.entry, hs.start, ?_, hs.came, hs.behind, hs.spared⟩
  intro v m hv
  rcases hs.pending v m hv with rfl | h
  · have hm : (m : Int) = n := Option.some.inj (hv.score.symm.trans hu.score)
    obtain rfl := Int.ofNat_inj.1 hm
    exact .inr (.inl hclosed)
  · exact .inr h

variable [DecidableEq K]

theorem Closed.lowered {v w u : V} {n : Nat} {m : Int} (h : Closed P s v n)
    (hlt : m < s.scoreOf P (P.key w)) : Closed P (s.lowered P u w m) v n :=
  ⟨h.expanded, h.lt, fun w' hw' => le_trans (scoreOf_lowered_le hlt _) (h.next w' hw')⟩

theorem Scored.lowered {v w u : V} {n : Nat} {m : Int} (h : Scored P s v n)
    (hne : P.key v ≠ P.key w) : Scored P (s.lowered P u w m) v n :=
  ⟨by rw [score_lowered, if_neg hne]; exact h.score, h.walk, h.le⟩

/-- Lowering keeps the invariant while `u`, which is being expanded, is busy. -/
theorem Inv.lowered (hs : Inv P busy s) (hapart : Apart P N) (hlen : s.expanded.length ≤ N) {u w : V}
    {n : Nat} (hu : Scored P s u n) (hn : n < s.expanded.length) (hw : w ∈ P.next u)
    (hlt : (n : Int) + 1 < s.scoreOf P (P.key w)) (hne : P.key w ≠ P.key u) :
    Inv P busy (s.lowered P u w (n + 1)) := by
  have htop := (hs.sane.scoreOf_le (P.key w)).2
  have hwalk : Walk P (n + 1) w := .step hu.walk hw
  have hnew : Scored P (s.lowered P u w (n + 1)) w (n + 1) :=
    ⟨by rw [score_lowered, if_pos rfl]; simp, hwalk, hn⟩
  refine ⟨hs.sane.lowered hu.score hlt hne, ?_, ?_, ?_, ?_, ?_, ?_, hs.spared⟩
  · intro k m hm
    by_cases hk : k = P.key w
    · rw [score_lowered, if_pos hk] at hm
      cases hm
      exact ⟨w, n + 1, hk.symm, by simp, hnew⟩
    · rw [score_lowered, if_neg hk] at hm
      obtain ⟨v, n', hkey, hm', hv⟩ := hs.scored k m hm
      exact ⟨v, n', hkey, hm', hv.lowered (by rwa [hkey])⟩
  · intro e he
    rcases (mem_entries_lowered _ _ _ _).1 he with rfl | he
    · refine ⟨n + 1, by push_cast; omega, hwalk, hn, by push_cast; rfl, ?_⟩
      simp [Search.scoreOf, score_lowered]
    · obtain ⟨m, hm, hv, hle, hcost, hscore⟩ := hs.entry e he
      exact ⟨m, hm, hv, hle, hcost, le_trans (scoreOf_lowered_le hlt _) hscore⟩
  · rw [score_lowered, if_neg, hs.start]
    intro hkey
    rw [← hkey, Search.scoreOf_eq hs.start] at hlt
    omega
  · intro v m hv
    by_cases hk : P.key v = P.key w
    · -- What was lowered is `w` itself, and its new entry is in the queue.
      obtain rfl := hapart m (n + 1) v w (le_trans hv.le hlen) (le_trans hn hlen) hv.walk hwalk hk
      have hm : (m : Int) = (n + 1 : Nat) := Option.some.inj (hv.score.symm.trans hnew.score)
      refine .inr (.inr ((mem_entries_lowered _ _ _ _).2 (.inl ?_)))
      rw [hm]
      push_cast
      rfl
    · have hold : Scored P s v m := by
        refine ⟨?_, hv.walk, hv.le⟩
        have hscore := hv.score
        rwa [score_lowered, if_neg hk] at hscore
      rcases hs.pending v m hold with hbusy | hclosed | hqueued
      · exact .inl hbusy
      · exact .inr (.inl (hclosed.lowered hlt))
      · exact .inr (.inr ((mem_entries_lowered _ _ _ _).2 (.inr hqueued)))
  · intro k v hv
    rw [came_lowered] at hv
    split at hv
    · rename_i hk
      cases hv
      exact ⟨w, n, n + 1, hk.symm, hw, hwalk, hn, hu.walk, hu.le⟩
    · exact hs.came k v hv
  · intro k hk hstart
    rw [came_lowered]
    rw [score_lowered] at hk
    split
    · rfl
    · rename_i hkey
      rw [if_neg hkey] at hk
      exact hs.behind k hk hstart

/-- **What an expansion keeps**: the invariant, and whatever each lowering keeps besides. -/
theorem Inv.foldl {motive : Search H K → Prop} (hapart : Apart P N) {u : V} {n : Nat} {l : List V}
    (hstep : ∀ t : Search H K, ∀ w ∈ P.next u, Inv P busy t → t.expanded = s.expanded →
      Scored P t u n → (n : Int) + 1 < t.scoreOf P (P.key w) → P.key w ≠ P.key u → motive t →
        motive (t.lowered P u w (n + 1)))
    (hl : ∀ w ∈ l, w ∈ P.next u) (hs : Inv P busy s) (hlen : s.expanded.length ≤ N)
    (hu : Scored P s u n) (hn : n < s.expanded.length) (h : motive s) :
    motive (l.foldl (relax P u) s) ∧ Inv P busy (l.foldl (relax P u) s) ∧
      (l.foldl (relax P u) s).expanded = s.expanded ∧ Scored P (l.foldl (relax P u) s) u n := by
  refine (foldl_relax_induct (motive := fun t =>
    motive t ∧ Inv P busy t ∧ t.expanded = s.expanded ∧ Scored P t u n) l ?_ hs.sane hu.score
      ⟨h, hs, rfl, hu⟩).1
  rintro t w hw - - hlt hne ⟨hmotive, hinv, hsame, hscored⟩
  have hw' := hl w hw
  exact ⟨hstep t w hw' hinv hsame hscored hlt hne hmotive,
    hinv.lowered hapart (by rwa [hsame]) hscored (by rwa [hsame]) hw' hlt hne, hsame,
    hscored.lowered hne.symm⟩

theorem inv_init : Inv P (fun _ => False) (init P H) := by
  have hentry : ∀ e, e ∈ H.entries (init P H).queue ↔ e = ⟨P.start, P.guess P.start⟩ := by
    intro e
    simp [init, mem_entries_push, H.entries_empty]
  have hscore : ∀ k m, (init P H).score k = some m ↔ k = P.key P.start ∧ m = 0 := by
    intro k m
    simp only [init, Function.update_apply]
    split
    · rename_i hk
      simp [hk, eq_comm]
    · rename_i hk
      simp [hk]
  have hstart : (init P H).score (P.key P.start) = some 0 := (hscore _ _).2 ⟨rfl, rfl⟩
  refine ⟨sane_init, ?_, ?_, hstart, ?_, fun k u h => (by cases h), ?_, List.not_mem_nil⟩
  · intro k m hm
    obtain ⟨rfl, rfl⟩ := (hscore k m).1 hm
    exact ⟨P.start, 0, rfl, rfl, hm, .start, le_refl _⟩
  · intro e he
    obtain rfl := (hentry e).1 he
    refine ⟨0, P.top_pos, .start, le_refl _, ?_, ?_⟩
    · simp [P.wrap_guess]
    · rw [Search.scoreOf_eq hstart]
      exact le_refl _
  · intro v n hv
    -- A walk no longer than what has been expanded is the one that has not left the start.
    have hn : n = 0 := Nat.le_zero.1 hv.le
    subst hn
    cases hv.walk
    exact .inr (.inr ((hentry _).2 (by simp [P.wrap_guess])))
  · intro k hk hne
    obtain ⟨m, hm⟩ := Option.isSome_iff_exists.1 hk
    exact absurd ((hscore k m).1 hm).1 hne

theorem expanded_expand (u : V) : (expand P u s).expanded = u :: s.expanded := by
  have hfold : ∀ (l : List V) (t : Search H K), (l.foldl (relax P u) t).expanded = t.expanded := by
    intro l
    induction l with
    | nil => exact fun t => rfl
    | cons w l ih =>
        intro t
        rw [List.foldl_cons, ih]
        unfold relax
        dsimp only
        split <;> rfl
  exact hfold _ _

variable [DecidableEq V]

/-- **What a turn does** to a search with the invariant: it drops an entry that is out of date, or
expands a vertex for the score it has. -/
theorem Inv.more_cases (hs : Inv P (fun _ => False) s) {s' : Search H K} (h : turn P s = .more s') :
    ∃ e q, H.pop s.queue = some (e, q) ∧ e.node ≠ P.target ∧
      (s.scoreOf P (P.key e.node) < P.wrap (e.cost - P.guess e.node) ∧ s' = { s with queue := q } ∨
        ∃ n : Nat, Scored P s e.node n ∧ e.cost = P.wrap (n + P.guess e.node) ∧
          s' = expand P e.node { s with queue := q }) := by
  obtain ⟨e, q, hpop, htarget, n, hn, ⟨hold, rfl⟩ | ⟨hcurrent, rfl⟩⟩ := turn_more hs.sane h
  · refine ⟨e, q, hpop, htarget, .inl ⟨?_, rfl⟩⟩
    rwa [Search.scoreOf_eq hn]
  · have hmem : e ∈ H.entries s.queue := (H.entries_pop _ _ _ hpop).mem_iff.2 List.mem_cons_self
    obtain ⟨m, hscored, hcost⟩ := hs.current hmem (by rwa [Search.scoreOf_eq hn])
    exact ⟨e, q, hpop, htarget, .inr ⟨m, hscored, hcost, rfl⟩⟩

theorem Inv.more (hs : Inv P (fun _ => False) s) (hapart : Apart P N) {s' : Search H K}
    (h : turn P s = .more s') (hlen : s'.expanded.length ≤ N) : Inv P (fun _ => False) s' := by
  obtain ⟨e, q, hpop, htarget, ⟨hold, rfl⟩ | ⟨n, hn, -, rfl⟩⟩ := hs.more_cases h
  · exact hs.dropped hpop hold
  · rw [expanded_expand] at hlen
    obtain ⟨-, hinv, hsame, hscored⟩ := Inv.foldl (motive := fun _ => True) hapart
      (fun _ _ _ _ _ _ _ _ _ => trivial) (fun _ hw => hw) (hs.expanding hpop htarget) hlen
      ⟨hn.score, hn.walk, Nat.le_succ_of_le hn.le⟩ (Nat.lt_succ_of_le hn.le) trivial
    refine hinv.settled hscored ⟨?_, ?_, ?_⟩
    · rw [hsame]
      exact List.mem_cons_self
    · rw [hsame]
      exact Nat.lt_succ_of_le hn.le
    · intro w hw
      exact scoreOf_foldl_relax (P.next e.node) (hs.sane.withQueue hpop _) hn.score hw

end Walks

/-! ## What a search finds -/

section Results

variable {V K : Type} {P : Problem V K} {H : Heap V} {s : Search H K} {N : Nat}

/-- The score of the neighbour of a closed vertex. -/
theorem Closed.scored (hs : Inv P (fun _ => False) s) (hapart : Apart P N)
    (hlen : s.expanded.length ≤ N) {u w : V} {k : Nat} (hu : Scored P s u k) (hclosed : Closed P s u k)
    (hw : w ∈ P.next u) (htop : (k : Int) + 1 < P.top) : ∃ m ≤ k + 1, Scored P s w m := by
  have hle := hclosed.next w hw
  have hscore := Search.score_of_lt (P := P) (s := s) (k := P.key w) (by omega)
  obtain ⟨m, hm, hscored⟩ := hs.scored_of_walk hapart hlen (.step hu.walk hw)
    (le_trans hclosed.lt hlen) hscore
  exact ⟨m, by omega, hscored⟩

/-- **The frontier**: a vertex reached in `i` steps is closed, or a vertex on the way to it is in the
queue for a walk that is no longer than the way. -/
theorem Inv.frontier (hs : Inv P (fun _ => False) s) (hapart : Apart P N)
    (hlen : s.expanded.length ≤ N) {i : Nat} {v : V} (hv : Walk P i v)
    (htop : ((min i N : Nat) : Int) < P.top) :
    (∃ k ≤ i, Scored P s v k ∧ Closed P s v k) ∨
      ∃ i' u k, i' ≤ i ∧ k ≤ i' ∧ Walk P i' u ∧ Scored P s u k ∧
        ⟨u, P.wrap (k + P.guess u)⟩ ∈ H.entries s.queue ∧ (i' = i → u = v) ∧
        ∀ dist : V → Nat, (∀ u, ∀ w ∈ P.next u, dist u ≤ dist w + 1) → i' + dist u ≤ i + dist v := by
  -- A vertex with a score is closed or queued itself.
  have hself : ∀ i v k, Walk P i v → k ≤ i → Scored P s v k →
      (∃ k ≤ i, Scored P s v k ∧ Closed P s v k) ∨
      ∃ i' u k, i' ≤ i ∧ k ≤ i' ∧ Walk P i' u ∧ Scored P s u k ∧
        ⟨u, P.wrap (k + P.guess u)⟩ ∈ H.entries s.queue ∧ (i' = i → u = v) ∧
        ∀ dist : V → Nat, (∀ u, ∀ w ∈ P.next u, dist u ≤ dist w + 1) →
          i' + dist u ≤ i + dist v := by
    intro i v k hv hk hscored
    rcases hs.pending v k hscored with hbusy | hclosed | hqueued
    · exact hbusy.elim
    · exact .inl ⟨k, hk, hscored, hclosed⟩
    · exact .inr ⟨i, v, k, le_refl _, hk, hv, hscored, hqueued, fun _ => rfl, fun _ _ => le_refl _⟩
  induction hv with
  | start => exact hself 0 _ 0 .start (le_refl _) ⟨hs.start, .start, Nat.zero_le _⟩
  | @step n u w hu hw ih =>
      rcases ih (by omega) with
        ⟨k, hk, hscored, hclosed⟩ | ⟨i', u', k, hi', hk, hwalk, hscored, hqueued, -, hdist⟩
      · obtain ⟨m, hm, hw'⟩ := hclosed.scored hs hapart hlen hscored hw (by have := hclosed.lt; omega)
        exact hself (n + 1) w m (.step hu hw) (by omega) hw'
      · refine .inr ⟨i', u', k, by omega, hk, hwalk, hscored, hqueued, fun h => by omega, ?_⟩
        intro dist hstep
        have hle := hdist dist hstep
        have hnext := hstep u w hw
        omega

section Back

variable [DecidableEq V]

/-- The way back ends, since the scores fall on it. -/
theorem exists_back (hs : Sane P s) (v : V) : ∃ n, (back P s.came n v).isSome := by
  suffices h : ∀ n v, (∀ m, s.score (P.key v) = some m → m.toNat < n) → 0 < n →
      (back P s.came n v).isSome from
    ⟨((s.score (P.key v)).getD 0).toNat + 1, h _ v (fun m hm => by simp [hm]) (Nat.succ_pos _)⟩
  intro n
  induction n with
  | zero => exact fun v _ h => absurd h (lt_irrefl _)
  | succ n ih =>
      intro v hm _
      rw [back_succ]
      split
      · rfl
      · split
        · rename_i u hu
          obtain ⟨m, m', hscore, hscore', hlt⟩ := hs.came _ _ hu
          have hpos := hs.scored _ _ hscore
          have hle := hm m' hscore'
          rw [Option.isSome_map]
          refine ih u (fun x hx => ?_) (by omega)
          cases hscore.symm.trans hx
          omega
        · rfl

theorem back_mono {came : K → Option V} {n m : Nat} (h : n ≤ m) {v : V} {l : List V}
    (hback : back P came n v = some l) : back P came m v = some l := by
  induction n generalizing m v l with
  | zero => cases hback
  | succ n ih =>
      obtain ⟨m, rfl⟩ := Nat.exists_eq_succ_of_ne_zero (Nat.ne_zero_of_lt h)
      rw [back_succ] at hback ⊢
      by_cases hstart : v = P.start
      · rwa [if_pos hstart] at hback ⊢
      · rw [if_neg hstart] at hback ⊢
        cases hu : came (P.key v) with
        | none =>
            rw [hu] at hback
            exact hback
        | some u =>
            rw [hu] at hback
            obtain ⟨l', hl', rfl⟩ := Option.map_eq_some_iff.1 hback
            simp only [ih (Nat.le_of_succ_le_succ h) hl', Option.map_some]

/-- **The way back** goes from edge to edge and ends at the start. -/
theorem isChain_back {busy : V → Prop} (hs : Inv P busy s) (hapart : Apart P N)
    (hlen : s.expanded.length ≤ N) {n k : Nat} {v : V} {l : List V} (hv : Scored P s v k)
    (h : back P s.came n v = some l) :
    List.IsChain (fun w u => w ∈ P.next u) (l ++ [P.start]) ∧ (l ++ [P.start]).head? = some v := by
  induction n generalizing v k l with
  | zero => cases h
  | succ n ih =>
      rw [back_succ] at h
      by_cases hstart : v = P.start
      · rw [if_pos hstart] at h
        cases h
        exact ⟨List.isChain_singleton _, by rw [hstart]; rfl⟩
      · rw [if_neg hstart] at h
        have hkey : P.key v ≠ P.key P.start := fun hkey =>
          hstart (hapart k 0 v P.start (le_trans hv.le hlen) (Nat.zero_le _) hv.walk .start hkey)
        obtain ⟨u, hu⟩ := Option.isSome_iff_exists.1
          (hs.behind _ (by rw [hv.score]; rfl) hkey)
        rw [hu] at h
        obtain ⟨l', hl', rfl⟩ := Option.map_eq_some_iff.1 h
        obtain ⟨v', m, n', hkey', hnext, hwalk, hle, hwalk', hle'⟩ := hs.came _ _ hu
        obtain rfl := hapart n' k v' v (le_trans hle hlen) (le_trans hv.le hlen) hwalk hv.walk hkey'
        obtain ⟨x, -, hscore, -, -⟩ := hs.sane.came _ _ hu
        obtain ⟨k', -, hscored⟩ := hs.scored_of_walk hapart hlen hwalk' (le_trans hle' hlen) hscore
        obtain ⟨hchain, hhead⟩ := ih hscored hl'
        refine ⟨?_, rfl⟩
        rw [List.cons_append, List.isChain_cons]
        refine ⟨fun y hy => ?_, hchain⟩
        rw [hhead, Option.mem_some_iff] at hy
        rwa [← hy]

end Back

variable [DecidableEq K] [DecidableEq V]

theorem length_expanded_more (hs : Sane P s) {s' : Search H K} (h : turn P s = .more s') :
    s.expanded.length ≤ s'.expanded.length := by
  obtain ⟨e, q, -, -, n, -, ⟨-, rfl⟩ | ⟨-, rfl⟩⟩ := turn_more hs h
  · exact le_refl _
  · rw [expanded_expand]
    exact Nat.le_succ _

/-- A search that ends within `N` expansions has the invariant at its last turn. -/
theorem run_inv (hapart : Apart P N) {n : Nat} {b : Bool} {t : Search H K}
    (hrun : run P n (init P H) = some (b, t)) (hlen : t.expanded.length ≤ N) :
    ∃ s, Inv P (fun _ => False) s ∧ s.expanded.length ≤ N ∧ t.expanded = s.expanded ∧
      turn P s = if b then .found t else .lost t := by
  obtain ⟨s, hs, hinv, hturn⟩ := run_induct
    (motive := fun s => s.expanded.length ≤ N → Inv P (fun _ => False) s)
    (fun s s' hs hinv hmore hle =>
      (hinv (le_trans (length_expanded_more hs hmore) hle)).more hapart hmore hle)
    sane_init (fun _ => inv_init) hrun
  have hsame : t.expanded = s.expanded := by
    rcases turn_ends hs hturn with ⟨-, -, rfl⟩ | ⟨-, e, q, -, -, rfl⟩
    · rfl
    · rfl
  rw [hsame] at hlen
  exact ⟨s, hinv hlen, hlen, hsame, hturn⟩

/-- **What is found** is reached, and the way back from it leads to the start. -/
theorem chain_of_found (hapart : ∀ N, Apart P N) {n : Nat} {t : Search H K}
    (hrun : run P n (init P H) = some (true, t)) {m : Nat} {l : List V}
    (hback : back P t.came m P.target = some l) :
    List.IsChain (fun w u => w ∈ P.next u) (l ++ [P.start]) ∧
      (l ++ [P.start]).head? = some P.target := by
  obtain ⟨s, hinv, hlen, -, hturn⟩ := run_inv (hapart t.expanded.length) hrun (le_refl _)
  rcases turn_ends hinv.sane hturn with ⟨hfalse, -, -⟩ | ⟨-, e, q, hpop, hnode, rfl⟩
  · cases hfalse
  · have hmem : e ∈ H.entries s.queue := (H.entries_pop _ _ _ hpop).mem_iff.2 List.mem_cons_self
    obtain ⟨k, hk, hwalk, hle, -, hscore⟩ := hinv.entry e hmem
    rw [hnode] at hwalk hscore
    obtain ⟨x, -, hscored⟩ := hinv.scored_of_walk (hapart _) hlen hwalk (le_trans hle hlen)
      (Search.score_of_lt (P := P) (by omega))
    exact isChain_back hinv (hapart _) hlen hscored hback

/-- **What is not found** has no walk below the largest score. -/
theorem not_walk_of_lost (hapart : ∀ N, Apart P N) {n : Nat} {t : Search H K}
    (hrun : run P n (init P H) = some (false, t)) {m : Nat} (hwalk : Walk P m P.target) :
    P.top ≤ m := by
  by_contra hlt
  obtain ⟨s, hinv, hlen, -, hturn⟩ := run_inv (hapart t.expanded.length) hrun (le_refl _)
  rcases turn_ends hinv.sane hturn with ⟨-, hempty, -⟩ | ⟨htrue, -⟩
  · rcases hinv.frontier (hapart _) hlen hwalk (by omega) with
      ⟨k, -, -, hclosed⟩ | ⟨i', u, k, -, -, -, -, hmem, -, -⟩
    · exact hinv.spared hclosed.expanded
    · rw [hempty] at hmem
      cases hmem
  · cases htrue

end Results

end BestFirst
