import Apoptotic.Player.Pathfinding

/-!
# The path cache

Runs of `find_path` between changes of the world.  Paths are stored under the chunks of their query, and
neither the positions in them nor the blocks are looked at again.

Principal results: `validPath_of_aStar` — a path that is found leads from cell to cell over passable ones;
`answers_law` — after every run, a query that is not answered with another query's path has the answer it
has with an empty cache.
-/

open BestFirst

namespace Apoptotic.Pathfind

open Redstone (World)

/-! ## Valid paths -/

/-- The waypoints are the centres of passable cells, each next to the one before, from the start's cell to
the target's. -/
def ValidPath (w : World) (start target : Point) (path : List Point) : Prop :=
  ∃ cells : List Cell, path = cells.map (waypoint target.y) ∧
    List.IsChain (fun c d => d ∈ neighbours c) (cellOf start :: cells) ∧
      (cellOf start :: cells).getLast? = some (cellOf target) ∧
        ∀ c ∈ cells, passable w start.y c = true

/-- The cells that can be walked to have node keys of their own. -/
def DistinctKeys (w : World) (start target : Point) : Prop := ∀ N, Apart (problem w start target) N

/-- No walk that a score can count leads to the target. -/
def Unreachable (w : World) (start target : Point) : Prop :=
  ∀ n, Walk (problem w start target) n (cellOf target) → 2147483647 ≤ n

section Paths

variable {H : Heap Cell} {fuel : Nat} {w : World} {start target : Point} {expanded : List Cell}

theorem passable_of_isChain {c : Cell} {cells : List Cell}
    (h : List.IsChain (fun c d => d ∈ (problem w start target).next c) (c :: cells)) :
    ∀ d ∈ cells, passable w start.y d = true := by
  induction cells generalizing c with
  | nil => exact fun d hd => absurd hd List.not_mem_nil
  | cons c' cells ih =>
      rw [List.isChain_cons_cons] at h
      intro d hd
      rcases List.mem_cons.1 hd with rfl | hd
      · exact List.of_mem_filter h.1
      · exact ih h.2 d hd

/-- **A path that is found** is valid where the cells have keys of their own. -/
theorem validPath_of_aStar (hkeys : DistinctKeys w start target) {path : List Point}
    (h : aStar H fuel w start target = some (some path, expanded)) :
    ValidPath w start target path := by
  obtain ⟨found, s, hrun, -, ⟨-, hnone⟩ | ⟨rfl, cells, hback, hpath⟩⟩ := aStar_eq_some.1 h
  · cases hnone
  · obtain ⟨hchain, hhead⟩ := chain_of_found hkeys hrun hback
    have hreverse : (cells ++ [cellOf start]).reverse = cellOf start :: cells.reverse := by simp
    have hforward : List.IsChain (fun c d => d ∈ (problem w start target).next c)
        (cellOf start :: cells.reverse) := by
      rw [← hreverse, List.isChain_reverse]
      exact hchain
    refine ⟨cells.reverse, Option.some.inj hpath, ?_, ?_, passable_of_isChain hforward⟩
    · exact hforward.imp fun _ _ hnext => List.mem_of_mem_filter hnext
    · rw [← hreverse, List.getLast?_reverse]
      exact hhead

theorem unreachable_of_aStar (hkeys : DistinctKeys w start target)
    (h : aStar H fuel w start target = some (none, expanded)) : Unreachable w start target := by
  obtain ⟨found, s, hrun, -, ⟨rfl, -⟩ | ⟨-, path, -, hsome⟩⟩ := aStar_eq_some.1 h
  · intro n hn
    have htop : (2147483647 : Int) ≤ n := not_walk_of_lost hkeys hrun hn
    omega
  · cases hsome

end Paths

/-! ## What is stored -/

section Store

variable {iter : Iteration} {cache : Cache} {key k : CacheKey} {e : List Point × BitVec 64}

theorem lookup_of_erase (h : (cache.erase key).lookup k = some e) : cache.lookup k = some e := by
  by_cases hk : k = key
  · rw [hk, AList.lookup_erase] at h
    cases h
  · rwa [AList.lookup_erase_ne hk] at h

theorem lookup_of_evictOldest (h : (evictOldest iter cache).lookup k = some e) :
    cache.lookup k = some e := by
  unfold evictOldest at h
  split at h
  · exact lookup_of_erase h
  · exact h

theorem lookup_of_cleanup (h : (cleanup iter key cache).lookup k = some e) : cache.lookup k = some e := by
  unfold cleanup at h
  generalize ((((iter.entries cache).filter fun e => e.1 ≠ key).take 8).map Sigma.fst) = keys at h
  induction keys generalizing cache with
  | nil => exact h
  | cons k' keys ih => exact lookup_of_erase (ih h)

theorem lookup_of_insert {path : List Point} {count : BitVec 64}
    (h : (cache.insert key (path, count)).lookup k = some e) :
    k = key ∧ e.1 = path ∨ k ≠ key ∧ cache.lookup k = some e := by
  by_cases hk : k = key
  · subst hk
    rw [AList.lookup_insert, Option.some.injEq] at h
    exact .inl ⟨rfl, by rw [← h]⟩
  · rw [AList.lookup_insert_ne hk] at h
    exact .inr ⟨hk, h⟩

/-- **What `store` leaves**: the new path under its key, and entries that were there. -/
theorem lookup_of_store {waypoints : List Point} {attempts : Nat}
    (h : (store iter key waypoints attempts cache).lookup k = some e) :
    k = key ∧ e.1 = waypoints ∨ k ≠ key ∧ cache.lookup k = some e := by
  induction attempts generalizing cache with
  | zero =>
      unfold store at h
      dsimp only at h
      split at h
      · exact lookup_of_insert h
      · split at h
        · exact (lookup_of_insert h).imp_right fun h => ⟨h.1, lookup_of_evictOldest h.2⟩
        · exact (lookup_of_insert (lookup_of_cleanup h)).imp_right fun h =>
            ⟨h.1, lookup_of_evictOldest h.2⟩
  | succ attempts ih =>
      unfold store at h
      dsimp only at h
      split at h
      · exact lookup_of_insert h
      · split at h
        · exact (lookup_of_insert h).imp_right fun h => ⟨h.1, lookup_of_evictOldest h.2⟩
        · rcases ih h with hnew | ⟨hk, hold⟩
          · exact .inl hnew
          · exact (lookup_of_insert hold).imp_right fun h => ⟨h.1, lookup_of_evictOldest h.2⟩

end Store

/-! ## Answers -/

structure Query where
  world : World
  start : Point
  target : Point

/-- The key that a query is stored under. -/
def keyOf (start target : Point) : CacheKey := cacheKey (cellOf start) (cellOf target)

section Answers

variable {H : Heap Cell} {iter : Iteration} {fuel : Nat} {cache : Cache} {w : World}
  {start target : Point} {r : Outcome}

/-- **What a call can answer**: the target itself, the path of an entry, or what the search gives. -/
theorem findPath_cases (h : findPath H iter fuel cache w start target = some r) :
    (isNear (cellOf start) (cellOf target) ∨ isFar (cellOf start) (cellOf target)) ∧
        r.path = [target] ∧ r.cache = cache ∨
      ¬ isNear (cellOf start) (cellOf target) ∧ ¬ isFar (cellOf start) (cellOf target) ∧
        ((∃ e, cache.lookup (keyOf start target) = some e ∧ r.path = e.1 ∧
            r.cache = cache.insert (keyOf start target) (e.1, e.2 + 1#64)) ∨
          cache.lookup (keyOf start target) = none ∧ ∃ expanded,
            (aStar H fuel w start target = some (none, expanded) ∧ r.path = [target] ∧ r.cache = cache ∨
              aStar H fuel w start target = some (some r.path, expanded) ∧
                (r.cache = cache ∨ r.cache = store iter (keyOf start target) r.path 3 cache))) := by
  by_cases hdirect : isNear (cellOf start) (cellOf target) ∨ isFar (cellOf start) (cellOf target)
  · rw [findPath_direct H iter fuel cache w start target hdirect] at h
    cases h
    exact .inl ⟨hdirect, rfl, rfl⟩
  · obtain ⟨hnear, hfar⟩ := not_or.1 hdirect
    refine .inr ⟨hnear, hfar, ?_⟩
    cases hlookup : cache.lookup (keyOf start target) with
    | some e =>
        rw [findPath_hit H iter fuel cache w start target hnear hfar hlookup] at h
        cases h
        exact .inl ⟨e, rfl, rfl, rfl⟩
    | none =>
        rw [findPath_miss H iter fuel cache w start target hnear hfar hlookup] at h
        obtain ⟨⟨path, expanded⟩, haStar, heq⟩ := Option.map_eq_some_iff.1 h
        refine .inr ⟨rfl, expanded, ?_⟩
        cases path with
        | none =>
            cases heq
            exact .inl ⟨haStar, rfl, rfl⟩
        | some waypoints =>
            cases heq
            refine .inr ⟨haStar, ?_⟩
            dsimp only
            split
            · exact .inl rfl
            · exact .inr rfl

/-- The answer with an empty cache. -/
def FreshAnswer (H : Heap Cell) (iter : Iteration) (w : World) (start target : Point) (path : List Point) :
    Prop :=
  ∃ fuel r, findPath H iter fuel ∅ w start target = some r ∧ r.path = path

theorem freshAnswer_direct
    (h : isNear (cellOf start) (cellOf target) ∨ isFar (cellOf start) (cellOf target)) :
    FreshAnswer H iter w start target [target] :=
  ⟨0, _, findPath_direct H iter 0 ∅ w start target h, rfl⟩

theorem freshAnswer_of_aStar (hnear : ¬ isNear (cellOf start) (cellOf target))
    (hfar : ¬ isFar (cellOf start) (cellOf target)) {path : Option (List Point)} {expanded : List Cell}
    (h : aStar H fuel w start target = some (path, expanded)) :
    FreshAnswer H iter w start target (path.getD [target]) := by
  have hmiss := findPath_miss H iter fuel ∅ w start target hnear hfar (AList.lookup_empty _)
  rw [h, Option.map_some] at hmiss
  cases path with
  | none => exact ⟨fuel, _, hmiss, rfl⟩
  | some waypoints => exact ⟨fuel, _, hmiss, rfl⟩

end Answers

/-! ## Runs -/

/-- The world, the cache, and of each key the query that was last searched for under it. -/
structure State where
  world : World
  cache : Cache
  source : CacheKey → Option Query

/-- The world changes, or a path is asked for. -/
inductive Action where
  | change (world : World)
  | query (start target : Point) (fuel : Nat)

def State.begin (w : World) : State := ⟨w, ∅, fun _ => none⟩

/-- One action.  A query without the fuel for it is none. -/
def State.step (H : Heap Cell) (iter : Iteration) (s : State) : Action → State
  | .change world => { s with world := world }
  | .query start target fuel =>
      match findPath H iter fuel s.cache s.world start target with
      | none => s
      | some r =>
          { s with
            cache := r.cache
            source :=
              if (s.cache.lookup (keyOf start target)).isSome then s.source
              else Function.update s.source (keyOf start target) (some ⟨s.world, start, target⟩) }

/-- The path under a key is what the query it is the source of found in its world. -/
def State.Sourced (H : Heap Cell) (s : State) : Prop :=
  ∀ key e, s.cache.lookup key = some e → ∃ q, s.source key = some q ∧
    ∃ fuel expanded, aStar H fuel q.world q.start q.target = some (some e.1, expanded)

section Runs

variable {H : Heap Cell} {iter : Iteration} {s : State}

theorem sourced_begin (w : World) : (State.begin w).Sourced H := by
  intro key e h
  cases h

/-- **One action keeps** the entries those of their sources. -/
theorem State.Sourced.step (h : s.Sourced H) (a : Action) : (s.step H iter a).Sourced H := by
  cases a with
  | change world => exact h
  | query start target fuel =>
      unfold State.step
      dsimp only
      cases hr : findPath H iter fuel s.cache s.world start target with
      | none => exact h
      | some r =>
          intro key e he
          dsimp only at he ⊢
          -- An entry that was there keeps its source, since sources change on a miss only.
          have hold : ∀ e', s.cache.lookup key = some e' → e'.1 = e.1 → ∃ q,
              (if (s.cache.lookup (keyOf start target)).isSome then s.source
                else Function.update s.source (keyOf start target) (some ⟨s.world, start, target⟩)) key =
                  some q ∧
                ∃ fuel expanded, aStar H fuel q.world q.start q.target = some (some e.1, expanded) := by
            intro e' he' hpath
            obtain ⟨q, hq, hfound⟩ := h key e' he'
            rw [hpath] at hfound
            refine ⟨q, ?_, hfound⟩
            split
            · exact hq
            · rename_i hmiss
              rw [Function.update_of_ne, hq]
              rintro rfl
              rw [he'] at hmiss
              exact hmiss rfl
          rcases findPath_cases hr with ⟨-, -, hcache⟩ | ⟨-, -, ⟨e', he', -, hcache⟩ | ⟨hmiss, expanded,
            ⟨-, -, hcache⟩ | ⟨haStar, hcache | hcache⟩⟩⟩
          · rw [hcache] at he
            exact hold e he rfl
          · rw [hcache] at he
            rcases lookup_of_insert he with ⟨rfl, hpath⟩ | ⟨-, he⟩
            · exact hold e' he' hpath.symm
            · exact hold e he rfl
          · rw [hcache] at he
            exact hold e he rfl
          · rw [hcache] at he
            exact hold e he rfl
          · rw [hcache] at he
            rcases lookup_of_store he with ⟨rfl, hpath⟩ | ⟨-, he⟩
            · refine ⟨⟨s.world, start, target⟩, ?_, fuel, expanded, by rw [hpath]; exact haStar⟩
              rw [hmiss, if_neg (by decide), Function.update_self]
            · exact hold e he rfl

/-- **Every run keeps** the entries those of their sources. -/
theorem sourced_run (w : World) (actions : List Action) :
    (actions.foldl (State.step H iter) (State.begin w)).Sourced H := by
  suffices h : ∀ s : State, s.Sourced H → (actions.foldl (State.step H iter) s).Sourced H from
    h _ (sourced_begin w)
  induction actions with
  | nil => exact fun s hs => hs
  | cons a actions ih => exact fun s hs => ih _ (hs.step a)

end Runs

/-! ## The law -/

/-- A query that the cache answers is answered with the path that it found itself, in this world. -/
def Own (s : State) (start target : Point) : Prop :=
  ∀ e, s.cache.lookup (keyOf start target) = some e →
    s.source (keyOf start target) = some ⟨s.world, start, target⟩

/-- The target is chased directly where it is near or far.  An answer of one's own is the one that an
empty cache gives; it is a valid path, or the target itself where no walk leads to it. -/
structure Lawful (H : Heap Cell) (iter : Iteration) (s : State) (start target : Point)
    (path : List Point) : Prop where
  direct : isNear (cellOf start) (cellOf target) ∨ isFar (cellOf start) (cellOf target) → path = [target]
  alone : Own s start target → FreshAnswer H iter s.world start target path
  valid : Own s start target → ¬ isNear (cellOf start) (cellOf target) →
    ¬ isFar (cellOf start) (cellOf target) → DistinctKeys s.world start target →
      path = [target] ∧ Unreachable s.world start target ∨ ValidPath s.world start target path

theorem State.Sourced.lawful {H : Heap Cell} {iter : Iteration} {s : State} (hs : s.Sourced H)
    {start target : Point} {fuel : Nat} {r : Outcome}
    (hr : findPath H iter fuel s.cache s.world start target = some r) :
    Lawful H iter s start target r.path := by
  rcases findPath_cases hr with ⟨hdirect, hpath, -⟩ | ⟨hnear, hfar, ⟨e, he, hpath, -⟩ | ⟨-, expanded,
    ⟨haStar, hpath, -⟩ | ⟨haStar, -⟩⟩⟩
  · rw [hpath]
    refine ⟨fun _ => rfl, fun _ => freshAnswer_direct hdirect, fun _ hnear hfar _ => ?_⟩
    exact absurd hdirect (not_or.2 ⟨hnear, hfar⟩)
  · -- The entry's source is this query, so the search gives the same path.
    have hfound : Own s start target →
        ∃ fuel expanded, aStar H fuel s.world start target = some (some r.path, expanded) := by
      intro hown
      obtain ⟨q, hq, hfound⟩ := hs _ e he
      cases (hown e he).symm.trans hq
      rwa [hpath]
    refine ⟨fun hdirect => absurd hdirect (not_or.2 ⟨hnear, hfar⟩), fun hown => ?_,
      fun hown _ _ hkeys => ?_⟩
    · obtain ⟨fuel, expanded, haStar⟩ := hfound hown
      exact freshAnswer_of_aStar hnear hfar haStar
    · obtain ⟨fuel, expanded, haStar⟩ := hfound hown
      exact .inr (validPath_of_aStar hkeys haStar)
  · rw [hpath]
    exact ⟨fun _ => rfl, fun _ => freshAnswer_of_aStar hnear hfar haStar,
      fun _ _ _ hkeys => .inl ⟨rfl, unreachable_of_aStar hkeys haStar⟩⟩
  · exact ⟨fun hdirect => absurd hdirect (not_or.2 ⟨hnear, hfar⟩),
      fun _ => freshAnswer_of_aStar hnear hfar haStar,
      fun _ _ _ hkeys => .inr (validPath_of_aStar hkeys haStar)⟩

/-- **The answers**: after any run of queries and changes of the world, a query is answered, and its
answer is lawful. -/
theorem answers_law (H : Heap Cell) (iter : Iteration) (w : World) (actions : List Action)
    (start target : Point) :
    (∃ fuel, (findPath H iter fuel (actions.foldl (State.step H iter) (State.begin w)).cache
      (actions.foldl (State.step H iter) (State.begin w)).world start target).isSome) ∧
      ∀ fuel r, findPath H iter fuel (actions.foldl (State.step H iter) (State.begin w)).cache
        (actions.foldl (State.step H iter) (State.begin w)).world start target = some r →
          Lawful H iter (actions.foldl (State.step H iter) (State.begin w)) start target r.path :=
  ⟨exists_findPath H iter _ _ start target, fun _ _ hr => (sourced_run w actions).lawful hr⟩

theorem waypoint_injective (y : ERat) : Function.Injective (waypoint y) := by
  intro c d h
  injection h with hx _ hz
  have hx' := ERat.finite.inj hx
  have hz' := ERat.finite.inj hz
  apply Cell.ext <;> apply BitVec.eq_of_toInt_eq
  · exact_mod_cast add_right_cancel hx'
  · exact_mod_cast add_right_cancel hz'

/-- A player in the middle of a cell a hundred blocks away. -/
def farTarget : Point := waypoint (.finite 64) ⟨100#32, 0#32⟩

theorem x_farTarget : (cellOf farTarget).x = 100#32 := by
  have hfloor : ⌊((100#32).toInt + 1 / 2 : ℚ)⌋ = 100 := by
    rw [show (100#32).toInt = 100 from rfl, Int.floor_eq_iff]
    norm_num
  change BitVec.ofInt 32 (saturate (if (0 : ℚ) ≤ (100#32).toInt + 1 / 2 then
    ⌊((100#32).toInt + 1 / 2 : ℚ)⌋ else ⌈((100#32).toInt + 1 / 2 : ℚ)⌉)) = 100#32
  rw [if_pos, hfloor]
  · rfl
  · rw [show (100#32).toInt = 100 from rfl]
    norm_num

/-- The player is chased directly, which is not a path from cell to cell. -/
theorem far_chased :
    (∃ r, findPath (Heap.deferring (cellOf farTarget)) inOrder 0 ∅ pillarWorld pillarStart farTarget =
        some r ∧ r.path = [farTarget]) ∧
      ¬ ValidPath pillarWorld pillarStart farTarget [farTarget] := by
  have hfar : isFar (cellOf pillarStart) (cellOf farTarget) := by
    refine .inl ?_
    rw [x_farTarget]
    decide
  refine ⟨⟨_, findPath_direct _ inOrder 0 ∅ pillarWorld pillarStart farTarget (.inr hfar), rfl⟩, ?_⟩
  rintro ⟨cells, hpath, hchain, -, -⟩
  obtain ⟨c, rest, rfl, hc, -⟩ := List.map_eq_cons_iff.1 hpath.symm
  rw [List.isChain_cons_cons] at hchain
  have hcell : c = ⟨100#32, 0#32⟩ := waypoint_injective _ hc
  rw [hcell] at hchain
  exact absurd hchain.1 (by decide)

end Apoptotic.Pathfind
