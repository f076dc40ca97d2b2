import Apoptotic.World.ChunkStore
import Mathlib.Data.List.AList

/-!
# The counter of the chunk store

The operations of `ChunkStore` of `mc-world/src/chunk_store.rs`, each from start to end.  A sweep
over the map visits its entries in any order, and a write to disk may fail.  Beside the store, two
flags tell whether the counter was ever decremented at zero and whether an insert ever left more
than `max_chunks` chunks; no operation reads them.

Principal result: `along_exact_iff` — the counter is the number of chunks, and the limit holds after
every insert, exactly along the runs that only get chunks that are there and unload none.
-/

namespace Apoptotic.ChunkCounter

open ChunkStore (Entry)

variable {α : Type}

structure Store (α : Type) where
  chunks : AList fun _ : ChunkPos => Entry α
  count : BitVec 64
  underflowed : Bool
  overfull : Bool

/-- What the environment chooses: the order of a sweep, and which chunks can be written. -/
structure Env where
  visit : List ChunkPos → List ChunkPos
  visit_perm : ∀ keys, (visit keys).Perm keys
  saves : ChunkPos → Bool

namespace Store

variable (s : Store α) (env : Env)

def new : Store α := ⟨∅, 0#64, false, false⟩

/-- The number of chunks in the map. -/
def size : Nat := s.chunks.keys.length

def dirtyAt (key : ChunkPos) : Bool := (s.chunks.lookup key).any Entry.dirty

/-- `sort_unstable_by_key` on the LRU order. -/
def byLru (keys : List ChunkPos) : List ChunkPos :=
  let lru key := ((s.chunks.lookup key).map Entry.lruOrder).getD (2 ^ 64 - 1)
  keys.mergeSort fun a b => lru a ≤ lru b

/-- The clean or the dirty chunks, the least recently used first. -/
def candidates (dirty : Bool) : List ChunkPos :=
  s.byLru ((env.visit s.chunks.keys).filter fun key => s.dirtyAt key == dirty)

/-- `if self.chunks.insert(pos, chunk).is_none() { self.count.fetch_add(1, ..); }` -/
def put (pos : ChunkPos) (chunk : Entry α) : Store α :=
  { s with
    chunks := s.chunks.insert pos chunk
    count := if pos ∈ s.chunks then s.count else s.count + 1#64 }

/-- `if self.chunks.remove(key).is_some() { self.count.fetch_sub(1, ..); }` -/
def evict (key : ChunkPos) : Store α :=
  if key ∈ s.chunks then
    { s with
      chunks := s.chunks.erase key
      count := s.count - 1#64
      underflowed := s.underflowed || decide (s.count = 0#64) }
  else s

/-- `self.chunks.remove(key)` -/
def drop (key : ChunkPos) : Store α := { s with chunks := s.chunks.erase key }

/-- The number of chunks that were written before they were evicted. -/
def flushDirtyLru (count : Nat) : Nat × Store α :=
  let candidates := s.candidates env true
  let n := min count candidates.length
  (candidates.take n).foldl
    (fun r key => (if key ∈ r.2.chunks ∧ env.saves key then r.1 + 1 else r.1, r.2.evict key))
    (0, s)

def evictLru (count : Nat) : Store α :=
  -- clean chunks first
  let candidates := s.candidates env false
  let cleanN := min count candidates.length
  let s := (candidates.take cleanN).foldl evict s
  let remaining := count - cleanN
  if 0 < remaining then (s.flushDirtyLru env remaining).2 else s

def insert (maxChunks : Nat) (pos : ChunkPos) (chunk : Entry α) : Store α :=
  let s := s.put pos chunk
  let current := s.count.toNat
  let s := if maxChunks < current then s.evictLru env (current - maxChunks) else s
  { s with overfull := s.overfull || decide (maxChunks < s.size) }

/-- The chunks that are not loaded are all made before the first is inserted. -/
def generateParallel (maxChunks : Nat) (envs : Nat → Env) (make : ChunkPos → Entry α)
    (positions : List ChunkPos) : Nat × Store α :=
  let generated := positions.filterMap fun pos =>
    if pos ∈ s.chunks then none else some (pos, make pos)
  (generated.length,
    generated.zipIdx.foldl (fun s e => s.insert (envs e.2) maxChunks e.1.1 e.1.2) s)

def getOrLoad (blank : ChunkPos → Entry α) (pos : ChunkPos) : Store α :=
  if pos ∈ s.chunks then s else { s with chunks := s.chunks.insert pos (blank pos) }

def unloadDistant (keep : List ChunkPos) : Store α :=
  ((env.visit s.chunks.keys).filter fun key => decide (key ∉ keep)).foldl drop s

end Store

/-! ## Runs -/

inductive Action (α : Type) where
  | insert (env : Env) (pos : ChunkPos) (chunk : Entry α)
  /-- A chunk comes from disk or from the generator. -/
  | generateParallel (envs : Nat → Env) (make : ChunkPos → Entry α) (positions : List ChunkPos)
  | getOrLoad (blank : ChunkPos → Entry α) (pos : ChunkPos)
  | remove (pos : ChunkPos)
  | unloadDistant (env : Env) (keep : List ChunkPos)
  | evictLru (env : Env) (count : Nat)
  | flushDirtyLru (env : Env) (count : Nat)

namespace Store

def step (maxChunks : Nat) (s : Store α) : Action α → Store α
  | .insert env pos chunk => s.insert env maxChunks pos chunk
  | .generateParallel envs make positions => (s.generateParallel maxChunks envs make positions).2
  | .getOrLoad blank pos => s.getOrLoad blank pos
  | .remove pos => s.drop pos
  | .unloadDistant env keep => s.unloadDistant env keep
  | .evictLru env count => s.evictLru env count
  | .flushDirtyLru env count => (s.flushDirtyLru env count).2

/-- **The counter is the number of chunks, it never underflowed, and no insert left too many.** -/
structure Exact (s : Store α) : Prop where
  count : s.count.toNat = s.size
  underflowed : s.underflowed = false
  overfull : s.overfull = false

/-- Only chunks that are there are got, and none is unloaded. -/
def Balanced (s : Store α) : Action α → Prop
  | .getOrLoad _ pos => pos ∈ s.chunks
  | .remove pos => pos ∉ s.chunks
  | .unloadDistant _ keep => ∀ pos ∈ s.chunks, pos ∈ keep
  | _ => True

/-! ## Removals -/

variable {s : Store α} {env : Env}

theorem size_erase {key : ChunkPos} (h : key ∈ s.chunks) :
    (s.chunks.erase key).keys.length + 1 = s.size := by
  have hpos : 0 < s.size := List.length_pos_of_mem h
  rw [AList.keys_erase, List.length_erase_of_mem h]
  exact Nat.sub_add_cancel hpos

/-- One chunk less, and the counter knows. -/
theorem exact_evict (hs : s.Exact) {key : ChunkPos} (h : key ∈ s.chunks) :
    (s.evict key).Exact ∧ (s.evict key).size + 1 = s.size := by
  have hsize := size_erase h
  have hcount := hs.count
  unfold evict
  rw [if_pos h]
  refine ⟨⟨?_, ?_, hs.overfull⟩, hsize⟩
  · change (s.count - 1#64).toNat = (s.chunks.erase key).keys.length
    rw [BitVec.toNat_sub_of_le (by rw [BitVec.le_def]; change 1 ≤ _; omega), hcount]
    change _ - 1 = _
    omega
  · change (s.underflowed || decide (s.count = 0#64)) = false
    have hne : s.count ≠ 0#64 := by
      intro hzero
      rw [hzero] at hcount
      change 0 = _ at hcount
      omega
    rw [hs.underflowed, decide_eq_false hne]
    rfl

theorem lookup_evict {key : ChunkPos} (h : key ∈ s.chunks) (k : ChunkPos) :
    (s.evict key).chunks.lookup k = if k = key then none else s.chunks.lookup k := by
  unfold evict
  rw [if_pos h]
  by_cases hk : k = key
  · rw [if_pos hk, hk]
    exact AList.lookup_erase key s.chunks
  · rw [if_neg hk]
    exact AList.lookup_erase_ne hk

/-- Evicting different chunks that are there, one after another. -/
theorem exact_foldl_evict {keys : List ChunkPos} (hs : s.Exact) (hnodup : keys.Nodup)
    (hkeys : ∀ key ∈ keys, key ∈ s.chunks) :
    (keys.foldl evict s).Exact ∧ (keys.foldl evict s).size + keys.length = s.size ∧
      ∀ k, (keys.foldl evict s).chunks.lookup k =
        if k ∈ keys then none else s.chunks.lookup k := by
  induction keys generalizing s with
  | nil => exact ⟨hs, rfl, fun k => (if_neg List.not_mem_nil).symm⟩
  | cons key keys ih =>
      have hkey := hkeys key List.mem_cons_self
      obtain ⟨hexact, hsize⟩ := exact_evict hs hkey
      have hlookup := lookup_evict hkey
      obtain ⟨hnot, hnodup⟩ := List.nodup_cons.1 hnodup
      have hrest : ∀ k ∈ keys, k ∈ (s.evict key).chunks := by
        intro k hk
        have hne : k ≠ key := fun h => hnot (h ▸ hk)
        rw [← AList.lookup_isSome, hlookup, if_neg hne, AList.lookup_isSome]
        exact hkeys k (List.mem_cons_of_mem key hk)
      obtain ⟨hexact', hsize', hlookup'⟩ := ih hexact hnodup hrest
      refine ⟨hexact', ?_, fun k => ?_⟩
      · rw [List.foldl_cons, List.length_cons]
        omega
      · rw [List.foldl_cons, hlookup', hlookup]
        by_cases hk : k = key
        · simp [hk]
        · simp [hk]

/-! ## Sweeps -/

theorem perm_candidates (dirty : Bool) :
    (s.candidates env dirty).Perm
      ((env.visit s.chunks.keys).filter fun key => s.dirtyAt key == dirty) :=
  List.mergeSort_perm ..

/-- The candidates of a sweep are different chunks that are there. -/
theorem nodup_candidates (dirty : Bool) : (s.candidates env dirty).Nodup := by
  rw [(perm_candidates dirty).nodup_iff]
  exact ((env.visit_perm _).nodup_iff.2 s.chunks.keys_nodup).filter _

theorem mem_candidates {dirty : Bool} {key : ChunkPos} :
    key ∈ s.candidates env dirty ↔ key ∈ s.chunks ∧ s.dirtyAt key = dirty := by
  rw [(perm_candidates dirty).mem_iff, List.mem_filter, (env.visit_perm _).mem_iff, beq_iff_eq]
  rfl

/-- Evicting the first candidates of a sweep. -/
theorem exact_evict_take (hs : s.Exact) (env : Env) (dirty : Bool) (n : Nat) :
    (((s.candidates env dirty).take n).foldl evict s).Exact ∧
      (((s.candidates env dirty).take n).foldl evict s).size +
        min n (s.candidates env dirty).length = s.size ∧
      ∀ k, (((s.candidates env dirty).take n).foldl evict s).chunks.lookup k =
        if k ∈ (s.candidates env dirty).take n then none else s.chunks.lookup k := by
  have hsub := List.take_sublist n (s.candidates env dirty)
  have hspec := exact_foldl_evict hs ((nodup_candidates dirty).sublist hsub)
    fun key hkey => (mem_candidates.1 (hsub.subset hkey)).1
  rw [List.length_take] at hspec
  exact hspec

theorem flushDirtyLru_snd (env : Env) (s : Store α) (count : Nat) :
    (s.flushDirtyLru env count).2 =
      ((s.candidates env true).take (min count (s.candidates env true).length)).foldl evict s := by
  have hfold : ∀ (keys : List ChunkPos) (r : Nat × Store α),
      (keys.foldl (fun r key =>
        (if key ∈ r.2.chunks ∧ env.saves key then r.1 + 1 else r.1, r.2.evict key)) r).2 =
        keys.foldl evict r.2 := by
    intro keys
    induction keys with
    | nil => exact fun _ => rfl
    | cons key keys ih => exact fun r => ih _
  exact hfold _ (0, s)

/-- Dirty chunks are evicted as long as there are some. -/
theorem exact_flushDirtyLru (hs : s.Exact) (env : Env) (count : Nat) :
    (s.flushDirtyLru env count).2.Exact ∧ (s.flushDirtyLru env count).2.size ≤ s.size ∧
      ((∀ key ∈ s.chunks, s.dirtyAt key = true) →
        (s.flushDirtyLru env count).2.size = s.size - count) := by
  obtain ⟨hexact, hsize, -⟩ :=
    exact_evict_take hs env true (min count (s.candidates env true).length)
  rw [flushDirtyLru_snd]
  refine ⟨hexact, by omega, fun hdirty => ?_⟩
  have hall : (s.candidates env true).length = s.size := by
    rw [(perm_candidates true).length_eq, List.filter_eq_self.2, (env.visit_perm _).length_eq]
    · rfl
    · intro key hkey
      rw [hdirty key ((env.visit_perm _).mem_iff.1 hkey)]
      rfl
  rw [hall] at hsize ⊢
  omega

/-- **Eviction takes exactly as many chunks as asked, while there are some.** -/
theorem exact_evictLru (hs : s.Exact) (env : Env) (count : Nat) :
    (s.evictLru env count).Exact ∧ (s.evictLru env count).size = s.size - count := by
  obtain ⟨hexact, hsize, hlookup⟩ :=
    exact_evict_take hs env false (min count (s.candidates env false).length)
  unfold evictLru
  dsimp only
  by_cases hremaining : 0 < count - min count (s.candidates env false).length
  · rw [if_pos hremaining]
    -- the clean chunks were too few, so those left are dirty
    have hall : min count (s.candidates env false).length = (s.candidates env false).length := by
      omega
    rw [hall, List.take_length] at hexact hsize hlookup ⊢
    obtain ⟨hexact', -, hsize'⟩ :=
      exact_flushDirtyLru hexact env (count - (s.candidates env false).length)
    refine ⟨hexact', (hsize' ?_).trans (by omega)⟩
    intro key hkey
    rw [← AList.lookup_isSome] at hkey
    unfold dirtyAt
    rw [hlookup] at hkey ⊢
    by_cases hclean : key ∈ s.candidates env false
    · rw [if_pos hclean] at hkey
      cases hkey
    · rw [if_neg hclean] at hkey ⊢
      rw [AList.lookup_isSome] at hkey
      by_contra hdirty
      exact hclean (mem_candidates.2 ⟨hkey, Bool.eq_false_of_not_eq_true hdirty⟩)
  · rw [if_neg hremaining]
    exact ⟨hexact, by omega⟩

/-! ## One operation -/

variable {maxChunks : Nat}

/-- An exact store within its limit. -/
structure Good (maxChunks : Nat) (s : Store α) : Prop where
  exact : s.Exact
  le_max : s.size ≤ maxChunks

/-- The entry and the counter. -/
theorem exact_put (hs : s.Exact) (hlt : s.size + 1 < 2 ^ 64) (pos : ChunkPos)
    (chunk : Entry α) : (s.put pos chunk).Exact := by
  have hcount := hs.count
  refine ⟨?_, hs.underflowed, hs.overfull⟩
  change (if pos ∈ s.chunks then s.count else s.count + 1#64).toNat =
    (s.chunks.insert pos chunk).keys.length
  rw [AList.keys_insert, List.length_cons]
  by_cases hpos : pos ∈ s.chunks
  · rw [if_pos hpos, hcount, ← AList.keys_erase]
    exact (size_erase hpos).symm
  · rw [if_neg hpos, List.erase_of_not_mem hpos, BitVec.toNat_add_of_lt]
    · rw [hcount]
      rfl
    · change _ + 1 < _
      omega

theorem good_insert (hmax : maxChunks + 1 < 2 ^ 64) (hs : s.Good maxChunks) (env : Env)
    (pos : ChunkPos) (chunk : Entry α) : (s.insert env maxChunks pos chunk).Good maxChunks := by
  have hle := hs.le_max
  have hput := exact_put hs.exact (by omega) pos chunk
  unfold insert
  dsimp only
  generalize s.put pos chunk = t at hput
  have hevicted : (if maxChunks < t.count.toNat then t.evictLru env (t.count.toNat - maxChunks)
      else t).Good maxChunks := by
    by_cases hfull : maxChunks < t.count.toNat
    · rw [if_pos hfull]
      obtain ⟨hexact, hsize⟩ := exact_evictLru hput env (t.count.toNat - maxChunks)
      refine ⟨hexact, ?_⟩
      rw [hsize, hput.count]
      omega
    · rw [if_neg hfull]
      refine ⟨hput, ?_⟩
      rw [← hput.count]
      exact not_lt.1 hfull
  generalize (if maxChunks < t.count.toNat then t.evictLru env (t.count.toNat - maxChunks)
      else t) = u at hevicted ⊢
  refine ⟨⟨hevicted.exact.count, hevicted.exact.underflowed, ?_⟩, hevicted.le_max⟩
  change (u.overfull || decide (maxChunks < u.size)) = false
  rw [hevicted.exact.overfull, decide_eq_false (not_lt.2 hevicted.le_max)]
  rfl

theorem good_foldl_insert (hmax : maxChunks + 1 < 2 ^ 64) (envs : Nat → Env)
    (generated : List ((ChunkPos × Entry α) × Nat)) (hs : s.Good maxChunks) :
    (generated.foldl (fun s e => s.insert (envs e.2) maxChunks e.1.1 e.1.2) s).Good maxChunks := by
  induction generated generalizing s with
  | nil => exact hs
  | cons e generated ih => exact ih (good_insert hmax hs _ _ _)

theorem drop_of_notMem {key : ChunkPos} (h : key ∉ s.chunks) : s.drop key = s := by
  unfold drop
  have herase : s.chunks.erase key = s.chunks := AList.ext (List.kerase_of_notMem_keys h)
  rw [herase]

/-- What leaves the map without the counter. -/
theorem size_foldl_drop (keys : List ChunkPos) :
    (keys.foldl drop s).size ≤ s.size ∧ (keys.foldl drop s).count = s.count ∧
      ∀ key ∈ keys, key ∈ s.chunks → (keys.foldl drop s).size < s.size := by
  induction keys generalizing s with
  | nil => exact ⟨Nat.le_refl _, rfl, nofun⟩
  | cons k keys ih =>
      obtain ⟨hle, hcount, hlt⟩ := ih (s := s.drop k)
      have hdrop : (s.drop k).size ≤ s.size ∧ (k ∈ s.chunks → (s.drop k).size < s.size) := by
        by_cases hk : k ∈ s.chunks
        · have hsize := size_erase hk
          exact ⟨Nat.le_of_lt (Nat.lt_of_succ_le hsize.le), fun _ => Nat.lt_of_succ_le hsize.le⟩
        · rw [drop_of_notMem hk]
          exact ⟨Nat.le_refl _, fun h => absurd h hk⟩
      refine ⟨Nat.le_trans hle hdrop.1, hcount, fun key hkey hmem => ?_⟩
      by_cases hkk : key = k
      · subst hkk
        exact Nat.lt_of_le_of_lt hle (hdrop.2 hmem)
      · have hmem' : key ∈ (s.drop k).chunks := AList.mem_erase.2 ⟨hkk, hmem⟩
        have hkey' := (List.mem_cons.1 hkey).resolve_left hkk
        exact Nat.lt_of_lt_of_le (hlt key hkey' hmem') hdrop.1

theorem getOrLoad_of_mem {blank : ChunkPos → Entry α} {pos : ChunkPos} (h : pos ∈ s.chunks) :
    s.getOrLoad blank pos = s := if_pos h

/-- A chunk that is new without the counter. -/
theorem not_exact_getOrLoad (hs : s.Exact) (blank : ChunkPos → Entry α) {pos : ChunkPos}
    (hpos : pos ∉ s.chunks) : ¬ (s.getOrLoad blank pos).Exact := by
  intro hexact
  have hcount := hexact.count
  unfold getOrLoad at hcount
  rw [if_neg hpos] at hcount
  change s.count.toNat = (s.chunks.insert pos (blank pos)).keys.length at hcount
  rw [AList.keys_insert, List.length_cons, List.erase_of_not_mem hpos, hs.count] at hcount
  exact absurd hcount (Nat.ne_of_lt (Nat.lt_succ_self _))

/-- Removals without the counter are exact only if they remove nothing. -/
theorem exact_foldl_drop_iff (hs : s.Exact) (keys : List ChunkPos) :
    (keys.foldl drop s).Exact ↔ ∀ key ∈ keys, key ∉ s.chunks := by
  constructor
  · intro hexact key hkey hmem
    obtain ⟨-, hcount, hlt⟩ := size_foldl_drop (s := s) keys
    have hsize := hlt key hkey hmem
    rw [← hexact.count, ← hs.count, hcount] at hsize
    exact Nat.lt_irrefl _ hsize
  · intro hnone
    have hsame : keys.foldl drop s = s := by
      induction keys with
      | nil => rfl
      | cons key keys ih =>
          rw [List.foldl_cons, drop_of_notMem (hnone key List.mem_cons_self)]
          exact ih fun k hk => hnone k (List.mem_cons_of_mem key hk)
    rwa [hsame]

/-- One operation on an exact store within its limit. -/
theorem exact_step_iff (hmax : maxChunks + 1 < 2 ^ 64) (hs : s.Good maxChunks) (a : Action α) :
    (s.step maxChunks a).Exact ↔ s.Balanced a := by
  cases a with
  | insert env pos chunk => exact iff_of_true (good_insert hmax hs env pos chunk).exact trivial
  | generateParallel envs make positions =>
      exact iff_of_true (good_foldl_insert hmax envs _ hs).exact trivial
  | getOrLoad blank pos =>
      refine ⟨fun hexact => by_contra fun hpos => not_exact_getOrLoad hs.exact blank hpos hexact,
        fun hpos => ?_⟩
      change (s.getOrLoad blank pos).Exact
      rw [getOrLoad_of_mem hpos]
      exact hs.exact
  | remove pos => exact (exact_foldl_drop_iff hs.exact [pos]).trans List.forall_mem_singleton
  | unloadDistant env keep =>
      refine (exact_foldl_drop_iff hs.exact _).trans ?_
      constructor
      · intro hnone pos hpos
        by_contra hkeep
        refine hnone pos (List.mem_filter.2 ⟨?_, decide_eq_true hkeep⟩) hpos
        exact (env.visit_perm _).mem_iff.2 hpos
      · intro hkeep key hkey hmem
        exact of_decide_eq_true (List.mem_filter.1 hkey).2 (hkeep key hmem)
  | evictLru env count => exact iff_of_true (exact_evictLru hs.exact env count).1 trivial
  | flushDirtyLru env count =>
      exact iff_of_true (exact_flushDirtyLru hs.exact env count).1 trivial

/-- What keeps the counter exact keeps the limit. -/
theorem good_step (hmax : maxChunks + 1 < 2 ^ 64) (hs : s.Good maxChunks) {a : Action α}
    (ha : s.Balanced a) : (s.step maxChunks a).Good maxChunks := by
  refine ⟨(exact_step_iff hmax hs a).2 ha, ?_⟩
  cases a with
  | insert env pos chunk => exact (good_insert hmax hs env pos chunk).le_max
  | generateParallel envs make positions => exact (good_foldl_insert hmax envs _ hs).le_max
  | getOrLoad blank pos =>
      change (s.getOrLoad blank pos).size ≤ _
      rw [getOrLoad_of_mem ha]
      exact hs.le_max
  | remove pos => exact Nat.le_trans (size_foldl_drop (s := s) [pos]).1 hs.le_max
  | unloadDistant env keep => exact Nat.le_trans (size_foldl_drop _).1 hs.le_max
  | evictLru env count =>
      change (s.evictLru env count).size ≤ _
      rw [(exact_evictLru hs.exact env count).2]
      exact Nat.le_trans (Nat.sub_le ..) hs.le_max
  | flushDirtyLru env count =>
      exact Nat.le_trans (exact_flushDirtyLru hs.exact env count).2.1 hs.le_max

theorem good_new : (new : Store α).Good maxChunks := ⟨⟨rfl, rfl, rfl⟩, Nat.zero_le _⟩

end Store

open Store

/-- **The counter is exact and the limit holds exactly along the runs that get no chunk that is not
there and unload none.** -/
theorem along_exact_iff {maxChunks : Nat} (hmax : maxChunks + 1 < 2 ^ 64)
    (as : List (Action α)) :
    Along (step maxChunks) (fun s a => (s.step maxChunks a).Exact) new as ↔
      Along (step maxChunks) Balanced new as :=
  along_iff (Good maxChunks) (fun _ a hs => exact_step_iff hmax hs a)
    (fun _ _ hs ha => good_step hmax hs ha) good_new as

/-- Under the default limit: a chunk is inserted, got and evicted. -/
theorem along_exact_default :
    Along (step 1024) (fun s a => (s.step 1024 a).Exact) new
      [.insert ⟨id, .refl, fun _ => true⟩ ⟨0, 0⟩ ⟨(), false, 0⟩,
        .getOrLoad (fun _ => ⟨(), false, 0⟩) ⟨0, 0⟩, .remove ⟨1, 0⟩,
        .evictLru ⟨id, .refl, fun _ => true⟩ 1] :=
  (along_exact_iff (by decide) _).2
    ⟨trivial, AList.mem_keys.2 (by decide), fun h => absurd (AList.mem_keys.1 h) (by decide),
      trivial, trivial⟩

/-- A chunk that is got without being inserted. -/
theorem not_forall_along_exact :
    ¬ ∀ as : List (Action Unit),
      Along (step 1024) (fun s a => (s.step 1024 a).Exact) new as := by
  intro h
  obtain ⟨hexact, -⟩ := h [.getOrLoad (fun _ => ⟨(), false, 0⟩) ⟨0, 0⟩]
  exact absurd hexact.count (by decide)

end Apoptotic.ChunkCounter
