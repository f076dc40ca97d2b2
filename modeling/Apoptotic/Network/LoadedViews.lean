import Apoptotic.Network.ChunkStreaming
import Apoptotic.World.ChunkLoading

/-!
# What the connections have in view

`handle_play` and `stream_new_chunks` of `mc-network/src/connection.rs` over the chunk store with all
of its running calls.  A connection is a task of its own: it inserts, writes and removes one chunk at
a time, and other connections and calls of the store run between any two of these.  `loaded_chunks`
is a local variable, so `retain` is taken together with the collection of the evicted chunks: nothing
reads the set in between.

Principal result: `along_viewsKept_iff` — what the connections have in view stays loaded exactly along the
runs in which nothing is removed that a connection has in view and nothing comes into view, beyond the
few chunks that a call inserts, that is not in the store.
-/

namespace Apoptotic.LoadedViews

open ChunkStore (Config World Effect Choice)
open ChunkStreaming (Move Tracker perm_id)

abbrev ConnId := Nat

variable {α : Type}

/-! ## Connections -/

/-- The running call of a connection and where it stands. -/
inductive Call (α : Type) where
  /-- `handle_play`: the spawn chunks that are still to be inserted, and all of them. -/
  | join (todo spawn : List ChunkPos)
  /-- The chunks to insert, those to evict afterwards, and those that came into view. -/
  | stream (todo evicted newChunks : List ChunkPos)
  /-- The eviction, which is a call of the store. -/
  | evict (t : Option (ChunkStore.Task α)) (newChunks : List ChunkPos)

structure View (α : Type) where
  playerChunk : ChunkPos
  loadedChunks : List ChunkPos
  call : Option (Call α)

/-- The connection as `ChunkStreaming` sees it. -/
def View.tracker (v : View α) : Tracker := ⟨v.playerChunk, v.loadedChunks, []⟩

/-- The spawn chunks of `handle_play`. -/
def View.joining (radius : Int) : View α where
  playerChunk := ⟨0, 0⟩
  loadedChunks := []
  call := some (.join (ChunkStreaming.square ⟨0, 0⟩ radius) (ChunkStreaming.square ⟨0, 0⟩ radius))

/-- The chunks that the call inserts: the predicted one and the closest new ones. -/
def View.inserts (v : View α) (m : Move) : List ChunkPos :=
  if (ChunkStreaming.newChunks v.tracker m).isEmpty then []
  else
    ChunkLoading.predicted v.playerChunk m.newChunk v.loadedChunks m.viewRadius.toNat ++
      ChunkStreaming.toSend v.tracker m

/-- The end of a movement handler. -/
def View.move (v : View α) (m : Move) : View α :=
  if m.newChunk = v.playerChunk then v
  else if m.viewRadius ≤ 0 then { v with playerChunk := m.newChunk }
  else
    { v with
      playerChunk := m.newChunk
      call := some (.stream (v.inserts m) (ChunkStreaming.evicted v.tracker m)
        (ChunkStreaming.newChunks v.tracker m)) }

/-- What the environment chooses: the global LRU counter, and what the store's calls need. -/
structure Pick where
  lruOrder : Nat
  choice : Choice

/-- The next access of a connection's call. -/
def View.next (cfg : Config α) (w : World α) (pick : Pick) (v : View α) : World α × View α :=
  match v.call with
  | none => (w, v)
  | some (.join (p :: todo) spawn) =>
      (w.insert cfg p (ChunkLoading.generated cfg p pick.lruOrder),
        { v with call := some (.join todo spawn) })
  | some (.join [] spawn) => (w, { v with loadedChunks := spawn, call := none })
  | some (.stream (p :: todo) evicted newChunks) =>
      (w.insert cfg p (ChunkLoading.generated cfg p pick.lruOrder),
        { v with call := some (.stream todo evicted newChunks) })
  | some (.stream [] evicted newChunks) =>
      (w, { v with
        loadedChunks := v.loadedChunks.filter fun cp => !evicted.contains cp
        call := some (.evict (some (.collectEvicted evicted evicted [])) newChunks) })
  | some (.evict (some t) newChunks) =>
      (w.perform cfg (t.next cfg w pick.choice).1,
        { v with call := some (.evict (t.next cfg w pick.choice).2 newChunks) })
  | some (.evict none newChunks) =>
      (w, { v with
        loadedChunks := newChunks.foldl (fun l cp => l.insert cp) v.loadedChunks
        call := none })

/-! ## Runs -/

structure State (α : Type) where
  store : World α
  views : ConnId → Option (View α)

def State.new (disk : ChunkPos → Option α) : State α := ⟨World.new disk, fun _ => none⟩

inductive Action (α : Type) where
  /-- An edit, an insertion by other code, or an access of a call of the store. -/
  | store (a : ChunkStore.Action α)
  | connect (c : ConnId) (radius : Int)
  | move (c : ConnId) (m : Move)
  | run (c : ConnId) (pick : Pick)
  | disconnect (c : ConnId)

namespace State

variable (cfg : Config α) (s : State α)

/-- An action of a connection that is not there, or busy, changes nothing. -/
def step : Action α → State α
  | .store a => { s with store := (ChunkStore.system cfg).apply s.store a }
  | .connect c radius =>
      match s.views c with
      | none => { s with views := Function.update s.views c (some (.joining radius)) }
      | some _ => s
  | .move c m =>
      match s.views c with
      | some v =>
          if v.call.isNone then { s with views := Function.update s.views c (some (v.move m)) }
          else s
      | none => s
  | .run c pick =>
      match s.views c with
      | some v =>
          ⟨(v.next cfg s.store pick).1,
            Function.update s.views c (some (v.next cfg s.store pick).2)⟩
      | none => s
  | .disconnect c => { s with views := Function.update s.views c none }

/-- Some live connection has the chunk in `loaded_chunks`. -/
def InView (p : ChunkPos) : Prop := ∃ c v, s.views c = some v ∧ p ∈ v.loadedChunks

def Present (p : ChunkPos) : Prop := (s.store.chunks p).isSome

/-- **A chunk somebody is looking at is in the store.** -/
def Kept : Prop := ∀ p, s.InView p → s.Present p

end State

/-- What an access takes out of the store. -/
def drops : Effect α → ChunkPos → Prop
  | .drop p _, q => q = p
  | _, _ => False

/-- What an action of the store takes out of it. -/
def storeDrops (cfg : Config α) (w : World α) : ChunkStore.Action α → ChunkPos → Prop
  | .remove p, q => q = p
  | .run i c, q => ∃ t, w.tasks[i]? = some t ∧ drops (t.next cfg w c).1 q
  | _, _ => False

/-- What a connection takes out of the store with its next access. -/
def View.drops (cfg : Config α) (w : World α) (pick : Pick) (v : View α) (q : ChunkPos) : Prop :=
  match v.call with
  | some (.evict (some t) _) => LoadedViews.drops (t.next cfg w pick.choice).1 q
  | _ => False

/-- What comes into view with the next access of a connection. -/
def View.comes (v : View α) (q : ChunkPos) : Prop :=
  match v.call with
  | some (.join [] spawn) => q ∈ spawn
  | some (.evict none newChunks) => q ∈ newChunks
  | _ => False

/-- Nothing is taken out that somebody has in view, and what comes into view is there. -/
def State.Careful (cfg : Config α) (s : State α) : Action α → Prop
  | .store a => ∀ p, storeDrops cfg s.store a p → ¬ s.InView p
  | .run c pick => ∀ v, s.views c = some v →
      (∀ p, v.drops cfg s.store pick p → ¬ s.InView p) ∧ ∀ p, v.comes p → s.Present p
  | _ => True

/-! ## What is in the store -/

variable {cfg : Config α} {w : World α} {s : State α} {p q : ChunkPos}

theorem present_drop (counted : Bool) :
    ((w.drop cfg p counted).chunks q).isSome ↔ (w.chunks q).isSome ∧ q ≠ p := by
  unfold World.drop
  split
  · next hp =>
      refine (and_iff_left_of_imp ?_).symm
      rintro hq rfl
      rw [hp] at hq
      cases hq
  · by_cases h : q = p
    · subst h
      simp
    · simp [h]

theorem present_perform (effect : Effect α) :
    ((w.perform cfg effect).chunks q).isSome ↔ (w.chunks q).isSome ∧ ¬ drops effect q := by
  cases effect with
  | none => exact (and_iff_left not_false).symm
  | drop p counted => exact present_drop counted
  | markClean p =>
      refine Iff.trans ?_ (and_iff_left not_false).symm
      change (Function.update w.chunks p _ q).isSome ↔ _
      by_cases h : q = p
      · rw [h, Function.update_self, Option.isSome_map]
      · rw [Function.update_of_ne h]
  | write p chunk => exact (and_iff_left not_false).symm

theorem present_insert {e : ChunkStore.Entry α} :
    ((w.insert cfg p e).chunks q).isSome ↔ q = p ∨ (w.chunks q).isSome := by
  change (Function.update w.chunks p (some e) q).isSome ↔ _
  by_cases h : q = p
  · rw [h, Function.update_self]
    exact iff_of_true rfl (.inl rfl)
  · rw [Function.update_of_ne h, or_iff_right h]

theorem chunks_resume (i : Nat) (t : Option (ChunkStore.Task α)) :
    (w.resume i t).chunks = w.chunks := by
  cases t <;> rfl

/-- What was in the store stays there unless the action takes it out. -/
theorem present_apply (a : ChunkStore.Action α) (h : (w.chunks q).isSome) :
    (((ChunkStore.system cfg).apply w a).chunks q).isSome ↔ ¬ storeDrops cfg w a q := by
  cases a with
  | edit p contents =>
      refine iff_of_true ?_ not_false
      change (Function.update w.chunks p _ q).isSome
      by_cases hq : q = p
      · subst hq
        rwa [Function.update_self, Option.isSome_map]
      · rwa [Function.update_of_ne hq]
  | insert p e => exact iff_of_true (present_insert.2 (.inr h)) not_false
  | remove p => exact (present_drop false).trans (and_iff_right h)
  | run i c =>
      change ((w.runTask cfg i c).chunks q).isSome ↔ ¬ ∃ t, w.tasks[i]? = some t ∧ _
      unfold World.runTask
      cases ht : w.tasks[i]? with
      | none => exact iff_of_true h (by rintro ⟨t, ht', -⟩; cases ht')
      | some t =>
          change (((w.perform cfg (t.next cfg w c).1).resume i (t.next cfg w c).2).chunks q).isSome ↔ _
          rw [chunks_resume, present_perform, and_iff_right h]
          simp
  | flushDirtyLru count order => exact iff_of_true h not_false
  | proactiveWriteback order => exact iff_of_true h not_false
  | unloadDistant keep order => exact iff_of_true h not_false
  | autosave order => exact iff_of_true h not_false
  | evictDistant evicted => exact iff_of_true h not_false

/-- A connection's access takes out what it drops, and may insert. -/
theorem present_next (pick : Pick) (v : View α) (h : (w.chunks q).isSome) :
    ((v.next cfg w pick).1.chunks q).isSome ↔ ¬ v.drops cfg w pick q := by
  unfold View.next View.drops
  split
  · next hcall => exact iff_of_true h (by simp [hcall])
  · next hcall => exact iff_of_true (present_insert.2 (.inr h)) (by simp [hcall])
  · next hcall => exact iff_of_true h (by simp [hcall])
  · next hcall => exact iff_of_true (present_insert.2 (.inr h)) (by simp [hcall])
  · next hcall => exact iff_of_true h (by simp [hcall])
  · next hcall =>
      simp only [hcall]
      rw [present_perform, and_iff_right h]
  · next hcall => exact iff_of_true h (by simp [hcall])

/-- What a connection has in view after an access is what it had, or comes into view. -/
theorem mem_loadedChunks_next (pick : Pick) {v : View α}
    (h : q ∈ (v.next cfg w pick).2.loadedChunks) : q ∈ v.loadedChunks ∨ v.comes q := by
  unfold View.next at h
  unfold View.comes
  split at h
  · exact .inl h
  · exact .inl h
  · next hcall => exact .inr (by simpa [hcall] using h)
  · exact .inl h
  · exact .inl (List.mem_filter.1 h).1
  · exact .inl h
  · next hcall =>
      rcases ChunkStreaming.mem_foldl_insert.1 h with h | h
      · exact .inl h
      · exact .inr (by simpa [hcall] using h)

/-- What comes into view is there after the access. -/
theorem mem_loadedChunks_of_comes (cfg : Config α) (w : World α) (pick : Pick) {v : View α}
    (h : v.comes q) :
    q ∈ (v.next cfg w pick).2.loadedChunks ∧ (v.next cfg w pick).1 = w := by
  unfold View.comes at h
  unfold View.next
  split at h
  · next hcall =>
      simp only [hcall]
      exact ⟨h, trivial⟩
  · next hcall =>
      simp only [hcall]
      exact ⟨ChunkStreaming.mem_foldl_insert.2 (.inr h), trivial⟩
  · cases h

/-- A connection that removes a chunk looks at the same ones afterwards. -/
theorem loadedChunks_of_drops (pick : Pick) {v : View α} (h : v.drops cfg w pick q) :
    (v.next cfg w pick).2.loadedChunks = v.loadedChunks := by
  unfold View.drops at h
  unfold View.next
  split at h
  · next hcall => simp only [hcall]
  · cases h

theorem loadedChunks_move (v : View α) (m : Move) : (v.move m).loadedChunks = v.loadedChunks := by
  unfold View.move
  split
  · rfl
  · split <;> rfl

/-! ## One action -/

/-- What is in view after a connection went on to look at `loaded`. -/
theorem inView_update {views : ConnId → Option (View α)} {c : ConnId} {v : View α} :
    (∃ c' v', Function.update views c (some v) c' = some v' ∧ p ∈ v'.loadedChunks) ↔
      p ∈ v.loadedChunks ∨ ∃ c' v', c' ≠ c ∧ views c' = some v' ∧ p ∈ v'.loadedChunks := by
  constructor
  · rintro ⟨c', v', hv', hp⟩
    by_cases hc : c' = c
    · subst hc
      rw [Function.update_self] at hv'
      obtain rfl := Option.some.inj hv'
      exact .inl hp
    · rw [Function.update_of_ne hc] at hv'
      exact .inr ⟨c', v', hc, hv', hp⟩
  · rintro (hp | ⟨c', v', hc, hv', hp⟩)
    · exact ⟨c, v, Function.update_self .., hp⟩
    · exact ⟨c', v', (Function.update_of_ne hc ..).trans hv', hp⟩

theorem kept_run_iff (hs : s.Kept) {c : ConnId} {v : View α} (hv : s.views c = some v)
    (pick : Pick) :
    State.Kept ⟨(v.next cfg s.store pick).1,
        Function.update s.views c (some (v.next cfg s.store pick).2)⟩ ↔
      (∀ p, v.drops cfg s.store pick p → ¬ s.InView p) ∧ ∀ p, v.comes p → s.Present p := by
  constructor
  · intro hkept
    refine ⟨fun p hdrops hview => ?_, fun p hcomes => ?_⟩
    · have hgone : ¬ (((v.next cfg s.store pick).1.chunks p).isSome) := fun h =>
        (present_next pick v (hs p hview)).1 h hdrops
      refine hgone (hkept p (inView_update.2 ?_))
      obtain ⟨c', v', hv', hp⟩ := hview
      by_cases hc : c' = c
      · subst hc
        obtain rfl := Option.some.inj (hv.symm.trans hv')
        rw [loadedChunks_of_drops pick hdrops]
        exact .inl hp
      · exact .inr ⟨c', v', hc, hv', hp⟩
    · obtain ⟨hloaded, hstore⟩ := mem_loadedChunks_of_comes cfg s.store pick hcomes
      have hpresent := hkept p (inView_update.2 (.inl hloaded))
      unfold State.Present at hpresent ⊢
      rwa [hstore] at hpresent
  · rintro ⟨hkeeps, hcomes⟩ p hview
    have hstays : s.InView p → ((v.next cfg s.store pick).1.chunks p).isSome := fun hview =>
      (present_next pick v (hs p hview)).2 fun hdrops => hkeeps p hdrops hview
    rcases inView_update.1 hview with hp | ⟨c', v', -, hv', hp⟩
    · rcases mem_loadedChunks_next pick hp with hp | hp
      · exact hstays ⟨c, v, hv, hp⟩
      · obtain ⟨-, hstore⟩ := mem_loadedChunks_of_comes cfg s.store pick hp
        change ((v.next cfg s.store pick).1.chunks p).isSome
        rw [hstore]
        exact hcomes p hp
    · exact hstays ⟨c', v', hv', hp⟩

/-- One action. -/
theorem kept_step_iff (hs : s.Kept) (a : Action α) : (s.step cfg a).Kept ↔ s.Careful cfg a := by
  cases a with
  | store a =>
      have hstays : ∀ p, s.InView p → (s.step cfg (.store a)).Present p = ¬ storeDrops cfg s.store a p :=
        fun p hview => propext (present_apply a (hs p hview))
      constructor
      · intro hkept p hdrops hview
        exact (hstays p hview ▸ hkept p hview) hdrops
      · intro hcareful p hview
        exact hstays p hview ▸ fun hdrops => hcareful p hdrops hview
  | connect c radius =>
      refine iff_of_true ?_ trivial
      dsimp only [State.step]
      split
      · intro p hview
        rcases inView_update.1 hview with hp | ⟨c', v', -, hv', hp⟩
        · cases hp
        · exact hs p ⟨c', v', hv', hp⟩
      · exact hs
  | move c m =>
      refine iff_of_true ?_ trivial
      dsimp only [State.step]
      split
      · next v hv =>
          split
          · intro p hview
            rcases inView_update.1 hview with hp | ⟨c', v', -, hv', hp⟩
            · rw [loadedChunks_move] at hp
              exact hs p ⟨c, v, hv, hp⟩
            · exact hs p ⟨c', v', hv', hp⟩
          · exact hs
      · exact hs
  | run c pick =>
      dsimp only [State.step, State.Careful]
      split
      · next v hv =>
          rw [kept_run_iff hs hv]
          constructor
          · intro h v' hv'
            obtain rfl := Option.some.inj (hv.symm.trans hv')
            exact h
          · exact fun h => h v hv
      · next hv =>
          refine iff_of_true hs fun v hv' => ?_
          cases hv.symm.trans hv'
  | disconnect c =>
      refine iff_of_true ?_ trivial
      rintro p ⟨c', v', hv', hp⟩
      change Function.update s.views c none c' = some v' at hv'
      by_cases hc : c' = c
      · rw [hc, Function.update_self] at hv'
        cases hv'
      · rw [Function.update_of_ne hc] at hv'
        exact hs p ⟨c', v', hv', hp⟩

/-! ## Runs -/

theorem kept_new (disk : ChunkPos → Option α) : (State.new disk).Kept := by
  rintro p ⟨c, v, hv, -⟩
  cases hv

/-- Numbers for contents, all generated as 0. -/
def numbers : Config Nat := ⟨4096, 3276, fun _ => 0⟩

/-- One step in both directions with view radius 2: nine chunks come into view. -/
def diagonal : Move :=
  { newChunk := ⟨1#32, 1#32⟩, viewRadius := 2, iter := id, iter_perm := perm_id
    delivered := fun _ => true }

def next : Action Nat := .run 0 ⟨0, ⟨true, []⟩⟩

def joining : List (Action Nat) := .connect 0 2 :: List.replicate 26 next

def joined : State Nat := joining.foldl (State.step numbers) (State.new fun _ => none)

def spawned : View Nat := ⟨⟨0, 0⟩, ChunkStreaming.square ⟨0, 0⟩ 2, none⟩

theorem views_joined : joined.views 0 = some spawned := rfl

/-- All of them are equally far away. -/
theorem toSend_diagonal : ChunkStreaming.toSend spawned.tracker diagonal =
    [⟨-1, 3⟩, ⟨0, 3⟩, ⟨1, 3⟩, ⟨2, 3⟩, ⟨3, -1⟩, ⟨3, 0⟩] := by
  unfold ChunkStreaming.toSend
  rw [List.mergeSort_of_pairwise (by decide +kernel)]
  decide +kernel

def streaming : View Nat where
  playerChunk := ⟨1, 1⟩
  loadedChunks := ChunkStreaming.square ⟨0, 0⟩ 2
  call := some (.stream [⟨4, 4⟩, ⟨-1, 3⟩, ⟨0, 3⟩, ⟨1, 3⟩, ⟨2, 3⟩, ⟨3, -1⟩, ⟨3, 0⟩]
    (ChunkStreaming.evicted spawned.tracker diagonal)
    (ChunkStreaming.newChunks spawned.tracker diagonal))

theorem move_diagonal : spawned.move diagonal = streaming := by
  have hinserts : spawned.inserts diagonal =
      [⟨4, 4⟩, ⟨-1, 3⟩, ⟨0, 3⟩, ⟨1, 3⟩, ⟨2, 3⟩, ⟨3, -1⟩, ⟨3, 0⟩] := by
    unfold View.inserts
    rw [toSend_diagonal]
    decide +kernel
  unfold View.move
  rw [if_neg (by decide), if_neg (by decide), hinserts]
  rfl

end Apoptotic.LoadedViews
