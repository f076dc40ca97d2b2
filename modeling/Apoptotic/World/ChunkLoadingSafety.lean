import Apoptotic.World.ChunkLoading

/-!
# Chunks the producers replace, and when they replace none

Principal results: `apply_contents` — the store's own calls change no contents; `next_advances` —
what one step of a producer does to the positions on their way; `kept_of_reached` — edits stay
visible and no position is dropped in any run of safe actions; `not_forall_kept` — a join replaces
an edited chunk.
-/

namespace Apoptotic

namespace ChunkLoading

open ChunkStore

variable {α : Type} {cfg : Config α} {s s' : State α}

/-! ## The store's own calls -/

theorem perform_contents {w : ChunkStore.World α} (effect : Effect α) {p : ChunkPos}
    {e' : Entry α} (h : (w.perform cfg effect).chunks p = some e') :
    ∃ e, w.chunks p = some e ∧ e'.contents = e.contents := by
  cases effect with
  | none => exact ⟨e', h, rfl⟩
  | drop q counted =>
      simp only [ChunkStore.World.perform, ChunkStore.World.drop] at h
      split at h
      · exact ⟨e', h, rfl⟩
      · by_cases hp : p = q
        · subst hp
          simp at h
        · exact ⟨e', by simpa [hp] using h, rfl⟩
  | markClean q =>
      simp only [ChunkStore.World.perform, ChunkStore.World.markClean] at h
      by_cases hp : p = q
      · subst hp
        rw [Function.update_self] at h
        obtain ⟨e, he, rfl⟩ := Option.map_eq_some_iff.1 h
        exact ⟨e, he, rfl⟩
      · exact ⟨e', by simpa [hp] using h, rfl⟩
  | write q chunk => exact ⟨e', h, rfl⟩

theorem runTask_contents {w : ChunkStore.World α} {i : Nat} {c : Choice} {p : ChunkPos}
    {e' : Entry α} (h : (w.runTask cfg i c).chunks p = some e') :
    ∃ e, w.chunks p = some e ∧ e'.contents = e.contents := by
  unfold ChunkStore.World.runTask at h
  split at h
  · exact ⟨e', h, rfl⟩
  · dsimp only at h
    unfold ChunkStore.World.resume at h
    split at h
    · exact perform_contents _ h
    · exact perform_contents _ h

/-- **No action of the store changes the contents of a chunk**, edits and insertions apart. -/
theorem apply_contents {w : ChunkStore.World α} {a : ChunkStore.Action α} (ha : NotInsert a)
    {p : ChunkPos} {e' : Entry α} (h : ((ChunkStore.system cfg).apply w a).chunks p = some e') :
    (∃ contents, a = .edit p contents ∧ e'.contents = contents) ∨
      ((∀ contents, a ≠ .edit p contents) ∧ ∃ e, w.chunks p = some e ∧ e'.contents = e.contents) := by
  cases a with
  | edit q contents =>
      change (w.edit q contents).chunks p = some e' at h
      unfold ChunkStore.World.edit at h
      by_cases hp : p = q
      · subst hp
        simp only [Function.update_self] at h
        obtain ⟨e, _, rfl⟩ := Option.map_eq_some_iff.1 h
        exact Or.inl ⟨contents, rfl, rfl⟩
      · refine Or.inr ⟨fun c hc => ?_, e', by simpa [hp] using h, rfl⟩
        cases hc
        exact hp rfl
  | insert q e => exact absurd ha id
  | remove q => exact Or.inr ⟨nofun, perform_contents (.drop q false) h⟩
  | flushDirtyLru count order => exact Or.inr ⟨nofun, e', h, rfl⟩
  | proactiveWriteback order => exact Or.inr ⟨nofun, e', h, rfl⟩
  | unloadDistant keep order => exact Or.inr ⟨nofun, e', h, rfl⟩
  | autosave order => exact Or.inr ⟨nofun, e', h, rfl⟩
  | evictDistant evicted => exact Or.inr ⟨nofun, e', h, rfl⟩
  | run i c => exact Or.inr ⟨nofun, runTask_contents h⟩

/-! ## Visible edits -/

/-- The first half of `Kept`. -/
def Visible (s : State α) : Prop := ∀ p contents, s.latest p = some contents →
  (s.store.chunks p).map Entry.contents = some contents

theorem afterStore_visible (h : Visible s) {a : ChunkStore.Action α} (ha : NotInsert a) :
    Visible (s.afterStore a ((ChunkStore.system cfg).apply s.store a)) := by
  intro p contents hlatest
  unfold State.afterStore at hlatest ⊢
  dsimp only at hlatest ⊢
  cases he' : ((ChunkStore.system cfg).apply s.store a).chunks p with
  | none => simp [he'] at hlatest
  | some e' =>
      rw [he', Option.isSome_some, if_pos rfl] at hlatest
      rcases apply_contents ha he' with ⟨c, rfl, hc⟩ | ⟨hne, e, he, hc⟩
      · dsimp only at hlatest
        rw [Function.update_self] at hlatest
        rw [Option.map_some, hc]
        exact hlatest
      · -- the latest edit of `p` is an older one
        have hold : s.latest p = some contents := by
          cases a with
          | edit q c =>
              have hp : p ≠ q := fun hpq => hne c (by rw [hpq])
              dsimp only at hlatest
              rwa [Function.update_of_ne hp] at hlatest
          | insert q e => exact absurd ha id
          | remove q => exact hlatest
          | flushDirtyLru count order => exact hlatest
          | proactiveWriteback order => exact hlatest
          | unloadDistant keep order => exact hlatest
          | autosave order => exact hlatest
          | evictDistant evicted => exact hlatest
          | run i c => exact hlatest
        rw [Option.map_some, hc]
        have hv := h p contents hold
        rwa [he] at hv

theorem insert_visible (h : Visible s) {p : ChunkPos} {e : Entry α}
    (hsafe : Installable s p e.contents) : Visible (s.insert cfg p e) := by
  intro q contents hlatest
  show (Function.update s.store.chunks p (some e) q).map Entry.contents = some contents
  by_cases hq : q = p
  · subst hq
    rw [Function.update_self, Option.map_some, hsafe contents hlatest]
  · rw [Function.update_of_ne hq]
    exact h q contents hlatest

/-- Installing over an edited chunk with other contents hides the edit. -/
theorem insert_hides {p : ChunkPos} {e : Entry α} (h : ¬ Installable s p e.contents) :
    ¬ Kept (s.insert cfg p e) := by
  intro hkept
  refine h fun c hc => ?_
  have hv : (Function.update s.store.chunks p (some e) p).map Entry.contents = some c :=
    hkept.visible p c hc
  rw [Function.update_self] at hv
  exact (Option.some.inj hv).symm

theorem next_visible (h : Visible s) {t : Producer α} {c : Pick α} (hsafe : SafeNext cfg s t) :
    Visible (t.next cfg s c).1 := by
  unfold Producer.next
  split
  · exact insert_visible h hsafe
  · exact h
  · exact insert_visible h hsafe
  · exact h
  · split
    · exact h
    · split
      · exact h
      · exact h
  · exact h
  · exact h
  · split
    · exact h
    · exact h
  · exact h
  · exact insert_visible h hsafe

/-! ## Positions on their way -/

/-- What one step of a producer does to the positions on their way. -/
structure Advances (s : State α) (t : Producer α) (s' : State α) (t' : Option (Producer α)) :
    Prop where
  pending : s'.pending = s.pending
  producers : s'.producers = s.producers
  awaited : ∀ p, s'.awaited p = true → s.awaited p = true
  carried : ∀ p, s'.awaited p = true → p ∈ t.positions →
    (∃ u, t' = some u ∧ p ∈ u.positions) ∨ (s'.completed p).isSome
  completed : ∀ p, (s.completed p).isSome →
    (∃ u, t' = some u ∧ p ∈ u.positions) ∨ (s'.completed p).isSome

/-- A step that leaves the positions as they are. -/
theorem Advances.idle {t : Producer α} {t' : Option (Producer α)} (hp : s'.pending = s.pending)
    (hs : s'.producers = s.producers) (ha : s'.awaited = s.awaited)
    (hc : s'.completed = s.completed)
    (hcarried : ∀ p, p ∈ t.positions → ∃ u, t' = some u ∧ p ∈ u.positions) :
    Advances s t s' t' where
  pending := hp
  producers := hs
  awaited p h := by rwa [ha] at h
  carried p _ h := Or.inl (hcarried p h)
  completed p h := Or.inr (by rwa [hc])

theorem serve_awaited {p q : ChunkPos} (h : (s.serve p).awaited q = true) :
    q ≠ p ∧ s.awaited q = true := by
  unfold State.serve at h
  by_cases hq : q = p
  · subst hq
    simp at h
  · exact ⟨hq, by simpa [hq] using h⟩

theorem mem_eraseIdx_or {β : Type} {l : List β} {i : Nat} {a b : β} (ha : l[i]? = some a)
    (hb : b ∈ l) : b = a ∨ b ∈ l.eraseIdx i := by
  obtain ⟨j, hj⟩ := List.mem_iff_getElem?.1 hb
  by_cases hij : j = i
  · subst hij
    rw [ha] at hj
    exact Or.inl (Option.some.inj hj).symm
  · exact Or.inr (List.mem_eraseIdx_iff_getElem?.2 ⟨j, hij, hj⟩)

theorem next_advances (cfg : Config α) (s : State α) (t : Producer α) (c : Pick α) :
    Advances s t (t.next cfg s c).1 (t.next cfg s c).2 := by
  unfold Producer.next
  split
  -- join, stream
  · exact Advances.idle rfl rfl rfl rfl nofun
  · exact Advances.idle rfl rfl rfl rfl nofun
  · exact Advances.idle rfl rfl rfl rfl nofun
  · exact Advances.idle rfl rfl rfl rfl nofun
  -- batch: one position looked at
  · rename_i q todo generatedChunks
    split
    · exact Advances.idle rfl rfl rfl rfl fun p hp => ⟨_, rfl, hp⟩
    · rename_i p hpick
      dsimp only
      split
      · refine ⟨rfl, rfl, fun r hr => (serve_awaited hr).2, fun r hr hmem => ?_, fun r hr => Or.inr hr⟩
        obtain ⟨hne, -⟩ := serve_awaited hr
        refine Or.inl ⟨_, rfl, ?_⟩
        rcases List.mem_append.1 hmem with hmem | hmem
        · exact List.mem_append_left _ ((mem_eraseIdx_or hpick hmem).resolve_left hne)
        · exact List.mem_append_right _ hmem
      · refine Advances.idle rfl rfl rfl rfl fun r hmem => ⟨_, rfl, ?_⟩
        rcases List.mem_append.1 hmem with hmem | hmem
        · rcases mem_eraseIdx_or hpick hmem with rfl | hmem
          · exact List.mem_append_right _ (by simp)
          · exact List.mem_append_left _ hmem
        · refine List.mem_append_right _ ?_
          rw [List.map_append]
          exact List.mem_append_left _ hmem
  -- batch: one chunk handed over
  · rename_i p e generatedChunks
    refine ⟨rfl, rfl, fun r hr => hr, fun r _ hmem => ?_, fun r hr => Or.inr ?_⟩
    · by_cases hr : r = p
      · subst hr
        exact Or.inr (by simp)
      · exact Or.inl ⟨_, rfl, by simpa [Producer.positions, hr] using hmem⟩
    · by_cases hr' : r = p
      · subst hr'
        simp
      · simpa [hr'] using hr
  · exact Advances.idle rfl rfl rfl rfl nofun
  -- drain, install
  · rename_i p todo
    split
    · refine ⟨rfl, rfl, fun r hr => hr, nofun, fun r hr => ?_⟩
      by_cases hr' : r = p
      · subst hr'
        exact Or.inl ⟨_, rfl, List.mem_singleton_self r⟩
      · exact Or.inr (by simpa [hr'] using hr)
    · exact Advances.idle rfl rfl rfl rfl nofun
  · exact Advances.idle rfl rfl rfl rfl nofun
  · rename_i p e todo
    refine ⟨rfl, rfl, fun r hr => (serve_awaited hr).2, fun r hr hmem => ?_, fun r hr => Or.inr hr⟩
    exact absurd (List.mem_singleton.1 hmem) (serve_awaited hr).1

/-! ## Runs -/

/-- The second half of `Kept`. -/
def OnTheirWay (s : State α) : Prop := ∀ p, s.awaited p = true → InFlight s p

theorem mem_set_or {β : Type} {l : List β} {i : Nat} {a b : β} (a' : β) (ha : l[i]? = some a)
    (hb : b ∈ l) : b = a ∨ b ∈ l.set i a' := by
  obtain ⟨j, hj⟩ := List.mem_iff_getElem?.1 hb
  by_cases hij : i = j
  · subst hij
    rw [ha] at hj
    exact Or.inl (Option.some.inj hj).symm
  · exact Or.inr (List.mem_iff_getElem?.2 ⟨j, by rw [List.getElem?_set_ne hij, hj]⟩)

/-- A step of a producer loses no position: the producer after it carries it, or it is ready. -/
theorem resume_onTheirWay (h : OnTheirWay s) {t : Producer α} {t' : Option (Producer α)} {i : Nat}
    (ht : s.producers[i]? = some t) (hadv : Advances s t s' t') :
    OnTheirWay (s'.resume i t') := by
  have hi : i < s'.producers.length := by
    rw [hadv.producers]
    exact (List.getElem?_eq_some_iff.1 ht).1
  -- the producer after the step is in the list
  have hnext : ∀ p, ((∃ u, t' = some u ∧ p ∈ u.positions) ∨ (s'.completed p).isSome) →
      InFlight (s'.resume i t') p := by
    rintro p (⟨u, rfl, hp⟩ | hp)
    · exact Or.inr (Or.inl ⟨u, List.mem_set hi u, hp⟩)
    · refine Or.inr (Or.inr ?_)
      cases t' with
      | some u => exact hp
      | none => exact hp
  intro p hp
  have hp' : s'.awaited p = true := by
    cases t' with
    | some u => exact hp
    | none => exact hp
  rcases h p (hadv.awaited p hp') with hpending | ⟨u, hu, hmem⟩ | hcompleted
  · refine Or.inl ?_
    rw [← hadv.pending] at hpending
    cases t' with
    | some u => exact hpending
    | none => exact hpending
  · cases t' with
    | some u' =>
        rcases mem_set_or u' ht hu with rfl | hu
        · exact hnext p (hadv.carried p hp' hmem)
        · exact Or.inr (Or.inl ⟨u, by rw [← hadv.producers] at hu; exact hu, hmem⟩)
    | none =>
        rcases mem_eraseIdx_or ht hu with rfl | hu
        · exact hnext p (hadv.carried p hp' hmem)
        · exact Or.inr (Or.inl ⟨u, by rw [← hadv.producers] at hu; exact hu, hmem⟩)
  · exact hnext p (hadv.completed p hcompleted)

theorem start_onTheirWay (h : OnTheirWay s) (t : Producer α) : OnTheirWay (s.start t) := by
  intro p hp
  rcases h p hp with hpending | ⟨u, hu, hmem⟩ | hcompleted
  · exact Or.inl hpending
  · exact Or.inr (Or.inl ⟨u, List.mem_append_left _ hu, hmem⟩)
  · exact Or.inr (Or.inr hcompleted)

theorem enqueueOne_onTheirWay (h : OnTheirWay s) (p : ChunkPos) (priority : BitVec 8) :
    OnTheirWay (s.enqueueOne p priority) := by
  unfold State.enqueueOne
  split
  · exact h
  · split
    · exact h
    · intro q hq
      dsimp only at hq
      by_cases hqp : q = p
      · subst hqp
        exact Or.inl (by simp)
      · rw [Function.update_of_ne hqp] at hq
        rcases h q hq with hpending | hrest
        · refine Or.inl ?_
          rw [List.map_append]
          exact List.mem_append_left _ hpending
        · exact Or.inr hrest

/-- A batch that finds a runtime carries what left `pending`. -/
theorem dispatch_onTheirWay (h : OnTheirWay s) (hsafe : s.pending = [] ∨ s.runtime = true) :
    OnTheirWay s.dispatch := by
  have hmem : ∀ p, p ∈ s.pending.map Prod.fst →
      p ∈ (s.pending.mergeSort fun a b => b.2.toNat ≤ a.2.toNat).map Prod.fst := by
    intro p hp
    obtain ⟨q, hq, rfl⟩ := List.mem_map.1 hp
    exact List.mem_map.2 ⟨q, List.mem_mergeSort.2 hq, rfl⟩
  unfold State.dispatch
  dsimp only
  split
  · intro p hp
    rcases h p hp with hpending | hrest
    · exact Or.inl (hmem p hpending)
    · exact Or.inr hrest
  · rename_i hbatch
    have hruntime : s.runtime = true := by
      refine hsafe.resolve_left fun hnil => hbatch ?_
      rw [hnil, List.mergeSort_nil]
      rfl
    intro p hp
    rcases h p hp with hpending | ⟨u, hu, hmemu⟩ | hcompleted
    · have hsorted := hmem p hpending
      rw [← List.take_append_drop (min (s.pending.mergeSort _).length 32)
        (s.pending.mergeSort _), List.map_append] at hsorted
      rcases List.mem_append.1 hsorted with hp | hp
      · refine Or.inr (Or.inl ⟨.batch _ [], ?_, List.mem_append_left _ hp⟩)
        rw [if_pos hruntime]
        exact List.mem_append_right _ (List.mem_singleton_self _)
      · exact Or.inl hp
    · refine Or.inr (Or.inl ⟨u, ?_, hmemu⟩)
      rw [if_pos hruntime]
      exact List.mem_append_left _ hu
    · exact Or.inr (Or.inr hcompleted)

/-- `enqueue` leaves the store alone. -/
theorem enqueueNext_visible (h : Visible s) : Visible s.enqueueNext := by
  unfold State.enqueueNext
  split
  · exact h
  · unfold State.enqueueOne
    split
    · exact h
    · split
      · exact h
      · exact h
  · unfold State.dispatch
    dsimp only
    split
    · exact h
    · exact h

theorem apply_kept {a : Action α} (h : Kept s) (henabled : (system cfg).enabled s a)
    (hsafe : SafeAction cfg s a) : Kept ((system cfg).apply s a) := by
  obtain ⟨hvisible, hway⟩ := h
  cases a with
  | store a => exact ⟨afterStore_visible hvisible henabled.1, hway⟩
  | setRuntime => exact ⟨hvisible, hway⟩
  | handlePlay radius => exact ⟨hvisible, start_onTheirWay hway _⟩
  | streamNewChunks oldChunk newChunk loaded radius order =>
      show Kept (if radius = 0 then s else _)
      split
      · exact ⟨hvisible, hway⟩
      · exact ⟨hvisible, start_onTheirWay hway _⟩
  | enqueue positions => exact ⟨hvisible, hway⟩
  | enqueueNext =>
      refine ⟨enqueueNext_visible hvisible, ?_⟩
      show OnTheirWay s.enqueueNext
      unfold State.enqueueNext
      split
      · exact hway
      · exact enqueueOne_onTheirWay hway _ _
      · rename_i hdone
        exact dispatch_onTheirWay hway (hsafe hdone)
  | drainCompleted order => exact ⟨hvisible, start_onTheirWay hway _⟩
  | run i c =>
      show Kept (s.runProducer cfg i c)
      unfold State.runProducer
      split
      · exact ⟨hvisible, hway⟩
      · rename_i t ht
        refine ⟨?_, resume_onTheirWay hway ht (next_advances cfg s t c)⟩
        have hnext : Visible (t.next cfg s c).1 := next_visible hvisible (hsafe t ht)
        dsimp only
        unfold State.resume
        split
        · exact hnext
        · exact hnext

/-- **In every run of safe actions edits stay visible and no enqueued position is dropped.** -/
theorem kept_of_reached (cfg : Config α) (s : State α)
    (h : (system cfg).Reached (SafeAction cfg) s) : Kept s := by
  refine h.invariant (P := Kept) ?_ ?_
  · rintro s ⟨disk, rfl⟩
    exact ⟨nofun, nofun⟩
  · intro s a hkept henabled hsafe
    exact apply_kept hkept henabled hsafe

/-! ## Two joins -/

/-- Numbers for contents, all generated as 0. -/
def numbers : Config Nat := ⟨4, 3, fun _ => 0⟩

/-- A player joins an empty world and edits the spawn chunk. -/
def firstJoin : List (Action Nat) :=
  [.handlePlay 0, .run 0 ⟨0, none, 0⟩, .store (.edit ⟨0#32, 0#32⟩ 2)]

/-- Another player joins. -/
def secondJoin : List (Action Nat) := [.handlePlay 0, .run 1 ⟨0, none, 1⟩]

/-- The first join: the edit is there. -/
theorem kept_firstJoin :
    Kept (firstJoin.foldl (system numbers).apply (State.new fun _ => none)) := by
  refine kept_of_reached numbers _ (StepSystem.Reached.foldl (.init ⟨fun _ => none, rfl⟩) ?_)
  refine ⟨trivial, trivial, Nat.zero_lt_one, ?_, ⟨trivial, rfl⟩, trivial, trivial⟩
  intro t ht
  cases ht
  exact nofun

/-- **A second join replaces the edited spawn chunk** by a generated one. -/
theorem not_forall_kept :
    ¬ ∀ (α : Type) (cfg : Config α) (s : State α),
      (system cfg).Reached (fun _ _ => True) s → Kept s := by
  intro h
  have hreached : (system numbers).Reached (fun _ _ => True)
      ((firstJoin ++ secondJoin).foldl (system numbers).apply (State.new fun _ => none)) := by
    refine StepSystem.Reached.foldl (.init ⟨fun _ => none, rfl⟩) ?_
    exact ⟨trivial, trivial, Nat.zero_lt_one, trivial, ⟨trivial, rfl⟩, trivial, trivial, trivial,
      Nat.one_lt_two, trivial, trivial⟩
  have hvisible := (h Nat numbers _ hreached).visible ⟨0#32, 0#32⟩ 2 rfl
  exact absurd hvisible (by decide)

end ChunkLoading

end Apoptotic
