import Apoptotic.World.ChunkStore

/-!
# Edits the chunk store loses, and when it loses none

Every removal and every clean mark acts on what a task saw earlier.  As long as each of them finds
the chunk clean, or unedited since a clone of it was written, a clone that no edit has overtaken
still holds the contents of its position, and a written one the contents on disk.

Principal results: `next_clones`, `next_saved` — what a task takes over from the access before;
`perform_keeps` — what one access keeps; `noEditLost_of_reached` — no edit is lost in any run of
safe actions; `not_forall_noEditLost` — a failed save loses one.
-/

namespace Apoptotic

namespace ChunkStore

variable {α : Type} {cfg : Config α} {w w' : World α}

/-! ## What a clone says about the store -/

/-- The contents of a position: those in memory, else those a load would give. -/
def World.value (cfg : Config α) (w : World α) (p : ChunkPos) : α :=
  ((w.chunks p).map Entry.contents).getD (w.durable cfg p)

/-- A clone that no edit has overtaken holds the contents of its position. -/
structure Holds (cfg : Config α) (w : World α) (q : ChunkPos × Clone α) : Prop where
  edits_le : q.2.edits ≤ w.edits q.1
  value : Unedited w q.1 q.2 → w.value cfg q.1 = q.2.entry.contents

/-- And if it was written, they are the contents on disk. -/
def Written (cfg : Config α) (w : World α) (q : ChunkPos × Clone α) : Prop :=
  Unedited w q.1 q.2 → w.durable cfg q.1 = q.2.entry.contents

/-- What an access or an edit keeps. -/
structure Keeps (cfg : Config α) (w w' : World α) : Prop where
  noLoss : NoEditLost cfg w'
  holds : ∀ q, Holds cfg w q → Holds cfg w' q
  written : ∀ q, Holds cfg w q → Written cfg w q → Written cfg w' q

theorem Keeps.refl (h : NoEditLost cfg w) : Keeps cfg w w := ⟨h, fun _ hq => hq, fun _ _ hq => hq⟩

theorem value_of_loaded {p : ChunkPos} {e : Entry α} (h : w.chunks p = some e) :
    w.value cfg p = e.contents := by
  simp [World.value, h]

theorem value_of_absent {p : ChunkPos} (h : w.chunks p = none) :
    w.value cfg p = w.durable cfg p := by
  simp [World.value, h]

/-- A fresh clone. -/
theorem holds_clone {p : ChunkPos} {chunk : Clone α} (h : w.clone p = some chunk) :
    Holds cfg w (p, chunk) := by
  obtain ⟨e, he, rfl⟩ := Option.map_eq_some_iff.1 h
  exact ⟨Nat.le_refl _, fun _ => value_of_loaded he⟩

/-- A saved chunk holds the contents on disk. -/
theorem contents_of_saved {p : ChunkPos} {e : Entry α} {saved : List (ChunkPos × Clone α)}
    (h : NoEditLost cfg w) (hsafe : Saved w p saved)
    (hsaved : ∀ q ∈ saved, Holds cfg w q ∧ Written cfg w q) (he : w.chunks p = some e) :
    e.contents = w.durable cfg p := by
  rcases hsafe e he with hclean | ⟨chunk, hmem, hunedited⟩
  · by_contra hne
    rw [h.loaded p e he hne] at hclean
    cases hclean
  · obtain ⟨hholds, hwritten⟩ := hsaved _ hmem
    have hvalue := hholds.value hunedited
    rw [value_of_loaded he] at hvalue
    rw [hvalue, hwritten hunedited]

/-! ## One access -/

theorem drop_keeps {p : ChunkPos} {counted : Bool} (h : NoEditLost cfg w)
    (hdurable : ∀ e, w.chunks p = some e → e.contents = w.durable cfg p) :
    Keeps cfg w (w.drop cfg p counted) := by
  unfold World.drop
  split
  · exact Keeps.refl h
  · rename_i e he
    have hcontents := hdurable e he
    refine ⟨⟨?_, ?_⟩, ?_, fun q _ hq => hq⟩
    · intro p' e' he'
      by_cases hp : p' = p
      · subst hp
        simp at he'
      · exact h.loaded p' e' (by simpa [hp] using he')
    · intro d hd
      rcases List.mem_append.1 hd with hd | hd
      · exact h.dropped d hd
      · rw [List.mem_singleton.1 hd]
        exact hcontents
    · rintro ⟨p', chunk⟩ hq
      refine ⟨hq.edits_le, fun hu => ?_⟩
      have hvalue := hq.value hu
      by_cases hp : p' = p
      · subst hp
        rw [value_of_loaded he] at hvalue
        rw [value_of_absent (by simp)]
        exact hcontents.symm.trans hvalue
      · rw [← hvalue]
        simp [World.value, World.durable, hp]

theorem markClean_keeps {p : ChunkPos} (h : NoEditLost cfg w)
    (hdurable : ∀ e, w.chunks p = some e → e.contents = w.durable cfg p) :
    Keeps cfg w (w.markClean p) := by
  refine ⟨⟨?_, h.dropped⟩, ?_, fun q _ hq => hq⟩
  · intro p' e' he' hne
    by_cases hp : p' = p
    · subst hp
      simp only [World.markClean, Function.update_self] at he'
      obtain ⟨e, he, rfl⟩ := Option.map_eq_some_iff.1 he'
      exact absurd (hdurable e he) hne
    · exact h.loaded p' e' (by simpa [World.markClean, hp] using he') hne
  · rintro ⟨p', chunk⟩ hq
    refine ⟨hq.edits_le, fun hu => ?_⟩
    rw [← hq.value hu]
    by_cases hp : p' = p
    · subst hp
      cases he : w.chunks p' with
      | none => simp [World.value, World.markClean, World.durable, he]
      | some e => simp [World.value, World.markClean, he]
    · simp [World.value, World.markClean, World.durable, hp]

theorem durable_write (p p' : ChunkPos) (chunk : Clone α) : (w.write p chunk).durable cfg p' =
    if p' = p then chunk.entry.contents else w.durable cfg p' := by
  by_cases hp : p' = p
  · subst hp
    simp [World.durable, World.write]
  · simp [World.durable, World.write, hp]

theorem write_keeps {p : ChunkPos} {chunk : Clone α} (h : NoEditLost cfg w)
    (hq : Holds cfg w (p, chunk)) (hu : Unedited w p chunk) : Keeps cfg w (w.write p chunk) := by
  have hvalue := hq.value hu
  refine ⟨⟨?_, h.dropped⟩, ?_, ?_⟩
  · intro p' e he hne
    rw [durable_write] at hne
    split at hne
    · rename_i hp
      subst hp
      exact absurd ((value_of_loaded (w := w) he).symm.trans hvalue) hne
    · exact h.loaded p' e he hne
  · rintro ⟨p', chunk'⟩ hq'
    refine ⟨hq'.edits_le, fun hu' => ?_⟩
    have hvalue' := hq'.value hu'
    cases he : w.chunks p' with
    | some e =>
        rw [value_of_loaded he] at hvalue'
        rw [value_of_loaded (w := w.write p chunk) he]
        exact hvalue'
    | none =>
        rw [value_of_absent (w := w.write p chunk) he, durable_write]
        split
        · rename_i hp
          subst hp
          exact hvalue.symm.trans hvalue'
        · rw [value_of_absent he] at hvalue'
          exact hvalue'
  · rintro ⟨p', chunk'⟩ hq' hw hu'
    rw [durable_write]
    split
    · rename_i hp
      subst hp
      exact hvalue.symm.trans (hq'.value hu')
    · exact hw hu'

/-- **A safe access keeps what the clones say and loses no edit.** -/
theorem perform_keeps {effect : Effect α} {saved : List (ChunkPos × Clone α)}
    (h : NoEditLost cfg w) (hsafe : SafeEffect w saved effect)
    (hsaved : ∀ q ∈ saved, Holds cfg w q ∧ Written cfg w q)
    (hwrite : ∀ p chunk, effect = .write p chunk → Holds cfg w (p, chunk)) :
    Keeps cfg w (w.perform cfg effect) := by
  cases effect with
  | none => exact Keeps.refl h
  | drop p counted => exact drop_keeps h fun e he => contents_of_saved h hsafe hsaved he
  | markClean p => exact markClean_keeps h fun e he => contents_of_saved h hsafe hsaved he
  | write p chunk => exact write_keeps h (hwrite p chunk rfl) hsafe

/-- An access that finds a chunk whose contents were not the last ones written loses them. -/
theorem drop_loses {p : ChunkPos} {counted : Bool} {e : Entry α} (he : w.chunks p = some e)
    (hne : e.contents ≠ w.durable cfg p) : ¬ NoEditLost cfg (w.drop cfg p counted) := by
  intro h
  refine hne (h.dropped ⟨p, e.contents, w.durable cfg p⟩ ?_)
  simp [World.drop, he]

theorem markClean_loses {p : ChunkPos} {e : Entry α} (he : w.chunks p = some e)
    (hne : e.contents ≠ w.durable cfg p) : ¬ NoEditLost cfg (w.markClean p) := by
  intro h
  have hdirty := h.loaded p { e with dirty := false } (by simp [World.markClean, he]) hne
  cases hdirty

/-! ## Edits and insertions -/

/-- An edit overtakes every clone of its position. -/
theorem holds_of_overtaken {p : ChunkPos} (hedits : w'.edits = Function.update w.edits p (w.edits p + 1))
    (hvalue : ∀ p', p' ≠ p → w'.value cfg p' = w.value cfg p') {q : ChunkPos × Clone α}
    (hq : Holds cfg w q) : Holds cfg w' q ∧ (Unedited w' q.1 q.2 → q.1 ≠ p) := by
  obtain ⟨p', chunk⟩ := q
  have hle := hq.edits_le
  unfold Unedited
  by_cases hp : p' = p
  · subst hp
    have hne : ¬ chunk.edits = w'.edits p' := by
      rw [hedits, Function.update_self]
      dsimp only at hle
      omega
    refine ⟨⟨?_, fun hu => absurd hu hne⟩, fun hu => absurd hu hne⟩
    rw [hedits, Function.update_self]
    exact Nat.le_succ_of_le hle
  · refine ⟨⟨?_, fun hu => ?_⟩, fun _ => hp⟩
    · rw [hedits, Function.update_of_ne hp]
      exact hle
    · rw [hvalue p' hp]
      exact hq.value (by
        unfold Unedited at hu ⊢
        rwa [hedits, Function.update_of_ne hp] at hu)

theorem edit_keeps {p : ChunkPos} {contents : α} (h : NoEditLost cfg w) :
    Keeps cfg w (w.edit p contents) := by
  have hvalue : ∀ p', p' ≠ p → (w.edit p contents).value cfg p' = w.value cfg p' := by
    intro p' hp
    simp [World.value, World.edit, World.durable, hp]
  refine ⟨⟨?_, h.dropped⟩, fun q hq => (holds_of_overtaken rfl hvalue hq).1, ?_⟩
  · intro p' e' he' hne
    by_cases hp : p' = p
    · subst hp
      simp only [World.edit, Function.update_self] at he'
      obtain ⟨e, he, rfl⟩ := Option.map_eq_some_iff.1 he'
      rfl
    · exact h.loaded p' e' (by simpa [World.edit, hp] using he') hne
  · intro q hq hw hu
    have hp := (holds_of_overtaken rfl hvalue hq).2 hu
    exact hw (by
      unfold Unedited at hu ⊢
      simpa [World.edit, hp] using hu)

theorem insert_keeps {p : ChunkPos} {e : Entry α} (h : NoEditLost cfg w) (hold : Saved w p [])
    (hnew : e.dirty = true ∨ e.contents = w.durable cfg p) : Keeps cfg w (w.insert cfg p e) := by
  have hvalue : ∀ p', p' ≠ p → (w.insert cfg p e).value cfg p' = w.value cfg p' := by
    intro p' hp
    simp [World.value, World.insert, World.durable, hp]
  refine ⟨⟨?_, ?_⟩, fun q hq => (holds_of_overtaken rfl hvalue hq).1, ?_⟩
  · intro p' e' he' hne
    by_cases hp : p' = p
    · subst hp
      simp only [World.insert, Function.update_self] at he'
      cases he'
      exact hnew.resolve_right hne
    · exact h.loaded p' e' (by simpa [World.insert, hp] using he') hne
  · intro d hd
    rcases List.mem_append.1 hd with hd | hd
    · exact h.dropped d hd
    · obtain ⟨old, hchunk, rfl⟩ := Option.map_eq_some_iff.1 (Option.mem_toList.1 hd)
      exact contents_of_saved h hold (by simp) hchunk
  · intro q hq hw hu
    have hp := (holds_of_overtaken rfl hvalue hq).2 hu
    exact hw (by
      unfold Unedited at hu ⊢
      simpa [World.insert, hp] using hu)

/-! ## What a task takes over -/

/-- The clones a task holds. -/
def Task.clones : Task α → List (ChunkPos × Clone α)
  | .flushSave key chunk _ => [(key, chunk)]
  | .flushRemove _ saved _ => saved
  | .writebackSave key chunk _ => [(key, chunk)]
  | .writebackMark key chunk _ => [(key, chunk)]
  | .snapshot _ found => found
  | .saveLinear todo chunks saved => todo ++ chunks ++ saved
  | .collectEvicted _ _ found => found
  | .writeChunks todo saved _ => todo ++ saved
  | .markAll _ saved => saved
  | .removeEvicted _ saved => saved
  | _ => []

theorem saved_subset_clones (t : Task α) : t.saved ⊆ t.clones := by
  intro q hq
  cases t with
  | flushRemove key saved keys => exact hq
  | writebackMark key chunk keys => exact hq
  | saveLinear todo chunks saved => exact List.mem_append_right _ hq
  | writeChunks todo saved after => exact List.mem_append_right _ hq
  | markAll todo saved => exact hq
  | removeEvicted todo saved => exact hq
  | checkCapacity => cases hq
  | sweep purpose todo found => cases hq
  | evictClean keys remaining => cases hq
  | flush keys => cases hq
  | flushSave key chunk keys => cases hq
  | writeback keys => cases hq
  | writebackSave key chunk keys => cases hq
  | unload keys => cases hq
  | snapshot todo found => cases hq
  | collectEvicted todo evicted found => cases hq

theorem mem_collect {p : ChunkPos} {found : List (ChunkPos × Clone α)} {q : ChunkPos × Clone α}
    (h : q ∈ w.collect p found) : q ∈ found ∨ w.clone q.1 = some q.2 := by
  unfold World.collect at h
  split at h
  · rename_i chunk hclone
    split at h
    · rcases List.mem_append.1 h with h | h
      · exact Or.inl h
      · rw [List.mem_singleton.1 h]
        exact Or.inr hclone
    · exact Or.inl h
  · exact Or.inl h

theorem swept_clones {c : Choice} {found : List ChunkPos} {purpose : Purpose} {t : Task α}
    (h : w.swept cfg c found purpose = some t) : t.clones = [] ∧ t.saved = [] := by
  cases purpose with
  | evict count => cases h; exact ⟨rfl, rfl⟩
  | flush count => cases h; exact ⟨rfl, rfl⟩
  | countDirty =>
      unfold World.swept at h
      dsimp only at h
      split at h
      · cases h
      · cases h; exact ⟨rfl, rfl⟩
  | writeback toFlush => cases h; exact ⟨rfl, rfl⟩
  | unload keep => cases h; exact ⟨rfl, rfl⟩

/-- What the task after an access `effect` may hold, if the task before it was `t`. -/
structure Follows (w : World α) (t : Task α) (effect : Effect α) (t' : Task α) : Prop where
  clones : ∀ q ∈ t'.clones, q ∈ t.clones ∨ w.clone q.1 = some q.2
  saved : ∀ q ∈ t'.saved, q ∈ t.saved ∨ effect = .write q.1 q.2

theorem Follows.of_nil {t t' : Task α} {effect : Effect α} (h : t'.clones = [] ∧ t'.saved = []) :
    Follows w t effect t' :=
  ⟨fun q hq => absurd hq (by simp [h.1]), fun q hq => absurd hq (by simp [h.2])⟩

/-- A task that holds no more than before. -/
theorem Follows.of_subset {t t' : Task α} {effect : Effect α} (hc : t'.clones ⊆ t.clones)
    (hs : t'.saved ⊆ t.saved) : Follows w t effect t' :=
  ⟨fun _ hq => Or.inl (hc hq), fun _ hq => Or.inl (hs hq)⟩

/-- The task after a successful write holds the clone it wrote. -/
theorem Follows.of_write {t t' : Task α} {p : ChunkPos} {chunk : Clone α}
    (hc : t'.clones ⊆ t.clones) (hs : t'.saved ⊆ t.saved ++ [(p, chunk)]) :
    Follows w t (.write p chunk) t' := by
  refine ⟨fun _ hq => Or.inl (hc hq), fun q hq => ?_⟩
  rcases List.mem_append.1 (hs hq) with hq | hq
  · exact Or.inl hq
  · rw [List.mem_singleton.1 hq]
    exact Or.inr rfl

/-- The task after a read holds the clone it read. -/
theorem Follows.of_clone {t t' : Task α} {effect : Effect α} {p : ChunkPos} {chunk : Clone α}
    (hclone : w.clone p = some chunk) (hc : t'.clones = [(p, chunk)]) (hs : t'.saved = []) :
    Follows w t effect t' := by
  refine ⟨fun q hq => ?_, fun q hq => absurd hq (by simp [hs])⟩
  rw [hc] at hq
  rw [List.mem_singleton.1 hq]
  exact Or.inr hclone

theorem next_follows {t t' : Task α} {c : Choice} {effect : Effect α}
    (h : t.next cfg w c = (effect, some t')) : Follows w t effect t' := by
  unfold Task.next at h
  split at h
  -- checkCapacity, sweep
  · dsimp only at h
    split at h
    · cases h; exact Follows.of_nil ⟨rfl, rfl⟩
    · cases h
  · cases h; exact Follows.of_nil ⟨rfl, rfl⟩
  · exact Follows.of_nil (swept_clones (Prod.mk.inj h).2)
  -- evictClean
  · cases h; exact Follows.of_nil ⟨rfl, rfl⟩
  · split at h
    · cases h; exact Follows.of_nil ⟨rfl, rfl⟩
    · cases h
  -- flush, flushSave, flushRemove
  · split at h
    · rename_i chunk hclone
      cases h
      exact Follows.of_clone hclone rfl rfl
    · cases h; exact Follows.of_nil ⟨rfl, rfl⟩
  · cases h
  · split at h
    · cases h; exact Follows.of_write (List.Subset.refl _) (List.Subset.refl _)
    · cases h; exact Follows.of_nil ⟨rfl, rfl⟩
  · cases h; exact Follows.of_nil ⟨rfl, rfl⟩
  -- writeback, writebackSave, writebackMark
  · split at h
    · rename_i chunk hclone
      cases h
      exact Follows.of_clone hclone rfl rfl
    · cases h; exact Follows.of_nil ⟨rfl, rfl⟩
  · cases h
  · split at h
    · cases h; exact Follows.of_write (List.Subset.refl _) (List.Subset.refl _)
    · cases h; exact Follows.of_nil ⟨rfl, rfl⟩
  · cases h; exact Follows.of_nil ⟨rfl, rfl⟩
  -- unload
  · cases h; exact Follows.of_nil ⟨rfl, rfl⟩
  · cases h
  -- snapshot, saveLinear
  · cases h
    exact ⟨fun q hq => mem_collect hq, nofun⟩
  · split at h
    · cases h
    · cases h
      refine Follows.of_subset ?_ (List.Subset.refl _)
      intro q hq
      simpa [Task.clones] using hq
  · split at h
    · cases h
      refine Follows.of_write ?_ (List.Subset.refl _)
      intro q hq
      simp only [Task.clones, List.mem_append, List.mem_cons] at hq ⊢
      tauto
    · cases h
      refine Follows.of_subset ?_ (List.Subset.refl _)
      intro q hq
      simp only [Task.clones, List.mem_append, List.mem_cons] at hq ⊢
      tauto
  · split at h
    · cases h
      exact Follows.of_subset (List.subset_append_right _ _) (List.Subset.refl _)
    · cases h
      refine Follows.of_subset ?_ (List.nil_subset _)
      intro q hq
      simpa [Task.clones] using Or.inl hq
  -- collectEvicted
  · cases h
    exact ⟨fun q hq => mem_collect hq, nofun⟩
  · cases h
    refine Follows.of_subset ?_ (List.nil_subset _)
    intro q hq
    simpa [Task.clones] using hq
  -- writeChunks
  · split at h
    · cases h
      refine Follows.of_write ?_ (List.Subset.refl _)
      intro q hq
      simp only [Task.clones, List.mem_append, List.mem_cons] at hq ⊢
      tauto
    · split at h
      · cases h
      · cases h
        exact Follows.of_subset (List.subset_append_right _ _) (List.Subset.refl _)
  · split at h
    · cases h
      exact Follows.of_subset (List.Subset.refl _) (List.Subset.refl _)
    · cases h
      exact Follows.of_subset (List.Subset.refl _) (List.Subset.refl _)
  -- markAll, removeEvicted
  · cases h; exact Follows.of_subset (List.Subset.refl _) (List.Subset.refl _)
  · cases h
  · cases h; exact Follows.of_subset (List.Subset.refl _) (List.Subset.refl _)
  · cases h

/-- A task writes only clones it holds. -/
theorem next_write {t : Task α} {c : Choice} {p : ChunkPos} {chunk : Clone α}
    (h : (t.next cfg w c).1 = .write p chunk) : (p, chunk) ∈ t.clones := by
  unfold Task.next at h
  split at h
  case h_8 =>
    split at h
    · cases h; exact List.mem_singleton_self _
    · cases h
  case h_12 =>
    split at h
    · cases h; exact List.mem_singleton_self _
    · cases h
  case h_18 =>
    split at h
    · cases h
      exact List.mem_append_left _ (List.mem_append_left _ List.mem_cons_self)
    · cases h
  case h_22 =>
    split at h
    · cases h
      exact List.mem_append_left _ List.mem_cons_self
    · split at h
      · cases h
      · cases h
  all_goals
    first
      | cases h
      | (split at h <;> cases h)

/-! ## Runs -/

/-- What a task holds is true of the store. -/
structure TaskOk (cfg : Config α) (w : World α) (t : Task α) : Prop where
  holds : ∀ q ∈ t.clones, Holds cfg w q
  written : ∀ q ∈ t.saved, Written cfg w q

structure Inv (cfg : Config α) (w : World α) : Prop where
  noLoss : NoEditLost cfg w
  tasks : ∀ t ∈ w.tasks, TaskOk cfg w t

theorem TaskOk.keeps {t : Task α} (h : TaskOk cfg w t) (hk : Keeps cfg w w') : TaskOk cfg w' t :=
  ⟨fun q hq => hk.holds q (h.holds q hq), fun q hq =>
    hk.written q (h.holds q (saved_subset_clones t hq)) (h.written q hq)⟩

theorem TaskOk.of_nil {t : Task α} (hc : t.clones = []) : TaskOk cfg w t := by
  have hs : t.saved = [] := List.subset_nil.1 (hc ▸ saved_subset_clones t)
  exact ⟨by simp [hc], by simp [hs]⟩

/-- Holding and being written depend on the map, the disk and the edits only. -/
theorem TaskOk.congr {t : Task α} (h : TaskOk cfg w t) (hc : w'.chunks = w.chunks)
    (hl : w'.lastWrite = w.lastWrite) (he : w'.edits = w.edits) : TaskOk cfg w' t := by
  have hd : ∀ p, w'.durable cfg p = w.durable cfg p := fun p => by simp [World.durable, hl]
  have hv : ∀ p, w'.value cfg p = w.value cfg p := fun p => by simp [World.value, hc, hd]
  refine ⟨fun q hq => ⟨?_, fun hu => ?_⟩, fun q hq hu => ?_⟩
  · rw [he]
    exact (h.holds q hq).edits_le
  · rw [hv]
    exact (h.holds q hq).value (by unfold Unedited at hu ⊢; rwa [he] at hu)
  · rw [hd]
    exact h.written q hq (by unfold Unedited at hu ⊢; rwa [he] at hu)

theorem NoEditLost.congr (h : NoEditLost cfg w) (hc : w'.chunks = w.chunks)
    (hl : w'.lastWrite = w.lastWrite) (hd : w'.drops = w.drops) : NoEditLost cfg w' := by
  refine ⟨fun p e he hne => ?_, fun d hmem => h.dropped d (by rwa [hd] at hmem)⟩
  rw [hc] at he
  exact h.loaded p e he (by simpa [World.durable, hl] using hne)

/-- The store after an access or an edit, with tasks that hold what is true of it. -/
theorem Inv.of_keeps (h : Inv cfg w) (hk : Keeps cfg w w') {tasks : List (Task α)}
    (htasks : ∀ t ∈ tasks, t ∈ w.tasks ∨ TaskOk cfg w' t) :
    Inv cfg { w' with tasks := tasks } := by
  refine ⟨hk.noLoss.congr rfl rfl rfl, fun t ht => ?_⟩
  have hok : TaskOk cfg w' t := by
    rcases htasks t ht with ht | ht
    · exact (h.tasks t ht).keeps hk
    · exact ht
  exact hok.congr rfl rfl rfl

theorem perform_tasks (effect : Effect α) : (w.perform cfg effect).tasks = w.tasks := by
  cases effect with
  | none => rfl
  | drop p counted =>
      show (w.drop cfg p counted).tasks = w.tasks
      unfold World.drop
      split
      · rfl
      · rfl
  | markClean p => rfl
  | write p chunk => rfl

theorem start_inv (h : Inv cfg w) {t : Task α} (hc : t.clones = []) : Inv cfg (w.start t) := by
  refine h.of_keeps (Keeps.refl h.noLoss) fun t' ht' => ?_
  rcases List.mem_append.1 ht' with ht' | ht'
  · exact Or.inl ht'
  · rw [List.mem_singleton.1 ht']
    exact Or.inr (TaskOk.of_nil hc)

/-- **A safe access of a running task.** -/
theorem runTask_inv (h : Inv cfg w) {i : Nat} {c : Choice}
    (hsafe : ∀ t, w.tasks[i]? = some t → SafeEffect w t.saved (t.next cfg w c).1) :
    Inv cfg (w.runTask cfg i c) := by
  unfold World.runTask
  split
  · exact h
  · rename_i t ht
    have hmem : t ∈ w.tasks := List.mem_of_getElem? ht
    have hok := h.tasks t hmem
    have hk : Keeps cfg w (w.perform cfg (t.next cfg w c).1) := by
      refine perform_keeps h.noLoss (hsafe t ht) (fun q hq => ?_) fun p chunk hw => ?_
      · exact ⟨hok.holds q (saved_subset_clones t hq), hok.written q hq⟩
      · exact hok.holds _ (next_write hw)
    dsimp only
    unfold World.resume
    split
    · rename_i t' ht'
      have hfollows : Follows w t (t.next cfg w c).1 t' := next_follows
        (show t.next cfg w c = ((t.next cfg w c).1, some t') by rw [← ht'])
      refine h.of_keeps hk fun u hu => ?_
      rw [perform_tasks] at hu
      rcases List.mem_or_eq_of_mem_set hu with hu | rfl
      · exact Or.inl hu
      · refine Or.inr ⟨fun q hq => ?_, fun q hq => ?_⟩
        · rcases hfollows.clones q hq with hq | hq
          · exact hk.holds q (hok.holds q hq)
          · exact hk.holds q (holds_clone hq)
        · rcases hfollows.saved q hq with hq | hq
          · exact hk.written q (hok.holds q (saved_subset_clones t hq)) (hok.written q hq)
          · intro _
            rw [hq]
            show (w.write q.1 q.2).durable cfg q.1 = q.2.entry.contents
            rw [durable_write, if_pos rfl]
    · refine h.of_keeps hk fun u hu => ?_
      rw [perform_tasks] at hu
      exact Or.inl (List.mem_of_mem_eraseIdx hu)

theorem apply_inv {a : Action α} (h : Inv cfg w) (hsafe : SafeAction cfg w a) :
    Inv cfg ((system cfg).apply w a) := by
  cases a with
  | edit p contents =>
      exact h.of_keeps (edit_keeps h.noLoss) fun t ht => Or.inl ht
  | insert p e =>
      have hk := insert_keeps h.noLoss hsafe.1 hsafe.2
      refine h.of_keeps hk fun t ht => ?_
      rcases List.mem_append.1 ht with ht | ht
      · exact Or.inl ht
      · rw [List.mem_singleton.1 ht]
        exact Or.inr (TaskOk.of_nil rfl)
  | remove p =>
      have hk : Keeps cfg w (w.perform cfg (.drop p false)) :=
        perform_keeps h.noLoss (show SafeEffect w [] (.drop p false) from hsafe) (by simp) nofun
      have htasks : (w.drop cfg p false).tasks = w.tasks := perform_tasks (.drop p false)
      exact h.of_keeps hk fun t ht => Or.inl (htasks ▸ ht)
  | flushDirtyLru count order => exact start_inv h rfl
  | proactiveWriteback order => exact start_inv h rfl
  | unloadDistant keep order => exact start_inv h rfl
  | autosave order => exact start_inv h rfl
  | evictDistant evicted => exact start_inv h rfl
  | run i c => exact runTask_inv h hsafe

theorem new_inv (disk : ChunkPos → Option α) : Inv cfg (World.new disk) :=
  ⟨⟨nofun, nofun⟩, nofun⟩

/-- **No edit is lost in any state that safe actions reach**, whatever the interleaving. -/
theorem noEditLost_of_reached (cfg : Config α) (w : World α)
    (h : (system cfg).Reached (SafeAction cfg) w) : NoEditLost cfg w := by
  refine (h.invariant (P := Inv cfg) ?_ ?_).noLoss
  · rintro w ⟨disk, rfl⟩
    exact new_inv disk
  · intro w a hinv _ hsafe
    exact apply_inv hinv hsafe

/-! ## Two autosaves -/

theorem only_update {p : ChunkPos} {chunks : ChunkPos → Option (Entry α)} {e : Option (Entry α)}
    (h : ∀ p', p' ≠ p → chunks p' = none) (p' : ChunkPos) (hp : p' ≠ p) :
    Function.update chunks p e p' = none := by
  rw [Function.update_of_ne hp, h p' hp]

/-- A sweep over a store with one chunk at most. -/
theorem covers_update {p : ChunkPos} {chunks : ChunkPos → Option (Entry α)} {e : Option (Entry α)}
    (h : ∀ p', p' ≠ p → chunks p' = none) (hw : w.chunks = Function.update chunks p e) :
    Covers w [p] := by
  refine ⟨List.nodup_singleton p, fun p' hp' => ?_⟩
  by_contra hne
  rw [hw, only_update h p' (by simpa using hne)] at hp'
  cases hp'

/-- A store of numbers, all generated as 0. -/
def numbers : Config Nat := ⟨4, 3, fun _ => 0⟩

def origin : ChunkPos := ⟨0#32, 0#32⟩

/-- A new chunk, and an autosave that has cloned it and comes to its write. -/
def autosaveStart : List (Action Nat) :=
  [.insert origin ⟨1, true, 0⟩, .autosave [origin], .run 1 ⟨true, [origin]⟩,
    .run 1 ⟨true, [origin]⟩]

/-- The write, the start of `mark_all_clean` and its only mark. -/
def autosaveEnd : List (Action Nat) :=
  [.run 1 ⟨true, [origin]⟩, .run 1 ⟨true, [origin]⟩, .run 1 ⟨true, [origin]⟩]

/-- An undisturbed autosave. -/
theorem noEditLost_autosave : NoEditLost numbers
    ((autosaveStart ++ autosaveEnd).foldl (system numbers).apply (World.new fun _ => none)) := by
  refine noEditLost_of_reached numbers _
    (StepSystem.Reached.foldl (.init ⟨fun _ => none, rfl⟩) ?_)
  have only : ∀ p', p' ≠ origin → (fun _ => none : ChunkPos → Option (Entry Nat)) p' = none :=
    fun _ _ => rfl
  refine ⟨trivial, ⟨nofun, Or.inl rfl⟩, covers_update only rfl, trivial,
    ⟨by decide, covers_update only rfl⟩, ?_, ⟨by decide, covers_update only rfl⟩, ?_,
    ⟨by decide, covers_update only rfl⟩, ?_, ⟨by decide, covers_update only rfl⟩, ?_,
    ⟨by decide, covers_update only rfl⟩, ?_, trivial⟩
  · intro t ht
    cases ht
    exact trivial
  · intro t ht
    cases ht
    exact trivial
  -- the write and the mark
  · intro t ht
    cases ht
    exact rfl
  · intro t ht
    cases ht
    exact trivial
  · intro t ht
    cases ht
    exact fun _ _ => Or.inr ⟨_, List.mem_singleton_self _, rfl⟩

/-- **An edit between the clone and `mark_all_clean` is lost**: the chunk is marked clean with
contents that were never written. -/
theorem not_forall_noEditLost :
    ¬ ∀ (α : Type) (cfg : Config α) (w : World α),
      (system cfg).Reached (fun _ _ => True) w → NoEditLost cfg w := by
  intro h
  have only : ∀ p', p' ≠ origin → (fun _ => none : ChunkPos → Option (Entry Nat)) p' = none :=
    fun _ _ => rfl
  have only' := only_update (e := some ⟨1, true, 0⟩) only
  have hreached : (system numbers).Reached (fun _ _ => True)
      ((autosaveStart ++ .edit origin 2 :: autosaveEnd).foldl (system numbers).apply
        (World.new fun _ => none)) := by
    refine StepSystem.Reached.foldl (.init ⟨fun _ => none, rfl⟩) ?_
    exact ⟨trivial, trivial, covers_update only rfl, trivial,
      ⟨by decide, covers_update only rfl⟩, trivial, ⟨by decide, covers_update only rfl⟩, trivial,
      rfl, trivial, ⟨by decide, covers_update only' rfl⟩, trivial,
      ⟨by decide, covers_update only' rfl⟩, trivial, ⟨by decide, covers_update only' rfl⟩, trivial,
      trivial⟩
  have hdirty := (h Nat numbers _ hreached).loaded origin ⟨2, false, 0⟩ rfl (by decide)
  cases hdirty

end ChunkStore

end Apoptotic
