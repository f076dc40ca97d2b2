import Apoptotic.World.ChunkLoading
import Apoptotic.World.CorruptChunks

/-!
# Saved edits

The chunk store and its producers over the files they save to and load from: `save_chunk_linear` and
`load_from_disk_linear` of `mc-world/src/chunk_store.rs` with all their callers, `generate_parallel`, the
saves of `/save-all` and of the shutdown, and a restart.  Autosave, `/save-all` and shutdown save next to
the executable, the calls of the store under the current directory, and a load tries the latter first.

No loader reads a region file, as nothing calls `try_load_from_disk`, so a write by `write_chunks` is
only recorded as the last one.  `lz4_flex` is a pair of functions.

Principal result: `along_seenAgain` — what comes back is what was saved last, along every run whose
saves are Linear files that are read as they were written, before any chunk is read for the position, and
whose connections generate no chunk that was saved.
-/

namespace Apoptotic.SavedEdits

open Bytes
open ChunkStore (Config World Entry Clone Choice Effect)
open ChunkLoading (Producer Pick)

/-! ## Files -/

/-- The store's configuration, the two directories with a `data/world/region`, and
`compress_prepend_size` with `decompress_size_prepended`. -/
structure Server where
  config : Config Sections
  currentDir : String
  serverRoot : String
  compress : List Byte → List Byte
  decompress : List Byte → Option (List Byte)

/-- The Linear files of the directories. -/
abbrev Files := String → ChunkPos → Option (List Byte)

variable (srv : Server)

/-- The bytes that `save_chunk_linear` writes. -/
def saveChunkLinear (chunk : Chunk) : List Byte :=
  let compressed := srv.compress (serializeChunkBinary chunk)
  toLe 4 chunk.position.x.toNat ++ (toLe 4 chunk.position.z.toNat ++ (0#8 ::
    (toLe 4 compressed.length ++ compressed)))

/-- A file that cannot be read is as good as none. -/
def sectionsRead : Outcome String Chunk → Option Sections
  | .ok chunk => some chunk.sections
  | _ => none

/-- The chunk in one of the files. -/
def readLinear (data : List Byte) : Option Sections :=
  sectionsRead (loadLinearFile srv.decompress data)

/-- `load_from_disk_linear` -/
def loadFromDiskLinear (files : Files) (p : ChunkPos) : Option Sections :=
  [srv.currentDir, srv.serverRoot].findSome? fun dir => (files dir p).bind (readLinear srv)

/-- The file of the position now holds these bytes, or is as it was. -/
def writeFile (files : Files) (dir : String) (p : ChunkPos) : Option (List Byte) → Files
  | some data => Function.update files dir (Function.update (files dir) p (some data))
  | none => files

/-- The chunk that the next access of a task saves with `save_chunk_linear`, and where. -/
def linearSave : ChunkStore.Task Sections → Option (String × ChunkPos × Clone Sections)
  | .flushSave p chunk _ => some (srv.currentDir, p, chunk)
  | .writebackSave p chunk _ => some (srv.currentDir, p, chunk)
  | .saveLinear ((p, chunk) :: _) _ _ =>
      if chunk.entry.dirty then some (srv.serverRoot, p, chunk) else none
  | _ => none

/-! ## Runs -/

/-- A call that is not one of the store's, and where it stands. -/
inductive Job where
  /-- `generate_parallel`: positions to look at, chunks to insert. -/
  | generate (todo : List ChunkPos) (generated : List (ChunkPos × Entry Sections))
  /-- `/save-all` and the shutdown: `dirty_chunks`. -/
  | snapshot (todo : List ChunkPos) (found : List (ChunkPos × Clone Sections))
  | save (todo : List (ChunkPos × Clone Sections))

structure State where
  loading : ChunkLoading.State Sections
  files : Files
  jobs : List Job

def State.new : State := ⟨ChunkLoading.State.new fun _ => none, fun _ _ => none, []⟩

inductive Action where
  /-- What the store and its producers do; `leftover` is what a save that fails leaves in the file. -/
  | loading (a : ChunkLoading.Action Sections) (leftover : Option (List Byte))
  | generateParallel (positions : List ChunkPos)
  | saveAll (order : List ChunkPos)
  /-- The next step of the job `i`, with the global LRU counter; `ok` and `leftover` are of a save. -/
  | run (i lruOrder : Nat) (ok : Bool) (leftover : Option (List Byte))
  | restart

namespace State

variable (s : State)

/-- The last successful save of the position. -/
def saved (p : ChunkPos) : Option Sections := s.loading.store.lastWrite p

def Absent (p : ChunkPos) : Prop := s.loading.store.chunks p = none

/-- The chunk that a load of the position makes: from the disk, else generated. -/
def load (p : ChunkPos) (lruOrder : Nat) : Entry Sections :=
  ⟨(loadFromDiskLinear srv s.files p).getD (srv.config.generate p), false, lruOrder⟩

/-- What a save leaves in the file. -/
def afterSave (dir : String) (p : ChunkPos) (chunk : Clone Sections) (ok : Bool)
    (leftover : Option (List Byte)) : Files :=
  writeFile s.files dir p
    (if ok then some (saveChunkLinear srv ⟨p, chunk.entry.contents, chunk.entry.dirty⟩) else leftover)

/-- The files after the next access of a task of the store. -/
def afterTask (t : Option (ChunkStore.Task Sections)) (ok : Bool) (leftover : Option (List Byte)) :
    Files :=
  match t.bind (linearSave srv) with
  | some (dir, p, chunk) => s.afterSave srv dir p chunk ok leftover
  | none => s.files

/-- A producer reads the files, where the model of the producers leaves the choice open. -/
def pickFile (i : Nat) (c : Pick Sections) : Pick Sections :=
  match s.loading.producers[i]? with
  | some (.batch todo _) =>
      { c with disk := (todo[c.index]?).bind fun p =>
          (loadFromDiskLinear srv s.files p).map fun contents => ⟨contents, false, c.lruOrder⟩ }
  | _ => c

/-- A chunk enters the store through the producers only. -/
def stepLoading (leftover : Option (List Byte)) : ChunkLoading.Action Sections → State
  | .store (.insert _ _) => s
  | .store (.run i c) =>
      { s with
        loading := (ChunkLoading.system srv.config).apply s.loading (.store (.run i c))
        files := s.afterTask srv s.loading.store.tasks[i]? c.ok leftover }
  | .run i c =>
      { s with
        loading := (ChunkLoading.system srv.config).apply s.loading (.run i (s.pickFile srv i c)) }
  | a => { s with loading := (ChunkLoading.system srv.config).apply s.loading a }

def setStore (store : World Sections) : State := { s with loading := { s.loading with store := store } }

/-- One step of a job, and the job after it. -/
def nextJob (lruOrder : Nat) (ok : Bool) (leftover : Option (List Byte)) :
    Job → State × Option Job
  | .generate (p :: todo) generated =>
      if (s.loading.store.chunks p).isSome then (s, some (.generate todo generated))
      else (s, some (.generate todo (generated ++ [(p, s.load srv p lruOrder)])))
  | .generate [] ((p, e) :: generated) =>
      (s.setStore (s.loading.store.insert srv.config p e), some (.generate [] generated))
  | .generate [] [] => (s, none)
  | .snapshot (p :: todo) found =>
      (s, some (.snapshot todo (s.loading.store.collect p found)))
  | .snapshot [] found => (s, some (.save found))
  | .save ((p, chunk) :: todo) =>
      ({ s.setStore (if ok then s.loading.store.write p chunk else s.loading.store) with
          files := s.afterSave srv srv.serverRoot p chunk ok leftover },
        some (.save todo))
  | .save [] => (s, none)

def resume (i : Nat) (j : Option Job) : State :=
  match j with
  | some j => { s with jobs := s.jobs.set i j }
  | none => { s with jobs := s.jobs.eraseIdx i }

/-- The process ends and starts again over the same files. -/
def restarted : State := ⟨ChunkLoading.State.new s.saved, s.files, []⟩

def step : Action → State
  | .loading a leftover => s.stepLoading srv leftover a
  | .generateParallel positions => { s with jobs := s.jobs ++ [.generate positions []] }
  | .saveAll order => { s with jobs := s.jobs ++ [.snapshot order []] }
  | .run i lruOrder ok leftover =>
      match s.jobs[i]? with
      | some j =>
          (s.nextJob srv lruOrder ok leftover j).1.resume i (s.nextJob srv lruOrder ok leftover j).2
      | none => s
  | .restart => s.restarted

end State

/-! ## What comes back -/

/-- The container of a section; one that is not there reads as air. -/
def containerAt (sections : Sections) (i : Fin SECTIONS_PER_CHUNK) : PalettedContainer :=
  ((sections i).map Section.blocks).getD PalettedContainer.new

def SameBlocks (a b : Sections) : Prop :=
  ∀ i, ∀ cell : Cell, (containerAt b i).getCell cell = (containerAt a i).getCell cell

/-- The chunk that the next step of a producer inserts. -/
def installed (c : Pick Sections) : Producer Sections → Option (ChunkPos × Entry Sections)
  | .join (p :: _) => some (p, ChunkLoading.generated srv.config p c.lruOrder)
  | .stream (p :: _) _ => some (p, ChunkLoading.generated srv.config p c.lruOrder)
  | .install p e _ => some (p, e)
  | _ => none

def Job.installed : Job → Option (ChunkPos × Entry Sections)
  | .generate [] (pe :: _) => some pe
  | _ => none

/-- The position that the next step of a producer generates and inserts. -/
def generates : Producer Sections → Option ChunkPos
  | .join (p :: _) => some p
  | .stream (p :: _) _ => some p
  | _ => none

namespace State

variable (s : State)

/-- The chunk that an action inserts. -/
def installs : Action → Option (ChunkPos × Entry Sections)
  | .loading (.run i c) _ => s.loading.producers[i]?.bind (installed srv c)
  | .run i _ _ _ => s.jobs[i]?.bind Job.installed
  | _ => none

/-- **A chunk that was saved and is not in memory comes back with the blocks that were saved last.** -/
def SeenAgain (a : Action) : Prop :=
  ∀ p e, s.installs srv a = some (p, e) → s.Absent p → ∀ b, s.saved p = some b →
    SameBlocks b e.contents

/-- The chunks of a running producer that were read and are still to be inserted. -/
def carried : Producer Sections → List (ChunkPos × Entry Sections)
  | .batch _ generated => generated
  | .install p e _ => [(p, e)]
  | _ => []

def Job.carried : Job → List (ChunkPos × Entry Sections)
  | .generate _ generated => generated
  | _ => []

/-- The chunk was read for the position and is still to be inserted. -/
def Waiting (p : ChunkPos) (e : Entry Sections) : Prop :=
  (∃ t ∈ s.loading.producers, (p, e) ∈ carried t) ∨ s.loading.completed p = some e ∨
    ∃ j ∈ s.jobs, (p, e) ∈ Job.carried j

/-- The blocks are those that were saved last. -/
def Repeats (p : ChunkPos) (contents : Sections) : Prop :=
  ∃ b, s.saved p = some b ∧ SameBlocks b contents

end State

/-- The file that is written reads as the blocks it was written from. -/
def Survives (p : ChunkPos) (contents : Sections) : Prop :=
  ∀ dirty, ∃ b, readLinear srv (saveChunkLinear srv ⟨p, contents, dirty⟩) = some b ∧
    SameBlocks contents b

namespace State

variable (s : State)

/-- A save into a Linear file: it survives, no other file is read before it, and no chunk was read for
the position that has other blocks. -/
structure CarefulLinear (dir : String) (p : ChunkPos) (contents : Sections) : Prop where
  survives : Survives srv p contents
  first : dir = srv.currentDir ∨ s.files srv.currentDir p = none
  waiting : s.Repeats p contents ∨ ∀ e, ¬ s.Waiting p e

/-- A save that fails leaves the file of a saved chunk alone. -/
def CarefulFailure (p : ChunkPos) (leftover : Option (List Byte)) : Prop :=
  (s.saved p).isSome → leftover = none

/-- Saves go into Linear files that will be read, and a region file only repeats what was saved. -/
def CarefulTask (t : ChunkStore.Task Sections) (c : Choice) (leftover : Option (List Byte)) : Prop :=
  match linearSave srv t with
  | some (dir, p, chunk) =>
      if c.ok then s.CarefulLinear srv dir p chunk.entry.contents else s.CarefulFailure p leftover
  | none => ∀ p chunk, (t.next srv.config s.loading.store c).1 = .write p chunk →
      s.Repeats p chunk.entry.contents

def CarefulJob (ok : Bool) (leftover : Option (List Byte)) : Job → Prop
  | .save ((p, chunk) :: _) =>
      if ok then s.CarefulLinear srv srv.serverRoot p chunk.entry.contents
      else s.CarefulFailure p leftover
  | _ => True

/-- Chunks are saved with care, and a connection generates only what was never saved, or was saved as it
is generated. -/
def Careful : Action → Prop
  | .loading (.store (.run i c)) leftover =>
      ∀ t, s.loading.store.tasks[i]? = some t → s.CarefulTask srv t c leftover
  | .loading (.run i _) _ => ∀ t, s.loading.producers[i]? = some t → ∀ p, generates t = some p →
      s.Absent p → ∀ b, s.saved p = some b → SameBlocks b (srv.config.generate p)
  | .run i _ ok leftover => ∀ j, s.jobs[i]? = some j → s.CarefulJob srv ok leftover j
  | _ => True

/-- What the files and the chunks that were read from them would bring back. -/
structure Restorable : Prop where
  load : ∀ p b, s.saved p = some b →
    SameBlocks b ((loadFromDiskLinear srv s.files p).getD (srv.config.generate p))
  waiting : ∀ p e, s.Waiting p e → ∀ b, s.saved p = some b → SameBlocks b e.contents

end State

/-! ## Blocks and files -/

variable {srv} {s s' : State} {p : ChunkPos} {contents : Sections} {files files' : Files}

theorem SameBlocks.refl (a : Sections) : SameBlocks a a := fun _ _ => rfl

/-- Two chunks with the blocks of a third. -/
theorem SameBlocks.of_same {a b c : Sections} (hb : SameBlocks a b) (hc : SameBlocks a c) :
    SameBlocks b c := fun i cell => (hc i cell).trans (hb i cell).symm

theorem loadFromDiskLinear_congr (h : ∀ dir, files' dir p = files dir p) :
    loadFromDiskLinear srv files' p = loadFromDiskLinear srv files p := by
  unfold loadFromDiskLinear
  simp only [h]

theorem writeFile_of_ne {q : ChunkPos} (hq : q ≠ p) (dir : String) (data : Option (List Byte))
    (d : String) : writeFile files dir p data d q = files d q := by
  cases data with
  | none => rfl
  | some data =>
      change Function.update files dir _ d q = _
      by_cases hd : d = dir
      · rw [hd, Function.update_self, Function.update_of_ne hq]
      · rw [Function.update_of_ne hd]

theorem writeFile_self (dir : String) (data : List Byte) :
    writeFile files dir p (some data) dir p = some data := by
  change Function.update files dir _ dir p = _
  rw [Function.update_self, Function.update_self]

theorem writeFile_of_dir_ne {d dir : String} (hd : d ≠ dir) (data : Option (List Byte)) :
    writeFile files dir p data d p = files d p := by
  cases data with
  | none => rfl
  | some data =>
      change Function.update files dir _ d p = _
      rw [Function.update_of_ne hd]

/-- A file that is read first is what a load gives. -/
theorem loadFromDiskLinear_write {dir : String} {data : List Byte} {b : Sections}
    (hdir : dir = srv.currentDir ∨ dir = srv.serverRoot)
    (hfirst : dir = srv.currentDir ∨ files srv.currentDir p = none)
    (hdata : readLinear srv data = some b) :
    loadFromDiskLinear srv (writeFile files dir p (some data)) p = some b := by
  have hread : ((writeFile files dir p (some data)) dir p).bind (readLinear srv) = some b := by
    rw [writeFile_self]
    exact hdata
  unfold loadFromDiskLinear
  rw [List.findSome?_cons]
  by_cases hcur : srv.currentDir = dir
  · rw [hcur, hread]
  · obtain hroot := hdir.resolve_left (Ne.symm hcur)
    rw [writeFile_of_dir_ne hcur, hfirst.resolve_left (Ne.symm hcur), ← hroot]
    change List.findSome? _ [dir] = _
    rw [List.findSome?_cons, hread]

/-! ## What a save does -/

namespace State

/-- What concerns neither the files nor the saves, and may read the files. -/
theorem restorable_congr (h : s.Restorable srv) (hfiles : s'.files = s.files)
    (hsaved : s'.saved = s.saved)
    (hwaiting : ∀ p e, s'.Waiting p e → s.Waiting p e ∨ ∃ l, e = s.load srv p l) :
    s'.Restorable srv where
  load p b hb := by
    rw [hsaved] at hb
    rw [hfiles]
    exact h.load p b hb
  waiting p e he b hb := by
    rw [hsaved] at hb
    rcases hwaiting p e he with he | ⟨l, rfl⟩
    · exact h.waiting p e he b hb
    · exact h.load p b hb

/-- A save that only repeats what was saved leaves what a load gives as good as before. -/
theorem restorable_repeats (h : s.Restorable srv) (hrep : s.Repeats p contents)
    (hfiles : s'.files = s.files) (hsaved : s'.saved = Function.update s.saved p (some contents))
    (hwaiting : ∀ q e, s'.Waiting q e → s.Waiting q e) : s'.Restorable srv := by
  obtain ⟨b₀, hb₀, hsame⟩ := hrep
  constructor
  · intro q b hb
    rw [hsaved] at hb
    rw [hfiles]
    by_cases hq : q = p
    · subst hq
      rw [Function.update_self] at hb
      cases hb
      exact hsame.of_same (h.load q b₀ hb₀)
    · rw [Function.update_of_ne hq] at hb
      exact h.load q b hb
  · intro q e he b hb
    rw [hsaved] at hb
    by_cases hq : q = p
    · subst hq
      rw [Function.update_self] at hb
      cases hb
      exact hsame.of_same (h.waiting q e (hwaiting q e he) b₀ hb₀)
    · rw [Function.update_of_ne hq] at hb
      exact h.waiting q e (hwaiting q e he) b hb

/-- A save into a Linear file. -/
theorem restorable_linear {dir : String} {dirty : Bool} (h : s.Restorable srv)
    (hdir : dir = srv.currentDir ∨ dir = srv.serverRoot)
    (hc : s.CarefulLinear srv dir p contents)
    (hfiles : s'.files = writeFile s.files dir p (some (saveChunkLinear srv ⟨p, contents, dirty⟩)))
    (hsaved : s'.saved = Function.update s.saved p (some contents))
    (hwaiting : ∀ q e, s'.Waiting q e → s.Waiting q e) : s'.Restorable srv := by
  obtain ⟨b', hread, hsurvives⟩ := hc.survives dirty
  constructor
  · intro q b hb
    rw [hsaved] at hb
    rw [hfiles]
    by_cases hq : q = p
    · subst hq
      rw [Function.update_self] at hb
      cases hb
      rw [loadFromDiskLinear_write hdir hc.first hread]
      exact hsurvives
    · rw [Function.update_of_ne hq] at hb
      rw [loadFromDiskLinear_congr fun d => writeFile_of_ne hq dir _ d]
      exact h.load q b hb
  · intro q e he b hb
    rw [hsaved] at hb
    by_cases hq : q = p
    · subst hq
      rw [Function.update_self] at hb
      cases hb
      rcases hc.waiting with ⟨b₀, hb₀, hsame⟩ | hnone
      · exact hsame.of_same (h.waiting q e (hwaiting q e he) b₀ hb₀)
      · exact absurd (hwaiting q e he) (hnone e)
    · rw [Function.update_of_ne hq] at hb
      exact h.waiting q e (hwaiting q e he) b hb

/-- A save that fails. -/
theorem restorable_failure {dir : String} {leftover : Option (List Byte)} (h : s.Restorable srv)
    (hc : s.CarefulFailure p leftover) (hfiles : s'.files = writeFile s.files dir p leftover)
    (hsaved : s'.saved = s.saved) (hwaiting : ∀ q e, s'.Waiting q e → s.Waiting q e) :
    s'.Restorable srv := by
  constructor
  · intro q b hb
    rw [hsaved] at hb
    rw [hfiles]
    by_cases hq : q = p
    · subst hq
      rw [hc (by rw [hb]; rfl)]
      exact h.load q b hb
    · rw [loadFromDiskLinear_congr fun d => writeFile_of_ne hq dir _ d]
      exact h.load q b hb
  · intro q e he b hb
    rw [hsaved] at hb
    exact h.waiting q e (hwaiting q e he) b hb

/-! ## One step of a call -/

variable {w : World Sections}

/-- The task saves the chunk unless the write fails. -/
theorem linearSave_next {t : ChunkStore.Task Sections} {dir : String} {chunk : Clone Sections}
    (h : linearSave srv t = some (dir, p, chunk)) (c : Choice) :
    (dir = srv.currentDir ∨ dir = srv.serverRoot) ∧
      (t.next srv.config w c).1 = if c.ok then .write p chunk else .none := by
  unfold linearSave at h
  split at h
  · cases h
    refine ⟨.inl rfl, ?_⟩
    change (ite (c.ok = true) (Effect.write p chunk, _) (Effect.none, _)).1 = _
    split <;> rfl
  · cases h
    refine ⟨.inl rfl, ?_⟩
    change (ite (c.ok = true) (Effect.write p chunk, _) (Effect.none, _)).1 = _
    split <;> rfl
  · split at h
    · next hdirty =>
        cases h
        refine ⟨.inr rfl, ?_⟩
        change (ite ((chunk.entry.dirty && c.ok) = true) (Effect.write p chunk, _)
          (Effect.none, _)).1 = _
        rw [hdirty, Bool.true_and]
        split <;> rfl
    · cases h
  · cases h

theorem lastWrite_perform {effect : Effect Sections}
    (h : ∀ p chunk, effect ≠ .write p chunk) (cfg : Config Sections) :
    (w.perform cfg effect).lastWrite = w.lastWrite := by
  cases effect with
  | none => rfl
  | drop q counted =>
      change (w.drop cfg q counted).lastWrite = _
      unfold ChunkStore.World.drop
      split <;> rfl
  | markClean q => rfl
  | write q chunk => exact absurd rfl (h q chunk)

theorem lastWrite_runTask {i : Nat} {t : ChunkStore.Task Sections} (ht : w.tasks[i]? = some t)
    (cfg : Config Sections) (c : Choice) :
    (w.runTask cfg i c).lastWrite = (w.perform cfg (t.next cfg w c).1).lastWrite := by
  unfold ChunkStore.World.runTask
  rw [ht]
  change ((w.perform cfg (t.next cfg w c).1).resume i (t.next cfg w c).2).lastWrite = _
  cases (t.next cfg w c).2 <;> rfl

/-- A step of a task of the store. -/
theorem restorable_runTask (h : s.Restorable srv) (i : Nat) (c : Choice)
    (leftover : Option (List Byte))
    (ha : ∀ t, s.loading.store.tasks[i]? = some t → s.CarefulTask srv t c leftover) :
    (s.stepLoading srv leftover (.store (.run i c))).Restorable srv := by
  have hwaiting : ∀ q e, (s.stepLoading srv leftover (.store (.run i c))).Waiting q e →
      s.Waiting q e := fun _ _ he => he
  have hsaved : (s.stepLoading srv leftover (.store (.run i c))).saved =
      (s.loading.store.runTask srv.config i c).lastWrite := rfl
  have hfiles : (s.stepLoading srv leftover (.store (.run i c))).files =
      s.afterTask srv s.loading.store.tasks[i]? c.ok leftover := rfl
  cases ht : s.loading.store.tasks[i]? with
  | none =>
      rw [ht] at hfiles
      refine restorable_congr h hfiles ?_ fun q e he => .inl (hwaiting q e he)
      rw [hsaved]
      unfold ChunkStore.World.runTask
      rw [ht]
      rfl
  | some t =>
      have hcareful := ha t ht
      rw [lastWrite_runTask ht] at hsaved
      unfold CarefulTask at hcareful
      unfold afterTask at hfiles
      rw [ht, Option.bind_some] at hfiles
      cases hlinear : linearSave srv t with
      | none =>
          rw [hlinear] at hcareful hfiles
          by_cases hwrite : ∃ p chunk, (t.next srv.config s.loading.store c).1 = .write p chunk
          · obtain ⟨p, chunk, hwrite⟩ := hwrite
            rw [hwrite] at hsaved
            exact restorable_repeats h (hcareful p chunk hwrite) hfiles hsaved hwaiting
          · rw [lastWrite_perform fun p chunk heq => hwrite ⟨p, chunk, heq⟩] at hsaved
            exact restorable_congr h hfiles hsaved fun q e he => .inl (hwaiting q e he)
      | some save =>
          obtain ⟨dir, p, chunk⟩ := save
          obtain ⟨hdir, heffect⟩ := linearSave_next (w := s.loading.store) hlinear c
          rw [hlinear] at hcareful hfiles
          simp only [afterSave] at hfiles
          rw [heffect] at hsaved
          cases hok : c.ok with
          | true =>
              simp only [hok, if_true] at hcareful hfiles hsaved
              exact restorable_linear h hdir hcareful hfiles hsaved hwaiting
          | false =>
              simp only [hok, Bool.false_eq_true, if_false] at hcareful hfiles hsaved
              exact restorable_failure h hcareful hfiles hsaved hwaiting

/-- What a batch reads is what a load of the position gives. -/
theorem pickFile_getD {i : Nat} {todo : List ChunkPos} {generated : List (ChunkPos × Entry Sections)}
    {c : Pick Sections} (ht : s.loading.producers[i]? = some (.batch todo generated))
    (hp : todo[(s.pickFile srv i c).index]? = some p) :
    (s.pickFile srv i c).disk.getD
        (ChunkLoading.generated srv.config p (s.pickFile srv i c).lruOrder) =
      s.load srv p c.lruOrder := by
  unfold pickFile at hp ⊢
  rw [ht] at hp ⊢
  dsimp only at hp ⊢
  rw [hp, Option.bind_some]
  unfold load
  cases loadFromDiskLinear srv s.files p <;> rfl

section

variable {L : ChunkLoading.State Sections} {q : ChunkPos} {e : Entry Sections}

theorem waiting_none : ((∃ t', (none : Option (Producer Sections)) = some t' ∧ (q, e) ∈ carried t') ∨
    L.completed q = some e) ↔ L.completed q = some e := by
  refine or_iff_right ?_
  rintro ⟨t', ht', -⟩
  cases ht'

theorem waiting_some {t : Producer Sections} : ((∃ t', some t = some t' ∧ (q, e) ∈ carried t') ∨
    L.completed q = some e) ↔ (q, e) ∈ carried t ∨ L.completed q = some e := by
  refine or_congr_left ⟨?_, fun he => ⟨t, rfl, he⟩⟩
  rintro ⟨t', ht', he⟩
  cases ht'
  exact he

/-- A batch takes up what it reads or generates, and completes what it has. -/
theorem waiting_batch (cfg : Config Sections) (c : Pick Sections) (todo : List ChunkPos)
    (generated : List (ChunkPos × Entry Sections))
    (h : (∃ t', ((Producer.batch todo generated).next cfg L c).2 = some t' ∧ (q, e) ∈ carried t') ∨
      ((Producer.batch todo generated).next cfg L c).1.completed q = some e) :
    (q, e) ∈ generated ∨ L.completed q = some e ∨
      todo[c.index]? = some q ∧ e = c.disk.getD (ChunkLoading.generated cfg q c.lruOrder) := by
  cases todo with
  | cons x todo =>
      unfold ChunkLoading.Producer.next at h
      dsimp only at h
      cases hp : (x :: todo)[c.index]? with
      | none =>
          rw [hp] at h
          rcases waiting_some.1 h with he | he
          · exact .inl he
          · exact .inr (.inl he)
      | some p =>
          rw [hp] at h
          dsimp only at h
          split at h
          · rcases waiting_some.1 h with he | he
            · exact .inl he
            · exact .inr (.inl he)
          · rcases waiting_some.1 h with he | he
            · rcases List.mem_append.1 he with he | he
              · exact .inl he
              · obtain ⟨rfl, rfl⟩ := Prod.mk.inj (List.mem_singleton.1 he)
                exact .inr (.inr ⟨rfl, rfl⟩)
            · exact .inr (.inl he)
  | nil =>
      cases generated with
      | nil => exact .inr (.inl (waiting_none.1 h))
      | cons pe generated =>
          obtain ⟨p, e'⟩ := pe
          rcases waiting_some.1 h with he | he
          · exact .inl (List.mem_cons_of_mem _ he)
          · change Function.update L.completed p (some e') q = some e at he
            by_cases hq : q = p
            · subst hq
              rw [Function.update_self] at he
              cases he
              exact .inl List.mem_cons_self
            · rw [Function.update_of_ne hq] at he
              exact .inr (.inl he)

/-- A drain only takes from what is completed. -/
theorem waiting_drain (cfg : Config Sections) (c : Pick Sections) (p : ChunkPos)
    (todo : List ChunkPos)
    (h : (∃ t', ((Producer.drain (p :: todo)).next cfg L c).2 = some t' ∧ (q, e) ∈ carried t') ∨
      ((Producer.drain (p :: todo)).next cfg L c).1.completed q = some e) :
    L.completed q = some e := by
  unfold ChunkLoading.Producer.next at h
  dsimp only at h
  cases hp : L.completed p with
  | none =>
      rw [hp] at h
      rcases waiting_some.1 h with he | he
      · cases he
      · exact he
  | some e' =>
      rw [hp] at h
      rcases waiting_some.1 h with he | he
      · obtain ⟨rfl, rfl⟩ := Prod.mk.inj (List.mem_singleton.1 he)
        exact hp
      · change Function.update L.completed p none q = some e at he
        by_cases hq : q = p
        · rw [hq, Function.update_self] at he
          cases he
        · rwa [Function.update_of_ne hq] at he

end

/-- What a producer carries after its step, and what is completed then. -/
theorem waiting_next {t : Producer Sections} (cfg : Config Sections) (L : ChunkLoading.State Sections)
    (c : Pick Sections) {q : ChunkPos} {e : Entry Sections}
    (h : (∃ t', (t.next cfg L c).2 = some t' ∧ (q, e) ∈ carried t') ∨
      (t.next cfg L c).1.completed q = some e) :
    (q, e) ∈ carried t ∨ L.completed q = some e ∨
      ∃ todo generated, t = .batch todo generated ∧ todo[c.index]? = some q ∧
        e = c.disk.getD (ChunkLoading.generated cfg q c.lruOrder) := by
  cases t with
  | join todo =>
      cases todo with
      | nil => exact .inr (.inl (waiting_none.1 h))
      | cons p todo =>
          rcases waiting_some.1 h with he | he
          · cases he
          · exact .inr (.inl he)
  | stream todo evicted =>
      cases todo with
      | nil => exact .inr (.inl (waiting_none.1 h))
      | cons p todo =>
          rcases waiting_some.1 h with he | he
          · cases he
          · exact .inr (.inl he)
  | batch todo generated =>
      rcases waiting_batch cfg c todo generated h with he | he | ⟨hp, he⟩
      · exact .inl he
      · exact .inr (.inl he)
      · exact .inr (.inr ⟨todo, generated, rfl, hp, he⟩)
  | drain todo =>
      cases todo with
      | nil => exact .inr (.inl (waiting_none.1 h))
      | cons p todo => exact .inr (.inl (waiting_drain cfg c p todo h))
  | install p e' todo =>
      rcases waiting_some.1 h with he | he
      · cases he
      · exact .inr (.inl he)

theorem producers_next (t : Producer Sections) (cfg : Config Sections)
    (L : ChunkLoading.State Sections) (c : Pick Sections) :
    (t.next cfg L c).1.producers = L.producers ∧
      (t.next cfg L c).1.store.lastWrite = L.store.lastWrite := by
  unfold ChunkLoading.Producer.next
  split
  · exact ⟨rfl, rfl⟩
  · exact ⟨rfl, rfl⟩
  · exact ⟨rfl, rfl⟩
  · exact ⟨rfl, rfl⟩
  · split
    · exact ⟨rfl, rfl⟩
    · dsimp only
      split
      · exact ⟨rfl, rfl⟩
      · exact ⟨rfl, rfl⟩
  · exact ⟨rfl, rfl⟩
  · exact ⟨rfl, rfl⟩
  · split
    · exact ⟨rfl, rfl⟩
    · exact ⟨rfl, rfl⟩
  · exact ⟨rfl, rfl⟩
  · exact ⟨rfl, rfl⟩

/-- The calls that run after one of them went on. -/
theorem mem_of_mem_resume {β : Type} {l : List β} {i : Nat} {x : β} {t : Option β}
    (h : x ∈ t.elim (l.eraseIdx i) (l.set i)) : x ∈ l ∨ t = some x := by
  cases t with
  | none => exact .inl (List.mem_of_mem_eraseIdx h)
  | some t =>
      rcases List.mem_or_eq_of_mem_set h with h | rfl
      · exact .inl h
      · exact .inr rfl

theorem resume_producers (L : ChunkLoading.State Sections) (i : Nat)
    (t : Option (Producer Sections)) :
    (L.resume i t).producers = t.elim (L.producers.eraseIdx i) (L.producers.set i) ∧
      (L.resume i t).completed = L.completed ∧ (L.resume i t).store = L.store := by
  cases t with
  | none => exact ⟨rfl, rfl, rfl⟩
  | some t => exact ⟨rfl, rfl, rfl⟩

/-- A step of a producer. -/
theorem restorable_runProducer (h : s.Restorable srv) (i : Nat) (c : Pick Sections)
    (leftover : Option (List Byte)) : (s.stepLoading srv leftover (.run i c)).Restorable srv := by
  have hstep : (s.stepLoading srv leftover (.run i c)).loading =
      s.loading.runProducer srv.config i (s.pickFile srv i c) := rfl
  cases ht : s.loading.producers[i]? with
  | none =>
      have hsame : (s.stepLoading srv leftover (.run i c)).loading = s.loading := by
        rw [hstep]
        unfold ChunkLoading.State.runProducer
        rw [ht]
      refine restorable_congr h rfl ?_ fun q e he => .inl ?_
      · unfold saved
        rw [hsame]
      · unfold Waiting at he
        rw [hsame] at he
        exact he
  | some t =>
      obtain ⟨hproducers, hlast⟩ := producers_next t srv.config s.loading (s.pickFile srv i c)
      have hrun : (s.stepLoading srv leftover (.run i c)).loading =
          ((t.next srv.config s.loading (s.pickFile srv i c)).1.resume i
            (t.next srv.config s.loading (s.pickFile srv i c)).2) := by
        rw [hstep]
        unfold ChunkLoading.State.runProducer
        rw [ht]
      obtain ⟨hresumed, hcompleted, hstore⟩ := resume_producers
        (t.next srv.config s.loading (s.pickFile srv i c)).1 i
        (t.next srv.config s.loading (s.pickFile srv i c)).2
      refine restorable_congr h rfl ?_ fun q e he => ?_
      · unfold saved
        rw [hrun, hstore, hlast]
      · have hfrom : (q, e) ∈ carried t ∨ s.loading.completed q = some e → s.Waiting q e := by
          rintro (he | he)
          · exact .inl ⟨t, List.mem_of_getElem? ht, he⟩
          · exact .inr (.inl he)
        unfold Waiting at he
        rw [hrun, hresumed, hproducers, hcompleted] at he
        have hnext : ((∃ t', (t.next srv.config s.loading (s.pickFile srv i c)).2 = some t' ∧
            (q, e) ∈ carried t') ∨
            (t.next srv.config s.loading (s.pickFile srv i c)).1.completed q = some e) →
            s.Waiting q e ∨ ∃ l, e = s.load srv q l := by
          intro he
          rcases waiting_next srv.config s.loading _ he with he | he | ⟨todo, generated, rfl, hq, rfl⟩
          · exact .inl (hfrom (.inl he))
          · exact .inl (hfrom (.inr he))
          · exact .inr ⟨c.lruOrder, pickFile_getD ht hq⟩
        rcases he with ⟨u, hu, he⟩ | he | he
        · rcases mem_of_mem_resume hu with hu | hu
          · exact .inl (.inl ⟨u, hu, he⟩)
          · exact hnext (.inl ⟨u, hu, he⟩)
        · exact hnext (.inr he)
        · exact .inl (.inr (.inr he))

/-- What the producers do beside their steps. -/
theorem restorable_start {L : ChunkLoading.State Sections} (h : s.Restorable srv)
    (hlast : L.store.lastWrite = s.loading.store.lastWrite)
    (hcompleted : L.completed = s.loading.completed)
    (hproducers : ∀ t ∈ L.producers, t ∈ s.loading.producers ∨ carried t = []) :
    Restorable srv { s with loading := L } := by
  refine restorable_congr h rfl hlast fun q e he => .inl ?_
  rcases he with ⟨t, ht, he⟩ | he | he
  · rcases hproducers t ht with ht | hnil
    · exact .inl ⟨t, ht, he⟩
    · rw [hnil] at he
      cases he
  · refine .inr (.inl ?_)
    rw [← hcompleted]
    exact he
  · exact .inr (.inr he)

theorem mem_start {L : ChunkLoading.State Sections} {t u : Producer Sections} (hu : carried u = [])
    (ht : t ∈ (L.start u).producers) : t ∈ L.producers ∨ carried t = [] := by
  rcases List.mem_append.1 ht with ht | ht
  · exact .inl ht
  · rw [List.mem_singleton.1 ht]
    exact .inr hu

/-- `enqueue` starts batches that have read nothing yet. -/
theorem enqueueNext_spec (L : ChunkLoading.State Sections) :
    L.enqueueNext.store = L.store ∧ L.enqueueNext.completed = L.completed ∧
      ∀ t ∈ L.enqueueNext.producers, t ∈ L.producers ∨ carried t = [] := by
  unfold ChunkLoading.State.enqueueNext
  split
  · exact ⟨rfl, rfl, fun t ht => .inl ht⟩
  · unfold ChunkLoading.State.enqueueOne
    split
    · exact ⟨rfl, rfl, fun t ht => .inl ht⟩
    · split
      · exact ⟨rfl, rfl, fun t ht => .inl ht⟩
      · exact ⟨rfl, rfl, fun t ht => .inl ht⟩
  · unfold ChunkLoading.State.dispatch
    dsimp only
    split
    · exact ⟨rfl, rfl, fun t ht => .inl ht⟩
    · refine ⟨rfl, rfl, fun t ht => ?_⟩
      dsimp only at ht
      split at ht
      · exact mem_start rfl ht
      · exact .inl ht

/-- What the store does beside its tasks. -/
theorem lastWrite_apply {a : ChunkStore.Action Sections} (ha : ∀ i c, a ≠ .run i c)
    (cfg : Config Sections) : ((ChunkStore.system cfg).apply w a).lastWrite = w.lastWrite := by
  cases a with
  | run i c => exact absurd rfl (ha i c)
  | remove p =>
      change (w.drop cfg p false).lastWrite = _
      unfold ChunkStore.World.drop
      split <;> rfl
  | _ => rfl

/-- What the store and its producers do. -/
theorem restorable_stepLoading (h : s.Restorable srv) (a : ChunkLoading.Action Sections)
    (leftover : Option (List Byte)) (ha : s.Careful srv (.loading a leftover)) :
    (s.stepLoading srv leftover a).Restorable srv := by
  have hstore : ∀ a : ChunkStore.Action Sections, (∀ i c, a ≠ .run i c) →
      Restorable srv { s with
        loading := s.loading.afterStore a ((ChunkStore.system srv.config).apply s.loading.store a) } :=
    fun a ha => restorable_start h (lastWrite_apply ha srv.config) rfl fun t ht => .inl ht
  cases a with
  | store a =>
      cases a with
      | run i c => exact restorable_runTask h i c leftover ha
      | insert p e => exact h
      | edit p contents => exact hstore _ nofun
      | remove p => exact hstore _ nofun
      | flushDirtyLru count order => exact hstore _ nofun
      | proactiveWriteback order => exact hstore _ nofun
      | unloadDistant keep order => exact hstore _ nofun
      | autosave order => exact hstore _ nofun
      | evictDistant evicted => exact hstore _ nofun
  | setRuntime => exact restorable_start h rfl rfl fun t ht => .inl ht
  | handlePlay radius => exact restorable_start h rfl rfl fun t ht => mem_start rfl ht
  | streamNewChunks oldChunk newChunk loaded radius order =>
      change Restorable srv { s with loading := if radius = 0 then s.loading else _ }
      split
      · exact h
      · exact restorable_start h rfl rfl fun t ht => mem_start rfl ht
  | enqueue positions => exact restorable_start h rfl rfl fun t ht => .inl ht
  | enqueueNext =>
      obtain ⟨hstore, hcompleted, hproducers⟩ := enqueueNext_spec s.loading
      exact restorable_start h (congrArg _ hstore) hcompleted hproducers
  | drainCompleted order => exact restorable_start h rfl rfl fun t ht => mem_start rfl ht
  | run i c => exact restorable_runProducer h i c leftover

/-- A step of a job. -/
theorem restorable_nextJob (h : s.Restorable srv) (lruOrder : Nat) (ok : Bool)
    (leftover : Option (List Byte)) {j : Job} (ha : s.CarefulJob srv ok leftover j) :
    (s.nextJob srv lruOrder ok leftover j).1.Restorable srv := by
  cases j with
  | generate todo generated =>
      cases todo with
      | cons p todo =>
          unfold nextJob
          dsimp only
          split
          · exact h
          · exact h
      | nil =>
          cases generated with
          | nil => exact h
          | cons pe generated => exact restorable_start h rfl rfl fun t ht => .inl ht
  | snapshot todo found =>
      cases todo with
      | cons p todo => exact h
      | nil => exact h
  | save todo =>
      cases todo with
      | nil => exact h
      | cons save todo =>
          obtain ⟨p, chunk⟩ := save
          cases ok with
          | true => exact restorable_linear h (.inr rfl) ha rfl rfl fun q e he => he
          | false => exact restorable_failure h ha rfl rfl fun q e he => he

/-- What a job carries after its step. -/
theorem carried_nextJob (lruOrder : Nat) (ok : Bool) (leftover : Option (List Byte)) {j j' : Job}
    (h : (s.nextJob srv lruOrder ok leftover j).2 = some j') {q : ChunkPos} {e : Entry Sections}
    (he : (q, e) ∈ Job.carried j') : (q, e) ∈ Job.carried j ∨
      ((s.nextJob srv lruOrder ok leftover j).1 = s ∧ e = s.load srv q lruOrder) := by
  cases j with
  | generate todo generated =>
      cases todo with
      | cons p todo =>
          unfold nextJob at h ⊢
          dsimp only at h ⊢
          split at h
          · cases h
            exact .inl he
          · next hp =>
              cases h
              rcases List.mem_append.1 he with he | he
              · exact .inl he
              · obtain ⟨rfl, rfl⟩ := Prod.mk.inj (List.mem_singleton.1 he)
                rw [if_neg hp]
                exact .inr ⟨rfl, rfl⟩
      | nil =>
          cases generated with
          | nil => cases h
          | cons pe generated =>
              cases h
              exact .inl (List.mem_cons_of_mem _ he)
  | snapshot todo found =>
      cases todo with
      | cons p todo =>
          cases h
          cases he
      | nil =>
          cases h
          cases he
  | save todo =>
      cases todo with
      | nil => cases h
      | cons save todo =>
          cases h
          cases he

theorem jobs_nextJob (lruOrder : Nat) (ok : Bool) (leftover : Option (List Byte)) (j : Job) :
    (s.nextJob srv lruOrder ok leftover j).1.jobs = s.jobs := by
  unfold nextJob
  split
  · split
    · rfl
    · rfl
  · rfl
  · rfl
  · rfl
  · rfl
  · rfl
  · rfl

theorem restorable_addJob (h : s.Restorable srv) {j : Job} (hj : Job.carried j = []) :
    Restorable srv { s with jobs := s.jobs ++ [j] } := by
  refine restorable_congr h rfl rfl fun q e he => .inl ?_
  rcases he with he | he | ⟨j', hj', he⟩
  · exact .inl he
  · exact .inr (.inl he)
  · rcases List.mem_append.1 hj' with hj' | hj'
    · exact .inr (.inr ⟨j', hj', he⟩)
    · rw [List.mem_singleton.1 hj', hj] at he
      cases he

theorem files_resume (s : State) (i : Nat) (j : Option Job) : (s.resume i j).files = s.files := by
  cases j <;> rfl

theorem saved_resume (s : State) (i : Nat) (j : Option Job) : (s.resume i j).saved = s.saved := by
  cases j <;> rfl

theorem waiting_resume {i : Nat} {j : Option Job} {q : ChunkPos} {e : Entry Sections}
    (h : (s.resume i j).Waiting q e) :
    s.Waiting q e ∨ ∃ j', j = some j' ∧ (q, e) ∈ Job.carried j' := by
  have hjobs : (s.resume i j).jobs = j.elim (s.jobs.eraseIdx i) (s.jobs.set i) ∧
      (s.resume i j).loading = s.loading := by
    cases j with
    | none => exact ⟨rfl, rfl⟩
    | some j => exact ⟨rfl, rfl⟩
  unfold Waiting at h
  rw [hjobs.1, hjobs.2] at h
  rcases h with h | h | ⟨j', hj', h⟩
  · exact .inl (.inl h)
  · exact .inl (.inr (.inl h))
  · rcases mem_of_mem_resume hj' with hj' | hj'
    · exact .inl (.inr (.inr ⟨j', hj', h⟩))
    · exact .inr ⟨j', hj', h⟩

/-- **An action taken with care keeps what the files would bring back.** -/
theorem restorable_step (h : s.Restorable srv) {a : Action} (ha : s.Careful srv a) :
    (s.step srv a).Restorable srv := by
  cases a with
  | loading a leftover => exact restorable_stepLoading h a leftover ha
  | generateParallel positions => exact restorable_addJob h rfl
  | saveAll order => exact restorable_addJob h rfl
  | run i lruOrder ok leftover =>
      unfold step
      dsimp only
      cases hj : s.jobs[i]? with
      | none => exact h
      | some j =>
          have hnext := restorable_nextJob h lruOrder ok leftover (ha j hj)
          refine restorable_congr hnext ?_ ?_ fun q e he => ?_
          · exact files_resume _ i _
          · exact saved_resume _ i _
          · rcases waiting_resume he with he | ⟨j', hj', he⟩
            · exact .inl he
            · rcases carried_nextJob lruOrder ok leftover hj' he with he | ⟨hsame, rfl⟩
              · refine .inl (.inr (.inr ⟨j, ?_, he⟩))
                rw [jobs_nextJob]
                exact List.mem_of_getElem? hj
              · refine .inr ⟨lruOrder, ?_⟩
                rw [hsame]
  | restart =>
      refine restorable_congr h rfl rfl fun q e he => ?_
      rcases he with ⟨t, ht, -⟩ | he | ⟨j, hj, -⟩
      · cases ht
      · cases he
      · cases hj

theorem restorable_new : State.new.Restorable srv := ⟨nofun, fun _ _ _ _ h => nomatch h⟩

/-- **An action taken with care brings back what was saved.** -/
theorem seenAgain_of_careful (h : s.Restorable srv) {a : Action} (ha : s.Careful srv a) :
    s.SeenAgain srv a := by
  intro p e he habsent b hb
  cases a with
  | loading a leftover =>
      cases a with
      | run i c =>
          obtain ⟨t, ht, he⟩ := Option.bind_eq_some_iff.1 he
          cases t with
          | join todo =>
              cases todo with
              | nil => cases he
              | cons q todo =>
                  cases he
                  exact ha _ ht p rfl habsent b hb
          | stream todo evicted =>
              cases todo with
              | nil => cases he
              | cons q todo =>
                  cases he
                  exact ha _ ht p rfl habsent b hb
          | batch todo generated => cases he
          | drain todo => cases he
          | install q e' todo =>
              cases he
              exact h.waiting p e (.inl ⟨_, List.mem_of_getElem? ht, List.mem_singleton_self _⟩) b hb
      | _ => cases he
  | run i lruOrder ok leftover =>
      obtain ⟨j, hj, he⟩ := Option.bind_eq_some_iff.1 he
      refine h.waiting p e (.inr (.inr ⟨j, List.mem_of_getElem? hj, ?_⟩)) b hb
      cases j with
      | generate todo generated =>
          cases todo with
          | cons q todo => cases he
          | nil =>
              cases generated with
              | nil => cases he
              | cons pe generated =>
                  cases he
                  exact List.mem_cons_self
      | snapshot todo found => cases he
      | save todo => cases he
  | generateParallel positions => cases he
  | saveAll order => cases he
  | restart => cases he

end State

/-- **A chunk that was saved comes back as it was saved last, along every run whose saves are Linear files
that are read as they were written, with no other file read before them and no chunk read for the
position on its way, and whose connections generate no chunk that was saved with other blocks.** -/
theorem along_seenAgain (srv : Server) (as : List Action)
    (h : Along (State.step srv) (State.Careful srv) State.new as) :
    Along (State.step srv) (State.SeenAgain srv) State.new as :=
  h.imp (State.Restorable srv) (fun _ _ hs ha => State.seenAgain_of_careful hs ha)
    (fun _ _ hs ha => State.restorable_step hs ha) State.restorable_new

/-! ## Files that are read as they were written -/

open Outcome Slices

theorem loadLinearFile_saveChunkLinear (srv : Server) (chunk : Chunk)
    (hlossless : srv.decompress (srv.compress (serializeChunkBinary chunk)) =
      some (serializeChunkBinary chunk))
    (hne : (srv.compress (serializeChunkBinary chunk)).length ≠ 0)
    (hle : (srv.compress (serializeChunkBinary chunk)).length ≤ 10000000) :
    loadLinearFile srv.decompress (saveChunkLinear srv chunk) =
      deserializeChunkBinary chunk.position.x chunk.position.z (serializeChunkBinary chunk) := by
  obtain ⟨data, hdata⟩ : ∃ data, saveChunkLinear srv chunk = data := ⟨_, rfl⟩
  have hx : At data 0 (saveChunkLinear srv chunk) := hdata ▸ At.start _
  unfold saveChunkLinear at hx
  rw [hdata]
  generalize srv.compress (serializeChunkBinary chunk) = compressed at *
  have hz : At data 4 _ := hx.skip (length_toLe 4 _)
  have hformat : At data 8 _ := hz.skip (length_toLe 4 _)
  have hlen : At data 9 _ := hformat.tail
  have hbody : At data 13 compressed := hlen.skip (length_toLe 4 _)
  have hbody' : At data 13 (compressed ++ []) := by
    rw [List.append_nil]
    exact hbody
  have hlength := hbody.length_eq
  have hcount : ofLe (toLe 4 compressed.length) = compressed.length := ofLe_toLe (by omega)
  unfold loadLinearFile
  rw [require_pos (show 12 ≤ data.length by omega), hformat.getElem?, hx.readLe chunk.position.x.isLt,
    hz.readLe chunk.position.z.isLt]
  simp only [ok_bind, orPanic_some]
  rw [if_pos (by decide), if_pos (by decide), require_pos (show 13 ≤ data.length by omega),
    slice_at hlen (length_toLe 4 _)]
  simp only [ok_bind]
  rw [hcount, require_pos ⟨hne, hle, show 13 + compressed.length ≤ data.length by omega⟩,
    slice_at hbody' rfl]
  simp only [ok_bind, hlossless, BitVec.ofNat_toNat, BitVec.setWidth_eq]

/-- The same chunk has the same blocks. -/
theorem sameBlocks_of_sameChunk {c c' : Chunk} (h : SameChunk c c') :
    SameBlocks c.sections c'.sections := by
  intro i cell
  have hfilled := h.filled i
  unfold containerAt
  cases hc : c.sections i with
  | none =>
      rw [hc] at hfilled
      rw [Option.isSome_eq_false_iff.1 hfilled |> Option.isNone_iff_eq_none.1]
  | some sec =>
      rw [hc] at hfilled
      obtain ⟨sec', hc'⟩ := Option.isSome_iff_exists.1 hfilled
      rw [hc']
      exact (h.sections i sec sec' hc hc').blocks cell

/-- **A chunk that the binary form brings back survives**, where the compression is lossless on it and the
file is not too long. -/
theorem survives_of_roundTrips (srv : Server) {p : ChunkPos} {contents : Sections} {raw : List Byte}
    (hraw : serializeChunkBinary ⟨p, contents, true⟩ = raw)
    (hlossless : srv.decompress (srv.compress raw) = some raw)
    (hne : (srv.compress raw).length ≠ 0) (hle : (srv.compress raw).length ≤ 10000000)
    (h : RoundTrips ⟨p, contents, true⟩) : Survives srv p contents := by
  subst hraw
  intro dirty
  obtain ⟨c', hread, hsame⟩ := h
  refine ⟨c'.sections, ?_, sameBlocks_of_sameChunk hsame⟩
  unfold readLinear
  rw [loadLinearFile_saveChunkLinear srv ⟨p, contents, dirty⟩ hlossless hne hle]
  exact congrArg sectionsRead hread

/-! ## A shutdown and a walk -/

def origin : ChunkPos := ⟨0#32, 0#32⟩

def empty : Sections := fun _ => none

/-- One section of stone. -/
def stone : Sections := fun i =>
  if i.val = 4 then
    some { Section.new ⟨origin, 0⟩ with blocks := PalettedContainer.filled (BlockState.new 1#32) }
  else none

/-- What the compression gives for at most twelve bytes: their number, and one run of literals. -/
def compressLiterals (raw : List Byte) : List Byte :=
  toLe 4 raw.length ++ (BitVec.ofNat 8 (raw.length * 16) :: raw)

def decompressLiterals (data : List Byte) : Option (List Byte) :=
  if (data.drop 5).length = readLe data 0 4 then some (data.drop 5) else none

/-- A world of stone. -/
def stony : Server :=
  ⟨⟨1024, 819, fun _ => stone⟩, "/srv", "/srv", compressLiterals, decompressLiterals⟩

def next : Action := .run 0 0 true none

def shutdown : List Action :=
  [.generateParallel [origin], next, next, next, .loading (.store (.edit origin empty)) none,
    .saveAll [origin], next, next, next, next, .restart, .generateParallel [origin], next, next]

theorem survives_empty : Survives stony origin empty :=
  survives_of_roundTrips stony rfl (by decide) (by decide) (by decide) (roundTrips_of_empty fun _ => rfl)

/-- A chunk that is emptied, saved at the shutdown and read after the restart is empty again. -/
theorem along_seenAgain_shutdown :
    Along (State.step stony) (State.SeenAgain stony) State.new shutdown := by
  have hquiet : ∀ {s : State} {j : Job}, s.jobs[0]? = some j → s.CarefulJob stony true none j →
      s.Careful stony next := by
    intro s j hj hcareful j' hj'
    obtain rfl := Option.some.inj (hj.symm.trans hj')
    exact hcareful
  refine along_seenAgain stony shutdown ⟨trivial, hquiet rfl trivial, hquiet rfl trivial,
    hquiet rfl trivial, trivial, trivial, hquiet rfl trivial, hquiet rfl trivial, hquiet rfl ?_,
    hquiet rfl trivial, trivial, trivial, hquiet rfl trivial, hquiet rfl trivial, trivial⟩
  refine ⟨survives_empty, .inl rfl, .inr ?_⟩
  rintro e (⟨t, ht, -⟩ | he | ⟨j, hj, he⟩)
  · cases ht
  · cases he
  · rw [List.mem_singleton.1 hj] at he
    cases he

/-- One access of the store or step of a producer. -/
def access : Action := .loading (.run 0 ⟨0, none, 0⟩) none

def spawn : List Action := .loading (.handlePlay 2) none :: List.replicate 12 access

/-- A player joins, the chunk at the origin is emptied, and the eviction that follows when the player walks
away writes it to a region file; then the next player joins. -/
def walk : List Action :=
  spawn ++ List.replicate 14 access ++
    (.loading (.store (.edit origin empty)) none :: .loading (.store (.evictDistant [origin])) none ::
      List.replicate 6 (.loading (.store (.run 25 ⟨true, []⟩)) none)) ++ spawn

/-- **A chunk that was edited, saved to a region file and dropped is generated again when the next player
joins.** -/
theorem not_forall_along_seenAgain :
    ¬ ∀ (srv : Server) (as : List Action),
      Along (State.step srv) (State.SeenAgain srv) State.new as := by
  intro h
  have hlast := (along_append.1 (h stony (walk ++ [access]))).2.1
  have hsame := hlast origin ⟨stone, false, 0⟩ rfl rfl empty rfl
  have hcell := hsame ⟨4, by decide⟩ ⟨0, 0, 0⟩
  exact absurd hcell (by decide)

end Apoptotic.SavedEdits
