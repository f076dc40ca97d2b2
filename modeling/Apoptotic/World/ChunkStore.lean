import Apoptotic.Lib.Reached
import Apoptotic.World.Chunk

/-!
# The chunk store

`ChunkStore` of `mc-world/src/chunk_store.rs` and the code that saves through it: the autosave of
`mc-server/src/main.rs` and the eviction of `stream_new_chunks` in `mc-network/src/connection.rs`.
The map is shared, so a call is a task that accesses it one entry at a time, and edits and other
tasks run between any two accesses.

The store never looks inside a chunk: the contents are a type `α`.  The last successful write of
each position, the number of its edits and the chunks that were dropped are recorded beside the
store; no call reads them.
-/

namespace Apoptotic

/-! ## The store -/

namespace ChunkStore

/-- A chunk in the store, under its own position. -/
structure Entry (α : Type) where
  contents : α
  dirty : Bool
  lruOrder : Nat

/-- A clone of a chunk, and how many edits its position had seen. -/
structure Clone (α : Type) where
  entry : Entry α
  edits : Nat

/-- A chunk that left the store: its contents then, and the contents a reload would give. -/
structure Drop (α : Type) where
  position : ChunkPos
  contents : α
  durable : α

/-- `max_chunks`, `(max_chunks as f64 * DIRTY_WRITEBACK_THRESHOLD) as usize` and the generator. -/
structure Config (α : Type) where
  maxChunks : Nat
  threshold : Nat
  generate : ChunkPos → α

/-- What a sweep over the map collects keys for. -/
inductive Purpose where
  | evict (count : Nat)
  | flush (count : Nat)
  | countDirty
  | writeback (toFlush : Nat)
  | unload (keep : List ChunkPos)

/-- What follows `write_chunks`. -/
inductive AfterWrite where
  | markAll
  | remove (evicted : List ChunkPos)

/-- A running call and where it stands.  `saved` are the clones it has written. -/
inductive Task (α : Type) where
  | checkCapacity
  | sweep (purpose : Purpose) (todo found : List ChunkPos)
  | evictClean (keys : List ChunkPos) (remaining : Nat)
  | flush (keys : List ChunkPos)
  | flushSave (key : ChunkPos) (chunk : Clone α) (keys : List ChunkPos)
  | flushRemove (key : ChunkPos) (saved : List (ChunkPos × Clone α)) (keys : List ChunkPos)
  | writeback (keys : List ChunkPos)
  | writebackSave (key : ChunkPos) (chunk : Clone α) (keys : List ChunkPos)
  | writebackMark (key : ChunkPos) (chunk : Clone α) (keys : List ChunkPos)
  | unload (keys : List ChunkPos)
  | snapshot (todo : List ChunkPos) (found : List (ChunkPos × Clone α))
  | saveLinear (todo chunks saved : List (ChunkPos × Clone α))
  | collectEvicted (todo evicted : List ChunkPos) (found : List (ChunkPos × Clone α))
  | writeChunks (todo saved : List (ChunkPos × Clone α)) (after : AfterWrite)
  | markAll (todo : List ChunkPos) (saved : List (ChunkPos × Clone α))
  | removeEvicted (todo : List ChunkPos) (saved : List (ChunkPos × Clone α))

structure World (α : Type) where
  chunks : ChunkPos → Option (Entry α)
  count : BitVec 64
  tasks : List (Task α)
  lastWrite : ChunkPos → Option α
  edits : ChunkPos → Nat
  drops : List (Drop α)

variable {α : Type}

/-- The empty store over the chunks on disk. -/
def World.new (disk : ChunkPos → Option α) : World α where
  chunks _ := none
  count := 0#64
  tasks := []
  lastWrite := disk
  edits _ := 0
  drops := []

/-- The contents a load would give: the last ones written, else those generated. -/
def World.durable (cfg : Config α) (w : World α) (p : ChunkPos) : α :=
  (w.lastWrite p).getD (cfg.generate p)

/-- `self.chunks.get(key).map(|r| r.clone())`. -/
def World.clone (w : World α) (p : ChunkPos) : Option (Clone α) :=
  (w.chunks p).map fun e => ⟨e, w.edits p⟩

/-! ## One access of a task -/

/-- What a task does to the map or the disk at once. -/
inductive Effect (α : Type) where
  | none
  | drop (p : ChunkPos) (counted : Bool)
  | markClean (p : ChunkPos)
  | write (p : ChunkPos) (chunk : Clone α)

/-- Removing an entry; only some callers adjust the count. -/
def World.drop (cfg : Config α) (w : World α) (p : ChunkPos) (counted : Bool) : World α :=
  match w.chunks p with
  | none => w
  | some e =>
      { w with
        chunks := Function.update w.chunks p none
        count := if counted then w.count - 1#64 else w.count
        drops := w.drops ++ [⟨p, e.contents, w.durable cfg p⟩] }

def World.markClean (w : World α) (p : ChunkPos) : World α :=
  { w with
    chunks := Function.update w.chunks p ((w.chunks p).map fun e => { e with dirty := false }) }

def World.write (w : World α) (p : ChunkPos) (chunk : Clone α) : World α :=
  { w with lastWrite := Function.update w.lastWrite p (some chunk.entry.contents) }

def World.perform (cfg : Config α) (w : World α) : Effect α → World α
  | .none => w
  | .drop p counted => w.drop cfg p counted
  | .markClean p => w.markClean p
  | .write p chunk => w.write p chunk

/-- What the environment chooses for one access: whether a write succeeds, and the order in which
a sweep that starts here visits the entries. -/
structure Choice where
  ok : Bool
  order : List ChunkPos

/-- The filter of the sweep. -/
def Purpose.selects (p : ChunkPos) (e : Entry α) : Purpose → Bool
  | .evict _ => !e.dirty
  | .flush _ => e.dirty
  | .countDirty => e.dirty
  | .writeback _ => e.dirty
  | .unload keep => p ∉ keep

/-- `sort_unstable_by_key` on the LRU order; a key that has left the map comes last. -/
def World.byLru (w : World α) (keys : List ChunkPos) : List ChunkPos :=
  let lru p := ((w.chunks p).map Entry.lruOrder).getD (2 ^ 64 - 1)
  keys.mergeSort fun a b => lru a ≤ lru b

/-- What a call does with the keys it collected. -/
def World.swept (cfg : Config α) (w : World α) (c : Choice) (found : List ChunkPos) :
    Purpose → Option (Task α)
  | .evict count =>
      let candidates := w.byLru found
      let cleanN := min count candidates.length
      some (.evictClean (candidates.take cleanN) (count - cleanN))
  | .flush count =>
      let candidates := w.byLru found
      some (.flush (candidates.take (min count candidates.length)))
  | .countDirty =>
      let dirty := found.length
      if dirty ≤ cfg.threshold then none
      else some (.sweep (.writeback (dirty - cfg.threshold / 2)) c.order [])
  | .writeback toFlush => some (.writeback ((w.byLru found).take toFlush))
  | .unload _ => some (.unload found)

/-- A clone of a dirty chunk, added to the ones collected. -/
def World.collect (w : World α) (p : ChunkPos) (found : List (ChunkPos × Clone α)) :
    List (ChunkPos × Clone α) :=
  match w.clone p with
  | some chunk => if chunk.entry.dirty then found ++ [(p, chunk)] else found
  | none => found

/-- The next access of a task, and the task after it. -/
def Task.next (cfg : Config α) (w : World α) (c : Choice) :
    Task α → Effect α × Option (Task α)
  | .checkCapacity =>
      let current := w.count.toNat
      (.none, if current > cfg.maxChunks then
        some (.sweep (.evict (current - cfg.maxChunks)) c.order []) else none)
  | .sweep purpose (p :: todo) found =>
      let selected := (w.chunks p).any fun e => purpose.selects p e
      (.none, some (.sweep purpose todo (if selected then found ++ [p] else found)))
  | .sweep purpose [] found => (.none, w.swept cfg c found purpose)
  -- `evict_lru`: the clean chunks, and dirty ones if there were too few
  | .evictClean (p :: keys) remaining => (.drop p true, some (.evictClean keys remaining))
  | .evictClean [] remaining =>
      (.none, if remaining > 0 then some (.sweep (.flush remaining) c.order []) else none)
  -- `flush_dirty_lru`: the chunk leaves whether or not it was saved
  | .flush (p :: keys) =>
      match w.clone p with
      | some chunk => (.none, some (.flushSave p chunk keys))
      | none => (.none, some (.flushRemove p [] keys))
  | .flush [] => (.none, none)
  | .flushSave p chunk keys =>
      if c.ok then (.write p chunk, some (.flushRemove p [(p, chunk)] keys))
      else (.none, some (.flushRemove p [] keys))
  | .flushRemove p _ keys => (.drop p true, some (.flush keys))
  -- `proactive_writeback`
  | .writeback (p :: keys) =>
      match w.clone p with
      | some chunk => (.none, some (.writebackSave p chunk keys))
      | none => (.none, some (.writeback keys))
  | .writeback [] => (.none, none)
  | .writebackSave p chunk keys =>
      if c.ok then (.write p chunk, some (.writebackMark p chunk keys))
      else (.none, some (.writeback keys))
  | .writebackMark p _ keys => (.markClean p, some (.writeback keys))
  -- `unload_distant`
  | .unload (p :: keys) => (.drop p false, some (.unload keys))
  | .unload [] => (.none, none)
  -- the autosave: one chunk saved is enough to mark all chunks clean
  | .snapshot (p :: todo) found => (.none, some (.snapshot todo (w.collect p found)))
  | .snapshot [] found => (.none, if found.isEmpty then none else some (.saveLinear found found []))
  | .saveLinear ((p, chunk) :: todo) chunks saved =>
      if chunk.entry.dirty && c.ok then
        (.write p chunk, some (.saveLinear todo chunks (saved ++ [(p, chunk)])))
      else (.none, some (.saveLinear todo chunks saved))
  | .saveLinear [] chunks saved =>
      (.none, some (if saved.length > 0 then .markAll c.order saved
        else .writeChunks chunks [] .markAll))
  -- the eviction of `stream_new_chunks`
  | .collectEvicted (p :: todo) evicted found =>
      (.none, some (.collectEvicted todo evicted (w.collect p found)))
  | .collectEvicted [] evicted found => (.none, some (.writeChunks found [] (.remove evicted)))
  -- `write_chunks` stops at the first error; the autosave then gives up, the eviction goes on
  | .writeChunks ((p, chunk) :: todo) saved after =>
      if c.ok then (.write p chunk, some (.writeChunks todo (saved ++ [(p, chunk)]) after))
      else match after with
        | .markAll => (.none, none)
        | .remove evicted => (.none, some (.removeEvicted evicted saved))
  | .writeChunks [] saved after =>
      match after with
      | .markAll => (.none, some (.markAll c.order saved))
      | .remove evicted => (.none, some (.removeEvicted evicted saved))
  | .markAll (p :: todo) saved => (.markClean p, some (.markAll todo saved))
  | .markAll [] _ => (.none, none)
  | .removeEvicted (p :: todo) saved => (.drop p false, some (.removeEvicted todo saved))
  | .removeEvicted [] _ => (.none, none)

/-! ## Runs -/

inductive Action (α : Type) where
  /-- `get_mut` and `set_block` on a loaded chunk. -/
  | edit (p : ChunkPos) (contents : α)
  | insert (p : ChunkPos) (e : Entry α)
  | remove (p : ChunkPos)
  | flushDirtyLru (count : Nat) (order : List ChunkPos)
  | proactiveWriteback (order : List ChunkPos)
  | unloadDistant (keep order : List ChunkPos)
  | autosave (order : List ChunkPos)
  | evictDistant (evicted : List ChunkPos)
  /-- The next access of the running task `i`. -/
  | run (i : Nat) (c : Choice)

/-- A sweep visits every entry that is there when it starts, and none twice. -/
structure Covers (w : World α) (order : List ChunkPos) : Prop where
  nodup : order.Nodup
  loaded : ∀ p, (w.chunks p).isSome → p ∈ order

def World.edit (w : World α) (p : ChunkPos) (contents : α) : World α :=
  { w with
    chunks := Function.update w.chunks p
      ((w.chunks p).map fun e => { e with contents := contents, dirty := true })
    edits := Function.update w.edits p (w.edits p + 1) }

/-- A chunk as the store sees it. -/
def Entry.ofChunk (c : Chunk) (lruOrder : Nat) : Entry Sections := ⟨c.sections, c.dirty, lruOrder⟩

/-- `set_block` on a loaded chunk is an edit. -/
theorem edit_setBlock {w : World Sections} {p : ChunkPos} {c c' : Chunk} {lruOrder x z : Nat}
    {y : BitVec 32} {block : BlockState} (hp : w.chunks p = some (Entry.ofChunk c lruOrder))
    (hset : c.setBlock x y z block = some c') :
    (w.edit p c'.sections).chunks p = some (Entry.ofChunk c' lruOrder) := by
  obtain ⟨idx, sec, _, _, rfl⟩ := Chunk.setBlock_spec hset
  simp [World.edit, hp, Entry.ofChunk]

/-- `self.chunks.insert(pos, chunk)` and the count; a chunk it replaces leaves the store. -/
def World.insert (cfg : Config α) (w : World α) (p : ChunkPos) (e : Entry α) : World α :=
  { w with
    chunks := Function.update w.chunks p (some e)
    count := if (w.chunks p).isSome then w.count else w.count + 1#64
    tasks := w.tasks ++ [.checkCapacity]
    edits := Function.update w.edits p (w.edits p + 1)
    drops := w.drops ++
      ((w.chunks p).map fun old => ⟨p, old.contents, w.durable cfg p⟩).toList }

def World.start (w : World α) (t : Task α) : World α := { w with tasks := w.tasks ++ [t] }

/-- The task list after task `i` went on as `t`. -/
def World.resume (w : World α) (i : Nat) (t : Option (Task α)) : World α :=
  match t with
  | some t => { w with tasks := w.tasks.set i t }
  | none => { w with tasks := w.tasks.eraseIdx i }

def World.runTask (cfg : Config α) (w : World α) (i : Nat) (c : Choice) : World α :=
  match w.tasks[i]? with
  | none => w
  | some t =>
      let (effect, t') := t.next cfg w c
      (w.perform cfg effect).resume i t'

def system (cfg : Config α) : StepSystem (World α) (Action α) where
  init w := ∃ disk, w = World.new disk
  enabled w
    | .edit p _ => (w.chunks p).isSome
    | .insert _ _ => True
    | .remove _ => True
    | .flushDirtyLru _ order => Covers w order
    | .proactiveWriteback order => Covers w order
    | .unloadDistant _ order => Covers w order
    | .autosave order => Covers w order
    | .evictDistant _ => True
    | .run i c => i < w.tasks.length ∧ Covers w c.order
  apply w
    | .edit p contents => w.edit p contents
    | .insert p e => w.insert cfg p e
    | .remove p => w.drop cfg p false
    | .flushDirtyLru count order => w.start (.sweep (.flush count) order [])
    | .proactiveWriteback order => w.start (.sweep .countDirty order [])
    | .unloadDistant keep order => w.start (.sweep (.unload keep) order [])
    | .autosave order => w.start (.snapshot order [])
    | .evictDistant evicted => w.start (.collectEvicted evicted evicted [])
    | .run i c => w.runTask cfg i c

/-! ## No edit lost -/

/-- A loaded chunk whose contents are not its last ones written is dirty, and every chunk that
left the store had been written as it was. -/
structure NoEditLost (cfg : Config α) (w : World α) : Prop where
  loaded : ∀ p e, w.chunks p = some e → e.contents ≠ w.durable cfg p → e.dirty = true
  dropped : ∀ d ∈ w.drops, d.contents = d.durable

/-- The position has seen no edit since the clone was taken. -/
def Unedited (w : World α) (p : ChunkPos) (chunk : Clone α) : Prop := chunk.edits = w.edits p

/-- The chunk at `p`, if there is one, is clean, or unedited since a clone of it was written. -/
def Saved (w : World α) (p : ChunkPos) (saved : List (ChunkPos × Clone α)) : Prop :=
  ∀ e, w.chunks p = some e → e.dirty = false ∨ ∃ chunk, (p, chunk) ∈ saved ∧ Unedited w p chunk

/-- The clones a task has written. -/
def Task.saved : Task α → List (ChunkPos × Clone α)
  | .flushRemove _ saved _ => saved
  | .writebackMark key chunk _ => [(key, chunk)]
  | .saveLinear _ _ saved => saved
  | .writeChunks _ saved _ => saved
  | .markAll _ saved => saved
  | .removeEvicted _ saved => saved
  | _ => []

/-- An access that loses no edit: a removal or a clean mark finds a saved chunk, a write an
unedited one. -/
def SafeEffect (w : World α) (saved : List (ChunkPos × Clone α)) : Effect α → Prop
  | .none => True
  | .drop p _ => Saved w p saved
  | .markClean p => Saved w p saved
  | .write p chunk => Unedited w p chunk

/-- An action that loses no edit.  A chunk that is inserted replaces no dirty one, and is itself
dirty unless it holds what a load would give. -/
def SafeAction (cfg : Config α) (w : World α) : Action α → Prop
  | .insert p e => Saved w p [] ∧ (e.dirty = true ∨ e.contents = w.durable cfg p)
  | .remove p => Saved w p []
  | .run i c => ∀ t, w.tasks[i]? = some t → SafeEffect w t.saved (t.next cfg w c).1
  | _ => True

end ChunkStore

end Apoptotic
