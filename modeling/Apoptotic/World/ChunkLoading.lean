import Apoptotic.World.ChunkStore
import Mathlib.Data.List.Perm.Basic

/-!
# The producers of chunks

`AsyncChunkBridge` of `mc-server/src/async_chunk.rs`, and the chunks that `handle_play` and
`stream_new_chunks` of `mc-network/src/connection.rs` install, over the chunk store with all of
its running calls.  A producer generates or loads a chunk and inserts it later, whatever the store
then holds.  A position leaves `pending` when its batch starts and is seen again when the batch
puts its chunk into `completed`.

Beside the state stand the contents of the last edit of each loaded chunk, and the positions that
were enqueued and neither installed nor found in the store since.
-/

namespace Apoptotic

namespace ChunkLoading

open ChunkStore

variable {α : Type}

/-! ## The producers -/

/-- A running producer and where it stands. -/
inductive Producer (α : Type) where
  /-- The spawn area of `handle_play`. -/
  | join (todo : List ChunkPos)
  /-- The chunks `stream_new_chunks` installs, and those it evicts after them. -/
  | stream (todo evicted : List ChunkPos)
  /-- A batch of the bridge: positions to look at, chunks to hand over. -/
  | batch (todo : List ChunkPos) (generated : List (ChunkPos × Entry α))
  /-- `drain_completed`: keys to look up. -/
  | drain (todo : List ChunkPos)
  /-- `drain_completed`: a chunk taken out of `completed`. -/
  | install (p : ChunkPos) (e : Entry α) (todo : List ChunkPos)

structure State (α : Type) where
  store : ChunkStore.World α
  pending : List (ChunkPos × BitVec 8)
  /-- What a running `enqueue`, which holds the lock of `pending`, has still to look at. -/
  enqueuing : Option (List (ChunkPos × BitVec 8))
  completed : ChunkPos → Option (Entry α)
  /-- Whether `set_runtime` was called. -/
  runtime : Bool
  producers : List (Producer α)
  latest : ChunkPos → Option α
  awaited : ChunkPos → Bool

def State.new (disk : ChunkPos → Option α) : State α where
  store := ChunkStore.World.new disk
  pending := []
  enqueuing := none
  completed _ := none
  runtime := false
  producers := []
  latest _ := none
  awaited _ := false

/-- What the environment chooses for one step: which position of a parallel batch comes next, what
the disk holds for it, and the global LRU counter. -/
structure Pick (α : Type) where
  index : Nat
  disk : Option (Entry α)
  lruOrder : Nat

/-- `generate_chunk`: a chunk that is not dirty. -/
def generated (cfg : Config α) (p : ChunkPos) (lruOrder : Nat) : Entry α :=
  ⟨cfg.generate p, false, lruOrder⟩

/-- `chunk_store.insert`. -/
def State.insert (cfg : Config α) (s : State α) (p : ChunkPos) (e : Entry α) : State α :=
  { s with store := s.store.insert cfg p e }

/-- The position is no longer waited for. -/
def State.serve (s : State α) (p : ChunkPos) : State α :=
  { s with awaited := Function.update s.awaited p false }

/-- One step of a producer, and the producer after it. -/
def Producer.next (cfg : Config α) (s : State α) (c : Pick α) :
    Producer α → State α × Option (Producer α)
  | .join (p :: todo) => (s.insert cfg p (generated cfg p c.lruOrder), some (.join todo))
  | .join [] => (s, none)
  | .stream (p :: todo) evicted =>
      (s.insert cfg p (generated cfg p c.lruOrder), some (.stream todo evicted))
  | .stream [] evicted =>
      ({ s with store := s.store.start (.collectEvicted evicted evicted []) }, none)
  -- the check, then the disk or the generator; nothing is inserted yet
  | .batch (q :: todo) generatedChunks =>
      match (q :: todo)[c.index]? with
      | none => (s, some (.batch (q :: todo) generatedChunks))
      | some p =>
          let todo := (q :: todo).eraseIdx c.index
          if (s.store.chunks p).isSome then (s.serve p, some (.batch todo generatedChunks))
          else
            let chunk := c.disk.getD (generated cfg p c.lruOrder)
            (s, some (.batch todo (generatedChunks ++ [(p, chunk)])))
  | .batch [] ((p, e) :: generatedChunks) =>
      ({ s with completed := Function.update s.completed p (some e) },
        some (.batch [] generatedChunks))
  | .batch [] [] => (s, none)
  | .drain (p :: todo) =>
      match s.completed p with
      | some e =>
          ({ s with completed := Function.update s.completed p none }, some (.install p e todo))
      | none => (s, some (.drain todo))
  | .drain [] => (s, none)
  | .install p e todo => ((s.insert cfg p e).serve p, some (.drain todo))

/-! ## What a player's moves install -/

/-- `dx` and `dz` from `-radius` to `radius`. -/
def square (centre : ChunkPos) (radius : Nat) : List ChunkPos :=
  let offsets := (List.range (2 * radius + 1)).map fun i => BitVec.ofInt 32 (i - radius)
  offsets.flatMap fun dx => offsets.map fun dz => ⟨centre.x + dx, centre.z + dz⟩

/-- `i32::signum`. -/
def signum (v : BitVec 32) : BitVec 32 := BitVec.ofInt 32 v.toInt.sign

/-- The Chebyshev distance of two chunks. -/
def distance (a b : ChunkPos) : Nat := max (a.x - b.x).toInt.natAbs (a.z - b.z).toInt.natAbs

/-- The pre-sent chunk, one past the border in the direction of the move. -/
def predicted (oldChunk newChunk : ChunkPos) (loaded : List ChunkPos) (radius : Nat) :
    List ChunkPos :=
  let dx := signum (newChunk.x - oldChunk.x)
  let dz := signum (newChunk.z - oldChunk.z)
  let ahead := BitVec.ofNat 32 (radius + 1)
  let p : ChunkPos := ⟨newChunk.x + dx * ahead, newChunk.z + dz * ahead⟩
  if (dx ≠ 0#32 ∨ dz ≠ 0#32) ∧ p ∉ loaded then [p] else []

/-- The visible chunks the connection has not sent yet. -/
def newChunks (newChunk : ChunkPos) (loaded : List ChunkPos) (radius : Nat) : List ChunkPos :=
  (square newChunk radius).filter fun p => p ∉ loaded

/-- `MAX_CHUNKS_PER_SEND`. -/
def MAX_CHUNKS_PER_SEND : Nat := 6

/-- The chunks `stream_new_chunks` inserts, in order; `order` is the order of the hash set. -/
def streamed (oldChunk newChunk : ChunkPos) (loaded : List ChunkPos) (radius : Nat)
    (order : List ChunkPos) : List ChunkPos :=
  if order = [] then []
  else
    predicted oldChunk newChunk loaded radius ++
      (order.mergeSort fun a b => distance a newChunk ≤ distance b newChunk).take
        MAX_CHUNKS_PER_SEND

/-! ## `enqueue` -/

/-- One position: skipped if it is loaded or already queued. -/
def State.enqueueOne (s : State α) (p : ChunkPos) (priority : BitVec 8) : State α :=
  if (s.store.chunks p).isSome then s
  else if s.pending.any fun q => q.1 = p then s
  else
    { s with
      pending := s.pending ++ [(p, priority)]
      awaited := Function.update s.awaited p true }

/-- The batch: up to 32 positions of the highest priority leave `pending`, whether or not there is
a runtime to hand them to. -/
def State.dispatch (s : State α) : State α :=
  let pending := s.pending.mergeSort fun a b => b.2.toNat ≤ a.2.toNat
  let batchSize := min pending.length 32
  if batchSize = 0 then { s with pending := pending, enqueuing := none }
  else
    let toProcess := (pending.take batchSize).map Prod.fst
    { s with
      pending := pending.drop batchSize
      enqueuing := none
      producers := if s.runtime then s.producers ++ [.batch toProcess []] else s.producers }

def State.enqueueNext (s : State α) : State α :=
  match s.enqueuing with
  | none => s
  | some ((p, priority) :: todo) => { s.enqueueOne p priority with enqueuing := some todo }
  | some [] => s.dispatch

/-! ## Runs -/

inductive Action (α : Type) where
  /-- An edit, or any other action of the store but an insertion. -/
  | store (a : ChunkStore.Action α)
  | setRuntime
  | handlePlay (radius : Nat)
  | streamNewChunks (oldChunk newChunk : ChunkPos) (loaded : List ChunkPos) (radius : Nat)
      (order : List ChunkPos)
  | enqueue (positions : List (ChunkPos × BitVec 8))
  | enqueueNext
  | drainCompleted (order : List ChunkPos)
  /-- The next step of the producer `i`. -/
  | run (i : Nat) (c : Pick α)

/-- The contents of the last edit, for the chunks that are still loaded. -/
def State.afterStore (s : State α) (a : ChunkStore.Action α) (store : ChunkStore.World α) :
    State α :=
  let latest := match a with
    | .edit p contents => Function.update s.latest p (some contents)
    | _ => s.latest
  { s with
    store := store
    latest := fun p => if (store.chunks p).isSome then latest p else none }

def State.start (s : State α) (t : Producer α) : State α :=
  { s with producers := s.producers ++ [t] }

/-- The producers after producer `i` went on as `t`. -/
def State.resume (s : State α) (i : Nat) (t : Option (Producer α)) : State α :=
  match t with
  | some t => { s with producers := s.producers.set i t }
  | none => { s with producers := s.producers.eraseIdx i }

def State.runProducer (cfg : Config α) (s : State α) (i : Nat) (c : Pick α) : State α :=
  match s.producers[i]? with
  | none => s
  | some t =>
      let (s', t') := t.next cfg s c
      s'.resume i t'

/-- A chunk enters the store through the producers only. -/
def NotInsert : ChunkStore.Action α → Prop
  | .insert _ _ => False
  | _ => True

def system (cfg : Config α) : StepSystem (State α) (Action α) where
  init s := ∃ disk, s = State.new disk
  enabled s
    | .store a => NotInsert a ∧ (ChunkStore.system cfg).enabled s.store a
    | .setRuntime => True
    | .handlePlay _ => True
    | .streamNewChunks _ newChunk loaded radius order =>
        order.Perm (newChunks newChunk loaded radius)
    | .enqueue _ => s.enqueuing = none
    | .enqueueNext => s.enqueuing.isSome
    | .drainCompleted order => order.Nodup ∧ ∀ p, (s.completed p).isSome → p ∈ order
    | .run i _ => i < s.producers.length
  apply s
    | .store a => s.afterStore a ((ChunkStore.system cfg).apply s.store a)
    | .setRuntime => { s with runtime := true }
    | .handlePlay radius => s.start (.join (square ⟨0#32, 0#32⟩ radius))
    | .streamNewChunks oldChunk newChunk loaded radius order =>
        if radius = 0 then s
        else s.start (.stream (streamed oldChunk newChunk loaded radius order)
          (loaded.filter fun p => p ∉ square newChunk radius))
    | .enqueue positions => { s with enqueuing := some positions }
    | .enqueueNext => s.enqueueNext
    | .drainCompleted order => s.start (.drain order)
    | .run i c => s.runProducer cfg i c

/-! ## Nothing replaced, nothing dropped -/

/-- The positions a producer carries. -/
def Producer.positions : Producer α → List ChunkPos
  | .join _ => []
  | .stream _ _ => []
  | .batch todo generatedChunks => todo ++ generatedChunks.map Prod.fst
  | .drain _ => []
  | .install p _ _ => [p]

/-- The position is queued, in a batch, or ready. -/
def InFlight (s : State α) (p : ChunkPos) : Prop :=
  p ∈ s.pending.map Prod.fst ∨ (∃ t ∈ s.producers, p ∈ t.positions) ∨ (s.completed p).isSome

/-- A loaded chunk shows its last edit, and an enqueued position that was neither installed nor
found in the store is still on its way. -/
structure Kept (s : State α) : Prop where
  visible : ∀ p contents, s.latest p = some contents →
    (s.store.chunks p).map Entry.contents = some contents
  awaited : ∀ p, s.awaited p = true → InFlight s p

/-- No edited chunk is loaded at `p`, or it has the contents to be installed. -/
def Installable (s : State α) (p : ChunkPos) (contents : α) : Prop :=
  ∀ c, s.latest p = some c → c = contents

/-- What a producer installs with its next step meets no edited chunk. -/
def SafeNext (cfg : Config α) (s : State α) : Producer α → Prop
  | .join (p :: _) => Installable s p (cfg.generate p)
  | .stream (p :: _) _ => Installable s p (cfg.generate p)
  | .install p e _ => Installable s p e.contents
  | _ => True

/-- An action that replaces no edited chunk and drops no position: a producer installs only where
no edited chunk is loaded, and a batch that is not empty finds a runtime. -/
def SafeAction (cfg : Config α) (s : State α) : Action α → Prop
  | .enqueueNext => s.enqueuing = some [] → s.pending = [] ∨ s.runtime = true
  | .run i _ => ∀ t, s.producers[i]? = some t → SafeNext cfg s t
  | _ => True

end ChunkLoading

end Apoptotic
