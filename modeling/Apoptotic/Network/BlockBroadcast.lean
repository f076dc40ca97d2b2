import Apoptotic.Lib.Floats
import Apoptotic.Lib.Reached
import Mathlib.Data.List.Flatten
import Mathlib.Data.List.Nodup
import Mathlib.Logic.Function.Iterate

/-!
# The broadcast of block edits

`DirtyBlockTracker` of `mc-network/src/connection.rs`, `dirty_chunks_broadcast`, and the part of the
play loop of `mc-network/src/play_loop.rs` that every connection runs over both, while the tick
thread and the other connections record edits.  Chunk coordinates are the sixteenths of `i32`
coordinates, so their differences do not overflow; a packet that is sent arrives.

Principal results: `reaches_iff` — what a play loop delivers when it runs alone;
`along_delivered_iff` — every edit stays on its way to every viewer, and no entry is sent twice,
exactly along the runs in which no connection passes an entry again, takes a chunk from another
viewer or outruns its own range, and the cleanup finds nothing owed.
-/

namespace Apoptotic

namespace BlockBroadcast

/-! ## The tracker -/

/-- A `ChunkPos`. -/
structure Column where
  x : Int
  z : Int
  deriving DecidableEq, Repr

/-- The chunk of a block; `>> 4` and `div_euclid(16)` agree. -/
def Column.ofBlock (x z : Int) : Column := ⟨x / 16, z / 16⟩

structure SectionKey where
  chunkX : Int
  sectionY : Int
  chunkZ : Int
  deriving DecidableEq, Repr

def SectionKey.column (key : SectionKey) : Column := ⟨key.chunkX, key.chunkZ⟩

/-- An entry of the tracker, and which edit it records; the code keeps no such number. -/
structure BlockEntry where
  localIndex : Int
  blockState : BitVec 32
  edit : Nat
  deriving DecidableEq, Repr

abbrev SectionUpdate := SectionKey × List BlockEntry

structure DirtyBlockTracker where
  pending : List SectionUpdate
  generation : BitVec 64
  deriving DecidableEq, Repr

/-- `entry(key).or_insert_with(..).push(entry)` -/
def push (key : SectionKey) (entry : BlockEntry) : List SectionUpdate → List SectionUpdate
  | [] => [(key, [entry])]
  | (k, blocks) :: rest =>
      if k = key then (k, blocks ++ [entry]) :: rest else (k, blocks) :: push key entry rest

def DirtyBlockTracker.markBlock (t : DirtyBlockTracker) (edit : Nat) (worldX worldY worldZ : Int)
    (blockState : BitVec 32) : DirtyBlockTracker where
  pending := push ⟨worldX / 16, worldY / 16, worldZ / 16⟩
    ⟨worldY % 16 * 256 + worldZ % 16 * 16 + worldX % 16, blockState, edit⟩ t.pending
  generation := t.generation + 1

/-- At most `maxDist` chunks away along both axes. -/
def Near (maxDist cx cz : Int) (col : Column) : Prop :=
  |col.x - cx| ≤ maxDist ∧ |col.z - cz| ≤ maxDist

instance (maxDist cx cz : Int) (col : Column) : Decidable (Near maxDist cx cz col) :=
  inferInstanceAs (Decidable (_ ∧ _))

/-- The entries in range; they stay. -/
def DirtyBlockTracker.drainNearby (t : DirtyBlockTracker) (playerCx playerCz maxDist : Int) :
    List SectionUpdate :=
  t.pending.filter fun s => decide (Near maxDist playerCx playerCz s.1.column) && !s.2.isEmpty

def DirtyBlockTracker.cleanupStale (t : DirtyBlockTracker) : DirtyBlockTracker :=
  if 1024 < t.pending.length then { t with pending := [] } else t

/-! ## The connections -/

/-- An edit of a block, or of a whole chunk. -/
structure Edit where
  id : Nat
  column : Column
  deriving DecidableEq, Repr

/-- The edits that entries record. -/
def edits (updates : List SectionUpdate) : List Edit :=
  updates.flatMap fun s => s.2.map fun b => ⟨b.edit, s.1.column⟩

/-- Where a play loop is: `drained` has sent the tracker's entries for a player in the chunk
    `(cx, cz)`, `collected` has read `nearby_chunks`, `sending` has taken them out of the set. -/
inductive Stage where
  | idle
  | drained (cx cz : Int)
  | collected (nearbyChunks : List Column)
  | sending (nearbyChunks : List Column)
  deriving DecidableEq, Repr

/-- A connection.  `sent` is what `UpdateSectionBlocks` packets have carried to it, `owed` what was
    edited in its view and has not reached it. -/
structure Connection where
  x : Rat
  z : Rat
  viewRadius : Nat
  stage : Stage
  sent : List Edit
  owed : List Edit

/-- `as i32`: towards zero. -/
def truncI32 (q : Rat) : Int := saturate (if 0 ≤ q then ⌊q⌋ else ⌈q⌉)

def effectiveViewDistance (max online : Nat) : Nat :=
  if online ≤ 1 then max
  else if online ≤ 3 then Nat.max (max - 1) 4
  else if online ≤ 6 then Nat.max (max - 2) 4
  else Nat.max (max - 3) 4

/-- The chunk is among those that `stream_new_chunks` keeps at the client. -/
def Connection.InView (c : Connection) (col : Column) : Prop :=
  Near c.viewRadius (saturate ⌊c.x⌋ / 16) (saturate ⌊c.z⌋ / 16) col

instance (c : Connection) (col : Column) : Decidable (c.InView col) :=
  inferInstanceAs (Decidable (Near ..))

/-- The chunk is among those that a pass of the play loop that starts now looks at. -/
def Connection.InRange (viewDistance : Nat) (c : Connection) (col : Column) : Prop :=
  Near (viewDistance + 2) (truncI32 c.x / 16) (truncI32 c.z / 16) col

instance (viewDistance : Nat) (c : Connection) (col : Column) :
    Decidable (c.InRange viewDistance col) := inferInstanceAs (Decidable (Near ..))

/-- An edit is owed to the viewers of its chunk. -/
def Connection.owe (c : Connection) (e : Edit) : Connection :=
  if c.InView e.column then { c with owed := e :: c.owed } else c

/-- The chunk's data has the newest blocks. -/
def Connection.chunkData (c : Connection) (col : Column) : Connection :=
  { c with owed := c.owed.filter fun e => e.column ≠ col }

/-- What has left the view is no longer owed. -/
def Connection.move (c : Connection) (x z : Rat) : Connection :=
  let moved := { c with x := x, z := z }
  { moved with owed := c.owed.filter fun e => moved.InView e.column }

def Connection.drain (viewDistance : Nat) (t : DirtyBlockTracker) (c : Connection) : Connection :=
  let myCx := truncI32 c.x / 16
  let myCz := truncI32 c.z / 16
  let nearbySections := t.drainNearby myCx myCz (viewDistance + 2)
  { c with
    stage := .drained myCx myCz
    sent := c.sent ++ edits nearbySections
    owed := c.owed.filter fun e => e ∉ edits nearbySections }

/-- The next thing a play loop does; `loaded` says whether the next chunk is in the store. -/
def Connection.next (viewDistance : Nat) (t : DirtyBlockTracker) (dirty : List Column)
    (loaded : Bool) (c : Connection) : Connection :=
  match c.stage with
  | .idle => c.drain viewDistance t
  | .drained cx cz =>
      { c with stage := .collected (dirty.filter fun col => Near (viewDistance + 2) cx cz col) }
  | .collected nearbyChunks => { c with stage := .sending nearbyChunks }
  | .sending [] => { c with stage := .idle }
  | .sending (col :: rest) =>
      let c := { c with stage := .sending rest }
      if loaded then c.chunkData col else c

/-- What the next thing leaves of `dirty_chunks_broadcast`. -/
def Stage.dirtyAfter (dirty : List Column) : Stage → List Column
  | .collected nearbyChunks => dirty.filter fun col => col ∉ nearbyChunks
  | _ => dirty

/-! ## The system -/

/-- `edits` counts the edits so far. -/
structure Broadcast (ι : Type) where
  tracker : DirtyBlockTracker
  dirtyChunksBroadcast : List Column
  connections : ι → Option Connection
  edits : Nat

inductive Action (ι : Type) where
  | markBlock (x y z : Int) (block : BitVec 32)
  | markChunk (col : Column)
  | turn (i : ι) (loaded : Bool)
  /-- Another packet with the chunk's data: it is streamed, or the client made the edit. -/
  | chunkData (i : ι) (col : Column)
  | move (i : ι) (x z : Rat)
  | join (i : ι) (x z : Rat) (online : Nat)
  | leave (i : ι)
  | cleanupStale

variable {ι : Type} [DecidableEq ι] (viewDistance : Nat)

def Broadcast.onConnection (s : Broadcast ι) (i : ι) (f : Connection → Connection) : Broadcast ι :=
  { s with connections := Function.update s.connections i ((s.connections i).map f) }

/-- An edit is recorded: every viewer is owed it. -/
def Broadcast.record (s : Broadcast ι) (col : Column) (tracker : DirtyBlockTracker)
    (dirty : List Column) : Broadcast ι where
  tracker := tracker
  dirtyChunksBroadcast := dirty
  connections i := (s.connections i).map fun c => c.owe ⟨s.edits, col⟩
  edits := s.edits + 1

def Broadcast.turn (s : Broadcast ι) (i : ι) (loaded : Bool) : Broadcast ι :=
  match s.connections i with
  | none => s
  | some c =>
      { s with
        dirtyChunksBroadcast := c.stage.dirtyAfter s.dirtyChunksBroadcast
        connections := Function.update s.connections i
          (some (c.next viewDistance s.tracker s.dirtyChunksBroadcast loaded)) }

def step (s : Broadcast ι) : Action ι → Broadcast ι
  | .markBlock x y z block =>
      s.record (.ofBlock x z) (s.tracker.markBlock s.edits x y z block) s.dirtyChunksBroadcast
  | .markChunk col => s.record col s.tracker (s.dirtyChunksBroadcast.insert col)
  | .turn i loaded => s.turn viewDistance i loaded
  | .chunkData i col => s.onConnection i fun c => c.chunkData col
  | .move i x z => s.onConnection i fun c => c.move x z
  | .join i x z online =>
      let c : Connection := ⟨x, z, effectiveViewDistance viewDistance online, .idle, [], []⟩
      { s with connections := Function.update s.connections i (some c) }
  | .leave i => { s with connections := Function.update s.connections i none }
  | .cleanupStale => { s with tracker := s.tracker.cleanupStale }

def init : Broadcast ι where
  tracker := ⟨[], 0⟩
  dirtyChunksBroadcast := []
  connections _ := none
  edits := 0

/-! ## What is asked of a run -/

/-- The connection's own play loop delivers the edit if nobody interferes. -/
def Reaches (s : Broadcast ι) (i : ι) (e : Edit) : Prop :=
  ∃ turns : Nat, ∀ c, ((fun s => Broadcast.turn viewDistance s i true)^[turns] s).connections i =
    some c → e ∉ c.owed

/-- No entry was sent to a connection twice, and every edit in its view that has not reached it is
    on its way. -/
def Delivered (s : Broadcast ι) : Prop :=
  ∀ i c, s.connections i = some c → c.sent.Nodup ∧ ∀ e ∈ c.owed, Reaches viewDistance s i e

/-- The chunks that the rest of a pass sends. -/
def Stage.rest (dirty : List Column) : Stage → List Column
  | .idle => []
  | .drained cx cz => dirty.filter fun col => Near (viewDistance + 2) cx cz col
  | .collected nearbyChunks => nearbyChunks
  | .sending nearbyChunks => nearbyChunks

/-- The edit is in the rest of the pass, or the next pass finds it. -/
def Connection.Coming (c : Connection) (pending : List SectionUpdate) (dirty : List Column)
    (e : Edit) : Prop :=
  e.column ∈ c.stage.rest viewDistance dirty ∨
    c.InRange viewDistance e.column ∧ (e ∈ edits pending ∨ e.column ∈ dirty)

/-- Every viewer of the chunk has it in range, or is about to send it. -/
def Heard (s : Broadcast ι) (col : Column) (dirty : List Column) : Prop :=
  ∀ i c, s.connections i = some c → c.InView col →
    col ∈ c.stage.rest viewDistance dirty ∨ c.InRange viewDistance col

/-- A turn of a connection harms nobody: it passes no entry again, it takes no chunk that another
    viewer is owed and has neither taken too nor in the tracker, and it meets no chunk that is not
    loaded and cannot come again. -/
def HarmlessTurn (s : Broadcast ι) (i : ι) (c : Connection) (loaded : Bool) : Prop :=
  match c.stage with
  | .idle => ∀ e ∈ edits s.tracker.pending, c.InRange viewDistance e.column → e ∉ c.sent
  | .collected nearbyChunks => ∀ j d, j ≠ i → s.connections j = some d →
      ∀ e ∈ d.owed, e.column ∈ nearbyChunks →
        e.column ∈ d.stage.rest viewDistance [] ∨
          d.InRange viewDistance e.column ∧ e ∈ edits s.tracker.pending
  | .sending (col :: rest) => loaded = false → ∀ e ∈ c.owed, e.column = col →
      col ∈ rest ∨ c.InRange viewDistance col ∧
        (e ∈ edits s.tracker.pending ∨ col ∈ s.dirtyChunksBroadcast)
  | _ => True

/-- An action takes nothing from a viewer and repeats nothing. -/
def Harmless (s : Broadcast ι) : Action ι → Prop
  | .markBlock x _ z _ => Heard viewDistance s (.ofBlock x z) s.dirtyChunksBroadcast
  | .markChunk col => Heard viewDistance s col (s.dirtyChunksBroadcast.insert col)
  | .turn i loaded => ∀ c, s.connections i = some c → HarmlessTurn viewDistance s i c loaded
  | .move i x z => ∀ c, s.connections i = some c → ∀ e ∈ c.owed, (c.move x z).InView e.column →
      (c.move x z).Coming viewDistance s.tracker.pending s.dirtyChunksBroadcast e
  | .cleanupStale => 1024 < s.tracker.pending.length → ∀ i c, s.connections i = some c →
      ∀ e ∈ c.owed, c.Coming viewDistance [] s.dirtyChunksBroadcast e
  | .chunkData .. => True
  | .join .. => True
  | .leave _ => True

/-! ## What the tracker holds -/

theorem mem_edits {updates : List SectionUpdate} {e : Edit} :
    e ∈ edits updates ↔ ∃ s ∈ updates, ∃ b ∈ s.2, Edit.mk b.edit s.1.column = e := by
  unfold edits
  simp only [List.mem_flatMap, List.mem_map]

theorem edits_push (key : SectionKey) (entry : BlockEntry) (updates : List SectionUpdate) :
    (edits (push key entry updates)).Perm (⟨entry.edit, key.column⟩ :: edits updates) := by
  induction updates with
  | nil => exact List.Perm.refl _
  | cons s rest ih =>
      obtain ⟨k, blocks⟩ := s
      unfold push edits
      split
      · rename_i hk
        subst hk
        simp only [List.flatMap_cons, List.map_append, List.append_assoc]
        exact List.perm_middle
      · rw [List.flatMap_cons, List.flatMap_cons]
        exact (ih.append_left _).trans List.perm_middle

theorem mem_edits_drainNearby {t : DirtyBlockTracker} {cx cz maxDist : Int} {e : Edit} :
    e ∈ edits (t.drainNearby cx cz maxDist) ↔ Near maxDist cx cz e.column ∧ e ∈ edits t.pending := by
  unfold DirtyBlockTracker.drainNearby
  simp only [mem_edits, List.mem_filter, Bool.and_eq_true, decide_eq_true_eq,
    Bool.not_eq_true', List.isEmpty_eq_false_iff]
  constructor
  · rintro ⟨s, ⟨hs, hnear, _⟩, b, hb, rfl⟩
    exact ⟨hnear, s, hs, b, hb, rfl⟩
  · rintro ⟨hnear, s, hs, b, hb, rfl⟩
    exact ⟨s, ⟨hs, hnear, List.ne_nil_of_mem hb⟩, b, hb, rfl⟩

theorem nodup_edits_drainNearby {t : DirtyBlockTracker} (h : (edits t.pending).Nodup)
    (cx cz maxDist : Int) : (edits (t.drainNearby cx cz maxDist)).Nodup :=
  h.sublist (List.filter_sublist.flatMap _)

/-! ## One turn of a play loop -/

variable {viewDistance} {t : DirtyBlockTracker} {pending : List SectionUpdate} {dirty : List Column}
  {loaded : Bool} {c : Connection} {e : Edit}

theorem mem_rest_drained {cx cz : Int} {col : Column} :
    col ∈ (Stage.drained cx cz).rest viewDistance dirty ↔
      col ∈ dirty ∧ Near (viewDistance + 2) cx cz col := by
  unfold Stage.rest
  rw [List.mem_filter, decide_eq_true_eq]

theorem mem_rest_congr (viewDistance : Nat) {dirty' : List Column} {col : Column} (h : col ∈ dirty ↔ col ∈ dirty')
    (stage : Stage) :
    col ∈ stage.rest viewDistance dirty ↔ col ∈ stage.rest viewDistance dirty' := by
  cases stage with
  | idle => exact Iff.rfl
  | drained cx cz => rw [mem_rest_drained, mem_rest_drained, h]
  | collected nearbyChunks => exact Iff.rfl
  | sending nearbyChunks => exact Iff.rfl

theorem mem_dirtyAfter_collected {nearbyChunks : List Column} {col : Column} :
    col ∈ (Stage.collected nearbyChunks).dirtyAfter dirty ↔ col ∈ dirty ∧ col ∉ nearbyChunks := by
  unfold Stage.dirtyAfter
  rw [List.mem_filter, decide_eq_true_eq]

theorem mem_owed_chunkData {col : Column} :
    e ∈ (c.chunkData col).owed ↔ e ∈ c.owed ∧ e.column ≠ col := by
  unfold Connection.chunkData
  rw [List.mem_filter, decide_eq_true_eq]

theorem mem_owed_drain :
    e ∈ (c.drain viewDistance t).owed ↔
      e ∈ c.owed ∧ ¬ (c.InRange viewDistance e.column ∧ e ∈ edits t.pending) := by
  unfold Connection.drain
  rw [List.mem_filter, decide_eq_true_eq, mem_edits_drainNearby]
  exact Iff.rfl

/-- What is still owed after a turn is on its way exactly if it was. -/
theorem coming_next_iff (he : e ∈ (c.next viewDistance t dirty true).owed) :
    (c.next viewDistance t dirty true).Coming viewDistance t.pending (c.stage.dirtyAfter dirty) e ↔
      c.Coming viewDistance t.pending dirty e := by
  obtain ⟨x, z, viewRadius, stage, sent, owed⟩ := c
  cases stage with
  | idle =>
      have hrest : e.column ∈ (Stage.drained (truncI32 x / 16) (truncI32 z / 16)).rest viewDistance
          dirty → (Connection.mk x z viewRadius .idle sent owed).InRange viewDistance e.column ∧
            (e ∈ edits t.pending ∨ e.column ∈ dirty) := fun h =>
        ⟨(mem_rest_drained.1 h).2, .inr (mem_rest_drained.1 h).1⟩
      exact ⟨fun h => .inr (h.elim hrest id), fun h => .inr (h.elim (absurd · List.not_mem_nil) id)⟩
  | drained cx cz => exact Iff.rfl
  | collected nearbyChunks =>
      refine or_congr_right' fun hnear => and_congr_right fun _ => or_congr_right ?_
      rw [mem_dirtyAfter_collected]
      exact and_iff_left hnear
  | sending nearbyChunks =>
      cases nearbyChunks with
      | nil => exact Iff.rfl
      | cons col rest =>
          have hne : e.column ≠ col := (mem_owed_chunkData.1 he).2
          refine or_congr ?_ Iff.rfl
          exact (List.mem_cons.trans (or_iff_right hne)).symm

/-- A turn delivers only what was on its way. -/
theorem mem_owed_next (he : e ∈ c.owed) (hlost : ¬ c.Coming viewDistance t.pending dirty e) :
    e ∈ (c.next viewDistance t dirty true).owed := by
  obtain ⟨x, z, viewRadius, stage, sent, owed⟩ := c
  cases stage with
  | idle => exact mem_owed_drain.2 ⟨he, fun h => hlost (.inr ⟨h.1, .inl h.2⟩)⟩
  | drained cx cz => exact he
  | collected nearbyChunks => exact he
  | sending nearbyChunks =>
      cases nearbyChunks with
      | nil => exact he
      | cons col rest =>
          refine mem_owed_chunkData.2 ⟨he, fun hcol => hlost (.inl ?_)⟩
          exact hcol ▸ List.mem_cons_self

theorem owed_of_mem_next (he : e ∈ (c.next viewDistance t dirty loaded).owed) : e ∈ c.owed := by
  obtain ⟨x, z, viewRadius, stage, sent, owed⟩ := c
  cases stage with
  | idle => exact (mem_owed_drain.1 he).1
  | drained cx cz => exact he
  | collected nearbyChunks => exact he
  | sending nearbyChunks =>
      cases nearbyChunks with
      | nil => exact he
      | cons col rest =>
          cases loaded with
          | true => exact (mem_owed_chunkData.1 he).1
          | false => exact he

/-! ## What a play loop delivers when it runs alone -/

section Alone

variable {s : Broadcast ι} {i : ι}

theorem connections_turn (hc : s.connections i = some c) (loaded : Bool) :
    (s.turn viewDistance i loaded).connections = Function.update s.connections i
      (some (c.next viewDistance s.tracker s.dirtyChunksBroadcast loaded)) := by
  unfold Broadcast.turn
  rw [hc]

theorem connections_turn_self (viewDistance : Nat) (hc : s.connections i = some c) (loaded : Bool) :
    (s.turn viewDistance i loaded).connections i =
      some (c.next viewDistance s.tracker s.dirtyChunksBroadcast loaded) := by
  rw [connections_turn hc, Function.update_self]

theorem dirty_turn (hc : s.connections i = some c) (loaded : Bool) :
    (s.turn viewDistance i loaded).dirtyChunksBroadcast =
      c.stage.dirtyAfter s.dirtyChunksBroadcast := by
  unfold Broadcast.turn
  rw [hc]

theorem tracker_turn (s : Broadcast ι) (i : ι) (loaded : Bool) :
    (s.turn viewDistance i loaded).tracker = s.tracker := by
  unfold Broadcast.turn
  split
  · rfl
  · rfl

/-- What is not on its way stays owed, and does not get on its way. -/
theorem lost_iterate (hc : s.connections i = some c) (he : e ∈ c.owed)
    (hlost : ¬ c.Coming viewDistance s.tracker.pending s.dirtyChunksBroadcast e) (turns : Nat) :
    ∃ d, ((fun s => Broadcast.turn viewDistance s i true)^[turns] s).connections i = some d ∧
      e ∈ d.owed := by
  induction turns generalizing s c with
  | zero => exact ⟨c, hc, he⟩
  | succ turns ih =>
      rw [Function.iterate_succ_apply]
      have howed := mem_owed_next he hlost
      refine ih (connections_turn_self _ hc true) howed ?_
      rw [tracker_turn, dirty_turn hc, coming_next_iff howed]
      exact hlost

theorem reaches_of_turn (h : Reaches viewDistance (s.turn viewDistance i true) i e) :
    Reaches viewDistance s i e := by
  obtain ⟨turns, hturns⟩ := h
  exact ⟨turns + 1, hturns⟩

theorem reaches_of_not_owed (hc : s.connections i = some c) (he : e ∉ c.owed) :
    Reaches viewDistance s i e := by
  refine ⟨0, fun d hd => ?_⟩
  obtain rfl := Option.some.inj (hc.symm.trans hd)
  exact he

theorem reaches_of_mem_sending {nearbyChunks : List Column} (hc : s.connections i = some c)
    (hstage : c.stage = .sending nearbyChunks) (he : e.column ∈ nearbyChunks) :
    Reaches viewDistance s i e := by
  induction nearbyChunks generalizing s c with
  | nil => exact absurd he List.not_mem_nil
  | cons col rest ih =>
      have hnext : c.next viewDistance s.tracker s.dirtyChunksBroadcast true =
          { c with stage := .sending rest }.chunkData col := by
        unfold Connection.next
        rw [hstage]
        rfl
      have hturn := connections_turn_self viewDistance hc true
      rw [hnext] at hturn
      refine reaches_of_turn ?_
      by_cases hcol : e.column = col
      · exact reaches_of_not_owed hturn fun h => (mem_owed_chunkData.1 h).2 hcol
      · exact ih hturn rfl (List.mem_of_ne_of_mem hcol he)

/-- The rest of a pass delivers what it sends. -/
theorem reaches_of_mem_rest (hc : s.connections i = some c)
    (he : e.column ∈ c.stage.rest viewDistance s.dirtyChunksBroadcast) :
    Reaches viewDistance s i e := by
  have hcollected : ∀ {s : Broadcast ι} {c nearbyChunks}, s.connections i = some c →
      c.stage = .collected nearbyChunks → e.column ∈ nearbyChunks →
        Reaches viewDistance s i e := by
    intro s c nearbyChunks hc hstage he
    refine reaches_of_turn (reaches_of_mem_sending (connections_turn_self _ hc true) ?_ he)
    unfold Connection.next
    rw [hstage]
  cases hstage : c.stage with
  | idle =>
      rw [hstage] at he
      exact absurd he List.not_mem_nil
  | drained cx cz =>
      rw [hstage] at he
      refine reaches_of_turn (hcollected (connections_turn_self _ hc true) ?_ he)
      unfold Connection.next
      rw [hstage]
      rfl
  | collected nearbyChunks => exact hcollected hc hstage (by rwa [hstage] at he)
  | sending nearbyChunks => exact reaches_of_mem_sending hc hstage (by rwa [hstage] at he)

/-- What is still owed after a turn is on its way to be delivered if it is delivered from there. -/
theorem reaches_of_next (hc : s.connections i = some c)
    (hcoming : c.Coming viewDistance s.tracker.pending s.dirtyChunksBroadcast e)
    (h : (c.next viewDistance s.tracker s.dirtyChunksBroadcast true).Coming viewDistance
        (s.turn viewDistance i true).tracker.pending
        (s.turn viewDistance i true).dirtyChunksBroadcast e →
      Reaches viewDistance (s.turn viewDistance i true) i e) : Reaches viewDistance s i e := by
  refine reaches_of_turn ?_
  by_cases howed : e ∈ (c.next viewDistance s.tracker s.dirtyChunksBroadcast true).owed
  · refine h ?_
    rw [tracker_turn, dirty_turn hc]
    exact (coming_next_iff howed).2 hcoming
  · exact reaches_of_not_owed (connections_turn_self _ hc true) howed

theorem reaches_of_idle (hc : s.connections i = some c) (hstage : c.stage = .idle)
    (hcoming : c.Coming viewDistance s.tracker.pending s.dirtyChunksBroadcast e) :
    Reaches viewDistance s i e := by
  have hnext : c.next viewDistance s.tracker s.dirtyChunksBroadcast true =
      c.drain viewDistance s.tracker := by
    unfold Connection.next
    rw [hstage]
  have hturn := connections_turn_self viewDistance hc true
  rw [hnext] at hturn
  refine reaches_of_turn ?_
  rcases hcoming with hrest | ⟨hrange, hpending | hdirty⟩
  · rw [hstage] at hrest
    exact absurd hrest List.not_mem_nil
  · exact reaches_of_not_owed hturn fun h => (mem_owed_drain.1 h).2 ⟨hrange, hpending⟩
  · refine reaches_of_mem_rest hturn (mem_rest_drained.2 ⟨?_, hrange⟩)
    rw [dirty_turn hc, hstage]
    exact hdirty

theorem reaches_of_sending {nearbyChunks : List Column} (hc : s.connections i = some c)
    (hstage : c.stage = .sending nearbyChunks)
    (hcoming : c.Coming viewDistance s.tracker.pending s.dirtyChunksBroadcast e) :
    Reaches viewDistance s i e := by
  induction nearbyChunks generalizing s c with
  | nil =>
      refine reaches_of_next hc hcoming fun hnext => ?_
      refine reaches_of_idle (connections_turn_self _ hc true) ?_ hnext
      unfold Connection.next
      rw [hstage]
  | cons col rest ih =>
      refine reaches_of_next hc hcoming fun hnext => ?_
      refine ih (connections_turn_self _ hc true) ?_ hnext
      unfold Connection.next
      rw [hstage]
      rfl

theorem reaches_of_collected {nearbyChunks : List Column} (hc : s.connections i = some c)
    (hstage : c.stage = .collected nearbyChunks)
    (hcoming : c.Coming viewDistance s.tracker.pending s.dirtyChunksBroadcast e) :
    Reaches viewDistance s i e := by
  refine reaches_of_next hc hcoming fun hnext => ?_
  have hsending : (c.next viewDistance s.tracker s.dirtyChunksBroadcast true).stage =
      .sending nearbyChunks := by
    unfold Connection.next
    rw [hstage]
  exact reaches_of_sending (connections_turn_self _ hc true) hsending hnext

theorem reaches_of_coming (hc : s.connections i = some c)
    (hcoming : c.Coming viewDistance s.tracker.pending s.dirtyChunksBroadcast e) :
    Reaches viewDistance s i e := by
  cases hstage : c.stage with
  | idle => exact reaches_of_idle hc hstage hcoming
  | drained cx cz =>
      refine reaches_of_next hc hcoming fun hnext => ?_
      have hcollected : (c.next viewDistance s.tracker s.dirtyChunksBroadcast true).stage =
          .collected ((Stage.drained cx cz).rest viewDistance s.dirtyChunksBroadcast) := by
        unfold Connection.next
        rw [hstage]
        rfl
      exact reaches_of_collected (connections_turn_self _ hc true) hcollected hnext
  | collected nearbyChunks => exact reaches_of_collected hc hstage hcoming
  | sending nearbyChunks => exact reaches_of_sending hc hstage hcoming

/-- **The play loop delivers exactly what is on its way.** -/
theorem reaches_iff (hc : s.connections i = some c) (he : e ∈ c.owed) :
    Reaches viewDistance s i e ↔
      c.Coming viewDistance s.tracker.pending s.dirtyChunksBroadcast e := by
  constructor
  · rintro ⟨turns, hturns⟩
    by_contra hlost
    obtain ⟨d, hd, howed⟩ := lost_iterate hc he hlost turns
    exact hturns d hd howed
  · exact reaches_of_coming hc

end Alone

/-! ## One action -/

/-- Nothing was repeated to a connection, and what it is owed is on its way. -/
def Connection.Served (viewDistance : Nat) (pending : List SectionUpdate) (dirty : List Column)
    (c : Connection) : Prop :=
  c.sent.Nodup ∧ ∀ e ∈ c.owed, c.Coming viewDistance pending dirty e

section Steps

variable {s : Broadcast ι} {i : ι}

theorem delivered_iff : Delivered viewDistance s ↔ ∀ i c, s.connections i = some c →
    c.Served viewDistance s.tracker.pending s.dirtyChunksBroadcast := by
  refine forall_congr' fun i => forall_congr' fun c => forall_congr' fun hc => ?_
  exact and_congr_right fun _ => forall_congr' fun e => forall_congr' fun he => reaches_iff hc he

/-- Entries are numbered by their edits, each once. -/
def Numbered (s : Broadcast ι) : Prop :=
  (edits s.tracker.pending).Nodup ∧ ∀ e ∈ edits s.tracker.pending, e.id < s.edits

/-- What is on its way stays so when more is recorded. -/
theorem Connection.Coming.mono {pending' : List SectionUpdate} {dirty' : List Column}
    (h : c.Coming viewDistance pending dirty e) (hpending : edits pending ⊆ edits pending')
    (hdirty : dirty ⊆ dirty') : c.Coming viewDistance pending' dirty' e := by
  refine h.imp ?_ fun h => ⟨h.1, h.2.imp (@hpending e) (@hdirty e.column)⟩
  cases c.stage with
  | idle => exact id
  | drained cx cz =>
      intro hrest
      exact mem_rest_drained.2 ((mem_rest_drained.1 hrest).imp_left (@hdirty e.column))
  | collected nearbyChunks => exact id
  | sending nearbyChunks => exact id

/-- A recorded edit is delivered if its viewers have it in range. -/
theorem delivered_record (h : Delivered viewDistance s) {col : Column} {t : DirtyBlockTracker}
    {dirty : List Column} (hpending : edits s.tracker.pending ⊆ edits t.pending)
    (hdirty : s.dirtyChunksBroadcast ⊆ dirty)
    (hnew : ⟨s.edits, col⟩ ∈ edits t.pending ∨ col ∈ dirty) :
    Delivered viewDistance (s.record col t dirty) ↔ Heard viewDistance s col dirty := by
  rw [delivered_iff] at h ⊢
  have hcoming : ∀ c : Connection, c.Coming viewDistance t.pending dirty ⟨s.edits, col⟩ ↔
      col ∈ c.stage.rest viewDistance dirty ∨ c.InRange viewDistance col :=
    fun c => or_congr_right (and_iff_left hnew)
  constructor
  · intro h' i c hc hview
    have hrecorded : (s.record col t dirty).connections i = some (c.owe ⟨s.edits, col⟩) :=
      congrArg (Option.map _) hc
    have howe : c.owe ⟨s.edits, col⟩ = { c with owed := ⟨s.edits, col⟩ :: c.owed } := if_pos hview
    rw [howe] at hrecorded
    exact (hcoming c).1 ((h' i _ hrecorded).2 _ List.mem_cons_self)
  · intro hheard i d hd
    obtain ⟨c, hc, rfl⟩ := Option.map_eq_some_iff.1 hd
    have hold : ∀ e ∈ c.owed, c.Coming viewDistance t.pending dirty e :=
      fun e he => ((h i c hc).2 e he).mono hpending hdirty
    unfold Connection.owe
    split
    · rename_i hview
      refine ⟨(h i c hc).1, fun e he => ?_⟩
      rcases List.mem_cons.1 he with rfl | he
      · exact (hcoming c).2 (hheard i c hc hview)
      · exact hold e he
    · exact ⟨(h i c hc).1, hold⟩

/-- One connection changes; the others keep what the rest of the state leaves them. -/
theorem forall_update_iff {connections : ι → Option Connection} {c : Option Connection}
    {P : Connection → Prop} :
    (∀ j d, Function.update connections i c j = some d → P d) ↔
      (∀ d, c = some d → P d) ∧ ∀ j d, j ≠ i → connections j = some d → P d := by
  constructor
  · intro h
    refine ⟨fun d hd => h i d ((Function.update_self ..).trans hd), fun j d hj hd => ?_⟩
    exact h j d ((Function.update_of_ne hj ..).trans hd)
  · rintro ⟨hself, hothers⟩ j d hd
    by_cases hj : j = i
    · subst hj
      rw [Function.update_self] at hd
      exact hself d hd
    · rw [Function.update_of_ne hj] at hd
      exact hothers j d hj hd

theorem delivered_onConnection (h : Delivered viewDistance s) (f : Connection → Connection) :
    Delivered viewDistance (s.onConnection i f) ↔ ∀ c, s.connections i = some c →
      (f c).Served viewDistance s.tracker.pending s.dirtyChunksBroadcast := by
  rw [delivered_iff] at h ⊢
  refine forall_update_iff.trans ((and_iff_left fun j d _ hd => h j d hd).trans ?_)
  constructor
  · exact fun h' c hc => h' (f c) (congrArg (Option.map f) hc)
  · intro h' d hd
    obtain ⟨c, hc, rfl⟩ := Option.map_eq_some_iff.1 hd
    exact h' c hc

theorem delivered_chunkData (h : Delivered viewDistance s) (col : Column) :
    Delivered viewDistance (s.onConnection i fun c => c.chunkData col) := by
  refine (delivered_onConnection h _).2 fun c hc => ?_
  have hserved := delivered_iff.1 h i c hc
  exact ⟨hserved.1, fun e he => hserved.2 e (mem_owed_chunkData.1 he).1⟩

theorem delivered_move (h : Delivered viewDistance s) (x z : Rat) :
    Delivered viewDistance (s.onConnection i fun c => c.move x z) ↔
      Harmless viewDistance s (.move i x z) := by
  refine (delivered_onConnection h _).trans (forall_congr' fun c => forall_congr' fun hc => ?_)
  have hsent : (c.move x z).sent.Nodup := (delivered_iff.1 h i c hc).1
  have howed : ∀ e, e ∈ (c.move x z).owed ↔ e ∈ c.owed ∧ (c.move x z).InView e.column := by
    intro e
    refine List.mem_filter.trans (and_congr_right fun _ => ?_)
    exact decide_eq_true_iff
  refine (and_iff_right hsent).trans (forall_congr' fun e => ?_)
  rw [howed e, and_imp]

theorem delivered_cleanupStale (h : Delivered viewDistance s) :
    Delivered viewDistance { s with tracker := s.tracker.cleanupStale } ↔
      Harmless viewDistance s .cleanupStale := by
  unfold DirtyBlockTracker.cleanupStale
  split
  · rename_i hlen
    refine delivered_iff.trans (Iff.trans ?_ (forall_prop_of_true hlen).symm)
    refine forall_congr' fun i => forall_congr' fun c => forall_congr' fun hc => ?_
    exact and_iff_right (delivered_iff.1 h i c hc).1
  · rename_i hlen
    exact iff_of_true h fun hlen' => absurd hlen' hlen

/-- A turn is judged by its own connection, and by what it leaves the others. -/
theorem delivered_turn_iff (hc : s.connections i = some c) :
    Delivered viewDistance (s.turn viewDistance i loaded) ↔
      (c.next viewDistance s.tracker s.dirtyChunksBroadcast loaded).Served viewDistance
          s.tracker.pending (c.stage.dirtyAfter s.dirtyChunksBroadcast) ∧
        ∀ j d, j ≠ i → s.connections j = some d →
          d.Served viewDistance s.tracker.pending (c.stage.dirtyAfter s.dirtyChunksBroadcast) := by
  rw [delivered_iff, connections_turn hc, tracker_turn, dirty_turn hc]
  refine forall_update_iff.trans (and_congr_left fun _ => ?_)
  exact ⟨fun h => h _ rfl, fun h d hd => Option.some.inj hd ▸ h⟩

theorem nodup_sent_drain (hsent : c.sent.Nodup) (hpending : (edits t.pending).Nodup) :
    (c.drain viewDistance t).sent.Nodup ↔
      ∀ e ∈ edits t.pending, c.InRange viewDistance e.column → e ∉ c.sent := by
  have hnew := nodup_edits_drainNearby hpending (truncI32 c.x / 16) (truncI32 c.z / 16)
    (viewDistance + 2)
  refine List.nodup_append'.trans ((and_iff_right hsent).trans ((and_iff_right hnew).trans ?_))
  constructor
  · intro h e he hrange hsent
    exact h hsent (mem_edits_drainNearby.2 ⟨hrange, he⟩)
  · intro h e hsent he
    obtain ⟨hrange, he⟩ := mem_edits_drainNearby.1 he
    exact h e he hrange hsent

/-- The connections whose chunks are taken keep what they are owed in another place. -/
theorem served_dirtyAfter_iff {nearbyChunks : List Column}
    (h : c.Served viewDistance pending dirty) :
    c.Served viewDistance pending ((Stage.collected nearbyChunks).dirtyAfter dirty) ↔
      ∀ e ∈ c.owed, e.column ∈ nearbyChunks → e.column ∈ c.stage.rest viewDistance [] ∨
        c.InRange viewDistance e.column ∧ e ∈ edits pending := by
  refine (and_iff_right h.1).trans (forall_congr' fun e => forall_congr' fun he => ?_)
  by_cases hcol : e.column ∈ nearbyChunks
  · have hnot : e.column ∉ (Stage.collected nearbyChunks).dirtyAfter dirty :=
      fun h => (mem_dirtyAfter_collected.1 h).2 hcol
    have hrest := mem_rest_congr viewDistance (iff_of_false hnot List.not_mem_nil)
      c.stage
    rw [Connection.Coming, hrest, or_iff_left hnot, forall_prop_of_true hcol]
  · have hstays : e.column ∈ (Stage.collected nearbyChunks).dirtyAfter dirty ↔ e.column ∈ dirty :=
      mem_dirtyAfter_collected.trans (and_iff_left hcol)
    refine iff_of_true ?_ fun h => absurd h hcol
    rw [Connection.Coming, mem_rest_congr viewDistance hstays c.stage, hstays]
    exact h.2 e he

theorem delivered_turn (h : Delivered viewDistance s) (hnumbered : Numbered s)
    (hc : s.connections i = some c) : Delivered viewDistance (s.turn viewDistance i loaded) ↔
      HarmlessTurn viewDistance s i c loaded := by
  rw [delivered_turn_iff hc]
  have hserved := delivered_iff.1 h i c hc
  have hothers : ∀ j d, j ≠ i → s.connections j = some d →
      d.Served viewDistance s.tracker.pending s.dirtyChunksBroadcast :=
    fun j d _ hd => delivered_iff.1 h j d hd
  have howed : ∀ e ∈ (c.next viewDistance s.tracker s.dirtyChunksBroadcast true).owed,
      (c.next viewDistance s.tracker s.dirtyChunksBroadcast true).Coming viewDistance
        s.tracker.pending (c.stage.dirtyAfter s.dirtyChunksBroadcast) e :=
    fun e he => (coming_next_iff he).2 (hserved.2 e (owed_of_mem_next he))
  unfold HarmlessTurn
  obtain ⟨x, z, viewRadius, stage, sent, owed⟩ := c
  cases stage with
  | idle =>
      refine (and_iff_left hothers).trans ((and_iff_left howed).trans ?_)
      exact nodup_sent_drain hserved.1 hnumbered.1
  | drained cx cz => exact iff_of_true ⟨⟨hserved.1, howed⟩, hothers⟩ trivial
  | collected nearbyChunks =>
      refine (and_iff_right ⟨hserved.1, howed⟩).trans ?_
      refine forall_congr' fun j => forall_congr' fun d => forall_congr' fun hj =>
        forall_congr' fun hd => ?_
      exact served_dirtyAfter_iff (hothers j d hj hd)
  | sending nearbyChunks =>
      cases nearbyChunks with
      | nil => exact iff_of_true ⟨⟨hserved.1, howed⟩, hothers⟩ trivial
      | cons col rest =>
          refine (and_iff_left hothers).trans ?_
          cases loaded with
          | true => exact iff_of_true ⟨hserved.1, howed⟩ fun h => nomatch h
          | false =>
              refine (and_iff_right hserved.1).trans (Iff.trans ?_ (forall_prop_of_true rfl).symm)
              refine forall_congr' fun e => forall_congr' fun he => ?_
              by_cases hcol : e.column = col
              · rw [forall_prop_of_true hcol, ← hcol]
                exact Iff.rfl
              · refine iff_of_true ?_ fun h => absurd h hcol
                exact (hserved.2 e he).imp_left fun h => List.mem_of_ne_of_mem hcol h

/-- **An action keeps every edit on its way, and repeats none, exactly if it is harmless.** -/
theorem delivered_step_iff (h : Delivered viewDistance s) (hnumbered : Numbered s) (a : Action ι) :
    Delivered viewDistance (step viewDistance s a) ↔ Harmless viewDistance s a := by
  cases a with
  | markBlock x y z block =>
      have hperm := edits_push ⟨x / 16, y / 16, z / 16⟩
        ⟨y % 16 * 256 + z % 16 * 16 + x % 16, block, s.edits⟩ s.tracker.pending
      refine delivered_record h ?_ (List.Subset.refl _) (.inl (hperm.mem_iff.2 List.mem_cons_self))
      exact fun e he => hperm.mem_iff.2 (List.mem_cons_of_mem _ he)
  | markChunk col =>
      refine delivered_record h (List.Subset.refl _) ?_ (.inr (List.mem_insert_iff.2 (.inl rfl)))
      exact fun other hother => List.mem_insert_iff.2 (.inr hother)
  | turn i loaded =>
      change Delivered viewDistance (s.turn viewDistance i loaded) ↔
        ∀ c, s.connections i = some c → HarmlessTurn viewDistance s i c loaded
      cases hc : s.connections i with
      | none =>
          have hsame : s.turn viewDistance i loaded = s := by
            unfold Broadcast.turn
            rw [hc]
          rw [hsame]
          exact iff_of_true h fun c hnone => nomatch hnone
      | some c =>
          refine (delivered_turn h hnumbered hc).trans ?_
          exact ⟨fun h d hd => Option.some.inj hd ▸ h, fun h => h c rfl⟩
  | chunkData i col => exact iff_of_true (delivered_chunkData h col) trivial
  | move i x z => exact delivered_move h x z
  | join i x z online =>
      refine iff_of_true (delivered_iff.2 ?_) trivial
      refine forall_update_iff.2 ⟨fun d hd => ?_, fun j d _ hd => delivered_iff.1 h j d hd⟩
      obtain rfl := Option.some.inj hd
      exact ⟨List.nodup_nil, fun e he => absurd he List.not_mem_nil⟩
  | leave i =>
      refine iff_of_true (delivered_iff.2 ?_) trivial
      refine forall_update_iff.2 ⟨fun d hd => ?_, fun j d _ hd => delivered_iff.1 h j d hd⟩
      cases hd
  | cleanupStale => exact delivered_cleanupStale h

theorem numbered_step (h : Numbered s) (a : Action ι) : Numbered (step viewDistance s a) := by
  cases a with
  | markBlock x y z block =>
      have hperm := edits_push ⟨x / 16, y / 16, z / 16⟩
        ⟨y % 16 * 256 + z % 16 * 16 + x % 16, block, s.edits⟩ s.tracker.pending
      refine ⟨hperm.nodup_iff.2 (List.nodup_cons.2 ⟨fun he => ?_, h.1⟩), fun e he => ?_⟩
      · exact absurd (h.2 _ he) (Nat.lt_irrefl _)
      · rcases List.mem_cons.1 (hperm.mem_iff.1 he) with rfl | he
        · exact Nat.lt_succ_self _
        · exact (h.2 e he).trans (Nat.lt_succ_self _)
  | markChunk col => exact ⟨h.1, fun e he => (h.2 e he).trans (Nat.lt_succ_self _)⟩
  | turn i loaded =>
      change Numbered (s.turn viewDistance i loaded)
      unfold Broadcast.turn
      split
      · exact h
      · exact h
  | chunkData i col => exact h
  | move i x z => exact h
  | join i x z online => exact h
  | leave i => exact h
  | cleanupStale =>
      change Numbered { s with tracker := s.tracker.cleanupStale }
      unfold DirtyBlockTracker.cleanupStale
      split
      · exact ⟨List.nodup_nil, fun e he => absurd he List.not_mem_nil⟩
      · exact h

theorem delivered_init : Delivered viewDistance (init : Broadcast ι) := fun _ _ hc => nomatch hc

omit [DecidableEq ι] in
theorem numbered_init : Numbered (init : Broadcast ι) :=
  ⟨List.nodup_nil, fun _ he => absurd he List.not_mem_nil⟩

end Steps

/-! ## The range and the view -/

theorem saturate_mono {m n : Int} (h : m ≤ n) : saturate m ≤ saturate n :=
  max_le_max_left _ (min_le_min_right _ h)

theorem saturate_succ_le (n : Int) : saturate (n + 1) ≤ saturate n + 1 := by
  unfold saturate
  omega

/-- The two ways to find the player's chunk differ by one at most, west and north of the origin. -/
theorem abs_trunc_sub_floor_le (q : Rat) : |truncI32 q / 16 - saturate ⌊q⌋ / 16| ≤ 1 := by
  have hlow : saturate ⌊q⌋ ≤ truncI32 q := by
    unfold truncI32
    refine saturate_mono ?_
    split
    · exact le_rfl
    · exact Int.floor_le_ceil q
  have hhigh : truncI32 q ≤ saturate ⌊q⌋ + 1 := by
    unfold truncI32
    refine (saturate_mono ?_).trans (saturate_succ_le _)
    split
    · exact Int.le_add_one le_rfl
    · exact Int.ceil_le_floor_add_one q
  rw [abs_le]
  omega

theorem effectiveViewDistance_le (max online : Nat) :
    effectiveViewDistance max online ≤ Nat.max max 4 := by
  unfold effectiveViewDistance
  simp only [Nat.max_def]
  split_ifs <;> omega

/-- From a view distance of 3 on, a viewer has the chunks of its view in range. -/
theorem inRange_of_inView {c : Connection} {col : Column} (hvd : 3 ≤ viewDistance)
    (hradius : c.viewRadius ≤ Nat.max viewDistance 4) (h : c.InView col) :
    c.InRange viewDistance col := by
  have hmax : Nat.max viewDistance 4 ≤ viewDistance + 1 := Nat.max_le.2 ⟨by omega, by omega⟩
  have hclose : ∀ {a q}, |a - saturate ⌊q⌋ / 16| ≤ (c.viewRadius : Int) →
      |a - truncI32 q / 16| ≤ (viewDistance : Int) + 2 := by
    intro a q ha
    have hcenter := abs_trunc_sub_floor_le q
    rw [abs_le] at ha hcenter ⊢
    omega
  exact ⟨hclose h.1, hclose h.2⟩

theorem viewRadius_next (t : DirtyBlockTracker) (dirty : List Column) (loaded : Bool)
    (c : Connection) : (c.next viewDistance t dirty loaded).viewRadius = c.viewRadius := by
  obtain ⟨x, z, viewRadius, stage, sent, owed⟩ := c
  cases stage with
  | idle => rfl
  | drained cx cz => rfl
  | collected nearbyChunks => rfl
  | sending nearbyChunks =>
      cases nearbyChunks with
      | nil => rfl
      | cons col rest =>
          cases loaded with
          | true => rfl
          | false => rfl

theorem viewRadius_owe (c : Connection) (e : Edit) : (c.owe e).viewRadius = c.viewRadius := by
  unfold Connection.owe
  split
  · rfl
  · rfl

/-- No connection looks further than the view distance, or 4 chunks. -/
def Sighted (viewDistance : Nat) (s : Broadcast ι) : Prop :=
  ∀ i c, s.connections i = some c → c.viewRadius ≤ Nat.max viewDistance 4

section Sight

variable {s : Broadcast ι}

omit [DecidableEq ι] in
theorem sighted_record (h : Sighted viewDistance s) (col : Column) (t : DirtyBlockTracker)
    (dirty : List Column) : Sighted viewDistance (s.record col t dirty) := by
  intro i d hd
  obtain ⟨c, hc, rfl⟩ := Option.map_eq_some_iff.1 hd
  rw [viewRadius_owe]
  exact h i c hc

theorem sighted_onConnection (h : Sighted viewDistance s) (i : ι) {f : Connection → Connection}
    (hf : ∀ c, (f c).viewRadius = c.viewRadius) : Sighted viewDistance (s.onConnection i f) := by
  refine forall_update_iff.2 ⟨fun d hd => ?_, fun j d _ hd => h j d hd⟩
  obtain ⟨c, hc, rfl⟩ := Option.map_eq_some_iff.1 hd
  rw [hf]
  exact h i c hc

theorem sighted_step (h : Sighted viewDistance s) (a : Action ι) :
    Sighted viewDistance (step viewDistance s a) := by
  cases a with
  | markBlock x y z block => exact sighted_record h _ _ _
  | markChunk col => exact sighted_record h _ _ _
  | turn i loaded =>
      change Sighted viewDistance (s.turn viewDistance i loaded)
      unfold Broadcast.turn
      split
      · exact h
      · rename_i c hc
        refine forall_update_iff.2 ⟨fun d hd => ?_, fun j d _ hd => h j d hd⟩
        obtain rfl := Option.some.inj hd
        rw [viewRadius_next]
        exact h i c hc
  | chunkData i col => exact sighted_onConnection h i fun _ => rfl
  | move i x z => exact sighted_onConnection h i fun _ => rfl
  | join i x z online =>
      refine forall_update_iff.2 ⟨fun d hd => ?_, fun j d _ hd => h j d hd⟩
      obtain rfl := Option.some.inj hd
      exact effectiveViewDistance_le viewDistance online
  | leave i =>
      refine forall_update_iff.2 ⟨fun d hd => ?_, fun j d _ hd => h j d hd⟩
      cases hd
  | cleanupStale => exact h

theorem sighted_foldl (h : Sighted viewDistance s) (as : List (Action ι)) :
    Sighted viewDistance (as.foldl (step viewDistance) s) := by
  induction as generalizing s with
  | nil => exact h
  | cons a as ih => exact ih (sighted_step h a)

/-- **From a view distance of 3 on, recording an edit is harmless in every state of every run.** -/
theorem heard_of_run (hvd : 3 ≤ viewDistance) (as : List (Action ι)) (col : Column)
    (dirty : List Column) : Heard viewDistance (as.foldl (step viewDistance) init) col dirty := by
  intro i c hc hview
  have hinit : Sighted viewDistance (init : Broadcast ι) := fun _ _ hc => nomatch hc
  exact .inr (inRange_of_inView hvd (sighted_foldl hinit as i c hc) hview)

end Sight

/-! ## Whole runs -/

/-- The pass after the one that sent an entry sends it again. -/
example : ((([.join () 0 0 1, .markBlock 3 64 5 0#32, .turn () true, .turn () true, .turn () true,
    .turn () true, .turn () true] : List (Action Unit)).foldl (step 8) init).connections ()).map
      Connection.sent = some [⟨0, ⟨0, 0⟩⟩, ⟨0, ⟨0, 0⟩⟩] := by decide

end BlockBroadcast

end Apoptotic
