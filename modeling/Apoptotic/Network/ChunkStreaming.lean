import Apoptotic.Lib.GridIndex
import Apoptotic.Lib.Reached
import Apoptotic.World.Chunk
import Mathlib.Data.List.Dedup

/-!
# Streaming chunks to a client

`stream_new_chunks` of `mc-network/src/connection.rs` and the movement handlers of
`mc-network/src/play_loop.rs` that call it.  A `HashSet` is a list without repetitions, its
iteration order an arbitrary permutation.  A packet may fail to go out; the code only logs that.
What the call does to the chunk store, and the mobs it spawns, are left out.

Principal result: `along_trackedAfter_iff` — the tracking set follows what the client holds, and every
chunk in view reaches it, exactly along the movements that bring at most `MAX_CHUNKS_PER_SEND`
unloaded chunks into view at a time.
-/

namespace Apoptotic

namespace ChunkStreaming

/-! ## The packets and what the client holds -/

inductive Packet where
  | chunkBatchStart
  | chunkData (cp : ChunkPos)
  | chunkBatchFinished (batchSize : Nat)
  | forgetLevelChunk (cp : ChunkPos)
  deriving DecidableEq, Repr

/-- Whether the client holds `cp` after a packet. -/
def Packet.holds (cp : ChunkPos) (held : Bool) : Packet → Bool
  | .chunkData c => held || c == cp
  | .forgetLevelChunk c => held && c != cp
  | _ => held

/-- The chunk's data has been sent, and it has not been forgotten since. -/
def Holds (sent : List Packet) (cp : ChunkPos) : Prop :=
  sent.foldl (Packet.holds cp) false = true

/-! ## `stream_new_chunks` -/

/-- What a connection keeps of its client. -/
structure Tracker where
  playerChunk : ChunkPos
  loadedChunks : List ChunkPos
  /-- The packets that reached the client, oldest first. -/
  sent : List Packet

def MAX_CHUNKS_PER_SEND : Nat := 6

/-- The chunks within the view radius. -/
def square (center : ChunkPos) (radius : Int) : List ChunkPos :=
  ((GridIndex.offsets radius).flatMap fun dx => (GridIndex.offsets radius).map fun dz =>
    ⟨center.x + BitVec.ofInt 32 dx, center.z + BitVec.ofInt 32 dz⟩).dedup

/-- A movement: where it leads, the order in which the sets are iterated and which packets of the
    call go out. -/
structure Move where
  newChunk : ChunkPos
  viewRadius : Int
  iter : List ChunkPos → List ChunkPos
  iter_perm : ∀ s, (iter s).Perm s
  delivered : Packet → Bool

def Move.visible (m : Move) : List ChunkPos := square m.newChunk m.viewRadius

/-- Chebyshev distance to the player's chunk. -/
def Move.dist (m : Move) (cp : ChunkPos) : Nat :=
  max (cp.x - m.newChunk.x).toInt.natAbs (cp.z - m.newChunk.z).toInt.natAbs

section

variable (s : Tracker) (m : Move)

def newChunks : List ChunkPos :=
  (m.iter m.visible).filter fun cp => !s.loadedChunks.contains cp

/-- Closest first. -/
def toSend : List ChunkPos :=
  ((newChunks s m).mergeSort fun a b => decide (m.dist a ≤ m.dist b)).take MAX_CHUNKS_PER_SEND

def evicted : List ChunkPos :=
  (m.iter s.loadedChunks).filter fun cp => !m.visible.contains cp

/-- The chunk batch, when there is something new, and the forget packets. -/
def packets : List Packet :=
  (if (newChunks s m).isEmpty then [] else
    .chunkBatchStart :: (toSend s m).map .chunkData
      ++ [.chunkBatchFinished (toSend s m).length])
  ++ (evicted s m).map .forgetLevelChunk

def streamNewChunks : Tracker :=
  if m.viewRadius ≤ 0 then { s with playerChunk := m.newChunk }
  else
    { playerChunk := m.newChunk
      loadedChunks := (newChunks s m).foldl (fun l cp => l.insert cp)
        (s.loadedChunks.filter fun cp => m.visible.contains cp)
      sent := s.sent ++ (packets s m).filter m.delivered }

/-- The end of a movement handler. -/
def moved : Tracker :=
  if m.newChunk ≠ s.playerChunk then streamNewChunks s m else s

end

/-- After the join: the spawn area has been sent, whatever the radius was then. -/
def joined (radius : Int) : Tracker :=
  { playerChunk := ⟨0, 0⟩
    loadedChunks := square ⟨0, 0⟩ radius
    sent := (square ⟨0, 0⟩ radius).map .chunkData }

/-! ## What is asked of a run -/

/-- `loaded_chunks` is what the client holds. -/
def Tracked (s : Tracker) : Prop := ∀ cp, cp ∈ s.loadedChunks ↔ Holds s.sent cp

/-- The player stays in its chunk, for any number of movement packets, and then holds `cp`. -/
def EventuallySent (s : Tracker) (cp : ChunkPos) : Prop :=
  ∃ stays : List Move, (∀ m ∈ stays, m.newChunk = s.playerChunk) ∧
    Holds (stays.foldl moved s).sent cp

/-- When the movement calls `stream_new_chunks`, the client's chunks are tracked afterwards, and
    every chunk in view is sent if the player stays. -/
def TrackedAfter (s : Tracker) (m : Move) : Prop :=
  m.newChunk ≠ s.playerChunk →
    Tracked (moved s m) ∧ ∀ cp ∈ m.visible, EventuallySent (moved s m) cp

/-- How many chunks a call can send. -/
def Move.cap (m : Move) : Nat := if m.viewRadius ≤ 0 then 0 else MAX_CHUNKS_PER_SEND

/-- The chunks that come into view fit into one call, and its packets go out. -/
def Fits (s : Tracker) (m : Move) : Prop :=
  (m.visible.filter fun cp => !s.loadedChunks.contains cp).length ≤ m.cap ∧
  (0 < m.viewRadius →
    (∀ cp ∈ m.visible, cp ∉ s.loadedChunks → m.delivered (.chunkData cp) = true) ∧
    ∀ cp ∈ s.loadedChunks, cp ∉ m.visible → m.delivered (.forgetLevelChunk cp) = true)

/-- A movement into another chunk fits. -/
def MoveFits (s : Tracker) (m : Move) : Prop := m.newChunk ≠ s.playerChunk → Fits s m

/-! ## What a call sends -/

theorem holds_append {sent ps : List Packet} {cp : ChunkPos} :
    Holds (sent ++ ps) cp ↔
      ps.foldl (Packet.holds cp) (sent.foldl (Packet.holds cp) false) = true := by
  unfold Holds
  rw [List.foldl_append]

theorem foldl_holds_chunkData {cps : List ChunkPos} {cp : ChunkPos} {held : Bool} :
    (cps.map Packet.chunkData).foldl (Packet.holds cp) held = true ↔ held = true ∨ cp ∈ cps := by
  induction cps generalizing held with
  | nil => simp
  | cons c cs ih =>
      rw [List.map_cons, List.foldl_cons, ih]
      simp only [Packet.holds, Bool.or_eq_true, beq_iff_eq, List.mem_cons]
      rw [eq_comm (a := c), or_assoc]

theorem foldl_holds_forget {cps : List ChunkPos} {cp : ChunkPos} {held : Bool} :
    (cps.map Packet.forgetLevelChunk).foldl (Packet.holds cp) held = true ↔
      held = true ∧ cp ∉ cps := by
  induction cps generalizing held with
  | nil => simp
  | cons c cs ih =>
      rw [List.map_cons, List.foldl_cons, ih]
      simp only [Packet.holds, Bool.and_eq_true, bne_iff_ne, ne_eq, List.mem_cons, not_or]
      rw [eq_comm (a := c), and_assoc]

section

variable {s : Tracker} {m : Move}

theorem mem_newChunks {cp : ChunkPos} :
    cp ∈ newChunks s m ↔ cp ∈ m.visible ∧ cp ∉ s.loadedChunks := by
  unfold newChunks
  rw [List.mem_filter, (m.iter_perm _).mem_iff]
  simp

theorem mem_evicted {cp : ChunkPos} :
    cp ∈ evicted s m ↔ cp ∈ s.loadedChunks ∧ cp ∉ m.visible := by
  unfold evicted
  rw [List.mem_filter, (m.iter_perm _).mem_iff]
  simp

theorem newChunks_nodup : (newChunks s m).Nodup :=
  ((m.iter_perm _).nodup_iff.2 (List.nodup_dedup _)).filter _

theorem length_newChunks :
    (newChunks s m).length = (m.visible.filter fun cp => !s.loadedChunks.contains cp).length :=
  ((m.iter_perm _).filter _).length_eq

theorem toSend_subset : toSend s m ⊆ newChunks s m := fun _ h =>
  (List.mergeSort_perm _ _).mem_iff.1 (List.mem_of_mem_take h)

theorem length_toSend : (toSend s m).length = min MAX_CHUNKS_PER_SEND (newChunks s m).length := by
  unfold toSend
  rw [List.length_take, List.length_mergeSort]

/-- Everything new is sent exactly when it is not more than the cap. -/
theorem newChunks_subset_toSend :
    newChunks s m ⊆ toSend s m ↔ (newChunks s m).length ≤ MAX_CHUNKS_PER_SEND := by
  constructor
  · intro h
    have hle := (newChunks_nodup.subperm h).length_le
    rw [length_toSend] at hle
    omega
  · intro h cp hcp
    unfold toSend
    rw [List.take_of_length_le (by rwa [List.length_mergeSort])]
    exact (List.mergeSort_perm _ _).mem_iff.2 hcp

theorem filter_map_delivered (f : ChunkPos → Packet) (cps : List ChunkPos) :
    (cps.map f).filter m.delivered = (cps.filter fun cp => m.delivered (f cp)).map f := by
  rw [List.filter_map]
  rfl

/-- **What the client holds after a call**: what it held or was sent, less what it was told to
    forget. -/
theorem holds_streamNewChunks (hr : 0 < m.viewRadius) {cp : ChunkPos} :
    Holds (streamNewChunks s m).sent cp ↔
      (Holds s.sent cp ∨ cp ∈ toSend s m ∧ m.delivered (.chunkData cp) = true) ∧
        ¬ (cp ∈ evicted s m ∧ m.delivered (.forgetLevelChunk cp) = true) := by
  have hsent : (streamNewChunks s m).sent = s.sent ++ (packets s m).filter m.delivered := by
    unfold streamNewChunks
    rw [if_neg (by omega)]
  have hbatch : ∀ held, ((if (newChunks s m).isEmpty then [] else
        Packet.chunkBatchStart :: (toSend s m).map .chunkData
          ++ [.chunkBatchFinished (toSend s m).length]).filter m.delivered).foldl
        (Packet.holds cp) held = true ↔
      held = true ∨ cp ∈ toSend s m ∧ m.delivered (.chunkData cp) = true := by
    intro held
    by_cases hnew : (newChunks s m).isEmpty
    · have hnil : toSend s m = [] :=
        List.subset_nil.1 (List.isEmpty_iff.1 hnew ▸ toSend_subset)
      simp [hnew, hnil]
    · rw [if_neg hnew, List.filter_append, List.foldl_append, List.filter_cons, List.filter_cons]
      have hdata : (((toSend s m).map Packet.chunkData).filter m.delivered).foldl
          (Packet.holds cp) held = true ↔
          held = true ∨ cp ∈ toSend s m ∧ m.delivered (.chunkData cp) = true := by
        rw [filter_map_delivered, foldl_holds_chunkData, List.mem_filter]
      split <;> split <;> simpa [Packet.holds] using hdata
  rw [hsent, holds_append, packets, List.filter_append, List.foldl_append, filter_map_delivered,
    foldl_holds_forget, hbatch, List.mem_filter]
  rfl

theorem mem_foldl_insert {new l : List ChunkPos} {cp : ChunkPos} :
    cp ∈ new.foldl (fun l cp => l.insert cp) l ↔ cp ∈ l ∨ cp ∈ new := by
  induction new generalizing l with
  | nil => simp
  | cons c cs ih =>
      rw [List.foldl_cons, ih, List.mem_insert_iff, List.mem_cons]
      tauto

theorem mem_loadedChunks_stream (hr : 0 < m.viewRadius) {cp : ChunkPos} :
    cp ∈ (streamNewChunks s m).loadedChunks ↔
      cp ∈ s.loadedChunks ∧ cp ∈ m.visible ∨ cp ∈ newChunks s m := by
  unfold streamNewChunks
  rw [if_neg (by omega)]
  simp [mem_foldl_insert]

end

/-! ## One call -/

section

variable {s : Tracker} {m : Move}

/-- Nothing is sent while the player stays in its chunk. -/
theorem eventuallySent_iff {cp : ChunkPos} : EventuallySent s cp ↔ Holds s.sent cp := by
  have hstay : ∀ stays : List Move, (∀ m ∈ stays, m.newChunk = s.playerChunk) →
      stays.foldl moved s = s := by
    intro stays
    induction stays with
    | nil => exact fun _ => rfl
    | cons m ms ih =>
        intro h
        have hm : moved s m = s := by
          unfold moved
          rw [if_neg (by simpa using h m List.mem_cons_self)]
        rw [List.foldl_cons, hm, ih fun m' hm' => h m' (List.mem_cons_of_mem _ hm')]
  constructor
  · rintro ⟨stays, hstays, h⟩
    rwa [hstay stays hstays] at h
  · exact fun h => ⟨[], by simp, h⟩

/-- With a positive radius, the tracking survives a call exactly when the call fits. -/
theorem tracked_streamNewChunks_iff (hs : Tracked s) (hr : 0 < m.viewRadius) :
    Tracked (streamNewChunks s m) ↔ Fits s m := by
  have hcap : m.cap = MAX_CHUNKS_PER_SEND := if_neg (by omega)
  have hafter : Tracked (streamNewChunks s m) ↔ ∀ cp,
      (cp ∈ s.loadedChunks ∧ cp ∈ m.visible ∨ cp ∈ newChunks s m) ↔
        (cp ∈ s.loadedChunks ∨ cp ∈ toSend s m ∧ m.delivered (.chunkData cp) = true) ∧
          ¬ (cp ∈ evicted s m ∧ m.delivered (.forgetLevelChunk cp) = true) :=
    forall_congr' fun cp => by
      rw [mem_loadedChunks_stream hr, holds_streamNewChunks hr, hs cp]
  rw [hafter, Fits, hcap, ← length_newChunks, ← newChunks_subset_toSend]
  constructor
  · intro h
    have hnew : ∀ cp ∈ newChunks s m,
        cp ∈ toSend s m ∧ m.delivered (.chunkData cp) = true := fun cp hcp =>
      (((h cp).1 (.inr hcp)).1).resolve_left (mem_newChunks.1 hcp).2
    refine ⟨fun cp hcp => (hnew cp hcp).1, fun _ => ⟨fun cp hv hl => ?_, fun cp hl hv => ?_⟩⟩
    · exact (hnew cp (mem_newChunks.2 ⟨hv, hl⟩)).2
    · by_contra hd
      rcases (h cp).2 ⟨.inl hl, fun he => hd he.2⟩ with hvis | hnew'
      · exact hv hvis.2
      · exact (mem_newChunks.1 hnew').2 hl
  · rintro ⟨hall, hdel⟩ cp
    obtain ⟨hdata, hforget⟩ := hdel hr
    constructor
    · rintro (⟨hl, hv⟩ | hnew)
      · exact ⟨.inl hl, fun he => (mem_evicted.1 he.1).2 hv⟩
      · obtain ⟨hv, hl⟩ := mem_newChunks.1 hnew
        exact ⟨.inr ⟨hall hnew, hdata cp hv hl⟩, fun he => hl (mem_evicted.1 he.1).1⟩
    · rintro ⟨hl | ⟨hsend, -⟩, hnot⟩
      · refine .inl ⟨hl, ?_⟩
        by_contra hv
        exact hnot ⟨mem_evicted.2 ⟨hl, hv⟩, hforget cp hl hv⟩
      · exact .inr (toSend_subset hsend)

/-- **A call**: it leaves the client tracked, with everything in view sent, exactly when what comes
    into view fits. -/
theorem streamNewChunks_iff (hs : Tracked s) :
    (Tracked (streamNewChunks s m) ∧
        ∀ cp ∈ m.visible, EventuallySent (streamNewChunks s m) cp) ↔ Fits s m := by
  by_cases hr : m.viewRadius ≤ 0
  · -- nothing is streamed, so only what was loaded before can be in view
    have hstream : streamNewChunks s m = { s with playerChunk := m.newChunk } := if_pos hr
    have hcap : m.cap = 0 := if_pos hr
    have hfits : Fits s m ↔ ∀ cp ∈ m.visible, cp ∈ s.loadedChunks := by
      unfold Fits
      rw [hcap, Nat.le_zero, List.length_eq_zero_iff, List.filter_eq_nil_iff,
        and_iff_left fun h => absurd h (by omega)]
      simp
    rw [hfits, hstream]
    simp only [eventuallySent_iff]
    exact ⟨fun h cp hcp => (hs cp).2 (h.2 cp hcp), fun h => ⟨hs, fun cp hcp => (hs cp).1 (h cp hcp)⟩⟩
  · have hpos : 0 < m.viewRadius := by omega
    rw [tracked_streamNewChunks_iff hs hpos |>.symm]
    refine and_iff_left_of_imp fun htracked cp hcp => eventuallySent_iff.2 ((htracked cp).1 ?_)
    rw [mem_loadedChunks_stream hpos, mem_newChunks]
    tauto

end

/-! ## Runs of movements -/

theorem tracked_joined (radius : Int) : Tracked (joined radius) := by
  intro cp
  unfold Holds joined
  rw [foldl_holds_chunkData]
  simp

theorem trackedAfter_iff {s : Tracker} (hs : Tracked s) (m : Move) :
    TrackedAfter s m ↔ MoveFits s m := by
  unfold TrackedAfter MoveFits
  refine forall_congr' fun hm => ?_
  rw [moved, if_pos hm, streamNewChunks_iff hs]

theorem tracked_moved {s : Tracker} (hs : Tracked s) {m : Move} (h : MoveFits s m) :
    Tracked (moved s m) := by
  by_cases hm : m.newChunk = s.playerChunk
  · rw [moved, if_neg (by simpa using hm)]
    exact hs
  · exact ((trackedAfter_iff hs m).2 h hm).1

/-- **The client's chunks are tracked along a run of movements exactly when each movement brings
    few enough unloaded chunks into view.** -/
theorem along_trackedAfter_iff (radius : Int) (ms : List Move) :
    Along moved TrackedAfter (joined radius) ms ↔ Along moved MoveFits (joined radius) ms :=
  along_iff Tracked (fun _ m hs => trackedAfter_iff hs m) (fun _ _ hs h => tracked_moved hs h)
    (tracked_joined radius) ms

/-- The order of a list itself. -/
theorem perm_id (s : List ChunkPos) : (id s).Perm s := List.Perm.refl s

/-- One step east with view radius 3: seven chunks come into view, six are sent. -/
def stepEast : Move :=
  { newChunk := ⟨1, 0⟩, viewRadius := 3, iter := id, iter_perm := fun _ => List.Perm.refl _
    delivered := fun _ => true }

theorem not_trackedAfter_stepEast : ¬ Along moved TrackedAfter (joined 3) [stepEast] := by
  have hfits : ¬ Fits (joined 3) stepEast := fun h => absurd h.1 (by decide +kernel)
  intro h
  exact hfits ((trackedAfter_iff (tracked_joined 3) stepEast).1 h.1 (by decide))

end ChunkStreaming

end Apoptotic
