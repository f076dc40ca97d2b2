import Apoptotic.Command.Server
import Apoptotic.Lib.Reached
import Mathlib.Data.List.AList

/-!
# Who is online

The capacity check and the registration of `handle_play` of `mc-network/src/connection.rs`, with
`add_player` and `remove_player` of `mc-player/src/player.rs`, as any number of connections
interleave them.  Of a player only the entity id is kept.  A session is live from its insertion into
the table until it calls `remove_player`, at its end or when a packet of the join cannot be sent.

Principal result: `along_matches_iff` — the table is exactly the live sessions, and no larger than
`max_players`, along a run exactly when no player is registered who is live under another entity id,
none that is new while the table is full, and none leaves who is live in another session.
-/

namespace Apoptotic.OnlineSet

abbrev Uuid := Commands.Uuid

abbrev EntityId := BitVec 32

abbrev ConnId := Nat

/-- Where a connection is in `handle_play`. -/
inductive Session where
  /-- The server was not full. -/
  | admitted (uuid : Uuid)
  /-- `add_player` has taken an id. -/
  | allocated (uuid : Uuid) (entityId : EntityId)
  | playing (uuid : Uuid) (entityId : EntityId)
  deriving DecidableEq, Repr

structure World where
  players : AList fun _ : Uuid => EntityId
  nextEntityId : EntityId
  session : ConnId → Option Session

def World.new : World := ⟨∅, 0, fun _ => none⟩

inductive Action where
  /-- A logged-in connection comes to the capacity check. -/
  | join (c : ConnId) (uuid : Uuid)
  /-- `allocate_entity_id` -/
  | allocate (c : ConnId)
  /-- `self.players.insert(uuid, player)` -/
  | insert (c : ConnId)
  /-- `remove_player` -/
  | leave (c : ConnId)

namespace World

variable (maxPlayers : BitVec 32) (w : World)

/-- `online_count` -/
def onlineCount : Nat := w.players.keys.length

/-- `if online >= server.max_players { .. return; }` -/
def join (c : ConnId) (uuid : Uuid) : World :=
  if maxPlayers ≤ BitVec.ofNat 32 w.onlineCount then w
  else { w with session := Function.update w.session c (some (.admitted uuid)) }

def allocate (c : ConnId) (uuid : Uuid) : World :=
  { w with
    nextEntityId := w.nextEntityId + 1
    session := Function.update w.session c (some (.allocated uuid w.nextEntityId)) }

def insert (c : ConnId) (uuid : Uuid) (entityId : EntityId) : World :=
  { w with
    players := w.players.insert uuid entityId
    session := Function.update w.session c (some (.playing uuid entityId)) }

def leave (c : ConnId) (uuid : Uuid) : World :=
  { w with
    players := w.players.erase uuid
    session := Function.update w.session c none }

/-- An action of a connection that is not where it takes it changes nothing. -/
def step : Action → World
  | .join c uuid =>
      match w.session c with
      | none => w.join maxPlayers c uuid
      | some _ => w
  | .allocate c =>
      match w.session c with
      | some (.admitted uuid) => w.allocate c uuid
      | _ => w
  | .insert c =>
      match w.session c with
      | some (.allocated uuid entityId) => w.insert c uuid entityId
      | _ => w
  | .leave c =>
      match w.session c with
      | some (.playing uuid _) => w.leave c uuid
      | _ => w

/-- The connection plays as the uuid, under the entity id. -/
def Live (c : ConnId) (uuid : Uuid) (entityId : EntityId) : Prop :=
  w.session c = some (.playing uuid entityId)

/-- **A uuid is in the table exactly when a live session has it, its entity id is that session's,
and no more players than allowed are online.** -/
structure Exact : Prop where
  online : ∀ uuid, uuid ∈ w.players ↔ ∃ c entityId, w.Live c uuid entityId
  entityId : ∀ c uuid entityId, w.Live c uuid entityId → w.players.lookup uuid = some entityId
  capacity : w.onlineCount ≤ maxPlayers.toNat

/-- A player who is registered is live under no other entity id, and there is room if it is new; one
who leaves is live in no other session. -/
def Undisputed : Action → Prop
  | .insert c => ∀ uuid entityId, w.session c = some (.allocated uuid entityId) →
      (∀ c' entityId', w.Live c' uuid entityId' → entityId' = entityId) ∧
        (uuid ∉ w.players → w.onlineCount < maxPlayers.toNat)
  | .leave c => ∀ uuid entityId, w.Live c uuid entityId →
      ∀ c' entityId', w.Live c' uuid entityId' → c' = c
  | _ => True

/-! ## One action -/

variable {maxPlayers w} {w' : World} {c : ConnId} {uuid : Uuid} {entityId : EntityId}

theorem exact_new : Exact maxPlayers World.new where
  online _ := iff_of_false (AList.notMem_empty _) fun ⟨_, _, h⟩ => nomatch h
  entityId _ _ _ h := nomatch h
  capacity := Nat.zero_le _

/-- What concerns neither the table nor the live sessions. -/
theorem exact_congr (hplayers : w'.players = w.players)
    (hlive : ∀ c uuid entityId, w'.Live c uuid entityId ↔ w.Live c uuid entityId)
    (hw : Exact maxPlayers w) : Exact maxPlayers w' where
  online uuid := by
    rw [hplayers, hw.online]
    simp only [hlive]
  entityId c uuid entityId h := by
    rw [hplayers]
    exact hw.entityId c uuid entityId ((hlive c uuid entityId).1 h)
  capacity := by
    unfold onlineCount
    rw [hplayers]
    exact hw.capacity

/-- A connection that does not play goes on to something that is not playing either. -/
theorem live_update {s : Option Session} (hs : ∀ uuid entityId, s ≠ some (.playing uuid entityId))
    (hc : ∀ uuid entityId, ¬ w.Live c uuid entityId)
    (hw' : w'.session = Function.update w.session c s) (c' : ConnId) (uuid : Uuid)
    (entityId : EntityId) : w'.Live c' uuid entityId ↔ w.Live c' uuid entityId := by
  unfold Live
  rw [hw']
  by_cases h : c' = c
  · rw [h, Function.update_self]
    exact iff_of_false (hs uuid entityId) (hc uuid entityId)
  · rw [Function.update_of_ne h]

theorem exact_join (hw : Exact maxPlayers w) (hc : w.session c = none) :
    Exact maxPlayers (w.join maxPlayers c uuid) := by
  unfold join
  split
  · exact hw
  · refine exact_congr (w := w) rfl (live_update (s := some _) ?_ (fun _ _ h => ?_) rfl) hw
    · intro _ _ h
      cases h
    · cases hc.symm.trans h

theorem exact_allocate (hw : Exact maxPlayers w) (hc : w.session c = some (.admitted uuid)) :
    Exact maxPlayers (w.allocate c uuid) := by
  refine exact_congr (w := w) rfl (live_update (s := some _) ?_ (fun _ _ h => ?_) rfl) hw
  · intro _ _ h
    cases h
  · cases hc.symm.trans h

theorem onlineCount_insert (w : World) (c : ConnId) (uuid : Uuid) (entityId : EntityId) :
    (w.insert c uuid entityId).onlineCount = if uuid ∈ w.players then w.onlineCount
      else w.onlineCount + 1 := by
  have hkeys : (w.insert c uuid entityId).onlineCount = (w.players.keys.erase uuid).length + 1 := by
    change (w.players.insert uuid entityId).keys.length = _
    rw [AList.keys_insert, List.length_cons]
  rw [hkeys]
  split
  · next h =>
      have hpos : 0 < w.players.keys.length := List.length_pos_of_mem h
      rw [List.length_erase_of_mem h]
      exact Nat.sub_add_cancel hpos
  · next h => rw [List.erase_of_not_mem h]; rfl

/-- The connections that play after one was registered. -/
theorem live_insert {c' : ConnId} {uuid' : Uuid} {entityId' : EntityId} :
    (w.insert c uuid entityId).Live c' uuid' entityId' ↔
      if c' = c then uuid' = uuid ∧ entityId' = entityId else w.Live c' uuid' entityId' := by
  change Function.update w.session c _ c' = _ ↔ _
  split
  · next h =>
      rw [h, Function.update_self, Option.some_inj, Session.playing.injEq]
      exact and_congr eq_comm eq_comm
  · next h =>
      rw [Function.update_of_ne h]
      rfl

/-- Registering a player. -/
theorem exact_insert_iff (hw : Exact maxPlayers w)
    (hc : w.session c = some (.allocated uuid entityId)) :
    Exact maxPlayers (w.insert c uuid entityId) ↔
      (∀ c' entityId', w.Live c' uuid entityId' → entityId' = entityId) ∧
        (uuid ∉ w.players → w.onlineCount < maxPlayers.toNat) := by
  have hcount := onlineCount_insert w c uuid entityId
  have hother : ∀ {c' uuid' entityId'}, w.Live c' uuid' entityId' → c' ≠ c := by
    rintro c' uuid' entityId' h rfl
    cases hc.symm.trans h
  constructor
  · intro h
    refine ⟨fun c' entityId' hlive => ?_, fun hnew => ?_⟩
    · have hlive' : (w.insert c uuid entityId).Live c' uuid entityId' := by
        rw [live_insert, if_neg (hother hlive)]
        exact hlive
      have hlookup := h.entityId c' uuid entityId' hlive'
      rw [show (w.insert c uuid entityId).players = w.players.insert uuid entityId from rfl,
        AList.lookup_insert] at hlookup
      exact (Option.some.inj hlookup).symm
    · have hcapacity := h.capacity
      rw [hcount, if_neg hnew] at hcapacity
      exact hcapacity
  · rintro ⟨hsame, hroom⟩
    refine ⟨fun uuid' => ?_, fun c' uuid' entityId' hlive => ?_, ?_⟩
    · rw [show (w.insert c uuid entityId).players = w.players.insert uuid entityId from rfl,
        AList.mem_insert, hw.online]
      constructor
      · rintro (rfl | ⟨c', entityId', hlive⟩)
        · exact ⟨c, entityId, live_insert.2 (by rw [if_pos rfl]; exact ⟨rfl, rfl⟩)⟩
        · exact ⟨c', entityId', live_insert.2 (by rw [if_neg (hother hlive)]; exact hlive)⟩
      · rintro ⟨c', entityId', hlive⟩
        rw [live_insert] at hlive
        split at hlive
        · exact .inl hlive.1
        · exact .inr ⟨c', entityId', hlive⟩
    · change (w.players.insert uuid entityId).lookup uuid' = some entityId'
      rw [live_insert] at hlive
      by_cases hu : uuid' = uuid
      · subst hu
        rw [AList.lookup_insert]
        split at hlive
        · rw [hlive.2]
        · rw [hsame c' entityId' hlive]
      · rw [AList.lookup_insert_ne hu]
        split at hlive
        · exact absurd hlive.1 hu
        · exact hw.entityId c' uuid' entityId' hlive
    · rw [hcount]
      split
      · exact hw.capacity
      · next hnew => exact hroom hnew

theorem live_leave {c' : ConnId} {uuid' : Uuid} {entityId' : EntityId} :
    (w.leave c uuid).Live c' uuid' entityId' ↔ c' ≠ c ∧ w.Live c' uuid' entityId' := by
  change Function.update w.session c none c' = _ ↔ _
  by_cases h : c' = c
  · rw [h, Function.update_self]
    exact iff_of_false nofun fun hn => hn.1 rfl
  · rw [Function.update_of_ne h]
    exact (and_iff_right h).symm

/-- A session that ends. -/
theorem exact_leave_iff (hw : Exact maxPlayers w) (hc : w.Live c uuid entityId) :
    Exact maxPlayers (w.leave c uuid) ↔
      ∀ c' entityId', w.Live c' uuid entityId' → c' = c := by
  have hplayers : (w.leave c uuid).players = w.players.erase uuid := rfl
  constructor
  · intro h c' entityId' hlive
    by_contra hne
    have hmem := (h.online uuid).2 ⟨c', entityId', live_leave.2 ⟨hne, hlive⟩⟩
    rw [hplayers, AList.mem_erase] at hmem
    exact hmem.1 rfl
  · intro honly
    refine ⟨fun uuid' => ?_, fun c' uuid' entityId' hlive => ?_, ?_⟩
    · rw [hplayers, AList.mem_erase, hw.online]
      constructor
      · rintro ⟨hne, c', entityId', hlive⟩
        refine ⟨c', entityId', live_leave.2 ⟨?_, hlive⟩⟩
        rintro rfl
        cases hc.symm.trans hlive
        exact hne rfl
      · rintro ⟨c', entityId', hlive⟩
        obtain ⟨hne, hlive⟩ := live_leave.1 hlive
        exact ⟨fun hu => hne (honly c' entityId' (hu ▸ hlive)), c', entityId', hlive⟩
    · obtain ⟨hne, hlive⟩ := live_leave.1 hlive
      have hu : uuid' ≠ uuid := fun hu => hne (honly c' entityId' (hu ▸ hlive))
      rw [hplayers, AList.lookup_erase_ne hu]
      exact hw.entityId c' uuid' entityId' hlive
    · change (w.players.erase uuid).keys.length ≤ _
      rw [AList.keys_erase]
      exact (List.length_erase_le ..).trans hw.capacity

/-- One action. -/
theorem exact_step_iff (hw : Exact maxPlayers w) (a : Action) :
    Exact maxPlayers (w.step maxPlayers a) ↔ w.Undisputed maxPlayers a := by
  cases a with
  | join c uuid =>
      refine iff_of_true ?_ trivial
      dsimp only [step]
      split
      · next hc => exact exact_join hw hc
      · exact hw
  | allocate c =>
      refine iff_of_true ?_ trivial
      dsimp only [step]
      split
      · next hc => exact exact_allocate hw hc
      · exact hw
  | insert c =>
      dsimp only [step, Undisputed]
      split
      · next uuid entityId hc =>
          rw [exact_insert_iff hw hc]
          constructor
          · intro h uuid' entityId' hc'
            cases hc.symm.trans hc'
            exact h
          · exact fun h => h uuid entityId hc
      · next hnot => exact iff_of_true hw fun uuid entityId hc => absurd hc (hnot uuid entityId)
  | leave c =>
      dsimp only [step, Undisputed]
      split
      · next uuid entityId hc =>
          rw [exact_leave_iff hw hc]
          constructor
          · intro h uuid' entityId' hc'
            cases hc.symm.trans hc'
            exact h
          · exact fun h => h uuid entityId hc
      · next hnot => exact iff_of_true hw fun uuid entityId hc => absurd hc (hnot uuid entityId)

end World

open World

/-- **The table is exactly the live sessions, and no larger than allowed, along a run exactly when no
player is registered who is live under another entity id, none that is new while the table is full,
and none leaves who is live in another session.** -/
theorem along_matches_iff (maxPlayers : BitVec 32) (as : List Action) :
    Along (World.step maxPlayers) (fun w a => Exact maxPlayers (w.step maxPlayers a)) World.new as ↔
      Along (World.step maxPlayers) (Undisputed maxPlayers) World.new as :=
  along_iff (Exact maxPlayers) (fun _ a hw => exact_step_iff hw a)
    (fun _ a hw ha => (exact_step_iff hw a).2 ha) exact_new as

/-- **A player who joins a second time disappears when the first session ends.** -/
theorem not_forall_along_matches :
    ¬ ∀ (maxPlayers : BitVec 32) (as : List Action),
      Along (World.step maxPlayers) (fun w a => Exact maxPlayers (w.step maxPlayers a))
        World.new as := by
  intro h
  have hlast := (h 20 [.join 0 7, .allocate 0, .insert 0, .join 1 7, .allocate 1, .insert 1]).2.2.2.2.2.1
  have hlookup := hlast.entityId 0 7 0 rfl
  cases hlookup

end Apoptotic.OnlineSet
