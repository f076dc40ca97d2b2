import Apoptotic.Lib.Reached
import Mathlib.Algebra.Group.Nat.Defs
import Mathlib.Data.List.Nodup
import Mathlib.Data.List.Perm.Basic

/-!
# Entity ids

One counter, an `AtomicI32`, is shared by the connection threads and the tick thread of
`mc-server/src/main.rs`.  Most code takes an id with `fetch_add` and inserts the entity later.  The
death of a player loads the counter, counts up locally while it drops the inventory, stores the
result, goes on counting for the slimes of the Oozing effect and stores again.  `/summon` and
`split_slime` draw ids at random.  Any number of threads interleave these steps.

An entity is live from its insertion until it is removed, also when a later insertion under its id
has taken its row in the table.

Principal result: `uniqueIds_of_reached` — no two live entities share an id, in every run in which
no thread takes an id between the load and the last store of a death and drawn ids stay clear of the
others.
-/

namespace Apoptotic

namespace EntityIds

abbrev EntityId := BitVec 32

/-- Where live entities are kept. -/
inductive Table where
  | mobs
  | projectiles
  | droppedItems
  deriving DecidableEq, Repr

/-- A live entity, and whether its id was drawn at random. -/
structure Entity where
  table : Table
  id : EntityId
  drawn : Bool
  deriving DecidableEq, Repr

/-- Where the tick thread is in a death, with its `ent_id`. -/
inductive Death where
  | none
  | dropping (entId : EntityId)
  | oozing (entId : EntityId)
  deriving DecidableEq, Repr

structure World where
  nextEntityId : EntityId
  /-- The ids that threads have taken and not used yet. -/
  taken : List EntityId
  live : List Entity
  death : Death
  deriving Repr

inductive Action where
  /-- `next_entity_id.fetch_add(1)`, by any thread. -/
  | fetchAdd
  /-- A thread inserts an entity under an id it took. -/
  | insert (table : Table) (id : EntityId)
  /-- An id that only goes into packets. -/
  | discard (id : EntityId)
  /-- `let mut ent_id = next_entity_id_for_tick.load()` -/
  | deathLoad
  /-- An item, a piece of armor or an orb of the dead player. -/
  | deathDrop
  | deathStore
  | oozingSlime
  | oozingStore
  /-- A mob under a random id of 31 bits. -/
  | summon (id : EntityId)
  /-- A baby under a random id of `1..i32::MAX`. -/
  | splitSlime (id : EntityId)
  | despawn (table : Table) (id : EntityId)
  deriving DecidableEq, Repr

def init : World := ⟨10000, [], [], .none⟩

/-- What the code allows: the tick thread runs its deaths one after another. -/
def Enabled (w : World) : Action → Prop
  | .insert _ id | .discard id => id ∈ w.taken
  | .deathLoad => w.death = .none
  | .deathDrop | .deathStore => ∃ entId, w.death = .dropping entId
  | .oozingSlime | .oozingStore => ∃ entId, w.death = .oozing entId
  | .summon id => id.toNat < 2 ^ 31
  | .splitSlime id => 1 ≤ id.toNat ∧ id.toNat < 2 ^ 31 - 1
  | .fetchAdd | .despawn _ _ => True

def apply (w : World) : Action → World
  | .fetchAdd => { w with nextEntityId := w.nextEntityId + 1, taken := w.nextEntityId :: w.taken }
  | .insert table id => { w with taken := w.taken.erase id, live := ⟨table, id, false⟩ :: w.live }
  | .discard id => { w with taken := w.taken.erase id }
  | .deathLoad => { w with death := .dropping w.nextEntityId }
  | .deathDrop =>
      match w.death with
      | .dropping entId =>
          { w with live := ⟨.droppedItems, entId, false⟩ :: w.live, death := .dropping (entId + 1) }
      | _ => w
  | .deathStore =>
      match w.death with
      | .dropping entId => { w with nextEntityId := entId, death := .oozing entId }
      | _ => w
  | .oozingSlime =>
      match w.death with
      | .oozing entId =>
          { w with live := ⟨.mobs, entId, false⟩ :: w.live, death := .oozing (entId + 1) }
      | _ => w
  | .oozingStore =>
      match w.death with
      | .oozing entId => { w with nextEntityId := entId, death := .none }
      | _ => w
  | .summon id | .splitSlime id => { w with live := ⟨.mobs, id, true⟩ :: w.live }
  | .despawn table id => { w with live := w.live.filter fun e => !(e.table == table && e.id == id) }

def server : StepSystem World Action where
  init := (· = init)
  enabled := Enabled
  apply := apply

/-- No two live entities have the same id. -/
def UniqueIds (w : World) : Prop := (w.live.map Entity.id).Nodup

/-! ## The runs in which ids are unique -/

/-- The id is not that of a live entity whose id was drawn, and not the last of 32 bits. -/
def ClearOfDrawn (w : World) (id : EntityId) : Prop :=
  (∀ e ∈ w.live, e.drawn = true → e.id ≠ id) ∧ id.toNat + 1 < 2 ^ 32

/-- No other thread takes an id during a death, ids are counted up only where no drawn id is, and
    drawn ids are not in use. -/
def Undisturbed (w : World) : Action → Prop
  | .fetchAdd => w.death = .none ∧ ClearOfDrawn w w.nextEntityId
  | .deathDrop => ∀ entId, w.death = .dropping entId → ClearOfDrawn w entId
  | .oozingSlime => ∀ entId, w.death = .oozing entId → ClearOfDrawn w entId
  | .summon id | .splitSlime id => id ∉ w.live.map Entity.id ∧ id ∉ w.taken
  | _ => True

/-- The next id that is counted up to. -/
def World.frontier (w : World) : EntityId :=
  match w.death with
  | .none => w.nextEntityId
  | .dropping entId | .oozing entId => entId

attribute [local simp] Enabled apply Undisturbed World.frontier

/-- Everything in use is distinct, and what was counted up to lies below the frontier. -/
structure Inv (w : World) : Prop where
  nodup : (w.live.map Entity.id ++ w.taken).Nodup
  live_lt : ∀ e ∈ w.live, e.drawn = false → e.id.toNat < w.frontier.toNat
  taken_lt : ∀ id ∈ w.taken, id.toNat < w.frontier.toNat

theorem Inv.uniqueIds {w : World} (h : Inv w) : UniqueIds w :=
  (List.nodup_append.1 h.nodup).1

theorem inv_init : Inv init :=
  ⟨List.nodup_nil, fun _ h _ => absurd h List.not_mem_nil, fun _ h => absurd h List.not_mem_nil⟩

section

variable {w : World}

/-- The frontier is not in use. -/
theorem Inv.frontier_fresh (h : Inv w) (hclear : ClearOfDrawn w w.frontier) :
    w.frontier ∉ w.live.map Entity.id ++ w.taken := by
  rw [List.mem_append, List.mem_map]
  rintro (⟨e, he, heq⟩ | htaken)
  · cases hd : e.drawn with
    | true => exact hclear.1 e he hd heq
    | false => exact absurd (h.live_lt e he hd) (by rw [heq]; exact Nat.lt_irrefl _)
  · exact absurd (h.taken_lt _ htaken) (Nat.lt_irrefl _)

theorem toNat_succ {id : EntityId} (h : id.toNat + 1 < 2 ^ 32) :
    (id + 1).toNat = id.toNat + 1 := by
  rw [BitVec.toNat_add]
  exact Nat.mod_eq_of_lt h

/-- An entity under the frontier's id, and the frontier moves on. -/
theorem Inv.count (h : Inv w) (hclear : ClearOfDrawn w w.frontier) {e : Entity}
    (he : e.id = w.frontier) {w' : World} (hlive : w'.live = e :: w.live)
    (htaken : w'.taken = w.taken) (hfrontier : w'.frontier = w.frontier + 1) : Inv w' := by
  have hsucc := toNat_succ hclear.2
  refine ⟨?_, fun e' he' hd => ?_, fun id hid => ?_⟩
  · rw [hlive, htaken, List.map_cons, List.cons_append, he]
    exact List.nodup_cons.2 ⟨h.frontier_fresh hclear, h.nodup⟩
  · rw [hfrontier, hsucc]
    rw [hlive] at he'
    rcases List.mem_cons.1 he' with rfl | he'
    · rw [he]
      exact Nat.lt_succ_self _
    · exact Nat.lt_succ_of_lt (h.live_lt e' he' hd)
  · rw [hfrontier, hsucc]
    rw [htaken] at hid
    exact Nat.lt_succ_of_lt (h.taken_lt id hid)

/-- What is live and taken stays, or becomes less, and the frontier stays. -/
theorem Inv.of_sublist (h : Inv w) {w' : World} (hlive : w'.live.Sublist w.live)
    (htaken : w'.taken.Sublist w.taken) (hfrontier : w'.frontier = w.frontier) : Inv w' := by
  refine ⟨h.nodup.sublist ((hlive.map _).append htaken), fun e he hd => ?_, fun id hid => ?_⟩
  · rw [hfrontier]
    exact h.live_lt e (hlive.subset he) hd
  · rw [hfrontier]
    exact h.taken_lt id (htaken.subset hid)

theorem inv_fetchAdd (h : Inv w) (hidle : w.death = .none)
    (hclear : ClearOfDrawn w w.nextEntityId) : Inv (apply w .fetchAdd) := by
  have hf : w.frontier = w.nextEntityId := by simp [hidle]
  have hf' : (apply w .fetchAdd).frontier = w.nextEntityId + 1 := by
    simp [hidle]
  have hfresh := h.frontier_fresh (hf ▸ hclear)
  have hsucc := toNat_succ hclear.2
  refine ⟨?_, fun e he hd => ?_, fun id hid => ?_⟩
  · rw [hf] at hfresh
    exact List.nodup_middle.2 (List.nodup_cons.2 ⟨hfresh, h.nodup⟩)
  · rw [hf', hsucc]
    exact Nat.lt_succ_of_lt (hf ▸ h.live_lt e he hd)
  · rw [hf', hsucc]
    rcases List.mem_cons.1 hid with rfl | hid
    · exact Nat.lt_succ_self _
    · exact Nat.lt_succ_of_lt (hf ▸ h.taken_lt id hid)

theorem inv_insert (h : Inv w) (table : Table) {id : EntityId} (hid : id ∈ w.taken) :
    Inv (apply w (.insert table id)) := by
  refine ⟨?_, fun e he hd => ?_, fun i hi => h.taken_lt i (List.mem_of_mem_erase hi)⟩
  · have hperm : (w.live.map Entity.id ++ w.taken).Perm
        (id :: (w.live.map Entity.id ++ w.taken.erase id)) :=
      ((List.perm_cons_erase hid).append_left _).trans List.perm_middle
    exact hperm.nodup_iff.1 h.nodup
  · rcases List.mem_cons.1 he with rfl | he
    · exact h.taken_lt id hid
    · exact h.live_lt e he hd

theorem inv_draw (h : Inv w) {id : EntityId}
    (hfresh : id ∉ w.live.map Entity.id ∧ id ∉ w.taken) :
    Inv { w with live := ⟨.mobs, id, true⟩ :: w.live } := by
  refine ⟨?_, fun e he hd => ?_, h.taken_lt⟩
  · exact List.nodup_cons.2 ⟨fun hmem => (List.mem_append.1 hmem).elim hfresh.1 hfresh.2, h.nodup⟩
  · rcases List.mem_cons.1 he with rfl | he
    · cases hd
    · exact h.live_lt e he hd

/-- **Every undisturbed step keeps the invariant.** -/
theorem inv_apply (h : Inv w) {a : Action} (hen : Enabled w a) (hok : Undisturbed w a) :
    Inv (apply w a) := by
  cases a with
  | fetchAdd => exact inv_fetchAdd h hok.1 hok.2
  | insert table id => exact inv_insert h table hen
  | discard id =>
      exact h.of_sublist (List.Sublist.refl _) List.erase_sublist rfl
  | deathLoad =>
      have hidle : w.death = .none := hen
      exact h.of_sublist (List.Sublist.refl _) (List.Sublist.refl _)
        (by simp [hidle])
  | deathDrop =>
      obtain ⟨entId, hd⟩ := hen
      have hf : w.frontier = entId := by simp [hd]
      simp only [apply, hd]
      exact h.count (hf ▸ hok entId hd) hf.symm rfl rfl (by simp [hd])
  | deathStore =>
      obtain ⟨entId, hd⟩ := hen
      simp only [apply, hd]
      exact h.of_sublist (List.Sublist.refl _) (List.Sublist.refl _) (by simp [hd])
  | oozingSlime =>
      obtain ⟨entId, hd⟩ := hen
      have hf : w.frontier = entId := by simp [hd]
      simp only [apply, hd]
      exact h.count (hf ▸ hok entId hd) hf.symm rfl rfl (by simp [hd])
  | oozingStore =>
      obtain ⟨entId, hd⟩ := hen
      simp only [apply, hd]
      exact h.of_sublist (List.Sublist.refl _) (List.Sublist.refl _) (by simp [hd])
  | summon id => exact inv_draw h hok
  | splitSlime id => exact inv_draw h hok
  | despawn table id =>
      exact h.of_sublist List.filter_sublist (List.Sublist.refl _) rfl

end

/-- **Ids are unique in every state that undisturbed steps reach.** -/
theorem uniqueIds_of_reached {w : World} (h : server.Reached Undisturbed w) : UniqueIds w :=
  (h.invariant (fun _ hw => hw ▸ inv_init) fun _ _ hw hen hok => inv_apply hw hen hok).uniqueIds

/-- A drop, a summoned mob, and a death with two drops and a slime. -/
def quietDeath : List Action :=
  [.fetchAdd, .insert .droppedItems 10000, .summon 7, .deathLoad, .deathDrop, .deathDrop, .deathStore,
    .oozingSlime, .oozingStore, .fetchAdd]

theorem uniqueIds_quietDeath : UniqueIds (quietDeath.foldl apply init) :=
  uniqueIds_of_reached (StepSystem.Reached.foldl (.init rfl) (by
    simp [quietDeath, StepSystem.AllOk, server, Enabled, Undisturbed, ClearOfDrawn, apply, init]))

/-- A connection thread takes an id between the load of a death and its first drop. -/
def disturbedDeath : List Action :=
  [.deathLoad, .fetchAdd, .deathDrop, .insert .droppedItems 10000]

theorem not_forall_uniqueIds :
    ¬ ∀ w, server.Reached (fun _ _ => True) w → UniqueIds w := by
  intro h
  have hreached : server.Reached (fun _ _ => True) (disturbedDeath.foldl apply init) :=
    StepSystem.Reached.foldl (.init rfl) (by
      simp [disturbedDeath, StepSystem.AllOk, server, Enabled, apply, init])
  exact absurd (h _ hreached) (by unfold UniqueIds; decide)

end EntityIds

end Apoptotic
