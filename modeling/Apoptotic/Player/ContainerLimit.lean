import Apoptotic.Lib.LastWrite
import Apoptotic.Lib.Reached
import Apoptotic.Player.ContainerBytes
import Mathlib.Data.List.Perm.Subperm

/-!
# The limit of the container storage

`get_persistent` and `set_persistent` of `mc-player/src/container.rs`.  Above 1024 entries a call evicts
those that the map happens to iterate first, 129 of them at least; the order of the iteration is
part of the call.

Principal results: `remembers_iff` — every position keeps the slots last stored there exactly along the
runs that only evict entries without slots; `not_remembers_of_crowded` — more than 1024 positions with
slots are never all remembered.
-/

namespace Apoptotic.Containers

/-- An order in which the map is iterated. -/
structure Iteration where
  keys : Persistent → List BlockPos
  perm : ∀ t, (keys t).Perm t.keys

/-- A call of `set_persistent`. -/
structure Store where
  pos : BlockPos
  slots : Slots
  order : Iteration

def Store.key (c : Store) : Option BlockPos := some c.pos

namespace ContainerManager

def maxPersistent : Nat := 1024

variable (m : ContainerManager)

def getPersistent (pos : BlockPos) : Slots := (m.persistent.lookup pos).getD []

/-- `to_remove`, of the table with the new entry. -/
def toRemove (order : Iteration) (persistent : Persistent) : List BlockPos :=
  if maxPersistent < persistent.keys.length then
    (order.keys persistent).take (persistent.keys.length - maxPersistent + 128)
  else []

/-- The loop that removes the keys. -/
def removeAll (persistent : Persistent) (keys : List BlockPos) : Persistent :=
  keys.foldl (fun t key => t.erase key) persistent

def setPersistent (c : Store) : ContainerManager :=
  let persistent := m.persistent.insert c.pos c.slots
  { m with persistent := removeAll persistent (toRemove c.order persistent) }

/-- The slots last stored at a position. -/
def lastStored (calls : List Store) : BlockPos → Slots :=
  LastWrite.puts Store.key Store.slots m.getPersistent calls

/-- **Every position has the slots last stored there.** -/
def Remembers (calls : List Store) : Prop :=
  ∀ pos, (calls.foldl setPersistent m).getPersistent pos = m.lastStored calls pos

/-- What is evicted holds no slots. -/
def Spares (c : Store) : Prop :=
  ∀ key ∈ toRemove c.order (m.persistent.insert c.pos c.slots),
    (if key = c.pos then c.slots else m.getPersistent key) = []

/-! ## One call -/

theorem lookup_removeAll (t : Persistent) (keys : List BlockPos) (pos : BlockPos) :
    (removeAll t keys).lookup pos = if pos ∈ keys then none else t.lookup pos := by
  unfold removeAll
  induction keys generalizing t with
  | nil => simp
  | cons key keys ih =>
      rw [List.foldl_cons, ih]
      by_cases hkey : pos = key
      · subst hkey
        simp
      · simp [hkey, AList.lookup_erase_ne hkey]

theorem getPersistent_setPersistent (c : Store) (pos : BlockPos) :
    (m.setPersistent c).getPersistent pos =
      if pos ∈ toRemove c.order (m.persistent.insert c.pos c.slots) then []
      else if pos = c.pos then c.slots else m.getPersistent pos := by
  unfold getPersistent setPersistent
  rw [lookup_removeAll]
  split
  · rfl
  · by_cases hpos : pos = c.pos
    · subst hpos
      simp
    · rw [AList.lookup_insert_ne hpos, if_neg hpos]

theorem keys_removeAll (t : Persistent) (keys : List BlockPos) :
    (removeAll t keys).keys = t.keys.diff keys := by
  unfold removeAll
  induction keys generalizing t with
  | nil => rfl
  | cons key keys ih =>
      rw [List.foldl_cons, ih, AList.keys_erase, List.diff_cons]

/-- What is removed and what is left are the whole table. -/
theorem length_removeAll_take (t : Persistent) (order : Iteration) (n : Nat) :
    min n t.keys.length + (removeAll t ((order.keys t).take n)).keys.length = t.keys.length := by
  have hcount : ∀ key ∈ (order.keys t).take n,
      ((order.keys t).take n).count key ≤ t.keys.count key := by
    intro key _
    rw [← (order.perm t).count_eq key]
    exact (List.take_sublist n _).count_le key
  have hlen := (List.subperm_append_diff_self_of_count_le hcount).length_eq
  rwa [List.length_append, List.length_take, (order.perm t).length_eq, ← keys_removeAll] at hlen

/-- **After a call the table is within its limit.** -/
theorem length_setPersistent_le (c : Store) :
    (m.setPersistent c).persistent.keys.length ≤ maxPersistent := by
  change (removeAll _ (toRemove c.order _)).keys.length ≤ maxPersistent
  generalize m.persistent.insert c.pos c.slots = t
  unfold toRemove
  split
  · rename_i hfull
    have hlen := length_removeAll_take t c.order (t.keys.length - maxPersistent + 128)
    omega
  · rename_i hroom
    exact Nat.not_lt.1 hroom

/-! ## Runs -/

theorem lastStored_append (calls : List Store) (c : Store) (pos : BlockPos) :
    m.lastStored (calls ++ [c]) pos = if pos = c.pos then c.slots else m.lastStored calls pos := by
  unfold lastStored LastWrite.puts
  rw [List.foldl_append]
  exact Function.update_apply ..

/-- A call keeps what is remembered exactly when it spares the slots. -/
theorem remembers_append_iff {calls : List Store} (h : m.Remembers calls) (c : Store) :
    m.Remembers (calls ++ [c]) ↔ (calls.foldl setPersistent m).Spares c := by
  unfold Remembers Spares
  simp only [List.foldl_append, List.foldl_cons, List.foldl_nil, getPersistent_setPersistent,
    lastStored_append]
  refine forall_congr' fun pos => ?_
  rw [← h pos]
  by_cases hpos : pos ∈ toRemove c.order
      ((calls.foldl setPersistent m).persistent.insert c.pos c.slots)
  · rw [if_pos hpos]
    constructor
    · intro heq _
      exact heq.symm
    · intro hspare
      exact (hspare hpos).symm
  · rw [if_neg hpos]
    exact iff_of_true rfl fun hmem => absurd hmem hpos

/-- **The storage remembers along a run exactly when every call of it only evicts entries without
slots.** -/
theorem remembers_iff (calls : List Store) :
    (∀ done, done <+: calls → m.Remembers done) ↔ Along setPersistent Spares m calls := by
  induction calls using List.reverseRecOn with
  | nil =>
      refine iff_of_true (fun done hdone => ?_) trivial
      rw [List.prefix_nil.1 hdone]
      exact fun _ => rfl
  | append_singleton calls c ih =>
      rw [along_append, ← ih]
      constructor
      · intro h
        have hbefore : ∀ done, done <+: calls → m.Remembers done := fun done hdone =>
          h done (hdone.trans (List.prefix_append calls [c]))
        have hc := (m.remembers_append_iff (hbefore calls (List.prefix_refl calls)) c).1
          (h _ (List.prefix_refl _))
        exact ⟨hbefore, hc, trivial⟩
      · rintro ⟨hbefore, hc, -⟩ done hdone
        rcases List.prefix_concat_iff.1 hdone with rfl | hdone
        · exact (m.remembers_append_iff (hbefore calls (List.prefix_refl calls)) c).2 hc
        · exact hbefore done hdone

/-! ## Too many containers -/

theorem mem_keys_of_getPersistent_ne_nil {pos : BlockPos} (h : m.getPersistent pos ≠ []) :
    pos ∈ m.persistent.keys := by
  rw [← AList.mem_keys]
  by_contra hnot
  apply h
  rw [getPersistent, AList.lookup_eq_none.2 hnot, Option.getD_none]

/-- **More positions with slots than the limit are never all remembered.** -/
theorem not_remembers_of_crowded {calls : List Store} (hcalls : calls ≠ []) {crowd : List BlockPos}
    (hdistinct : crowd.Nodup) (hcrowd : maxPersistent < crowd.length)
    (hslots : ∀ pos ∈ crowd, m.lastStored calls pos ≠ []) : ¬ m.Remembers calls := by
  intro h
  have hsub : crowd ⊆ (calls.foldl setPersistent m).persistent.keys := by
    intro pos hpos
    apply mem_keys_of_getPersistent_ne_nil
    rw [h pos]
    exact hslots pos hpos
  have hle : (calls.foldl setPersistent m).persistent.keys.length ≤ maxPersistent := by
    obtain ⟨before, c, rfl⟩ := (List.eq_nil_or_concat' calls).resolve_left hcalls
    rw [List.foldl_append]
    exact length_setPersistent_le _ c
  have hlen := (hdistinct.subperm hsub).length_le
  omega

end ContainerManager

/-! ## A row of chests -/

/-- The map iterated as it was filled. -/
def Iteration.natural : Iteration := ⟨AList.keys, fun _ => List.Perm.refl _⟩

/-- A chest with one stack of stone. -/
def chestAt (i : Nat) : Store :=
  ⟨⟨BitVec.ofNat 32 i, 64, 0⟩, [some (Commands.ItemStack.new (BlockState.new 1) 64)],
    Iteration.natural⟩

theorem chestAt_pos_injective {i j : Nat} (hi : i < 2 ^ 32) (hj : j < 2 ^ 32)
    (h : (chestAt i).pos = (chestAt j).pos) : i = j := by
  have hx := congrArg (fun pos => pos.x.toNat) h
  simp only [chestAt, BitVec.toNat_ofNat] at hx
  omega

/-- **The 1025th chest makes the storage forget chests.** -/
theorem not_forall_remembers : ¬ ∀ calls, ContainerManager.new.Remembers calls := by
  intro h
  have hdistinct : ((List.range 1025).map fun i => (chestAt i).pos).Nodup := by
    refine List.Nodup.map_on (fun i hi j hj hij => ?_) List.nodup_range
    rw [List.mem_range] at hi hj
    exact chestAt_pos_injective (by omega) (by omega) hij
  have hslots : ∀ pos ∈ (List.range 1025).map fun i => (chestAt i).pos,
      ContainerManager.new.lastStored ((List.range 1025).map chestAt) pos ≠ [] := by
    intro pos hpos
    obtain ⟨i, hi, rfl⟩ := List.mem_map.1 hpos
    have hstored : ∃ c ∈ (List.range 1025).map chestAt, c.key = some (chestAt i).pos :=
      ⟨chestAt i, List.mem_map_of_mem hi, rfl⟩
    obtain ⟨before, c, after, hsplit, hc, hafter⟩ := LastWrite.exists_last hstored
    obtain ⟨j, -, rfl⟩ := List.mem_map.1 (hsplit ▸ List.mem_append_right before List.mem_cons_self)
    rw [ContainerManager.lastStored, hsplit, LastWrite.puts_last hc hafter]
    exact List.cons_ne_nil _ _
  refine ContainerManager.not_remembers_of_crowded _ ?_ hdistinct ?_ hslots (h _)
  · exact List.ne_nil_of_length_pos (by simp)
  · simp [ContainerManager.maxPersistent]

end Apoptotic.Containers
