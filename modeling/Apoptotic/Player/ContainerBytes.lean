import Apoptotic.Lib.Outcome
import Apoptotic.Player.Containers
import Apoptotic.Player.SlotBytes

/-!
# Stored containers in bytes

`ContainerManager::serialize_all` and `deserialize_all` of `mc-player/src/container.rs`: the file
`containers.bin`, which `main.rs` reads at every start.  The entries of `persistent` stand in the order
in which its map is iterated.

Principal results: `restores_iff` — the containers that come back as they were;
`deserializeAll_panics_iff` — the files that stop the server.
-/

namespace Apoptotic.Containers

open Commands Bytes Outcome

abbrev Slots := List (Option ItemStack)

abbrev Persistent := AList fun _ : BlockPos => Slots

namespace ContainerManager

/-! ## Writing -/

/-- One iteration of the loop of `serialize_all`. -/
def writeContainer (e : (_ : BlockPos) × Slots) : List Byte :=
  toLe 4 e.1.x.toNat ++ (toLe 4 e.1.y.toNat ++ (toLe 4 e.1.z.toNat ++
    (toLe 2 e.2.length ++ e.2.flatMap writeSlot)))

def serializeAll (m : ContainerManager) : List Byte :=
  2 :: (toLe 4 m.persistent.entries.length ++ m.persistent.entries.flatMap writeContainer)

/-! ## Reading -/

section

variable (data : List Byte) (v2 : Bool)

/-- The NBT and the durability of a slot, and where the reader is after them. -/
def readDetails (id : BitVec 32) (pos : Nat) : Option ByteArray × Option Nat × Nat :=
  if v2 ∧ pos + 4 ≤ data.length then
    let nbtLen := readLe data pos 2
    let (nbt, pos) := readNbt data (pos + 2) nbtLen
    if pos + 2 ≤ data.length then
      (nbt, storedDurability id.toNat (readLe data pos 2), pos + 2)
    else (nbt, none, pos)
  else (none, maxDurability id.toNat, pos)

/-- One iteration of the slot loop; an error is its `break`. -/
def readSlot (pos : Nat) : Outcome Unit (Option ItemStack × Nat) := do
  require (pos < data.length) ()
  let present ← orPanic data[pos]?
  if present = 1 then
    require (pos + 5 ≤ data.length) ()
    let id := BitVec.ofNat 32 (readLe data (pos + 1) 4)
    let count ← orPanic data[pos + 5]?
    let (nbt, durability, pos) := readDetails data v2 id (pos + 6)
    pure (some (loadedStack id count.toNat nbt durability), pos)
  else pure (none, pos + 1)

/-- `for _ in 0..n { .. }`: the slots that are read. -/
def readSlots : (n pos : Nat) → Outcome Unit (Slots × Nat)
  | 0, pos => .ok ([], pos)
  | n + 1, pos =>
      match readSlot data v2 pos with
      | .ok (slot, pos) => do
          let (slots, pos) ← readSlots n pos
          pure (slot :: slots, pos)
      | .err () => .ok ([], pos)
      | .panic => .panic

/-- The position at `pos`. -/
def readPos (pos : Nat) : BlockPos where
  x := BitVec.ofNat 32 (readLe data pos 4)
  y := BitVec.ofNat 32 (readLe data (pos + 4) 4)
  z := BitVec.ofNat 32 (readLe data (pos + 8) 4)

/-- `for _ in 0..count { .. }` -/
def readContainers : (count pos : Nat) → Persistent → Outcome Unit Persistent
  | 0, _, persistent => .ok persistent
  | count + 1, pos, persistent =>
      if data.length < pos + 14 then .ok persistent
      else do
        let (slots, next) ← readSlots data v2 (readLe data (pos + 12) 2) (pos + 14)
        readContainers count next (persistent.insert (readPos data pos) slots)

end

/-- Where the count stands: after the version byte, if there is one. -/
def countPos (data : List Byte) : Nat := if data.head? = some 2 then 1 else 0

def deserializeAll (m : ContainerManager) (data : List Byte) : Outcome Unit ContainerManager :=
  if data.length < 4 then .ok m
  else
    let v2 : Bool := data.head? = some 2
    if v2 ∧ data.length < 5 then .ok m
    else do
      let count := readLe data (countPos data) 4
      let persistent ← readContainers data v2 count (countPos data + 4) m.persistent
      pure { m with persistent := persistent }

/-- **The saved containers load as they were.** -/
def Restores (m : ContainerManager) : Prop :=
  ∃ m', new.deserializeAll m.serializeAll = .ok m' ∧
    ∀ pos, m'.persistent.lookup pos = m.persistent.lookup pos

/-- **The lengths fit their fields, and every record says all there is to say.** -/
structure Storable (m : ContainerManager) : Prop where
  count : m.persistent.entries.length < 2 ^ 32
  slotCount : ∀ e ∈ m.persistent.entries, e.2.length < 2 ^ 16
  kept : ∀ e ∈ m.persistent.entries, ∀ s, some s ∈ e.2 → s.Kept

/-! ## Where slots begin -/

/-- Where a slot that begins at `pos` ends. -/
def slotEnd (data : List Byte) (v2 : Bool) (pos : Nat) : Nat :=
  if data[pos]? = some 1 then
    if v2 ∧ pos + 10 ≤ data.length then
      let nbtEnd := pos + 8 + readLe data (pos + 6) 2
      let next := if nbtEnd ≤ data.length then nbtEnd else pos + 8
      if next + 2 ≤ data.length then next + 2 else next
    else pos + 6
  else pos + 1

/-- Where a container that begins at `pos` ends. -/
def containerEnd (data : List Byte) (v2 : Bool) (pos : Nat) : Nat :=
  (slotEnd data v2)^[readLe data (pos + 12) 2] (pos + 14)

/-- A present slot begins five bytes before the end of the data, at its id. -/
def CutAt (data : List Byte) (pos : Nat) : Prop := data[pos]? = some 1 ∧ pos + 5 = data.length

/-- A slot of one of the `count` containers from `pos` on is cut. -/
def CutFrom (data : List Byte) (v2 : Bool) (count pos : Nat) : Prop :=
  ∃ k < count,
    ∃ j < readLe data ((containerEnd data v2)^[k] pos + 12) 2,
      CutAt data ((slotEnd data v2)^[j] ((containerEnd data v2)^[k] pos + 14))

/-- **The data ends between the id and the count of a slot.** -/
def CutShort (data : List Byte) : Prop :=
  CutFrom data (data.head? = some 2) (readLe data (countPos data) 4) (countPos data + 4)

/-! ## When the reader panics -/

section

variable {data : List Byte} {v2 : Bool} {pos : Nat}

theorem readNbt_end {n : Nat} (h : pos ≤ data.length) :
    (readNbt data pos n).2 = if pos + n ≤ data.length then pos + n else pos := by
  unfold readNbt
  by_cases h0 : n = 0
  · subst h0
    rw [if_neg (fun hn => Nat.lt_irrefl 0 hn.1), Nat.add_zero, if_pos h]
  · by_cases hle : pos + n ≤ data.length
    · rw [if_pos ⟨Nat.pos_of_ne_zero h0, hle⟩, if_pos hle]
    · rw [if_neg fun hn => hle hn.2, if_neg hle]

theorem slotEnd_present (h : data[pos]? = some 1) (id : BitVec 32) :
    slotEnd data v2 pos = (readDetails data v2 id (pos + 6)).2.2 := by
  unfold slotEnd readDetails
  rw [if_pos h]
  by_cases hlen : v2 = true ∧ pos + 10 ≤ data.length
  · have hnbt := readNbt_end (n := readLe data (pos + 6) 2) (show pos + 8 ≤ data.length by omega)
    rw [if_pos hlen, if_pos hlen]
    dsimp only
    rw [← hnbt]
    split
    · rfl
    · rfl
  · rw [if_neg hlen, if_neg hlen]

theorem lt_slotEnd : pos < slotEnd data v2 pos := by
  unfold slotEnd
  grind

theorem le_iterate_slotEnd (j : Nat) : pos ≤ (slotEnd data v2)^[j] pos := by
  induction j with
  | zero => exact Nat.le_refl pos
  | succ j ih =>
      rw [Function.iterate_succ_apply']
      exact Nat.le_trans ih (Nat.le_of_lt lt_slotEnd)

/-- Fewer than five bytes before the end no slot is cut. -/
theorem not_cutAt_iterate (h : data.length < pos + 5) (j : Nat) :
    ¬ CutAt data ((slotEnd data v2)^[j] pos) := by
  intro hcut
  have hle : pos ≤ (slotEnd data v2)^[j] pos := le_iterate_slotEnd j
  have hend := hcut.2
  omega

/-- What one iteration of the slot loop does. -/
theorem readSlot_cases (data : List Byte) (v2 : Bool) (pos : Nat) :
    (∃ slot, readSlot data v2 pos = .ok (slot, slotEnd data v2 pos) ∧ ¬ CutAt data pos) ∨
      (readSlot data v2 pos = .err () ∧ data.length < pos + 5) ∨
      (readSlot data v2 pos = .panic ∧ CutAt data pos) := by
  unfold readSlot
  by_cases hlt : pos < data.length
  · rw [require_pos hlt, List.getElem?_eq_getElem hlt]
    simp only [ok_bind, orPanic_some]
    by_cases h1 : data[pos] = 1
    · have hpresent : data[pos]? = some 1 := by rw [List.getElem?_eq_getElem hlt, h1]
      rw [if_pos h1]
      by_cases h5 : pos + 5 ≤ data.length
      · rw [require_pos h5]
        by_cases hcut : pos + 5 = data.length
        · refine .inr (.inr ⟨?_, hpresent, hcut⟩)
          rw [List.getElem?_eq_none (Nat.le_of_eq hcut.symm)]
          rfl
        · refine .inl ?_
          rw [List.getElem?_eq_getElem (show pos + 5 < data.length by omega),
            slotEnd_present hpresent (BitVec.ofNat 32 (readLe data (pos + 1) 4))]
          exact ⟨_, rfl, fun h => hcut h.2⟩
      · rw [require_neg h5]
        exact .inr (.inl ⟨rfl, by omega⟩)
    · have habsent : data[pos]? ≠ some 1 := by
        rw [List.getElem?_eq_getElem hlt]
        exact fun h => h1 (Option.some.inj h)
      rw [if_neg h1, slotEnd, if_neg habsent]
      exact .inl ⟨none, rfl, fun h => habsent h.1⟩
  · rw [require_neg hlt]
    exact .inr (.inl ⟨rfl, by omega⟩)

/-- What the slot loop does: it comes to the end of the slots, or of the data, or panics. -/
theorem readSlots_cases (data : List Byte) (v2 : Bool) (n pos : Nat) :
    (∃ slots next, readSlots data v2 n pos = .ok (slots, next) ∧
        (∀ j < n, ¬ CutAt data ((slotEnd data v2)^[j] pos)) ∧
        (next = (slotEnd data v2)^[n] pos ∨
          data.length < next + 5 ∧ data.length < (slotEnd data v2)^[n] pos + 5)) ∨
      (readSlots data v2 n pos = .panic ∧
        ∃ j < n, CutAt data ((slotEnd data v2)^[j] pos)) := by
  induction n generalizing pos with
  | zero => exact .inl ⟨[], pos, rfl, fun j hj => absurd hj (Nat.not_lt_zero j), .inl rfl⟩
  | succ n ih =>
      unfold readSlots
      rcases readSlot_cases data v2 pos with ⟨slot, hslot, hcut⟩ | ⟨hslot, hend⟩ | ⟨hslot, hcut⟩
      · rw [hslot]
        dsimp only
        rcases ih (slotEnd data v2 pos) with ⟨slots, next, hslots, hno, hnext⟩ | ⟨hslots, j, hj, hcut'⟩
        · rw [hslots]
          refine .inl ⟨slot :: slots, next, rfl, ?_, hnext⟩
          intro j hj
          cases j with
          | zero => exact hcut
          | succ j => exact hno j (Nat.lt_of_succ_lt_succ hj)
        · rw [hslots]
          exact .inr ⟨rfl, j + 1, Nat.succ_lt_succ hj, hcut'⟩
      · rw [hslot]
        have hle : pos ≤ (slotEnd data v2)^[n + 1] pos := le_iterate_slotEnd (n + 1)
        exact .inl ⟨[], pos, rfl, fun j _ => not_cutAt_iterate hend j, .inr ⟨hend, by omega⟩⟩
      · rw [hslot]
        exact .inr ⟨rfl, 0, Nat.succ_pos n, hcut⟩

theorem le_iterate_containerEnd (k : Nat) : pos ≤ (containerEnd data v2)^[k] pos := by
  induction k with
  | zero => exact Nat.le_refl pos
  | succ k ih =>
      rw [Function.iterate_succ_apply']
      refine Nat.le_trans ih (Nat.le_trans (Nat.le_add_right _ 14) ?_)
      exact le_iterate_slotEnd _

/-- Where no container header fits, nothing more is cut. -/
theorem not_cutFrom_of_lt {count : Nat} (h : data.length < pos + 14) :
    ¬ CutFrom data v2 count pos := by
  rintro ⟨k, -, j, -, hcut⟩
  have hle : pos ≤ (containerEnd data v2)^[k] pos := le_iterate_containerEnd k
  exact not_cutAt_iterate (by omega) j hcut

theorem cutFrom_succ_iff {count : Nat} :
    CutFrom data v2 (count + 1) pos ↔
      (∃ j < readLe data (pos + 12) 2, CutAt data ((slotEnd data v2)^[j] (pos + 14))) ∨
        CutFrom data v2 count (containerEnd data v2 pos) := by
  constructor
  · rintro ⟨k, hk, hcut⟩
    cases k with
    | zero => exact .inl hcut
    | succ k => exact .inr ⟨k, Nat.lt_of_succ_lt_succ hk, hcut⟩
  · rintro (hcut | ⟨k, hk, hcut⟩)
    · exact ⟨0, Nat.succ_pos count, hcut⟩
    · exact ⟨k + 1, Nat.succ_lt_succ hk, hcut⟩

theorem readContainers_short {count : Nat} {m : Persistent} (h : data.length < pos + 14) :
    readContainers data v2 count pos m = .ok m := by
  cases count with
  | zero => rfl
  | succ count => exact if_pos h

theorem readContainers_panics_iff {count : Nat} {m : Persistent} :
    readContainers data v2 count pos m = .panic ↔ CutFrom data v2 count pos := by
  induction count generalizing pos m with
  | zero => exact ⟨nofun, fun ⟨k, hk, _⟩ => absurd hk (Nat.not_lt_zero k)⟩
  | succ count ih =>
      by_cases hshort : data.length < pos + 14
      · rw [readContainers_short hshort]
        exact ⟨nofun, fun h => absurd h (not_cutFrom_of_lt hshort)⟩
      · rw [readContainers, if_neg hshort, cutFrom_succ_iff]
        rcases readSlots_cases data v2 (readLe data (pos + 12) 2) (pos + 14) with
          ⟨slots, next, hslots, hno, hnext⟩ | ⟨hslots, hcut⟩
        · rw [hslots]
          simp only [ok_bind]
          have hnot : ¬ ∃ j < readLe data (pos + 12) 2,
              CutAt data ((slotEnd data v2)^[j] (pos + 14)) := fun ⟨j, hj, h⟩ => hno j hj h
          rw [or_iff_right hnot]
          rcases hnext with rfl | ⟨hnext, hend⟩
          · exact ih
          · rw [readContainers_short (by omega)]
            refine ⟨nofun, fun h => absurd h (not_cutFrom_of_lt ?_)⟩
            unfold containerEnd
            omega
        · rw [hslots]
          exact ⟨fun _ => .inl hcut, fun _ => rfl⟩

/-- **Reading panics exactly when the data ends between the id and the count of a slot.** -/
theorem deserializeAll_panics_iff (m : ContainerManager) (data : List Byte) :
    m.deserializeAll data = .panic ↔ CutShort data := by
  unfold deserializeAll
  by_cases h4 : data.length < 4
  · rw [if_pos h4]
    exact ⟨nofun, fun h => absurd h (not_cutFrom_of_lt (by omega))⟩
  · rw [if_neg h4]
    by_cases h5 : decide (data.head? = some 2) = true ∧ data.length < 5
    · rw [if_pos h5]
      exact ⟨nofun, fun h => absurd h (not_cutFrom_of_lt (by omega))⟩
    · rw [if_neg h5, bind_eq_panic, readContainers_panics_iff]
      exact or_iff_left fun ⟨_, _, h⟩ => nomatch h

end

/-! ## What comes back -/

section

variable {data rest : List Byte} {pos : Nat}

theorem readDetails_at {s : ItemStack} (hf : s.Fits)
    (h : At data pos (toLe 2 s.nbtBytes.length ++ (s.nbtBytes ++
      (toLe 2 (s.durability.getD 0) ++ rest)))) :
    readDetails data true s.item.id pos =
      (if s.nbtBytes = [] then none else some (toVec s.nbtBytes),
        storedDurability s.item.id.toNat (s.durability.getD 0),
        pos + 2 + s.nbtBytes.length + 2) := by
  have hnbt := h.skip (length_toLe ..)
  have hdur := hnbt.skip rfl
  have hend := (hdur.skip (length_toLe ..)).le
  unfold readDetails
  rw [if_pos ⟨rfl, by omega⟩, h.readLe hf.nbt]
  dsimp only
  rw [readNbt_at hnbt, if_pos hend, hdur.readLe hf.stored_lt]

theorem readSlot_some {s : ItemStack} (hf : s.Fits) (h : At data pos (writeSlot (some s) ++ rest)) :
    readSlot data true pos = .ok (some s.reloaded, pos + (writeSlot (some s)).length) := by
  obtain ⟨hpresent, hid, hcount⟩ := record_at h
  have hnbtLen := hcount.skip (length_toLe ..)
  have hle := hnbtLen.le
  have hdetails : readDetails data true s.item.id (pos + 6) = _ := readDetails_at hf hnbtLen
  have hbyte : data[pos + 5]? = some (BitVec.ofNat 8 s.count) := hcount.getElem?
  unfold readSlot
  rw [require_pos (show pos < data.length by omega), hpresent]
  simp only [ok_bind, orPanic_some, if_true]
  rw [require_pos (show pos + 5 ≤ data.length by omega), hbyte, hid]
  simp only [ok_bind, orPanic_some, hdetails, BitVec.toNat_ofNat, Nat.mod_eq_of_lt hf.count, pure_eq]
  rw [length_writeSlot]
  congr 2
  omega

theorem readSlot_at {slot : Option ItemStack} (hf : ∀ s, slot = some s → s.Fits)
    (h : At data pos (writeSlot slot ++ rest)) :
    readSlot data true pos = .ok (slot.map ItemStack.reloaded, pos + (writeSlot slot).length) := by
  cases slot with
  | none =>
      have h' : At data pos (0 :: rest) := h
      unfold readSlot
      rw [require_pos (Nat.lt_of_succ_le h'.tail.le), h'.getElem?]
      rfl
  | some s => exact readSlot_some (hf s rfl) h

theorem readSlots_at {slots : Slots} (hf : ∀ s, some s ∈ slots → s.Fits)
    (h : At data pos (slots.flatMap writeSlot ++ rest)) :
    readSlots data true slots.length pos =
      .ok (slots.map (Option.map ItemStack.reloaded),
        pos + (slots.flatMap writeSlot).length) := by
  induction slots generalizing pos with
  | nil => rfl
  | cons slot slots ih =>
      rw [List.flatMap_cons, List.append_assoc] at h
      have hslots := ih (fun s hs => hf s (List.mem_cons_of_mem _ hs)) (h.skip rfl)
      rw [List.length_cons, readSlots, readSlot_at (fun s hs => hf s (hs ▸ List.mem_cons_self)) h]
      dsimp only
      rw [hslots, List.flatMap_cons, List.length_append, Nat.add_assoc]
      rfl

theorem readPos_at {p : BlockPos} (h : At data pos (toLe 4 p.x.toNat ++ (toLe 4 p.y.toNat ++
    (toLe 4 p.z.toNat ++ rest)))) : readPos data pos = p := by
  have hy := h.skip (length_toLe ..)
  have hz := hy.skip (length_toLe ..)
  unfold readPos
  rw [h.readLe p.x.isLt, hy.readLe p.y.isLt, hz.readLe p.z.isLt]
  simp only [BitVec.ofNat_toNat, BitVec.setWidth_eq]

/-- What is read back of a container. -/
def reloadedSlots (slots : Slots) : Slots := slots.map (Option.map ItemStack.reloaded)

/-- The entries of `l`, read back one after the other. -/
def insertAll (l : List ((_ : BlockPos) × Slots)) (m : Persistent) : Persistent :=
  l.foldl (fun m e => m.insert e.1 (reloadedSlots e.2)) m

theorem readContainers_at {l : List ((_ : BlockPos) × Slots)} {m : Persistent}
    (hlen : ∀ e ∈ l, e.2.length < 2 ^ 16) (hf : ∀ e ∈ l, ∀ s, some s ∈ e.2 → s.Fits)
    (h : At data pos (l.flatMap writeContainer)) :
    readContainers data true l.length pos m = .ok (insertAll l m) := by
  induction l generalizing pos m with
  | nil => rfl
  | cons e l ih =>
      rw [List.flatMap_cons] at h
      unfold writeContainer at h
      simp only [List.append_assoc] at h
      have hn := ((h.skip (length_toLe ..)).skip (length_toLe ..)).skip (length_toLe ..)
      have hslots := hn.skip (length_toLe ..)
      have hread := readSlots_at (hf e List.mem_cons_self) hslots
      have hcount : readLe data (pos + 12) 2 = e.2.length := hn.readLe (hlen e List.mem_cons_self)
      rw [List.length_cons, readContainers, if_neg (Nat.not_lt.2 hslots.le), hcount, hread]
      simp only [ok_bind]
      rw [readPos_at h]
      exact ih (fun e he => hlen e (List.mem_cons_of_mem _ he))
        (fun e he => hf e (List.mem_cons_of_mem _ he)) (hslots.skip rfl)

theorem deserializeAll_serializeAll {m : ContainerManager}
    (hcount : m.persistent.entries.length < 2 ^ 32)
    (hlen : ∀ e ∈ m.persistent.entries, e.2.length < 2 ^ 16)
    (hf : ∀ e ∈ m.persistent.entries, ∀ s, some s ∈ e.2 → s.Fits) :
    new.deserializeAll m.serializeAll =
      .ok { new with persistent := insertAll m.persistent.entries ∅ } := by
  have h1 : At m.serializeAll 1 (toLe 4 m.persistent.entries.length ++
      m.persistent.entries.flatMap writeContainer) := (At.start m.serializeAll).tail
  have h5 := h1.skip (length_toLe ..)
  have hle := h5.le
  unfold deserializeAll
  rw [if_neg (by omega), if_neg (by omega)]
  have hpos : countPos m.serializeAll = 1 := rfl
  rw [hpos, h1.readLe hcount]
  have hv2 : decide (m.serializeAll.head? = some 2) = true := rfl
  rw [hv2]
  dsimp only
  rw [readContainers_at hlen hf h5]
  rfl

end

/-! ## Which containers survive -/

theorem lookup_insertAll {l : List ((_ : BlockPos) × Slots)} (hl : l.NodupKeys) (m : Persistent)
    (pos : BlockPos) :
    (insertAll l m).lookup pos = ((l.dlookup pos).map reloadedSlots).or (m.lookup pos) := by
  induction l generalizing m with
  | nil => rfl
  | cons e l ih =>
      change (insertAll l (m.insert e.1 (reloadedSlots e.2))).lookup pos = _
      rw [ih (List.nodupKeys_of_nodupKeys_cons hl)]
      by_cases hpos : pos = e.1
      · subst hpos
        have hnone : l.dlookup e.1 = none :=
          List.dlookup_eq_none.2 (List.notMem_keys_of_nodupKeys_cons hl)
        rw [hnone, AList.lookup_insert, List.dlookup_cons_eq]
        rfl
      · rw [AList.lookup_insert_ne hpos, List.dlookup_cons_ne _ _ hpos]

/-- Slots whose number and whose stacks fit their fields. -/
structure SlotsFit (slots : Slots) : Prop where
  length : slots.length < 2 ^ 16
  stacks_fit : ∀ s, some s ∈ slots → s.Fits

section

variable {data : List Byte} {v2 : Bool} {pos : Nat}

theorem readDetails_fits {id : BitVec 32} {count : Nat} (hcount : count < 2 ^ 8) :
    (loadedStack id count (readDetails data v2 id pos).1 (readDetails data v2 id pos).2.1).Fits := by
  unfold readDetails
  split
  · have hnbt : ∀ n, (readNbt data (pos + 2) (readLe data pos 2)).1 = some n → n.size < 2 ^ 16 :=
      fun n hn => size_readNbt_lt (readLe_lt ..) hn
    dsimp only
    split
    · exact fits_loadedStack hcount hnbt (storedDurability_lt (readLe_lt ..))
    · exact fits_loadedStack hcount hnbt nofun
  · exact fits_loadedStack hcount nofun fun d hd => (maxDurability_bounds d hd).2

theorem readSlot_fits {s : ItemStack} {next : Nat}
    (h : readSlot data v2 pos = .ok (some s, next)) : s.Fits := by
  unfold readSlot at h
  obtain ⟨_, -, h⟩ := bind_eq_ok.1 h
  obtain ⟨present, -, h⟩ := bind_eq_ok.1 h
  split at h
  · obtain ⟨_, -, h⟩ := bind_eq_ok.1 h
    obtain ⟨count, -, h⟩ := bind_eq_ok.1 h
    cases h
    exact readDetails_fits count.isLt
  · cases h

theorem readSlots_fit {n : Nat} {slots : Slots} {next : Nat}
    (h : readSlots data v2 n pos = .ok (slots, next)) :
    slots.length ≤ n ∧ ∀ s, some s ∈ slots → s.Fits := by
  induction n generalizing pos slots with
  | zero =>
      cases h
      exact ⟨Nat.le_refl 0, nofun⟩
  | succ n ih =>
      unfold readSlots at h
      split at h
      · rename_i slot next' hslot
        obtain ⟨⟨slots', next''⟩, hslots, h⟩ := bind_eq_ok.1 h
        cases h
        obtain ⟨hlen, hfit⟩ := ih hslots
        refine ⟨Nat.succ_le_succ hlen, fun s hs => ?_⟩
        rcases List.mem_cons.1 hs with rfl | hs
        · exact readSlot_fits hslot
        · exact hfit s hs
      · cases h
        exact ⟨Nat.zero_le _, nofun⟩
      · cases h

/-- All the slots that are stored fit their fields. -/
def AllFit (m : Persistent) : Prop := ∀ pos slots, m.lookup pos = some slots → SlotsFit slots

theorem AllFit.insert {m : Persistent} (h : AllFit m) {p : BlockPos} {slots : Slots}
    (hs : SlotsFit slots) : AllFit (m.insert p slots) := by
  intro pos slots' hlookup
  by_cases hpos : pos = p
  · subst hpos
    rw [AList.lookup_insert] at hlookup
    cases hlookup
    exact hs
  · rw [AList.lookup_insert_ne hpos] at hlookup
    exact h pos slots' hlookup

theorem readContainers_fit {count : Nat} {m m' : Persistent} (hm : AllFit m)
    (h : readContainers data v2 count pos m = .ok m') :
    AllFit m' ∧ m'.keys.length ≤ m.keys.length + count := by
  induction count generalizing pos m with
  | zero =>
      cases h
      exact ⟨hm, Nat.le_refl _⟩
  | succ count ih =>
      unfold readContainers at h
      split at h
      · cases h
        exact ⟨hm, Nat.le_add_right ..⟩
      · obtain ⟨⟨slots, next⟩, hslots, h⟩ := bind_eq_ok.1 h
        obtain ⟨hlen, hfit⟩ := readSlots_fit hslots
        have hslotsFit : SlotsFit slots := ⟨Nat.lt_of_le_of_lt hlen (readLe_lt ..), hfit⟩
        obtain ⟨hm', hkeys⟩ := ih (hm.insert hslotsFit) h
        refine ⟨hm', ?_⟩
        have hle : (m.insert (readPos data pos) slots).keys.length ≤ m.keys.length + 1 := by
          rw [AList.keys_insert, List.length_cons]
          exact Nat.succ_le_succ (List.length_erase_le ..)
        omega

theorem deserializeAll_fit {m : ContainerManager} (h : new.deserializeAll data = .ok m) :
    AllFit m.persistent ∧ m.persistent.keys.length < 2 ^ 32 := by
  have hnone : AllFit (∅ : Persistent) := fun pos slots hlookup => nomatch hlookup
  unfold deserializeAll at h
  split at h
  · cases h
    exact ⟨hnone, Nat.two_pow_pos 32⟩
  · dsimp only at h
    split at h
    · cases h
      exact ⟨hnone, Nat.two_pow_pos 32⟩
    · obtain ⟨persistent, hread, h⟩ := bind_eq_ok.1 h
      cases h
      obtain ⟨hfit, hkeys⟩ := readContainers_fit hnone hread
      refine ⟨hfit, Nat.lt_of_le_of_lt hkeys ?_⟩
      have hcount : readLe data (countPos data) 4 < 256 ^ 4 := readLe_lt ..
      rwa [AList.keys_empty, List.length_nil, Nat.zero_add]

end

/-- Entries that come back are in the map. -/
theorem lookup_of_mem {m : ContainerManager} {e : (_ : BlockPos) × Slots}
    (h : e ∈ m.persistent.entries) : m.persistent.lookup e.1 = some e.2 :=
  List.mem_dlookup m.persistent.nodupKeys h

theorem Restores.storable {m : ContainerManager} : m.Restores → m.Storable := by
  rintro ⟨m', hload, hlookup⟩
  obtain ⟨hfit, hkeys⟩ := deserializeAll_fit hload
  have hslots : ∀ e ∈ m.persistent.entries, SlotsFit e.2 :=
    fun e he => hfit e.1 e.2 ((hlookup e.1).trans (lookup_of_mem he))
  have hcount : m.persistent.entries.length < 2 ^ 32 := by
    have hsub : m.persistent.keys ⊆ m'.persistent.keys := by
      intro pos hpos
      rw [← AList.mem_keys, ← AList.lookup_isSome, hlookup, AList.lookup_isSome]
      exact AList.mem_keys.2 hpos
    have hle := (List.subperm_of_subset m.persistent.keys_nodup hsub).length_le
    have hlen : m.persistent.keys.length = m.persistent.entries.length := List.length_map ..
    omega
  have hall := deserializeAll_serializeAll hcount (fun e he => (hslots e he).length)
    fun e he => (hslots e he).stacks_fit
  obtain rfl := Outcome.ok.inj (hall.symm.trans hload)
  refine ⟨hcount, fun e he => (hslots e he).length, fun e he => ?_⟩
  have he' := hlookup e.1
  rw [lookup_of_mem he, lookup_insertAll m.persistent.nodupKeys,
    List.mem_dlookup m.persistent.nodupKeys he] at he'
  exact (list_map_reloaded_eq_self_iff (hslots e he).stacks_fit).1 (Option.some.inj he')

theorem Storable.restores {m : ContainerManager} (h : m.Storable) : m.Restores := by
  have hf : ∀ e ∈ m.persistent.entries, ∀ s, some s ∈ e.2 → s.Fits :=
    fun e he s hs => (h.kept e he s hs).toFits
  refine ⟨_, deserializeAll_serializeAll h.count h.slotCount hf, fun pos => ?_⟩
  dsimp only
  rw [lookup_insertAll m.persistent.nodupKeys, AList.lookup_empty, Option.or_none]
  change (m.persistent.lookup pos).map reloadedSlots = m.persistent.lookup pos
  cases hpos : m.persistent.lookup pos with
  | none => rfl
  | some slots =>
      have hmem : (⟨pos, slots⟩ : (_ : BlockPos) × Slots) ∈ m.persistent.entries :=
        List.of_mem_dlookup hpos
      exact congrArg some ((list_map_reloaded_eq_self_iff (hf _ hmem)).2 (h.kept _ hmem))

/-- **The saved containers load as they were exactly when the lengths fit their fields and every record
    says all there is to say.** -/
theorem restores_iff (m : ContainerManager) : m.Restores ↔ m.Storable :=
  ⟨Restores.storable, Storable.restores⟩

/-- **What is saved loads as it was exactly when it is storable, and exactly the data that is not cut
    short is read without a panic.** -/
theorem containerBytes_iff (m : ContainerManager) (data : List Byte) :
    (m.Restores ↔ m.Storable) ∧ (m.deserializeAll data ≠ .panic ↔ ¬ CutShort data) :=
  ⟨restores_iff m, not_congr (deserializeAll_panics_iff m data)⟩

/-- A chest with a stone that has empty NBT. -/
def emptyNbtChest : ContainerManager :=
  { new with
    persistent := AList.singleton ⟨0, 64, 0⟩
      [some { ItemStack.new (BlockState.new 1) 1 with nbt := some ByteArray.empty }] }

/-- A file with one container of one slot, cut after the id of the slot. -/
def cutFile : List Byte := 2 :: (toLe 4 1 ++ (List.replicate 12 0 ++ (toLe 2 1 ++ 1 :: toLe 4 1)))

/-- **The empty NBT is gone after loading, and the file stops the server.** -/
theorem not_restores_and_panics :
    ¬ (∀ m : ContainerManager, m.Restores) ∧
      ¬ ∀ (m : ContainerManager) (data : List Byte), m.deserializeAll data ≠ .panic := by
  constructor
  · intro h
    have hkept := (h emptyNbtChest).storable.kept _ List.mem_cons_self _ List.mem_cons_self
    exact hkept.nbt_ne rfl rfl
  · intro h
    refine h new cutFile ((deserializeAll_panics_iff new cutFile).2 ?_)
    exact ⟨0, by decide, 0, by decide, by decide, by decide⟩

end ContainerManager

end Apoptotic.Containers
