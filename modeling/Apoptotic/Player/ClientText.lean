import Apoptotic.Player.Enchant
import Apoptotic.Protocol.Packets

/-!
# Text from clients on items

`set_held_item_name` and `update_item_nbt_at_slot` of `mc-player/src/player.rs`, with the handlers
of the RenameItem and EditBook packets in `mc-network/src/c2s_handlers.rs`.  A name and the text of
a book take the place of the NBT in which `parse_item_enchants` looks for enchantments.

Principal result: `unforged_iff` — the text of a client neither forges an enchantment nor crashes
the reader exactly when each of its words is quiet.
-/

namespace Apoptotic.Enchant

open Commands Text Bytes

/-! ## The two packets -/

/-- `String::from_utf8_lossy`. -/
structure LossyUtf8 where
  decode : List Byte → String
  valid : ∀ bytes s, fromUtf8 bytes = .ok s → decode bytes = s

/-- `read_varint_enum(&payload).unwrap_or((0, 0))`. -/
def readVarintOrZero (payload : List Byte) : BitVec 32 × Nat :=
  match readVarintEnum payload with
  | .ok r => r
  | _ => (0#32, 0)

/-- The name that `handle_rename_item` stores. -/
def renameItemName (lossy : LossyUtf8) (payload : List Byte) : Option String :=
  let (nameLen, off) := readVarintOrZero payload
  if 0 < nameLen.toInt ∧ nameLen.toInt < 64 ∧ off + nameLen.toNat ≤ payload.length then
    some (lossy.decode ((payload.drop off).take nameLen.toNat))
  else none

/-- The slot and the text that `handle_edit_book` stores. -/
def editBookText (lossy : LossyUtf8) (payload : List Byte) : Int × String :=
  let (slot, off) := readVarintOrZero payload
  (slot.toInt, lossy.decode (payload.drop off))

/-- `set_held_item_name`. -/
def setHeldItemName (inv : Inventory) (name : String) : Inventory :=
  inv.setHeldNbt (some ("display:\x7b\"Name\":\"" ++ name ++ "\"\x7d").toUTF8)

/-- `update_item_nbt_at_slot`. -/
def updateItemNbtAtSlot (inv : Inventory) (slot : Int) (text : String) : Inventory :=
  if 0 ≤ slot ∧ slot < 36 then
    { inv with items := inv.items.mapIdx fun i item =>
        if i = slot.toNat then item.map fun stack => { stack with nbt := some ("pages:" ++ text).toUTF8 }
        else item }
  else inv

/-! ## Every text can be sent -/

/-- The bytes of a text. -/
def utf8Bytes (s : String) : List Byte := s.toUTF8.data.toList.map UInt8.toBitVec

theorem length_utf8Bytes (s : String) : (utf8Bytes s).length = s.utf8ByteSize := by
  unfold utf8Bytes
  rw [List.length_map, Array.length_toList]
  rfl

theorem fromUtf8_utf8Bytes (s : String) : fromUtf8 (utf8Bytes s) = .ok s := by
  have hbytes : ((utf8Bytes s).map UInt8.ofBitVec).toByteArray = s.toUTF8 := by
    unfold utf8Bytes
    rw [List.map_map]
    ext1
    rw [List.data_toByteArray]
    simp [Function.comp_def]
  unfold fromUtf8
  rw [hbytes, fromUTF8?_toUTF8]

theorem readVarintOrZero_writeVarint (v : BitVec 32) (rest : List Byte) :
    readVarintOrZero (writeVarint v ++ rest) = (v, (writeVarint v).length) := by
  unfold readVarintOrZero readVarintEnum
  rw [readVarint_writeVarint, Outcome.mapErr_ok]

/-- A name of 1 to 63 bytes is what some packet sends. -/
theorem exists_renameItemName (lossy : LossyUtf8) {name : String} (hpos : 0 < name.utf8ByteSize)
    (hlt : name.utf8ByteSize < 64) : ∃ payload, renameItemName lossy payload = some name := by
  have hnat : (BitVec.ofNat 32 name.utf8ByteSize).toNat = name.utf8ByteSize := by
    rw [BitVec.toNat_ofNat]
    omega
  have hint : (BitVec.ofNat 32 name.utf8ByteSize).toInt = name.utf8ByteSize := by
    rw [BitVec.toInt_eq_toNat_of_lt (by omega), hnat]
  refine ⟨writeVarint (BitVec.ofNat 32 name.utf8ByteSize) ++ utf8Bytes name, ?_⟩
  unfold renameItemName
  rw [readVarintOrZero_writeVarint]
  dsimp only
  rw [hint, hnat, List.length_append, length_utf8Bytes, if_pos (by omega), List.drop_left,
    List.take_of_length_le (by rw [length_utf8Bytes]), lossy.valid _ _ (fromUtf8_utf8Bytes name)]

/-- Every text for every slot is what some packet sends. -/
theorem exists_editBookText (lossy : LossyUtf8) (slot : BitVec 32) (text : String) :
    ∃ payload, editBookText lossy payload = (slot.toInt, text) := by
  refine ⟨writeVarint slot ++ utf8Bytes text, ?_⟩
  unfold editBookText
  rw [readVarintOrZero_writeVarint]
  dsimp only
  rw [List.drop_left, lossy.valid _ _ (fromUtf8_utf8Bytes text)]

/-! ## What is stored on an item -/

/-- A text that a client chose. -/
inductive ClientText where
  | renameItem (name : String)
  | editBook (text : String)

/-- The text itself. -/
def ClientText.text : ClientText → String
  | .renameItem name => name
  | .editBook text => text

/-- The characters stored in front of it and behind it. -/
def ClientText.frame : ClientText → String × String
  | .renameItem _ => ("display:\x7b\"Name\":\"", "\"\x7d")
  | .editBook _ => ("pages:", "")

/-- The item with the text stored on it. -/
def ClientText.store (t : ClientText) (s : ItemStack) : ItemStack :=
  { s with nbt := some (t.frame.1 ++ t.text ++ t.frame.2).toUTF8 }

theorem items_setHeldItemName (inv : Inventory) (name : String) (i : Fin 36) :
    (setHeldItemName inv name).items[i] =
      if i.val = inv.selectedSlot then inv.items[i].map (ClientText.renameItem name).store
      else inv.items[i] := by
  unfold setHeldItemName Inventory.setHeldNbt
  rw [Fin.getElem_fin, Vector.getElem_mapIdx]
  rfl

theorem items_updateItemNbtAtSlot (inv : Inventory) (slot : Int) (text : String) (i : Fin 36) :
    (updateItemNbtAtSlot inv slot text).items[i] =
      if (i.val : Int) = slot then inv.items[i].map (ClientText.editBook text).store
      else inv.items[i] := by
  have hi := i.isLt
  unfold updateItemNbtAtSlot
  by_cases hslot : 0 ≤ slot ∧ slot < 36
  · rw [if_pos hslot, Fin.getElem_fin, Vector.getElem_mapIdx]
    by_cases heq : (i.val : Int) = slot
    · have hstore : (fun stack : ItemStack => { stack with nbt := some ("pages:" ++ text).toUTF8 }) =
          (ClientText.editBook text).store := by
        funext stack
        unfold ClientText.store ClientText.frame ClientText.text
        dsimp only
        rw [String.append_empty]
      rw [if_pos heq, if_pos (by omega), hstore]
      rfl
    · rw [if_neg heq, if_neg (by omega)]
      rfl
  · rw [if_neg hslot, if_neg (by omega)]

/-! ## Quiet words -/

/-- The reader finds nothing in the word and does not fail on it: a parenthesis is missing, or what
    stands between the first `(` and the first `)` behind it is not a number of type `u8`. -/
def QuietWord (w : List Char) : Prop :=
  '(' ∉ w ∨ ')' ∉ w ∨
    ∃ name level rest, w = name ++ '(' :: (level ++ ')' :: rest) ∧
      '(' ∉ name ∧ ')' ∉ name ∧ ')' ∉ level ∧ parseNat 255 level = none

def Quiet (text : String) : Prop := ∀ w ∈ splitWhitespace text.toList, QuietWord w

theorem readPart_eq_none_iff (w : List Char) : readPart w = some none ↔ QuietWord w := by
  unfold QuietWord
  constructor
  · intro h
    rcases part_cases w with hmiss | ⟨before, rest, rfl, hopen, hclose⟩ |
      ⟨name, level, rest, rfl, hopen, hclose, hlevel⟩
    · exact hmiss.imp_right .inl
    · rw [readPart_backwards hopen hclose] at h
      cases h
    · rw [readPart_entry hopen hclose hlevel, Option.some.injEq, Option.map_eq_none_iff] at h
      exact .inr (.inr ⟨name, level, rest, rfl, hopen, hclose, hlevel, h⟩)
  · rintro (hopen | hclose | ⟨name, level, rest, rfl, hopen, hclose, hlevel, hnone⟩)
    · exact readPart_of_not_open hopen
    · exact readPart_of_not_close hclose
    · rw [readPart_entry hopen hclose hlevel, hnone, Option.map_none]

/-- Characters in front that are no parentheses. -/
theorem readPart_start {start : List Char} (hopen : '(' ∉ start) (hclose : ')' ∉ start)
    (w : List Char) : readPart (start ++ w) = some none ↔ readPart w = some none := by
  have hnot : ∀ {c}, c ∉ start → ∀ {cs}, c ∉ cs → c ∉ start ++ cs := fun h _ h' hc =>
    (List.mem_append.1 hc).elim h h'
  rcases part_cases w with hmiss | ⟨before, rest, rfl, hopen', hclose'⟩ |
    ⟨name, level, rest, rfl, hopen', hclose', hlevel⟩
  · rcases hmiss with h | h
    · rw [readPart_of_not_open h, readPart_of_not_open (hnot hopen h)]
    · rw [readPart_of_not_close h, readPart_of_not_close (hnot hclose h)]
  · rw [← List.append_assoc, readPart_backwards hopen' hclose',
      readPart_backwards (hnot hopen hopen') (List.mem_append_right _ hclose')]
  · rw [← List.append_assoc, readPart_entry hopen' hclose' hlevel,
      readPart_entry (hnot hopen hopen') (hnot hclose hclose') hlevel, Option.some.injEq,
      Option.some.injEq, Option.map_eq_none_iff, Option.map_eq_none_iff]

/-- Characters behind that are no parentheses. -/
theorem readPart_tail {tail : List Char} (hopen : '(' ∉ tail) (hclose : ')' ∉ tail)
    (w : List Char) : readPart (w ++ tail) = some none ↔ readPart w = some none := by
  have hnot : ∀ {c}, c ∉ tail → ∀ {cs}, c ∉ cs → c ∉ cs ++ tail := fun h _ h' hc =>
    (List.mem_append.1 hc).elim h' h
  rcases part_cases w with hmiss | ⟨before, rest, rfl, hopen', hclose'⟩ |
    ⟨name, level, rest, rfl, hopen', hclose', hlevel⟩
  · rcases hmiss with h | h
    · rw [readPart_of_not_open h, readPart_of_not_open (hnot hopen h)]
    · rw [readPart_of_not_close h, readPart_of_not_close (hnot hclose h)]
  · rw [List.append_assoc, List.cons_append, readPart_backwards hopen' hclose',
      readPart_backwards hopen' hclose']
  · rw [List.append_assoc, List.cons_append, List.append_assoc, List.cons_append,
      readPart_entry hopen' hclose' hlevel, readPart_entry hopen' hclose' hlevel]

/-- What is stored around the text. -/
theorem frame_plain (t : ClientText) :
    (∀ c ∈ t.frame.1.toList, isWhitespace c = false ∧ c ≠ '(' ∧ c ≠ ')') ∧
      ∀ c ∈ t.frame.2.toList, isWhitespace c = false ∧ c ≠ '(' ∧ c ≠ ')' := by
  have hplain : t.frame.1.toList.all isPlain = true ∧ t.frame.2.toList.all isPlain = true := by
    cases t with
    | renameItem name =>
        have hstart : "display:\x7b\"Name\":\"".toList.all isPlain = true := by decide
        have htail : "\"\x7d".toList.all isPlain = true := by decide
        exact ⟨hstart, htail⟩
    | editBook text =>
        have hstart : "pages:".toList.all isPlain = true := by decide
        have htail : "".toList.all isPlain = true := by decide
        exact ⟨hstart, htail⟩
  rw [List.all_eq_true, List.all_eq_true] at hplain
  exact ⟨fun c hc => isPlain_iff.1 (hplain.1 c hc), fun c hc => isPlain_iff.1 (hplain.2 c hc)⟩

/-- Nothing is read from a stored text exactly when the text is quiet. -/
theorem parse_store_iff (t : ClientText) (s : ItemStack) :
    parseItemEnchants (t.store s).nbt = some ∅ ↔ Quiet t.text := by
  obtain ⟨hstart, htail⟩ := frame_plain t
  have hempty : readPart [] = some none := rfl
  have hwords : (∀ w ∈ splitWhitespace (t.frame.1 ++ t.text ++ t.frame.2).toList,
      readPart w = some none) ↔ ∀ w ∈ splitWhitespace t.text.toList, readPart w = some none := by
    unfold splitWhitespace
    rw [String.toList_append, String.toList_append,
      forall_words_append hempty (fun c hc => (htail c hc).1)
        (readPart_tail (fun h => (htail _ h).2.1 rfl) fun h => (htail _ h).2.2 rfl),
      words_append fun c hc => (hstart c hc).1, List.append_nil]
    exact forall_words_of_prefix hempty
      (readPart_start (fun h => (hstart _ h).2.1 rfl) fun h => (hstart _ h).2.2 rfl) [] _
  unfold ClientText.store Quiet
  dsimp only
  rw [parseItemEnchants_text, parseText, parse_eq_empty_iff, hwords]
  exact forall₂_congr fun w _ => readPart_eq_none_iff w

/-! ## Forging -/

/-- The reader returns on the item with the text, and what it finds was on the item before. -/
def Unforged (t : ClientText) (s : ItemStack) : Prop :=
  ∃ after, parseItemEnchants (t.store s).nbt = some after ∧
    ∀ before, parseItemEnchants s.nbt = some before →
      ∀ name level, after.lookup name = some level → before.lookup name = some level

/-- Neither text forges or crashes anything on any item, and the item is enchanted alike under
    both. -/
def Interchangeable (t t' : ClientText) : Prop :=
  ∀ s : ItemStack, Unforged t s ∧ Unforged t' s ∧
    parseItemEnchants (t.store s).nbt = parseItemEnchants (t'.store s).nbt

theorem unforged_of_quiet {t : ClientText} (h : Quiet t.text) (s : ItemStack) : Unforged t s := by
  refine ⟨∅, (parse_store_iff t s).2 h, fun before _ name level hlookup => ?_⟩
  rw [Finmap.lookup_empty] at hlookup
  cases hlookup

/-- On an item without NBT nothing may be found. -/
theorem quiet_of_unforged {t : ClientText} (h : Unforged t (plain none)) : Quiet t.text := by
  obtain ⟨after, hafter, hsub⟩ := h
  have hempty : after = ∅ := by
    refine Finmap.ext_lookup fun name => ?_
    rw [Finmap.lookup_empty]
    cases hlookup : after.lookup name with
    | none => rfl
    | some level =>
        have hbefore := hsub ∅ rfl name level hlookup
        rw [Finmap.lookup_empty] at hbefore
        cases hbefore
  subst hempty
  exact (parse_store_iff t _).1 hafter

/-- **Two texts are interchangeable on every item exactly when all their words are quiet.** -/
theorem unforged_iff (t t' : ClientText) : Interchangeable t t' ↔ Quiet t.text ∧ Quiet t'.text := by
  constructor
  · intro h
    obtain ⟨ht, ht', -⟩ := h (plain none)
    exact ⟨quiet_of_unforged ht, quiet_of_unforged ht'⟩
  · rintro ⟨ht, ht'⟩ s
    refine ⟨unforged_of_quiet ht s, unforged_of_quiet ht' s, ?_⟩
    rw [(parse_store_iff t s).2 ht, (parse_store_iff t' s).2 ht']

/-- **The name `x)(` makes the reader panic.** -/
theorem not_forall_interchangeable : ¬ ∀ t t' : ClientText, Interchangeable t t' := by
  intro h
  obtain ⟨⟨after, hafter, -⟩, -⟩ := h (.renameItem "x)(") (.renameItem "x)(") (plain none)
  have hpanic : parseItemEnchants ((ClientText.renameItem "x)(").store (plain none)).nbt = none := by
    unfold ClientText.store
    rw [parseItemEnchants_text]
    decide
  rw [hpanic] at hafter
  cases hafter

end Apoptotic.Enchant
