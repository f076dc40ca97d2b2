import Apoptotic.Command.PlayerCommands
import Apoptotic.Lib.Text
import Mathlib.Data.Finmap

/-!
# Enchantments

`mc-player/src/enchant.rs` and its writers: the enchanting table and the anvil of
`mc-network/src/play_loop.rs` and `/enchant` of `mc-command/src/commands/advanced.rs`.  An item
carries its enchantments as text, `"sharpness(5) fire_aspect(2)"`, which `parse_item_enchants` reads.

Principal results: `parse_writeEnchants` — what the table and the anvil write is read back;
`readsBack_iff` — a writer agrees with the reader exactly when it is not the command.
-/

namespace Apoptotic.Enchant

open Commands Text

/-! ## The registry -/

structure EnchantmentEntry where
  name : String
  maxLevel : Nat
  category : String
  conflicts : List String
  isTreasure : Bool

/-- `EnchantmentRegistry::init`. -/
def registry : List EnchantmentEntry := [
  ⟨"protection", 4, "armor", ["fire_protection", "blast_protection", "projectile_protection"], false⟩,
  ⟨"fire_protection", 4, "armor", ["protection", "blast_protection", "projectile_protection"], false⟩,
  ⟨"blast_protection", 4, "armor", ["protection", "fire_protection", "projectile_protection"], false⟩,
  ⟨"projectile_protection", 4, "armor", ["protection", "fire_protection", "blast_protection"], false⟩,
  ⟨"thorns", 3, "armor", [], false⟩,
  ⟨"depth_strider", 3, "armor", ["frost_walker"], false⟩,
  ⟨"frost_walker", 2, "armor", ["depth_strider"], true⟩,
  ⟨"respiration", 3, "armor", [], false⟩,
  ⟨"aqua_affinity", 1, "armor", [], false⟩,
  ⟨"sharpness", 5, "weapon", ["smite", "bane_of_arthropods"], false⟩,
  ⟨"smite", 5, "weapon", ["sharpness", "bane_of_arthropods"], false⟩,
  ⟨"bane_of_arthropods", 5, "weapon", ["sharpness", "smite"], false⟩,
  ⟨"fire_aspect", 2, "weapon", [], false⟩,
  ⟨"knockback", 2, "weapon", [], false⟩,
  ⟨"looting", 3, "weapon", [], false⟩,
  ⟨"sweeping_edge", 3, "weapon", [], false⟩,
  ⟨"efficiency", 5, "tool", [], false⟩,
  ⟨"fortune", 3, "tool", ["silk_touch"], false⟩,
  ⟨"silk_touch", 1, "tool", ["fortune"], false⟩,
  ⟨"power", 5, "bow", [], false⟩,
  ⟨"infinity", 1, "bow", [], false⟩,
  ⟨"flame", 1, "bow", [], false⟩,
  ⟨"punch", 2, "bow", [], false⟩,
  ⟨"piercing", 4, "crossbow", ["multishot"], false⟩,
  ⟨"multishot", 1, "crossbow", ["piercing"], false⟩,
  ⟨"quick_charge", 3, "crossbow", [], false⟩,
  ⟨"loyalty", 3, "trident", ["riptide"], false⟩,
  ⟨"riptide", 3, "trident", ["loyalty", "channeling"], false⟩,
  ⟨"channeling", 1, "trident", ["riptide"], false⟩,
  ⟨"impaling", 5, "trident", [], false⟩,
  ⟨"unbreaking", 3, "all", [], false⟩,
  ⟨"mending", 1, "all", [], true⟩,
  ⟨"feather_falling", 4, "armor", [], false⟩,
  ⟨"soul_speed", 3, "armor", [], true⟩,
  ⟨"swift_sneak", 3, "armor", [], true⟩,
  ⟨"luck_of_the_sea", 3, "fishing_rod", [], false⟩,
  ⟨"lure", 3, "fishing_rod", [], false⟩,
  ⟨"wind_burst", 3, "mace", [], true⟩,
  ⟨"density", 5, "mace", [], true⟩,
  ⟨"breach", 4, "mace", [], true⟩,
  ⟨"vanishing_curse", 1, "all", [], true⟩,
  ⟨"binding_curse", 1, "armor", [], true⟩]

def itemCategory (itemId : Nat) : String :=
  if itemId ∈ [785, 786, 787, 788, 789, 792] then "weapon"
  else if 690 ≤ itemId ∧ itemId ≤ 695 then "weapon"
  else if 796 ≤ itemId ∧ itemId ≤ 801 then "tool"
  else if 802 ≤ itemId ∧ itemId ≤ 807 then "tool"
  else if 810 ≤ itemId ∧ itemId ≤ 849 then "armor"
  else if itemId = 773 then "bow"
  else if itemId = 941 then "crossbow"
  else if itemId = 940 then "trident"
  else "all"

/-- An enchantment and its level. -/
abbrev Entry := (_ : String) × Nat

/-- The maps from enchantments to levels. -/
abbrev Enchants := Finmap fun _ : String => Nat

/-- `for _ in 0..count` of `roll_enchantment`; what is chosen so far is in `result`. -/
def rollLoop (candidates : List EnchantmentEntry) (itemId level : Nat) :
    Nat → List Entry → List Entry
  | 0, result => result
  | n + 1, result =>
      let available := candidates.filter fun e =>
        e.name ∉ result.keys ∧ ∀ c ∈ e.conflicts, c ∉ result.keys
      match available[(level * 13 + itemId * 7) % available.length]? with
      | none => result
      | some enchant =>
          rollLoop candidates itemId level n
            (result ++ [⟨enchant.name, min (level % enchant.maxLevel + 1) enchant.maxLevel⟩])

/-- `roll_enchantment`; the table calls it with a positive level. -/
def rollEnchantment (itemId level : Nat) : List Entry :=
  let category := itemCategory itemId
  let candidates := registry.filter fun e =>
    (e.category = category ∨ e.category = "all") ∧ !e.isTreasure
  rollLoop candidates itemId level (1 + min (level / 15) 2) []

/-! ## The reader -/

/-- One word of the text: the entry in it, if any.  None where a slice panics. -/
def readPart (part : List Char) : Option (Option Entry) :=
  match find '(' part with
  | none => some none
  | some opened =>
      match find ')' part with
      | none => some none
      | some closed => do
          let name ← slice? 0 opened part
          let level ← slice? (opened + 1) closed part
          some ((parseNat 255 level).map fun level => ⟨String.ofList name, level⟩)

def insertPart (map : Enchants) (part : List Char) : Option Enchants :=
  (readPart part).map fun
    | some e => map.insert e.1 e.2
    | none => map

/-- The loop of `parse_item_enchants`. -/
def parseText (text : List Char) : Option Enchants :=
  (splitWhitespace text).foldlM insertPart ∅

/-- `parse_item_enchants`; none where it panics. -/
def parseItemEnchants (nbt : Option ByteArray) : Option Enchants :=
  match nbt.bind String.fromUTF8? with
  | some text => parseText text.toList
  | none => some ∅

/-- `enchant_level`. -/
def enchantLevel (nbt : Option ByteArray) (name : String) : Option Nat :=
  (parseItemEnchants nbt).map fun map => (map.lookup name).getD 0

/-! ## The writers -/

/-- `format!("{}({}) ", name, lvl)`. -/
def entryText (e : Entry) : String := e.1 ++ ("(" ++ (toString e.2 ++ ") "))

/-- The loop of the enchanting table and of the anvil. -/
def writeEnchants (entries : List Entry) : ByteArray :=
  entries.foldl (fun nbt e => nbt ++ (entryText e).toUTF8) ByteArray.empty

/-- The order in which a `HashMap` gives out its entries. -/
structure MapOrder where
  entries : Enchants → List Entry
  nodupKeys : ∀ m, (entries m).NodupKeys
  toFinmap : ∀ m, (entries m).toFinmap = m

/-- One enchantment of the right item, and what it adds to the cost. -/
def combineOne (state : Enchants × Nat) (e : Entry) : Enchants × Nat :=
  let (combined, extraCost) := state
  match combined.lookup e.1 with
  | some existing =>
      if existing < e.2 then (combined.insert e.1 e.2, extraCost + e.2)
      else if e.2 = existing ∧ e.2 < 255 then
        (combined.insert e.1 (e.2 + 1), extraCost + (e.2 + 1))
      else (combined, extraCost)
  | none => (combined.insert e.1 e.2, extraCost + e.2)

def combine (left : Enchants) (right : List Entry) : Enchants × Nat :=
  right.foldl combineOne (left, 0)

/-- The result slot of the anvil and its cost.  Enchanted books and other enchanted items are
combined alike, in two copies of the same code. -/
def anvilOutput (rightOrder combinedOrder : MapOrder) (left : ItemStack) (right : Option ItemStack) :
    Option (ItemStack × Nat) := do
  let leftEnchants ← parseItemEnchants left.nbt
  let rightEnchants ← parseItemEnchants (right.bind (·.nbt))
  if right.isSome ∧ rightEnchants ≠ ∅ then
    let (combined, extraCost) := combine leftEnchants (rightOrder.entries rightEnchants)
    some ({ left with nbt := some (writeEnchants (combinedOrder.entries combined)) }, 1 + extraCost)
  else some ({ left with durability := left.durability.map (· * 3 / 4) }, 1)

/-! ## Reading one word -/

theorem readPart_of_not_open {part : List Char} (h : '(' ∉ part) : readPart part = some none := by
  rw [readPart, find_eq_none.2 h]

theorem readPart_of_not_close {part : List Char} (h : ')' ∉ part) : readPart part = some none := by
  unfold readPart
  rw [find_eq_none.2 h]
  cases find '(' part <;> rfl

/-- A word of the form `name(level)rest`. -/
theorem readPart_entry {name level : List Char} (hopen : '(' ∉ name) (hclose : ')' ∉ name)
    (hlevel : ')' ∉ level) (rest : List Char) :
    readPart (name ++ '(' :: (level ++ ')' :: rest)) =
      some ((parseNat 255 level).map fun level => ⟨String.ofList name, level⟩) := by
  have hassoc : name ++ '(' :: (level ++ ')' :: rest) = (name ++ '(' :: level) ++ ')' :: rest := by
    rw [List.append_assoc, List.cons_append]
  have hmem : ')' ∉ name ++ '(' :: level := by
    rw [List.mem_append, List.mem_cons]
    rintro (h | h | h)
    · exact hclose h
    · exact absurd h (by decide)
    · exact hlevel h
  have hfind : find ')' (name ++ '(' :: (level ++ ')' :: rest)) =
      some (name.length + 1 + level.length) := by
    rw [hassoc, find_append hmem, List.length_append, List.length_cons]
    exact congrArg some (by omega)
  have hname : slice? 0 name.length (name ++ '(' :: (level ++ ')' :: rest)) = some name := by
    have h := slice?_append [] name ('(' :: (level ++ ')' :: rest))
    rwa [List.length_nil, Nat.zero_add, List.nil_append] at h
  have hdigits : slice? (name.length + 1) (name.length + 1 + level.length)
      (name ++ '(' :: (level ++ ')' :: rest)) = some level := by
    have h := slice?_append (name ++ ['(']) level (')' :: rest)
    rwa [List.length_append, List.length_singleton, List.append_assoc, List.singleton_append] at h
  unfold readPart
  rw [find_append hopen, hfind]
  simp only [hname, hdigits, Option.bind_eq_bind, Option.bind_some]

/-- The slice panics on a word whose first `)` stands before its first `(`. -/
theorem readPart_backwards {before rest : List Char} (hopen : '(' ∉ before) (hclose : ')' ∈ before) :
    readPart (before ++ '(' :: rest) = none := by
  obtain ⟨a, b, rfl, ha⟩ := exists_of_mem hclose
  have hfind : find ')' (a ++ ')' :: b ++ '(' :: rest) = some a.length := by
    rw [List.append_assoc, List.cons_append, find_append ha]
  have hslice : slice? ((a ++ ')' :: b).length + 1) a.length (a ++ ')' :: b ++ '(' :: rest) = none := by
    unfold slice?
    rw [if_neg]
    rintro ⟨h, -⟩
    rw [List.length_append] at h
    omega
  unfold readPart
  rw [find_append hopen, hfind]
  simp only [hslice, Option.bind_eq_bind, Option.bind_none, Option.bind_fun_none]

/-- The words by what the reader makes of them. -/
theorem part_cases (part : List Char) :
    ('(' ∉ part ∨ ')' ∉ part) ∨
      (∃ before rest, part = before ++ '(' :: rest ∧ '(' ∉ before ∧ ')' ∈ before) ∨
      ∃ name level rest, part = name ++ '(' :: (level ++ ')' :: rest) ∧
        '(' ∉ name ∧ ')' ∉ name ∧ ')' ∉ level := by
  by_cases hopen : '(' ∈ part
  · by_cases hclose : ')' ∈ part
    · obtain ⟨a, b, rfl, ha⟩ := exists_of_mem hopen
      by_cases hback : ')' ∈ a
      · exact .inr (.inl ⟨a, b, rfl, ha, hback⟩)
      · have hb : ')' ∈ b := by
          rcases List.mem_append.1 hclose with h | h
          · exact absurd h hback
          · exact (List.mem_cons.1 h).resolve_left (by decide)
        obtain ⟨level, rest, rfl, hlevel⟩ := exists_of_mem hb
        exact .inr (.inr ⟨a, level, rest, rfl, ha, hback, hlevel⟩)
    · exact .inl (.inr hclose)
  · exact .inl (.inl hopen)

/-! ## Reading a text -/

/-- The entries as they are inserted. -/
def insertAll (m : Enchants) (entries : List Entry) : Enchants :=
  entries.foldl (fun m e => m.insert e.1 e.2) m

/-- Words with entries: these are inserted one after another. -/
theorem parse_words {entries : List Entry} {parts : List (List Char)}
    (h : parts.map readPart = entries.map fun e => some (some e)) (map : Enchants) :
    parts.foldlM insertPart map = some (insertAll map entries) := by
  induction parts generalizing entries map with
  | nil =>
      cases entries with
      | nil => rfl
      | cons e entries => cases h
  | cons part parts ih =>
      cases entries with
      | nil => cases h
      | cons e entries =>
          rw [List.map_cons, List.map_cons, List.cons.injEq] at h
          rw [List.foldlM_cons, insertPart, h.1, Option.map_some]
          exact ih h.2 _

theorem parseText_quiet {parts : List (List Char)} (h : ∀ part ∈ parts, readPart part = some none)
    (map : Enchants) : parts.foldlM insertPart map = some map := by
  induction parts with
  | nil => rfl
  | cons part parts ih =>
      rw [List.foldlM_cons, insertPart, h part (List.mem_cons_self ..), Option.map_some]
      exact ih fun p hp => h p (List.mem_cons_of_mem _ hp)

/-- What is in the map stays in it. -/
theorem mem_of_mem_parse {parts : List (List Char)} {map result : Enchants}
    (h : parts.foldlM insertPart map = some result) {name : String} (hname : name ∈ map) :
    name ∈ result := by
  induction parts generalizing map with
  | nil =>
      cases h
      exact hname
  | cons part parts ih =>
      rw [List.foldlM_cons] at h
      obtain ⟨map', hmap', h⟩ := Option.bind_eq_some_iff.1 h
      refine ih h ?_
      obtain ⟨e, -, rfl⟩ := Option.map_eq_some_iff.1 hmap'
      cases e with
      | none => exact hname
      | some e => exact Finmap.mem_insert.2 (.inr hname)

/-- Nothing is read exactly when no word panics or has an entry. -/
theorem parse_eq_empty_iff {parts : List (List Char)} :
    parts.foldlM insertPart (∅ : Enchants) = some ∅ ↔ ∀ part ∈ parts, readPart part = some none := by
  refine ⟨fun h => ?_, fun h => parseText_quiet h ∅⟩
  induction parts with
  | nil => exact List.forall_mem_nil _
  | cons part parts ih =>
      rw [List.foldlM_cons] at h
      obtain ⟨map, hmap, h⟩ := Option.bind_eq_some_iff.1 h
      obtain ⟨e, he, hinsert⟩ := Option.map_eq_some_iff.1 hmap
      cases e with
      | none =>
          dsimp only at hinsert
          subst hinsert
          exact List.forall_mem_cons.2 ⟨he, ih h⟩
      | some e =>
          dsimp only at hinsert
          subst hinsert
          exact absurd (mem_of_mem_parse h (Finmap.mem_insert.2 (.inl rfl))) Finmap.notMem_empty

theorem fromUTF8?_toUTF8 (s : String) : String.fromUTF8? s.toUTF8 = some s := by
  unfold String.fromUTF8?
  rw [String.toUTF8_eq_toByteArray, dif_pos s.isValidUTF8]
  rfl

theorem parseItemEnchants_text (s : String) :
    parseItemEnchants (some s.toUTF8) = parseText s.toList := by
  rw [parseItemEnchants, Option.bind_some, fromUTF8?_toUTF8]

/-! ## Reading what is written -/

/-- The names that the reader can give back. -/
def Readable (name : String) : Prop :=
  (∀ c ∈ name.toList, isWhitespace c = false) ∧ '(' ∉ name.toList ∧ ')' ∉ name.toList

/-- Characters of plain words. -/
def isPlain (c : Char) : Bool := !isWhitespace c && c != '(' && c != ')'

theorem isPlain_iff {c : Char} : isPlain c = true ↔ isWhitespace c = false ∧ c ≠ '(' ∧ c ≠ ')' := by
  unfold isPlain
  rw [Bool.and_eq_true, Bool.and_eq_true, bne_iff_ne, bne_iff_ne, Bool.not_eq_true', and_assoc]

theorem readable_of_plain {name : String} (h : name.toList.all isPlain = true) : Readable name := by
  rw [List.all_eq_true] at h
  exact ⟨fun c hc => (isPlain_iff.1 (h c hc)).1, fun hc => (isPlain_iff.1 (h _ hc)).2.1 rfl,
    fun hc => (isPlain_iff.1 (h _ hc)).2.2 rfl⟩

theorem plain_registry : (registry.all fun e => e.name.toList.all isPlain) = true := by decide +kernel

theorem readable_of_mem_registry : ∀ e ∈ registry, Readable e.name := by
  have h := plain_registry
  rw [List.all_eq_true] at h
  exact fun e he => readable_of_plain (h e he)

/-- An entry without the space behind it. -/
def entryWord (e : Entry) : List Char := e.1.toList ++ '(' :: (Nat.toDigits 10 e.2 ++ [')'])

theorem toList_entryText (e : Entry) : (entryText e).toList = entryWord e ++ [' '] := by
  unfold entryText entryWord
  rw [String.toList_append, String.toList_append, String.toList_append, Nat.toString_eq_ofList_toDigits,
    String.toList_ofList]
  simp

theorem not_mem_toDigits {c : Char} (h : c.isDigit = false) (n : Nat) : c ∉ Nat.toDigits 10 n :=
  fun hc => Bool.false_ne_true (h.symm.trans (isDigit_of_mem_toDigits hc))

theorem noSpace_entryWord {e : Entry} (h : Readable e.1) :
    ∀ c ∈ entryWord e, isWhitespace c = false := by
  intro c hc
  rcases List.mem_append.1 hc with hc | hc
  · exact h.1 c hc
  · rcases List.mem_cons.1 hc with rfl | hc
    · decide
    · rcases List.mem_append.1 hc with hc | hc
      · exact isWhitespace_of_isDigit (isDigit_of_mem_toDigits hc)
      · rw [List.mem_singleton.1 hc]
        decide

theorem readPart_entryWord {e : Entry} (h : Readable e.1) (hlevel : e.2 ≤ 255) :
    readPart (entryWord e) = some (some e) := by
  unfold entryWord
  rw [readPart_entry h.2.1 h.2.2 (not_mem_toDigits (by decide) _), parseNat_toDigits hlevel,
    Option.map_some, String.ofList_toList]

/-- The words of the text are the entries. -/
theorem splitWhitespace_entries {entries : List Entry} (h : ∀ e ∈ entries, Readable e.1) :
    splitWhitespace (entries.flatMap fun e => (entryText e).toList) = entries.map entryWord := by
  induction entries with
  | nil => rfl
  | cons e entries ih =>
      have hne : entryWord e ≠ [] := by
        unfold entryWord
        simp
      rw [List.flatMap_cons, toList_entryText, List.append_assoc, List.singleton_append,
        splitWhitespace_append (noSpace_entryWord (h e (List.mem_cons_self ..))) hne (by decide),
        ih fun x hx => h x (List.mem_cons_of_mem _ hx), List.map_cons]

theorem writeEnchants_eq (entries : List Entry) :
    writeEnchants entries =
      (String.ofList (entries.flatMap fun e => (entryText e).toList)).toUTF8 := by
  have hloop : ∀ s : String, entries.foldl (fun nbt e => nbt ++ (entryText e).toUTF8) s.toUTF8 =
      (s ++ String.ofList (entries.flatMap fun e => (entryText e).toList)).toUTF8 := by
    induction entries with
    | nil =>
        intro s
        simp
    | cons e entries ih =>
        intro s
        rw [List.foldl_cons, String.toUTF8_eq_toByteArray, String.toUTF8_eq_toByteArray,
          ← String.toByteArray_append, ← String.toUTF8_eq_toByteArray, ih, List.flatMap_cons,
          String.ofList_append, String.ofList_toList, String.append_assoc]
  have h := hloop ""
  rwa [String.empty_append] at h

theorem insertAll_insert {entries : List Entry} {name : String} (h : name ∉ entries.keys)
    (level : Nat) (m : Enchants) :
    insertAll (m.insert name level) entries = (insertAll m entries).insert name level := by
  unfold insertAll
  induction entries generalizing m with
  | nil => rfl
  | cons e entries ih =>
      rw [List.keys_cons, List.mem_cons, not_or] at h
      rw [List.foldl_cons, List.foldl_cons, Finmap.insert_insert_of_ne _ h.1, ih h.2]

/-- Distinct keys, inserted one after another. -/
theorem insertAll_eq_toFinmap {entries : List Entry} (h : entries.NodupKeys) :
    insertAll ∅ entries = entries.toFinmap := by
  induction entries with
  | nil => rfl
  | cons e entries ih =>
      obtain ⟨hkey, hrest⟩ := List.nodupKeys_cons.1 h
      rw [Finmap.toFinmap_cons, ← ih hrest, ← insertAll_insert hkey]
      rfl

/-- **What the enchanting table and the anvil write is read back.** -/
theorem parse_writeEnchants {entries : List Entry} (hkeys : entries.NodupKeys)
    (h : ∀ e ∈ entries, Readable e.1 ∧ e.2 ≤ 255) :
    parseItemEnchants (some (writeEnchants entries)) = some entries.toFinmap := by
  rw [writeEnchants_eq, parseItemEnchants_text, String.toList_ofList, parseText,
    splitWhitespace_entries fun e he => (h e he).1, parse_words ?_ ∅, insertAll_eq_toFinmap hkeys]
  rw [List.map_map]
  exact List.map_congr_left fun e he => readPart_entryWord (h e he).1 (h e he).2

/-! ## The maps that are read -/

/-- The names can be read back, and the levels are bytes. -/
def Proper (m : Enchants) : Prop :=
  ∀ name level, m.lookup name = some level → Readable name ∧ level ≤ 255

theorem proper_empty : Proper ∅ := by
  intro name level h
  rw [Finmap.lookup_empty] at h
  cases h

theorem Proper.insert {m : Enchants} (hm : Proper m) {name : String} {level : Nat}
    (hname : Readable name) (hlevel : level ≤ 255) : Proper (m.insert name level) := by
  intro x l h
  by_cases hx : x = name
  · subst hx
    rw [Finmap.lookup_insert] at h
    cases h
    exact ⟨hname, hlevel⟩
  · rw [Finmap.lookup_insert_of_ne _ hx] at h
    exact hm x l h

/-- The entry of a word. -/
theorem readPart_readable {part : List Char} (hspace : ∀ c ∈ part, isWhitespace c = false)
    {e : Entry} (h : readPart part = some (some e)) : Readable e.1 ∧ e.2 ≤ 255 := by
  rcases part_cases part with hnone | ⟨before, rest, rfl, hopen, hclose⟩ |
    ⟨name, level, rest, rfl, hopen, hclose, hlevel⟩
  · rcases hnone with hopen | hclose
    · rw [readPart_of_not_open hopen] at h
      cases h
    · rw [readPart_of_not_close hclose] at h
      cases h
  · rw [readPart_backwards hopen hclose] at h
    cases h
  · rw [readPart_entry hopen hclose hlevel] at h
    obtain ⟨n, hn, rfl⟩ := Option.map_eq_some_iff.1 (Option.some.inj h)
    refine ⟨?_, parseNat_le hn⟩
    unfold Readable
    dsimp only
    rw [String.toList_ofList]
    exact ⟨fun c hc => hspace c (List.mem_append_left _ hc), hopen, hclose⟩

theorem proper_parseItemEnchants {nbt : Option ByteArray} {m : Enchants}
    (h : parseItemEnchants nbt = some m) : Proper m := by
  unfold parseItemEnchants at h
  split at h
  · rename_i text _
    have hloop : ∀ (parts : List (List Char)) (m₀ : Enchants),
        (∀ part ∈ parts, ∀ c ∈ part, isWhitespace c = false) → Proper m₀ →
        parts.foldlM insertPart m₀ = some m → Proper m := by
      intro parts
      induction parts with
      | nil =>
          intro m₀ _ hm₀ h
          cases h
          exact hm₀
      | cons part parts ih =>
          intro m₀ hspace hm₀ h
          rw [List.foldlM_cons] at h
          obtain ⟨m₁, hm₁, h⟩ := Option.bind_eq_some_iff.1 h
          refine ih m₁ (fun p hp => hspace p (List.mem_cons_of_mem _ hp)) ?_ h
          obtain ⟨e, he, rfl⟩ := Option.map_eq_some_iff.1 hm₁
          cases e with
          | none => exact hm₀
          | some e =>
              obtain ⟨hname, hlevel⟩ := readPart_readable (hspace part (List.mem_cons_self ..)) he
              exact hm₀.insert hname hlevel
    exact hloop _ ∅ (fun part hpart => noSpace_of_mem_words (List.forall_mem_nil _) hpart)
      proper_empty h
  · cases h
    exact proper_empty

theorem lookup_of_mem {entries : List Entry} (hkeys : entries.NodupKeys) {e : Entry}
    (he : e ∈ entries) : entries.toFinmap.lookup e.1 = some e.2 := by
  rw [Finmap.dlookup_list_toFinmap]
  exact List.mem_dlookup hkeys he

theorem MapOrder.parse (order : MapOrder) {m : Enchants} (hm : Proper m) :
    parseItemEnchants (some (writeEnchants (order.entries m))) = some m := by
  rw [parse_writeEnchants (order.nodupKeys m), order.toFinmap]
  intro e he
  have hlookup := lookup_of_mem (order.nodupKeys m) he
  rw [order.toFinmap] at hlookup
  exact hm e.1 e.2 hlookup

/-! ## The anvil -/

/-- The level of the combination. -/
def mergeLevel : Option Nat → Option Nat → Option Nat
  | some existing, some level =>
      if existing < level then some level
      else if level = existing ∧ level < 255 then some (level + 1)
      else some existing
  | none, some level => some level
  | existing, none => existing

theorem lookup_combineOne (state : Enchants × Nat) (e : Entry) (name : String) :
    (combineOne state e).1.lookup name =
      if name = e.1 then mergeLevel (state.1.lookup e.1) (some e.2) else state.1.lookup name := by
  obtain ⟨combined, extraCost⟩ := state
  unfold combineOne mergeLevel
  dsimp only
  by_cases hname : name = e.1
  · subst hname
    rw [if_pos rfl]
    cases hlookup : combined.lookup e.1 with
    | none => exact Finmap.lookup_insert _
    | some existing =>
        dsimp only
        split
        · exact Finmap.lookup_insert _
        · split
          · exact Finmap.lookup_insert _
          · exact hlookup
  · rw [if_neg hname]
    split
    · split
      · exact Finmap.lookup_insert_of_ne _ hname
      · split
        · exact Finmap.lookup_insert_of_ne _ hname
        · rfl
    · exact Finmap.lookup_insert_of_ne _ hname

/-- The combination does not depend on the order of the right item's enchantments. -/
theorem lookup_combine (left : Enchants) {right : List Entry} (hright : right.NodupKeys)
    (name : String) : (combine left right).1.lookup name =
      mergeLevel (left.lookup name) (right.dlookup name) := by
  have hloop : ∀ state : Enchants × Nat, (right.foldl combineOne state).1.lookup name =
      mergeLevel (state.1.lookup name) (right.dlookup name) := by
    induction right with
    | nil =>
        intro state
        rw [List.dlookup_nil]
        cases h : state.1.lookup name <;> exact h
    | cons e right ih =>
        intro state
        obtain ⟨hkey, hrest⟩ := List.nodupKeys_cons.1 hright
        rw [List.foldl_cons, ih hrest, lookup_combineOne]
        by_cases hname : name = e.1
        · subst hname
          rw [if_pos rfl, List.dlookup_eq_none.2 hkey, List.dlookup_cons_eq]
          cases mergeLevel (state.1.lookup e.1) (some e.2) <;> rfl
        · rw [if_neg hname, List.dlookup_cons_ne _ _ hname]
  exact hloop (left, 0)

theorem Proper.combine {left right : Enchants} (hleft : Proper left) (hright : Proper right)
    (order : MapOrder) : Proper (combine left (order.entries right)).1 := by
  intro name level h
  rw [lookup_combine left (order.nodupKeys right), ← Finmap.dlookup_list_toFinmap,
    order.toFinmap] at h
  cases hl : left.lookup name with
  | none =>
      rw [hl] at h
      cases hr : right.lookup name with
      | none => rw [hr] at h; cases h
      | some r =>
          rw [hr] at h
          cases h
          exact hright name _ hr
  | some l =>
      have hl' := hleft name l hl
      rw [hl] at h
      cases hr : right.lookup name with
      | none =>
          rw [hr] at h
          cases h
          exact hl'
      | some r =>
          have hr' := hright name r hr
          rw [hr, mergeLevel] at h
          split at h
          · cases h
            exact hr'
          · split at h
            · cases h
              exact ⟨hl'.1, by omega⟩
            · cases h
              exact hl'

/-- **The result of the anvil is read back as the combination, whatever the two items carried.** -/
theorem parse_anvilOutput (rightOrder combinedOrder : MapOrder) {left right : ItemStack}
    {leftEnchants rightEnchants : Enchants} (hleft : parseItemEnchants left.nbt = some leftEnchants)
    (hright : parseItemEnchants right.nbt = some rightEnchants) (hne : rightEnchants ≠ ∅) :
    ∃ result cost, anvilOutput rightOrder combinedOrder left (some right) = some (result, cost) ∧
      parseItemEnchants result.nbt =
        some (combine leftEnchants (rightOrder.entries rightEnchants)).1 := by
  have hproper := (proper_parseItemEnchants hleft).combine (proper_parseItemEnchants hright) rightOrder
  refine ⟨{ left with nbt := some (writeEnchants (combinedOrder.entries
    (combine leftEnchants (rightOrder.entries rightEnchants)).1)) },
    1 + (combine leftEnchants (rightOrder.entries rightEnchants)).2, ?_,
    combinedOrder.parse hproper⟩
  unfold anvilOutput
  rw [hleft, Option.bind_some, hright]
  simp only [Option.bind_eq_bind, Option.bind_some, Option.isSome_some, ne_eq, hne, not_false_eq_true,
    and_self, if_true]

/-! ## The enchanting table -/

/-- An enchantment of the registry at one of its levels. -/
def Registered (e : Entry) : Prop := ∃ x ∈ registry, x.name = e.1 ∧ 1 ≤ e.2 ∧ e.2 ≤ x.maxLevel

theorem registry_levels : ∀ e ∈ registry, 1 ≤ e.maxLevel ∧ e.maxLevel ≤ 255 := by decide

/-- One round adds an enchantment, or nothing is left to add. -/
theorem rollLoop_succ (candidates : List EnchantmentEntry) (itemId level n : Nat)
    (result : List Entry) :
    (rollLoop candidates itemId level (n + 1) result = result ∧
      ∀ x ∈ candidates, x.name ∈ result.keys ∨ ∃ c ∈ x.conflicts, c ∈ result.keys) ∨
    ∃ x ∈ candidates, x.name ∉ result.keys ∧ (∀ c ∈ x.conflicts, c ∉ result.keys) ∧
      rollLoop candidates itemId level (n + 1) result = rollLoop candidates itemId level n
        (result ++ [⟨x.name, min (level % x.maxLevel + 1) x.maxLevel⟩]) := by
  rw [rollLoop]
  generalize havailable : candidates.filter (fun e =>
    decide (e.name ∉ result.keys ∧ ∀ c ∈ e.conflicts, c ∉ result.keys)) = available
  cases hget : available[(level * 13 + itemId * 7) % available.length]? with
  | none =>
      left
      refine ⟨rfl, fun x hx => ?_⟩
      have hempty : available = [] := by
        rw [List.getElem?_eq_none_iff] at hget
        by_contra hne
        exact Nat.not_lt.2 hget (Nat.mod_lt _ (List.length_pos_iff.2 hne))
      by_contra hout
      push Not at hout
      have hmem : x ∈ available := by
        rw [← havailable, List.mem_filter]
        exact ⟨hx, decide_eq_true hout⟩
      rw [hempty] at hmem
      cases hmem
  | some x =>
      right
      have hmem := List.mem_of_getElem? hget
      rw [← havailable, List.mem_filter] at hmem
      obtain ⟨hnew, hfree⟩ := of_decide_eq_true hmem.2
      exact ⟨x, hmem.1, hnew, hfree, rfl⟩

theorem rollLoop_spec {candidates : List EnchantmentEntry} (hc : ∀ e ∈ candidates, e ∈ registry)
    (itemId level n : Nat) {result : List Entry} (hkeys : result.NodupKeys)
    (hreg : ∀ e ∈ result, Registered e) :
    (rollLoop candidates itemId level n result).NodupKeys ∧
      ∀ e ∈ rollLoop candidates itemId level n result, Registered e := by
  induction n generalizing result with
  | zero => exact ⟨hkeys, hreg⟩
  | succ n ih =>
      rcases rollLoop_succ candidates itemId level n result with
        ⟨hstop, -⟩ | ⟨enchant, hcand, hnew, -, hnext⟩
      · rw [hstop]
        exact ⟨hkeys, hreg⟩
      · have hmax := (registry_levels _ (hc _ hcand)).1
        rw [hnext]
        refine ih ?_ ?_
        · rw [List.NodupKeys, List.keys, List.map_append, List.nodup_append]
          refine ⟨hkeys, List.nodup_singleton _, ?_⟩
          rintro a ha b hb rfl
          rw [List.map_singleton, List.mem_singleton] at hb
          subst hb
          exact hnew ha
        · intro e he
          rcases List.mem_append.1 he with he | he
          · exact hreg e he
          · rw [List.mem_singleton.1 he]
            exact ⟨enchant, hc _ hcand, rfl, Nat.le_min.2 ⟨Nat.le_add_left _ _, hmax⟩,
              Nat.min_le_right _ _⟩

theorem rollEnchantment_spec (itemId level : Nat) :
    (rollEnchantment itemId level).NodupKeys ∧ ∀ e ∈ rollEnchantment itemId level, Registered e :=
  rollLoop_spec (fun _ he => List.mem_of_mem_filter he) itemId level _ List.nodupKeys_nil
    (List.forall_mem_nil _)

/-- What the table rolls is read back from its result slot. -/
theorem parse_rollEnchantment (itemId level : Nat) :
    parseItemEnchants (some (writeEnchants (rollEnchantment itemId level))) =
      some (rollEnchantment itemId level).toFinmap := by
  obtain ⟨hkeys, hreg⟩ := rollEnchantment_spec itemId level
  refine parse_writeEnchants hkeys fun e he => ?_
  obtain ⟨x, hx, hname, -, hlevel⟩ := hreg e he
  exact ⟨hname ▸ readable_of_mem_registry x hx, hlevel.trans (registry_levels x hx).2⟩

/-! ## The three writers -/

/-- The maps from enchantment names to levels from 1 to 255. -/
def Named (m : Enchants) : Prop :=
  ∀ name level, m.lookup name = some level →
    (∃ e ∈ registry, e.name = name) ∧ 1 ≤ level ∧ level ≤ 255

theorem Named.proper {m : Enchants} (h : Named m) : Proper m := by
  intro name level hlookup
  obtain ⟨⟨e, he, rfl⟩, -, hlevel⟩ := h name level hlookup
  exact ⟨readable_of_mem_registry e he, hlevel⟩

inductive Writer where
  | enchantingTable
  | anvil
  | enchantCommand

/-- The writer stores the map as this NBT: the table in the order of its roll, the anvil in the
    order of a `HashMap`, the command only maps with a single entry. -/
def Writer.Stores : Writer → Enchants → Option ByteArray → Prop
  | .enchantingTable, m, nbt =>
      ∃ enchants : List Entry, enchants.NodupKeys ∧ enchants.toFinmap = m ∧
        nbt = some (writeEnchants enchants)
  | .anvil, m, nbt =>
      ∃ (rightOrder combinedOrder : MapOrder) (left right result : ItemStack) (cost : Nat)
        (leftEnchants rightEnchants : Enchants),
        parseItemEnchants left.nbt = some leftEnchants ∧
        parseItemEnchants right.nbt = some rightEnchants ∧ rightEnchants ≠ ∅ ∧
        (combine leftEnchants (rightOrder.entries rightEnchants)).1 = m ∧
        anvilOutput rightOrder combinedOrder left (some right) = some (result, cost) ∧
        nbt = result.nbt
  | .enchantCommand, m, nbt =>
      ∃ name level, m = Finmap.singleton name level ∧ nbt = some (enchantNbt name level)

/-- A map that a writer has stored. -/
structure Storing where
  writer : Writer
  map : Enchants
  named : Named map
  nbt : Option ByteArray
  stored : writer.Stores map nbt

def Storing.ReadsBack (s : Storing) : Prop := parseItemEnchants s.nbt = some s.map

/-- The reader finds no enchantment in what the command writes. -/
theorem parse_enchantNbt {name : String} (hname : Readable name) (level : Nat) :
    parseItemEnchants (some (enchantNbt name level)) = some ∅ := by
  unfold enchantNbt
  rw [parseItemEnchants_text, parseText, parse_eq_empty_iff]
  intro part hpart
  refine readPart_of_not_open fun hopen => ?_
  rcases mem_of_mem_words hpart hopen with h | h
  · cases h
  · rw [String.toList_append, String.toList_append, String.toList_append, String.toList_append,
      List.mem_append, List.mem_append, List.mem_append, List.mem_append] at h
    rcases h with (((h | h) | h) | h) | h
    · exact absurd h (by decide)
    · exact hname.2.1 h
    · exact absurd h (by decide)
    · rw [Nat.toString_eq_ofList_toDigits, String.toList_ofList] at h
      exact not_mem_toDigits (by decide) level h
    · exact absurd h (by decide)

theorem singleton_ne_empty (name : String) (level : Nat) :
    (Finmap.singleton name level : Enchants) ≠ ∅ := by
  intro h
  have hlookup : (Finmap.singleton name level : Enchants).lookup name = some level :=
    Finmap.lookup_singleton_eq
  rw [h, Finmap.lookup_empty] at hlookup
  cases hlookup

/-- **A stored map is read back exactly when the command did not write it.** -/
theorem readsBack_iff (s : Storing) : s.ReadsBack ↔ s.writer ≠ .enchantCommand := by
  obtain ⟨writer, m, hnamed, nbt, hstored⟩ := s
  unfold Storing.ReadsBack
  dsimp only
  cases writer with
  | enchantingTable =>
      obtain ⟨enchants, hkeys, rfl, rfl⟩ := hstored
      refine iff_of_true (parse_writeEnchants hkeys fun e he => ?_) nofun
      exact hnamed.proper e.1 e.2 (lookup_of_mem hkeys he)
  | anvil =>
      obtain ⟨rightOrder, combinedOrder, left, right, result, cost, leftEnchants, rightEnchants,
        hleft, hright, hne, rfl, hresult, rfl⟩ := hstored
      refine iff_of_true ?_ nofun
      obtain ⟨result', cost', hresult', hparse⟩ :=
        parse_anvilOutput rightOrder combinedOrder hleft hright hne
      rw [hresult] at hresult'
      cases hresult'
      exact hparse
  | enchantCommand =>
      obtain ⟨name, level, rfl, rfl⟩ := hstored
      have hname := (hnamed.proper name level Finmap.lookup_singleton_eq).1
      rw [parse_enchantNbt hname]
      exact iff_of_false (fun h => singleton_ne_empty name level (Option.some.inj h).symm)
        fun h => h rfl

/-- `/enchant @s sharpness 5`. -/
def sharpnessCommand : Storing where
  writer := .enchantCommand
  map := Finmap.singleton "sharpness" 5
  named := by
    intro name level h
    have hname : name = "sharpness" := (Finmap.mem_singleton name _ _).1 (Finmap.mem_of_lookup_eq_some h)
    subst hname
    rw [Finmap.lookup_singleton_eq] at h
    cases h
    exact ⟨by decide, by decide, by decide⟩
  nbt := some (enchantNbt "sharpness" 5)
  stored := ⟨"sharpness", 5, rfl, rfl⟩

/-- **What `/enchant` writes is read as no enchantment.** -/
theorem not_forall_readsBack : ¬ ∀ s : Storing, s.ReadsBack := by
  intro h
  have hback := h sharpnessCommand
  unfold Storing.ReadsBack sharpnessCommand at hback
  rw [parse_enchantNbt (readable_of_plain (by decide))] at hback
  exact singleton_ne_empty "sharpness" 5 (Option.some.inj hback).symm

/-! ## Every map can be stored -/

/-- A `HashMap` has some order. -/
theorem nonempty_mapOrder : Nonempty MapOrder := by
  have hkeys : ∀ m : Enchants, m.entries.toList.NodupKeys := by
    intro m
    rw [← Multiset.coe_nodupKeys, Multiset.coe_toList]
    exact m.nodupKeys
  refine ⟨⟨fun m => m.entries.toList, hkeys, fun m => Finmap.ext_lookup fun name => ?_⟩⟩
  have hm : m = AList.toFinmap ⟨m.entries.toList, hkeys m⟩ := Finmap.ext (Multiset.coe_toList _).symm
  rw [Finmap.dlookup_list_toFinmap]
  conv_rhs => rw [hm, Finmap.lookup_toFinmap]
  rfl

/-- A stack of one with this NBT. -/
def plain (nbt : Option ByteArray) : ItemStack := { ItemStack.new (BlockState.new 787) 1 with nbt := nbt }

/-- Each writer can store each map: the anvil needs an enchantment, the command a single one. -/
theorem exists_stores (w : Writer) {m : Enchants} (hnamed : Named m)
    (hanvil : w = .anvil → m ≠ ∅)
    (hcommand : w = .enchantCommand → ∃ name level, m = Finmap.singleton name level) :
    ∃ nbt, w.Stores m nbt := by
  obtain ⟨order⟩ := nonempty_mapOrder
  cases w with
  | enchantingTable => exact ⟨_, order.entries m, order.nodupKeys m, order.toFinmap m, rfl⟩
  | anvil =>
      have hright : parseItemEnchants (some (writeEnchants (order.entries m))) = some m :=
        order.parse hnamed.proper
      have hleft : parseItemEnchants (plain none).nbt = some ∅ := rfl
      have hbook : parseItemEnchants (plain (some (writeEnchants (order.entries m)))).nbt = some m :=
        hright
      obtain ⟨result, cost, hresult, -⟩ := parse_anvilOutput order order hleft hbook (hanvil rfl)
      refine ⟨_, order, order, _, _, result, cost, ∅, m, rfl, hright, hanvil rfl, ?_, hresult, rfl⟩
      refine Finmap.ext_lookup fun name => ?_
      rw [lookup_combine _ (order.nodupKeys m), Finmap.lookup_empty, ← Finmap.dlookup_list_toFinmap,
        order.toFinmap]
      cases m.lookup name <;> rfl
  | enchantCommand =>
      obtain ⟨name, level, hm⟩ := hcommand rfl
      exact ⟨_, name, level, hm, rfl⟩

end Apoptotic.Enchant
