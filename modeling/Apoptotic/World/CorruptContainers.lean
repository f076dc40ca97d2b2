import Apoptotic.World.PalettedCodec

/-!
# Containers out of any bytes

`decode_network` and `decode_binary` of `mc-world/src/paletted.rs` on bytes that nobody vouches for.
Both take the number of packed words and the width of an entry as the bytes say them, so a container
that was decoded may panic at a later `get`; `decode_network` also reserves room for as many words as a
signed length says, and panics when it is negative.

Principal results: `exists_getAt` — a well-formed container panics at no cell; `decodeNetwork_safe_iff`,
`decodeBinary_safe_iff` — the bytes on which each decoder is safe.
-/

namespace Apoptotic

open PackedBits Bytes Outcome Slices

/-! ## The invariant -/

/-- Enough words for the cells of a section, and every index within the palette.  The shifts of
    `read_packed` are for entries narrower than a word. -/
def EntriesFit (paletteLen : Nat) (words : List Word) (bits : Nat) : Prop :=
  bits < 64 ∧ packedWords BLOCKS_PER_SECTION bits ≤ words.length ∧
    ∀ i < BLOCKS_PER_SECTION, ∃ v, readPacked words i bits = some v ∧ v.toNat < paletteLen

/-- **The representation invariant.** -/
def PalettedContainer.WellFormed (c : PalettedContainer) : Prop :=
  match c.mode with
  | .single _ => True
  | .indirect palette data bits => EntriesFit palette.length data bits
  | .direct data => packedWords BLOCKS_PER_SECTION GLOBAL_BITS ≤ data.length

/-- A decoder does not panic, and what it returns is well formed. -/
structure Safe {ε α : Type} (wellFormed : α → Prop) (o : Outcome ε α) : Prop where
  ne_panic : o ≠ .panic
  wellFormed : ∀ a, o = .ok a → wellFormed a

section

variable {ε α : Type} {p : α → Prop}

theorem safe_ok_iff {a : α} : Safe p (.ok a : Outcome ε α) ↔ p a := by
  constructor
  · intro h
    exact h.wellFormed a rfl
  · intro h
    refine ⟨nofun, ?_⟩
    intro a' ha'
    cases ha'
    exact h

theorem safe_err (e : ε) : Safe p (.err e : Outcome ε α) := ⟨nofun, nofun⟩

theorem not_safe_panic : ¬ Safe p (.panic : Outcome ε α) := fun h => h.ne_panic rfl

end

namespace PalettedContainer

/-- **A well-formed container panics at no cell.** -/
theorem exists_getAt {c : PalettedContainer} (h : c.WellFormed) {i : Nat}
    (hi : i < BLOCKS_PER_SECTION) : ∃ b, c.getAt i = some b := by
  obtain ⟨mode⟩ := c
  cases mode with
  | single b => exact ⟨b, rfl⟩
  | indirect palette data bits =>
      obtain ⟨v, hv, hlt⟩ := h.2.2 i hi
      unfold getAt
      dsimp only
      split
      · exact ⟨palette[0], List.getElem?_eq_getElem (Nat.lt_of_le_of_lt (Nat.zero_le _) hlt)⟩
      · rw [hv]
        exact ⟨_, rfl⟩
  | direct data =>
      have hfit : i * GLOBAL_BITS + GLOBAL_BITS ≤ 64 * packedWords BLOCKS_PER_SECTION GLOBAL_BITS :=
        entry_le_packedWords hi
      obtain ⟨v, hv, -⟩ := readPacked_spec data i (show GLOBAL_BITS < 64 by decide)
        (Nat.le_trans hfit (Nat.mul_le_mul_left 64 h))
      unfold getAt
      dsimp only
      rw [hv]
      exact ⟨_, rfl⟩

end PalettedContainer

/-! ## What network bytes declare -/

/-- The varint at `offset`, and where it ends. -/
def varintAt (data : List Byte) (offset : Nat) : Option (BitVec 32 × Nat) :=
  match readVarint (data.drop offset) with
  | .ok (v, n) => some (v, offset + n)
  | _ => none

/-- Where `n` varints from `offset` on end. -/
def varintsEnd (data : List Byte) : (n offset : Nat) → Option Nat
  | 0, offset => some offset
  | n + 1, offset => (varintAt data offset).bind fun r => varintsEnd data n r.2

/-- The `n` big-endian words from `offset` on. -/
def wordsAt (data : List Byte) : (n offset : Nat) → List Word
  | 0, _ => []
  | n + 1, offset => BitVec.ofNat 64 (readBe data offset 8) :: wordsAt data n (offset + 8)

inductive Declared (α : Type) where
  /-- The data ends before what it declares. -/
  | cut
  /-- A length is negative. -/
  | negative
  | whole (a : α)

/-- The words that a length at `offset` declares. -/
def declaredWords (data : List Byte) (offset : Nat) : Declared (List Word) :=
  match varintAt data offset with
  | none => .cut
  | some (n, start) =>
      if n.toInt < 0 then .negative
      else if data.length < start + 8 * n.toNat then .cut
      else .whole (wordsAt data n.toNat start)

/-- The size of the palette and the words. -/
def declared (data : List Byte) : Declared (Nat × List Word) :=
  match varintAt data 1 with
  | none => .cut
  | some (n, offset) =>
      if n.toInt < 0 then .negative
      else
        match varintsEnd data n.toNat offset with
        | none => .cut
        | some offset =>
            match declaredWords data offset with
            | .cut => .cut
            | .negative => .negative
            | .whole words => .whole (n.toNat, words)

/-- The words serve a palette of `n` entries; without a palette they are direct ids, and one entry needs
    no words. -/
def FieldsFit (n : Nat) (words : List Word) (bits : Nat) : Prop :=
  if n = 0 then packedWords BLOCKS_PER_SECTION GLOBAL_BITS ≤ words.length
  else n = 1 ∨ EntriesFit n words bits

/-- **No declared length is negative, and what the bytes hold serves the palette.** -/
def NetworkFits (data : List Byte) : Prop :=
  match declared data with
  | .cut => True
  | .negative => False
  | .whole (n, words) => ∀ bits, data.head? = some bits → FieldsFit n words bits.toNat

/-! ## The network decoder on any bytes -/

section

variable {data : List Byte} {offset : Nat}

theorem readVarintAt_cases (h : offset ≤ data.length) (what : String) :
    (∃ v next, varintAt data offset = some (v, next) ∧ next ≤ data.length ∧
        PalettedContainer.readVarintAt data offset what = .ok (v, next)) ∨
      (varintAt data offset = none ∧
        ∃ e, PalettedContainer.readVarintAt data offset what = .err e) := by
  unfold varintAt PalettedContainer.readVarintAt
  rw [demand_pos h]
  cases hr : readVarint (data.drop offset) with
  | ok r =>
      obtain ⟨v, n⟩ := r
      have hle := (readVarint_le hr).2
      rw [List.length_drop] at hle
      exact .inl ⟨v, offset + n, rfl, by omega, rfl⟩
  | err e => exact .inr ⟨rfl, _, rfl⟩
  | panic => exact absurd hr (readVarint_ne_panic _)

theorem readPaletteNetwork_cases (n : Nat) (h : offset ≤ data.length) :
    (∃ palette next, varintsEnd data n offset = some next ∧ next ≤ data.length ∧
        PalettedContainer.readPaletteNetwork data n offset = .ok (palette, next) ∧
          palette.length = n) ∨
      (varintsEnd data n offset = none ∧
        ∃ e, PalettedContainer.readPaletteNetwork data n offset = .err e) := by
  induction n generalizing offset with
  | zero => exact .inl ⟨[], offset, rfl, h, rfl, rfl⟩
  | succ n ih =>
      unfold varintsEnd PalettedContainer.readPaletteNetwork
      rcases readVarintAt_cases h "read palette entry" with
        ⟨v, next, hv, hnext, hread⟩ | ⟨hv, e, hread⟩
      · rw [hv, hread]
        simp only [Option.bind_some, ok_bind]
        rcases ih hnext with ⟨palette, next', hend, hnext', hpalette, hlen⟩ | ⟨hend, e, hpalette⟩
        · rw [hpalette]
          exact .inl ⟨BlockState.new v :: palette, next', hend, hnext', rfl,
            congrArg Nat.succ hlen⟩
        · rw [hpalette]
          exact .inr ⟨hend, e, rfl⟩
      · rw [hv, hread]
        exact .inr ⟨rfl, e, rfl⟩

theorem readWordsNetwork_whole {n : Nat} (h : offset + 8 * n ≤ data.length) :
    PalettedContainer.readWordsNetwork data n offset = .ok (wordsAt data n offset) := by
  induction n generalizing offset with
  | zero => rfl
  | succ n ih =>
      unfold PalettedContainer.readWordsNetwork
      rw [require_pos (show offset + 8 ≤ data.length by omega)]
      simp only [ok_bind]
      rw [ih (by omega)]
      rfl

theorem readWordsNetwork_cut {n : Nat} (ho : offset ≤ data.length)
    (h : data.length < offset + 8 * n) :
    ∃ e, PalettedContainer.readWordsNetwork data n offset = .err e := by
  induction n generalizing offset with
  | zero => omega
  | succ n ih =>
      unfold PalettedContainer.readWordsNetwork
      by_cases h8 : offset + 8 ≤ data.length
      · rw [require_pos h8]
        simp only [ok_bind]
        obtain ⟨e, he⟩ := ih h8 (by omega)
        rw [he]
        exact ⟨e, rfl⟩
      · rw [require_neg h8]
        exact ⟨_, rfl⟩

/-- Room for as many elements as a signed length says. -/
theorem withCapacity_asUsize (v : BitVec 32) :
    (withCapacity 8 (asUsize v) : Outcome String Unit) =
      if v.toInt < 0 then .panic else .ok () := by
  have hv := asUsize_toInt v
  have hint := BitVec.toInt_lt (x := v)
  have hle := BitVec.le_toInt v
  split at hv
  · rename_i hneg
    rw [if_pos hneg, withCapacity_eq_panic (by omega)]
  · rename_i hpos
    rw [if_neg hpos, withCapacity_of_lt (by omega)]

theorem asUsize_of_nonneg {v : BitVec 32} (h : ¬ v.toInt < 0) : asUsize v = v.toNat := by
  have hint := BitVec.toInt_eq_toNat_cond v
  have hlt := v.isLt
  refine asUsize_of_lt ?_
  split at hint
  · omega
  · omega

theorem readDataNetwork_cases (h : offset ≤ data.length) :
    (declaredWords data offset = .cut ∧
        ∃ e, PalettedContainer.readDataNetwork data offset = .err e) ∨
      (declaredWords data offset = .negative ∧
        PalettedContainer.readDataNetwork data offset = .panic) ∨
      ∃ words, declaredWords data offset = .whole words ∧
        PalettedContainer.readDataNetwork data offset = .ok words := by
  unfold declaredWords PalettedContainer.readDataNetwork
  rcases readVarintAt_cases h "read data len" with ⟨v, next, hv, hnext, hread⟩ | ⟨hv, e, hread⟩
  · rw [hv, hread]
    simp only [ok_bind, withCapacity_asUsize]
    split
    · exact .inr (.inl ⟨rfl, rfl⟩)
    · rename_i hpos
      rw [asUsize_of_nonneg hpos, ok_bind]
      split
      · rename_i hcut
        exact .inl ⟨rfl, readWordsNetwork_cut hnext hcut⟩
      · rename_i hwhole
        exact .inr (.inr ⟨_, rfl, readWordsNetwork_whole (Nat.not_lt.1 hwhole)⟩)
  · rw [hv, hread]
    exact .inl ⟨rfl, e, rfl⟩

end

/-- What `declared` says once the palette is passed. -/
theorem declared_of_palette {data : List Byte} {n : BitVec 32} {offset next : Nat}
    (hn : varintAt data 1 = some (n, offset)) (hpos : ¬ n.toInt < 0)
    (hend : varintsEnd data n.toNat offset = some next) :
    (declaredWords data next = .cut → declared data = .cut) ∧
      (declaredWords data next = .negative → declared data = .negative) ∧
      ∀ words, declaredWords data next = .whole words → declared data = .whole (n.toNat, words) := by
  unfold declared
  rw [hn]
  dsimp only
  rw [if_neg hpos, hend]
  dsimp only
  refine ⟨fun h => by rw [h], fun h => by rw [h], fun words h => by rw [h]⟩

theorem networkFits_of_whole {bits : Byte} {rest : List Byte} {n : Nat} {words : List Word}
    (h : declared (bits :: rest) = .whole (n, words)) :
    NetworkFits (bits :: rest) ↔ FieldsFit n words bits.toNat := by
  unfold NetworkFits
  rw [h]
  exact ⟨fun hf => hf bits rfl, fun hf b hb => by cases hb; exact hf⟩

/-- What a decoder of network bytes does with them. -/
def Agrees (data : List Byte) (o : Outcome String PalettedContainer) : Prop :=
  (declared data = .cut ∧ ∃ e, o = .err e) ∨ (declared data = .negative ∧ o = .panic) ∨
    ∃ n words c, declared data = .whole (n, words) ∧ o = .ok c ∧ (c.WellFormed ↔ NetworkFits data)

section

variable {bits : Byte} {rest : List Byte} {n : BitVec 32} {offset next : Nat}

/-- The words, and the container that they make. -/
theorem agrees_words {make : List Word → Outcome String PalettedContainer}
    (hn : varintAt (bits :: rest) 1 = some (n, offset)) (hpos : ¬ n.toInt < 0)
    (hend : varintsEnd (bits :: rest) n.toNat offset = some next)
    (hnext : next ≤ (bits :: rest).length)
    (hmake : ∀ words, ∃ c, make words = .ok c ∧
      (c.WellFormed ↔ FieldsFit n.toNat words bits.toNat)) :
    Agrees (bits :: rest) (PalettedContainer.readDataNetwork (bits :: rest) next >>= make) := by
  obtain ⟨hcut, hnegative, hwhole⟩ := declared_of_palette hn hpos hend
  rcases readDataNetwork_cases hnext with ⟨hw, e, hread⟩ | ⟨hw, hread⟩ | ⟨words, hw, hread⟩
  · rw [hread]
    exact .inl ⟨hcut hw, e, rfl⟩
  · rw [hread]
    exact .inr (.inl ⟨hnegative hw, rfl⟩)
  · rw [hread, ok_bind]
    obtain ⟨c, hc, hiff⟩ := hmake words
    rw [← networkFits_of_whole (hwhole words hw)] at hiff
    exact .inr (.inr ⟨_, words, c, hwhole words hw, hc, hiff⟩)

/-- The container of a palette that is not empty. -/
theorem exists_container (h0 : ¬ n = 0#32) {palette : List BlockState}
    (hlen : palette.length = n.toNat) (words : List Word) :
    ∃ c, (if n.toNat = 1 then do
          let block ← orPanic palette[0]?
          pure ⟨.single block⟩
        else pure ⟨.indirect palette words bits.toNat⟩ : Outcome String PalettedContainer) = .ok c ∧
      (c.WellFormed ↔ FieldsFit n.toNat words bits.toNat) := by
  have hne : n.toNat ≠ 0 := fun h => h0 (BitVec.eq_of_toNat_eq h)
  unfold FieldsFit
  rw [if_neg hne]
  by_cases h1 : n.toNat = 1
  · rw [if_pos h1, List.getElem?_eq_getElem (by omega)]
    exact ⟨_, rfl, fun _ => .inl h1, fun _ => trivial⟩
  · rw [if_neg h1, or_iff_right h1, ← hlen]
    exact ⟨_, rfl, Iff.rfl⟩

theorem decodeNetwork_agrees (data : List Byte) :
    Agrees data (PalettedContainer.decodeNetwork data) := by
  cases data with
  | nil => exact .inl ⟨rfl, _, rfl⟩
  | cons bits rest =>
      unfold PalettedContainer.decodeNetwork
      rw [require_pos (List.cons_ne_nil bits rest)]
      simp only [ok_bind, List.getElem?_cons_zero, orPanic_some]
      have h1 : 1 ≤ (bits :: rest).length := Nat.succ_le_succ (Nat.zero_le _)
      rcases readVarintAt_cases h1 "read palette len" with
        ⟨n, offset, hn, hoffset, hread⟩ | ⟨hn, e, hread⟩
      · rw [hread]
        simp only [ok_bind]
        by_cases h0 : n = 0#32
        · rw [if_pos h0]
          subst h0
          refine agrees_words hn (by decide) rfl hoffset fun words => ⟨_, rfl, ?_⟩
          exact Iff.rfl
        · rw [if_neg h0, withCapacity_asUsize]
          by_cases hneg : n.toInt < 0
          · rw [if_pos hneg]
            refine .inr (.inl ⟨?_, rfl⟩)
            unfold declared
            rw [hn]
            exact if_pos hneg
          · rw [if_neg hneg, ok_bind, asUsize_of_nonneg hneg]
            rcases readPaletteNetwork_cases n.toNat hoffset with
              ⟨palette, next, hend, hnext, hpalette, hlen⟩ | ⟨hend, e, hpalette⟩
            · rw [hpalette]
              simp only [ok_bind]
              exact agrees_words hn hneg hend hnext fun words => exists_container h0 hlen words
            · rw [hpalette]
              refine .inl ⟨?_, e, rfl⟩
              unfold declared
              rw [hn]
              dsimp only
              rw [if_neg hneg, hend]
      · rw [hread]
        refine .inl ⟨?_, e, rfl⟩
        unfold declared
        rw [hn]

end

theorem decodeNetwork_of_cut {data : List Byte} (h : declared data = .cut) :
    NetworkFits data ∧ ∃ e, PalettedContainer.decodeNetwork data = .err e := by
  rcases decodeNetwork_agrees data with ⟨-, hread⟩ | ⟨hd, -⟩ | ⟨n, words, c, hd, -⟩
  · refine ⟨?_, hread⟩
    unfold NetworkFits
    rw [h]
    trivial
  · cases h.symm.trans hd
  · cases h.symm.trans hd

theorem decodeNetwork_of_negative {data : List Byte} (h : declared data = .negative) :
    ¬ NetworkFits data ∧ PalettedContainer.decodeNetwork data = .panic := by
  rcases decodeNetwork_agrees data with ⟨hd, -⟩ | ⟨-, hread⟩ | ⟨n, words, c, hd, -⟩
  · cases h.symm.trans hd
  · refine ⟨?_, hread⟩
    unfold NetworkFits
    rw [h]
    exact id
  · cases h.symm.trans hd

theorem decodeNetwork_of_whole {data : List Byte} {fields : Nat × List Word}
    (h : declared data = .whole fields) :
    ∃ c, PalettedContainer.decodeNetwork data = .ok c ∧ (c.WellFormed ↔ NetworkFits data) := by
  rcases decodeNetwork_agrees data with ⟨hd, -⟩ | ⟨hd, -⟩ | ⟨n, words, c, -, hread, hiff⟩
  · cases h.symm.trans hd
  · cases h.symm.trans hd
  · exact ⟨c, hread, hiff⟩

/-- **The network decoder is safe exactly on the bytes whose lengths are not negative and whose words
    serve their palette.** -/
theorem decodeNetwork_safe_iff (data : List Byte) :
    Safe PalettedContainer.WellFormed (PalettedContainer.decodeNetwork data) ↔ NetworkFits data := by
  cases hd : declared data with
  | cut =>
      obtain ⟨hfits, e, hread⟩ := decodeNetwork_of_cut hd
      rw [hread]
      exact iff_of_true (safe_err e) hfits
  | negative =>
      obtain ⟨hfits, hread⟩ := decodeNetwork_of_negative hd
      rw [hread]
      exact iff_of_false not_safe_panic hfits
  | whole fields =>
      obtain ⟨c, hread, hiff⟩ := decodeNetwork_of_whole hd
      rw [hread, ← hiff]
      exact safe_ok_iff

/-! ## The binary decoder on any bytes -/

/-- **The words behind a header that is all there serve what the header declares.** -/
structure BinaryFits (data : List Byte) : Prop where
  indirect : data[0]? = some 1 → ∀ bits, data[3 + 4 * readLe data 1 2]? = some bits →
    3 + 4 * readLe data 1 2 + 5 ≤ data.length →
    EntriesFit (readLe data 1 2)
      (PalettedContainer.fastBytesToU64 (readLe data (3 + 4 * readLe data 1 2 + 1) 4)
        (data.drop (3 + 4 * readLe data 1 2 + 5))) bits.toNat
  direct : data[0]? = some 2 → 6 ≤ data.length →
    packedWords BLOCKS_PER_SECTION GLOBAL_BITS ≤
      (PalettedContainer.fastBytesToU64 (readLe data 2 4) (data.drop 6)).length

section

variable {data : List Byte} {pos : Nat}

theorem readPaletteBinary_whole {n : Nat} (h : pos + 4 * n ≤ data.length) :
    ∃ palette, PalettedContainer.readPaletteBinary data n pos = .ok (palette, pos + 4 * n) ∧
      palette.length = n := by
  induction n generalizing pos with
  | zero => exact ⟨[], rfl, rfl⟩
  | succ n ih =>
      obtain ⟨palette, hread, hlen⟩ := ih (show pos + 4 + 4 * n ≤ data.length by omega)
      unfold PalettedContainer.readPaletteBinary
      rw [require_pos (show pos + 4 ≤ data.length by omega)]
      simp only [ok_bind]
      rw [hread]
      refine ⟨BlockState.new (BitVec.ofNat 32 (readLe data pos 4)) :: palette, ?_,
        congrArg Nat.succ hlen⟩
      rw [show pos + 4 * (n + 1) = pos + 4 + 4 * n by omega]
      rfl

theorem readDataBinary_whole (noBits noLen : String) {bits : Byte} (hbits : data[pos]? = some bits)
    (h : pos + 5 ≤ data.length) :
    ∃ next, PalettedContainer.readDataBinary data pos noBits noLen =
      .ok (bits, PalettedContainer.fastBytesToU64 (readLe data (pos + 1) 4) (data.drop (pos + 5)),
        next) := by
  have hlen := readLe_lt data (pos + 1) 4
  unfold PalettedContainer.readDataBinary
  rw [require_pos (show pos < data.length by omega), hbits]
  simp only [ok_bind, orPanic_some]
  rw [require_pos (show pos + 1 + 4 ≤ data.length by omega),
    withCapacity_of_lt (show 8 * readLe data (pos + 1) 4 < 2 ^ 63 by omega)]
  exact ⟨_, rfl⟩

theorem readDataBinary_cut (noBits noLen : String) (h : data.length < pos + 5) :
    ∃ e, PalettedContainer.readDataBinary data pos noBits noLen = .err e := by
  unfold PalettedContainer.readDataBinary
  by_cases hpos : pos < data.length
  · rw [require_pos hpos, List.getElem?_eq_getElem hpos]
    simp only [ok_bind, orPanic_some]
    rw [require_neg (show ¬ pos + 1 + 4 ≤ data.length by omega)]
    exact ⟨_, rfl⟩
  · rw [require_neg hpos]
    exact ⟨_, rfl⟩

/-- The binary decoder refuses the data, or returns a container as good as the data. -/
def BinaryAgrees (data : List Byte) (o : Outcome String (PalettedContainer × Nat)) : Prop :=
  (BinaryFits data ∧ ∃ e, o = .err e) ∨
    ∃ c next, o = .ok (c, next) ∧ (c.WellFormed ↔ BinaryFits data)

theorem binaryFits_of_ne {mode : Byte} (h0 : data[0]? = some mode) (h1 : mode ≠ 1) (h2 : mode ≠ 2) :
    BinaryFits data :=
  ⟨fun h => absurd (Option.some.inj (h0.symm.trans h)) h1,
    fun h => absurd (Option.some.inj (h0.symm.trans h)) h2⟩

theorem decodeBinary_single (h0 : data[0]? = some 0) :
    BinaryAgrees data (PalettedContainer.decodeBinary data) := by
  have hne : data ≠ [] := fun h => by rw [h] at h0; cases h0
  have hfits := binaryFits_of_ne h0 (by decide) (by decide)
  unfold PalettedContainer.decodeBinary
  rw [require_pos hne, h0]
  simp only [ok_bind, orPanic_some]
  by_cases h5 : 1 + 4 ≤ data.length
  · rw [require_pos h5]
    exact .inr ⟨_, _, rfl, fun _ => hfits, fun _ => trivial⟩
  · rw [require_neg h5]
    exact .inl ⟨hfits, _, rfl⟩

theorem decodeBinary_indirect (h0 : data[0]? = some 1) :
    BinaryAgrees data (PalettedContainer.decodeBinary data) := by
  have hne : data ≠ [] := fun h => by rw [h] at h0; cases h0
  have hn := readLe_lt data 1 2
  have hcut : data.length < 3 + 4 * readLe data 1 2 + 5 → BinaryFits data := fun hlt =>
    ⟨fun _ _ _ hle => absurd hle (Nat.not_le.2 hlt),
      fun h => absurd (Option.some.inj (h0.symm.trans h)) (by decide)⟩
  unfold PalettedContainer.decodeBinary
  rw [require_pos hne, h0]
  simp only [ok_bind, orPanic_some, show ¬ (1 : Byte) = 0#8 by decide, if_false]
  by_cases h3 : 1 + 2 ≤ data.length
  · rw [require_pos h3, withCapacity_of_lt (show 8 * readLe data 1 2 < 2 ^ 63 by omega)]
    simp only [ok_bind]
    by_cases hpal : 1 + 2 + 4 * readLe data 1 2 ≤ data.length
    · obtain ⟨palette, hread, hlen⟩ := readPaletteBinary_whole hpal
      rw [hread]
      simp only [ok_bind]
      by_cases hend : 3 + 4 * readLe data 1 2 + 5 ≤ data.length
      · have hlt : 3 + 4 * readLe data 1 2 < data.length := by omega
        obtain ⟨next, hwords⟩ := readDataBinary_whole "truncated bits" "truncated data len"
          (List.getElem?_eq_getElem hlt) hend
        rw [show 1 + 2 + 4 * readLe data 1 2 = 3 + 4 * readLe data 1 2 from rfl, hwords]
        refine .inr ⟨_, _, rfl, fun hw => ⟨fun _ bits hbits _ => ?_, ?_⟩, fun hfits => ?_⟩
        · obtain rfl := Option.some.inj ((List.getElem?_eq_getElem hlt).symm.trans hbits)
          have hw' : EntriesFit palette.length _ _ := hw
          rwa [hlen] at hw'
        · exact fun h => absurd (Option.some.inj (h0.symm.trans h)) (by decide)
        · change EntriesFit palette.length _ _
          rw [hlen]
          exact hfits.indirect h0 _ (List.getElem?_eq_getElem hlt) hend
      · obtain ⟨e, he⟩ := readDataBinary_cut "truncated bits" "truncated data len"
          (show data.length < 1 + 2 + 4 * readLe data 1 2 + 5 by omega)
        rw [he]
        exact .inl ⟨hcut (by omega), e, rfl⟩
    · rw [PalettedContainer.readPaletteBinary_short h3 (by omega)]
      exact .inl ⟨hcut (by omega), _, rfl⟩
  · rw [require_neg h3]
    exact .inl ⟨hcut (by omega), _, rfl⟩

theorem decodeBinary_direct (h0 : data[0]? = some 2) :
    BinaryAgrees data (PalettedContainer.decodeBinary data) := by
  have hne : data ≠ [] := fun h => by rw [h] at h0; cases h0
  have hother : data[0]? ≠ some 1 := fun h => absurd (h0.symm.trans h) (by decide)
  unfold PalettedContainer.decodeBinary
  rw [require_pos hne, h0]
  simp only [ok_bind, orPanic_some, show ¬ (2 : Byte) = 0#8 by decide,
    show ¬ (2 : Byte) = 1#8 by decide, if_false]
  by_cases h6 : 6 ≤ data.length
  · have hlt : 1 < data.length := by omega
    obtain ⟨next, hwords⟩ := readDataBinary_whole "truncated direct bits" "truncated direct data len"
      (List.getElem?_eq_getElem hlt) h6
    rw [hwords]
    refine .inr ⟨_, _, rfl, ?_, ?_⟩
    · exact fun hw => ⟨fun h => absurd h hother, fun _ _ => hw⟩
    · exact fun hfits => hfits.direct h0 h6
  · obtain ⟨e, he⟩ := readDataBinary_cut "truncated direct bits" "truncated direct data len"
      (show data.length < 1 + 5 by omega)
    rw [he]
    exact .inl ⟨⟨fun h => absurd h hother, fun _ h => absurd h h6⟩, e, rfl⟩

theorem decodeBinary_agrees (data : List Byte) :
    BinaryAgrees data (PalettedContainer.decodeBinary data) := by
  cases hd : data with
  | nil => exact .inl ⟨⟨nofun, nofun⟩, _, rfl⟩
  | cons mode rest =>
      rw [← hd]
      have h0 : data[0]? = some mode := by rw [hd]; rfl
      by_cases hm0 : mode = 0#8
      · exact decodeBinary_single (h0.trans (congrArg some hm0))
      · by_cases hm1 : mode = 1#8
        · exact decodeBinary_indirect (h0.trans (congrArg some hm1))
        · by_cases hm2 : mode = 2#8
          · exact decodeBinary_direct (h0.trans (congrArg some hm2))
          · have hne : data ≠ [] := fun h => by rw [h] at h0; cases h0
            unfold PalettedContainer.decodeBinary
            rw [require_pos hne, h0]
            simp only [ok_bind, orPanic_some]
            rw [if_neg hm0, if_neg hm1, if_neg hm2]
            exact .inl ⟨binaryFits_of_ne h0 hm1 hm2, _, rfl⟩

end

/-- **The binary decoder is safe exactly on the bytes whose words serve their header.** -/
theorem decodeBinary_safe_iff (data : List Byte) :
    Safe (fun r => r.1.WellFormed) (PalettedContainer.decodeBinary data) ↔ BinaryFits data := by
  rcases decodeBinary_agrees data with ⟨hfits, e, h⟩ | ⟨c, next, h, hiff⟩
  · rw [h]
    exact iff_of_true (safe_err e) hfits
  · rw [h, ← hiff]
    exact safe_ok_iff

end Apoptotic
