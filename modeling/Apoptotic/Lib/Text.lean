import Mathlib.Data.List.Basic

/-!
# Text

The string functions of the standard library that the commands use, on lists of characters:
white space, trimming, splitting and reading integers.

Principal definitions: `trim`, `splitWhitespace`, `splitOn`, `splitOnce`, `parseInt`, `find`.

Principal results: `forall_words_append` — what a suffix does to the words; `parseNat_toDigits` — a
number is read back from its digits.
-/

namespace Text

/-- The characters with the Unicode property `White_Space`. -/
def isWhitespace (c : Char) : Bool :=
  let n := c.toNat
  (9 ≤ n && n ≤ 13) || n == 0x20 || n == 0x85 || n == 0xA0 || n == 0x1680 ||
    (0x2000 ≤ n && n ≤ 0x200A) || n == 0x2028 || n == 0x2029 || n == 0x202F || n == 0x205F ||
    n == 0x3000

/-- `str::trim`. -/
def trim (cs : List Char) : List Char :=
  ((cs.dropWhile isWhitespace).reverse.dropWhile isWhitespace).reverse

/-- The words of `cs`, with the word that is being read (backwards) in `word`. -/
def words (word : List Char) : List Char → List (List Char)
  | [] => if word = [] then [] else [word.reverse]
  | c :: cs =>
      if isWhitespace c then
        if word = [] then words [] cs else word.reverse :: words [] cs
      else words (c :: word) cs

theorem words_nil (word : List Char) :
    words word [] = if word = [] then [] else [word.reverse] := rfl

theorem words_cons (word : List Char) (c : Char) (cs : List Char) :
    words word (c :: cs) =
      if isWhitespace c then
        if word = [] then words [] cs else word.reverse :: words [] cs
      else words (c :: word) cs := rfl

/-- `str::split_whitespace`. -/
def splitWhitespace (cs : List Char) : List (List Char) := words [] cs

/-- `str::split(sep)` for one character. -/
def splitOn (sep : Char) (part : List Char) : List Char → List (List Char)
  | [] => [part.reverse]
  | c :: cs => if c = sep then part.reverse :: splitOn sep [] cs else splitOn sep (c :: part) cs

/-- `str::split_once(sep)`. -/
def splitOnce (sep : List Char) (before : List Char) : List Char → Option (List Char × List Char)
  | [] => if sep = [] then some (before.reverse, []) else none
  | c :: cs =>
      if sep.isPrefixOf (c :: cs) then some (before.reverse, (c :: cs).drop sep.length)
      else splitOnce sep (c :: before) cs

/-- The value of a run of decimal digits. -/
def parseDigits (value : Nat) : List Char → Option Nat
  | [] => some value
  | c :: cs => if c.isDigit then parseDigits (10 * value + (c.toNat - 48)) cs else none

/-- `parse` at a signed integer type with values from `lo` to `hi`. -/
def parseInt (lo hi : Int) (cs : List Char) : Option Int :=
  let (negative, digits) := match cs with
    | '-' :: ds => (true, ds)
    | '+' :: ds => (false, ds)
    | ds => (false, ds)
  if digits = [] then none
  else (parseDigits 0 digits).bind fun n =>
    let value : Int := if negative then -n else n
    if lo ≤ value ∧ value ≤ hi then some value else none

/-- `parse` at an unsigned integer type with values up to `hi`. -/
def parseNat (hi : Nat) (cs : List Char) : Option Nat :=
  let digits := match cs with
    | '+' :: ds => ds
    | ds => ds
  if digits = [] then none
  else (parseDigits 0 digits).bind fun n => if n ≤ hi then some n else none

/-- `str::eq_ignore_ascii_case`. -/
def eqIgnoreAsciiCase (a b : String) : Bool :=
  a.toList.map Char.toLower == b.toList.map Char.toLower

/-- `str::find` for one character. -/
def find (c : Char) (cs : List Char) : Option Nat := cs.findIdx? (· == c)

/-- `&s[start..stop]`: none where it panics. -/
def slice? (start stop : Nat) (cs : List Char) : Option (List Char) :=
  if start ≤ stop ∧ stop ≤ cs.length then some ((cs.take stop).drop start) else none

/-! ## Finding and slicing -/

theorem find_eq_none {c : Char} {cs : List Char} : find c cs = none ↔ c ∉ cs := by
  unfold find
  rw [List.findIdx?_eq_none_iff]
  constructor
  · intro h hc
    have hself := h c hc
    rw [beq_self_eq_true] at hself
    cases hself
  · intro h x hx
    exact beq_false_of_ne fun hxc => h (hxc ▸ hx)

/-- The first occurrence ends the part without it. -/
theorem find_append {c : Char} {a : List Char} (ha : c ∉ a) (b : List Char) :
    find c (a ++ c :: b) = some a.length := by
  have hnone : List.findIdx? (· == c) a = none := find_eq_none.2 ha
  unfold find
  rw [List.findIdx?_append, hnone, List.findIdx?_cons, beq_self_eq_true]
  simp

theorem exists_of_mem {c : Char} {cs : List Char} (h : c ∈ cs) :
    ∃ a b, cs = a ++ c :: b ∧ c ∉ a := List.eq_append_cons_of_mem h

theorem slice?_append (a b rest : List Char) :
    slice? a.length (a.length + b.length) (a ++ (b ++ rest)) = some b := by
  unfold slice?
  rw [if_pos ⟨Nat.le_add_right _ _, by simp⟩, ← List.append_assoc,
    ← List.length_append, List.take_left, List.drop_left]

/-! ## Words -/

theorem words_append {w : List Char} (hw : ∀ c ∈ w, isWhitespace c = false)
    (acc cs : List Char) : words acc (w ++ cs) = words (w.reverse ++ acc) cs := by
  induction w generalizing acc with
  | nil => rfl
  | cons c w ih =>
      rw [List.cons_append, words_cons, hw c (List.mem_cons_self ..), if_neg Bool.false_ne_true,
        ih fun d hd => hw d (List.mem_cons_of_mem _ hd), List.reverse_cons, List.append_assoc,
        List.singleton_append]

/-- A word that a space ends is read off. -/
theorem splitWhitespace_append {w : List Char} (hw : ∀ c ∈ w, isWhitespace c = false)
    (hne : w ≠ []) {c : Char} (hc : isWhitespace c = true) (cs : List Char) :
    splitWhitespace (w ++ c :: cs) = w :: splitWhitespace cs := by
  unfold splitWhitespace
  rw [words_append hw, List.append_nil, words_cons, if_pos hc,
    if_neg (fun h => hne (List.reverse_eq_nil_iff.1 h)), List.reverse_reverse]

/-- The characters of the words are characters of the text. -/
theorem mem_of_mem_words {acc cs w : List Char} (hw : w ∈ words acc cs) {c : Char} (hc : c ∈ w) :
    c ∈ acc ∨ c ∈ cs := by
  induction cs generalizing acc with
  | nil =>
      rw [words_nil] at hw
      split at hw
      · cases hw
      · rw [List.mem_singleton] at hw
        rw [hw, List.mem_reverse] at hc
        exact .inl hc
  | cons d cs ih =>
      rw [words_cons] at hw
      split at hw
      · split at hw
        · rcases ih hw with h | h
          · cases h
          · exact .inr (List.mem_cons_of_mem _ h)
        · rcases List.mem_cons.1 hw with rfl | hw
          · exact .inl (List.mem_reverse.1 hc)
          · rcases ih hw with h | h
            · cases h
            · exact .inr (List.mem_cons_of_mem _ h)
      · rcases ih hw with h | h
        · rcases List.mem_cons.1 h with rfl | h
          · exact .inr (List.mem_cons_self ..)
          · exact .inl h
        · exact .inr (List.mem_cons_of_mem _ h)

/-- A word has no white space. -/
theorem noSpace_of_mem_words {acc cs w : List Char} (hacc : ∀ c ∈ acc, isWhitespace c = false)
    (hw : w ∈ words acc cs) : ∀ c ∈ w, isWhitespace c = false := by
  have hrev : ∀ c ∈ acc.reverse, isWhitespace c = false := fun c hc => hacc c (List.mem_reverse.1 hc)
  induction cs generalizing acc with
  | nil =>
      rw [words_nil] at hw
      split at hw
      · cases hw
      · rwa [List.mem_singleton.1 hw]
  | cons d cs ih =>
      rw [words_cons] at hw
      split at hw
      · split at hw
        · exact ih (List.forall_mem_nil _) hw (List.forall_mem_nil _)
        · rcases List.mem_cons.1 hw with rfl | hw
          · exact hrev
          · exact ih (List.forall_mem_nil _) hw (List.forall_mem_nil _)
      · rename_i hd
        have hcons : ∀ c ∈ d :: acc, isWhitespace c = false :=
          List.forall_mem_cons.2 ⟨eq_false_of_ne_true hd, hacc⟩
        exact ih hcons hw fun c hc => hcons c (List.mem_reverse.1 hc)

/-- A property that a suffix without white space does not touch is one of all words of the text
    with the suffix when it is one of all words of the text. -/
theorem forall_words_append {P : List Char → Prop} (h0 : P []) {suffix : List Char}
    (hs : ∀ c ∈ suffix, isWhitespace c = false)
    (hP : ∀ w, P (w ++ suffix) ↔ P w) (acc cs : List Char) :
    (∀ w ∈ words acc (cs ++ suffix), P w) ↔ ∀ w ∈ words acc cs, P w := by
  induction cs generalizing acc with
  | nil =>
      rw [List.nil_append, ← List.append_nil suffix, words_append hs, words_nil, words_nil]
      by_cases hacc : acc = []
      · subst hacc
        rw [List.append_nil, if_pos rfl]
        split
        · rfl
        · rw [List.forall_mem_singleton, List.reverse_reverse]
          exact iff_of_true ((hP []).2 h0) (List.forall_mem_nil _)
      · rw [if_neg hacc, if_neg fun h => hacc (List.append_eq_nil_iff.1 h).2,
          List.forall_mem_singleton, List.forall_mem_singleton, List.reverse_append,
          List.reverse_reverse, hP]
  | cons c cs ih =>
      rw [List.cons_append, words_cons, words_cons]
      split
      · split
        · exact ih []
        · rw [List.forall_mem_cons, List.forall_mem_cons, ih]
      · exact ih _

/-- The same for a prefix. -/
theorem forall_words_of_prefix {P : List Char → Prop} (h0 : P []) {start : List Char}
    (hP : ∀ w, P (start ++ w) ↔ P w)
    (acc cs : List Char) :
    (∀ w ∈ words (acc ++ start.reverse) cs, P w) ↔ ∀ w ∈ words acc cs, P w := by
  have hstart : P start := by
    have h := (hP []).2 h0
    rwa [List.append_nil] at h
  induction cs generalizing acc with
  | nil =>
      rw [words_nil, words_nil]
      by_cases hacc : acc = []
      · subst hacc
        rw [List.nil_append, if_pos rfl]
        split
        · rfl
        · rw [List.forall_mem_singleton, List.reverse_reverse]
          exact iff_of_true hstart (List.forall_mem_nil _)
      · rw [if_neg hacc, if_neg fun h => hacc (List.append_eq_nil_iff.1 h).1,
          List.forall_mem_singleton, List.forall_mem_singleton, List.reverse_append,
          List.reverse_reverse, hP]
  | cons c cs ih =>
      rw [words_cons, words_cons]
      split
      · by_cases hacc : acc = []
        · subst hacc
          rw [List.nil_append, if_pos rfl]
          split
          · rfl
          · rw [List.forall_mem_cons, List.reverse_reverse]
            exact and_iff_right hstart
        · rw [if_neg hacc, if_neg fun h => hacc (List.append_eq_nil_iff.1 h).1,
            List.forall_mem_cons, List.forall_mem_cons, List.reverse_append, List.reverse_reverse,
            hP]
      · exact ih (c :: acc)

/-! ## Decimal numbers -/

theorem parseNat_le {hi n : Nat} {cs : List Char} (h : parseNat hi cs = some n) : n ≤ hi := by
  have hbound : ∀ ds : List Char, (if ds = [] then none
      else (parseDigits 0 ds).bind fun n => if n ≤ hi then some n else none) = some n → n ≤ hi := by
    intro ds h
    split at h
    · cases h
    · obtain ⟨m, -, hm⟩ := Option.bind_eq_some_iff.1 h
      split at hm
      · cases hm
        assumption
      · cases hm
  exact hbound _ h


theorem parseDigits_eq {cs : List Char} (h : ∀ c ∈ cs, c.isDigit) (value : Nat) :
    parseDigits value cs = some (Nat.ofDigitChars 10 cs value) := by
  induction cs generalizing value with
  | nil => rfl
  | cons c cs ih =>
      rw [parseDigits, if_pos (h c (List.mem_cons_self ..)),
        ih fun d hd => h d (List.mem_cons_of_mem _ hd), Nat.ofDigitChars_cons]
      rfl

theorem isDigit_of_mem_toDigits {n : Nat} {c : Char} (h : c ∈ Nat.toDigits 10 n) : c.isDigit :=
  Nat.isDigit_of_mem_toDigits (by decide) (Nat.le_refl 10) h

theorem isWhitespace_of_isDigit {c : Char} (h : c.isDigit) : isWhitespace c = false := by
  have hdigit : 48 ≤ c.toNat ∧ c.toNat ≤ 57 := by
    simpa [Char.isDigit, UInt32.le_iff_toNat_le] using h
  unfold isWhitespace
  simp only [Bool.or_eq_false_iff, Bool.and_eq_false_iff, decide_eq_false_iff_not, beq_eq_false_iff_ne]
  omega

/-- A number is read back from its digits. -/
theorem parseNat_toDigits {n hi : Nat} (h : n ≤ hi) : parseNat hi (Nat.toDigits 10 n) = some n := by
  have hplus : ∀ ds, Nat.toDigits 10 n ≠ '+' :: ds := by
    intro ds hds
    have hdigit := isDigit_of_mem_toDigits (hds ▸ List.mem_cons_self .. : '+' ∈ Nat.toDigits 10 n)
    exact absurd hdigit (by decide)
  have hne : Nat.toDigits 10 n ≠ [] := Nat.toDigits_ne_nil
  have hdigits : (match Nat.toDigits 10 n with
      | '+' :: ds => ds
      | ds => ds) = Nat.toDigits 10 n := by
    split
    · exact absurd ‹_› (hplus _)
    · rfl
  unfold parseNat
  rw [hdigits]
  dsimp only
  rw [if_neg hne, parseDigits_eq fun c => isDigit_of_mem_toDigits, Nat.ofDigitChars_ten_toDigits,
    Option.bind_some, if_pos h]

end Text
