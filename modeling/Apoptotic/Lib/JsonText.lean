import Mathlib.Data.List.Basic

/-!
# JSON texts

The grammar of JSON as relations: a production relates what it denotes to the characters it starts at
and to those it leaves.  A lone surrogate denotes no character, so a string with one is not a text.

Principal results: `literal_plain_iff` — a string between two quotes is the literal of that string exactly
when it has no quote, no backslash and no control character; `literal_escaped_iff` — with quotes and
backslashes escaped, exactly when it has no control character.
-/

namespace JsonText

inductive Json where
  | null
  | bool (b : Bool)
  | num (text : List Char)
  | str (s : List Char)
  | arr (elements : List Json)
  | obj (members : List (List Char × Json))

/-! ## Strings -/

/-- A character that stands for itself in a literal. -/
structure Plain (c : Char) : Prop where
  quote : c ≠ '"'
  backslash : c ≠ '\\'
  control : 0x20 ≤ c.toNat

/-- The escapes of one character. -/
def escapes : List (Char × Char) :=
  [('"', '"'), ('\\', '\\'), ('/', '/'), ('b', Char.ofNat 8), ('f', Char.ofNat 12), ('n', '\n'),
    ('r', '\r'), ('t', '\t')]

def hexDigit (c : Char) : Option Nat :=
  if '0' ≤ c ∧ c ≤ '9' then some (c.toNat - '0'.toNat)
  else if 'a' ≤ c ∧ c ≤ 'f' then some (c.toNat - 'a'.toNat + 10)
  else if 'A' ≤ c ∧ c ≤ 'F' then some (c.toNat - 'A'.toNat + 10)
  else none

/-- The code unit of `u` and four digits. -/
inductive CodeUnit : Nat → List Char → Prop where
  | mk {a b c d : Char} {w x y z : Nat} (ha : hexDigit a = some w) (hb : hexDigit b = some x)
      (hc : hexDigit c = some y) (hd : hexDigit d = some z) :
      CodeUnit (((w * 16 + x) * 16 + y) * 16 + z) ['u', a, b, c, d]

/-- What stands behind a backslash. -/
inductive Escape : Char → List Char → Prop where
  | simple {c e : Char} (h : (e, c) ∈ escapes) : Escape c [e]
  | unit {n : Nat} {u : List Char} (h : CodeUnit n u) (hn : n.isValidChar) : Escape (Char.ofNat n) u
  | pair {m n : Nat} {u v : List Char} (hu : CodeUnit m u) (hv : CodeUnit n v)
      (hm : 0xD800 ≤ m ∧ m < 0xDC00) (hn : 0xDC00 ≤ n ∧ n < 0xE000) :
      Escape (Char.ofNat (0x10000 + (m - 0xD800) * 0x400 + (n - 0xDC00))) (u ++ '\\' :: v)

/-- The characters between the quotes of a literal. -/
inductive Body : List Char → List Char → Prop where
  | nil : Body [] []
  | plain {c : Char} {s cs : List Char} (hc : Plain c) (h : Body s cs) : Body (c :: s) (c :: cs)
  | escape {c : Char} {s cs e : List Char} (he : Escape c e) (h : Body s cs) :
      Body (c :: s) ('\\' :: (e ++ cs))

inductive Literal : List Char → List Char → List Char → Prop where
  | mk {s body rest : List Char} (h : Body s body) : Literal s ('"' :: (body ++ '"' :: rest)) rest

/-! ## Values -/

inductive Space : List Char → List Char → Prop where
  | nil {cs : List Char} : Space cs cs
  | cons {c : Char} {cs rest : List Char} (hc : c ∈ [' ', '\t', '\n', '\r']) (h : Space cs rest) :
      Space (c :: cs) rest

def Digits (cs : List Char) : Prop := cs ≠ [] ∧ ∀ c ∈ cs, c.isDigit

inductive Number : List Char → Prop where
  | mk {sign int frac exp : List Char} (hsign : sign ∈ [[], ['-']])
      (hint : Digits int) (hzero : int.head? = some '0' → int = ['0'])
      (hfrac : frac = [] ∨ ∃ ds, Digits ds ∧ frac = '.' :: ds)
      (hexp : exp = [] ∨ ∃ e s ds, e ∈ ['e', 'E'] ∧ s ∈ [[], ['+'], ['-']] ∧ Digits ds ∧
        exp = e :: (s ++ ds)) : Number (sign ++ int ++ frac ++ exp)

mutual

inductive Value : Json → List Char → List Char → Prop where
  | null {rest : List Char} : Value .null ("null".toList ++ rest) rest
  | true {rest : List Char} : Value (.bool true) ("true".toList ++ rest) rest
  | false {rest : List Char} : Value (.bool false) ("false".toList ++ rest) rest
  | num {text rest : List Char} (h : Number text) : Value (.num text) (text ++ rest) rest
  | str {s cs rest : List Char} (h : Literal s cs rest) : Value (.str s) cs rest
  | emptyArr {cs rest : List Char} (h : Space cs (']' :: rest)) : Value (.arr []) ('[' :: cs) rest
  | arr {js : List Json} {cs rest : List Char} (h : Elements js cs rest) :
      Value (.arr js) ('[' :: cs) rest
  | emptyObj {cs rest : List Char} (h : Space cs ('\x7d' :: rest)) :
      Value (.obj []) ('\x7b' :: cs) rest
  | obj {ms : List (List Char × Json)} {cs rest : List Char} (h : Members ms cs rest) :
      Value (.obj ms) ('\x7b' :: cs) rest

/-- One element or more, and the bracket behind them. -/
inductive Elements : List Json → List Char → List Char → Prop where
  | last {j : Json} {cs a b rest : List Char} (h₁ : Space cs a) (h₂ : Value j a b)
      (h₃ : Space b (']' :: rest)) : Elements [j] cs rest
  | cons {j : Json} {js : List Json} {cs a b d rest : List Char} (h₁ : Space cs a)
      (h₂ : Value j a b) (h₃ : Space b (',' :: d)) (h : Elements js d rest) :
      Elements (j :: js) cs rest

/-- One member or more, and the brace behind them. -/
inductive Members : List (List Char × Json) → List Char → List Char → Prop where
  | last {k : List Char} {j : Json} {cs a b d e f rest : List Char} (h₁ : Space cs a)
      (h₂ : Literal k a b) (h₃ : Space b (':' :: d)) (h₄ : Space d e) (h₅ : Value j e f)
      (h₆ : Space f ('\x7d' :: rest)) : Members [(k, j)] cs rest
  | cons {k : List Char} {j : Json} {ms : List (List Char × Json)} {cs a b d e f g rest : List Char}
      (h₁ : Space cs a) (h₂ : Literal k a b) (h₃ : Space b (':' :: d)) (h₄ : Space d e)
      (h₅ : Value j e f) (h₆ : Space f (',' :: g)) (h : Members ms g rest) :
      Members ((k, j) :: ms) cs rest

end

/-- The text denotes the value. -/
def Denotes (j : Json) (cs : List Char) : Prop :=
  ∃ a b, Space cs a ∧ Value j a b ∧ Space b []

/-! ## Where a literal ends -/

variable {c : Char} {s t body rest rest' cs e : List Char}

theorem ne_quote_of_hexDigit {n : Nat} (h : hexDigit c = some n) : c ≠ '"' := by
  rintro rfl
  cases (show hexDigit '"' = none from rfl).symm.trans h

theorem CodeUnit.ne_quote {n : Nat} {u : List Char} (h : CodeUnit n u) : '"' ∉ u := by
  obtain ⟨ha, hb, hc, hd⟩ := h
  intro hmem
  simp only [List.mem_cons, List.not_mem_nil, or_false] at hmem
  rcases hmem with h | h | h | h | h
  · cases h
  · exact ne_quote_of_hexDigit ha h.symm
  · exact ne_quote_of_hexDigit hb h.symm
  · exact ne_quote_of_hexDigit hc h.symm
  · exact ne_quote_of_hexDigit hd h.symm

/-- A quote in an escape is the whole escape, and what it denotes. -/
theorem Escape.quote (h : Escape c e) (hq : '"' ∈ e) : e = ['"'] ∧ c = '"' := by
  cases h with
  | simple h =>
      obtain rfl := List.mem_singleton.1 hq
      refine ⟨rfl, ?_⟩
      simp [escapes] at h
      exact h
  | unit h hn => exact absurd hq h.ne_quote
  | pair hu hv hm hn =>
      rcases List.mem_append.1 hq with hq | hq
      · exact absurd hq hu.ne_quote
      · rcases List.mem_cons.1 hq with hq | hq
        · cases hq
        · exact absurd hq hv.ne_quote

theorem Escape.ne_nil (h : Escape c e) : e ≠ [] := by
  cases h with
  | simple h => exact List.cons_ne_nil _ _
  | unit h hn =>
      cases h
      exact List.cons_ne_nil _ _
  | pair hu hv hm hn =>
      cases hu
      exact List.cons_ne_nil _ _

theorem Body.length_le (h : Body s body) : s.length ≤ body.length := by
  induction h with
  | nil => exact Nat.le_refl 0
  | plain hc h ih => exact Nat.succ_le_succ ih
  | escape he h ih =>
      rw [List.length_cons, List.length_cons, List.length_append]
      omega

/-- A literal without an escape is the string itself. -/
theorem Body.eq_of_length (h : Body s body) (hlen : s.length = body.length) :
    body = s ∧ ∀ c ∈ s, Plain c := by
  induction h with
  | nil => exact ⟨rfl, nofun⟩
  | plain hc h ih =>
      obtain ⟨rfl, hs⟩ := ih (Nat.succ.inj hlen)
      exact ⟨rfl, List.forall_mem_cons.2 ⟨hc, hs⟩⟩
  | escape he h ih =>
      have hle := h.length_le
      have hpos := List.length_pos_of_ne_nil he.ne_nil
      rw [List.length_cons, List.length_cons, List.length_append] at hlen
      omega

/-- Each quote between the quotes of a literal is escaped, so the string has one before it. -/
theorem Body.exists_lt_of_quote (h : Body s body) {i : Nat} (hi : body[i]? = some '"') :
    ∃ j < i, s[j]? = some '"' := by
  induction h generalizing i with
  | nil => cases hi
  | plain hc h ih =>
      cases i with
      | zero => exact absurd (Option.some.inj hi) hc.quote
      | succ i =>
          obtain ⟨j, hj, hs⟩ := ih hi
          exact ⟨j + 1, Nat.succ_lt_succ hj, hs⟩
  | @escape c s cs e he h ih =>
      cases i with
      | zero => cases Option.some.inj hi
      | succ i =>
          rw [List.getElem?_cons_succ] at hi
          by_cases hlt : i < e.length
          · rw [List.getElem?_append_left hlt] at hi
            exact ⟨0, Nat.succ_pos i, congrArg some (he.quote (List.mem_of_getElem? hi)).2⟩
          · rw [List.getElem?_append_right (Nat.le_of_not_lt hlt)] at hi
            obtain ⟨j, hj, hs⟩ := ih hi
            exact ⟨j + 1, by omega, hs⟩

/-- A literal does not begin with the string it denotes and a quote. -/
theorem Body.ne_append_quote (h : Body s body) : body ≠ s ++ '"' :: t := by
  rintro rfl
  have hnone : ∀ i ≤ s.length, (s ++ '"' :: t)[i]? ≠ some '"' := by
    intro i
    induction i using Nat.strongRecOn with
    | _ i ih =>
      intro hle hi
      obtain ⟨j, hj, hs⟩ := h.exists_lt_of_quote hi
      refine ih j hj (by omega) ?_
      rw [List.getElem?_append_left (by omega), hs]
  refine hnone s.length (Nat.le_refl _) ?_
  rw [List.getElem?_append_right (Nat.le_refl _), Nat.sub_self]
  rfl

theorem body_of_plain (h : ∀ c ∈ s, Plain c) : Body s s := by
  induction s with
  | nil => exact .nil
  | cons c s ih =>
      obtain ⟨hc, hs⟩ := List.forall_mem_cons.1 h
      exact .plain hc (ih hs)

/-- **A string between quotes is the literal of that string exactly when each of its characters stands
for itself.** -/
theorem literal_plain_iff :
    Literal s ('"' :: (s ++ '"' :: rest)) rest' ↔ (∀ c ∈ s, Plain c) ∧ rest' = rest := by
  constructor
  · intro h
    generalize hcs : '"' :: (s ++ '"' :: rest) = cs at h
    obtain ⟨hbody⟩ := h
    have heq := (List.cons.inj hcs).2
    rcases List.append_eq_append_iff.1 heq with ⟨x, rfl, hx⟩ | ⟨x, rfl, hx⟩
    · cases x with
      | nil =>
          rw [List.append_nil] at hbody
          exact ⟨(hbody.eq_of_length rfl).2, (List.cons.inj hx).2.symm⟩
      | cons q x =>
          cases (List.cons.inj hx).1
          exact absurd rfl hbody.ne_append_quote
    · have hlen := hbody.length_le
      rw [List.length_append] at hlen
      have hnil : x = [] := List.length_eq_zero_iff.1 (by omega)
      subst hnil
      rw [List.append_nil] at hbody
      exact ⟨by simpa using (hbody.eq_of_length rfl).2, (List.cons.inj hx).2⟩
  · rintro ⟨hs, rfl⟩
    exact .mk (body_of_plain hs)

/-! ## Escaped strings -/

/-- Quotes and backslashes behind a backslash. -/
def escapeQuotes (s : List Char) : List Char :=
  s.flatMap fun c => if c = '\\' then ['\\', '\\'] else if c = '"' then ['\\', '"'] else [c]

/-- An escape of a quote or a backslash denotes it. -/
theorem Escape.of_head (h : Escape c e) {q : Char} (hq : q = '"' ∨ q = '\\') (he : e.head? = some q) :
    e = [q] ∧ c = q := by
  cases h with
  | simple h =>
      cases he
      refine ⟨rfl, ?_⟩
      rcases hq with rfl | rfl
      · simp [escapes] at h
        exact h
      · simp [escapes] at h
        exact h
  | unit h hn =>
      cases h
      cases he
      rcases hq with hq | hq
      · cases hq
      · cases hq
  | pair hu hv hm hn =>
      cases hu
      cases he
      rcases hq with hq | hq
      · cases hq
      · cases hq

theorem Body.plain_inv (hc : c ≠ '\\') (h : Body t (c :: cs)) :
    Plain c ∧ ∃ t', t = c :: t' ∧ Body t' cs := by
  cases h with
  | plain hplain h => exact ⟨hplain, _, rfl, h⟩
  | escape he h => exact absurd rfl hc

theorem Body.ne_backslash (h : Body t body) : body ≠ ['\\'] := by
  intro hbody
  cases h with
  | nil => cases hbody
  | plain hplain h =>
      cases hbody
      exact hplain.backslash rfl
  | escape he h => exact he.ne_nil (List.append_eq_nil_iff.1 (List.cons.inj hbody).2).1

/-- What the two characters of an escape denote. -/
theorem Body.escape_inv {q : Char} (hq : q = '"' ∨ q = '\\') (h : Body t ('\\' :: q :: cs)) :
    ∃ t', t = q :: t' ∧ Body t' cs := by
  generalize hbody : '\\' :: q :: cs = body at h
  cases h with
  | nil => cases hbody
  | plain hplain h =>
      cases hbody
      exact absurd rfl hplain.backslash
  | @escape c' s cs' e he h =>
      have heq : q :: cs = e ++ cs' := (List.cons.inj hbody).2
      have hhead : e.head? = some q := by
        cases e with
        | nil => exact absurd rfl he.ne_nil
        | cons x e => exact congrArg some (List.cons.inj heq).1.symm
      obtain ⟨rfl, rfl⟩ := he.of_head hq hhead
      obtain rfl := (List.cons.inj heq).2
      exact ⟨s, rfl, h⟩

theorem escapeQuotes_cons (c : Char) (s : List Char) :
    escapeQuotes (c :: s) = (if c = '\\' then ['\\', '\\'] else if c = '"' then ['\\', '"'] else [c]) ++
      escapeQuotes s := List.flatMap_cons ..

theorem body_escapeQuotes (h : ∀ c ∈ s, 0x20 ≤ c.toNat) : Body s (escapeQuotes s) := by
  induction s with
  | nil => exact .nil
  | cons c s ih =>
      obtain ⟨hc, hs⟩ := List.forall_mem_cons.1 h
      rw [escapeQuotes_cons]
      split
      · next heq =>
          subst heq
          exact .escape (e := ['\\']) (.simple (by decide)) (ih hs)
      · next hslash =>
          split
          · next heq =>
              subst heq
              exact .escape (e := ['"']) (.simple (by decide)) (ih hs)
          · next hquote => exact .plain ⟨hquote, hslash, hc⟩ (ih hs)

/-- The literal of an escaped string ends where the escaped string does. -/
theorem body_escapeQuotes_inv (h : Body t body)
    (heq : body ++ '"' :: rest' = escapeQuotes s ++ '"' :: rest) :
    t = s ∧ (∀ c ∈ s, 0x20 ≤ c.toNat) ∧ rest' = rest := by
  induction s generalizing t body with
  | nil =>
      cases body with
      | nil =>
          cases h
          exact ⟨rfl, nofun, (List.cons.inj heq).2⟩
      | cons c body =>
          cases (List.cons.inj heq).1
          exact absurd rfl (h.plain_inv (by decide)).1.quote
  | cons c s ih =>
      rw [escapeQuotes_cons] at heq
      have hescape : ∀ q, (q = '"' ∨ q = '\\') →
          body ++ '"' :: rest' = '\\' :: q :: (escapeQuotes s ++ '"' :: rest) →
            t = q :: s ∧ (∀ c ∈ q :: s, 0x20 ≤ c.toNat) ∧ rest' = rest := by
        intro q hq heq
        cases body with
        | nil => cases (List.cons.inj heq).1
        | cons x body =>
            obtain ⟨rfl, htail⟩ := List.cons.inj heq
            cases body with
            | nil => exact absurd rfl h.ne_backslash
            | cons y body =>
                obtain ⟨rfl, hrest⟩ := List.cons.inj htail
                obtain ⟨t', rfl, h'⟩ := h.escape_inv hq
                obtain ⟨rfl, hs, hr⟩ := ih h' hrest
                refine ⟨rfl, List.forall_mem_cons.2 ⟨?_, hs⟩, hr⟩
                rcases hq with rfl | rfl <;> decide
      split at heq
      · next hc =>
          subst hc
          exact hescape _ (.inr rfl) heq
      · next hslash =>
          split at heq
          · next hc =>
              subst hc
              exact hescape _ (.inl rfl) heq
          · next hquote =>
              cases body with
              | nil => exact absurd (List.cons.inj heq).1.symm hquote
              | cons x body =>
                  obtain ⟨rfl, hrest⟩ := List.cons.inj heq
                  obtain ⟨hplain, t', rfl, h'⟩ := h.plain_inv hslash
                  obtain ⟨rfl, hs, hr⟩ := ih h' hrest
                  exact ⟨rfl, List.forall_mem_cons.2 ⟨hplain.control, hs⟩, hr⟩

/-- **A string whose quotes and backslashes are escaped is a literal of it exactly when it has no control
character.** -/
theorem literal_escaped_iff :
    Literal s ('"' :: (escapeQuotes s ++ '"' :: rest)) rest' ↔
      (∀ c ∈ s, 0x20 ≤ c.toNat) ∧ rest' = rest := by
  constructor
  · intro h
    generalize hcs : '"' :: (escapeQuotes s ++ '"' :: rest) = cs at h
    obtain ⟨hbody⟩ := h
    obtain ⟨-, hs, hr⟩ := body_escapeQuotes_inv hbody (List.cons.inj hcs).2.symm
    exact ⟨hs, hr⟩
  · rintro ⟨hs, rfl⟩
    exact .mk (body_escapeQuotes hs)

/-! ## Objects of strings -/

theorem Space.eq_of_notMem (h : Space (c :: cs) rest) (hc : c ∉ [' ', '\t', '\n', '\r']) :
    rest = c :: cs := by
  cases h with
  | nil => rfl
  | cons hmem h => exact absurd hmem hc

theorem Space.length_le (h : Space cs rest) : rest.length ≤ cs.length := by
  induction h with
  | nil => exact Nat.le_refl _
  | cons hc h ih => exact Nat.le_succ_of_le ih

theorem Number.head?_ne (h : Number t) : ∃ c, t.head? = some c ∧ (c = '-' ∨ c.isDigit) := by
  obtain ⟨hsign, hint⟩ := h
  rename_i sign int frac exp _ _ _
  obtain ⟨d, ds, rfl⟩ := List.exists_cons_of_ne_nil hint.1
  simp only [List.mem_cons, List.not_mem_nil, or_false] at hsign
  rcases hsign with rfl | rfl
  · exact ⟨d, rfl, .inr (hint.2 d List.mem_cons_self)⟩
  · exact ⟨'-', rfl, .inl rfl⟩

/-- A value that begins with a quote is a string. -/
theorem Value.eq_str {j : Json} (h : Value j ('"' :: cs) rest) :
    ∃ s, j = .str s ∧ Literal s ('"' :: cs) rest := by
  generalize hcs : '"' :: cs = text at h
  cases h with
  | str h => exact ⟨_, rfl, h⟩
  | num h =>
      obtain ⟨c, hc, hcase⟩ := h.head?_ne
      rename_i t
      cases t with
      | nil => cases hc
      | cons x t =>
          cases hc
          cases (List.cons.inj hcs).1
          rcases hcase with h | h
          · cases h
          · exact absurd h (by decide)
  | null => cases (List.cons.inj hcs).1
  | true => cases (List.cons.inj hcs).1
  | false => cases (List.cons.inj hcs).1
  | emptyArr h => cases (List.cons.inj hcs).1
  | arr h => cases (List.cons.inj hcs).1
  | emptyObj h => cases (List.cons.inj hcs).1
  | obj h => cases (List.cons.inj hcs).1

theorem Literal.length_lt (h : Literal s cs rest) : s.length + rest.length < cs.length := by
  obtain ⟨hbody⟩ := h
  have hle := hbody.length_le
  rw [List.length_cons, List.length_append, List.length_cons]
  omega

/-- What an object that begins with a key and a quote says of the key. -/
theorem exists_of_denotes_obj {k : List Char} {ks : List (List Char)} {ms : List (List Char × Json)}
    (h : Denotes (.obj ms) ('\x7b' :: '"' :: (k ++ '"' :: ':' :: '"' :: cs)))
    (hk : ms.map Prod.fst = k :: ks) :
    ∃ s ms' tail, ms = (k, .str s) :: ms' ∧ Literal s ('"' :: cs) tail := by
  have hfirst : ∀ {a b d e f : List Char} {j : Json},
      Space ('"' :: (k ++ '"' :: ':' :: '"' :: cs)) a → Literal k a b → Space b (':' :: d) →
        Space d e → Value j e f → ∃ s tail, j = .str s ∧ Literal s ('"' :: cs) tail := by
    intro a b d e f j h₁ h₂ h₃ h₄ h₅
    cases h₁.eq_of_notMem (by decide)
    obtain ⟨-, rfl⟩ := literal_plain_iff.1 h₂
    cases h₃.eq_of_notMem (by decide)
    cases h₄.eq_of_notMem (by decide)
    obtain ⟨s, hj, hs⟩ := h₅.eq_str
    exact ⟨s, f, hj, hs⟩
  obtain ⟨a, b, ha, hv, -⟩ := h
  cases ha.eq_of_notMem (by decide)
  cases hv with
  | emptyObj h => cases hk
  | obj h =>
      cases h with
      | last h₁ h₂ h₃ h₄ h₅ h₆ =>
          cases (List.cons.inj hk).1
          obtain ⟨s, tail, rfl, hs⟩ := hfirst h₁ h₂ h₃ h₄ h₅
          exact ⟨s, [], tail, rfl, hs⟩
      | cons h₁ h₂ h₃ h₄ h₅ h₆ h =>
          cases (List.cons.inj hk).1
          obtain ⟨s, tail, rfl, hs⟩ := hfirst h₁ h₂ h₃ h₄ h₅
          exact ⟨s, _, tail, rfl, hs⟩

/-- An object of one string. -/
theorem denotes_one {k : List Char} (hk : ∀ c ∈ k, Plain c)
    (hs : Literal s ('"' :: cs) ['\x7d']) :
    Denotes (.obj [(k, .str s)]) ('\x7b' :: '"' :: (k ++ '"' :: ':' :: '"' :: cs)) :=
  ⟨_, [], .nil, .obj (.last .nil (literal_plain_iff.2 ⟨hk, rfl⟩) .nil .nil (.str hs) .nil), .nil⟩

/-- An object of two strings. -/
theorem denotes_two {k l : List Char} (hk : ∀ c ∈ k, Plain c) (hl : ∀ c ∈ l, Plain c)
    (ht : ∀ c ∈ t, Plain c)
    (hs : Literal s ('"' :: cs)
      (',' :: '"' :: (l ++ '"' :: ':' :: '"' :: (t ++ '"' :: ['\x7d'])))) :
    Denotes (.obj [(k, .str s), (l, .str t)])
      ('\x7b' :: '"' :: (k ++ '"' :: ':' :: '"' :: cs)) :=
  ⟨_, [], .nil, .obj (.cons .nil (literal_plain_iff.2 ⟨hk, rfl⟩) .nil .nil (.str hs) .nil
    (.last .nil (literal_plain_iff.2 ⟨hl, rfl⟩) .nil .nil
      (.str (literal_plain_iff.2 ⟨ht, rfl⟩)) .nil)), .nil⟩

/-- The string in an object is shorter than the text. -/
theorem length_lt_of_denotes {k : List Char} (h : Denotes (.obj [(k, .str s)]) cs) :
    s.length < cs.length := by
  obtain ⟨a, b, ha, hv, -⟩ := h
  have hle := ha.length_le
  cases hv with
  | obj h =>
      cases h with
      | last h₁ h₂ h₃ h₄ h₅ h₆ =>
          have h1 := h₁.length_le
          have h2 := h₂.length_lt
          have h3 := h₃.length_le
          have h4 := h₄.length_le
          rw [List.length_cons] at hle h3
          cases h₅ with
          | str hs =>
              have h5 := hs.length_lt
              omega
      | cons h₁ h₂ h₃ h₄ h₅ h₆ h => cases h

end JsonText
