import Mathlib.Data.List.Basic

/-!
# Taking values off the front of a string

A taker reads a value at the front of a string and leaves the rest.  It `Reads` an encoding on the values
that meet a condition when it takes every one of them off its encoding, whatever follows, and never
takes any other value.

Principal results: `Reads.pair`, `Reads.optional`, `Reads.times`, `Reads.mapped`, `Reads.counted` — how
takers are put together; `Reads.whole_iff` — a whole string is taken as the value it encodes exactly
when the value meets the condition.
-/

namespace Takers

abbrev Taker (τ α : Type) := List τ → Option (α × List τ)

variable {τ α β : Type}

/-- The taker reads `enc` on the values that are `ok`, and takes no others. -/
structure Reads (take : Taker τ α) (enc : α → List τ) (ok : α → Prop) : Prop where
  back : ∀ a rest, ok a → take (enc a ++ rest) = some (a, rest)
  sound : ∀ {data a rest}, take data = some (a, rest) → ok a

variable {take : Taker τ α} {enc : α → List τ} {ok : α → Prop}

/-- **The string of a value is taken whole exactly when the value is `ok`.** -/
theorem Reads.whole_iff (h : Reads take enc ok) (a : α) : take (enc a) = some (a, []) ↔ ok a := by
  constructor
  · exact h.sound
  · intro ha
    have hback := h.back a [] ha
    rwa [List.append_nil] at hback

/-- One value and then another, which may depend on it. -/
def pair (take : Taker τ α) (take' : α → Taker τ β) : Taker τ (α × β) := fun data =>
  (take data).bind fun r => (take' r.1 r.2).map fun r' => ((r.1, r'.1), r'.2)

theorem Reads.pair {take' : α → Taker τ β} {enc' : β → List τ} {ok' : α → β → Prop}
    (h : Reads take enc ok) (h' : ∀ a, Reads (take' a) enc' (ok' a)) :
    Reads (Takers.pair take take') (fun p => enc p.1 ++ enc' p.2) fun p => ok p.1 ∧ ok' p.1 p.2 where
  back := by
    rintro ⟨a, b⟩ rest ⟨ha, hb⟩
    simp only [Takers.pair, List.append_assoc, h.back a _ ha, Option.bind_some,
      (h' a).back b rest hb, Option.map_some]
  sound := by
    rintro data ⟨a, b⟩ rest hp
    simp only [Takers.pair, Option.bind_eq_some_iff, Option.map_eq_some_iff] at hp
    obtain ⟨⟨a', mid⟩, ha, ⟨b', rest'⟩, hb, heq⟩ := hp
    cases heq
    exact ⟨h.sound ha, (h' a').sound hb⟩

/-- A value that is there or not. -/
def optional (there : Bool) (take : Taker τ α) : Taker τ (Option α) := fun data =>
  if there then (take data).map fun r => (some r.1, r.2) else some (none, data)

/-- The encoding of a value, if there is one. -/
def encOption (enc : α → List τ) : Option α → List τ
  | some a => enc a
  | none => []

theorem Reads.optional (h : Reads take enc ok) (there : Bool) :
    Reads (Takers.optional there take) (encOption enc)
      fun o => o.isSome = there ∧ ∀ a, o = some a → ok a where
  back := by
    rintro o rest ⟨rfl, ho⟩
    cases o with
    | none => rfl
    | some a => simp [Takers.optional, encOption, h.back a rest (ho a rfl)]
  sound := by
    intro data o rest hp
    cases there with
    | false =>
        simp only [Takers.optional, Bool.false_eq_true, if_false, Option.some.injEq,
          Prod.mk.injEq] at hp
        obtain ⟨rfl, -⟩ := hp
        exact ⟨rfl, fun a ha => by cases ha⟩
    | true =>
        simp only [Takers.optional, if_true, Option.map_eq_some_iff] at hp
        obtain ⟨⟨a, mid⟩, ha, heq⟩ := hp
        cases heq
        refine ⟨rfl, fun a' ha' => ?_⟩
        cases ha'
        exact h.sound ha

/-- As many values one after another. -/
def times (take : Taker τ α) : Nat → Taker τ (List α)
  | 0, data => some ([], data)
  | n + 1, data =>
      (take data).bind fun r => (times take n r.2).map fun r' => (r.1 :: r'.1, r'.2)

theorem Reads.times (h : Reads take enc ok) (n : Nat) :
    Reads (Takers.times take n) (fun l => l.flatMap enc)
      fun l => l.length = n ∧ ∀ a ∈ l, ok a where
  back := by
    rintro l rest ⟨rfl, hl⟩
    induction l with
    | nil => rfl
    | cons a l ih =>
        obtain ⟨ha, hl⟩ := List.forall_mem_cons.1 hl
        simp only [List.length_cons, Takers.times, List.flatMap_cons, List.append_assoc,
          h.back a _ ha, Option.bind_some, ih hl, Option.map_some]
  sound := by
    induction n with
    | zero =>
        intro data l rest hp
        simp only [Takers.times, Option.some.injEq, Prod.mk.injEq] at hp
        obtain ⟨rfl, -⟩ := hp
        exact ⟨rfl, List.forall_mem_nil _⟩
    | succ n ih =>
        intro data l rest hp
        simp only [Takers.times, Option.bind_eq_some_iff, Option.map_eq_some_iff] at hp
        obtain ⟨⟨a, mid⟩, ha, ⟨l', rest'⟩, hl, heq⟩ := hp
        cases heq
        obtain ⟨hlen, hall⟩ := ih hl
        exact ⟨congrArg (· + 1) hlen, List.forall_mem_cons.2 ⟨h.sound ha, hall⟩⟩

/-- What `f` makes of the value, if anything. -/
def mapped (take : Taker τ α) (f : α → Option β) : Taker τ β := fun data =>
  (take data).bind fun r => (f r.1).map fun b => (b, r.2)

theorem Reads.mapped {ok' : β → Prop} (h : Reads take enc ok) {f : α → Option β} (g : β → α)
    (hback : ∀ b, ok' b → ok (g b) ∧ f (g b) = some b) (hsound : ∀ a b, ok a → f a = some b → ok' b) :
    Reads (Takers.mapped take f) (fun b => enc (g b)) ok' where
  back := by
    intro b rest hb
    obtain ⟨hok, hf⟩ := hback b hb
    simp only [Takers.mapped, h.back (g b) rest hok, Option.bind_some, hf, Option.map_some]
  sound := by
    intro data b rest hp
    simp only [Takers.mapped, Option.bind_eq_some_iff, Option.map_eq_some_iff] at hp
    obtain ⟨⟨a, rest'⟩, ha, b', hf, heq⟩ := hp
    cases heq
    exact hsound a b (h.sound ha) hf

/-- A list behind its length. -/
def counted (takeCount : Taker τ Nat) (take : Taker τ α) : Taker τ (List α) :=
  mapped (pair takeCount (times take)) fun p => some p.2

theorem Reads.counted {takeCount : Taker τ Nat} {count : Nat → List τ} {small : Nat → Prop}
    (hcount : Reads takeCount count small) (h : Reads take enc ok) :
    Reads (Takers.counted takeCount take) (fun l => count l.length ++ l.flatMap enc)
      fun l => small l.length ∧ ∀ a ∈ l, ok a := by
  refine (hcount.pair h.times).mapped (fun l => (l.length, l)) ?_ ?_
  · intro l hl
    exact ⟨⟨hl.1, rfl, hl.2⟩, rfl⟩
  · rintro ⟨n, l⟩ l' ⟨hsmall, hlen, hl⟩ heq
    cases heq
    exact ⟨hlen ▸ hsmall, hl⟩

end Takers
