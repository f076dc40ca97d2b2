import Mathlib.Data.List.Basic

/-!
# Self-delimiting encodings

An encoding is self-delimiting on the values that meet a condition when what follows an encoded value
never hides where it ends: equal strings begin with encodings of equal values, and go on equally.

Principal results: `counted` — a list behind its length is self-delimiting when its elements are;
`prefixed` — and so is any string behind its length.
-/

/-- Equal strings that begin with encoded values begin with the same value and go on the same way. -/
def SelfDelimiting {α τ : Type} (ok : α → Prop) (enc : α → List τ) : Prop :=
  ∀ a b r r', ok a → ok b → enc a ++ r = enc b ++ r' → a = b ∧ r = r'

namespace SelfDelimiting

variable {α β τ : Type} {ok : α → Prop} {ok' : β → Prop} {enc : α → List τ} {enc' : β → List τ}

theorem of_length {n : Nat} (hlen : ∀ a, ok a → (enc a).length = n)
    (hinj : ∀ a b, ok a → ok b → enc a = enc b → a = b) : SelfDelimiting ok enc := by
  intro a b r r' ha hb h
  obtain ⟨henc, hr⟩ := List.append_inj h ((hlen a ha).trans (hlen b hb).symm)
  exact ⟨hinj a b ha hb henc, hr⟩

/-- The encoding of a part that determines the whole. -/
theorem comap (h : SelfDelimiting ok enc) (g : β → α) (hok : ∀ b, ok' b → ok (g b))
    (hinj : ∀ b b', ok' b → ok' b' → g b = g b' → b = b') :
    SelfDelimiting ok' fun b => enc (g b) := by
  intro b b' r r' hb hb' heq
  obtain ⟨hg, hr⟩ := h _ _ r r' (hok b hb) (hok b' hb') heq
  exact ⟨hinj b b' hb hb' hg, hr⟩

/-- One encoding after another. -/
theorem seq (h : SelfDelimiting ok enc) (h' : SelfDelimiting ok' enc') :
    SelfDelimiting (fun p : α × β => ok p.1 ∧ ok' p.2) fun p => enc p.1 ++ enc' p.2 := by
  rintro ⟨a, b⟩ ⟨a₁, b₁⟩ r r' ⟨ha, hb⟩ ⟨ha₁, hb₁⟩ heq
  dsimp only at *
  rw [List.append_assoc, List.append_assoc] at heq
  obtain ⟨rfl, hrest⟩ := h _ _ _ _ ha ha₁ heq
  obtain ⟨rfl, hr⟩ := h' _ _ _ _ hb hb₁ hrest
  exact ⟨rfl, hr⟩

/-- As many values one after another. -/
theorem flatMap (h : SelfDelimiting ok enc) {l l' : List α} {r r' : List τ}
    (hlen : l.length = l'.length) (hl : ∀ a ∈ l, ok a) (hl' : ∀ a ∈ l', ok a)
    (heq : l.flatMap enc ++ r = l'.flatMap enc ++ r') : l = l' ∧ r = r' := by
  induction l generalizing l' with
  | nil =>
      cases l' with
      | nil => exact ⟨rfl, heq⟩
      | cons b l' => cases hlen
  | cons a l ih =>
      cases l' with
      | nil => cases hlen
      | cons b l' =>
          rw [List.flatMap_cons, List.flatMap_cons, List.append_assoc, List.append_assoc] at heq
          obtain ⟨rfl, hrest⟩ := h _ _ _ _ (hl a List.mem_cons_self) (hl' b List.mem_cons_self) heq
          obtain ⟨rfl, hr⟩ := ih (Nat.succ.inj hlen) (fun c hc => hl c (List.mem_cons_of_mem _ hc))
            (fun c hc => hl' c (List.mem_cons_of_mem _ hc)) hrest
          exact ⟨rfl, hr⟩

/-- A list behind its length. -/
theorem counted {small : Nat → Prop} {count : Nat → List τ} (hcount : SelfDelimiting small count)
    (h : SelfDelimiting ok enc) :
    SelfDelimiting (fun l : List α => small l.length ∧ ∀ a ∈ l, ok a)
      fun l => count l.length ++ l.flatMap enc := by
  rintro l l' r r' ⟨hsmall, hl⟩ ⟨hsmall', hl'⟩ heq
  dsimp only at heq
  rw [List.append_assoc, List.append_assoc] at heq
  obtain ⟨hlen, heq⟩ := hcount _ _ _ _ hsmall hsmall' heq
  exact h.flatMap hlen hl hl' heq

/-- A string behind its length. -/
theorem prefixed {small : Nat → Prop} {count : Nat → List τ} (hcount : SelfDelimiting small count) :
    SelfDelimiting (fun l : List τ => small l.length) fun l => count l.length ++ l := by
  intro l l' r r' hl hl' heq
  dsimp only at heq
  rw [List.append_assoc, List.append_assoc] at heq
  obtain ⟨hlen, heq⟩ := hcount _ _ _ _ hl hl' heq
  exact List.append_inj heq hlen

end SelfDelimiting
