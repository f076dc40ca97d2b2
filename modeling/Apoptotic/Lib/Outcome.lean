/-!
# Outcomes

The result of a function that can return a value, return an error, or panic.  Sequencing stops
at the first error or panic.

Principal results: `bind_eq_ok`, `bind_eq_panic` — when a sequence returns, when it panics.
-/

inductive Outcome (ε α : Type) where
  | ok (a : α)
  | err (e : ε)
  | panic
  deriving DecidableEq, Repr

namespace Outcome

variable {ε ε' α β : Type}

protected def bind (x : Outcome ε α) (f : α → Outcome ε β) : Outcome ε β :=
  match x with
  | ok a => f a
  | err e => err e
  | panic => panic

instance : Monad (Outcome ε) where
  pure := ok
  bind := Outcome.bind

/-- Apply `f` to the error. -/
def mapErr (f : ε → ε') : Outcome ε α → Outcome ε' α
  | ok a => ok a
  | err e => err (f e)
  | panic => panic

/-- `if !c { return Err(e) }`. -/
def require (c : Prop) [Decidable c] (e : ε) : Outcome ε Unit := if c then ok () else err e

/-- `assert!(c)`. -/
def demand (c : Prop) [Decidable c] : Outcome ε Unit := if c then ok () else panic

/-- The value of an option, a panic if there is none. -/
def orPanic : Option α → Outcome ε α
  | some a => ok a
  | none => panic

@[simp] theorem pure_eq (a : α) : (pure a : Outcome ε α) = ok a := rfl

@[simp] theorem ok_bind (a : α) (f : α → Outcome ε β) : (ok a >>= f) = f a := rfl

@[simp] theorem err_bind (e : ε) (f : α → Outcome ε β) : (err e >>= f) = err e := rfl

@[simp] theorem panic_bind (f : α → Outcome ε β) : ((panic : Outcome ε α) >>= f) = panic := rfl

@[simp] theorem mapErr_ok (f : ε → ε') (a : α) : mapErr f (ok a) = ok a := rfl

@[simp] theorem mapErr_err (f : ε → ε') (e : ε) : mapErr f (err e : Outcome ε α) = err (f e) := rfl

@[simp] theorem orPanic_some (a : α) : (orPanic (some a) : Outcome ε α) = ok a := rfl

theorem require_pos {c : Prop} [Decidable c] (h : c) (e : ε) : require c e = ok () := if_pos h

theorem require_neg {c : Prop} [Decidable c] (h : ¬ c) (e : ε) : require c e = err e := if_neg h

theorem demand_pos {c : Prop} [Decidable c] (h : c) : (demand c : Outcome ε Unit) = ok () :=
  if_pos h

theorem bind_eq_ok {x : Outcome ε α} {f : α → Outcome ε β} {b : β} :
    (x >>= f) = ok b ↔ ∃ a, x = ok a ∧ f a = ok b := by
  cases x with
  | ok a => simp
  | err e => simp
  | panic => simp

theorem bind_eq_panic {x : Outcome ε α} {f : α → Outcome ε β} :
    (x >>= f) = panic ↔ x = panic ∨ ∃ a, x = ok a ∧ f a = panic := by
  cases x with
  | ok a => simp
  | err e => simp
  | panic => simp

/-! ## Freedom from panics -/

theorem bind_ne_panic {x : Outcome ε α} {f : α → Outcome ε β} (hx : x ≠ panic)
    (hf : ∀ a, x = ok a → f a ≠ panic) : (x >>= f) ≠ panic := by
  intro h
  rcases bind_eq_panic.1 h with hp | ⟨a, ha, hfa⟩
  · exact hx hp
  · exact hf a ha hfa

@[simp] theorem ok_ne_panic (a : α) : (ok a : Outcome ε α) ≠ panic := nofun

@[simp] theorem err_ne_panic (e : ε) : (err e : Outcome ε α) ≠ panic := nofun

theorem require_ne_panic (c : Prop) [Decidable c] (e : ε) : require c e ≠ panic := by
  unfold require
  split
  · exact ok_ne_panic ()
  · exact err_ne_panic e

theorem require_eq_ok {c : Prop} [Decidable c] {e : ε} {u : Unit} : require c e = ok u ↔ c := by
  unfold require
  split
  · rename_i h
    exact ⟨fun _ => h, fun _ => rfl⟩
  · rename_i h
    exact ⟨nofun, fun hc => absurd hc h⟩

/-- Past a check that held. -/
theorem require_bind_ne_panic {c : Prop} [Decidable c] {e : ε} {f : Unit → Outcome ε β}
    (hf : c → f () ≠ panic) : (require c e >>= f) ≠ panic :=
  bind_ne_panic (require_ne_panic c e) fun _ h => hf (require_eq_ok.1 h)

/-! ## Loops that stop at the first answer -/

theorem allM_eq {p : α → Outcome ε Bool} {q : α → Bool} {l : List α} (h : ∀ a ∈ l, p a = ok (q a)) :
    l.allM p = ok (l.all q) := by
  induction l with
  | nil => rfl
  | cons a l ih =>
      rw [List.allM, h a List.mem_cons_self, ok_bind, List.all_cons]
      cases hq : q a with
      | true => exact ih fun b hb => h b (List.mem_cons_of_mem a hb)
      | false => rfl

theorem anyM_eq {p : α → Outcome ε Bool} {q : α → Bool} {l : List α} (h : ∀ a ∈ l, p a = ok (q a)) :
    l.anyM p = ok (l.any q) := by
  induction l with
  | nil => rfl
  | cons a l ih =>
      rw [List.anyM, h a List.mem_cons_self, ok_bind, List.any_cons]
      cases hq : q a with
      | true => rfl
      | false => exact ih fun b hb => h b (List.mem_cons_of_mem a hb)

/-- The loop goes as far as the answer stays open. -/
theorem allM_panic {p : α → Outcome ε Bool} {front back : List α} {a : α}
    (hfront : ∀ b ∈ front, p b = ok true) (ha : p a = panic) :
    (front ++ a :: back).allM p = panic := by
  induction front with
  | nil => rw [List.nil_append, List.allM, ha, panic_bind]
  | cons b front ih =>
      rw [List.cons_append, List.allM, hfront b List.mem_cons_self, ok_bind]
      exact ih fun c hc => hfront c (List.mem_cons_of_mem b hc)

end Outcome

/-! ## Loops over options -/

theorem mapM_of_forall {α β : Type} {l : List α} {f : α → Option β} {g : α → β}
    (h : ∀ a ∈ l, f a = some (g a)) : l.mapM f = some (l.map g) := by
  induction l with
  | nil => rfl
  | cons a l ih =>
      rw [List.mapM_cons, h a List.mem_cons_self, ih fun b hb => h b (List.mem_cons_of_mem a hb)]
      rfl

/-- A search whose every test has an answer has one. -/
theorem anyM_total {α : Type} {p : α → Option Bool} {l : List α} (h : ∀ a ∈ l, ∃ b, p a = some b) :
    ∃ b, l.anyM p = some b := by
  induction l with
  | nil => exact ⟨false, rfl⟩
  | cons a l ih =>
      obtain ⟨b, hb⟩ := h a List.mem_cons_self
      rw [List.anyM, hb]
      cases b with
      | true => exact ⟨true, rfl⟩
      | false => exact ih fun a' ha' => h a' (List.mem_cons_of_mem a ha')

/-- A loop over the parts of each element is a loop of loops. -/
theorem foldlM_flatMap {α β σ : Type} {k : α → List β} {f : σ → β → Option σ} {l : List α} {s : σ} :
    (l.flatMap k).foldlM f s = l.foldlM (fun s a => (k a).foldlM f s) s := by
  induction l generalizing s with
  | nil => rfl
  | cons a l ih =>
      rw [List.flatMap_cons, List.foldlM_append, List.foldlM_cons]
      exact bind_congr fun _ => ih

theorem foldlM_congr {α σ : Type} {f g : σ → α → Option σ} {l : List α} {s : σ}
    (h : ∀ s, ∀ a ∈ l, f s a = g s a) : l.foldlM f s = l.foldlM g s := by
  induction l generalizing s with
  | nil => rfl
  | cons a l ih =>
      rw [List.foldlM_cons, List.foldlM_cons, h s a List.mem_cons_self]
      exact bind_congr fun _ => ih fun s b hb => h s b (List.mem_cons_of_mem a hb)

/-- A loop that succeeds makes every step. -/
theorem exists_step_of_foldlM {α σ : Type} {f : σ → α → Option σ} {l : List α} {s s' : σ}
    (hrun : l.foldlM f s = some s') {a : α} (ha : a ∈ l) : ∃ t t', f t a = some t' := by
  obtain ⟨as, bs, rfl⟩ := List.append_of_mem ha
  rw [List.foldlM_append] at hrun
  obtain ⟨t, _, hrest⟩ := Option.bind_eq_some_iff.1 hrun
  rw [List.foldlM_cons] at hrest
  obtain ⟨t', ht', _⟩ := Option.bind_eq_some_iff.1 hrest
  exact ⟨t, t', ht'⟩

/-- A loop whose every step that succeeds keeps `P` keeps it. -/
theorem foldlM_keeps {α σ : Type} {P : σ → Prop} {f : σ → α → Option σ} {l : List α} {s s' : σ}
    (h : ∀ s a s', P s → f s a = some s' → P s') (hs : P s) (hrun : l.foldlM f s = some s') :
    P s' := by
  induction l generalizing s with
  | nil =>
      cases hrun
      exact hs
  | cons a l ih =>
      rw [List.foldlM_cons] at hrun
      obtain ⟨s1, h1, hrest⟩ := Option.bind_eq_some_iff.1 hrun
      exact ih (h s a s1 hs h1) hrest

/-- A loop whose every step succeeds and keeps `P` succeeds and keeps `P`. -/
theorem foldlM_total {α σ : Type} {P : σ → Prop} {f : σ → α → Option σ} {l : List α} {s : σ}
    (h : ∀ s, ∀ a ∈ l, P s → ∃ s', f s a = some s' ∧ P s') (hs : P s) :
    ∃ s', l.foldlM f s = some s' ∧ P s' := by
  induction l generalizing s with
  | nil => exact ⟨s, rfl, hs⟩
  | cons a l ih =>
      obtain ⟨s1, h1, hP⟩ := h s a List.mem_cons_self hs
      obtain ⟨s2, h2, hP2⟩ := ih (fun s b hb => h s b (List.mem_cons_of_mem a hb)) hP
      exact ⟨s2, by rw [List.foldlM_cons, h1]; exact h2, hP2⟩
