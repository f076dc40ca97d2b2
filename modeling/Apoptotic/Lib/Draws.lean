import Mathlib.Data.List.Basic

/-!
# Computations that draw

A computation over a state that also draws numbers from a source nobody controls, and may stop
without a result.  An invariant restricts the state; the draws are arbitrary.

Principal definitions: `Keeps` — the computation keeps the invariant; `Gives` — every result has a
property; `Succeeds` — there is a result, and it has a property; `Always` — its result is the same
whatever it draws; `Sometimes` — some draws lead to a result.

Principal results: `Settled.eq_of_sometimes` — a settled computation has one result only;
`Settled.bind`, `Sometimes.bind`, `Keeps.bind` — how the three compose.
-/

/-- A state and the numbers that will be drawn. -/
structure Drawing (σ : Type) where
  draws : Nat → Nat
  state : σ

/-- A computation over a state and draws: none where it stops. -/
def Draws (σ α : Type) := Drawing σ → Option (α × Drawing σ)

namespace Draws

variable {σ α β : Type}

protected def bind (m : Draws σ α) (f : α → Draws σ β) : Draws σ β := fun s =>
  (m s).bind fun r => f r.1 r.2

instance : Monad (Draws σ) where
  pure a := fun s => some (a, s)
  bind := Draws.bind

/-- A number below `n`. -/
def draw (n : Nat) : Draws σ Nat := fun s =>
  some (s.draws 0 % n, ⟨fun i => s.draws (i + 1), s.state⟩)

/-- A step that neither draws nor touches the state. -/
def lift (o : Option α) : Draws σ α := fun s => o.map fun a => (a, s)

/-- A step on the state that does not draw. -/
def access (f : σ → α × σ) : Draws σ α := fun s => some ((f s.state).1, ⟨s.draws, (f s.state).2⟩)

/-- `for b in bs { a = f(a, b); }` -/
def loop (f : α → β → Draws σ α) : List β → α → Draws σ α
  | [], a => pure a
  | b :: bs, a => do loop f bs (← f a b)

theorem bind_assoc {γ : Type} (m : Draws σ α) (f : α → Draws σ β) (g : β → Draws σ γ) :
    m >>= f >>= g = m >>= fun a => f a >>= g := funext fun _ => Option.bind_assoc ..

theorem loop_append (f : α → β → Draws σ α) (as bs : List β) (a : α) :
    loop f (as ++ bs) a = loop f as a >>= loop f bs := by
  induction as generalizing a with
  | nil => rfl
  | cons b as ih =>
      show (f a b >>= fun a => loop f (as ++ bs) a) = (f a b >>= fun a => loop f as a) >>= loop f bs
      rw [bind_assoc]
      congr 1
      exact funext ih

variable {I : σ → Prop}

/-! ## The state -/

/-- The computation keeps the invariant of the state. -/
def Keeps (I : σ → Prop) (m : Draws σ α) : Prop :=
  ∀ s r, I s.state → m s = some r → I r.2.state

theorem Keeps.pure (a : α) : Keeps I (pure a : Draws σ α) := by
  intro s r hs hr
  cases hr
  exact hs

theorem Keeps.bind {m : Draws σ α} {f : α → Draws σ β} (hm : Keeps I m) (hf : ∀ a, Keeps I (f a)) :
    Keeps I (m >>= f) := by
  intro s r hs hr
  obtain ⟨r', hr', hrest⟩ := Option.bind_eq_some_iff.1 hr
  exact hf _ _ _ (hm _ _ hs hr') hrest

theorem Keeps.draw (n : Nat) : Keeps I (draw n : Draws σ Nat) := by
  intro s r hs hr
  cases hr
  exact hs

theorem Keeps.lift (o : Option α) : Keeps I (lift o : Draws σ α) := by
  intro s r hs hr
  obtain ⟨a, _, rfl⟩ := Option.map_eq_some_iff.1 hr
  exact hs

theorem Keeps.access {f : σ → α × σ} (hf : ∀ s, I s → I (f s).2) : Keeps I (access f) := by
  intro s r hs hr
  cases hr
  exact hf _ hs

theorem Keeps.loop {f : α → β → Draws σ α} (hf : ∀ a b, Keeps I (f a b)) (bs : List β) (a : α) :
    Keeps I (loop f bs a) := by
  induction bs generalizing a with
  | nil => exact Keeps.pure a
  | cons b bs ih => exact (hf a b).bind ih

/-! ## What every result has -/

/-- Every result has the property. -/
def Gives (P : α → Prop) (m : Draws σ α) : Prop := ∀ s r, m s = some r → P r.1

section Gives

variable {P : α → Prop} {Q : β → Prop}

theorem Gives.pure {a : α} (ha : P a) : Gives P (pure a : Draws σ α) := by
  intro s r hr
  cases hr
  exact ha

theorem Gives.bind {m : Draws σ α} {f : α → Draws σ β} (hm : Gives P m)
    (hf : ∀ a, P a → Gives Q (f a)) : Gives Q (m >>= f) := by
  intro s r hr
  obtain ⟨r', hr', hrest⟩ := Option.bind_eq_some_iff.1 hr
  exact hf _ (hm _ _ hr') _ _ hrest

/-- What was drawn or read does not matter. -/
theorem Gives.after {m : Draws σ α} {f : α → Draws σ β} (hf : ∀ a, Gives Q (f a)) :
    Gives Q (m >>= f) := by
  intro s r hr
  obtain ⟨r', _, hrest⟩ := Option.bind_eq_some_iff.1 hr
  exact hf _ _ _ hrest

theorem Gives.lift {o : Option α} (ho : ∀ a, o = some a → P a) : Gives P (lift o : Draws σ α) := by
  intro s r hr
  obtain ⟨a, ha, rfl⟩ := Option.map_eq_some_iff.1 hr
  exact ho a ha

theorem Gives.loop {f : α → β → Draws σ α} (hf : ∀ a b, P a → Gives P (f a b)) (bs : List β) {a : α}
    (ha : P a) : Gives P (loop f bs a) := by
  induction bs generalizing a with
  | nil => exact .pure ha
  | cons b bs ih => exact (hf a b ha).bind fun _ ha' => ih ha'

end Gives

/-! ## Computations that do not stop -/

/-- There is a result whatever is drawn, and it has the property. -/
def Succeeds (P : α → Prop) (m : Draws σ α) : Prop := ∀ s, ∃ r, m s = some r ∧ P r.1

section Succeeds

variable {P : α → Prop} {Q : β → Prop}

theorem Succeeds.pure {a : α} (ha : P a) : Succeeds P (pure a : Draws σ α) := fun s => ⟨(a, s), rfl, ha⟩

theorem Succeeds.bind {m : Draws σ α} {f : α → Draws σ β} (hm : Succeeds P m)
    (hf : ∀ a, P a → Succeeds Q (f a)) : Succeeds Q (m >>= f) := by
  intro s
  obtain ⟨r, hr, ha⟩ := hm s
  obtain ⟨r', hr', hb⟩ := hf r.1 ha r.2
  exact ⟨r', Option.bind_eq_some_iff.2 ⟨r, hr, hr'⟩, hb⟩

/-- A draw is below its bound. -/
theorem Succeeds.draw_bind {n : Nat} {f : Nat → Draws σ β} (hn : 0 < n)
    (hf : ∀ k, k < n → Succeeds Q (f k)) : Succeeds Q (draw n >>= f) :=
  fun s => hf _ (Nat.mod_lt _ hn) ⟨fun i => s.draws (i + 1), s.state⟩

theorem Succeeds.lift {o : Option α} (ho : ∃ a, o = some a ∧ P a) : Succeeds P (lift o : Draws σ α) := by
  obtain ⟨a, rfl, ha⟩ := ho
  exact fun s => ⟨(a, s), rfl, ha⟩

theorem Succeeds.loop {f : α → β → Draws σ α} {bs : List β}
    (hf : ∀ a, ∀ b ∈ bs, P a → Succeeds P (f a b)) {a : α} (ha : P a) : Succeeds P (loop f bs a) := by
  induction bs generalizing a with
  | nil => exact .pure ha
  | cons b bs ih =>
      exact (hf a b List.mem_cons_self ha).bind fun _ ha' =>
        ih (fun a b hb => hf a b (List.mem_cons_of_mem _ hb)) ha'

end Succeeds

/-! ## What a computation always gives -/

/-- The result is `r`, whatever is drawn and from every state with the invariant. -/
def Always (I : σ → Prop) (m : Draws σ α) (r : Option α) : Prop :=
  ∀ s, I s.state → (m s).map Prod.fst = r

/-- The result is the same whatever is drawn, and the invariant is kept. -/
structure Settled (I : σ → Prop) (m : Draws σ α) : Prop where
  keeps : Keeps I m
  result : ∃ r, Always I m r

theorem Always.pure (a : α) : Always I (pure a : Draws σ α) (some a) := fun _ _ => rfl

theorem Always.lift (o : Option α) : Always I (lift o : Draws σ α) o := by
  intro s _
  cases o with
  | none => rfl
  | some a => rfl

theorem Always.access {f : σ → α × σ} {a : α} (hf : ∀ s, I s → (f s).1 = a) :
    Always I (access f) (some a) := fun _ hs => congrArg some (hf _ hs)

theorem Always.bind {m : Draws σ α} {f : α → Draws σ β} {a : α} {r : Option β} (hkeeps : Keeps I m)
    (hm : Always I m (some a)) (hf : Always I (f a) r) : Always I (m >>= f) r := by
  intro s hs
  obtain ⟨⟨a', s'⟩, hr, ha⟩ := Option.map_eq_some_iff.1 (hm s hs)
  obtain rfl : a' = a := ha
  have hbind : (m >>= f) s = f a' s' := by
    show (m s).bind _ = _
    rw [hr]
    rfl
  rw [hbind]
  exact hf _ (hkeeps _ _ hs hr)

theorem Always.bind_none {m : Draws σ α} {f : α → Draws σ β} (hm : Always I m none) :
    Always I (m >>= f) none := by
  intro s hs
  have hr : m s = none := Option.map_eq_none_iff.1 (hm s hs)
  show Option.map _ ((m s).bind _) = none
  rw [hr]
  rfl

/-- A draw that does not matter. -/
theorem Always.draw_bind {n : Nat} {f : Nat → Draws σ β} {r : Option β} (hf : ∀ k, Always I (f k) r) :
    Always I (draw n >>= f) r := fun s hs => hf (s.draws 0 % n) ⟨_, s.state⟩ hs

theorem Always.loop {f : α → β → Draws σ α} {bs : List β} {a : α} (hkeeps : ∀ b, Keeps I (f a b))
    (hf : ∀ b ∈ bs, Always I (f a b) (some a)) : Always I (loop f bs a) (some a) := by
  induction bs with
  | nil => exact Always.pure a
  | cons b bs ih =>
      exact Always.bind (hkeeps b) (hf b (List.mem_cons_self ..))
        (ih fun b hb => hf b (List.mem_cons_of_mem _ hb))

theorem Settled.of_always {m : Draws σ α} {r : Option α} (hkeeps : Keeps I m) (h : Always I m r) :
    Settled I m := ⟨hkeeps, r, h⟩

theorem Settled.lift (o : Option α) : Settled I (lift o : Draws σ α) :=
  .of_always (.lift o) (.lift o)

theorem Settled.bind {m : Draws σ α} {f : α → Draws σ β} (hm : Settled I m)
    (hf : ∀ a, Settled I (f a)) : Settled I (m >>= f) := by
  obtain ⟨hkeeps, r, hr⟩ := hm
  refine ⟨hkeeps.bind fun a => (hf a).keeps, ?_⟩
  cases r with
  | none => exact ⟨none, hr.bind_none⟩
  | some a =>
      obtain ⟨r', hr'⟩ := (hf a).result
      exact ⟨r', hr.bind hkeeps hr'⟩

/-! ## What a computation sometimes gives -/

/-- The numbers of a list before the others. -/
def prepend : List Nat → (Nat → Nat) → Nat → Nat
  | [], draws => draws
  | k :: ks, draws => fun i => i.casesOn k (prepend ks draws)

theorem prepend_append (ks ls : List Nat) (draws : Nat → Nat) :
    prepend (ks ++ ls) draws = prepend ks (prepend ls draws) := by
  induction ks with
  | nil => rfl
  | cons k ks ih =>
      unfold prepend
      rw [← ih]
      rfl

/-- Some draws lead to the result `a`, from every state with the invariant. -/
def Sometimes (I : σ → Prop) (m : Draws σ α) (a : α) : Prop :=
  ∀ s, I s → ∃ ks s', I s' ∧ ∀ draws, m ⟨prepend ks draws, s⟩ = some (a, ⟨draws, s'⟩)

theorem Sometimes.pure (a : α) : Sometimes I (pure a : Draws σ α) a :=
  fun s hs => ⟨[], s, hs, fun _ => rfl⟩

theorem Sometimes.lift {o : Option α} {a : α} (h : o = some a) : Sometimes I (lift o : Draws σ α) a := by
  intro s hs
  subst h
  exact ⟨[], s, hs, fun _ => rfl⟩

theorem Sometimes.draw {n k : Nat} (h : k < n) : Sometimes I (draw n : Draws σ Nat) k := by
  intro s hs
  refine ⟨[k], s, hs, fun draws => ?_⟩
  show some (k % n, _) = _
  rw [Nat.mod_eq_of_lt h]
  rfl

theorem Sometimes.access {f : σ → α × σ} {a : α} (hf : ∀ s, I s → (f s).1 = a ∧ I (f s).2) :
    Sometimes I (access f) a := by
  intro s hs
  refine ⟨[], (f s).2, (hf s hs).2, fun draws => ?_⟩
  obtain rfl := (hf s hs).1
  rfl

theorem Sometimes.bind {m : Draws σ α} {f : α → Draws σ β} {a : α} {b : β} (hm : Sometimes I m a)
    (hf : Sometimes I (f a) b) : Sometimes I (m >>= f) b := by
  intro s hs
  obtain ⟨ks, s', hs', hrun⟩ := hm s hs
  obtain ⟨ls, s'', hs'', hrest⟩ := hf s' hs'
  refine ⟨ks ++ ls, s'', hs'', fun draws => ?_⟩
  rw [prepend_append]
  show (m _).bind _ = _
  rw [hrun]
  exact hrest draws

/-- A loop each of whose steps sometimes keeps `P`. -/
theorem Sometimes.loop {f : α → β → Draws σ α} {P : α → Prop} {bs : List β}
    (hf : ∀ a, P a → ∀ b ∈ bs, ∃ a', P a' ∧ Sometimes I (f a b) a') {a : α} (ha : P a) :
    ∃ a', P a' ∧ Sometimes I (loop f bs a) a' := by
  induction bs generalizing a with
  | nil => exact ⟨a, ha, .pure a⟩
  | cons b bs ih =>
      obtain ⟨a', ha', hstep⟩ := hf a ha b (List.mem_cons_self ..)
      obtain ⟨a'', ha'', hrest⟩ := ih (fun a ha b hb => hf a ha b (List.mem_cons_of_mem _ hb)) ha'
      exact ⟨a'', ha'', hstep.bind hrest⟩

/-- **A settled computation has one result only.** -/
theorem Settled.eq_of_sometimes {m : Draws σ α} (hm : Settled I m) {a b : α} (ha : Sometimes I m a)
    (hb : Sometimes I m b) {s : σ} (hs : I s) : a = b := by
  obtain ⟨r, hr⟩ := hm.result
  obtain ⟨ks, s₁, _, h₁⟩ := ha s hs
  obtain ⟨ls, s₂, _, h₂⟩ := hb s hs
  have ha' := hr ⟨prepend ks fun _ => 0, s⟩ hs
  have hb' := hr ⟨prepend ls fun _ => 0, s⟩ hs
  rw [h₁] at ha'
  rw [h₂] at hb'
  exact Option.some.inj (ha'.trans hb'.symm)

end Draws
