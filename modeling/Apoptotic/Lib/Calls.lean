import Mathlib.Data.List.Basic

/-!
# Calls over a state

A call reads and writes a state and then replies with a value or an error, panics, or blocks on a
lock that it holds itself.  What it wrote before stays written.  A `Keeping` call carries the
proof that it leaves a view of the state alone; such calls compose without further proof.

Principal results: `bind_apply` — how a sequence runs; `collect_induct` — what holds across a loop;
`Keeping` with its `Monad` instance — what is put together from calls that keep a view keeps it.
-/

namespace Calls

/-- How a call ends. -/
inductive Reply (ε α : Type) where
  | ok (a : α)
  | err (e : ε)
  | panic
  | blocked
  deriving DecidableEq, Repr

/-- A call over a state `σ`: its reply and the state it leaves. -/
def Call (σ ε α : Type) := σ → Reply ε α × σ

variable {σ ε α β γ : Type}

namespace Call

protected def bind (x : Call σ ε α) (f : α → Call σ ε β) : Call σ ε β := fun s =>
  match x s with
  | (.ok a, s') => f a s'
  | (.err e, s') => (.err e, s')
  | (.panic, s') => (.panic, s')
  | (.blocked, s') => (.blocked, s')

instance : Monad (Call σ ε) where
  pure a := fun s => (.ok a, s)
  bind := Call.bind

/-- `return Err(e)`. -/
def fail (e : ε) : Call σ ε α := fun s => (.err e, s)

def modify (f : σ → σ) : Call σ ε Unit := fun s => (.ok (), f s)

/-- The reply as a value, where there is one. -/
def attempt (x : Call σ ε α) : Call σ ε (Except ε α) := fun s =>
  match x s with
  | (.ok a, s') => (.ok (.ok a), s')
  | (.err e, s') => (.ok (.error e), s')
  | (.panic, s') => (.panic, s')
  | (.blocked, s') => (.blocked, s')

/-- `for a in as { results.push(f(a)?); }`. -/
def collect (f : α → Call σ ε β) : List α → Call σ ε (List β)
  | [] => pure []
  | a :: as => do
      let b ← f a
      let bs ← collect f as
      pure (b :: bs)

@[simp] theorem pure_apply (a : α) (s : σ) : (pure a : Call σ ε α) s = (.ok a, s) := rfl

@[simp] theorem fail_apply (e : ε) (s : σ) : (fail e : Call σ ε α) s = (.err e, s) := rfl

@[simp] theorem modify_apply (f : σ → σ) (s : σ) :
    (modify f : Call σ ε Unit) s = (.ok (), f s) := rfl

theorem bind_apply (x : Call σ ε α) (f : α → Call σ ε β) (s : σ) :
    (x >>= f) s = match x s with
      | (.ok a, s') => f a s'
      | (.err e, s') => (.err e, s')
      | (.panic, s') => (.panic, s')
      | (.blocked, s') => (.blocked, s') := rfl

theorem bind_of_ok {x : Call σ ε α} {s s' : σ} {a : α} (h : x s = (.ok a, s'))
    (f : α → Call σ ε β) : (x >>= f) s = f a s' := by
  rw [bind_apply, h]

theorem bind_of_err {x : Call σ ε α} {s s' : σ} {e : ε} (h : x s = (.err e, s'))
    (f : α → Call σ ε β) : (x >>= f) s = (.err e, s') := by
  rw [bind_apply, h]

@[simp] theorem collect_nil (f : α → Call σ ε β) (s : σ) : collect f [] s = (.ok [], s) := rfl

theorem collect_cons (f : α → Call σ ε β) (a : α) (as : List α) (s : σ) :
    collect f (a :: as) s = (f a >>= fun b => collect f as >>= fun bs => pure (b :: bs)) s := rfl

/-- What follows a call and writes nothing leaves the state that the call left. -/
theorem bind_snd_of_pure {f : α → Call σ ε β} (hf : ∀ a s, (f a s).2 = s) (x : Call σ ε α)
    (s : σ) : ((x >>= f) s).2 = (x s).2 := by
  rw [bind_apply]
  split <;> simp_all

@[simp] theorem attempt_snd (x : Call σ ε α) (s : σ) : (x.attempt s).2 = (x s).2 := by
  unfold attempt
  split <;> simp_all

theorem attempt_of_ok {x : Call σ ε α} {s s' : σ} {a : α} (h : x s = (.ok a, s')) :
    x.attempt s = (.ok (.ok a), s') := by
  rw [attempt, h]

theorem attempt_of_err {x : Call σ ε α} {s s' : σ} {e : ε} (h : x s = (.err e, s')) :
    x.attempt s = (.ok (.error e), s') := by
  rw [attempt, h]

/-- A relation that every call of a loop respects in the state it runs in holds across the loop. -/
theorem collect_induct {R : σ → σ → Prop} (hrefl : ∀ s, R s s)
    (htrans : ∀ {s t u}, R s t → R t u → R s u) {f : α → Call σ ε β} {as : List α} {s : σ}
    (hf : ∀ pre a post bs t, as = pre ++ a :: post → collect f pre s = (.ok bs, t) →
      R t (f a t).2) : R s (collect f as s).2 := by
  induction as generalizing s with
  | nil => exact hrefl s
  | cons a as ih =>
      have ha : R s (f a s).2 := hf [] a as [] s rfl rfl
      rw [collect_cons, bind_apply]
      split
      · rename_i b s' hs'
        rw [hs'] at ha
        rw [bind_snd_of_pure fun _ _ => rfl]
        refine htrans ha (ih fun pre c post bs t has hpre => ?_)
        refine hf (a :: pre) c post (b :: bs) t (by rw [has]; rfl) ?_
        rw [collect_cons, bind_of_ok hs', bind_of_ok hpre, pure_apply]
      · rename_i s' hs'
        rwa [hs'] at ha
      · rename_i s' hs'
        rwa [hs'] at ha
      · rename_i s' hs'
        rwa [hs'] at ha

theorem collect_cons_of_ok {f : α → Call σ ε β} {a : α} {b : β} {as : List α} {s s' : σ}
    (ha : f a s = (.ok b, s')) : (collect f (a :: as) s).2 = (collect f as s').2 := by
  rw [collect_cons, bind_of_ok ha, bind_snd_of_pure fun _ _ => rfl]

/-- A loop that finishes ran its first call to the end, and then the others. -/
theorem collect_cons_eq_ok {f : α → Call σ ε β} {a : α} {as : List α} {bs : List β} {s t : σ}
    (h : collect f (a :: as) s = (.ok bs, t)) :
    ∃ b s' bs', f a s = (.ok b, s') ∧ collect f as s' = (.ok bs', t) ∧ bs = b :: bs' := by
  rw [collect_cons, bind_apply] at h
  split at h
  · rename_i b s' ha
    rw [bind_apply] at h
    split at h
    · rename_i bs' t' has
      cases h
      exact ⟨b, s', bs', ha, has, rfl⟩
    all_goals cases h
  all_goals cases h

/-- The same up to the call on `a`. -/
theorem collect_induct_until {R : σ → σ → Prop} (hrefl : ∀ s, R s s)
    (htrans : ∀ {s t u}, R s t → R t u → R s u) {f : α → Call σ ε β} {pre post : List α} {a : α}
    {bs : List β} {s t : σ} (hpre : collect f pre s = (.ok bs, t))
    (hf : ∀ pre' b post' bs t, pre ++ a :: post = pre' ++ b :: post' →
      collect f pre' s = (.ok bs, t) → R t (f b t).2) : R s t := by
  have hcollect : R s (collect f pre s).2 :=
    collect_induct hrefl htrans fun pre' b post' bs t hlist hpre' =>
      hf pre' b (post' ++ a :: post) bs t (by rw [hlist, List.append_assoc]; rfl) hpre'
  rwa [hpre] at hcollect

/-- The same from the call on `a` onwards. -/
theorem collect_induct_from {R : σ → σ → Prop} (hrefl : ∀ s, R s s)
    (htrans : ∀ {s t u}, R s t → R t u → R s u) {f : α → Call σ ε β} {pre post : List α} {a : α}
    {bs : List β} {s t : σ} (hpre : collect f pre s = (.ok bs, t))
    (hf : ∀ pre' b post' bs t, pre ++ a :: post = pre' ++ b :: post' →
      collect f pre' s = (.ok bs, t) → R t (f b t).2) :
    R (f a t).2 (collect f (pre ++ a :: post) s).2 := by
  induction pre generalizing s bs with
  | nil =>
      cases hpre
      rw [List.nil_append, collect_cons, bind_apply]
      split
      · rename_i b s' ha
        rw [ha, bind_snd_of_pure fun _ _ => rfl]
        refine collect_induct hrefl htrans fun pre' c post' bs' t' hpost hpre' => ?_
        refine hf (a :: pre') c post' (b :: bs') t' (by rw [hpost]; rfl) ?_
        rw [collect_cons, bind_of_ok ha, bind_of_ok hpre', pure_apply]
      all_goals
        rename_i ha
        rw [ha]
        exact hrefl _
  | cons c pre ih =>
      obtain ⟨b, s', bs', hc, hrest, rfl⟩ := collect_cons_eq_ok hpre
      rw [List.cons_append, collect_cons_of_ok hc]
      refine ih hrest fun pre' d post' es t' hlist hpre' => ?_
      refine hf (c :: pre') d post' (b :: es) t' (by rw [List.cons_append, hlist]; rfl) ?_
      rw [collect_cons, bind_of_ok hc, bind_of_ok hpre', pure_apply]

end Call

/-- A call that leaves the view `v` of the state alone. -/
structure Keeping (v : σ → γ) (ε α : Type) where
  call : Call σ ε α
  keeps : ∀ s, v (call s).2 = v s

namespace Keeping

variable {v : σ → γ}

theorem bind_keeps (x : Keeping v ε α) (f : α → Keeping v ε β) (s : σ) :
    v ((x.call >>= fun a => (f a).call) s).2 = v s := by
  have hx := x.keeps s
  rw [Call.bind_apply]
  split
  · rename_i a s' hs'
    rw [hs'] at hx
    exact ((f a).keeps s').trans hx
  · rename_i s' hs'
    rwa [hs'] at hx
  · rename_i s' hs'
    rwa [hs'] at hx
  · rename_i s' hs'
    rwa [hs'] at hx

instance : Monad (Keeping v ε) where
  pure a := ⟨pure a, fun _ => rfl⟩
  bind x f := ⟨x.call >>= fun a => (f a).call, bind_keeps x f⟩

def get : Keeping v ε σ := ⟨fun s => (.ok s, s), fun _ => rfl⟩

def gets (f : σ → α) : Keeping v ε α := ⟨fun s => (.ok (f s), s), fun _ => rfl⟩

def modify (f : σ → σ) (hf : ∀ s, v (f s) = v s := by exact fun _ => rfl) :
    Keeping v ε Unit := ⟨Call.modify f, hf⟩

/-- `return Err(e)`. -/
def fail (e : ε) : Keeping v ε α := ⟨Call.fail e, fun _ => rfl⟩

/-- The call never comes back: it waits for a lock that it holds. -/
def block : Keeping v ε α := ⟨fun s => (.blocked, s), fun _ => rfl⟩

/-- `ok_or(e)?`. -/
def orFail (x : Option α) (e : ε) : Keeping v ε α :=
  match x with
  | some a => pure a
  | none => fail e

/-- The reply as a value, where there is one. -/
def attempt (x : Keeping v ε α) : Keeping v ε (Except ε α) :=
  ⟨x.call.attempt, by
    intro s
    have hx := x.keeps s
    unfold Call.attempt
    split <;> simp_all⟩

@[simp] theorem get_call (s : σ) : (get : Keeping v ε σ).call s = (.ok s, s) := rfl

@[simp] theorem gets_call (f : σ → α) (s : σ) :
    (gets f : Keeping v ε α).call s = (.ok (f s), s) := rfl

@[simp] theorem orFail_some_call (a : α) (e : ε) (s : σ) :
    (orFail (some a) e : Keeping v ε α).call s = (.ok a, s) := rfl

@[simp] theorem orFail_none_call (e : ε) (s : σ) :
    (orFail none e : Keeping v ε α).call s = (.err e, s) := rfl

@[simp] theorem attempt_call (x : Keeping v ε α) : x.attempt.call = x.call.attempt := rfl

@[simp] theorem pure_call (a : α) : (pure a : Keeping v ε α).call = pure a := rfl

@[simp] theorem bind_call (x : Keeping v ε α) (f : α → Keeping v ε β) :
    (x >>= f).call = x.call >>= fun a => (f a).call := rfl

end Keeping

end Calls
