/-!
# Guards on a sharded table

A table keeps its entries in shards with one lock each.  A path through the code takes guards on
entries and gives them back in the opposite order, so what it does with the table is a tree of
nested guards.  The lock machine of a key-to-shard map goes through the tree request by request; a
request that clashes with a guard held on the same shard is never granted.

Principal results: `completes_iff` — the machine gets through a tree exactly when no request in it
clashes with a guard held around it; `forall_completes_iff` — it does so whatever the shards are
exactly when no two nested guards clash, on any keys.
-/

namespace Guards

variable {K S : Type}

inductive Mode where
  | shared
  | exclusive
  deriving DecidableEq, Repr

/-- A guard on the entry of a key. -/
structure Guard (K : Type) where
  mode : Mode
  key : K
  deriving DecidableEq, Repr

/-- A lock: whether a guard held on a shard refuses a further one. -/
abbrev Lock := Mode → Mode → Bool

/-- A read/write lock that is not reentrant: only readers share it. -/
def rwLock : Lock
  | .shared, .shared => false
  | _, _ => true

/-- A lock that is not reentrant and that nobody shares. -/
def mutex : Lock := fun _ _ => true

/-! ## Nested guards -/

/-- What a path does with the table: guards one after another, each with what happens under it. -/
inductive Uses (K : Type) where
  | done
  | hold (g : Guard K) (body next : Uses K)

namespace Uses

/-- One after the other. -/
def append : Uses K → Uses K → Uses K
  | done, v => v
  | hold g body next, v => hold g body (append next v)

instance : Append (Uses K) := ⟨append⟩

/-- A guard around `body`, given back after it. -/
def under (g : Guard K) (body : Uses K) : Uses K := hold g body done

/-- A guard given back at once. -/
def touch (g : Guard K) : Uses K := under g done

/-- A guard on the entry of a key, with `body` under it when the entry is there. -/
def withEntry {V : Type} (g : Guard K) (entry : Option V) (body : V → Uses K) : Uses K :=
  match entry with
  | some v => under g (body v)
  | none => touch g

/-- The uses of a list of turns. -/
def each {A : Type} (f : A → Uses K) : List A → Uses K
  | [] => done
  | a :: as => f a ++ each f as

end Uses

/-! ## The lock machine -/

inductive Event (K : Type) where
  | request (g : Guard K)
  | release

/-- The requests and releases of a tree, in order. -/
def Uses.events : Uses K → List (Event K)
  | done => []
  | hold g body next => .request g :: (body.events ++ .release :: next.events)

variable [DecidableEq S] (lock : Lock) (shard : K → S)

/-- A guard held refuses `g`: same shard, and the lock does not share. -/
def clash (g h : Guard K) : Bool := decide (shard h.key = shard g.key) && lock h.mode g.mode

/-- One event, with the guards held, the last taken first.  A refused request waits for a guard of
its own path: `none`. -/
def step (held : List (Guard K)) : Event K → Option (List (Guard K))
  | .request g => if held.any (clash lock shard g) then none else some (g :: held)
  | .release => some held.tail

/-- The events of a path, from the guards held. -/
def run (held : List (Guard K)) (es : List (Event K)) : Option (List (Guard K)) :=
  es.foldlM (step lock shard) held

/-- **The path gets every guard it requests.** -/
def Completes (u : Uses K) : Prop := (run lock shard [] u.events).isSome

/-- No request of the tree clashes with a guard held around it. -/
def Clear : List (Guard K) → Uses K → Prop
  | _, .done => True
  | held, .hold g body next =>
      (∀ h ∈ held, clash lock shard g h = false) ∧ Clear (g :: held) body ∧ Clear held next

theorem run_append (held : List (Guard K)) (es fs : List (Event K)) :
    run lock shard held (es ++ fs) = (run lock shard held es).bind (run lock shard · fs) :=
  List.foldlM_append

/-- A tree that is clear is gone through, and leaves the guards as they were. -/
theorem run_events_of_clear {u : Uses K} {held : List (Guard K)}
    (h : Clear lock shard held u) : run lock shard held u.events = some held := by
  induction u generalizing held with
  | done => rfl
  | hold g body next ihb ihn =>
      obtain ⟨hg, hbody, hnext⟩ := h
      have hreq : step lock shard held (.request g) = some (g :: held) := by
        have hany : held.any (clash lock shard g) = false := by
          rw [List.any_eq_false]
          intro h hh
          simp [hg h hh]
        exact if_neg (Bool.not_eq_true _ ▸ hany)
      calc run lock shard held (Uses.hold g body next).events
          = (step lock shard held (.request g)).bind
              (run lock shard · (body.events ++ .release :: next.events)) := rfl
        _ = run lock shard (g :: held) (body.events ++ .release :: next.events) := by
            rw [hreq, Option.bind_some]
        _ = run lock shard (g :: held) (.release :: next.events) := by
            rw [run_append, ihb hbody, Option.bind_some]
        _ = run lock shard held next.events := rfl
        _ = some held := ihn hnext

/-- A tree that is gone through is clear. -/
theorem clear_of_run_events {u : Uses K} {held : List (Guard K)}
    (h : (run lock shard held u.events).isSome) : Clear lock shard held u := by
  induction u generalizing held with
  | done => trivial
  | hold g body next ihb ihn =>
      have hrun : run lock shard held (Uses.hold g body next).events =
          (step lock shard held (.request g)).bind
            (run lock shard · (body.events ++ .release :: next.events)) := rfl
      rw [hrun] at h
      by_cases hany : held.any (clash lock shard g) = true
      · have hnone : step lock shard held (.request g) = none := if_pos hany
        rw [hnone] at h
        cases h
      · have hsome : step lock shard held (.request g) = some (g :: held) := if_neg hany
        rw [hsome, Option.bind_some, run_append] at h
        have hbody : Clear lock shard (g :: held) body := by
          apply ihb
          cases hb : run lock shard (g :: held) body.events with
          | none =>
              rw [hb] at h
              cases h
          | some _ => rfl
        rw [run_events_of_clear lock shard hbody, Option.bind_some] at h
        refine ⟨?_, hbody, ihn h⟩
        intro g' hg'
        rw [Bool.not_eq_true, List.any_eq_false] at hany
        simpa using hany g' hg'

/-- **A path gets its guards exactly when no request clashes with a guard around it.** -/
theorem completes_iff (u : Uses K) : Completes lock shard u ↔ Clear lock shard [] u := by
  constructor
  · exact clear_of_run_events lock shard
  · intro h
    unfold Completes
    rw [run_events_of_clear lock shard h]
    rfl

/-! ## Whatever the shards -/

/-- No guard of the tree is refused by the modes held around it, taken to be on one shard. -/
def Uses.Unnested : List Mode → Uses K → Prop
  | _, .done => True
  | held, .hold g body next =>
      (∀ m ∈ held, lock m g.mode = false) ∧ Unnested (g.mode :: held) body ∧ Unnested held next

variable {lock}

theorem Uses.Unnested.clear {u : Uses K} {held : List (Guard K)}
    (h : u.Unnested lock (held.map Guard.mode)) : Clear lock shard held u := by
  induction u generalizing held with
  | done => trivial
  | hold g body next ihb ihn =>
      obtain ⟨hg, hbody, hnext⟩ := h
      refine ⟨?_, ihb hbody, ihn hnext⟩
      intro g' hg'
      unfold clash
      rw [hg g'.mode (List.mem_map_of_mem hg'), Bool.and_false]

/-- With a single shard, nothing else is clear. -/
theorem Uses.unnested_of_clear {u : Uses K} {held : List (Guard K)}
    (h : Clear lock (fun _ : K => 0) held u) : u.Unnested lock (held.map Guard.mode) := by
  induction u generalizing held with
  | done => trivial
  | hold g body next ihb ihn =>
      obtain ⟨hg, hbody, hnext⟩ := h
      refine ⟨?_, ihb hbody, ihn hnext⟩
      intro m hm
      obtain ⟨g', hg', rfl⟩ := List.mem_map.1 hm
      simpa [clash] using hg g' hg'

/-- **A path gets its guards for every shard map exactly when no two nested guards clash.** -/
theorem forall_completes_iff (u : Uses K) :
    (∀ shard : K → Nat, Completes lock shard u) ↔ u.Unnested lock [] := by
  constructor
  · intro h
    exact Uses.unnested_of_clear ((completes_iff lock _ u).1 (h fun _ => 0))
  · intro h shard
    exact (completes_iff lock shard u).2 (Uses.Unnested.clear shard h)

/-! ## Trees built from parts -/

namespace Uses

variable {held : List Mode}

@[simp] theorem unnested_done : (done : Uses K).Unnested lock held := trivial

@[simp] theorem unnested_hold (g : Guard K) (body next : Uses K) :
    (hold g body next).Unnested lock held ↔ (∀ m ∈ held, lock m g.mode = false) ∧
      body.Unnested lock (g.mode :: held) ∧ next.Unnested lock held := Iff.rfl

@[simp] theorem unnested_append (u v : Uses K) :
    (u ++ v).Unnested lock held ↔ u.Unnested lock held ∧ v.Unnested lock held := by
  induction u with
  | done => exact (iff_of_eq (true_and _)).symm
  | hold g body next _ ihn =>
      change (hold g body (next ++ v)).Unnested lock held ↔ _
      rw [unnested_hold, unnested_hold, ihn, and_assoc, and_assoc]

@[simp] theorem unnested_under (g : Guard K) (body : Uses K) :
    (under g body).Unnested lock held ↔
      (∀ m ∈ held, lock m g.mode = false) ∧ body.Unnested lock (g.mode :: held) := by
  unfold under
  rw [unnested_hold]
  exact and_congr_right fun _ => and_iff_left trivial

@[simp] theorem unnested_touch (g : Guard K) :
    (touch g).Unnested lock held ↔ ∀ m ∈ held, lock m g.mode = false := by
  unfold touch
  rw [unnested_under]
  exact and_iff_left trivial

@[simp] theorem unnested_withEntry {V : Type} (g : Guard K) (entry : Option V)
    (body : V → Uses K) : (withEntry g entry body).Unnested lock held ↔
      (∀ m ∈ held, lock m g.mode = false) ∧
        ∀ v, entry = some v → (body v).Unnested lock (g.mode :: held) := by
  unfold withEntry
  cases entry with
  | none =>
      rw [unnested_touch]
      exact (and_iff_left fun _ h => nomatch h).symm
  | some v =>
      rw [unnested_under]
      refine and_congr_right fun _ => ⟨?_, fun h => h v rfl⟩
      rintro hbody v' ⟨⟩
      exact hbody

@[simp] theorem unnested_each {A : Type} (f : A → Uses K) (as : List A) :
    (each f as).Unnested lock held ↔ ∀ a ∈ as, (f a).Unnested lock held := by
  induction as with
  | nil => simp [each]
  | cons a as ih =>
      rw [each, unnested_append, ih]
      simp

end Uses

end Guards
