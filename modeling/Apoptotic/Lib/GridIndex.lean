import Mathlib.Data.List.AList
import Mathlib.Data.List.Nodup
import Mathlib.Data.List.Perm.Basic
import Mathlib.Logic.Function.Basic

/-!
# A secondary index by cell

Ids are kept in buckets, one per cell, beside a table that says where each id is.  Every change of
the table has to change the buckets by hand; `Exact` says that they agree.

Principal results: `exact_insert_push_iff`, `exact_insert_iff`, `exact_erase` and `exact_move` — when
a change of the table, with or without one of the buckets, leaves them exact; `search_perm` — a
search of some cells finds what a search of the whole table finds, when nothing is to be found
outside these cells.
-/

namespace GridIndex

variable {C I R : Type}

/-- The ids kept under each cell. -/
abbrev Buckets (C I : Type) := C → List I

def push [DecidableEq C] (b : Buckets C I) (c : C) (i : I) : Buckets C I := Function.update b c (b c ++ [i])

/-- Takes every occurrence of `i` out of one bucket. -/
def drop [DecidableEq C] [DecidableEq I] (b : Buckets C I) (c : C) (i : I) : Buckets C I :=
  Function.update b c ((b c).filter (· ≠ i))

/-- Each id is listed once, in the cell where it is, and nothing else is listed. -/
structure Exact (b : Buckets C I) (place : I → Option C) : Prop where
  nodup : ∀ c, (b c).Nodup
  mem_iff : ∀ c i, i ∈ b c ↔ place i = some c

/-! ## Changes -/

theorem exact_empty : Exact (fun _ : C => ([] : List I)) fun _ => none :=
  ⟨fun _ => List.nodup_nil, by simp⟩

/-- The buckets determine where everything is. -/
theorem exact_iff_of_exact {b : Buckets C I} {place place' : I → Option C} (h : Exact b place) :
    Exact b place' ↔ place' = place := by
  refine ⟨fun h' => ?_, fun e => e ▸ h⟩
  funext i
  refine Option.ext fun c => ?_
  rw [← h'.mem_iff, ← h.mem_iff]

section

variable [DecidableEq C] {b : Buckets C I} {place place' : I → Option C} {c : C} {i : I}

theorem mem_push {c' : C} {j : I} : j ∈ push b c i c' ↔ j ∈ b c' ∨ c' = c ∧ j = i := by
  unfold push
  by_cases h : c' = c
  · subst h
    simp
  · simp [h]

theorem exact_push [DecidableEq I] (h : Exact b place) (hi : place i = none) :
    Exact (push b c i) (Function.update place i (some c)) := by
  have hnot : ∀ c', i ∉ b c' := fun c' hmem => by
    have := (h.mem_iff c' i).1 hmem
    rw [hi] at this
    cases this
  refine ⟨fun c' => ?_, fun c' j => ?_⟩
  · unfold push
    by_cases hc : c' = c
    · subst hc
      rw [Function.update_self]
      exact List.nodup_append.2 ⟨h.nodup c', List.nodup_singleton i, fun a ha j hj => by
        rw [List.mem_singleton.1 hj]
        exact fun e => hnot c' (e ▸ ha)⟩
    · rw [Function.update_of_ne hc]
      exact h.nodup c'
  · rw [mem_push, h.mem_iff]
    by_cases hj : j = i
    · subst hj
      simp [hi, eq_comm]
    · simp [hj]

/-- Listing an id a second time is never exact. -/
theorem not_exact_push (h : Exact b place) {c₀ : C} (hi : place i = some c₀) :
    ¬ Exact (push b c i) place' := by
  intro h'
  have hold : place' i = some c₀ :=
    (h'.mem_iff c₀ i).1 (mem_push.2 (.inl ((h.mem_iff c₀ i).2 hi)))
  have hnew : place' i = some c := (h'.mem_iff c i).1 (mem_push.2 (.inr ⟨rfl, rfl⟩))
  obtain rfl : c₀ = c := Option.some.inj (hold.symm.trans hnew)
  have hdup := h'.nodup c₀
  rw [push, Function.update_self] at hdup
  exact List.disjoint_of_nodup_append hdup ((h.mem_iff c₀ i).2 hi) List.mem_cons_self

variable [DecidableEq I]

theorem mem_drop {c' : C} {j : I} : j ∈ drop b c i c' ↔ j ∈ b c' ∧ ¬ (c' = c ∧ j = i) := by
  unfold drop
  by_cases h : c' = c
  · subst h
    simp
  · simp [h]

theorem exact_drop (h : Exact b place) (hi : place i = some c) :
    Exact (drop b c i) (Function.update place i none) := by
  refine ⟨fun c' => ?_, fun c' j => ?_⟩
  · unfold drop
    by_cases hc : c' = c
    · subst hc
      rw [Function.update_self]
      exact (h.nodup c').filter _
    · rw [Function.update_of_ne hc]
      exact h.nodup c'
  · rw [mem_drop, h.mem_iff]
    by_cases hj : j = i
    · subst hj
      simp [hi, eq_comm]
    · simp [hj]

end

/-! ## Searches -/

/-- Searching `cells` instead of all of `ids` finds the same, when `f` finds nothing that lies
    outside `cells`. -/
theorem filterMap_flatMap_perm {b : Buckets C I} {place : I → Option C} (h : Exact b place)
    {cells : List C} (hcells : cells.Nodup) {ids : List I} (hids : ids.Nodup)
    (hplace : ∀ i c, place i = some c → i ∈ ids) (f : I → Option R)
    (hf : ∀ i r, f i = some r → ∃ c ∈ cells, place i = some c) :
    ((cells.flatMap b).filterMap f).Perm (ids.filterMap f) := by
  have hnodup : (cells.flatMap b).Nodup := by
    refine List.nodup_flatMap.2 ⟨fun c _ => h.nodup c, ?_⟩
    refine hcells.imp fun hne => ?_
    intro i hi hj
    exact hne (Option.some.inj (((h.mem_iff _ _).1 hi).symm.trans ((h.mem_iff _ _).1 hj)))
  -- both lists hold the same ids among those `f` accepts
  have hfound : ((cells.flatMap b).filter fun i => (f i).isSome).Perm
      (ids.filter fun i => (f i).isSome) := by
    refine (List.perm_ext_iff_of_nodup (hnodup.filter _) (hids.filter _)).2 fun i => ?_
    simp only [List.mem_filter, List.mem_flatMap, h.mem_iff]
    refine and_congr_left fun hi => ⟨?_, fun _ => ?_⟩
    · rintro ⟨c, -, hc⟩
      exact hplace i c hc
    · obtain ⟨r, hr⟩ := Option.isSome_iff_exists.1 hi
      exact hf i r hr
  have hfilter : ∀ l : List I, (l.filter fun i => (f i).isSome).filterMap f = l.filterMap f := by
    intro l
    rw [List.filterMap_filter]
    congr 1
    funext i
    cases f i <;> simp
  rw [← hfilter (cells.flatMap b), ← hfilter ids]
  exact hfound.filterMap f

/-! ## Tables -/

section

variable {E : Type} [DecidableEq I] (cell : E → C)

/-- The cell of each id of a table. -/
def place (t : AList fun _ : I => E) (i : I) : Option C := (t.lookup i).map cell

/-- The rows of a table. -/
def rows (t : AList fun _ : I => E) : List (I × E) := t.entries.map fun r => (r.1, r.2)

variable {cell} {t : AList fun _ : I => E} {i : I} {e e₀ : E} {b : Buckets C I}

theorem place_insert :
    place cell (t.insert i e) = Function.update (place cell t) i (some (cell e)) := by
  funext j
  unfold place
  by_cases hj : j = i
  · subst hj
    simp
  · simp [hj, AList.lookup_insert_ne]

theorem place_erase : place cell (t.erase i) = Function.update (place cell t) i none := by
  funext j
  unfold place
  by_cases hj : j = i
  · subst hj
    simp
  · simp [hj, AList.lookup_erase_ne]

theorem place_eq_some (h : t.lookup i = some e) : place cell t i = some (cell e) := by
  simp [place, h]

theorem place_eq_none (h : t.lookup i = none) : place cell t i = none := by
  simp [place, h]

/-- Writing a row alone leaves the buckets exact exactly when the row was there, in its cell. -/
theorem exact_insert_iff (h : Exact b (place cell t)) :
    Exact b (place cell (t.insert i e)) ↔ place cell t i = some (cell e) := by
  rw [exact_iff_of_exact h, place_insert, Function.update_eq_iff]
  simp [eq_comm]

/-- Taking a row out of the table alone, when there is none. -/
theorem exact_erase_of_none (h : Exact b (place cell t)) (hi : t.lookup i = none) :
    Exact b (place cell (t.erase i)) := by
  rw [place_erase, ← place_eq_none hi, Function.update_eq_self]
  exact h

theorem place_foldl_insert {new : List (I × E)} :
    place cell (new.foldl (fun t r => t.insert r.1 r.2) t) i =
      ((new.reverse.lookup i).map cell).or (place cell t i) := by
  induction new generalizing t with
  | nil => simp
  | cons r rs ih =>
      rw [List.foldl_cons, ih, List.reverse_cons, List.lookup_append, place_insert,
        List.lookup_cons, List.lookup_nil]
      by_cases hi : i = r.1
      · subst hi
        cases rs.reverse.lookup r.1 <;> simp
      · have hne : (i == r.1) = false := beq_false_of_ne hi
        rw [Function.update_of_ne hi, hne]
        cases rs.reverse.lookup i <;> simp

/-- Writing rows alone leaves the buckets exact exactly when each id, with the row written last,
    was there before and in that row's cell. -/
theorem exact_foldl_insert_iff (h : Exact b (place cell t)) {new : List (I × E)} :
    Exact b (place cell (new.foldl (fun t r => t.insert r.1 r.2) t)) ↔
      ∀ i e, new.reverse.lookup i = some e → place cell t i = some (cell e) := by
  rw [exact_iff_of_exact h, funext_iff]
  refine forall_congr' fun i => ?_
  rw [place_foldl_insert]
  cases new.reverse.lookup i with
  | none => simp
  | some e => simp [eq_comm]

variable [DecidableEq C]

/-- A new row, listed in its cell, leaves the buckets exact exactly when the id is new. -/
theorem exact_insert_push_iff (h : Exact b (place cell t)) :
    Exact (push b (cell e) i) (place cell (t.insert i e)) ↔ t.lookup i = none := by
  constructor
  · intro h'
    by_contra hne
    obtain ⟨e₀, he₀⟩ := Option.ne_none_iff_exists'.1 hne
    exact not_exact_push h (place_eq_some he₀) h'
  · intro hnone
    rw [place_insert]
    exact exact_push h (place_eq_none hnone)

theorem exact_erase (h : Exact b (place cell t)) (hi : t.lookup i = some e) :
    Exact (drop b (cell e) i) (place cell (t.erase i)) := by
  rw [place_erase]
  exact exact_drop h (place_eq_some hi)

/-- A row that moves to another cell, in the table and in the buckets. -/
theorem exact_move (h : Exact b (place cell t)) (hi : t.lookup i = some e₀) :
    Exact (push (drop b (cell e₀) i) (cell e) i) (place cell (t.insert i e)) := by
  have hmoved := exact_push (c := cell e) (exact_drop h (place_eq_some hi)) (Function.update_self ..)
  rwa [Function.update_idem, ← place_insert] at hmoved

omit [DecidableEq C]

theorem filterMap_rows (f : I → E → Option R) :
    (rows t).filterMap (fun r => f r.1 r.2) =
      t.keys.filterMap fun i => (t.lookup i).bind (f i) := by
  unfold rows AList.keys List.keys
  rw [List.filterMap_map, List.filterMap_map]
  refine List.filterMap_congr fun r hr => ?_
  have hlookup : t.lookup r.1 = some r.2 := AList.mem_lookup_iff.2 hr
  simp only [Function.comp, hlookup, Option.bind_some]

/-- **Searching the cells in which something can be found.** -/
theorem search_perm (h : Exact b (place cell t)) {cells : List C} (hcells : cells.Nodup)
    (f : I → E → Option R)
    (hf : ∀ i e r, t.lookup i = some e → f i e = some r → cell e ∈ cells) :
    ((cells.flatMap b).filterMap fun i => (t.lookup i).bind (f i)).Perm
      ((rows t).filterMap fun r => f r.1 r.2) := by
  rw [filterMap_rows]
  refine filterMap_flatMap_perm h hcells t.keys_nodup (fun i c hc => ?_) _ fun i r hr => ?_
  · obtain ⟨e, he, -⟩ := Option.map_eq_some_iff.1 hc
    exact AList.lookup_isSome.1 (by rw [he]; rfl)
  · obtain ⟨e, he, hfound⟩ := Option.bind_eq_some_iff.1 hr
    exact ⟨cell e, hf i e r he hfound, place_eq_some he⟩

end

/-! ## Square neighbourhoods -/

/-- `-radius..=radius` -/
def offsets (radius : Int) : List Int :=
  (List.range (2 * radius + 1).toNat).map fun i : Nat => (i : Int) - radius

theorem mem_offsets {radius d : Int} : d ∈ offsets radius ↔ -radius ≤ d ∧ d ≤ radius := by
  simp only [offsets, List.mem_map, List.mem_range]
  constructor
  · rintro ⟨i, hi, rfl⟩
    omega
  · rintro ⟨h₁, h₂⟩
    exact ⟨(d + radius).toNat, by omega, by omega⟩

theorem nodup_offsets (radius : Int) : (offsets radius).Nodup :=
  List.nodup_range.map fun i j h => by
    have h : (i : Int) - radius = (j : Int) - radius := h
    omega

/-- The cells at most `radius` away along both axes. -/
def around (o : Int × Int) (radius : Int) : List (Int × Int) :=
  (offsets radius).flatMap fun dx => (offsets radius).map fun dz => (o.1 + dx, o.2 + dz)

theorem mem_around {o c : Int × Int} {radius : Int} :
    c ∈ around o radius ↔ (o.1 - radius ≤ c.1 ∧ c.1 ≤ o.1 + radius) ∧
      (o.2 - radius ≤ c.2 ∧ c.2 ≤ o.2 + radius) := by
  simp only [around, List.mem_flatMap, List.mem_map, mem_offsets]
  constructor
  · rintro ⟨dx, hdx, dz, hdz, rfl⟩
    simp only
    omega
  · rintro ⟨h₁, h₂⟩
    exact ⟨c.1 - o.1, by omega, c.2 - o.2, by omega, by ext <;> simp only <;> omega⟩

theorem nodup_around (o : Int × Int) (radius : Int) : (around o radius).Nodup := by
  refine List.nodup_flatMap.2 ⟨fun dx _ => ?_, ?_⟩
  · refine (nodup_offsets radius).map fun i j h => ?_
    have := (Prod.mk.inj h).2
    omega
  · refine (nodup_offsets radius).imp fun hne => ?_
    intro c hc hc'
    obtain ⟨_, -, rfl⟩ := List.mem_map.1 hc
    obtain ⟨_, -, h⟩ := List.mem_map.1 hc'
    have := (Prod.mk.inj h).1
    omega

end GridIndex
