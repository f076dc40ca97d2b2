import Apoptotic.Player.Recipes
import Mathlib.Tactic.IntervalCases

/-!
# Shaped recipes on the grid

What `check_recipe_at` and `check_recipe_at_3x3` accept, as a property of the slots by column and row.

Principal results: `checkAt_spec` — a check within the grid answers whether the grid `Fits`;
`shaped_exact_iff` — the check means the pattern exactly when the pattern has no gap;
`findMatch3x3_embed` — a grid of side 2 in a corner of one of side 3 gives the same recipe.
-/

namespace Apoptotic.Recipes

open Bytes Outcome Commands

variable {n : Nat} {recipe : Recipe} {ox oy : Nat}

/-- The entry of the pattern in a row and a column. -/
def Recipe.entry (recipe : Recipe) (ry rx : Nat) : List ItemId :=
  recipe.ingredients.getD (ry * recipe.width.toNat + rx) []

/-- The slot in a column and a row. -/
def slotAt (grid : Grid n) (gx gy : Nat) : Slot := (grid[gy * n + gx]?).getD none

def Grid.ofFn (slots : Nat → Nat → Slot) : Grid n := Vector.ofFn fun k => slots (k.val % n) (k.val / n)

theorem index_lt {k m i j : Nat} (hi : i < k) (hj : j < m) : i * m + j < k * m := by
  calc i * m + j < i * m + m := by omega
    _ = (i + 1) * m := (Nat.succ_mul i m).symm
    _ ≤ k * m := Nat.mul_le_mul_right m hi

theorem slotAt_ofFn (slots : Nat → Nat → Slot) {gx gy : Nat} (hx : gx < n) (hy : gy < n) :
    slotAt (Grid.ofFn slots : Grid n) gx gy = slots gx gy := by
  have hlt := index_lt hy hx
  unfold slotAt Grid.ofFn
  rw [Vector.getElem?_eq_getElem hlt, Option.getD_some, Vector.getElem_ofFn]
  dsimp only
  rw [Nat.mul_comm gy n, Nat.mul_add_mod, Nat.mod_eq_of_lt hx, Nat.mul_add_div (by omega),
    Nat.div_eq_of_lt hx, Nat.add_zero]

theorem getElem?_grid (grid : Grid n) {gx gy : Nat} (hx : gx < n) (hy : gy < n) :
    grid[gy * n + gx]? = some (slotAt grid gx gy) := by
  have hlt := index_lt hy hx
  unfold slotAt
  rw [Vector.getElem?_eq_getElem hlt, Option.getD_some]

/-- The places of the pattern hold items that are accepted there, and the grid is empty elsewhere. -/
structure Fits (recipe : Recipe) (grid : Grid n) (ox oy : Nat) : Prop where
  pattern : ∀ ry rx, ry < recipe.height.toNat → rx < recipe.width.toNat →
    (slotAt grid (ox + rx) (oy + ry)).any (fits (recipe.entry ry rx)) = true
  outside : ∀ gx gy, gx < n → gy < n → inRecipe recipe ox oy gx gy = false → slotAt grid gx gy = none

theorem inRecipe_iff {gx gy : Nat} : inRecipe recipe ox oy gx gy = true ↔
    (ox ≤ gx ∧ gx < ox + recipe.width.toNat) ∧ oy ≤ gy ∧ gy < oy + recipe.height.toNat := by
  unfold inRecipe
  rw [Bool.and_eq_true, decide_eq_true_eq, decide_eq_true_eq]

section

variable (hentries : recipe.width.toNat * recipe.height.toNat ≤ recipe.ingredients.length)
include hentries

theorem getElem?_entry {ry rx : Nat} (hy : ry < recipe.height.toNat) (hx : rx < recipe.width.toNat) :
    recipe.ingredients[ry * recipe.width.toNat + rx]? = some (recipe.entry ry rx) := by
  have hlt := index_lt hy hx
  rw [Nat.mul_comm] at hentries
  unfold Recipe.entry
  rw [List.getD_eq_getElem?_getD, List.getElem?_eq_getElem (by omega), Option.getD_some]

theorem cellMatches_eq (grid : Grid n) (hwidth : ox + recipe.width.toNat ≤ n)
    (hheight : oy + recipe.height.toNat ≤ n) {ry rx : Nat} (hy : ry < recipe.height.toNat)
    (hx : rx < recipe.width.toNat) :
    cellMatches recipe grid ox oy ry rx =
      .ok ((slotAt grid (ox + rx) (oy + ry)).any (fits (recipe.entry ry rx))) := by
  unfold cellMatches
  rw [getElem?_entry hentries hy hx, orPanic_some, ok_bind, getElem?_grid grid (by omega) (by omega)]
  rfl

omit hentries in
theorem outsideEmpty_eq (grid : Grid n) {gx gy : Nat} (hx : gx < n) (hy : gy < n) :
    outsideEmpty recipe grid ox oy gy gx =
      .ok (inRecipe recipe ox oy gx gy || (slotAt grid gx gy).isNone) := by
  unfold outsideEmpty
  cases inRecipe recipe ox oy gx gy with
  | true => rfl
  | false =>
      rw [getElem?_grid grid hx hy]
      rfl

/-- **A check within the grid answers whether the grid fits.** -/
theorem checkAt_spec (grid : Grid n) (hwidth : ox + recipe.width.toNat ≤ n)
    (hheight : oy + recipe.height.toNat ≤ n) :
    ∃ b, checkAt recipe grid ox oy = .ok b ∧ (b = true ↔ Fits recipe grid ox oy) := by
  have hpattern : (List.range recipe.height.toNat).allM (fun ry =>
      (List.range recipe.width.toNat).allM fun rx => cellMatches recipe grid ox oy ry rx) =
      .ok ((List.range recipe.height.toNat).all fun ry => (List.range recipe.width.toNat).all fun rx =>
        (slotAt grid (ox + rx) (oy + ry)).any (fits (recipe.entry ry rx))) :=
    allM_eq fun ry hry => allM_eq fun rx hrx =>
      cellMatches_eq hentries grid hwidth hheight (List.mem_range.1 hry) (List.mem_range.1 hrx)
  have houtside : (List.range n).allM (fun gy => (List.range n).allM fun gx =>
      outsideEmpty recipe grid ox oy gy gx) =
      .ok ((List.range n).all fun gy => (List.range n).all fun gx =>
        inRecipe recipe ox oy gx gy || (slotAt grid gx gy).isNone) :=
    allM_eq fun gy hgy => allM_eq fun gx hgx =>
      outsideEmpty_eq grid (List.mem_range.1 hgx) (List.mem_range.1 hgy)
  unfold checkAt
  rw [hpattern, ok_bind, houtside]
  refine ⟨_, (apply_ite Outcome.ok _ _ _).symm, ?_⟩
  constructor
  · intro hcheck
    split at hcheck
    · rename_i hall
      simp only [List.all_eq_true, List.mem_range, Bool.or_eq_true, Option.isNone_iff_eq_none] at hall hcheck
      exact ⟨fun ry rx hry hrx => hall ry hry rx hrx, fun gx gy hgx hgy hout =>
        (hcheck gy hgy gx hgx).resolve_left (by rw [hout]; decide)⟩
    · cases hcheck
  · intro hfits
    rw [if_pos]
    · simp only [List.all_eq_true, List.mem_range, Bool.or_eq_true, Option.isNone_iff_eq_none]
      intro gy hgy gx hgx
      cases hin : inRecipe recipe ox oy gx gy with
      | true => exact .inl rfl
      | false => exact .inr (hfits.outside gx gy hgx hgy hin)
    · simp only [List.all_eq_true, List.mem_range]
      exact fun ry hry rx hrx => hfits.pattern ry rx hry hrx

theorem checkAt_eq_true_iff (grid : Grid n) (hwidth : ox + recipe.width.toNat ≤ n)
    (hheight : oy + recipe.height.toNat ≤ n) :
    checkAt recipe grid ox oy = .ok true ↔ Fits recipe grid ox oy := by
  obtain ⟨b, hcheck, hb⟩ := checkAt_spec hentries grid hwidth hheight
  rw [hcheck, Outcome.ok.injEq]
  exact hb

end

/-! ## Patterns with gaps -/

/-- The entry that stands for an empty place. -/
def placeholder : List ItemId := [0]

/-- The grid is the pattern at an offset: its gaps and everything outside are empty. -/
structure Placed (recipe : Recipe) (grid : Grid n) (ox oy : Nat) : Prop where
  pattern : ∀ ry rx, ry < recipe.height.toNat → rx < recipe.width.toNat →
    if recipe.entry ry rx = placeholder then slotAt grid (ox + rx) (oy + ry) = none
    else (slotAt grid (ox + rx) (oy + ry)).any (fits (recipe.entry ry rx)) = true
  outside : ∀ gx gy, gx < n → gy < n → inRecipe recipe ox oy gx gy = false → slotAt grid gx gy = none

/-- The offsets at which the recipe is within a grid of side `n`. -/
def Within (n : Nat) (recipe : Recipe) (ox oy : Nat) : Prop :=
  ox + recipe.width.toNat ≤ n ∧ oy + recipe.height.toNat ≤ n

def Accepted (recipe : Recipe) (grid : Grid 3) : Prop :=
  ∃ ox oy, Within 3 recipe ox oy ∧ checkRecipeAt3x3 recipe grid ox oy = .ok true

def IsPattern (recipe : Recipe) (grid : Grid 3) : Prop :=
  ∃ ox oy, Within 3 recipe ox oy ∧ Placed recipe grid ox oy

/-- Some grid is the pattern and accepted as such. -/
def Craftable (recipe : Recipe) : Prop := ∃ grid, IsPattern recipe grid ∧ Accepted recipe grid

section

variable (hlen : recipe.ingredients.length = recipe.width.toNat * recipe.height.toNat)
include hlen

theorem entry_mem {ry rx : Nat} (hy : ry < recipe.height.toNat) (hx : rx < recipe.width.toNat) :
    recipe.entry ry rx ∈ recipe.ingredients :=
  List.mem_of_getElem? (getElem?_entry (by omega) hy hx)

theorem exists_entry {choices : List ItemId} (h : choices ∈ recipe.ingredients) :
    ∃ ry rx, ry < recipe.height.toNat ∧ rx < recipe.width.toNat ∧ recipe.entry ry rx = choices := by
  obtain ⟨i, hi, rfl⟩ := List.getElem_of_mem h
  have hw : 0 < recipe.width.toNat := by
    by_contra hzero
    rw [Nat.eq_zero_of_not_pos hzero, Nat.zero_mul] at hlen
    omega
  refine ⟨i / recipe.width.toNat, i % recipe.width.toNat, ?_, Nat.mod_lt _ hw, ?_⟩
  · rw [Nat.div_lt_iff_lt_mul hw, Nat.mul_comm, ← hlen]
    exact hi
  · rw [Recipe.entry, Nat.div_add_mod', List.getD_eq_getElem?_getD, List.getElem?_eq_getElem hi,
      Option.getD_some]

theorem accepted_iff_fits (grid : Grid 3) :
    Accepted recipe grid ↔ ∃ ox oy, Within 3 recipe ox oy ∧ Fits recipe grid ox oy := by
  refine exists_congr fun ox => exists_congr fun oy => and_congr_right fun hwithin => ?_
  exact checkAt_eq_true_iff (by omega) grid hwithin.1 hwithin.2

omit hlen in
/-- Without gaps the check means the pattern. -/
theorem placed_iff_fits (grid : Grid n)
    (hgaps : ∀ ry rx, ry < recipe.height.toNat → rx < recipe.width.toNat →
      recipe.entry ry rx ≠ placeholder) : Placed recipe grid ox oy ↔ Fits recipe grid ox oy := by
  constructor
  · intro h
    refine ⟨fun ry rx hry hrx => ?_, h.outside⟩
    have hplace := h.pattern ry rx hry hrx
    rw [if_neg (hgaps ry rx hry hrx)] at hplace
    exact hplace
  · intro h
    refine ⟨fun ry rx hry hrx => ?_, h.outside⟩
    rw [if_neg (hgaps ry rx hry hrx)]
    exact h.pattern ry rx hry hrx

omit hlen in
/-- No grid is accepted at one offset and the pattern with a gap at another: both offsets are the same,
and the gap is both filled and empty. -/
theorem not_fits_of_placed {grid : Grid n} {px py ry rx : Nat} (hry : ry < recipe.height.toNat)
    (hrx : rx < recipe.width.toNat) (hgap : recipe.entry ry rx = placeholder)
    (hwithin : Within n recipe ox oy) (hplaced : Placed recipe grid px py) :
    ¬ Fits recipe grid ox oy := by
  intro hfits
  -- a filled place is inside the pattern
  have hinside : ∀ ry rx, ry < recipe.height.toNat → rx < recipe.width.toNat →
      (px ≤ ox + rx ∧ ox + rx < px + recipe.width.toNat) ∧
        py ≤ oy + ry ∧ oy + ry < py + recipe.height.toNat := by
    intro ry rx hry hrx
    rw [← inRecipe_iff]
    by_contra hout
    have hfilled := hfits.pattern ry rx hry hrx
    rw [hplaced.outside _ _ (by unfold Within at hwithin; omega) (by unfold Within at hwithin; omega)
      (by simpa using hout)] at hfilled
    cases hfilled
  have hfirst := hinside 0 0 (by omega) (by omega)
  have hlast := hinside (recipe.height.toNat - 1) (recipe.width.toNat - 1) (by omega) (by omega)
  obtain rfl : ox = px := by omega
  obtain rfl : oy = py := by omega
  have hempty := hplaced.pattern ry rx hry hrx
  rw [if_pos hgap] at hempty
  have hfilled := hfits.pattern ry rx hry hrx
  rw [hempty] at hfilled
  cases hfilled

omit hlen in
/-- The pattern in the first corner, with the first item of each entry. -/
def patternGrid (recipe : Recipe) : Grid 3 :=
  Grid.ofFn fun gx gy =>
    if gx < recipe.width.toNat ∧ gy < recipe.height.toNat ∧ recipe.entry gy gx ≠ placeholder then
      (recipe.entry gy gx).head?.map stackOf
    else none

theorem placed_patternGrid (hwidth : recipe.width.toNat ≤ 3) (hheight : recipe.height.toNat ≤ 3)
    (hsome : [] ∉ recipe.ingredients) : Placed recipe (patternGrid recipe) 0 0 := by
  constructor
  · intro ry rx hry hrx
    rw [Nat.zero_add, Nat.zero_add, patternGrid, slotAt_ofFn _ (by omega) (by omega)]
    by_cases hgap : recipe.entry ry rx = placeholder
    · rw [if_pos hgap, if_neg fun h => h.2.2 hgap]
    · rw [if_neg hgap, if_pos ⟨hrx, hry, hgap⟩]
      cases hentry : recipe.entry ry rx with
      | nil => exact absurd (hentry ▸ entry_mem hlen hry hrx) hsome
      | cons id choices => exact (fits_stackOf _ id).2 (by simp)
  · intro gx gy hgx hgy hout
    rw [patternGrid, slotAt_ofFn _ hgx hgy, if_neg]
    intro hin
    have htrue : inRecipe recipe 0 0 gx gy = true :=
      inRecipe_iff.2 ⟨⟨by omega, by omega⟩, by omega, by omega⟩
    rw [htrue] at hout
    cases hout

/-- A grid that shows a pattern with a gap is not accepted. -/
theorem not_accepted_of_gap (hgap : placeholder ∈ recipe.ingredients) {grid : Grid 3}
    (hpattern : IsPattern recipe grid) : ¬ Accepted recipe grid := by
  intro haccepted
  obtain ⟨px, py, _, hplaced⟩ := hpattern
  obtain ⟨ry, rx, hry, hrx, hentry⟩ := exists_entry hlen hgap
  obtain ⟨ox, oy, hwithin, hfits⟩ := (accepted_iff_fits hlen grid).1 haccepted
  exact not_fits_of_placed hry hrx hentry hwithin hplaced hfits

theorem accepted_iff_of_gapless (hgap : placeholder ∉ recipe.ingredients) (grid : Grid 3) :
    Accepted recipe grid ↔ IsPattern recipe grid := by
  rw [accepted_iff_fits hlen]
  refine exists_congr fun ox => exists_congr fun oy => and_congr_right fun _ => ?_
  refine (placed_iff_fits grid fun ry rx hry hrx hentry => ?_).symm
  exact hgap (hentry ▸ entry_mem hlen hry hrx)

/-- An entry without a choice is met by no grid. -/
theorem accepted_iff_of_choiceless (hnone : [] ∈ recipe.ingredients) (grid : Grid 3) :
    Accepted recipe grid ↔ IsPattern recipe grid := by
  obtain ⟨ry, rx, hry, hrx, hentry⟩ := exists_entry hlen hnone
  have hnever : ∀ slot : Slot, slot.any (fits (recipe.entry ry rx)) = false := by
    intro slot
    rw [hentry]
    cases slot <;> rfl
  constructor
  · intro haccepted
    obtain ⟨ox, oy, _, hfits⟩ := (accepted_iff_fits hlen grid).1 haccepted
    have hfilled := hfits.pattern ry rx hry hrx
    rw [hnever] at hfilled
    cases hfilled
  · rintro ⟨ox, oy, _, hplaced⟩
    have hfilled := hplaced.pattern ry rx hry hrx
    rw [if_neg (by rw [hentry]; decide), hnever] at hfilled
    cases hfilled

omit hlen in
/-- Nor is a pattern larger than the grid. -/
theorem accepted_iff_of_large (hsize : 3 < recipe.width.toNat ∨ 3 < recipe.height.toNat)
    (grid : Grid 3) : Accepted recipe grid ↔ IsPattern recipe grid := by
  constructor
  · rintro ⟨ox, oy, hwithin, _⟩
    unfold Within at hwithin
    omega
  · rintro ⟨ox, oy, hwithin, _⟩
    unfold Within at hwithin
    omega

theorem isPattern_patternGrid (hwidth : recipe.width.toNat ≤ 3) (hheight : recipe.height.toNat ≤ 3)
    (hsome : [] ∉ recipe.ingredients) : IsPattern recipe (patternGrid recipe) :=
  ⟨0, 0, ⟨by omega, by omega⟩, placed_patternGrid hlen hwidth hheight hsome⟩

/-- **When the check means the pattern**: for all grids, exactly when no entry is the one that stands for
an empty place, or the recipe can be met by no grid at all; and a recipe that could be met is craftable
exactly when it has no such entry. -/
theorem shaped_exact_iff :
    ((∀ grid, Accepted recipe grid ↔ IsPattern recipe grid) ↔
        placeholder ∉ recipe.ingredients ∨ [] ∈ recipe.ingredients ∨ 3 < recipe.width.toNat ∨
          3 < recipe.height.toNat) ∧
      (recipe.width.toNat ≤ 3 → recipe.height.toNat ≤ 3 → [] ∉ recipe.ingredients →
        (Craftable recipe ↔ placeholder ∉ recipe.ingredients)) := by
  refine ⟨⟨fun h => ?_, ?_⟩, fun hwidth hheight hsome => ⟨?_, fun hgap => ?_⟩⟩
  · by_contra hcon
    rw [not_or, not_or, not_or, not_not] at hcon
    obtain ⟨hgap, hsome, hwidth, hheight⟩ := hcon
    have hpattern := isPattern_patternGrid hlen (by omega) (by omega) hsome
    exact not_accepted_of_gap hlen hgap hpattern ((h _).2 hpattern)
  · rintro (hgap | hnone | hsize) grid
    · exact accepted_iff_of_gapless hlen hgap grid
    · exact accepted_iff_of_choiceless hlen hnone grid
    · exact accepted_iff_of_large hsize grid
  · rintro ⟨grid, hpattern, haccepted⟩ hgap
    exact not_accepted_of_gap hlen hgap hpattern haccepted
  · have hpattern := isPattern_patternGrid hlen hwidth hheight hsome
    exact ⟨_, hpattern, (accepted_iff_of_gapless hlen hgap _).2 hpattern⟩

end

/-- A stick from two planks has no gap. -/
theorem stick_craftable : Craftable ⟨1, 2, false, [[13, 14], [13, 14]], 794, 4⟩ := by
  have h := @shaped_exact_iff ⟨1, 2, false, [[13, 14], [13, 14]], 794, 4⟩ rfl
  exact (h.2 (by decide) (by decide) (by decide)).2 (by decide)

/-- The pickaxe of the datapack loader's own test: the pattern is in the grid and is not accepted. -/
theorem pickaxe_refused :
    IsPattern ⟨3, 3, false, [[778], [778], [778], [0], [794], [0], [0], [794], [0]], 769, 1⟩
        (patternGrid ⟨3, 3, false, [[778], [778], [778], [0], [794], [0], [0], [794], [0]], 769, 1⟩) ∧
      ¬ Accepted ⟨3, 3, false, [[778], [778], [778], [0], [794], [0], [0], [794], [0]], 769, 1⟩
        (patternGrid ⟨3, 3, false, [[778], [778], [778], [0], [794], [0], [0], [794], [0]], 769, 1⟩) := by
  refine ⟨⟨0, 0, by unfold Within; decide, placed_patternGrid rfl (by decide) (by decide) (by decide)⟩, ?_⟩
  rintro ⟨ox, oy, hwithin, hcheck⟩
  unfold Within at hwithin
  obtain rfl : ox = 0 := by simp at hwithin; omega
  obtain rfl : oy = 0 := by simp at hwithin; omega
  exact absurd hcheck (by decide)

/-! ## One grid inside the other -/

/-- A grid of side 2 in a corner of an empty grid of side 3. -/
def embed (grid : Grid 2) (cx cy : Nat) : Grid 3 :=
  Grid.ofFn fun gx gy =>
    if (cx ≤ gx ∧ gx < cx + 2) ∧ cy ≤ gy ∧ gy < cy + 2 then slotAt grid (gx - cx) (gy - cy) else none

theorem slotAt_embed (grid : Grid 2) (cx cy : Nat) {gx gy : Nat} (hx : gx < 3) (hy : gy < 3) :
    slotAt (embed grid cx cy) gx gy =
      if (cx ≤ gx ∧ gx < cx + 2) ∧ cy ≤ gy ∧ gy < cy + 2 then slotAt grid (gx - cx) (gy - cy) else none :=
  slotAt_ofFn _ hx hy

/-- The items of the embedded grid come in the same order. -/
theorem reduceOption_embed (grid : Grid 2) {cx cy : Nat} (hcx : cx ≤ 1) (hcy : cy ≤ 1) :
    (embed grid cx cy).toList.reduceOption = grid.toList.reduceOption := by
  have hsmall : grid.toList = [slotAt grid 0 0, slotAt grid 1 0, slotAt grid 0 1, slotAt grid 1 1] := by
    obtain ⟨⟨slots⟩, hsize⟩ := grid
    match slots, hsize with
    | [_, _, _, _], _ => rfl
  have hlarge : (embed grid cx cy).toList = (List.finRange 9).map fun k =>
      if (cx ≤ k.val % 3 ∧ k.val % 3 < cx + 2) ∧ cy ≤ k.val / 3 ∧ k.val / 3 < cy + 2 then
        slotAt grid (k.val % 3 - cx) (k.val / 3 - cy) else none := by
    rw [embed, Grid.ofFn, Vector.toList_ofFn, List.ofFn_eq_map]
  rw [hsmall, hlarge]
  interval_cases cx <;> interval_cases cy <;> rfl

/-- Where the small grid fits, the large one fits at the offset moved by the corner. -/
theorem fits_embed {grid : Grid 2} {cx cy : Nat} (hcx : cx ≤ 1) (hcy : cy ≤ 1)
    (hwithin : Within 2 recipe ox oy) (h : Fits recipe grid ox oy) :
    Within 3 recipe (ox + cx) (oy + cy) ∧ Fits recipe (embed grid cx cy) (ox + cx) (oy + cy) := by
  unfold Within at hwithin ⊢
  refine ⟨by omega, fun ry rx hry hrx => ?_, fun gx gy hgx hgy hout => ?_⟩
  · rw [slotAt_embed grid cx cy (by omega) (by omega), if_pos (by omega),
      show ox + cx + rx - cx = ox + rx by omega, show oy + cy + ry - cy = oy + ry by omega]
    exact h.pattern ry rx hry hrx
  · rw [slotAt_embed grid cx cy hgx hgy]
    split
    · rename_i hcorner
      refine h.outside _ _ (by omega) (by omega) ?_
      rw [Bool.eq_false_iff, ne_eq, inRecipe_iff] at hout ⊢
      omega
    · rfl

/-- Where the large grid fits, the pattern lies in the corner. -/
theorem fits_of_embed {grid : Grid 2} {cx cy : Nat} (hcx : cx ≤ 1) (hcy : cy ≤ 1)
    (hwidth : 1 ≤ recipe.width.toNat) (hheight : 1 ≤ recipe.height.toNat)
    (hwithin : Within 3 recipe ox oy) (h : Fits recipe (embed grid cx cy) ox oy) :
    Within 2 recipe (ox - cx) (oy - cy) ∧ Fits recipe grid (ox - cx) (oy - cy) := by
  unfold Within at hwithin
  have hcorner : ∀ ry rx, ry < recipe.height.toNat → rx < recipe.width.toNat →
      ((cx ≤ ox + rx ∧ ox + rx < cx + 2) ∧ cy ≤ oy + ry ∧ oy + ry < cy + 2) ∧
        (slotAt grid (ox + rx - cx) (oy + ry - cy)).any (fits (recipe.entry ry rx)) = true := by
    intro ry rx hry hrx
    have hfilled := h.pattern ry rx hry hrx
    rw [slotAt_embed grid cx cy (by omega) (by omega)] at hfilled
    split at hfilled
    · rename_i hin
      exact ⟨hin, hfilled⟩
    · cases hfilled
  have hfirst := (hcorner 0 0 (by omega) (by omega)).1
  have hlast := (hcorner (recipe.height.toNat - 1) (recipe.width.toNat - 1) (by omega) (by omega)).1
  refine ⟨⟨by omega, by omega⟩, fun ry rx hry hrx => ?_, fun gx gy hgx hgy hout => ?_⟩
  · have hfilled := (hcorner ry rx hry hrx).2
    rw [show ox + rx - cx = ox - cx + rx by omega, show oy + ry - cy = oy - cy + ry by omega] at hfilled
    exact hfilled
  · have hempty := h.outside (gx + cx) (gy + cy) (by omega) (by omega) (by
      rw [Bool.eq_false_iff, ne_eq, inRecipe_iff] at hout ⊢
      omega)
    rw [slotAt_embed grid cx cy (by omega) (by omega), if_pos (by omega),
      show gx + cx - cx = gx by omega, show gy + cy - cy = gy by omega] at hempty
    exact hempty

/-- What the body of the loop answers for a recipe with enough ingredients. -/
theorem matchesRecipe_shaped (hentries : recipe.width.toNat * recipe.height.toNat ≤ recipe.ingredients.length)
    (hshaped : recipe.isShapeless = false) (grid : Grid n) :
    ∃ b, matchesRecipe recipe grid = .ok b ∧
      (b = true ↔ ∃ ox oy, Within n recipe ox oy ∧ Fits recipe grid ox oy) := by
  unfold matchesRecipe
  rw [hshaped, if_neg (by decide)]
  by_cases hsize : recipe.width.toNat > n ∨ recipe.height.toNat > n
  · rw [if_pos hsize]
    refine ⟨false, rfl, nofun, ?_⟩
    rintro ⟨ox, oy, hwithin, _⟩
    unfold Within at hwithin
    omega
  · rw [if_neg hsize]
    classical
    have hcheck : ∀ ox oy, ox ∈ List.range (n - recipe.width.toNat + 1) →
        oy ∈ List.range (n - recipe.height.toNat + 1) →
          checkAt recipe grid ox oy = .ok (decide (Fits recipe grid ox oy)) := by
      intro ox oy hox hoy
      rw [List.mem_range] at hox hoy
      have hwidth : ox + recipe.width.toNat ≤ n := by omega
      have hheight : oy + recipe.height.toNat ≤ n := by omega
      obtain ⟨b, hb, hiff⟩ := checkAt_spec hentries grid hwidth hheight
      rw [hb]
      cases b with
      | true => rw [decide_eq_true (hiff.1 rfl)]
      | false => rw [decide_eq_false fun hfits => by cases hiff.2 hfits]
    rw [anyM_eq fun ox hox => anyM_eq fun oy hoy => hcheck ox oy hox hoy]
    refine ⟨_, rfl, ?_⟩
    simp only [List.any_eq_true, List.mem_range, decide_eq_true_eq]
    constructor
    · rintro ⟨ox, hox, oy, hoy, hfits⟩
      exact ⟨ox, oy, ⟨by omega, by omega⟩, hfits⟩
    · rintro ⟨ox, oy, hwithin, hfits⟩
      unfold Within at hwithin
      exact ⟨ox, by omega, oy, by omega, hfits⟩

theorem matchesRecipe_shapeless (hshapeless : recipe.isShapeless = true) (grid : Grid n) :
    matchesRecipe recipe grid =
      .ok (FirstFit.greedy Recipes.fits recipe.ingredients grid.toList.reduceOption) := by
  unfold matchesRecipe
  rw [hshapeless, if_pos rfl]
  have h := checkShapeless_eq recipe grid.toList
  rw [Vector.length_toList] at h
  exact h

/-- A recipe that can be matched at all: at least one place, and an entry for each. -/
structure Sized (recipe : Recipe) : Prop where
  width_pos : 1 ≤ recipe.width.toNat
  height_pos : 1 ≤ recipe.height.toNat
  entries : recipe.width.toNat * recipe.height.toNat ≤ recipe.ingredients.length

/-- One recipe is matched in both grids or in none. -/
theorem matchesRecipe_embed (hsized : Sized recipe) (grid : Grid 2) {cx cy : Nat} (hcx : cx ≤ 1)
    (hcy : cy ≤ 1) :
    ∃ b, matchesRecipe recipe grid = .ok b ∧ matchesRecipe recipe (embed grid cx cy) = .ok b := by
  cases hshapeless : recipe.isShapeless with
  | true =>
      rw [matchesRecipe_shapeless hshapeless, matchesRecipe_shapeless hshapeless,
        reduceOption_embed grid hcx hcy]
      exact ⟨_, rfl, rfl⟩
  | false =>
      obtain ⟨b, hb, hsmall⟩ := matchesRecipe_shaped hsized.entries hshapeless grid
      obtain ⟨b', hb', hlarge⟩ := matchesRecipe_shaped hsized.entries hshapeless (embed grid cx cy)
      refine ⟨b, hb, ?_⟩
      rw [hb', Outcome.ok.injEq, Bool.eq_iff_iff, hlarge, hsmall]
      constructor
      · rintro ⟨ox, oy, hwithin, hfits⟩
        exact ⟨_, _, fits_of_embed hcx hcy hsized.width_pos hsized.height_pos hwithin hfits⟩
      · rintro ⟨ox, oy, hwithin, hfits⟩
        exact ⟨_, _, fits_embed hcx hcy hwithin hfits⟩

theorem findFrom_embed (idx : Nat) (grid : Grid 2) {cx cy : Nat} (hcx : cx ≤ 1) (hcy : cy ≤ 1)
    {recipes : List Recipe} (hsized : ∀ recipe ∈ recipes, Sized recipe) :
    ∃ found, findFrom idx grid recipes = .ok found ∧
      findFrom idx (embed grid cx cy) recipes = .ok found := by
  induction recipes generalizing idx with
  | nil => exact ⟨none, rfl, rfl⟩
  | cons recipe recipes ih =>
      obtain ⟨b, hsmall, hlarge⟩ := matchesRecipe_embed (hsized recipe (by simp)) grid hcx hcy
      unfold findFrom
      rw [hsmall, hlarge, ok_bind, ok_bind]
      cases b with
      | true => exact ⟨_, rfl, rfl⟩
      | false => exact ih (idx + 1) fun r hr => hsized r (by simp [hr])

/-- **The two matchers agree** on a grid of side 2 and on the same grid in any corner of the other. -/
theorem findMatch3x3_embed (recipes : List Recipe) (hsized : ∀ recipe ∈ recipes, Sized recipe)
    (grid : Grid 2) (cx cy : Nat) (hcx : cx ≤ 1) (hcy : cy ≤ 1) :
    ∃ found, findMatch recipes grid = .ok found ∧ findMatch3x3 recipes (embed grid cx cy) = .ok found :=
  findFrom_embed 0 grid hcx hcy hsized

/-- One log in a corner. -/
theorem log_found :
    ∃ found, findMatch [⟨1, 1, false, [[34]], 13, 4⟩] #v[none, some (stackOf 34), none, none] = .ok found ∧
      findMatch3x3 [⟨1, 1, false, [[34]], 13, 4⟩]
        (embed #v[none, some (stackOf 34), none, none] 1 0) = .ok found :=
  findMatch3x3_embed _ (by rintro recipe hrecipe
                           obtain rfl := List.mem_singleton.1 hrecipe
                           exact ⟨by decide, by decide, by decide⟩) _ 1 0 (by decide) (by decide)

/-! ## Recipes with too few entries -/

/-- The matchers never index out of range, whatever is in the grid. -/
def Safe (recipes : List Recipe) : Prop :=
  (∀ grid, findMatch recipes grid ≠ .panic) ∧ ∀ grid, findMatch3x3 recipes grid ≠ .panic

theorem findFrom_append_ne_panic {idx : Nat} {grid : Grid n} {recipes : List Recipe}
    (h : findFrom idx grid recipes ≠ .panic) (hlast : matchesRecipe recipe grid ≠ .panic) :
    findFrom idx grid (recipes ++ [recipe]) ≠ .panic := by
  induction recipes generalizing idx with
  | nil =>
      rw [List.nil_append, findFrom]
      refine bind_ne_panic hlast fun b _ => ?_
      cases b
      · exact nofun
      · exact nofun
  | cons first recipes ih =>
      rw [List.cons_append, findFrom]
      rw [findFrom] at h
      cases hfirst : matchesRecipe first grid with
      | ok b =>
          rw [hfirst, ok_bind] at h
          rw [ok_bind]
          cases b with
          | true => exact nofun
          | false => exact ih h
      | err e => exact nofun
      | panic => exact absurd (by rw [hfirst, panic_bind]) h

theorem matchesRecipe_ne_panic (hshaped : recipe.isShapeless = false)
    (h : recipe.width.toNat ≤ n → recipe.height.toNat ≤ n →
      recipe.width.toNat * recipe.height.toNat ≤ recipe.ingredients.length) (grid : Grid n) :
    matchesRecipe recipe grid ≠ .panic := by
  by_cases hsize : recipe.width.toNat > n ∨ recipe.height.toNat > n
  · unfold matchesRecipe
    rw [hshaped, if_neg (by decide), if_pos hsize]
    exact nofun
  · obtain ⟨b, hb, _⟩ := matchesRecipe_shaped (h (by omega) (by omega)) hshaped grid
    rw [hb]
    exact nofun

theorem range_split {k m : Nat} (h : k < m) : ∃ back, List.range m = List.range k ++ k :: back := by
  refine ⟨(List.range (m - k - 1)).map (k + ·.succ), ?_⟩
  rw [show m = k + (m - k - 1 + 1) by omega, List.range_add, List.range_succ_eq_map, List.map_cons,
    List.map_map, show k + (m - k - 1 + 1) - k - 1 = m - k - 1 by omega]
  rfl

theorem anyM_range_panic {p : Nat → Outcome Unit Bool} (m : Nat) (h : p 0 = .panic) :
    (List.range (m + 1)).anyM p = .panic := by
  rw [List.range_succ_eq_map, List.anyM, h, panic_bind]

/-- The first item of each entry where the entry stands. -/
def filledGrid (recipe : Recipe) : Grid n :=
  Grid.ofFn fun gx gy => (recipe.entry gy gx).head?.map stackOf

/-- The scan goes through all entries there are, and one further. -/
theorem checkAt_filledGrid (hwidth : recipe.width.toNat ≤ n) (hheight : recipe.height.toNat ≤ n)
    (hfew : recipe.ingredients.length < recipe.width.toNat * recipe.height.toNat)
    (hsome : [] ∉ recipe.ingredients) : checkAt recipe (filledGrid recipe : Grid n) 0 0 = .panic := by
  have hw : 0 < recipe.width.toNat := by
    by_contra hzero
    rw [Nat.eq_zero_of_not_pos hzero, Nat.zero_mul] at hfew
    omega
  have hcell : ∀ ry rx, ry < recipe.height.toNat → rx < recipe.width.toNat →
      ry * recipe.width.toNat + rx < recipe.ingredients.length →
        cellMatches recipe (filledGrid recipe : Grid n) 0 0 ry rx = .ok true := by
    intro ry rx hry hrx hlt
    unfold cellMatches
    rw [List.getElem?_eq_getElem hlt, orPanic_some, ok_bind, Nat.zero_add, Nat.zero_add,
      getElem?_grid _ (by omega) (by omega), orPanic_some, ok_bind, filledGrid,
      slotAt_ofFn _ (by omega) (by omega), Recipe.entry, List.getD_eq_getElem?_getD,
      List.getElem?_eq_getElem hlt, Option.getD_some]
    have hmem := List.getElem_mem hlt
    cases hentry : recipe.ingredients[ry * recipe.width.toNat + rx] with
    | nil => exact absurd (hentry ▸ hmem) hsome
    | cons id choices =>
        have hfit := (fits_stackOf (id :: choices) id).2 (by simp)
        exact congrArg Outcome.ok hfit
  have hdiv := Nat.div_add_mod' recipe.ingredients.length recipe.width.toNat
  have hmod := Nat.mod_lt recipe.ingredients.length hw
  have hrow : recipe.ingredients.length / recipe.width.toNat < recipe.height.toNat := by
    rw [Nat.div_lt_iff_lt_mul hw, Nat.mul_comm]
    exact hfew
  obtain ⟨rows, hrows⟩ := range_split hrow
  obtain ⟨columns, hcolumns⟩ := range_split hmod
  have hpattern : (List.range recipe.height.toNat).allM (fun ry => (List.range recipe.width.toNat).allM
      fun rx => cellMatches recipe (filledGrid recipe : Grid n) 0 0 ry rx) = .panic := by
    rw [hrows]
    refine allM_panic (fun ry hry => ?_) ?_
    · rw [List.mem_range] at hry
      have hall := allM_eq (l := List.range recipe.width.toNat) (q := fun _ => true)
        (p := fun rx => cellMatches recipe (filledGrid recipe : Grid n) 0 0 ry rx) fun rx hrx => by
          rw [List.mem_range] at hrx
          refine hcell ry rx (by omega) hrx ?_
          have hlt := index_lt hry hrx
          omega
      rw [hall]
      simp
    · rw [hcolumns]
      refine allM_panic (fun rx hrx => ?_) ?_
      · rw [List.mem_range] at hrx
        exact hcell _ rx hrow (by omega) (by omega)
      · unfold cellMatches
        rw [hdiv, List.getElem?_eq_none (Nat.le_refl _)]
        rfl
  unfold checkAt
  rw [hpattern, panic_bind]

theorem matchesRecipe_filledGrid (hshaped : recipe.isShapeless = false)
    (hwidth : recipe.width.toNat ≤ n) (hheight : recipe.height.toNat ≤ n)
    (hfew : recipe.ingredients.length < recipe.width.toNat * recipe.height.toNat)
    (hsome : [] ∉ recipe.ingredients) : matchesRecipe recipe (filledGrid recipe : Grid n) = .panic := by
  unfold matchesRecipe
  rw [hshaped, if_neg (by decide), if_neg (by omega)]
  exact anyM_range_panic _ (anyM_range_panic _ (checkAt_filledGrid hwidth hheight hfew hsome))

/-- **Which shaped recipe can be added to any safe registry**: one that has enough entries, or is wider
or higher than the grid. -/
theorem safe_append_iff (hshaped : recipe.isShapeless = false) (hsome : [] ∉ recipe.ingredients) :
    (∀ recipes, Safe recipes → Safe (recipes ++ [recipe])) ↔
      ¬ (recipe.width.toNat ≤ 3 ∧ recipe.height.toNat ≤ 3 ∧
        recipe.ingredients.length < recipe.width.toNat * recipe.height.toNat) := by
  constructor
  · rintro h ⟨hwidth, hheight, hfew⟩
    have hsafe := (h [] ⟨fun _ => nofun, fun _ => nofun⟩).2 (filledGrid recipe)
    refine hsafe ?_
    rw [List.nil_append, findMatch3x3, findFrom, matchesRecipe_filledGrid hshaped hwidth hheight hfew hsome,
      panic_bind]
  · intro h recipes hsafe
    refine ⟨fun grid => ?_, fun grid => ?_⟩
    · exact findFrom_append_ne_panic (hsafe.1 grid)
        (matchesRecipe_ne_panic hshaped (fun hwidth hheight => by omega) grid)
    · exact findFrom_append_ne_panic (hsafe.2 grid)
        (matchesRecipe_ne_panic hshaped (fun hwidth hheight => by omega) grid)

end Apoptotic.Recipes
