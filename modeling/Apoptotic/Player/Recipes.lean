import Apoptotic.Command.Server
import Apoptotic.Lib.Outcome
import Apoptotic.Lib.FirstFit
import Mathlib.Data.List.ReduceOption

/-!
# Recipes

`check_shapeless`, `check_recipe_at`, `check_recipe_at_3x3`, `find_match` and `find_match_3x3` of
`mc-player/src/recipe.rs`.  The two pairs of copies differ in the side of the grid only, which is a
parameter here.

Principal results: `checkShapeless_eq` — a shapeless recipe is matched by first fit; `checkAt_eq` — a
shaped recipe with enough ingredients matches at an offset exactly when the grid `Fits` there;
`shapeless_exact_iff` — when first fit is exact.
-/

namespace Apoptotic.Recipes

open Bytes Outcome Commands

abbrev ItemId := BitVec 32

structure Recipe where
  width : Byte
  height : Byte
  isShapeless : Bool
  /-- Row by row, for each place the ids that are accepted there. -/
  ingredients : List (List ItemId)
  resultItem : ItemId
  resultCount : Byte
  deriving DecidableEq, Repr

abbrev Slot := Option ItemStack

/-- The slots of a grid of side `n`, row by row. -/
abbrev Grid (n : Nat) := Vector Slot (n * n)

variable {n : Nat}

/-- `ingredient_choices.contains(&stack.item.id)` -/
def fits (choices : List ItemId) (stack : ItemStack) : Bool := choices.contains stack.item.id

/-! ## Shapeless recipes -/

/-- The first slot that is not used and whose item is among the choices is used up. -/
def useSlot (choices : List ItemId) : List Slot → List Bool → Outcome Unit (Option (List Bool))
  | [], _ => .ok none
  | _ :: _, [] => .panic
  | slot :: grid, u :: used =>
      if u = false ∧ slot.any (fits choices) = true then .ok (some (true :: used))
      else do
        let rest ← useSlot choices grid used
        pure (rest.map (u :: ·))

/-- The loop over the ingredients: the slots used, or `none` for an ingredient that is not found. -/
def useSlots (grid : List Slot) : List (List ItemId) → List Bool → Outcome Unit (Option (List Bool))
  | [], used => .ok (some used)
  | choices :: ingredients, used => do
      let next ← useSlot choices grid used
      match next with
      | some used => useSlots grid ingredients used
      | none => pure none

/-- No item is left in a slot that is not used. -/
def noExtra : List Slot → List Bool → Outcome Unit Bool
  | [], _ => .ok true
  | _ :: _, [] => .panic
  | slot :: grid, u :: used => if u = false ∧ slot.isSome = true then .ok false else noExtra grid used

def checkShapeless (recipe : Recipe) (grid : List Slot) (gridSize : Nat) : Outcome Unit Bool := do
  let used ← useSlots grid recipe.ingredients (List.replicate gridSize false)
  match used with
  | some used => noExtra grid used
  | none => pure false

/-! ## Shaped recipes -/

/-- One place of the pattern. -/
def cellMatches (recipe : Recipe) (grid : Grid n) (ox oy ry rx : Nat) : Outcome Unit Bool := do
  let ingr ← orPanic recipe.ingredients[ry * recipe.width.toNat + rx]?
  let slot ← orPanic grid[(oy + ry) * n + (ox + rx)]?
  pure (slot.any (fits ingr))

def inRecipe (recipe : Recipe) (ox oy gx gy : Nat) : Bool :=
  decide (ox ≤ gx ∧ gx < ox + recipe.width.toNat) && decide (oy ≤ gy ∧ gy < oy + recipe.height.toNat)

/-- One slot of the grid, which must be empty outside the recipe. -/
def outsideEmpty (recipe : Recipe) (grid : Grid n) (ox oy gy gx : Nat) : Outcome Unit Bool :=
  if inRecipe recipe ox oy gx gy then pure true
  else do
    let slot ← orPanic grid[gy * n + gx]?
    pure slot.isNone

/-- `check_recipe_at` for a grid of side 2, `check_recipe_at_3x3` for one of side 3. -/
def checkAt (recipe : Recipe) (grid : Grid n) (ox oy : Nat) : Outcome Unit Bool := do
  let pattern ← (List.range recipe.height.toNat).allM fun ry =>
    (List.range recipe.width.toNat).allM fun rx => cellMatches recipe grid ox oy ry rx
  if pattern then
    (List.range n).allM fun gy => (List.range n).allM fun gx => outsideEmpty recipe grid ox oy gy gx
  else pure false

def checkRecipeAt (recipe : Recipe) (grid : Grid 2) (ox oy : Nat) : Outcome Unit Bool :=
  checkAt recipe grid ox oy

def checkRecipeAt3x3 (recipe : Recipe) (grid : Grid 3) (ox oy : Nat) : Outcome Unit Bool :=
  checkAt recipe grid ox oy

/-! ## Matching -/

/-- The body of the loop over the recipes. -/
def matchesRecipe (recipe : Recipe) (grid : Grid n) : Outcome Unit Bool :=
  if recipe.isShapeless then checkShapeless recipe grid.toList (n * n)
  else if recipe.width.toNat > n ∨ recipe.height.toNat > n then pure false
  else (List.range (n - recipe.width.toNat + 1)).anyM fun ox =>
    (List.range (n - recipe.height.toNat + 1)).anyM fun oy => checkAt recipe grid ox oy

def findFrom (idx : Nat) (grid : Grid n) : List Recipe → Outcome Unit (Option (Nat × Recipe))
  | [] => .ok none
  | recipe :: recipes => do
      let matched ← matchesRecipe recipe grid
      if matched then pure (some (idx, recipe)) else findFrom (idx + 1) grid recipes

def findMatch (recipes : List Recipe) (grid : Grid 2) : Outcome Unit (Option (Nat × Recipe)) :=
  findFrom 0 grid recipes

def findMatch3x3 (recipes : List Recipe) (grid : Grid 3) : Outcome Unit (Option (Nat × Recipe)) :=
  findFrom 0 grid recipes

/-! ## What a shapeless match is -/

/-- The items of the slots that are not used. -/
def remaining : List Slot → List Bool → List ItemStack
  | slot :: grid, u :: used =>
      if u = false then slot.toList ++ remaining grid used else remaining grid used
  | _, _ => []

theorem remaining_replicate (grid : List Slot) :
    remaining grid (List.replicate grid.length false) = grid.reduceOption := by
  induction grid with
  | nil => rfl
  | cons slot grid ih =>
      rw [List.length_cons, List.replicate_succ, remaining, if_pos rfl, ih]
      cases slot <;> rfl

/-- A slot is found exactly when an item that is left fits, and then it is the first such item. -/
theorem useSlot_spec (choices : List ItemId) (grid : List Slot) (used : List Bool)
    (hlen : used.length = grid.length) :
    useSlot choices grid used = .ok none ∧ (remaining grid used).any (fits choices) = false ∨
      ∃ next, useSlot choices grid used = .ok (some next) ∧ next.length = grid.length ∧
        (remaining grid used).any (fits choices) = true ∧
        remaining grid next = (remaining grid used).eraseP (fits choices) := by
  induction grid generalizing used with
  | nil => exact .inl ⟨rfl, by cases used <;> rfl⟩
  | cons slot grid ih =>
      cases used with
      | nil => cases hlen
      | cons u used =>
          have hlen' : used.length = grid.length := by simpa using hlen
          unfold useSlot
          by_cases hfound : u = false ∧ slot.any (fits choices) = true
          · obtain ⟨rfl, hfit⟩ := hfound
            rw [if_pos ⟨rfl, hfit⟩]
            obtain ⟨stack, rfl⟩ : ∃ stack, slot = some stack := by
              cases slot with
              | none => cases hfit
              | some stack => exact ⟨stack, rfl⟩
            have hfit' : fits choices stack = true := hfit
            refine .inr ⟨_, rfl, by simp [hlen'], ?_, ?_⟩
            · simp [remaining, hfit']
            · simp [remaining, hfit']
          · rw [if_neg hfound]
            -- the slot is used, or empty, or its item does not fit
            have hskip : ∀ stack ∈ (if u = false then slot.toList else []), fits choices stack = false := by
              intro stack hstack
              split at hstack
              · rename_i hu
                obtain rfl : slot = some stack := by simpa using hstack
                rw [Bool.eq_false_iff]
                exact fun hfit => hfound ⟨hu, hfit⟩
              · cases hstack
            have hcons : ∀ next, remaining (slot :: grid) (u :: next) =
                (if u = false then slot.toList else []) ++ remaining grid next := by
              intro next
              rw [remaining]
              split <;> rfl
            have hany : (if u = false then slot.toList else []).any (fits choices) = false := by
              rw [List.any_eq_false]
              exact fun stack hstack => by rw [hskip stack hstack]; decide
            rcases ih used hlen' with ⟨hnone, hfit⟩ | ⟨next, hsome, hnext, hfit, herase⟩
            · refine .inl ⟨by rw [hnone]; rfl, ?_⟩
              rw [hcons, List.any_append, hany, hfit]
              rfl
            · refine .inr ⟨u :: next, by rw [hsome]; rfl, by simp [hnext], ?_, ?_⟩
              · rw [hcons, List.any_append, hfit, Bool.or_true]
              · rw [hcons, hcons, herase, List.eraseP_append_right _ fun stack hstack => by
                  rw [hskip stack hstack]; decide]

theorem noExtra_eq (grid : List Slot) (used : List Bool) (hlen : used.length = grid.length) :
    noExtra grid used = .ok (remaining grid used).isEmpty := by
  induction grid generalizing used with
  | nil => cases used <;> rfl
  | cons slot grid ih =>
      cases used with
      | nil => cases hlen
      | cons u used =>
          have hnext := ih used (by simpa using hlen)
          unfold noExtra remaining
          cases u <;> cases slot <;> simp [hnext]

theorem useSlots_eq (grid : List Slot) (ingredients : List (List ItemId)) (used : List Bool)
    (hlen : used.length = grid.length) :
    (useSlots grid ingredients used >>= fun used => match used with
      | some used => noExtra grid used
      | none => pure false) = .ok (FirstFit.greedy fits ingredients (remaining grid used)) := by
  induction ingredients generalizing used with
  | nil => exact noExtra_eq grid used hlen
  | cons choices ingredients ih =>
      rw [useSlots, FirstFit.greedy]
      rcases useSlot_spec choices grid used hlen with ⟨hnone, hfit⟩ | ⟨next, hsome, hnext, hfit, herase⟩
      · rw [hnone, hfit]
        rfl
      · rw [hsome, hfit, Bool.true_and, ← herase]
        exact ih next hnext

/-- **A shapeless recipe is matched by first fit** over the items in the grid. -/
theorem checkShapeless_eq (recipe : Recipe) (grid : List Slot) :
    checkShapeless recipe grid grid.length =
      .ok (FirstFit.greedy fits recipe.ingredients grid.reduceOption) := by
  unfold checkShapeless
  rw [useSlots_eq grid _ _ (by simp), remaining_replicate]

/-- Each item in the grid is given to an ingredient of its own that accepts it, and no ingredient is
left. -/
def Assignable (recipe : Recipe) (grid : List Slot) : Prop :=
  FirstFit.Assignable fits recipe.ingredients grid.reduceOption

/-- At some ingredient the first item that fits is one that a later ingredient needs. -/
def Cornered (recipe : Recipe) (grid : List Slot) : Prop :=
  FirstFit.Cornered fits recipe.ingredients grid.reduceOption

/-- Of two ingredients the later one accepts nothing the first accepts, or all of it. -/
def Nested (recipe : Recipe) : Prop :=
  recipe.ingredients.Pairwise fun choices later => choices.Disjoint later ∨ choices ⊆ later

def stackOf (id : ItemId) : ItemStack := ItemStack.new ⟨id, 0⟩ 1

theorem fits_stackOf (choices : List ItemId) (id : ItemId) :
    fits choices (stackOf id) = true ↔ id ∈ choices := List.contains_iff_mem

theorem fits_iff (choices : List ItemId) (stack : ItemStack) :
    fits choices stack = true ↔ stack.item.id ∈ choices := List.contains_iff_mem

theorem nested_iff (recipe : Recipe) : FirstFit.Nested fits recipe.ingredients ↔ Nested recipe := by
  have hpair : ∀ choices later : List ItemId,
      ((∀ stack, fits choices stack = true → fits later stack = false) ∨
        ∀ stack, fits choices stack = true → fits later stack = true) ↔
      (choices.Disjoint later ∨ choices ⊆ later) := by
    intro choices later
    refine or_congr ⟨fun h id hid hlater => ?_, fun h stack hstack => ?_⟩
      ⟨fun h id hid => ?_, fun h stack hstack => ?_⟩
    · have hfree := h (stackOf id) ((fits_stackOf choices id).2 hid)
      rw [(fits_stackOf later id).2 hlater] at hfree
      cases hfree
    · rw [Bool.eq_false_iff]
      exact fun hlater => h ((fits_iff choices stack).1 hstack) ((fits_iff later stack).1 hlater)
    · exact (fits_stackOf later id).1 (h (stackOf id) ((fits_stackOf choices id).2 hid))
    · exact (fits_iff later stack).2 (h ((fits_iff choices stack).1 hstack))
  exact ⟨List.Pairwise.imp fun h => (hpair _ _).1 h, List.Pairwise.imp fun h => (hpair _ _).2 h⟩

theorem exists_empty_iff (recipe : Recipe) :
    (∃ choices ∈ recipe.ingredients, ∀ stack, fits choices stack = false) ↔ [] ∈ recipe.ingredients := by
  constructor
  · rintro ⟨choices, hmem, hnone⟩
    cases choices with
    | nil => exact hmem
    | cons id choices =>
        have hfree := hnone (stackOf id)
        rw [(fits_stackOf _ id).2 (by simp)] at hfree
        cases hfree
  · exact fun hmem => ⟨[], hmem, fun _ => rfl⟩

/-- **When shapeless matching is exact**: on one grid, when no item is taken that a later ingredient
needs; for one recipe, on all grids of `size` slots, when it has more ingredients than the grid has slots,
or an ingredient that accepts nothing, or nested ingredients. -/
theorem shapeless_exact_iff (recipe : Recipe) (size : Nat) :
    (∀ grid : List Slot, grid.length = size →
        ((checkShapeless recipe grid size = .ok true ↔ Assignable recipe grid) ↔ ¬ Cornered recipe grid)) ∧
      ((∀ grid : List Slot, grid.length = size →
          (checkShapeless recipe grid size = .ok true ↔ Assignable recipe grid)) ↔
        size < recipe.ingredients.length ∨ [] ∈ recipe.ingredients ∨ Nested recipe) := by
  have hcheck : ∀ grid : List Slot, grid.length = size →
      (checkShapeless recipe grid size = .ok true ↔
        FirstFit.greedy fits recipe.ingredients grid.reduceOption = true) := by
    rintro grid rfl
    rw [checkShapeless_eq, Outcome.ok.injEq]
  refine ⟨fun grid hgrid => ?_, ?_⟩
  · rw [hcheck grid hgrid]
    exact FirstFit.greedy_iff_assignable
  · rw [← nested_iff, ← exists_empty_iff, ← FirstFit.exact_iff_nested]
    constructor
    · intro h things hthings
      -- the things in a grid, the rest of it empty
      have hreduce : (things.map some ++ List.replicate (size - things.length) none).reduceOption =
          things := by
        rw [List.reduceOption_append, List.reduceOption_replicate_none, List.append_nil, List.reduceOption,
          List.filterMap_map, Function.id_comp, List.filterMap_some]
      have hgrid : (things.map some ++ List.replicate (size - things.length) (none : Slot)).length =
          size := by
        rw [List.length_append, List.length_map, List.length_replicate]
        omega
      have hexact := h _ hgrid
      rw [hcheck _ hgrid, Assignable, hreduce] at hexact
      exact hexact
    · intro h grid hgrid
      rw [hcheck grid hgrid]
      refine h grid.reduceOption ?_
      rw [← hgrid]
      exact List.reduceOption_length_le grid

/-- Oak or spruce planks, and oak planks: the oak planks come first in the grid. -/
theorem shapeless_cornered :
    Assignable ⟨2, 1, true, [[13, 14], [13]], 1, 1⟩ [some (stackOf 13), some (stackOf 14), none, none] ∧
      checkShapeless ⟨2, 1, true, [[13, 14], [13]], 1, 1⟩
        [some (stackOf 13), some (stackOf 14), none, none] 4 = .ok false := by
  refine ⟨⟨[stackOf 14, stackOf 13], ?_, .swap _ _ _⟩, by decide⟩
  exact .cons (by decide) (.cons (by decide) .nil)

end Apoptotic.Recipes
