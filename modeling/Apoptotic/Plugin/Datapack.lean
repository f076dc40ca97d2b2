import Apoptotic.Player.RecipeGrids
import Apoptotic.Lib.Text

/-!
# Recipes of datapacks

`parse_recipe` and `resolve_ingredient` of `mc-plugin/src/datapack.rs`.  A text is its list of
characters; what item a name resolves to is a parameter.

Principal result: `datapack_law` — for a recipe that is accepted: when the matchers stay in range, when
the count is the one in the file, when a shapeless recipe matches all arrangements.
-/

namespace Apoptotic.Datapack

open Bytes Outcome Recipes

abbrev Name := List Char

structure JsonIngredient where
  item : Option Name
  items : Option (List Name)

structure JsonResult where
  item : Name
  count : Option (BitVec 32)

structure JsonRecipe where
  recipeType : Name
  pattern : Option (List Name)
  key : Option (Name → Option JsonIngredient)
  ingredients : Option (List JsonIngredient)
  result : Option JsonResult

def craftingShaped : Name := "minecraft:crafting_shaped".toList

def craftingShapeless : Name := "minecraft:crafting_shapeless".toList

/-- `name.strip_prefix("minecraft:").unwrap_or(name)` -/
def stripMinecraft (name : Name) : Name :=
  if "minecraft:".toList.isPrefixOf name then name.drop 10 else name

/-- `s.len()`: the bytes of a text in UTF-8. -/
def byteLen (text : Name) : Nat := (text.map Char.utf8Size).sum

variable (resolveItemId : Name → ItemId)

def resolveItem (name : Name) : ItemId := resolveItemId (stripMinecraft name)

def resolveIngredient (ing : JsonIngredient) : List ItemId :=
  let names := ing.item.toList ++ ing.items.getD []
  let ids := (names.map (resolveItem resolveItemId)).filter (· > 0)
  if ids = [] then [0] else ids

/-- The ingredients of a pattern: one for every character of every row. -/
def patternIngredients (key : Name → Option JsonIngredient) (pattern : List Name) :
    List (List ItemId) :=
  pattern.flatMap fun row => row.map fun ch =>
    ((key [ch]).map (resolveIngredient resolveItemId)).getD [0]

def parseShaped (pattern : List Name) (key : Name → Option JsonIngredient) (result : JsonResult) :
    Option Recipe :=
  let height := BitVec.ofNat 8 pattern.length
  let width := (pattern.head?.map fun s => BitVec.ofNat 8 (byteLen s)).getD 0
  let ingredients := patternIngredients resolveItemId key pattern
  let resultId := resolveItem resolveItemId result.item
  if resultId > 0 then
    some ⟨width, height, false, ingredients, resultId, (result.count.getD 1).setWidth 8⟩
  else none

def parseShapeless (ingredients : List JsonIngredient) (result : JsonResult) : Option Recipe :=
  let ingrs := ingredients.map (resolveIngredient resolveItemId)
  let resultId := resolveItem resolveItemId result.item
  if resultId > 0 ∧ ingrs ≠ [] then
    some ⟨BitVec.ofNat 8 ingrs.length, 1, false, ingrs, resultId, (result.count.getD 1).setWidth 8⟩
  else none

def parseRecipe (json : JsonRecipe) : Option Recipe :=
  if json.recipeType = craftingShaped then do
    let pattern ← json.pattern
    let key ← json.key
    let result ← json.result
    parseShaped resolveItemId pattern key result
  else if json.recipeType = craftingShapeless then do
    let ingredients ← json.ingredients
    let result ← json.result
    parseShapeless resolveItemId ingredients result
  else none

/-! ## What is parsed -/

variable {resolveItemId} {json : JsonRecipe} {recipe : Recipe}

theorem resolveIngredient_ne_nil (ing : JsonIngredient) : resolveIngredient resolveItemId ing ≠ [] := by
  unfold resolveIngredient
  dsimp only
  split
  · exact nofun
  · assumption

/-- The count in the file. -/
def JsonRecipe.fileCount (json : JsonRecipe) : Nat :=
  ((json.result.bind (·.count)).getD 1).toNat

/-- The number of ingredients in the file. -/
def JsonRecipe.listed (json : JsonRecipe) : Nat := (json.ingredients.getD []).length

/-- A pattern within 3x3, by the bytes of its first row and the number of rows, with fewer characters
than places. -/
def JsonRecipe.Short (json : JsonRecipe) : Prop :=
  json.recipeType = craftingShaped ∧ ∃ pattern ∈ json.pattern,
    (pattern.head?.map byteLen).getD 0 % 256 ≤ 3 ∧ pattern.length % 256 ≤ 3 ∧
      (pattern.map List.length).sum <
        ((pattern.head?.map byteLen).getD 0 % 256) * (pattern.length % 256)

/-- What holds of every recipe that is accepted. -/
structure Parsed (json : JsonRecipe) (recipe : Recipe) : Prop where
  shaped : recipe.isShapeless = false
  entries_ne_nil : [] ∉ recipe.ingredients
  count : recipe.resultCount.toNat = json.fileCount % 256
  short_iff : json.Short ↔ recipe.width.toNat ≤ 3 ∧ recipe.height.toNat ≤ 3 ∧
    recipe.ingredients.length < recipe.width.toNat * recipe.height.toNat
  list : json.recipeType = craftingShapeless → recipe.ingredients.length = json.listed ∧
    0 < json.listed ∧ recipe.width = BitVec.ofNat 8 json.listed ∧ recipe.height = 1

theorem count_eq (json : JsonRecipe) {result : JsonResult} (h : json.result = some result) :
    ((result.count.getD 1).setWidth 8 : Byte).toNat = json.fileCount % 256 := by
  rw [JsonRecipe.fileCount, h, BitVec.toNat_setWidth]
  rfl

theorem parsed_shaped {pattern : List Name} {key : Name → Option JsonIngredient} {result : JsonResult}
    (htype : json.recipeType = craftingShaped) (hpattern : json.pattern = some pattern)
    (hresult : json.result = some result)
    (h : parseShaped resolveItemId pattern key result = some recipe) : Parsed json recipe := by
  unfold parseShaped at h
  dsimp only at h
  split at h
  · cases h
    have hwidth : ((pattern.head?.map fun s => BitVec.ofNat 8 (byteLen s)).getD 0).toNat =
        (pattern.head?.map byteLen).getD 0 % 256 := by
      cases pattern <;> simp
    have hlength : (patternIngredients resolveItemId key pattern).length =
        (pattern.map List.length).sum := by
      simp [patternIngredients, List.length_flatMap]
    refine ⟨rfl, ?_, count_eq json hresult, ?_, ?_⟩
    · simp only [patternIngredients, List.mem_flatMap, List.mem_map, not_exists, not_and]
      intro row _ ch _ hnil
      cases hkey : key [ch] with
      | none =>
          rw [hkey] at hnil
          cases hnil
      | some ing =>
          rw [hkey] at hnil
          exact resolveIngredient_ne_nil ing hnil
    · simp only [JsonRecipe.Short, htype, hpattern, hwidth, hlength, BitVec.toNat_ofNat, Option.mem_def,
        true_and, Option.some.injEq, exists_eq_left']
    · rw [htype]
      exact fun hother => absurd hother (by decide)
  · cases h

theorem parsed_shapeless {ingredients : List JsonIngredient} {result : JsonResult}
    (htype : json.recipeType = craftingShapeless) (hingredients : json.ingredients = some ingredients)
    (hresult : json.result = some result)
    (h : parseShapeless resolveItemId ingredients result = some recipe) : Parsed json recipe := by
  have hlisted : json.listed = ingredients.length := by rw [JsonRecipe.listed, hingredients]; rfl
  unfold parseShapeless at h
  dsimp only at h
  split at h
  · rename_i hok
    cases h
    have hpos : 0 < ingredients.length := by
      rw [List.length_pos_iff]
      rintro rfl
      exact hok.2 rfl
    refine ⟨rfl, ?_, count_eq json hresult, ?_, fun _ => ?_⟩
    · rw [List.mem_map]
      rintro ⟨ing, _, hnil⟩
      exact resolveIngredient_ne_nil ing hnil
    · constructor
      · rintro ⟨hshaped, _⟩
        rw [htype] at hshaped
        exact absurd hshaped (by decide)
      · -- one row with a place for each entry is never short of entries
        rintro ⟨_, _, hfew⟩
        have hone : (1 : Byte).toNat = 1 := rfl
        simp only [List.length_map, BitVec.toNat_ofNat, hone, Nat.mul_one] at hfew
        have hmod := Nat.mod_le ingredients.length (2 ^ 8)
        omega
    · rw [hlisted]
      refine ⟨by simp, hpos, by simp, rfl⟩
  · cases h

theorem parsed (h : parseRecipe resolveItemId json = some recipe) : Parsed json recipe := by
  unfold parseRecipe at h
  split at h
  · rename_i htype
    simp only [Option.bind_eq_bind, Option.bind_eq_some_iff] at h
    obtain ⟨pattern, hpattern, key, _, result, hresult, hparse⟩ := h
    exact parsed_shaped htype hpattern hresult hparse
  · split at h
    · rename_i htype
      simp only [Option.bind_eq_bind, Option.bind_eq_some_iff] at h
      obtain ⟨ingredients, hingredients, result, hresult, hparse⟩ := h
      exact parsed_shapeless htype hingredients hresult hparse
    · cases h

/-! ## Arrangements -/

/-- The recipe, alone in the registry, is found for every grid that holds its ingredients. -/
def MatchesArrangements (recipe : Recipe) : Prop :=
  (∀ grid : Grid 2, Assignable recipe grid.toList → findMatch [recipe] grid = .ok (some (0, recipe))) ∧
    ∀ grid : Grid 3, Assignable recipe grid.toList → findMatch3x3 [recipe] grid = .ok (some (0, recipe))

theorem findFrom_single {n : Nat} (grid : Grid n) :
    findFrom 0 grid [recipe] = .ok (some (0, recipe)) ↔ matchesRecipe recipe grid = .ok true := by
  unfold findFrom
  cases h : matchesRecipe recipe grid with
  | ok b => cases b <;> simp [findFrom]
  | err e => simp
  | panic => simp

theorem getD_single (stack : Commands.ItemStack) (m k i : Nat) :
    ((List.replicate m none ++ some stack :: List.replicate k none)[i]?).getD none =
      if i = m then some stack else none := by
  rcases Nat.lt_trichotomy i m with hlt | rfl | hgt
  · rw [List.getElem?_append_left (by simpa using hlt), List.getElem?_replicate, if_pos hlt,
      if_neg (by omega)]
    rfl
  · simp
  · obtain ⟨j, rfl⟩ := Nat.exists_eq_add_of_lt hgt
    have hne : ¬ m + j + 1 = m := by omega
    rw [if_neg hne, List.getElem?_append_right (by simp; omega), List.length_replicate,
      show m + j + 1 - m = j + 1 by omega, List.getElem?_cons_succ, List.getElem?_replicate]
    split <;> rfl

/-- One ingredient is matched wherever it is. -/
theorem matchesRecipe_single {n : Nat} {choices : List ItemId} (hshaped : recipe.isShapeless = false)
    (hwidth : recipe.width = 1) (hheight : recipe.height = 1) (hone : recipe.ingredients = [choices])
    (grid : Grid n) (h : Assignable recipe grid.toList) : matchesRecipe recipe grid = .ok true := by
  have hw : recipe.width.toNat = 1 := by rw [hwidth]; rfl
  have hh : recipe.height.toNat = 1 := by rw [hheight]; rfl
  unfold Assignable at h
  rw [hone] at h
  obtain ⟨stack, rest, hperm, hfit, hrest⟩ := FirstFit.assignable_cons.1 h
  rw [FirstFit.assignable_nil] at hrest
  rw [hrest, List.perm_singleton, List.reduceOption_eq_singleton_iff] at hperm
  obtain ⟨m, k, hslots⟩ := hperm
  have hlen := congrArg List.length hslots
  simp only [Vector.length_toList, List.length_append, List.length_replicate,
    List.length_cons] at hlen
  have hn : 0 < n := by
    by_contra hzero
    rw [Nat.eq_zero_of_not_pos hzero] at hlen
    omega
  have hslot : ∀ gx gy, slotAt grid gx gy = if gy * n + gx = m then some stack else none := by
    intro gx gy
    unfold slotAt
    rw [← Vector.getElem?_toList, hslots]
    exact getD_single stack m k _
  obtain ⟨b, hb, hiff⟩ := matchesRecipe_shaped (by rw [hw, hh, hone]; exact Nat.le_refl 1) hshaped grid
  rw [hb, hiff.2]
  have hmod := Nat.mod_lt m hn
  have hdiv : m / n < n := by
    rw [Nat.div_lt_iff_lt_mul hn]
    omega
  have hjoin := Nat.div_add_mod' m n
  refine ⟨m % n, m / n, ⟨by omega, by omega⟩, fun ry rx hry hrx => ?_, fun gx gy hgx hgy hout => ?_⟩
  · obtain rfl : ry = 0 := by omega
    obtain rfl : rx = 0 := by omega
    rw [hslot, Nat.add_zero, Nat.add_zero, if_pos hjoin, Recipe.entry, hone, Nat.zero_mul]
    exact hfit
  · rw [hslot, if_neg]
    intro hindex
    subst hindex
    rw [Nat.mul_comm gy n, Nat.mul_add_mod, Nat.mod_eq_of_lt hgx, Nat.mul_add_div hn,
      Nat.div_eq_of_lt hgx, Nat.add_zero, Bool.eq_false_iff, ne_eq, inRecipe_iff] at hout
    omega

/-- One item of each entry. -/
def items (recipe : Recipe) : List Commands.ItemStack :=
  recipe.ingredients.map fun choices => stackOf (choices.headD 0)

theorem assignable_items {slots : List Slot} (hsome : [] ∉ recipe.ingredients)
    (h : slots.reduceOption = items recipe) : Assignable recipe slots := by
  refine ⟨items recipe, ?_, by rw [h]⟩
  rw [items, List.forall₂_map_right_iff, List.forall₂_same]
  intro choices hmem
  cases choices with
  | nil => exact absurd hmem hsome
  | cons id choices => exact (fits_stackOf _ id).2 (by simp)

section

variable (hwidth : recipe.width.toNat = recipe.ingredients.length) (hheight : recipe.height.toNat = 1)

include hwidth hheight

/-- A row that fits nowhere in the grid is not matched. -/
theorem matchesRecipe_row (hshaped : recipe.isShapeless = false) {grid : Grid 3}
    (hnone : ∀ ox oy, Within 3 recipe ox oy → ¬ Fits recipe grid ox oy) :
    matchesRecipe recipe grid = .ok false := by
  obtain ⟨b, hb, hiff⟩ := matchesRecipe_shaped (by rw [hwidth, hheight, Nat.mul_one]) hshaped grid
  rw [hb]
  cases b with
  | false => rfl
  | true =>
      obtain ⟨ox, oy, hwithin, hfits⟩ := hiff.1 rfl
      exact absurd hfits (hnone ox oy hwithin)

/-- Two or three ingredients in one column, where a row of two finds nothing. -/
theorem exists_unmatched_column (hshaped : recipe.isShapeless = false)
    (hsome : [] ∉ recipe.ingredients) (hlo : 2 ≤ recipe.ingredients.length)
    (hhi : recipe.ingredients.length ≤ 3) :
    ∃ grid : Grid 3, Assignable recipe grid.toList ∧ matchesRecipe recipe grid = .ok false := by
  refine ⟨Grid.ofFn fun gx gy => if gx = 0 then (items recipe)[gy]? else none,
    assignable_items hsome ?_, matchesRecipe_row hwidth hheight hshaped fun ox oy hwithin hfits => ?_⟩
  · have hlen : (items recipe).length = recipe.ingredients.length := List.length_map _
    have hcount : (items recipe).length = 2 ∨ (items recipe).length = 3 := by omega
    rw [Grid.ofFn, Vector.toList_ofFn, List.ofFn_eq_map]
    rcases hcount with htwo | hthree
    · obtain ⟨a, b, hitems⟩ := List.length_eq_two.1 htwo
      rw [hitems]
      rfl
    · obtain ⟨a, b, c, hitems⟩ := List.length_eq_three.1 hthree
      rw [hitems]
      rfl
  · unfold Within at hwithin
    have hfilled := hfits.pattern 0 1 (by omega) (by omega)
    rw [slotAt_ofFn _ (by omega) (by omega), if_neg (by omega)] at hfilled
    cases hfilled

/-- More than three do not fit in a row. -/
theorem exists_unmatched_long (hshaped : recipe.isShapeless = false) (hsome : [] ∉ recipe.ingredients)
    (hlo : 3 < recipe.ingredients.length) (hhi : recipe.ingredients.length ≤ 9) :
    ∃ grid : Grid 3, Assignable recipe grid.toList ∧ matchesRecipe recipe grid = .ok false := by
  have hlen : (items recipe).length = recipe.ingredients.length := List.length_map _
  have hslots : ((items recipe).map some ++
      List.replicate (9 - recipe.ingredients.length) (none : Slot)).length = 3 * 3 := by
    rw [List.length_append, List.length_map, List.length_replicate, hlen]
    omega
  refine ⟨⟨((items recipe).map some ++
    List.replicate (9 - recipe.ingredients.length) none).toArray, hslots⟩,
    assignable_items hsome ?_, matchesRecipe_row hwidth hheight hshaped fun ox oy hwithin _ => ?_⟩
  · rw [Vector.toList_mk, List.reduceOption_append, List.reduceOption_replicate_none,
      List.append_nil, List.reduceOption, List.filterMap_map, Function.id_comp, List.filterMap_some]
  · unfold Within at hwithin
    omega

end

/-- **More than one ingredient**: some arrangement in 3x3 is not matched. -/
theorem exists_unmatched (hshaped : recipe.isShapeless = false) (hsome : [] ∉ recipe.ingredients)
    (hwidth : recipe.width = BitVec.ofNat 8 recipe.ingredients.length) (hheight : recipe.height = 1)
    (hlo : 2 ≤ recipe.ingredients.length) (hhi : recipe.ingredients.length ≤ 9) :
    ∃ grid : Grid 3, Assignable recipe grid.toList ∧ matchesRecipe recipe grid = .ok false := by
  have hw : recipe.width.toNat = recipe.ingredients.length := by
    rw [hwidth, BitVec.toNat_ofNat, Nat.mod_eq_of_lt (by omega)]
  have hh : recipe.height.toNat = 1 := by
    rw [hheight]
    rfl
  by_cases hfew : recipe.ingredients.length ≤ 3
  · exact exists_unmatched_column hw hh hshaped hsome hlo hfew
  · exact exists_unmatched_long hw hh hshaped hsome (by omega) hhi

/-- **The law of a recipe that is accepted**: it can be added to any safe registry unless its pattern is
short, its count is the one in the file when that fits in a byte, and a shapeless one matches all
arrangements of one ingredient, and of more than nine, of which there are none. -/
theorem datapack_law (h : parseRecipe resolveItemId json = some recipe) :
    ((∀ recipes, Safe recipes → Safe (recipes ++ [recipe])) ↔ ¬ json.Short) ∧
      (recipe.resultCount.toNat = json.fileCount ↔ json.fileCount < 256) ∧
      (json.recipeType = craftingShapeless →
        (MatchesArrangements recipe ↔ json.listed = 1 ∨ 9 < json.listed)) := by
  have hparsed := parsed h
  refine ⟨?_, ?_, fun htype => ?_⟩
  · rw [safe_append_iff hparsed.shaped hparsed.entries_ne_nil, hparsed.short_iff]
  · rw [hparsed.count]
    omega
  · obtain ⟨hlength, hpos, hwidth, hheight⟩ := hparsed.list htype
    rw [← hlength] at hpos hwidth ⊢
    constructor
    · rintro ⟨_, hmatches⟩
      by_contra hcon
      obtain ⟨grid, hassign, hunmatched⟩ := exists_unmatched hparsed.shaped hparsed.entries_ne_nil hwidth
        hheight (by omega) (by omega)
      have hmatched := (findFrom_single grid).1 (hmatches grid hassign)
      rw [hunmatched] at hmatched
      cases hmatched
    · rintro (hone | hmany)
      · obtain ⟨choices, hchoices⟩ := List.length_eq_one_iff.1 hone
        have hwidth' : recipe.width = 1 := by rw [hwidth, hone]; rfl
        have hmatch : ∀ {n : Nat} (grid : Grid n), Assignable recipe grid.toList →
            matchesRecipe recipe grid = .ok true := fun grid hassign =>
          matchesRecipe_single hparsed.shaped hwidth' hheight hchoices grid hassign
        exact ⟨fun grid hassign => (findFrom_single grid).2 (hmatch grid hassign),
          fun grid hassign => (findFrom_single grid).2 (hmatch grid hassign)⟩
      · have hnone : ∀ {n : Nat} (grid : Grid n), n * n ≤ 9 → ¬ Assignable recipe grid.toList := by
          intro n grid hn hassign
          have hlen := FirstFit.Assignable.length_eq hassign
          have hle := List.reduceOption_length_le grid.toList
          rw [Vector.length_toList] at hle
          omega
        exact ⟨fun grid hassign => absurd hassign (hnone grid (by decide)),
          fun grid hassign => absurd hassign (hnone grid (by decide))⟩

/-- Items of the registry that the examples name. -/
def someItems (name : Name) : ItemId :=
  if name = "oak_planks".toList then 13 else if name = "stick".toList then 974 else 0

def oakPlanks : JsonIngredient := ⟨some "minecraft:oak_planks".toList, none⟩

/-- Sticks from two planks, one above the other. -/
theorem sticks_law :
    (∀ recipes, Safe recipes →
      Safe (recipes ++ [⟨1, 2, false, [[13], [13]], 974, 4⟩])) ∧
      (Recipe.mk 1 2 false [[13], [13]] 974 4).resultCount.toNat = 4 := by
  have hparse : parseRecipe someItems ⟨craftingShaped, some ["#".toList, "#".toList],
      some fun _ => some oakPlanks, none, some ⟨"stick".toList, some 4⟩⟩ =
        some ⟨1, 2, false, [[13], [13]], 974, 4⟩ := by decide
  have h := datapack_law hparse
  refine ⟨h.1.2 ?_, h.2.1.2 (by decide)⟩
  rintro ⟨_, pattern, hpattern, _, _, hfew⟩
  obtain rfl : _ = pattern := Option.some.inj hpattern
  exact absurd hfew (by decide)

/-- A second row without characters sends the matcher behind the entries, 256 sticks are none, and two
planks one above the other are not matched by the shapeless recipe of two planks. -/
theorem datapack_broken :
    (parseRecipe someItems ⟨craftingShaped, some ["##".toList, []], some fun _ => some oakPlanks, none,
          some ⟨"stick".toList, some 256⟩⟩ = some ⟨2, 2, false, [[13], [13]], 974, 0⟩ ∧
        findMatch [⟨2, 2, false, [[13], [13]], 974, 0⟩]
          #v[some (stackOf 13), some (stackOf 13), none, none] = .panic) ∧
      parseRecipe someItems ⟨craftingShapeless, none, none, some [oakPlanks, oakPlanks],
          some ⟨"stick".toList, none⟩⟩ = some ⟨2, 1, false, [[13], [13]], 974, 1⟩ ∧
        findMatch [⟨2, 1, false, [[13], [13]], 974, 1⟩]
          #v[some (stackOf 13), none, some (stackOf 13), none] = .ok none := by
  refine ⟨⟨by decide, ?_⟩, by decide, ?_⟩
  · rfl
  · rfl

end Apoptotic.Datapack
