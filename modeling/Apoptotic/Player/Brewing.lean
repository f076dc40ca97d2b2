import Apoptotic.Lib.Reached
import Apoptotic.Player.Containers

/-!
# Brewing stands

`BrewingStandManager` of `mc-player/src/brewing.rs`: ticks, edits of the slots, and completions that
are taken out for the advancements, in any order.  The history of what a stand held at the ticks so
far goes along with the state; the code does not have it.

Principal result: `brewing_law` — a completed brew takes one ingredient; the completions are those of
the bottles that changed exactly when there are no other bottles; and what is not disturbed while it
brews has stood there for the full time.
-/

namespace Apoptotic.Brewing

open Containers (BlockPos)

structure BrewingRecipe where
  input : Nat
  ingredient : Nat
  output : Nat
  deriving DecidableEq

/-- `BrewingRegistry::new` -/
def brewingRegistry : List BrewingRecipe := [
  ⟨1003, 1031, 1008⟩, ⟨1003, 906, 1022⟩,
  ⟨1008, 1032, 1011⟩, ⟨1008, 885, 1012⟩, ⟨1008, 904, 1013⟩, ⟨1008, 906, 1014⟩,
  ⟨1008, 905, 1015⟩, ⟨1008, 902, 1016⟩, ⟨1008, 871, 1017⟩, ⟨1008, 854, 1018⟩,
  ⟨1008, 868, 1019⟩,
  ⟨1011, 907, 1021⟩, ⟨1012, 907, 1020⟩, ⟨1017, 907, 1023⟩,
  ⟨1011, 803, 1024⟩, ⟨1012, 803, 1025⟩, ⟨1013, 803, 1026⟩, ⟨1014, 803, 1027⟩,
  ⟨1015, 803, 1039⟩, ⟨1016, 803, 1040⟩,
  ⟨1011, 993, 1041⟩, ⟨1012, 993, 1042⟩, ⟨1013, 993, 1043⟩, ⟨1015, 993, 1044⟩,
  ⟨1016, 993, 1045⟩, ⟨1017, 993, 1046⟩, ⟨1018, 993, 1047⟩, ⟨1019, 993, 1048⟩,
  ⟨1011, 903, 1049⟩, ⟨1012, 903, 1050⟩, ⟨1013, 903, 1051⟩, ⟨1015, 903, 1052⟩,
  ⟨1019, 903, 1053⟩,
  ⟨1024, 1028, 1054⟩, ⟨1025, 1028, 1055⟩, ⟨1026, 1028, 1056⟩, ⟨1027, 1028, 1057⟩,
  ⟨1039, 1028, 1058⟩, ⟨1040, 1028, 1059⟩,
  ⟨1054, 773, 1060⟩, ⟨1055, 773, 1061⟩, ⟨1056, 773, 1062⟩, ⟨1057, 773, 1063⟩,
  ⟨1058, 773, 1064⟩, ⟨1059, 773, 1065⟩, ⟨1022, 773, 1066⟩, ⟨1020, 773, 1067⟩,
  ⟨1023, 773, 1068⟩, ⟨1018, 773, 1069⟩, ⟨1019, 773, 1070⟩, ⟨1017, 773, 1071⟩,
  ⟨1021, 773, 1072⟩]

def findRecipe (recipes : List BrewingRecipe) (inputId ingredientId : Nat) : Option BrewingRecipe :=
  recipes.find? fun r => r.input = inputId ∧ r.ingredient = ingredientId

structure BrewingStandData where
  pos : BlockPos
  fuel : Nat
  brewTicks : Nat
  ingredientSlot : Option Nat
  bottleSlots : Vector (Option Nat) 3
  deriving DecidableEq

structure BrewCompletion where
  position : BlockPos
  outputId : Nat
  deriving DecidableEq

/-- What lies in a stand: the ingredient and the bottles. -/
abbrev Slots := Option Nat × Vector (Option Nat) 3

namespace BrewingStandData

def new (pos : BlockPos) : BrewingStandData := ⟨pos, 0, 0, none, Vector.replicate 3 none⟩

def slots (s : BrewingStandData) : Slots := (s.ingredientSlot, s.bottleSlots)

section Tick

variable (recipes : List BrewingRecipe) (s : BrewingStandData)

def canBrew : Bool :=
  match s.ingredientSlot with
  | some ingredient =>
      s.bottleSlots.toList.any fun
        | some inputId => (findRecipe recipes inputId ingredient).isSome
        | none => false
  | none => false

/-- What becomes of one bottle. -/
def brewed (ingredient : Nat) (slot : Option Nat) : Option Nat :=
  match slot.bind fun inputId => findRecipe recipes inputId ingredient with
  | some recipe => some recipe.output
  | none => slot

/-- The body of the loop of `tick`: the stand after it, and the completions it records. -/
def tick : BrewingStandData × List BrewCompletion :=
  if 0 < s.fuel ∧ s.canBrew recipes then
    let s := { s with brewTicks := min (s.brewTicks + 1) (2 ^ 32 - 1) }
    if 400 ≤ s.brewTicks then
      let ingredient := s.ingredientSlot.getD 0
      let s := { s with
        ingredientSlot := none, bottleSlots := s.bottleSlots.map (brewed recipes ingredient)
        fuel := s.fuel - 1, brewTicks := 0 }
      (s, s.bottleSlots.toList.filterMap fun slot => slot.map fun outputId => ⟨s.pos, outputId⟩)
    else (s, [])
  else (s, [])

end Tick

end BrewingStandData

/-- The stands in the order of iteration of the map, each with its key. -/
structure BrewingStandManager where
  stands : List BrewingStandData
  completedBrews : List BrewCompletion
  nodup : (stands.map (·.pos)).Nodup

/-- Steps of the manager and writes to the fields of a stand that `get_or_create` gives out. -/
inductive Action where
  | getOrCreate (pos : BlockPos)
  | remove (pos : BlockPos)
  | setIngredient (pos : BlockPos) (item : Option Nat)
  | setBottle (pos : BlockPos) (i : Nat) (item : Option Nat)
  | setFuel (pos : BlockPos) (fuel : Nat)
  | takeBrewCompletions
  | tick

namespace BrewingStandManager

def new : BrewingStandManager := ⟨[], [], List.nodup_nil⟩

theorem pos_map {f : BrewingStandData → BrewingStandData} (hf : ∀ s, (f s).pos = s.pos)
    (stands : List BrewingStandData) : (stands.map f).map (·.pos) = stands.map (·.pos) := by
  rw [List.map_map]
  exact List.map_congr_left fun s _ => hf s

def mapStands (m : BrewingStandManager) (f : BrewingStandData → BrewingStandData)
    (hf : ∀ s, (f s).pos = s.pos) : BrewingStandManager :=
  ⟨m.stands.map f, m.completedBrews, by
    rw [pos_map hf]
    exact m.nodup⟩

theorem nodup_create (m : BrewingStandManager) {pos : BlockPos} (h : pos ∉ m.stands.map (·.pos)) :
    ((m.stands ++ [BrewingStandData.new pos]).map (·.pos)).Nodup := by
  rw [List.map_append, List.nodup_append]
  refine ⟨m.nodup, List.nodup_singleton _, ?_⟩
  intro p hp q hq heq
  rw [List.map_singleton, List.mem_singleton] at hq
  rw [heq, hq] at hp
  exact h hp

def getOrCreate (m : BrewingStandManager) (pos : BlockPos) : BrewingStandManager :=
  if h : pos ∈ m.stands.map (·.pos) then m
  else ⟨m.stands ++ [BrewingStandData.new pos], m.completedBrews, m.nodup_create h⟩

def remove (m : BrewingStandManager) (pos : BlockPos) : BrewingStandManager :=
  ⟨m.stands.filter fun s => s.pos ≠ pos, m.completedBrews,
    m.nodup.sublist (List.filter_sublist.map _)⟩

/-- A write to the slots and the fuel of a stand, which leaves the countdown alone. -/
def write (s : BrewingStandData) (fuel : Nat) (slots : Slots) : BrewingStandData :=
  { s with fuel := fuel, ingredientSlot := slots.1, bottleSlots := slots.2 }

/-- Write to the stand at `pos`. -/
def edit (m : BrewingStandManager) (pos : BlockPos) (fuel : BrewingStandData → Nat)
    (slots : BrewingStandData → Slots) : BrewingStandManager :=
  (m.getOrCreate pos).mapStands
    (fun s => if s.pos = pos then write s (fuel s) (slots s) else s) fun s => by split <;> rfl

theorem pos_tick (recipes : List BrewingRecipe) (s : BrewingStandData) :
    (s.tick recipes).1.pos = s.pos := by
  unfold BrewingStandData.tick
  dsimp only
  split
  · split <;> rfl
  · rfl

def tick (recipes : List BrewingRecipe) (m : BrewingStandManager) : BrewingStandManager :=
  { m.mapStands (fun s => (s.tick recipes).1) (pos_tick recipes) with
    completedBrews := m.completedBrews ++ m.stands.flatMap fun s => (s.tick recipes).2 }

def step (recipes : List BrewingRecipe) (m : BrewingStandManager) : Action → BrewingStandManager
  | .getOrCreate pos => m.getOrCreate pos
  | .remove pos => m.remove pos
  | .setIngredient pos item => m.edit pos (·.fuel) fun s => (item, s.bottleSlots)
  | .setBottle pos i item => m.edit pos (·.fuel) fun s => (s.ingredientSlot, s.bottleSlots.setIfInBounds i item)
  | .setFuel pos fuel => m.edit pos (fun _ => fuel) (·.slots)
  | .takeBrewCompletions => { m with completedBrews := [] }
  | .tick => m.tick recipes

end BrewingStandManager

/-! ## The history -/

/-- The manager, and for each place what its stand held at the ticks so far, the last one first. -/
structure Watched where
  manager : BrewingStandManager
  seen : BlockPos → List Slots

namespace Watched

def new : Watched := ⟨BrewingStandManager.new, fun _ => []⟩

/-- What the stand at `pos` holds. -/
def slotsAt (w : Watched) (pos : BlockPos) : Slots :=
  ((w.manager.stands.find? fun s => s.pos = pos).map (·.slots)).getD (none, Vector.replicate 3 none)

def step (recipes : List BrewingRecipe) (w : Watched) (a : Action) : Watched where
  manager := w.manager.step recipes a
  seen := match a with
    | .tick => fun pos => w.slotsAt pos :: w.seen pos
    | _ => w.seen

end Watched

/-! ## The law -/

namespace BrewingStandData

section Law

variable (recipes : List BrewingRecipe) (s : BrewingStandData)

/-- The brew is done in this tick. -/
def Completes : Prop := 0 < s.fuel ∧ s.canBrew recipes = true ∧ 400 ≤ s.brewTicks + 1

/-- Nothing changes in the slots, or one ingredient is gone and the bottles are brewed with it. -/
def OneIngredient : Prop :=
  (s.tick recipes).1.slots = s.slots ∧ (s.tick recipes).2 = [] ∨
    ∃ ingredient, s.ingredientSlot = some ingredient ∧
      (s.tick recipes).1.slots = (none, s.bottleSlots.map (brewed recipes ingredient))

/-- The completion of the bottle in a slot, if there is a recipe for it. -/
def completion (slot : Option Nat) : Option BrewCompletion :=
  (s.ingredientSlot.bind fun ingredient => slot.bind fun inputId =>
    findRecipe recipes inputId ingredient).map fun recipe => ⟨s.pos, recipe.output⟩

/-- The completions a tick records are those of the bottles that are transformed in it. -/
def Records : Prop :=
  (s.Completes recipes → (s.tick recipes).2 = s.bottleSlots.toList.filterMap (s.completion recipes)) ∧
    (¬ s.Completes recipes → (s.tick recipes).2 = [])

/-- When a brew is done, there is a recipe for every bottle. -/
def AllBrewable : Prop :=
  s.Completes recipes →
    ∀ slot ∈ s.bottleSlots.toList, slot.isSome → (s.completion recipes slot).isSome

/-- When a brew is done, the same ingredient and bottles were there at the last 400 ticks. -/
def FullTime (seen : List Slots) : Prop :=
  s.Completes recipes → (s.slots :: seen).take 400 = List.replicate 400 s.slots

/-- While something brews, a tick finds what the tick before it found. -/
def Undisturbed (seen : List Slots) : Prop := 0 < s.brewTicks → seen.head? = some s.slots

end Law

end BrewingStandData

/-- What holds of every stand that a tick touches. -/
def OnTick (P : List Slots → BrewingStandData → Prop) (w : Watched) (a : Action) : Prop :=
  a = .tick → ∀ s ∈ w.manager.stands, P (w.seen s.pos) s

/-! ## One tick of one stand -/

namespace BrewingStandData

variable {recipes : List BrewingRecipe} {s : BrewingStandData}

theorem canBrew_ingredient (h : s.canBrew recipes = true) :
    ∃ ingredient, s.ingredientSlot = some ingredient := by
  unfold canBrew at h
  split at h
  · exact ⟨_, ‹_›⟩
  · cases h

/-- The stand when its brew is done. -/
def done (recipes : List BrewingRecipe) (s : BrewingStandData) (ingredient : Nat) : BrewingStandData :=
  { s with
    ingredientSlot := none, bottleSlots := s.bottleSlots.map (brewed recipes ingredient)
    fuel := s.fuel - 1, brewTicks := 0 }

theorem tick_of_completes (h : s.Completes recipes) {ingredient : Nat}
    (hi : s.ingredientSlot = some ingredient) :
    s.tick recipes = (s.done recipes ingredient,
      (s.bottleSlots.map (brewed recipes ingredient)).toList.filterMap fun slot =>
        slot.map fun outputId => ⟨s.pos, outputId⟩) := by
  obtain ⟨hfuel, hcan, hdone⟩ := h
  unfold tick
  rw [if_pos ⟨hfuel, hcan⟩]
  dsimp only
  rw [if_pos (by omega), hi]
  rfl

/-- A tick that completes nothing changes at most the countdown, by one. -/
theorem tick_of_not_completes (h : ¬ s.Completes recipes) :
    s.tick recipes = (s, []) ∨
      s.canBrew recipes = true ∧ s.brewTicks < 399 ∧
        s.tick recipes = ({ s with brewTicks := s.brewTicks + 1 }, []) := by
  unfold tick
  by_cases hcan : 0 < s.fuel ∧ s.canBrew recipes = true
  · have hshort : s.brewTicks < 399 := by
      by_contra hlong
      exact h ⟨hcan.1, hcan.2, by omega⟩
    have hmin : min (s.brewTicks + 1) (2 ^ 32 - 1) = s.brewTicks + 1 := by omega
    refine .inr ⟨hcan.2, hshort, ?_⟩
    rw [if_pos hcan]
    dsimp only
    rw [hmin, if_neg (by omega)]
  · rw [if_neg hcan]
    exact .inl rfl

theorem oneIngredient (recipes : List BrewingRecipe) (s : BrewingStandData) :
    s.OneIngredient recipes := by
  by_cases h : s.Completes recipes
  · obtain ⟨ingredient, hi⟩ := canBrew_ingredient h.2.1
    refine .inr ⟨ingredient, hi, ?_⟩
    rw [tick_of_completes h hi]
    rfl
  · refine .inl ?_
    rcases tick_of_not_completes h with htick | ⟨-, -, htick⟩
    · rw [htick]
      exact ⟨rfl, rfl⟩
    · rw [htick]
      exact ⟨rfl, rfl⟩

end BrewingStandData

/-- Of two ways to pick from a list of which one picks less, the picks are the same exactly when the
other never picks more. -/
theorem filterMap_eq_iff {A B : Type} {f g : A → Option B} (l : List A)
    (hle : ∀ a ∈ l, g a = f a ∨ g a = none ∧ (f a).isSome) :
    l.filterMap f = l.filterMap g ↔ ∀ a ∈ l, (f a).isSome → (g a).isSome := by
  constructor
  · intro heq
    have hcount : l.countP (fun a => (f a).isSome) = l.countP fun a => (g a).isSome := by
      rw [← List.length_filterMap_eq_countP, heq, List.length_filterMap_eq_countP]
    have hmono : ∀ a ∈ l, (g a).isSome = true → (f a).isSome = true := by
      intro a ha hg
      rcases hle a ha with hsame | ⟨hnone, -⟩
      · rwa [← hsame]
      · rw [hnone] at hg
        cases hg
    by_contra hnot
    push Not at hnot
    obtain ⟨a, ha, hf, hg⟩ := hnot
    have hlt : l.countP (fun a => (g a).isSome) < l.countP fun a => (f a).isSome := by
      obtain ⟨before, after, rfl⟩ := List.append_of_mem ha
      have hbefore := List.countP_mono_left (l := before) fun x hx hgx =>
        hmono x (List.mem_append_left _ hx) hgx
      have hafter := List.countP_mono_left (l := after) fun x hx hgx =>
        hmono x (List.mem_append_right _ (List.mem_cons_of_mem _ hx)) hgx
      simp only [List.countP_append, List.countP_cons, hf, hg]
      simp only [if_true, if_false, Bool.false_eq_true]
      omega
    omega
  · intro hsome
    refine List.filterMap_congr fun a ha => ?_
    rcases hle a ha with hsame | ⟨hnone, hf⟩
    · exact hsame.symm
    · have hg := hsome a ha hf
      rw [hnone] at hg
      cases hg

namespace BrewingStandData

variable {recipes : List BrewingRecipe} {s : BrewingStandData}

theorem map_brewed (recipes : List BrewingRecipe) (ingredient : Nat) (hi : s.ingredientSlot = some ingredient) (slot : Option Nat) :
    s.completion recipes slot = (brewed recipes ingredient slot).map (BrewCompletion.mk s.pos) ∨
      s.completion recipes slot = none ∧
        brewed recipes ingredient slot = slot := by
  unfold completion brewed
  rw [hi, Option.bind_some]
  cases slot.bind fun inputId => findRecipe recipes inputId ingredient with
  | some recipe => exact .inl rfl
  | none => exact .inr ⟨rfl, rfl⟩

theorem isSome_brewed (ingredient : Nat) (slot : Option Nat) :
    (brewed recipes ingredient slot).isSome = slot.isSome := by
  unfold brewed
  cases slot with
  | none => rfl
  | some inputId =>
      rw [Option.bind_some]
      cases findRecipe recipes inputId ingredient <;> rfl

/-- **The completions** are those of the transformed bottles exactly when every bottle is one. -/
theorem records_iff (recipes : List BrewingRecipe) (s : BrewingStandData) :
    s.Records recipes ↔ s.AllBrewable recipes := by
  unfold Records AllBrewable
  by_cases h : s.Completes recipes
  · obtain ⟨ingredient, hi⟩ := canBrew_ingredient h.2.1
    simp only [h, forall_const, not_true_eq_false, false_implies, and_true]
    rw [tick_of_completes h hi, Vector.toList_map, List.filterMap_map, filterMap_eq_iff]
    · refine forall₂_congr fun slot _ => ?_
      rw [Function.comp_apply, Option.isSome_map, isSome_brewed]
    · intro slot _
      rw [Function.comp_apply]
      rcases map_brewed recipes ingredient hi slot with hsame | ⟨hnone, hkept⟩
      · exact .inl hsame
      · rw [hkept, hnone]
        cases slot with
        | none => exact .inl rfl
        | some inputId => exact .inr ⟨rfl, rfl⟩
  · simp only [h, false_implies, not_false_eq_true, forall_const, true_and, iff_true]
    rcases tick_of_not_completes h with htick | ⟨-, -, htick⟩
    · rw [htick]
    · rw [htick]

/-! ## The countdown -/

/-- The countdown is below the brewing time, and the last ticks it counts all saw the same. -/
def Counted (seen : List Slots) (s : BrewingStandData) : Prop :=
  s.brewTicks < 400 ∧
    ∃ slots, seen.take s.brewTicks = List.replicate s.brewTicks slots

theorem take_same {seen : List Slots} {slots : Slots} {n : Nat}
    (h : seen.take n = List.replicate n slots) : (slots :: seen).take (n + 1) = List.replicate (n + 1) slots := by
  rw [List.take_succ_cons, h, List.replicate_succ]

/-- What is undisturbed has seen, at the ticks that count, what lies there now. -/
theorem Counted.same {seen : List Slots} (h : Counted seen s) (hu : s.Undisturbed seen) :
    seen.take s.brewTicks = List.replicate s.brewTicks s.slots := by
  obtain ⟨-, slots, hseen⟩ := h
  cases hn : s.brewTicks with
  | zero => rw [List.take_zero, List.replicate_zero]
  | succ n =>
      have hhead := hu (by omega)
      cases seen with
      | nil => cases hhead
      | cons first rest =>
          rw [List.head?_cons, Option.some.injEq] at hhead
          rw [hn, List.take_succ_cons, List.replicate_succ, List.cons.injEq] at hseen
          rw [List.take_succ_cons, hseen.2, List.replicate_succ, ← hhead, hseen.1]

theorem Counted.fullTime {seen : List Slots} (h : Counted seen s) (hu : s.Undisturbed seen) :
    s.FullTime recipes seen := by
  rintro ⟨-, -, hdone⟩
  have hsame := h.same hu
  have hlast : s.brewTicks = 399 := by
    have hlt := h.1
    omega
  rw [hlast] at hsame
  exact take_same hsame

theorem Counted.tick {seen : List Slots} (h : Counted seen s) (hu : s.Undisturbed seen) :
    Counted (s.slots :: seen) (s.tick recipes).1 := by
  have hsame := h.same hu
  by_cases hc : s.Completes recipes
  · obtain ⟨ingredient, hi⟩ := canBrew_ingredient hc.2.1
    rw [tick_of_completes hc hi]
    exact ⟨Nat.zero_lt_succ _, s.slots, rfl⟩
  · rcases tick_of_not_completes hc with htick | ⟨-, hshort, htick⟩
    · rw [htick]
      refine ⟨h.1, s.slots, ?_⟩
      have htake := congrArg (List.take s.brewTicks) (take_same hsame)
      rwa [List.take_take, List.take_replicate, Nat.min_eq_left (Nat.le_succ _)] at htake
    · rw [htick]
      exact ⟨by dsimp only; omega, s.slots, take_same hsame⟩

end BrewingStandData

/-! ## Runs -/

/-- Every stand is counted right. -/
def AllCounted (w : Watched) : Prop :=
  ∀ s ∈ w.manager.stands, s.Counted (w.seen s.pos)

theorem slotsAt_of_mem {w : Watched} {s : BrewingStandData} (hs : s ∈ w.manager.stands) :
    w.slotsAt s.pos = s.slots := by
  unfold Watched.slotsAt
  have hfound : ∃ t, w.manager.stands.find? (fun t => t.pos = s.pos) = some t :=
    Option.isSome_iff_exists.1 (List.find?_isSome.2 ⟨s, hs, by simp⟩)
  obtain ⟨t, ht⟩ := hfound
  have hpos : t.pos = s.pos := by simpa using List.find?_some ht
  have hts : t = s := List.inj_on_of_nodup_map w.manager.nodup (List.mem_of_find?_eq_some ht) hs hpos
  rw [ht, hts]
  rfl

theorem mem_getOrCreate {m : BrewingStandManager} {pos : BlockPos} {s : BrewingStandData}
    (hs : s ∈ (m.getOrCreate pos).stands) : s ∈ m.stands ∨ s = BrewingStandData.new pos := by
  unfold BrewingStandManager.getOrCreate at hs
  split at hs
  · exact .inl hs
  · rwa [List.mem_append, List.mem_singleton] at hs

theorem counted_getOrCreate {m : BrewingStandManager} {seen : BlockPos → List Slots}
    (h : ∀ s ∈ m.stands, s.Counted (seen s.pos)) (pos : BlockPos) :
    ∀ s ∈ (m.getOrCreate pos).stands, s.Counted (seen s.pos) := by
  intro s hs
  rcases mem_getOrCreate hs with hold | rfl
  · exact h s hold
  · exact ⟨Nat.zero_lt_succ _, (BrewingStandData.new pos).slots, rfl⟩

theorem counted_edit {m : BrewingStandManager} {seen : BlockPos → List Slots}
    (h : ∀ s ∈ m.stands, s.Counted (seen s.pos)) (pos : BlockPos) (fuel : BrewingStandData → Nat)
    (slots : BrewingStandData → Slots) :
    ∀ s ∈ (m.edit pos fuel slots).stands, s.Counted (seen s.pos) := by
  intro s hs
  obtain ⟨t, ht, rfl⟩ := List.mem_map.1 hs
  have hcounted := counted_getOrCreate h pos t ht
  by_cases hpos : t.pos = pos
  · rw [if_pos hpos]
    exact hcounted
  · rw [if_neg hpos]
    exact hcounted

/-- Undisturbed ticks and any edits keep the count. -/
theorem counted_step {recipes : List BrewingRecipe} {w : Watched} {a : Action} (h : AllCounted w)
    (ha : OnTick (fun seen s => s.Undisturbed seen) w a) : AllCounted (w.step recipes a) := by
  cases a with
  | getOrCreate pos => exact counted_getOrCreate h pos
  | remove pos => exact fun s hs => h s (List.mem_of_mem_filter hs)
  | setIngredient pos item => exact counted_edit h pos _ _
  | setBottle pos i item => exact counted_edit h pos _ _
  | setFuel pos fuel => exact counted_edit h pos _ _
  | takeBrewCompletions => exact h
  | tick =>
      intro s hs
      obtain ⟨t, ht, rfl⟩ := List.mem_map.1 hs
      have hcounted : BrewingStandData.Counted _ (t.tick recipes).1 := (h t ht).tick (ha rfl t ht)
      change BrewingStandData.Counted (w.slotsAt (t.tick recipes).1.pos :: w.seen (t.tick recipes).1.pos) _
      rw [BrewingStandManager.pos_tick, slotsAt_of_mem ht]
      exact hcounted

theorem along_oneIngredient (recipes : List BrewingRecipe) (w : Watched) (actions : List Action) :
    Along (Watched.step recipes) (OnTick fun _ s => s.OneIngredient recipes) w actions := by
  induction actions generalizing w with
  | nil => trivial
  | cons a actions ih => exact ⟨fun _ s _ => s.oneIngredient recipes, ih _⟩

theorem records_onTick (recipes : List BrewingRecipe) (w : Watched) (a : Action) :
    OnTick (fun _ s => s.Records recipes) w a ↔ OnTick (fun _ s => s.AllBrewable recipes) w a := by
  unfold OnTick
  simp only [BrewingStandData.records_iff]

/-- **Brewing**, over every run of ticks and edits: a brew that is done takes one ingredient and brews
the bottles with it; the completions are those of the bottles that changed exactly when each time
there is a recipe for every bottle; and where no tick finds a brew disturbed, the same ingredient and
bottles were there for the full time. -/
theorem brewing_law (recipes : List BrewingRecipe) (actions : List Action) :
    Along (Watched.step recipes) (OnTick fun _ s => s.OneIngredient recipes) Watched.new actions ∧
      (Along (Watched.step recipes) (OnTick fun _ s => s.Records recipes) Watched.new actions ↔
        Along (Watched.step recipes) (OnTick fun _ s => s.AllBrewable recipes) Watched.new actions) ∧
      (Along (Watched.step recipes) (OnTick fun seen s => s.Undisturbed seen) Watched.new actions →
        Along (Watched.step recipes) (OnTick fun seen s => s.FullTime recipes seen) Watched.new
          actions) := by
  refine ⟨along_oneIngredient recipes Watched.new actions, ?_, ?_⟩
  · exact along_iff (fun _ => True) (fun w a _ => records_onTick recipes w a)
      (fun _ _ _ _ => trivial) trivial actions
  · refine Along.imp AllCounted ?_ (fun w a hw ha => counted_step hw ha) ?_
    · exact fun w a hw ha htick s hs => (hw s hs).fullTime (ha htick s hs)
    · exact fun s hs => absurd hs List.not_mem_nil

/-! ## A bottle at the last moment -/

def standPos : BlockPos := ⟨0#32, 0#32, 0#32⟩

/-- A water bottle and nether wart. -/
def waterStand : BrewingStandData := ⟨standPos, 1, 0, some 1031, #v[some 1003, none, none]⟩

def prepare : List Action := [
  .setFuel standPos 1, .setIngredient standPos (some 1031), .setBottle standPos 0 (some 1003)]

def lateBottles : List Action := [
  .setBottle standPos 1 (some 1003), .setBottle standPos 2 (some 1020)]

/-- Another water bottle and a potion that does not brew come in for the last tick. -/
def lateRun : List Action :=
  prepare ++ List.replicate 399 Action.tick ++ lateBottles ++ [Action.tick]

theorem tick_waterStand {n : Nat} (hn : n < 399) :
    ({ waterStand with brewTicks := n } : BrewingStandData).tick brewingRegistry =
      ({ waterStand with brewTicks := n + 1 }, []) := by
  have hcan : ({ waterStand with brewTicks := n } : BrewingStandData).canBrew brewingRegistry = true :=
    show waterStand.canBrew brewingRegistry = true by decide
  unfold BrewingStandData.tick
  rw [if_pos ⟨Nat.one_pos, hcan⟩]
  dsimp only
  rw [if_neg (by omega), Nat.min_eq_left (by omega)]

/-- The stand counts the ticks, and each sees the same. -/
theorem ticks_waterStand {w : Watched} (hw : w.manager.stands = [waterStand]) (hseen : w.seen standPos = [])
    {n : Nat} (hn : n ≤ 399) :
    ((List.replicate n Action.tick).foldl (Watched.step brewingRegistry) w).manager.stands =
        [{ waterStand with brewTicks := n }] ∧
      ((List.replicate n Action.tick).foldl (Watched.step brewingRegistry) w).seen standPos =
        List.replicate n waterStand.slots := by
  induction n with
  | zero => exact ⟨hw, hseen⟩
  | succ n ih =>
      obtain ⟨hstands, hsaw⟩ := ih (by omega)
      rw [List.replicate_succ', List.foldl_append, List.foldl_cons, List.foldl_nil]
      generalize (List.replicate n Action.tick).foldl (Watched.step brewingRegistry) w = v at *
      constructor
      · change v.manager.stands.map (fun s => (s.tick brewingRegistry).1) = _
        rw [hstands, List.map_singleton, tick_waterStand (by omega)]
      · change v.slotsAt standPos :: v.seen standPos = _
        have hmem : ({ waterStand with brewTicks := n } : BrewingStandData) ∈ v.manager.stands := by
          rw [hstands]
          exact List.mem_singleton_self _
        rw [hsaw, List.replicate_succ]
        exact congrArg (· :: List.replicate n waterStand.slots) (slotsAt_of_mem hmem)

/-- The stand before the last tick. -/
def lateStand : BrewingStandData := ⟨standPos, 1, 399, some 1031, #v[some 1003, some 1003, some 1020]⟩

theorem completes_lateStand : lateStand.Completes brewingRegistry :=
  ⟨Nat.one_pos, by decide, Nat.le_refl 400⟩

theorem late_reached :
    ((prepare ++ List.replicate 399 Action.tick ++ lateBottles).foldl (Watched.step brewingRegistry)
        Watched.new).manager.stands = [lateStand] ∧
      ((prepare ++ List.replicate 399 Action.tick ++ lateBottles).foldl
        (Watched.step brewingRegistry) Watched.new).seen standPos =
          List.replicate 399 waterStand.slots := by
  rw [List.foldl_append, List.foldl_append]
  have hticks := ticks_waterStand (w := prepare.foldl (Watched.step brewingRegistry) Watched.new) rfl rfl
    (Nat.le_refl 399)
  generalize (List.replicate 399 Action.tick).foldl (Watched.step brewingRegistry)
    (prepare.foldl (Watched.step brewingRegistry) Watched.new) = v at *
  obtain ⟨⟨stands, completed, hnodup⟩, seen⟩ := v
  obtain ⟨hstands, hseen⟩ := hticks
  dsimp only at hstands
  subst hstands
  exact ⟨rfl, hseen⟩

/-- The second bottle is transformed after one tick, and the potion that is not transformed is
recorded as brewed. -/
theorem late_bottle :
    ¬ Along (Watched.step brewingRegistry) (OnTick fun seen s => s.FullTime brewingRegistry seen)
        Watched.new lateRun ∧
      ¬ Along (Watched.step brewingRegistry) (OnTick fun _ s => s.Records brewingRegistry)
        Watched.new lateRun ∧
      (lateStand.tick brewingRegistry).1.bottleSlots.toList = [some 1008, some 1008, some 1020] ∧
      (lateStand.tick brewingRegistry).2 =
        [⟨standPos, 1008⟩, ⟨standPos, 1008⟩, ⟨standPos, 1020⟩] := by
  obtain ⟨hstands, hseen⟩ := late_reached
  have hmem : lateStand ∈ ((prepare ++ List.replicate 399 Action.tick ++ lateBottles).foldl
      (Watched.step brewingRegistry) Watched.new).manager.stands := by
    rw [hstands]
    exact List.mem_singleton_self _
  refine ⟨?_, ?_, ?_, ?_⟩
  · intro hall
    have htime := (along_append.1 hall).2.1 rfl lateStand hmem completes_lateStand
    -- The tick before the last one saw one bottle.
    have hslots := congrArg (fun l => l[1]?) htime
    rw [show lateStand.pos = standPos from rfl, hseen] at hslots
    simp only [List.getElem?_take_of_lt (show 1 < 400 by omega), List.getElem?_cons_succ,
      List.getElem?_replicate_of_lt (show 0 < 399 by omega),
      List.getElem?_replicate_of_lt (show 1 < 400 by omega)] at hslots
    exact absurd hslots (by decide)
  · intro hall
    have hrecords := (along_append.1 hall).2.1 rfl lateStand hmem
    have hall := (BrewingStandData.records_iff _ _).1 hrecords completes_lateStand (some 1020)
      (by decide) rfl
    exact absurd hall (by decide)
  · rw [BrewingStandData.tick_of_completes completes_lateStand rfl]
    exact Vector.toList_map.trans (by decide)
  · rw [BrewingStandData.tick_of_completes completes_lateStand rfl, Vector.toList_map]
    decide

end Apoptotic.Brewing
