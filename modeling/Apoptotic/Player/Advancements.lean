import Apoptotic.Lib.OnePass
import Apoptotic.Lib.Reached
import Mathlib.Data.List.Induction

/-!
# Advancements

`mc-player/src/advancement.rs`.  The map of a registry is the list of its advancements in the order in
which it is iterated; titles, icons and frames are left out.

Principal result: `settled_iff` — along a run the completed advancements are the closure of the
criteria that were met, and each is reported once, exactly when in every call parents are visited
before the children that still wait for them.
-/

namespace Apoptotic.Advancements

abbrev Uuid := BitVec 128

inductive Criterion where
  | inventoryChanged (itemId : BitVec 32)
  | itemUsed (itemId : BitVec 32)
  | entityKilled (entityType : BitVec 32)
  | locationChanged (dimension : String)
  | enchantedItem
  | tamedAnimal
  | fishCaught
  | bredAnimals
  | placedBlock (blockId : BitVec 32)
  | brewedPotion
  | constructedBeacon
  | consumeItem (itemId : BitVec 32)
  | villagerTrade
  | curedZombieVillager
  | shotCrossbow
  | raidWin
  | uhOh
  deriving DecidableEq

structure Advancement where
  id : String
  parent : Option String
  criteria : List Criterion
  deriving DecidableEq

/-- The advancements by their ids. -/
structure AdvancementRegistry where
  advancements : List Advancement
  nodup : (advancements.map Advancement.id).Nodup

def mk (id parent : String) (criteria : List Criterion) : Advancement := ⟨id, some parent, criteria⟩

def storyRoot : Advancement := ⟨"minecraft:story/root", none, []⟩

/-- The advancements that `new` makes. -/
def presets : List Advancement := [
    mk "minecraft:story/mine_stone" "minecraft:story/root" [.inventoryChanged 1],
    mk "minecraft:story/upgrade_tools" "minecraft:story/mine_stone" [.inventoryChanged 774],
    mk "minecraft:story/smelt_iron" "minecraft:story/upgrade_tools" [.inventoryChanged 996],
    mk "minecraft:story/obtain_armor" "minecraft:story/smelt_iron" [.inventoryChanged 787],
    mk "minecraft:story/lava_bucket" "minecraft:story/smelt_iron" [.inventoryChanged 87],
    mk "minecraft:story/iron_tools" "minecraft:story/smelt_iron" [.inventoryChanged 775],
    mk "minecraft:story/deflect_arrow" "minecraft:story/obtain_armor" [.itemUsed 845],
    mk "minecraft:story/form_obsidian" "minecraft:story/lava_bucket" [.inventoryChanged 49],
    mk "minecraft:story/mine_diamond" "minecraft:story/iron_tools" [.inventoryChanged 57],
    mk "minecraft:story/enter_nether" "minecraft:story/form_obsidian" [.locationChanged "the_nether"],
    mk "minecraft:story/enchant_item" "minecraft:story/mine_diamond" [.enchantedItem],
    mk "minecraft:story/cure_zombie_villager" "minecraft:story/enter_nether" [.itemUsed 1033],
    mk "minecraft:story/enter_end" "minecraft:story/enter_nether" [.locationChanged "the_end"],
    mk "minecraft:nether/root" "minecraft:story/enter_nether" [.locationChanged "the_nether"],
    mk "minecraft:nether/obtain_blaze_rod" "minecraft:nether/root" [.inventoryChanged 903],
    mk "minecraft:nether/brew_potion" "minecraft:nether/obtain_blaze_rod" [.inventoryChanged 1004],
    mk "minecraft:end/root" "minecraft:story/enter_end" [.locationChanged "the_end"],
    mk "minecraft:end/kill_dragon" "minecraft:end/root" [.entityKilled 53],
    mk "minecraft:husbandry/root" "minecraft:story/root" [.inventoryChanged 829],
    mk "minecraft:husbandry/tame_animal" "minecraft:husbandry/root" [.tamedAnimal],
    mk "minecraft:husbandry/uh_oh" "minecraft:husbandry/root" [.uhOh],
    mk "minecraft:husbandry/fish_fish" "minecraft:husbandry/root" [.fishCaught],
    mk "minecraft:adventure/root" "minecraft:story/root" [.entityKilled 36],
    mk "minecraft:adventure/kill_a_mob" "minecraft:adventure/root" [.entityKilled 0],
    mk "minecraft:adventure/shoot_arrow" "minecraft:adventure/root" [.itemUsed 773],
    mk "minecraft:adventure/sniper_duel" "minecraft:adventure/shoot_arrow" [.entityKilled 37],
    mk "minecraft:adventure/ol_betsy" "minecraft:adventure/shoot_arrow" [.shotCrossbow],
    mk "minecraft:adventure/hero_of_the_village" "minecraft:adventure/root" [.raidWin],
    mk "minecraft:nether/brew_potion" "minecraft:nether/obtain_blaze_rod" [.brewedPotion],
    mk "minecraft:nether/create_beacon" "minecraft:nether/obtain_blaze_rod" [.constructedBeacon],
    mk "minecraft:husbandry/trade" "minecraft:husbandry/root" [.villagerTrade],
    mk "minecraft:husbandry/cure_zombie_villager" "minecraft:husbandry/root" [.curedZombieVillager],
    mk "minecraft:husbandry/balanced_diet" "minecraft:husbandry/root" [.consumeItem 0]]

namespace AdvancementRegistry

/-- `map.insert(k, v)` -/
def insert (r : AdvancementRegistry) (a : Advancement) : AdvancementRegistry where
  advancements := a :: r.advancements.filter fun b => b.id ≠ a.id
  nodup := by
    rw [List.map_cons, List.nodup_cons]
    refine ⟨fun hmem => ?_, r.nodup.sublist (List.filter_sublist.map Advancement.id)⟩
    obtain ⟨b, hb, heq⟩ := List.mem_map.1 hmem
    simp [heq] at hb

def new : AdvancementRegistry := presets.foldl insert ⟨[storyRoot], List.nodup_singleton _⟩

end AdvancementRegistry

/-! ## The tracker -/

structure AdvancementTracker where
  completed : Uuid → Finset String
  criteriaDone : Uuid → Finset Criterion

/-- One iteration of the loop of `check_criterion`: `completed_set` and `newly_completed`. -/
def visit (criteria : Finset Criterion) (s : Finset String × List String) (adv : Advancement) :
    Finset String × List String :=
  if adv.id ∈ s.1 then s
  else if adv.criteria.isEmpty then (insert adv.id s.1, s.2 ++ [adv.id])
  else if adv.criteria.all (fun c => c ∈ criteria) then
    let parentOk : Bool :=
      match adv.parent with
      | some parentId => parentId ∈ s.1
      | none => true
    if parentOk then (insert adv.id s.1, s.2 ++ [adv.id]) else s
  else s

namespace AdvancementTracker

def new : AdvancementTracker := ⟨fun _ => ∅, fun _ => ∅⟩

def checkCriterion (t : AdvancementTracker) (uuid : Uuid) (criterion : Criterion)
    (registry : AdvancementRegistry) : AdvancementTracker × List String :=
  let criteria := insert criterion (t.criteriaDone uuid)
  let (completedSet, newlyCompleted) :=
    registry.advancements.foldl (visit criteria) (t.completed uuid, [])
  ({ completed := Function.update t.completed uuid completedSet
     criteriaDone := Function.update t.criteriaDone uuid criteria }, newlyCompleted)

end AdvancementTracker

/-! ## Runs -/

/-- A call of `check_criterion`. -/
abbrev Call := Uuid × Criterion

/-- The tracker, and which advancements were reported completed to whom. -/
structure Progress where
  tracker : AdvancementTracker
  reports : List (Uuid × String)

namespace Progress

def new : Progress := ⟨.new, []⟩

def step (registry : AdvancementRegistry) (s : Progress) (call : Call) : Progress :=
  let (tracker, newlyCompleted) := s.tracker.checkCriterion call.1 call.2 registry
  ⟨tracker, s.reports ++ newlyCompleted.map fun id => (call.1, id)⟩

/-- What was reported to a player. -/
def reportedTo (s : Progress) (uuid : Uuid) : List String :=
  (s.reports.filter fun r => r.1 = uuid).map Prod.snd

end Progress

def run (registry : AdvancementRegistry) (calls : List Call) : Progress :=
  calls.foldl (Progress.step registry) .new

/-- The advancements earned with some criteria: the least set that has every advancement whose criteria
are met and whose parent, if any, is in it. -/
def Earned (registry : AdvancementRegistry) (met : Criterion → Prop) : String → Prop :=
  OnePass.Closure Advancement.id Advancement.parent registry.advancements fun a => ∀ c ∈ a.criteria, met c

/-- **The completed advancements of a player are those earned with the criteria met so far, and each was
reported once.** -/
structure Settled (registry : AdvancementRegistry) (calls : List Call) : Prop where
  completed : ∀ uuid c, (uuid, c) ∈ calls → ∀ id,
    id ∈ (run registry calls).tracker.completed uuid ↔ Earned registry (fun c => (uuid, c) ∈ calls) id
  reported : ∀ uuid, ((run registry calls).reportedTo uuid).Nodup ∧
    ∀ id, id ∈ (run registry calls).reportedTo uuid ↔ id ∈ (run registry calls).tracker.completed uuid

/-- What a call finds: with the new criterion, an advancement without criteria is earned, and one whose
criteria are met but which is not completed comes behind its parent, if that one is earned and not
completed either. -/
def InTime (registry : AdvancementRegistry) (s : Progress) (call : Call) : Prop :=
  let met := fun c => c = call.2 ∨ c ∈ s.tracker.criteriaDone call.1
  (∀ a ∈ registry.advancements, a.criteria = [] → Earned registry met a.id) ∧
    ∀ pre a post, registry.advancements = pre ++ a :: post → (∀ c ∈ a.criteria, met c) →
      a.criteria ≠ [] → a.id ∉ s.tracker.completed call.1 →
        ∀ p, a.parent = some p → Earned registry met p →
          p ∈ s.tracker.completed call.1 ∨ p ∈ pre.map Advancement.id

/-! ## One call -/

/-- The pass of `check_criterion` as one over rules. -/
abbrev passOver (criteria : Finset Criterion) : List Advancement → Finset String × List String →
    Finset String × List String :=
  OnePass.pass Advancement.id Advancement.parent (fun a => a.criteria = []) fun a =>
    ∀ c ∈ a.criteria, c ∈ criteria

theorem parentOk_iff (adv : Advancement) (known : Finset String) :
    (match adv.parent with
      | some parentId => decide (parentId ∈ known)
      | none => true) = true ↔ OnePass.Met Advancement.parent known adv := by
  unfold OnePass.Met
  cases adv.parent with
  | none => simp
  | some p => simp

theorem visit_eq (criteria : Finset Criterion) : visit criteria =
    OnePass.visit Advancement.id Advancement.parent (fun a => a.criteria = []) fun a =>
      ∀ c ∈ a.criteria, c ∈ criteria := by
  funext s adv
  have hfires : OnePass.Fires Advancement.id Advancement.parent (fun a => a.criteria = [])
      (fun a => ∀ c ∈ a.criteria, c ∈ criteria) s.1 adv ↔ adv.id ∉ s.1 ∧ (adv.criteria = [] ∨
        (∀ c ∈ adv.criteria, c ∈ criteria) ∧ OnePass.Met Advancement.parent s.1 adv) := Iff.rfl
  unfold visit OnePass.visit
  simp only [parentOk_iff, List.isEmpty_iff, List.all_eq_true, decide_eq_true_eq, hfires]
  by_cases hknown : adv.id ∈ s.1
  · simp [hknown]
  by_cases hfree : adv.criteria = []
  · simp [hknown, hfree]
  · simp [hknown, hfree, ite_and]

variable {registry : AdvancementRegistry} {calls : List Call}

namespace Progress

variable (s : Progress) (call : Call)

/-- The criteria of the player with the new one. -/
def criteriaWith : Finset Criterion := insert call.2 (s.tracker.criteriaDone call.1)

/-- What the call visits and reports. -/
def passed (registry : AdvancementRegistry) : Finset String × List String :=
  passOver (s.criteriaWith call) registry.advancements (s.tracker.completed call.1, [])

theorem step_eq : s.step registry call =
    ⟨⟨Function.update s.tracker.completed call.1 (s.passed call registry).1,
        Function.update s.tracker.criteriaDone call.1 (s.criteriaWith call)⟩,
      s.reports ++ (s.passed call registry).2.map fun id => (call.1, id)⟩ := by
  unfold step AdvancementTracker.checkCriterion
  simp only [visit_eq]
  rfl

theorem reportedTo_step (uuid : Uuid) : (s.step registry call).reportedTo uuid =
    s.reportedTo uuid ++ if uuid = call.1 then (s.passed call registry).2 else [] := by
  rw [step_eq]
  unfold reportedTo
  rw [List.filter_append, List.map_append]
  congr 1
  by_cases huuid : uuid = call.1
  · subst huuid
    rw [if_pos rfl, List.filter_eq_self.2 (by simp), List.map_map]
    exact List.map_id' _
  · rw [if_neg huuid, List.map_eq_nil_iff, List.filter_eq_nil_iff]
    rintro r hr
    obtain ⟨id, -, rfl⟩ := List.mem_map.1 hr
    simpa using Ne.symm huuid

/-- What is completed was reported, once. -/
def Reported : Prop := ∀ uuid, (s.reportedTo uuid).Nodup ∧
  ∀ id, id ∈ s.reportedTo uuid ↔ id ∈ s.tracker.completed uuid

variable {s}

/-- **Every advancement that a call completes is reported by it, and no other.** -/
theorem Reported.step (h : s.Reported) : (s.step registry call).Reported := by
  intro uuid
  obtain ⟨hnodup, hmem⟩ := h uuid
  rw [reportedTo_step]
  by_cases huuid : uuid = call.1
  · subst huuid
    obtain ⟨fired, hpassed, hfired, hnew⟩ : ∃ fired,
        s.passed call registry = (s.tracker.completed call.1 ∪ fired.toFinset, [] ++ fired) ∧
          fired.Nodup ∧ ∀ id ∈ fired, id ∉ s.tracker.completed call.1 := OnePass.pass_eq _ _ _
    rw [if_pos rfl, step_eq, hpassed]
    refine ⟨?_, fun id => ?_⟩
    · refine hnodup.append hfired fun id hid hid' => ?_
      exact hnew id hid' ((hmem id).1 hid)
    · simp [hmem id]
  · rw [if_neg huuid, List.append_nil, step_eq]
    simp only [Function.update_of_ne huuid]
    exact ⟨hnodup, hmem⟩

end Progress

theorem reported_run (calls : List Call) : (run registry calls).Reported := by
  induction calls using List.reverseRecOn with
  | nil =>
      intro uuid
      refine ⟨List.nodup_nil, fun id => ⟨fun h => ?_, fun h => ?_⟩⟩ <;> cases h
  | append_singleton calls call ih =>
      rw [run, List.foldl_append]
      exact Progress.Reported.step call ih

/-! ## Runs -/

theorem run_append (calls : List Call) (call : Call) :
    run registry (calls ++ [call]) = (run registry calls).step registry call := List.foldl_append

theorem mem_criteriaDone (calls : List Call) (uuid : Uuid) (c : Criterion) :
    c ∈ (run registry calls).tracker.criteriaDone uuid ↔ (uuid, c) ∈ calls := by
  induction calls using List.reverseRecOn with
  | nil => exact iff_of_false (fun h => by cases h) (fun h => by cases h)
  | append_singleton calls call ih =>
      rw [run_append, Progress.step_eq, List.mem_append, List.mem_singleton, ← ih]
      by_cases huuid : uuid = call.1
      · subst huuid
        simp [Progress.criteriaWith, Prod.ext_iff, or_comm]
      · simp [Prod.ext_iff, huuid]

theorem completed_of_unseen (calls : List Call) {uuid : Uuid} (h : ∀ c, (uuid, c) ∉ calls) :
    (run registry calls).tracker.completed uuid = ∅ := by
  induction calls using List.reverseRecOn with
  | nil => rfl
  | append_singleton calls call ih =>
      have huuid : uuid ≠ call.1 := by
        rintro rfl
        exact h call.2 (List.mem_append_right calls List.mem_cons_self)
      rw [run_append, Progress.step_eq]
      simp only [Function.update_of_ne huuid]
      exact ih fun c hc => h c (List.mem_append_left _ hc)

/-- A call of somebody else changes nothing that a player has met. -/
theorem mem_append_of_ne {calls : List Call} {call : Call} {uuid : Uuid} (huuid : uuid ≠ call.1)
    (c : Criterion) : (uuid, c) ∈ calls ++ [call] ↔ (uuid, c) ∈ calls := by
  rw [List.mem_append, List.mem_singleton]
  exact or_iff_left fun heq => huuid (congrArg Prod.fst heq)

/-- **A call keeps things settled exactly when it finds parents in time.** -/
theorem settled_append_iff (h : Settled registry calls) (call : Call) :
    Settled registry (calls ++ [call]) ↔ InTime registry (run registry calls) call := by
  obtain ⟨uuid, criterion⟩ := call
  set s := run registry calls with hs
  have hmet : ∀ c, c ∈ s.criteriaWith (uuid, criterion) ↔ (uuid, c) ∈ calls ++ [(uuid, criterion)] := by
    intro c
    simp [Progress.criteriaWith, hs, mem_criteriaDone, or_comm]
  -- what was completed before is earned with one criterion more
  have hearned : ∀ id ∈ s.tracker.completed uuid,
      Earned registry (fun c => c ∈ s.criteriaWith (uuid, criterion)) id := by
    intro id hid
    by_cases hseen : ∃ c, (uuid, c) ∈ calls
    · obtain ⟨c, hc⟩ := hseen
      refine ((h.completed uuid c hc id).1 hid).mono fun a ha c hc => ?_
      exact (hmet c).2 (List.mem_append_left _ (ha c hc))
    · push Not at hseen
      rw [hs, completed_of_unseen calls hseen] at hid
      cases hid
  have hpass : Settled registry (calls ++ [(uuid, criterion)]) ↔
      ∀ id, id ∈ (s.passed (uuid, criterion) registry).1 ↔
        Earned registry (fun c => c ∈ s.criteriaWith (uuid, criterion)) id := by
    simp only [hmet]
    constructor
    · intro hset id
      rw [← hset.completed uuid criterion (List.mem_append_right _ List.mem_cons_self) id, run_append,
        Progress.step_eq]
      simp only [Function.update_self]
      rfl
    · intro hpassed
      refine ⟨fun uuid' c hc id => ?_, fun uuid' => reported_run _ uuid'⟩
      by_cases huuid : uuid' = uuid
      · subst huuid
        rw [run_append, Progress.step_eq, ← hpassed id]
        simp only [Function.update_self]
        rfl
      · have hmem : ∀ c, (uuid', c) ∈ calls ++ [(uuid, criterion)] ↔ (uuid', c) ∈ calls :=
          mem_append_of_ne huuid
        simp only [hmem] at hc ⊢
        rw [run_append, Progress.step_eq, ← h.completed uuid' c hc id]
        simp only [Function.update_of_ne huuid]
  rw [hpass]
  refine (OnePass.mem_pass_iff_closure_iff registry.nodup hearned).trans ?_
  simp only [InTime, Earned, Progress.criteriaWith, Finset.mem_insert]

/-- **Along a run the completed advancements are those earned, and each is reported once, exactly when
every call finds parents in time.** -/
theorem settled_iff (registry : AdvancementRegistry) (calls : List Call) :
    (∀ done, done <+: calls → Settled registry done) ↔
      Along (Progress.step registry) (InTime registry) .new calls := by
  induction calls using List.reverseRecOn with
  | nil =>
      refine iff_of_true (fun done hdone => ?_) trivial
      rw [List.prefix_nil.1 hdone]
      exact ⟨fun _ _ hc => (by cases hc), fun uuid => reported_run [] uuid⟩
  | append_singleton calls call ih =>
      rw [along_append, ← ih]
      constructor
      · intro h
        have hbefore : ∀ done, done <+: calls → Settled registry done := fun done hdone =>
          h done (hdone.trans (List.prefix_append calls [call]))
        have hcall := (settled_append_iff (hbefore calls (List.prefix_refl calls)) call).1
          (h _ (List.prefix_refl _))
        exact ⟨hbefore, hcall, trivial⟩
      · rintro ⟨hbefore, hcall, -⟩ done hdone
        rcases List.prefix_concat_iff.1 hdone with rfl | hdone
        · exact (settled_append_iff (hbefore calls (List.prefix_refl calls)) call).2 hcall
        · exact hbefore done hdone

/-- What is earned depends neither on the order of the map nor on that of the calls. -/
theorem earned_congr {registry registry' : AdvancementRegistry} {calls calls' : List Call} {uuid : Uuid}
    (hreg : registry.advancements.Perm registry'.advancements) (hcalls : calls.Perm calls') (id : String) :
    Earned registry (fun c => (uuid, c) ∈ calls) id ↔ Earned registry' (fun c => (uuid, c) ∈ calls') id := by
  have hmono : ∀ {r r' : AdvancementRegistry} {l l' : List Call}, r.advancements ⊆ r'.advancements →
      l ⊆ l' → Earned r (fun c => (uuid, c) ∈ l) id → Earned r' (fun c => (uuid, c) ∈ l') id := by
    intro r r' l l' hr hl h
    induction h with
    | intro ha hready _ ih => exact .intro (hr ha) (fun c hc => hl (hready c hc)) ih
  exact ⟨hmono hreg.subset hcalls.subset, hmono hreg.symm.subset hcalls.symm.subset⟩

/-! ## The advancements of the server -/

theorem mem_foldl_insert {as : List Advancement} {registry : AdvancementRegistry} {a : Advancement}
    (h : a ∈ (as.foldl AdvancementRegistry.insert registry).advancements) :
    a ∈ registry.advancements ∨ a ∈ as := by
  induction as generalizing registry with
  | nil => exact .inl h
  | cons b as ih =>
      rcases ih h with hmem | hmem
      · rcases List.mem_cons.1 hmem with rfl | hmem
        · exact .inr List.mem_cons_self
        · exact .inl (List.mem_of_mem_filter hmem)
      · exact .inr (List.mem_cons_of_mem b hmem)

/-- In the registry of the server only the order of the map can be wrong: the root alone has no
criteria. -/
theorem earned_of_criteria_eq_nil {met : Criterion → Prop} :
    ∀ a ∈ AdvancementRegistry.new.advancements, a.criteria = [] →
      Earned AdvancementRegistry.new met a.id := by
  intro a ha hnil
  have hpresets : ∀ b ∈ presets, b.criteria ≠ [] := by decide
  refine .intro ha (by rw [hnil]; exact List.forall_mem_nil _) fun p hp => ?_
  rcases mem_foldl_insert ha with hroot | hpreset
  · rw [List.mem_singleton.1 hroot] at hp
    cases hp
  · exact absurd hnil (hpresets a hpreset)

/-- A player with a stone pickaxe who then mines stone. -/
def pickaxeFirst : List Call := [(0, .inventoryChanged 774), (0, .inventoryChanged 1)]

/-- With the map iterated from the last insertion to the first, the pickaxe is missed. -/
theorem not_forall_advancements_settled : ¬ ∀ registry calls, Settled registry calls := by
  intro h
  have hcompleted := (h AdvancementRegistry.new pickaxeFirst).completed 0 (.inventoryChanged 1)
    (by decide) "minecraft:story/upgrade_tools"
  have hmissed : "minecraft:story/upgrade_tools" ∉
      (run AdvancementRegistry.new pickaxeFirst).tracker.completed 0 := by
    decide +kernel
  rw [hcompleted] at hmissed
  apply hmissed
  have hroot : Earned AdvancementRegistry.new (fun c => (0, c) ∈ pickaxeFirst) "minecraft:story/root" :=
    earned_of_criteria_eq_nil storyRoot (by decide +kernel) rfl
  have hstone : Earned AdvancementRegistry.new (fun c => (0, c) ∈ pickaxeFirst)
      "minecraft:story/mine_stone" :=
    .intro (r := mk "minecraft:story/mine_stone" "minecraft:story/root" [.inventoryChanged 1])
      (by decide +kernel) (by decide) fun p hp => by cases hp; exact hroot
  exact .intro (r := mk "minecraft:story/upgrade_tools" "minecraft:story/mine_stone"
    [.inventoryChanged 774]) (by decide +kernel) (by decide) fun p hp => by cases hp; exact hstone

end Apoptotic.Advancements
