import Apoptotic.Player.Enchant

/-!
# Rolled enchantments

What `roll_enchantment` of `mc-player/src/enchant.rs` may choose for an item.  Its loop looks at the
conflicts of the next enchantment only; the lists of the registry go both ways, so that is enough.

Principal result: `legal_rollEnchantment`.
-/

namespace Apoptotic.Enchant

/-- An enchantment that the table may put on the item. -/
structure Offered (itemId : Nat) (x : EnchantmentEntry) : Prop where
  registered : x ∈ registry
  category : x.category = itemCategory itemId ∨ x.category = "all"
  common : x.isTreasure = false

/-- What may be on the item together. -/
structure Compatible (itemId : Nat) (result : List Entry) : Prop where
  distinct : (result.map fun e => e.1).Nodup
  offered : ∀ e ∈ result, ∃ x, Offered itemId x ∧ x.name = e.1 ∧ 1 ≤ e.2 ∧ e.2 ≤ x.maxLevel
  peaceful : ∀ e ∈ result, ∀ e' ∈ result, ∀ x ∈ registry, x.name = e.1 → e'.1 ∉ x.conflicts

/-- One to three enchantments that may be on the item together. -/
structure Legal (itemId : Nat) (result : List Entry) : Prop extends Compatible itemId result where
  some_entry : 1 ≤ result.length
  at_most : result.length ≤ 3

/-! ## The registry -/

theorem nodup_names : (registry.map EnchantmentEntry.name).Nodup := by decide +kernel

/-- An entry of the registry is known by its name. -/
theorem eq_of_name {x y : EnchantmentEntry} (hx : x ∈ registry) (hy : y ∈ registry)
    (h : x.name = y.name) : x = y := List.inj_on_of_nodup_map nodup_names hx hy h

/-- **Conflicts go both ways.** -/
theorem conflicts_symm : ∀ x ∈ registry, ∀ y ∈ registry, y.name ∈ x.conflicts → x.name ∈ y.conflicts := by
  decide +kernel

theorem not_conflicts_self : ∀ x ∈ registry, x.name ∉ x.conflicts := by decide +kernel

/-- The candidates of `roll_enchantment`. -/
def candidatesFor (itemId : Nat) : List EnchantmentEntry :=
  registry.filter fun e => (e.category = itemCategory itemId ∨ e.category = "all") ∧ !e.isTreasure

theorem mem_candidatesFor {itemId : Nat} {x : EnchantmentEntry} :
    x ∈ candidatesFor itemId ↔ Offered itemId x := by
  unfold candidatesFor
  rw [List.mem_filter]
  constructor
  · rintro ⟨hreg, hx⟩
    obtain ⟨hcategory, hcommon⟩ := of_decide_eq_true hx
    exact ⟨hreg, hcategory, by simpa using hcommon⟩
  · rintro ⟨hreg, hcategory, hcommon⟩
    refine ⟨hreg, decide_eq_true ⟨hcategory, ?_⟩⟩
    rw [hcommon]
    rfl

/-- Unbreaking goes on everything. -/
theorem candidatesFor_ne_nil (itemId : Nat) : candidatesFor itemId ≠ [] := by
  have hunbreaking : (⟨"unbreaking", 3, "all", [], false⟩ : EnchantmentEntry) ∈ candidatesFor itemId :=
    mem_candidatesFor.2 ⟨by simp [registry], .inr rfl, rfl⟩
  exact List.ne_nil_of_mem hunbreaking

theorem rolled_level {x : EnchantmentEntry} (hx : x ∈ registry) (level : Nat) :
    1 ≤ min (level % x.maxLevel + 1) x.maxLevel ∧
      min (level % x.maxLevel + 1) x.maxLevel ≤ x.maxLevel := by
  have hmax := (registry_levels x hx).1
  omega

/-! ## The loop -/

/-- An enchantment that conflicts with nothing chosen, and that nothing chosen is, may be added. -/
theorem Compatible.add {itemId : Nat} {result : List Entry} (h : Compatible itemId result)
    {x : EnchantmentEntry} (hx : Offered itemId x) (hnew : x.name ∉ result.keys)
    (hfree : ∀ c ∈ x.conflicts, c ∉ result.keys) {level : Nat} (hlow : 1 ≤ level)
    (hhigh : level ≤ x.maxLevel) : Compatible itemId (result ++ [⟨x.name, level⟩]) where
  distinct := by
    rw [List.map_append, List.map_singleton, List.nodup_append]
    refine ⟨h.distinct, List.nodup_singleton _, ?_⟩
    rintro a ha b hb rfl
    rw [List.mem_singleton.1 hb] at ha
    exact hnew ha
  offered := by
    intro e he
    rcases List.mem_append.1 he with he | he
    · exact h.offered e he
    · rw [List.mem_singleton.1 he]
      exact ⟨x, hx, rfl, hlow, hhigh⟩
  peaceful := by
    have hkey : ∀ e ∈ result, e.1 ∈ result.keys := fun e he => List.mem_map_of_mem he
    intro e he e' he' y hy hname
    rcases List.mem_append.1 he with he | he
    · rcases List.mem_append.1 he' with he' | he'
      · exact h.peaceful e he e' he' y hy hname
      · -- The list of the new enchantment is looked at; that of `y` names it only if it names `y`.
        rw [List.mem_singleton.1 he']
        intro hconflict
        apply hfree y.name (conflicts_symm y hy x hx.registered hconflict)
        rw [hname]
        exact hkey e he
    · rw [List.mem_singleton.1 he] at hname
      cases eq_of_name hy hx.registered hname
      rcases List.mem_append.1 he' with he' | he'
      · exact fun hconflict => hfree e'.1 hconflict (hkey e' he')
      · rw [List.mem_singleton.1 he']
        exact not_conflicts_self x hx.registered

/-- **The rounds keep what may be on the item together.** -/
theorem compatible_rollLoop {itemId : Nat} (level n : Nat) {result : List Entry}
    (h : Compatible itemId result) :
    Compatible itemId (rollLoop (candidatesFor itemId) itemId level n result) ∧
      result.length ≤ (rollLoop (candidatesFor itemId) itemId level n result).length ∧
      (rollLoop (candidatesFor itemId) itemId level n result).length ≤ result.length + n := by
  induction n generalizing result with
  | zero => exact ⟨h, Nat.le_refl _, Nat.le_refl _⟩
  | succ n ih =>
      rcases rollLoop_succ (candidatesFor itemId) itemId level n result with
        ⟨hstop, -⟩ | ⟨x, hx, hnew, hfree, hnext⟩
      · rw [hstop]
        exact ⟨h, Nat.le_refl _, Nat.le_add_right _ _⟩
      · have hoffered := mem_candidatesFor.1 hx
        obtain ⟨hlow, hhigh⟩ := rolled_level hoffered.registered level
        have hadded := h.add hoffered hnew hfree hlow hhigh
        obtain ⟨hcompatible, hmore, hless⟩ := ih hadded
        rw [List.length_append, List.length_singleton] at hmore hless
        rw [hnext]
        exact ⟨hcompatible, by omega, by omega⟩

/-- **What is rolled is legal**, for every item and level. -/
theorem legal_rollEnchantment (itemId level : Nat) : Legal itemId (rollEnchantment itemId level) := by
  have hnone : Compatible itemId [] :=
    ⟨List.nodup_nil, List.forall_mem_nil _, List.forall_mem_nil _⟩
  change Legal itemId (rollLoop (candidatesFor itemId) itemId level (1 + min (level / 15) 2) [])
  obtain ⟨hcompatible, -, hless⟩ := compatible_rollLoop level (1 + min (level / 15) 2) hnone
  rw [List.length_nil] at hless
  refine ⟨hcompatible, ?_, by omega⟩
  -- Nothing is chosen yet in the first round, and there is a candidate.
  rw [Nat.add_comm]
  rcases rollLoop_succ (candidatesFor itemId) itemId level (min (level / 15) 2) [] with
    ⟨-, hall⟩ | ⟨x, hx, hnew, hfree, hnext⟩
  · obtain ⟨x, hx⟩ := List.exists_mem_of_ne_nil _ (candidatesFor_ne_nil itemId)
    rcases hall x hx with hchosen | ⟨_, _, hchosen⟩
    · cases hchosen
    · cases hchosen
  · have hoffered := mem_candidatesFor.1 hx
    obtain ⟨hlow, hhigh⟩ := rolled_level hoffered.registered level
    have hadded := hnone.add hoffered hnew hfree hlow hhigh
    obtain ⟨-, hmore, -⟩ := compatible_rollLoop level (min (level / 15) 2) hadded
    rw [hnext]
    exact hmore

end Apoptotic.Enchant
