import Apoptotic.Lib.Reached
import Apoptotic.Player.SpatialIndex
import Mathlib.Algebra.BigOperators.Group.List.Basic
import Mathlib.Algebra.Order.BigOperators.Group.List
import Mathlib.Data.List.Perm.Subperm

/-!
# The gossip of the villagers

`VillagerGossip`, `GossipManager`, `record_trade` and `record_villager_hurt` of
`mc-player/src/villager.rs`.  A villager without gossip has an empty list of entries.  `i32`
arithmetic wraps.

Principal result: `along_reflects_iff` — the reputation reflects the events exactly along the runs
in which no villager is hurt and no tick finds a small entry before its age limit.
-/

namespace Apoptotic.Gossip

open PlayerManager (Uuid)

inductive GossipType where
  | majorPositive
  | minorPositive
  | trade
  | minorNegative
  | majorNegative
  deriving DecidableEq

namespace GossipType

def baseValue : GossipType → Int
  | majorPositive => 20
  | minorPositive => 1
  | trade => 1
  | minorNegative => -1
  | majorNegative => -25

def decayTicks : GossipType → Nat
  | majorPositive => 24000
  | minorPositive => 6000
  | trade => 1200
  | minorNegative => 6000
  | majorNegative => 24000

def maxValue : GossipType → Int
  | majorPositive => 100
  | trade => 200
  | _ => 25

/-- `decay_ticks() * 2` -/
def maxAge (t : GossipType) : Nat := t.decayTicks * 2

end GossipType

structure GossipEntry where
  target : Uuid
  gossipType : GossipType
  value : Int
  ageTicks : Nat

/-- An `i32` result. -/
def wrap (n : Int) : Int := n.bmod (2 ^ 32)

structure VillagerGossip where
  entries : List GossipEntry

/-- What an entry is about. -/
def GossipEntry.key (e : GossipEntry) : Uuid × GossipType := (e.target, e.gossipType)

namespace VillagerGossip

/-- The first entry of the same target and type, or a new one at the end. -/
def addTo (target : Uuid) (t : GossipType) : List GossipEntry → List GossipEntry
  | [] => [⟨target, t, min (max t.baseValue 0) t.maxValue, 0⟩]
  | e :: rest =>
      if e.key = (target, t) then
        { e with value := min (wrap (e.value + t.baseValue)) t.maxValue, ageTicks := 0 } :: rest
      else e :: addTo target t rest

def add (g : VillagerGossip) (target : Uuid) (t : GossipType) : VillagerGossip :=
  ⟨addTo target t g.entries⟩

end VillagerGossip

/-- `saturating_add(1)` -/
def GossipEntry.aged (e : GossipEntry) : GossipEntry :=
  { e with ageTicks := min (e.ageTicks + 1) (2 ^ 32 - 1) }

/-- The condition of `retain`. -/
def GossipEntry.retained (e : GossipEntry) : Bool :=
  decide (e.ageTicks < e.gossipType.maxAge) && decide (2 < |e.value|)

namespace VillagerGossip

variable (g : VillagerGossip)

def tick : VillagerGossip := ⟨(g.entries.map GossipEntry.aged).filter GossipEntry.retained⟩

def reputationFor (target : Uuid) : Int :=
  wrap (((g.entries.filter fun e => e.target = target).map GossipEntry.value).sum)

/-- The gossip of `other` afterwards. -/
def spreadTo (other : VillagerGossip) : VillagerGossip :=
  g.entries.foldl
    (fun other e =>
      if e.gossipType = .trade ∨ e.gossipType = .minorPositive then other.add e.target .trade
      else other)
    other

end VillagerGossip

/-- The gossip of each villager. -/
abbrev GossipManager := Int → VillagerGossip

def new : GossipManager := fun _ => ⟨[]⟩

def recordTrade (s : GossipManager) (villager : Int) (player : Uuid) : GossipManager :=
  Function.update s villager (((s villager).add player .trade).add player .minorPositive)

def recordVillagerHurt (s : GossipManager) (villager : Int) (player : Uuid) : GossipManager :=
  Function.update s villager ((s villager).add player .minorNegative)

inductive Action where
  | recordTrade (villager : Int) (player : Uuid)
  | recordVillagerHurt (villager : Int) (player : Uuid)
  | spreadTo (villager other : Int)
  | tick

def step (s : GossipManager) : Action → GossipManager
  | .recordTrade villager player => recordTrade s villager player
  | .recordVillagerHurt villager player => recordVillagerHurt s villager player
  | .spreadTo villager other => Function.update s other ((s villager).spreadTo (s other))
  | .tick => fun villager => (s villager).tick

/-! ## What the reputation should do -/

/-- The entry of a player who has hurt the villager as often as counts. -/
def AtLowerBound (g : VillagerGossip) (player : Uuid) : Prop :=
  ∃ e ∈ g.entries, e.key = (player, .minorNegative) ∧ e.value = -GossipType.minorNegative.maxValue

/-- What is asked of a step. -/
structure Reflects (s : GossipManager) (a : Action) : Prop where
  hurt : ∀ villager player, a = .recordVillagerHurt villager player →
    AtLowerBound (s villager) player ∨
      (step s a villager).reputationFor player < (s villager).reputationFor player
  trade : ∀ villager player, a = .recordTrade villager player →
    (s villager).reputationFor player ≤ (step s a villager).reputationFor player
  bounded : ∀ villager, ∀ e ∈ (step s a villager).entries, |e.value| ≤ e.gossipType.maxValue
  kept : ∀ villager, ∀ e ∈ (s villager).entries,
    e.key ∉ (step s a villager).entries.map GossipEntry.key →
      a = .tick ∧ e.gossipType.maxAge ≤ e.ageTicks + 1

/-- Nobody is hurt, and a tick finds no value up to 2 before its age limit. -/
def Quiet (s : GossipManager) : Action → Prop
  | .recordVillagerHurt _ _ => False
  | .tick => ∀ villager, ∀ e ∈ (s villager).entries, |e.value| ≤ 2 →
      e.gossipType.maxAge ≤ e.ageTicks + 1
  | _ => True

/-! ## Adding -/

/-- An entry for good, within its bounds. -/
structure GossipEntry.Fine (e : GossipEntry) : Prop where
  kind : e.gossipType = .trade ∨ e.gossipType = .minorPositive
  low : 0 ≤ e.value
  high : e.value ≤ e.gossipType.maxValue

/-- Only good gossip, one entry for each target and type. -/
structure VillagerGossip.Fine (g : VillagerGossip) : Prop where
  entries : ∀ e ∈ g.entries, e.Fine
  once : (g.entries.map GossipEntry.key).Nodup

def total (player : Uuid) (es : List GossipEntry) : Int :=
  ((es.filter fun e => e.target = player).map GossipEntry.value).sum

open VillagerGossip (addTo)

theorem maxValue_pos (t : GossipType) : 0 < t.maxValue ∧ t.maxValue ≤ 200 := by
  cases t <;> decide

/-- **The keys after an addition.** -/
theorem keys_addTo (target : Uuid) (t : GossipType) (es : List GossipEntry) :
    (addTo target t es).map GossipEntry.key =
      if (target, t) ∈ es.map GossipEntry.key then es.map GossipEntry.key
      else es.map GossipEntry.key ++ [(target, t)] := by
  induction es with
  | nil => rfl
  | cons e es ih =>
      unfold addTo
      by_cases h : e.key = (target, t)
      · rw [if_pos h, List.map_cons, List.map_cons, if_pos (h ▸ List.mem_cons_self)]
        rfl
      · rw [if_neg h, List.map_cons, List.map_cons, ih]
        by_cases hmem : (target, t) ∈ es.map GossipEntry.key
        · rw [if_pos hmem, if_pos (List.mem_cons_of_mem _ hmem)]
        · rw [if_neg hmem, if_neg, List.cons_append]
          rintro (_ | ⟨_, h'⟩)
          · exact h rfl
          · exact hmem h'

theorem keys_subset_addTo (target : Uuid) (t : GossipType) (es : List GossipEntry) :
    es.map GossipEntry.key ⊆ (addTo target t es).map GossipEntry.key := by
  rw [keys_addTo]
  split
  · exact List.Subset.refl _
  · exact List.subset_append_left _ _

theorem nodup_addTo {es : List GossipEntry} (h : (es.map GossipEntry.key).Nodup) (target : Uuid)
    (t : GossipType) : ((addTo target t es).map GossipEntry.key).Nodup := by
  rw [keys_addTo]
  by_cases hmem : (target, t) ∈ es.map GossipEntry.key
  · rw [if_pos hmem]
    exact h
  · rw [if_neg hmem]
    exact h.append (List.nodup_singleton _) (by simpa using hmem)

theorem wrap_of_small {n : Int} (h : -1000 ≤ n) (h' : n ≤ 1000) : wrap n = n := by
  unfold wrap
  apply Int.bmod_eq_of_le <;> omega

/-- A good addition: the new value is at least the old one and within the bounds. -/
theorem fine_addTo {es : List GossipEntry} (hes : ∀ e ∈ es, e.Fine) (target : Uuid) {t : GossipType}
    (ht : t = .trade ∨ t = .minorPositive) : ∀ e ∈ addTo target t es, e.Fine := by
  have hbase : t.baseValue = 1 := by rcases ht with rfl | rfl <;> rfl
  have hmax := maxValue_pos t
  induction es with
  | nil =>
      intro e he
      rw [addTo, List.mem_singleton] at he
      subst he
      rw [hbase]
      exact ⟨ht, by dsimp only; omega, by dsimp only; omega⟩
  | cons e es ih =>
      have hfine := hes e List.mem_cons_self
      unfold addTo
      by_cases h : e.key = (target, t)
      · have htype : e.gossipType = t := congrArg Prod.snd h
        have hlow := hfine.low
        have hhigh := hfine.high
        rw [htype] at hhigh
        rw [if_pos h, List.forall_mem_cons]
        refine ⟨⟨hfine.kind, ?_, ?_⟩, fun e' he' => hes e' (List.mem_cons_of_mem _ he')⟩
        · dsimp only
          rw [hbase, wrap_of_small (by omega) (by omega)]
          omega
        · dsimp only
          rw [htype]
          omega
      · rw [if_neg h, List.forall_mem_cons]
        exact ⟨hfine, ih fun e' he' => hes e' (List.mem_cons_of_mem _ he')⟩

theorem total_cons (player : Uuid) (e : GossipEntry) (es : List GossipEntry) :
    total player (e :: es) = (if e.target = player then e.value else 0) + total player es := by
  unfold total
  by_cases h : e.target = player
  · simp [h]
  · simp [h]

/-- A good addition lowers nothing. -/
theorem total_le_addTo {es : List GossipEntry} (hes : ∀ e ∈ es, e.Fine) (target player : Uuid)
    {t : GossipType} (ht : t = .trade ∨ t = .minorPositive) :
    total player es ≤ total player (addTo target t es) := by
  have hbase : t.baseValue = 1 := by rcases ht with rfl | rfl <;> rfl
  have hmax := maxValue_pos t
  induction es with
  | nil =>
      rw [addTo, total_cons, hbase]
      simp only [total, List.filter_nil, List.map_nil, List.sum_nil]
      split <;> omega
  | cons e es ih =>
      have hfine := hes e List.mem_cons_self
      have hrest := ih fun e' he' => hes e' (List.mem_cons_of_mem _ he')
      unfold addTo
      by_cases h : e.key = (target, t)
      · have htype : e.gossipType = t := congrArg Prod.snd h
        have hlow := hfine.low
        have hhigh := hfine.high
        rw [htype] at hhigh
        rw [if_pos h, total_cons, total_cons, hbase, wrap_of_small (by omega) (by omega)]
        dsimp only
        split <;> omega
      · rw [if_neg h, total_cons, total_cons]
        omega

/-- The first hurt of a player weighs nothing. -/
theorem total_addTo_hurt {es : List GossipEntry} {target : Uuid} (player : Uuid)
    (h : (target, GossipType.minorNegative) ∉ es.map GossipEntry.key) :
    total player (addTo target .minorNegative es) = total player es := by
  induction es with
  | nil =>
      rw [addTo, total_cons]
      split <;> rfl
  | cons e es ih =>
      rw [List.map_cons, List.mem_cons, not_or] at h
      unfold addTo
      rw [if_neg (Ne.symm h.1), total_cons, total_cons, ih h.2]

/-- The reputation from good gossip fits: at most two entries count. -/
theorem total_bounds {g : VillagerGossip} (hg : g.Fine) (player : Uuid) :
    0 ≤ total player g.entries ∧ total player g.entries ≤ 400 := by
  have hmem (e : GossipEntry) (he : e ∈ g.entries.filter fun e => e.target = player) :
      e.Fine ∧ e.target = player := by
    rw [List.mem_filter, decide_eq_true_eq] at he
    exact ⟨hg.entries e he.1, he.2⟩
  have hlen : (g.entries.filter fun e => e.target = player).length ≤ 2 := by
    have hnodup : ((g.entries.filter fun e => e.target = player).map GossipEntry.key).Nodup :=
      (List.filter_sublist.map _).nodup hg.once
    have hsub : (g.entries.filter fun e => e.target = player).map GossipEntry.key ⊆
        [(player, .trade), (player, .minorPositive)] := by
      intro k hk
      obtain ⟨e, he, rfl⟩ := List.mem_map.1 hk
      obtain ⟨hfine, rfl⟩ := hmem e he
      unfold GossipEntry.key
      rcases hfine.kind with h | h <;> simp [h]
    have hle := (hnodup.subperm hsub).length_le
    rwa [List.length_map] at hle
  unfold total
  constructor
  · apply List.sum_nonneg
    intro v hv
    obtain ⟨e, he, rfl⟩ := List.mem_map.1 hv
    exact (hmem e he).1.low
  · have hle := List.sum_le_card_nsmul
      ((g.entries.filter fun e => e.target = player).map GossipEntry.value) 200 (by
        intro v hv
        obtain ⟨e, he, rfl⟩ := List.mem_map.1 hv
        exact (hmem e he).1.high.trans (maxValue_pos _).2)
    rw [List.length_map, nsmul_eq_mul] at hle
    omega

theorem reputationFor_of_fine {g : VillagerGossip} (hg : g.Fine) (player : Uuid) :
    g.reputationFor player = total player g.entries := by
  have h := total_bounds hg player
  change wrap (total player g.entries) = _
  rw [wrap_of_small (by omega) (by omega)]

theorem VillagerGossip.Fine.add {g : VillagerGossip} (hg : g.Fine) (target : Uuid) {t : GossipType}
    (ht : t = .trade ∨ t = .minorPositive) : (g.add target t).Fine :=
  ⟨fine_addTo hg.entries target ht, nodup_addTo hg.once target t⟩

/-! ## Spreading and ageing -/

theorem spreadTo_spec {es : List GossipEntry} {g : VillagerGossip} (hg : g.Fine) :
    (VillagerGossip.spreadTo ⟨es⟩ g).Fine ∧
      g.entries.map GossipEntry.key ⊆
        (VillagerGossip.spreadTo ⟨es⟩ g).entries.map GossipEntry.key := by
  unfold VillagerGossip.spreadTo
  dsimp only
  induction es generalizing g with
  | nil => exact ⟨hg, List.Subset.refl _⟩
  | cons e es ih =>
      rw [List.foldl_cons]
      by_cases h : e.gossipType = .trade ∨ e.gossipType = .minorPositive
      · rw [if_pos h]
        have hnext := ih (hg.add e.target (.inl rfl))
        exact ⟨hnext.1, List.Subset.trans (keys_subset_addTo e.target .trade g.entries) hnext.2⟩
      · rw [if_neg h]
        exact ih hg

theorem VillagerGossip.Fine.tick {g : VillagerGossip} (hg : g.Fine) : g.tick.Fine := by
  constructor
  · intro e he
    obtain ⟨e', he', rfl⟩ := List.mem_map.1 (List.mem_of_mem_filter he)
    obtain ⟨hkind, hlow, hhigh⟩ := hg.entries e' he'
    exact ⟨hkind, hlow, hhigh⟩
  · have hkeys : ((g.entries.map GossipEntry.aged).map GossipEntry.key).Nodup := by
      rw [List.map_map]
      exact hg.once
    exact (List.filter_sublist.map _).nodup hkeys

/-- **A key is gone after a tick exactly if its entry was not retained.** -/
theorem key_mem_tick {g : VillagerGossip} (hg : g.Fine) {e : GossipEntry} (he : e ∈ g.entries) :
    e.key ∈ g.tick.entries.map GossipEntry.key ↔ e.aged.retained = true := by
  constructor
  · intro hkey
    obtain ⟨e', he', hsame⟩ := List.mem_map.1 hkey
    obtain ⟨hmem, hretained⟩ := List.mem_filter.1 he'
    obtain ⟨e'', he'', rfl⟩ := List.mem_map.1 hmem
    obtain rfl : e'' = e := List.inj_on_of_nodup_map hg.once he'' he hsame
    exact hretained
  · intro hretained
    exact List.mem_map.2 ⟨e.aged, List.mem_filter.2 ⟨List.mem_map_of_mem he, hretained⟩, rfl⟩

theorem retained_iff (e : GossipEntry) : e.aged.retained = true ↔
    min (e.ageTicks + 1) (2 ^ 32 - 1) < e.gossipType.maxAge ∧ 2 < |e.value| := by
  unfold GossipEntry.retained GossipEntry.aged
  rw [Bool.and_eq_true, decide_eq_true_eq, decide_eq_true_eq]

/-! ## Runs -/

def Fine (s : GossipManager) : Prop := ∀ villager, (s villager).Fine

theorem fine_update {s : GossipManager} (hs : Fine s) {villager : Int} {g : VillagerGossip}
    (hg : g.Fine) : Fine (Function.update s villager g) := by
  intro v
  by_cases h : v = villager
  · rw [h, Function.update_self]
    exact hg
  · rw [Function.update_of_ne h]
    exact hs v

/-- What does not hurt anybody leaves good gossip. -/
theorem fine_step {s : GossipManager} (hs : Fine s) {a : Action} (ha : Quiet s a) :
    Fine (step s a) := by
  cases a with
  | recordTrade villager player =>
      exact fine_update hs (((hs villager).add player (.inl rfl)).add player (.inr rfl))
  | recordVillagerHurt villager player => exact ha.elim
  | spreadTo villager other => exact fine_update hs (spreadTo_spec (hs other)).1
  | tick => exact fun villager => (hs villager).tick

/-- The keys of one villager grow, those of the others stay. -/
theorem keys_update {s : GossipManager} {villager : Int} {g : VillagerGossip}
    (h : (s villager).entries.map GossipEntry.key ⊆ g.entries.map GossipEntry.key) (v : Int) :
    (s v).entries.map GossipEntry.key ⊆
      (Function.update s villager g v).entries.map GossipEntry.key := by
  by_cases hv : v = villager
  · subst hv
    rw [Function.update_self]
    exact h
  · rw [Function.update_of_ne hv]
    exact List.Subset.refl _

/-- Only a tick drops entries. -/
theorem keys_step {s : GossipManager} (hs : Fine s) {a : Action} (ha : a ≠ .tick) (v : Int) :
    (s v).entries.map GossipEntry.key ⊆ (step s a v).entries.map GossipEntry.key := by
  cases a with
  | recordTrade villager player =>
      exact keys_update (List.Subset.trans (keys_subset_addTo player .trade _)
        (keys_subset_addTo player .minorPositive _)) v
  | recordVillagerHurt villager player => exact keys_update (keys_subset_addTo player _ _) v
  | spreadTo villager other => exact keys_update (spreadTo_spec (hs other)).2 v
  | tick => exact absurd rfl ha

/-- A hurt has no effect on good gossip. -/
theorem reputation_hurt {s : GossipManager} (hs : Fine s) (villager : Int) (player : Uuid) :
    (step s (.recordVillagerHurt villager player) villager).reputationFor player =
      (s villager).reputationFor player := by
  have hnone : (player, GossipType.minorNegative) ∉
      (s villager).entries.map GossipEntry.key := by
    intro h
    obtain ⟨e, he, hkey⟩ := List.mem_map.1 h
    have hkind : e.gossipType = .minorNegative := congrArg Prod.snd hkey
    rcases ((hs villager).entries e he).kind with h | h <;> rw [hkind] at h <;> cases h
  change (Function.update s villager _ villager).reputationFor player = _
  rw [Function.update_self]
  exact congrArg wrap (total_addTo_hurt player hnone)

/-- A step from good gossip reflects the events exactly if it is quiet. -/
theorem reflects_iff {s : GossipManager} (hs : Fine s) (a : Action) : Reflects s a ↔ Quiet s a := by
  constructor
  · intro h
    cases a with
    | recordVillagerHurt villager player =>
        rcases h.hurt villager player rfl with ⟨e, he, hkey, -⟩ | hlower
        · have hkind : e.gossipType = .minorNegative := congrArg Prod.snd hkey
          rcases ((hs villager).entries e he).kind with h | h <;> rw [hkind] at h <;> cases h
        · rw [reputation_hurt hs] at hlower
          exact lt_irrefl _ hlower
    | tick =>
        intro villager e he hsmall
        have hgone : e.key ∉ (s villager).tick.entries.map GossipEntry.key := by
          rw [key_mem_tick (hs villager) he, retained_iff]
          omega
        exact (h.kept villager e he hgone).2
    | recordTrade villager player => trivial
    | spreadTo villager other => trivial
  · intro ha
    have hnext := fine_step hs ha
    refine ⟨?_, ?_, fun villager e he => ?_, fun villager e he hgone => ?_⟩
    · rintro villager player rfl
      exact ha.elim
    · rintro villager player rfl
      have hfirst := (hs villager).add player (t := .trade) (.inl rfl)
      rw [reputationFor_of_fine (hs villager), reputationFor_of_fine (hnext villager)]
      change _ ≤ total player (Function.update s villager _ villager).entries
      rw [Function.update_self]
      calc total player (s villager).entries
          ≤ total player ((s villager).add player .trade).entries :=
            total_le_addTo (hs villager).entries player player (.inl rfl)
        _ ≤ _ := total_le_addTo hfirst.entries player player (.inr rfl)
    · obtain ⟨-, hlow, hhigh⟩ := (hnext villager).entries e he
      rwa [abs_of_nonneg hlow]
    · by_cases htick : a = .tick
      · subst htick
        refine ⟨rfl, ?_⟩
        change e.key ∉ (s villager).tick.entries.map GossipEntry.key at hgone
        rw [key_mem_tick (hs villager) he, retained_iff, not_and] at hgone
        by_cases hsmall : |e.value| ≤ 2
        · exact ha villager e he hsmall
        · by_contra hyoung
          exact hgone (by omega) (by omega)
      · exact absurd (keys_step hs htick villager (List.mem_map_of_mem he)) hgone

/-- **The reputation reflects the events exactly along the quiet runs.** -/
theorem along_reflects_iff (as : List Action) :
    Along step Reflects new as ↔ Along step Quiet new as :=
  along_iff Fine (fun _ a hs => reflects_iff hs a) (fun _ _ hs ha => fine_step hs ha)
    (fun _ => ⟨fun _ h => (List.not_mem_nil h).elim, List.nodup_nil⟩) as

/-- The first hurt. -/
theorem not_forall_along_reflects : ¬ ∀ as : List Action, Along step Reflects new as := by
  intro h
  rcases (h [.recordVillagerHurt 7 0]).1.hurt 7 0 rfl with ⟨e, he, -⟩ | hlower
  · exact List.not_mem_nil he
  · revert hlower
    decide

end Apoptotic.Gossip
