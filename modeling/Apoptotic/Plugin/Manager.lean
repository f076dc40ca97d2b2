import Apoptotic.Lib.Reached
import Mathlib.Data.List.AList
import Mathlib.Data.List.Induction

/-!
# The plugin manager

`PluginManager` of `mc-plugin/src/plugin.rs`.  A plugin is the number of its registration, and the
calls it receives are written to a log, in any order within one call of the manager: each plugin
gets at most one.

Principal result: `plugins_lawful_iff` — every plugin goes through its lifecycle exactly along the runs in
which each call of the manager finds the plugins it concerns in a phase that allows it.
-/

namespace Apoptotic.Plugins

/-- The callbacks of a `NativePlugin`. -/
inductive Callback where
  | onEnable
  | onTick (tick : BitVec 64)
  | onPlayerJoin (uuid : BitVec 128) (username : String)
  | onPlayerLeave (uuid : BitVec 128)
  | onDisable
  deriving DecidableEq

/-- A callback between `on_enable` and `on_disable`. -/
def Callback.IsWork : Callback → Prop
  | .onTick _ | .onPlayerJoin _ _ | .onPlayerLeave _ => True
  | _ => False

structure PluginManager where
  plugins : AList fun _ : String => Nat
  enabled : AList fun _ : String => Bool

/-- Callbacks, each with the plugin that receives it. -/
abbrev Log := List (Nat × Callback)

namespace PluginManager

def new : PluginManager := ⟨∅, ∅⟩

variable (m : PluginManager)

def register (name : String) (plugin : Nat) : PluginManager where
  plugins := m.plugins.insert name plugin
  enabled := m.enabled.insert name true

/-- A loop over the plugins that calls those whose name meets a condition. -/
def callAll (cond : String → Bool) (callback : Callback) : Log :=
  m.plugins.entries.filterMap fun e => if cond e.1 then some (e.2, callback) else none

def enableAll : Log := m.callAll (fun name => (m.enabled.lookup name).getD true) .onEnable

def tickAll (tick : BitVec 64) : Log :=
  m.callAll (fun name => (m.enabled.lookup name).getD false) (.onTick tick)

def notifyPlayerJoin (uuid : BitVec 128) (username : String) : Log :=
  m.callAll (fun _ => true) (.onPlayerJoin uuid username)

def notifyPlayerLeave (uuid : BitVec 128) : Log := m.callAll (fun _ => true) (.onPlayerLeave uuid)

def disable (name : String) : PluginManager × Log :=
  match m.plugins.lookup name with
  | some plugin => ({ m with enabled := m.enabled.insert name false }, [(plugin, .onDisable)])
  | none => (m, [])

end PluginManager

/-! ## Runs -/

/-- The calls of the manager. -/
inductive Action where
  | register (name : String)
  | enableAll
  | tickAll (tick : BitVec 64)
  | notifyPlayerJoin (uuid : BitVec 128) (username : String)
  | notifyPlayerLeave (uuid : BitVec 128)
  | disable (name : String)

/-- The manager, the number of plugins so far and what these received. -/
structure Host where
  manager : PluginManager
  registered : Nat
  log : Log

namespace Host

def new : Host := ⟨.new, 0, []⟩

variable (h : Host)

/-- The callbacks are received. -/
def receive (log : Log) : Host := { h with log := h.log ++ log }

def step : Action → Host
  | .register name =>
      { h with manager := h.manager.register name h.registered, registered := h.registered + 1 }
  | .enableAll => h.receive h.manager.enableAll
  | .tickAll tick => h.receive (h.manager.tickAll tick)
  | .notifyPlayerJoin uuid username => h.receive (h.manager.notifyPlayerJoin uuid username)
  | .notifyPlayerLeave uuid => h.receive (h.manager.notifyPlayerLeave uuid)
  | .disable name =>
      let (manager, log) := h.manager.disable name
      { h with manager := manager }.receive log

end Host

def run (actions : List Action) : Host := actions.foldl Host.step Host.new

/-! ## The lifecycle -/

/-- What a plugin received. -/
def callsOf (log : Log) (plugin : Nat) : List Callback :=
  (log.filter fun e => e.1 = plugin).map Prod.snd

/-- `on_enable`, work, and at most one `on_disable`; or nothing at all. -/
def Lifecycle (calls : List Callback) : Prop :=
  calls = [] ∨ ∃ work, (∀ c ∈ work, c.IsWork) ∧
    (calls = .onEnable :: work ∨ calls = .onEnable :: (work ++ [.onDisable]))

/-- The plugin was replaced by another of the same name. -/
def Host.Replaced (h : Host) (plugin : Nat) : Prop :=
  plugin < h.registered ∧ ∀ name, h.manager.plugins.lookup name ≠ some plugin

/-- **Every plugin goes through its lifecycle, to the end when it is replaced.** -/
structure Host.Lawful (h : Host) : Prop where
  lifecycle : ∀ plugin, Lifecycle (callsOf h.log plugin)
  replaced : ∀ plugin, h.Replaced plugin → .onEnable ∈ callsOf h.log plugin →
    .onDisable ∈ callsOf h.log plugin

/-! ## Phases -/

inductive Phase where
  | new
  | enabled
  | disabled
  deriving DecidableEq

/-- The phase after a callback that is in order. -/
def Phase.next : Phase → Callback → Option Phase
  | .new, .onEnable => some .enabled
  | .enabled, .onTick _ | .enabled, .onPlayerJoin _ _ | .enabled, .onPlayerLeave _ => some .enabled
  | .enabled, .onDisable => some .disabled
  | _, _ => none

/-- The phase of the plugin of each name, if there is one. -/
abbrev Phases := String → Option Phase

namespace Phases

variable (p : Phases)

/-- The phases that the documented lifecycle goes through. -/
def step : Action → Phases
  | .register name => Function.update p name (some .new)
  | .enableAll => fun name => (p name).map fun phase => if phase = .new then .enabled else phase
  | .disable name => Function.update p name ((p name).map fun _ => .disabled)
  | _ => p

/-- What a call of the manager asks of the phases: no enabled plugin is replaced or enabled again, no
new one is ticked, and all that hear of players or are disabled are enabled. -/
def Allows : Action → Prop
  | .register name => p name ≠ some .enabled
  | .enableAll => ∀ name, p name ≠ some .enabled
  | .tickAll _ => ∀ name, p name ≠ some .new
  | .notifyPlayerJoin _ _ | .notifyPlayerLeave _ => ∀ name phase, p name = some phase → phase = .enabled
  | .disable name => ∀ phase, p name = some phase → phase = .enabled

end Phases

/-! ## Lifecycles by phases -/

/-- The phase after some callbacks, if they are in order. -/
def phaseOf (calls : List Callback) : Option Phase := calls.foldlM Phase.next .new

theorem phaseOf_append (calls calls' : List Callback) :
    phaseOf (calls ++ calls') = (phaseOf calls).bind fun phase => calls'.foldlM Phase.next phase :=
  List.foldlM_append

theorem phaseOf_concat (calls : List Callback) (c : Callback) :
    phaseOf (calls ++ [c]) = (phaseOf calls).bind (Phase.next · c) := by
  rw [phaseOf_append]
  simp

/-- What was received in a phase. -/
def Phase.Received : Phase → List Callback → Prop
  | .new, calls => calls = []
  | .enabled, calls => ∃ work, (∀ c ∈ work, c.IsWork) ∧ calls = .onEnable :: work
  | .disabled, calls => ∃ work, (∀ c ∈ work, c.IsWork) ∧ calls = .onEnable :: (work ++ [.onDisable])

theorem next_eq_some {phase phase' : Phase} {c : Callback} (h : phase.next c = some phase') :
    (phase = .new ∧ c = .onEnable ∧ phase' = .enabled) ∨
      (phase = .enabled ∧ c.IsWork ∧ phase' = .enabled) ∨
        phase = .enabled ∧ c = .onDisable ∧ phase' = .disabled := by
  cases phase with
  | new =>
      cases c with
      | onEnable => exact .inl ⟨rfl, rfl, (Option.some.inj h).symm⟩
      | _ => cases h
  | enabled =>
      cases c with
      | onEnable => cases h
      | onDisable => exact .inr (.inr ⟨rfl, rfl, (Option.some.inj h).symm⟩)
      | _ => exact .inr (.inl ⟨rfl, trivial, (Option.some.inj h).symm⟩)
  | disabled => cases c <;> cases h

theorem next_onEnable : Phase.next .new .onEnable = some .enabled := rfl

theorem next_of_isWork {c : Callback} (h : c.IsWork) : Phase.next .enabled c = some .enabled := by
  cases c with
  | onEnable => cases h
  | onDisable => cases h
  | _ => rfl

theorem foldlM_work {work : List Callback} (h : ∀ c ∈ work, c.IsWork) :
    work.foldlM Phase.next Phase.enabled = some .enabled := by
  induction work with
  | nil => rfl
  | cons c work ih =>
      obtain ⟨hc, hwork⟩ := List.forall_mem_cons.1 h
      rw [List.foldlM_cons, next_of_isWork hc]
      exact ih hwork

/-- The callbacks are in order exactly when they are those of a phase. -/
theorem phaseOf_eq_some_iff {calls : List Callback} {phase : Phase} :
    phaseOf calls = some phase ↔ phase.Received calls := by
  constructor
  · intro h
    induction calls using List.reverseRecOn generalizing phase with
    | nil =>
        cases h
        rfl
    | append_singleton calls c ih =>
        rw [phaseOf_concat, Option.bind_eq_some_iff] at h
        obtain ⟨before, hbefore, hc⟩ := h
        have hcalls := ih hbefore
        rcases next_eq_some hc with ⟨rfl, rfl, rfl⟩ | ⟨rfl, hwork, rfl⟩ | ⟨rfl, rfl, rfl⟩
        · obtain rfl : calls = [] := hcalls
          exact ⟨[], List.forall_mem_nil _, rfl⟩
        · obtain ⟨work, hall, rfl⟩ := hcalls
          refine ⟨work ++ [c], ?_, by simp⟩
          simpa [or_imp, forall_and] using ⟨hall, hwork⟩
        · obtain ⟨work, hall, rfl⟩ := hcalls
          exact ⟨work, hall, by simp⟩
  · intro h
    cases phase with
    | new =>
        obtain rfl : calls = [] := h
        rfl
    | enabled =>
        obtain ⟨work, hall, rfl⟩ := h
        exact foldlM_work hall
    | disabled =>
        obtain ⟨work, hall, rfl⟩ := h
        rw [← List.cons_append, phaseOf_concat]
        have hwork : phaseOf (.onEnable :: work) = some .enabled := foldlM_work hall
        rw [hwork]
        rfl

theorem lifecycle_iff (calls : List Callback) : Lifecycle calls ↔ ∃ phase, phaseOf calls = some phase := by
  simp only [phaseOf_eq_some_iff]
  constructor
  · rintro (h | ⟨work, hall, h | h⟩)
    · exact ⟨.new, h⟩
    · exact ⟨.enabled, work, hall, h⟩
    · exact ⟨.disabled, work, hall, h⟩
  · rintro ⟨phase, h⟩
    cases phase with
    | new => exact .inl h
    | enabled =>
        obtain ⟨work, hall, h⟩ := h
        exact .inr ⟨work, hall, .inl h⟩
    | disabled =>
        obtain ⟨work, hall, h⟩ := h
        exact .inr ⟨work, hall, .inr h⟩

/-- What is in order is so from the beginning on. -/
theorem lifecycle_of_append {calls calls' : List Callback} (h : Lifecycle (calls ++ calls')) :
    Lifecycle calls := by
  rw [lifecycle_iff] at h ⊢
  obtain ⟨phase, h⟩ := h
  rw [phaseOf_append, Option.bind_eq_some_iff] at h
  obtain ⟨before, hbefore, -⟩ := h
  exact ⟨before, hbefore⟩

/-- A plugin that was enabled was also disabled, unless it still is. -/
theorem disabled_of_enabled_iff {calls : List Callback} {phase : Phase} (h : phaseOf calls = some phase) :
    (.onEnable ∈ calls → .onDisable ∈ calls) ↔ phase ≠ .enabled := by
  have hcalls := phaseOf_eq_some_iff.1 h
  cases phase with
  | new =>
      obtain rfl : calls = [] := hcalls
      simp
  | enabled =>
      obtain ⟨work, hall, rfl⟩ := hcalls
      refine iff_of_false (fun himp => ?_) (fun hne => hne rfl)
      rcases List.mem_cons.1 (himp List.mem_cons_self) with heq | hmem
      · cases heq
      · exact hall _ hmem
  | disabled =>
      obtain ⟨work, hall, rfl⟩ := hcalls
      refine iff_of_true (fun _ => ?_) (fun heq => by cases heq)
      simp

/-! ## Who receives what -/

theorem callsOf_append (log log' : Log) (plugin : Nat) :
    callsOf (log ++ log') plugin = callsOf log plugin ++ callsOf log' plugin := by
  simp [callsOf]

theorem callsOf_eq_nil {log : Log} {plugin : Nat} (h : ∀ e ∈ log, e.1 ≠ plugin) :
    callsOf log plugin = [] := by
  unfold callsOf
  rw [List.map_eq_nil_iff, List.filter_eq_nil_iff]
  intro e he
  simpa using h e he

/-- The entries of a table whose plugins are all different. -/
theorem callsOf_filterMap {entries : List ((_ : String) × Nat)} (h : (entries.map Sigma.snd).Nodup)
    {name : String} {plugin : Nat} (hmem : ⟨name, plugin⟩ ∈ entries) (cond : String → Bool)
    (c : Callback) :
    callsOf (entries.filterMap fun e => if cond e.1 then some (e.2, c) else none) plugin =
      if cond name then [c] else [] := by
  induction entries with
  | nil => cases hmem
  | cons e entries ih =>
      rw [List.map_cons, List.nodup_cons] at h
      rw [List.filterMap_cons]
      rcases List.mem_cons.1 hmem with rfl | hmem
      · have hrest : callsOf (entries.filterMap fun e => if cond e.1 then some (e.2, c) else none) plugin = [] := by
          refine callsOf_eq_nil fun r hr => ?_
          obtain ⟨e, he, hr⟩ := List.mem_filterMap.1 hr
          split at hr
          · cases hr
            exact fun heq => h.1 (List.mem_map.2 ⟨e, he, heq⟩)
          · cases hr
        cases hcond : cond name with
        | false => simpa [hcond] using hrest
        | true =>
            simp only [callsOf] at hrest
            simp [callsOf, hrest]
      · have hne : e.2 ≠ plugin := by
          rintro rfl
          exact h.1 (List.mem_map.2 ⟨_, hmem, rfl⟩)
        rw [← ih h.2 hmem]
        split
        · rfl
        · rename_i r hr
          split at hr
          · cases hr
            simp [callsOf, hne]
          · cases hr

namespace PluginManager

variable {m : PluginManager} {name : String} {plugin : Nat} (cond : String → Bool) (c : Callback)

theorem callsOf_callAll (hdistinct : (m.plugins.entries.map Sigma.snd).Nodup)
    (h : m.plugins.lookup name = some plugin) :
    callsOf (m.callAll cond c) plugin = if cond name then [c] else [] :=
  callsOf_filterMap hdistinct (AList.mem_lookup_iff.1 h) cond c

theorem callsOf_callAll_of_absent (h : ∀ name, m.plugins.lookup name ≠ some plugin) :
    callsOf (m.callAll cond c) plugin = [] := by
  refine callsOf_eq_nil fun r hr heq => ?_
  obtain ⟨⟨name, i⟩, he, hr⟩ := List.mem_filterMap.1 hr
  split at hr
  · cases hr
    cases heq
    exact h name (AList.mem_lookup_iff.2 he)
  · cases hr

end PluginManager

/-! ## Every run -/

/-- Names have different plugins, and these are the ones registered so far. -/
structure Host.Sane (h : Host) : Prop where
  distinct : (h.manager.plugins.entries.map Sigma.snd).Nodup
  bound : ∀ name plugin, h.manager.plugins.lookup name = some plugin → plugin < h.registered
  fresh : ∀ plugin, h.registered ≤ plugin → callsOf h.log plugin = []

namespace Host

variable {h : Host}

theorem sane_new : new.Sane where
  distinct := List.nodup_nil
  bound := by
    intro name plugin hlookup
    cases hlookup
  fresh := fun _ _ => rfl

theorem Sane.name_unique (hs : h.Sane) {name name' : String} {plugin : Nat}
    (hname : h.manager.plugins.lookup name = some plugin)
    (hname' : h.manager.plugins.lookup name' = some plugin) : name = name' := by
  have hinj := List.inj_on_of_nodup_map hs.distinct (AList.mem_lookup_iff.1 hname)
    (AList.mem_lookup_iff.1 hname') rfl
  exact congrArg Sigma.fst hinj

theorem Sane.absent (hs : h.Sane) {plugin : Nat} (hle : h.registered ≤ plugin) (name : String) :
    h.manager.plugins.lookup name ≠ some plugin := by
  intro hlookup
  have hlt := hs.bound name plugin hlookup
  omega

theorem Sane.receive (hs : h.Sane) {log : Log}
    (hlog : ∀ plugin, (∀ name, h.manager.plugins.lookup name ≠ some plugin) → callsOf log plugin = []) :
    (h.receive log).Sane where
  distinct := hs.distinct
  bound := hs.bound
  fresh := by
    intro plugin hle
    change callsOf (h.log ++ log) plugin = []
    rw [callsOf_append, hs.fresh plugin hle, hlog plugin (hs.absent hle), List.nil_append]

theorem disable_cases (m : PluginManager) (name : String) :
    (∃ plugin, m.plugins.lookup name = some plugin ∧
      m.disable name = ({ m with enabled := m.enabled.insert name false }, [(plugin, .onDisable)])) ∨
    (m.plugins.lookup name = none ∧ m.disable name = (m, [])) := by
  unfold PluginManager.disable
  cases hlookup : m.plugins.lookup name with
  | none => exact .inr ⟨rfl, rfl⟩
  | some plugin => exact .inl ⟨plugin, rfl, rfl⟩

theorem Sane.step (hs : h.Sane) (a : Action) : (h.step a).Sane := by
  have hall : ∀ cond c, (h.receive (h.manager.callAll cond c)).Sane := fun cond c =>
    hs.receive fun plugin habsent => PluginManager.callsOf_callAll_of_absent cond c habsent
  cases a with
  | register name =>
      refine ⟨?_, ?_, ?_⟩
      · have hsub := (List.kerase_sublist name h.manager.plugins.entries).map Sigma.snd
        refine List.nodup_cons.2 ⟨fun hmem => ?_, hs.distinct.sublist hsub⟩
        obtain ⟨⟨name', plugin⟩, he, heq⟩ := List.mem_map.1 (hsub.subset hmem)
        cases heq
        exact hs.absent (Nat.le_refl _) name' (AList.mem_lookup_iff.2 he)
      · intro name' plugin hlookup
        change (h.manager.plugins.insert name h.registered).lookup name' = some plugin at hlookup
        change plugin < h.registered + 1
        by_cases hname : name' = name
        · subst hname
          rw [AList.lookup_insert] at hlookup
          cases hlookup
          omega
        · rw [AList.lookup_insert_ne hname] at hlookup
          have hlt := hs.bound name' plugin hlookup
          omega
      · intro plugin hle
        exact hs.fresh plugin (Nat.le_of_succ_le hle)
  | enableAll => exact hall _ _
  | tickAll tick => exact hall _ _
  | notifyPlayerJoin uuid username => exact hall _ _
  | notifyPlayerLeave uuid => exact hall _ _
  | disable name =>
      rcases disable_cases h.manager name with ⟨plugin, hlookup, heq⟩ | ⟨-, heq⟩
      · have hsane : ({ h with manager := { h.manager with
            enabled := h.manager.enabled.insert name false } } : Host).Sane :=
          ⟨hs.distinct, hs.bound, hs.fresh⟩
        simp only [Host.step, heq]
        refine hsane.receive fun plugin' habsent => ?_
        refine callsOf_eq_nil fun e he heq' => ?_
        cases List.mem_singleton.1 he
        exact habsent name (heq' ▸ hlookup)
      · simp only [Host.step, heq]
        exact hs.receive fun _ _ => rfl

theorem sane_foldl (actions : List Action) (hs : h.Sane) : (actions.foldl Host.step h).Sane := by
  induction actions generalizing h with
  | nil => exact hs
  | cons a actions ih => exact ih (hs.step a)

/-- A step adds to what a plugin received, and nothing when it was replaced before. -/
theorem exists_callsOf_step (h : Host) (a : Action) (plugin : Nat) :
    ∃ calls, callsOf (h.step a).log plugin = callsOf h.log plugin ++ calls ∧
      ((∀ name, h.manager.plugins.lookup name ≠ some plugin) → calls = []) := by
  have hreceive : ∀ log, ((∀ name, h.manager.plugins.lookup name ≠ some plugin) → callsOf log plugin = []) →
      ∃ calls, callsOf (h.log ++ log) plugin = callsOf h.log plugin ++ calls ∧
        ((∀ name, h.manager.plugins.lookup name ≠ some plugin) → calls = []) :=
    fun log hlog => ⟨_, callsOf_append h.log log plugin, hlog⟩
  have hall : ∀ cond c, (∀ name, h.manager.plugins.lookup name ≠ some plugin) →
      callsOf (h.manager.callAll cond c) plugin = [] := fun cond c habsent =>
    PluginManager.callsOf_callAll_of_absent cond c habsent
  cases a with
  | register name => exact ⟨[], (List.append_nil _).symm, fun _ => rfl⟩
  | enableAll => exact hreceive _ (hall _ _)
  | tickAll tick => exact hreceive _ (hall _ _)
  | notifyPlayerJoin uuid username => exact hreceive _ (hall _ _)
  | notifyPlayerLeave uuid => exact hreceive _ (hall _ _)
  | disable name =>
      rcases disable_cases h.manager name with ⟨plugin', hlookup, heq⟩ | ⟨-, heq⟩
      · simp only [Host.step, heq]
        refine hreceive _ fun habsent => callsOf_eq_nil fun e he heq' => ?_
        cases List.mem_singleton.1 he
        exact habsent name (heq' ▸ hlookup)
      · simp only [Host.step, heq]
        exact hreceive _ fun _ => rfl

theorem Replaced.step {plugin : Nat} (hr : h.Replaced plugin) (a : Action) : (h.step a).Replaced plugin := by
  obtain ⟨hlt, habsent⟩ := hr
  cases a with
  | register name =>
      refine ⟨Nat.lt_succ_of_lt hlt, fun name' hlookup => ?_⟩
      change (h.manager.plugins.insert name h.registered).lookup name' = some plugin at hlookup
      by_cases hname : name' = name
      · subst hname
        rw [AList.lookup_insert] at hlookup
        cases hlookup
        omega
      · rw [AList.lookup_insert_ne hname] at hlookup
        exact habsent name' hlookup
  | disable name =>
      rcases disable_cases h.manager name with ⟨plugin', -, heq⟩ | ⟨-, heq⟩
      · simp only [Host.step, heq]
        exact ⟨hlt, habsent⟩
      · simp only [Host.step, heq]
        exact ⟨hlt, habsent⟩
  | _ => exact ⟨hlt, habsent⟩

/-- **What is lawful after a step was lawful before it.** -/
theorem lawful_of_step {a : Action} (hl : (h.step a).Lawful) : h.Lawful where
  lifecycle := by
    intro plugin
    obtain ⟨calls, hcalls, -⟩ := exists_callsOf_step h a plugin
    exact lifecycle_of_append (hcalls ▸ hl.lifecycle plugin)
  replaced := by
    intro plugin hr
    obtain ⟨calls, hcalls, hnone⟩ := exists_callsOf_step h a plugin
    rw [hnone hr.2, List.append_nil] at hcalls
    rw [← hcalls]
    exact hl.replaced plugin (hr.step a)

end Host

/-! ## Lawful runs -/

/-- The plugins are in the phases of their names, and the flags say which are not disabled. -/
structure Matches (h : Host) (p : Phases) : Prop extends h.Sane where
  phase : ∀ name plugin, h.manager.plugins.lookup name = some plugin → ∃ phase, p name = some phase ∧
    phaseOf (callsOf h.log plugin) = some phase ∧
      h.manager.enabled.lookup name = some (decide (phase ≠ .disabled))
  absent : ∀ name, h.manager.plugins.lookup name = none → p name = none
  gone : ∀ plugin, h.Replaced plugin → ∃ phase ≠ .enabled, phaseOf (callsOf h.log plugin) = some phase

namespace Matches

variable {h : Host} {p : Phases}

theorem new : Matches .new (fun _ => none) where
  toSane := Host.sane_new
  phase := by
    intro name plugin hlookup
    cases hlookup
  absent := fun _ _ => rfl
  gone := by
    rintro plugin ⟨hlt, -⟩
    cases hlt

/-- The plugin of a name that has a phase. -/
theorem exists_plugin (hm : Matches h p) {name : String} {phase : Phase} (hp : p name = some phase) :
    ∃ plugin, h.manager.plugins.lookup name = some plugin ∧
      phaseOf (callsOf h.log plugin) = some phase ∧
        h.manager.enabled.lookup name = some (decide (phase ≠ .disabled)) := by
  cases hlookup : h.manager.plugins.lookup name with
  | none => cases hp.symm.trans (hm.absent name hlookup)
  | some plugin =>
      obtain ⟨phase', hp', hcalls, hflag⟩ := hm.phase name plugin hlookup
      cases hp.symm.trans hp'
      exact ⟨plugin, rfl, hcalls, hflag⟩

theorem lawful (hm : Matches h p) : h.Lawful where
  lifecycle := by
    intro plugin
    rw [lifecycle_iff]
    by_cases hlt : plugin < h.registered
    · by_cases habsent : ∀ name, h.manager.plugins.lookup name ≠ some plugin
      · obtain ⟨phase, -, hcalls⟩ := hm.gone plugin ⟨hlt, habsent⟩
        exact ⟨phase, hcalls⟩
      · push Not at habsent
        obtain ⟨name, hlookup⟩ := habsent
        obtain ⟨phase, -, hcalls, -⟩ := hm.phase name plugin hlookup
        exact ⟨phase, hcalls⟩
    · exact ⟨.new, by rw [hm.fresh plugin (Nat.not_lt.1 hlt)]; rfl⟩
  replaced := by
    intro plugin hr
    obtain ⟨phase, hne, hcalls⟩ := hm.gone plugin hr
    exact (disabled_of_enabled_iff hcalls).2 hne

/-- All plugins whose name meets the condition are called, and none of them is disabled by it. -/
theorem callAll (hm : Matches h p) {cond : String → Bool} {c : Callback} {q : Phases}
    (hnone : ∀ name, p name = none → q name = none)
    (hnext : ∀ name phase, p name = some phase → ∃ phase', q name = some phase' ∧
      (if cond name then phase.next c else some phase) = some phase' ∧
        (phase' = .disabled ↔ phase = .disabled)) :
    Matches (h.receive (h.manager.callAll cond c)) q where
  toSane := hm.toSane.receive fun plugin habsent =>
    PluginManager.callsOf_callAll_of_absent cond c habsent
  phase := by
    intro name plugin hlookup
    obtain ⟨phase, hp, hcalls, hflag⟩ := hm.phase name plugin hlookup
    obtain ⟨phase', hq, heq, hdisabled⟩ := hnext name phase hp
    refine ⟨phase', hq, ?_, ?_⟩
    · change phaseOf (callsOf (h.log ++ _) plugin) = some phase'
      rw [callsOf_append, PluginManager.callsOf_callAll cond c hm.distinct hlookup]
      split at heq
      · rename_i hcond
        rw [if_pos hcond, phaseOf_concat, hcalls, Option.bind_some, heq]
      · rename_i hcond
        rw [if_neg hcond, List.append_nil, hcalls, heq]
    · change h.manager.enabled.lookup name = some (decide (phase' ≠ .disabled))
      rw [hflag, decide_eq_decide.2 (not_congr hdisabled.symm)]
  absent := fun name hlookup => hnone name (hm.absent name hlookup)
  gone := by
    intro plugin hr
    obtain ⟨phase, hne, hcalls⟩ := hm.gone plugin hr
    have habsent : ∀ name, h.manager.plugins.lookup name ≠ some plugin := hr.2
    refine ⟨phase, hne, ?_⟩
    change phaseOf (callsOf (h.log ++ _) plugin) = some phase
    rw [callsOf_append, PluginManager.callsOf_callAll_of_absent cond c habsent, List.append_nil, hcalls]

/-- What a lawful call finds. -/
theorem next_of_callAll (hm : Matches h p) {cond : String → Bool} {c : Callback}
    (hl : (h.receive (h.manager.callAll cond c)).Lawful) {name : String} {phase : Phase}
    (hp : p name = some phase) (hcond : cond name = true) : ∃ phase', phase.next c = some phase' := by
  obtain ⟨plugin, hlookup, hcalls, -⟩ := hm.exists_plugin hp
  obtain ⟨phase', hphase'⟩ := (lifecycle_iff _).1 (hl.lifecycle plugin)
  change phaseOf (callsOf (h.log ++ _) plugin) = some phase' at hphase'
  rw [callsOf_append, PluginManager.callsOf_callAll cond c hm.distinct hlookup, if_pos hcond,
    phaseOf_concat, hcalls, Option.bind_some] at hphase'
  exact ⟨phase', hphase'⟩

/-- The flag of a name that has a phase. -/
theorem flag (hm : Matches h p) {name : String} {phase : Phase} (hp : p name = some phase) :
    h.manager.enabled.lookup name = some (decide (phase ≠ .disabled)) := by
  obtain ⟨plugin, -, -, hflag⟩ := hm.exists_plugin hp
  exact hflag

theorem register (hm : Matches h p) {name : String} (ha : p.Allows (.register name)) :
    Matches (h.step (.register name)) (p.step (.register name)) where
  toSane := hm.toSane.step _
  phase := by
    intro name' plugin hlookup
    change (h.manager.plugins.insert name h.registered).lookup name' = some plugin at hlookup
    change ∃ phase, Function.update p name (some .new) name' = some phase ∧
      phaseOf (callsOf h.log plugin) = some phase ∧
        (h.manager.enabled.insert name true).lookup name' = some (decide (phase ≠ .disabled))
    by_cases hname : name' = name
    · subst hname
      rw [AList.lookup_insert] at hlookup
      cases hlookup
      refine ⟨.new, Function.update_self .., ?_, AList.lookup_insert _⟩
      rw [hm.fresh _ (Nat.le_refl _)]
      rfl
    · rw [AList.lookup_insert_ne hname] at hlookup
      rw [Function.update_of_ne hname, AList.lookup_insert_ne hname]
      exact hm.phase name' plugin hlookup
  absent := by
    intro name' hlookup
    change (h.manager.plugins.insert name h.registered).lookup name' = none at hlookup
    by_cases hname : name' = name
    · subst hname
      rw [AList.lookup_insert] at hlookup
      cases hlookup
    · rw [AList.lookup_insert_ne hname] at hlookup
      exact (Function.update_of_ne hname _ _).trans (hm.absent name' hlookup)
  gone := by
    rintro plugin ⟨hlt, habsent⟩
    change plugin < h.registered + 1 at hlt
    have habsent' : ∀ name', (h.manager.plugins.insert name h.registered).lookup name' ≠ some plugin := habsent
    have hself := habsent' name
    rw [AList.lookup_insert] at hself
    have hold : plugin < h.registered := by
      have hne : h.registered ≠ plugin := fun heq => hself (congrArg some heq)
      omega
    by_cases hreplaced : h.manager.plugins.lookup name = some plugin
    · -- the plugin that is replaced by this very call
      obtain ⟨phase, hp, hcalls, -⟩ := hm.phase name plugin hreplaced
      exact ⟨phase, fun heq => ha (heq ▸ hp), hcalls⟩
    · refine hm.gone plugin ⟨hold, fun name' hlookup => ?_⟩
      by_cases hname : name' = name
      · exact hreplaced (hname ▸ hlookup)
      · apply habsent' name'
        rw [AList.lookup_insert_ne hname, hlookup]

theorem disable (hm : Matches h p) {name : String} (ha : p.Allows (.disable name)) :
    Matches (h.step (.disable name)) (p.step (.disable name)) := by
  have hsane := hm.toSane.step (.disable name)
  rcases Host.disable_cases h.manager name with ⟨plugin, hlookup, heq⟩ | ⟨hlookup, heq⟩
  · obtain ⟨phase, hp, hcalls, -⟩ := hm.phase name plugin hlookup
    obtain rfl := ha phase hp
    have hlog : ∀ plugin', callsOf (h.log ++ [(plugin, .onDisable)]) plugin' =
        callsOf h.log plugin' ++ if plugin = plugin' then [.onDisable] else [] := by
      intro plugin'
      rw [callsOf_append]
      by_cases hplugin : plugin = plugin' <;> simp [callsOf, hplugin]
    simp only [Host.step, heq] at hsane ⊢
    refine ⟨hsane, ?_, ?_, ?_⟩
    · intro name' plugin' hlookup'
      change h.manager.plugins.lookup name' = some plugin' at hlookup'
      change ∃ phase, Function.update p name ((p name).map fun _ => .disabled) name' = some phase ∧
        phaseOf (callsOf (h.log ++ [(plugin, .onDisable)]) plugin') = some phase ∧
          (h.manager.enabled.insert name false).lookup name' = some (decide (phase ≠ .disabled))
      rw [hlog]
      by_cases hname : name' = name
      · subst hname
        cases hlookup.symm.trans hlookup'
        refine ⟨.disabled, by rw [Function.update_self, hp]; rfl, ?_, AList.lookup_insert _⟩
        rw [if_pos rfl, phaseOf_concat, hcalls]
        rfl
      · have hother : plugin ≠ plugin' := by
          rintro rfl
          exact hname (hm.toSane.name_unique hlookup' hlookup)
        rw [if_neg hother, List.append_nil, Function.update_of_ne hname, AList.lookup_insert_ne hname]
        exact hm.phase name' plugin' hlookup'
    · intro name' hlookup'
      change h.manager.plugins.lookup name' = none at hlookup'
      have hname : name' ≠ name := by
        rintro rfl
        cases hlookup.symm.trans hlookup'
      exact (Function.update_of_ne hname _ _).trans (hm.absent name' hlookup')
    · rintro plugin' hr
      obtain ⟨phase, hne, hphase⟩ := hm.gone plugin' hr
      refine ⟨phase, hne, ?_⟩
      change phaseOf (callsOf (h.log ++ [(plugin, .onDisable)]) plugin') = some phase
      have hother : plugin ≠ plugin' := by
        rintro rfl
        exact hr.2 name hlookup
      rw [hlog, if_neg hother, List.append_nil, hphase]
  · have hp := hm.absent name hlookup
    have hstep : h.step (.disable name) = h := by
      simp [Host.step, heq, Host.receive]
    have hphases : p.step (.disable name) = p := by
      change Function.update p name ((p name).map _) = p
      rw [Function.update_eq_iff, hp]
      exact ⟨rfl, fun _ _ => rfl⟩
    rw [hstep, hphases]
    exact hm

/-- **A call that the phases allow keeps to them.** -/
theorem step (hm : Matches h p) {a : Action} (ha : p.Allows a) : Matches (h.step a) (p.step a) := by
  cases a with
  | register name => exact hm.register ha
  | enableAll =>
      refine hm.callAll (fun name hp => by simp [Phases.step, hp]) fun name phase hp => ?_
      cases phase with
      | new => exact ⟨.enabled, by simp [Phases.step, hp], by simp [hm.flag hp, next_onEnable], by simp⟩
      | enabled => exact absurd hp (ha name)
      | disabled => exact ⟨.disabled, by simp [Phases.step, hp], by simp [hm.flag hp], by simp⟩
  | tickAll tick =>
      refine hm.callAll (fun _ hp => hp) fun name phase hp => ⟨phase, hp, ?_, Iff.rfl⟩
      cases phase with
      | new => exact absurd hp (ha name)
      | enabled => simpa [hm.flag hp] using next_of_isWork (c := .onTick tick) trivial
      | disabled => simp [hm.flag hp]
  | notifyPlayerJoin uuid username =>
      refine hm.callAll (fun _ hp => hp) fun name phase hp => ⟨phase, hp, ?_, Iff.rfl⟩
      obtain rfl := ha name phase hp
      rfl
  | notifyPlayerLeave uuid =>
      refine hm.callAll (fun _ hp => hp) fun name phase hp => ⟨phase, hp, ?_, Iff.rfl⟩
      obtain rfl := ha name phase hp
      rfl
  | disable name => exact hm.disable ha

/-- **A call that stays lawful is one that the phases allow.** -/
theorem allows (hm : Matches h p) {a : Action} (hl : (h.step a).Lawful) : p.Allows a := by
  cases a with
  | register name =>
      -- the plugin that is replaced would stay enabled
      intro hp
      obtain ⟨plugin, hlookup, hcalls, -⟩ := hm.exists_plugin hp
      have hr : (h.step (.register name)).Replaced plugin := by
        refine ⟨Nat.lt_succ_of_lt (hm.bound name plugin hlookup), fun name' hlookup' => ?_⟩
        change (h.manager.plugins.insert name h.registered).lookup name' = some plugin at hlookup'
        by_cases hname : name' = name
        · subst hname
          rw [AList.lookup_insert] at hlookup'
          have hlt := hm.bound name' plugin hlookup
          cases hlookup'
          omega
        · rw [AList.lookup_insert_ne hname] at hlookup'
          exact hname (hm.toSane.name_unique hlookup' hlookup)
      exact (disabled_of_enabled_iff hcalls).1 (hl.replaced plugin hr) rfl
  | enableAll =>
      intro name hp
      obtain ⟨phase', hnext⟩ := hm.next_of_callAll hl hp (by simp [hm.flag hp])
      cases hnext
  | tickAll tick =>
      intro name hp
      obtain ⟨phase', hnext⟩ := hm.next_of_callAll hl hp (by simp [hm.flag hp])
      cases hnext
  | notifyPlayerJoin uuid username =>
      intro name phase hp
      obtain ⟨phase', hnext⟩ := hm.next_of_callAll hl hp rfl
      cases phase with
      | enabled => rfl
      | _ => cases hnext
  | notifyPlayerLeave uuid =>
      intro name phase hp
      obtain ⟨phase', hnext⟩ := hm.next_of_callAll hl hp rfl
      cases phase with
      | enabled => rfl
      | _ => cases hnext
  | disable name =>
      intro phase hp
      obtain ⟨plugin, hlookup, hcalls, -⟩ := hm.exists_plugin hp
      rcases Host.disable_cases h.manager name with ⟨plugin', hlookup', heq⟩ | ⟨hlookup', -⟩
      · cases hlookup.symm.trans hlookup'
        obtain ⟨phase', hphase'⟩ := (lifecycle_iff _).1 (hl.lifecycle plugin)
        have hlog : callsOf (h.step (.disable name)).log plugin =
            callsOf h.log plugin ++ [.onDisable] := by
          simp only [Host.step, heq, Host.receive]
          rw [callsOf_append]
          simp [callsOf]
        rw [hlog, phaseOf_concat, hcalls, Option.bind_some] at hphase'
        cases phase with
        | enabled => rfl
        | _ => cases hphase'
      · cases hlookup.symm.trans hlookup'

end Matches

/-- The phases along a run. -/
theorem matches_foldl {actions : List Action} {h : Host} {p : Phases} (hm : Matches h p)
    (ha : Along Phases.step Phases.Allows p actions) :
    Matches (actions.foldl Host.step h) (actions.foldl Phases.step p) := by
  induction actions generalizing h p with
  | nil => exact hm
  | cons a actions ih => exact ih (hm.step ha.1) ha.2

/-- **After a run every plugin went through its lifecycle exactly when every call found the plugins it
concerns in a phase that allows it.** -/
theorem plugins_lawful_iff (actions : List Action) :
    (run actions).Lawful ↔ Along Phases.step Phases.Allows (fun _ => none) actions := by
  constructor
  · intro hl
    induction actions using List.reverseRecOn with
    | nil => trivial
    | append_singleton actions a ih =>
        rw [run, List.foldl_append] at hl
        have hbefore := ih (Host.lawful_of_step hl)
        exact along_append.2 ⟨hbefore, (matches_foldl .new hbefore).allows hl, trivial⟩
  · intro ha
    exact (matches_foldl .new ha).lawful

/-- A player who joins is announced to a plugin that was disabled. -/
theorem not_forall_plugins_lawful : ¬ ∀ actions, (run actions).Lawful := by
  intro h
  have hl := (h [.register "a", .enableAll, .disable "a", .notifyPlayerJoin 0 "Alice"]).lifecycle 0
  obtain ⟨phase, hphase⟩ := (lifecycle_iff _).1 hl
  have hcalls : callsOf (run [.register "a", .enableAll, .disable "a",
      .notifyPlayerJoin 0 "Alice"]).log 0 = [.onEnable, .onDisable, .onPlayerJoin 0 "Alice"] := by
    decide +kernel
  rw [hcalls] at hphase
  cases hphase

end Apoptotic.Plugins
