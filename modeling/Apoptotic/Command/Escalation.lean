import Mathlib.Data.Set.Subsingleton
import Apoptotic.Command.Effects

/-!
# Privileges over a whole dispatch

Which guarded commands a line runs, `/execute` nested to any depth, and in which states; what a
dispatch keeps if every one of them keeps it.

Principal results: `dispatch_induct` — what the guarded commands of a line keep, the line keeps;
`dispatchInput_unchanged` — **when a line changes nothing that its sender must not change**.
-/

namespace Apoptotic.Commands

open Calls

variable (host : Host) (disp : CommandDispatcher)

/-! ## What a line runs -/

/-- `/execute` calls `redispatch source args` in state `t`. -/
inductive Redispatches (ctx : CommandContext) (redispatch : Redispatch ctx.args.length)
    (s : Server) : CommandSource → RunArgs ctx.args.length → Server → Prop where
  | asTarget {pre t post args s₁ notes s₂}
      (hexec : (execution host ctx).call s = (.ok (.asTargets (pre ++ t :: post) args), s₁))
      (hpre : Call.collect (runAs redispatch args) pre s₁ = (.ok notes, s₂)) :
      Redispatches ctx redispatch s (.player t.1 t.2) args s₂
  | atTarget {pre t post args s₁ notes s₂ q}
      (hexec : (execution host ctx).call s = (.ok (.atTargets (pre ++ t :: post) args), s₁))
      (hpre : Call.collect (runAt ctx.source redispatch args) pre s₁ = (.ok notes, s₂))
      (hq : s₂.get t.1 = some q) :
      Redispatches ctx redispatch s ctx.source (RunArgs.resolveAt args q) s₂
  | positioned {args s₁} (hexec : (execution host ctx).call s = (.ok (.positioned args), s₁)) :
      Redispatches ctx redispatch s ctx.source args s₁

/-- How `/execute` dispatches again in a dispatch of `ctx`. -/
def CommandDispatcher.redispatch (ctx : CommandContext) (n : Nat) : Redispatch n :=
  fun source args => disp.dispatch host { ctx with source := source, args := args.1 }

/-- **The dispatch of `ctx` in state `s` runs the guarded command `c` with context `c'` in state
`u`**, itself or through any nesting of `/execute`. -/
inductive Runs : CommandContext → Server → GuardedCommand → CommandContext → Server → Prop where
  | guarded {ctx s arg args c} (hargs : ctx.args = arg :: args)
      (hfind : disp.find host arg = some (.guarded c)) :
      Runs ctx s c { ctx with args := args } s
  | execute {ctx s arg args source sub t c c' u} (hargs : ctx.args = arg :: args)
      (hfind : disp.find host arg = some .execute)
      (hcall : Redispatches host { ctx with args := args } (disp.redispatch host ctx args.length) s
        source sub t)
      (hrun : Runs { ctx with source := source, args := sub.1 } t c c' u) :
      Runs ctx s c c' u

/-! ## One `/execute` -/

section Execute

variable {host} {ctx : CommandContext} {redispatch : Redispatch ctx.args.length} {s : Server}
  {P : GuardedServer → Prop}

theorem reported_snd (username : String) (x : Cmd String) (t : Server) :
    (reported username x t).2 = (x t).2 := by
  unfold reported
  rw [Call.bind_snd_of_pure, Call.attempt_snd]
  intro r t
  split <;> rfl

/-- From one state to a later one, `P` is kept. -/
def Keeps (P : GuardedServer → Prop) (s t : Server) : Prop := P s.guarded → P t.guarded

theorem Keeps.refl (s : Server) : Keeps P s s := id

theorem Keeps.trans {s t u : Server} (h : Keeps P s t) (h' : Keeps P t u) : Keeps P s u :=
  fun hs => h' (h hs)

theorem runAt_of_some {args : RunArgs ctx.args.length} {t : Uuid × String} {u : Server} {q : Player}
    (hq : u.get t.1 = some q) :
    (runAt ctx.source redispatch args t u).2 =
      (redispatch ctx.source (RunArgs.resolveAt args q) u).2 := by
  simp only [runAt, liftM_quiet, Call.bind_apply, read_call, hq]
  exact reported_snd t.2 _ u

theorem runAt_of_none {args : RunArgs ctx.args.length} {t : Uuid × String} {u : Server}
    (hq : u.get t.1 = none) : (runAt ctx.source redispatch args t u).2 = u := by
  simp only [runAt, liftM_quiet, Call.bind_apply, read_call, hq, Call.pure_apply]

theorem executeCommand_asTargets {targets args s₁}
    (hexec : (execution host ctx).call s = (.ok (.asTargets targets args), s₁)) :
    (executeCommand host ctx redispatch s).2 =
      (Call.collect (runAs redispatch args) targets s₁).2 := by
  simp only [executeCommand, liftM_quiet]
  rw [Call.bind_of_ok hexec]
  exact Call.bind_snd_of_pure (fun _ _ => rfl) _ s₁

theorem executeCommand_atTargets {targets args s₁}
    (hexec : (execution host ctx).call s = (.ok (.atTargets targets args), s₁)) :
    (executeCommand host ctx redispatch s).2 =
      (Call.collect (runAt ctx.source redispatch args) targets s₁).2 := by
  simp only [executeCommand, liftM_quiet]
  rw [Call.bind_of_ok hexec]
  exact Call.bind_snd_of_pure (fun _ _ => rfl) _ s₁

theorem executeCommand_positioned {args s₁}
    (hexec : (execution host ctx).call s = (.ok (.positioned args), s₁)) :
    (executeCommand host ctx redispatch s).2 = (redispatch ctx.source args s₁).2 := by
  simp only [executeCommand, liftM_quiet]
  rw [Call.bind_of_ok hexec]

/-- Arguments that `/execute` refuses leave the guarded state alone. -/
theorem executeCommand_of_refused (hexec : ∀ ex s₁, (execution host ctx).call s ≠ (.ok ex, s₁)) :
    (executeCommand host ctx redispatch s).2.guarded = s.guarded := by
  have hquiet := (execution host ctx).keeps s
  simp only [executeCommand, liftM_quiet, Call.bind_apply]
  split
  · rename_i ex s₁ h
    exact absurd h (hexec ex s₁)
  all_goals
    rename_i h
    rwa [h] at hquiet

/-- What every call of `redispatch` keeps, each target of `/execute as` keeps. -/
theorem runAs_keeps
    (h : ∀ source args t, Redispatches host ctx redispatch s source args t →
      Keeps P t (redispatch source args t).2) {targets args s₁}
    (hexec : (execution host ctx).call s = (.ok (.asTargets targets args), s₁)) :
    ∀ pre t post notes u, targets = pre ++ t :: post →
      Call.collect (runAs redispatch args) pre s₁ = (.ok notes, u) →
      Keeps P u (runAs redispatch args t u).2 := by
  rintro pre t post notes u rfl hpre
  rw [runAs, reported_snd]
  exact h _ args u (.asTarget hexec hpre)

/-- What every call of `redispatch` keeps, each target of `/execute at` keeps. -/
theorem runAt_keeps
    (h : ∀ source args t, Redispatches host ctx redispatch s source args t →
      Keeps P t (redispatch source args t).2) {targets args s₁}
    (hexec : (execution host ctx).call s = (.ok (.atTargets targets args), s₁)) :
    ∀ pre t post notes u, targets = pre ++ t :: post →
      Call.collect (runAt ctx.source redispatch args) pre s₁ = (.ok notes, u) →
      Keeps P u (runAt ctx.source redispatch args t u).2 := by
  rintro pre t post notes u rfl hpre
  cases hq : u.get t.1 with
  | none =>
      rw [runAt_of_none hq]
      exact Keeps.refl u
  | some q =>
      rw [runAt_of_some hq]
      exact h _ _ u (.atTarget hexec hpre hq)

theorem execution_keeps {ex s₁} (hexec : (execution host ctx).call s = (.ok ex, s₁)) :
    Keeps P s s₁ := by
  have hquiet := (execution host ctx).keeps s
  rw [hexec] at hquiet
  intro hs
  rwa [hquiet]

/-- **What every call of `redispatch` keeps, `/execute` keeps.** -/
theorem executeCommand_induct
    (h : ∀ source args t, Redispatches host ctx redispatch s source args t →
      Keeps P t (redispatch source args t).2) :
    Keeps P s (executeCommand host ctx redispatch s).2 := by
  by_cases hok : ∃ ex s₁, (execution host ctx).call s = (.ok ex, s₁)
  · obtain ⟨ex, s₁, hexec⟩ := hok
    refine (execution_keeps hexec).trans ?_
    cases ex with
    | asTargets targets args =>
        rw [executeCommand_asTargets hexec]
        exact Call.collect_induct Keeps.refl Keeps.trans (runAs_keeps h hexec)
    | atTargets targets args =>
        rw [executeCommand_atTargets hexec]
        exact Call.collect_induct Keeps.refl Keeps.trans (runAt_keeps h hexec)
    | positioned args =>
        rw [executeCommand_positioned hexec]
        exact h _ args s₁ (.positioned hexec)
  · intro hs
    rwa [executeCommand_of_refused fun ex s₁ hexec => hok ⟨ex, s₁, hexec⟩]

/-- ... and so does the part of it before any of these calls, ... -/
theorem executeCommand_induct_until {source args u}
    (hcall : Redispatches host ctx redispatch s source args u)
    (h : ∀ source args t, Redispatches host ctx redispatch s source args t →
      Keeps P t (redispatch source args t).2) : Keeps P s u := by
  cases hcall with
  | asTarget hexec hpre =>
      exact (execution_keeps hexec).trans
        (Call.collect_induct_until Keeps.refl Keeps.trans hpre (runAs_keeps h hexec))
  | atTarget hexec hpre hq =>
      exact (execution_keeps hexec).trans
        (Call.collect_induct_until Keeps.refl Keeps.trans hpre (runAt_keeps h hexec))
  | positioned hexec => exact execution_keeps hexec

/-- ... and the part after it. -/
theorem executeCommand_induct_from {source args u}
    (hcall : Redispatches host ctx redispatch s source args u)
    (h : ∀ source args t, Redispatches host ctx redispatch s source args t →
      Keeps P t (redispatch source args t).2) :
    Keeps P (redispatch source args u).2 (executeCommand host ctx redispatch s).2 := by
  cases hcall with
  | asTarget hexec hpre =>
      have hfrom := Call.collect_induct_from Keeps.refl Keeps.trans hpre (runAs_keeps h hexec)
      rw [runAs, reported_snd] at hfrom
      rwa [executeCommand_asTargets hexec]
  | atTarget hexec hpre hq =>
      have hfrom := Call.collect_induct_from Keeps.refl Keeps.trans hpre (runAt_keeps h hexec)
      rw [runAt_of_some hq] at hfrom
      rwa [executeCommand_atTargets hexec]
  | positioned hexec =>
      rw [executeCommand_positioned hexec]
      exact Keeps.refl _

end Execute

/-! ## A whole dispatch -/

section Dispatch

variable {host disp} {ctx : CommandContext} {s : Server} {P : GuardedServer → Prop}

theorem dispatch_execute {arg : String} {args : List String} (hargs : ctx.args = arg :: args)
    (hfind : disp.find host arg = some .execute) :
    disp.dispatch host ctx = executeCommand host { ctx with args := args }
      (disp.redispatch host ctx args.length) := by
  rw [CommandDispatcher.dispatch]
  split
  · rename_i h
    rw [h] at hargs
    cases hargs
  · rename_i h
    rw [h] at hargs
    cases hargs
    rw [hfind]
    rfl

theorem dispatch_guarded {arg : String} {args : List String} {c : GuardedCommand}
    (hargs : ctx.args = arg :: args) (hfind : disp.find host arg = some (.guarded c)) :
    disp.dispatch host ctx = c.run host { ctx with args := args } := by
  rw [CommandDispatcher.dispatch]
  split
  · rename_i h
    rw [h] at hargs
    cases hargs
  · rename_i h
    rw [h] at hargs
    cases hargs
    rw [hfind]

/-- Every other dispatch leaves the guarded state alone. -/
theorem dispatch_quiet
    (h : ∀ arg args, ctx.args = arg :: args → disp.find host arg ≠ some .execute ∧
      ∀ c, disp.find host arg ≠ some (.guarded c)) :
    Does (disp.dispatch host ctx) s .none := by
  rw [CommandDispatcher.dispatch]
  split
  · rfl
  · rename_i arg args hargs
    obtain ⟨hexec, hguarded⟩ := h arg args hargs
    dsimp only
    split
    · rename_i hfind
      exact absurd hfind hexec
    · exact does_quiet _ s
    · rename_i c hfind
      exact absurd hfind (hguarded c)
    · rfl

/-- What every guarded command of a dispatch keeps, every guarded command of a dispatch inside it
keeps. -/
theorem runs_of_redispatches {arg : String} {args : List String} (hargs : ctx.args = arg :: args)
    (hfind : disp.find host arg = some .execute)
    (h : ∀ c c' u, Runs host disp ctx s c c' u → Keeps P u (c.run host c' u).2)
    {source : CommandSource} {sub : RunArgs args.length} {t : Server}
    (hcall : Redispatches host { ctx with args := args } (disp.redispatch host ctx args.length) s
      source sub t) :
    ∀ c c' u, Runs host disp { ctx with source := source, args := sub.1 } t c c' u →
      Keeps P u (c.run host c' u).2 :=
  fun c c' u hrun => h c c' u (.execute hargs hfind hcall hrun)

/-- **What the guarded commands of a dispatch keep, the dispatch keeps.** -/
theorem dispatch_induct
    (h : ∀ c c' u, Runs host disp ctx s c c' u → Keeps P u (c.run host c' u).2) :
    Keeps P s (disp.dispatch host ctx s).2 := by
  -- what `/execute` dispatches has fewer arguments
  induction hn : ctx.args.length using Nat.strong_induction_on generalizing ctx s with
  | h n ih =>
      by_cases hexec : ∃ arg args, ctx.args = arg :: args ∧ disp.find host arg = some .execute
      · obtain ⟨arg, args, hargs, hfind⟩ := hexec
        rw [dispatch_execute hargs hfind]
        refine executeCommand_induct fun source sub t hcall => ?_
        have hlt : sub.1.length < n := by
          rw [← hn, hargs]
          exact Nat.lt_succ_of_lt sub.2
        exact ih sub.1.length hlt (runs_of_redispatches hargs hfind h hcall) rfl
      · by_cases hguarded : ∃ arg args c, ctx.args = arg :: args ∧
            disp.find host arg = some (.guarded c)
        · obtain ⟨arg, args, c, hargs, hfind⟩ := hguarded
          rw [dispatch_guarded hargs hfind]
          exact h c _ s (.guarded hargs hfind)
        · have hquiet : Does (disp.dispatch host ctx) s .none := dispatch_quiet fun arg args hargs =>
            ⟨fun hfind => hexec ⟨arg, args, hargs, hfind⟩,
              fun c hfind => hguarded ⟨arg, args, c, hargs, hfind⟩⟩
          intro hs
          rwa [hquiet]

/-- ... and so does the part of it before any of them, ... -/
theorem dispatch_induct_until {c : GuardedCommand} {c' : CommandContext} {u : Server}
    (hrun : Runs host disp ctx s c c' u)
    (h : ∀ c c' u, Runs host disp ctx s c c' u → Keeps P u (c.run host c' u).2) :
    Keeps P s u := by
  induction hrun with
  | guarded hargs hfind => exact Keeps.refl _
  | execute hargs hfind hcall hrun ih =>
      have hsub := @runs_of_redispatches host disp _ _ P _ _ hargs hfind h
      exact (executeCommand_induct_until hcall fun _ _ _ hcall' =>
        dispatch_induct (hsub hcall')).trans (ih (hsub hcall))

/-- ... and the part after it. -/
theorem dispatch_induct_from {c : GuardedCommand} {c' : CommandContext} {u : Server}
    (hrun : Runs host disp ctx s c c' u)
    (h : ∀ c c' u, Runs host disp ctx s c c' u → Keeps P u (c.run host c' u).2) :
    Keeps P (c.run host c' u).2 (disp.dispatch host ctx s).2 := by
  induction hrun with
  | guarded hargs hfind =>
      rw [dispatch_guarded hargs hfind]
      exact Keeps.refl _
  | execute hargs hfind hcall hrun ih =>
      have hsub := @runs_of_redispatches host disp _ _ P _ _ hargs hfind h
      rw [dispatch_execute hargs hfind]
      exact (ih (hsub hcall)).trans (executeCommand_induct_from hcall fun _ _ _ hcall' =>
        dispatch_induct (hsub hcall'))

end Dispatch

/-! ## Privileges -/

/-- A command that a dispatch runs: the command, its context and the state before it. -/
abbrev CommandRun := GuardedCommand × CommandContext × Server

/-- The command finds everything as it would make it. -/
def CommandRun.Inert (host : Host) (p : Uuid) (r : CommandRun) : Prop :=
  (r.1.effect host r.2.1 r.2.2).Inert p r.2.2.guarded

/-- **The commands of a dispatch that change something `p` must not change.** -/
def changes (p : Uuid) (ctx : CommandContext) (s : Server) : Set CommandRun :=
  { r | Runs host disp ctx s r.1 r.2.1 r.2.2 ∧ ¬ r.Inert host p }

section Privileges

variable {host disp} {p : Uuid} {ctx : CommandContext} {s : Server}

/-- One command leaves alone what `p` must not change exactly if it is inert. -/
theorem run_unchanged_iff (c : GuardedCommand) (c' : CommandContext) (u : Server) :
    Unchanged p u.guarded (c.run host c' u).2.guarded ↔ CommandRun.Inert host p (c, c', u) := by
  rw [run_guarded host c' u c]
  exact unchanged_apply_iff p u.guarded _

theorem keeps_of_inert {g : GuardedServer} {c : GuardedCommand} {c' : CommandContext} {u : Server}
    (h : CommandRun.Inert host p (c, c', u)) : Keeps (Unchanged p g) u (c.run host c' u).2 :=
  fun hu => hu.trans ((run_unchanged_iff c c' u).2 h)

theorem unchanged_of_changes_eq_empty (h : changes host disp p ctx s = ∅) :
    Unchanged p s.guarded (disp.dispatch host ctx s).2.guarded := by
  refine dispatch_induct (fun c c' u hrun => keeps_of_inert ?_) (Unchanged.refl p s.guarded)
  by_contra hinert
  exact Set.eq_empty_iff_forall_notMem.1 h (c, c', u) ⟨hrun, hinert⟩

/-- With a single change nothing can undo it. -/
theorem not_unchanged_of_change (hone : (changes host disp p ctx s).Subsingleton)
    {c : GuardedCommand} {c' : CommandContext} {u : Server}
    (hchange : (c, c', u) ∈ changes host disp p ctx s) :
    ¬ Unchanged p s.guarded (disp.dispatch host ctx s).2.guarded := by
  have hinert : ∀ d d' v, Runs host disp ctx s d d' v → (d, d', v) ≠ (c, c', u) →
      CommandRun.Inert host p (d, d', v) := by
    intro d d' v hrun hne
    by_contra hnot
    exact hne (hone ⟨hrun, hnot⟩ hchange)
  have hnot : ¬ Unchanged p u.guarded (c.run host c' u).2.guarded :=
    fun h => hchange.2 ((run_unchanged_iff c c' u).1 h)
  -- everything before the change is inert, so `u` still agrees with `s`
  have hbefore : Unchanged p s.guarded u.guarded := by
    have huntil : Keeps (fun g => Unchanged p s.guarded g ∨ Unchanged p s.guarded u.guarded) s u := by
      refine dispatch_induct_until hchange.1 fun d d' v hrun hv => ?_
      rcases hv with hv | hv
      · by_cases heq : (d, d', v) = (c, c', u)
        · cases heq
          exact Or.inr hv
        · exact Or.inl (keeps_of_inert (hinert d d' v hrun heq) hv)
      · exact Or.inr hv
    exact (huntil (Or.inl (Unchanged.refl p s.guarded))).elim id id
  -- and everything after it is, so the last state agrees with the one it left
  have hafter : Unchanged p (c.run host c' u).2.guarded (disp.dispatch host ctx s).2.guarded := by
    have hfrom : Keeps (Unchanged p (c.run host c' u).2.guarded) (c.run host c' u).2
        (disp.dispatch host ctx s).2 := by
      refine dispatch_induct_from hchange.1 fun d d' v hrun hv => ?_
      by_cases heq : (d, d', v) = (c, c', u)
      · cases heq
        exact absurd hv.symm hnot
      · exact keeps_of_inert (hinert d d' v hrun heq) hv
    exact hfrom (Unchanged.refl p _)
  intro h
  exact hnot (hbefore.symm.trans (h.trans hafter.symm))

/-- A dispatch that is not an `/execute` runs one command at most. -/
theorem changes_subsingleton
    (h : ∀ arg args, ctx.args = arg :: args → disp.find host arg ≠ some .execute) :
    (changes host disp p ctx s).Subsingleton := by
  rintro ⟨c, c', u⟩ ⟨hc, -⟩ ⟨d, d', v⟩ ⟨hd, -⟩
  cases hc with
  | execute hargs hfind => exact absurd hfind (h _ _ hargs)
  | guarded hargs hfind =>
      cases hd with
      | execute hargs hfind => exact absurd hfind (h _ _ hargs)
      | guarded hargs' hfind' =>
          rw [hargs] at hargs'
          cases hargs'
          rw [hfind] at hfind'
          cases hfind'
          rfl

end Privileges

/-- **When a line of player `p` changes nothing that `p` must not change**: if none of the commands
it runs does.  If at most one does, and so for every line but those of `/execute`, only then. -/
theorem dispatchInput_unchanged (p : Uuid) (name input motd : String) (maxPlayers : Nat)
    (chunkStore saveTrigger : Bool) (s : Server) :
    let source := CommandSource.player p name
    let ctx := inputContext input source motd maxPlayers chunkStore saveTrigger
    let kept := Unchanged p s.guarded
      (disp.dispatchInput host input source motd maxPlayers chunkStore saveTrigger s).2.guarded
    (changes host disp p ctx s = ∅ → kept) ∧
      ((changes host disp p ctx s).Subsingleton → (kept ↔ changes host disp p ctx s = ∅)) ∧
      ((∀ arg args, inputArgs input = arg :: args → disp.find host arg ≠ some .execute) →
        (kept ↔ changes host disp p ctx s = ∅)) := by
  intro source ctx kept
  have hkept : changes host disp p ctx s = ∅ → kept := unchanged_of_changes_eq_empty
  have hone : (changes host disp p ctx s).Subsingleton →
      (kept ↔ changes host disp p ctx s = ∅) := by
    refine fun hone => ⟨fun h => ?_, hkept⟩
    refine Set.eq_empty_iff_forall_notMem.2 fun r hr => ?_
    exact not_unchanged_of_change hone hr h
  exact ⟨hkept, hone, fun h => hone (changes_subsingleton h)⟩

/-! ## A guest who makes himself an operator -/

/-- Lower case and the offline uuids of one name; the rest is never asked. -/
def guestHost : Host where
  toLowercase := String.toLower
  parseF64 _ := none
  parseF32 _ := none
  intError _ := ""
  floatError _ := ""
  showF64 _ := ""
  showF32 _ := ""
  fixedF64 _ _ := ""
  fixedF32 _ _ := ""
  showUuid _ := ""
  subsecNanos _ := none
  newV4 _ := 2#128
  offlineUuid _ := 1#128
  resolveItem _ := none
  findEnchantment _ := false
  sampleBiome _ _ _ := 0
  sameShard _ _ := false
  functionFile _ _ := none
  datapacks := []

def guest : Player where
  entityId := 1
  uuid := 1#128
  username := "guest"
  position := ⟨0, 64, 0, 0, 0⟩
  gamemode := .survival
  health := 20
  isOp := false
  inventory := Inventory.new
  activeEffects := []
  xpBar := 0
  xpLevel := 0
  xpTotal := 0
  tags := []
  spawnPosition := none

/-- A server with one player online, who is not an operator. -/
def guestServer : Server where
  players := ⟨[guest], List.nodup_singleton _⟩
  banned := []
  whitelist := (false, [])
  running := true
  world := ⟨0, 0, .clear, .normal, 0, .survival, 0, 64, 0, [], ⟨0, 0, 60000000, 60000000, 0, 0, 5, 5⟩,
    [], false, false, 0⟩
  chunks _ := none
  scoreboard := ⟨[], []⟩
  bossbars := []
  sent := []
  saves := 0
  draws := 0

/-- **`/op guest` from the guest itself makes it an operator.** -/
theorem not_unchanged_op :
    ¬ ∀ (host : Host) (p : Uuid) (name input motd : String) (maxPlayers : Nat)
      (chunkStore saveTrigger : Bool) (s : Server),
      (CommandSource.player p name).hasPermission s = false →
        Unchanged p s.guarded ((registerCommands host).dispatchInput host input (.player p name)
          motd maxPlayers chunkStore saveTrigger s).2.guarded := by
  intro h
  have hop := h guestHost 1#128 "guest" "/op guest" "" 20 false false guestServer rfl
  have hargs : inputArgs "/op guest" = ["op", "guest"] := by decide
  have hfind : (registerCommands guestHost).find guestHost "op" = some (.guarded .op) := by
    decide +kernel
  rw [CommandDispatcher.dispatchInput, dispatch_guarded hargs hfind] at hop
  have hname : guestServer.getByName guestHost "guest" = some guest := by
    simp [Server.getByName, guestServer, guest]
  have heffect : ∀ ctx : CommandContext, ctx.args = ["guest"] →
      GuardedCommand.op.effect guestHost ctx guestServer = .setOp 1#128 true := by
    intro ctx hctx
    simp [GuardedCommand.effect, setOpEffect, hctx, hname, guest]
  have hinert := (run_unchanged_iff _ _ _).1 hop
  rw [CommandRun.Inert, heffect _ rfl] at hinert
  have hguest : guest.isOp = true := hinert guest.guarded rfl
  cases hguest

end Apoptotic.Commands
