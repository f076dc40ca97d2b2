import Apoptotic.Command.Dispatch
import Apoptotic.Command.Privileges

/-!
# What the commands do to the guarded state

Every guarded command is one effect on the guarded state.  Which one depends on its arguments and
on the state before it; that the source is an operator is asked nowhere.

Principal results: `collect_guarded` — what a loop over targets does; `run_guarded` — **a command
does to the guarded state what its effect does**.
-/

namespace Apoptotic.Commands

open Calls Text

/-! ## The effects of the commands -/

section Effects

variable (host : Host) (ctx : CommandContext) (s : Server)

/-- The targets of a command that acts on its source by default. -/
def selfOr : Option String → List (Uuid × String)
  | some target => playerTargets host s ctx.source target
  | none =>
      match ctx.source with
      | .player uuid username => [(uuid, username)]
      | _ => []

/-- An edit of every player in a list of targets. -/
def Effect.targets (targets : List (Uuid × String)) (e : Edit) : Effect :=
  edit (targets.map Prod.fst) e

def setOpEffect (isOp : Bool) : Effect :=
  match ctx.args.head?.bind (s.getByName host) with
  | some q => .setOp q.uuid isOp
  | none => .none

/-- An effect on the offline uuid of the first argument. -/
def offlineEffect (effect : Uuid → Effect) (arg : Option String) : Effect :=
  match arg with
  | some target => effect (host.offlineUuid target)
  | none => .none

def banEffect : Effect :=
  match ctx.args.head? with
  | some target =>
      match s.getByName host target with
      | some q => .ban q.uuid
      | none => .ban (host.offlineUuid target)
  | none => .none

def whitelistEffect : Effect :=
  match ctx.argOr 0 "list" with
  | "add" => offlineEffect host .addWhitelist ctx.args[1]?
  | "remove" => offlineEffect host .removeWhitelist ctx.args[1]?
  | "on" => .setWhitelistEnabled true
  | "off" => .setWhitelistEnabled false
  | _ => .none

def gamemodeEffect : Effect :=
  match ctx.args.head?.map (parseGamemode host) with
  | some (.ok mode) => .targets (selfOr host ctx s ctx.args[1]?) (.gamemode mode)
  | _ => .none

/-- The inventory after `add_item`. -/
def Edit.give (item : BlockState) (count : Nat) : Edit :=
  inventory fun inv => (inv.addItem item count).1

def giveEffect : Effect :=
  match ctx.args[0]?, ctx.args[1]?.bind fun name => host.resolveItem (normalizeItemName host name) with
  | some target, some item =>
      .targets (playerTargets host s ctx.source target)
        (.give item (((ctx.args[2]?).bind parseU32).getD 1))
  | _, _ => .none

def clearEffect : Effect :=
  match clearTarget ctx with
  | some target =>
      .targets (playerTargets host s ctx.source target) (.inventory fun _ => Inventory.new)
  | none => .none

/-- The inventory after `/enchant`. -/
def Edit.enchant (name : String) (level : Nat) : Edit :=
  inventory fun inv =>
    if inv.held.isSome then inv.setHeldNbt (some (enchantNbt name level)) else inv

def enchantEffect : Effect :=
  if ctx.args.length < 2 then .none
  else
    let enchantName := host.toLowercase (ctx.arg 1)
    if host.findEnchantment enchantName then
      .targets (playerTargets host s ctx.source (ctx.arg 0))
        (.enchant enchantName (min (((ctx.args[2]?).bind parseU32).getD 1) 255))
    else .none

/-- The health after `/damage`. -/
def Edit.damage (amount : Float32) : Edit :=
  health fun h => Server.maxF32 (Server.maxF32 (h - amount) 0) 0

def damageEffect : Effect :=
  if ctx.args.length < 2 then .none
  else
    match host.parseF32 (ctx.arg 1) with
    | some amount => .targets (playerTargets host s ctx.source (ctx.arg 0)) (.damage amount)
    | none => .none

/-- With five arguments `/item` panics, and the process ends. -/
def itemEffect : Effect :=
  if ctx.args.length < 5 then .none
  else
    match ctx.args[5]? with
    | none => .stop
    | some itemName =>
        match parseNat 255 (ctx.arg 3).toList, host.resolveItem itemName with
        | some _, some item =>
            .targets (playerTargets host s ctx.source (ctx.arg 2))
              (.give item (((ctx.args[6]?).bind parseU32).getD 1))
        | _, _ => .none

def spectateEffect : Effect :=
  match ctx.args.head? with
  | some target =>
      if playerTargets host s ctx.source target = [] then .none
      else
        match ctx.source with
        | .player uuid _ => .edit [uuid] (.gamemode .spectator)
        | _ => .none
  | none => .none

end Effects

/-- **What a guarded command does to the guarded state.** -/
def GuardedCommand.effect (host : Host) (ctx : CommandContext) (s : Server) :
    GuardedCommand → Effect
  | op => setOpEffect host ctx s true
  | deop => setOpEffect host ctx s false
  | stop => .stop
  | ban => banEffect host ctx s
  | pardon | pardonIp => offlineEffect host .unban ctx.args.head?
  | banIp => offlineEffect host .ban ctx.args.head?
  | whitelist => whitelistEffect host ctx
  | gamemode => gamemodeEffect host ctx s
  | give => giveEffect host ctx s
  | kill => .targets (selfOr host ctx s ctx.args.head?) (.health fun _ => Server.maxF32 0 0)
  | clear => clearEffect host ctx s
  | enchant => enchantEffect host ctx s
  | damage => damageEffect host ctx s
  | item => itemEffect host ctx s
  | spectate => spectateEffect host ctx s

/-! ## Edits of one player -/

theorem guarded_update_edit {s : Server} {u : Uuid} {f : Player → Player}
    {F : GuardedPlayer → GuardedPlayer} (hu : ∀ q, (f q).uuid = q.uuid)
    (hf : ∀ q, s.get u = some q → (f q).guarded = F q.guarded) :
    (s.update u f hu).guarded = s.guarded.edit [u] F := by
  unfold Server.guarded Server.update Players.update GuardedServer.edit
  simp only [List.map_map]
  congr 1
  refine List.map_congr_left fun q hq => ?_
  simp only [Function.comp, List.mem_singleton, Player.guarded]
  by_cases h : q.uuid = u
  · rw [if_pos h, if_pos h]
    exact hf q (Players.get_eq_some_iff.2 ⟨hq, h⟩)
  · rw [if_neg h, if_neg h]

/-- An edit that finds the player as it would make it. -/
theorem edit_of_fixed {s : Server} {u : Uuid} {F : GuardedPlayer → GuardedPlayer}
    (hF : ∀ q, s.get u = some q → F q.guarded = q.guarded) :
    s.guarded.edit [u] F = s.guarded := by
  unfold GuardedServer.edit
  have hmap : s.guarded.players.map (fun q => if q.uuid ∈ [u] then F q else q) =
      s.guarded.players := by
    refine (List.map_congr_left fun g hg => ?_).trans (List.map_id _)
    obtain ⟨q, hq, rfl⟩ := List.mem_map.1 hg
    by_cases hqu : q.guarded.uuid ∈ [u]
    · rw [if_pos hqu, hF q (Players.get_eq_some_iff.2 ⟨hq, List.mem_singleton.1 hqu⟩)]
      rfl
    · rw [if_neg hqu]
      rfl
  rw [hmap]

theorem edit_of_offline {s : Server} {u : Uuid} (h : s.get u = none)
    (F : GuardedPlayer → GuardedPlayer) : s.guarded.edit [u] F = s.guarded :=
  edit_of_fixed fun q hq => by rw [h] at hq; cases hq

/-- A call on one target that edits that player, and succeeds if the player is online. -/
structure Edits {α : Type} (f : Uuid × String → Cmd α) (e : Edit) : Prop where
  guarded : ∀ t s, (f t s).2.guarded = s.guarded.edit [t.1] e.apply
  ok : ∀ t s, (s.get t.1).isSome → ∃ a s', f t s = (.ok a, s')

theorem withOnline_of_some {u : Uuid} {s : Server} {q : Player} (h : s.get u = some q)
    (f : Server → Server) : withOnline u f s = (.ok (), f s) := by
  simp [withOnline, Call.bind_apply, h]

theorem withOnline_of_none {u : Uuid} {s : Server} (h : s.get u = none) (f : Server → Server) :
    withOnline u f s = (.err "Player not found", s) := by
  simp [withOnline, Call.bind_apply, h]

/-- A write of one player under `withOnline`, with the message that goes with it. -/
theorem edits_withOnline {g : Uuid × String → Server → Server} {f : Player → Player} {e : Edit}
    (hu : ∀ q, (f q).uuid = q.uuid) (hf : ∀ q, (f q).guarded = e.apply q.guarded)
    (hg : ∀ t s, (g t s).guarded = (s.update t.1 f hu).guarded) :
    Edits (fun t => withOnline t.1 (g t)) e where
  guarded t s := by
    cases h : s.get t.1 with
    | none => rw [withOnline_of_none h, edit_of_offline h]
    | some q => rw [withOnline_of_some h, hg, guarded_update_edit hu fun q _ => hf q]
  ok t s h := by
    obtain ⟨q, hq⟩ := Option.isSome_iff_exists.1 h
    exact ⟨_, _, withOnline_of_some hq _⟩

/-- A call whose reply is caught and turned into a note. -/
theorem Edits.attempt {α β : Type} {f : Uuid × String → Cmd α} {e : Edit} (h : Edits f e)
    {k : Uuid × String → Except String α → Cmd β} (hk : ∀ t r, ∃ b, k t r = pure b) :
    Edits (fun t => (f t).attempt >>= k t) e where
  guarded t s := by
    have hpure : ∀ r s, (k t r s).2 = s := by
      intro r s
      obtain ⟨b, hb⟩ := hk t r
      rw [hb, Call.pure_apply]
    rw [Call.bind_snd_of_pure hpure, Call.attempt_snd, h.guarded]
  ok t s hs := by
    obtain ⟨a, s', hok⟩ := h.ok t s hs
    obtain ⟨b, hb⟩ := hk t (.ok a)
    exact ⟨b, s', by rw [Call.bind_of_ok (Call.attempt_of_ok hok), hb, Call.pure_apply]⟩

theorem edits_setGamemode (gm : GameMode) : Edits (fun t => setGamemode t.1 gm) (.gamemode gm) :=
  edits_withOnline (f := Player.setGamemode gm) (fun _ => rfl) (fun _ => rfl) fun _ _ => rfl

theorem edits_setHealth (health : Float32) :
    Edits (fun t => setHealth t.1 health) (.health fun _ => Server.maxF32 health 0) :=
  edits_withOnline (f := Player.setHealth health) (fun _ => rfl) (fun _ => rfl) fun _ _ => rfl

theorem edits_clearInventory :
    Edits (fun t => clearInventory t.1) (.inventory fun _ => Inventory.new) :=
  edits_withOnline (f := Player.clearInventory) (fun _ => rfl) (fun _ => rfl) fun _ _ => rfl

theorem edits_addItemToPlayer (item : BlockState) (count : Nat) :
    Edits (fun t => addItemToPlayer t.1 item count) (.give item count) where
  guarded t s := by
    have h : Edits (fun t => withOnline t.1 fun s => s.update t.1 (Player.addItem item count))
        (.give item count) :=
      edits_withOnline (f := Player.addItem item count) (fun _ => rfl) (fun _ => rfl) fun _ _ => rfl
    rw [← h.guarded t s]
    simp only [addItemToPlayer, liftM_quiet, Call.bind_apply, read_call]
    split <;> simp_all
  ok t s hs := by
    obtain ⟨q, hq⟩ := Option.isSome_iff_exists.1 hs
    simp only [addItemToPlayer, liftM_quiet, Call.bind_apply, read_call, withOnline_of_some hq]
    exact ⟨_, _, rfl⟩

theorem edits_giveOne (item : BlockState) (itemName : String) (count : Nat) :
    Edits (giveOne item itemName count) (.give item count) :=
  (edits_addItemToPlayer item count).attempt fun _ r => by cases r <;> exact ⟨_, rfl⟩

theorem edits_clearOne : Edits clearOne (.inventory fun _ => Inventory.new) :=
  edits_clearInventory.attempt fun _ r => by cases r <;> exact ⟨_, rfl⟩

theorem edits_damageOne (amount : Float32) : Edits (damageOne amount) (.damage amount) where
  guarded t s := by
    cases h : s.get t.1 with
    | none =>
        rw [edit_of_offline h]
        simp [damageOne, Call.bind_apply, h]
    | some p =>
        have hrun : damageOne amount t s =
            setHealth t.1 (Server.maxF32 (p.health - amount) 0) s := by
          simp [damageOne, Call.bind_apply, h]
        rw [hrun, setHealth, withOnline_of_some h]
        refine guarded_update_edit (f := Player.setHealth _) (fun _ => rfl) fun q hq => ?_
        obtain rfl : p = q := Option.some.inj (h.symm.trans hq)
        rfl
  ok t s hs := by
    obtain ⟨p, hp⟩ := Option.isSome_iff_exists.1 hs
    simp only [damageOne, liftM_quiet, Call.bind_apply, read_call, hp, setHealth,
      withOnline_of_some hp]
    exact ⟨_, _, rfl⟩

theorem sendTitle_attempt (u : Uuid) (action : Int) (text : String) (s : Server) :
    ∃ r s', (sendTitle u action text).attempt.call s = (.ok r, s') ∧ s'.guarded = s.guarded := by
  rw [Keeping.attempt_call]
  cases h : s.get u with
  | none => exact ⟨_, _, Call.attempt_of_err (withPlayer_of_none h _), rfl⟩
  | some q => exact ⟨_, _, Call.attempt_of_ok (withPlayer_of_some h _), rfl⟩

/-- What `/enchant` does to a player with something in hand. -/
theorem enchantOne_of_held {name : String} {level : Nat} {t : Uuid × String} {s : Server}
    {q : Player} (hq : s.get t.1 = some q) (hheld : q.inventory.held.isSome) :
    ∃ s', enchantOne name level t s = (.ok "enchanted", s') ∧
      s'.guarded = (s.update t.1 (Player.setHeldNbt (some (enchantNbt name level)))).guarded := by
  obtain ⟨item, hitem⟩ := Option.isSome_iff_exists.1 hheld
  obtain ⟨r, s', hsend, hguarded⟩ := sendTitle_attempt t.1 2 (enchantTitle name level)
    (s.update t.1 (Player.setHeldNbt (some (enchantNbt name level))))
  refine ⟨s', ?_, hguarded⟩
  simp only [enchantOne, liftM_quiet, Call.bind_apply, read_call, hq, Option.bind_some, hitem,
    updateHeldItemNbt, Call.modify_apply, hsend, Call.pure_apply]

theorem enchantOne_of_empty {name : String} {level : Nat} {t : Uuid × String} {s : Server}
    (h : (s.get t.1).bind (fun q => q.inventory.held) = none) :
    enchantOne name level t s = (.ok "", s) := by
  simp only [enchantOne, liftM_quiet, Call.bind_apply, read_call, h, Call.pure_apply]

theorem edits_enchantOne (name : String) (level : Nat) :
    Edits (enchantOne name level) (.enchant name level) where
  guarded t s := by
    cases h : s.get t.1 with
    | none => rw [enchantOne_of_empty (by rw [h]; rfl), edit_of_offline h]
    | some q =>
        by_cases hheld : q.inventory.held.isSome
        · obtain ⟨s', hrun, hguarded⟩ := enchantOne_of_held h hheld
          rw [hrun, hguarded]
          refine guarded_update_edit (f := Player.setHeldNbt _) (fun _ => rfl) fun r hr => ?_
          obtain rfl : q = r := Option.some.inj (h.symm.trans hr)
          simp [Edit.enchant, Edit.apply, Player.guarded, Player.setHeldNbt, hheld]
        · have hnone : q.inventory.held = none := by simpa using hheld
          rw [enchantOne_of_empty (by rw [h]; exact hnone)]
          refine (edit_of_fixed fun r hr => ?_).symm
          obtain rfl : q = r := Option.some.inj (h.symm.trans hr)
          simp [Edit.enchant, Edit.apply, Player.guarded, hheld]
  ok t s hs := by
    cases h : (s.get t.1).bind fun q => q.inventory.held with
    | none => exact ⟨_, _, enchantOne_of_empty h⟩
    | some item =>
        obtain ⟨q, hq⟩ := Option.isSome_iff_exists.1 hs
        rw [hq] at h
        obtain ⟨s', hrun, _⟩ := enchantOne_of_held hq (Option.isSome_iff_exists.2 ⟨item, h⟩)
        exact ⟨_, s', hrun⟩

/-! ## Calls that do an effect -/

/-- The call does the effect to the guarded state. -/
def Does {α : Type} (c : Cmd α) (s : Server) (e : Effect) : Prop :=
  (c s).2.guarded = e.apply s.guarded

section Does

variable {α β : Type} {s : Server} {e : Effect}

theorem does_quiet (x : Quiet α) (s : Server) : Does x.call s .none := x.keeps s

theorem does_read {f : Server → α} {k : α → Cmd β} (hk : Does (k (f s)) s e) :
    Does ((read f).call >>= k) s e := hk

theorem does_orFail_some {a : α} {error : String} {k : α → Cmd β} (hk : Does (k a) s e) :
    Does ((orFail (some a) error).call >>= k) s e := hk

/-- What follows the effect is quiet. -/
theorem Does.bind {x : Cmd α} {k : α → Cmd β} (hx : Does x s e)
    (hk : ∀ a t, Does (k a) t .none) : Does (x >>= k) s e := by
  unfold Does at hx ⊢
  rw [← hx, Call.bind_apply]
  split
  · rename_i a s' h
    rw [h]
    exact hk a s'
  all_goals
    rename_i h
    rw [h]

end Does

/-! ## Loops over targets -/

theorem get_guarded (s : Server) (u : Uuid) :
    s.guarded.get u = (s.get u).map Player.guarded := by
  unfold GuardedServer.get Server.guarded Server.get Players.get
  rw [List.find?_map]
  rfl

/-- An edit takes nobody off the list of players. -/
theorem isSome_get_of_edit {s s' : Server} {us : List Uuid} {e : Edit}
    (h : s'.guarded = s.guarded.edit us e.apply) (u : Uuid) :
    (s'.get u).isSome = (s.get u).isSome := by
  have hget := congrArg (fun g => (g.get u).isSome) h
  simpa [get_guarded, GuardedServer.get_edit e.apply_uuid] using hget

/-- **A loop over targets edits each of them once.** -/
theorem collect_guarded {α : Type} {f : Uuid × String → Cmd α} {e : Edit} (hf : Edits f e)
    {targets : List (Uuid × String)} {s : Server} (hnodup : (targets.map Prod.fst).Nodup)
    (hres : Resolvable s targets) :
    (Call.collect f targets s).2.guarded = s.guarded.edit (targets.map Prod.fst) e.apply := by
  induction targets generalizing s with
  | nil => exact (GuardedServer.edit_nil _ _).symm
  | cons t targets ih =>
      rw [List.map_cons, List.nodup_cons] at hnodup
      rw [Call.collect_cons]
      by_cases ht : (s.get t.1).isSome
      · obtain ⟨a, s', hrun⟩ := hf.ok t s ht
        have hs' : s'.guarded = s.guarded.edit [t.1] e.apply := by rw [← hf.guarded t s, hrun]
        have hres' : Resolvable s' targets := by
          rcases hres with hres | hres
          · refine Or.inl fun u hu => ?_
            rw [isSome_get_of_edit hs']
            exact hres u (List.mem_cons_of_mem t hu)
          · exact Or.inr (Nat.le_of_succ_le hres)
        rw [Call.bind_of_ok hrun, Call.bind_snd_of_pure fun _ _ => rfl, ih hnodup.2 hres', hs',
          GuardedServer.edit_edit e.apply_uuid hnodup.1, List.map_cons]
      · -- an offline target is the only one
        have hnil : targets = [] := by
          rcases hres with hres | hres
          · exact absurd (hres t List.mem_cons_self) ht
          · exact List.eq_nil_of_length_eq_zero (by simpa using hres)
        subst hnil
        have hlast : ∀ b s, (Call.collect f [] >>= fun bs => pure (b :: bs) : Cmd (List α)) s =
            (.ok [b], s) := fun _ _ => rfl
        rw [Call.bind_snd_of_pure fun b s => congrArg Prod.snd (hlast b s), hf.guarded]
        rfl

section Targets

variable {α β : Type} {f : Uuid × String → Cmd α} {e : Edit} (host : Host) (ctx : CommandContext)
  (s : Server)

theorem does_of_no_targets {target none : String} {k : List (Uuid × String) → Cmd β}
    (h : playerTargets host s ctx.source target = []) :
    Does ((someTargets host ctx target none).call >>= k) s .none := by
  rw [Does, Call.bind_of_err (someTargets_of_nil h none)]
  rfl

theorem does_of_targets {target none : String} {k : List (Uuid × String) → Cmd β} {e : Effect}
    (h : playerTargets host s ctx.source target ≠ [])
    (hk : Does (k (playerTargets host s ctx.source target)) { s with draws := s.draws + 2 } e) :
    Does ((someTargets host ctx target none).call >>= k) s e := by
  rw [Does, Call.bind_of_ok (someTargets_of_ne_nil h none)]
  exact hk

/-- The targets of a selector, edited one by one. -/
theorem does_someTargets (hf : Edits f e) (target none : String)
    {k : List (Uuid × String) → List α → Cmd β} (hk : ∀ targets bs t, Does (k targets bs) t .none) :
    Does ((someTargets host ctx target none).call >>= fun targets => Call.collect f targets >>=
      k targets) s (.targets (playerTargets host s ctx.source target) e) := by
  by_cases h : playerTargets host s ctx.source target = []
  · rw [h]
    exact (does_of_no_targets host ctx s h).trans (GuardedServer.edit_nil _ _).symm
  · refine does_of_targets host ctx s h (Does.bind ?_ (hk _))
    exact collect_guarded hf (playerTargets_nodup host s ctx.source target)
      (playerTargets_resolvable host s ctx.source target)

/-- The targets of a command that acts on its source by default, edited one by one. -/
theorem does_targetsOrSelf (hf : Edits f e) (target : Option String) (none : String → String)
    (console : String) {k : List (Uuid × String) → List α → Cmd β}
    (hk : ∀ targets bs t, Does (k targets bs) t .none) :
    Does ((targetsOrSelf host ctx target none console).call >>= fun targets =>
      Call.collect f targets >>= k targets) s (.targets (selfOr host ctx s target) e) := by
  unfold targetsOrSelf selfOr
  cases target with
  | some target => exact does_someTargets host ctx s hf target (none target) hk
  | none =>
      cases ctx.source with
      | player uuid username =>
          have hone : Does (Call.collect f [(uuid, username)]) s (.targets [(uuid, username)] e) :=
            collect_guarded hf (List.nodup_singleton uuid) (Or.inr (Nat.le_refl 1))
          exact hone.bind (hk _)
      | console => exact (GuardedServer.edit_nil _ _).symm
      | rcon => exact (GuardedServer.edit_nil _ _).symm

end Targets

/-! ## Command by command -/

section Run

variable (host : Host) (ctx : CommandContext) (s : Server)

theorem does_setOpCommand (isOp : Bool) (usage now done : String) :
    Does (setOpCommand host ctx isOp usage now done) s (setOpEffect host ctx s isOp) := by
  unfold setOpCommand setOpEffect
  cases ctx.args.head? with
  | none => rfl
  | some target =>
      refine does_orFail_some (does_read ?_)
      rw [Option.bind_some]
      cases hname : s.getByName host target with
      | none => rfl
      | some q =>
          have hset : Does (setOp q.uuid isOp) s (.setOp q.uuid isOp) := by
            have hq : s.get q.uuid = some q :=
              Players.get_eq_some_iff.2 ⟨List.mem_of_find?_eq_some hname, rfl⟩
            rw [Does, setOp, withOnline_of_some hq]
            exact guarded_update_edit (f := Player.setOp isOp) (F := GuardedPlayer.setOp isOp)
              (fun _ => rfl) fun _ _ => rfl
          exact hset.bind fun _ _ => rfl

theorem does_stopCommand : Does stopCommand s .stop := rfl

theorem does_banCommand : Does (banCommand host ctx) s (banEffect host ctx s) := by
  unfold banCommand banEffect
  cases ctx.args.head? with
  | none => rfl
  | some target =>
      refine does_orFail_some (does_read ?_)
      dsimp only
      cases s.getByName host target with
      | none => rfl
      | some q => rfl

theorem does_banIpCommand :
    Does (banIpCommand host ctx) s (offlineEffect host .ban ctx.args.head?) := by
  unfold banIpCommand offlineEffect
  cases ctx.args.head? with
  | none => rfl
  | some target => rfl

/-- To unban a player who is not banned is an error and does nothing. -/
theorem does_unbanCommand (usage was : String) (done : String → Uuid → String) :
    Does (unbanCommand host ctx usage was done) s
      (offlineEffect host .unban ctx.args.head?) := by
  unfold unbanCommand offlineEffect
  cases ctx.args.head? with
  | none => rfl
  | some target =>
      refine does_orFail_some (does_read ?_)
      cases h : s.banned.contains (host.offlineUuid target) with
      | true => rfl
      | false =>
          have hfilter : s.banned.filter (· ≠ host.offlineUuid target) = s.banned := by
            refine List.filter_eq_self.2 fun u hu => ?_
            have hne : u ≠ host.offlineUuid target := by
              rintro rfl
              exact Bool.false_ne_true (h.symm.trans (List.contains_iff_mem.2 hu))
            exact decide_eq_true hne
          show s.guarded = { s.guarded with banned := s.banned.filter (· ≠ host.offlineUuid target) }
          rw [hfilter]
          rfl

theorem does_whitelistCommand :
    Does (whitelistCommand host ctx) s (whitelistEffect host ctx) := by
  unfold whitelistCommand whitelistEffect offlineEffect
  generalize ctx.argOr 0 "list" = sub
  split
  · cases ctx.args[1]? with
    | none => rfl
    | some player => rfl
  · cases ctx.args[1]? with
    | none => rfl
    | some player => rfl
  · rfl
  · rfl
  · rfl
  · split <;> first | rfl | contradiction

theorem does_gamemodeCommand :
    Does (gamemodeCommand host ctx) s (gamemodeEffect host ctx s) := by
  unfold gamemodeCommand gamemodeEffect
  cases ctx.args.head? with
  | none => rfl
  | some modeStr =>
      refine does_orFail_some ?_
      rw [Option.map_some]
      cases parseGamemode host modeStr with
      | error e => rfl
      | ok mode =>
          exact does_targetsOrSelf host ctx s (edits_setGamemode mode) _ _ _ fun _ _ _ => rfl

theorem does_killCommand :
    Does (killCommand host ctx) s (.targets (selfOr host ctx s ctx.args.head?)
      (.health fun _ => Server.maxF32 0 0)) := by
  unfold killCommand
  exact does_targetsOrSelf host ctx s (edits_setHealth 0) _ _ _ fun _ _ _ => rfl

theorem does_giveCommand : Does (giveCommand host ctx) s (giveEffect host ctx s) := by
  unfold giveCommand giveEffect
  cases ctx.args[0]? with
  | none => rfl
  | some target =>
      cases ctx.args[1]? with
      | none => rfl
      | some name =>
          refine does_orFail_some (does_orFail_some ?_)
          rw [Option.bind_some]
          dsimp only
          cases host.resolveItem (normalizeItemName host name) with
          | none => rfl
          | some item =>
              refine does_orFail_some ?_
              exact does_someTargets host ctx s (edits_giveOne item _ _) _ _ fun _ _ _ => rfl

theorem does_clearCommand : Does (clearCommand host ctx) s (clearEffect host ctx s) := by
  unfold clearCommand clearEffect
  cases clearTarget ctx with
  | none => rfl
  | some target =>
      refine does_orFail_some ?_
      exact does_someTargets host ctx s edits_clearOne _ _ fun _ _ _ => rfl

theorem does_enchantCommand : Does (enchantCommand host ctx) s (enchantEffect host ctx s) := by
  unfold enchantCommand enchantEffect
  by_cases hlen : ctx.args.length < 2
  · rw [if_pos hlen, if_pos hlen]
    rfl
  · rw [if_neg hlen, if_neg hlen]
    dsimp only
    cases host.findEnchantment (host.toLowercase (ctx.arg 1)) with
    | false =>
        -- the targets are resolved before the enchantment is looked up
        exact does_quiet (someTargets host ctx _ _ >>= fun _ => fail _) s
    | true => exact does_someTargets host ctx s (edits_enchantOne _ _) _ _ fun _ _ _ => rfl

theorem does_damageCommand : Does (damageCommand host ctx) s (damageEffect host ctx s) := by
  unfold damageCommand damageEffect
  by_cases hlen : ctx.args.length < 2
  · rw [if_pos hlen, if_pos hlen]
    rfl
  · rw [if_neg hlen, if_neg hlen]
    cases host.parseF32 (ctx.arg 1) with
    | none => rfl
    | some amount =>
        refine does_orFail_some ?_
        exact does_someTargets host ctx s (edits_damageOne amount) _ _ fun _ _ _ => rfl

theorem does_itemCommand : Does (itemCommand host ctx) s (itemEffect host ctx s) := by
  unfold itemCommand itemEffect
  by_cases hlen : ctx.args.length < 5
  · rw [if_pos hlen, if_pos hlen]
    rfl
  · rw [if_neg hlen, if_neg hlen]
    dsimp only
    cases ctx.args[5]? with
    | none => rfl
    | some itemName =>
        dsimp only
        cases parseNat 255 (ctx.arg 3).toList with
        | none => rfl
        | some slot =>
            refine does_orFail_some ?_
            cases host.resolveItem itemName with
            | none => rfl
            | some item =>
                refine does_orFail_some ?_
                exact does_someTargets host ctx s (edits_giveOne item _ _) _ _ fun _ _ _ => rfl

theorem does_attempt_setGamemode (t : Uuid × String) (gm : GameMode) :
    Does (setGamemode t.1 gm).attempt s (.targets [t] (.gamemode gm)) := by
  rw [Does, Call.attempt_snd]
  exact (edits_setGamemode gm).guarded t s

theorem does_spectateCommand :
    Does (spectateCommand host ctx) s (spectateEffect host ctx s) := by
  unfold spectateCommand spectateEffect
  cases ctx.args.head? with
  | none => rfl
  | some target =>
      refine does_orFail_some ?_
      dsimp only
      by_cases h : playerTargets host s ctx.source target = []
      · rw [if_pos h]
        exact does_of_no_targets host ctx s h
      · rw [if_neg h]
        refine does_of_targets host ctx s h ?_
        obtain ⟨t, ts, hts⟩ := List.exists_cons_of_ne_nil h
        rw [hts]
        cases ctx.source with
        | player uuid username =>
            refine (does_attempt_setGamemode _ (uuid, username) .spectator).bind fun _ u => ?_
            refine does_read ?_
            cases u.get t.1 with
            | none => rfl
            | some p => exact does_quiet ((updatePosition uuid _ _ _).attempt >>= fun _ => pure _) u
        | console => rfl
        | rcon => rfl

end Run

/-- **A guarded command does to the guarded state what its effect does.** -/
theorem run_guarded (host : Host) (ctx : CommandContext) (s : Server) (c : GuardedCommand) :
    Does (c.run host ctx) s (c.effect host ctx s) := by
  cases c with
  | op => exact does_setOpCommand host ctx s true _ _ _
  | deop => exact does_setOpCommand host ctx s false _ _ _
  | stop => exact does_stopCommand s
  | ban => exact does_banCommand host ctx s
  | pardon => exact does_unbanCommand host ctx s _ _ _
  | banIp => exact does_banIpCommand host ctx s
  | pardonIp => exact does_unbanCommand host ctx s _ _ _
  | whitelist => exact does_whitelistCommand host ctx s
  | gamemode => exact does_gamemodeCommand host ctx s
  | give => exact does_giveCommand host ctx s
  | kill => exact does_killCommand host ctx s
  | clear => exact does_clearCommand host ctx s
  | enchant => exact does_enchantCommand host ctx s
  | damage => exact does_damageCommand host ctx s
  | item => exact does_itemCommand host ctx s
  | spectate => exact does_spectateCommand host ctx s

end Apoptotic.Commands
