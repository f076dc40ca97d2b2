import Apoptotic.Command.Server

/-!
# Effects on the guarded state

An abstract machine on the guarded part of the server: an `Effect` gives or takes operator rights,
edits players, bans, writes the whitelist or stops the server.  `Unchanged p` says what player `p`
must leave alone without rights, `Effect.Inert p` when an effect does so.

Principal result: `unchanged_apply_iff` — an effect leaves all that alone exactly if it is inert.
-/

namespace Apoptotic.Commands

/-! ## The abstract machine -/

/-- A change of a player that is not a change of rights. -/
inductive Edit where
  | gamemode (gm : GameMode)
  | health (f : Float32 → Float32)
  | inventory (f : Inventory → Inventory)

def Edit.apply : Edit → GuardedPlayer → GuardedPlayer
  | gamemode gm, q => { q with gamemode := gm }
  | health f, q => { q with health := f q.health }
  | inventory f, q => { q with inventory := f q.inventory }

theorem Edit.apply_uuid (e : Edit) (q : GuardedPlayer) : (e.apply q).uuid = q.uuid := by
  cases e <;> rfl

theorem Edit.apply_isOp (e : Edit) (q : GuardedPlayer) : (e.apply q).isOp = q.isOp := by
  cases e <;> rfl

/-- What others must not change of a player. -/
def GuardedPlayer.view (q : GuardedPlayer) : GameMode × Float32 × Inventory :=
  (q.gamemode, q.health, q.inventory)

def GuardedPlayer.setOp (isOp : Bool) (q : GuardedPlayer) : GuardedPlayer := { q with isOp := isOp }

inductive Effect where
  | none
  | setOp (uuid : Uuid) (isOp : Bool)
  | edit (uuids : List Uuid) (e : Edit)
  | ban (uuid : Uuid)
  | unban (uuid : Uuid)
  | setWhitelistEnabled (enabled : Bool)
  | addWhitelist (uuid : Uuid)
  | removeWhitelist (uuid : Uuid)
  | stop

namespace GuardedServer

def get (g : GuardedServer) (uuid : Uuid) : Option GuardedPlayer :=
  g.players.find? (·.uuid = uuid)

/-- Change every player in `uuids`. -/
def edit (uuids : List Uuid) (f : GuardedPlayer → GuardedPlayer) (g : GuardedServer) :
    GuardedServer :=
  { g with players := g.players.map fun q => if q.uuid ∈ uuids then f q else q }

theorem get_edit {f : GuardedPlayer → GuardedPlayer} (hf : ∀ q, (f q).uuid = q.uuid)
    (uuids : List Uuid) (g : GuardedServer) (u : Uuid) :
    (g.edit uuids f).get u = (g.get u).map fun q => if u ∈ uuids then f q else q := by
  have huuid : ∀ q : GuardedPlayer, (if q.uuid ∈ uuids then f q else q).uuid = q.uuid := by
    intro q
    split
    · exact hf q
    · rfl
  unfold get edit
  rw [List.find?_map]
  have hcomp : ((fun q : GuardedPlayer => decide (q.uuid = u)) ∘
      fun q => if q.uuid ∈ uuids then f q else q) = fun q => decide (q.uuid = u) := by
    funext q
    simp only [Function.comp, huuid]
  rw [hcomp]
  cases h : g.players.find? fun q => decide (q.uuid = u) with
  | none => rfl
  | some q =>
      have hq : q.uuid = u := by simpa using List.find?_some h
      simp [hq]

theorem edit_nil (f : GuardedPlayer → GuardedPlayer) (g : GuardedServer) : g.edit [] f = g := by
  simp [edit]

/-- Changing one player and then others is changing them together. -/
theorem edit_edit {f : GuardedPlayer → GuardedPlayer} (hf : ∀ q, (f q).uuid = q.uuid)
    {u : Uuid} {us : List Uuid} (hu : u ∉ us) (g : GuardedServer) :
    (g.edit [u] f).edit us f = g.edit (u :: us) f := by
  unfold edit
  congr 1
  rw [List.map_map]
  refine List.map_congr_left fun q _ => ?_
  simp only [Function.comp, List.mem_cons, List.not_mem_nil, or_false]
  by_cases hq : q.uuid = u
  · simp [hq, hf, hu]
  · simp [hq]

end GuardedServer

def Effect.apply : Effect → GuardedServer → GuardedServer
  | none, g => g
  | setOp uuid isOp, g => g.edit [uuid] (GuardedPlayer.setOp isOp)
  | edit uuids e, g => g.edit uuids e.apply
  | ban uuid, g => { g with banned := g.banned.insert uuid }
  | unban uuid, g => { g with banned := g.banned.filter (· ≠ uuid) }
  | setWhitelistEnabled enabled, g => { g with whitelist := (enabled, g.whitelist.2) }
  | addWhitelist uuid, g => { g with whitelist := (g.whitelist.1, g.whitelist.2.insert uuid) }
  | removeWhitelist uuid, g =>
      { g with whitelist := (g.whitelist.1, g.whitelist.2.filter (· ≠ uuid)) }
  | stop, g => { g with running := false }

/-! ## What a player must not change -/

/-- **Nothing that needs rights changed**: the operators, the bans, the whitelist, whether the
server runs, and game mode, health and inventory of everyone but `p`. -/
structure Unchanged (p : Uuid) (g g' : GuardedServer) : Prop where
  operators : ∀ u, (g'.get u).map GuardedPlayer.isOp = (g.get u).map GuardedPlayer.isOp
  others : ∀ u, u ≠ p → (g'.get u).map GuardedPlayer.view = (g.get u).map GuardedPlayer.view
  bans : ∀ u, u ∈ g'.banned ↔ u ∈ g.banned
  whitelistEnabled : g'.whitelist.1 = g.whitelist.1
  whitelist : ∀ u, u ∈ g'.whitelist.2 ↔ u ∈ g.whitelist.2
  running : g'.running = g.running

namespace Unchanged

theorem refl (p : Uuid) (g : GuardedServer) : Unchanged p g g :=
  ⟨fun _ => rfl, fun _ _ => rfl, fun _ => Iff.rfl, rfl, fun _ => Iff.rfl, rfl⟩

theorem trans {p : Uuid} {g g' g'' : GuardedServer} (h : Unchanged p g g')
    (h' : Unchanged p g' g'') : Unchanged p g g'' where
  operators u := (h'.operators u).trans (h.operators u)
  others u hu := (h'.others u hu).trans (h.others u hu)
  bans u := (h'.bans u).trans (h.bans u)
  whitelistEnabled := h'.whitelistEnabled.trans h.whitelistEnabled
  whitelist u := (h'.whitelist u).trans (h.whitelist u)
  running := h'.running.trans h.running

theorem symm {p : Uuid} {g g' : GuardedServer} (h : Unchanged p g g') : Unchanged p g' g where
  operators u := (h.operators u).symm
  others u hu := (h.others u hu).symm
  bans u := (h.bans u).symm
  whitelistEnabled := h.whitelistEnabled.symm
  whitelist u := (h.whitelist u).symm
  running := h.running.symm

end Unchanged

/-- The effect finds everything as it would make it. -/
def Effect.Inert (p : Uuid) (g : GuardedServer) : Effect → Prop
  | none => True
  | setOp uuid isOp => ∀ q, g.get uuid = some q → q.isOp = isOp
  | edit uuids e => ∀ u ∈ uuids, u ≠ p → ∀ q, g.get u = some q → e.apply q = q
  | ban uuid => uuid ∈ g.banned
  | unban uuid => uuid ∉ g.banned
  | setWhitelistEnabled enabled => g.whitelist.1 = enabled
  | addWhitelist uuid => uuid ∈ g.whitelist.2
  | removeWhitelist uuid => uuid ∉ g.whitelist.2
  | stop => g.running = false

theorem Edit.view_apply_iff (e : Edit) (q : GuardedPlayer) :
    (e.apply q).view = q.view ↔ e.apply q = q := by
  constructor
  · intro h
    cases e <;> simp_all [apply, GuardedPlayer.view]
  · exact congrArg GuardedPlayer.view

theorem unchanged_edit_iff {p : Uuid} {g : GuardedServer} {f : GuardedPlayer → GuardedPlayer}
    (hf : ∀ q, (f q).uuid = q.uuid) (us : List Uuid) :
    Unchanged p g (g.edit us f) ↔ ∀ u ∈ us, ∀ q, g.get u = some q →
      (f q).isOp = q.isOp ∧ (u ≠ p → (f q).view = q.view) := by
  constructor
  · intro h u hu q hq
    have hop := h.operators u
    rw [g.get_edit hf, hq, Option.map_some, if_pos hu] at hop
    refine ⟨Option.some.inj hop, fun hp => ?_⟩
    have hview := h.others u hp
    rw [g.get_edit hf, hq, Option.map_some, if_pos hu] at hview
    exact Option.some.inj hview
  · intro h
    refine ⟨fun u => ?_, fun u hp => ?_, fun _ => Iff.rfl, rfl, fun _ => Iff.rfl, rfl⟩
    · rw [g.get_edit hf]
      cases hq : g.get u with
      | none => rfl
      | some q =>
          by_cases hu : u ∈ us
          · simp [hu, (h u hu q hq).1]
          · simp [hu]
    · rw [g.get_edit hf]
      cases hq : g.get u with
      | none => rfl
      | some q =>
          by_cases hu : u ∈ us
          · simp [hu, (h u hu q hq).2 hp]
          · simp [hu]

/-- **An effect changes nothing that `p` must not change exactly if it is inert.** -/
theorem unchanged_apply_iff (p : Uuid) (g : GuardedServer) (e : Effect) :
    Unchanged p g (e.apply g) ↔ e.Inert p g := by
  cases e with
  | none => exact iff_of_true (Unchanged.refl p g) trivial
  | setOp uuid isOp =>
      have huuid : ∀ q, (GuardedPlayer.setOp isOp q).uuid = q.uuid := fun _ => rfl
      refine (unchanged_edit_iff huuid [uuid]).trans ?_
      simp [Effect.Inert, GuardedPlayer.setOp, GuardedPlayer.view, eq_comm]
  | edit uuids e =>
      refine (unchanged_edit_iff e.apply_uuid uuids).trans ?_
      simp only [e.apply_isOp, e.view_apply_iff, true_and, Effect.Inert]
      exact ⟨fun h u hu hp q hq => h u hu q hq hp, fun h u hu q hq hp => h u hu hp q hq⟩
  | ban uuid =>
      constructor
      · intro h
        exact (h.bans uuid).1 List.mem_insert_self
      · intro h
        exact { Unchanged.refl p g with
          bans := fun u => by simp_all [Effect.apply, Effect.Inert] }
  | unban uuid =>
      constructor
      · intro h hmem
        have := (h.bans uuid).2 hmem
        simp [Effect.apply] at this
      · intro h
        refine { Unchanged.refl p g with bans := fun u => ?_ }
        simp only [Effect.apply, List.mem_filter, decide_eq_true_eq]
        exact ⟨And.left, fun hu => ⟨hu, fun hne => h (hne ▸ hu)⟩⟩
  | setWhitelistEnabled enabled =>
      constructor
      · intro h
        exact h.whitelistEnabled.symm
      · intro h
        exact { Unchanged.refl p g with whitelistEnabled := h.symm }
  | addWhitelist uuid =>
      constructor
      · intro h
        exact (h.whitelist uuid).1 List.mem_insert_self
      · intro h
        exact { Unchanged.refl p g with
          whitelist := fun u => by simp_all [Effect.apply, Effect.Inert] }
  | removeWhitelist uuid =>
      constructor
      · intro h hmem
        have := (h.whitelist uuid).2 hmem
        simp [Effect.apply] at this
      · intro h
        refine { Unchanged.refl p g with whitelist := fun u => ?_ }
        simp only [Effect.apply, List.mem_filter, decide_eq_true_eq]
        exact ⟨And.left, fun hu => ⟨hu, fun hne => h (hne ▸ hu)⟩⟩
  | stop =>
      constructor
      · intro h
        exact h.running.symm
      · intro h
        exact { Unchanged.refl p g with running := h.symm }

end Apoptotic.Commands
