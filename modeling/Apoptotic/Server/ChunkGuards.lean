import Apoptotic.Command.WorldCommands
import Apoptotic.Lib.Guards
import Apoptotic.World.Redstone

/-!
# Guards on the chunk store

The chunk store is a `DashMap`: `get` takes a shared guard on the shard of the chunk, `get_mut` an
exclusive one, and both wait also when the chunk is not there.  For each path of the server that
takes a guard while it holds one, the tree of its guards: `/clone`, the environmental damage tick,
breaking, waxing and placing a block, the redstone tick, and the readers that look at blocks under
the guard of a chunk.  All other paths hold one guard at a time.

Principal result: `completes_iff_harmless` — which paths get all their guards, whatever the shards.
-/

namespace Apoptotic.ChunkGuards

open Guards Guards.Uses
open Redstone (Pos World Engine)

def get (cp : ChunkPos) : Guard ChunkPos := ⟨.shared, cp⟩

def getMut (cp : ChunkPos) : Guard ChunkPos := ⟨.exclusive, cp⟩

/-- `if let Some(chunk) = chunk_store.get(&cp) { body }` -/
def withGet (w : World) (cp : ChunkPos) : (ReachableChunk → Uses ChunkPos) → Uses ChunkPos :=
  withEntry (get cp) (w cp)

/-- `if let Some(mut chunk) = chunk_store.get_mut(&cp) { body }` -/
def withGetMut (w : World) (cp : ChunkPos) : (ReachableChunk → Uses ChunkPos) → Uses ChunkPos :=
  withEntry (getMut cp) (w cp)

/-! ## Cloning -/

/-- The arguments of `/clone`. -/
structure CloneArgs where
  x1 : Int
  y1 : Int
  z1 : Int
  x2 : Int
  y2 : Int
  z2 : Int
  dx : Int
  dy : Int
  dz : Int

def cloneArgs (args : List String) : Option CloneArgs := do
  let x1 ← args[0]?.bind Commands.parseI32
  let y1 ← args[1]?.bind Commands.parseI32
  let z1 ← args[2]?.bind Commands.parseI32
  let x2 ← args[3]?.bind Commands.parseI32
  let y2 ← args[4]?.bind Commands.parseI32
  let z2 ← args[5]?.bind Commands.parseI32
  let dx ← args[6]?.bind Commands.parseI32
  let dy ← args[7]?.bind Commands.parseI32
  let dz ← args[8]?.bind Commands.parseI32
  some ⟨x1, y1, z1, x2, y2, z2, dx, dy, dz⟩

namespace CloneArgs

variable (a : CloneArgs)

def total : Nat :=
  Commands.u64 (Commands.i32 (Commands.absI32 (Commands.i32 (a.x2 - a.x1 + 1)) *
    Commands.absI32 (Commands.i32 (a.y2 - a.y1 + 1)) *
    Commands.absI32 (Commands.i32 (a.z2 - a.z1 + 1))))

/-- The cells of the box that are copied: inside the world with their copy. -/
def cells : List (Int × Int) :=
  (Commands.intRange (min a.x1 a.x2) (max a.x1 a.x2)).flatMap fun x =>
    (Commands.intRange (min a.y1 a.y2) (max a.y1 a.y2)).flatMap fun y =>
      (Commands.intRange (min a.z1 a.z2) (max a.z1 a.z2)).filterMap fun z =>
        if (Commands.height? y).isSome ∧ (Commands.height? (Commands.i32 (y + a.dy))).isSome then
          some (x, z)
        else none

/-- A cell is read under the guard of its chunk while the chunk of the copy is written. -/
def cellUses (w : World) (c : Int × Int) : Uses ChunkPos :=
  withGet w (Commands.chunkOf c.1 c.2) fun _ =>
    touch (getMut (Commands.chunkOf (Commands.i32 (c.1 + a.dx)) (Commands.i32 (c.2 + a.dz))))

end CloneArgs

/-- `CloneCommand::execute` -/
def cloneUses (w : World) (chunkStore : Bool) (args : List String) : Uses ChunkPos :=
  match cloneArgs args with
  | none => done
  | some a =>
      if a.total > 32768 then done
      else if !chunkStore then done
      else each (a.cellUses w) a.cells

/-! ## Environmental damage -/

/-- A player of the environmental damage tick: `position.x as i32` and `position.z as i32`. -/
structure Bather where
  uuid : Commands.Uuid
  x : BitVec 32
  z : BitVec 32

/-- `get_armor_enchant_level`, with `level` the level that the text on an item gives. -/
def getArmorEnchantLevel (level : ByteArray → String → Nat) (inventory : Option Commands.Inventory)
    (slot : Nat) (enchantName : String) : Nat :=
  match inventory.bind fun i => (i.items[slot]?).join.bind Commands.ItemStack.nbt with
  | some nbt => level nbt enchantName
  | none => 0

/-- The main inventory has 36 slots: the slot that the tick takes for the boots is none of them. -/
theorem getArmorEnchantLevel_boots (level : ByteArray → String → Nat)
    (inventory : Option Commands.Inventory) (name : String) :
    getArmorEnchantLevel level inventory 36 name = 0 := by
  unfold getArmorEnchantLevel
  cases inventory with
  | none => rfl
  | some i =>
      have hslot : i.items[36]? = none := Vector.getElem?_eq_none (Nat.le_refl 36)
      rw [Option.bind_some, hslot]
      rfl

/-- One player of `tick_environmental_damage`. -/
def batherUses (w : World) (level : ByteArray → String → Nat)
    (inventory : Commands.Uuid → Option Commands.Inventory) (p : Bather) : Uses ChunkPos :=
  let cp := Redstone.chunkOf ⟨p.x, 0, p.z⟩
  withGet w cp fun _ =>
    if 0 < getArmorEnchantLevel level (inventory p.uuid) 36 "frost_walker" then touch (getMut cp)
    else done

/-! ## Changing a block -/

/-- The chunks that `propagate_lighting_cross_chunk` goes to. -/
def lightNeighbours (cp : ChunkPos) (x z : Fin 16) : List ChunkPos :=
  (if x.val = 0 then [⟨cp.x - 1, cp.z⟩] else []) ++
    (if x.val = 15 then [⟨cp.x + 1, cp.z⟩] else []) ++
    (if z.val = 0 then [⟨cp.x, cp.z - 1⟩] else []) ++
    (if z.val = 15 then [⟨cp.x, cp.z + 1⟩] else [])

def propagateLightingCrossChunk (cp : ChunkPos) (x z : Fin 16) : Uses ChunkPos :=
  each (fun n => touch (getMut n)) (lightNeighbours cp x z)

/-- A change of a block with the lighting after it, all under the guard of the chunk. -/
def editUses (w : World) (p : Pos) : Uses ChunkPos :=
  let cp := Redstone.chunkOf p
  withGetMut w cp fun _ =>
    propagateLightingCrossChunk cp (Redstone.low p.x) (Redstone.low p.z)

/-- `block_break` -/
def blockBreak (w : World) (p : Pos) : Uses ChunkPos := editUses w p

/-- The end of the use-item-on handler: "Normal block placement". -/
def placeBlock (w : World) (p : Pos) : Uses ChunkPos := editUses w p

/-- The keys of `wax_map`. -/
def waxable (id : Nat) : Bool := (322 ≤ id ∧ id ≤ 329) ∨ id = 368

/-- The start of the use-item-on handler, under the guard of the chunk that is clicked: honeycomb
waxes a block.  None of these blocks opens a window or returns earlier. -/
def waxBlock (w : World) (p : Pos) (held : Nat) : Uses ChunkPos :=
  withGet w (Redstone.chunkOf p) fun chunk =>
    if held = 898 ∧ waxable (Redstone.blockIn chunk p).id.toNat then
      touch (getMut (Redstone.chunkOf p))
    else done

/-! ## Redstone -/

/-- The chunk of an observer and the one ahead of it. -/
def observerUses (w : World) (o : Pos) : Uses ChunkPos :=
  withGet w (Redstone.chunkOf o) fun _ => touch (get (Redstone.chunkOf (o + ⟨0, 0, 1⟩)))

/-- The scan of the observers.  One that fires is inserted into the map that is being iterated, in
the shard whose guard the iterator holds: the tick goes no further. -/
def scanObservers (w : World) : List (Pos × BitVec 32) → Uses ChunkPos
  | [] => done
  | o :: rest =>
      observerUses w o.1 ++ (if Redstone.observerFires w o then done else scanObservers w rest)

/-- The two chunks of a piston that pushes. -/
def extendUses (w : World) (p d : Pos) : Uses ChunkPos :=
  let front := p + d
  match Redstone.height? front.y with
  | none => done
  | some _ =>
      withGetMut w (Redstone.chunkOf front) fun chunk =>
        let pushed := Redstone.blockIn chunk front
        if Redstone.isAir pushed ∨ pushed.id = 266#32 then done
        else
          let beyond := front + d
          match Redstone.height? beyond.y with
          | none => done
          | some _ => touch (getMut (Redstone.chunkOf beyond))

/-- The chunk behind a piston that pulls. -/
def pullUses (p d : Pos) : Uses ChunkPos :=
  match Redstone.height? (p - d).y with
  | none => done
  | some _ => touch (getMut (Redstone.chunkOf (p - d)))

variable (count : Pos → Nat)

/-- What a component with a new signal does, under the guard of its own chunk. -/
def reactUses (s : Redstone.State) (p : Pos) (id effective : Nat) : Uses ChunkPos :=
  let signals := Function.update s.engine.signalMap p (some effective)
  let d := Redstone.detectPistonFacing signals p
  (if 0 < effective then
    each (fun n => touch (get (Redstone.chunkOf n))) (Redstone.neighbours p) else done) ++
  (if id ∈ [137, 138] ∧ 0 < effective then extendUses s.world p d else done) ++
  (if id = 138 ∧ effective = 0 then pullUses p d else done) ++
  (if Redstone.bulbToggles s p id effective then touch (getMut (Redstone.chunkOf p)) else done)

/-- One position of the propagation. -/
def visitUses (s : Redstone.State) (p : Pos) : Uses ChunkPos :=
  withGet s.world (Redstone.chunkOf p) fun _ =>
    match Redstone.reaction count s p with
    | none => done
    | some (id, effective) => reactUses s p id effective

/-- The positions that a tick visits. -/
def tickTurns (w : World) (e : Engine) : List (Redstone.State × Pos) :=
  Redstone.turns count Redstone.MAX_NODES_PER_TICK (Redstone.startOf w e)

/-- `RedstoneEngine::tick` -/
def tickUses (w : World) (e : Engine) : Uses ChunkPos :=
  scanObservers w e.observerStates ++
    if e.observerStates.any (Redstone.observerFires w) then done
    else each (fun t => visitUses count t.1 t.2) (tickTurns count w e)

/-! ## When the guards of a part do not clash -/

section

variable {held : List Mode} {w : World} {cp : ChunkPos} {body : ReachableChunk → Uses ChunkPos}

/-- Without guards around it, a reader goes on exactly when its body does. -/
theorem unnested_withGet :
    (withGet w cp body).Unnested rwLock [] ↔
      ∀ chunk, w cp = some chunk → (body chunk).Unnested rwLock [.shared] :=
  (unnested_withEntry _ _ _).trans (and_iff_right (List.forall_mem_nil _))

/-- Without guards around it, a writer goes on exactly when its body does. -/
theorem unnested_withGetMut :
    (withGetMut w cp body).Unnested rwLock [] ↔
      ∀ chunk, w cp = some chunk → (body chunk).Unnested rwLock [.exclusive] :=
  (unnested_withEntry _ _ _).trans (and_iff_right (List.forall_mem_nil _))

/-- A lock that is held refuses a writer. -/
theorem rwLock_exclusive (m : Mode) : rwLock m .exclusive = true := by
  cases m <;> rfl

/-- Under a guard, no `get_mut` is granted. -/
theorem not_unnested_getMut (m : Mode) :
    ¬ (touch (getMut cp)).Unnested rwLock (m :: held) := by
  intro h
  have hm := (unnested_touch _).1 h m List.mem_cons_self
  exact Bool.false_ne_true (hm.symm.trans (rwLock_exclusive m))

/-- It waits also when the chunk is not there. -/
theorem not_unnested_withGetMut (m : Mode) :
    ¬ (withGetMut w cp body).Unnested rwLock (m :: held) := by
  intro h
  have hm := ((unnested_withEntry _ _ _).1 h).1 m List.mem_cons_self
  exact Bool.false_ne_true (hm.symm.trans (rwLock_exclusive m))

theorem unnested_get_shared : (touch (get cp)).Unnested rwLock [.shared] := by
  rw [unnested_touch]
  intro m hm
  rw [List.mem_singleton.1 hm]
  rfl

end

theorem unnested_cellUses (a : CloneArgs) (w : World) (c : Int × Int) :
    (a.cellUses w c).Unnested rwLock [] ↔ w (Commands.chunkOf c.1 c.2) = none := by
  unfold CloneArgs.cellUses
  rw [unnested_withGet]
  constructor
  · intro h
    cases hw : w (Commands.chunkOf c.1 c.2) with
    | none => rfl
    | some chunk => exact absurd (h chunk hw) (not_unnested_getMut _)
  · intro hw chunk hchunk
    rw [hw] at hchunk
    cases hchunk

theorem unnested_batherUses (w : World) (level : ByteArray → String → Nat)
    (inventory : Commands.Uuid → Option Commands.Inventory) (p : Bather) :
    (batherUses w level inventory p).Unnested rwLock [] := by
  unfold batherUses
  rw [unnested_withGet]
  intro chunk _
  rw [getArmorEnchantLevel_boots, if_neg (Nat.lt_irrefl 0)]
  exact unnested_done

/-- The cell is on an edge of its chunk. -/
def OnEdge (p : Pos) : Prop :=
  (Redstone.low p.x).val = 0 ∨ (Redstone.low p.x).val = 15 ∨
    (Redstone.low p.z).val = 0 ∨ (Redstone.low p.z).val = 15

theorem lightNeighbours_eq_nil (cp : ChunkPos) (x z : Fin 16) :
    lightNeighbours cp x z = [] ↔ ¬ (x.val = 0 ∨ x.val = 15 ∨ z.val = 0 ∨ z.val = 15) := by
  unfold lightNeighbours
  simp only [List.append_eq_nil_iff, ite_eq_right_iff, List.cons_ne_nil, imp_false]
  tauto

/-- **A change of a block in the middle of its chunk, or in no chunk.** -/
theorem unnested_editUses (w : World) (p : Pos) :
    (editUses w p).Unnested rwLock [] ↔ (w (Redstone.chunkOf p)).isSome → ¬ OnEdge p := by
  unfold editUses
  rw [unnested_withGetMut]
  have hlight : (propagateLightingCrossChunk (Redstone.chunkOf p) (Redstone.low p.x)
      (Redstone.low p.z)).Unnested rwLock [.exclusive] ↔ ¬ OnEdge p := by
    unfold propagateLightingCrossChunk OnEdge
    rw [← lightNeighbours_eq_nil (Redstone.chunkOf p), unnested_each]
    constructor
    · intro h
      exact List.eq_nil_iff_forall_not_mem.2 fun n hn => not_unnested_getMut _ (h n hn)
    · intro h n hn
      rw [h] at hn
      cases hn
  rw [hlight, Option.isSome_iff_exists]
  constructor
  · rintro h ⟨chunk, hchunk⟩
    exact h chunk hchunk
  · intro h chunk hchunk
    exact h ⟨chunk, hchunk⟩

theorem unnested_waxBlock (w : World) (p : Pos) (held : Nat) :
    (waxBlock w p held).Unnested rwLock [] ↔ ∀ chunk, w (Redstone.chunkOf p) = some chunk →
      ¬ (held = 898 ∧ waxable (Redstone.blockIn chunk p).id.toNat) := by
  unfold waxBlock
  rw [unnested_withGet]
  refine forall_congr' fun chunk => imp_congr_right fun _ => ?_
  split
  · rename_i hwax
    exact iff_of_false (not_unnested_getMut _) (not_not_intro hwax)
  · rename_i hwax
    exact iff_of_true unnested_done hwax

/-! ## When the redstone tick goes through -/

theorem unnested_observerUses (w : World) (o : Pos) :
    (observerUses w o).Unnested rwLock [] := by
  unfold observerUses
  rw [unnested_withGet]
  intro chunk _
  exact unnested_get_shared

theorem unnested_scanObservers (w : World) (os : List (Pos × BitVec 32)) :
    (scanObservers w os).Unnested rwLock [] := by
  induction os with
  | nil => exact unnested_done
  | cons o rest ih =>
      unfold scanObservers
      rw [unnested_append]
      refine ⟨unnested_observerUses w o.1, ?_⟩
      split
      · exact unnested_done
      · exact ih

theorem unnested_extendUses (w : World) (p d : Pos) :
    (extendUses w p d).Unnested rwLock [.shared] ↔ ¬ (Redstone.height? (p + d).y).isSome := by
  unfold extendUses
  dsimp only
  cases Redstone.height? (p + d).y with
  | none => exact iff_of_true unnested_done Bool.false_ne_true
  | some y => exact iff_of_false (not_unnested_withGetMut _) (not_not_intro rfl)

theorem unnested_pullUses (p d : Pos) :
    (pullUses p d).Unnested rwLock [.shared] ↔ ¬ (Redstone.height? (p - d).y).isSome := by
  unfold pullUses
  cases Redstone.height? (p - d).y with
  | none => exact iff_of_true unnested_done Bool.false_ne_true
  | some y => exact iff_of_false (not_unnested_getMut _) (not_not_intro rfl)

theorem unnested_ite {c : Prop} [Decidable c] {u : Uses ChunkPos} {held : List Mode} {q : Prop}
    (h : u.Unnested rwLock held ↔ ¬ q) :
    (if c then u else done).Unnested rwLock held ↔ ¬ (c ∧ q) := by
  split
  · rename_i hc
    rw [h, and_iff_right hc]
  · rename_i hc
    exact iff_of_true unnested_done fun hcq => hc hcq.1

theorem unnested_neighbours (p : Pos) :
    (each (fun n => touch (get (Redstone.chunkOf n))) (Redstone.neighbours p)).Unnested rwLock
      [.shared] :=
  (unnested_each _ _).2 fun _ _ => unnested_get_shared

/-- **A visit gets its guards exactly when the component does not act.** -/
theorem unnested_visitUses (s : Redstone.State) (p : Pos) :
    (visitUses count s p).Unnested rwLock [] ↔ ¬ Redstone.Acts count s p := by
  unfold visitUses
  rw [unnested_withGet]
  cases hr : Redstone.reaction count s p with
  | none =>
      refine iff_of_true (fun _ _ => unnested_done) ?_
      rintro ⟨id, effective, hsome, -⟩
      rw [hr] at hsome
      cases hsome
  | some r =>
      obtain ⟨id, effective⟩ := r
      have hchunk : ∃ chunk, s.world (Redstone.chunkOf p) = some chunk := by
        cases hw : s.world (Redstone.chunkOf p) with
        | some chunk => exact ⟨chunk, rfl⟩
        | none =>
            unfold Redstone.reaction at hr
            rw [hw] at hr
            cases hr
      have hbody : (∀ chunk, s.world (Redstone.chunkOf p) = some chunk →
          (reactUses s p id effective).Unnested rwLock [.shared]) ↔
          (reactUses s p id effective).Unnested rwLock [.shared] := by
        obtain ⟨chunk, hw⟩ := hchunk
        exact ⟨fun h => h chunk hw, fun h _ _ => h⟩
      have hspread : (if 0 < effective then
          each (fun n => touch (get (Redstone.chunkOf n))) (Redstone.neighbours p)
          else done).Unnested rwLock [.shared] := by
        split
        · exact unnested_neighbours p
        · exact unnested_done
      have hacts : Redstone.Acts count s p ↔
          (let d := Redstone.detectPistonFacing
            (Function.update s.engine.signalMap p (some effective)) p
           (id ∈ [137, 138] ∧ 0 < effective ∧ (Redstone.height? (p + d).y).isSome) ∨
            (id = 138 ∧ effective = 0 ∧ (Redstone.height? (p - d).y).isSome) ∨
            Redstone.bulbToggles s p id effective) := by
        constructor
        · rintro ⟨id', effective', hsome, hact⟩
          rw [hr] at hsome
          cases hsome
          exact hact
        · intro hact
          exact ⟨id, effective, hr, hact⟩
      dsimp only at hacts ⊢
      rw [hbody, hacts]
      unfold reactUses
      dsimp only
      rw [unnested_append, unnested_append, unnested_append, and_iff_right hspread,
        unnested_ite (unnested_extendUses s.world p _), unnested_ite (unnested_pullUses p _),
        unnested_ite (q := True)
          (iff_of_false (not_unnested_getMut _) (not_not_intro trivial)),
        and_true, not_or, not_or, and_assoc, and_assoc, and_assoc]

theorem unnested_tickUses (w : World) (e : Engine) :
    (tickUses count w e).Unnested rwLock [] ↔
      e.observerStates.any (Redstone.observerFires w) ∨
        ∀ t ∈ tickTurns count w e, ¬ Redstone.Acts count t.1 t.2 := by
  unfold tickUses
  rw [unnested_append, and_iff_right (unnested_scanObservers w e.observerStates)]
  split
  · rename_i hfire
    exact iff_of_true unnested_done (Or.inl hfire)
  · rename_i hfire
    rw [or_iff_right hfire, unnested_each]
    exact forall₂_congr fun t _ => unnested_visitUses count t.1 t.2

/-- **A tick that is never refused a guard moves no block**, unless an observer stops it. -/
theorem tick_world_of_unnested {w : World} {e : Engine}
    (hquiet : ¬ e.observerStates.any (Redstone.observerFires w))
    (h : (tickUses count w e).Unnested rwLock []) : (Redstone.tick count w e).world = w := by
  rcases (unnested_tickUses count w e).1 h with hfire | hturns
  · exact absurd hfire hquiet
  · unfold tickTurns at hturns
    unfold Redstone.tick
    dsimp only
    rw [Redstone.propagate_world hturns]
    rfl

/-! ## The paths -/

/-- What the paths read. -/
structure Setting where
  world : World
  /-- The entities on a block. -/
  count : Pos → Nat
  /-- The level that the text on an item gives. -/
  level : ByteArray → String → Nat
  inventory : Commands.Uuid → Option Commands.Inventory

/-- The paths that use the chunk store. -/
inductive Path where
  | clone (chunkStore : Bool) (args : List String)
  | environmentalDamage (players : List Bather)
  | blockBreak (p : Pos)
  | waxBlock (p : Pos) (held : Nat)
  | placeBlock (p : Pos)
  | redstoneTick (e : Engine)
  | registerObserver (p : Pos)
  /-- `tick_physics` and `tick_crops` look at blocks under the guard of a chunk. -/
  | scanChunk (cp : ChunkPos) (looked : List ChunkPos)
  /-- The other paths: no guard is held at a request. -/
  | oneAtATime (guards : List (Guard ChunkPos))

def Path.uses (c : Setting) : Path → Uses ChunkPos
  | clone chunkStore args => cloneUses c.world chunkStore args
  | environmentalDamage players => each (batherUses c.world c.level c.inventory) players
  | blockBreak p => ChunkGuards.blockBreak c.world p
  | waxBlock p held => ChunkGuards.waxBlock c.world p held
  | placeBlock p => ChunkGuards.placeBlock c.world p
  | redstoneTick e => tickUses c.count c.world e
  | registerObserver p => observerUses c.world p
  | scanChunk cp looked => withGet c.world cp fun _ => each (fun q => touch (get q)) looked
  | oneAtATime guards => each touch guards

/-- The inputs on which a path is safe. -/
def Path.Harmless (c : Setting) : Path → Prop
  | clone chunkStore args => ∀ a, cloneArgs args = some a → a.total ≤ 32768 → chunkStore = true →
      ∀ cell ∈ a.cells, c.world (Commands.chunkOf cell.1 cell.2) = none
  | environmentalDamage _ => True
  | blockBreak p => (c.world (Redstone.chunkOf p)).isSome → ¬ OnEdge p
  | waxBlock p held => ∀ chunk, c.world (Redstone.chunkOf p) = some chunk →
      ¬ (held = 898 ∧ waxable (Redstone.blockIn chunk p).id.toNat)
  | placeBlock p => (c.world (Redstone.chunkOf p)).isSome → ¬ OnEdge p
  | redstoneTick e => e.observerStates.any (Redstone.observerFires c.world) ∨
      ∀ t ∈ tickTurns c.count c.world e, ¬ Redstone.Acts c.count t.1 t.2
  | registerObserver _ => True
  | scanChunk _ _ => True
  | oneAtATime _ => True

theorem unnested_cloneUses (w : World) (chunkStore : Bool) (args : List String) :
    (cloneUses w chunkStore args).Unnested rwLock [] ↔
      ∀ a, cloneArgs args = some a → a.total ≤ 32768 → chunkStore = true →
        ∀ cell ∈ a.cells, w (Commands.chunkOf cell.1 cell.2) = none := by
  unfold cloneUses
  cases cloneArgs args with
  | none => exact iff_of_true unnested_done (fun _ h => nomatch h)
  | some a =>
      have hall : (∀ a', some a = some a' → a'.total ≤ 32768 → chunkStore = true →
          ∀ cell ∈ a'.cells, w (Commands.chunkOf cell.1 cell.2) = none) ↔
          (a.total ≤ 32768 → chunkStore = true →
            ∀ cell ∈ a.cells, w (Commands.chunkOf cell.1 cell.2) = none) := by
        constructor
        · intro h
          exact h a rfl
        · rintro h a' ⟨⟩
          exact h
      rw [hall]
      dsimp only
      split
      · rename_i hbig
        exact iff_of_true unnested_done fun hle => absurd hle (Nat.not_le.2 hbig)
      · rename_i hsmall
        rw [imp_iff_right (Nat.not_lt.1 hsmall)]
        cases chunkStore with
        | false => exact iff_of_true unnested_done (fun h => nomatch h)
        | true =>
            rw [imp_iff_right rfl]
            change (each (a.cellUses w) a.cells).Unnested rwLock [] ↔ _
            rw [unnested_each]
            exact forall₂_congr fun cell _ => unnested_cellUses a w cell

theorem unnested_uses (c : Setting) (p : Path) :
    (p.uses c).Unnested rwLock [] ↔ p.Harmless c := by
  cases p with
  | clone chunkStore args => exact unnested_cloneUses c.world chunkStore args
  | environmentalDamage players =>
      refine iff_of_true ((unnested_each _ _).2 fun p _ => ?_) trivial
      exact unnested_batherUses c.world c.level c.inventory p
  | blockBreak p => exact unnested_editUses c.world p
  | waxBlock p held => exact unnested_waxBlock c.world p held
  | placeBlock p => exact unnested_editUses c.world p
  | redstoneTick e => exact unnested_tickUses c.count c.world e
  | registerObserver p => exact iff_of_true (unnested_observerUses c.world p) trivial
  | scanChunk cp looked =>
      refine iff_of_true (unnested_withGet.2 fun chunk _ => ?_) trivial
      exact (unnested_each _ _).2 fun q _ => unnested_get_shared
  | oneAtATime guards =>
      refine iff_of_true ((unnested_each _ _).2 fun g _ => ?_) trivial
      exact (unnested_touch g).2 (List.forall_mem_nil _)

/-- **Whatever the shards, a path gets all its guards exactly on the harmless inputs.** -/
theorem completes_iff_harmless (c : Setting) (p : Path) :
    (∀ shard : ChunkPos → Nat, Completes rwLock shard (p.uses c)) ↔ p.Harmless c :=
  (forall_completes_iff (p.uses c)).trans (unnested_uses c p)

/-- Breaking the corner block of a loaded chunk asks for the chunk to the west under the guard of
its own: with both in one shard it waits for itself. -/
theorem not_forall_completes : ¬ ∀ (c : Setting) (p : Path) (shard : ChunkPos → Nat),
    Completes rwLock shard (p.uses c) := by
  intro h
  have hcorner := h ⟨fun cp => some ⟨Chunk.new cp, .new cp⟩, fun _ => 0, fun _ _ => 0,
    fun _ => none⟩ (.blockBreak ⟨0#32, 64#32, 0#32⟩) fun _ => 0
  revert hcorner
  unfold Completes
  decide

end Apoptotic.ChunkGuards
