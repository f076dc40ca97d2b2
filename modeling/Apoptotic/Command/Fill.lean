import Apoptotic.Command.Clone

/-!
# `/fill`

What the command makes of a box named by two corners.  It orders the corners along x and z, but
along y it only clamps them, and it counts the cells in 32 and 64 bits.

Principal results: `fillCommand_of_some` — the command is a loop over the clamped box;
`foldl_fillCell` — the loop sets the loaded cells; `fills_iff` — when the command does what it is
for, however the box is named.
-/

namespace Apoptotic.Commands

open Calls
open Redstone (Site World idIn idIn_writeAt loaded_writeAt Registered writeAt)

/-! ## The command as a loop -/

structure FillArgs where
  x1 : Int
  y1 : Int
  z1 : Int
  x2 : Int
  y2 : Int
  z2 : Int
  blockName : String
  block : BlockState

/-- The arguments of `/fill`, if they parse. -/
def fillArgs? (host : Host) (ctx : CommandContext) : Option FillArgs := do
  let x1 ← (ctx.args[0]?).bind parseI32
  let y1 ← (ctx.args[1]?).bind parseI32
  let z1 ← (ctx.args[2]?).bind parseI32
  let x2 ← (ctx.args[3]?).bind parseI32
  let y2 ← (ctx.args[4]?).bind parseI32
  let z2 ← (ctx.args[5]?).bind parseI32
  let blockName ← ctx.args[6]?
  let block ← host.resolveItem blockName
  pure ⟨x1, y1, z1, x2, y2, z2, blockName, block⟩

namespace FillArgs

variable (a : FillArgs)

/-- The cells of the columns of the box at some heights. -/
def cellsAt (ys : List Height) : List CloneCell :=
  (intRange (min a.x1 a.x2) (max a.x1 a.x2)).flatMap fun x =>
    (intRange (min a.z1 a.z2) (max a.z1 a.z2)).flatMap fun z => ys.map fun y => ⟨x, y, z⟩

/-- The heights that the command goes through. -/
def clampedHeights : List Height := (intRange (clampY a.y1) (clampY a.y2)).filterMap height?

/-- The heights of the box inside the world. -/
def heights : List Height := (intRange (min a.y1 a.y2) (max a.y1 a.y2)).filterMap height?

/-- The cells of the box inside the world. -/
def inWorld : List CloneCell := a.cellsAt a.heights

def width : Int := max a.x1 a.x2 - min a.x1 a.x2 + 1

def depth : Int := max a.z1 a.z2 - min a.z1 a.z2 + 1

/-- `ymax - ymin + 1` -/
def layers : Int := clampY a.y2 - clampY a.y1 + 1

def volume : Nat := u64 (i32 a.width) * u64 (i32 a.layers) * u64 (i32 a.depth) % 2 ^ 64

end FillArgs

/-- One cell of `/fill` on the chunks and the count. -/
def fillCell (block : BlockState) (t : World × Nat) (c : CloneCell) : World × Nat :=
  if (t.1 c.source.chunk).isSome then (writeAt t.1 c.source block, t.2 + 1) else t

theorem call_fillCell (block : BlockState) (c : CloneCell) (n : Nat) (s : Server) :
    (do
      if ← writeBlock c.x c.y c.z block then pure (.yield (n + 1))
      else pure (.yield n) : Quiet (ForInStep Nat)).call s =
        (.ok (.yield (fillCell block (s.chunks, n) c).2),
          { s with chunks := (fillCell block (s.chunks, n) c).1 }) := by
  unfold writeBlock fillCell writeAt CloneCell.source
  simp only [Keeping.bind_call, Call.bind_apply, read, Keeping.gets_call]
  cases hchunk : s.chunks (chunkOf c.x c.z) with
  | none => rfl
  | some chunk =>
      rfl

/-- A loop whose iterations carry out the steps of a fold carries out the fold. -/
theorem call_forIn {β : Type} {step : World × Nat → β → World × Nat}
    {body : β → Nat → Quiet (ForInStep Nat)}
    (h : ∀ b n s, (body b n).call s = (.ok (.yield (step (s.chunks, n) b).2),
      { s with chunks := (step (s.chunks, n) b).1 })) (l : List β) (n : Nat) (s : Server) :
    (forIn l n body).call s = (.ok (l.foldl step (s.chunks, n)).2,
      { s with chunks := (l.foldl step (s.chunks, n)).1 }) := by
  induction l generalizing n s with
  | nil => rfl
  | cons b l ih =>
      rw [List.forIn_cons, Keeping.bind_call, Call.bind_apply, h]
      exact ih _ _

/-- An inner loop is an iteration of the loop around it. -/
theorem call_yield {x : Quiet Nat} {s s' : Server} {n : Nat} (h : x.call s = (.ok n, s')) :
    ((do let n ← x; pure (.yield n) : Quiet (ForInStep Nat)).call s) = (.ok (.yield n), s') := by
  rw [Keeping.bind_call, Call.bind_apply, h]
  rfl

/-- The loops of `/fill`, which count the cells. -/
def fillLoops (a : FillArgs) : Quiet Nat :=
  forIn (intRange (min a.x1 a.x2) (max a.x1 a.x2)) 0 fun x count => do
    let count ← forIn (intRange (min a.z1 a.z2) (max a.z1 a.z2)) count fun z count => do
      let count ← forIn ((intRange (clampY a.y1) (clampY a.y2)).filterMap height?) count
        fun y count => do
          if ← writeBlock x y z a.block then pure (.yield (count + 1))
          else pure (.yield count)
      pure (.yield count)
    pure (.yield count)

theorem call_fillLoops (a : FillArgs) (s : Server) :
    let t := (a.cellsAt a.clampedHeights).foldl (fillCell a.block) (s.chunks, 0)
    (fillLoops a).call s = (.ok t.2, { s with chunks := t.1 }) := by
  have hsplit (t : World × Nat) : (a.cellsAt a.clampedHeights).foldl (fillCell a.block) t =
      (intRange (min a.x1 a.x2) (max a.x1 a.x2)).foldl (fun t x =>
        (intRange (min a.z1 a.z2) (max a.z1 a.z2)).foldl (fun t z =>
          ((intRange (clampY a.y1) (clampY a.y2)).filterMap height?).foldl (fun t y =>
            fillCell a.block t ⟨x, y, z⟩) t) t) t := by
    unfold FillArgs.cellsAt FillArgs.clampedHeights
    simp only [List.foldl_flatMap, List.foldl_map]
  dsimp only
  rw [hsplit]
  apply call_forIn
  intro x n s
  apply call_yield
  apply call_forIn
  intro z n s
  apply call_yield
  apply call_forIn
  intro y n s
  exact call_fillCell a.block ⟨x, y, z⟩ n s

/-- What the command does with arguments that parse. -/
def fillBox (ctx : CommandContext) (a : FillArgs) : Quiet String :=
  if a.volume > 32768 then
    fail s!"Too many blocks ({a.volume} > 32768). Use a smaller region."
  else if !ctx.chunkStore then fail "Chunk store not available"
  else do
    let count ← fillLoops a
    pure s!"Filled {count} blocks with {a.blockName}"

theorem fillArgs?_eq_some {host : Host} {ctx : CommandContext} {a : FillArgs} :
    fillArgs? host ctx = some a ↔
      ((ctx.args[0]?).bind parseI32 = some a.x1 ∧ (ctx.args[1]?).bind parseI32 = some a.y1 ∧
        (ctx.args[2]?).bind parseI32 = some a.z1) ∧
      ((ctx.args[3]?).bind parseI32 = some a.x2 ∧ (ctx.args[4]?).bind parseI32 = some a.y2 ∧
        (ctx.args[5]?).bind parseI32 = some a.z2) ∧
      ctx.args[6]? = some a.blockName ∧ host.resolveItem a.blockName = some a.block := by
  unfold fillArgs?
  obtain ⟨x1, y1, z1, x2, y2, z2, name, block⟩ := a
  generalize (ctx.args[0]?).bind parseI32 = c0
  generalize (ctx.args[1]?).bind parseI32 = c1
  generalize (ctx.args[2]?).bind parseI32 = c2
  generalize (ctx.args[3]?).bind parseI32 = c3
  generalize (ctx.args[4]?).bind parseI32 = c4
  generalize (ctx.args[5]?).bind parseI32 = c5
  simp only [Option.bind_eq_bind, Option.bind_eq_some_iff, Option.pure_def, Option.some.injEq,
    FillArgs.mk.injEq]
  constructor
  · rintro ⟨_, h0, _, h1, _, h2, _, h3, _, h4, _, h5, _, h6, _, h7, rfl, rfl, rfl, rfl, rfl, rfl, rfl,
      rfl⟩
    exact ⟨⟨h0, h1, h2⟩, ⟨h3, h4, h5⟩, h6, h7⟩
  · rintro ⟨⟨h0, h1, h2⟩, ⟨h3, h4, h5⟩, h6, h7⟩
    exact ⟨_, h0, _, h1, _, h2, _, h3, _, h4, _, h5, _, h6, _, h7, rfl, rfl, rfl, rfl, rfl, rfl, rfl,
      rfl⟩

/-- A coordinate that parses is read. -/
theorem fillCoordinate_bind {ctx : CommandContext} {i : Nat} {n : Int}
    (h : (ctx.args[i]?).bind parseI32 = some n) (missing invalid : String) {α : Type}
    (f : Int → Quiet α) : (fillCoordinate ctx i missing invalid >>= f) = f n := by
  obtain ⟨s, hs, hn⟩ := Option.bind_eq_some_iff.1 h
  unfold fillCoordinate
  rw [hs, orFail_bind_of_some rfl, hn]
  rfl

/-- With arguments that parse the command goes through the box. -/
theorem fillCommand_of_some {host : Host} {ctx : CommandContext} {a : FillArgs}
    (h : fillArgs? host ctx = some a) : fillCommand host ctx = fillBox ctx a := by
  obtain ⟨⟨h0, h1, h2⟩, ⟨h3, h4, h5⟩, h6, h7⟩ := fillArgs?_eq_some.1 h
  unfold fillCommand
  rw [fillCoordinate_bind h0, fillCoordinate_bind h1, fillCoordinate_bind h2,
    fillCoordinate_bind h3, fillCoordinate_bind h4, fillCoordinate_bind h5, orFail_bind_of_some h6,
    orFail_bind_of_some h7]
  unfold fillBox fillLoops FillArgs.volume FillArgs.width FillArgs.layers FillArgs.depth
  rfl

/-! ## Setting cells -/

/-- The chunk of a cell is loaded. -/
def loadedAt (w : World) (c : CloneCell) : Bool := (w c.source.chunk).isSome

/-- One cell more is set, if its chunk is loaded. -/
theorem idIn_fillCell {block : BlockState} (hblock : block.id.toNat < 2 ^ GLOBAL_BITS) {w : World}
    (hw : Registered w) (cell : CloneCell) (n : Nat) :
    Registered (fillCell block (w, n) cell).1 ∧
      loadedAt (fillCell block (w, n) cell).1 = loadedAt w ∧
      (fillCell block (w, n) cell).2 = n + (if loadedAt w cell then 1 else 0) ∧
      ∀ c, idIn (fillCell block (w, n) cell).1 c =
        if c = cell.source then (idIn w c).map fun _ => block.id else idIn w c := by
  unfold fillCell loadedAt
  dsimp only
  by_cases hloaded : (w cell.source.chunk).isSome
  · rw [if_pos hloaded, if_pos hloaded]
    exact ⟨hw.writeAt cell.source hblock,
      funext fun c => loaded_writeAt w cell.source block c.source.chunk, rfl,
      idIn_writeAt hw cell.source hblock⟩
  · rw [if_neg hloaded, if_neg hloaded]
    refine ⟨hw, rfl, rfl, fun c => ?_⟩
    by_cases hc : c = cell.source
    · have hnone : idIn w c = none := by
        unfold idIn
        rw [hc, Option.not_isSome_iff_eq_none.1 hloaded]
        rfl
      rw [if_pos hc, hnone]
      rfl
    · rw [if_neg hc]

/-- **The loop sets the loaded cells and counts them.** -/
theorem foldl_fillCell {block : BlockState} (hblock : block.id.toNat < 2 ^ GLOBAL_BITS)
    (cells : List CloneCell) {w : World} (hw : Registered w) (n : Nat) :
    (cells.foldl (fillCell block) (w, n)).2 = n + cells.countP (loadedAt w) ∧
      ∀ c, idIn (cells.foldl (fillCell block) (w, n)).1 c =
        if c ∈ cells.map CloneCell.source then (idIn w c).map fun _ => block.id else idIn w c := by
  induction cells generalizing w n with
  | nil => exact ⟨rfl, fun c => (if_neg List.not_mem_nil).symm⟩
  | cons cell cells ih =>
      obtain ⟨hreg, hloaded, hcount, hids⟩ := idIn_fillCell hblock hw cell n
      obtain ⟨hcounts, hidss⟩ := ih hreg (fillCell block (w, n) cell).2
      rw [List.foldl_cons, List.countP_cons]
      refine ⟨?_, fun c => ?_⟩
      · rw [hcounts, hcount, hloaded]
        omega
      · rw [hidss, hids, List.map_cons]
        by_cases hmem : c ∈ cells.map CloneCell.source
        · rw [if_pos hmem, if_pos (List.mem_cons_of_mem _ hmem)]
          by_cases hc : c = cell.source
          · rw [if_pos hc, Option.map_map]
            rfl
          · rw [if_neg hc]
        · rw [if_neg hmem]
          by_cases hc : c = cell.source
          · rw [if_pos hc, if_pos (hc ▸ List.mem_cons_self)]
          · rw [if_neg hc, if_neg]
            rintro (_ | ⟨_, h⟩)
            · exact hc rfl
            · exact hmem h

/-- Where no chunk is loaded nothing is set. -/
theorem foldl_fillCell_unloaded (block : BlockState) {cells : List CloneCell} {w : World}
    (h : ∀ c ∈ cells, loadedAt w c = false) (n : Nat) :
    cells.foldl (fillCell block) (w, n) = (w, n) := by
  induction cells with
  | nil => rfl
  | cons c cells ih =>
      have hc : ¬ (w c.source.chunk).isSome = true := ne_true_of_eq_false (h c List.mem_cons_self)
      rw [List.foldl_cons]
      unfold fillCell
      dsimp only
      rw [if_neg hc]
      exact ih fun c' hc' => h c' (List.mem_cons_of_mem _ hc')

/-! ## The names of a box -/

/-- Two arguments change places. -/
def swapArgs (i j : Nat) (args : List String) : List String :=
  match args[i]?, args[j]? with
  | some s, some t => (args.set i t).set j s
  | _, _ => args

def CommandContext.swap (ctx : CommandContext) (i j : Nat) : CommandContext :=
  { ctx with args := swapArgs i j ctx.args }

namespace FillArgs

variable (a : FillArgs)

def swapX : FillArgs := { a with x1 := a.x2, x2 := a.x1 }

def swapY : FillArgs := { a with y1 := a.y2, y2 := a.y1 }

def swapZ : FillArgs := { a with z1 := a.z2, z2 := a.z1 }

/-- The volume and what it is computed from fit in their types. -/
structure NoOverflow : Prop where
  width : a.width < 2 ^ 31
  layers : 0 ≤ a.layers
  depth : a.depth < 2 ^ 31
  volume : a.width * a.layers * a.depth < 2 ^ 64

/-- No chunk of the box is loaded. -/
def Unloaded (w : World) : Prop :=
  ∀ x z, min a.x1 a.x2 ≤ x → x ≤ max a.x1 a.x2 → min a.z1 a.z2 ≤ z → z ≤ max a.z1 a.z2 →
    w (chunkOf x z) = none

end FillArgs

/-- `/fill` on a server, with arguments that parse. -/
structure FillRun where
  host : Host
  ctx : CommandContext
  server : Server
  args : FillArgs
  parses : fillArgs? host ctx = some args
  registered : Registered server.chunks
  resolves : args.block.id.toNat < 2 ^ GLOBAL_BITS

namespace FillRun

variable (r : FillRun)

def outcomeOf (ctx : CommandContext) : Reply String String × Server :=
  (fillCommand r.host ctx).call r.server

/-- The loaded cells of the box inside the world. -/
def loadedCells : Nat := r.args.inWorld.countP (loadedAt r.server.chunks)

/-- What `/fill` should do: however the box is named, it computes the volume without an overflow and
comes to the same; a large box is refused and changes nothing, and of any other exactly the loaded
cells inside the world are set. -/
structure Fills : Prop where
  fits : r.args.NoOverflow ∧ r.args.swapY.NoOverflow
  swapped : r.outcomeOf (r.ctx.swap 0 3) = r.outcomeOf r.ctx ∧
    r.outcomeOf (r.ctx.swap 1 4) = r.outcomeOf r.ctx ∧
    r.outcomeOf (r.ctx.swap 2 5) = r.outcomeOf r.ctx
  refused : 32768 < r.args.inWorld.length → ∃ e, r.outcomeOf r.ctx = (.err e, r.server)
  filled : r.args.inWorld.length ≤ 32768 → r.ctx.chunkStore = true → ∃ w,
    r.outcomeOf r.ctx = (.ok s!"Filled {r.loadedCells} blocks with {r.args.blockName}",
      { r.server with chunks := w }) ∧
    ∀ c, idIn w c = if c ∈ r.args.inWorld.map CloneCell.source then
      (idIn r.server.chunks c).map fun _ => r.args.block.id else idIn r.server.chunks c

/-- The horizontal sides fit in 32 bits, and the corners are clamped to one layer, which the box
has, or they are clamped to at most two layers of a small box without a loaded chunk. -/
structure Clear : Prop where
  width : r.args.width < 2 ^ 31
  depth : r.args.depth < 2 ^ 31
  layers :
    (clampY r.args.y1 = clampY r.args.y2 ∧
        (r.ctx.chunkStore = true →
          min r.args.y1 r.args.y2 ≤ 319 ∧ -64 ≤ max r.args.y1 r.args.y2)) ∨
      ((clampY r.args.y1 - clampY r.args.y2).natAbs ≤ 1 ∧
        r.args.width * ((clampY r.args.y1 - clampY r.args.y2).natAbs + 1) * r.args.depth ≤ 32768 ∧
        (r.ctx.chunkStore = true → r.args.Unloaded r.server.chunks))

end FillRun

/-! ## Swapped arguments -/

theorem getElem?_swapArgs {args : List String} {i j : Nat} {s t : String} (hi : args[i]? = some s)
    (hj : args[j]? = some t) (m : Nat) :
    (swapArgs i j args)[m]? = if m = j then some s else if m = i then some t else args[m]? := by
  obtain ⟨hilt, -⟩ := List.getElem?_eq_some_iff.1 hi
  obtain ⟨hjlt, -⟩ := List.getElem?_eq_some_iff.1 hj
  unfold swapArgs
  rw [hi, hj]
  dsimp only
  by_cases hmj : m = j
  · rw [if_pos hmj, hmj, List.getElem?_set_self (by rw [List.length_set]; exact hjlt)]
  · rw [if_neg hmj, List.getElem?_set_ne (Ne.symm hmj)]
    by_cases hmi : m = i
    · rw [if_pos hmi, hmi, List.getElem?_set_self hilt]
    · rw [if_neg hmi, List.getElem?_set_ne (Ne.symm hmi)]

section

variable {host : Host} {ctx : CommandContext} {a : FillArgs}

theorem coordinate_swap {i j : Nat} {n m : Int} (hi : (ctx.args[i]?).bind parseI32 = some n)
    (hj : (ctx.args[j]?).bind parseI32 = some m) (k : Nat) :
    ((ctx.swap i j).args[k]?).bind parseI32 =
      if k = j then some n else if k = i then some m else (ctx.args[k]?).bind parseI32 := by
  obtain ⟨s, hs, hn⟩ := Option.bind_eq_some_iff.1 hi
  obtain ⟨t, ht, hm⟩ := Option.bind_eq_some_iff.1 hj
  change ((swapArgs i j ctx.args)[k]?).bind parseI32 = _
  rw [getElem?_swapArgs hs ht]
  by_cases hkj : k = j
  · rw [if_pos hkj, if_pos hkj]
    exact hn
  · rw [if_neg hkj, if_neg hkj]
    by_cases hki : k = i
    · rw [if_pos hki, if_pos hki]
      exact hm
    · rw [if_neg hki, if_neg hki]

/-- The block is not swapped. -/
theorem name_swap {i j : Nat} {n m : Int} (hi : (ctx.args[i]?).bind parseI32 = some n)
    (hj : (ctx.args[j]?).bind parseI32 = some m) (h : i ≠ 6 ∧ j ≠ 6) :
    (ctx.swap i j).args[6]? = ctx.args[6]? := by
  obtain ⟨s, hs, -⟩ := Option.bind_eq_some_iff.1 hi
  obtain ⟨t, ht, -⟩ := Option.bind_eq_some_iff.1 hj
  change (swapArgs i j ctx.args)[6]? = _
  rw [getElem?_swapArgs hs ht, if_neg h.2.symm, if_neg h.1.symm]

theorem fillArgs?_swapX (h : fillArgs? host ctx = some a) :
    fillArgs? host (ctx.swap 0 3) = some a.swapX := by
  obtain ⟨⟨h0, h1, h2⟩, ⟨h3, h4, h5⟩, h6, h7⟩ := fillArgs?_eq_some.1 h
  have hcoord := coordinate_swap h0 h3
  rw [← name_swap h0 h3 (by decide)] at h6
  exact fillArgs?_eq_some.2 ⟨⟨hcoord 0, (hcoord 1).trans h1, (hcoord 2).trans h2⟩,
    ⟨hcoord 3, (hcoord 4).trans h4, (hcoord 5).trans h5⟩, h6, h7⟩

theorem fillArgs?_swapY (h : fillArgs? host ctx = some a) :
    fillArgs? host (ctx.swap 1 4) = some a.swapY := by
  obtain ⟨⟨h0, h1, h2⟩, ⟨h3, h4, h5⟩, h6, h7⟩ := fillArgs?_eq_some.1 h
  have hcoord := coordinate_swap h1 h4
  rw [← name_swap h1 h4 (by decide)] at h6
  exact fillArgs?_eq_some.2 ⟨⟨(hcoord 0).trans h0, hcoord 1, (hcoord 2).trans h2⟩,
    ⟨(hcoord 3).trans h3, hcoord 4, (hcoord 5).trans h5⟩, h6, h7⟩

theorem fillArgs?_swapZ (h : fillArgs? host ctx = some a) :
    fillArgs? host (ctx.swap 2 5) = some a.swapZ := by
  obtain ⟨⟨h0, h1, h2⟩, ⟨h3, h4, h5⟩, h6, h7⟩ := fillArgs?_eq_some.1 h
  have hcoord := coordinate_swap h2 h5
  rw [← name_swap h2 h5 (by decide)] at h6
  exact fillArgs?_eq_some.2 ⟨⟨(hcoord 0).trans h0, (hcoord 1).trans h1, hcoord 2⟩,
    ⟨(hcoord 3).trans h3, (hcoord 4).trans h4, hcoord 5⟩, h6, h7⟩

end

/-! ## The box -/

namespace FillArgs

variable {a : FillArgs}

theorem mem_cellsAt {ys : List Height} {c : CloneCell} : c ∈ a.cellsAt ys ↔
    (min a.x1 a.x2 ≤ c.x ∧ c.x ≤ max a.x1 a.x2) ∧ (min a.z1 a.z2 ≤ c.z ∧ c.z ≤ max a.z1 a.z2) ∧
      c.y ∈ ys := by
  unfold cellsAt
  simp only [List.mem_flatMap, List.mem_map, mem_intRange]
  constructor
  · rintro ⟨x, hx, z, hz, y, hy, rfl⟩
    exact ⟨hx, hz, hy⟩
  · rintro ⟨hx, hz, hy⟩
    exact ⟨c.x, hx, c.z, hz, c.y, hy, rfl⟩

theorem length_intRange (lo hi : Int) : (intRange lo hi).length = (hi - lo + 1).toNat := by
  rw [intRange_eq_map, List.length_map, List.length_range]

theorem length_cellsAt (ys : List Height) :
    ((a.cellsAt ys).length : Int) = a.width * ys.length * a.depth := by
  have hw : ((intRange (min a.x1 a.x2) (max a.x1 a.x2)).length : Int) = a.width := by
    rw [length_intRange, Int.toNat_of_nonneg (by omega)]
    rfl
  have hd : ((intRange (min a.z1 a.z2) (max a.z1 a.z2)).length : Int) = a.depth := by
    rw [length_intRange, Int.toNat_of_nonneg (by omega)]
    rfl
  unfold cellsAt
  simp only [List.length_flatMap, List.length_map, List.map_const', List.sum_replicate_nat]
  push_cast
  rw [hw, hd, mul_assoc, mul_comm (ys.length : Int)]

theorem width_pos (a : FillArgs) : 1 ≤ a.width := by
  unfold width
  omega

theorem depth_pos (a : FillArgs) : 1 ≤ a.depth := by
  unfold depth
  omega

theorem clampY_range (y : Int) : -64 ≤ clampY y ∧ clampY y ≤ 319 := by
  unfold clampY
  split
  · omega
  · split <;> omega

/-- The heights between two bounds. -/
theorem mem_filterMap_height? {lo hi : Int} {y : Height} :
    y ∈ (intRange lo hi).filterMap height? ↔ lo ≤ y ∧ (y : Int) ≤ hi := by
  simp only [List.mem_filterMap, mem_intRange, height?_eq_some]
  constructor
  · rintro ⟨_, hy, rfl⟩
    exact hy
  · intro hy
    exact ⟨y, hy, rfl⟩

theorem nodup_filterMap_height? (lo hi : Int) : ((intRange lo hi).filterMap height?).Nodup := by
  refine List.Nodup.filterMap (fun n m y hn hm => ?_) (nodup_intRange _ _)
  rw [height?_eq_some.1 hn, height?_eq_some.1 hm]

theorem length_filterMap_height? {lo hi : Int} (hlo : -64 ≤ lo) (hhi : hi ≤ 319) :
    ((intRange lo hi).filterMap height?).length = (hi - lo + 1).toNat := by
  rw [← length_intRange, List.filterMap_length_eq_length]
  intro n hn
  have := mem_intRange.1 hn
  unfold height?
  rw [dif_pos (by omega)]
  rfl

/-- The box reaches into the world. -/
def Meets (a : FillArgs) : Prop := min a.y1 a.y2 ≤ 319 ∧ -64 ≤ max a.y1 a.y2

/-- **The heights of a box that reaches into the world lie between the clamped corners.** -/
theorem heights_perm (h : a.Meets) : a.heights.Perm
    ((intRange (min (clampY a.y1) (clampY a.y2)) (max (clampY a.y1) (clampY a.y2))).filterMap
      height?) := by
  refine (List.perm_ext_iff_of_nodup (nodup_filterMap_height? _ _)
    (nodup_filterMap_height? _ _)).2 fun y => ?_
  obtain ⟨hlow, hhigh⟩ := h
  have hy := y.2
  rw [mem_filterMap_height?, mem_filterMap_height?]
  unfold clampY
  omega

theorem length_heights (h : a.Meets) :
    a.heights.length = (clampY a.y1 - clampY a.y2).natAbs + 1 := by
  have h1 := clampY_range a.y1
  have h2 := clampY_range a.y2
  rw [(heights_perm h).length_eq, length_filterMap_height? (by omega) (by omega)]
  omega

theorem heights_of_not_meets (h : ¬ a.Meets) : a.heights = [] := by
  apply List.eq_nil_iff_forall_not_mem.2
  intro y hmem
  have hy := y.2
  have hbox := mem_filterMap_height?.1 hmem
  unfold Meets at h
  omega

theorem length_heights_le (a : FillArgs) :
    a.heights.length ≤ (clampY a.y1 - clampY a.y2).natAbs + 1 := by
  by_cases h : a.Meets
  · exact (length_heights h).le
  · rw [heights_of_not_meets h]
    exact Nat.zero_le _

/-- **Corners clamped to one layer of the box.** -/
theorem heights_eq (h : clampY a.y1 = clampY a.y2) (hmeets : a.Meets) :
    a.heights = a.clampedHeights := by
  have hperm := heights_perm hmeets
  have hlength := length_heights hmeets
  rw [h, min_self, max_self] at hperm
  have hsame : a.heights.Perm a.clampedHeights := by
    unfold clampedHeights
    rw [h]
    exact hperm
  rw [h, sub_self] at hlength
  obtain ⟨y, hy⟩ := List.length_eq_one_iff.1 hlength
  rw [hy] at hsame ⊢
  exact (List.perm_singleton.1 hsame.symm).symm

/-! ## The volume -/

theorem u64_of_nonneg {n : Int} (h : 0 ≤ n) (h' : n < 2 ^ 64) : (u64 n : Int) = n := by
  unfold u64
  omega

/-- **Without an overflow the volume is the product of the sides.** -/
theorem volume_eq (h : a.NoOverflow) : (a.volume : Int) = a.width * a.layers * a.depth := by
  have hw := a.width_pos
  have hd := a.depth_pos
  have h1 := clampY_range a.y1
  have h2 := clampY_range a.y2
  have hl : a.layers ≤ 384 := by
    unfold layers
    omega
  obtain ⟨hwidth, hlayers, hdepth, hvolume⟩ := h
  unfold volume
  rw [i32_eq_of_range (by omega), i32_eq_of_range (by omega), i32_eq_of_range (by omega)]
  push_cast
  rw [u64_of_nonneg (by omega) (by omega), u64_of_nonneg hlayers (by omega),
    u64_of_nonneg (by omega) (by omega)]
  have hpos : 0 ≤ a.width * a.layers * a.depth :=
    mul_nonneg (mul_nonneg (by omega) hlayers) (by omega)
  exact Int.emod_eq_of_lt hpos (by exact_mod_cast hvolume)

theorem product_le {l m : Int} (h : l ≤ m) : a.width * l * a.depth ≤ a.width * m * a.depth := by
  have hw := a.width_pos
  have hd := a.depth_pos
  exact mul_le_mul_of_nonneg_right (mul_le_mul_of_nonneg_left h (by omega)) (by omega)

/-- Two layers never overflow. -/
theorem noOverflow_of_layers (hw : a.width < 2 ^ 31) (hd : a.depth < 2 ^ 31) (h0 : 0 ≤ a.layers)
    (h2 : a.layers ≤ 2) : a.NoOverflow := by
  have hwpos := a.width_pos
  have hdpos := a.depth_pos
  refine ⟨hw, h0, hd, ?_⟩
  calc a.width * a.layers * a.depth ≤ a.width * 2 * a.depth := product_le h2
    _ ≤ 2 ^ 31 * 2 * 2 ^ 31 := by
        apply mul_le_mul (by omega) hd.le (by omega) (by omega)
    _ < 2 ^ 64 := by norm_num

theorem length_inWorld (a : FillArgs) :
    (a.inWorld.length : Int) = a.width * a.heights.length * a.depth := a.length_cellsAt _

/-- The layers of the box with its corners along y swapped. -/
theorem layers_swapY (a : FillArgs) : a.swapY.layers = 2 - a.layers := by
  unfold layers swapY
  dsimp only
  omega

theorem natAbs_layers (a : FillArgs) :
    (clampY a.y1 - clampY a.y2).natAbs = (a.layers - 1).natAbs := by
  unfold layers
  omega

end FillArgs

/-! ## The outcome -/

namespace FillRun

variable (r : FillRun)

/-- What the command comes to with some arguments. -/
def result (a : FillArgs) : Reply String String × Server :=
  if a.volume > 32768 then
    (.err s!"Too many blocks ({a.volume} > 32768). Use a smaller region.", r.server)
  else if r.ctx.chunkStore then
    let t := (a.cellsAt a.clampedHeights).foldl (fillCell a.block) (r.server.chunks, 0)
    (.ok s!"Filled {t.2} blocks with {a.blockName}", { r.server with chunks := t.1 })
  else (.err "Chunk store not available", r.server)

theorem outcomeOf_eq {ctx : CommandContext} {a : FillArgs} (h : fillArgs? r.host ctx = some a)
    (hstore : ctx.chunkStore = r.ctx.chunkStore) : r.outcomeOf ctx = r.result a := by
  unfold outcomeOf result
  rw [fillCommand_of_some h]
  unfold fillBox
  rw [hstore]
  by_cases hv : a.volume > 32768
  · rw [if_pos hv, if_pos hv]
    rfl
  · rw [if_neg hv, if_neg hv]
    cases r.ctx.chunkStore with
    | false => rfl
    | true =>
        simp only [Bool.not_true, Bool.false_eq_true, if_false, if_true, Keeping.bind_call,
          Call.bind_apply]
        rw [call_fillLoops]
        rfl

theorem result_swapX (a : FillArgs) : r.result a.swapX = r.result a := by
  unfold result FillArgs.swapX FillArgs.volume FillArgs.width FillArgs.depth FillArgs.layers
    FillArgs.cellsAt FillArgs.clampedHeights
  dsimp only
  rw [min_comm a.x2, max_comm a.x2]

theorem result_swapZ (a : FillArgs) : r.result a.swapZ = r.result a := by
  unfold result FillArgs.swapZ FillArgs.volume FillArgs.width FillArgs.depth FillArgs.layers
    FillArgs.cellsAt FillArgs.clampedHeights
  dsimp only
  rw [min_comm a.z2, max_comm a.z2]

/-- Corners clamped to one layer can be swapped. -/
theorem result_swapY {a : FillArgs} (h : clampY a.y1 = clampY a.y2) :
    r.result a.swapY = r.result a := by
  unfold result FillArgs.swapY FillArgs.volume FillArgs.width FillArgs.depth FillArgs.layers
    FillArgs.cellsAt FillArgs.clampedHeights
  dsimp only
  rw [h]

variable {r : FillRun} {a : FillArgs}

theorem result_large (h : a.volume > 32768) : r.result a =
    (.err s!"Too many blocks ({a.volume} > 32768). Use a smaller region.", r.server) := if_pos h

theorem result_unavailable (h : ¬ a.volume > 32768) (hstore : r.ctx.chunkStore = false) :
    r.result a = (.err "Chunk store not available", r.server) := by
  unfold result
  rw [if_neg h, hstore]
  rfl

theorem result_small (h : ¬ a.volume > 32768) (hstore : r.ctx.chunkStore = true) :
    let t := (a.cellsAt a.clampedHeights).foldl (fillCell a.block) (r.server.chunks, 0)
    r.result a = (.ok s!"Filled {t.2} blocks with {a.blockName}", { r.server with chunks := t.1 }) := by
  unfold result
  rw [if_neg h, hstore]
  rfl

theorem loadedAt_of_unloaded {w : World} (h : a.Unloaded w) (ys : List Height) :
    ∀ c ∈ a.cellsAt ys, loadedAt w c = false := by
  intro c hc
  obtain ⟨⟨hx, hx'⟩, ⟨hz, hz'⟩, -⟩ := FillArgs.mem_cellsAt.1 hc
  unfold loadedAt CloneCell.source
  rw [h c.x c.z hx hx' hz hz']
  rfl

/-- Where no chunk is loaded nothing is filled. -/
theorem result_unloaded (h : ¬ a.volume > 32768) (hstore : r.ctx.chunkStore = true)
    (hunloaded : a.Unloaded r.server.chunks) :
    r.result a = (.ok s!"Filled {0} blocks with {a.blockName}", r.server) := by
  rw [result_small h hstore, foldl_fillCell_unloaded _ (loadedAt_of_unloaded hunloaded _)]

/-- A count of zero in the reply. -/
theorem filled_zero {n : Nat} {name : String}
    (h : s!"Filled {n} blocks with {name}" = s!"Filled {0} blocks with {name}") : n = 0 := by
  have hrepr : n.repr = Nat.repr 0 := by simpa using h
  have hdigits := congrArg String.toList hrepr
  rw [Nat.toList_repr, Nat.toList_repr] at hdigits
  rw [← Nat.ofDigitChars_ten_toDigits (n := n), hdigits, Nat.ofDigitChars_ten_toDigits]

theorem tooMany_ne (n : Nat) :
    s!"Too many blocks ({n} > 32768). Use a smaller region." ≠ "Chunk store not available" := by
  intro h
  have hhead := congrArg (fun t => t.toList.head?) h
  have hfirst : (toString "Too many blocks (").toList.head? = some 'T' := by decide
  simp only [String.toList_append, List.head?_append, hfirst, Option.some_or] at hhead
  exact absurd hhead (by decide)

/-- What fills nothing, although a layer is gone through, finds no loaded chunk. -/
theorem unloaded_of_result (h : ¬ a.volume > 32768) (hstore : r.ctx.chunkStore = true)
    (hblock : a.block.id.toNat < 2 ^ GLOBAL_BITS) {y : Height} (hy : y ∈ a.clampedHeights) {s : Server}
    (hresult : r.result a = (.ok s!"Filled {0} blocks with {a.blockName}", s)) :
    a.Unloaded r.server.chunks := by
  rw [result_small h hstore] at hresult
  have hcount := filled_zero (Reply.ok.inj (congrArg Prod.fst hresult))
  rw [(foldl_fillCell hblock _ r.registered 0).1, Nat.zero_add, List.countP_eq_zero] at hcount
  intro x z hx hx' hz hz'
  have hcell := hcount ⟨x, y, z⟩ (FillArgs.mem_cellsAt.2 ⟨⟨hx, hx'⟩, ⟨hz, hz'⟩, hy⟩)
  exact Option.not_isSome_iff_eq_none.1 hcell

/-- Swapping the corners goes by the arguments. -/
theorem swapped_iff : (r.outcomeOf (r.ctx.swap 0 3) = r.outcomeOf r.ctx ∧
    r.outcomeOf (r.ctx.swap 1 4) = r.outcomeOf r.ctx ∧
    r.outcomeOf (r.ctx.swap 2 5) = r.outcomeOf r.ctx) ↔ r.result r.args.swapY = r.result r.args := by
  rw [r.outcomeOf_eq r.parses rfl, r.outcomeOf_eq (fillArgs?_swapX r.parses) rfl,
    r.outcomeOf_eq (fillArgs?_swapY r.parses) rfl, r.outcomeOf_eq (fillArgs?_swapZ r.parses) rfl,
    result_swapX, result_swapZ]
  simp

/-- Two layers named the wrong way round are none, so the box must be small and nothing loaded. -/
theorem clear_of_reversed {b c : FillArgs} (hb : b.NoOverflow) (hc : c.NoOverflow)
    (hblayers : b.layers = 0) (hclayers : c.layers = 2)
    (hblock : c.block.id.toNat < 2 ^ GLOBAL_BITS) (hname : b.blockName = c.blockName)
    (h : r.result b = r.result c) :
    c.width * 2 * c.depth ≤ 32768 ∧ (r.ctx.chunkStore = true → c.Unloaded r.server.chunks) := by
  have hbvolume : ¬ b.volume > 32768 := by
    have := FillArgs.volume_eq hb
    rw [hblayers, mul_zero, zero_mul] at this
    omega
  have hempty : b.clampedHeights = [] := by
    apply List.eq_nil_iff_forall_not_mem.2
    intro y hy
    have hbounds := FillArgs.mem_filterMap_height?.1 hy
    unfold FillArgs.layers at hblayers
    omega
  have hcells : b.cellsAt b.clampedHeights = [] := by
    apply List.eq_nil_iff_forall_not_mem.2
    intro cell hcell
    have hy := (FillArgs.mem_cellsAt.1 hcell).2.2
    rw [hempty] at hy
    cases hy
  have hcvolume : ¬ c.volume > 32768 := by
    intro hlarge
    rw [result_large hlarge] at h
    cases hstore : r.ctx.chunkStore with
    | false =>
        rw [result_unavailable hbvolume hstore] at h
        exact tooMany_ne _ (Reply.err.inj (congrArg Prod.fst h)).symm
    | true =>
        rw [result_small hbvolume hstore] at h
        cases congrArg Prod.fst h
  refine ⟨?_, fun hstore => ?_⟩
  · have hvolume := FillArgs.volume_eq hc
    rw [hclayers] at hvolume
    omega
  · have hbresult := result_small hbvolume hstore
    rw [hcells] at hbresult
    have hrange := FillArgs.clampY_range c.y1
    have hy : (⟨clampY c.y1, hrange⟩ : Height) ∈ c.clampedHeights := by
      apply FillArgs.mem_filterMap_height?.2
      unfold FillArgs.layers at hclayers
      dsimp only
      omega
    rw [h, hname] at hbresult
    exact unloaded_of_result hcvolume hstore hblock hy hbresult

theorem outcome_eq (r : FillRun) : r.outcomeOf r.ctx = r.result r.args :=
  r.outcomeOf_eq r.parses rfl

/-- A box outside the world is clamped to a layer, which is filled where it is loaded. -/
theorem unloaded_of_outside (h : r.Fills) (hlayers : r.args.layers = 1) (hmeets : ¬ r.args.Meets)
    (hstore : r.ctx.chunkStore = true) :
    r.args.width * r.args.depth ≤ 32768 ∧ r.args.Unloaded r.server.chunks := by
  have hlength := r.args.length_inWorld
  rw [FillArgs.heights_of_not_meets hmeets, List.length_nil, Nat.cast_zero, mul_zero, zero_mul,
    Int.natCast_eq_zero] at hlength
  obtain ⟨w, hout, -⟩ := h.filled (by omega) hstore
  have hnone : r.loadedCells = 0 := by
    unfold loadedCells
    rw [List.length_eq_zero_iff.1 hlength]
    rfl
  rw [hnone, outcome_eq] at hout
  have hvolume : ¬ r.args.volume > 32768 := by
    intro hlarge
    rw [result_large hlarge] at hout
    cases congrArg Prod.fst hout
  have hrange := FillArgs.clampY_range r.args.y1
  have hy : (⟨clampY r.args.y1, hrange⟩ : Height) ∈ r.args.clampedHeights := by
    apply FillArgs.mem_filterMap_height?.2
    unfold FillArgs.layers at hlayers
    dsimp only
    omega
  refine ⟨?_, unloaded_of_result hvolume hstore r.resolves hy hout⟩
  have heq := FillArgs.volume_eq h.fits.1
  rw [hlayers, mul_one] at heq
  omega

theorem clear_of_fills (h : r.Fills) : r.Clear := by
  obtain ⟨hfit, hfit'⟩ := h.fits
  have hswap := swapped_iff.1 h.swapped
  have habs := r.args.natAbs_layers
  have hlow := hfit.layers
  have hhigh := hfit'.layers
  rw [FillArgs.layers_swapY] at hhigh
  have hcases : r.args.layers = 0 ∨ r.args.layers = 1 ∨ r.args.layers = 2 := by omega
  refine ⟨hfit.width, hfit.depth, ?_⟩
  rcases hcases with h0 | h1 | h2
  · have hswapped : r.args.swapY.layers = 2 := by
      rw [FillArgs.layers_swapY, h0]
      rfl
    obtain ⟨hsize, hunloaded⟩ :=
      clear_of_reversed hfit hfit' h0 hswapped r.resolves rfl hswap.symm
    have hone : (clampY r.args.y1 - clampY r.args.y2).natAbs = 1 := by omega
    rw [hone]
    exact .inr ⟨le_rfl, hsize, hunloaded⟩
  · have hclamp : clampY r.args.y1 = clampY r.args.y2 := by
      unfold FillArgs.layers at h1
      omega
    by_cases hmeets : r.ctx.chunkStore = true → r.args.Meets
    · exact .inl ⟨hclamp, hmeets⟩
    · obtain ⟨hstore, houtside⟩ := Classical.not_imp.1 hmeets
      obtain ⟨hsize, hunloaded⟩ := unloaded_of_outside h h1 houtside hstore
      have hzero : (clampY r.args.y1 - clampY r.args.y2).natAbs = 0 := by omega
      rw [hzero]
      refine .inr ⟨Nat.zero_le 1, ?_, fun _ => hunloaded⟩
      rw [Nat.cast_zero, zero_add, mul_one]
      exact hsize
  · have hswapped : r.args.swapY.layers = 0 := by
      rw [FillArgs.layers_swapY, h2]
      rfl
    obtain ⟨hsize, hunloaded⟩ :=
      clear_of_reversed hfit' hfit hswapped h2 r.resolves rfl hswap
    have hone : (clampY r.args.y1 - clampY r.args.y2).natAbs = 1 := by omega
    rw [hone]
    exact .inr ⟨le_rfl, hsize, hunloaded⟩

/-- A box of one layer. -/
theorem fills_of_layer (hw : r.args.width < 2 ^ 31) (hd : r.args.depth < 2 ^ 31)
    (hclamp : clampY r.args.y1 = clampY r.args.y2)
    (hmeets : r.ctx.chunkStore = true → r.args.Meets) : r.Fills := by
  have hlayers : r.args.layers = 1 := by
    unfold FillArgs.layers
    omega
  have hfit := FillArgs.noOverflow_of_layers hw hd (by omega) (by omega)
  have hfit' := FillArgs.noOverflow_of_layers (a := r.args.swapY) hw hd
    (by rw [FillArgs.layers_swapY]; omega) (by rw [FillArgs.layers_swapY]; omega)
  have hvolume := FillArgs.volume_eq hfit
  have hlength := r.args.length_inWorld
  refine ⟨⟨hfit, hfit'⟩, swapped_iff.2 (r.result_swapY hclamp), fun hlarge => ?_,
    fun hsmall hstore => ?_⟩
  · have hle : r.args.width * r.args.heights.length * r.args.depth ≤
        r.args.width * r.args.layers * r.args.depth := by
      apply FillArgs.product_le
      have := r.args.length_heights_le
      omega
    rw [outcome_eq, result_large (by omega)]
    exact ⟨_, rfl⟩
  · have hheights := FillArgs.heights_eq hclamp (hmeets hstore)
    have hone := FillArgs.length_heights (hmeets hstore)
    rw [hclamp, sub_self] at hone
    rw [hone] at hlength
    rw [hlayers] at hvolume
    have hspec := foldl_fillCell r.resolves r.args.inWorld r.registered 0
    rw [outcome_eq, result_small (by push_cast at hlength; omega) hstore]
    unfold FillArgs.inWorld at hspec
    rw [hheights] at hspec
    refine ⟨((r.args.cellsAt r.args.clampedHeights).foldl (fillCell r.args.block)
      (r.server.chunks, 0)).1, ?_, fun c => ?_⟩
    · unfold loadedCells FillArgs.inWorld
      rw [hheights, hspec.1, Nat.zero_add]
    · unfold FillArgs.inWorld
      rw [hheights]
      exact hspec.2 c

/-- A small box of at most two layers where nothing is loaded. -/
theorem fills_of_unloaded (hw : r.args.width < 2 ^ 31) (hd : r.args.depth < 2 ^ 31)
    (hclamp : (clampY r.args.y1 - clampY r.args.y2).natAbs ≤ 1)
    (hsize : r.args.width * ((clampY r.args.y1 - clampY r.args.y2).natAbs + 1) * r.args.depth ≤ 32768)
    (hunloaded : r.ctx.chunkStore = true → r.args.Unloaded r.server.chunks) : r.Fills := by
  have habs := r.args.natAbs_layers
  have hfit := FillArgs.noOverflow_of_layers hw hd (by omega) (by omega)
  have hfit' := FillArgs.noOverflow_of_layers (a := r.args.swapY) hw hd
    (by rw [FillArgs.layers_swapY]; omega) (by rw [FillArgs.layers_swapY]; omega)
  have hvolume : ¬ r.args.volume > 32768 := by
    have heq := FillArgs.volume_eq hfit
    have hle := FillArgs.product_le (a := r.args) (l := r.args.layers)
      (m := (clampY r.args.y1 - clampY r.args.y2).natAbs + 1) (by omega)
    omega
  have hvolume' : ¬ r.args.swapY.volume > 32768 := by
    have heq := FillArgs.volume_eq hfit'
    have hle := FillArgs.product_le (a := r.args) (l := r.args.swapY.layers)
      (m := (clampY r.args.y1 - clampY r.args.y2).natAbs + 1)
      (by rw [FillArgs.layers_swapY]; omega)
    change (r.args.swapY.volume : Int) = r.args.width * r.args.swapY.layers * r.args.depth at heq
    omega
  have hcells : (r.args.inWorld.length : Int) ≤ 32768 := by
    have hle := FillArgs.product_le (a := r.args) (l := r.args.heights.length)
      (m := (clampY r.args.y1 - clampY r.args.y2).natAbs + 1)
      (by have := r.args.length_heights_le; omega)
    rw [FillArgs.length_inWorld]
    omega
  refine ⟨⟨hfit, hfit'⟩, swapped_iff.2 ?_, fun hlarge => ?_, fun _ hstore => ?_⟩
  · cases hstore : r.ctx.chunkStore with
    | false => rw [result_unavailable hvolume hstore, result_unavailable hvolume' hstore]
    | true =>
        rw [result_unloaded hvolume hstore (hunloaded hstore),
          result_unloaded hvolume' hstore (hunloaded hstore)]
        rfl
  · omega
  · have hnone := loadedAt_of_unloaded (hunloaded hstore) r.args.heights
    have hcount : r.loadedCells = 0 :=
      List.countP_eq_zero.2 fun c hc => ne_true_of_eq_false (hnone c hc)
    refine ⟨r.server.chunks, ?_, fun c => ?_⟩
    · rw [outcome_eq, result_unloaded hvolume hstore (hunloaded hstore), hcount]
    · by_cases hc : c ∈ r.args.inWorld.map CloneCell.source
      · obtain ⟨cell, hcell, rfl⟩ := List.mem_map.1 hc
        have hempty : idIn r.server.chunks cell.source = none := by
          unfold idIn
          rw [Option.not_isSome_iff_eq_none.1 (ne_true_of_eq_false (hnone cell hcell))]
          rfl
        rw [if_pos hc, hempty]
        rfl
      · rw [if_neg hc]

end FillRun

/-- **`/fill` does what it should, however the box is named,** exactly when the box is one layer of
the world, or small, at most two layers high and nowhere loaded. -/
theorem fills_iff (r : FillRun) : r.Fills ↔ r.Clear := by
  constructor
  · exact FillRun.clear_of_fills
  · rintro ⟨hw, hd, ⟨hclamp, hmeets⟩ | ⟨hclamp, hsize, hunloaded⟩⟩
    · exact FillRun.fills_of_layer hw hd hclamp hmeets
    · exact FillRun.fills_of_unloaded hw hd hclamp hsize hunloaded

/-- Resolves stone. -/
def stoneHost : Host :=
  { guestHost with resolveItem := fun name => if name = "stone" then some (BlockState.new 1#32) else none }

theorem registered_air : Registered (Redstone.built []) := Redstone.registered_built (by simp)

/-- `/fill 0 64 0 0 65 0 stone` in loaded chunks of air. -/
def twoLayers : FillRun where
  host := stoneHost
  ctx := ⟨.console, ["0", "64", "0", "0", "65", "0", "stone"], "", 20, true, true⟩
  server := { guestServer with chunks := Redstone.built [] }
  args := ⟨0, 64, 0, 0, 65, 0, "stone", BlockState.new 1#32⟩
  parses := by rfl
  registered := registered_air
  resolves := by decide

/-- **Two cells one over the other**: named from the top, none is filled. -/
theorem not_forall_fills : ¬ ∀ r : FillRun, r.Fills := by
  intro h
  obtain ⟨-, -, ⟨hclamp, -⟩ | ⟨-, -, hunloaded⟩⟩ := FillRun.clear_of_fills (h twoLayers)
  · exact absurd hclamp (by decide)
  · have hnone := hunloaded rfl 0 0 (by decide) (by decide) (by decide) (by decide)
    have hloaded := Redstone.loaded_built [] (chunkOf 0 0)
    change Redstone.built [] (chunkOf 0 0) = none at hnone
    rw [hnone] at hloaded
    cases hloaded

end Apoptotic.Commands
