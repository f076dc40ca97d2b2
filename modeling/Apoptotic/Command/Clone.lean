import Apoptotic.Command.Escalation
import Apoptotic.Lib.Copies
import Apoptotic.World.Sites

/-!
# `/clone`

What the command leaves of the region it copies.  It reads and writes the chunks cell by cell, x
before y before z, and a chunk that it reads stays locked while it asks for the chunk it writes to.

Principal results: `cloneCommand_of_some` — the command is a loop over its region;
`copyCells_spec` — the loop makes the copies one after another, or hangs; `clones_iff` — when the
command does what it is for.
-/

namespace Apoptotic.Commands

open Calls Copies
open Redstone (Site World idIn idIn_writeAt loaded_writeAt Registered writeAt)

/-! ## The command as a loop -/

structure CloneArgs where
  x1 : Int
  y1 : Int
  z1 : Int
  x2 : Int
  y2 : Int
  z2 : Int
  dx : Int
  dy : Int
  dz : Int

/-- The arguments of `/clone`, if they parse. -/
def cloneArgs? (ctx : CommandContext) : Option CloneArgs :=
  if ctx.args.length < 9 then none
  else do
    let x1 ← parseI32 (ctx.arg 0)
    let y1 ← parseI32 (ctx.arg 1)
    let z1 ← parseI32 (ctx.arg 2)
    let x2 ← parseI32 (ctx.arg 3)
    let y2 ← parseI32 (ctx.arg 4)
    let z2 ← parseI32 (ctx.arg 5)
    let dx ← parseI32 (ctx.arg 6)
    let dy ← parseI32 (ctx.arg 7)
    let dz ← parseI32 (ctx.arg 8)
    pure ⟨x1, y1, z1, x2, y2, z2, dx, dy, dz⟩

/-- A cell of the source region. -/
structure CloneCell where
  x : Int
  y : Height
  z : Int
  deriving DecidableEq

def CloneCell.source (c : CloneCell) : Site := ⟨chunkOf c.x c.z, lowBits c.x, c.y, lowBits c.z⟩

namespace CloneArgs

variable (a : CloneArgs)

/-- The cells of the region in the order of the loops. -/
def region : List CloneCell :=
  (intRange (min a.x1 a.x2) (max a.x1 a.x2)).flatMap fun x =>
    ((intRange (min a.y1 a.y2) (max a.y1 a.y2)).filterMap height?).flatMap fun y =>
      (intRange (min a.z1 a.z2) (max a.z1 a.z2)).map fun z => ⟨x, y, z⟩

/-- Where a cell is copied to, if that is inside the world's height. -/
def target? (c : CloneCell) : Option Site :=
  (height? (i32 (c.y + a.dy))).map fun y =>
    ⟨chunkOf (i32 (c.x + a.dx)) (i32 (c.z + a.dz)), lowBits (i32 (c.x + a.dx)), y,
      lowBits (i32 (c.z + a.dz))⟩

end CloneArgs

/-- One cell of `/clone` on the chunks; none where it hangs. -/
def copyCell (host : Host) (a : CloneArgs) (w : World) (c : CloneCell) : Option World :=
  match a.target? c with
  | none => some w
  | some t =>
    match w c.source.chunk with
    | none => some w
    | some chunk =>
      if c.source.chunk = t.chunk ∨ host.sameShard c.source.chunk t.chunk then none
      else if (w t.chunk).isSome then
        some (writeAt w t (chunk.getBlock c.source.x c.source.z c.y))
      else some w

def copyCells (host : Host) (a : CloneArgs) (cells : List CloneCell) (w : World) : Option World :=
  cells.foldlM (copyCell host a) w

/-- A call that ends with the chunks `w`, or hangs where there are none. -/
def Leaves {α : Type} (out : Reply String α × Server) (s : Server) (w : Option World) : Prop :=
  match w with
  | some w => ∃ b, out = (.ok b, { s with chunks := w })
  | none => out.1 = .blocked

/-- An iteration that ends with the chunks `w` and goes on, or hangs. -/
def Yields (out : Reply String (ForInStep Nat) × Server) (s : Server) (w : Option World) : Prop :=
  match w with
  | some w => ∃ n, out = (.ok (.yield n), { s with chunks := w })
  | none => out.1 = .blocked

theorem leaves_writeBlock (x : Int) (y : Height) (z : Int) (block : BlockState) (s : Server) :
    Leaves ((writeBlock x y z block).call s) s
      (if (s.chunks (chunkOf x z)).isSome then
        some (writeAt s.chunks ⟨chunkOf x z, lowBits x, y, lowBits z⟩ block)
      else some s.chunks) := by
  unfold writeBlock writeAt
  simp only [Keeping.bind_call, Call.bind_apply, read, Keeping.gets_call]
  cases hchunk : s.chunks (chunkOf x z) with
  | none => exact ⟨false, rfl⟩
  | some chunk => exact ⟨true, rfl⟩

theorem leaves_cloneCell (host : Host) (a : CloneArgs) (c : CloneCell) (s : Server) :
    Leaves ((cloneCell host c.x c.z c.y a.dx a.dy a.dz).call s) s (copyCell host a s.chunks c) := by
  unfold cloneCell copyCell CloneArgs.target? CloneCell.source
  cases hy : height? (i32 (c.y + a.dy)) with
  | none => exact ⟨false, rfl⟩
  | some y =>
      simp only [Option.map_some, Keeping.bind_call, Call.bind_apply, read, Keeping.gets_call]
      cases hchunk : s.chunks (chunkOf c.x c.z) with
      | none => exact ⟨false, rfl⟩
      | some chunk =>
          dsimp only
          split
          · rfl
          · exact leaves_writeBlock _ y _ _ s

/-- A loop whose iterations carry out the steps of a fold carries out the fold. -/
theorem leaves_forIn {β : Type} {step : World → β → Option World}
    {body : β → Nat → Quiet (ForInStep Nat)}
    (h : ∀ b n s, Yields ((body b n).call s) s (step s.chunks b)) (l : List β) (n : Nat)
    (s : Server) : Leaves ((forIn l n body).call s) s (l.foldlM step s.chunks) := by
  induction l generalizing n s with
  | nil => exact ⟨n, rfl⟩
  | cons b l ih =>
      have hb := h b n s
      rw [List.forIn_cons, List.foldlM_cons, Keeping.bind_call, Call.bind_apply]
      cases hstep : step s.chunks b with
      | none =>
          rw [hstep] at hb
          cases hcall : (body b n).call s with
          | mk out s' =>
              rw [hcall] at hb
              subst hb
              rfl
      | some w =>
          rw [hstep] at hb
          obtain ⟨n', hn'⟩ := hb
          rw [hn']
          exact ih n' { s with chunks := w }

/-- An inner loop is an iteration of the loop around it. -/
theorem yields_of_leaves {x : Quiet Nat} {s : Server} {w : Option World}
    (h : Leaves (x.call s) s w) :
    Yields ((do let n ← x; pure (.yield n) : Quiet (ForInStep Nat)).call s) s w := by
  rw [Keeping.bind_call, Call.bind_apply]
  cases w with
  | none =>
      cases hcall : x.call s with
      | mk out s' =>
          rw [hcall] at h
          subst h
          rfl
  | some w =>
      obtain ⟨n, hn⟩ := h
      rw [hn]
      exact ⟨n, rfl⟩

theorem yields_cell (host : Host) (a : CloneArgs) (c : CloneCell) (n : Nat) (s : Server) :
    Yields ((do
        if ← cloneCell host c.x c.z c.y a.dx a.dy a.dz then pure (.yield (n + 1))
        else pure (.yield n) : Quiet (ForInStep Nat)).call s) s (copyCell host a s.chunks c) := by
  have hcell := leaves_cloneCell host a c s
  rw [Keeping.bind_call, Call.bind_apply]
  cases hstep : copyCell host a s.chunks c with
  | none =>
      rw [hstep] at hcell
      cases hcall : (cloneCell host c.x c.z c.y a.dx a.dy a.dz).call s with
      | mk out s' =>
          rw [hcall] at hcell
          subst hcell
          rfl
  | some w =>
      rw [hstep] at hcell
      obtain ⟨b, hb⟩ := hcell
      rw [hb]
      cases b with
      | true => exact ⟨n + 1, rfl⟩
      | false => exact ⟨n, rfl⟩

theorem foldlM_flatMap {α β σ : Type} (f : σ → β → Option σ) (g : α → List β) (l : List α) (s : σ) :
    (l.flatMap g).foldlM f s = l.foldlM (fun s a => (g a).foldlM f s) s := by
  induction l generalizing s with
  | nil => rfl
  | cons a l ih =>
      rw [List.flatMap_cons, List.foldlM_append, List.foldlM_cons]
      exact congrArg _ (funext ih)

/-- The loops of `/clone`, which count the copied cells. -/
def cloneLoops (host : Host) (a : CloneArgs) : Quiet Nat :=
  forIn (intRange (min a.x1 a.x2) (max a.x1 a.x2)) 0 fun x count => do
    let count ← forIn ((intRange (min a.y1 a.y2) (max a.y1 a.y2)).filterMap height?) count
      fun y count => do
        let count ← forIn (intRange (min a.z1 a.z2) (max a.z1 a.z2)) count fun z count => do
          if ← cloneCell host x z y a.dx a.dy a.dz then pure (.yield (count + 1))
          else pure (.yield count)
        pure (.yield count)
    pure (.yield count)

theorem leaves_cloneLoops (host : Host) (a : CloneArgs) (s : Server) :
    Leaves ((cloneLoops host a).call s) s (copyCells host a a.region s.chunks) := by
  have hsplit : ∀ w, copyCells host a a.region w =
      (intRange (min a.x1 a.x2) (max a.x1 a.x2)).foldlM (fun w x =>
        ((intRange (min a.y1 a.y2) (max a.y1 a.y2)).filterMap height?).foldlM (fun w y =>
          (intRange (min a.z1 a.z2) (max a.z1 a.z2)).foldlM (fun w z =>
            copyCell host a w ⟨x, y, z⟩) w) w) w := by
    intro w
    unfold copyCells CloneArgs.region
    rw [foldlM_flatMap]
    simp only [foldlM_flatMap, List.foldlM_map]
  rw [hsplit]
  apply leaves_forIn
  intro x n s
  apply yields_of_leaves
  apply leaves_forIn
  intro y n s
  apply yields_of_leaves
  apply leaves_forIn
  intro z n s
  exact yields_cell host a ⟨x, y, z⟩ n s

/-- `total` -/
def CloneArgs.total (a : CloneArgs) : Nat :=
  u64 (i32 (absI32 (i32 (a.x2 - a.x1 + 1)) * absI32 (i32 (a.y2 - a.y1 + 1)) *
    absI32 (i32 (a.z2 - a.z1 + 1))))

/-- What the command does with arguments that parse. -/
def cloneRegion (host : Host) (ctx : CommandContext) (a : CloneArgs) : Quiet String :=
  if a.total > 32768 then fail "Too many blocks (max 32768)"
  else if !ctx.chunkStore then fail "Chunk store unavailable"
  else do
    let count ← cloneLoops host a
    pure s!"Cloned {count} blocks"

theorem orFail_bind_of_some {α β : Type} {x : Option α} {a : α} (h : x = some a) (e : String)
    (f : α → Quiet β) : (orFail x e >>= f) = f a := by
  rw [h]
  rfl

/-- A check fails, or what follows it does. -/
theorem orFail_bind_fails {α β : Type} {x : Option α} {f : α → Quiet β}
    (h : ∀ a, x = some a → ∃ e, f a = fail e) (e : String) : ∃ e', (orFail x e >>= f) = fail e' := by
  cases x with
  | none => exact ⟨e, rfl⟩
  | some a => exact h a rfl

theorem cloneArgs?_eq_some {ctx : CommandContext} {a : CloneArgs} : cloneArgs? ctx = some a ↔
    ¬ ctx.args.length < 9 ∧
      (parseI32 (ctx.arg 0) = some a.x1 ∧ parseI32 (ctx.arg 1) = some a.y1 ∧
        parseI32 (ctx.arg 2) = some a.z1) ∧
      (parseI32 (ctx.arg 3) = some a.x2 ∧ parseI32 (ctx.arg 4) = some a.y2 ∧
        parseI32 (ctx.arg 5) = some a.z2) ∧
      (parseI32 (ctx.arg 6) = some a.dx ∧ parseI32 (ctx.arg 7) = some a.dy ∧
        parseI32 (ctx.arg 8) = some a.dz) := by
  unfold cloneArgs?
  by_cases hlength : ctx.args.length < 9
  · simp [hlength]
  · obtain ⟨x1, y1, z1, x2, y2, z2, dx, dy, dz⟩ := a
    rw [if_neg hlength]
    simp only [Option.bind_eq_bind, Option.bind_eq_some_iff, Option.pure_def, Option.some.injEq,
      CloneArgs.mk.injEq, hlength, not_false_eq_true, true_and]
    constructor
    · rintro ⟨_, h0, _, h1, _, h2, _, h3, _, h4, _, h5, _, h6, _, h7, _, h8, rfl, rfl, rfl, rfl, rfl,
        rfl, rfl, rfl, rfl⟩
      exact ⟨⟨h0, h1, h2⟩, ⟨h3, h4, h5⟩, h6, h7, h8⟩
    · rintro ⟨⟨h0, h1, h2⟩, ⟨h3, h4, h5⟩, h6, h7, h8⟩
      exact ⟨_, h0, _, h1, _, h2, _, h3, _, h4, _, h5, _, h6, _, h7, _, h8, rfl, rfl, rfl, rfl, rfl,
        rfl, rfl, rfl, rfl⟩

/-- With arguments that parse the command goes through the region. -/
theorem cloneCommand_of_some {ctx : CommandContext} {a : CloneArgs} (h : cloneArgs? ctx = some a)
    (host : Host) : cloneCommand host ctx = cloneRegion host ctx a := by
  obtain ⟨hlength, ⟨h0, h1, h2⟩, ⟨h3, h4, h5⟩, h6, h7, h8⟩ := cloneArgs?_eq_some.1 h
  unfold cloneCommand cloneCoordinate
  rw [if_neg hlength, orFail_bind_of_some h0, orFail_bind_of_some h1, orFail_bind_of_some h2,
    orFail_bind_of_some h3, orFail_bind_of_some h4, orFail_bind_of_some h5, orFail_bind_of_some h6,
    orFail_bind_of_some h7, orFail_bind_of_some h8]
  unfold cloneRegion cloneLoops CloneArgs.total
  rfl

/-- With arguments that do not parse it fails. -/
theorem cloneCommand_of_none {ctx : CommandContext} (h : cloneArgs? ctx = none) (host : Host) :
    ∃ e, cloneCommand host ctx = fail e := by
  unfold cloneCommand cloneCoordinate
  by_cases hlength : ctx.args.length < 9
  · rw [if_pos hlength]
    exact ⟨_, rfl⟩
  rw [if_neg hlength]
  refine orFail_bind_fails (fun x1 h0 => ?_) _
  refine orFail_bind_fails (fun y1 h1 => ?_) _
  refine orFail_bind_fails (fun z1 h2 => ?_) _
  refine orFail_bind_fails (fun x2 h3 => ?_) _
  refine orFail_bind_fails (fun y2 h4 => ?_) _
  refine orFail_bind_fails (fun z2 h5 => ?_) _
  refine orFail_bind_fails (fun dx h6 => ?_) _
  refine orFail_bind_fails (fun dy h7 => ?_) _
  refine orFail_bind_fails (fun dz h8 => ?_) _
  have hsome : cloneArgs? ctx = some ⟨x1, y1, z1, x2, y2, z2, dx, dy, dz⟩ :=
    cloneArgs?_eq_some.2 ⟨hlength, ⟨h0, h1, h2⟩, ⟨h3, h4, h5⟩, h6, h7, h8⟩
  rw [h] at hsome
  cases hsome

/-! ## Copies -/

/-- The copy of a cell, where both chunks are loaded. -/
def CloneArgs.copy? (a : CloneArgs) (w : World) (c : CloneCell) : Option (Site × Site) :=
  (a.target? c).bind fun t =>
    if (w c.source.chunk).isSome ∧ (w t.chunk).isSome then some (c.source, t) else none

/-- The copies of the region in the order of the loops. -/
def CloneArgs.copies (a : CloneArgs) (w : World) : List (Site × Site) :=
  a.region.filterMap (a.copy? w)

/-- The chunk that is read and the one that is written share a shard of the chunk map. -/
def Hangs (host : Host) (a : CloneArgs) (w : World) (c : CloneCell) : Prop :=
  ∃ t, a.target? c = some t ∧ (w c.source.chunk).isSome ∧
    (c.source.chunk = t.chunk ∨ host.sameShard c.source.chunk t.chunk)

/-- The same chunks are loaded. -/
def SameLoaded (w w' : World) : Prop := ∀ cp, (w' cp).isSome = (w cp).isSome

theorem copy?_congr {w w' : World} (h : SameLoaded w w') (a : CloneArgs) :
    a.copy? w' = a.copy? w := by
  unfold CloneArgs.copy?
  simp only [h _]

theorem hangs_congr {w w' : World} (h : SameLoaded w w') (host : Host) (a : CloneArgs)
    (c : CloneCell) : Hangs host a w' c ↔ Hangs host a w c := by
  unfold Hangs
  simp only [h _]

theorem copyCell_of_hangs {host : Host} {a : CloneArgs} {w : World} {c : CloneCell}
    (h : Hangs host a w c) : copyCell host a w c = none := by
  obtain ⟨t, ht, hloaded, hshard⟩ := h
  obtain ⟨chunk, hchunk⟩ := Option.isSome_iff_exists.1 hloaded
  unfold copyCell
  rw [ht, hchunk]
  exact if_pos hshard

/-- One cell: its copy is made, or there is none to make. -/
theorem copyCell_spec {host : Host} {a : CloneArgs} {w : World} (hw : Registered w) {c : CloneCell}
    (h : ¬ Hangs host a w c) : ∃ w', copyCell host a w c = some w' ∧ Registered w' ∧
      SameLoaded w w' ∧ idIn w' = copyAll (a.copy? w c).toList (idIn w) := by
  unfold copyCell CloneArgs.copy?
  cases ht : a.target? c with
  | none => exact ⟨w, rfl, hw, fun _ => rfl, rfl⟩
  | some t =>
      rw [Option.bind_some]
      cases hchunk : w c.source.chunk with
      | none => exact ⟨w, rfl, hw, fun _ => rfl, rfl⟩
      | some chunk =>
          have hapart : ¬ (c.source.chunk = t.chunk ∨ host.sameShard c.source.chunk t.chunk) :=
            fun hshard => h ⟨t, ht, by rw [hchunk]; rfl, hshard⟩
          dsimp only
          rw [if_neg hapart]
          cases htarget : w t.chunk with
          | none => exact ⟨w, rfl, hw, fun _ => rfl, rfl⟩
          | some target =>
              have hid : idIn w c.source = some (chunk.getBlock c.source.x c.source.z c.y).id := by
                unfold idIn
                rw [hchunk]
                rfl
              have hfits := hw _ _ hid
              refine ⟨_, if_pos rfl, hw.writeAt t hfits, loaded_writeAt w t _, ?_⟩
              funext c'
              change idIn (writeAt w t _) c' = Function.update (idIn w) t (idIn w c.source) c'
              rw [idIn_writeAt hw t hfits]
              by_cases hc : c' = t
              · subst hc
                have hthere : ∃ id, idIn w c' = some id := by
                  unfold idIn
                  rw [htarget]
                  exact ⟨_, rfl⟩
                obtain ⟨id, hid'⟩ := hthere
                rw [if_pos rfl, Function.update_self, hid, hid']
                rfl
              · rw [if_neg hc, Function.update_of_ne hc]

/-- **The loop makes its copies one after another**, unless it hangs at a cell. -/
theorem copyCells_spec (host : Host) (a : CloneArgs) (cells : List CloneCell) {w : World}
    (hw : Registered w) (h : ∀ c ∈ cells, ¬ Hangs host a w c) :
    ∃ w', copyCells host a cells w = some w' ∧
      idIn w' = copyAll (cells.filterMap (a.copy? w)) (idIn w) := by
  induction cells generalizing w with
  | nil => exact ⟨w, rfl, rfl⟩
  | cons c cells ih =>
      obtain ⟨w', hstep, hw', hloaded, hid⟩ := copyCell_spec hw (h c List.mem_cons_self)
      obtain ⟨w'', hrest, hid'⟩ := ih hw' fun c' hc' =>
        mt (hangs_congr hloaded host a c').1 (h c' (List.mem_cons_of_mem _ hc'))
      refine ⟨w'', ?_, ?_⟩
      · unfold copyCells
        rw [List.foldlM_cons, hstep]
        exact hrest
      · rw [hid', hid, copy?_congr hloaded, List.filterMap_cons]
        cases a.copy? w c with
        | none => rfl
        | some copied => rfl

theorem copyCells_of_hangs {host : Host} {a : CloneArgs} {cells : List CloneCell} {w : World}
    (hw : Registered w) {c : CloneCell} (hc : c ∈ cells) (h : Hangs host a w c) :
    copyCells host a cells w = none := by
  unfold copyCells
  induction cells generalizing w with
  | nil => cases hc
  | cons c' cells ih =>
      rw [List.foldlM_cons]
      by_cases hhead : Hangs host a w c'
      · rw [copyCell_of_hangs hhead]
        rfl
      · obtain ⟨w', hstep, hw', hloaded, _⟩ := copyCell_spec hw hhead
        rcases List.mem_cons.1 hc with rfl | htail
        · exact absurd h hhead
        · rw [hstep]
          exact ih hw' htail ((hangs_congr hloaded host a c).2 h)

/-! ## The region -/

/-- A cell of the region. -/
structure CloneArgs.Has (a : CloneArgs) (c : CloneCell) : Prop where
  x : min a.x1 a.x2 ≤ c.x ∧ c.x ≤ max a.x1 a.x2
  y : min a.y1 a.y2 ≤ c.y ∧ c.y ≤ max a.y1 a.y2
  z : min a.z1 a.z2 ≤ c.z ∧ c.z ≤ max a.z1 a.z2

/-- The number of cells of the region. -/
def CloneArgs.cells (a : CloneArgs) : Nat :=
  ((a.x2 - a.x1).natAbs + 1) * ((a.y2 - a.y1).natAbs + 1) * ((a.z2 - a.z1).natAbs + 1)

theorem intRange_eq_map (lo hi : Int) :
    intRange lo hi = (List.range (hi - lo + 1).toNat).map fun i : Nat => lo + (i : Int) := by
  simp [intRange, List.map_eq_flatMap, List.flatMap_assoc]

theorem mem_intRange {lo hi n : Int} : n ∈ intRange lo hi ↔ lo ≤ n ∧ n ≤ hi := by
  rw [intRange_eq_map]
  simp only [List.mem_map, List.mem_range]
  constructor
  · rintro ⟨i, hi, rfl⟩
    omega
  · rintro ⟨hlo, hhi⟩
    exact ⟨(n - lo).toNat, by omega, by omega⟩

theorem nodup_intRange (lo hi : Int) : (intRange lo hi).Nodup := by
  rw [intRange_eq_map]
  refine List.Nodup.map (fun i j h => ?_) List.nodup_range
  omega

theorem height?_eq_some {n : Int} {y : Height} : height? n = some y ↔ n = y := by
  unfold height?
  constructor
  · intro h
    split at h
    · rw [← Option.some.inj h]
    · cases h
  · rintro rfl
    exact dif_pos y.2

namespace CloneArgs

variable (a : CloneArgs)

theorem mem_region {c : CloneCell} : c ∈ a.region ↔ a.Has c := by
  unfold region
  simp only [List.mem_flatMap, List.mem_map, List.mem_filterMap, mem_intRange, height?_eq_some]
  constructor
  · rintro ⟨x, hx, y, ⟨_, hy, rfl⟩, z, hz, rfl⟩
    exact ⟨hx, hy, hz⟩
  · rintro ⟨hx, hy, hz⟩
    exact ⟨c.x, hx, c.y, ⟨_, hy, rfl⟩, c.z, hz, rfl⟩

theorem nodup_region : a.region.Nodup := by
  have hys : ((intRange (min a.y1 a.y2) (max a.y1 a.y2)).filterMap height?).Nodup := by
    refine List.Nodup.filterMap (fun n m y hn hm => ?_) (nodup_intRange _ _)
    rw [height?_eq_some.1 hn, height?_eq_some.1 hm]
  unfold region
  rw [List.nodup_flatMap]
  refine ⟨fun x _ => ?_, (nodup_intRange _ _).imp fun hne => ?_⟩
  · rw [List.nodup_flatMap]
    refine ⟨fun y _ => ?_, hys.imp fun hne => ?_⟩
    · refine List.Nodup.map (fun z z' h => ?_) (nodup_intRange _ _)
      exact congrArg CloneCell.z h
    · intro c hc hc'
      obtain ⟨_, _, rfl⟩ := List.mem_map.1 hc
      obtain ⟨_, _, h⟩ := List.mem_map.1 hc'
      exact hne (congrArg CloneCell.y h).symm
  · intro c hc hc'
    obtain ⟨_, _, hc⟩ := List.mem_flatMap.1 hc
    obtain ⟨_, _, hc'⟩ := List.mem_flatMap.1 hc'
    obtain ⟨_, _, rfl⟩ := List.mem_map.1 hc
    obtain ⟨_, _, h⟩ := List.mem_map.1 hc'
    exact hne (congrArg CloneCell.x h).symm

end CloneArgs

/-! ## Sites in 32 bits -/

theorem i32_range (n : Int) : -2 ^ 31 ≤ i32 n ∧ i32 n < 2 ^ 31 := by
  have hlow := Int.le_bmod (x := n) (m := 2 ^ 32) (by decide)
  have hhigh := Int.bmod_lt (x := n) (m := 2 ^ 32) (by decide)
  unfold i32
  omega

theorem i32_emod (n : Int) : i32 n % 2 ^ 32 = n % 2 ^ 32 := Int.bmod_emod

theorem i32_congr {n m : Int} (h : n % 2 ^ 32 = m % 2 ^ 32) : i32 n = i32 m := by
  have hn := i32_range n
  have hm := i32_range m
  have hn' := i32_emod n
  have hm' := i32_emod m
  omega

theorem i32_eq_of_range {n : Int} (h : -2 ^ 31 ≤ n ∧ n < 2 ^ 31) : i32 n = n := by
  unfold i32
  rw [Int.bmod_eq_of_le] <;> omega

/-- An `i32` is named by the coordinate of its chunk and its low bits. -/
theorem eq_of_chunk {n m : Int} (hn : -2 ^ 31 ≤ n ∧ n < 2 ^ 31) (hm : -2 ^ 31 ≤ m ∧ m < 2 ^ 31)
    (hchunk : BitVec.ofInt 32 (n / 16) = BitVec.ofInt 32 (m / 16))
    (hlow : lowBits n = lowBits m) : n = m := by
  have hdiv := congrArg BitVec.toInt hchunk
  rw [BitVec.toInt_ofInt, BitVec.toInt_ofInt] at hdiv
  change i32 (n / 16) = i32 (m / 16) at hdiv
  rw [i32_eq_of_range (by omega), i32_eq_of_range (by omega)] at hdiv
  have hmod := congrArg Fin.val hlow
  unfold lowBits at hmod
  dsimp only at hmod
  omega

theorem i32_add_inj {n m d : Int} (h : i32 (n + d) = i32 (m + d)) (hclose : (n - m).natAbs < 2 ^ 32) :
    n = m := by
  have hmod := congrArg (· % (2 ^ 32 : Int)) h
  rw [i32_emod, i32_emod] at hmod
  omega

/-- A product bounds its factors. -/
theorem factors_le {a b c k : Nat} (h : (a + 1) * (b + 1) * (c + 1) ≤ k) : a < k ∧ b < k ∧ c < k := by
  have hab : (a + 1) * (b + 1) ≤ (a + 1) * (b + 1) * (c + 1) := Nat.le_mul_of_pos_right _ (by omega)
  have hc : c + 1 ≤ (a + 1) * (b + 1) * (c + 1) := Nat.le_mul_of_pos_left _ (Nat.mul_pos a.succ_pos b.succ_pos)
  have ha : a + 1 ≤ (a + 1) * (b + 1) := Nat.le_mul_of_pos_right _ (by omega)
  have hb : b + 1 ≤ (a + 1) * (b + 1) := Nat.le_mul_of_pos_left _ (by omega)
  omega

/-- Two cells of a small region are copied to different sites. -/
theorem target?_inj {a : CloneArgs} (hsmall : a.cells ≤ 32768) {c c' : CloneCell} (hc : a.Has c)
    (hc' : a.Has c') {t : Site} (ht : a.target? c = some t) (ht' : a.target? c' = some t) :
    c = c' := by
  obtain ⟨hx, hy, hz⟩ := factors_le hsmall
  obtain ⟨y, hheight, rfl⟩ := Option.map_eq_some_iff.1 ht
  obtain ⟨y', hheight', hsame⟩ := Option.map_eq_some_iff.1 ht'
  simp only [Site.mk.injEq, chunkOf, ChunkPos.mk.injEq] at hsame
  obtain ⟨⟨hchunkx, hchunkz⟩, hlowx, rfl, hlowz⟩ := hsame
  have hx' := i32_add_inj (eq_of_chunk (i32_range _) (i32_range _) hchunkx hlowx)
    (by have := hc.x; have := hc'.x; omega)
  have hz' := i32_add_inj (eq_of_chunk (i32_range _) (i32_range _) hchunkz hlowz)
    (by have := hc.z; have := hc'.z; omega)
  have hy' := i32_add_inj ((height?_eq_some.1 hheight').trans (height?_eq_some.1 hheight).symm)
    (by have := hc.y; have := hc'.y; omega)
  cases c
  cases c'
  simp only [CloneCell.mk.injEq]
  exact ⟨hx'.symm, Subtype.ext hy'.symm, hz'.symm⟩

/-- The copies of a small region have different targets. -/
theorem nodup_targets {a : CloneArgs} (hsmall : a.cells ≤ 32768) (w : World) :
    ((a.copies w).map Prod.snd).Nodup := by
  unfold CloneArgs.copies
  rw [List.map_filterMap]
  refine List.pairwise_filterMap.2 (a.nodup_region.imp_of_mem fun hc hc' hne p hp p' hp' => ?_)
  intro hsame
  apply hne
  obtain ⟨q, hq, rfl⟩ := Option.map_eq_some_iff.1 hp
  obtain ⟨q', hq', rfl⟩ := Option.map_eq_some_iff.1 hp'
  obtain ⟨t, ht, hcopy⟩ := Option.bind_eq_some_iff.1 hq
  obtain ⟨t', ht', hcopy'⟩ := Option.bind_eq_some_iff.1 hq'
  split at hcopy
  · split at hcopy'
    · cases hcopy
      cases hcopy'
      dsimp only at hsame
      subst hsame
      exact target?_inj hsmall (a.mem_region.1 hc) (a.mem_region.1 hc') ht ht'
    · cases hcopy'
  · cases hcopy

/-! ## The size check -/

/-- The product of `total`, each difference and the product in 32 bits. -/
def CloneArgs.size32 (a : CloneArgs) : Nat :=
  (i32 (a.x2 - a.x1 + 1)).natAbs * (i32 (a.y2 - a.y1 + 1)).natAbs *
    (i32 (a.z2 - a.z1 + 1)).natAbs % 2 ^ 32

theorem absI32_emod (n : Int) : absI32 n % 2 ^ 32 = (n.natAbs : Int) % 2 ^ 32 :=
  i32_emod _

theorem u64_i32_gt_iff (n : Nat) : u64 (i32 n) > 32768 ↔ 32768 < n % 2 ^ 32 := by
  have hrange := i32_range n
  have hmod := i32_emod n
  unfold u64
  omega

theorem mul_emod_congr {a b c d k : Int} (h : a % k = b % k) (h' : c % k = d % k) :
    a * c % k = b * d % k := by
  rw [Int.mul_emod, h, h', ← Int.mul_emod]

theorem total_gt_iff (a : CloneArgs) : a.total > 32768 ↔ 32768 < a.size32 := by
  unfold CloneArgs.total CloneArgs.size32
  rw [← u64_i32_gt_iff]
  have hsame : i32 (absI32 (i32 (a.x2 - a.x1 + 1)) * absI32 (i32 (a.y2 - a.y1 + 1)) *
      absI32 (i32 (a.z2 - a.z1 + 1))) = i32 ((i32 (a.x2 - a.x1 + 1)).natAbs *
        (i32 (a.y2 - a.y1 + 1)).natAbs * (i32 (a.z2 - a.z1 + 1)).natAbs : Nat) := by
    apply i32_congr
    rw [Int.natCast_mul, Int.natCast_mul]
    exact mul_emod_congr (mul_emod_congr (absI32_emod _) (absI32_emod _)) (absI32_emod _)
  rw [hsame]

/-- A small region passes the check. -/
theorem size32_le {a : CloneArgs} (hsmall : a.cells ≤ 32768) : a.size32 ≤ 32768 := by
  obtain ⟨hx, hy, hz⟩ := factors_le hsmall
  unfold CloneArgs.size32
  rw [i32_eq_of_range (by omega), i32_eq_of_range (by omega), i32_eq_of_range (by omega)]
  refine Nat.le_trans (Nat.mod_le _ _) (Nat.le_trans ?_ hsmall)
  exact Nat.mul_le_mul (Nat.mul_le_mul (by omega) (by omega)) (by omega)

/-- Between ordered corners the product is the number of cells. -/
theorem size32_of_ordered {a : CloneArgs} (hx : a.x1 ≤ a.x2) (hy : a.y1 ≤ a.y2) (hz : a.z1 ≤ a.z2)
    (hfits : a.cells < 2 ^ 31) : a.size32 = a.cells := by
  have hcells : a.cells ≤ 2 ^ 31 - 1 := by omega
  obtain ⟨hx', hy', hz'⟩ := factors_le hcells
  have hside : ∀ n : Int, 0 ≤ n → n.natAbs < 2 ^ 31 - 1 → (i32 (n + 1)).natAbs = n.natAbs + 1 := by
    intro n hn hsmall
    rw [i32_eq_of_range (by omega)]
    omega
  unfold CloneArgs.size32
  rw [hside _ (by omega) hx', hside _ (by omega) hy', hside _ (by omega) hz']
  exact Nat.mod_eq_of_lt (by unfold CloneArgs.cells at hfits; omega)

/-! ## What the command does -/

/-- `/clone` on a server. -/
structure CloneRun where
  host : Host
  ctx : CommandContext
  server : Server
  registered : Registered server.chunks

namespace CloneRun

variable (r : CloneRun)

def outcome : Reply String String × Server := (cloneCommand r.host r.ctx).call r.server

/-- Each cell of the region is copied: what its source held stands in its target. -/
def Arrives (a : CloneArgs) : Prop :=
  ∀ c, a.Has c → ∀ t, a.target? c = some t → (r.server.chunks c.source.chunk).isSome →
    (r.server.chunks t.chunk).isSome → idIn r.outcome.2.chunks t = idIn r.server.chunks c.source

/-- What `/clone` should do: the size check rejects the large regions, and the command fails and
    changes nothing or copies the region as it was. -/
structure Clones : Prop where
  size : ∀ a, cloneArgs? r.ctx = some a →
    (r.outcome.1 = .err "Too many blocks (max 32768)" ↔ 32768 < a.cells)
  ends : (∃ e, r.outcome = (.err e, r.server)) ∨
    ∃ text, r.outcome.1 = .ok text ∧ ∀ a, cloneArgs? r.ctx = some a → r.Arrives a

/-- No cell of the region hangs the command, and none that is copied late was overwritten by another
    block before. -/
structure Safe (a : CloneArgs) : Prop where
  apart : ∀ c, a.Has c → ¬ Hangs r.host a r.server.chunks c
  steady : Steady (a.copies r.server.chunks) (idIn r.server.chunks)

end CloneRun

theorem mem_copies {a : CloneArgs} {w : World} {p : Site × Site} : p ∈ a.copies w ↔
    ∃ c, a.Has c ∧ a.target? c = some p.2 ∧ p.1 = c.source ∧ (w c.source.chunk).isSome ∧
      (w p.2.chunk).isSome := by
  unfold CloneArgs.copies CloneArgs.copy?
  simp only [List.mem_filterMap, CloneArgs.mem_region, Option.bind_eq_some_iff]
  constructor
  · rintro ⟨c, hc, t, ht, hcopy⟩
    split at hcopy
    · rename_i hloaded
      cases hcopy
      exact ⟨c, hc, ht, rfl, hloaded⟩
    · cases hcopy
  · rintro ⟨c, hc, ht, hsource, hloaded⟩
    refine ⟨c, hc, p.2, ht, ?_⟩
    rw [if_pos hloaded, ← hsource]

theorem cloneRegion_large {a : CloneArgs} (h : a.total > 32768) (host : Host) (ctx : CommandContext) :
    cloneRegion host ctx a = fail "Too many blocks (max 32768)" := by
  unfold cloneRegion
  exact if_pos h

theorem cloneRegion_unavailable {a : CloneArgs} (h : ¬ a.total > 32768) (host : Host)
    {ctx : CommandContext} (hstore : ctx.chunkStore = false) :
    cloneRegion host ctx a = fail "Chunk store unavailable" := by
  unfold cloneRegion
  rw [if_neg h, hstore]
  rfl

theorem cloneRegion_loops {a : CloneArgs} (h : ¬ a.total > 32768) (host : Host)
    {ctx : CommandContext} (hstore : ctx.chunkStore = true) :
    cloneRegion host ctx a = (do
      let count ← cloneLoops host a
      pure s!"Cloned {count} blocks") := by
  unfold cloneRegion
  rw [if_neg h, hstore]
  rfl

namespace CloneRun

variable {r : CloneRun} {a : CloneArgs}

theorem outcome_of_fail {e : String} (h : cloneCommand r.host r.ctx = fail e) :
    r.outcome = (.err e, r.server) := by
  unfold outcome
  rw [h]
  rfl

/-- What a region that passes the check comes to. -/
theorem leaves_outcome (ha : cloneArgs? r.ctx = some a) (hsize : ¬ a.total > 32768)
    (hstore : r.ctx.chunkStore = true) :
    Leaves r.outcome r.server (copyCells r.host a a.region r.server.chunks) := by
  have hloops := leaves_cloneLoops r.host a r.server
  unfold outcome
  rw [cloneCommand_of_some ha, cloneRegion_loops hsize r.host hstore, Keeping.bind_call,
    Call.bind_apply]
  cases hcopy : copyCells r.host a a.region r.server.chunks with
  | none =>
      rw [hcopy] at hloops
      cases hcall : (cloneLoops r.host a).call r.server with
      | mk out s =>
          rw [hcall] at hloops
          subst hloops
          rfl
  | some w =>
      rw [hcopy] at hloops
      obtain ⟨n, hn⟩ := hloops
      rw [hn]
      exact ⟨_, rfl⟩

theorem arrives_iff : r.Arrives a ↔
    Copied (a.copies r.server.chunks) (idIn r.server.chunks) (idIn r.outcome.2.chunks) := by
  constructor
  · intro h p hp
    obtain ⟨c, hc, ht, hsource, hloaded, htarget⟩ := mem_copies.1 hp
    rw [hsource]
    exact h c hc p.2 ht hloaded htarget
  · intro h c hc t ht hloaded htarget
    exact h (c.source, t) (mem_copies.2 ⟨c, hc, ht, rfl, hloaded, htarget⟩)

/-- A small region is copied as it was exactly when its cells are safe. -/
theorem copies_iff (ha : cloneArgs? r.ctx = some a) (hsmall : a.cells ≤ 32768)
    (hstore : r.ctx.chunkStore = true) :
    (∃ text, r.outcome.1 = .ok text ∧ r.Arrives a) ↔ r.Safe a := by
  have hsize : ¬ a.total > 32768 := by
    rw [total_gt_iff]
    exact Nat.not_lt.2 (size32_le hsmall)
  have hleaves := leaves_outcome ha hsize hstore
  by_cases hapart : ∀ c, a.Has c → ¬ Hangs r.host a r.server.chunks c
  · obtain ⟨w, hcopy, hid⟩ := copyCells_spec r.host a a.region r.registered fun c hc =>
      hapart c (a.mem_region.1 hc)
    rw [hcopy] at hleaves
    obtain ⟨text, htext⟩ := hleaves
    have hsteady := copied_iff (nodup_targets hsmall r.server.chunks) (idIn r.server.chunks)
    have hafter : idIn r.outcome.2.chunks =
        copyAll (a.copies r.server.chunks) (idIn r.server.chunks) := by
      rw [htext]
      exact hid
    rw [arrives_iff, hafter, hsteady]
    constructor
    · rintro ⟨_, _, h⟩
      exact ⟨hapart, h⟩
    · intro h
      exact ⟨text, by rw [htext], h.steady⟩
  · refine iff_of_false ?_ fun h => hapart h.apart
    rintro ⟨text, htext, _⟩
    simp only [not_forall, not_not] at hapart
    obtain ⟨c, hc, hhangs⟩ := hapart
    rw [copyCells_of_hangs r.registered (a.mem_region.2 hc) hhangs] at hleaves
    rw [show r.outcome.1 = .blocked from hleaves] at htext
    cases htext

end CloneRun

namespace CloneRun

variable {r : CloneRun} {a : CloneArgs}

/-- A region that the check rejects. -/
theorem clones_of_large (ha : cloneArgs? r.ctx = some a) (hsize : a.total > 32768) : r.Clones := by
  have hout := outcome_of_fail ((cloneCommand_of_some ha r.host).trans
    (cloneRegion_large hsize r.host r.ctx))
  refine ⟨fun a' ha' => ?_, .inl ⟨_, hout⟩⟩
  rw [ha] at ha'
  cases ha'
  rw [hout]
  refine iff_of_true rfl ?_
  by_contra hsmall
  have hle := size32_le (Nat.le_of_not_lt hsmall)
  rw [total_gt_iff] at hsize
  omega

/-- Without a chunk store the command fails. -/
theorem clones_iff_of_unavailable (ha : cloneArgs? r.ctx = some a) (hsize : ¬ a.total > 32768)
    (hstore : r.ctx.chunkStore = false) : r.Clones ↔ ¬ 32768 < a.cells := by
  have hout := outcome_of_fail ((cloneCommand_of_some ha r.host).trans
    (cloneRegion_unavailable hsize r.host hstore))
  have hother : r.outcome.1 ≠ .err "Too many blocks (max 32768)" := by
    rw [hout]
    intro h
    exact absurd (Reply.err.inj h) (by decide)
  constructor
  · intro h hlarge
    exact hother ((h.size a ha).2 hlarge)
  · refine fun hsmall => ⟨fun a' ha' => ?_, .inl ⟨_, hout⟩⟩
    rw [ha] at ha'
    cases ha'
    exact iff_of_false hother hsmall

/-- With a chunk store a region that passes the check is copied, or the command hangs. -/
theorem clones_iff_of_loops (ha : cloneArgs? r.ctx = some a) (hsize : ¬ a.total > 32768)
    (hstore : r.ctx.chunkStore = true) : r.Clones ↔ ¬ 32768 < a.cells ∧ r.Safe a := by
  have hleaves := leaves_outcome ha hsize hstore
  have hother : ∀ e, r.outcome.1 ≠ .err e := by
    intro e
    cases hcopy : copyCells r.host a a.region r.server.chunks with
    | none =>
        rw [hcopy] at hleaves
        intro h
        cases hleaves.symm.trans h
    | some w =>
        rw [hcopy] at hleaves
        obtain ⟨text, htext⟩ := hleaves
        rw [htext]
        intro h
        cases h
  constructor
  · intro h
    have hsmall : ¬ 32768 < a.cells := fun hlarge => hother _ ((h.size a ha).2 hlarge)
    refine ⟨hsmall, (copies_iff ha (Nat.le_of_not_lt hsmall) hstore).1 ?_⟩
    rcases h.ends with ⟨e, he⟩ | ⟨text, htext, hall⟩
    · exact absurd (congrArg Prod.fst he) (hother e)
    · exact ⟨text, htext, hall a ha⟩
  · rintro ⟨hsmall, hsafe⟩
    obtain ⟨text, htext, harrives⟩ := (copies_iff ha (Nat.le_of_not_lt hsmall) hstore).2 hsafe
    refine ⟨fun a' ha' => ?_, .inr ⟨text, htext, fun a' ha' => ?_⟩⟩
    · rw [ha] at ha'
      cases ha'
      exact iff_of_false (hother _) hsmall
    · rw [ha] at ha'
      cases ha'
      exact harrives

end CloneRun

/-- **`/clone` does what it should** exactly when it finds every large region large, no cell hangs it,
    and no cell is overwritten by another block before it is copied. -/
theorem clones_iff (r : CloneRun) : r.Clones ↔ ∀ a, cloneArgs? r.ctx = some a →
    (32768 < a.cells → 32768 < a.size32) ∧
      (a.cells ≤ 32768 → r.ctx.chunkStore = true → r.Safe a) := by
  cases ha : cloneArgs? r.ctx with
  | none =>
      obtain ⟨e, he⟩ := cloneCommand_of_none ha r.host
      refine iff_of_true ⟨fun a h => ?_, .inl ⟨e, r.outcome_of_fail he⟩⟩ fun a h => ?_
      · rw [ha] at h
        cases h
      · cases h
  | some a =>
      simp only [Option.some.injEq, forall_eq']
      by_cases hsize : a.total > 32768
      · refine iff_of_true (CloneRun.clones_of_large ha hsize) ?_
        rw [total_gt_iff] at hsize
        refine ⟨fun _ => hsize, fun hsmall => ?_⟩
        have hle := size32_le hsmall
        omega
      · cases hstore : r.ctx.chunkStore with
        | false =>
            rw [CloneRun.clones_iff_of_unavailable ha hsize hstore]
            rw [total_gt_iff] at hsize
            simp [hsize]
        | true =>
            rw [CloneRun.clones_iff_of_loops ha hsize hstore]
            rw [total_gt_iff] at hsize
            constructor
            · rintro ⟨hsmall, hsafe⟩
              exact ⟨fun hlarge => absurd hlarge hsmall, fun _ _ => hsafe⟩
            · rintro ⟨hlarge, hsafe⟩
              have hsmall : ¬ 32768 < a.cells := fun h => hsize (hlarge h)
              exact ⟨hsmall, hsafe (Nat.le_of_not_lt hsmall) rfl⟩

/-- Stone above the corner of a chunk, in loaded chunks of air. -/
theorem registered_stone :
    Registered (Redstone.built [(⟨0#32, 64#32, 0#32⟩, BlockState.new 1#32)]) :=
  Redstone.registered_built (by decide)

/-- `/clone 0 64 0 16 64 0 16 0 0` -/
def overlapping : CloneRun where
  host := guestHost
  ctx := ⟨.console, ["0", "64", "0", "16", "64", "0", "16", "0", "0"], "", 20, true, true⟩
  server := { guestServer with
    chunks := Redstone.built [(⟨0#32, 64#32, 0#32⟩, BlockState.new 1#32)] }
  registered := registered_stone

/-- **The block copied sixteen cells on is copied again.** -/
theorem not_forall_clones : ¬ ∀ r : CloneRun, r.Clones := by
  intro hall
  let a : CloneArgs := ⟨0, 64, 0, 16, 64, 0, 16, 0, 0⟩
  let w := overlapping.server.chunks
  have ha : cloneArgs? overlapping.ctx = some a := by rfl
  have hsize : ¬ a.total > 32768 := by
    rw [total_gt_iff]
    decide
  have hsteady := ((CloneRun.clones_iff_of_loops ha hsize rfl).1 (hall overlapping)).2.steady
  let first : CloneCell := ⟨0, ⟨64, by decide⟩, 0⟩
  let later : CloneCell := ⟨16, ⟨64, by decide⟩, 0⟩
  have hregion : [first, later].Sublist a.region := by decide
  have hcopy : ∀ c t, a.target? c = some t → a.copy? w c = some (c.source, t) := by
    intro c t ht
    unfold CloneArgs.copy?
    rw [ht, Option.bind_some, if_pos]
    exact ⟨Redstone.loaded_built _ _, Redstone.loaded_built _ _⟩
  have hfirst := hcopy first later.source (by decide)
  have hlater := hcopy later ⟨⟨2#32, 0#32⟩, 0, ⟨64, by decide⟩, 0⟩ (by decide)
  have hcopies := hregion.filterMap (a.copy? w)
  rw [List.filterMap_cons_some hfirst, List.filterMap_cons_some hlater] at hcopies
  have hsame := List.rel_of_pairwise_cons (hsteady.sublist hcopies) List.mem_cons_self rfl
  have hid : ∀ p c, Redstone.siteOf p = some c → idIn w c = _ := fun p c hp =>
    (Redstone.idAt_of_siteOf hp w).symm.trans (Redstone.idAt_built (by decide) p)
  have hstone := hid ⟨0#32, 64#32, 0#32⟩ first.source (by decide)
  have hair := hid ⟨16#32, 64#32, 0#32⟩ later.source (by decide)
  dsimp only at hsame
  rw [hstone, hair] at hsame
  exact absurd hsame (by decide)

end Apoptotic.Commands
