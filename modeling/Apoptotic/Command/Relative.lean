import Apoptotic.Command.Clone
import Apoptotic.Command.Escalation

/-!
# Relative coordinates

What `/execute` makes of the tildes in the command it hands on, nested to any depth.  The arguments
are words, so the tests for `"~ ~"` and `"~ ~ ~"` never succeed, and every tilde becomes an x.

Principal result: `follows_iff` — the tildes of a triple become the x, the y and the z of the
executor exactly when the three read like the first x that is given, unless an `at` takes its
target for the `run`.
-/

namespace Apoptotic.Commands

open Calls

/-! ## Lines -/

/-- One `/execute` of a line; `at` comes with the player that its selector finds. -/
inductive Modifier where
  | as (selector : String)
  | at (selector : String) (q : Player)
  | positioned (x y z : String)

/-- A tilde replaced. -/
def fillTilde (t w : String) : String := if w = "~" then t else w

structure Coords where
  x : String
  y : String
  z : String

namespace Modifier

def words : Modifier → List String
  | as selector => ["as", selector]
  | «at» selector _ => ["at", selector]
  | positioned x y z => ["positioned", x, y, z]

/-- The player at whose position the command runs. -/
def player : Modifier → Option Player
  | «at» _ q => some q
  | _ => none

/-- Where the command runs, when the modifier itself is run at `c`. -/
def coords (c : Coords) : Modifier → Coords
  | as _ => c
  | «at» _ q => ⟨toString (floatToI32 q.position.x.floor), toString (floatToI32 q.position.y.floor),
      toString (floatToI32 q.position.z.floor)⟩
  | positioned x y z => ⟨fillTilde c.x x, fillTilde c.y y, fillTilde c.z z⟩

/-- The x that the code puts in place of every tilde. -/
def text : Modifier → String
  | as _ => "~"
  | «at» _ q => toString (floatToI32 q.position.x)
  | positioned x _ _ => x

end Modifier

/-- The arguments of nested `/execute`s. -/
def lineWords : List Modifier → List String → List String
  | [], cmd => cmd
  | m :: ms, cmd => "execute" :: (m.words ++ "run" :: lineWords ms cmd)

/-- Where the command of a line runs. -/
def executor (ms : List Modifier) : Coords := ms.foldl (fun c m => m.coords c) ⟨"~", "~", "~"⟩

/-- The first x that is not itself a tilde. -/
def firstText (ms : List Modifier) : String := ((ms.map Modifier.text).find? (· ≠ "~")).getD "~"

/-! ## What `/execute` hands on -/

section

variable (host : Host) (disp : CommandDispatcher)

/-- The dispatch of `ctx` in state `s` runs `/execute`, which dispatches a context again; a player
is the one whose position it uses. -/
inductive HandsOn (ctx : CommandContext) (s : Server) :
    Option Player → CommandContext → Server → Prop where
  | asTarget {arg args pre t post sub s₁ notes s₂} (hargs : ctx.args = arg :: args)
      (hfind : disp.find host arg = some .execute)
      (hexec : (execution host { ctx with args := args }).call s =
        (.ok (.asTargets (pre ++ t :: post) sub), s₁))
      (hpre : Call.collect (runAs (disp.redispatch host ctx args.length) sub) pre s₁ =
        (.ok notes, s₂)) :
      HandsOn ctx s none { ctx with source := .player t.1 t.2, args := sub.1 } s₂
  | atTarget {arg args pre t post sub s₁ notes s₂ q} (hargs : ctx.args = arg :: args)
      (hfind : disp.find host arg = some .execute)
      (hexec : (execution host { ctx with args := args }).call s =
        (.ok (.atTargets (pre ++ t :: post) sub), s₁))
      (hpre : Call.collect (runAt ctx.source (disp.redispatch host ctx args.length) sub) pre s₁ =
        (.ok notes, s₂))
      (hq : s₂.get t.1 = some q) :
      HandsOn ctx s (some q) { ctx with args := (RunArgs.resolveAt sub q).1 } s₂
  | positioned {arg args sub s₁} (hargs : ctx.args = arg :: args)
      (hfind : disp.find host arg = some .execute)
      (hexec : (execution host { ctx with args := args }).call s = (.ok (.positioned sub), s₁)) :
      HandsOn ctx s none { ctx with args := sub.1 } s₁

/-- Nested `/execute`s hand a context on, from the outermost to the innermost. -/
inductive Chain : CommandContext → Server → List (Option Player) → CommandContext → Server →
    Prop where
  | done (ctx s) : Chain ctx s [] ctx s
  | step {ctx s q ctx₁ s₁ qs ctx₂ s₂} (hstep : HandsOn host disp ctx s q ctx₁ s₁)
      (hrest : Chain ctx₁ s₁ qs ctx₂ s₂) : Chain ctx s (q :: qs) ctx₂ s₂

/-- What is handed on is dispatched again. -/
theorem HandsOn.redispatches {ctx ctx' : CommandContext} {s s' : Server} {q : Option Player}
    (h : HandsOn host disp ctx s q ctx' s') : ∃ arg args source sub,
      ctx.args = arg :: args ∧ disp.find host arg = some .execute ∧
      Redispatches host { ctx with args := args } (disp.redispatch host ctx args.length) s source
        sub s' ∧
      ctx' = { ctx with source := source, args := sub.1 } := by
  cases h with
  | asTarget hargs hfind hexec hpre =>
      exact ⟨_, _, _, _, hargs, hfind, .asTarget hexec hpre, rfl⟩
  | atTarget hargs hfind hexec hpre hq =>
      exact ⟨_, _, _, _, hargs, hfind, .atTarget hexec hpre hq, rfl⟩
  | positioned hargs hfind hexec =>
      exact ⟨_, _, _, _, hargs, hfind, .positioned hexec, rfl⟩

end

/-- A word: without a blank. -/
def NoBlank (w : String) : Prop := ' ' ∉ w.toList

/-- The words of a modifier are words, and its selector is not a tilde. -/
def Modifier.Valid : Modifier → Prop
  | as selector => NoBlank selector ∧ selector ≠ "~"
  | «at» selector _ => NoBlank selector ∧ selector ≠ "~"
  | positioned x y z => NoBlank x ∧ NoBlank y ∧ NoBlank z

/-- The `run` that stays in front of the command when an `at` takes its target for it. -/
def Modifier.leftover (host : Host) : Modifier → List String
  | «at» selector _ => if host.toLowercase selector = "run" then ["run"] else []
  | _ => []

/-- The words of `/execute` itself. -/
def keywords : List String := ["execute", "as", "at", "positioned", "run"]

/-- A line of nested `/execute`s around a command with a triple of tildes, and what the innermost
one hands on. -/
structure ExecuteRun where
  host : Host
  disp : CommandDispatcher
  modifiers : List Modifier
  before : List String
  after : List String
  ctx : CommandContext
  server : Server
  handed : CommandContext
  serverThen : Server
  lowercase : ∀ w ∈ keywords, host.toLowercase w = w
  valid : ∀ m ∈ modifiers, m.Valid
  plain : ∀ w ∈ before ++ after, NoBlank w ∧ w ≠ "~"
  starts : ctx.args = lineWords modifiers (before ++ ["~", "~", "~"] ++ after)
  chain : Chain host disp ctx server (modifiers.map Modifier.player) handed serverThen

namespace ExecuteRun

variable (r : ExecuteRun)

/-- The tildes have become the coordinates of the executor. -/
def Follows : Prop :=
  r.handed.args = r.before ++
    [(executor r.modifiers).x, (executor r.modifiers).y, (executor r.modifiers).z] ++ r.after

/-- No `at` takes its target for the `run`, and the coordinates of the executor read like the first
x. -/
structure Coincide : Prop where
  selectors : ∀ m ∈ r.modifiers, m.leftover r.host = []
  x : (executor r.modifiers).x = firstText r.modifiers
  y : (executor r.modifiers).y = firstText r.modifiers
  z : (executor r.modifiers).z = firstText r.modifiers

end ExecuteRun

/-! ## One `/execute` -/

section Step

variable {host : Host} {disp : CommandDispatcher} {ctx ctx' : CommandContext} {s s₁ s' : Server}

theorem fillTilde_of_ne {t w : String} (h : w ≠ "~") : fillTilde t w = w := by
  simp [fillTilde, h]

theorem NoBlank.ne {w v : String} (h : NoBlank w) (hv : ' ' ∈ v.toList) : w ≠ v := by
  rintro rfl
  exact h hv

theorem resolveArg_eq (q : Player) {w : String} (h : NoBlank w) :
    resolveArg q w = fillTilde (toString (floatToI32 q.position.x)) w := by
  have hne : w ≠ "~ ~" := h.ne (by decide)
  simp [resolveArg, fillTilde, hne]

/-- The text of a number is digits, after a sign. -/
theorem isDigit_of_mem_toString {i : Int} {c : Char} (h : c ∈ (toString i).toList) :
    c = '-' ∨ c.isDigit := by
  rw [show toString i = i.repr from rfl, Int.repr_eq_if] at h
  split at h
  · rw [Nat.toList_repr] at h
    exact Or.inr (Text.isDigit_of_mem_toDigits h)
  · rw [String.toList_append, Nat.toList_repr, List.mem_append] at h
    refine h.imp (fun hsign => ?_) Text.isDigit_of_mem_toDigits
    simpa using hsign

theorem noBlank_toString (i : Int) : NoBlank (toString i) := fun h =>
  absurd (isDigit_of_mem_toString h) (by decide)

theorem targets_of_ok {α : Type} {target none : String} {g : List (Uuid × String) → α} {a : α}
    (h : (someTargets host ctx target none >>= fun targets => pure (g targets)).call s =
      (.ok a, s₁)) : ∃ targets, a = g targets := by
  by_cases hnil : playerTargets host s ctx.source target = []
  · rw [Keeping.bind_call, Call.bind_of_err (someTargets_of_nil hnil none)] at h
    cases h
  · rw [Keeping.bind_call, Call.bind_of_ok (someTargets_of_ne_nil hnil none)] at h
    cases h
    exact ⟨_, rfl⟩

theorem executeAs_of_ok {h : 4 ≤ ctx.args.length} {i : Nat} {ex}
    (hidx : runIndex host ctx.args = some i)
    (hexec : (executeAs host ctx h).call s = (.ok ex, s₁)) :
    2 ≤ i ∧ ∃ targets, ex = .asTargets targets (runArgs h i id) := by
  unfold executeAs at hexec
  rw [orFail_bind_of_some hidx] at hexec
  split at hexec
  · cases hexec
  · exact ⟨by omega, targets_of_ok hexec⟩

theorem executeAt_of_ok {h : 4 ≤ ctx.args.length} {i : Nat} {ex}
    (hidx : runIndex host ctx.args = some i)
    (hexec : (executeAt host ctx h).call s = (.ok ex, s₁)) :
    ∃ targets, ex = .atTargets targets (runArgs h i id) := by
  unfold executeAt at hexec
  rw [orFail_bind_of_some hidx] at hexec
  exact targets_of_ok hexec

/-- What replaces a tilde at a position. -/
theorem executePositioned_of_ok {h : 4 ≤ ctx.args.length} {x y z : String} {rest : List String} {ex}
    (hargs : ctx.args = "positioned" :: x :: y :: z :: "run" :: rest)
    (hwords : ∀ w ∈ rest, NoBlank w)
    (hexec : (executePositioned host ctx h).call s = (.ok ex, s₁)) :
    ∃ sub, ex = .positioned sub ∧ sub.1 = rest.map (fillTilde x) := by
  unfold executePositioned at hexec
  split at hexec
  · cases hexec
  dsimp only at hexec
  split at hexec
  · cases hexec
  cases hexec
  refine ⟨_, rfl, ?_⟩
  simp only [runArgs, CommandContext.arg, hargs]
  refine List.map_congr_left fun w hw => ?_
  have htwo : w ≠ "~ ~" := (hwords w hw).ne (by decide)
  have hthree : w ≠ "~ ~ ~" := (hwords w hw).ne (by decide)
  simp [fillTilde, htwo, hthree]

theorem execution_as {sel : String} {rest : List String} {ex}
    (hl : ∀ w ∈ keywords, host.toLowercase w = w) (hargs : ctx.args = "as" :: sel :: "run" :: rest)
    (hexec : (execution host ctx).call s = (.ok ex, s₁)) :
    ∃ targets sub, ex = .asTargets targets sub ∧ sub.1 = rest := by
  have has : host.toLowercase "as" = "as" := hl _ (by simp [keywords])
  have hrun : host.toLowercase "run" = "run" := hl _ (by simp [keywords])
  have hmod : host.toLowercase (ctx.arg 0) = "as" := by simp [CommandContext.arg, hargs, has]
  unfold execution at hexec
  split at hexec
  · simp only [hmod] at hexec
    by_cases hsel : host.toLowercase sel = "run"
    · have hidx : runIndex host ctx.args = some 1 := by
        simp [runIndex, hargs, List.findIdx?_cons, has, hsel]
      have htwo := (executeAs_of_ok hidx hexec).1
      omega
    · have hidx : runIndex host ctx.args = some 2 := by
        simp [runIndex, hargs, List.findIdx?_cons, has, hsel, hrun]
      obtain ⟨-, targets, rfl⟩ := executeAs_of_ok hidx hexec
      exact ⟨_, _, rfl, by simp [runArgs, hargs]⟩
  · cases hexec

theorem execution_at {sel : String} {rest : List String} {q : Player} {ex}
    (hl : ∀ w ∈ keywords, host.toLowercase w = w) (hargs : ctx.args = "at" :: sel :: "run" :: rest)
    (hexec : (execution host ctx).call s = (.ok ex, s₁)) :
    ∃ targets sub, ex = .atTargets targets sub ∧
      sub.1 = (Modifier.at sel q).leftover host ++ rest := by
  have hat : host.toLowercase "at" = "at" := hl _ (by simp [keywords])
  have hrun : host.toLowercase "run" = "run" := hl _ (by simp [keywords])
  have hmod : host.toLowercase (ctx.arg 0) = "at" := by simp [CommandContext.arg, hargs, hat]
  unfold execution at hexec
  split at hexec
  · simp only [hmod] at hexec
    by_cases hsel : host.toLowercase sel = "run"
    · have hidx : runIndex host ctx.args = some 1 := by
        simp [runIndex, hargs, List.findIdx?_cons, hat, hsel]
      obtain ⟨targets, rfl⟩ := executeAt_of_ok hidx hexec
      exact ⟨_, _, rfl, by simp [runArgs, hargs, Modifier.leftover, hsel]⟩
    · have hidx : runIndex host ctx.args = some 2 := by
        simp [runIndex, hargs, List.findIdx?_cons, hat, hsel, hrun]
      obtain ⟨targets, rfl⟩ := executeAt_of_ok hidx hexec
      exact ⟨_, _, rfl, by simp [runArgs, hargs, Modifier.leftover, hsel]⟩
  · cases hexec

theorem execution_positioned {x y z : String} {rest : List String} {ex}
    (hl : ∀ w ∈ keywords, host.toLowercase w = w)
    (hargs : ctx.args = "positioned" :: x :: y :: z :: "run" :: rest)
    (hwords : ∀ w ∈ rest, NoBlank w)
    (hexec : (execution host ctx).call s = (.ok ex, s₁)) :
    ∃ sub, ex = .positioned sub ∧ sub.1 = rest.map (fillTilde x) := by
  have hpos : host.toLowercase "positioned" = "positioned" := hl _ (by simp [keywords])
  have hmod : host.toLowercase (ctx.arg 0) = "positioned" := by
    simp [CommandContext.arg, hargs, hpos]
  unfold execution at hexec
  split at hexec
  · simp only [hmod] at hexec
    exact executePositioned_of_ok hargs hwords hexec
  · cases hexec

/-- Another word is no modifier. -/
theorem execution_of_execute {rest : List String} {ex}
    (hl : ∀ w ∈ keywords, host.toLowercase w = w) (hargs : ctx.args = "execute" :: rest) :
    (execution host ctx).call s ≠ (.ok ex, s₁) := by
  have hmod : host.toLowercase (ctx.arg 0) = "execute" := by
    simp [CommandContext.arg, hargs, hl "execute" (by simp [keywords])]
  intro hexec
  unfold execution at hexec
  split at hexec
  · simp only [hmod] at hexec
    cases hexec
  · cases hexec

theorem fillTilde_tilde : fillTilde "~" = id := by
  funext w
  by_cases h : w = "~" <;> simp [fillTilde, h]

theorem Modifier.leftover_eq (m : Modifier) (host : Host) :
    m.leftover host = [] ∨ m.leftover host = ["run"] := by
  cases m with
  | «at» sel q =>
      by_cases hrun : host.toLowercase sel = "run" <;> simp [leftover, hrun]
  | as sel => exact Or.inl rfl
  | positioned x y z => exact Or.inl rfl

theorem noBlank_run : NoBlank "run" := by
  simp [NoBlank]

theorem noBlank_of_mem_leftover {m : Modifier} {w : String} (h : w ∈ m.leftover host) :
    NoBlank w := by
  rcases m.leftover_eq host with hm | hm
  · simp [hm] at h
  · rw [hm, List.mem_singleton] at h
    exact h ▸ noBlank_run

theorem Modifier.leftover_fill (m : Modifier) (host : Host) (t : String) :
    (m.leftover host).map (fillTilde t) = m.leftover host := by
  rcases m.leftover_eq host with hm | hm <;> simp [hm, fillTilde]

/-- **What one `/execute` hands on**: its command with the x of its own in place of every tilde. -/
theorem HandsOn.args_eq {m : Modifier} {rest : List String}
    (hl : ∀ w ∈ keywords, host.toLowercase w = w)
    (hargs : ctx.args = "execute" :: (m.words ++ "run" :: rest)) (hwords : ∀ w ∈ rest, NoBlank w)
    (h : HandsOn host disp ctx s m.player ctx' s') :
    ctx'.args = m.leftover host ++ rest.map (fillTilde m.text) := by
  cases m with
  | as sel =>
      cases h with
      | asTarget hargs' _ hexec _ =>
          rw [hargs] at hargs'
          cases hargs'
          obtain ⟨_, _, heq, hsub⟩ := execution_as hl rfl hexec
          cases heq
          simp [hsub, Modifier.leftover, Modifier.text, fillTilde_tilde]
      | positioned hargs' _ hexec =>
          rw [hargs] at hargs'
          cases hargs'
          obtain ⟨_, _, heq, -⟩ := execution_as hl rfl hexec
          cases heq
  | «at» sel q =>
      cases h with
      | atTarget hargs' _ hexec _ _ =>
          rw [hargs] at hargs'
          cases hargs'
          obtain ⟨_, _, heq, hsub⟩ := execution_at (q := q) hl rfl hexec
          cases heq
          have hresolve : ∀ w ∈ (Modifier.at sel q).leftover host ++ rest,
              resolveArg q w = fillTilde (toString (floatToI32 q.position.x)) w := by
            intro w hw
            rcases List.mem_append.1 hw with hw | hw
            · exact resolveArg_eq q (noBlank_of_mem_leftover hw)
            · exact resolveArg_eq q (hwords w hw)
          change List.map (resolveArg q) _ = _
          rw [hsub, List.map_congr_left hresolve, List.map_append, Modifier.leftover_fill]
          rfl
  | positioned x y z =>
      cases h with
      | asTarget hargs' _ hexec _ =>
          rw [hargs] at hargs'
          cases hargs'
          obtain ⟨_, heq, -⟩ := execution_positioned hl rfl hwords hexec
          cases heq
      | positioned hargs' _ hexec =>
          rw [hargs] at hargs'
          cases hargs'
          obtain ⟨_, heq, hsub⟩ := execution_positioned hl rfl hwords hexec
          cases heq
          simp [hsub, Modifier.leftover, Modifier.text]

end Step

/-! ## Nested `/execute`s -/

section Nested

variable {host : Host} {disp : CommandDispatcher} {ctx ctx' : CommandContext} {s s' : Server}

theorem NoBlank.fillTilde {t w : String} (ht : NoBlank t) (hw : NoBlank w) :
    NoBlank (Commands.fillTilde t w) := by
  unfold Commands.fillTilde
  split
  · exact ht
  · exact hw

namespace Modifier

/-- The modifier with its tildes replaced. -/
def fill (t : String) : Modifier → Modifier
  | positioned x y z => positioned (fillTilde t x) (fillTilde t y) (fillTilde t z)
  | m => m

variable (t : String) (m : Modifier)

theorem player_fill : (m.fill t).player = m.player := by
  cases m <;> rfl

theorem leftover_of_fill : (m.fill t).leftover host = m.leftover host := by
  cases m <;> rfl

variable {t m}

theorem words_fill (h : m.Valid) : (m.fill t).words = m.words.map (fillTilde t) := by
  cases m with
  | as sel => simp [words, fill, fillTilde, h.2]
  | «at» sel q => simp [words, fill, fillTilde, h.2]
  | positioned x y z => simp [words, fill, fillTilde]

theorem Valid.words (h : m.Valid) : ∀ w ∈ m.words, NoBlank w := by
  have hword : ∀ w ∈ keywords, NoBlank w := by simp [keywords, NoBlank]
  cases m with
  | as sel =>
      have has := hword "as" (by simp [keywords])
      simpa [Modifier.words, has] using h.1
  | «at» sel q =>
      have hat := hword "at" (by simp [keywords])
      simpa [Modifier.words, hat] using h.1
  | positioned x y z =>
      have hpos := hword "positioned" (by simp [keywords])
      obtain ⟨hx, hy, hz⟩ := h
      simp [Modifier.words, hpos, hx, hy, hz]

theorem Valid.fill (ht : NoBlank t) (h : m.Valid) : (m.fill t).Valid := by
  cases m with
  | as sel => exact h
  | «at» sel q => exact h
  | positioned x y z =>
      exact ⟨ht.fillTilde h.1, ht.fillTilde h.2.1, ht.fillTilde h.2.2⟩

theorem Valid.text (h : m.Valid) : NoBlank m.text := by
  cases m with
  | as sel => simp [Modifier.text, NoBlank]
  | «at» sel q => exact noBlank_toString _
  | positioned x y z => exact h.1

end Modifier

theorem noBlank_lineWords {ms : List Modifier} {cmd : List String} (hms : ∀ m ∈ ms, m.Valid)
    (hcmd : ∀ w ∈ cmd, NoBlank w) : ∀ w ∈ lineWords ms cmd, NoBlank w := by
  induction ms with
  | nil => exact hcmd
  | cons m ms ih =>
      rw [List.forall_mem_cons] at hms
      have hrest := ih hms.2
      have hwords := hms.1.words
      have hexecute : NoBlank "execute" := by simp [NoBlank]
      intro w hw
      simp only [lineWords, List.mem_cons, List.mem_append] at hw
      rcases hw with rfl | hw | rfl | hw
      · exact hexecute
      · exact hwords w hw
      · exact noBlank_run
      · exact hrest w hw

theorem lineWords_fill {ms : List Modifier} {cmd : List String} (hms : ∀ m ∈ ms, m.Valid)
    (t : String) : (lineWords ms cmd).map (fillTilde t) =
      lineWords (ms.map (Modifier.fill t)) (cmd.map (fillTilde t)) := by
  induction ms with
  | nil => rfl
  | cons m ms ih =>
      rw [List.forall_mem_cons] at hms
      have hexecute : fillTilde t "execute" = "execute" := fillTilde_of_ne (by decide)
      have hrun : fillTilde t "run" = "run" := fillTilde_of_ne (by decide)
      simp [lineWords, ih hms.2, Modifier.words_fill hms.1, hexecute, hrun]

/-- Once a tilde is replaced, nothing further out replaces it. -/
theorem fillTilde_fillTilde {t : String} (ht : t ≠ "~") (u w : String) :
    fillTilde u (fillTilde t w) = fillTilde t w := by
  by_cases hw : w = "~" <;> simp [fillTilde, hw, ht]

theorem firstText_cons_of_ne {m : Modifier} (h : m.text ≠ "~") (ms : List Modifier) :
    firstText (m :: ms) = m.text := by
  simp [firstText, h]

theorem firstText_cons_of_eq {m : Modifier} (h : m.text = "~") (ms : List Modifier) :
    firstText (m :: ms) = firstText ms := by
  simp [firstText, h]

/-- A `run` is no command that hands on. -/
theorem not_handsOn_run {q : Option Player} {m : Modifier} {ms : List Modifier} {cmd : List String}
    (hl : ∀ w ∈ keywords, host.toLowercase w = w)
    (hargs : ctx.args = "run" :: lineWords (m :: ms) cmd) :
    ¬ HandsOn host disp ctx s q ctx' s' := by
  intro h
  have hnot : ∀ args : List String, "run" :: lineWords (m :: ms) cmd = "run" :: args → ∀ ex s₁,
      (execution host { ctx with args := args }).call s ≠ (.ok ex, s₁) := by
    rintro args heq ex s₁
    cases heq
    exact execution_of_execute hl rfl
  cases h with
  | asTarget hargs' _ hexec _ =>
      rw [hargs] at hargs'
      cases hargs'
      exact hnot _ rfl _ _ hexec
  | atTarget hargs' _ hexec _ _ =>
      rw [hargs] at hargs'
      cases hargs'
      exact hnot _ rfl _ _ hexec
  | positioned hargs' _ hexec =>
      rw [hargs] at hargs'
      cases hargs'
      exact hnot _ rfl _ _ hexec

theorem fill_tilde : Modifier.fill "~" = id := by
  funext m
  cases m <;> simp [Modifier.fill, fillTilde_tilde]

theorem flatMap_leftover_fill (ms : List Modifier) (t : String) :
    (ms.map (Modifier.fill t)).flatMap (Modifier.leftover host) =
      ms.flatMap (Modifier.leftover host) := by
  have hm : (fun m => (Modifier.fill t m).leftover host) = Modifier.leftover host :=
    funext fun m => m.leftover_of_fill t
  rw [List.flatMap_map, hm]

/-- The x that a command filled by the outermost `/execute` is filled with further in. -/
theorem map_fillTilde_firstText (m : Modifier) (ms : List Modifier) (cmd : List String) :
    (cmd.map (fillTilde m.text)).map (fillTilde (firstText (ms.map (Modifier.fill m.text)))) =
      cmd.map (fillTilde (firstText (m :: ms))) := by
  by_cases h : m.text = "~"
  · rw [firstText_cons_of_eq h, h, fill_tilde, fillTilde_tilde, List.map_id, List.map_id]
  · rw [firstText_cons_of_ne h, List.map_map]
    exact List.map_congr_left fun w _ => fillTilde_fillTilde h _ w

/-- **What the innermost `/execute` hands on**: the command with the first x in place of every
tilde. -/
theorem Chain.args_eq {ms : List Modifier} {cmd : List String}
    (hl : ∀ w ∈ keywords, host.toLowercase w = w) (hms : ∀ m ∈ ms, m.Valid)
    (hcmd : ∀ w ∈ cmd, NoBlank w) (hargs : ctx.args = lineWords ms cmd)
    (h : Chain host disp ctx s (ms.map Modifier.player) ctx' s') :
    ctx'.args = ms.flatMap (Modifier.leftover host) ++ cmd.map (fillTilde (firstText ms)) := by
  generalize hqs : ms.map Modifier.player = qs at h
  induction h generalizing ms cmd with
  | done ctx s =>
      obtain rfl : ms = [] := by simpa using hqs
      simpa [firstText, fillTilde_tilde, lineWords] using hargs
  | step hstep hrest ih =>
      obtain _ | ⟨m, ms⟩ := ms
      · cases hqs
      rw [List.map_cons, List.cons.injEq] at hqs
      obtain ⟨rfl, hqs⟩ := hqs
      rw [List.forall_mem_cons] at hms
      obtain ⟨hm, hms⟩ := hms
      have hargs₁ := hstep.args_eq hl hargs (noBlank_lineWords hms hcmd)
      rw [lineWords_fill hms] at hargs₁
      rcases m.leftover_eq host with hrun | hrun
      · -- the rest of the line is nested `/execute`s again, filled with the x of the outermost
        rw [hrun, List.nil_append] at hargs₁
        have hms₁ : ∀ n ∈ ms.map (Modifier.fill m.text), n.Valid :=
          List.forall_mem_map.2 fun n hn => (hms n hn).fill hm.text
        have hcmd₁ : ∀ w ∈ cmd.map (fillTilde m.text), NoBlank w :=
          List.forall_mem_map.2 fun w hw => hm.text.fillTilde (hcmd w hw)
        have hqs₁ : (ms.map (Modifier.fill m.text)).map Modifier.player =
            ms.map Modifier.player := by
          rw [List.map_map]
          exact List.map_congr_left fun n _ => n.player_fill m.text
        rw [ih hms₁ hcmd₁ hargs₁ (hqs₁.trans hqs), flatMap_leftover_fill, map_fillTilde_firstText,
          List.flatMap_cons, hrun, List.nil_append]
      · rw [hrun] at hargs₁
        cases ms with
        | nil =>
            cases hqs
            cases hrest
            have hempty := map_fillTilde_firstText m [] cmd
            rw [List.map_nil, firstText, List.map_nil, List.find?_nil, Option.getD_none,
              fillTilde_tilde, List.map_id] at hempty
            rw [hargs₁, ← hempty, List.flatMap_cons, hrun]
            rfl
        | cons m' ms =>
            cases hqs
            cases hrest with
            | step hstep' _ => exact absurd hstep' (not_handsOn_run hl hargs₁)

end Nested

/-! ## Whole lines -/

namespace ExecuteRun

variable (r : ExecuteRun)

theorem map_fillTilde_plain {ws : List String} (h : ∀ w ∈ ws, NoBlank w ∧ w ≠ "~") (t : String) :
    ws.map (fillTilde t) = ws := by
  conv_rhs => rw [← List.map_id ws]
  exact List.map_congr_left fun w hw => fillTilde_of_ne (h w hw).2

theorem handed_args : r.handed.args = r.modifiers.flatMap (Modifier.leftover r.host) ++
    (r.before ++ [firstText r.modifiers, firstText r.modifiers, firstText r.modifiers] ++
      r.after) := by
  have hbefore := fun w hw => r.plain w (List.mem_append_left _ hw)
  have hafter := fun w hw => r.plain w (List.mem_append_right _ hw)
  have htilde : NoBlank "~" := by simp [NoBlank]
  have hcmd : ∀ w ∈ r.before ++ ["~", "~", "~"] ++ r.after, NoBlank w := by
    intro w hw
    simp only [List.mem_append, List.mem_cons, List.not_mem_nil, or_false, or_self] at hw
    rcases hw with (hw | rfl) | hw
    · exact (hbefore w hw).1
    · exact htilde
    · exact (hafter w hw).1
  rw [r.chain.args_eq r.lowercase r.valid hcmd r.starts, List.map_append, List.map_append,
    map_fillTilde_plain hbefore, map_fillTilde_plain hafter]
  simp [fillTilde]

/-- **When relative coordinates follow the executor.** -/
theorem follows_iff : r.Follows ↔ r.Coincide := by
  unfold Follows
  rw [r.handed_args]
  constructor
  · intro h
    have hlength := congrArg List.length h
    simp only [List.length_append, List.length_cons, List.length_nil] at hlength
    have hnil : r.modifiers.flatMap (Modifier.leftover r.host) = [] :=
      List.length_eq_zero_iff.1 (by omega)
    rw [hnil, List.nil_append, List.append_cancel_right_eq, List.append_cancel_left_eq] at h
    simp only [List.cons.injEq, and_true] at h
    exact ⟨List.flatMap_eq_nil_iff.1 hnil, h.1.symm, h.2.1.symm, h.2.2.symm⟩
  · intro h
    rw [List.flatMap_eq_nil_iff.2 h.selectors, h.x, h.y, h.z, List.nil_append]

end ExecuteRun

/-! ## `/execute positioned 1 2 3 run tp ~ ~ ~` -/

theorem guestHost_keywords : ∀ w ∈ keywords, guestHost.toLowercase w = w := by decide +kernel

/-- `/execute` with these arguments on the console. -/
def teleportContext (args : List String) : CommandContext := ⟨.console, args, "", 20, false, false⟩

theorem teleport_valid : ∀ m ∈ [Modifier.positioned "1" "2" "3"], m.Valid := by
  simp [Modifier.Valid, NoBlank]

theorem teleport_plain : ∀ w ∈ ["tp"] ++ [], NoBlank w ∧ w ≠ "~" := by
  simp [NoBlank]

theorem teleport_chain : Chain guestHost (registerCommands guestHost)
    (teleportContext ["execute", "positioned", "1", "2", "3", "run", "tp", "~", "~", "~"])
    guestServer [none] (teleportContext ["tp", "1", "1", "1"]) guestServer := by
  have hfind : (registerCommands guestHost).find guestHost "execute" = some .execute := by
    decide +kernel
  have hpos : guestHost.toLowercase "positioned" = "positioned" :=
    guestHost_keywords _ (by simp [keywords])
  have hrun : guestHost.toLowercase "run" = "run" := guestHost_keywords _ (by simp [keywords])
  have hexec : (execution guestHost
      (teleportContext ["positioned", "1", "2", "3", "run", "tp", "~", "~", "~"])).call
        guestServer = (.ok (.positioned ⟨["tp", "1", "1", "1"], by decide⟩), guestServer) := by
    simp [execution, executePositioned, teleportContext, CommandContext.arg, hpos, hrun, runArgs]
  exact .step (.positioned rfl hfind hexec) (.done _ _)

def teleport : ExecuteRun where
  host := guestHost
  disp := registerCommands guestHost
  modifiers := [.positioned "1" "2" "3"]
  before := ["tp"]
  after := []
  ctx := teleportContext ["execute", "positioned", "1", "2", "3", "run", "tp", "~", "~", "~"]
  server := guestServer
  handed := teleportContext ["tp", "1", "1", "1"]
  serverThen := guestServer
  lowercase := guestHost_keywords
  valid := teleport_valid
  plain := teleport_plain
  starts := rfl
  chain := teleport_chain

/-- **`tp` is handed the x three times.** -/
theorem not_forall_follows : ¬ ∀ r : ExecuteRun, r.Follows := by
  intro h
  have hargs : ["tp", "1", "1", "1"] = ["tp", "1", "2", "3"] := h teleport
  exact absurd hargs (by decide)

end Apoptotic.Commands
