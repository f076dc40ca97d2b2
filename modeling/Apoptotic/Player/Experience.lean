import Apoptotic.Command.PlayerCommands
import Apoptotic.Lib.Ladder
import Apoptotic.Lib.Reached
import Mathlib.Algebra.Order.Field.Basic
import Mathlib.Tactic.Linarith
import Mathlib.Tactic.Ring

/-!
# Experience

`add_xp`, `remove_xp_levels` and `set_xp` of `mc-player/src/player.rs` and `/xp set` of
`mc-command/src/commands/player.rs`.  Every `i32` result is checked, so that an overflow shows;
the bar is a quotient of two `f32`.

Principal results: `kept_iff` — when one call keeps total, level and bar in step;
`along_kept_iff` — when every call of a run does.
-/

namespace Apoptotic.Experience

open Commands Ladder

/-! ## Checked arithmetic -/

/-- An `i32` result, if it does not overflow. -/
def i32? (n : Int) : Option Int := if -2147483648 ≤ n ∧ n < 2147483648 then some n else none

theorem i32?_of {n : Int} (hlo : -2147483648 ≤ n) (hhi : n < 2147483648) : i32? n = some n :=
  if_pos ⟨hlo, hhi⟩

theorem i32?_eq_some {n m : Int} : i32? n = some m ↔ (-2147483648 ≤ n ∧ n < 2147483648) ∧ n = m := by
  unfold i32?
  split <;> simp_all

/-- `k * level + c`. -/
def linear? (k level c : Int) : Option Int := (i32? (k * level)).bind fun m => i32? (m + c)

theorem linear?_of {k level c : Int} (hk : 0 ≤ k * level) (hm : k * level < 2147483648)
    (hlo : -2147483648 ≤ k * level + c) (hhi : k * level + c < 2147483648) :
    linear? k level c = some (k * level + c) := by
  rw [linear?, i32?_of (by omega) hm, Option.bind_some, i32?_of hlo hhi]

/-- The `f32` operations that the bar is made with. -/
structure FractionOps (F : Type) where
  /-- `a as f32 / b as f32` -/
  ratio : Int → Int → F
  zero : F
  /-- `clamp(0.0, 1.0)` -/
  clamp : F → F

/-- What their documentation says of them. -/
structure Fractions (F : Type) extends FractionOps F where
  clamp_zero : clamp zero = zero
  ratio_zero : ∀ n, 0 < n → n < 2147483648 → ratio 0 n = zero
  clamp_ratio : ∀ m n, 0 ≤ m → m ≤ n → 0 < n → n < 2147483648 → clamp (ratio m n) = ratio m n

/-! ## The three functions -/

/-- The experience fields of a player. -/
structure Xp (F : Type) where
  bar : F
  level : Int
  total : Int

/-- The cost of a level, written out in `add_xp`, in `remove_xp_levels` and in `/xp set`. -/
def cost? (level : Int) : Option Int :=
  if level < 16 then linear? 2 level 7
  else if level < 31 then linear? 5 level (-38)
  else linear? 9 level (-158)

/-- The cost that `remove_xp_levels` takes for the step down from `lvl`.  Only its first line
counts from the level below. -/
def refund? (lvl : Int) : Option Int :=
  if lvl ≤ 16 then (i32? (lvl - 1)).bind fun l => linear? 2 l 7
  else if lvl ≤ 31 then linear? 5 lvl (-38)
  else linear? 9 lvl (-158)

/-- `for _ in 0..levels { xp_to_remove += xp_for_lvl; lvl -= 1; }` -/
def xpToRemove? : Nat → Int → Int → Option Int
  | 0, _, xp => some xp
  | n + 1, lvl, xp => do
      let xpForLvl ← refund? lvl
      let xp ← i32? (xp + xpForLvl)
      let lvl ← i32? (lvl - 1)
      xpToRemove? n lvl xp

/-- `for l in 0..level { remaining -= cost; }` -/
def remainingAt? (total level : Int) : Option Int :=
  (List.range level.toNat).foldlM
    (fun remaining (l : Nat) => (cost? l).bind fun c => i32? (remaining - c)) total

/-- `for l in 0..level { total += cost; }` of `/xp set`. -/
def xpForLevel? (level : Int) : Option Int :=
  (List.range level.toNat).foldlM
    (fun total (l : Nat) => (cost? l).bind fun c => i32? (total + c)) 0

theorem cost?_eq_some {level : Nat} {c : Int} (h : cost? level = some c) : c = xpForNext level := by
  unfold cost? at h
  unfold xpForNext
  split at h
  · obtain ⟨m, hm, hc⟩ := Option.bind_eq_some_iff.1 h
    rw [i32?_eq_some] at hm hc
    rw [if_pos (by omega)]
    omega
  · rw [if_neg (by omega)]
    split at h
    · obtain ⟨m, hm, hc⟩ := Option.bind_eq_some_iff.1 h
      rw [i32?_eq_some] at hm hc
      rw [if_pos (by omega)]
      omega
    · obtain ⟨m, hm, hc⟩ := Option.bind_eq_some_iff.1 h
      rw [i32?_eq_some] at hm hc
      rw [if_neg (by omega)]
      omega

/-- The loop of `add_xp`: the level, what remains and the cost of the next level. -/
def climb? (level : Nat) (remaining : Int) : Option (Int × Int × Int) :=
  match h : cost? level with
  | none => none
  | some xpForNext =>
      if remaining ≥ xpForNext then
        if (i32? (remaining - xpForNext)).isSome ∧ (i32? ((level : Int) + 1)).isSome then
          climb? (level + 1) (remaining - xpForNext)
        else none
      else some (level, remaining, xpForNext)
termination_by remaining.toNat
decreasing_by
  have hpos := xpForNext_pos level
  have hcost := cost?_eq_some h
  omega

section

variable {F : Type} (fl : FractionOps F)

/-- `add_xp`, also behind `/xp add`. -/
def addXp (x : Xp F) (amount : Int) : Option (Xp F) := do
  let total ← i32? (x.total + amount)
  let (level, remaining, xpForNext) ← climb? 0 total
  some ⟨if 0 < xpForNext then fl.ratio remaining xpForNext else fl.zero, level, total⟩

def setXp (bar : F) (level total : Int) : Xp F := ⟨fl.clamp bar, max level 0, max total 0⟩

def removeXpLevels (x : Xp F) (levels : Int) : Option (Except String (Xp F)) :=
  if x.level < levels then
    let level := x.level
    some (.error s!"Need {levels} levels, have {level}")
  else do
    let removed ← xpToRemove? levels.toNat x.level 0
    let left ← i32? (x.total - removed)
    let total := max left 0
    let level ← i32? (x.level - levels)
    let xpForNext ← cost? level
    if 0 < xpForNext then
      let remaining ← remainingAt? total level
      some (.ok ⟨fl.clamp (fl.ratio remaining xpForNext), level, total⟩)
    else some (.ok ⟨fl.zero, level, total⟩)

/-- A call that changes experience. -/
inductive XpCall where
  | addXp (amount : Int)
  | removeXpLevels (levels : Int)
  /-- `/xp set` -/
  | xpSet (level : Int)
  deriving DecidableEq, Repr

/-- The reply and the fields after a call, if nothing overflows. -/
def perform (x : Xp F) : XpCall → Option (Except String Unit × Xp F)
  | .addXp amount => (addXp fl x amount).map fun x => (.ok (), x)
  | .removeXpLevels levels =>
      (removeXpLevels fl x levels).map fun
        | .ok x => (.ok (), x)
        | .error e => (.error e, x)
  | .xpSet level => (xpForLevel? level).map fun total => (.ok (), setXp fl fl.zero level total)

/-- The fields of a player who joins. -/
def Xp.new : Xp F := ⟨fl.zero, 0, 0⟩

end

/-! ## The levels that an `i32` total reaches -/

/-- The highest level whose total fits in an `i32`. -/
def MAX_LEVEL : Nat := 21863

/-- The total of the levels below `level`, past the second change of the formula. -/
theorem two_mul_below (n : Nat) :
    2 * (below xpForNext (31 + n) : Int) = 9 * (31 + n) ^ 2 - 325 * (31 + n) + 4440 := by
  induction n with
  | zero => decide
  | succ n ih =>
      have hcost : (xpForNext (31 + n) : Int) = 9 * (31 + n) - 158 := by
        unfold xpForNext
        rw [if_neg (by omega), if_neg (by omega)]
        omega
      rw [show 31 + (n + 1) = 31 + n + 1 by omega, below_succ]
      push_cast
      rw [hcost]
      linarith

theorem below_max : below xpForNext MAX_LEVEL < 2147483648 := by
  have h := two_mul_below 21832
  have hlit : (31 + 21832 : Nat) = MAX_LEVEL := rfl
  rw [hlit] at h
  omega

theorem below_past_max : 2147483648 ≤ below xpForNext (MAX_LEVEL + 1) := by
  have h := two_mul_below 21833
  have hlit : (31 + 21833 : Nat) = MAX_LEVEL + 1 := rfl
  rw [hlit] at h
  omega

theorem below_lt_iff {n : Nat} : below xpForNext n < 2147483648 ↔ n ≤ MAX_LEVEL := by
  constructor
  · intro h
    by_contra hlt
    have hmono := below_mono xpForNext (show MAX_LEVEL + 1 ≤ n by omega)
    have hpast := below_past_max
    omega
  · intro h
    exact Nat.lt_of_le_of_lt (below_mono xpForNext h) below_max

theorem cost?_of_le {level : Nat} (h : level ≤ MAX_LEVEL) : cost? level = some ↑(xpForNext level) := by
  unfold MAX_LEVEL at h
  unfold cost? xpForNext
  by_cases h16 : level < 16
  · rw [if_pos (by omega), if_pos h16, linear?_of (by omega) (by omega) (by omega) (by omega)]
    push_cast
    rfl
  · rw [if_neg (by omega), if_neg h16]
    by_cases h31 : level < 31
    · rw [if_pos (by omega), if_pos h31, linear?_of (by omega) (by omega) (by omega) (by omega)]
      congr 1
      omega
    · rw [if_neg (by omega), if_neg h31, linear?_of (by omega) (by omega) (by omega) (by omega)]
      congr 1
      omega

theorem xpForNext_lt {level : Nat} (h : level ≤ MAX_LEVEL) : xpForNext level < 2147483648 := by
  unfold MAX_LEVEL at h
  unfold xpForNext
  split
  · omega
  · split <;> omega

/-! ## What the loops compute -/

/-- **The loop of `add_xp` climbs to the step that the total lies on.** -/
theorem climb?_spec (level : Nat) (remaining : Int) (h0 : 0 ≤ remaining)
    (hfits : below xpForNext level + remaining < 2147483648) :
    ∃ l : Nat, On xpForNext l (below xpForNext level + remaining) ∧
      climb? level remaining =
        some (↑l, below xpForNext level + remaining - below xpForNext l, ↑(xpForNext l)) := by
  fun_induction climb? level remaining with
  | case1 level remaining hnone =>
      have hle : level ≤ MAX_LEVEL := below_lt_iff.1 (by omega)
      rw [cost?_of_le hle] at hnone
      cases hnone
  | case2 level remaining next hnext hge _ ih =>
      obtain rfl := cost?_eq_some hnext
      have hsucc := below_succ xpForNext level
      have hsame : (below xpForNext (level + 1) : Int) + (remaining - xpForNext level) =
          below xpForNext level + remaining := by omega
      rw [hsame] at ih
      exact ih (by omega) hfits
  | case3 level remaining next hnext hge hover =>
      have hle : level ≤ MAX_LEVEL := below_lt_iff.1 (by omega)
      have hnext := cost?_eq_some hnext
      unfold MAX_LEVEL at hle
      refine absurd ⟨?_, ?_⟩ hover
      · rw [i32?_of (by omega) (by omega)]
        rfl
      · rw [i32?_of (by omega) (by omega)]
        rfl
  | case4 level remaining next hnext hlt =>
      obtain rfl := cost?_eq_some hnext
      have hsucc := below_succ xpForNext level
      refine ⟨level, ⟨by omega, by omega⟩, ?_⟩
      rw [add_sub_cancel_left]

theorem cost?_onto {n : Nat} (h : n + 1 ≤ MAX_LEVEL) :
    ((cost? n).bind fun c => i32? (below xpForNext n + c)) = some ↑(below xpForNext (n + 1)) := by
  have hfits := below_lt_iff.2 h
  have hsucc := below_succ xpForNext n
  rw [cost?_of_le (by omega), Option.bind_some, i32?_of (by omega) (by omega), hsucc, Nat.cast_add]

/-- One pass of the loop of `/xp set`. -/
theorem xpForLevel?_succ (n : Nat) :
    xpForLevel? (n + 1 : Nat) =
      (xpForLevel? n).bind fun total => (cost? n).bind fun c => i32? (total + c) := by
  unfold xpForLevel?
  rw [Int.toNat_natCast, Int.toNat_natCast, List.range_succ, List.foldlM_append]
  simp only [List.foldlM_cons, List.foldlM_nil, Option.bind_eq_bind, Option.pure_def,
    Option.bind_fun_some]

theorem xpForLevel?_of_le {n : Nat} (h : n ≤ MAX_LEVEL) :
    xpForLevel? n = some ↑(below xpForNext n) := by
  induction n with
  | zero => rfl
  | succ n ih => rw [xpForLevel?_succ, ih (by omega), Option.bind_some, cost?_onto h]

theorem xpForLevel?_of_gt {n : Nat} (h : MAX_LEVEL < n) : xpForLevel? n = none := by
  induction n with
  | zero => cases h
  | succ n ih =>
      rw [xpForLevel?_succ]
      by_cases hn : MAX_LEVEL < n
      · rw [ih hn, Option.bind_none]
      · have hle : n ≤ MAX_LEVEL := Nat.not_lt.1 hn
        have hpast : ¬ below xpForNext (n + 1) < 2147483648 := fun hlt =>
          Nat.not_le.2 h (below_lt_iff.1 hlt)
        have hsucc := below_succ xpForNext n
        rw [xpForLevel?_of_le hle, Option.bind_some, cost?_of_le hle, Option.bind_some]
        exact if_neg (by omega)

theorem remainingAt?_of_le {n : Nat} {total : Int} (hn : n ≤ MAX_LEVEL)
    (h : below xpForNext n ≤ total) (hfits : total < 2147483648) :
    remainingAt? total n = some (total - below xpForNext n) := by
  unfold remainingAt?
  rw [Int.toNat_natCast]
  induction n with
  | zero => simp
  | succ n ih =>
      have hsucc := below_succ xpForNext n
      rw [List.range_succ, List.foldlM_append, ih (by omega) (by omega)]
      simp only [List.foldlM_cons, List.foldlM_nil, Option.bind_eq_bind, Option.bind_some,
        cost?_of_le (show n ≤ MAX_LEVEL by omega)]
      rw [i32?_of (by omega) (by omega), hsucc]
      simp only [Option.bind_some, Option.pure_def, Option.some.injEq]
      omega

/-! ## What a level costs on the way down -/

/-- What `remove_xp_levels` takes too much, going down from `level` to 0: 5 for each level from 17
to 31 and 9 for each level above. -/
def surplus (level : Nat) : Nat := 5 * min (level - 16) 15 + 9 * (level - 31)

theorem surplus_mono {m n : Nat} (h : m ≤ n) : surplus m ≤ surplus n := by
  unfold surplus
  omega

theorem refund?_of_le {n : Nat} (h : n + 1 ≤ MAX_LEVEL) :
    refund? ((n + 1 : Nat) : Int) =
      some ((xpForNext n : Int) + (surplus (n + 1) - surplus n)) := by
  unfold MAX_LEVEL at h
  unfold refund? xpForNext surplus
  by_cases h16 : n < 16
  · rw [if_pos (by omega), if_pos h16, i32?_of (by omega) (by omega), Option.bind_some,
      linear?_of (by omega) (by omega) (by omega) (by omega)]
    rw [Option.some.injEq]
    omega
  · rw [if_neg (by omega), if_neg h16]
    by_cases h31 : n < 31
    · rw [if_pos (by omega), if_pos h31, linear?_of (by omega) (by omega) (by omega) (by omega)]
      rw [Option.some.injEq]
      omega
    · rw [if_neg (by omega), if_neg h31, linear?_of (by omega) (by omega) (by omega) (by omega)]
      rw [Option.some.injEq]
      omega

/-- What `remove_xp_levels` takes for the way from level `m + n` down to `m`. -/
def charge (m n : Nat) : Int :=
  (below xpForNext (m + n) - below xpForNext m) + (surplus (m + n) - surplus m)

theorem charge_nonneg (m n : Nat) : 0 ≤ charge m n := by
  have hbelow := below_mono xpForNext (Nat.le_add_right m n)
  have hsurplus := surplus_mono (Nat.le_add_right m n)
  unfold charge
  omega

theorem xpToRemove?_eq {m n : Nat} {xp : Int} (h : m + n ≤ MAX_LEVEL) (h0 : 0 ≤ xp)
    (hfits : xp < 2147483648) : xpToRemove? n ↑(m + n) xp = i32? (xp + charge m n) := by
  induction n generalizing xp with
  | zero =>
      unfold xpToRemove? charge
      rw [Nat.add_zero, Int.sub_self, Int.sub_self, Int.add_zero, Int.add_zero,
        i32?_of (by omega) hfits]
  | succ n ih =>
      have hcharge : charge m (n + 1) =
          charge m n + (xpForNext (m + n) + (surplus (m + n + 1) - surplus (m + n))) := by
        have hsucc := below_succ xpForNext (m + n)
        unfold charge
        rw [← Nat.add_assoc]
        omega
      have hpos := charge_nonneg m n
      have hlast := surplus_mono (Nat.le_add_right (m + n) 1)
      unfold xpToRemove?
      rw [← Nat.add_assoc, refund?_of_le (by omega)]
      simp only [Option.bind_eq_bind, Option.bind_some]
      unfold MAX_LEVEL at h
      by_cases hover : xp + (xpForNext (m + n) + (surplus (m + n + 1) - surplus (m + n)) : Int) <
          2147483648
      · rw [i32?_of (by omega) hover, Option.bind_some, i32?_of (by omega) (by omega),
          Option.bind_some, show ((m + n + 1 : Nat) : Int) - 1 = ↑(m + n) by omega,
          ih (by unfold MAX_LEVEL; omega) (by omega) hover, hcharge]
        congr 1
        omega
      · have hnone : i32? (xp + charge m (n + 1)) = none := by
          rw [hcharge]
          exact if_neg (by omega)
        rw [hnone, i32?, if_neg (by omega)]
        rfl

/-! ## The wrapping build -/

/-- Where nothing overflows, the wrapping arithmetic computes the same. -/
theorem i32_of_i32? {n m : Int} (h : i32? n = some m) : i32 n = m := by
  obtain ⟨⟨hlo, hhi⟩, rfl⟩ := i32?_eq_some.1 h
  exact Int.bmod_eq_of_le (by omega) (by omega)

theorem levelLoop_of_climb? {level : Nat} {remaining : Int} {r : Int × Int × Int}
    (h : climb? level remaining = some r) :
    r = (↑(levelLoop level remaining).1, (levelLoop level remaining).2.1,
      ↑(levelLoop level remaining).2.2) := by
  fun_induction climb? level remaining with
  | case1 level remaining hnone => cases h
  | case2 level remaining next hnext hge _ ih =>
      obtain rfl := cost?_eq_some hnext
      rw [levelLoop, if_pos hge]
      exact ih h
  | case3 level remaining next hnext hge _ => cases h
  | case4 level remaining next hnext hlt =>
      obtain rfl := cost?_eq_some hnext
      rw [levelLoop, if_neg hlt]
      cases h
      rfl

theorem levelLoop_cost_pos (level : Nat) (remaining : Int) :
    0 < (levelLoop level remaining).2.2 := by
  fun_induction levelLoop level remaining with
  | case1 level remaining _ ih => exact ih
  | case2 level remaining _ => exact xpForNext_pos level

def float32 : FractionOps Float32 where
  ratio a b := Float32.ofInt a / Float32.ofInt b
  zero := 0
  clamp x := clampF32 x 0 1

/-- **The player manager's `add_xp` writes the fields computed here**, where nothing overflows. -/
theorem addXp_call {s : Server} {uuid : Commands.Uuid} {q : Player} {amount : Int} {x : Xp Float32}
    (hq : s.get uuid = some q)
    (h : addXp float32 ⟨q.xpBar, q.xpLevel, q.xpTotal⟩ amount = some x) :
    (Commands.addXp uuid amount).call s = (writeXp uuid x.bar x.level x.total).call s := by
  obtain ⟨total, htotal, h⟩ := Option.bind_eq_some_iff.1 h
  obtain ⟨r, hr, h⟩ := Option.bind_eq_some_iff.1 h
  have hloop := levelLoop_of_climb? hr
  subst hloop
  have hpos := levelLoop_cost_pos 0 total
  dsimp only at h
  rw [if_pos (by omega)] at h
  cases h
  unfold Commands.addXp
  rw [withPlayer_of_some hq]
  dsimp only
  rw [i32_of_i32? htotal]
  rfl

theorem wrappedCost_of_cost? {level c : Int} (h : cost? level = some c) :
    (if level < 16 then 2 * level + 7 else if level < 31 then 5 * level - 38
      else i32 (9 * level - 158)) = c := by
  unfold cost? linear? at h
  split at h
  · rename_i h16
    obtain ⟨m, hm, hc⟩ := Option.bind_eq_some_iff.1 h
    rw [i32?_eq_some] at hm hc
    rw [if_pos h16]
    omega
  · rename_i h16
    rw [if_neg h16]
    split at h
    · rename_i h31
      obtain ⟨m, hm, hc⟩ := Option.bind_eq_some_iff.1 h
      rw [i32?_eq_some] at hm hc
      rw [if_pos h31]
      omega
    · rename_i h31
      obtain ⟨m, hm, hc⟩ := Option.bind_eq_some_iff.1 h
      obtain ⟨-, rfl⟩ := i32?_eq_some.1 hm
      rw [if_neg h31, Int.sub_eq_add_neg]
      exact i32_of_i32? hc

theorem xpForLevel_of_xpForLevel? {level total : Int} (h : xpForLevel? level = some total) :
    Commands.xpForLevel level = total := by
  unfold xpForLevel? at h
  unfold Commands.xpForLevel
  simp only [List.bind_eq_flatMap, List.pure_def, ← List.map_eq_flatMap]
  generalize level.toNat = n at h ⊢
  induction n generalizing total with
  | zero => simpa using h
  | succ n ih =>
      rw [List.range_succ, List.foldlM_append] at h
      rw [List.range_succ, List.map_append, List.foldl_append]
      obtain ⟨before, hbefore, h⟩ := Option.bind_eq_some_iff.1 h
      simp only [List.foldlM_cons, List.foldlM_nil, Option.bind_eq_bind] at h
      obtain ⟨after, hafter, h⟩ := Option.bind_eq_some_iff.1 h
      cases h
      obtain ⟨c, hc, hadd⟩ := Option.bind_eq_some_iff.1 hafter
      rw [ih hbefore]
      simp only [List.map_cons, List.map_nil, List.foldl_cons, List.foldl_nil]
      rw [wrappedCost_of_cost? hc]
      exact i32_of_i32? hadd

theorem setXp_call {s : Server} {uuid : Commands.Uuid} {q : Player} (hq : s.get uuid = some q)
    (bar : Float32) (level total : Int) :
    (Commands.setXp uuid bar level total).call s =
      (writeXp uuid (setXp float32 bar level total).bar (setXp float32 bar level total).level
        (setXp float32 bar level total).total).call s := by
  unfold Commands.setXp
  rw [withPlayer_of_some hq]
  rfl

/-! ## Total, level and bar in step -/

section

variable {F : Type} (fl : Fractions F) {x : Xp F}

/-- The total is not negative, the level is the only one that it lies on and the bar is the part of
that level that is reached. -/
structure Consistent (x : Xp F) : Prop where
  nonneg : 0 ≤ x.total
  fits : x.total < 2147483648
  level : 0 ≤ x.level ∧ ∀ L : Nat, On xpForNext L x.total ↔ x.level = L
  bar : x.bar = fl.ratio (x.total - below xpForNext x.level.toNat) (xpForNext x.level.toNat)

/-- A call after which the fields are consistent; without the levels it asks for, it fails and
changes nothing. -/
structure Kept (x : Xp F) (call : XpCall) : Prop where
  consistent : ∃ reply x', perform fl.toFractionOps x call = some (reply, x') ∧ Consistent fl x'
  refused : ∀ levels, call = .removeXpLevels levels → x.level < levels →
    ∃ e, perform fl.toFractionOps x call = some (.error e, x)

/-- Going down from level `m + n` to `m`, what is taken too much comes out of the progress in the
level, and the rest of it is less than a level; or `m` is 0, where the total stops. -/
def Payable (total : Int) (m n : Nat) : Prop :=
  let progress := total - below xpForNext (m + n)
  let extra : Int := surplus (m + n) - surplus m
  (extra ≤ progress ∧ progress - extra < xpForNext m) ∨
    (m = 0 ∧ progress < extra ∧ below xpForNext n + extra < 2147483648)

/-- The calls that keep consistent fields consistent. -/
def Harmless (x : Xp F) : XpCall → Prop
  | .addXp amount => 0 ≤ x.total + amount ∧ x.total + amount < 2147483648
  | .removeXpLevels levels =>
      x.level < levels ∨
        (0 ≤ levels ∧ Payable x.total (x.level - levels).toNat levels.toNat)
  | .xpSet level => level ≤ MAX_LEVEL

theorem on_level {L : Nat} {total : Int} (h : On xpForNext L total) (M : Nat) :
    On xpForNext M total ↔ (L : Int) = M :=
  ⟨fun hM => congrArg Nat.cast (h.unique hM), fun hM => by rwa [← Int.ofNat_inj.1 hM]⟩

theorem consistent_of_on {L : Nat} {total : Int} (h : On xpForNext L total)
    (hfits : total < 2147483648) :
    Consistent fl ⟨fl.ratio (total - below xpForNext L) (xpForNext L), L, total⟩ where
  nonneg := by
    have hreached := h.reached
    dsimp only
    omega
  fits := hfits
  level := ⟨Int.natCast_nonneg L, on_level h⟩
  bar := by rw [Int.toNat_natCast]

theorem Consistent.on (h : Consistent fl x) : On xpForNext x.level.toNat x.total :=
  (h.level.2 _).2 (Int.toNat_of_nonneg h.level.1).symm

theorem Consistent.level_le (h : Consistent fl x) : x.level.toNat ≤ MAX_LEVEL := by
  have hreached := h.on.reached
  have hfits := h.fits
  exact below_lt_iff.1 (by omega)

theorem consistent_new : Consistent fl (Xp.new fl.toFractionOps) where
  nonneg := Int.le_refl 0
  fits := by
    unfold Xp.new
    dsimp only
    omega
  level := by
    have hon : On xpForNext 0 0 := ⟨by simp, by decide⟩
    exact ⟨Int.le_refl 0, on_level hon⟩
  bar := (fl.ratio_zero 7 (by decide) (by decide)).symm

/-! ## Call by call -/

theorem kept_addXp_iff (amount : Int) :
    Kept fl x (.addXp amount) ↔ Harmless x (.addXp amount) := by
  unfold Harmless
  constructor
  · intro h
    obtain ⟨reply, x', hperform, hx'⟩ := h.consistent
    obtain ⟨y, hadd, hy⟩ := Option.map_eq_some_iff.1 hperform
    obtain ⟨-, rfl⟩ := Prod.mk.inj hy
    obtain ⟨total, htotal, hrest⟩ := Option.bind_eq_some_iff.1 hadd
    obtain ⟨⟨level, remaining, next⟩, -, hy⟩ := Option.bind_eq_some_iff.1 hrest
    obtain ⟨⟨-, hhi⟩, rfl⟩ := i32?_eq_some.1 htotal
    cases hy
    exact ⟨hx'.nonneg, hhi⟩
  · rintro ⟨h0, hfits⟩
    obtain ⟨l, hon, hclimb⟩ :=
      climb?_spec 0 (x.total + amount) h0 (by rw [below_zero]; omega)
    rw [below_zero, Nat.cast_zero, Int.zero_add] at hon hclimb
    refine ⟨⟨.ok (), _, ?_, consistent_of_on fl hon hfits⟩, nofun⟩
    have hpos := xpForNext_pos l
    unfold perform addXp
    dsimp only
    rw [i32?_of (by omega) hfits]
    simp only [Option.bind_eq_bind, Option.bind_some, hclimb, Option.map_some]
    rw [if_pos (by omega)]

theorem kept_xpSet_iff (level : Int) :
    Kept fl x (.xpSet level) ↔ Harmless x (.xpSet level) := by
  unfold Harmless
  have hnat : xpForLevel? level = xpForLevel? (level.toNat : Nat) := by
    unfold xpForLevel?
    rw [Int.toNat_natCast]
  constructor
  · intro h
    obtain ⟨reply, x', hperform, -⟩ := h.consistent
    by_contra hlt
    unfold perform at hperform
    dsimp only at hperform
    rw [hnat, xpForLevel?_of_gt (by omega)] at hperform
    cases hperform
  · intro hle
    have hlevel : level.toNat ≤ MAX_LEVEL := by omega
    have hfits := below_lt_iff.2 hlevel
    have hon : On xpForNext level.toNat (below xpForNext level.toNat) :=
      ⟨Int.le_refl _, by
        have hpos := xpForNext_pos level.toNat
        rw [below_succ]
        omega⟩
    refine ⟨⟨.ok (), _, ?_, consistent_of_on fl hon (by omega)⟩, nofun⟩
    unfold perform setXp
    dsimp only
    rw [hnat, xpForLevel?_of_le hlevel, Option.map_some, fl.clamp_zero, Int.sub_self,
      fl.ratio_zero _ (by exact_mod_cast xpForNext_pos _) (by exact_mod_cast xpForNext_lt hlevel),
      Int.max_eq_left (Int.natCast_nonneg _), Int.ofNat_toNat]

theorem payable_iff {total : Int} {m n : Nat} (hon : On xpForNext (m + n) total)
    (htotal : total < 2147483648) :
    Payable total m n ↔
      charge m n < 2147483648 ∧ On xpForNext m (max (total - charge m n) 0) := by
  have hreached := hon.reached
  have hmono := below_mono xpForNext (Nat.le_add_right m n)
  have hover := surplus_mono (Nat.le_add_right m n)
  have hsucc := below_succ xpForNext m
  have hpos := xpForNext_pos m
  have hzero : 0 < m → 7 ≤ below xpForNext m := fun hm => below_mono xpForNext hm
  unfold Payable charge
  dsimp only
  constructor
  · rintro (⟨hle, hlt⟩ | ⟨rfl, hlt, hfits⟩)
    · exact ⟨by omega, by omega, by omega⟩
    · rw [Nat.zero_add] at hreached hover hlt hfits ⊢
      rw [below_zero] at hsucc ⊢
      exact ⟨by omega, by rw [below_zero]; omega, by rw [hsucc]; omega⟩
  · rintro ⟨hfits, hon'⟩
    have hreached' := hon'.reached
    have hshort' := hon'.short
    by_cases hle : ((surplus (m + n) : Int) - surplus m) ≤ total - below xpForNext (m + n)
    · exact .inl ⟨hle, by omega⟩
    · obtain rfl : m = 0 := by omega
      rw [below_zero, Nat.zero_add] at hfits
      rw [Nat.zero_add] at hle ⊢
      exact .inr ⟨rfl, by omega, by omega⟩

/-- What `remove_xp_levels` does when the player has the levels. -/
theorem removeXpLevels_ok {levels : Int} {y : Xp F} (hle : levels ≤ x.level)
    (h : removeXpLevels fl.toFractionOps x levels = some (.ok y)) :
    ∃ removed, xpToRemove? levels.toNat x.level 0 = some removed ∧
      y.total = max (x.total - removed) 0 ∧ y.level = x.level - levels := by
  unfold removeXpLevels at h
  rw [if_neg (by omega)] at h
  obtain ⟨removed, hremoved, h⟩ := Option.bind_eq_some_iff.1 h
  obtain ⟨left, hleft, h⟩ := Option.bind_eq_some_iff.1 h
  obtain ⟨level, hlevel, h⟩ := Option.bind_eq_some_iff.1 h
  obtain ⟨next, hnext, h⟩ := Option.bind_eq_some_iff.1 h
  obtain ⟨-, rfl⟩ := i32?_eq_some.1 hleft
  obtain ⟨-, rfl⟩ := i32?_eq_some.1 hlevel
  refine ⟨removed, hremoved, ?_⟩
  split at h
  · obtain ⟨remaining, -, h⟩ := Option.bind_eq_some_iff.1 h
    cases h
    exact ⟨rfl, rfl⟩
  · cases h
    exact ⟨rfl, rfl⟩

theorem perform_refused {levels : Int} (h : x.level < levels) :
    ∃ e, perform fl.toFractionOps x (.removeXpLevels levels) = some (.error e, x) := by
  unfold perform removeXpLevels
  dsimp only
  rw [if_pos h]
  exact ⟨_, rfl⟩

/-- Who has the levels is not refused. -/
theorem not_refused {levels : Int} (hle : levels ≤ x.level) (e : String) :
    removeXpLevels fl.toFractionOps x levels ≠ some (.error e) := by
  intro hr
  unfold removeXpLevels at hr
  rw [if_neg (by omega)] at hr
  obtain ⟨removed, -, hr⟩ := Option.bind_eq_some_iff.1 hr
  obtain ⟨left, -, hr⟩ := Option.bind_eq_some_iff.1 hr
  obtain ⟨level, -, hr⟩ := Option.bind_eq_some_iff.1 hr
  obtain ⟨next, -, hr⟩ := Option.bind_eq_some_iff.1 hr
  split at hr
  · obtain ⟨remaining, -, hr⟩ := Option.bind_eq_some_iff.1 hr
    cases hr
  · cases hr

theorem perform_removed {levels : Int} {reply : Except String Unit} {y : Xp F}
    (hle : levels ≤ x.level)
    (h : perform fl.toFractionOps x (.removeXpLevels levels) = some (reply, y)) :
    removeXpLevels fl.toFractionOps x levels = some (.ok y) := by
  obtain ⟨r, hr, hy⟩ := Option.map_eq_some_iff.1 h
  cases r with
  | ok z => cases hy; exact hr
  | error e => exact absurd hr (not_refused fl hle e)

/-- Giving back a negative number of levels raises the level and leaves the total. -/
theorem not_kept_of_neg (hx : Consistent fl x) {levels : Int} (hneg : levels < 0) :
    ¬ Kept fl x (.removeXpLevels levels) := by
  intro h
  obtain ⟨reply, y, hperform, hy⟩ := h.consistent
  have hle : levels ≤ x.level := by
    have hlevel := hx.level.1
    omega
  obtain ⟨removed, hremoved, htotal, hlevel⟩ :=
    removeXpLevels_ok fl hle (perform_removed fl hle hperform)
  have hzero : levels.toNat = 0 := Int.toNat_of_nonpos (by omega)
  rw [hzero] at hremoved
  obtain rfl : (0 : Int) = removed := Option.some.inj hremoved
  rw [Int.sub_zero, Int.max_eq_left hx.nonneg] at htotal
  have hon := hy.on
  rw [htotal] at hon
  have hsame := (hx.level.2 _).1 hon
  have hpos := hy.level.1
  omega

theorem kept_removeXpLevels_iff (hx : Consistent fl x) (levels : Int) :
    Kept fl x (.removeXpLevels levels) ↔ Harmless x (.removeXpLevels levels) := by
  unfold Harmless
  dsimp only
  by_cases hfew : x.level < levels
  · obtain ⟨e, he⟩ := perform_refused fl hfew
    refine iff_of_true ⟨⟨_, x, he, hx⟩, fun levels' hlevels _ => ?_⟩ (.inl hfew)
    cases hlevels
    exact ⟨e, he⟩
  · have hle : levels ≤ x.level := Int.not_lt.1 hfew
    rw [or_iff_right hfew]
    by_cases hneg : levels < 0
    · exact iff_of_false (not_kept_of_neg fl hx hneg) fun h => absurd h.1 (Int.not_le.2 hneg)
    · have h0 : 0 ≤ levels := Int.not_lt.1 hneg
      rw [and_iff_right h0]
      obtain ⟨n, hn⟩ := Int.eq_ofNat_of_zero_le h0
      obtain ⟨m, hm⟩ := Int.eq_ofNat_of_zero_le (Int.sub_nonneg_of_le hle)
      have hlevel : x.level = ↑(m + n) := by omega
      have hmax := hx.level_le
      have hon := hx.on
      have hfits := hx.fits
      rw [hlevel, Int.toNat_natCast] at hmax hon
      rw [hn] at hm
      rw [hn, hm, Int.toNat_natCast, Int.toNat_natCast, payable_iff hon hfits]
      have hremove := xpToRemove?_eq hmax (Int.le_refl 0) (by omega)
      rw [Int.zero_add] at hremove
      constructor
      · intro h
        obtain ⟨reply, y, hperform, hy⟩ := h.consistent
        rw [← hn] at hperform
        obtain ⟨removed, hremoved, htotal, hylevel⟩ :=
          removeXpLevels_ok fl hle (perform_removed fl hle hperform)
        rw [hn, Int.toNat_natCast, hlevel, hremove] at hremoved
        obtain ⟨⟨-, hcharge⟩, rfl⟩ := i32?_eq_some.1 hremoved
        have hyon := hy.on
        rw [htotal, hylevel, hn, hm, Int.toNat_natCast] at hyon
        exact ⟨hcharge, hyon⟩
      · rintro ⟨hcharge, hmon⟩
        have hpos := charge_nonneg m n
        have hreached := hmon.reached
        have hm' : m ≤ MAX_LEVEL := by omega
        have hsmall : MAX_LEVEL < 2147483648 := by decide
        have htotal := hx.nonneg
        have hnext := xpForNext_pos m
        have hnextFits := xpForNext_lt hm'
        have hshort := hmon.short
        have hsucc := below_succ xpForNext m
        rw [i32?_of (by omega) hcharge] at hremove
        refine ⟨⟨.ok (), _, ?_, consistent_of_on fl hmon (by omega)⟩, fun levels' hlevels hlt => ?_⟩
        · unfold perform removeXpLevels
          dsimp only
          rw [← hn, if_neg (by omega), hn, Int.toNat_natCast, hlevel, hremove]
          simp only [Option.bind_eq_bind, Option.bind_some]
          rw [i32?_of (by omega) (by omega), Option.bind_some,
            show ((m + n : Nat) : Int) - n = m by omega, i32?_of (by omega) (by omega),
            Option.bind_some, cost?_of_le hm', Option.bind_some, if_pos (by omega),
            remainingAt?_of_le hm' hreached (by omega), Option.bind_some, Option.map_some,
            fl.clamp_ratio _ _ (by omega) (by omega) (by omega) (by omega)]
        · cases hlevels
          omega

/-- **When a call keeps total, level and bar in step.** -/
theorem kept_iff (hx : Consistent fl x) (call : XpCall) : Kept fl x call ↔ Harmless x call := by
  cases call with
  | addXp amount => exact kept_addXp_iff fl amount
  | removeXpLevels levels => exact kept_removeXpLevels_iff fl hx levels
  | xpSet level => exact kept_xpSet_iff fl level

/-! ## Runs -/

/-- The fields after a call; none once a result has overflowed. -/
def step (s : Option (Xp F)) (call : XpCall) : Option (Xp F) :=
  s.bind fun x => (perform fl.toFractionOps x call).map Prod.snd

/-- The call is made on fields that did not overflow, and meets `P` there. -/
def At (P : Xp F → XpCall → Prop) (s : Option (Xp F)) (call : XpCall) : Prop :=
  ∃ x, s = some x ∧ P x call

/-- **The fields stay in step all along the calls exactly when every call is harmless.** -/
theorem along_kept_iff (calls : List XpCall) :
    Along (step fl) (At (Kept fl)) (some (Xp.new fl.toFractionOps)) calls ↔
      Along (step fl) (At Harmless) (some (Xp.new fl.toFractionOps)) calls := by
  refine along_iff (fun s => ∃ x, s = some x ∧ Consistent fl x) ?_ ?_
    ⟨_, rfl, consistent_new fl⟩ calls
  · rintro s call ⟨x, rfl, hx⟩
    constructor
    · rintro ⟨y, hy, h⟩
      cases hy
      exact ⟨x, rfl, (kept_iff fl hx call).1 h⟩
    · rintro ⟨y, hy, h⟩
      cases hy
      exact ⟨x, rfl, (kept_iff fl hx call).2 h⟩
  · rintro s call ⟨x, rfl, hx⟩ ⟨y, hy, h⟩
    cases hy
    obtain ⟨reply, z, hperform, hz⟩ := ((kept_iff fl hx call).2 h).consistent
    refine ⟨z, ?_, hz⟩
    rw [step, Option.bind_some, hperform]
    rfl

end

/-- Fractions without rounding. -/
def exactFractions : Fractions Rat where
  ratio a b := a / b
  zero := 0
  clamp q := max 0 (min q 1)
  clamp_zero := by decide
  ratio_zero n _ _ := by rw [Int.cast_zero, zero_div]
  clamp_ratio m n h0 hle hn _ := by
    have hn' : (0 : Rat) < n := Int.cast_pos.2 hn
    have hle' : (m : Rat) / n ≤ 1 := (div_le_one hn').2 (Int.cast_le.2 hle)
    have h0' : (0 : Rat) ≤ m / n := div_nonneg (Int.cast_nonneg h0) hn'.le
    rw [min_eq_left hle', max_eq_right h0']

/-- **Going down one level from level 17 takes 47 of the 394 points, where the level cost 42.** -/
theorem not_forall_kept_descent :
    ¬ ∀ calls : List XpCall, Along (step exactFractions) (At (Kept exactFractions))
      (some (Xp.new exactFractions.toFractionOps)) calls := by
  intro h
  obtain ⟨⟨x, hx, hset⟩, ⟨y, hy, hdown⟩, -⟩ := h [.xpSet 17, .removeXpLevels 1]
  cases hx
  obtain ⟨reply, z, hperform, hz⟩ := hset.consistent
  rw [step, Option.bind_some, hperform] at hy
  cases hy
  have hlevel : z.level = 17 ∧ z.total = 394 := by
    cases hperform
    decide
  have hpay := (kept_iff exactFractions hz _).1 hdown
  rw [Harmless, hlevel.1, hlevel.2] at hpay
  revert hpay
  unfold Payable
  decide

end Apoptotic.Experience
