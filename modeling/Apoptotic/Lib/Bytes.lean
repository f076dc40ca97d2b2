import Mathlib.Algebra.Group.Nat.Defs
import Mathlib.Data.List.Basic

/-!
# Fixed-width integers in bytes, and a cursor into a byte list

`toLe n v` is the `n` low bytes of `v`, least significant first; `toBe n v` the same bytes most
significant first.  `At data pos rest` says that a reader of `data` at offset `pos` still has
`rest` before it: what was written there is read back, and the reader moves on.

Principal results: `ofLe_toLe`, `ofBe_toBe`; `At.skip` — moving past a field;
`At.readLe`, `At.readBe` — reading one.
-/

namespace Bytes

abbrev Byte := BitVec 8

/-- The `n` low bytes of `v`, least significant first. -/
def toLe : (n : Nat) → Nat → List Byte
  | 0, _ => []
  | n + 1, v => BitVec.ofNat 8 v :: toLe n (v / 256)

/-- The number whose bytes are given, least significant first. -/
def ofLe : List Byte → Nat
  | [] => 0
  | b :: bs => b.toNat + 256 * ofLe bs

theorem toLe_zero (v : Nat) : toLe 0 v = [] := rfl

theorem toLe_succ (n v : Nat) : toLe (n + 1) v = BitVec.ofNat 8 v :: toLe n (v / 256) := rfl

theorem ofLe_nil : ofLe [] = 0 := rfl

theorem ofLe_cons (b : Byte) (bs : List Byte) : ofLe (b :: bs) = b.toNat + 256 * ofLe bs := rfl

def toBe (n v : Nat) : List Byte := (toLe n v).reverse

def ofBe (bs : List Byte) : Nat := ofLe bs.reverse

@[simp] theorem length_toLe (n v : Nat) : (toLe n v).length = n := by
  induction n generalizing v with
  | zero => rfl
  | succ n ih => simp [toLe_succ, ih]

@[simp] theorem length_toBe (n v : Nat) : (toBe n v).length = n := by simp [toBe]

theorem toLe_add (m n v : Nat) : toLe (m + n) v = toLe m v ++ toLe n (v / 256 ^ m) := by
  induction m generalizing v with
  | zero => simp [toLe_zero]
  | succ m ih =>
      rw [show m + 1 + n = m + n + 1 by omega, toLe_succ, ih, toLe_succ, List.cons_append,
        Nat.div_div_eq_div_mul, Nat.pow_succ, Nat.mul_comm 256]

theorem ofLe_toLe_mod (n v : Nat) : ofLe (toLe n v) = v % 256 ^ n := by
  induction n generalizing v with
  | zero => simp [toLe_zero, ofLe_nil, Nat.mod_one]
  | succ n ih =>
      rw [toLe_succ, ofLe_cons, ih, BitVec.toNat_ofNat]
      calc v % 2 ^ 8 + 256 * (v / 256 % 256 ^ n)
          = v % (256 * 256 ^ n) := (Nat.mod_mul).symm
        _ = v % 256 ^ (n + 1) := by rw [Nat.pow_succ, Nat.mul_comm]

theorem ofLe_toLe {n v : Nat} (h : v < 256 ^ n) : ofLe (toLe n v) = v := by
  rw [ofLe_toLe_mod, Nat.mod_eq_of_lt h]

theorem ofBe_toBe {n v : Nat} (h : v < 256 ^ n) : ofBe (toBe n v) = v := by
  rw [ofBe, toBe, List.reverse_reverse, ofLe_toLe h]

theorem ofLe_lt (bs : List Byte) : ofLe bs < 256 ^ bs.length := by
  induction bs with
  | nil => simp [ofLe_nil]
  | cons b bs ih =>
      have := b.isLt
      rw [ofLe_cons, List.length_cons, Nat.pow_succ]
      omega

theorem length_flatMap_le {α β : Type} {l : List α} {f : α → List β} {n : Nat}
    (h : ∀ a ∈ l, (f a).length ≤ n) : (l.flatMap f).length ≤ l.length * n := by
  induction l with
  | nil => simp
  | cons a l ih =>
      have ha := h a List.mem_cons_self
      have hl := ih fun b hb => h b (List.mem_cons_of_mem a hb)
      rw [List.flatMap_cons, List.length_append, List.length_cons, Nat.succ_mul]
      omega

/-! ## The cursor -/

/-- A reader of `data` at offset `pos` has `rest` before it. -/
structure At (data : List Byte) (pos : Nat) (rest : List Byte) : Prop where
  le : pos ≤ data.length
  drop : data.drop pos = rest

namespace At

variable {data xs rest : List Byte} {pos n : Nat}

theorem start (data : List Byte) : At data 0 data := ⟨Nat.zero_le _, rfl⟩

theorem length_eq (h : At data pos rest) : pos + rest.length = data.length := by
  have := h.le
  rw [← h.drop, List.length_drop]
  omega

/-- Moving past what was read. -/
theorem skip (h : At data pos (xs ++ rest)) (hn : xs.length = n) : At data (pos + n) rest := by
  have hlen := h.length_eq
  rw [List.length_append] at hlen
  refine ⟨by omega, ?_⟩
  rw [← List.drop_drop, h.drop, ← hn, List.drop_left]

/-- Moving past one byte. -/
theorem tail {b : Byte} (h : At data pos (b :: rest)) : At data (pos + 1) rest :=
  At.skip (show At data pos ([b] ++ rest) from h) rfl

/-- The same reader behind a prefix. -/
theorem prepend (h : At data pos rest) (pre : List Byte) :
    At (pre ++ data) (pre.length + pos) rest := by
  refine ⟨by rw [List.length_append]; exact Nat.add_le_add_left h.le _, ?_⟩
  rw [List.drop_length_add_append, h.drop]

/-- The same reader with more bytes behind. -/
theorem append (h : At data pos rest) (post : List Byte) :
    At (data ++ post) pos (rest ++ post) := by
  refine ⟨by rw [List.length_append]; exact Nat.le_trans h.le (Nat.le_add_right _ _), ?_⟩
  rw [List.drop_append_of_le_length h.le, h.drop]

theorem getElem? {b : Byte} (h : At data pos (b :: rest)) : data[pos]? = some b := by
  have := congrArg (fun l => l[0]?) h.drop
  simpa using this

theorem ne_nil {b : Byte} (h : At data pos (b :: rest)) : data ≠ [] := by
  intro hd
  have := h.getElem?
  simp [hd] at this

theorem take (h : At data pos (xs ++ rest)) (hn : xs.length = n) :
    (data.drop pos).take n = xs := by
  rw [h.drop, ← hn, List.take_left]

end At

/-- `from_le_bytes` of the `n` bytes at `pos`. -/
def readLe (data : List Byte) (pos n : Nat) : Nat := ofLe ((data.drop pos).take n)

/-- `from_be_bytes` of the `n` bytes at `pos`. -/
def readBe (data : List Byte) (pos n : Nat) : Nat := ofBe ((data.drop pos).take n)

theorem readLe_lt (data : List Byte) (pos n : Nat) : Bytes.readLe data pos n < 256 ^ n :=
  Nat.lt_of_lt_of_le (ofLe_lt _)
    (Nat.pow_le_pow_right (by decide) (List.length_take_le n (data.drop pos)))

theorem At.readLe_mod {data rest : List Byte} {pos n v : Nat}
    (h : At data pos (toLe n v ++ rest)) : Bytes.readLe data pos n = v % 256 ^ n := by
  unfold Bytes.readLe
  rw [h.take (length_toLe n v), ofLe_toLe_mod]

theorem At.readLe {data rest : List Byte} {pos n v : Nat} (h : At data pos (toLe n v ++ rest))
    (hv : v < 256 ^ n) : Bytes.readLe data pos n = v := by
  rw [h.readLe_mod, Nat.mod_eq_of_lt hv]

theorem At.readBe {data rest : List Byte} {pos n v : Nat} (h : At data pos (toBe n v ++ rest))
    (hv : v < 256 ^ n) : readBe data pos n = v := by
  unfold Bytes.readBe
  rw [h.take (length_toBe n v), ofBe_toBe hv]

end Bytes
