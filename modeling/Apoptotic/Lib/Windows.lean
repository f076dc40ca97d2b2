import Mathlib.Data.List.Basic

/-!
# Events in sliding windows

At most `limit` of a list of times fall into any window of length `len`.  Times come in order, so a
window can only become too full by the event that comes last.

Principal results: `within_append_iff` — a further event keeps every window within its limit exactly
when fewer than `limit` events are recent; `length_recent_append` — recent events add up.
-/

namespace Windows

/-- The events in the window that starts at `w`. -/
def inside (len w : Nat) (times : List Nat) : List Nat :=
  times.filter fun t => decide (w ≤ t ∧ t < w + len)

/-- **No window of length `len` holds more than `limit` events.** -/
def Within (limit len : Nat) (times : List Nat) : Prop :=
  ∀ w, (inside len w times).length ≤ limit

/-- The events less than `len` ago. -/
def recent (len now : Nat) (times : List Nat) : List Nat :=
  times.filter fun t => decide (now < t + len)

variable {limit len now : Nat} {times : List Nat}

theorem within_nil : Within limit len [] := fun _ => Nat.zero_le _

@[simp] theorem recent_nil : recent len now [] = [] := rfl

@[simp] theorem recent_append (ts us : List Nat) :
    recent len now (ts ++ us) = recent len now ts ++ recent len now us := List.filter_append ..

theorem length_recent_append (ts us : List Nat) :
    (recent len now (ts ++ us)).length = (recent len now ts).length + (recent len now us).length := by
  rw [recent_append, List.length_append]

theorem recent_eq_self (h : ∀ t ∈ times, now < t + len) : recent len now times = times :=
  List.filter_eq_self.2 fun t ht => decide_eq_true (h t ht)

/-- What is recent later was recent before. -/
theorem recent_recent {later : Nat} (h : now ≤ later) :
    recent len later (recent len now times) = recent len later times := by
  unfold recent
  rw [List.filter_filter]
  refine List.filter_congr fun t _ => ?_
  rw [← Bool.decide_and, decide_eq_decide]
  exact and_iff_left_of_imp fun hlater => Nat.lt_of_le_of_lt h hlater

/-- A window that ends after `now` holds only recent events. -/
theorem length_inside_le {w : Nat} :
    (inside len w times).length ≤ (recent len now times).length ∨ w + len ≤ now := by
  by_cases hw : now < w + len
  · refine .inl (List.Sublist.length_le (List.monotone_filter_right _ fun t ht => ?_))
    have ht := of_decide_eq_true ht
    exact decide_eq_true (by omega)
  · exact .inr (Nat.not_lt.1 hw)

/-- The window that ends with `now` holds all the recent events. -/
theorem recent_eq_inside (h : ∀ t ∈ times, t ≤ now) :
    recent len now times = inside len (now + 1 - len) times := by
  refine List.filter_congr fun t ht => ?_
  have hle := h t ht
  rw [decide_eq_decide]
  omega

theorem inside_append (w : Nat) (ts us : List Nat) :
    inside len w (ts ++ us) = inside len w ts ++ inside len w us := List.filter_append ..

/-- **A further event leaves room exactly when fewer than `limit` events are recent.** -/
theorem within_append_iff (hlen : 0 < len) (h : ∀ t ∈ times, t ≤ now) :
    Within limit len (times ++ [now]) ↔
      Within limit len times ∧ (recent len now times).length < limit := by
  constructor
  · intro hall
    refine ⟨fun w => Nat.le_trans ?_ (hall w), ?_⟩
    · rw [inside_append, List.length_append]
      exact Nat.le_add_right _ _
    · have hlast := hall (now + 1 - len)
      have hnow : inside len (now + 1 - len) [now] = [now] :=
        List.filter_eq_self.2 fun t ht => by
          obtain rfl := List.mem_singleton.1 ht
          exact decide_eq_true (by omega)
      rw [inside_append, hnow, ← recent_eq_inside h, List.length_append,
        List.length_singleton] at hlast
      exact hlast
  · rintro ⟨hwithin, hroom⟩ w
    rw [inside_append, List.length_append]
    by_cases hw : w ≤ now ∧ now < w + len
    · have hone : (inside len w [now]).length ≤ 1 := List.length_filter_le ..
      have hinside : (inside len w times).length ≤ (recent len now times).length ∨ w + len ≤ now :=
        length_inside_le
      rcases hinside with hle | hge
      · omega
      · omega
    · have hnone : inside len w [now] = [] :=
        List.filter_eq_nil_iff.2 fun t ht => by
          obtain rfl := List.mem_singleton.1 ht
          simpa using hw
      rw [hnone, List.length_nil, Nat.add_zero]
      exact hwithin w

end Windows
