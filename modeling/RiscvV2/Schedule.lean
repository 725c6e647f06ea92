import Mathlib.Algebra.BigOperators.Group.Finset.Basic
import Mathlib.Algebra.Order.BigOperators.Group.Finset
import Mathlib.Data.Nat.Count

/-!
# Schedules

Events that are counted down to: a counter `m` that falls by one in every cycle without an
event, is zero exactly in the cycles with one, and is set again by the event. Then the events
come at the partial sums of what the counter was set to.

The gaps need not be equal. Each event sets the counter anew, to a value that may depend on how
many events there have been, so the schedule of a machine whose steps take different times is
the sum of these times. No statement about the cycles in between is needed: the counter is all
that is known of them, and it rules out any further event.
-/

namespace Schedule

variable {fires : ℕ → Prop} {m : ℕ → ℕ}

/-- The cycle of event number `k`: the first wait, and a gap after each event. -/
def time (first : ℕ) (gap : ℕ → ℕ) (k : ℕ) : ℕ := first + ∑ j ∈ Finset.range k, gap j

@[simp] theorem time_zero (first : ℕ) (gap : ℕ → ℕ) : time first gap 0 = first := rfl

theorem time_succ (first : ℕ) (gap : ℕ → ℕ) (k : ℕ) :
    time first gap (k + 1) = time first gap k + gap k := by
  rw [time, time, Finset.sum_range_succ, Nat.add_assoc]

/-- A counter above zero reaches zero after as many cycles as it says, without an event. -/
theorem countdown [DecidablePred fires] (hzero : ∀ t, fires t ↔ m t = 0)
    (hwait : ∀ t, ¬ fires t → m (t + 1) + 1 = m t) (t : ℕ) {d : ℕ} (hd : m t = d) :
    fires (t + d) ∧ Nat.count fires (t + d) = Nat.count fires t := by
  induction d generalizing t with
  | zero => exact ⟨(hzero t).mpr hd, rfl⟩
  | succ d ih =>
    have hnot : ¬ fires t := by
      rw [hzero t, hd]
      exact Nat.succ_ne_zero d
    have hnext := hwait t hnot
    obtain ⟨hfires, hcount⟩ := ih (t + 1) (by omega)
    have htime : t + (d + 1) = t + 1 + d := by omega
    rw [htime]
    refine ⟨hfires, hcount.trans ?_⟩
    rw [Nat.count_succ, if_neg hnot, Nat.add_zero]

/-- **The schedule**: event number `k` comes at the sum of the first wait and `k` gaps, and
there are no others. -/
theorem scheduled [DecidablePred fires] (gap : ℕ → ℕ) (hzero : ∀ t, fires t ↔ m t = 0)
    (hwait : ∀ t, ¬ fires t → m (t + 1) + 1 = m t)
    (hset : ∀ t, fires t → m (t + 1) + 1 = gap (Nat.count fires t)) :
    (∀ k, fires (time (m 0) gap k) ∧ Nat.count fires (time (m 0) gap k) = k) ∧
      ∀ t, fires t → t = time (m 0) gap (Nat.count fires t) := by
  have hevents : ∀ k, fires (time (m 0) gap k) ∧ Nat.count fires (time (m 0) gap k) = k := by
    intro k
    induction k with
    | zero =>
      obtain ⟨hfires, hcount⟩ := countdown hzero hwait 0 rfl
      rw [Nat.zero_add] at hfires hcount
      exact ⟨hfires, hcount⟩
    | succ k ih =>
      obtain ⟨hfires, hcount⟩ := ih
      have hgap := hset _ hfires
      rw [hcount] at hgap
      -- the event itself takes the first cycle of its gap
      obtain ⟨hfires', hcount'⟩ := countdown hzero hwait (time (m 0) gap k + 1) rfl
      have htime : time (m 0) gap k + 1 + m (time (m 0) gap k + 1) = time (m 0) gap (k + 1) := by
        rw [time_succ]
        omega
      rw [htime] at hfires' hcount'
      refine ⟨hfires', ?_⟩
      rw [hcount', Nat.count_succ, if_pos hfires, hcount]
  refine ⟨hevents, fun t hfires => ?_⟩
  obtain ⟨hfires', hcount⟩ := hevents (Nat.count fires t)
  exact Nat.count_injective hfires hfires' hcount.symm

end Schedule
