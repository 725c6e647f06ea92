import Mathlib.Order.Preorder.Finite
import Mathlib.Tactic.Common

/-!
# Leads-to

Progress along a run, for predicates of time: `LeadsTo P Q` says that whenever `P` holds, `Q`
holds then or later. A proof of progress is a chain of such facts. Each link waits for
something that is bound to happen (`LeadsTo.await`) or counts down a measure
(`LeadsTo.measure`).

There is no temporal logic behind this: a run is fixed, the predicates are about its cycles, and
the rules are ordinary lemmas about natural numbers. They are the ones that a progress argument
about hardware uses. Waiting is the rule for a handshake, where the state stands still until the
partner moves. Counting down is the rule for a unit that takes a known number of cycles. Links
are joined by transitivity and by cases.
-/

/-- Whenever `P` holds, `Q` holds then or later. -/
def LeadsTo (P Q : ℕ → Prop) : Prop := ∀ t, P t → ∃ u, t ≤ u ∧ Q u

namespace LeadsTo

variable {P Q R : ℕ → Prop}

theorem of_imp (h : ∀ t, P t → Q t) : LeadsTo P Q := fun t hP => ⟨t, le_rfl, h t hP⟩

theorem trans (hPQ : LeadsTo P Q) (hQR : LeadsTo Q R) : LeadsTo P R := by
  intro t hP
  obtain ⟨u, htu, hQ⟩ := hPQ t hP
  obtain ⟨v, huv, hR⟩ := hQR u hQ
  exact ⟨v, htu.trans huv, hR⟩

theorem or (hP : LeadsTo P R) (hQ : LeadsTo Q R) : LeadsTo (fun t => P t ∨ Q t) R := by
  rintro t (h | h)
  · exact hP t h
  · exact hQ t h

/-- **Waiting**: `P` persists until `r`, which is bound to come, and then gives `Q`. -/
theorem await {r : ℕ → Prop} (hready : LeadsTo P r) (hwait : ∀ t, P t → ¬ r t → P (t + 1))
    (hgo : ∀ t, P t → r t → Q (t + 1)) : LeadsTo P Q := by
  intro t hP
  obtain ⟨u, htu, hr⟩ := hready t hP
  obtain ⟨d, rfl⟩ := Nat.exists_eq_add_of_le htu
  clear htu
  -- by induction on the time until `r`
  induction d generalizing t with
  | zero => exact ⟨t + 1, Nat.le_succ t, hgo t hP hr⟩
  | succ d ih =>
    by_cases hrt : r t
    · exact ⟨t + 1, Nat.le_succ t, hgo t hP hrt⟩
    · rw [Nat.add_comm d 1, ← Nat.add_assoc] at hr
      obtain ⟨v, hv, hQ⟩ := ih (t + 1) (hwait t hP hrt) hr
      exact ⟨v, (Nat.le_succ t).trans hv, hQ⟩

/-- **Counting down**: as long as `Q` has not come, the measure falls. -/
theorem measure (m : ℕ → ℕ) (h : ∀ t, P t → Q t ∨ P (t + 1) ∧ m (t + 1) < m t) :
    LeadsTo P Q := by
  intro t hP
  induction hm : m t using Nat.strong_induction_on generalizing t with
  | _ k ih =>
    obtain hQ | ⟨hP', hlt⟩ := h t hP
    · exact ⟨t, le_rfl, hQ⟩
    · obtain ⟨u, hu, hQ⟩ := ih (m (t + 1)) (hm ▸ hlt) (t + 1) hP' rfl
      exact ⟨u, (Nat.le_succ t).trans hu, hQ⟩

/-- What is bound to come at any time comes infinitely often. -/
theorem infinite (h : LeadsTo (fun _ => True) Q) : {t | Q t}.Infinite := by
  refine Set.infinite_of_forall_exists_gt fun t => ?_
  obtain ⟨u, hu, hQ⟩ := h (t + 1) trivial
  exact ⟨u, hQ, hu⟩

end LeadsTo
