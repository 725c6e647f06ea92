import Mathlib.Data.List.Destutter

/-!
# Updates that change the state

A machine that reads a list of updates passes through a sequence of states. Once repetitions
are dropped, only the updates that change the state are visible in it. Where such an update
can be read off the states before and after it, nothing is lost: two machines show the same
states exactly if they read the same changing updates (`history_eq_iff`), and the one shows a
part of what the other shows exactly if its changing updates are the first ones of the other
(`history_prefix_iff`).

The condition on the updates, `Determined`, excludes two different updates that take one state
to the same other one. Register writes satisfy it: the register that differs and its new value
give the write back. Without the condition the histories could agree while the updates do not.
-/

namespace Stuttering

variable {σ ι : Type*} {apply : σ → ι → σ} {s : σ} {u : ι} {us vs : List ι}

section changes

variable (apply) [∀ s u, Decidable (apply s u = s)]

/-- The updates that change the state when `us` are read from `s`. -/
def changes (s : σ) : List ι → List ι
  | [] => []
  | u :: us => if apply s u = s then changes s us else u :: changes (apply s u) us

variable {apply}

theorem changes_cons_of_eq (h : apply s u = s) : changes apply s (u :: us) = changes apply s us :=
  if_pos h

theorem changes_cons_of_ne (h : apply s u ≠ s) :
    changes apply s (u :: us) = u :: changes apply (apply s u) us :=
  if_neg h

theorem changes_append (us vs : List ι) :
    changes apply s (us ++ vs) = changes apply s us ++ changes apply (us.foldl apply s) vs := by
  induction us generalizing s with
  | nil => rfl
  | cons u us ih =>
    rw [List.cons_append, List.foldl_cons]
    by_cases h : apply s u = s
    · rw [changes_cons_of_eq h, changes_cons_of_eq h, ih, h]
    · rw [changes_cons_of_ne h, changes_cons_of_ne h, ih, List.cons_append]

end changes

/-! ## The states

From here on the state sequence itself is the subject. It is made of the changing updates and
nothing else, which reduces a comparison of histories to one of lists of updates. -/

/-- Each of the updates changes the state. -/
def Moves (apply : σ → ι → σ) (s : σ) : List ι → Prop
  | [] => True
  | u :: us => apply s u ≠ s ∧ Moves apply (apply s u) us

theorem moves_changes [∀ s u, Decidable (apply s u = s)] (us : List ι) :
    Moves apply s (changes apply s us) := by
  induction us generalizing s with
  | nil => trivial
  | cons u us ih =>
    by_cases h : apply s u = s
    · rw [changes_cons_of_eq h]
      exact ih
    · rw [changes_cons_of_ne h]
      exact ⟨h, ih⟩

/-- Updates that change something are told apart by what they change. -/
def Determined (apply : σ → ι → σ) : Prop :=
  ∀ ⦃s u v⦄, apply s u ≠ s → apply s u = apply s v → u = v

theorem scanl_eq_cons (apply : σ → ι → σ) (s : σ) (us : List ι) :
    ∃ ss, us.scanl apply s = s :: ss := by
  cases us with
  | nil => exact ⟨[], rfl⟩
  | cons u us => exact ⟨us.scanl apply (apply s u), List.scanl_cons⟩

theorem Determined.scanl_prefix_iff (hdet : Determined apply) (hus : Moves apply s us) :
    us.scanl apply s <+: vs.scanl apply s ↔ us <+: vs := by
  induction us generalizing s vs with
  | nil =>
    obtain ⟨ss, hss⟩ := scanl_eq_cons apply s vs
    simp [hss]
  | cons u us ih =>
    obtain ⟨hu, hus⟩ := hus
    rw [List.scanl_cons]
    cases vs with
    | nil =>
      obtain ⟨ss, hss⟩ := scanl_eq_cons apply (apply s u) us
      simp [hss]
    | cons v vs =>
      rw [List.scanl_cons, List.cons_prefix_cons, List.cons_prefix_cons]
      constructor
      · rintro ⟨-, hprefix⟩
        obtain ⟨ss, hss⟩ := scanl_eq_cons apply (apply s u) us
        obtain ⟨ss', hss'⟩ := scanl_eq_cons apply (apply s v) vs
        have heq : apply s u = apply s v := by
          rw [hss, hss', List.cons_prefix_cons] at hprefix
          exact hprefix.1
        obtain rfl := hdet hu heq
        exact ⟨rfl, (ih hus).mp hprefix⟩
      · rintro ⟨rfl, hprefix⟩
        exact ⟨rfl, (ih hus).mpr hprefix⟩

theorem Determined.changes_eq_of_foldl [∀ s u, Decidable (apply s u = s)]
    (hdet : Determined apply) (hus : us.length ≤ 1) (hvs : vs.length ≤ 1)
    (h : us.foldl apply s = vs.foldl apply s) : changes apply s us = changes apply s vs := by
  match us, vs, hus, hvs with
  | [], [], _, _ => rfl
  | [], [v], _, _ =>
    have hv : apply s v = s := h.symm
    exact (changes_cons_of_eq hv).symm
  | [u], [], _, _ =>
    have hu : apply s u = s := h
    exact changes_cons_of_eq hu
  | [u], [v], _, _ =>
    have huv : apply s u = apply s v := h
    by_cases hu : apply s u = s
    · rw [changes_cons_of_eq hu, changes_cons_of_eq (huv ▸ hu)]
    · rw [hdet hu huv]

/-- Two machines that make at most one update in a step and are in the same states after each
step make the same changes. -/
theorem Determined.changes_flatten_eq [∀ s u, Decidable (apply s u = s)]
    (hdet : Determined apply) {as bs : List (List ι)} (hlength : as.length = bs.length)
    (has : ∀ us ∈ as, us.length ≤ 1) (hbs : ∀ vs ∈ bs, vs.length ≤ 1)
    (h : ∀ i, (as.take i).flatten.foldl apply s = (bs.take i).flatten.foldl apply s) :
    changes apply s as.flatten = changes apply s bs.flatten := by
  induction as generalizing s bs with
  | nil =>
    obtain rfl := List.length_eq_zero_iff.mp hlength.symm
    rfl
  | cons us as ih =>
    cases bs with
    | nil => cases hlength
    | cons vs bs =>
      have hfirst : us.foldl apply s = vs.foldl apply s := by simpa using h 1
      rw [List.flatten_cons, List.flatten_cons, changes_append, changes_append,
        hdet.changes_eq_of_foldl (has us (by simp)) (hbs vs (by simp)) hfirst, ← hfirst]
      congr 1
      refine ih (Nat.succ.inj hlength) (fun us hus => has us (by simp [hus]))
        (fun vs hvs => hbs vs (by simp [hvs])) fun i => ?_
      have hnext := h (i + 1)
      rwa [List.take_succ_cons, List.take_succ_cons, List.flatten_cons, List.flatten_cons,
        List.foldl_append, List.foldl_append, ← hfirst] at hnext

section history

variable [DecidableEq σ] (apply)

/-- The states that `us` pass through from `s`, repetitions dropped. -/
def history (s : σ) (us : List ι) : List σ := (us.scanl apply s).destutter (· ≠ ·)

variable {apply} [∀ s u, Decidable (apply s u = s)]

/-- **The changing updates make the history.** -/
theorem history_eq (us : List ι) : history apply s us = (changes apply s us).scanl apply s := by
  induction us generalizing s with
  | nil => rfl
  | cons u us ih =>
    obtain ⟨ss, hss⟩ := scanl_eq_cons apply (apply s u) us
    have htail : history apply (apply s u) us = ss.destutter' (· ≠ ·) (apply s u) := by
      rw [history, hss, List.destutter_cons']
    rw [history, List.scanl_cons, hss, List.destutter_cons']
    by_cases h : apply s u = s
    · rw [h] at htail
      rw [changes_cons_of_eq h, h, List.destutter'_cons_neg _ (by simp), ← htail]
      exact ih
    · rw [changes_cons_of_ne h, List.destutter'_cons_pos _ (Ne.symm h), List.scanl_cons, ← htail,
        ih]

theorem history_prefix_iff (hdet : Determined apply) :
    history apply s us <+: history apply s vs ↔ changes apply s us <+: changes apply s vs := by
  rw [history_eq, history_eq]
  exact hdet.scanl_prefix_iff (moves_changes us)

theorem history_eq_iff (hdet : Determined apply) :
    history apply s us = history apply s vs ↔ changes apply s us = changes apply s vs := by
  refine ⟨fun h => ?_, fun h => by rw [history_eq, history_eq, h]⟩
  have hus : changes apply s us <+: changes apply s vs :=
    (history_prefix_iff hdet).mp (h ▸ List.prefix_rfl)
  have hvs : changes apply s vs <+: changes apply s us :=
    (history_prefix_iff hdet).mp (h ▸ List.prefix_rfl)
  exact hus.eq_of_length_le hvs.length_le

end history

end Stuttering
