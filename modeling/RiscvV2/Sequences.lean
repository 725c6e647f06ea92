import Mathlib.Data.List.Basic
import Mathlib.Algebra.Order.Group.Nat

/-!
# Lists and sequences of events

Two lists agree if one is a prefix of the other: two records of the same thing, of which one
may go further. Two sequences of events are matched by a map that keeps the order and reaches
every event of the second one.

Agreement is what a comparison of two traces can establish that stops with the shorter one. It
is weaker than equality and still excludes every wrong entry. Matching is for two streams of
events of which one may repeat what the other shows once: the map says which events belong
together, and what is left over are repetitions.
-/

namespace Sequences

section lists

variable {α : Type*}

/-! ## Lists that agree -/

/-- The lists have the same entries on their common length. -/
def Agree (l₁ l₂ : List α) : Prop := l₁ <+: l₂ ∨ l₂ <+: l₁

theorem Agree.cons {l₁ l₂ : List α} (a : α) (h : Agree l₁ l₂) :
    Agree (a :: l₁) (a :: l₂) := by
  obtain h | h := h
  · exact .inl (List.cons_prefix_cons.mpr ⟨rfl, h⟩)
  · exact .inr (List.cons_prefix_cons.mpr ⟨rfl, h⟩)

/-- Dropping as many entries as `p` holds for in front. -/
theorem drop_length_takeWhile (p : α → Bool) (l : List α) :
    l.drop (l.takeWhile p).length = l.dropWhile p := by
  have h : (l.takeWhile p ++ l.dropWhile p).drop (l.takeWhile p).length = l.dropWhile p :=
    List.drop_left
  rwa [List.takeWhile_append_dropWhile] at h

end lists

/-! ## Matched events -/

/-- `f` takes every event of `L` to a later one of `R`, keeps their order and leaves none of
`R` out. -/
structure Matches (f : ℕ → ℕ) (L R : ℕ → Prop) : Prop where
  later : ∀ t, L t → t < f t
  maps : ∀ t, L t → R (f t)
  mono : ∀ t t', L t → L t' → t < t' → f t < f t'
  surj : ∀ u, R u → ∃ t, L t ∧ f t = u

section delay

-- each event of `R` answers one of `V`, `d` steps before, and every event of `L` is in `V`
variable {L V R : ℕ → Prop} {f : ℕ → ℕ} {d : ℕ} (h : Matches f L R)
  (hLV : ∀ t, L t → V t) (hR : ∀ u, R u ↔ ∃ t, V t ∧ t + d = u)

include h hLV hR

/-- Before the first event of `V` that is not in `L`, the matching is the delay. -/
theorem Matches.eq_delay {t₀ : ℕ} (hlow : ∀ t < t₀, V t → L t) :
    ∀ t < t₀, L t → f t = t + d := by
  intro t
  induction t using Nat.strong_induction_on with
  | _ t ih =>
    intro ht hL
    obtain ⟨t', hL', hf'⟩ := h.surj (t + d) ((hR _).mpr ⟨t, hLV t hL, rfl⟩)
    rcases lt_trichotomy t' t with hlt | rfl | hgt
    · have := ih t' hlt (hlt.trans ht) hL'
      omega
    · exact hf'
    · -- the answer to `t` would come before `t + d` and so belong to an earlier event
      have hearly := h.mono t t' hL hL' hgt
      obtain ⟨s, hV, hs⟩ := (hR _).mp (h.maps t hL)
      have hst : s < t := by omega
      have hLs := hlow s (hst.trans ht) hV
      have := ih s hst (hst.trans ht) hLs
      have := h.mono s t hLs hL hst
      omega

/-- **A matching leaves no event of `V` out**, if those of `L` are followed by `d` steps
without one. -/
theorem Matches.all_matched (hgap : ∀ t, L t → ∀ s, t < s → s < t + d → ¬ V s) (t : ℕ)
    (hV : V t) : L t := by
  induction t using Nat.strong_induction_on with
  | _ t ih =>
    by_contra hnot
    have hdelay := h.eq_delay hLV hR fun s hs hVs => ih s hs hVs
    -- an event of `L` that is answered at or after `t + d` comes after `t`
    have hafter : ∀ a, L a → t + d ≤ f a → t < a := by
      intro a hLa ha
      rcases lt_trichotomy a t with hlt | rfl | hgt
      · have := hdelay a hlt hLa
        omega
      · exact absurd hLa hnot
      · exact hgt
    -- so the answer to `t` can only belong to `a` behind it, whose own is then left over
    obtain ⟨a, hLa, ha⟩ := h.surj (t + d) ((hR _).mpr ⟨t, hV, rfl⟩)
    have hta := hafter a hLa ha.ge
    obtain ⟨b, hLb, hb⟩ := h.surj (a + d) ((hR _).mpr ⟨a, hLV a hLa, rfl⟩)
    have hlate := h.later b hLb
    rcases lt_trichotomy b a with hlt | rfl | hgt
    · have := h.mono b a hLb hLa hlt
      omega
    · omega
    · exact hgap a hLa b hgt (by omega) (hLV b hLb)

end delay

end Sequences
