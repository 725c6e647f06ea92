import Mathlib.Data.Nat.Init

/-!
# Valid/ready channels

A channel between two parties of a synchronous circuit: the source offers a payload with
`valid`, the sink takes it with `ready`, and a transfer happens in every cycle in which both
are up. A source keeps the rule of the channel if an offer, once made, is repeated with the
same payload until it is taken.

The rule is that of the channels of the AXI bus, where neither side may wait for the other to
move first and then change its mind. It relates two neighbouring cycles and says nothing about
when, or whether, a transfer comes. That is a promise of the sink, and a statement about
progress names it as one. Five channels make up an AXI-Lite port; the master and the control
slave of the wrapper are described by the same five, with the roles exchanged.
-/

namespace Handshake

/-- The wires of a channel in one cycle. -/
structure Channel (α : Type*) where
  valid : Bool
  payload : α
  ready : Bool

variable {α : Type*}

/-- What is transferred in this cycle. -/
def Channel.transfer (ch : Channel α) : Option α :=
  if ch.valid && ch.ready then some ch.payload else none

/-- The rule of the source from one cycle to the next. -/
def Channel.Held (ch ch' : Channel α) : Prop :=
  ch.valid = true → ch.ready = false → ch'.valid = true ∧ ch'.payload = ch.payload

/-- The source keeps the rule in every cycle. -/
def Stable (ch : ℕ → Channel α) : Prop := ∀ t, (ch t).Held (ch (t + 1))

/-- An offer that is always the same keeps the rule. -/
theorem stable_of_const {ch : ℕ → Channel α} {v : Bool} {p : α}
    (h : ∀ t, (ch t).valid = v ∧ (ch t).payload = p) : Stable ch := by
  intro t hv _
  refine ⟨?_, (h (t + 1)).2.trans (h t).2.symm⟩
  rw [(h (t + 1)).1, ← (h t).1, hv]

/-- **Waiting rule**: what persists until `r` holds up to the first `r`, if there is one. -/
theorem waits {p : ℕ → Prop} {r : ℕ → Bool} (hp : ∀ k, p k → r k = false → p (k + 1)) {n : ℕ}
    (hn : p n) (hr : ∃ m, n ≤ m ∧ r m = true) :
    ∃ m, n ≤ m ∧ r m = true ∧ ∀ k, n ≤ k → k ≤ m → p k ∧ (k < m → r k = false) := by
  obtain ⟨m, hm, hrm⟩ := hr
  obtain ⟨d, rfl⟩ := Nat.exists_eq_add_of_le hm
  clear hm
  induction d generalizing n with
  | zero =>
    refine ⟨n, Nat.le_refl n, hrm, fun k hk hk' => ?_⟩
    obtain rfl := Nat.le_antisymm hk hk'
    exact ⟨hn, fun h => absurd h (Nat.lt_irrefl n)⟩
  | succ d ih =>
    cases hrn : r n with
    | true =>
      refine ⟨n, Nat.le_refl n, hrn, fun k hk hk' => ?_⟩
      obtain rfl := Nat.le_antisymm hk hk'
      exact ⟨hn, fun h => absurd h (Nat.lt_irrefl n)⟩
    | false =>
      rw [Nat.add_comm d 1, ← Nat.add_assoc] at hrm
      obtain ⟨m, hm, hr, hall⟩ := ih (hp n hn hrn) hrm
      refine ⟨m, by omega, hr, fun k hk hk' => ?_⟩
      rcases Nat.eq_or_lt_of_le hk with rfl | hlt
      · exact ⟨hn, fun _ => hrn⟩
      · exact hall k hlt hk'

end Handshake
