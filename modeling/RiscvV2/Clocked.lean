import Mathlib.Data.Nat.Count
import Mathlib.Logic.Function.Iterate
import Mathlib.Tactic.TypeStar

/-!
# Clocked systems

A synchronous circuit seen from its clock: a register state, an input sampled once per
cycle, and the state after the edge. What the surroundings of the circuit promise is the
`allowed` relation between the state of a cycle and the input of that cycle; a run is a
sequence of allowed cycles from an initial state.

Facts about the past of a run (how many requests were sent, which words were written) are
not part of the registers. They are kept by a *recorder* that rides along without feeding
anything back: `Clocked.record`. A promise of the surroundings that refers to the past is
stated over the record, so `record` also narrows the allowed inputs.

The blocks of the repository are all of this form, and their properties come in a few shapes: an
invariant of every reachable state, a simulation by a simpler machine, and a statement about the
cycles of one run. The rules for each are proved here once, for any state and input types. A
module about a block then supplies the step, a cycle with the facts it may assume, and names the
rule that turns it into a result about whole runs.
-/

/-- A clocked system with registers `σ` and per-cycle inputs `ι`. -/
structure Clocked (σ ι : Type*) where
  /-- the states a run may start in -/
  init : σ → Prop
  /-- the inputs the surroundings may drive in a state -/
  allowed : σ → ι → Prop
  /-- the registers after the clock edge -/
  next : σ → ι → σ

namespace Clocked

variable {σ ι γ α : Type*}

/-! ## Reachable states -/

/-- The states that end some run. -/
inductive Reachable (M : Clocked σ ι) : σ → Prop
  | init {s : σ} : M.init s → Reachable M s
  | tick {s : σ} {i : ι} : Reachable M s → M.allowed s i → Reachable M (M.next s i)

variable {M : Clocked σ ι}

/-- **Invariant rule**: what holds initially and survives every allowed cycle of a
reachable state holds of every reachable state. -/
theorem Reachable.invariant {I : σ → Prop} (h₀ : ∀ s, M.init s → I s)
    (hstep : ∀ s i, M.Reachable s → M.allowed s i → I s → I (M.next s i))
    {s : σ} (hs : M.Reachable s) : I s := by
  induction hs with
  | init h => exact h₀ _ h
  | tick hr ha ih => exact hstep _ _ hr ha ih

/-! ## Runs over an input stream

Where a statement compares different cycles of one run, the run is given by its initial state
and its stream of inputs. The state of a cycle is then a function of time, and such a statement
needs no trace. -/

/-- The state `t` cycles after `s` under the input stream `x`. -/
def stateAt (M : Clocked σ ι) (s : σ) (x : ℕ → ι) : ℕ → σ
  | 0 => s
  | t + 1 => M.next (M.stateAt s x t) (x t)

/-- A stream of inputs that is allowed in every cycle. -/
def Run (M : Clocked σ ι) (s : σ) (x : ℕ → ι) : Prop :=
  ∀ t, M.allowed (M.stateAt s x t) (x t)

theorem Run.reachable {s : σ} {x : ℕ → ι} (hx : M.Run s x) (hs : M.Reachable s) (t : ℕ) :
    M.Reachable (M.stateAt s x t) := by
  induction t with
  | zero => exact hs
  | succ t ih => exact ih.tick (hx t)

/-- What holds one cycle after `t₀` and is preserved until `t` holds at `t`. -/
theorem stateAt_between {s : σ} {x : ℕ → ι} {P : σ → Prop} {t₀ t : ℕ} (ht : t₀ < t)
    (h₀ : P (M.stateAt s x (t₀ + 1)))
    (hstep : ∀ u, t₀ < u → u < t → P (M.stateAt s x u) → P (M.stateAt s x (u + 1))) :
    P (M.stateAt s x t) := by
  induction ht with
  | refl => exact h₀
  | step hu ih =>
    exact hstep _ hu (Nat.lt_succ_self _)
      (ih fun v hv hlt => hstep v hv (Nat.lt_succ_of_lt hlt))

/-- The state after a finite sequence of inputs. -/
def after (M : Clocked σ ι) (s : σ) (is : List ι) : σ := is.foldl M.next s

/-- Every finite input sequence of an unconstrained system is a run. -/
theorem Reachable.after {s : σ} (hs : M.Reachable s) (hfree : ∀ s i, M.allowed s i)
    (is : List ι) : M.Reachable (M.after s is) := by
  induction is generalizing s with
  | nil => exact hs
  | cons i is ih => exact ih (hs.tick (hfree s i))

/-- Every input of a finite sequence is allowed when it comes. -/
def Allows (M : Clocked σ ι) : σ → List ι → Prop
  | _, [] => True
  | s, i :: is => M.allowed s i ∧ M.Allows (M.next s i) is

instance Allows.decidable [∀ s i, Decidable (M.allowed s i)] :
    ∀ (s : σ) (is : List ι), Decidable (M.Allows s is)
  | _, [] => inferInstanceAs (Decidable True)
  | s, i :: is =>
    have := Allows.decidable (M.next s i) is
    inferInstanceAs (Decidable (M.allowed s i ∧ M.Allows (M.next s i) is))

/-- An allowed input sequence ends in a reachable state. -/
theorem Reachable.after_allows {s : σ} (hs : M.Reachable s) (is : List ι)
    (h : M.Allows s is) : M.Reachable (M.after s is) := by
  induction is generalizing s with
  | nil => exact hs
  | cons i is ih =>
    obtain ⟨hi, his⟩ := h
    exact ih (hs.tick hi) his

/-! ## Feedback -/

/-- The system with its inputs computed from its state, `t` cycles after `s`. -/
def loop (M : Clocked σ ι) (u : σ → ι) (s : σ) (t : ℕ) : σ := (fun s => M.next s (u s))^[t] s

/-- A feedback loop is a run over the stream of inputs that it feeds back. -/
theorem stateAt_loop (M : Clocked σ ι) (u : σ → ι) (s : σ) (t : ℕ) :
    M.stateAt s (fun t => u (M.loop u s t)) t = M.loop u s t := by
  induction t with
  | zero => rfl
  | succ t ih =>
    rw [stateAt, ih]
    exact (Function.iterate_succ_apply' (fun s => M.next s (u s)) t s).symm

/-! ## Recorders

A recorder cannot change what the circuit does (`stateAt_sys`), so a result about the recorded
system is one about the circuit in all surroundings that keep the promises. -/

/-- Registers together with a record of the past. -/
structure Recorded (σ γ : Type*) where
  /-- the registers -/
  sys : σ
  /-- what was recorded of the run so far -/
  log : γ

/-- Attach a recorder: `g₀` is the record of the empty run, `upd` extends it by a cycle, and
`ok` states what the surroundings promise in terms of the record. -/
def record (M : Clocked σ ι) (g₀ : γ) (ok : γ → σ → ι → Prop) (upd : γ → σ → ι → γ) :
    Clocked (Recorded σ γ) ι where
  init r := M.init r.sys ∧ r.log = g₀
  allowed r i := M.allowed r.sys i ∧ ok r.log r.sys i
  next r i := ⟨M.next r.sys i, upd r.log r.sys i⟩

variable {g₀ : γ} {ok : γ → σ → ι → Prop} {upd : γ → σ → ι → γ}

/-- A recorder only watches: the registers of a recorded run are those of a run. -/
theorem Reachable.sys {r : Recorded σ γ} (hr : (M.record g₀ ok upd).Reachable r) :
    M.Reachable r.sys := by
  induction hr with
  | init h => exact .init h.1
  | tick _ ha ih => exact ih.tick ha.1

/-- The invariant rule for recorded systems, with the facts about the bare registers at
hand in the step. -/
theorem Reachable.recorded {I : σ → γ → Prop} (h₀ : ∀ s, M.init s → I s g₀)
    (hstep : ∀ s g i, M.Reachable s → M.allowed s i → ok g s i → I s g →
      I (M.next s i) (upd g s i))
    {r : Recorded σ γ} (hr : (M.record g₀ ok upd).Reachable r) : I r.sys r.log := by
  refine Reachable.invariant (I := fun r => I r.sys r.log) ?_ ?_ hr
  · rintro ⟨s, g⟩ ⟨hs, rfl⟩
    exact h₀ s hs
  · rintro ⟨s, g⟩ i hreach ⟨ha, hok⟩ hI
    exact hstep s g i hreach.sys ha hok hI

/-- The registers of a recorded run are those of the run without the recorder. -/
theorem stateAt_sys (r : Recorded σ γ) (x : ℕ → ι) (t : ℕ) :
    ((M.record g₀ ok upd).stateAt r x t).sys = M.stateAt r.sys x t := by
  induction t with
  | zero => rfl
  | succ t ih => exact congrArg (fun s => M.next s (x t)) ih

theorem Run.sys {r : Recorded σ γ} {x : ℕ → ι} (hx : (M.record g₀ ok upd).Run r x) :
    M.Run r.sys x := by
  intro t
  have hallowed := (hx t).1
  rw [stateAt_sys] at hallowed
  exact hallowed

/-! ## Stuttering simulation -/

/-- **Stuttering simulation**: if every cycle keeps the relation after zero or more steps of
a deterministic machine, every reachable state is related to some state of that machine. -/
theorem Reachable.simulates {R : σ → α → Prop} {step : α → α} {a₀ : α}
    (h₀ : ∀ s, M.init s → R s a₀)
    (hstep : ∀ s i a, M.Reachable s → M.allowed s i → R s a →
      ∃ k, R (M.next s i) (step^[k] a))
    {s : σ} (hs : M.Reachable s) : ∃ n, R s (step^[n] a₀) := by
  induction hs with
  | init h => exact ⟨0, h₀ _ h⟩
  | tick hr ha ih =>
    obtain ⟨n, hn⟩ := ih
    obtain ⟨k, hk⟩ := hstep _ _ _ hr ha hn
    -- the `k` steps of this cycle follow the `n` of the run before it
    exact ⟨k + n, by rw [Function.iterate_add_apply]; exact hk⟩

/-- **Counted simulation**: if the cycles in which `fires` holds keep the relation after one
step of a deterministic machine, and the others keep it as it is, the state after `t` cycles
is related to the machine after as many steps as there were firing cycles. -/
theorem stateAt_simulates {s : σ} {x : ℕ → ι} (R : σ → α → Prop) (step : α → α) {a₀ : α}
    (fires : ℕ → Prop) [DecidablePred fires] (h₀ : R s a₀)
    (hstep : ∀ t a, R (M.stateAt s x t) a →
      R (M.stateAt s x (t + 1)) (if fires t then step a else a)) (t : ℕ) :
    R (M.stateAt s x t) (step^[Nat.count fires t] a₀) := by
  induction t with
  | zero => exact h₀
  | succ t ih =>
    have hnext := hstep t _ ih
    rw [Nat.count_succ]
    split_ifs at hnext ⊢ with hf
    · rw [Function.iterate_succ_apply']
      exact hnext
    · exact hnext

end Clocked
