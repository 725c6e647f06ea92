import RiscvV2.LeadsTo
import RiscvV2.DataPort
import RiscvV2.FetchProtocol
import RiscvV2.Multiplier
import RiscvV2.Operands

/-!
# Progress of the core

With memories that answer in the end, an instruction leaves EX again and again: no wait of
the core is for something that the core itself holds back. The argument follows one
instruction through the stages. A cycle of the multicycle units counts down to the cycle in
which they release EX (`exRemaining`); every other wait is for one of the memories.

Interrupts and redirects do not disturb the argument. They only decide which instruction is
fetched next, and a redirect that catches a request in flight adds one more wait, for the
response that is thrown away. The hypothesis is the weakest that can be asked for: that the
memory answers what it owes, and that an access on the port is accepted at some time.
-/

namespace RiscvV2

variable {n : ℕ} {c : Config} {p : Pipe}

/-! ## The multicycle units count down

The count is exact, and other modules use it for timing as well: it is the number of cycles that
the instruction will still be held, whatever happens on the inputs. -/

/-- The number of cycles the multiplier still holds a multiplication in EX. -/
def mulRemaining (m : MulUnit) : ℕ := if m.done then 0 else if m.busy then 1 else 2

/-- The number of cycles the divider still holds a division of `a` by `b` in EX. -/
def divRemaining (d : DivUnit) (op : AluOp) (a b : Word) : ℕ :=
  if d.done then 0
  else if d.busy then (31#6 - d.count).toNat + 1
  else divLatency op a b

/-- The number of cycles the instruction in EX is still held there. -/
def exRemaining (p : Pipe) : ℕ :=
  if mulIsOp p then mulRemaining p.mul
  else if divIsOp p then
    divRemaining p.div p.idEx.ctrl.aluOp (exAluSrcA p) (exAluSrcB p)
  else 0

theorem divLatency_pos (op : AluOp) (a b : Word) : 0 < divLatency op a b := by
  rw [divLatency]
  split_ifs <;> omega

/-- The multiplication is released when nothing remains. -/
theorem mulRemaining_eq_zero {m : MulUnit} : mulRemaining m = 0 ↔ m.done = true := by
  rw [mulRemaining]
  split_ifs with hd hb <;> simp [hd]

theorem divRemaining_eq_zero {d : DivUnit} {op : AluOp} {a b : Word} :
    divRemaining d op a b = 0 ↔ d.done = true := by
  have hpos := divLatency_pos op a b
  rw [divRemaining]
  split_ifs with hd hb
  · simp [hd]
  · simp [hd]
  · simp only [hd, Bool.false_eq_true, iff_false]
    omega

/-- Nothing remains exactly when no unit holds EX. -/
theorem exRemaining_eq_zero (hEx : p.idEx.valid = true) :
    exRemaining p = 0 ↔ mStall p = false := by
  rw [exRemaining, mStall, mulStall, divStall, hEx]
  cases hmul : mulIsOp p with
  | true =>
    have hdiv : divIsOp p = false := by
      by_contra hd
      rw [mulIsOp, AluOp.isMul_of_isDiv (Bool.eq_true_of_not_eq_false hd)] at hmul
      cases hmul
    rw [if_pos rfl, mulRemaining_eq_zero, hdiv]
    simp
  | false =>
    cases hdiv : divIsOp p with
    | true =>
      rw [if_neg (by simp), if_pos rfl, divRemaining_eq_zero]
      simp
    | false => simp

/-- A cycle of the multiplier is one less that remains. -/
theorem mulRemaining_next {r : Bool} (hEx : p.idEx.valid = true) (hs : memStall p r = false)
    (hop : mulIsOp p = true) (hd : p.mul.done = false) :
    mulRemaining (mulNext p r) + 1 = mulRemaining p.mul := by
  cases hb : p.mul.busy with
  | true =>
    have hnext : (mulNext p r).done = true := by
      rw [mulNext, if_neg (by simp [mulStart, hb]), if_pos hb]
      rfl
    rw [mulRemaining, if_pos hnext, mulRemaining, hd, hb]
    rfl
  | false =>
    have hstart : mulStart p r = true := by simp [mulStart, hEx, hop, hb, hd, hs]
    have hrun := mulNext_of_start hstart
    rw [mulRemaining, mulRemaining, hrun.busy, hrun.notDone, hd, hb]
    rfl

/-- The distance of the counter to its last value shrinks by one. -/
theorem toNat_distance {k : BitVec 6} (h : k ≠ 31#6) :
    (31#6 - (k + 1#6)).toNat + 1 = (31#6 - k).toNat := by
  have hne : k.toNat ≠ 31 := fun he => h (BitVec.eq_of_toNat_eq he)
  have hlt := k.isLt
  simp only [BitVec.toNat_sub, BitVec.toNat_add, BitVec.toNat_ofNat]
  omega

/-- A cycle of the divider is one less that remains. -/
theorem divRemaining_next {r : Bool} (hEx : p.idEx.valid = true) (hs : memStall p r = false)
    (hop : divIsOp p = true) (hd : p.div.done = false) (op : AluOp) (a b : Word) :
    divRemaining (divNext p r) op a b + 1 =
      divRemaining p.div p.idEx.ctrl.aluOp (exAluSrcA p) (exAluSrcB p) := by
  cases hb : p.div.busy with
  | true =>
    have hnext : divNext p r = divIterate { p.div with done := false } := by
      rw [divNext, if_neg (by simp [divStart, hb]), if_pos hb, hd]
      rfl
    rw [hnext]
    by_cases hc : p.div.count = 31#6
    · simp [divIterate, divRemaining, hc, hd, hb]
    · have hdist := toNat_distance hc
      simp only [divIterate, divRemaining, hc, hd, hb, if_false, if_true, Bool.false_eq_true]
      omega
  | false =>
    have hstart : divStart p r = true := by simp [divStart, hEx, hop, hb, hd, hs]
    have hstarted : divRemaining p.div p.idEx.ctrl.aluOp (exAluSrcA p) (exAluSrcB p) =
        divLatency p.idEx.ctrl.aluOp (exAluSrcA p) (exAluSrcB p) := by
      simp [divRemaining, hd, hb]
    rw [divNext_of_start hstart, hstarted, divLatency]
    split_ifs with himm
    · rw [divRemaining_eq_zero.mpr (divBegin_immediate hop himm).done]
    · obtain ⟨hrun, hcount⟩ := divBegin_running hd himm
      rw [divRemaining, hrun.notDone, hrun.busy, hcount]
      rfl

/-- **A held instruction counts down** to the cycle in which it may leave EX. -/
theorem exRemaining_next {i : PipeIn n} (h : Staged p) (hEx : p.idEx.valid = true)
    (hm : mStall p = true) : exRemaining (pipeNext c p i) + 1 = exRemaining p := by
  have hs := h.memStall_eq hEx i.dmemReady
  have hidEx : (pipeNext c p i).idEx = p.idEx := by rw [pipeNext_busy h hEx hm]
  rw [exRemaining, exRemaining, mulIsOp, mulIsOp, divIsOp, divIsOp, hidEx]
  cases hmul : p.idEx.ctrl.aluOp.isMul with
  | true =>
    have hd : p.mul.done = false := by
      by_contra hd
      have hdiv : p.idEx.ctrl.aluOp.isDiv = false := AluOp.isDiv_of_isMul hmul
      simp [mStall, mulStall, divStall, divIsOp, hdiv, Bool.eq_true_of_not_eq_false hd] at hm
    exact mulRemaining_next hEx hs hmul hd
  | false =>
    have hdiv : p.idEx.ctrl.aluOp.isDiv = true := by
      have hop := isMulDiv_of_mStall hm
      rw [Ctrl.isMulDiv, hmul, Bool.false_or] at hop
      exact hop
    have hd : p.div.done = false := by
      by_contra hd
      simp [mStall, mulStall, divStall, mulIsOp, hmul, Bool.eq_true_of_not_eq_false hd] at hm
    rw [hdiv, if_neg (by simp), if_pos rfl, if_neg (by simp), if_pos rfl]
    exact divRemaining_next hEx hs hdiv hd _ _ _

/-! ## One cycle of the core -/

section step

variable {s : Core} {i : CoreIn n}

/-- IF/ID and EX are empty. -/
structure Core.Empty (s : Core) : Prop where
  ifId : s.pipe.ifId.valid = false
  idEx : s.pipe.idEx.valid = false

theorem frontMoves_of_idEx_invalid (h : Staged p) (hEx : p.idEx.valid = false) (r : Bool) :
    frontMoves p r = !memStall p r := by
  rw [frontMoves, h.stallIf_eq, mStall_of_idEx_invalid hEx, Bool.not_false, Bool.and_true]

/-- With EX empty the instruction in IF/ID stays there exactly while memory waits. -/
theorem waiting_next (h : CoreStaged s) (hreset : i.reset = false)
    (hEx : s.pipe.idEx.valid = false) :
    (memStall s.pipe i.dmemReady = true →
      (coreNext c s i).pipe.ifId = s.pipe.ifId ∧ (coreNext c s i).pipe.idEx = s.pipe.idEx) ∧
    (memStall s.pipe i.dmemReady = false →
      (coreNext c s i).pipe.idEx.valid = s.pipe.ifId.valid ∧
      (coreNext c s i).pipe.ifId.valid = ifAccept c s i) := by
  rw [coreNext_pipe hreset]
  refine ⟨fun hs => ?_, fun hs => ?_⟩
  · rw [pipeNext_wait h.pipe hEx hs]
    exact ⟨rfl, rfl⟩
  · rw [pipeNext_flow h.pipe hEx hs]
    have hacc : (pipeIn c s i).ifAccept = ifAccept c s i := rfl
    rw [hacc]
    refine ⟨rfl, ?_⟩
    cases ifAccept c s i <;> rfl

/-- An empty front end is filled exactly by an accepted response. -/
theorem Core.Empty.next (h : s.Empty) (hst : CoreStaged s) (hreset : i.reset = false) :
    (coreNext c s i).pipe.idEx.valid = false ∧
      (coreNext c s i).pipe.ifId.valid = ifAccept c s i := by
  obtain ⟨hwait, hmove⟩ := waiting_next (c := c) hst hreset h.idEx
  cases hs : memStall s.pipe i.dmemReady with
  | true =>
    obtain ⟨hId, hEx⟩ := hwait hs
    rw [hId, hEx, h.ifId, h.idEx]
    exact ⟨rfl, by simp [ifAccept, hs]⟩
  | false =>
    obtain ⟨hEx, hId⟩ := hmove hs
    exact ⟨hEx.trans h.ifId, hId⟩

/-- Without an accepted response it stays so. -/
theorem Core.Empty.stays (h : s.Empty) (hst : CoreStaged s) (hreset : i.reset = false)
    (ha : ifAccept c s i = false) : (coreNext c s i).Empty := by
  obtain ⟨hEx, hId⟩ := h.next (c := c) hst hreset
  exact ⟨hId.trans ha, hEx⟩

/-- A fetch unit that waits for a response has an unanswered request. -/
theorem FetchAccount.owed {f : Fetch} {g : FetchLog} (h : FetchAccount f g)
    (hf : f.ifPendingValid = true ∨ f.ifDiscardPending = true) : g.unanswered ≠ [] := by
  cases h with
  | idle hq | buffered hq => simp [hq.pending, hq.discard] at hf
  | waiting _ hu | discarding _ hu => simp [hu]

end step

/-! ## Runs with memories that answer

One leads-to link for each place where the next instruction can be: in EX, in IF/ID, in the
buffer, on its way, not yet asked for, or behind a response that has to be thrown away. -/

/-- The core `t` cycles into a run. -/
def coreAfter (c : Config) (s₀ : Clocked.Recorded Core FetchLog)
    (x : ℕ → CoreIn c.numExtInterrupts) (t : ℕ) : Core :=
  ((fetchSystem c).stateAt s₀ x t).sys

/-- An instruction leaves EX in cycle `t`. -/
def departs (c : Config) (s₀ : Clocked.Recorded Core FetchLog)
    (x : ℕ → CoreIn c.numExtInterrupts) (t : ℕ) : Prop :=
  exFires (coreAfter c s₀ x t).pipe (x t).dmemReady = true

instance (c : Config) (s₀ : Clocked.Recorded Core FetchLog)
    (x : ℕ → CoreIn c.numExtInterrupts) : DecidablePred (departs c s₀ x) :=
  fun _ => inferInstanceAs (Decidable (_ = true))

/-- Both memories answer in the end: every request of the fetch unit, and every access on the
data port. -/
structure FairMemories (c : Config) (s₀ : Clocked.Recorded Core FetchLog)
    (x : ℕ → CoreIn c.numExtInterrupts) : Prop where
  imem : LeadsTo (fun t => ((fetchSystem c).stateAt s₀ x t).log.unanswered ≠ [])
    fun t => (x t).imemReady = true
  dmem : LeadsTo (fun t => (portAccess (coreAfter c s₀ x t).pipe).isSome = true)
    fun t => (x t).dmemReady = true

/-- A run without reset and with fair memories. -/
structure Answering (c : Config) (s₀ : Clocked.Recorded Core FetchLog)
    (x : ℕ → CoreIn c.numExtInterrupts) : Prop extends FairMemories c s₀ x where
  reachable : (fetchSystem c).Reachable s₀
  run : (fetchSystem c).Run s₀ x
  running : ∀ t, (x t).reset = false

namespace Answering

variable {s₀ : Clocked.Recorded Core FetchLog} {x : ℕ → CoreIn c.numExtInterrupts}
  (h : Answering c s₀ x)

include h

theorem reachableAt (t : ℕ) : (fetchSystem c).Reachable ((fetchSystem c).stateAt s₀ x t) :=
  h.run.reachable h.reachable t

theorem stagedAt (t : ℕ) : CoreStaged (coreAfter c s₀ x t) :=
  coreStaged_of_reachable (h.reachableAt t).sys

theorem fetch_succ (t : ℕ) :
    (coreAfter c s₀ x (t + 1)).fetch = fetchNext c (coreAfter c s₀ x t) (x t) :=
  coreNext_fetch (h.running t)

theorem pipe_succ (t : ℕ) : (coreAfter c s₀ x (t + 1)).pipe =
    pipeNext c (coreAfter c s₀ x t).pipe (pipeIn c (coreAfter c s₀ x t) (x t)) :=
  coreNext_pipe (h.running t)

/-- Without an accepted response the front end stays empty. -/
theorem stays_empty {t : ℕ} (hempty : (coreAfter c s₀ x t).Empty)
    (ha : ifAccept c (coreAfter c s₀ x t) (x t) = false) : (coreAfter c s₀ x (t + 1)).Empty :=
  hempty.stays (h.stagedAt t) (h.running t) ha

/-- With EX empty the fetch unit is held up by MEM only. -/
theorem moves_empty {t : ℕ} (hempty : (coreAfter c s₀ x t).Empty) :
    frontMoves (coreAfter c s₀ x t).pipe (x t).dmemReady =
      !memStall (coreAfter c s₀ x t).pipe (x t).dmemReady :=
  frontMoves_of_idEx_invalid (h.stagedAt t).pipe hempty.idEx (x t).dmemReady

/-- MEM does not wait forever. -/
theorem memory_free :
    LeadsTo (fun _ => True) fun t =>
      memStall (coreAfter c s₀ x t).pipe (x t).dmemReady = false := by
  intro t _
  cases hs : memStall (coreAfter c s₀ x t).pipe (x t).dmemReady with
  | false => exact ⟨t, le_rfl, hs⟩
  | true =>
    have hport : (portAccess (coreAfter c s₀ x t).pipe).isSome = true := by
      have hen := dmemEn_eq (coreAfter c s₀ x t).pipe
      rw [memStall, Bool.and_eq_true] at hs
      rw [portAccess, if_pos (by rw [hen, hs.1])]
      rfl
    obtain ⟨u, hu, hready⟩ := h.dmem t hport
    refine ⟨u, hu, ?_⟩
    simp [memStall, hready]

/-- The instruction in EX leaves it. -/
theorem leaves_ex :
    LeadsTo (fun t => (coreAfter c s₀ x t).pipe.idEx.valid = true) (departs c s₀ x) := by
  refine LeadsTo.measure (fun t => exRemaining (coreAfter c s₀ x t).pipe) fun t hEx => ?_
  have hst := (h.stagedAt t).pipe
  cases hm : mStall (coreAfter c s₀ x t).pipe with
  | false => exact .inl (exFires_eq_true.mpr ⟨hst.memStall_eq hEx _, hm, hEx⟩)
  | true =>
    have hcount := exRemaining_next (c := c) (i := pipeIn c (coreAfter c s₀ x t) (x t)) hst hEx hm
    refine .inr ⟨?_, ?_⟩
    · rw [h.pipe_succ, pipeNext_busy hst hEx hm]
      exact hEx
    · rw [h.pipe_succ]
      omega

/-- The instruction in IF/ID enters EX. -/
theorem enters_ex :
    LeadsTo (fun t => (coreAfter c s₀ x t).pipe.ifId.valid = true)
      fun t => (coreAfter c s₀ x t).pipe.idEx.valid = true := by
  refine LeadsTo.await (fun t _ => h.memory_free t trivial) (fun t hId hs => ?_)
    fun t hId hs => ?_
  · have hEx := (h.stagedAt t).pipe.ifId_idEx hId
    obtain ⟨hwait, -⟩ := waiting_next (c := c) (h.stagedAt t) (h.running t) hEx
    obtain ⟨hheld, -⟩ := hwait (Bool.eq_true_of_not_eq_false hs)
    exact (congrArg IfId.valid hheld).trans hId
  · have hEx := (h.stagedAt t).pipe.ifId_idEx hId
    obtain ⟨-, hmove⟩ := waiting_next (c := c) (h.stagedAt t) (h.running t) hEx
    exact (hmove hs).1.trans hId

/-! ### The fetch unit -/

/-- With IF/ID and EX empty a buffered response reaches IF/ID. -/
theorem fetched_buffered :
    LeadsTo (fun t => (coreAfter c s₀ x t).Empty ∧ (coreAfter c s₀ x t).fetch.Buffered)
      fun t => (coreAfter c s₀ x t).pipe.ifId.valid = true := by
  refine LeadsTo.await (fun t _ => h.memory_free t trivial) ?_ ?_
  · rintro t ⟨hempty, hf⟩ hs
    have hr := exRedirect_of_idEx_invalid (c := c) (r := (x t).dmemReady) hempty.idEx
    have hmoves := h.moves_empty hempty
    rw [Bool.eq_true_of_not_eq_false hs, Bool.not_true] at hmoves
    have ha := (ifAccept_buffered (i := x t) hr hf).trans hmoves
    refine ⟨h.stays_empty hempty ha, ?_⟩
    have hfetch := h.fetch_succ t
    rw [fetchNext_buffered hr hf, hmoves, if_neg Bool.false_ne_true] at hfetch
    exact hfetch ▸ hf
  · rintro t ⟨hempty, hf⟩ hs
    have hr := exRedirect_of_idEx_invalid (c := c) (r := (x t).dmemReady) hempty.idEx
    have hmoves := h.moves_empty hempty
    rw [hs, Bool.not_false] at hmoves
    have ha := (ifAccept_buffered (i := x t) hr hf).trans hmoves
    exact (hempty.next (h.stagedAt t) (h.running t)).2.trans ha

/-- A request that is to be delivered reaches IF/ID, through the buffer or not. -/
theorem fetched_waiting :
    LeadsTo (fun t => (coreAfter c s₀ x t).Empty ∧ (coreAfter c s₀ x t).fetch.Waiting)
      fun t => (coreAfter c s₀ x t).pipe.ifId.valid = true := by
  have hresponse : LeadsTo
      (fun t => (coreAfter c s₀ x t).Empty ∧ (coreAfter c s₀ x t).fetch.Waiting)
      fun t => (coreAfter c s₀ x t).pipe.ifId.valid = true ∨
        ((coreAfter c s₀ x t).Empty ∧ (coreAfter c s₀ x t).fetch.Buffered) := by
    refine LeadsTo.await (r := fun t => (x t).imemReady = true) ?_ ?_ ?_
    · rintro t ⟨-, hf⟩
      exact h.imem t ((fetchInv_of_reachable (h.reachableAt t)).account.owed (.inl hf.pending))
    · rintro t ⟨hempty, hf⟩ hi
      have hr := exRedirect_of_idEx_invalid (c := c) (r := (x t).dmemReady) hempty.idEx
      have ha := ifAccept_waiting (i := x t) hr hf
      rw [Bool.eq_false_iff.mpr hi, Bool.and_false] at ha
      refine ⟨h.stays_empty hempty ha, ?_⟩
      have hfetch := h.fetch_succ t
      rw [fetchNext_waiting hr hf, if_neg hi] at hfetch
      exact hfetch ▸ hf
    · rintro t ⟨hempty, hf⟩ hi
      have hr := exRedirect_of_idEx_invalid (c := c) (r := (x t).dmemReady) hempty.idEx
      have ha := ifAccept_waiting (i := x t) hr hf
      rw [hi, Bool.and_true] at ha
      cases hmoves : frontMoves (coreAfter c s₀ x t).pipe (x t).dmemReady with
      | true => exact .inl ((hempty.next (h.stagedAt t) (h.running t)).2.trans (ha.trans hmoves))
      | false =>
        refine .inr ⟨h.stays_empty hempty (ha.trans hmoves), ?_⟩
        have hfetch := h.fetch_succ t
        rw [fetchNext_waiting hr hf, if_pos hi, hmoves, if_neg Bool.false_ne_true] at hfetch
        exact hfetch ▸ ⟨rfl, rfl, hf.discard⟩
  exact hresponse.trans (LeadsTo.or (LeadsTo.of_imp fun _ hId => hId) h.fetched_buffered)

/-- An idle fetch unit makes a request. -/
theorem fetched_idle :
    LeadsTo (fun t => (coreAfter c s₀ x t).Empty ∧ (coreAfter c s₀ x t).fetch.Idle)
      fun t => (coreAfter c s₀ x t).pipe.ifId.valid = true := by
  refine LeadsTo.trans (LeadsTo.await (fun t _ => h.memory_free t trivial) ?_ ?_)
    h.fetched_waiting
  · rintro t ⟨hempty, hf⟩ hs
    have hr := exRedirect_of_idEx_invalid (c := c) (r := (x t).dmemReady) hempty.idEx
    have hmoves := h.moves_empty hempty
    rw [Bool.eq_true_of_not_eq_false hs, Bool.not_true] at hmoves
    refine ⟨h.stays_empty hempty (ifAccept_idle hf), ?_⟩
    have hfetch := h.fetch_succ t
    rw [fetchNext_idle hr hf, imemReq_idle hr hf, hmoves, Bool.and_false] at hfetch
    exact hfetch ▸ ⟨rfl, hf.buf, hf.discard⟩
  · rintro t ⟨hempty, hf⟩ hs
    have hr := exRedirect_of_idEx_invalid (c := c) (r := (x t).dmemReady) hempty.idEx
    have hmoves := h.moves_empty hempty
    rw [hs, Bool.not_false] at hmoves
    refine ⟨h.stays_empty hempty (ifAccept_idle hf), ?_⟩
    have hfetch := h.fetch_succ t
    rw [fetchNext_idle hr hf, imemReq_idle hr hf, hmoves, h.running t] at hfetch
    exact hfetch ▸ ⟨rfl, hf.buf, hf.discard⟩

/-- The response to discard comes, and the fetch unit is idle after it. -/
theorem fetched_discarding :
    LeadsTo (fun t => (coreAfter c s₀ x t).fetch.Discarding)
      fun t => (coreAfter c s₀ x t).pipe.ifId.valid = true := by
  refine LeadsTo.trans (LeadsTo.await (r := fun t => (x t).imemReady = true) ?_ ?_ ?_)
    h.fetched_idle
  · intro t hf
    exact h.imem t ((fetchInv_of_reachable (h.reachableAt t)).account.owed (.inr hf.discard))
  · intro t hf hi
    obtain ⟨-, hEx⟩ := (h.stagedAt t).quiet hf
    have hr := exRedirect_of_idEx_invalid (c := c) (r := (x t).dmemReady) hEx
    have hfetch := h.fetch_succ t
    rw [fetchNext_discarding hr hf, Bool.eq_false_iff.mpr hi] at hfetch
    exact hfetch ▸ ⟨hf.pending, hf.buf, rfl⟩
  · intro t hf hi
    obtain ⟨hId, hEx⟩ := (h.stagedAt t).quiet hf
    have hr := exRedirect_of_idEx_invalid (c := c) (r := (x t).dmemReady) hEx
    have hempty : (coreAfter c s₀ x t).Empty := ⟨hId, hEx⟩
    refine ⟨h.stays_empty hempty (ifAccept_discarding hf), ?_⟩
    have hfetch := h.fetch_succ t
    rw [fetchNext_discarding hr hf, hi] at hfetch
    exact hfetch ▸ ⟨hf.pending, hf.buf, rfl⟩

/-- Wherever the run stands, an instruction leaves EX then or later. -/
theorem departs_again : LeadsTo (fun _ => True) (departs c s₀ x) := by
  intro t _
  have hId := h.enters_ex.trans h.leaves_ex
  cases hEx : (coreAfter c s₀ x t).pipe.idEx.valid with
  | true => exact h.leaves_ex t hEx
  | false =>
    cases hIf : (coreAfter c s₀ x t).pipe.ifId.valid with
    | true => exact hId t hIf
    | false =>
      have hempty : (coreAfter c s₀ x t).Empty := ⟨hIf, hEx⟩
      cases (h.stagedAt t).fetch with
      | idle hf => exact (h.fetched_idle.trans hId) t ⟨hempty, hf⟩
      | waiting hf => exact (h.fetched_waiting.trans hId) t ⟨hempty, hf⟩
      | buffered hf => exact (h.fetched_buffered.trans hId) t ⟨hempty, hf⟩
      | discarding hf => exact (h.fetched_discarding.trans hId) t hf

end Answering

end RiscvV2
