import RiscvV2.Completeness
import RiscvV2.CsrInvariant
import RiscvV2.InterruptMachine

/-!
# The pipeline with interrupts

The refinement of `Refinement.lean` again, now with the interrupt lines free. Next to the
pending bits and the CSR value that the instruction in EX has read, nothing in the pipeline
depends on the interrupt lines until an interrupt is taken. So the relation is the old one
on a pipeline in which these two are wiped out (`Pipe.quiet`), together with what the
instruction in EX did read. A cycle that takes no interrupt is a cycle of the quiet pipeline.

So nothing of the first refinement is proved twice. For a cycle without an interrupt its step
lemma is applied to the quiet pipeline; the cycle of an interrupt is new, and there the
instruction in EX is dropped, its CSR write is kept, and fetching starts at the handler. The
books of a run get one more entry, the pending bits that the instruction in EX has seen in ID.
-/

namespace RiscvV2

variable {n : ℕ} {c : Config} {p : Pipe} {r : Bool}

/-! ## The pipeline with other CSRs

Which wires look at the CSRs at all: the trap and the redirect, and the value read in ID.
Everything else is the same in a pipeline with other CSRs. -/

/-- The pipeline with other CSRs and another value read by the instruction in EX. -/
def Pipe.withCsr (p : Pipe) (csr : Csr) (old : Word) : Pipe :=
  { p with csr := csr, idEx := { p.idEx with csrOld := old } }

/-- Nothing is pending, and the instruction in EX has read its CSR just now. -/
def Pipe.quiet (p : Pipe) : Pipe :=
  p.withCsr (p.csr.pending 0#32) ((p.csr.pending 0#32).read p.idEx.ctrl.csrAddr)

/-- The core with a quiet pipeline; the fetch unit is as it was. -/
def Core.quiet (s : Core) : Core := ⟨s.fetch, s.pipe.quiet⟩

/-- The same cycle with the interrupt lines low. -/
def CoreIn.quiet (i : CoreIn n) : CoreIn n := { i with globalInterrupts := 0#n }

/-- The CSR value read is the only one that the invariant of the back end looks at. -/
theorem Staged.withCsr (h : Staged p) {csr : Csr} {old : Word}
    (hfresh : old = csr.read p.idEx.ctrl.csrAddr) : Staged (p.withCsr csr old) :=
  { h with csrFresh := fun _ _ _ => hfresh }

theorem Staged.quiet (h : Staged p) : Staged p.quiet := h.withCsr rfl

theorem Operands.quiet (h : Operands p) : Operands p.quiet :=
  ⟨h.zero, fun hEx hu => h.forwardA hEx ⟨hu.mulBusy, hu.mulDone, hu.divBusy, hu.divDone⟩,
    fun hEx hu => h.forwardB hEx ⟨hu.mulBusy, hu.mulDone, hu.divBusy, hu.divDone⟩,
    ⟨h.units.mulRunning, h.units.mulDone, h.units.divRunning, h.units.divDone⟩⟩

theorem CoreStaged.quieted {s : Core} (h : CoreStaged s) : CoreStaged s.quiet :=
  ⟨h.pipe.quiet, h.fetch, h.front, h.quiet⟩

theorem FetchInv.quieted {s : Core} {f : FetchLog} (h : FetchInv c s f) : FetchInv c s.quiet f :=
  ⟨h.account, h.chain, h.due, h.once, h.delivered_lt, h.redirected_lt⟩

/-! ### What the wires see of it -/

section wires

variable {csr : Csr} {old : Word}

theorem exTrap_withCsr (hactive : csr.externalIrqActive = p.csr.externalIrqActive) :
    exTrap c (p.withCsr csr old) r = exTrap c p r := by
  rw [exTrap, exTrap, ← hactive]
  rfl

theorem exRedirect_withCsr (hactive : csr.externalIrqActive = p.csr.externalIrqActive)
    (hmtvec : csr.mtvec = p.csr.mtvec) (hmepc : csr.mepc = p.csr.mepc) :
    exRedirect c (p.withCsr csr old) r = exRedirect c p r := by
  rw [exRedirect, exRedirect, exTrap_withCsr hactive, ← hmtvec, ← hmepc]
  rfl

/-- ID/EX but for the CSR value read. -/
def IdEx.apart (x : IdEx) : IdEx := { x with csrOld := 0#32 }

theorem idExNext_withCsr (hredirect : exRedirect c (p.withCsr csr old) r = exRedirect c p r) :
    (idExNext c (p.withCsr csr old) r).apart = (idExNext c p r).apart := by
  have hcapture : (idExCapture (p.withCsr csr old)).apart = (idExCapture p).apart := by
    rw [idExCapture, idExCapture]
    cases hstall : stallIf p with
    | true =>
      have hstall' : stallIf (p.withCsr csr old) = true := hstall
      rw [hstall']
      rfl
    | false =>
      have hstall' : stallIf (p.withCsr csr old) = false := hstall
      rw [hstall']
      rfl
  have hflush : idExFlushCtrl c (p.withCsr csr old) r = idExFlushCtrl c p r := by
    rw [idExFlushCtrl, idExFlushCtrl, hredirect]
    rfl
  have hmem : memStall (p.withCsr csr old) r = memStall p r := rfl
  have hstall : stallIf (p.withCsr csr old) = stallIf p := rfl
  rw [idExNext, idExNext, hflush, hmem, hstall]
  split_ifs
  · rfl
  · exact congrArg (fun x : IdEx =>
      { x with valid := false, forwardASel := 0#2, forwardBSel := 0#2 }) hcapture
  · exact hcapture
  · exact congrArg (fun x : IdEx =>
      { x with
        valid := p.ifId.valid
        forwardASel := idForwardASel p
        forwardBSel := idForwardBSel p
        ctrl := (idDecoded p).ctrl }) hcapture

end wires

/-! ## The front end

Fetching depends on the back end through the redirect and the stall only, so the front ends of
the two pipelines stay equal for as long as these are. -/

section front

variable {imem : Word → Word} {s s' : Core} {f : FetchLog} {i : CoreIn n} {pc : Word}

theorem fetchNext_congr {j : CoreIn n} (hfetch : s'.fetch = s.fetch)
    (hmem : memStall s'.pipe j.dmemReady = memStall s.pipe i.dmemReady)
    (hstall : stallIf s'.pipe = stallIf s.pipe)
    (hredirect : exRedirect c s'.pipe j.dmemReady = exRedirect c s.pipe i.dmemReady)
    (hi : j = { i with globalInterrupts := j.globalInterrupts }) :
    fetchNext c s' j = fetchNext c s i := by
  rw [hi] at hmem hredirect ⊢
  simp only [fetchNext, pcFNext, ifAccept, imemReq, ifBufFill, hfetch, hmem, hstall, hredirect]
  rfl

/-- The front end does not look at the CSRs. -/
theorem FrontAgrees.congr (h : FrontAgrees imem s pc) (hfetch : s'.fetch = s.fetch)
    (hifId : s'.pipe.ifId = s.pipe.ifId) (hidEx : s'.pipe.idEx.apart = s.pipe.idEx.apart)
    (hold : s'.pipe.idEx.csrOld = s'.pipe.csr.read s'.pipe.idEx.ctrl.csrAddr) :
    FrontAgrees imem s' pc := by
  have hvalid : s'.pipe.idEx.valid = s.pipe.idEx.valid := (congrArg IdEx.valid hidEx :)
  have hctrl : s'.pipe.idEx.ctrl = s.pipe.idEx.ctrl := (congrArg IdEx.ctrl hidEx :)
  refine ⟨?_, ?_, fun hv => ?_, ?_⟩
  · rw [hfetch]
    exact h.buf
  · rw [hfetch, hifId]
    exact h.ifId
  · rw [hvalid] at hv
    obtain ⟨hissued, hnext⟩ := h.idEx hv
    rw [hfetch]
    refine ⟨?_, hnext⟩
    constructor
    case ctrlEq => exact hctrl.trans hissued.ctrlEq
    case immEq => exact (congrArg IdEx.imm hidEx :).trans hissued.immEq
    case pcEq => exact (congrArg IdEx.pc hidEx :).trans hissued.pcEq
    case pc4Eq => exact (congrArg IdEx.pc4 hidEx :).trans hissued.pc4Eq
    case targetEq => exact (congrArg IdEx.redirectTarget hidEx :).trans hissued.targetEq
    case csrOldEq => rw [hold, hctrl, hissued.ctrlEq]
  · rw [hfetch, hifId, hvalid]
    exact h.empty

/-- With the same redirect the front end does the same, whatever the CSRs hold. -/
theorem coreNext_withCsr {j : CoreIn n} {csr : Csr} {old : Word}
    (hi : j = { i with globalInterrupts := j.globalInterrupts }) (hreset : i.reset = false)
    (hredirect : exRedirect c (s.pipe.withCsr csr old) i.dmemReady =
      exRedirect c s.pipe i.dmemReady) :
    let t := coreNext c ⟨s.fetch, s.pipe.withCsr csr old⟩ j
    t.fetch = (coreNext c s i).fetch ∧ t.pipe.ifId = (coreNext c s i).pipe.ifId ∧
      t.pipe.idEx.apart = (coreNext c s i).pipe.idEx.apart := by
  have hreset' : j.reset = false := by
    rw [hi]
    exact hreset
  have hready : j.dmemReady = i.dmemReady := by rw [hi]
  have hfetch : fetchNext c ⟨s.fetch, s.pipe.withCsr csr old⟩ j = fetchNext c s i := by
    refine fetchNext_congr rfl ?_ rfl ?_ hi
    · rw [hready]
      rfl
    · rw [hready]
      exact hredirect
  have haccept : ifAccept c ⟨s.fetch, s.pipe.withCsr csr old⟩ j = ifAccept c s i := by
    rw [hi, ifAccept, ifAccept, hredirect]
    rfl
  dsimp only
  rw [coreNext_fetch hreset, coreNext_fetch hreset', coreNext_pipe hreset, coreNext_pipe hreset']
  refine ⟨hfetch, ?_, ?_⟩
  · change ifIdNext c (s.pipe.withCsr csr old) _ = ifIdNext c s.pipe _
    rw [hi] at haccept ⊢
    simp only [ifIdNext, pipeIn, haccept, hredirect]
    rfl
  · rw [hi]
    exact idExNext_withCsr hredirect

/-- A cycle in which no instruction leaves EX. -/
theorem FrontAgrees.stay_quiet (h : FrontAgrees imem s.quiet pc) (hst : CoreStaged s)
    (hI : FetchInv c s f) (hok : fetchAllowed f s i) (hreset : i.reset = false)
    (himem : i.imemReady = true → i.imemInstr = imem i.imemRespPc)
    (hf : exFires s.pipe i.dmemReady = false) : FrontAgrees imem (coreNext c s i).quiet pc := by
  have hnext : FrontAgrees imem (coreNext c s.quiet i.quiet) pc :=
    FrontAgrees.stay h hst.quieted hI.quieted hok hreset himem hf rfl rfl
  have hredirect : exRedirect c s.pipe.quiet i.dmemReady = exRedirect c s.pipe i.dmemReady := by
    rw [exRedirect_of_not_fires hf]
    exact exRedirect_of_not_fires hf
  obtain ⟨hfetch, hifId, hidEx⟩ := coreNext_withCsr (j := i.quiet) rfl hreset hredirect
  exact hnext.congr hfetch.symm hifId.symm hidEx.symm rfl

/-- A cycle in which one does, to the next instruction or to a handler. -/
theorem FrontAgrees.leave_quiet (h : FrontAgrees imem s.quiet pc) (hst : CoreStaged s)
    (hI : FetchInv c s f) (hok : fetchAllowed f s i) (hreset : i.reset = false)
    (himem : i.imemReady = true → i.imemInstr = imem i.imemRespPc)
    (hEx : s.pipe.idEx.valid = true) (hm : mStall s.pipe = false) :
    FrontAgrees imem (coreNext c s i).quiet
      ((exRedirect c s.pipe i.dmemReady).getD (pc + 4#32)) := by
  -- the instruction reads its CSR again, with the bits that are pending now
  obtain ⟨old, hold⟩ : ∃ old, s.pipe.csr.read s.pipe.idEx.ctrl.csrAddr = old := ⟨_, rfl⟩
  have hreread : FrontAgrees imem ⟨s.fetch, s.pipe.withCsr s.pipe.csr old⟩ pc :=
    h.congr rfl rfl rfl hold.symm
  have hstaged : CoreStaged ⟨s.fetch, s.pipe.withCsr s.pipe.csr old⟩ :=
    ⟨hst.pipe.withCsr hold.symm, hst.fetch, hst.front, hst.quiet⟩
  have hbooks : FetchInv c ⟨s.fetch, s.pipe.withCsr s.pipe.csr old⟩ f :=
    ⟨hI.account, hI.chain, hI.due, hI.once, hI.delivered_lt, hI.redirected_lt⟩
  have hredirect : exRedirect c (s.pipe.withCsr s.pipe.csr old) i.dmemReady =
      exRedirect c s.pipe i.dmemReady := exRedirect_withCsr rfl rfl rfl
  have hnext := hreread.leave hstaged hbooks hok hreset himem hEx hm
  obtain ⟨hfetch, hifId, hidEx⟩ := coreNext_withCsr (j := i) rfl hreset hredirect
  rw [hredirect] at hnext
  exact hnext.congr hfetch.symm hifId.symm hidEx.symm rfl

end front

/-! ## The instruction in EX

An instruction that is not interrupted is executed as if no line had ever been up, with the CSR
value that it has read. -/

/-- CSRs that show an instruction the same value but hold no active interrupt. -/
theorem exists_inactive (s : Csr) (bits : Word) (addr : BitVec 12) :
    ∃ s' : Csr, s'.read addr = (s.pending bits).read addr ∧ s'.mtvec = s.mtvec ∧
      s'.mepc = s.mepc ∧ s'.externalIrqActive = false := by
  by_cases hpend : addr = csrMip ∨ addr = csrMeipend
  · -- the value is that of the pending bits; interrupts can be disabled
    refine ⟨{ s.pending bits with mstatusMie := false }, ?_, rfl, rfl, rfl⟩
    obtain rfl | rfl := hpend
    · rfl
    · rfl
  · -- the value does not depend on them
    obtain ⟨hip, hmeipend⟩ := not_or.mp hpend
    refine ⟨s.pending 0#32, ?_, rfl, rfl, ?_⟩
    · simp [Csr.read, Csr.pending, Csr.mstatusRd, hip, hmeipend]
    · simp [Csr.externalIrqActive, Csr.pending]

/-- The effect of an instruction depends on the CSR it reads and on where traps and returns
go. -/
theorem instrEffect_congr {d : Decoded} {s s' : Csr} (hread : s'.read d.ctrl.csrAddr =
    s.read d.ctrl.csrAddr) (hmtvec : s'.mtvec = s.mtvec) (hmepc : s'.mepc = s.mepc)
    (pc a b : Word) (mem : DataMem) :
    instrEffect c d pc a b s' mem = instrEffect c d pc a b s mem := by
  simp only [instrEffect, instrNextPc, instrValue, instrCsrUpdate, hread, hmtvec, hmepc]

/-- The instruction in EX has read its CSR with these bits pending. -/
def ReadWith (p : Pipe) (bits : Word) : Prop :=
  p.idEx.csrOld = (p.csr.pending bits).read p.idEx.ctrl.csrAddr

section departs

variable {instr pc a b bits : Word} {csr : Csr}

/-- An instruction executes with whatever CSRs show it the value it has read. -/
theorem Executes.withCsr (h : Executes p.quiet r instr pc a b)
    (hread : csr.read p.idEx.ctrl.csrAddr = p.idEx.csrOld)
    (hactive : csr.externalIrqActive = false) :
    Executes (p.withCsr csr p.idEx.csrOld) r instr pc a b where
  ctrlEq := h.ctrlEq
  immEq := h.immEq
  pcEq := h.pcEq
  pc4Eq := h.pc4Eq
  targetEq := h.targetEq
  csrOldEq := by
    rw [← h.ctrlEq]
    exact hread.symm
  fires := h.fires
  srcA := h.srcA
  srcB := h.srcB
  mulDiv := h.mulDiv
  noIrq := hactive

/-- Without an interrupt the trap is the same with inactive CSRs. -/
theorem exTrap_inactive (hno : ¬TakesInterrupt c p r) (hfires : exFires p r = true)
    (hactive : csr.externalIrqActive = false) {old : Word} :
    exTrap c (p.withCsr csr old) r = exTrap c p r := by
  have hfires' : exFires (p.withCsr csr old) r = true := hfires
  have hsync : exSyncTrap c (p.withCsr csr old) = exSyncTrap c p := rfl
  have hcsr : (p.withCsr csr old).csr = csr := rfl
  rw [exTrap, exTrap, hfires, hfires', hsync, hcsr, hactive, if_pos rfl, if_pos rfl]
  cases hs : exSyncTrap c p with
  | some t => rfl
  | none =>
    have hnone : p.csr.externalIrqActive = false := by
      by_contra hact
      exact hno ⟨hfires, hs, Bool.eq_true_of_not_eq_false hact⟩
    rw [hnone]

/-- What an instruction that is not interrupted hands on is its effect. -/
structure Departs (c : Config) (p : Pipe) (i : PipeIn n) (e : Effect) (pc4 : Word) (mem : DataMem) :
    Prop where
  nextPc : (exRedirect c p i.dmemReady).getD pc4 = e.nextPc
  regWrite : memWrite (exMemNext c p i.dmemReady) mem = e.regWrite
  access : leavingAccess c p i.dmemReady = e.access
  csrUpdates : csrUpdates (csrIn c p i) = e.csrUpdate.toList
  one : (csrIn c p i).we = true → (csrIn c p i).trapEn = false ∧ (csrIn c p i).mretEn = false

theorem departs_of_not_interrupt {i : PipeIn n} (h : Executes p.quiet i.dmemReady instr pc a b)
    (hold : ReadWith p bits) (hno : ¬TakesInterrupt c p i.dmemReady) (mem : DataMem) :
    Departs c p i (instrEffect c (riscvDecode instr) pc a b (p.csr.pending bits) mem) (pc + 4#32)
      mem := by
  have hctrl : p.idEx.ctrl = (riscvDecode instr).ctrl := h.ctrlEq
  obtain ⟨csr, hread, hmtvec, hmepc, hactive⟩ :=
    exists_inactive p.csr bits p.idEx.ctrl.csrAddr
  have hexec := h.withCsr (hread.trans hold.symm) hactive
  have htrap : exTrap c (p.withCsr csr p.idEx.csrOld) i.dmemReady = exTrap c p i.dmemReady :=
    exTrap_inactive hno h.fires hactive
  rw [hctrl] at hread
  rw [← instrEffect_congr hread hmtvec hmepc]
  constructor
  case nextPc =>
    refine Eq.trans ?_ hexec.exRedirect_eq
    rw [exRedirect, exRedirect, htrap, ← hmtvec, ← hmepc]
    rfl
  case regWrite =>
    refine Eq.trans ?_ (hexec.memWrite_eq mem)
    rw [exMemNext, exMemNext, htrap]
    rfl
  case access =>
    refine Eq.trans ?_ (hexec.leavingAccess_eq mem)
    rw [leavingAccess, leavingAccess, htrap]
    rfl
  case csrUpdates =>
    refine Eq.trans ?_ (hexec.csrUpdates_eq (i := i) rfl mem)
    rw [csrIn, csrIn, htrap]
    rfl
  case one =>
    have hone := hexec.csrIn_one (c := c) (i := i)
    rw [csrIn, htrap] at hone
    exact hone

/-- The CSR write of EX, trapping or not, is the one the instruction asks for. -/
theorem exCsrWrite_of_executes (h : Executes p.quiet r instr pc a b) (hold : ReadWith p bits) :
    (exCsrWrite p r).map (Prod.mk p.idEx.ctrl.csrAddr) =
      instrCsrWrite (riscvDecode instr).ctrl a (p.csr.pending bits) := by
  have hctrl : p.idEx.ctrl = (riscvDecode instr).ctrl := h.ctrlEq
  obtain ⟨csr, hread, -, -, hactive⟩ := exists_inactive p.csr bits p.idEx.ctrl.csrAddr
  have hwrite : exCsrWrite p r = _ :=
    (h.withCsr (hread.trans hold.symm) hactive).exCsrWrite_eq
  have hcsr : (p.withCsr csr p.idEx.csrOld).csr = csr := rfl
  rw [hwrite, hcsr, instrCsrWrite, ← hctrl, hread]
  split_ifs
  · rfl
  · rfl

/-- What the edge of an interrupt does to the CSRs, the pending bits aside. -/
theorem csr_interrupt {i : PipeIn n} (h : Executes p.quiet i.dmemReady instr pc a b)
    (hold : ReadWith p bits) (hint : TakesInterrupt c p i.dmemReady) :
    (pipeNext c p i).csr.pending 0#32 =
      (p.csr.pending 0#32).interrupt n pc
        (instrCsrWrite (riscvDecode instr).ctrl a (p.csr.pending bits)) := by
  have hpc : p.idEx.pc = pc := h.pcEq
  rw [csr_of_interrupt hint, ← exCsrWrite_of_executes h hold, hpc]
  cases exCsrWrite p i.dmemReady with
  | none => rfl
  | some v =>
    simp only [Csr.interrupt, Option.map_some, Option.elim_some, Csr.write_eq]
    rfl

theorem csrUpdates_interrupt {i : PipeIn n} (h : Executes p.quiet i.dmemReady instr pc a b)
    (hold : ReadWith p bits) (hint : TakesInterrupt c p i.dmemReady) :
    csrUpdates (csrIn c p i) =
      ((instrCsrWrite (riscvDecode instr).ctrl a (p.csr.pending bits)).map
        fun w => CsrUpdate.write w.1 w.2).toList ++
        [.trap pc causeMachineExternalInterrupt 0#32] := by
  have hpc : p.idEx.pc = pc := h.pcEq
  have hEx := (exFires_eq_true.mp hint.fires).2.2
  rw [← exCsrWrite_of_executes h hold]
  simp only [csrUpdates, csrIn, hEx, exTrap_of_interrupt hint, hpc]
  cases exCsrWrite p i.dmemReady with
  | none | some v => rfl

end departs

/-! ## The back end -/

/-- The pipeline registers that the logs depend on. -/
theorem BackAgrees.congr {q : Pipe} {g : RunLog} {a : Seq} (h : BackAgrees p g a)
    (hregs : q.regs = p.regs) (hmemWb : q.memWb = p.memWb) (hcsr : q.csr = p.csr)
    (hexMem : q.exMem = p.exMem ∨ q.exMem.valid = false ∧ p.exMem.valid = false) :
    BackAgrees q g a := by
  have hwb : wbWrite q = wbWrite p := by rw [wbWrite, wbWrite, regWe, regWe, wbData, wbData, hmemWb]
  obtain hexMem | ⟨hq, hp⟩ := hexMem
  · have hport : portAccess q = portAccess p := by
      simp only [portAccess, dmemReadEn, dmemWriteEn, dmemAddr, dmemWriteData, dmemWstrb, hexMem]
      rfl
    have hflight : inFlight q g.mem = inFlight p g.mem := by rw [inFlight, inFlight, hwb, hexMem]
    refine ⟨hcsr.trans h.csr, hcsr ▸ h.quiet, hexMem ▸ h.loads, ?_, hport ▸ h.mem,
      hflight ▸ h.regWrites, hport ▸ h.accesses, h.csrUpdates⟩
    rw [h.regs, hflight, hregs]
  · have hport : portAccess q = portAccess p := by
      rw [portAccess_of_exMem_invalid hq, portAccess_of_exMem_invalid hp]
    have hflight : inFlight q g.mem = inFlight p g.mem := by
      rw [inFlight, inFlight, hwb, memWrite_of_invalid hq, memWrite_of_invalid hp]
    refine ⟨hcsr.trans h.csr, hcsr ▸ h.quiet, fun hv => ?_, ?_, hport ▸ h.mem,
      hflight ▸ h.regWrites, hport ▸ h.accesses, h.csrUpdates⟩
    · rw [hq] at hv
      cases hv
    · rw [h.regs, hflight, hregs]

/-- A cycle without a CSR update only samples the interrupt lines. -/
theorem csrNext_of_no_update {s : Csr} {i : CsrIn n} (h : csrUpdates i = []) :
    csrNext s i = s.sample i.globalInterrupts := by
  obtain ⟨hwe, htrap⟩ := List.append_eq_nil_iff.mp h
  have hw : i.we = false := by
    by_contra hw
    rw [if_pos (Bool.eq_true_of_not_eq_false hw)] at hwe
    cases hwe
  split_ifs at htrap with ht hm
  exact csrNext_idle hw (Bool.eq_false_iff.mpr ht) (Bool.eq_false_iff.mpr hm)

/-! ## The environment and the books -/

/-- The books of a run with interrupts: next to what is visible from outside, the pending bits
that the instruction in EX saw in ID. -/
structure IrqLog extends RunLog where
  seen : Word := 0#32

/-- The surroundings, the interrupt lines left free: no further reset, instructions from
`imem`, and a data memory that returns the addressed word when it is ready. -/
def irqAllowed (imem : Word → Word) (g : IrqLog) (t : Clocked.Recorded Core FetchLog)
    (i : CoreIn n) : Prop :=
  i.reset = false ∧ (i.imemReady = true → i.imemInstr = imem i.imemRespPc) ∧
  (i.dmemReady = true → dmemReadEn t.sys.pipe = true →
    i.dmemReadData = g.mem (wordIndex (dmemAddr t.sys.pipe)))

/-- The books after a cycle: with EX empty, the next instruction reads its CSR in ID now. -/
def irqRecord (c : Config) (g : IrqLog) (t : Clocked.Recorded Core FetchLog) (i : CoreIn n) :
    IrqLog :=
  { runRecord c g.toRunLog t i with
    seen := if t.sys.pipe.idEx.valid then g.seen else t.sys.pipe.csr.meipend }

/-- The core with its memories and free interrupt lines. -/
def irqSystem (c : Config) (imem : Word → Word) (mem : DataMem) :
    Clocked (Clocked.Recorded (Clocked.Recorded Core FetchLog) IrqLog)
      (CoreIn c.numExtInterrupts) :=
  (fetchSystem c).record { mem := mem } (irqAllowed imem) (irqRecord c)

section back

variable {imem : Word → Word} {g : IrqLog} {a : Seq} {t : Clocked.Recorded Core FetchLog}
  {i : CoreIn c.numExtInterrupts}

/-- The back end agrees after a cycle in which no instruction leaves EX. -/
theorem BackAgrees.stay_quiet (h : BackAgrees t.sys.pipe.quiet g.toRunLog a)
    (hst : Staged t.sys.pipe) (ho : Operands t.sys.pipe) (hok : irqAllowed imem g t i)
    (hf : exFires t.sys.pipe i.dmemReady = false) :
    BackAgrees (pipeNext c t.sys.pipe (pipeIn c t.sys i)).quiet
      (runRecord c g.toRunLog t i) a := by
  obtain ⟨hreset, himem, hdata⟩ := hok
  have hnone := csrUpdates_of_not_fires (c := c) (i := pipeIn c t.sys i) hst hf
  have hnone' := csrUpdates_of_not_fires (c := c) (i := pipeIn c t.sys.quiet i.quiet) hst.quiet hf
  have hnext := BackAgrees.stay (c := c) (t := ⟨t.sys.quiet, t.log⟩) (i := i.quiet) h hst.quiet
    ho.quiet ⟨hreset, rfl, himem, hdata⟩ hf
  have hrecord : runRecord c g.toRunLog ⟨t.sys.quiet, t.log⟩ i.quiet =
      runRecord c g.toRunLog t i := by
    rw [runRecord, runRecord, hnone]
    exact congrArg (RunLog.mk _ _ _ <| g.csrUpdates ++ ·) hnone'
  rw [hrecord] at hnext
  refine hnext.congr rfl rfl ?_ ?_
  · change (csrNext t.sys.pipe.csr (csrIn c t.sys.pipe (pipeIn c t.sys i))).pending 0#32 =
      csrNext t.sys.pipe.quiet.csr (csrIn c t.sys.pipe.quiet (pipeIn c t.sys.quiet i.quiet))
    rw [csrNext_of_no_update hnone, csrNext_of_no_update hnone']
    simp [Csr.pending, Csr.sample, Pipe.quiet, Pipe.withCsr, csrIn, pipeIn, CoreIn.quiet]
  · change exMemNext c t.sys.pipe i.dmemReady = exMemNext c t.sys.pipe.quiet i.dmemReady ∨
      (exMemNext c t.sys.pipe i.dmemReady).valid = false ∧
        (exMemNext c t.sys.pipe.quiet i.dmemReady).valid = false
    have hstall : memStall t.sys.pipe.quiet i.dmemReady = memStall t.sys.pipe i.dmemReady := rfl
    rw [exMemNext, exMemNext, hstall]
    split_ifs with hs
    · exact .inl rfl
    · -- EX is empty or held by a multicycle unit
      have hEx : (t.sys.pipe.idEx.valid && !mStall t.sys.pipe) = false := by
        simpa [exFires, hs, Bool.and_comm] using hf
      have hEx' : (t.sys.pipe.quiet.idEx.valid && !mStall t.sys.pipe.quiet) = false := hEx
      refine .inr ⟨?_, ?_⟩
      · dsimp only
        rw [hEx]
        rfl
      · dsimp only
        rw [hEx']
        rfl

/-- The CSRs of the pipeline are those of the machine with its own pending bits. -/
theorem BackAgrees.pending_eq {p : Pipe} {g : RunLog} (h : BackAgrees p.quiet g a) (bits : Word) :
    a.csr.pending bits = p.csr.pending bits := by
  have hcsr : p.csr.pending 0#32 = a.csr := h.csr
  rw [← hcsr]
  rfl

/-- The machine is interrupted exactly when the instruction in EX is. -/
theorem interrupted_iff {p : Pipe} {g : RunLog} {r : Bool} {bits : Word}
    (h : BackAgrees p.quiet g a)
    (hexec : Executes p.quiet r (imem a.pc) a.pc (a.regs (riscvDecode (imem a.pc)).ctrl.rs1)
      (a.regs (riscvDecode (imem a.pc)).ctrl.rs2)) :
    a.interrupted c imem ⟨bits, p.csr.meipend⟩ = true ↔ TakesInterrupt c p r := by
  have hcsr : a.csr.pending p.csr.meipend = p.csr := h.pending_eq _
  have hsync : exSyncTrap c p = _ := hexec.exSyncTrap_eq
  have hfires : exFires p r = true := hexec.fires
  rw [Seq.interrupted, hcsr, ← hsync, Bool.and_eq_true, Option.isNone_iff_eq_none]
  exact ⟨fun hi => ⟨hfires, hi.2, hi.1⟩, fun hi => ⟨hi.active, hi.noException⟩⟩

/-- An update of the CSRs does not look at the pending bits. -/
theorem foldl_apply_pending (us : List CsrUpdate) (s : Csr) (bits : Word) :
    (us.foldl (CsrUpdate.apply n) s).pending bits =
      us.foldl (CsrUpdate.apply n) (s.pending bits) := by
  induction us generalizing s with
  | nil => rfl
  | cons u us ih =>
    rw [List.foldl_cons, List.foldl_cons, ih]
    congr 1
    cases u with
    | trap | mret => rfl
    | write addr data =>
      rw [CsrUpdate.apply, CsrUpdate.apply, Csr.write_eq, Csr.write_eq]
      rfl

section leave

variable (h : BackAgrees t.sys.pipe.quiet g.toRunLog a)
  (hexec : Executes t.sys.pipe.quiet i.dmemReady (imem a.pc) a.pc
    (a.regs (riscvDecode (imem a.pc)).ctrl.rs1) (a.regs (riscvDecode (imem a.pc)).ctrl.rs2))
  (hold : ReadWith t.sys.pipe g.seen)

include h hexec hold

/-- The machine goes on where the pipeline does. -/
theorem irqStep_pc :
    (irqStep c imem ⟨g.seen, t.sys.pipe.csr.meipend⟩ a).pc =
      (exRedirect c t.sys.pipe i.dmemReady).getD (a.pc + 4#32) := by
  have hiff : a.interrupted c imem ⟨g.seen, t.sys.pipe.csr.meipend⟩ = true ↔ _ :=
    interrupted_iff h hexec
  have hmtvec : a.csr.mtvec = t.sys.pipe.csr.mtvec := (congrArg Csr.mtvec h.csr).symm
  rw [irqStep]
  by_cases hint : TakesInterrupt c t.sys.pipe i.dmemReady
  · rw [if_pos (hiff.mpr hint), exRedirect_of_interrupt hint, Seq.interrupt, hmtvec]
    rfl
  · have hdep := departs_of_not_interrupt (i := pipeIn c t.sys i) hexec hold hint a.mem
    rw [if_neg (mt hiff.mp hint), h.pending_eq]
    exact hdep.nextPc.symm

/-- The back end agrees with the machine one step on after an instruction has left EX, or an
interrupt has taken its place. -/
theorem BackAgrees.leave_quiet (hst : Staged t.sys.pipe) (ho : Operands t.sys.pipe)
    (hok : irqAllowed imem g t i) (hEx : t.sys.pipe.idEx.valid = true)
    (hm : mStall t.sys.pipe = false) :
    BackAgrees (pipeNext c t.sys.pipe (pipeIn c t.sys i)).quiet (runRecord c g.toRunLog t i)
      (irqStep c imem ⟨g.seen, t.sys.pipe.csr.meipend⟩ a) := by
  obtain ⟨-, -, hdata⟩ := hok
  have hs : memStall t.sys.pipe i.dmemReady = false := hst.memStall_eq hEx _
  have hs' : memStall t.sys.pipe (pipeIn c t.sys i).dmemReady = false := hs
  have hMem := hst.idEx_exMem hEx
  have hiff : a.interrupted c imem ⟨g.seen, t.sys.pipe.csr.meipend⟩ = true ↔ _ :=
    interrupted_iff h hexec
  have hmem : (portAccess t.sys.pipe).toList.foldl DataMem.access g.mem = g.mem := by
    rw [portAccess_of_exMem_invalid hMem]
    rfl
  have hwb : wbWrite (pipeNext c t.sys.pipe (pipeIn c t.sys i)).quiet =
      memWrite t.sys.pipe.exMem g.mem := by
    have hMemNext : { memWbNext t.sys.pipe (pipeIn c t.sys i) with valid := false } =
        memWbNext t.sys.pipe (pipeIn c t.sys i) := by
      rw [memWbNext, if_neg (Bool.eq_false_iff.mp hs'), hMem]
    have hnext := wbWrite_next (m := g.mem) (q := pipeNext c t.sys.pipe (pipeIn c t.sys i)) hs'
      hdata h.loads (by rw [pipeNext_leave hst hEx hm, hMemNext])
    exact hnext
  have hport : portAccess (pipeNext c t.sys.pipe (pipeIn c t.sys i)).quiet =
      leavingAccess c t.sys.pipe i.dmemReady := portAccess_leave hs hm hEx (hst.coherent hEx) rfl
  have hloads : (exMemNext c t.sys.pipe i.dmemReady).regWrite = true →
      ((exMemNext c t.sys.pipe i.dmemReady).wbSel = .load ↔
        (exMemNext c t.sys.pipe i.dmemReady).memRead = true) := by
    rw [exMemNext, if_neg (Bool.eq_false_iff.mp hs)]
    exact (hst.coherent hEx).load
  have hsample : (t.sys.pipe.csr.sample i.globalInterrupts).pending 0#32 = a.csr := h.csr
  rw [runRecord_moving hs, irqStep]
  by_cases hint : TakesInterrupt c t.sys.pipe i.dmemReady
  · have htrap := exTrap_of_interrupt hint
    have hinvalid : (exMemNext c t.sys.pipe i.dmemReady).valid = false := by
      rw [exMemNext, if_neg (Bool.eq_false_iff.mp hs), htrap]
      simp
    have hnone : leavingAccess c t.sys.pipe i.dmemReady = none := by
      rw [leavingAccess, htrap]
      simp
    have hcsr := csr_interrupt (i := pipeIn c t.sys i) hexec hold hint
    have hupdates := csrUpdates_interrupt (i := pipeIn c t.sys i) hexec hold hint
    rw [if_pos (hiff.mpr hint), h.pending_eq]
    rw [hupdates]
    refine h.moves (settledRegs_eq ho.zero) hwb rfl rfl rfl (memWrite_of_invalid hinvalid _)
      (hport.trans hnone) rfl rfl (List.append_nil _).symm (List.append_nil _).symm
      ?_ rfl ?_ fun _ => hloads
    · refine hcsr.trans ?_
      rw [Seq.interrupt, ← h.csr]
      rfl
    · rw [Seq.interrupt, h.csrUpdates]
  · have hdep := departs_of_not_interrupt (i := pipeIn c t.sys i) hexec hold hint g.mem
    have hmemEq : a.mem = g.mem := h.mem_eq hMem
    rw [if_neg (mt hiff.mp hint), h.pending_eq, hmemEq]
    rw [hdep.csrUpdates]
    have hw := (congrArg (memWrite _) hmem).trans hdep.regWrite
    refine h.moves (settledRegs_eq ho.zero) hwb rfl rfl rfl hw (hport.trans hdep.access) rfl rfl
      rfl rfl ?_ rfl ?_ fun _ => hloads
    · have hnext : (pipeNext c t.sys.pipe (pipeIn c t.sys i)).csr =
          csrNext t.sys.pipe.csr (csrIn c t.sys.pipe (pipeIn c t.sys i)) := rfl
      have hlines : (csrIn c t.sys.pipe (pipeIn c t.sys i)).globalInterrupts =
          i.globalInterrupts := rfl
      change (pipeNext c t.sys.pipe (pipeIn c t.sys i)).csr.pending 0#32 = _
      rw [hnext, csrNext_eq hdep.one, hdep.csrUpdates, foldl_apply_pending, hlines, hsample]
      rfl
    · rw [Seq.commit, h.csrUpdates]

end leave

end back

/-! ## The simulation

The relation for a run: the quiet pipeline agrees with the machine, and the books know what the
instruction in EX has seen. -/

/-- The quiet pipeline agrees with the machine, and the instruction in EX has read its CSR
with the bits the books say. -/
structure IrqAgrees (imem : Word → Word) (s : Core) (g : IrqLog) (a : Seq) : Prop where
  quiet : Agrees imem s.quiet g.toRunLog a
  read : s.pipe.idEx.valid = true → ReadWith s.pipe g.seen

theorem irqAgrees_reset (c : Config) (imem : Word → Word) (mem : DataMem) :
    IrqAgrees imem (coreReset c) { mem := mem } (seqReset c mem) where
  quiet :=
    ⟨⟨(fun hv => by cases hv), (fun hv => by cases hv), (fun hv => by cases hv), fun _ _ => rfl⟩,
      ⟨rfl, rfl, (fun hv => by cases hv), rfl, rfl, rfl, rfl, rfl⟩⟩
  read hv := by cases hv

section cycle

variable {imem : Word → Word} {g : IrqLog} {t : Clocked.Recorded Core FetchLog}
  {i : CoreIn c.numExtInterrupts}

/-- An instruction reads its CSR when it enters EX. -/
theorem readWith_next (hst : CoreStaged t.sys) (hreset : i.reset = false)
    (h : t.sys.pipe.idEx.valid = true → ReadWith t.sys.pipe g.seen)
    (hv : (coreNext c t.sys i).pipe.idEx.valid = true) :
    ReadWith (coreNext c t.sys i).pipe (irqRecord c g t i).seen := by
  rw [coreNext_pipe hreset] at hv ⊢
  rcases idEx_of_next hst.pipe hv with ⟨hEx, hm⟩ | ⟨hEx, hs, -⟩
  · have hseen : (irqRecord c g t i).seen = g.seen := if_pos hEx
    rw [hseen, pipeNext_busy hst.pipe hEx hm]
    exact h hEx
  · have hseen : (irqRecord c g t i).seen = t.sys.pipe.csr.meipend := if_neg (by simp [hEx])
    rw [hseen, pipeNext_flow hst.pipe hEx hs]
    rfl

/-- **Step lemma**: the machine takes its step in the cycle in which an instruction leaves EX
or an interrupt takes its place, and only then. -/
theorem irqAgrees_cycle {a : Seq} (ht : (fetchSystem c).Reachable t)
    (hokF : fetchAllowed t.log t.sys i) (hok : irqAllowed imem g t i)
    (h : IrqAgrees imem t.sys g a) :
    IrqAgrees imem (coreNext c t.sys i) (irqRecord c g t i)
      (if exFires t.sys.pipe i.dmemReady = true then
        irqStep c imem ⟨g.seen, t.sys.pipe.csr.meipend⟩ a else a) := by
  have hst := coreStaged_of_reachable ht.sys
  have ho := operands_of_reachable ht.sys
  have hI := fetchInv_of_reachable ht
  obtain ⟨hreset, himem, -⟩ := id hok
  obtain ⟨⟨hfront, hback⟩, hread⟩ := h
  refine ⟨?_, readWith_next hst hreset hread⟩
  have hpipe : (coreNext c t.sys i).quiet.pipe =
      (pipeNext c t.sys.pipe (pipeIn c t.sys i)).quiet :=
    congrArg Pipe.quiet (coreNext_pipe hreset)
  cases hf : exFires t.sys.pipe i.dmemReady with
  | false =>
    rw [if_neg Bool.false_ne_true]
    refine ⟨hfront.stay_quiet hst hI hokF hreset himem hf, ?_⟩
    rw [hpipe]
    exact hback.stay_quiet hst.pipe ho hok hf
  | true =>
    obtain ⟨-, hm, hEx⟩ := exFires_eq_true.mp hf
    have hexec : Executes t.sys.pipe.quiet i.dmemReady (imem a.pc) a.pc _ _ :=
      executes_of_leave hst.pipe.quiet ho.quiet hback (hfront.idEx hEx).1 hEx hm i.dmemReady
    rw [if_pos rfl]
    refine ⟨?_, ?_⟩
    · rw [irqStep_pc hback hexec (hread hEx)]
      exact hfront.leave_quiet hst hI hokF hreset himem hEx hm
    · rw [hpipe]
      exact hback.leave_quiet hexec (hread hEx) hst.pipe ho hok hEx hm

end cycle

end RiscvV2
