import RiscvV2.Operands

/-!
# External interrupts

An external interrupt replaces the instruction in EX: the trap is captured and the
instruction is to be executed again after MRET. `InterruptPrecise` says that nothing of the
instruction has happened. Registers and memory are committed in later stages, which the
trapping instruction never enters. A CSR write is committed in EX itself, in the same cycle
as the trap capture and without regard to it; this is where precision can be lost.

So the question has an exact answer. In a reachable state that takes the interrupt, unless the
core is reset at that very edge, everything in `InterruptPrecise` but the kept CSRs and what is
read from them holds without further conditions, and the CSRs are kept exactly if the
instruction makes no write that could be seen in one of the four registers that a trap does not
overwrite. A write of the value the register has already is not seen, and a write to `mstatus`,
`mepc`, `mcause` or `mtval` is overwritten at the same edge.
-/

namespace RiscvV2

variable {n : ℕ} {c : Config} {p : Pipe}

/-! ## Taking an interrupt

What it means to take an interrupt, what a precise one leaves behind, and what a visible CSR
write is. The condition is stated with the operands of the instruction in EX and the register
file before the edge, so that it can be read without knowing the pipeline. -/

/-- The instruction in EX takes the external-interrupt branch. -/
structure TakesInterrupt (c : Config) (p : Pipe) (dmemReady : Bool) : Prop where
  fires : exFires p dmemReady = true
  noException : exSyncTrap c p = none
  active : p.csr.externalIrqActive = true

/-- The CSRs a trap does not touch keep their values. -/
structure Csr.Kept (s s' : Csr) : Prop where
  mtvec : s'.mtvec = s.mtvec
  mie : s'.mie = s.mie
  mscratch : s'.mscratch = s.mscratch
  meimask : s'.meimask = s.meimask

/-- The CSRs that change with an interrupt or with its inputs. -/
def trapCsr (addr : BitVec 12) : Prop :=
  addr = csrMstatus ∨ addr = csrMepc ∨ addr = csrMcause ∨ addr = csrMtval ∨ addr = csrMip ∨
    addr = csrMeipend

/-- No stage of the pipeline holds an instruction and no data access is driven. -/
structure Pipe.Drained (p : Pipe) : Prop where
  ifId : p.ifId.valid = false
  idEx : p.idEx.valid = false
  exMem : p.exMem.valid = false
  memWb : p.memWb.valid = false
  read : dmemReadEn p = false
  write : dmemWriteEn p = false

/-- **A precise interrupt**: of the instruction in EX in `s` nothing has happened in `s'`. -/
structure InterruptPrecise (s s' : Pipe) (globalInterrupts : BitVec n) : Prop where
  mepc : s'.csr.mepc = s.idEx.pc
  mcause : s'.csr.mcause = causeMachineExternalInterrupt
  mtval : s'.csr.mtval = 0#32
  mpie : s'.csr.mstatusMpie = s.csr.mstatusMie
  mstatusMie : s'.csr.mstatusMie = false
  mpp : s'.csr.mstatusMpp = 0b11#2
  meipend : s'.csr.meipend = globalInterrupts.setWidth 32
  /-- every other CSR is unchanged -/
  kept : s.csr.Kept s'.csr
  /-- the registers change by the writeback of an older instruction only -/
  regs : s'.regs = settledRegs s
  /-- no data access of the instruction is driven, now or later -/
  noRead : dmemReadEn s = false
  noWrite : dmemWriteEn s = false
  drained : s'.Drained
  /-- a second execution has the operands the first had -/
  operands : s.idEx.ctrl.isMulDiv = false →
    (s.idEx.ctrl.useRs1 = true → exForwardAData s = s'.regs s.idEx.ctrl.rs1) ∧
    (s.idEx.ctrl.useRs2 = true → exForwardBData s = s'.regs s.idEx.ctrl.rs2)
  /-- a second multicycle operation has the result the first had -/
  mulDiv : s.idEx.ctrl.isMulDiv = true →
    exAluResult s =
      rv32mResult s.idEx.ctrl.aluOp (s'.regs s.idEx.ctrl.rs1) (s'.regs s.idEx.ctrl.rs2)
  /-- a second CSR instruction reads the value the first read -/
  oldCsr : s.idEx.ctrl.csrRead = true → ¬ trapCsr s.idEx.ctrl.csrAddr →
    s.idEx.csrOld = s'.csr.read s.idEx.ctrl.csrAddr

/-- Writing `v` to `addr` changes a CSR that a trap does not touch. -/
def Csr.WriteVisible (n : ℕ) (s : Csr) (addr : BitVec 12) (v : Word) : Prop :=
  addr = csrMie ∧ v &&& (1#32 <<< mieMeieBit) ≠ s.mie ∨
  addr = csrMtvec ∧ v ≠ s.mtvec ∨
  addr = csrMscratch ∧ v ≠ s.mscratch ∨
  addr = csrMeimask ∧ v &&& extIrqMask n ≠ s.meimask

/-- The instruction `d` makes a visible CSR write: `old` is the value it read in ID and `a`
its register operand. -/
def Csr.ChangedBy (n : ℕ) (s : Csr) (d : Ctrl) (old a : Word) : Prop :=
  d.csrRead = true ∧ ∃ v, csrNewValue d.funct3 d.rs1 old a = some v ∧
    s.WriteVisible n d.csrAddr v

/-! ## What the edge does to the CSRs -/

theorem Csr.kept_write_iff (s : Csr) (addr : BitVec 12) (v : Word) :
    s.Kept (s.write n addr v) ↔ ¬ s.WriteVisible n addr v := by
  refine ⟨?_, ?_⟩
  · rintro hk (⟨rfl, hne⟩ | ⟨rfl, hne⟩ | ⟨rfl, hne⟩ | ⟨rfl, hne⟩)
    · exact hne hk.mie
    · exact hne hk.mtvec
    · exact hne hk.mscratch
    · exact hne hk.meimask
  · intro hnot
    constructor
    case mie =>
      rw [Csr.write_mie]
      split_ifs with ha
      · by_contra hne
        exact hnot (.inl ⟨ha, hne⟩)
      · rfl
    case mtvec =>
      rw [Csr.write_mtvec]
      split_ifs with ha
      · by_contra hne
        exact hnot (.inr (.inl ⟨ha, hne⟩))
      · rfl
    case mscratch =>
      rw [Csr.write_mscratch]
      split_ifs with ha
      · by_contra hne
        exact hnot (.inr (.inr (.inl ⟨ha, hne⟩)))
      · rfl
    case meimask =>
      rw [Csr.write_meimask]
      split_ifs with ha
      · by_contra hne
        exact hnot (.inr (.inr (.inr ⟨ha, hne⟩)))
      · rfl

/-- Reading any other CSR than those of the trap gives the same value before and after. -/
theorem Csr.Kept.read_eq {s s' : Csr} (hk : s.Kept s') {addr : BitVec 12}
    (ha : ¬ trapCsr addr) : s'.read addr = s.read addr := by
  simp only [trapCsr, not_or] at ha
  obtain ⟨h1, h2, h3, h4, h5, h6⟩ := ha
  simp only [Csr.read, h1, h2, h3, h4, h5, h6, if_false, hk.mtvec, hk.mie, hk.mscratch,
    hk.meimask]

theorem exTrap_of_interrupt {r : Bool} (h : TakesInterrupt c p r) :
    exTrap c p r = some (causeMachineExternalInterrupt, 0#32) := by
  simp [exTrap, h.fires, h.noException, h.active]

theorem exCsrWrite_of_fires {r : Bool} (h : exFires p r = true) :
    exCsrWrite p r =
      if p.idEx.ctrl.csrRead then
        csrNewValue p.idEx.ctrl.funct3 p.idEx.ctrl.rs1 p.idEx.csrOld (exForwardAData p)
      else none := by
  rw [exCsrWrite, h, Bool.true_and]

/-- The CSRs after the edge of an interrupt: the write of the instruction in EX, if it makes
one, then the trap capture. -/
theorem csr_of_interrupt {i : PipeIn n} (h : TakesInterrupt c p i.dmemReady) :
    (pipeNext c p i).csr =
      (match exCsrWrite p i.dmemReady with
        | some v => (p.csr.sample i.globalInterrupts).write n p.idEx.ctrl.csrAddr v
        | none => p.csr.sample i.globalInterrupts).trap p.csr.mstatusMie p.idEx.pc
          causeMachineExternalInterrupt 0#32 := by
  have hEx := (exFires_eq_true.mp h.fires).2.2
  have htrap := exTrap_of_interrupt h
  cases hw : exCsrWrite p i.dmemReady with
  | none => simp [pipeNext, csrNext, csrIn, htrap, hw, hEx]
  | some v => simp [pipeNext, csrNext, csrIn, htrap, hw, hEx]

/-- **The CSRs are kept exactly if the instruction makes no visible write.** -/
theorem kept_iff {i : PipeIn n} (h : TakesInterrupt c p i.dmemReady) :
    p.csr.Kept (pipeNext c p i).csr ↔
      ¬ p.csr.ChangedBy n p.idEx.ctrl p.idEx.csrOld (exForwardAData p) := by
  rw [csr_of_interrupt h, exCsrWrite_of_fires h.fires]
  cases hread : p.idEx.ctrl.csrRead with
  | false =>
    refine ⟨fun _ hc => ?_, fun _ => ⟨rfl, rfl, rfl, rfl⟩⟩
    rw [Csr.ChangedBy, hread] at hc
    cases hc.1
  | true =>
    rw [if_pos rfl]
    cases hv : csrNewValue p.idEx.ctrl.funct3 p.idEx.ctrl.rs1 p.idEx.csrOld
        (exForwardAData p) with
    | none =>
      refine ⟨fun _ hc => ?_, fun _ => ⟨rfl, rfl, rfl, rfl⟩⟩
      obtain ⟨-, w, hw, -⟩ := hc
      rw [hv] at hw
      cases hw
    | some v =>
      have hiff := Csr.kept_write_iff (n := n) (p.csr.sample i.globalInterrupts)
        p.idEx.ctrl.csrAddr v
      refine ⟨?_, ?_⟩
      · rintro hk ⟨-, w, hw, hvis⟩
        obtain rfl : v = w := Option.some.inj (hv.symm.trans hw)
        exact hiff.mp ⟨hk.mtvec, hk.mie, hk.mscratch, hk.meimask⟩ hvis
      · intro hnot
        have hk := hiff.mpr fun hvis => hnot ⟨hread, v, hv, hvis⟩
        exact ⟨hk.mtvec, hk.mie, hk.mscratch, hk.meimask⟩

/-! ## What the edge does to the rest -/

theorem exRedirect_of_interrupt {r : Bool} (h : TakesInterrupt c p r) :
    exRedirect c p r = some (trapVector p.csr.mtvec) := by
  simp [exRedirect, h.fires, exTrap_of_interrupt h]

/-- After the edge of an interrupt the pipeline is empty. -/
theorem drained_of_interrupt {i : PipeIn n} (hst : Staged p)
    (h : TakesInterrupt c p i.dmemReady) : (pipeNext c p i).Drained := by
  obtain ⟨hs, hm, hEx⟩ := exFires_eq_true.mp h.fires
  have hMem : (exMemNext c p i.dmemReady).valid = false := by
    simp [exMemNext, hs, exTrap_of_interrupt h]
  rw [pipeNext_leave hst hEx hm, exRedirect_of_interrupt h]
  exact ⟨rfl, rfl, hMem, rfl, by simp [dmemReadEn, hMem], by simp [dmemWriteEn, hMem]⟩

/-- **External interrupts are precise exactly when the instruction in EX makes no visible
CSR write**: in every reachable state that takes the external-interrupt branch, unless the
core is reset at that very edge. -/
theorem interrupt_precise_iff (c : Config) {s : Core} (hs : (coreSystem c).Reachable s)
    {i : CoreIn c.numExtInterrupts} (h : TakesInterrupt c s.pipe i.dmemReady) :
    InterruptPrecise s.pipe (coreNext c s i).pipe i.globalInterrupts ↔
      i.reset = false ∧
        ¬ s.pipe.csr.ChangedBy c.numExtInterrupts s.pipe.idEx.ctrl s.pipe.idEx.csrOld
          (exForwardAData s.pipe) := by
  have hst := (coreStaged_of_reachable hs).pipe
  have ho := operands_of_reachable hs
  obtain ⟨hsm, hm, hEx⟩ := exFires_eq_true.mp h.fires
  have hMem := hst.idEx_exMem hEx
  have h' : TakesInterrupt c s.pipe (pipeIn c s i).dmemReady := h
  have hcsr := csr_of_interrupt h'
  rw [← kept_iff h']
  refine ⟨?_, ?_⟩
  · intro hp
    cases hreset : i.reset with
    | true =>
      -- a reset at the edge wipes the captured cause
      have hcause := hp.mcause
      rw [coreNext_of_reset hreset] at hcause
      cases hcause
    | false =>
      rw [coreNext_pipe hreset] at hp
      exact ⟨rfl, hp.kept⟩
  -- only `kept` and, through it, `oldCsr` depend on what the instruction is
  rintro ⟨hreset, hk⟩
  rw [coreNext_pipe hreset]
  have hregs : (pipeNext c s.pipe (pipeIn c s i)).regs = settledRegs s.pipe := rfl
  constructor
  case mepc | mcause | mtval | mpie | mstatusMie | mpp =>
    rw [hcsr]
    rfl
  case meipend =>
    rw [hcsr]
    cases exCsrWrite s.pipe (pipeIn c s i).dmemReady with
    | none => rfl
    | some v => exact Csr.write_meipend _ _ _
  case kept => exact hk
  case regs => exact hregs
  case noRead => simp [dmemReadEn, hMem]
  case noWrite => simp [dmemWriteEn, hMem]
  case drained => exact drained_of_interrupt hst h'
  case operands =>
    intro hop
    have hidle := hst.units_idle_of_op hop
    rw [hregs]
    exact ⟨ho.forwardA hEx hidle, ho.forwardB hEx hidle⟩
  case mulDiv =>
    intro hop
    rw [hregs]
    exact ho.mulDiv_result hEx hm hop
  case oldCsr =>
    intro _ ha
    have hip : s.pipe.idEx.ctrl.csrAddr ≠ csrMip := fun he => ha (by simp [trapCsr, he])
    have hpend : s.pipe.idEx.ctrl.csrAddr ≠ csrMeipend := fun he => ha (by simp [trapCsr, he])
    rw [hst.csrFresh hEx hip hpend, hk.read_eq ha]

/-- `csrrwi x0, meimask, 1; csrrwi x0, mstatus, 8; csrrwi x0, mscratch, 5`, the last with an
interrupt request one cycle before it is in EX. -/
def interruptedCsrInputs : List (CoreIn 32) :=
  [{}, { imemReady := true, imemInstr := 0x7c00d073#32 }, {},
    { imemReady := true, imemInstr := 0x30045073#32 }, {},
    { imemReady := true, imemInstr := 0x3402d073#32 }, { globalInterrupts := 1#32 }]

/-- The interrupted `CSRRWI` has already written `mscratch`. -/
theorem interrupt_not_precise :
    ∃ s, (coreSystem {}).Reachable s ∧ ∃ i : CoreIn 32, i.reset = false ∧
      TakesInterrupt {} s.pipe i.dmemReady ∧
      ¬ InterruptPrecise s.pipe (coreNext {} s i).pipe i.globalInterrupts := by
  refine ⟨(coreSystem {}).after (coreReset {}) interruptedCsrInputs,
    Clocked.Reachable.after (.init rfl) (fun _ _ => trivial) _, {}, rfl,
    ⟨by decide, by decide, by decide⟩, fun hp => ?_⟩
  have hkept := hp.kept.mscratch
  revert hkept
  decide

/-- `addi x1, x0, 7` in place of the last instruction. -/
def interruptedAddiInputs : List (CoreIn 32) :=
  [{}, { imemReady := true, imemInstr := 0x7c00d073#32 }, {},
    { imemReady := true, imemInstr := 0x30045073#32 }, {},
    { imemReady := true, imemInstr := 0x00700093#32 }, { globalInterrupts := 1#32 }]

theorem interrupt_precise_addi :
    InterruptPrecise ((coreSystem {}).after (coreReset {}) interruptedAddiInputs).pipe
      (coreNext {} ((coreSystem {}).after (coreReset {}) interruptedAddiInputs)
        ({} : CoreIn 32)).pipe 0#32 := by
  refine (interrupt_precise_iff {} (Clocked.Reachable.after (.init rfl) (fun _ _ => trivial)
    interruptedAddiInputs) (i := {}) ⟨by decide, by decide, by decide⟩).mpr ⟨rfl, ?_⟩
  rintro ⟨hread, -⟩
  revert hread
  decide

end RiscvV2
