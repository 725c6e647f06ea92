import RiscvV2.Interrupt
import RiscvV2.Refinement

/-!
# The sequential machine with interrupts

Before an instruction is committed the external interrupt lines may take the machine to the
handler instead. An instruction sees the pending bits twice: in ID, where a CSR instruction
reads `mip` and `meipend`, and in EX, where the interrupt takes its place. The machine gets
both as an input of each step and keeps no pending bits of its own.

Of an interrupted instruction everything is dropped but a CSR write, which EX commits together
with the trap.

This is the reference for what an external interrupt may do, and it says nothing about time. An
interrupt comes between two instructions, and the pc that the trap saves is that of the
instruction it displaces. The two views of the pending bits are what is left of the timing: a
line may change between ID and EX, and then a CSR instruction has read another value than the
one the interrupt is decided by.
-/

namespace RiscvV2

/-- The pending bits as an instruction sees them. -/
structure Pending where
  inId : Word := 0#32
  inEx : Word := 0#32

/-- The CSRs with these bits pending. -/
def Csr.pending (s : Csr) (bits : Word) : Csr := { s with meipend := bits }

/-- The CSR write an instruction asks for. -/
def instrCsrWrite (d : Ctrl) (a : Word) (csr : Csr) : Option (BitVec 12 × Word) :=
  if d.csrRead then (csrNewValue d.funct3 d.rs1 (csr.read d.csrAddr) a).map (Prod.mk d.csrAddr)
  else none

/-- The CSRs after an interrupt at `pc`: the CSR write `w` of the interrupted instruction, then
the trap capture, which saves `MIE` as it was before both. -/
def Csr.interrupt (n : ℕ) (s : Csr) (pc : Word) (w : Option (BitVec 12 × Word)) : Csr :=
  (w.elim s fun w => s.write n w.1 w.2).trap s.mstatusMie pc causeMachineExternalInterrupt 0#32

/-- The machine after an interrupt. -/
def Seq.interrupt (n : ℕ) (s : Seq) (w : Option (BitVec 12 × Word)) : Seq :=
  { s with
    pc := trapVector s.csr.mtvec
    csr := s.csr.interrupt n s.pc w
    csrUpdates := s.csrUpdates ++ ((w.map fun w => .write w.1 w.2).toList ++
      [.trap s.pc causeMachineExternalInterrupt 0#32]) }

/-- An interrupt comes before the next instruction: one is enabled and pending in EX, and the
instruction raises no exception of its own. -/
def Seq.interrupted (c : Config) (imem : Word → Word) (v : Pending) (s : Seq) : Bool :=
  let d := riscvDecode (imem s.pc)
  (s.csr.pending v.inEx).externalIrqActive &&
    (instrTrap c d.ctrl s.pc
      (instrResult d.ctrl s.pc d.imm (s.regs d.ctrl.rs1) (s.regs d.ctrl.rs2))).isNone

/-- One step: an interrupt, or else the whole next instruction. -/
def irqStep (c : Config) (imem : Word → Word) (v : Pending) (s : Seq) : Seq :=
  let d := riscvDecode (imem s.pc)
  let a := s.regs d.ctrl.rs1
  let b := s.regs d.ctrl.rs2
  if s.interrupted c imem v then
    s.interrupt c.numExtInterrupts (instrCsrWrite d.ctrl a (s.csr.pending v.inId))
  else s.commit c.numExtInterrupts (instrEffect c d s.pc a b (s.csr.pending v.inId) s.mem)

/-- The machine after `k` steps, with the pending bits `v k` in step `k`. -/
def irqRun (c : Config) (imem : Word → Word) (mem : DataMem) (v : ℕ → Pending) : ℕ → Seq
  | 0 => seqReset c mem
  | k + 1 => irqStep c imem (v k) (irqRun c imem mem v k)

variable {c : Config} {imem : Word → Word}

/-- Neither an interrupt nor a commit touches the pending bits. -/
theorem irqStep_meipend (v : Pending) (s : Seq) :
    (irqStep c imem v s).csr.meipend = s.csr.meipend := by
  simp only [irqStep]
  split
  case isTrue =>
    rw [Seq.interrupt, Csr.interrupt]
    cases instrCsrWrite _ _ _ with
    | none => rfl
    | some w => exact Csr.write_meipend s.csr w.1 w.2
  case isFalse =>
    rw [Seq.commit]
    generalize (instrEffect _ _ _ _ _ _ _).csrUpdate = update
    cases update with
    | none => rfl
    | some u => exact u.apply_meipend s.csr

theorem irqRun_meipend (mem : DataMem) (v : ℕ → Pending) (k : ℕ) :
    (irqRun c imem mem v k).csr.meipend = 0#32 := by
  induction k with
  | zero => rfl
  | succ k ih => exact (irqStep_meipend (v k) _).trans ih

/-- Without pending bits a step is that of the machine without interrupts. -/
theorem irqStep_quiet {s : Seq} (h : s.csr.meipend = 0#32) :
    irqStep c imem {} s = seqStep c imem s := by
  have hcsr : s.csr.pending 0#32 = s.csr := by rw [Csr.pending, ← h]
  have hnone : s.interrupted c imem {} = false := by
    simp [Seq.interrupted, Csr.pending, Csr.externalIrqActive]
  rw [irqStep, hnone, if_neg Bool.false_ne_true, seqStep, Seq.effect, hcsr]

/-- **The machine without interrupts is the one that never sees a pending bit.** -/
theorem irqRun_quiet (mem : DataMem) (k : ℕ) :
    irqRun c imem mem (fun _ => {}) k = seqRun c imem mem k := by
  induction k with
  | zero => rfl
  | succ k ih =>
    rw [irqRun, irqStep_quiet (irqRun_meipend mem _ k), ih, seqRun, seqRun,
      Function.iterate_succ_apply']

end RiscvV2
