import RiscvV2.MulDiv
import RiscvV2.DataPort

/-!
# The sequential machine

The meaning of a program: one instruction at a time, each decoded, executed and committed
before the next is fetched. An instruction is a pure function of its operands, `instrEffect`;
a step applies the effect to the state and appends it to the logs of what is visible from
outside. Nothing here knows about stages, stalls or forwarding.

It is the specification against which the pipeline is proved, and a deliberate middle layer. It
shares the decoder, the ALU and the CSR file with the core, so that the refinement is about
timing and order alone; what the instructions mean is compared with independent semantics
elsewhere (`Execute`, `Hart`). The logs are part of the state because the statement is about
everything that is visible from outside, in order, and not only about the last state.
-/

namespace RiscvV2

/-! ## Data memory -/

/-- The data memory, by word address. -/
abbrev DataMem := BitVec 30 → Word

/-- The word address of a byte address. -/
def wordIndex (addr : Word) : BitVec 30 := addr.extractLsb' 2 30

/-- The memory after an access: a store writes its strobed lanes, a load nothing. -/
def DataMem.access (mem : DataMem) (a : Access) : DataMem :=
  if a.write then fun w =>
    if w = wordIndex a.addr then strobedWord (mem w) a.writeData a.wstrb else mem w
  else mem

/-! ## Effects of one instruction

An effect has one field for each thing an instruction may do: a register write, a data access, a
CSR update and the next pc. A trap is among the CSR updates, and an instruction that traps has
no other effect. -/

/-- A write to a register other than `x0`. -/
structure RegWrite where
  rd : BitVec 5
  data : Word
  deriving DecidableEq, Repr

/-- The registers after the write. -/
def RegWrite.apply (regs : Regs) (w : RegWrite) : Regs := fun r =>
  if r = w.rd then w.data else regs r

/-- A change of the CSRs. -/
inductive CsrUpdate
  | write (addr : BitVec 12) (data : Word)
  | trap (epc cause tval : Word)
  | mret
  deriving DecidableEq, Repr

/-- `n` is `NUM_EXT_INTERRUPTS`. -/
def CsrUpdate.apply (n : ℕ) (s : Csr) : CsrUpdate → Csr
  | .write addr data => s.write n addr data
  | .trap epc cause tval => s.trap s.mstatusMie epc cause tval
  | .mret => s.mret s.mstatusMpie

/-- All that an instruction does. -/
structure Effect where
  nextPc : Word
  regWrite : Option RegWrite
  access : Option Access
  csrUpdate : Option CsrUpdate

/-- The register write asked for by a write enable: `x0` is never written. -/
def regWriteOf (we : Bool) (rd : BitVec 5) (data : Word) : Option RegWrite :=
  if we && rd != 0#5 then some ⟨rd, data⟩ else none

/-- The result of the ALU or of the RV32M operation; the address of a load or store. -/
def instrResult (d : Ctrl) (pc imm a b : Word) : Word :=
  if d.isMulDiv then rv32mResult d.aluOp a b
  else riscvAlu d.aluOp (if d.srcAPc then pc else a) (if d.srcBImm then imm else b)

/-- The exception an instruction raises: cause and trap value. -/
def instrTrap (c : Config) (d : Ctrl) (pc result : Word) : Option (Word × Word) :=
  let unaligned := misaligned d.memSize (result.extractLsb' 0 2)
  if d.isEcall then some (causeEcallM, 0#32)
  else if d.isEbreak then some (causeBreakpoint, pc)
  else if d.memRead && unaligned then some (causeLoadMisaligned, result)
  else if d.memWrite && unaligned then some (causeStoreMisaligned, result)
  else if d.memRead && accessFault c result then some (causeLoadAccess, result)
  else if d.memWrite && accessFault c result then some (causeStoreAccess, result)
  else none

/-- The pc of the next instruction. -/
def instrNextPc (d : Ctrl) (pc imm a b : Word) (csr : Csr) (trap : Option (Word × Word)) : Word :=
  if trap.isSome then trapVector csr.mtvec
  else if d.isMret then csr.mepc
  else if d.jalr then (a + imm) &&& 0xfffffffe#32
  else if d.jal then pc + imm
  else if d.branchKind ≠ .none ∧ branchCond d.branchKind a b then pc + imm
  else pc + 4#32

/-- The data access of a load or store at address `addr`. -/
def instrAccess (d : Ctrl) (addr b : Word) : Option Access :=
  if d.isMem then
    some
      { write := d.memWrite
        addr := addr
        writeData := lsuWriteData d.memSize (addr.extractLsb' 0 2) d.memWrite b
        wstrb := lsuWstrb d.memSize (addr.extractLsb' 0 2) d.memWrite }
  else none

/-- The value written back. -/
def instrValue (d : Ctrl) (pc result : Word) (csr : Csr) (mem : DataMem) : Word :=
  match d.wbSel with
  | .pc4 => pc + 4#32
  | .load => lsuLoadData d.memSize d.memUnsigned (result.extractLsb' 0 2) (mem (wordIndex result))
  | .csr => csr.read d.csrAddr
  | .alu => result

/-- The CSR update of an instruction. -/
def instrCsrUpdate (d : Ctrl) (pc a : Word) (csr : Csr) (trap : Option (Word × Word)) :
    Option CsrUpdate :=
  match trap with
  | some (cause, tval) => some (.trap pc cause tval)
  | none =>
    if d.isMret then some .mret
    else if d.csrRead then
      (csrNewValue d.funct3 d.rs1 (csr.read d.csrAddr) a).map (.write d.csrAddr)
    else none

/-- **The effect of an instruction** with register operands `a` and `b`. An instruction that
traps does nothing but trap. -/
def instrEffect (c : Config) (d : Decoded) (pc a b : Word) (csr : Csr) (mem : DataMem) : Effect :=
  let result := instrResult d.ctrl pc d.imm a b
  let trap := instrTrap c d.ctrl pc result
  { nextPc := instrNextPc d.ctrl pc d.imm a b csr trap
    regWrite :=
      if trap.isSome then none
      else regWriteOf d.ctrl.regWrite d.ctrl.rd (instrValue d.ctrl pc result csr mem)
    access := if trap.isSome then none else instrAccess d.ctrl result b
    csrUpdate := instrCsrUpdate d.ctrl pc a csr trap }

/-! ## The machine

A step is total. There is no illegal instruction and no way to stop: a word that the core treats
as a no-op is one here, and an exception continues at the trap vector. -/

/-- The state of the machine, with the logs of its effects so far. -/
structure Seq where
  pc : Word
  regs : Regs := Regs.zero
  csr : Csr := Csr.zero
  mem : DataMem
  regWrites : List RegWrite := []
  accesses : List Access := []
  csrUpdates : List CsrUpdate := []

/-- The machine before its first instruction. -/
def seqReset (c : Config) (mem : DataMem) : Seq := { pc := c.resetPc, mem := mem }

/-- What the next instruction of a program does. -/
def Seq.effect (c : Config) (imem : Word → Word) (s : Seq) : Effect :=
  let d := riscvDecode (imem s.pc)
  instrEffect c d s.pc (s.regs d.ctrl.rs1) (s.regs d.ctrl.rs2) s.csr s.mem

/-- The state after an effect. -/
def Seq.commit (n : ℕ) (s : Seq) (e : Effect) : Seq where
  pc := e.nextPc
  regs := e.regWrite.toList.foldl RegWrite.apply s.regs
  csr := e.csrUpdate.toList.foldl (CsrUpdate.apply n) s.csr
  mem := e.access.toList.foldl DataMem.access s.mem
  regWrites := s.regWrites ++ e.regWrite.toList
  accesses := s.accesses ++ e.access.toList
  csrUpdates := s.csrUpdates ++ e.csrUpdate.toList

/-- One step: the whole next instruction. -/
def seqStep (c : Config) (imem : Word → Word) (s : Seq) : Seq :=
  s.commit c.numExtInterrupts (s.effect c imem)

/-- The machine after `k` instructions. -/
def seqRun (c : Config) (imem : Word → Word) (mem : DataMem) (k : ℕ) : Seq :=
  (seqStep c imem)^[k] (seqReset c mem)

/-- A jump to itself changes nothing. -/
theorem seqStep_selfLoop {c : Config} {imem : Word → Word} {s : Seq}
    (h : imem s.pc = 0x0000006f#32) : seqStep c imem s = s := by
  have heffect : s.effect c imem = ⟨s.pc, none, none, none⟩ := by
    obtain ⟨hecall, hebreak, hread, hwrite⟩ : (riscvDecode 0x0000006f#32).ctrl.isEcall = false ∧
        (riscvDecode 0x0000006f#32).ctrl.isEbreak = false ∧
        (riscvDecode 0x0000006f#32).ctrl.memRead = false ∧
        (riscvDecode 0x0000006f#32).ctrl.memWrite = false := by decide
    obtain ⟨hmret, hjalr, hjal, hcsr⟩ : (riscvDecode 0x0000006f#32).ctrl.isMret = false ∧
        (riscvDecode 0x0000006f#32).ctrl.jalr = false ∧
        (riscvDecode 0x0000006f#32).ctrl.jal = true ∧
        (riscvDecode 0x0000006f#32).ctrl.csrRead = false := by decide
    obtain ⟨hrd, himm⟩ : (riscvDecode 0x0000006f#32).ctrl.rd = 0#5 ∧
        (riscvDecode 0x0000006f#32).imm = 0#32 := by decide
    simp [Seq.effect, h, instrEffect, instrTrap, instrNextPc, instrAccess, instrCsrUpdate,
      regWriteOf, Ctrl.isMem, hecall, hebreak, hread, hwrite, hmret, hjalr, hjal, hcsr, hrd, himm]
  rw [seqStep, heffect]
  simp [Seq.commit]

/-! ## Writes to the register file -/

/-- A clock edge of the register file applies the register write of its write port. -/
theorem regfileNext_eq {regs : Regs} (h0 : regs 0#5 = 0#32) (we : Bool) (rd : BitVec 5)
    (data : Word) :
    regfileNext regs we rd data = (regWriteOf we rd data).toList.foldl RegWrite.apply regs := by
  funext r
  cases we with
  | false =>
    rw [regfileNext_of_not_we h0]
    rfl
  | true =>
    by_cases hrd : rd = 0#5
    · simp only [hrd, regWriteOf, regfileNext, bne_self_eq_false, Bool.and_false,
        Bool.false_and, Bool.false_eq_true, if_false, Option.toList_none, List.foldl_nil]
      split_ifs with hr
      · rw [hr, h0]
      · rfl
    · have hne : (rd != 0#5) = true := by simpa using hrd
      simp only [regfileNext, regWriteOf, hne, Bool.and_self, if_true, Option.toList_some,
        List.foldl_cons, List.foldl_nil, RegWrite.apply, Bool.true_and, beq_iff_eq]
      by_cases hr : r = 0#5
      · rw [if_pos hr, if_neg (fun he : r = rd => hrd (he.symm.trans hr)), hr, h0]
      · rw [if_neg hr]
        simp only [eq_comm]

end RiscvV2
