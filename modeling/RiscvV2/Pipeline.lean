import RiscvV2.Decode
import RiscvV2.Datapath
import RiscvV2.Csr

/-!
# Back end of the core (`riscv_core.sv`, `riscv_hazard.sv`)

Everything from IF/ID to writeback: the pipeline registers, the hazard unit, the EX-stage
control, the iterative multiplier and divider. The fetch unit is left out; what it hands
over in a cycle (`if_accept` with a pc and an instruction) is an input here.

A wire of the source is a function of the registers and, where memory wait states matter,
of `dmem_ready`. A wire that only counts together with an enable is an `Option`.

The definitions follow the order of the source, from the registers over the wires of each stage
to the clocked processes, and keep the names of the wires. Nothing is simplified on the grounds
that it cannot happen: the hazard unit still compares the destination of a load in EX, and the
forwarding multiplexer still has its path from EX/MEM, although `Stages` shows that neither is
ever used. A proof that a path is dead needs the path in the model.

The multiplier and the divider are not black boxes either. Their registers are part of the
state, and an operation takes the cycles that the source takes: two for a product, and one for
each bit of a quotient unless the divisor is zero or the division overflows.
-/

namespace RiscvV2

/-! ## Parameters and registers -/

/-- The parameters of `riscv_core`. -/
structure Config where
  resetPc : Word := 0
  trapAccessFaults : Bool := false
  dmemBase : Word := 0x80000000
  dmemLimit : Word := 0x80020000
  numExtInterrupts : ℕ := 32

/-- The `if_id_*` registers. -/
structure IfId where
  valid : Bool := false
  pc : Word := 0
  instr : Word := 0
  deriving DecidableEq, Repr

/-- The `id_ex_*` registers. -/
structure IdEx where
  valid : Bool := false
  forwardASel : BitVec 2 := 0
  forwardBSel : BitVec 2 := 0
  pc : Word := 0
  pc4 : Word := 0
  rs1Data : Word := 0
  rs2Data : Word := 0
  imm : Word := 0
  redirectTarget : Word := 0
  csrOld : Word := 0
  ctrl : Ctrl := { memSize := 0 }
  deriving DecidableEq, Repr

/-- The `ex_mem_*` registers. -/
structure ExMem where
  valid : Bool := false
  pc4 : Word := 0
  aluResult : Word := 0
  storeData : Word := 0
  rd : BitVec 5 := 0
  wbSel : WbSel := .alu
  regWrite : Bool := false
  memRead : Bool := false
  memWrite : Bool := false
  memSize : BitVec 2 := 0
  memUnsigned : Bool := false
  csrOld : Word := 0
  deriving DecidableEq, Repr

/-- The `mem_wb_*` registers. -/
structure MemWb where
  valid : Bool := false
  pc4 : Word := 0
  aluResult : Word := 0
  loadData : Word := 0
  csrOld : Word := 0
  rd : BitVec 5 := 0
  wbSel : WbSel := .alu
  regWrite : Bool := false
  deriving DecidableEq, Repr

/-- The `mul_*` registers. -/
structure MulUnit where
  busy : Bool := false
  done : Bool := false
  op : AluOp := .mul
  aReg : BitVec 33 := 0
  bReg : BitVec 33 := 0
  product : BitVec 66 := 0
  deriving DecidableEq, Repr

/-- The `div_*` registers. -/
structure DivUnit where
  busy : Bool := false
  done : Bool := false
  op : AluOp := .divu
  count : BitVec 6 := 0
  dividend : Word := 0
  divisor : Word := 0
  quotient : Word := 0
  remainder : BitVec 33 := 0
  quotientNeg : Bool := false
  remainderNeg : Bool := false
  result : Word := 0
  deriving DecidableEq, Repr

/-- The registers of the back end. The field defaults of the parts are the reset values. -/
structure Pipe where
  ifId : IfId := {}
  idEx : IdEx := {}
  exMem : ExMem := {}
  memWb : MemWb := {}
  loadUseHoldQ : Bool := false
  mul : MulUnit := {}
  div : DivUnit := {}
  regs : Regs := Regs.zero
  csr : Csr := Csr.zero

/-- The back end out of reset. -/
def Pipe.reset : Pipe := {}

/-- The inputs of the back end in a cycle; `n` is `NUM_EXT_INTERRUPTS`. -/
structure PipeIn (n : ℕ) where
  globalInterrupts : BitVec n
  ifAccept : Bool
  ifRespPc : Word
  ifRespInstr : Word
  dmemReady : Bool
  dmemReadData : Word

/-! ## MEM and WB stages

The access that MEM drives, and the value and the enable with which WB writes the register file.
A load takes its data in the cycle of `dmem_ready`; the other results were ready in EX. -/

/-- `dmem_read_en`. -/
def dmemReadEn (p : Pipe) : Bool := p.exMem.valid && p.exMem.memRead

/-- `dmem_write_en`. -/
def dmemWriteEn (p : Pipe) : Bool := p.exMem.valid && p.exMem.memWrite

/-- `dmem_addr`. -/
def dmemAddr (p : Pipe) : Word := p.exMem.aluResult

/-- `dmem_write_data`. -/
def dmemWriteData (p : Pipe) : Word :=
  lsuWriteData p.exMem.memSize (p.exMem.aluResult.extractLsb' 0 2) (dmemWriteEn p)
    p.exMem.storeData

/-- `dmem_wstrb`. -/
def dmemWstrb (p : Pipe) : BitVec 4 :=
  lsuWstrb p.exMem.memSize (p.exMem.aluResult.extractLsb' 0 2) (dmemWriteEn p)

/-- `mem_load_data`. -/
def memLoadData (p : Pipe) (dmemReadData : Word) : Word :=
  lsuLoadData p.exMem.memSize p.exMem.memUnsigned (p.exMem.aluResult.extractLsb' 0 2)
    dmemReadData

/-- `mem_stall`. -/
def memStall (p : Pipe) (dmemReady : Bool) : Bool :=
  p.exMem.valid && (p.exMem.memRead || p.exMem.memWrite) && !dmemReady

/-- `wb_data`. -/
def wbData (p : Pipe) : Word :=
  match p.memWb.wbSel with
  | .pc4 => p.memWb.pc4
  | .load => p.memWb.loadData
  | .csr => p.memWb.csrOld
  | .alu => p.memWb.aluResult

/-- The write enable of the register file. -/
def regWe (p : Pipe) : Bool := p.memWb.valid && p.memWb.regWrite

/-! ## ID stage and hazard unit -/

/-- The outputs of `u_decode`. -/
def idDecoded (p : Pipe) : Decoded := riscvDecode p.ifId.instr

/-- `id_rs1_data`. -/
def idRs1Data (p : Pipe) : Word :=
  regfileRead p.regs (regWe p) p.memWb.rd (wbData p) (idDecoded p).ctrl.rs1

/-- `id_rs2_data`. -/
def idRs2Data (p : Pipe) : Word :=
  regfileRead p.regs (regWe p) p.memWb.rd (wbData p) (idDecoded p).ctrl.rs2

/-- `id_csr_old`. -/
def idCsrOld (p : Pipe) : Word := p.csr.read (idDecoded p).ctrl.csrAddr

/-- `id_redirect_target`. -/
def idRedirectTarget (p : Pipe) : Word := p.ifId.pc + (idDecoded p).imm

/-- Forwarding select of one operand of the decode instruction: `00` is the captured
register, `01` the next EX/MEM result, `10` the next MEM/WB result. -/
def forwardSel (p : Pipe) (useRs : Bool) (rs : BitVec 5) : BitVec 2 :=
  if p.ifId.valid && useRs && rs != 0#5 then
    if p.idEx.valid && p.idEx.ctrl.regWrite && !p.idEx.ctrl.memRead && p.idEx.ctrl.rd == rs then
      0b01#2
    else if p.exMem.valid && p.exMem.regWrite && p.exMem.rd == rs then 0b10#2
    else 0b00#2
  else 0b00#2

/-- `id_forward_a_sel`. -/
def idForwardASel (p : Pipe) : BitVec 2 :=
  forwardSel p (idDecoded p).ctrl.useRs1 (idDecoded p).ctrl.rs1

/-- `id_forward_b_sel`. -/
def idForwardBSel (p : Pipe) : BitVec 2 :=
  forwardSel p (idDecoded p).ctrl.useRs2 (idDecoded p).ctrl.rs2

/-- `load_hazard_ex`, which drives `stall_if`, `stall_id` and `bubble_ex` of the hazard
unit. -/
def loadHazardEx (p : Pipe) : Bool :=
  let d := (idDecoded p).ctrl
  p.ifId.valid && p.idEx.valid && p.idEx.ctrl.memRead && p.idEx.ctrl.rd != 0#5 &&
    (d.useRs1 && d.rs1 == p.idEx.ctrl.rd || d.useRs2 && d.rs2 == p.idEx.ctrl.rd)

/-- `bubble_ex`. -/
def bubbleEx (p : Pipe) : Bool := loadHazardEx p

/-! ## EX stage: operands and the multicycle units -/

/-- `ex_mem_forward_data`. -/
def exMemForwardData (p : Pipe) : Word :=
  match p.exMem.wbSel with
  | .pc4 => p.exMem.pc4
  | .csr => p.exMem.csrOld
  | _ => p.exMem.aluResult

/-- One forwarding mux of the EX stage. -/
def forwardMux (p : Pipe) (sel : BitVec 2) (rsData : Word) : Word :=
  if sel = 0b01#2 then exMemForwardData p
  else if sel = 0b10#2 then wbData p
  else rsData

/-- `ex_forward_a_data`. -/
def exForwardAData (p : Pipe) : Word := forwardMux p p.idEx.forwardASel p.idEx.rs1Data

/-- `ex_forward_b_data`. -/
def exForwardBData (p : Pipe) : Word := forwardMux p p.idEx.forwardBSel p.idEx.rs2Data

/-- `ex_alu_src_a`. -/
def exAluSrcA (p : Pipe) : Word := if p.idEx.ctrl.srcAPc then p.idEx.pc else exForwardAData p

/-- `ex_alu_src_b`. -/
def exAluSrcB (p : Pipe) : Word := if p.idEx.ctrl.srcBImm then p.idEx.imm else exForwardBData p

/-- `ex_store_data`. -/
def exStoreData (p : Pipe) : Word := exForwardBData p

/-- `ex_addr_lo`. -/
def exAddrLo (p : Pipe) : BitVec 2 :=
  (exAluSrcA p).extractLsb' 0 2 + (exAluSrcB p).extractLsb' 0 2

/-- `div_is_op`. -/
def divIsOp (p : Pipe) : Bool := p.idEx.ctrl.aluOp.isDiv

/-- `div_start`. -/
def divStart (p : Pipe) (dmemReady : Bool) : Bool :=
  p.idEx.valid && divIsOp p && !p.div.busy && !p.div.done && !memStall p dmemReady

/-- `div_stall`. -/
def divStall (p : Pipe) : Bool := p.idEx.valid && divIsOp p && !p.div.done

/-- `mul_is_op`. -/
def mulIsOp (p : Pipe) : Bool := p.idEx.ctrl.aluOp.isMul

/-- `mul_start`. -/
def mulStart (p : Pipe) (dmemReady : Bool) : Bool :=
  p.idEx.valid && mulIsOp p && !p.mul.busy && !p.mul.done && !memStall p dmemReady

/-- `mul_stall`. -/
def mulStall (p : Pipe) : Bool := p.idEx.valid && mulIsOp p && !p.mul.done

/-- `m_stall`. -/
def mStall (p : Pipe) : Bool := mulStall p || divStall p

/-- `mul_result`. -/
def mulResult (p : Pipe) : Word :=
  if p.mul.op = .mul then p.mul.product.extractLsb' 0 32
  else p.mul.product.extractLsb' 32 32

/-- `ex_alu_result`. -/
def exAluResult (p : Pipe) : Word :=
  if divIsOp p then p.div.result
  else if mulIsOp p then mulResult p
  else riscvAlu p.idEx.ctrl.aluOp (exAluSrcA p) (exAluSrcB p)

/-! ## EX stage: traps, redirects and CSR writes

Everything an instruction does beyond its result is decided here, in the one cycle in which it
fires in EX. The three decisions are made side by side from the same wires: whether it traps,
where the next instruction comes from, and which value it writes to a CSR. Only the second looks
at the first. The CSR write does not, and neither does its enable at the CSR file. -/

/-- The branch comparator. -/
def branchCond (kind : BranchKind) (a b : Word) : Bool :=
  match kind with
  | .eq => a == b
  | .ne => a != b
  | .lt => a.slt b
  | .ge => !a.slt b
  | .ltu => a.ult b
  | .geu => !a.ult b
  | .none => false

/-- `ex_branch_cond`. -/
def exBranchCond (p : Pipe) : Bool :=
  branchCond p.idEx.ctrl.branchKind (exForwardAData p) (exForwardBData p)

/-- The low address bits do not fit the access size. -/
def misaligned (memSize addrLo : BitVec 2) : Bool :=
  if memSize = 1#2 then addrLo.getLsbD 0
  else if memSize = 2#2 then addrLo != 0#2
  else false

/-- `ex_misalign_load`. -/
def exMisalignLoad (p : Pipe) : Bool :=
  p.idEx.ctrl.memRead && misaligned p.idEx.ctrl.memSize (exAddrLo p)

/-- `ex_misalign_store`. -/
def exMisalignStore (p : Pipe) : Bool :=
  p.idEx.ctrl.memWrite && misaligned p.idEx.ctrl.memSize (exAddrLo p)

/-- Access-fault checking is on and the address is outside `[DMEM_BASE, DMEM_LIMIT)`. -/
def accessFault (c : Config) (addr : Word) : Bool :=
  c.trapAccessFaults && (addr.ult c.dmemBase || !addr.ult c.dmemLimit)

/-- `ex_access_load`. -/
def exAccessLoad (c : Config) (p : Pipe) : Bool :=
  accessFault c (exAluResult p) && p.idEx.ctrl.memRead && !exMisalignLoad p

/-- `ex_access_store`. -/
def exAccessStore (c : Config) (p : Pipe) : Bool :=
  accessFault c (exAluResult p) && p.idEx.ctrl.memWrite && !exMisalignStore p

/-- The instruction in EX may act in this cycle. -/
def exFires (p : Pipe) (dmemReady : Bool) : Bool :=
  !memStall p dmemReady && !mStall p && p.idEx.valid

/-- The synchronous exception of the instruction in EX: `ex_trap_cause` and `ex_trap_tval`. -/
def exSyncTrap (c : Config) (p : Pipe) : Option (Word × Word) :=
  if p.idEx.ctrl.isEcall then some (causeEcallM, 0#32)
  else if p.idEx.ctrl.isEbreak then some (causeBreakpoint, p.idEx.pc)
  else if exMisalignLoad p then some (causeLoadMisaligned, exAluResult p)
  else if exMisalignStore p then some (causeStoreMisaligned, exAluResult p)
  else if exAccessLoad c p then some (causeLoadAccess, exAluResult p)
  else if exAccessStore c p then some (causeStoreAccess, exAluResult p)
  else none

/-- `ex_is_trap` with `ex_trap_cause` and `ex_trap_tval`: a synchronous exception, or else
an active external interrupt. -/
def exTrap (c : Config) (p : Pipe) (dmemReady : Bool) : Option (Word × Word) :=
  if exFires p dmemReady then
    match exSyncTrap c p with
    | some t => some t
    | none =>
      if p.csr.externalIrqActive then some (causeMachineExternalInterrupt, 0#32) else none
  else none

/-- The trap handler address: `mtvec` with its low two bits cleared. -/
def trapVector (mtvec : Word) : Word := mtvec.extractLsb' 2 30 ++ 0#2

/-- `ex_redirect` with `ex_redirect_target`. -/
def exRedirect (c : Config) (p : Pipe) (dmemReady : Bool) : Option Word :=
  if exFires p dmemReady then
    if (exTrap c p dmemReady).isSome then some (trapVector p.csr.mtvec)
    else if p.idEx.ctrl.isMret then some p.csr.mepc
    else if p.idEx.ctrl.jalr then some ((exForwardAData p + p.idEx.imm) &&& 0xfffffffe#32)
    else if p.idEx.ctrl.jal then some p.idEx.redirectTarget
    else if p.idEx.ctrl.branchKind ≠ .none ∧ exBranchCond p then some p.idEx.redirectTarget
    else none
  else none

/-- The new value a CSR instruction asks for, if it writes at all: `a` is the forwarded
`rs1`, and the immediate forms use the `rs1` field itself. -/
def csrNewValue (funct3 : BitVec 3) (rs1 : BitVec 5) (old a : Word) : Option Word :=
  match funct3 with
  | 0b001#3 => some a
  | 0b010#3 => if rs1 != 0#5 then some (old ||| a) else none
  | 0b011#3 => if rs1 != 0#5 then some (old &&& ~~~a) else none
  | 0b101#3 => some (rs1.setWidth 32)
  | 0b110#3 => if rs1 != 0#5 then some (old ||| rs1.setWidth 32) else none
  | 0b111#3 => if rs1 != 0#5 then some (old &&& ~~~(rs1.setWidth 32)) else none
  | _ => none

/-- `ex_csr_write_en` with `ex_csr_write_data`. The trap wires play no part in it. -/
def exCsrWrite (p : Pipe) (dmemReady : Bool) : Option Word :=
  if exFires p dmemReady && p.idEx.ctrl.csrRead then
    csrNewValue p.idEx.ctrl.funct3 p.idEx.ctrl.rs1 p.idEx.csrOld (exForwardAData p)
  else none

/-! ## Stalls -/

/-- `stall_if`, which `stall_id` equals. -/
def stallIf (p : Pipe) : Bool := loadHazardEx p || p.loadUseHoldQ || mStall p

/-- `id_ex_flush_ctrl`. -/
def idExFlushCtrl (c : Config) (p : Pipe) (dmemReady : Bool) : Bool :=
  (exRedirect c p dmemReady).isSome || bubbleEx p && !mStall p

/-! ## The clocked processes

One function for each process of the source, with the conditions in the order in which the
source tests them. `pipeNext` applies all of them to the registers as they were before the edge.
-/

/-- The multiplier registers after `mul_start` with operation `op` and operands `a`, `b`. -/
def mulBegin (m : MulUnit) (op : AluOp) (a b : Word) : MulUnit :=
  { m with
    op := op
    aReg := if op = .mulh ∨ op = .mulhsu then a.signExtend 33 else a.setWidth 33
    bReg := if op = .mulh then b.signExtend 33 else b.setWidth 33
    busy := true }

/-- The multiplier registers after the cycle of the DSP operation. -/
def mulMultiply (m : MulUnit) : MulUnit :=
  { m with
    product := m.aReg.signExtend 66 * m.bReg.signExtend 66
    busy := false
    done := true }

/-- The multiplier process. -/
def mulNext (p : Pipe) (dmemReady : Bool) : MulUnit :=
  -- `done` drops once the instruction can leave EX; the branches below may raise it
  let m := { p.mul with done := p.mul.done && memStall p dmemReady }
  if mulStart p dmemReady then mulBegin m p.idEx.ctrl.aluOp (exAluSrcA p) (exAluSrcB p)
  else if p.mul.busy then mulMultiply m
  else m

/-- `div_trial_remainder`. -/
def divTrialRemainder (d : DivUnit) : BitVec 33 :=
  d.remainder.extractLsb' 0 32 ++ d.dividend.extractLsb' 31 1

/-- `div_subtract`. -/
def divSubtract (d : DivUnit) : Bool := !(divTrialRemainder d).ult (0#1 ++ d.divisor)

/-- `div_next_remainder`. -/
def divNextRemainder (d : DivUnit) : BitVec 33 :=
  if divSubtract d then divTrialRemainder d - (0#1 ++ d.divisor) else divTrialRemainder d

/-- `div_next_quotient`. -/
def divNextQuotient (d : DivUnit) : Word :=
  d.quotient.extractLsb' 0 31 ++ BitVec.ofBool (divSubtract d)

/-- The divide operations whose operands are signed. -/
def AluOp.isSignedDiv (op : AluOp) : Bool := op == .div || op == .rem

/-- The divider registers after `div_start` with operation `op` and operands `a`, `b`. -/
def divBegin (d : DivUnit) (op : AluOp) (a b : Word) : DivUnit :=
  let d := { d with op := op, count := 0#6 }
  if b = 0#32 then
    { d with
      result := if op = .div ∨ op = .divu then 0xffffffff#32 else a
      busy := false
      done := true }
  else if op.isSignedDiv ∧ a = 0x80000000#32 ∧ b = 0xffffffff#32 then
    { d with
      result := if op = .div then 0x80000000#32 else 0#32
      busy := false
      done := true }
  else
    { d with
      dividend := if op.isSignedDiv ∧ a.getLsbD 31 then ~~~a + 1#32 else a
      divisor := if op.isSignedDiv ∧ b.getLsbD 31 then ~~~b + 1#32 else b
      quotient := 0#32
      remainder := 0#33
      quotientNeg := op == .div && (a.getLsbD 31 ^^ b.getLsbD 31)
      remainderNeg := op == .rem && a.getLsbD 31
      busy := true }

/-- The divider registers after one iteration of the shift-subtract loop. -/
def divIterate (d : DivUnit) : DivUnit :=
  let d' := { d with
    dividend := d.dividend.extractLsb' 0 31 ++ 0#1
    quotient := divNextQuotient d
    remainder := divNextRemainder d }
  if d.count = 31#6 then
    { d' with
      result :=
        if d.op = .div ∨ d.op = .divu then
          if d.quotientNeg then ~~~divNextQuotient d + 1#32 else divNextQuotient d
        else
          let r := (divNextRemainder d).extractLsb' 0 32
          if d.remainderNeg then ~~~r + 1#32 else r
      busy := false
      done := true }
  else { d' with count := d.count + 1#6 }

/-- The divider process. -/
def divNext (p : Pipe) (dmemReady : Bool) : DivUnit :=
  let d := { p.div with done := p.div.done && memStall p dmemReady }
  if divStart p dmemReady then divBegin d p.idEx.ctrl.aluOp (exAluSrcA p) (exAluSrcB p)
  else if p.div.busy then divIterate d
  else d

/-- The IF/ID register. -/
def ifIdNext {n : ℕ} (c : Config) (p : Pipe) (i : PipeIn n) : IfId :=
  if memStall p i.dmemReady then p.ifId
  else if (exRedirect c p i.dmemReady).isSome then { p.ifId with valid := false }
  else if stallIf p then p.ifId
  else if i.ifAccept then { valid := true, pc := i.ifRespPc, instr := i.ifRespInstr }
  else { p.ifId with valid := false }

/-- The half of ID/EX enabled by `id_ex_en_data`. -/
def idExCapture (p : Pipe) : IdEx :=
  if stallIf p then p.idEx
  else { p.idEx with
    pc := p.ifId.pc
    pc4 := p.ifId.pc + 4#32
    rs1Data := idRs1Data p
    rs2Data := idRs2Data p
    imm := (idDecoded p).imm
    redirectTarget := idRedirectTarget p
    csrOld := idCsrOld p }

/-- The ID/EX register. -/
def idExNext (c : Config) (p : Pipe) (dmemReady : Bool) : IdEx :=
  if memStall p dmemReady then p.idEx
  else if idExFlushCtrl c p dmemReady then
    -- a flush clears the valid bit and the selects; the data half is still captured
    { idExCapture p with valid := false, forwardASel := 0#2, forwardBSel := 0#2 }
  else if stallIf p then idExCapture p
  else { idExCapture p with
    valid := p.ifId.valid
    forwardASel := idForwardASel p
    forwardBSel := idForwardBSel p
    ctrl := (idDecoded p).ctrl }

/-- The EX/MEM register. -/
def exMemNext (c : Config) (p : Pipe) (dmemReady : Bool) : ExMem :=
  if memStall p dmemReady then p.exMem
  else
    { valid := p.idEx.valid && !mStall p && (exTrap c p dmemReady).isNone && !p.idEx.ctrl.isMret
      pc4 := p.idEx.pc4
      aluResult := exAluResult p
      storeData := exStoreData p
      rd := p.idEx.ctrl.rd
      wbSel := p.idEx.ctrl.wbSel
      regWrite := p.idEx.ctrl.regWrite
      memRead := p.idEx.ctrl.memRead
      memWrite := p.idEx.ctrl.memWrite
      memSize := p.idEx.ctrl.memSize
      memUnsigned := p.idEx.ctrl.memUnsigned
      csrOld := p.idEx.csrOld }

/-- The MEM/WB register. -/
def memWbNext {n : ℕ} (p : Pipe) (i : PipeIn n) : MemWb :=
  if memStall p i.dmemReady then { p.memWb with valid := false }
  else
    { valid := p.exMem.valid
      pc4 := p.exMem.pc4
      aluResult := p.exMem.aluResult
      loadData := memLoadData p i.dmemReadData
      csrOld := p.exMem.csrOld
      rd := p.exMem.rd
      wbSel := p.exMem.wbSel
      regWrite := p.exMem.regWrite }

/-- The port connections of `u_csr`. -/
def csrIn {n : ℕ} (c : Config) (p : Pipe) (i : PipeIn n) : CsrIn n where
  globalInterrupts := i.globalInterrupts
  we := p.idEx.valid && (exCsrWrite p i.dmemReady).isSome
  waddr := p.idEx.ctrl.csrAddr
  wdata := (exCsrWrite p i.dmemReady).getD 0#32
  trapEn := p.idEx.valid && (exTrap c p i.dmemReady).isSome
  trapEpc := p.idEx.pc
  trapCause := ((exTrap c p i.dmemReady).getD (0#32, 0#32)).1
  trapTval := ((exTrap c p i.dmemReady).getD (0#32, 0#32)).2
  mretEn := p.idEx.valid && !memStall p i.dmemReady && p.idEx.ctrl.isMret

/-- The back end after a clock edge without reset. -/
def pipeNext {n : ℕ} (c : Config) (p : Pipe) (i : PipeIn n) : Pipe where
  ifId := ifIdNext c p i
  idEx := idExNext c p i.dmemReady
  exMem := exMemNext c p i.dmemReady
  memWb := memWbNext p i
  loadUseHoldQ :=
    if memStall p i.dmemReady then p.loadUseHoldQ
    else (exRedirect c p i.dmemReady).isNone && bubbleEx p
  mul := mulNext p i.dmemReady
  div := divNext p i.dmemReady
  regs := regfileNext p.regs (regWe p) p.memWb.rd (wbData p)
  csr := csrNext p.csr (csrIn c p i)

end RiscvV2
