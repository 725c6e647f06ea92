import RiscvV2.Isa
import RiscvV2.DataPort

/-!
# Decode and execute against the ISA

`Isa.lean` says what an instruction does; here the decoder and the EX stage are shown to do
just that. The decoder is taken apart format by format: which field of the encoded word
lands in which output, and that the scrambled immediates come out unscrambled. The EX stage
is then evaluated once for each instruction form.

Between the two stands `Decoded.outcome`, the datapath as a pure function of the decoder
outputs. It splits the work: that a word decodes to an instruction of the ISA is about bit
fields and tables and knows no pipeline, and that the EX stage computes `Decoded.outcome` is
about wires and knows no instruction. Multiplications and divisions are not part of this module,
since their results come from the units (`MulDiv`).
-/

namespace RiscvV2

open Rv32 (Reg Cond Width LoadOp ArithOp ShiftOp CsrOp Instr MemOp Outcome)

/-! ## Fields of an encoded word

Every field of every format, read back by the decoder. The words are concatenations, so each
equation is about which piece an extraction falls into. -/

section fields

variable (funct7 opcode : BitVec 7) (rs2 rs1 rd : Reg) (funct3 : BitVec 3)
  (imm : BitVec 12) (upper : BitVec 20)

theorem opcode_rType :
    (Rv32.rType funct7 rs2 rs1 funct3 rd opcode).extractLsb' 0 7 = opcode := by
  unfold Rv32.rType
  simp (disch := decide) only [BitVec.extractLsb'_append_eq_of_add_le, BitVec.extractLsb'_eq_self]

theorem opcode_iType : (Rv32.iType imm rs1 funct3 rd opcode).extractLsb' 0 7 = opcode := by
  unfold Rv32.iType
  simp (disch := decide) only [BitVec.extractLsb'_append_eq_of_add_le, BitVec.extractLsb'_eq_self]

theorem opcode_sType : (Rv32.sType imm rs2 rs1 funct3 opcode).extractLsb' 0 7 = opcode := by
  unfold Rv32.sType
  simp (disch := decide) only [BitVec.extractLsb'_append_eq_of_add_le, BitVec.extractLsb'_eq_self]

theorem opcode_bType : (Rv32.bType imm rs2 rs1 funct3 opcode).extractLsb' 0 7 = opcode := by
  unfold Rv32.bType
  simp (disch := decide) only [BitVec.extractLsb'_append_eq_of_add_le, BitVec.extractLsb'_eq_self]

theorem opcode_uType : (Rv32.uType upper rd opcode).extractLsb' 0 7 = opcode := by
  unfold Rv32.uType
  simp (disch := decide) only [BitVec.extractLsb'_append_eq_of_add_le, BitVec.extractLsb'_eq_self]

theorem opcode_jType : (Rv32.jType upper rd opcode).extractLsb' 0 7 = opcode := by
  unfold Rv32.jType
  simp (disch := decide) only [BitVec.extractLsb'_append_eq_of_add_le, BitVec.extractLsb'_eq_self]

theorem decodeFields_rType :
    decodeFields (Rv32.rType funct7 rs2 rs1 funct3 rd opcode) =
      { rd := rd, funct3 := funct3, rs1 := rs1, rs2 := rs2, funct7 := funct7,
        csrAddr := funct7 ++ rs2 } := by
  unfold Rv32.rType decodeFields
  simp (disch := decide) only [BitVec.extractLsb'_append_eq_of_add_le,
    BitVec.extractLsb'_append_eq_of_le, Nat.reduceSub, BitVec.extractLsb'_eq_self]

/-- The immediate occupies the fields of `rs2` and `funct7`. -/
theorem decodeFields_iType :
    decodeFields (Rv32.iType imm rs1 funct3 rd opcode) =
      { rd := rd, funct3 := funct3, rs1 := rs1, rs2 := imm.extractLsb' 0 5,
        funct7 := imm.extractLsb' 5 7, csrAddr := imm } := by
  unfold Rv32.iType decodeFields
  simp (disch := decide) only [BitVec.extractLsb'_append_eq_of_add_le,
    BitVec.extractLsb'_append_eq_of_le, Nat.reduceSub, BitVec.extractLsb'_eq_self]

theorem decodeFields_sType :
    decodeFields (Rv32.sType imm rs2 rs1 funct3 opcode) =
      { rd := imm.extractLsb' 0 5, funct3 := funct3, rs1 := rs1, rs2 := rs2,
        funct7 := imm.extractLsb' 5 7, csrAddr := imm.extractLsb' 5 7 ++ rs2 } := by
  unfold Rv32.sType decodeFields
  simp (disch := decide) only [BitVec.extractLsb'_append_eq_of_add_le,
    BitVec.extractLsb'_append_eq_of_le, Nat.reduceSub, BitVec.extractLsb'_eq_self]

theorem decodeFields_bType :
    (decodeFields (Rv32.bType imm rs2 rs1 funct3 opcode)).funct3 = funct3 ∧
      (decodeFields (Rv32.bType imm rs2 rs1 funct3 opcode)).rs1 = rs1 ∧
      (decodeFields (Rv32.bType imm rs2 rs1 funct3 opcode)).rs2 = rs2 := by
  unfold Rv32.bType decodeFields
  simp (disch := decide) only [BitVec.extractLsb'_append_eq_of_add_le,
    BitVec.extractLsb'_append_eq_of_le, Nat.reduceSub, BitVec.extractLsb'_eq_self, and_self]

theorem decodeFields_uType : (decodeFields (Rv32.uType upper rd opcode)).rd = rd := by
  unfold Rv32.uType decodeFields
  simp (disch := decide) only [BitVec.extractLsb'_append_eq_of_add_le,
    BitVec.extractLsb'_append_eq_of_le, Nat.reduceSub, BitVec.extractLsb'_eq_self]

theorem decodeFields_jType : (decodeFields (Rv32.jType upper rd opcode)).rd = rd := by
  unfold Rv32.jType decodeFields
  simp (disch := decide) only [BitVec.extractLsb'_append_eq_of_add_le,
    BitVec.extractLsb'_append_eq_of_le, Nat.reduceSub, BitVec.extractLsb'_eq_self]

/-! ### Immediates -/

theorem immI_iType : immI (Rv32.iType imm rs1 funct3 rd opcode) = imm.signExtend 32 := by
  unfold Rv32.iType immI
  simp (disch := decide) only [BitVec.extractLsb'_append_eq_of_le, Nat.reduceSub,
    BitVec.extractLsb'_eq_self]

theorem immI_rType :
    immI (Rv32.rType funct7 rs2 rs1 funct3 rd opcode) = (funct7 ++ rs2).signExtend 32 := by
  unfold Rv32.rType immI
  simp (disch := decide) only [BitVec.extractLsb'_append_eq_of_le, Nat.reduceSub,
    BitVec.extractLsb'_eq_self]

theorem immS_sType : immS (Rv32.sType imm rs2 rs1 funct3 opcode) = imm.signExtend 32 := by
  unfold Rv32.sType immS
  simp (disch := decide) only [BitVec.extractLsb'_append_eq_of_add_le,
    BitVec.extractLsb'_append_eq_of_le, Nat.reduceSub, BitVec.extractLsb'_eq_self]
  rw [BitVec.extractLsb'_append_extractLsb'_eq_extractLsb' (by decide), BitVec.extractLsb'_eq_self]

/-- The four pieces of a branch offset are put back in order. -/
theorem immB_bType :
    immB (Rv32.bType imm rs2 rs1 funct3 opcode) = (imm ++ 0#1).signExtend 32 := by
  unfold Rv32.bType immB
  simp (disch := decide) only [BitVec.extractLsb'_append_eq_of_add_le,
    BitVec.extractLsb'_append_eq_of_le, Nat.reduceSub, BitVec.extractLsb'_eq_self]
  rw [BitVec.extractLsb'_append_extractLsb'_eq_extractLsb' (by decide),
    BitVec.extractLsb'_append_extractLsb'_eq_extractLsb' (by decide),
    BitVec.extractLsb'_append_extractLsb'_eq_extractLsb' (by decide), BitVec.extractLsb'_eq_self]

theorem immU_uType : immU (Rv32.uType upper rd opcode) = upper ++ 0#12 := by
  unfold Rv32.uType immU
  simp (disch := decide) only [BitVec.extractLsb'_append_eq_of_le, Nat.reduceSub,
    BitVec.extractLsb'_eq_self]

/-- So are those of a jump offset. -/
theorem immJ_jType : immJ (Rv32.jType upper rd opcode) = (upper ++ 0#1).signExtend 32 := by
  unfold Rv32.jType immJ
  simp (disch := decide) only [BitVec.extractLsb'_append_eq_of_add_le,
    BitVec.extractLsb'_append_eq_of_le, Nat.reduceSub, BitVec.extractLsb'_eq_self]
  rw [BitVec.extractLsb'_append_extractLsb'_eq_extractLsb' (by decide),
    BitVec.extractLsb'_append_extractLsb'_eq_extractLsb' (by decide),
    BitVec.extractLsb'_append_extractLsb'_eq_extractLsb' (by decide), BitVec.extractLsb'_eq_self]

end fields

/-! ## The decoder on each opcode

For any `funct3` and `funct7`, those without an instruction included. -/

section opcodes

variable (funct7 : BitVec 7) (funct3 : BitVec 3) (rd rs1 rs2 : Reg) (imm : BitVec 12)
  (upper : BitVec 20)

theorem riscvDecode_lui :
    riscvDecode (Rv32.uType upper rd opcodeLui) =
      ⟨{ decodeFields (Rv32.uType upper rd opcodeLui) with
          srcBImm := true, regWrite := true, aluOp := .copyB }, upper ++ 0#12⟩ := by
  simp only [riscvDecode, opcode_uType, immU_uType]
  rfl

theorem riscvDecode_auipc :
    riscvDecode (Rv32.uType upper rd opcodeAuipc) =
      ⟨{ decodeFields (Rv32.uType upper rd opcodeAuipc) with
          srcAPc := true, srcBImm := true, regWrite := true, aluOp := .add },
        upper ++ 0#12⟩ := by
  simp only [riscvDecode, opcode_uType, immU_uType]
  rfl

theorem riscvDecode_jal :
    riscvDecode (Rv32.jType upper rd opcodeJal) =
      ⟨{ decodeFields (Rv32.jType upper rd opcodeJal) with
          jal := true, regWrite := true, wbSel := .pc4 }, (upper ++ 0#1).signExtend 32⟩ := by
  simp only [riscvDecode, opcode_jType, immJ_jType]
  rfl

theorem riscvDecode_jalr :
    riscvDecode (Rv32.iType imm rs1 funct3 rd opcodeJalr) =
      ⟨{ decodeFields (Rv32.iType imm rs1 funct3 rd opcodeJalr) with
          useRs1 := true, jalr := true, regWrite := true, wbSel := .pc4 },
        imm.signExtend 32⟩ := by
  simp only [riscvDecode, opcode_iType, immI_iType]
  rfl

theorem riscvDecode_branch :
    riscvDecode (Rv32.bType imm rs2 rs1 funct3 opcodeBranch) =
      ⟨{ decodeFields (Rv32.bType imm rs2 rs1 funct3 opcodeBranch) with
          useRs1 := true, useRs2 := true, branchKind := decodeBranchKind funct3 },
        (imm ++ 0#1).signExtend 32⟩ := by
  obtain ⟨hfunct3, -, -⟩ := decodeFields_bType opcodeBranch rs2 rs1 funct3 imm
  simp only [riscvDecode, opcode_bType, immB_bType, hfunct3]
  rfl

theorem riscvDecode_load :
    riscvDecode (Rv32.iType imm rs1 funct3 rd opcodeLoad) =
      ⟨{ decodeFields (Rv32.iType imm rs1 funct3 rd opcodeLoad) with
          useRs1 := true, srcBImm := true, regWrite := true, memRead := true, wbSel := .load,
          memSize := (decodeLoadSize funct3).1, memUnsigned := (decodeLoadSize funct3).2 },
        imm.signExtend 32⟩ := by
  simp only [riscvDecode, opcode_iType, immI_iType, decodeFields_iType]
  rfl

theorem riscvDecode_store :
    riscvDecode (Rv32.sType imm rs2 rs1 funct3 opcodeStore) =
      ⟨{ decodeFields (Rv32.sType imm rs2 rs1 funct3 opcodeStore) with
          useRs1 := true, useRs2 := true, srcBImm := true, memWrite := true,
          memSize := decodeStoreSize funct3 }, imm.signExtend 32⟩ := by
  simp only [riscvDecode, opcode_sType, immS_sType, decodeFields_sType]
  rfl

theorem riscvDecode_opImm :
    riscvDecode (Rv32.iType imm rs1 funct3 rd opcodeOpImm) =
      ⟨{ decodeFields (Rv32.iType imm rs1 funct3 rd opcodeOpImm) with
          useRs1 := true, srcBImm := true, regWrite := true,
          aluOp := decodeOpImm funct3 (imm.extractLsb' 5 7) }, imm.signExtend 32⟩ := by
  simp only [riscvDecode, opcode_iType, immI_iType, decodeFields_iType]
  rfl

/-- With a shift amount the upper part of the immediate serves as `funct7`. -/
theorem riscvDecode_opImm_shift (shamt : BitVec 5) :
    riscvDecode (Rv32.rType funct7 shamt rs1 funct3 rd opcodeOpImm) =
      ⟨{ decodeFields (Rv32.rType funct7 shamt rs1 funct3 rd opcodeOpImm) with
          useRs1 := true, srcBImm := true, regWrite := true,
          aluOp := decodeOpImm funct3 funct7 }, (funct7 ++ shamt).signExtend 32⟩ := by
  simp only [riscvDecode, opcode_rType, immI_rType, decodeFields_rType]
  rfl

theorem riscvDecode_op :
    riscvDecode (Rv32.rType funct7 rs2 rs1 funct3 rd opcodeOp) =
      ⟨{ decodeFields (Rv32.rType funct7 rs2 rs1 funct3 rd opcodeOp) with
          useRs1 := true, useRs2 := true, regWrite := true,
          aluOp := decodeOp funct7 funct3 }, 0⟩ := by
  simp only [riscvDecode, opcode_rType, decodeFields_rType]
  rfl

/-- The CSR instructions differ in `funct3` only. -/
theorem riscvDecode_csr (hfunct3 : funct3 ≠ 0#3) :
    riscvDecode (Rv32.iType imm rs1 funct3 rd opcodeSystem) =
      ⟨decodeCsr (decodeFields (Rv32.iType imm rs1 funct3 rd opcodeSystem)), 0⟩ := by
  have hsystem : decodeSystem (decodeFields (Rv32.iType imm rs1 funct3 rd opcodeSystem)) =
      decodeCsr (decodeFields (Rv32.iType imm rs1 funct3 rd opcodeSystem)) := by
    rw [decodeSystem, decodeFields_iType]
    exact if_neg hfunct3
  rw [← hsystem]
  simp only [riscvDecode, opcode_iType]
  rfl

end opcodes

/-! ## Decoding and computing

The datapath as a function of a decoded instruction: what EX makes of the decoder outputs
when no trap intervenes. -/

/-- The register the decoder flags as used on the first port. -/
def Ctrl.usedRs1 (d : Ctrl) : Option Reg := if d.useRs1 then some d.rs1 else none

/-- The register the decoder flags as used on the second port. -/
def Ctrl.usedRs2 (d : Ctrl) : Option Reg := if d.useRs2 then some d.rs2 else none

/-- The access width of a `mem_size`. -/
def widthOf (memSize : BitVec 2) : Width :=
  match memSize with
  | 0#2 => .byte
  | 1#2 => .half
  | _ => .word

/-- The register result selected by `wb_sel`. -/
def selectResult (sel : WbSel) (pc4 alu csrOld : Word) : Rv32.Result :=
  match sel with
  | .pc4 => .value pc4
  | .load => .loaded
  | .csr => .value csrOld
  | .alu => .value alu

/-- The access of a load or store. -/
def selectAccess (memRead memWrite : Bool) (memSize : BitVec 2) (memUnsigned : Bool)
    (addr data : Word) : Option MemOp :=
  if memRead then some (.load (widthOf memSize) memUnsigned addr)
  else if memWrite then some (.store (widthOf memSize) addr data)
  else none

/-- The ALU result of a decoded instruction. -/
def Decoded.aluResult (d : Decoded) (pc a b : Word) : Word :=
  riscvAlu d.ctrl.aluOp (if d.ctrl.srcAPc then pc else a) (if d.ctrl.srcBImm then d.imm else b)

/-- What the datapath computes from the decoder outputs and the operands. -/
def Decoded.outcome (d : Decoded) (pc a b old : Word) : Outcome where
  rd :=
    if d.ctrl.regWrite then
      some (d.ctrl.rd, selectResult d.ctrl.wbSel (pc + 4#32) (d.aluResult pc a b) old)
    else none
  mem :=
    selectAccess d.ctrl.memRead d.ctrl.memWrite d.ctrl.memSize d.ctrl.memUnsigned
      (d.aluResult pc a b) b
  nextPc :=
    if d.ctrl.jalr then (a + d.imm) &&& 0xfffffffe#32
    else if d.ctrl.jal then pc + d.imm
    else if d.ctrl.branchKind ≠ .none ∧ branchCond d.ctrl.branchKind a b then pc + d.imm
    else pc + 4#32
  csr :=
    if d.ctrl.csrRead then
      (csrNewValue d.ctrl.funct3 d.ctrl.rs1 old a).map fun v => (d.ctrl.csrAddr, v)
    else none

/-- The decoder and the datapath together do what the ISA says of `i`. -/
structure DecodesTo (i : Instr) : Prop where
  rs1 : (riscvDecode i.encode).ctrl.usedRs1 = i.rs1
  rs2 : (riscvDecode i.encode).ctrl.usedRs2 = i.rs2
  outcome : ∀ pc a b old, (riscvDecode i.encode).outcome pc a b old = i.exec pc a b old
  csrWrite : ∀ pc a b old,
    (riscvDecode i.encode).ctrl.csrWrite = (i.exec pc a b old).csr.isSome
  /-- neither a system instruction nor one of the multicycle units -/
  plain : (riscvDecode i.encode).ctrl.isMret = false ∧
    (riscvDecode i.encode).ctrl.isEnvCall = false ∧
    (riscvDecode i.encode).ctrl.isMulDiv = false

/-! ### Tables of the decoder

The choices of ALU operation, branch comparison and access size, against the operations of the
ISA that they stand for. -/

section tables

variable (a b : Word)

theorem decodeBranchKind_ne (cond : Cond) : decodeBranchKind cond.funct3 ≠ .none := by
  cases cond <;> decide

theorem branchCond_eq (cond : Cond) :
    branchCond (decodeBranchKind cond.funct3) a b = true ↔ cond.holds a b := by
  cases cond with
  | beq => exact beq_iff_eq
  | bne => exact bne_iff_ne
  | blt => exact BitVec.slt_iff_toInt_lt
  | bge =>
    change (!a.slt b) = true ↔ b.toInt ≤ a.toInt
    rw [Bool.not_eq_true', ← Bool.not_eq_true, BitVec.slt_iff_toInt_lt, Int.not_lt]
  | bltu => exact BitVec.ult_iff_toNat_lt
  | bgeu =>
    change (!a.ult b) = true ↔ b.toNat ≤ a.toNat
    rw [Bool.not_eq_true', ← Bool.not_eq_true, BitVec.ult_iff_toNat_lt, Nat.not_lt]

/-- The comparisons of the ALU read their operands as the ISA does. -/
theorem riscvAlu_slt : riscvAlu .slt a b = if a.toInt < b.toInt then 1#32 else 0#32 :=
  if_congr BitVec.slt_iff_toInt_lt rfl rfl

theorem riscvAlu_sltu : riscvAlu .sltu a b = if a.toNat < b.toNat then 1#32 else 0#32 :=
  if_congr BitVec.ult_iff_toNat_lt rfl rfl

theorem riscvAlu_decodeOp (op : ArithOp) :
    riscvAlu (decodeOp 0b0000000#7 op.funct3) a b = op.eval a b := by
  cases op with
  | slt => exact riscvAlu_slt a b
  | sltu => exact riscvAlu_sltu a b
  | add | xor | or | and => rfl

/-- In the immediate forms the `funct7` bits belong to the immediate. -/
theorem riscvAlu_decodeOpImm (op : ArithOp) (funct7 : BitVec 7) :
    riscvAlu (decodeOpImm op.funct3 funct7) a b = op.eval a b := by
  cases op with
  | slt => exact riscvAlu_slt a b
  | sltu => exact riscvAlu_sltu a b
  | add | xor | or | and => rfl

theorem toNat_shiftAmount : (b.extractLsb' 0 5).toNat = b.toNat % 32 := by
  simp [BitVec.extractLsb'_toNat]

theorem riscvAlu_shift (op : ShiftOp) :
    riscvAlu (decodeOp op.funct7 op.funct3) a b = op.eval a (b.toNat % 32) := by
  rw [← toNat_shiftAmount]
  cases op <;> rfl

theorem riscvAlu_shiftImm (op : ShiftOp) :
    riscvAlu (decodeOpImm op.funct3 op.funct7) a b = op.eval a (b.toNat % 32) := by
  rw [← toNat_shiftAmount]
  cases op <;> rfl

/-- The low bits of the immediate of a shift are the shift amount. -/
theorem extract_shamt (funct7 : BitVec 7) (shamt : BitVec 5) :
    ((funct7 ++ shamt).signExtend 32).extractLsb' 0 5 = shamt := by
  ext k hk
  rw [BitVec.getElem_extractLsb', BitVec.getLsbD_signExtend, BitVec.getLsbD_append]
  simp [hk, show k < 12 by omega, show k < 32 by omega]

theorem shamt_eq (funct7 : BitVec 7) (shamt : BitVec 5) :
    ((funct7 ++ shamt).signExtend 32).toNat % 32 = shamt.toNat := by
  rw [← toNat_shiftAmount, extract_shamt]

end tables

/-! ### Each form -/

theorem decodesTo_lui (rd : Reg) (imm : BitVec 20) : DecodesTo (.lui rd imm) := by
  have hd : riscvDecode (Instr.lui rd imm).encode = _ := riscvDecode_lui rd imm
  have hrd := decodeFields_uType opcodeLui rd imm
  constructor
  case rs1 | rs2 => rw [hd]; rfl
  case outcome =>
    intro pc a b old
    rw [hd, Decoded.outcome, hrd]
    rfl
  case csrWrite => intros; rw [hd]; rfl
  case plain => rw [hd]; exact ⟨rfl, rfl, rfl⟩

theorem decodesTo_auipc (rd : Reg) (imm : BitVec 20) : DecodesTo (.auipc rd imm) := by
  have hd : riscvDecode (Instr.auipc rd imm).encode = _ := riscvDecode_auipc rd imm
  have hrd := decodeFields_uType opcodeAuipc rd imm
  constructor
  case rs1 | rs2 => rw [hd]; rfl
  case outcome =>
    intro pc a b old
    rw [hd, Decoded.outcome, hrd]
    rfl
  case csrWrite => intros; rw [hd]; rfl
  case plain => rw [hd]; exact ⟨rfl, rfl, rfl⟩

theorem decodesTo_jal (rd : Reg) (offset : BitVec 20) : DecodesTo (.jal rd offset) := by
  have hd : riscvDecode (Instr.jal rd offset).encode = _ := riscvDecode_jal rd offset
  have hrd := decodeFields_jType opcodeJal rd offset
  constructor
  case rs1 | rs2 => rw [hd]; rfl
  case outcome =>
    intro pc a b old
    rw [hd, Decoded.outcome, hrd]
    rfl
  case csrWrite => intros; rw [hd]; rfl
  case plain => rw [hd]; exact ⟨rfl, rfl, rfl⟩

theorem decodesTo_jalr (rd rs1 : Reg) (offset : BitVec 12) : DecodesTo (.jalr rd rs1 offset) := by
  have hd : riscvDecode (Instr.jalr rd rs1 offset).encode = _ :=
    riscvDecode_jalr 0b000#3 rd rs1 offset
  have hf := decodeFields_iType opcodeJalr rs1 rd 0b000#3 offset
  constructor
  case rs1 | rs2 => rw [hd, hf]; rfl
  case outcome =>
    intro pc a b old
    rw [hd, Decoded.outcome, hf]
    rfl
  case csrWrite => intros; rw [hd]; rfl
  case plain => rw [hd]; exact ⟨rfl, rfl, rfl⟩

theorem decodesTo_branch (cond : Cond) (rs1 rs2 : Reg) (offset : BitVec 12) :
    DecodesTo (.branch cond rs1 rs2 offset) := by
  have hd : riscvDecode (Instr.branch cond rs1 rs2 offset).encode = _ :=
    riscvDecode_branch cond.funct3 rs1 rs2 offset
  obtain ⟨-, h1, h2⟩ := decodeFields_bType opcodeBranch rs2 rs1 cond.funct3 offset
  constructor
  case rs1 => rw [hd]; exact congrArg some h1
  case rs2 => rw [hd]; exact congrArg some h2
  case outcome =>
    intro pc a b old
    have hcond : (decodeBranchKind cond.funct3 ≠ .none ∧
        branchCond (decodeBranchKind cond.funct3) a b = true) ↔ cond.holds a b := by
      rw [branchCond_eq]
      exact and_iff_right (decodeBranchKind_ne cond)
    rw [hd, Decoded.outcome, Instr.exec, ← if_congr hcond rfl rfl]
    rfl
  case csrWrite => intros; rw [hd]; rfl
  case plain => rw [hd]; exact ⟨rfl, rfl, rfl⟩

theorem decodesTo_load (op : LoadOp) (rd rs1 : Reg) (offset : BitVec 12) :
    DecodesTo (.load op rd rs1 offset) := by
  have hd : riscvDecode (Instr.load op rd rs1 offset).encode = _ :=
    riscvDecode_load op.funct3 rd rs1 offset
  have hf := decodeFields_iType opcodeLoad rs1 rd op.funct3 offset
  constructor
  case rs1 | rs2 => rw [hd, hf]; rfl
  case outcome =>
    intro pc a b old
    rw [hd, Decoded.outcome, hf]
    cases op <;> rfl
  case csrWrite => intros; rw [hd]; rfl
  case plain => rw [hd]; exact ⟨rfl, rfl, rfl⟩

theorem decodesTo_store (width : Width) (rs1 rs2 : Reg) (offset : BitVec 12) :
    DecodesTo (.store width rs1 rs2 offset) := by
  have hd : riscvDecode (Instr.store width rs1 rs2 offset).encode = _ :=
    riscvDecode_store width.funct3 rs1 rs2 offset
  have hf := decodeFields_sType opcodeStore rs2 rs1 width.funct3 offset
  constructor
  case rs1 | rs2 => rw [hd, hf]; rfl
  case outcome =>
    intro pc a b old
    rw [hd, Decoded.outcome, hf]
    cases width <;> rfl
  case csrWrite => intros; rw [hd]; rfl
  case plain => rw [hd]; exact ⟨rfl, rfl, rfl⟩

/-- The register result of an instruction that only computes. -/
theorem outcome_compute {d : Decoded} {rd : Reg} {pc a b old v : Word}
    (hrd : d.ctrl.regWrite = true ∧ d.ctrl.rd = rd ∧ d.ctrl.wbSel = .alu)
    (hmem : d.ctrl.isMem = false) (hjump : d.ctrl.isJump = false) (hcsr : d.ctrl.csrRead = false)
    (hv : d.aluResult pc a b = v) : d.outcome pc a b old = .compute pc rd v := by
  obtain ⟨hwrite, rfl, hsel⟩ := hrd
  obtain ⟨hread, hstore⟩ := Bool.or_eq_false_iff.mp hmem
  simp only [Ctrl.isJump, Bool.or_eq_false_iff, bne_eq_false_iff_eq] at hjump
  obtain ⟨⟨⟨-, hjalr⟩, hjal⟩, hbranch⟩ := hjump
  simp [Decoded.outcome, Outcome.compute, selectResult, selectAccess, hwrite, hsel, hread, hstore,
    hjalr, hjal, hbranch, hcsr, hv]

theorem decodesTo_arithImm (op : ArithOp) (rd rs1 : Reg) (imm : BitVec 12) :
    DecodesTo (.arithImm op rd rs1 imm) := by
  have hd : riscvDecode (Instr.arithImm op rd rs1 imm).encode = _ :=
    riscvDecode_opImm op.funct3 rd rs1 imm
  have hf := decodeFields_iType opcodeOpImm rs1 rd op.funct3 imm
  constructor
  case rs1 | rs2 => rw [hd, hf]; rfl
  case outcome =>
    intro pc a b old
    rw [hd, hf]
    exact outcome_compute ⟨rfl, rfl, rfl⟩ rfl rfl rfl (riscvAlu_decodeOpImm a _ op _)
  case csrWrite => intros; rw [hd]; rfl
  case plain =>
    rw [hd]
    exact ⟨rfl, rfl, decodeOpImm_not_mulDiv _ _⟩

theorem decodesTo_shiftImm (op : ShiftOp) (rd rs1 : Reg) (shamt : BitVec 5) :
    DecodesTo (.shiftImm op rd rs1 shamt) := by
  have hd : riscvDecode (Instr.shiftImm op rd rs1 shamt).encode = _ :=
    riscvDecode_opImm_shift op.funct7 op.funct3 rd rs1 shamt
  have hf := decodeFields_rType op.funct7 opcodeOpImm shamt rs1 rd op.funct3
  constructor
  case rs1 | rs2 => rw [hd, hf]; rfl
  case outcome =>
    intro pc a b old
    rw [hd, hf]
    refine outcome_compute ⟨rfl, rfl, rfl⟩ rfl rfl rfl ?_
    exact (riscvAlu_shiftImm a ((op.funct7 ++ shamt).signExtend 32) op).trans (by rw [shamt_eq])
  case csrWrite => intros; rw [hd]; rfl
  case plain =>
    rw [hd]
    exact ⟨rfl, rfl, decodeOpImm_not_mulDiv _ _⟩

theorem decodesTo_arith (op : ArithOp) (rd rs1 rs2 : Reg) :
    DecodesTo (.arith op rd rs1 rs2) := by
  have hd : riscvDecode (Instr.arith op rd rs1 rs2).encode = _ :=
    riscvDecode_op 0b0000000#7 op.funct3 rd rs1 rs2
  have hf := decodeFields_rType 0b0000000#7 opcodeOp rs2 rs1 rd op.funct3
  constructor
  case rs1 | rs2 => rw [hd, hf]; rfl
  case outcome =>
    intro pc a b old
    rw [hd, hf]
    exact outcome_compute ⟨rfl, rfl, rfl⟩ rfl rfl rfl (riscvAlu_decodeOp a b op)
  case csrWrite => intros; rw [hd]; rfl
  case plain =>
    rw [hd]
    exact ⟨rfl, rfl, by cases op <;> rfl⟩

theorem decodesTo_sub (rd rs1 rs2 : Reg) : DecodesTo (.sub rd rs1 rs2) := by
  have hd : riscvDecode (Instr.sub rd rs1 rs2).encode = _ :=
    riscvDecode_op 0b0100000#7 0b000#3 rd rs1 rs2
  have hf := decodeFields_rType 0b0100000#7 opcodeOp rs2 rs1 rd 0b000#3
  constructor
  case rs1 | rs2 => rw [hd, hf]; rfl
  case outcome =>
    intro pc a b old
    rw [hd, hf]
    exact outcome_compute ⟨rfl, rfl, rfl⟩ rfl rfl rfl rfl
  case csrWrite => intros; rw [hd]; rfl
  case plain => rw [hd]; exact ⟨rfl, rfl, rfl⟩

theorem decodesTo_shift (op : ShiftOp) (rd rs1 rs2 : Reg) :
    DecodesTo (.shift op rd rs1 rs2) := by
  have hd : riscvDecode (Instr.shift op rd rs1 rs2).encode = _ :=
    riscvDecode_op op.funct7 op.funct3 rd rs1 rs2
  have hf := decodeFields_rType op.funct7 opcodeOp rs2 rs1 rd op.funct3
  constructor
  case rs1 | rs2 => rw [hd, hf]; rfl
  case outcome =>
    intro pc a b old
    rw [hd, hf]
    exact outcome_compute ⟨rfl, rfl, rfl⟩ rfl rfl rfl (riscvAlu_shift a b op)
  case csrWrite => intros; rw [hd]; rfl
  case plain =>
    rw [hd]
    exact ⟨rfl, rfl, by cases op <;> rfl⟩

/-- The two places that decide a CSR write agree with the ISA: the `csr_write` output of the
decoder and the write enable of EX. -/
theorem csrNewValue_eq (op : CsrOp) (pc old a : Word) (rd rs1 : Reg) (addr : BitVec 12) :
    ((csrNewValue op.funct3 rs1 old a).map fun v => (addr, v)) =
      (Outcome.accessCsr pc op rd rs1 addr old a).csr := by
  by_cases h0 : rs1 = 0#5
  · subst h0
    cases op <;> rfl
  · cases op <;> simp [csrNewValue, Outcome.accessCsr, CsrOp.funct3, CsrOp.newValue, h0]

theorem csrNewValue_imm_eq (op : CsrOp) (pc old a : Word) (rd uimm : Reg) (addr : BitVec 12) :
    ((csrNewValue op.immFunct3 uimm old a).map fun v => (addr, v)) =
      (Outcome.accessCsr pc op rd uimm addr old (uimm.setWidth 32)).csr := by
  by_cases h0 : uimm = 0#5
  · subst h0
    cases op <;> rfl
  · cases op <;> simp [csrNewValue, Outcome.accessCsr, CsrOp.immFunct3, CsrOp.newValue, h0]

theorem accessCsr_isSome (op : CsrOp) (pc old src : Word) (rd field : Reg) (addr : BitVec 12) :
    (Outcome.accessCsr pc op rd field addr old src).csr.isSome =
      (op == .rw || field != 0#5) := by
  by_cases h0 : field = 0#5 <;> cases op <;> simp [Outcome.accessCsr, h0]

theorem decodesTo_csr (op : CsrOp) (rd rs1 : Reg) (addr : BitVec 12) :
    DecodesTo (.csr op rd rs1 addr) := by
  have hd : riscvDecode (Instr.csr op rd rs1 addr).encode = _ :=
    riscvDecode_csr op.funct3 rd rs1 addr (by cases op <;> decide)
  have hf := decodeFields_iType opcodeSystem rs1 rd op.funct3 addr
  constructor
  case rs1 | rs2 => rw [hd, hf]; cases op <;> rfl
  case outcome =>
    intro pc a b old
    have hcsr := csrNewValue_eq op pc old a rd rs1 addr
    rw [hd, hf, Instr.exec]
    cases op <;> exact Outcome.ext rfl rfl rfl hcsr
  case csrWrite =>
    intro pc a b old
    rw [hd, hf]
    refine Eq.trans ?_ (accessCsr_isSome op pc old a rd rs1 addr).symm
    cases op <;> rfl
  case plain =>
    rw [hd, hf]
    cases op <;> exact ⟨rfl, rfl, rfl⟩

theorem decodesTo_csrImm (op : CsrOp) (rd uimm : Reg) (addr : BitVec 12) :
    DecodesTo (.csrImm op rd uimm addr) := by
  have hd : riscvDecode (Instr.csrImm op rd uimm addr).encode = _ :=
    riscvDecode_csr op.immFunct3 rd uimm addr (by cases op <;> decide)
  have hf := decodeFields_iType opcodeSystem uimm rd op.immFunct3 addr
  constructor
  case rs1 | rs2 => rw [hd, hf]; cases op <;> rfl
  case outcome =>
    intro pc a b old
    have hcsr := csrNewValue_imm_eq op pc old a rd uimm addr
    rw [hd, hf, Instr.exec]
    cases op <;> exact Outcome.ext rfl rfl rfl hcsr
  case csrWrite =>
    intro pc a b old
    rw [hd, hf]
    refine Eq.trans ?_ (accessCsr_isSome op pc old (uimm.setWidth 32) rd uimm addr).symm
    cases op <;> rfl
  case plain =>
    rw [hd, hf]
    cases op <;> exact ⟨rfl, rfl, rfl⟩

/-- **Every encoded instruction decodes to what the ISA defines.** -/
theorem decodesTo (i : Instr) : DecodesTo i := by
  cases i with
  | lui rd imm => exact decodesTo_lui rd imm
  | auipc rd imm => exact decodesTo_auipc rd imm
  | jal rd offset => exact decodesTo_jal rd offset
  | jalr rd rs1 offset => exact decodesTo_jalr rd rs1 offset
  | branch cond rs1 rs2 offset => exact decodesTo_branch cond rs1 rs2 offset
  | load op rd rs1 offset => exact decodesTo_load op rd rs1 offset
  | store width rs1 rs2 offset => exact decodesTo_store width rs1 rs2 offset
  | arithImm op rd rs1 imm => exact decodesTo_arithImm op rd rs1 imm
  | shiftImm op rd rs1 shamt => exact decodesTo_shiftImm op rd rs1 shamt
  | arith op rd rs1 rs2 => exact decodesTo_arith op rd rs1 rs2
  | sub rd rs1 rs2 => exact decodesTo_sub rd rs1 rs2
  | shift op rd rs1 rs2 => exact decodesTo_shift op rd rs1 rs2
  | csr op rd rs1 addr => exact decodesTo_csr op rd rs1 addr
  | csrImm op rd uimm addr => exact decodesTo_csrImm op rd uimm addr

/-! ## The EX stage

`Pipe.Holds` connects a state of the pipeline with an instruction and its operands, and
`pipeNext_holds` shows that an instruction which moves from ID to EX establishes it. That the
operands are the right registers is not decided here but in `Operands`. -/

/-- ID/EX holds instruction `instr` of address `pc` as the decoder put it there, with `old`
read from its CSR, and the forwarding muxes show `a` and `b`. -/
structure Pipe.Holds (p : Pipe) (instr pc a b old : Word) : Prop where
  valid : p.idEx.valid = true
  ctrlEq : p.idEx.ctrl = (riscvDecode instr).ctrl
  immEq : p.idEx.imm = (riscvDecode instr).imm
  pcEq : p.idEx.pc = pc
  pc4Eq : p.idEx.pc4 = pc + 4#32
  targetEq : p.idEx.redirectTarget = pc + (riscvDecode instr).imm
  csrOldEq : p.idEx.csrOld = old
  srcA : exForwardAData p = a
  srcB : exForwardBData p = b

/-- What EX hands on in a cycle: the register result and the access that EX/MEM takes over,
the address after the instruction and the CSR write. -/
def exOutcome (c : Config) (p : Pipe) (dmemReady : Bool) : Outcome :=
  let m := exMemNext c p dmemReady
  { rd := if m.regWrite then some (m.rd, selectResult m.wbSel m.pc4 m.aluResult m.csrOld) else none
    mem := selectAccess m.memRead m.memWrite m.memSize m.memUnsigned m.aluResult m.storeData
    nextPc := (exRedirect c p dmemReady).getD p.idEx.pc4
    csr := (exCsrWrite p dmemReady).map fun v => (p.idEx.ctrl.csrAddr, v) }

variable {n : ℕ} {c : Config} {p : Pipe} {r : Bool}

/-- A clock edge that moves IF/ID into ID/EX makes ID/EX hold the instruction. -/
theorem pipeNext_holds {x : PipeIn n} (hv : p.ifId.valid = true)
    (hs : memStall p x.dmemReady = false) (hflush : idExFlushCtrl c p x.dmemReady = false)
    (hstall : stallIf p = false) :
    (pipeNext c p x).Holds p.ifId.instr p.ifId.pc (exForwardAData (pipeNext c p x))
      (exForwardBData (pipeNext c p x)) (p.csr.read (riscvDecode p.ifId.instr).ctrl.csrAddr) := by
  have hnext : (pipeNext c p x).idEx =
      { idExCapture p with
        valid := p.ifId.valid
        forwardASel := idForwardASel p
        forwardBSel := idForwardBSel p
        ctrl := (idDecoded p).ctrl } := by
    change idExNext c p x.dmemReady = _
    rw [idExNext, if_neg (by simp [hs]), if_neg (by simp [hflush]), if_neg (by simp [hstall])]
  have hcapture : idExCapture p = { p.idEx with
      pc := p.ifId.pc, pc4 := p.ifId.pc + 4#32, rs1Data := idRs1Data p, rs2Data := idRs2Data p,
      imm := (idDecoded p).imm, redirectTarget := idRedirectTarget p, csrOld := idCsrOld p } := by
    rw [idExCapture, if_neg (by simp [hstall])]
  rw [hcapture] at hnext
  exact
    { valid := (congrArg IdEx.valid hnext).trans hv
      ctrlEq := congrArg IdEx.ctrl hnext
      immEq := congrArg IdEx.imm hnext
      pcEq := congrArg IdEx.pc hnext
      pc4Eq := congrArg IdEx.pc4 hnext
      targetEq := congrArg IdEx.redirectTarget hnext
      csrOldEq := congrArg IdEx.csrOld hnext
      srcA := rfl
      srcB := rfl }

/-- The WB stage writes back what `selectResult` names. -/
theorem wbData_next {x : PipeIn n} (hs : memStall p x.dmemReady = false) :
    wbData (pipeNext c p x) =
      match selectResult p.exMem.wbSel p.exMem.pc4 p.exMem.aluResult p.exMem.csrOld with
      | .value v => v
      | .loaded => memLoadData p x.dmemReadData := by
  have hnext : (pipeNext c p x).memWb = memWbNext p x := rfl
  rw [wbData, hnext, memWbNext, if_neg (by simp [hs])]
  cases p.exMem.wbSel <;> rfl

section holds

variable {instr pc a b old : Word} (h : p.Holds instr pc a b old)

include h

theorem Pipe.Holds.aluResult (hop : (riscvDecode instr).ctrl.isMulDiv = false) :
    exAluResult p = (riscvDecode instr).aluResult pc a b := by
  obtain ⟨hmul, hdiv⟩ := Bool.or_eq_false_iff.mp hop
  rw [exAluResult, divIsOp, mulIsOp, h.ctrlEq, if_neg (by simp [hdiv]), if_neg (by simp [hmul]),
    Decoded.aluResult, exAluSrcA, exAluSrcB, h.ctrlEq, h.immEq, h.pcEq, h.srcA, h.srcB]

theorem Pipe.Holds.fires (hop : (riscvDecode instr).ctrl.isMulDiv = false)
    (hs : memStall p r = false) : exFires p r = true := by
  obtain ⟨hmul, hdiv⟩ := Bool.or_eq_false_iff.mp hop
  refine exFires_eq_true.mpr ⟨hs, ?_, h.valid⟩
  simp [mStall, mulStall, divStall, mulIsOp, divIsOp, h.ctrlEq, hmul, hdiv]

/-- The redirect, or else the link address, is the next pc of the instruction. -/
theorem Pipe.Holds.redirect (hfires : exFires p r = true)
    (hmret : (riscvDecode instr).ctrl.isMret = false) :
    (exRedirect c p r).getD p.idEx.pc4 =
      if (exTrap c p r).isSome then trapVector p.csr.mtvec
      else ((riscvDecode instr).outcome pc a b old).nextPc := by
  rw [exRedirect, if_pos hfires, exBranchCond, h.srcA, h.srcB, h.ctrlEq, h.immEq, h.targetEq,
    h.pc4Eq]
  simp only [Decoded.outcome, hmret, Bool.false_eq_true, if_false]
  split_ifs <;> rfl

theorem Pipe.Holds.csrWrite (hfires : exFires p r = true) :
    ((exCsrWrite p r).map fun v => (p.idEx.ctrl.csrAddr, v)) =
      ((riscvDecode instr).outcome pc a b old).csr := by
  rw [exCsrWrite, hfires, Bool.true_and, h.srcA, h.csrOldEq, h.ctrlEq, Decoded.outcome]
  split_ifs <;> rfl

/-- What EX hands on is what the datapath computes, redirected to the handler by a trap. -/
theorem Pipe.Holds.exOutcome_eq (hop : (riscvDecode instr).ctrl.isMulDiv = false)
    (hmret : (riscvDecode instr).ctrl.isMret = false) (hs : memStall p r = false) :
    exOutcome c p r =
      if (exTrap c p r).isSome then
        { (riscvDecode instr).outcome pc a b old with nextPc := trapVector p.csr.mtvec }
      else (riscvDecode instr).outcome pc a b old := by
  have hfires := h.fires hop hs
  have hpc := h.redirect (c := c) hfires hmret
  have hcsr := h.csrWrite hfires
  have hm : exMemNext c p r = _ := if_neg (by simp [hs])
  have hrd : (exOutcome c p r).rd = ((riscvDecode instr).outcome pc a b old).rd := by
    rw [exOutcome, hm, h.ctrlEq, h.pc4Eq, h.csrOldEq, h.aluResult hop]
    rfl
  have hmem : (exOutcome c p r).mem = ((riscvDecode instr).outcome pc a b old).mem := by
    rw [exOutcome, hm, h.ctrlEq, exStoreData, h.srcB, h.aluResult hop]
    rfl
  split_ifs with ht
  · rw [if_pos ht] at hpc
    exact Outcome.ext hrd hmem hpc hcsr
  · rw [if_neg ht] at hpc
    exact Outcome.ext hrd hmem hpc hcsr

end holds

/-- Alignment is a matter of the two low address bits. -/
theorem low_mod_bytes (width : Width) (addr : Word) :
    (addr.extractLsb' 0 2).toNat % width.bytes = addr.toNat % width.bytes := by
  have hdvd : width.bytes ∣ 2 ^ 2 := by
    cases width <;> decide
  rw [BitVec.extractLsb'_toNat, Nat.shiftRight_zero]
  exact Nat.mod_mod_of_dvd _ hdvd

/-- The alignment check on the low address bits is the one of the ISA. -/
theorem misaligned_eq_false (size : BitVec 2) (hsize : size ≠ 3#2) (addr : Word) :
    misaligned size (addr.extractLsb' 0 2) = false ↔
      addr.toNat % (widthOf size).bytes = 0 := by
  have hcases : ∀ size lo : BitVec 2, size ≠ 3#2 →
      (misaligned size lo = false ↔ lo.toNat % (widthOf size).bytes = 0) := by decide
  rw [← low_mod_bytes]
  exact hcases size _ hsize

/-- An instruction other than `ECALL` and `EBREAK` raises an exception exactly when its access
is not aligned or outside the checked bounds. -/
theorem exSyncTrap_eq_none (hd : p.idEx.ctrl.Coherent) (henv : p.idEx.ctrl.isEnvCall = false) :
    exSyncTrap c p = none ↔
      ∀ op ∈ selectAccess p.idEx.ctrl.memRead p.idEx.ctrl.memWrite p.idEx.ctrl.memSize
          p.idEx.ctrl.memUnsigned (exAluResult p) (exStoreData p),
        op.Aligned ∧ accessFault c op.addr = false := by
  obtain ⟨hecall, hebreak⟩ := Bool.or_eq_false_iff.mp henv
  cases hmem : p.idEx.ctrl.isMem with
  | false =>
    obtain ⟨hread, hwrite⟩ := Bool.or_eq_false_iff.mp hmem
    simp [exSyncTrap, selectAccess, exMisalignLoad, exMisalignStore, exAccessLoad, exAccessStore,
      hecall, hebreak, hread, hwrite]
  | true =>
    obtain ⟨-, -, -, -, hsize, -⟩ := hd.mem hmem
    have hal := misaligned_eq_false p.idEx.ctrl.memSize hsize (exAluResult p)
    have hlo := exAddrLo_eq hd hmem
    rw [← hlo] at hal
    have hchecks : ∀ (mis fault : Bool) (t u : Word × Word),
        (if mis = true then some t else if fault = true ∧ mis = false then some u else none) =
          none ↔ mis = false ∧ fault = false := by
      intro mis fault t u
      cases mis <;> cases fault <;> simp
    simp only [exSyncTrap, exMisalignLoad, exMisalignStore, exAccessLoad, exAccessStore, hecall,
      hebreak, Bool.false_eq_true, if_false]
    rcases Bool.eq_false_or_eq_true p.idEx.ctrl.memRead with hread | hread
    · have hwrite := hd.load_not_store hread
      simp [selectAccess, hread, hwrite, MemOp.Aligned, MemOp.addr, ← hal, hchecks]
    · have hwrite : p.idEx.ctrl.memWrite = true := by simpa [Ctrl.isMem, hread] using hmem
      simp [selectAccess, hread, hwrite, MemOp.Aligned, MemOp.addr, ← hal, hchecks]

/-- **Decode and execute agree with the ISA.** -/
theorem execute_agrees_isa (c : Config) (p : Pipe) (dmemReady : Bool) (i : Instr)
    (pc a b old : Word) (h : p.Holds i.encode pc a b old)
    (hs : memStall p dmemReady = false) :
    p.idEx.ctrl.usedRs1 = i.rs1 ∧ p.idEx.ctrl.usedRs2 = i.rs2 ∧
      exOutcome c p dmemReady =
        (if (exTrap c p dmemReady).isSome then
          { i.exec pc a b old with nextPc := trapVector p.csr.mtvec }
        else i.exec pc a b old) ∧
      p.idEx.ctrl.csrWrite = (i.exec pc a b old).csr.isSome ∧
      (exMemNext c p dmemReady).valid = (exTrap c p dmemReady).isNone ∧
      (exSyncTrap c p = none ↔
        ∀ op ∈ (i.exec pc a b old).mem, op.Aligned ∧ accessFault c op.addr = false) := by
  obtain ⟨hrs1, hrs2, hexec, hcsr, hmret, henv, hop⟩ := decodesTo i
  have hmem : (i.exec pc a b old).mem = _ := congrArg Outcome.mem (hexec pc a b old).symm
  refine ⟨?_, ?_, ?_, ?_, ?_, ?_⟩
  · rw [h.ctrlEq, hrs1]
  · rw [h.ctrlEq, hrs2]
  · rw [h.exOutcome_eq hop hmret hs, hexec]
  · rw [h.ctrlEq, hcsr]
  · obtain ⟨-, hm, -⟩ := exFires_eq_true.mp (h.fires hop hs)
    rw [exMemNext, if_neg (by simp [hs])]
    simp [h.valid, h.ctrlEq, hmret, hm]
  · have hd : p.idEx.ctrl.Coherent := h.ctrlEq ▸ riscvDecode_coherent i.encode
    rw [exSyncTrap_eq_none hd (by rw [h.ctrlEq, henv]), hmem, h.aluResult hop, exStoreData, h.srcB,
      h.ctrlEq]
    rfl

/-- ID/EX with `BLT x1, x2, -8` at address `0x100`, taken. -/
def bltPipe : Pipe where
  idEx :=
    { valid := true
      pc := 0x100#32
      pc4 := 0x104#32
      rs1Data := 0xffffffff#32
      rs2Data := 1#32
      imm := (riscvDecode (Instr.branch .blt 1#5 2#5 (-4)).encode).imm
      redirectTarget := 0x0f8#32
      ctrl := (riscvDecode (Instr.branch .blt 1#5 2#5 (-4)).encode).ctrl }

/-- The signed comparison takes the branch eight bytes back. -/
theorem execute_agrees_isa_blt :
    bltPipe.Holds (Instr.branch .blt 1#5 2#5 (-4)).encode 0x100#32 0xffffffff#32 1#32 0#32 ∧
      (exOutcome {} bltPipe true).nextPc = 0x0f8#32 := by
  have h : bltPipe.Holds (Instr.branch .blt 1#5 2#5 (-4)).encode 0x100#32 0xffffffff#32 1#32
      0#32 := by
    constructor <;> decide
  refine ⟨h, ?_⟩
  obtain ⟨-, -, hout, -⟩ := execute_agrees_isa {} bltPipe true _ _ _ _ _ h (by decide)
  rw [hout]
  decide

end RiscvV2
