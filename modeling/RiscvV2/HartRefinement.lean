import RiscvV2.Hart
import RiscvV2.StraightLine
import RiscvV2.ByteMemory
import RiscvV2.Completeness

/-!
# The core is a hart

The sequential machine executes decoder outputs on a word memory; a hart executes operations
on bytes. Here the first is shown to refine the second, operation by operation, exceptions
included. Together with the refinement and the completeness of the pipeline this takes the
pipeline, with forwarding, stalls and memory latencies, to the architecture.

The work is one step of one instruction. There the decoder fields are those of the instruction
(`Execute`), the access is one of the load/store unit and so one to bytes (`ByteMemory`), and
the checks of EX are the exceptions of the hart. Multiplications, divisions and the operations
without operands are separate cases. Runs follow by induction, for as long as the program has an
operation at the pc.

The CSRs are not specified a second time. They are the choice of the platform, and the platform
here is the core's own CSR file.
-/

namespace RiscvV2

open Rv32 (Reg Instr Op MulDivOp MemOp Outcome Platform Hart Program RegFile Exception ByteMem)

/-! ## The core as a platform -/

/-- The choices of the core. A trap and a return see `MIE` and `MPIE` as they were before. -/
def corePlatform (c : Config) : Platform Csr where
  read := Csr.read
  write := Csr.write c.numExtInterrupts
  trap s := s.trap s.mstatusMie
  mret s := s.mret s.mstatusMpie
  handler s := trapVector s.mtvec
  resume := Csr.mepc
  fault := accessFault c

/-- The hart that a state of the sequential machine stands for. -/
def ArchState.hart (s : ArchState) : Hart Csr where
  pc := s.pc
  regs := ⟨s.regs, s.zero⟩
  mem := s.mem.bytes
  csr := s.csr

/-- The hart before the first instruction. -/
def hartReset (c : Config) (mem : DataMem) : Hart Csr := (ArchState.reset c mem).hart

/-! ## Register writes -/

/-- The register write of a write port is a write to the register file. -/
theorem regWriteOf_apply (r : RegFile) (rd : Reg) (v : Word) :
    (regWriteOf true rd v).toList.foldl RegWrite.apply r.get = (r.set rd v).get := by
  funext x
  rw [regWriteOf, RegFile.set]
  by_cases hrd : rd = 0#5
  · simp [hrd]
  · simp [hrd, RegWrite.apply]

/-! ## Instructions

The three effects of an outcome, each compared on its own: the access with its exception, the
value written back, and the CSR update. -/

section instr

variable {c : Config} {d : Decoded} {pc a b old : Word} {csr : Csr} {mem : DataMem}

/-- The alignment check sees the low address bits only. -/
theorem exception_load {memSize : BitVec 2} (hsize : memSize ≠ 3#2) (fault : Word → Bool)
    (memUnsigned : Bool) (addr : Word) :
    (MemOp.load (widthOf memSize) memUnsigned addr).exception fault =
      if misaligned memSize (addr.extractLsb' 0 2) then some .loadMisaligned
      else if fault addr then some .loadFault else none := by
  have hal : (MemOp.load (widthOf memSize) memUnsigned addr).Aligned ↔ _ :=
    (misaligned_eq_false memSize hsize addr).symm
  exact if_congr (hal.not.trans (Bool.not_eq_false _).to_iff) rfl rfl

theorem exception_store {memSize : BitVec 2} (hsize : memSize ≠ 3#2) (fault : Word → Bool)
    (addr data : Word) :
    (MemOp.store (widthOf memSize) addr data).exception fault =
      if misaligned memSize (addr.extractLsb' 0 2) then some .storeMisaligned
      else if fault addr then some .storeFault else none := by
  have hal : (MemOp.store (widthOf memSize) addr data).Aligned ↔ _ :=
    (misaligned_eq_false memSize hsize addr).symm
  exact if_congr (hal.not.trans (Bool.not_eq_false _).to_iff) rfl rfl

/-- The checks of EX raise the exception of the access. -/
theorem instrTrap_eq (hd : d.ctrl.Coherent) (henv : d.ctrl.isEnvCall = false) (addr b : Word) :
    instrTrap c d.ctrl pc addr =
      ((selectAccess d.ctrl.memRead d.ctrl.memWrite d.ctrl.memSize d.ctrl.memUnsigned addr
          b).bind fun op => (op.exception (accessFault c)).map fun e => (e.cause, op.addr)) := by
  obtain ⟨hecall, hebreak⟩ := Bool.or_eq_false_iff.mp henv
  cases hmem : d.ctrl.isMem with
  | false =>
    obtain ⟨hread, hwrite⟩ := Bool.or_eq_false_iff.mp hmem
    rw [instrTrap_eq_none henv hmem, selectAccess_eq_none.mpr ⟨hread, hwrite⟩]
    rfl
  | true =>
    obtain ⟨-, -, -, -, hsize, -⟩ := hd.mem hmem
    rcases Bool.eq_false_or_eq_true d.ctrl.memRead with hread | hread
    · have hwrite := hd.load_not_store hread
      simp only [instrTrap, hecall, hebreak, hread, hwrite, selectAccess, if_true,
        Option.bind_some, exception_load hsize, MemOp.addr]
      cases misaligned d.ctrl.memSize (addr.extractLsb' 0 2) <;> cases accessFault c addr <;> rfl
    · have hwrite : d.ctrl.memWrite = true := by simpa [Ctrl.isMem, hread] using hmem
      simp only [instrTrap, hecall, hebreak, hread, hwrite, selectAccess, if_true,
        Bool.false_eq_true, if_false, Option.bind_some, exception_store hsize, MemOp.addr]
      cases misaligned d.ctrl.memSize (addr.extractLsb' 0 2) <;> cases accessFault c addr <;> rfl

theorem aligned_of_exception {fault : Word → Bool} {op : MemOp} (h : op.exception fault = none) :
    op.Aligned := by
  by_contra hal
  cases op with
  | load | store =>
    rw [MemOp.exception, if_pos hal] at h
    cases h

/-- An access without exception is an operation of the load/store unit. -/
theorem lsuAligned_of_selectAccess (hd : d.ctrl.Coherent) (hmem : d.ctrl.isMem = true)
    {addr : Word} (hal : ∀ op ∈ selectAccess d.ctrl.memRead d.ctrl.memWrite d.ctrl.memSize
      d.ctrl.memUnsigned addr b, op.Aligned) :
    (⟨d.ctrl.memSize, d.ctrl.memUnsigned, addr, d.ctrl.memWrite, b⟩ : LsuOp).Aligned := by
  obtain ⟨-, -, -, -, hsize, -⟩ := hd.mem hmem
  refine ⟨hsize, ?_⟩
  rcases Bool.eq_false_or_eq_true d.ctrl.memRead with hread | hread
  · exact hal (.load _ d.ctrl.memUnsigned _) (by simp [selectAccess, hread])
  · have hwrite : d.ctrl.memWrite = true := by simpa [Ctrl.isMem, hread] using hmem
    exact hal (.store _ _ b) (by simp [selectAccess, hread, hwrite])

variable (h : Hart Csr)

/-- The access of an instruction does to the bytes what the outcome says. -/
theorem storeTo_outcome (hd : d.ctrl.Coherent) (hop : h.mem = mem.bytes)
    (hal : ∀ op ∈ (d.outcome pc a b old).mem, op.Aligned) :
    ((instrAccess d.ctrl (d.aluResult pc a b) b).toList.foldl DataMem.access mem).bytes =
      h.storeTo (d.outcome pc a b old) := by
  cases hmem : d.ctrl.isMem with
  | false =>
    have hnone : selectAccess d.ctrl.memRead d.ctrl.memWrite d.ctrl.memSize d.ctrl.memUnsigned
        (d.aluResult pc a b) b = none :=
      selectAccess_eq_none.mpr (Bool.or_eq_false_iff.mp hmem)
    rw [instrAccess, hmem, Hart.storeTo, Decoded.outcome, hnone, hop]
    rfl
  | true =>
    have hlsu := lsuAligned_of_selectAccess hd hmem hal
    have hnext := LsuOp.bytes_next hlsu mem
    rw [instrAccess, if_pos hmem, Option.toList_some, List.foldl_cons, List.foldl_nil,
      DataMem.access, Hart.storeTo, Decoded.outcome, hop]
    rcases Bool.eq_false_or_eq_true d.ctrl.memRead with hread | hread
    · have hwrite := hd.load_not_store hread
      simp only [hread, hwrite, selectAccess, if_true, Bool.false_eq_true, if_false]
    · have hwrite : d.ctrl.memWrite = true := by simpa [Ctrl.isMem, hread] using hmem
      rw [LsuOp.byteNext] at hnext
      simp only [hwrite, if_true] at hnext
      simp only [hread, hwrite, selectAccess, if_true, Bool.false_eq_true, if_false]
      exact hnext

/-- So does the value written back, a loaded one included. -/
theorem writeBack_outcome (hd : d.ctrl.Coherent) (hmem : h.mem = mem.bytes)
    (hold : csr.read d.ctrl.csrAddr = old)
    (hal : ∀ op ∈ (d.outcome pc a b old).mem, op.Aligned) :
    (regWriteOf d.ctrl.regWrite d.ctrl.rd
        (instrValue d.ctrl pc (d.aluResult pc a b) csr mem)).toList.foldl
        RegWrite.apply h.regs.get =
      (h.writeBack (d.outcome pc a b old)).get := by
  cases hwrite : d.ctrl.regWrite with
  | false =>
    rw [Hart.writeBack, Decoded.outcome, hwrite]
    rfl
  | true =>
    rw [Hart.writeBack, Decoded.outcome, hwrite, instrValue, ← hold]
    cases hsel : d.ctrl.wbSel with
    | alu | pc4 | csr => exact regWriteOf_apply _ _ _
    | load =>
      have hread := (hd.load hwrite).mp hsel
      have hisMem : d.ctrl.isMem = true := by rw [Ctrl.isMem, hread, Bool.true_or]
      obtain ⟨hsize, hlow⟩ := lsuAligned_of_selectAccess hd hisMem hal
      rw [if_pos rfl, lsuLoadData_eq hsize hlow, ← hmem]
      simp only [hread, selectAccess, selectResult, if_true, Hart.loaded]
      exact regWriteOf_apply _ _ _

theorem csr_outcome {n : ℕ} (hmret : d.ctrl.isMret = false)
    (hold : csr.read d.ctrl.csrAddr = old) :
    (instrCsrUpdate d.ctrl pc a csr none).toList.foldl (CsrUpdate.apply n) csr =
      (d.outcome pc a b old).csr.elim csr fun w => csr.write n w.1 w.2 := by
  rw [instrCsrUpdate, hmret, Decoded.outcome, hold]
  cases d.ctrl.csrRead with
  | false => rfl
  | true =>
    simp only [Bool.false_eq_true, if_false, if_true]
    cases csrNewValue d.ctrl.funct3 d.ctrl.rs1 old a with
    | none | some => rfl

end instr

/-! ## Multiplications and divisions -/

/-- The results of the multicycle units are those of the M extension. -/
theorem rv32mResult_decodeOp (op : MulDivOp) (a b : Word) :
    rv32mResult (decodeOp 0b0000001#7 op.funct3) a b = op.eval a b := by
  have hones : (0xffffffff#32 : Word) = BitVec.allOnes 32 := by decide
  cases op with
  | mul =>
    have hmul : rv32mResult .mul a b = _ := BitVec.ofInt_mul a.toInt b.toInt
    rw [BitVec.ofInt_toInt, BitVec.ofInt_toInt] at hmul
    exact hmul
  | mulh | mulhsu | mulhu => rfl
  | div =>
    refine if_congr Iff.rfl hones ?_
    refine BitVec.eq_of_toInt_eq ?_
    rw [BitVec.toInt_ofInt, BitVec.toInt_sdiv]
  | divu =>
    refine if_congr Iff.rfl hones ?_
    refine BitVec.eq_of_toNat_eq ?_
    have hlt := Nat.lt_of_le_of_lt (Nat.div_le_self a.toNat b.toNat) a.isLt
    rw [BitVec.toNat_ofNat, Nat.mod_eq_of_lt hlt]
    exact BitVec.toNat_udiv.symm
  | rem =>
    refine if_congr Iff.rfl rfl ?_
    rw [← BitVec.toInt_srem, BitVec.ofInt_toInt]
  | remu =>
    refine if_congr Iff.rfl rfl ?_
    refine BitVec.eq_of_toNat_eq ?_
    have hlt := Nat.lt_of_le_of_lt (Nat.mod_le a.toNat b.toNat) a.isLt
    rw [BitVec.toNat_ofNat, Nat.mod_eq_of_lt hlt]
    exact BitVec.toNat_umod.symm

/-! ## One step

A step of the machine is an effect applied to its state. The hart agrees with it field by field,
with the data memory read as bytes. -/

section step

variable {c : Config} {imem : Word → Word} (s : ArchState)

/-- The state after an effect, field by field. -/
theorem hart_step_ext {e : Effect} {h : Hart Csr} (he : s.effect c imem = e)
    (hpc : e.nextPc = h.pc)
    (hregs : e.regWrite.toList.foldl RegWrite.apply s.regs = h.regs.get)
    (hmem : (e.access.toList.foldl DataMem.access s.mem).bytes = h.mem)
    (hcsr : e.csrUpdate.toList.foldl (CsrUpdate.apply c.numExtInterrupts) s.csr = h.csr) :
    (s.step c imem).hart = h := by
  subst he
  exact Hart.ext hpc (RegFile.ext hregs) hmem hcsr

theorem csrAddr_eq {i : Instr} {addr : BitVec 12} (h : addr ∈ i.csrAddr) :
    (riscvDecode i.encode).ctrl.csrAddr = addr := by
  cases i with
  | csr op rd rs1 addr' =>
    obtain rfl := Option.some.inj h
    have hd : riscvDecode (Instr.csr op rd rs1 addr').encode = _ :=
      riscvDecode_csr op.funct3 rd rs1 addr' (by cases op <;> decide)
    rw [hd, decodeFields_iType]
    cases op <;> rfl
  | csrImm op rd uimm addr' =>
    obtain rfl := Option.some.inj h
    have hd : riscvDecode (Instr.csrImm op rd uimm addr').encode = _ :=
      riscvDecode_csr op.immFunct3 rd uimm addr' (by cases op <;> decide)
    rw [hd, decodeFields_iType]
    cases op <;> rfl
  | _ => cases h

/-- The datapath computes the outcome that the hart sees. -/
theorem outcome_hart (i : Instr) :
    (riscvDecode i.encode).outcome s.pc (s.regs (riscvDecode i.encode).ctrl.rs1)
        (s.regs (riscvDecode i.encode).ctrl.rs2)
        (s.csr.read (riscvDecode i.encode).ctrl.csrAddr) =
      s.hart.outcome (corePlatform c) i := by
  rw [(decodesTo i).outcome, Hart.outcome]
  refine i.exec_operands (fun hrs1 => ?_) (fun hrs2 => ?_) (fun haddr => ?_)
  · obtain ⟨r, hr⟩ := Option.isSome_iff_exists.mp hrs1
    rw [usedRs1_eq hr, hr]
    rfl
  · obtain ⟨r, hr⟩ := Option.isSome_iff_exists.mp hrs2
    rw [usedRs2_eq hr, hr]
    rfl
  · obtain ⟨addr, ha⟩ := Option.isSome_iff_exists.mp haddr
    rw [csrAddr_eq ha, ha]
    rfl

/-- **An instruction**: the step of the machine is the one of the hart. -/
theorem hart_step_instr {i : Instr} (himem : imem s.pc = i.encode) :
    (s.step c imem).hart = s.hart.exec (corePlatform c) (.instr i) := by
  obtain ⟨-, -, -, -, hmret, henv, hop⟩ := decodesTo i
  have hd := riscvDecode_coherent i.encode
  have ho := outcome_hart (c := c) s i
  obtain ⟨old, hold⟩ : ∃ old, s.csr.read (riscvDecode i.encode).ctrl.csrAddr = old := ⟨_, rfl⟩
  rw [hold] at ho
  have heffect : s.effect c imem =
      instrEffect c (riscvDecode i.encode) s.pc (s.regs (riscvDecode i.encode).ctrl.rs1)
        (s.regs (riscvDecode i.encode).ctrl.rs2) s.csr s.mem := by
    rw [Seq.effect, himem]
  generalize riscvDecode i.encode = d at *
  generalize s.regs d.ctrl.rs1 = a at *
  generalize s.regs d.ctrl.rs2 = b at *
  have htrap : instrTrap c d.ctrl s.pc (d.aluResult s.pc a b) =
      (Hart.exception (corePlatform c) (d.outcome s.pc a b old)).map
        fun t => (t.1.cause, t.2) := by
    rw [instrTrap_eq hd henv _ b, Hart.exception, Option.map_bind]
    simp only [Function.comp_def, Option.map_map]
    rfl
  rw [Hart.exec, ← ho]
  cases hexc : Hart.exception (corePlatform c) (d.outcome s.pc a b old) with
  | some t =>
    rw [hexc] at htrap
    have he : s.effect c imem =
        ⟨trapVector s.csr.mtvec, none, none, some (.trap s.pc t.1.cause t.2)⟩ := by
      rw [heffect, instrEffect, instrResult_eq hop, htrap]
      rfl
    exact hart_step_ext s he rfl rfl rfl rfl
  | none =>
    rw [hexc] at htrap
    have hal : ∀ op ∈ (d.outcome s.pc a b old).mem, op.Aligned := by
      intro op hmem
      rw [Hart.exception, hmem, Option.bind_some, Option.map_eq_none_iff] at hexc
      exact aligned_of_exception hexc
    have he : s.effect c imem =
        ⟨instrNextPc d.ctrl s.pc d.imm a b s.csr none,
          regWriteOf d.ctrl.regWrite d.ctrl.rd
            (instrValue d.ctrl s.pc (d.aluResult s.pc a b) s.csr s.mem),
          instrAccess d.ctrl (d.aluResult s.pc a b) b,
          instrCsrUpdate d.ctrl s.pc a s.csr none⟩ := by
      rw [heffect, instrEffect, instrResult_eq hop, htrap]
      rfl
    refine hart_step_ext s he ?_ ?_ ?_ ?_
    · exact instrNextPc_eq old hmret
    · exact writeBack_outcome s.hart hd rfl hold hal
    · exact storeTo_outcome s.hart hd rfl hal
    · exact csr_outcome hmret hold

theorem hart_step_mulDiv {op : MulDivOp} {rd rs1 rs2 : Reg}
    (himem : imem s.pc = (Op.mulDiv op rd rs1 rs2).encode) :
    (s.step c imem).hart = s.hart.exec (corePlatform c) (.mulDiv op rd rs1 rs2) := by
  have hd : riscvDecode (Op.mulDiv op rd rs1 rs2).encode = _ :=
    riscvDecode_op 0b0000001#7 op.funct3 rd rs1 rs2
  have hf := decodeFields_rType 0b0000001#7 opcodeOp rs2 rs1 rd op.funct3
  have hresult := rv32mResult_decodeOp op (s.regs rs1) (s.regs rs2)
  have he : s.effect c imem =
      ⟨s.pc + 4#32, regWriteOf true rd (op.eval (s.regs rs1) (s.regs rs2)), none, none⟩ := by
    rw [Seq.effect, himem, hd, hf, ← hresult]
    cases op <;> rfl
  exact hart_step_ext s he rfl (regWriteOf_apply s.hart.regs _ _) rfl rfl

/-- The words of the system instructions and fences. -/
theorem hart_step_system {op : Op} (himem : imem s.pc = op.encode)
    (hop : op = .ecall ∨ op = .ebreak ∨ op = .mret ∨ op = .wfi) :
    (s.step c imem).hart = s.hart.exec (corePlatform c) op := by
  rcases hop with rfl | rfl | rfl | rfl
  · have he : s.effect c imem =
        ⟨trapVector s.csr.mtvec, none, none, some (.trap s.pc causeEcallM 0#32)⟩ := by
      rw [Seq.effect, himem]
      rfl
    exact hart_step_ext s he rfl rfl rfl rfl
  · have he : s.effect c imem =
        ⟨trapVector s.csr.mtvec, none, none, some (.trap s.pc causeBreakpoint s.pc)⟩ := by
      rw [Seq.effect, himem]
      rfl
    exact hart_step_ext s he rfl rfl rfl rfl
  · have he : s.effect c imem = ⟨s.csr.mepc, none, none, some .mret⟩ := by
      rw [Seq.effect, himem]
      rfl
    exact hart_step_ext s he rfl rfl rfl rfl
  · have he : s.effect c imem = ⟨s.pc + 4#32, none, none, none⟩ := by
      rw [Seq.effect, himem]
      rfl
    exact hart_step_ext s he rfl rfl rfl rfl

/-- A fence has an opcode that the decoder leaves at its defaults. -/
theorem hart_step_fence {imm : BitVec 12} {rd rs1 : Reg} {funct3 : BitVec 3}
    (himem : imem s.pc = Rv32.iType imm rs1 funct3 rd 0b0001111#7) :
    (s.step c imem).hart = { s.hart with pc := s.pc + 4#32 } := by
  have hd : riscvDecode (Rv32.iType imm rs1 funct3 rd 0b0001111#7) =
      ⟨decodeFields (Rv32.iType imm rs1 funct3 rd 0b0001111#7), 0⟩ := by
    simp only [riscvDecode, opcode_iType]
    rfl
  have he : s.effect c imem = ⟨s.pc + 4#32, none, none, none⟩ := by
    rw [Seq.effect, himem, hd, decodeFields_iType]
    rfl
  exact hart_step_ext s he rfl rfl rfl rfl

/-- **One step of the machine is one operation of the hart.** -/
theorem hart_step {op : Op} (himem : imem s.pc = op.encode) :
    (s.step c imem).hart = s.hart.exec (corePlatform c) op := by
  cases op with
  | instr i => exact hart_step_instr s himem
  | mulDiv op rd rs1 rs2 => exact hart_step_mulDiv s himem
  | fence imm rd rs1 | fenceI imm rd rs1 => exact hart_step_fence s himem
  | ecall | ebreak | mret | wfi => exact hart_step_system s himem (by simp)

/-- Only the instructions with a memory access decode to one. -/
theorem isMem_of_not_instr {op : Op} (h : ∀ i, op ≠ .instr i) :
    (riscvDecode op.encode).ctrl.isMem = false := by
  cases op with
  | instr i => exact absurd rfl (h i)
  | mulDiv op rd rs1 rs2 =>
    have hd : riscvDecode (Op.mulDiv op rd rs1 rs2).encode = _ :=
      riscvDecode_op 0b0000001#7 op.funct3 rd rs1 rs2
    rw [hd, decodeFields_rType]
    rfl
  | fence imm rd rs1 | fenceI imm rd rs1 =>
    simp only [Op.encode, riscvDecode, opcode_iType]
    rw [decodeFields_iType]
    rfl
  | ecall | ebreak | mret | wfi => rfl

theorem exists_selectAccess {memRead memWrite : Bool} (h : (memRead || memWrite) = true)
    (memSize : BitVec 2) (memUnsigned : Bool) (addr data : Word) :
    ∃ o ∈ selectAccess memRead memWrite memSize memUnsigned addr data, o.addr = addr := by
  cases memRead with
  | true => exact ⟨_, rfl, rfl⟩
  | false =>
    obtain rfl : memWrite = true := h
    exact ⟨_, rfl, rfl⟩

/-- **An access of the machine is that of the hart**, as far as its address goes. -/
theorem effect_access {op : Op} (himem : imem s.pc = op.encode) {a : Access}
    (ha : a ∈ (s.effect c imem).access) :
    ∃ o ∈ s.hart.access (corePlatform c) op, o.addr = a.addr := by
  obtain ⟨result, hresult⟩ : ∃ result, result = instrResult (riscvDecode op.encode).ctrl s.pc
      (riscvDecode op.encode).imm (s.regs (riscvDecode op.encode).ctrl.rs1)
      (s.regs (riscvDecode op.encode).ctrl.rs2) := ⟨_, rfl⟩
  obtain ⟨hmem, haddr⟩ : (riscvDecode op.encode).ctrl.isMem = true ∧ a.addr = result := by
    simp only [Seq.effect, himem, instrEffect, ← hresult] at ha
    rw [instrAccess] at ha
    split_ifs at ha with htrap hmem
    · cases ha
    · obtain rfl := Option.some.inj ha
      exact ⟨hmem, rfl⟩
    · cases ha
  by_cases hop : ∃ i, op = .instr i
  · obtain ⟨i, rfl⟩ := hop
    have ho := congrArg Outcome.mem (outcome_hart (c := c) s i)
    obtain ⟨o, hsel, hoaddr⟩ := exists_selectAccess hmem (riscvDecode i.encode).ctrl.memSize
      (riscvDecode i.encode).ctrl.memUnsigned _ (s.regs (riscvDecode i.encode).ctrl.rs2)
    refine ⟨o, ho.symm.trans hsel, hoaddr.trans ?_⟩
    rw [haddr, hresult]
    exact (instrResult_eq (decodesTo i).plain.2.2).symm
  · rw [isMem_of_not_instr fun i hi => hop ⟨i, hi⟩] at hmem
    cases hmem

end step

/-! ## Runs

A hart that leaves the program stops, and the machine goes on; so the runs agree for as long as
the hart has one. -/

/-- The instruction memory holds the program. -/
def HoldsProgram (imem : Word → Word) (prog : Program) : Prop :=
  ∀ addr, ∀ op ∈ prog addr, imem addr = op.encode

/-- The hart that runs in a state of the pipeline: what is settled there, and the bytes of the
data memory. -/
structure Shows (p : Pipe) (mem : DataMem) (h : Hart Csr) : Prop where
  pc : p.idEx.pc = h.pc
  regs : settledRegs p = h.regs.get
  csr : p.csr = h.csr
  mem : mem.bytes = h.mem

section run

variable {c : Config} {imem : Word → Word} {prog : Program} {mem : DataMem}

theorem holdsProgram_words (prog : Program) : HoldsProgram prog.words prog := by
  intro addr op hop
  rw [Program.words, hop]
  rfl

/-- For as long as the hart stays in the program, the machine is where the hart is. -/
theorem hart_run (hprog : HoldsProgram imem prog) {s : ArchState} {k : ℕ} {h : Hart Csr}
    (hrun : s.hart.run (corePlatform c) prog k = some h) :
    ((ArchState.step c imem)^[k] s).hart = h := by
  induction k generalizing h with
  | zero => exact Option.some.inj hrun
  | succ k ih =>
    obtain ⟨h₁, hk, hstep⟩ := Option.bind_eq_some_iff.mp hrun
    obtain ⟨op, hop, rfl⟩ := Option.map_eq_some_iff.mp hstep
    have hhart := ih hk
    rw [Function.iterate_succ_apply']
    generalize (ArchState.step c imem)^[k] s = s₁ at *
    subst hhart
    exact hart_step s₁ (hprog _ op hop)

theorem hart_seqRun (hprog : HoldsProgram imem prog) {k : ℕ} {h : Hart Csr}
    (hrun : (hartReset c mem).run (corePlatform c) prog k = some h) :
    (seqRun c imem mem k).pc = h.pc ∧ (seqRun c imem mem k).regs = h.regs.get ∧
      (seqRun c imem mem k).csr = h.csr ∧ (seqRun c imem mem k).mem.bytes = h.mem := by
  have hhart := hart_run hprog hrun
  rw [← ArchState.toSeq_run, ← hhart]
  exact ⟨rfl, rfl, rfl, rfl⟩

/-- The accesses of the machine are made where the hart makes its own. -/
theorem hart_accesses (hprog : HoldsProgram imem prog) {k : ℕ} {h : Hart Csr}
    (hrun : (hartReset c mem).run (corePlatform c) prog k = some h) {a : Access}
    (ha : a ∈ (seqRun c imem mem k).accesses) :
    ∃ j g op, (hartReset c mem).run (corePlatform c) prog j = some g ∧ prog g.pc = some op ∧
      ∃ o ∈ g.access (corePlatform c) op, o.addr = a.addr := by
  induction k generalizing h with
  | zero => cases ha
  | succ k ih =>
    obtain ⟨g, hg, hstep⟩ := Option.bind_eq_some_iff.mp hrun
    have hsucc : seqRun c imem mem (k + 1) = seqStep c imem (seqRun c imem mem k) :=
      Function.iterate_succ_apply' _ _ _
    rw [hsucc, seqStep, Seq.commit, List.mem_append, Option.mem_toList] at ha
    rcases ha with ha | ha
    · exact ih hg ha
    · obtain ⟨op, hop, -⟩ := Option.map_eq_some_iff.mp hstep
      have hhart := hart_run hprog hg
      rw [← ArchState.toSeq_run] at ha
      generalize (ArchState.step c imem)^[k] (ArchState.reset c mem) = s at *
      subst hhart
      exact ⟨k, s.hart, op, hg, hop, effect_access s (hprog _ op hop) ha⟩

/-- **The pipeline implements the architecture.** A program of RV32IM with Zicsr and the
machine-mode instructions, run without interrupts and with memories that answer in the end:
the operations leave EX one by one, in cycles `f 0 < f 1 < …`, and for as long as the hart
stays in the program the pipeline shows in cycle `f k` the pc, the registers, the CSRs and the
bytes of memory that the hart has after `k` operations. -/
theorem pipeline_implements_hart (c : Config) (hprog : HoldsProgram imem prog)
    {r₀ : Clocked.Recorded (Clocked.Recorded Core FetchLog) RunLog}
    {x : ℕ → CoreIn c.numExtInterrupts} (hr : (runSystem c imem mem).init r₀)
    (hx : (runSystem c imem mem).Run r₀ x) (hfair : FairMemories c r₀.sys x) :
    ∃ f : ℕ → ℕ, StrictMono f ∧ (∀ t, departs c r₀.sys x t ↔ ∃ k, f k = t) ∧
      ∀ k h, (hartReset c mem).run (corePlatform c) prog k = some h →
        Shows (coreAfter c r₀.sys x (f k)).pipe
          ((runSystem c imem mem).stateAt r₀ x (f k)).log.mem h := by
  have hanswering := answering_of_run hr hx hfair
  refine ⟨Nat.nth (departs c r₀.sys x), Nat.nth_strictMono hanswering.departs_again.infinite,
    hanswering.departs_iff, fun k h hrun => ?_⟩
  obtain ⟨hpc, hregs, hcsr, hmem⟩ := hart_seqRun hprog hrun
  have hk := commits_nth hr hx hfair k
  exact ⟨hk.pc.trans hpc, hk.regs.trans hregs, hk.csr.trans hcsr,
    (congrArg DataMem.bytes hk.mem).trans hmem⟩

end run

/-- A negative byte is stored, loaded back and squared, and the program ends in an `ecall`. -/
def squareProgram : Program :=
  Program.ofList
    [.instr (.arithImm .add 1#5 0#5 0x087#12), .instr (.store .byte 0#5 1#5 2#12),
      .instr (.load .lb 2#5 0#5 2#12), .mulDiv .mul 3#5 2#5 2#5, .ecall]

theorem pipeline_implements_hart_square :
    ∃ t, departs {} emptyStart.sys
        (promptStream {} squareProgram.words (fun _ => 0#32) emptyStart) t ∧
      settledRegs (coreAfter {} emptyStart.sys
        (promptStream {} squareProgram.words (fun _ => 0#32) emptyStart) t).pipe 3#5 =
          14641#32 ∧
      (coreAfter {} emptyStart.sys
        (promptStream {} squareProgram.words (fun _ => 0#32) emptyStart) t).pipe.csr.mepc =
          16#32 := by
  have hinit : (runSystem {} squareProgram.words (fun _ => 0#32)).init emptyStart :=
    ⟨⟨rfl, rfl⟩, rfl⟩
  obtain ⟨f, -, hdeparts, hshows⟩ := pipeline_implements_hart {}
    (holdsProgram_words squareProgram) hinit (prompt_run emptyStart) (prompt_fair emptyStart)
  obtain ⟨h, hrun, hsquare, hepc⟩ : ∃ h, (hartReset {} fun _ => 0#32).run (corePlatform {})
      squareProgram 5 = some h ∧ h.regs.get 3#5 = 14641#32 ∧ h.csr.mepc = 16#32 :=
    ⟨_, rfl, by decide, by decide⟩
  have hlast := hshows 5 h hrun
  refine ⟨f 5, (hdeparts _).mpr ⟨5, rfl⟩, ?_, ?_⟩
  · rw [hlast.regs, hsquare]
  · rw [hlast.csr, hepc]

end RiscvV2
