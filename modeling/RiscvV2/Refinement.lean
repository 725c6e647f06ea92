import RiscvV2.Operands
import RiscvV2.FetchProtocol
import RiscvV2.Sequential

/-!
# The pipeline refines the sequential machine

An instruction is committed when it leaves EX: by then nothing can stop it, and its operands
are the registers of the sequential machine. What it still has to write travels through MEM
and WB, so the logs of the pipeline lag behind those of the sequential machine by what is in
flight. This relation (`Agrees`) holds in every reachable state after as many steps of the
sequential machine as instructions have left EX.

The front end is behind in another way. It may hold the next instruction in the buffer, in IF/ID
or in EX, or may be waiting for it, or may still have to throw away the answer to a request that
a jump has overtaken. In every case the instruction that comes to EX next is the one at the pc
of the sequential machine, and this is all that the relation says about it.

A cycle then has two cases. If no instruction leaves EX, the sequential machine stands still,
and both halves of the relation survive the movements inside the pipeline. If one leaves, it has
been executed with the registers, the memory and the CSRs of the sequential machine, which takes
one step.
-/

namespace RiscvV2

variable {n : ℕ} {c : Config} {p : Pipe} {r : Bool}

/-! ## The instruction in EX -/

/-- ID/EX holds the instruction word `instr` fetched from `pc`, with the CSR it reads. -/
structure Issued (p : Pipe) (instr pc : Word) : Prop where
  ctrlEq : p.idEx.ctrl = (riscvDecode instr).ctrl
  immEq : p.idEx.imm = (riscvDecode instr).imm
  pcEq : p.idEx.pc = pc
  pc4Eq : p.idEx.pc4 = pc + 4#32
  targetEq : p.idEx.redirectTarget = pc + (riscvDecode instr).imm
  csrOldEq : p.idEx.csrOld = p.csr.read (riscvDecode instr).ctrl.csrAddr

/-- The instruction fires in EX with register operands `a` and `b`, as far as it uses them,
and no interrupt is active. -/
structure Executes (p : Pipe) (r : Bool) (instr pc a b : Word) : Prop extends
    Issued p instr pc where
  fires : exFires p r = true
  srcA : (riscvDecode instr).ctrl.isMulDiv = false → (riscvDecode instr).ctrl.useRs1 = true →
    exForwardAData p = a
  srcB : (riscvDecode instr).ctrl.isMulDiv = false → (riscvDecode instr).ctrl.useRs2 = true →
    exForwardBData p = b
  mulDiv : (riscvDecode instr).ctrl.isMulDiv = true →
    exAluResult p = rv32mResult (riscvDecode instr).ctrl.aluOp a b
  noIrq : p.csr.externalIrqActive = false

/-- A CSR instruction raises no exception. -/
theorem instrTrap_of_csrRead {d : Ctrl} (hd : d.Coherent) (hread : d.csrRead = true)
    (pc result : Word) : instrTrap c d pc result = none := by
  obtain ⟨hmem, -, henv⟩ := hd.csr hread
  obtain ⟨hr, hw⟩ := Bool.or_eq_false_iff.mp hmem
  obtain ⟨hecall, hebreak⟩ := Bool.or_eq_false_iff.mp henv
  simp [instrTrap, hr, hw, hecall, hebreak]

/-- The new value depends on the register operand in the register forms only. -/
theorem csrNewValue_congr {funct3 : BitVec 3} {a a' : Word}
    (h : funct3 = 1#3 ∨ funct3 = 2#3 ∨ funct3 = 3#3 → a = a') (rs1 : BitVec 5) (old : Word) :
    csrNewValue funct3 rs1 old a = csrNewValue funct3 rs1 old a' := by
  by_cases hf : funct3 = 1#3 ∨ funct3 = 2#3 ∨ funct3 = 3#3
  · rw [h hf]
  · obtain ⟨h1, h2, h3⟩ : funct3 ≠ 1#3 ∧ funct3 ≠ 2#3 ∧ funct3 ≠ 3#3 := by
      simpa only [not_or] using hf
    unfold csrNewValue
    split <;> first | rfl | contradiction

namespace Executes

variable {instr pc a b : Word} (h : Executes p r instr pc a b)

include h

/-- The result wire carries the result, unless nothing looks at it. -/
theorem exAluResult_eq
    (hneed : ((riscvDecode instr).ctrl.regWrite = true ∧ (riscvDecode instr).ctrl.wbSel = .alu) ∨
      (riscvDecode instr).ctrl.isMem = true) :
    exAluResult p =
      instrResult (riscvDecode instr).ctrl pc (riscvDecode instr).imm a b := by
  cases hop : (riscvDecode instr).ctrl.isMulDiv with
  | true => rw [h.mulDiv hop, instrResult, if_pos hop]
  | false =>
    obtain ⟨hmul, hdiv⟩ := Bool.or_eq_false_iff.mp hop
    obtain ⟨huse1, huse2⟩ := (riscvDecode_coherent instr).operands hneed
    have hB : exAluSrcB p =
        if (riscvDecode instr).ctrl.srcBImm then (riscvDecode instr).imm else b := by
      rw [exAluSrcB, h.ctrlEq, h.immEq]
      split_ifs with hi
      · rfl
      · exact h.srcB hop (huse2 (Bool.eq_false_iff.mpr hi))
    rw [exAluResult, divIsOp, mulIsOp, h.ctrlEq, if_neg (by simp [hdiv]),
      if_neg (by simp [hmul]), instrResult, if_neg (by simp [hop]), hB]
    by_cases hcopy : (riscvDecode instr).ctrl.aluOp = .copyB
    · rw [hcopy]
      rfl
    · have hA : exAluSrcA p =
          if (riscvDecode instr).ctrl.srcAPc then pc else a := by
        rw [exAluSrcA, h.ctrlEq, h.pcEq]
        split_ifs with hs
        · rfl
        · exact h.srcA hop (huse1 (Bool.eq_false_iff.mpr hs) hcopy)
      rw [hA]

/-- The exception raised in EX is that of the instruction. -/
theorem exSyncTrap_eq :
    exSyncTrap c p = instrTrap c (riscvDecode instr).ctrl pc
      (instrResult (riscvDecode instr).ctrl pc (riscvDecode instr).imm a b) := by
  cases hmem : (riscvDecode instr).ctrl.isMem with
  | false =>
    obtain ⟨hr, hw⟩ := Bool.or_eq_false_iff.mp hmem
    simp [exSyncTrap, instrTrap, exMisalignLoad, exMisalignStore, exAccessLoad, exAccessStore,
      h.ctrlEq, h.pcEq, hr, hw]
  | true =>
    have hres := h.exAluResult_eq (.inr hmem)
    have hd := riscvDecode_coherent instr
    rw [← h.ctrlEq] at hd
    have hlo := exAddrLo_eq hd (by rw [h.ctrlEq, hmem])
    rw [hres] at hlo
    simp only [exSyncTrap, instrTrap, exMisalignLoad, exMisalignStore, exAccessLoad,
      exAccessStore, h.ctrlEq, h.pcEq, hres, hlo]
    -- both sides are now the same case distinction over four bits
    generalize hm : misaligned _ _ = mis
    generalize accessFault c _ = fault
    cases (riscvDecode instr).ctrl.memRead <;> cases (riscvDecode instr).ctrl.memWrite <;>
      cases mis <;> cases fault <;> rfl

theorem exTrap_eq :
    exTrap c p r = instrTrap c (riscvDecode instr).ctrl pc
      (instrResult (riscvDecode instr).ctrl pc (riscvDecode instr).imm a b) := by
  rw [exTrap, h.fires, if_pos rfl, h.exSyncTrap_eq]
  cases instrTrap c (riscvDecode instr).ctrl pc _ with
  | some t => rfl
  | none => simp [h.noIrq]

/-- The redirect, or else the next address, is the next pc of the instruction. -/
theorem exRedirect_eq :
    (exRedirect c p r).getD (pc + 4#32) =
      instrNextPc (riscvDecode instr).ctrl pc (riscvDecode instr).imm a b p.csr
        (instrTrap c (riscvDecode instr).ctrl pc
          (instrResult (riscvDecode instr).ctrl pc (riscvDecode instr).imm a b)) := by
  have hd := riscvDecode_coherent instr
  have hplain : (riscvDecode instr).ctrl.isJump = true →
      (riscvDecode instr).ctrl.isMulDiv = false := by
    intro hj
    by_contra hop
    have := (hd.mulDiv (Bool.eq_true_of_not_eq_false hop)).2.2.2.2.2.2.2.1
    rw [hj] at this
    cases this
  have hbranch : ((riscvDecode instr).ctrl.branchKind ≠ .none ∧ exBranchCond p = true) ↔
      ((riscvDecode instr).ctrl.branchKind ≠ .none ∧
        branchCond (riscvDecode instr).ctrl.branchKind a b = true) := by
    refine and_congr_right fun hk => ?_
    have hj : (riscvDecode instr).ctrl.isJump = true := by simp [Ctrl.isJump, hk]
    obtain ⟨huse1, huse2⟩ := hd.branch hk
    rw [exBranchCond, h.ctrlEq, h.srcA (hplain hj) huse1, h.srcB (hplain hj) huse2]
  rw [exRedirect, h.fires, if_pos rfl, h.exTrap_eq, instrNextPc, h.ctrlEq, h.immEq, h.targetEq,
    if_congr hbranch rfl rfl]
  split_ifs with htrap hmret hjalr hjal hbr
  · rfl
  · rfl
  · have hj : (riscvDecode instr).ctrl.isJump = true := by simp [Ctrl.isJump, hjalr]
    rw [h.srcA (hplain hj) (hd.jalr hjalr)]
    rfl
  · rfl
  · rfl
  · rfl

/-- The CSR write of EX is that of the instruction. -/
theorem exCsrWrite_eq :
    exCsrWrite p r =
      if (riscvDecode instr).ctrl.csrRead then
        csrNewValue (riscvDecode instr).ctrl.funct3 (riscvDecode instr).ctrl.rs1
          (p.csr.read (riscvDecode instr).ctrl.csrAddr) a
      else none := by
  have hd := riscvDecode_coherent instr
  rw [exCsrWrite, h.fires, Bool.true_and, h.ctrlEq, h.csrOldEq]
  cases hread : (riscvDecode instr).ctrl.csrRead with
  | false => rfl
  | true =>
    rw [if_pos rfl, if_pos rfl]
    refine csrNewValue_congr (fun hf => ?_) _ _
    refine h.srcA ?_ (hd.csrSource hread hf)
    by_contra hop
    have := (hd.mulDiv (Bool.eq_true_of_not_eq_false hop)).2.2.2.2.2.2.1
    rw [hread] at this
    cases this

end Executes

/-! ## Effects as the pipeline commits them

The effects of an instruction appear in different stages and cycles: the CSR update when it
leaves EX, the data access in MEM, the register write in WB. Each is shown to be the one that
the sequential machine computes at once. -/

/-- The CSR updates of a cycle, as the ports of the CSR file show them. -/
def csrUpdates (i : CsrIn n) : List CsrUpdate :=
  (if i.we then [.write i.waddr i.wdata] else []) ++
    if i.trapEn then [.trap i.trapEpc i.trapCause i.trapTval]
    else if i.mretEn then [.mret] else []

/-- The register write in WB. -/
def wbWrite (p : Pipe) : Option RegWrite := regWriteOf (regWe p) p.memWb.rd (wbData p)

/-- The value the instruction in MEM will write back. -/
def memValue (m : ExMem) (mem : DataMem) : Word :=
  match m.wbSel with
  | .pc4 => m.pc4
  | .load => lsuLoadData m.memSize m.memUnsigned (m.aluResult.extractLsb' 0 2)
      (mem (wordIndex m.aluResult))
  | .csr => m.csrOld
  | .alu => m.aluResult

/-- The register write of the instruction in MEM. -/
def memWrite (m : ExMem) (mem : DataMem) : Option RegWrite :=
  regWriteOf (m.valid && m.regWrite) m.rd (memValue m mem)

/-- The register writes that are committed but not done, oldest first. -/
def inFlight (p : Pipe) (mem : DataMem) : List RegWrite :=
  (wbWrite p).toList ++ (memWrite p.exMem mem).toList

theorem wbWrite_of_invalid (h : p.memWb.valid = false) : wbWrite p = none := by
  simp [wbWrite, regWe, h, regWriteOf]

theorem memWrite_of_invalid {m : ExMem} (h : m.valid = false) (mem : DataMem) :
    memWrite m mem = none := by
  simp [memWrite, h, regWriteOf]

/-- The instruction in MEM moves to WB with the write it was about to make. -/
theorem wbWrite_next {i : PipeIn n} {m : DataMem} {q : Pipe}
    (hs : memStall p i.dmemReady = false)
    (hdata : i.dmemReady = true → dmemReadEn p = true →
      i.dmemReadData = m (wordIndex (dmemAddr p)))
    (hload : p.exMem.valid = true → p.exMem.regWrite = true →
      (p.exMem.wbSel = .load ↔ p.exMem.memRead = true))
    (hwb : q.memWb = memWbNext p i) : wbWrite q = memWrite p.exMem m := by
  rw [memWbNext, if_neg (by simp [hs])] at hwb
  rw [wbWrite, memWrite, regWe, hwb]
  cases hwe : p.exMem.valid && p.exMem.regWrite with
  | false => rfl
  | true =>
    obtain ⟨hv, hw⟩ := Bool.and_eq_true_iff.mp hwe
    congr 1
    rw [wbData, memValue, hwb]
    cases hsel : p.exMem.wbSel with
    | load =>
      have hread := (hload hv hw).mp hsel
      -- a load moves on only when the memory is ready, with the addressed word
      have hready : i.dmemReady = true := by simpa [memStall, hv, hread] using hs
      have hd := hdata hready (by simp [dmemReadEn, hv, hread])
      simp only [memLoadData, hd]
      rfl
    | alu | pc4 | csr => rfl

namespace Executes

variable {instr pc a b : Word} (h : Executes p r instr pc a b)

include h

/-- EX/MEM receives the register write of the instruction. -/
theorem memWrite_eq (mem : DataMem) :
    memWrite (exMemNext c p r) mem =
      (instrEffect c (riscvDecode instr) pc a b p.csr mem).regWrite := by
  obtain ⟨hs, hm, hEx⟩ := exFires_eq_true.mp h.fires
  have hd := riscvDecode_coherent instr
  have htrap := h.exTrap_eq (c := c)
  rw [exMemNext, if_neg (by simp [hs])]
  simp only [memWrite, instrEffect, hEx, hm, htrap, h.ctrlEq]
  cases ht : instrTrap c (riscvDecode instr).ctrl pc
      (instrResult (riscvDecode instr).ctrl pc (riscvDecode instr).imm a b) with
  | some t => simp [regWriteOf]
  | none =>
    cases hw : (riscvDecode instr).ctrl.regWrite with
    | false => simp [regWriteOf]
    | true =>
      have hmret : (riscvDecode instr).ctrl.isMret = false := by
        by_contra hmr
        have := hd.mret (Bool.eq_true_of_not_eq_false hmr)
        rw [hw] at this
        cases this
      simp only [hmret, Option.isNone_none, Option.isSome_none, Bool.not_false, Bool.and_self,
        Bool.false_eq_true, if_false]
      congr 1
      rw [memValue, instrValue]
      cases hsel : (riscvDecode instr).ctrl.wbSel with
      | pc4 => exact h.pc4Eq
      | csr => exact h.csrOldEq
      | alu => exact h.exAluResult_eq (.inl ⟨hw, hsel⟩)
      | load =>
        have hread := (hd.load hw).mp hsel
        have hres := h.exAluResult_eq (.inr (by simp [Ctrl.isMem, hread]))
        simp only [hres]

/-- The access that leaves EX is that of the instruction. -/
theorem leavingAccess_eq (mem : DataMem) :
    leavingAccess c p r = (instrEffect c (riscvDecode instr) pc a b p.csr mem).access := by
  have hd := riscvDecode_coherent instr
  simp only [leavingAccess, instrEffect, h.fires, h.exTrap_eq, h.ctrlEq, instrAccess,
    Bool.true_and]
  cases ht : instrTrap c (riscvDecode instr).ctrl pc
      (instrResult (riscvDecode instr).ctrl pc (riscvDecode instr).imm a b) with
  | some t => rfl
  | none =>
    cases hmem : (riscvDecode instr).ctrl.isMem with
    | false => rfl
    | true =>
      have hres := h.exAluResult_eq (.inr hmem)
      have hop : (riscvDecode instr).ctrl.isMulDiv = false := by
        by_contra hop
        have := (hd.mulDiv (Bool.eq_true_of_not_eq_false hop)).2.2.2.2.2.1
        rw [hmem] at this
        cases this
      simp only [hres, Option.isNone_none, Option.isSome_none, Bool.and_self, if_true,
        Bool.false_eq_true, if_false]
      cases hw : (riscvDecode instr).ctrl.memWrite with
      | false => simp [lsuWriteData]
      | true =>
        have hB : exStoreData p = b := h.srcB hop (hd.store hw).1
        rw [hB]

/-- The CSR file sees the update of the instruction. -/
theorem csrUpdates_eq {i : PipeIn n} (hr : i.dmemReady = r) (mem : DataMem) :
    csrUpdates (csrIn c p i) =
      (instrEffect c (riscvDecode instr) pc a b p.csr mem).csrUpdate.toList := by
  obtain ⟨hs, hm, hEx⟩ := exFires_eq_true.mp h.fires
  have hd := riscvDecode_coherent instr
  subst hr
  simp only [csrUpdates, csrIn, instrEffect, instrCsrUpdate, hEx, hs, h.exTrap_eq,
    h.exCsrWrite_eq, h.ctrlEq, h.pcEq, Bool.true_and]
  cases hread : (riscvDecode instr).ctrl.csrRead with
  | false =>
    cases ht : instrTrap c (riscvDecode instr).ctrl pc
        (instrResult (riscvDecode instr).ctrl pc (riscvDecode instr).imm a b) with
    | some t => simp
    | none => cases hmret : (riscvDecode instr).ctrl.isMret <;> simp
  | true =>
    have hj := (hd.csr hread).2.1
    have hmret : (riscvDecode instr).ctrl.isMret = false := by
      simp only [Ctrl.isJump, Bool.or_eq_false_iff] at hj
      exact hj.1.1.1
    rw [instrTrap_of_csrRead hd hread, hmret]
    cases csrNewValue (riscvDecode instr).ctrl.funct3 (riscvDecode instr).ctrl.rs1
      (p.csr.read (riscvDecode instr).ctrl.csrAddr) a <;> simp

end Executes

/-- A CSR write excludes a trap and an MRET. -/
theorem Executes.csrIn_one {instr pc a b : Word} {i : PipeIn n}
    (h : Executes p i.dmemReady instr pc a b) (hw : (csrIn c p i).we = true) :
    (csrIn c p i).trapEn = false ∧ (csrIn c p i).mretEn = false := by
  have hd := riscvDecode_coherent instr
  simp only [csrIn, h.exCsrWrite_eq, Bool.and_eq_true] at hw
  have hread : (riscvDecode instr).ctrl.csrRead = true := by
    by_contra hne
    rw [if_neg hne] at hw
    cases hw.2
  have hj := (hd.csr hread).2.1
  have hmret : (riscvDecode instr).ctrl.isMret = false := by
    simp only [Ctrl.isJump, Bool.or_eq_false_iff] at hj
    exact hj.1.1.1
  simp [csrIn, h.exTrap_eq, instrTrap_of_csrRead hd hread, h.ctrlEq, hmret]

/-- A cycle with at most one CSR update applies it to the sampled CSRs. -/
theorem csrNext_eq {s : Csr} {i : CsrIn n}
    (hone : i.we = true → i.trapEn = false ∧ i.mretEn = false) :
    csrNext s i = (csrUpdates i).foldl (CsrUpdate.apply n) (s.sample i.globalInterrupts) := by
  cases hw : i.we with
  | true =>
    obtain ⟨ht, hm⟩ := hone hw
    simp [csrNext, csrUpdates, hw, ht, hm, CsrUpdate.apply]
  | false =>
    cases ht : i.trapEn with
    | true => simp [csrNext, csrUpdates, hw, ht, CsrUpdate.apply, Csr.sample]
    | false =>
      cases hm : i.mretEn with
      | true => simp [csrNext, csrUpdates, hw, ht, hm, CsrUpdate.apply, Csr.sample]
      | false => simp [csrNext, csrUpdates, hw, ht, hm]

/-- CSR updates never touch the pending bits. -/
theorem CsrUpdate.apply_meipend (s : Csr) (u : CsrUpdate) : (u.apply n s).meipend = s.meipend := by
  cases u with
  | write addr data => exact Csr.write_meipend s addr data
  | trap epc cause tval => rfl
  | mret => rfl

/-! ## The environment and the logs

The promises of the surroundings. Nothing is said about time: both memories may take any number
of cycles for each answer, and need not answer at all. -/

/-- What is recorded of a run: the data memory and the sequences visible from outside. -/
structure RunLog where
  mem : DataMem
  regWrites : List RegWrite := []
  accesses : List Access := []
  csrUpdates : List CsrUpdate := []

/-- The surroundings: no further reset, no interrupt, instructions from `imem`, and a data
memory that returns the addressed word when it is ready. -/
def runAllowed (imem : Word → Word) (g : RunLog) (t : Clocked.Recorded Core FetchLog)
    (i : CoreIn n) : Prop :=
  i.reset = false ∧ i.globalInterrupts = 0#n ∧
  (i.imemReady = true → i.imemInstr = imem i.imemRespPc) ∧
  (i.dmemReady = true → dmemReadEn t.sys.pipe = true →
    i.dmemReadData = g.mem (wordIndex (dmemAddr t.sys.pipe)))

/-- The logs after a cycle. -/
def runRecord (c : Config) (g : RunLog) (t : Clocked.Recorded Core FetchLog) (i : CoreIn n) :
    RunLog where
  mem := (completedAccess t.sys.pipe i.dmemReady).toList.foldl DataMem.access g.mem
  regWrites := g.regWrites ++ (wbWrite t.sys.pipe).toList
  accesses := g.accesses ++ (completedAccess t.sys.pipe i.dmemReady).toList
  csrUpdates := g.csrUpdates ++ csrUpdates (csrIn c t.sys.pipe (pipeIn c t.sys i))

/-- The core in these surroundings, with an instruction memory that keeps the protocol. -/
def runSystem (c : Config) (imem : Word → Word) (mem : DataMem) :
    Clocked (Clocked.Recorded (Clocked.Recorded Core FetchLog) RunLog)
      (CoreIn c.numExtInterrupts) :=
  (fetchSystem c).record { mem := mem } (runAllowed imem) (runRecord c)

/-! ## The simulation relation

The logs of the pipeline, together with what is in flight, are the logs of the sequential
machine. -/

/-- The front end holds the instruction at `pc`, or is about to fetch it. -/
structure FrontAgrees (imem : Word → Word) (s : Core) (pc : Word) : Prop where
  buf : s.fetch.ifBufValid = true → s.fetch.ifBufInstr = imem s.fetch.ifBufPc
  ifId : s.pipe.ifId.valid = true →
    s.pipe.ifId.pc = pc ∧ s.pipe.ifId.instr = imem pc ∧ s.fetch.pcF = pc + 4#32
  idEx : s.pipe.idEx.valid = true → Issued s.pipe (imem pc) pc ∧ s.fetch.pcF = pc + 4#32
  empty : s.pipe.ifId.valid = false → s.pipe.idEx.valid = false → s.fetch.pcF = pc

/-- What left EX and is not yet in the logs is in flight. -/
structure BackAgrees (p : Pipe) (g : RunLog) (a : Seq) : Prop where
  csr : p.csr = a.csr
  quiet : p.csr.meipend = 0#32
  loads : p.exMem.valid = true → p.exMem.regWrite = true →
    (p.exMem.wbSel = .load ↔ p.exMem.memRead = true)
  regs : a.regs = (inFlight p g.mem).foldl RegWrite.apply p.regs
  mem : a.mem = (portAccess p).toList.foldl DataMem.access g.mem
  regWrites : a.regWrites = g.regWrites ++ inFlight p g.mem
  accesses : a.accesses = g.accesses ++ (portAccess p).toList
  csrUpdates : a.csrUpdates = g.csrUpdates

/-- The core and the sequential machine after the instructions that have left EX. -/
structure Agrees (imem : Word → Word) (s : Core) (g : RunLog) (a : Seq) : Prop where
  front : FrontAgrees imem s a.pc
  back : BackAgrees s.pipe g a

/-! ## The back end -/

/-- A cycle in which MEM and WB move on: `w` and `x` are the register write and the access of
the instruction that leaves EX, if one does. -/
theorem BackAgrees.moves {p' : Pipe} {g g' : RunLog} {a a' : Seq} (h : BackAgrees p g a)
    (hregs : p'.regs = (wbWrite p).toList.foldl RegWrite.apply p.regs)
    (hwb : wbWrite p' = memWrite p.exMem g.mem)
    (hmem : g'.mem = (portAccess p).toList.foldl DataMem.access g.mem)
    (hregWrites : g'.regWrites = g.regWrites ++ (wbWrite p).toList)
    (haccesses : g'.accesses = g.accesses ++ (portAccess p).toList)
    {w : Option RegWrite} {x : Option Access} (hw : memWrite p'.exMem g'.mem = w)
    (hx : portAccess p' = x) (hregs' : a'.regs = w.toList.foldl RegWrite.apply a.regs)
    (hmem' : a'.mem = x.toList.foldl DataMem.access a.mem)
    (hregWrites' : a'.regWrites = a.regWrites ++ w.toList)
    (haccesses' : a'.accesses = a.accesses ++ x.toList) (hcsr : p'.csr = a'.csr)
    (hquiet : p'.csr.meipend = 0#32) (hupdates : a'.csrUpdates = g'.csrUpdates)
    (hloads : p'.exMem.valid = true → p'.exMem.regWrite = true →
      (p'.exMem.wbSel = .load ↔ p'.exMem.memRead = true)) :
    BackAgrees p' g' a' where
  csr := hcsr
  quiet := hquiet
  loads := hloads
  regs := by
    rw [hregs', h.regs, inFlight, inFlight, hwb, hw, hregs, List.foldl_append, List.foldl_append]
  mem := by rw [hmem', h.mem, hx, hmem]
  regWrites := by
    rw [hregWrites', h.regWrites, hregWrites, inFlight, inFlight, hwb, hw]
    simp only [List.append_assoc]
  accesses := by rw [haccesses', h.accesses, haccesses, hx]
  csrUpdates := hupdates

theorem settledRegs_eq (hzero : p.regs 0#5 = 0#32) :
    settledRegs p = (wbWrite p).toList.foldl RegWrite.apply p.regs :=
  regfileNext_eq hzero _ _ _

/-- With MEM empty the registers of the sequential machine are the settled ones. -/
theorem BackAgrees.settled {g : RunLog} {a : Seq} (h : BackAgrees p g a)
    (hzero : p.regs 0#5 = 0#32) (hMem : p.exMem.valid = false) : a.regs = settledRegs p := by
  rw [h.regs, inFlight, memWrite_of_invalid hMem, Option.toList_none, List.append_nil,
    settledRegs_eq hzero]

theorem BackAgrees.mem_eq {g : RunLog} {a : Seq} (h : BackAgrees p g a)
    (hMem : p.exMem.valid = false) : a.mem = g.mem := by
  rw [h.mem, portAccess_of_exMem_invalid hMem]
  rfl

/-- Without a pending interrupt no interrupt is active. -/
theorem BackAgrees.noIrq {g : RunLog} {a : Seq} (h : BackAgrees p g a) :
    p.csr.externalIrqActive = false := by
  simp [Csr.externalIrqActive, h.quiet]

/-- The instruction in EX executes with the registers of the sequential machine. -/
theorem executes_of_leave {imem : Word → Word} {g : RunLog} {a : Seq} (hst : Staged p)
    (ho : Operands p) (hb : BackAgrees p g a) (hissued : Issued p (imem a.pc) a.pc)
    (hEx : p.idEx.valid = true) (hm : mStall p = false) (r : Bool) :
    Executes p r (imem a.pc) a.pc (a.regs (riscvDecode (imem a.pc)).ctrl.rs1)
      (a.regs (riscvDecode (imem a.pc)).ctrl.rs2) := by
  have hsettled := hb.settled ho.zero (hst.idEx_exMem hEx)
  have hctrl := hissued.ctrlEq
  refine ⟨hissued, exFires_eq_true.mpr ⟨hst.memStall_eq hEx r, hm, hEx⟩, ?_, ?_, ?_, hb.noIrq⟩
  · intro hop huse
    rw [← hctrl] at hop huse ⊢
    rw [hsettled]
    exact ho.forwardA hEx (hst.units_idle_of_op hop) huse
  · intro hop huse
    rw [← hctrl] at hop huse ⊢
    rw [hsettled]
    exact ho.forwardB hEx (hst.units_idle_of_op hop) huse
  · intro hop
    rw [← hctrl] at hop ⊢
    rw [hsettled]
    exact ho.mulDiv_result hEx hm hop

/-! ## The front end -/

section front

variable {imem : Word → Word} {s : Core} {f : FetchLog} {i : CoreIn n} {pc : Word}

/-- The response that is accepted is the instruction at `pc_f`. -/
theorem accepted_response (hI : FetchInv c s f) (hok : fetchAllowed f s i)
    (himem : i.imemReady = true → i.imemInstr = imem i.imemRespPc)
    (hbuf : s.fetch.ifBufValid = true → s.fetch.ifBufInstr = imem s.fetch.ifBufPc)
    (ha : ifAccept c s i = true) :
    ifRespPc s.fetch i.imemRespPc = s.fetch.pcF ∧
      ifRespInstr s.fetch i.imemInstr = imem s.fetch.pcF := by
  refine ⟨hI.accepted_pc hok ha, ?_⟩
  cases hI.account with
  | idle hf =>
    rw [ifAccept_idle hf] at ha
    cases ha
  | waiting hf hu hm =>
    have hready : i.imemReady = true := by
      by_contra hr
      simp [ifAccept, ifRespValid, ifLiveRespValid, hf.buf, hr] at ha
    rw [ifRespInstr, if_neg (by simp [hf.buf]), himem hready,
      (response_of_single hok hu hready).1]
  | buffered hf hu hpc hm => rw [ifRespInstr, if_pos hf.buf, hbuf hf.buf, hpc]
  | discarding hf =>
    rw [ifAccept_discarding hf] at ha
    cases ha

/-- The buffer holds the instruction of the address kept beside it. -/
theorem fetchNext_buf (himem : i.imemReady = true → i.imemInstr = imem i.imemRespPc)
    (hbuf : s.fetch.ifBufValid = true → s.fetch.ifBufInstr = imem s.fetch.ifBufPc)
    (hv : (fetchNext c s i).ifBufValid = true) :
    (fetchNext c s i).ifBufInstr = imem (fetchNext c s i).ifBufPc := by
  cases hr : exRedirect c s.pipe i.dmemReady with
  | some target => simp [fetchNext, hr] at hv
  | none =>
    cases hfill : ifBufFill c s i with
    | true =>
      have hready : i.imemReady = true := by
        simp only [ifBufFill, Bool.and_eq_true] at hfill
        exact hfill.1.1.1
      simp [fetchNext, hr, hfill, himem hready]
    | false =>
      have hv' : s.fetch.ifBufValid = true := by
        simp only [fetchNext, hr, hfill, Option.isSome_none, Bool.false_eq_true, if_false] at hv
        split_ifs at hv
        exact hv
      simp [fetchNext, hr, hfill, hbuf hv']

/-- The front end agrees after a cycle in which no instruction leaves EX. -/
theorem FrontAgrees.stay (h : FrontAgrees imem s pc) (hst : CoreStaged s)
    (hI : FetchInv c s f) (hok : fetchAllowed f s i) (hreset : i.reset = false)
    (himem : i.imemReady = true → i.imemInstr = imem i.imemRespPc)
    (hf : exFires s.pipe i.dmemReady = false) (hirq : i.globalInterrupts = 0#n)
    (hquiet : s.pipe.csr.meipend = 0#32) : FrontAgrees imem (coreNext c s i) pc := by
  have hr := exRedirect_of_not_fires (c := c) hf
  have hsample : s.pipe.csr.sample (pipeIn c s i).globalInterrupts = s.pipe.csr := by
    rw [pipeIn_globalInterrupts, hirq]
    exact Csr.sample_quiet hquiet
  have hresp := accepted_response hI hok himem h.buf
  have hfetch := coreNext_fetch (c := c) (s := s) hreset
  have hpcF : (coreNext c s i).fetch.pcF =
      if ifAccept c s i then s.fetch.pcF + 4#32 else s.fetch.pcF := by
    rw [hfetch, fetchNext_pcF, pcFNext_of_none hr]
  have hbuf : (coreNext c s i).fetch.ifBufValid = true →
      (coreNext c s i).fetch.ifBufInstr = imem (coreNext c s i).fetch.ifBufPc := by
    rw [hfetch]
    exact fetchNext_buf himem h.buf
  have hpipe := coreNext_pipe (c := c) (s := s) hreset
  cases hst.pipe.phase (pipeIn c s i).dmemReady with
  | wait hEx hMem hs =>
    have ha : ifAccept c s i = false := by
      rw [pipeIn_dmemReady] at hs
      simp [ifAccept, hs]
    rw [pipeNext_wait hst.pipe hEx hs] at hpipe
    rw [ha, if_neg (by simp)] at hpcF
    refine ⟨hbuf, fun hv => ?_, fun hv => ?_, fun h1 h2 => ?_⟩
    · rw [hpcF, hpipe]
      rw [hpipe] at hv
      exact h.ifId hv
    · rw [hpipe] at hv
      rw [hEx] at hv
      cases hv
    · rw [hpcF]
      rw [hpipe] at h1 h2
      exact h.empty h1 h2
  | flow hEx hs =>
    rw [pipeNext_flow hst.pipe hEx hs, hsample] at hpipe
    cases ha : ifAccept c s i with
    | true =>
      have ha' : (pipeIn c s i).ifAccept = true := ha
      have hId := hst.accept ha
      have hpc := h.empty hId hEx
      obtain ⟨hrespPc, hrespInstr⟩ := hresp ha
      rw [ha, if_pos rfl, hpc] at hpcF
      rw [ha', if_pos rfl] at hpipe
      refine ⟨hbuf, fun hv => ?_, fun hv => ?_, fun h1 _ => ?_⟩
      · rw [hpcF, hpipe]
        exact ⟨hrespPc.trans hpc, hrespInstr.trans (congrArg imem hpc), rfl⟩
      · rw [hpipe] at hv
        exact absurd (hId.symm.trans hv) (by simp)
      · rw [hpipe] at h1
        cases h1
    | false =>
      have ha' : (pipeIn c s i).ifAccept = false := ha
      rw [ha, if_neg (by simp)] at hpcF
      rw [ha', if_neg (by simp)] at hpipe
      refine ⟨hbuf, fun hv => ?_, fun hv => ?_, fun _ h2 => ?_⟩
      · rw [hpipe] at hv
        cases hv
      · rw [hpcF, hpipe]
        rw [hpipe] at hv
        obtain ⟨hidPc, hidInstr, hnext⟩ := h.ifId hv
        refine ⟨?_, hnext⟩
        constructor <;> simp only [idExIssue, idDecoded, idRedirectTarget, idCsrOld, hidPc,
          hidInstr]
      · rw [hpcF]
        rw [hpipe] at h2
        exact h.empty h2 hEx
  | busy hEx hId hMem hs hm =>
    have ha : ifAccept c s i = false := by
      simp [ifAccept, hst.pipe.stallIf_eq, hm]
    rw [pipeNext_busy hst.pipe hEx hm, hsample] at hpipe
    rw [ha, if_neg (by simp)] at hpcF
    refine ⟨hbuf, fun hv => ?_, fun _ => ?_, fun _ h2 => ?_⟩
    · rw [hpipe] at hv
      exact absurd (hId.symm.trans hv) (by simp)
    · obtain ⟨hissued, hnext⟩ := h.idEx hEx
      rw [hpcF, hpipe]
      exact ⟨⟨hissued.ctrlEq, hissued.immEq, hissued.pcEq, hissued.pc4Eq, hissued.targetEq,
        hissued.csrOldEq⟩, hnext⟩
    · rw [hpipe] at h2
      exact absurd (hEx.symm.trans h2) (by simp)
  | leave hEx hId hMem hs hm =>
    have : exFires s.pipe i.dmemReady = true := exFires_eq_true.mpr ⟨hs, hm, hEx⟩
    rw [hf] at this
    cases this

/-- The front end agrees on the next pc after the instruction at `pc` has left EX. -/
theorem FrontAgrees.leave (h : FrontAgrees imem s pc) (hst : CoreStaged s)
    (hI : FetchInv c s f) (hok : fetchAllowed f s i) (hreset : i.reset = false)
    (himem : i.imemReady = true → i.imemInstr = imem i.imemRespPc)
    (hEx : s.pipe.idEx.valid = true) (hm : mStall s.pipe = false) :
    FrontAgrees imem (coreNext c s i)
      ((exRedirect c s.pipe i.dmemReady).getD (pc + 4#32)) := by
  have hresp := accepted_response hI hok himem h.buf
  have hfetch := coreNext_fetch (c := c) (s := s) hreset
  have hbuf : (coreNext c s i).fetch.ifBufValid = true →
      (coreNext c s i).fetch.ifBufInstr = imem (coreNext c s i).fetch.ifBufPc := by
    rw [hfetch]
    exact fetchNext_buf himem h.buf
  have hpipe := coreNext_pipe (c := c) (s := s) hreset
  have hnext := (h.idEx hEx).2
  rw [pipeNext_leave hst.pipe hEx hm] at hpipe
  have hExN : (coreNext c s i).pipe.idEx.valid = false := by
    rw [hpipe]
    dsimp only
    split_ifs <;> rfl
  cases hr : exRedirect c s.pipe i.dmemReady with
  | some target =>
    have hIdN : (coreNext c s i).pipe.ifId.valid = false := (hst.redirect_next hreset hr).1
    refine ⟨hbuf, fun hv => absurd (hIdN.symm.trans hv) (by simp),
      fun hv => absurd (hExN.symm.trans hv) (by simp), fun _ _ => ?_⟩
    rw [hfetch, fetchNext_redirect hr]
    rfl
  | none =>
    have hpcF : (coreNext c s i).fetch.pcF =
        if ifAccept c s i then s.fetch.pcF + 4#32 else s.fetch.pcF := by
      rw [hfetch, fetchNext_pcF, pcFNext_of_none hr]
    have hr' : exRedirect c s.pipe (pipeIn c s i).dmemReady = none := hr
    rw [hr'] at hpipe
    rw [Option.getD_none]
    cases ha : ifAccept c s i with
    | true =>
      obtain ⟨hrespPc, hrespInstr⟩ := hresp ha
      have ha' : (pipeIn c s i).ifAccept = true := ha
      rw [ha, if_pos rfl, hnext] at hpcF
      rw [ha'] at hpipe
      refine ⟨hbuf, fun hv => ?_, fun hv => absurd (hExN.symm.trans hv) (by simp),
        fun h1 _ => ?_⟩
      · rw [hpcF, hpipe]
        exact ⟨hrespPc.trans hnext, hrespInstr.trans (congrArg imem hnext), rfl⟩
      · rw [hpipe] at h1
        cases h1
    | false =>
      have ha' : (pipeIn c s i).ifAccept = false := ha
      rw [ha, if_neg (by simp)] at hpcF
      rw [ha'] at hpipe
      refine ⟨hbuf, fun hv => ?_, fun hv => absurd (hExN.symm.trans hv) (by simp),
        fun _ _ => ?_⟩
      · rw [hpipe] at hv
        cases hv
      · rw [hpcF, hnext]

end front

/-! ## The back end -/

section back

variable {imem : Word → Word} {g : RunLog} {a : Seq} {t : Clocked.Recorded Core FetchLog}
  {i : CoreIn n}

/-- Without an instruction firing in EX there is no CSR update. -/
theorem csrUpdates_of_not_fires {i : PipeIn n} (hst : Staged p)
    (hf : exFires p i.dmemReady = false) : csrUpdates (csrIn c p i) = [] := by
  have hmret : (csrIn c p i).mretEn = false := by
    cases hEx : p.idEx.valid with
    | false => simp [csrIn, hEx]
    | true =>
      have hm : mStall p = true := by
        simpa [exFires, hst.memStall_eq hEx, hEx] using hf
      have hj := ((hst.coherent hEx).mulDiv (isMulDiv_of_mStall hm)).2.2.2.2.2.2.2.1
      simp only [Ctrl.isJump, Bool.or_eq_false_iff] at hj
      simp [csrIn, hj.1.1.1]
  have hwe : (csrIn c p i).we = false := by simp [csrIn, exCsrWrite_of_not_fires hf]
  have htrap : (csrIn c p i).trapEn = false := by simp [csrIn, exTrap_of_not_fires hf]
  simp [csrUpdates, hmret, hwe, htrap]

/-- What a cycle in which MEM moves on does to the memory and the logs. -/
theorem runRecord_moving (hs : memStall t.sys.pipe i.dmemReady = false) :
    runRecord c g t i =
      { mem := (portAccess t.sys.pipe).toList.foldl DataMem.access g.mem
        regWrites := g.regWrites ++ (wbWrite t.sys.pipe).toList
        accesses := g.accesses ++ (portAccess t.sys.pipe).toList
        csrUpdates := g.csrUpdates ++
          csrUpdates (csrIn c t.sys.pipe (pipeIn c t.sys i)) } := by
  rw [runRecord, completedAccess_of_moving hs]

/-- The back end agrees after a cycle in which no instruction leaves EX. -/
theorem BackAgrees.stay (h : BackAgrees t.sys.pipe g a) (hst : Staged t.sys.pipe)
    (ho : Operands t.sys.pipe) (hok : runAllowed imem g t i)
    (hf : exFires t.sys.pipe i.dmemReady = false) :
    BackAgrees (pipeNext c t.sys.pipe (pipeIn c t.sys i)) (runRecord c g t i) a := by
  obtain ⟨-, hirq, -, hdata⟩ := hok
  have hsample : t.sys.pipe.csr.sample (pipeIn c t.sys i).globalInterrupts = t.sys.pipe.csr := by
    rw [pipeIn_globalInterrupts, hirq]
    exact Csr.sample_quiet h.quiet
  have hnone := csrUpdates_of_not_fires (c := c) (i := pipeIn c t.sys i) hst hf
  have hregs : (pipeNext c t.sys.pipe (pipeIn c t.sys i)).regs =
      (wbWrite t.sys.pipe).toList.foldl RegWrite.apply t.sys.pipe.regs :=
    settledRegs_eq ho.zero
  cases hst.phase (pipeIn c t.sys i).dmemReady with
  | wait hEx hMem hs =>
    have hwb := wbWrite_of_invalid (hst.exMem_memWb hMem)
    have hwb' : wbWrite (pipeNext c t.sys.pipe (pipeIn c t.sys i)) = none := by
      rw [pipeNext_wait hst hEx hs]
      exact wbWrite_of_invalid rfl
    have hexMem : (pipeNext c t.sys.pipe (pipeIn c t.sys i)).exMem = t.sys.pipe.exMem := by
      rw [pipeNext_wait hst hEx hs]
    have hcsr : (pipeNext c t.sys.pipe (pipeIn c t.sys i)).csr = t.sys.pipe.csr := by
      rw [pipeNext_wait hst hEx hs, hsample]
    have hport : portAccess (pipeNext c t.sys.pipe (pipeIn c t.sys i)) =
        portAccess t.sys.pipe := by
      rw [pipeNext_wait hst hEx hs]
      rfl
    have hdone : completedAccess t.sys.pipe i.dmemReady = none := completedAccess_of_memStall hs
    have hlog : runRecord c g t i = g := by
      rw [runRecord, hdone, hwb, hnone]
      simp
    rw [hlog]
    rw [hwb] at hregs
    refine ⟨hcsr.trans h.csr, hcsr ▸ h.quiet, hexMem ▸ h.loads, ?_, hport ▸ h.mem, ?_,
      hport ▸ h.accesses, h.csrUpdates⟩
    · rw [h.regs, inFlight, inFlight, hwb, hwb', hexMem, hregs]
      rfl
    · rw [h.regWrites, inFlight, inFlight, hwb, hwb', hexMem]
  | flow hEx hs =>
    have hwb := wbWrite_next (m := g.mem) (q := pipeNext c t.sys.pipe (pipeIn c t.sys i)) hs
      hdata h.loads (by rw [pipeNext_flow hst hEx hs])
    have hinv : (pipeNext c t.sys.pipe (pipeIn c t.sys i)).exMem.valid = false := by
      rw [pipeNext_flow hst hEx hs]
    have hcsr : (pipeNext c t.sys.pipe (pipeIn c t.sys i)).csr = t.sys.pipe.csr := by
      rw [pipeNext_flow hst hEx hs, hsample]
    rw [runRecord_moving hs, hnone, List.append_nil]
    refine h.moves hregs hwb rfl rfl rfl (memWrite_of_invalid hinv _)
      (portAccess_of_exMem_invalid hinv) rfl rfl (List.append_nil _).symm
      (List.append_nil _).symm (hcsr.trans h.csr) (hcsr ▸ h.quiet) h.csrUpdates ?_
    intro hv
    exact absurd (hinv.symm.trans hv) (by simp)
  | busy hEx hId hMem hs hm =>
    have hMemNext : { memWbNext t.sys.pipe (pipeIn c t.sys i) with valid := false } =
        memWbNext t.sys.pipe (pipeIn c t.sys i) := by
      rw [memWbNext, if_neg (Bool.eq_false_iff.mp hs), hMem]
    have hwb := wbWrite_next (m := g.mem) (q := pipeNext c t.sys.pipe (pipeIn c t.sys i)) hs
      hdata h.loads (by rw [pipeNext_busy hst hEx hm, hMemNext])
    have hinv : (pipeNext c t.sys.pipe (pipeIn c t.sys i)).exMem.valid = false := by
      rw [pipeNext_busy hst hEx hm]
    have hcsr : (pipeNext c t.sys.pipe (pipeIn c t.sys i)).csr = t.sys.pipe.csr := by
      rw [pipeNext_busy hst hEx hm, hsample]
    rw [runRecord_moving hs, hnone, List.append_nil]
    refine h.moves hregs hwb rfl rfl rfl (memWrite_of_invalid hinv _)
      (portAccess_of_exMem_invalid hinv) rfl rfl (List.append_nil _).symm
      (List.append_nil _).symm (hcsr.trans h.csr) (hcsr ▸ h.quiet) h.csrUpdates ?_
    intro hv
    exact absurd (hinv.symm.trans hv) (by simp)
  | leave hEx hId hMem hs hm =>
    have : exFires t.sys.pipe i.dmemReady = true := exFires_eq_true.mpr ⟨hs, hm, hEx⟩
    rw [hf] at this
    cases this

/-- The back end agrees with the machine one step on after an instruction has left EX. -/
theorem BackAgrees.leave (h : BackAgrees t.sys.pipe g a) (hst : Staged t.sys.pipe)
    (ho : Operands t.sys.pipe) (hok : runAllowed imem g t i)
    (hEx : t.sys.pipe.idEx.valid = true) (hm : mStall t.sys.pipe = false)
    (hexec : Executes t.sys.pipe i.dmemReady (imem a.pc) a.pc
      (a.regs (riscvDecode (imem a.pc)).ctrl.rs1) (a.regs (riscvDecode (imem a.pc)).ctrl.rs2)) :
    BackAgrees (pipeNext c t.sys.pipe (pipeIn c t.sys i)) (runRecord c g t i)
      (a.commit n (a.effect c imem)) := by
  obtain ⟨-, hirq, -, hdata⟩ := hok
  have hs : memStall t.sys.pipe (pipeIn c t.sys i).dmemReady = false := hst.memStall_eq hEx _
  have hMem := hst.idEx_exMem hEx
  have hsample : t.sys.pipe.csr.sample (pipeIn c t.sys i).globalInterrupts = t.sys.pipe.csr := by
    rw [pipeIn_globalInterrupts, hirq]
    exact Csr.sample_quiet h.quiet
  have heffect : a.effect c imem =
      instrEffect c (riscvDecode (imem a.pc)) a.pc
        (a.regs (riscvDecode (imem a.pc)).ctrl.rs1) (a.regs (riscvDecode (imem a.pc)).ctrl.rs2)
        t.sys.pipe.csr g.mem := by
    rw [Seq.effect, h.csr, h.mem_eq hMem]
  have hMemNext : { memWbNext t.sys.pipe (pipeIn c t.sys i) with valid := false } =
      memWbNext t.sys.pipe (pipeIn c t.sys i) := by
    rw [memWbNext, if_neg (Bool.eq_false_iff.mp hs), hMem]
  have hwb := wbWrite_next (m := g.mem) (q := pipeNext c t.sys.pipe (pipeIn c t.sys i)) hs
    hdata h.loads (by rw [pipeNext_leave hst hEx hm, hMemNext])
  have hupdates := hexec.csrUpdates_eq (c := c) (i := pipeIn c t.sys i) rfl g.mem
  rw [← heffect] at hupdates
  have hcsr : (pipeNext c t.sys.pipe (pipeIn c t.sys i)).csr =
      (a.commit n (a.effect c imem)).csr := by
    have hnext : (pipeNext c t.sys.pipe (pipeIn c t.sys i)).csr =
        csrNext t.sys.pipe.csr (csrIn c t.sys.pipe (pipeIn c t.sys i)) := rfl
    have hgi : (csrIn c t.sys.pipe (pipeIn c t.sys i)).globalInterrupts =
        (pipeIn c t.sys i).globalInterrupts := rfl
    rw [hnext, csrNext_eq hexec.csrIn_one, hupdates, hgi, hsample, h.csr]
    rfl
  have hquiet : (pipeNext c t.sys.pipe (pipeIn c t.sys i)).csr.meipend = 0#32 := by
    rw [hcsr]
    simp only [Seq.commit]
    cases (a.effect c imem).csrUpdate with
    | none => exact h.csr ▸ h.quiet
    | some u => exact (u.apply_meipend a.csr).trans (h.csr ▸ h.quiet)
  have hw : memWrite (pipeNext c t.sys.pipe (pipeIn c t.sys i)).exMem g.mem =
      (a.effect c imem).regWrite := by
    rw [heffect]
    exact hexec.memWrite_eq g.mem
  have hx : portAccess (pipeNext c t.sys.pipe (pipeIn c t.sys i)) =
      (a.effect c imem).access := by
    rw [heffect, ← hexec.leavingAccess_eq g.mem]
    exact portAccess_leave hs hm hEx (hst.coherent hEx) rfl
  have hmem : (portAccess t.sys.pipe).toList.foldl DataMem.access g.mem = g.mem := by
    rw [portAccess_of_exMem_invalid hMem]
    rfl
  rw [runRecord_moving hs, hupdates]
  have hw' := (congrArg (memWrite _) hmem).trans hw
  refine h.moves (settledRegs_eq ho.zero) hwb rfl rfl rfl hw' hx rfl rfl rfl rfl hcsr hquiet ?_ ?_
  · exact congrArg (· ++ _) h.csrUpdates
  · intro hv hwr
    have hnext : (pipeNext c t.sys.pipe (pipeIn c t.sys i)).exMem =
        exMemNext c t.sys.pipe (pipeIn c t.sys i).dmemReady := rfl
    rw [hnext, exMemNext, if_neg (Bool.eq_false_iff.mp hs)] at hwr ⊢
    exact (hst.coherent hEx).load hwr

end back

/-! ## The refinement -/

theorem agrees_reset (c : Config) (imem : Word → Word) (mem : DataMem) :
    Agrees imem (coreReset c) { mem := mem } (seqReset c mem) where
  front := ⟨(fun hv => by cases hv), (fun hv => by cases hv), (fun hv => by cases hv),
    fun _ _ => rfl⟩
  back := ⟨rfl, rfl, (fun hv => by cases hv), rfl, rfl, rfl, rfl, rfl⟩

/-- **Step lemma**: a cycle of the core is one step of the sequential machine if an
instruction leaves EX, and none otherwise. -/
theorem agrees_step {imem : Word → Word} {t : Clocked.Recorded Core FetchLog} {g : RunLog}
    {a : Seq} {i : CoreIn c.numExtInterrupts} (ht : (fetchSystem c).Reachable t)
    (hokF : fetchAllowed t.log t.sys i) (hok : runAllowed imem g t i)
    (h : Agrees imem t.sys g a) :
    ∃ k, Agrees imem (coreNext c t.sys i) (runRecord c g t i) ((seqStep c imem)^[k] a) := by
  have hst := coreStaged_of_reachable ht.sys
  have ho := operands_of_reachable ht.sys
  have hI := fetchInv_of_reachable ht
  obtain ⟨hreset, hirq, himem, hdata⟩ := id hok
  have hpipe := coreNext_pipe (c := c) (s := t.sys) hreset
  cases hf : exFires t.sys.pipe i.dmemReady with
  | false =>
    -- nothing leaves EX: the sequential machine waits
    refine ⟨0, h.front.stay hst hI hokF hreset himem hf hirq h.back.quiet, ?_⟩
    rw [hpipe]
    exact h.back.stay hst.pipe ho hok hf
  | true =>
    obtain ⟨-, hm, hEx⟩ := exFires_eq_true.mp hf
    -- an instruction leaves EX: the sequential machine executes it
    have hexec := executes_of_leave hst.pipe ho h.back (h.front.idEx hEx).1 hEx hm i.dmemReady
    refine ⟨1, ?_, ?_⟩
    · have hfront := h.front.leave hst hI hokF hreset himem hEx hm
      rw [hexec.exRedirect_eq, h.back.csr] at hfront
      exact hfront
    · rw [hpipe]
      exact h.back.leave hst.pipe ho hok hEx hm hexec

/-- **The pipeline refines the sequential machine**: for every program, every initial data
memory, every configuration and all latencies, what a run without interrupts and further resets
has written to registers, accessed in memory and updated in the CSRs so far are prefixes of what
the sequential machine does in some number of steps. -/
theorem pipeline_refines_sequential (c : Config) (imem : Word → Word) (mem : DataMem)
    {t : Clocked.Recorded (Clocked.Recorded Core FetchLog) RunLog}
    (ht : (runSystem c imem mem).Reachable t) :
    ∃ k, t.log.regWrites <+: (seqRun c imem mem k).regWrites ∧
      t.log.accesses <+: (seqRun c imem mem k).accesses ∧
      t.log.csrUpdates <+: (seqRun c imem mem k).csrUpdates := by
  obtain ⟨k, h⟩ : ∃ k, Agrees imem t.sys.sys t.log ((seqStep c imem)^[k] (seqReset c mem)) := by
    refine Clocked.Reachable.simulates
      (R := fun t a => Agrees imem t.sys.sys t.log a) ?_ ?_ ht
    · rintro ⟨⟨s, f⟩, g⟩ ⟨⟨rfl, rfl⟩, rfl⟩
      exact agrees_reset c imem mem
    · rintro ⟨t, g⟩ i a hr ⟨⟨-, hokF⟩, hok⟩ h
      exact agrees_step hr.sys hokF hok h
  refine ⟨k, ⟨_, h.back.regWrites.symm⟩, ⟨_, h.back.accesses.symm⟩, ?_⟩
  exact ⟨[], (List.append_nil _).trans h.back.csrUpdates.symm⟩

/-- `addi x1, x0, 7` at address 0, no-ops elsewhere. -/
def addiProgram (pc : Word) : Word := if pc = 0#32 then 0x00700093#32 else 0x00000013#32

/-- The cycles up to its writeback. -/
def addiInputs : List (CoreIn 32) :=
  [{}, { imemReady := true, imemInstr := 0x00700093#32 }, {}, {}, {}, {}]

theorem pipeline_refines_sequential_addi :
    ∃ k, [⟨1#5, 7#32⟩] <+: (seqRun {} addiProgram (fun _ => 0#32) k).regWrites := by
  have hreach := Clocked.Reachable.after_allows
    (M := runSystem {} addiProgram (fun _ => 0#32))
    (s := ⟨⟨coreReset {}, {}⟩, { mem := fun _ => 0#32 }⟩) (.init ⟨⟨rfl, rfl⟩, rfl⟩)
    addiInputs
    ⟨⟨⟨trivial, by decide, by decide⟩, rfl, rfl, by decide, by decide⟩,
      ⟨⟨trivial, by decide, by decide⟩, rfl, rfl, by decide, by decide⟩,
      ⟨⟨trivial, by decide, by decide⟩, rfl, rfl, by decide, by decide⟩,
      ⟨⟨trivial, by decide, by decide⟩, rfl, rfl, by decide, by decide⟩,
      ⟨⟨trivial, by decide, by decide⟩, rfl, rfl, by decide, by decide⟩,
      ⟨⟨trivial, by decide, by decide⟩, rfl, rfl, by decide, by decide⟩, trivial⟩
  obtain ⟨k, hregs, -, -⟩ := pipeline_refines_sequential {} addiProgram (fun _ => 0#32) hreach
  have hlog : ((runSystem {} addiProgram (fun _ => 0#32)).after
      ⟨⟨coreReset {}, {}⟩, { mem := fun _ => 0#32 }⟩ addiInputs).log.regWrites =
        [⟨1#5, 7#32⟩] := by decide
  exact ⟨k, hlog ▸ hregs⟩

end RiscvV2
