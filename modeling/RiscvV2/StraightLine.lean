import RiscvV2.Execute
import RiscvV2.Sequential

/-!
# Straight-line code

The sequential machine against the ISA, as far as an instruction touches neither memory nor a
CSR: a step does to the registers and the pc what `Instr.exec` says. Code that only computes
is then a fold over its instructions.

`x0` is hard-wired to zero by the register file; that a state of the machine respects this is
a field of `ArchState`.

The result serves the code that firmware generates: to know what a sequence of instructions does
it is enough to fold `Instr.exec` over it, with no decoder and no pipeline in sight. Whether an
instruction only computes is a boolean function, so that the condition is evaluated for code
that is given.
-/

namespace RiscvV2

open Rv32 (Reg Instr Outcome)

/-! ## Effects and outcomes

For an instruction without access, trap and CSR the effect of the machine has a pc and a
register write only, and both are read off the outcome. -/

/-- The register write of an outcome, unless a load still has to supply the data. -/
def outcomeWrite (o : Outcome) : Option RegWrite :=
  match o.rd with
  | some (rd, .value v) => regWriteOf true rd v
  | _ => none

section effects

variable {c : Config} {d : Decoded} {pc a b old : Word} {csr : Csr} {mem : DataMem}

theorem selectAccess_eq_none {memRead memWrite memUnsigned : Bool} {memSize : BitVec 2}
    {addr data : Word} :
    selectAccess memRead memWrite memSize memUnsigned addr data = none ↔
      memRead = false ∧ memWrite = false := by
  cases memRead <;> cases memWrite <;> simp [selectAccess]

theorem instrResult_eq (hop : d.ctrl.isMulDiv = false) :
    instrResult d.ctrl pc d.imm a b = d.aluResult pc a b := by
  rw [instrResult, hop]
  rfl

theorem instrTrap_eq_none {result : Word} (henv : d.ctrl.isEnvCall = false)
    (hmem : d.ctrl.isMem = false) : instrTrap c d.ctrl pc result = none := by
  obtain ⟨hecall, hebreak⟩ := Bool.or_eq_false_iff.mp henv
  obtain ⟨hread, hwrite⟩ := Bool.or_eq_false_iff.mp hmem
  simp [instrTrap, hecall, hebreak, hread, hwrite]

theorem instrNextPc_eq (old : Word) (hmret : d.ctrl.isMret = false) :
    instrNextPc d.ctrl pc d.imm a b csr none = (d.outcome pc a b old).nextPc := by
  rw [instrNextPc, hmret]
  rfl

theorem regWriteOf_eq (hd : d.ctrl.Coherent) (hread : d.ctrl.memRead = false)
    (hold : csr.read d.ctrl.csrAddr = old) :
    regWriteOf d.ctrl.regWrite d.ctrl.rd (instrValue d.ctrl pc (d.aluResult pc a b) csr mem) =
      outcomeWrite (d.outcome pc a b old) := by
  subst hold
  cases hwrite : d.ctrl.regWrite with
  | false =>
    rw [outcomeWrite, Decoded.outcome, hwrite]
    rfl
  | true =>
    have hload : d.ctrl.wbSel ≠ .load := by
      intro h
      rw [(hd.load hwrite).mp h] at hread
      cases hread
    rw [outcomeWrite, Decoded.outcome, hwrite, instrValue]
    cases hsel : d.ctrl.wbSel with
    | load => exact absurd hsel hload
    | alu | pc4 | csr => rfl

theorem instrCsrUpdate_eq_none (hmret : d.ctrl.isMret = false)
    (hold : csr.read d.ctrl.csrAddr = old) (hcsr : (d.outcome pc a b old).csr = none) :
    instrCsrUpdate d.ctrl pc a csr none = none := by
  have hcsr : (if d.ctrl.csrRead then
      (csrNewValue d.ctrl.funct3 d.ctrl.rs1 old a).map fun v => (d.ctrl.csrAddr, v)
      else none) = none := hcsr
  rw [instrCsrUpdate, hmret, hold]
  cases hread : d.ctrl.csrRead with
  | false => rfl
  | true =>
    rw [hread, if_pos rfl, Option.map_eq_none_iff] at hcsr
    rw [hcsr]
    rfl

/-- The effect of an instruction that touches neither memory nor a CSR is its outcome. -/
theorem instrEffect_eq (i : Instr)
    (hold : csr.read (riscvDecode i.encode).ctrl.csrAddr = old)
    (hmem : (i.exec pc a b old).mem = none) (hcsr : (i.exec pc a b old).csr = none) :
    instrEffect c (riscvDecode i.encode) pc a b csr mem =
      ⟨(i.exec pc a b old).nextPc, outcomeWrite (i.exec pc a b old), none, none⟩ := by
  obtain ⟨-, -, hexec, -, hmret, henv, hop⟩ := decodesTo i
  have hd := riscvDecode_coherent i.encode
  rw [← hexec] at hmem hcsr ⊢
  generalize riscvDecode i.encode = d at *
  obtain ⟨hread, hwrite⟩ := selectAccess_eq_none.mp hmem
  have hisMem : d.ctrl.isMem = false := by rw [Ctrl.isMem, hread, hwrite]; rfl
  have haccess : ∀ addr, instrAccess d.ctrl addr b = none := by
    intro addr
    rw [instrAccess, hisMem]
    rfl
  simp only [instrEffect, instrResult_eq hop, instrTrap_eq_none henv hisMem,
    instrCsrUpdate_eq_none hmret hold hcsr, haccess, Option.isSome_none, Bool.false_eq_true,
    if_false, regWriteOf_eq hd hread hold]
  rw [instrNextPc_eq old hmret]

end effects

/-! ## States of the machine -/

/-- A state in which `x0` reads zero, as the register file has it. -/
structure ArchState extends Seq where
  zero : regs 0#5 = 0#32

/-- A register write never changes `x0`. -/
theorem regWriteOf_apply_zero (regs : Regs) (we : Bool) (rd : BitVec 5) (data : Word) :
    (regWriteOf we rd data).toList.foldl RegWrite.apply regs 0#5 = regs 0#5 := by
  rw [regWriteOf]
  split
  case isTrue h =>
    have hne : rd ≠ 0#5 := by simpa using (Bool.and_eq_true_iff.mp h).2
    exact if_neg hne.symm
  case isFalse => rfl

theorem seqStep_zero {c : Config} {imem : Word → Word} {s : Seq} (h : s.regs 0#5 = 0#32) :
    (seqStep c imem s).regs 0#5 = 0#32 := by
  rw [seqStep, Seq.commit, Seq.effect, instrEffect]
  dsimp only
  split
  · exact h
  · rw [regWriteOf_apply_zero, h]

namespace ArchState

/-- The state before the first instruction. -/
def reset (c : Config) (mem : DataMem) : ArchState := ⟨seqReset c mem, rfl⟩

/-- A step of the machine. -/
def step (c : Config) (imem : Word → Word) (s : ArchState) : ArchState :=
  ⟨seqStep c imem s.toSeq, seqStep_zero s.zero⟩

theorem toSeq_iterate (c : Config) (imem : Word → Word) (k : ℕ) (s : ArchState) :
    ((step c imem)^[k] s).toSeq = (seqStep c imem)^[k] s.toSeq := by
  have hstep : Function.Semiconj toSeq (step c imem) (seqStep c imem) := fun _ => rfl
  exact hstep.iterate_right k s

/-- The runs from reset are those of the sequential machine. -/
theorem toSeq_run (c : Config) (imem : Word → Word) (mem : DataMem) (k : ℕ) :
    ((step c imem)^[k] (reset c mem)).toSeq = seqRun c imem mem k :=
  toSeq_iterate c imem k (reset c mem)

end ArchState

/-! ## Code that only computes

The pc runs through the code, so the instruction memory has to hold it at consecutive words. The
induction is on the code, with the state after the first instruction as the new start. -/

/-- The value of a source register. An instruction without one does not look at it. -/
def operand (regs : Regs) (r : Option Reg) : Word := r.elim 0#32 regs

/-- The instruction computes a register and does nothing else. -/
def computes : Instr → Bool
  | .lui .. | .auipc .. | .arithImm .. | .shiftImm .. | .arith .. | .sub .. | .shift .. => true
  | .jal .. | .jalr .. | .branch .. | .load .. | .store .. | .csr .. | .csrImm .. => false

/-- The state after an instruction that only computes. -/
def Seq.execute (s : Seq) (i : Instr) : Seq :=
  let w := outcomeWrite (i.exec s.pc (operand s.regs i.rs1) (operand s.regs i.rs2) 0#32)
  { s with
    pc := s.pc + 4#32
    regs := w.toList.foldl RegWrite.apply s.regs
    regWrites := s.regWrites ++ w.toList }

/-- The program has these words from `pc` on. -/
def HoldsCode (imem : Word → Word) (pc : Word) : List Word → Prop
  | [] => True
  | w :: ws => imem pc = w ∧ HoldsCode imem (pc + 4#32) ws

section code

variable {c : Config} {imem : Word → Word} {i : Instr} {s : Seq} {pc a b : Word} {regs : Regs}

/-- Such an instruction looks at its source registers only. -/
theorem exec_of_computes (hi : computes i = true) (ha : ∀ r ∈ i.rs1, regs r = a)
    (hb : ∀ r ∈ i.rs2, regs r = b) (old : Word) :
    i.exec pc a b old = i.exec pc (operand regs i.rs1) (operand regs i.rs2) 0#32 := by
  cases i with
  | lui | auipc => rfl
  | arithImm op rd rs1 imm | shiftImm op rd rs1 imm =>
    obtain rfl := ha rs1 rfl
    rfl
  | arith op rd rs1 rs2 | sub rd rs1 rs2 | shift op rd rs1 rs2 =>
    obtain rfl := ha rs1 rfl
    obtain rfl := hb rs2 rfl
    rfl
  | jal | jalr | branch | load | store | csr | csrImm => cases hi

theorem exec_eq_compute (hi : computes i = true) (old : Word) :
    ∃ rd v, i.exec pc a b old = .compute pc rd v := by
  cases i with
  | lui | auipc | arithImm | shiftImm | arith | sub | shift => exact ⟨_, _, rfl⟩
  | jal | jalr | branch | load | store | csr | csrImm => cases hi

/-- The decoder names the registers the instruction reads. -/
theorem usedRs1_eq {r : Reg} (hr : r ∈ i.rs1) : (riscvDecode i.encode).ctrl.rs1 = r := by
  rw [← (decodesTo i).rs1, Ctrl.usedRs1] at hr
  split at hr
  · exact Option.some.inj hr
  · cases hr

theorem usedRs2_eq {r : Reg} (hr : r ∈ i.rs2) : (riscvDecode i.encode).ctrl.rs2 = r := by
  rw [← (decodesTo i).rs2, Ctrl.usedRs2] at hr
  split at hr
  · exact Option.some.inj hr
  · cases hr

/-- **A step of the machine executes the instruction.** -/
theorem seqStep_eq_execute (hi : computes i = true) (himem : imem s.pc = i.encode) :
    seqStep c imem s = s.execute i := by
  obtain ⟨d, hd⟩ : ∃ d, riscvDecode i.encode = d := ⟨_, rfl⟩
  have ha : ∀ r ∈ i.rs1, s.regs r = s.regs d.ctrl.rs1 := by
    intro r hr
    rw [← hd, usedRs1_eq hr]
  have hb : ∀ r ∈ i.rs2, s.regs r = s.regs d.ctrl.rs2 := by
    intro r hr
    rw [← hd, usedRs2_eq hr]
  obtain ⟨old, hold⟩ : ∃ old, s.csr.read d.ctrl.csrAddr = old := ⟨_, rfl⟩
  have hexec : i.exec s.pc (s.regs d.ctrl.rs1) (s.regs d.ctrl.rs2) old = _ :=
    exec_of_computes hi ha hb old
  obtain ⟨rd, v, hcompute⟩ : ∃ rd v,
      i.exec s.pc (s.regs d.ctrl.rs1) (s.regs d.ctrl.rs2) old = .compute s.pc rd v :=
    exec_eq_compute hi old
  have hmem := congrArg Outcome.mem hcompute
  have hcsr := congrArg Outcome.csr hcompute
  subst hd
  rw [seqStep, Seq.effect, himem, instrEffect_eq i hold hmem hcsr, Seq.execute, ← hexec, hcompute,
    Seq.commit]
  simp only [Outcome.compute, Option.toList_none, List.append_nil, List.foldl_nil]

/-- **Straight-line code runs as a fold over its instructions.** -/
theorem seqStep_code (code : List Instr) (hcode : ∀ i ∈ code, computes i = true)
    (himem : HoldsCode imem s.pc (code.map Instr.encode)) :
    (seqStep c imem)^[code.length] s = code.foldl Seq.execute s := by
  induction code generalizing s with
  | nil => rfl
  | cons i code ih =>
    obtain ⟨hfirst, hrest⟩ := himem
    rw [List.length_cons, Function.iterate_succ_apply,
      seqStep_eq_execute (hcode i List.mem_cons_self) hfirst]
    exact ih (fun j hj => hcode j (List.mem_cons_of_mem i hj)) hrest

/-- Such code goes on behind itself and leaves the CSRs and the memory alone. -/
theorem foldl_execute_frame (code : List Instr) :
    (code.foldl Seq.execute s).pc = s.pc + BitVec.ofNat 32 (4 * code.length) ∧
      (code.foldl Seq.execute s).csr = s.csr ∧ (code.foldl Seq.execute s).mem = s.mem := by
  induction code generalizing s with
  | nil =>
    refine ⟨?_, rfl, rfl⟩
    exact (BitVec.add_zero s.pc).symm
  | cons i code ih =>
    obtain ⟨hpc, hcsr, hmem⟩ := ih (s := s.execute i)
    refine ⟨?_, hcsr, hmem⟩
    calc (code.foldl Seq.execute (s.execute i)).pc
        = s.pc + 4#32 + BitVec.ofNat 32 (4 * code.length) := hpc
      _ = s.pc + BitVec.ofNat 32 (4 * (i :: code).length) := by
        rw [BitVec.add_assoc, ← BitVec.ofNat_add, List.length_cons, Nat.mul_succ, Nat.add_comm]

/-- An instruction that computes `v` into a register other than `x0`. -/
theorem execute_regs {rd : Reg} {v : Word} (hrd : rd ≠ 0#5)
    (h : i.exec s.pc (operand s.regs i.rs1) (operand s.regs i.rs2) 0#32 = .compute s.pc rd v) :
    (s.execute i).regs = RegWrite.apply s.regs ⟨rd, v⟩ := by
  have hwrite : regWriteOf true rd v = some ⟨rd, v⟩ := if_pos (by simpa using hrd)
  rw [Seq.execute, h]
  change (regWriteOf true rd v).toList.foldl RegWrite.apply s.regs = _
  rw [hwrite]
  rfl

end code

end RiscvV2
