import RiscvV2.MulDiv

/-!
# Operands of the instruction in EX

`settledRegs` is the register file once the instruction in WB has written back. In the first
cycle of an instruction in EX the forwarding muxes deliver exactly these values. Later they
need not, since the forwarded value has left WB by then; but only the multicycle operations
stay longer, and their unit has captured the operands. `Operands` is this invariant.

So the operands of an instruction are right although the register file itself may still be
behind: a value that WB is writing is forwarded or read through, and there is never a younger
one further ahead, as the stages in between are empty. `IssueSpacing` shows the same without
using this, for instructions that follow each other closely.
-/

namespace RiscvV2

variable {n : ℕ} {c : Config} {p : Pipe}

/-- The register file after the writeback that is in progress. -/
def settledRegs (p : Pipe) : Regs := regfileNext p.regs (regWe p) p.memWb.rd (wbData p)

/-- No multicycle unit is at work. -/
structure UnitsIdle (p : Pipe) : Prop where
  mulBusy : p.mul.busy = false
  mulDone : p.mul.done = false
  divBusy : p.div.busy = false
  divDone : p.div.done = false

/-- A unit at work works on the operation in EX with the operands `a` and `b`. -/
structure UnitsHold (p : Pipe) (a b : Word) : Prop where
  mulRunning : p.mul.busy = true → MulRunning p.mul p.idEx.ctrl.aluOp a b
  mulDone : p.mul.done = true → MulDone p.mul p.idEx.ctrl.aluOp a b
  divRunning : p.div.busy = true → DivRunning p.div p.idEx.ctrl.aluOp a b
  divDone : p.div.done = true → DivDone p.div p.idEx.ctrl.aluOp a b

/-- The instruction in EX sees, or its unit has captured, the settled registers. -/
structure Operands (p : Pipe) : Prop where
  zero : p.regs 0#5 = 0#32
  forwardA : p.idEx.valid = true → UnitsIdle p → p.idEx.ctrl.useRs1 = true →
    exForwardAData p = settledRegs p p.idEx.ctrl.rs1
  forwardB : p.idEx.valid = true → UnitsIdle p → p.idEx.ctrl.useRs2 = true →
    exForwardBData p = settledRegs p p.idEx.ctrl.rs2
  units : UnitsHold p (settledRegs p p.idEx.ctrl.rs1) (settledRegs p p.idEx.ctrl.rs2)

theorem UnitsIdle.hold (h : UnitsIdle p) (a b : Word) : UnitsHold p a b where
  mulRunning hb := absurd hb (by simp [h.mulBusy])
  mulDone hd := absurd hd (by simp [h.mulDone])
  divRunning hb := absurd hb (by simp [h.divBusy])
  divDone hd := absurd hd (by simp [h.divDone])

theorem Staged.units_idle (h : Staged p) (hEx : p.idEx.valid = false) : UnitsIdle p where
  mulBusy := (h.mul_idle hEx).1
  mulDone := (h.mul_idle hEx).2
  divBusy := (h.div_idle hEx).1
  divDone := (h.div_idle hEx).2

/-- Only a multiplication puts the multiplier to work. -/
theorem Staged.mul_idle_of_op (h : Staged p) (hop : p.idEx.ctrl.aluOp.isMul = false) :
    p.mul.busy = false ∧ p.mul.done = false := by
  apply h.mul_idle_of
  rintro ⟨-, hmul⟩
  exact absurd (hop.symm.trans hmul) Bool.false_ne_true

/-- Only a division puts the divider to work. -/
theorem Staged.div_idle_of_op (h : Staged p) (hop : p.idEx.ctrl.aluOp.isDiv = false) :
    p.div.busy = false ∧ p.div.done = false := by
  apply h.div_idle_of
  rintro ⟨-, hdiv⟩
  exact absurd (hop.symm.trans hdiv) Bool.false_ne_true

/-- Only a multicycle operation puts the units to work. -/
theorem Staged.units_idle_of_op (h : Staged p) (hop : p.idEx.ctrl.isMulDiv = false) :
    UnitsIdle p := by
  obtain ⟨hmul, hdiv⟩ : p.idEx.ctrl.aluOp.isMul = false ∧ p.idEx.ctrl.aluOp.isDiv = false := by
    simpa [Ctrl.isMulDiv] using hop
  obtain ⟨hmb, hmd⟩ := h.mul_idle_of_op hmul
  obtain ⟨hdb, hdd⟩ := h.div_idle_of_op hdiv
  exact ⟨hmb, hmd, hdb, hdd⟩

/-- A division is no multiplication. -/
theorem AluOp.isMul_of_isDiv {op : AluOp} (h : op.isDiv = true) : op.isMul = false := by
  cases op <;> simp_all [AluOp.isMul, AluOp.isDiv]

theorem AluOp.isDiv_of_isMul {op : AluOp} (h : op.isMul = true) : op.isDiv = false := by
  cases op <;> simp_all [AluOp.isMul, AluOp.isDiv]

/-! ## Forwarding -/

/-- The registers that settle after an edge at which MEM does not wait. -/
theorem settledRegs_of_memWb {p' : Pipe} {i : PipeIn n} (hregs : p'.regs = settledRegs p)
    (hwb : p'.memWb = memWbNext p i) (hs : memStall p i.dmemReady = false) (rs : BitVec 5) :
    settledRegs p' rs =
      if rs ≠ 0#5 ∧ p.exMem.valid = true ∧ p.exMem.regWrite = true ∧ p.exMem.rd = rs then
        wbData p'
      else settledRegs p rs := by
  have hv : p'.memWb.valid = p.exMem.valid := by rw [hwb, memWbNext, if_neg (by simp [hs])]
  have hw : p'.memWb.regWrite = p.exMem.regWrite := by
    rw [hwb, memWbNext, if_neg (by simp [hs])]
  have hrd : p'.memWb.rd = p.exMem.rd := by rw [hwb, memWbNext, if_neg (by simp [hs])]
  by_cases hr : rs = 0#5
  · rw [if_neg (fun hc => hc.1 hr), hr]
    rfl
  · have hswap : p.exMem.rd != 0#5 && p.exMem.rd == rs ↔ p.exMem.rd = rs := by
      rw [Bool.and_eq_true, bne_iff_ne, beq_iff_eq]
      exact ⟨fun hc => hc.2, fun hc => ⟨hc ▸ hr, hc⟩⟩
    rw [settledRegs, regfileNext, if_neg hr, regWe, hv, hw, hrd, hregs]
    simp only [ne_eq, hr, not_false_eq_true, true_and, Bool.and_eq_true, and_assoc] at hswap ⊢
    simp only [hswap]

/-- **Forwarding is right**: an operand read in ID and carried into EX through the selected
path is the settled register. -/
theorem forwardMux_eq {p' : Pipe} {i : PipeIn n} (hEx : p.idEx.valid = false)
    (hregs : p'.regs = settledRegs p) (hwb : p'.memWb = memWbNext p i)
    (hs : memStall p i.dmemReady = false) (hv : p.ifId.valid = true) {useRs : Bool}
    (huse : useRs = true) (rs : BitVec 5) :
    forwardMux p' (forwardSel p useRs rs)
        (regfileRead p.regs (regWe p) p.memWb.rd (wbData p) rs) = settledRegs p' rs := by
  rw [settledRegs_of_memWb hregs hwb hs, regfileRead_eq_next]
  by_cases hcond : rs ≠ 0#5 ∧ p.exMem.valid = true ∧ p.exMem.regWrite = true ∧ p.exMem.rd = rs
  -- the producer is in MEM now and in WB when the operand is used
  · have hsel : forwardSel p useRs rs = 0b10#2 := by
      simp [forwardSel, hv, huse, hEx, hcond]
    rw [if_pos hcond, hsel]
    rfl
  -- no producer in flight: the value read in ID is the settled one
  · have hsel : forwardSel p useRs rs = 0b00#2 := by
      simp only [forwardSel, hv, huse, hEx, Bool.false_and, Bool.and_true, Bool.true_and,
        Bool.false_eq_true, if_false, Bool.and_eq_true, bne_iff_ne, beq_iff_eq, and_assoc]
      split_ifs with h1 h2
      · exact absurd ⟨h1, h2⟩ hcond
      all_goals rfl
    rw [if_neg hcond, hsel]
    rfl

/-! ## The invariant is kept

For most instructions the invariant lasts one cycle, as they leave EX at once. The work is in
the multicycle operations, where the forwarding path may change under the instruction while the
unit keeps what it has taken. -/

/-- With nothing in WB after the edge the settled registers are the registers. -/
theorem settledRegs_of_memWb_invalid {p' : Pipe} (hzero : p'.regs 0#5 = 0#32)
    (hv : p'.memWb.valid = false) : settledRegs p' = p'.regs := by
  rw [settledRegs, regWe, hv, Bool.false_and]
  exact regfileNext_of_not_we hzero _ _

theorem operands_reset : Operands Pipe.reset where
  zero := rfl
  forwardA hEx := by cases hEx
  forwardB hEx := by cases hEx
  units := UnitsIdle.hold ⟨rfl, rfl, rfl, rfl⟩ _ _

/-- The multiplier goes on with the operands it holds or, at a start, takes those in EX. -/
theorem mulNext_hold (h : Staged p) (ho : Operands p) (hEx : p.idEx.valid = true)
    (hm : mStall p = true) (r : Bool) :
    let a := settledRegs p p.idEx.ctrl.rs1
    let b := settledRegs p p.idEx.ctrl.rs2
    ((mulNext p r).busy = true → MulRunning (mulNext p r) p.idEx.ctrl.aluOp a b) ∧
      ((mulNext p r).done = true → MulDone (mulNext p r) p.idEx.ctrl.aluOp a b) := by
  intro a b
  have hs := h.memStall_eq hEx r
  have hplain := (h.coherent hEx).mulDiv (isMulDiv_of_mStall hm)
  have hdone : (p.mul.done && memStall p r) = false := by rw [hs, Bool.and_false]
  simp only [mulNext, hdone]
  split_ifs with hstart hbusy
  · -- started in this cycle, so the operands are fresh
    simp only [mulStart, Bool.and_eq_true, Bool.not_eq_true'] at hstart
    obtain ⟨⟨⟨⟨-, hop⟩, hmb⟩, hmd⟩, -⟩ := hstart
    obtain ⟨hdb, hdd⟩ := h.div_idle_of_op (AluOp.isDiv_of_isMul hop)
    have hidle : UnitsIdle p := ⟨hmb, hmd, hdb, hdd⟩
    have hA : exAluSrcA p = a := by
      rw [exAluSrcA, if_neg (by simp [hplain.2.2.1]), ho.forwardA hEx hidle hplain.1]
    have hB : exAluSrcB p = b := by
      rw [exAluSrcB, if_neg (by simp [hplain.2.2.2.1]), ho.forwardB hEx hidle hplain.2.1]
    rw [hA, hB]
    have hrun : MulRunning (mulBegin { p.mul with done := false } p.idEx.ctrl.aluOp a b)
        p.idEx.ctrl.aluOp a b :=
      mulBegin_running rfl
    exact ⟨fun _ => hrun, fun hd => absurd hd (by simp [mulBegin])⟩
  · have hrun := ho.units.mulRunning hbusy
    have hdone : MulDone (mulMultiply { p.mul with done := false }) p.idEx.ctrl.aluOp a b :=
      mulMultiply_done ⟨hbusy, rfl, hrun.opHeld, hrun.aReg, hrun.bReg⟩
    exact ⟨fun hb => absurd hb (by simp [mulMultiply]), fun _ => hdone⟩
  · exact ⟨fun hb => absurd hb hbusy, fun hd => absurd hd (by simp)⟩

/-- The same for the divider. -/
theorem divNext_hold (h : Staged p) (ho : Operands p) (hEx : p.idEx.valid = true)
    (hm : mStall p = true) (r : Bool) :
    let a := settledRegs p p.idEx.ctrl.rs1
    let b := settledRegs p p.idEx.ctrl.rs2
    ((divNext p r).busy = true → DivRunning (divNext p r) p.idEx.ctrl.aluOp a b) ∧
      ((divNext p r).done = true → DivDone (divNext p r) p.idEx.ctrl.aluOp a b) := by
  intro a b
  have hs := h.memStall_eq hEx r
  have hplain := (h.coherent hEx).mulDiv (isMulDiv_of_mStall hm)
  cases hstart : divStart p r with
  | true =>
    rw [divNext_of_start hstart]
    simp only [divStart, Bool.and_eq_true, Bool.not_eq_true'] at hstart
    obtain ⟨⟨⟨⟨-, hop⟩, hdb⟩, hdd⟩, -⟩ := hstart
    obtain ⟨hmb, hmd⟩ := h.mul_idle_of_op (AluOp.isMul_of_isDiv hop)
    have hidle : UnitsIdle p := ⟨hmb, hmd, hdb, hdd⟩
    have hA : exAluSrcA p = a := by
      rw [exAluSrcA, if_neg (by simp [hplain.2.2.1]), ho.forwardA hEx hidle hplain.1]
    have hB : exAluSrcB p = b := by
      rw [exAluSrcB, if_neg (by simp [hplain.2.2.2.1]), ho.forwardB hEx hidle hplain.2.1]
    rw [hA, hB]
    by_cases himm : divImmediate p.idEx.ctrl.aluOp a b
    · have hdone := divBegin_immediate (d := p.div) hop himm
      exact ⟨fun hb => absurd hb (by simp [hdone.notBusy]), fun _ => hdone⟩
    · have hrun := (divBegin_running hdd himm).1
      exact ⟨fun _ => hrun, fun hd => absurd hd (by simp [hrun.notDone])⟩
  | false =>
    cases hbusy : p.div.busy with
    | true =>
      have hrun := ho.units.divRunning hbusy
      have hop := (h.divHeld (.inl hbusy)).2
      rw [divNext_of_running hrun]
      by_cases hc : p.div.count = 31#6
      · have hdone := divIterate_done hop hrun hc
        exact ⟨fun hb => absurd hb (by simp [hdone.notBusy]), fun _ => hdone⟩
      · have hrun' := (divIterate_running hrun hc).1
        exact ⟨fun _ => hrun', fun hd => absurd hd (by simp [hrun'.notDone])⟩
    | false =>
      have hdone : (p.div.done && memStall p r) = false := by rw [hs, Bool.and_false]
      simp only [divNext, hstart, hbusy, hdone, Bool.false_eq_true, if_false]
      exact ⟨fun hb => absurd hb (by simp), fun hd => absurd hd (by simp)⟩

theorem divBegin_active (d : DivUnit) (op : AluOp) (a b : Word) :
    (divBegin d op a b).busy = true ∨ (divBegin d op a b).done = true := by
  simp only [divBegin]
  split_ifs <;> simp

theorem divIterate_active {d : DivUnit} (hb : d.busy = true) :
    (divIterate d).busy = true ∨ (divIterate d).done = true := by
  simp only [divIterate]
  split_ifs <;> simp [hb]

/-- A unit that holds EX is at work after the edge. -/
theorem units_active_of_mStall {r : Bool} (hs : memStall p r = false) (hm : mStall p = true)
    {q : Pipe} (hmul : q.mul = mulNext p r) (hdiv : q.div = divNext p r) : ¬ UnitsIdle q := by
  intro hidle
  obtain hst | hst := Bool.or_eq_true_iff.mp hm
  · have hb := hidle.mulBusy
    have hd := hidle.mulDone
    rw [hmul, mulNext] at hb hd
    simp only [mulStall, Bool.and_eq_true, Bool.not_eq_true'] at hst
    cases hbusy : p.mul.busy with
    | true =>
      rw [if_neg (by simp [mulStart, hbusy]), if_pos hbusy] at hd
      cases hd
    | false =>
      rw [if_pos (by simp [mulStart, hst, hbusy, hs])] at hb
      cases hb
  · have hnot : ¬ ((divNext p r).busy = true ∨ (divNext p r).done = true) := by
      rw [← hdiv, hidle.divBusy, hidle.divDone, not_or]
      exact ⟨Bool.false_ne_true, Bool.false_ne_true⟩
    simp only [divStall, Bool.and_eq_true, Bool.not_eq_true'] at hst
    cases hbusy : p.div.busy with
    | true =>
      rw [divNext, if_neg (by simp [divStart, hbusy]), if_pos hbusy] at hnot
      exact hnot (divIterate_active hbusy)
    | false =>
      rw [divNext, if_pos (by simp [divStart, hst, hbusy, hs])] at hnot
      exact hnot (divBegin_active _ _ _ _)

/-- **Step lemma**: every cycle keeps the operands right. -/
theorem pipeNext_operands {i : PipeIn n} (h : Staged p) (ho : Operands p) :
    Operands (pipeNext c p i) := by
  have hzero : (pipeNext c p i).regs 0#5 = 0#32 := rfl
  cases h.phase i.dmemReady with
  | wait hEx hMem hs =>
    have hidle := h.units_idle hEx
    rw [pipeNext_wait h hEx hs] at hzero ⊢
    refine ⟨hzero, fun hv => ?_, fun hv => ?_, ?_⟩
    · rw [hEx] at hv
      cases hv
    · rw [hEx] at hv
      cases hv
    · apply UnitsIdle.hold
      exact ⟨hidle.mulBusy, hidle.mulDone, hidle.divBusy, hidle.divDone⟩
  | flow hEx hs =>
    have hidle := h.units_idle hEx
    rw [pipeNext_flow h hEx hs] at hzero ⊢
    refine ⟨hzero, fun hv _ huse => ?_, fun hv _ huse => ?_, ?_⟩
    -- read in ID now, used in EX from the next cycle on
    · exact forwardMux_eq (i := i) hEx rfl rfl hs hv huse _
    · exact forwardMux_eq (i := i) hEx rfl rfl hs hv huse _
    · apply UnitsIdle.hold
      exact ⟨hidle.mulBusy, hidle.mulDone, hidle.divBusy, hidle.divDone⟩
  | busy hEx hId hMem hs hm =>
    have hactive := units_active_of_mStall (q := pipeNext c p i) hs hm rfl rfl
    have hmul := mulNext_hold h ho hEx hm i.dmemReady
    have hdiv := divNext_hold h ho hEx hm i.dmemReady
    have hsettled : settledRegs (pipeNext c p i) = settledRegs p := by
      rw [settledRegs_of_memWb_invalid hzero (by rw [pipeNext_busy h hEx hm])]
      rfl
    have hidEx : (pipeNext c p i).idEx = p.idEx := by rw [pipeNext_busy h hEx hm]
    -- the forwarding muxes are not looked at again: the unit has its operands
    refine ⟨hzero, fun _ hidle => absurd hidle hactive, fun _ hidle => absurd hidle hactive, ?_⟩
    obtain ⟨hmulRunning, hmulDone⟩ := hmul
    obtain ⟨hdivRunning, hdivDone⟩ := hdiv
    rw [hsettled, hidEx]
    refine ⟨?_, ?_, ?_, ?_⟩
    · rw [hidEx]
      exact hmulRunning
    · rw [hidEx]
      exact hmulDone
    · rw [hidEx]
      exact hdivRunning
    · rw [hidEx]
      exact hdivDone
  | leave hEx hId hMem hs hm =>
    obtain ⟨hmb, hmd⟩ := h.mul_leave (r := i.dmemReady) hEx hm
    obtain ⟨hdb, hdd⟩ := h.div_leave (r := i.dmemReady) hEx hm
    have hv' : (pipeNext c p i).idEx.valid = false := by
      rw [pipeNext_leave h hEx hm]
      dsimp only
      split_ifs <;> rfl
    refine ⟨hzero, fun hv => ?_, fun hv => ?_, ?_⟩
    · rw [hv'] at hv
      cases hv
    · rw [hv'] at hv
      cases hv
    · apply UnitsIdle.hold
      exact ⟨hmb, hmd, hdb, hdd⟩

/-- Every reachable state of the core is staged and has its operands right. -/
theorem operands_of_reachable {s : Core} (hs : (coreSystem c).Reachable s) :
    Operands s.pipe := by
  refine hs.invariant (I := fun s => Operands s.pipe) ?_ fun s i hr _ ho => ?_
  · rintro s rfl
    exact operands_reset
  · have hst := coreStaged_of_reachable hr
    cases hreset : i.reset with
    | true =>
      change Operands (coreNext c s i).pipe
      rw [coreNext_of_reset hreset]
      exact operands_reset
    | false =>
      change Operands (coreNext c s i).pipe
      rw [coreNext_pipe hreset]
      exact pipeNext_operands hst.pipe ho

/-! ## What an instruction that leaves EX has computed -/

/-- A multicycle operation leaves EX with the RV32M result of the settled registers. -/
theorem Operands.mulDiv_result (ho : Operands p) (hEx : p.idEx.valid = true)
    (hm : mStall p = false) (hop : p.idEx.ctrl.isMulDiv = true) :
    exAluResult p = rv32mResult p.idEx.ctrl.aluOp (settledRegs p p.idEx.ctrl.rs1)
      (settledRegs p p.idEx.ctrl.rs2) := by
  obtain ⟨hmul, hdiv⟩ := Bool.or_eq_false_iff.mp hm
  cases hd : divIsOp p with
  | true =>
    have hdone : p.div.done = true := by simpa [divStall, hEx, hd] using hdiv
    rw [exAluResult, if_pos hd]
    exact (ho.units.divDone hdone).result
  | false =>
    have hmul' : p.idEx.ctrl.aluOp.isMul = true := by
      rw [divIsOp] at hd
      simpa [Ctrl.isMulDiv, hd] using hop
    have hdone : p.mul.done = true := by simpa [mulStall, hEx, mulIsOp, hmul'] using hmul
    rw [exAluResult, if_neg (by simp [hd]), if_pos (show mulIsOp p = true from hmul')]
    exact mulResult_eq hmul' (ho.units.mulDone hdone)

end RiscvV2
