import RiscvV2.Core

/-!
# Phases of the back end

Two valid instructions are always at least one stage apart. `Staged` is this invariant as
far as the back end keeps it by itself: it survives every cycle in which IF/ID is only
loaded when it is empty. That the fetch unit sees to this is shown in `FetchUnit`.

Under `Staged` a cycle of the back end is one of four phases (`Staged.phase`): MEM waits for
memory, the instructions flow on with EX empty, the multicycle units hold EX, or the
instruction in EX leaves it. One lemma for each phase says what all registers become.

The reason is in the fetch unit: it asks for an instruction only after the one before has been
accepted, so the response comes two cycles later at the earliest, and the pipeline never fills
up. This makes most of the hazard logic idle. A load in EX never meets its consumer in ID, the
path from EX/MEM into EX is never selected, memory never stalls an instruction in EX, and the
CSR value that was read in ID is still current in EX. Later modules use these facts instead of
the wires; `IssueSpacing` does without them.
-/

namespace RiscvV2

variable {n : ℕ} {c : Config} {p : Pipe} {r : Bool}

/-! ## Wires of an empty or a held EX stage -/

theorem memStall_of_exMem_invalid (h : p.exMem.valid = false) (r : Bool) :
    memStall p r = false := by
  simp [memStall, h]

theorem mStall_of_idEx_invalid (h : p.idEx.valid = false) : mStall p = false := by
  simp [mStall, mulStall, divStall, h]

theorem exFires_eq_true :
    exFires p r = true ↔ memStall p r = false ∧ mStall p = false ∧ p.idEx.valid = true := by
  simp [exFires, and_assoc]

theorem exTrap_of_not_fires (h : exFires p r = false) : exTrap c p r = none := by
  simp [exTrap, h]

theorem exRedirect_of_not_fires (h : exFires p r = false) : exRedirect c p r = none := by
  simp [exRedirect, h]

theorem exCsrWrite_of_not_fires (h : exFires p r = false) : exCsrWrite p r = none := by
  simp [exCsrWrite, h]

theorem exFires_of_exRedirect (h : (exRedirect c p r).isSome = true) : exFires p r = true := by
  by_contra hf
  simp [exRedirect_of_not_fires (Bool.eq_false_iff.mpr hf)] at h

/-! ## The invariant of the back end

`UnitsOwned` is the part about the multicycle units alone. It needs nothing of the other stages
and is kept at any spacing of the instructions, so it is a structure of its own. -/

/-- The units work for the instruction in EX only, and are never busy and done at once. -/
structure UnitsOwned (p : Pipe) : Prop where
  mulHeld : p.mul.busy = true ∨ p.mul.done = true →
    p.idEx.valid = true ∧ p.idEx.ctrl.aluOp.isMul = true
  divHeld : p.div.busy = true ∨ p.div.done = true →
    p.idEx.valid = true ∧ p.idEx.ctrl.aluOp.isDiv = true
  mulOnce : ¬ (p.mul.busy = true ∧ p.mul.done = true)
  divOnce : ¬ (p.div.busy = true ∧ p.div.done = true)

/-- No two adjacent stages are occupied, and the multicycle units only work for the
instruction in EX, which is a decoded one. -/
structure Staged (p : Pipe) : Prop extends UnitsOwned p where
  ifId_idEx : p.ifId.valid = true → p.idEx.valid = false
  idEx_exMem : p.idEx.valid = true → p.exMem.valid = false
  exMem_memWb : p.exMem.valid = true → p.memWb.valid = false
  hold : p.loadUseHoldQ = false
  /-- ID/EX holds the decoding of some instruction word -/
  decoded : p.idEx.valid = true →
    ∃ instr, p.idEx.ctrl = (riscvDecode instr).ctrl ∧ p.idEx.imm = (riscvDecode instr).imm
  /-- the instruction came without the EX/MEM forwarding path -/
  forwardA : p.idEx.forwardASel ≠ 0b01#2
  forwardB : p.idEx.forwardBSel ≠ 0b01#2
  /-- the CSR value read in ID is still the current one; there is no CSR forwarding -/
  csrFresh : p.idEx.valid = true → p.idEx.ctrl.csrAddr ≠ csrMip →
    p.idEx.ctrl.csrAddr ≠ csrMeipend → p.idEx.csrOld = p.csr.read p.idEx.ctrl.csrAddr

/-- The kinds of cycle of a staged back end. -/
inductive Phase (p : Pipe) (r : Bool) : Prop
  /-- MEM waits for memory -/
  | wait (hEx : p.idEx.valid = false) (hMem : p.exMem.valid = true)
      (hs : memStall p r = true)
  /-- EX is empty and everything moves on -/
  | flow (hEx : p.idEx.valid = false) (hs : memStall p r = false)
  /-- a multicycle unit holds EX -/
  | busy (hEx : p.idEx.valid = true) (hId : p.ifId.valid = false)
      (hMem : p.exMem.valid = false) (hs : memStall p r = false) (hm : mStall p = true)
  /-- the instruction in EX leaves it -/
  | leave (hEx : p.idEx.valid = true) (hId : p.ifId.valid = false)
      (hMem : p.exMem.valid = false) (hs : memStall p r = false) (hm : mStall p = false)

/-- A unit is idle when it is neither busy nor done. -/
theorem not_active_iff {busy done : Bool} :
    ¬ (busy = true ∨ done = true) ↔ busy = false ∧ done = false := by
  rw [not_or, Bool.not_eq_true, Bool.not_eq_true]

namespace Staged

variable (h : Staged p)

include h

theorem loadHazardEx_eq : loadHazardEx p = false := by
  cases hv : p.ifId.valid with
  | false => simp [loadHazardEx, hv]
  | true => simp [loadHazardEx, h.ifId_idEx hv]

theorem stallIf_eq : stallIf p = mStall p := by
  simp [stallIf, h.loadHazardEx_eq, h.hold]

theorem memStall_eq (hEx : p.idEx.valid = true) (r : Bool) : memStall p r = false :=
  memStall_of_exMem_invalid (h.idEx_exMem hEx) r

theorem ifId_empty (hEx : p.idEx.valid = true) : p.ifId.valid = false := by
  by_contra hv
  have := h.ifId_idEx (Bool.eq_true_of_not_eq_false hv)
  rw [hEx] at this
  cases this

/-- **Every cycle of a staged back end is in one of four phases.** -/
theorem phase (r : Bool) : Phase p r := by
  cases hEx : p.idEx.valid with
  | false =>
    cases hs : memStall p r with
    | true =>
      refine .wait hEx ?_ hs
      by_contra hv
      rw [memStall_of_exMem_invalid (Bool.eq_false_iff.mpr hv)] at hs
      cases hs
    | false => exact .flow hEx hs
  | true =>
    cases hm : mStall p with
    | true => exact .busy hEx (h.ifId_empty hEx) (h.idEx_exMem hEx) (h.memStall_eq hEx r) hm
    | false => exact .leave hEx (h.ifId_empty hEx) (h.idEx_exMem hEx) (h.memStall_eq hEx r) hm

theorem coherent (hEx : p.idEx.valid = true) : p.idEx.ctrl.Coherent := by
  obtain ⟨instr, hc, -⟩ := h.decoded hEx
  rw [hc]
  exact riscvDecode_coherent instr

theorem mul_idle_of (hnot : ¬ (p.idEx.valid = true ∧ p.idEx.ctrl.aluOp.isMul = true)) :
    p.mul.busy = false ∧ p.mul.done = false := by
  refine not_active_iff.mp fun ha => ?_
  exact hnot (h.mulHeld ha)

theorem div_idle_of (hnot : ¬ (p.idEx.valid = true ∧ p.idEx.ctrl.aluOp.isDiv = true)) :
    p.div.busy = false ∧ p.div.done = false := by
  refine not_active_iff.mp fun ha => ?_
  exact hnot (h.divHeld ha)

theorem mul_idle (hEx : p.idEx.valid = false) : p.mul.busy = false ∧ p.mul.done = false := by
  apply h.mul_idle_of
  rintro ⟨hv, -⟩
  exact absurd (hEx.symm.trans hv) Bool.false_ne_true

theorem div_idle (hEx : p.idEx.valid = false) : p.div.busy = false ∧ p.div.done = false := by
  apply h.div_idle_of
  rintro ⟨hv, -⟩
  exact absurd (hEx.symm.trans hv) Bool.false_ne_true

end Staged

/-- Only the multicycle operations hold EX. -/
theorem isMulDiv_of_mStall (hm : mStall p = true) : p.idEx.ctrl.isMulDiv = true := by
  rw [mStall, Bool.or_eq_true, mulStall, divStall] at hm
  rw [Ctrl.isMulDiv, Bool.or_eq_true]
  obtain hm | hm := hm
  · rw [Bool.and_eq_true, Bool.and_eq_true] at hm
    exact .inl hm.1.2
  · rw [Bool.and_eq_true, Bool.and_eq_true] at hm
    exact .inr hm.1.2

/-! ## The registers after each phase

One equation for each phase, with all conditions of `pipeNext` resolved. Every later step lemma
begins with the case distinction of `Staged.phase` and one of these four rewrites, and none of
them unfolds the clocked processes again. -/

/-- The edge changes the CSRs only for an instruction that fires in EX. -/
theorem csr_of_not_fires {i : PipeIn n} (hf : exFires p i.dmemReady = false)
    (hm : p.idEx.valid = true → memStall p i.dmemReady = false → p.idEx.ctrl.isMret = false) :
    (pipeNext c p i).csr = p.csr.sample i.globalInterrupts := by
  refine csrNext_idle ?_ ?_ ?_
  · simp [csrIn, exCsrWrite_of_not_fires hf]
  · simp [csrIn, exTrap_of_not_fires hf]
  · by_contra hmret
    simp only [csrIn, Bool.not_eq_false, Bool.and_eq_true, Bool.not_eq_true'] at hmret
    obtain ⟨⟨hEx, hs⟩, hmret⟩ := hmret
    rw [hm hEx hs] at hmret
    cases hmret

theorem mulNext_idle (hEx : p.idEx.valid = false) (hb : p.mul.busy = false)
    (hd : p.mul.done = false) : mulNext p r = p.mul := by
  simp only [mulNext]
  rw [if_neg (by simp [mulStart, hEx]), if_neg (by simp [hb]), hd, Bool.false_and, ← hd]

theorem divNext_idle (hEx : p.idEx.valid = false) (hb : p.div.busy = false)
    (hd : p.div.done = false) : divNext p r = p.div := by
  simp only [divNext]
  rw [if_neg (by simp [divStart, hEx]), if_neg (by simp [hb]), hd, Bool.false_and, ← hd]

/-- What ID/EX captures from the decode stage. -/
def idExIssue (p : Pipe) : IdEx where
  valid := p.ifId.valid
  forwardASel := idForwardASel p
  forwardBSel := idForwardBSel p
  pc := p.ifId.pc
  pc4 := p.ifId.pc + 4#32
  rs1Data := idRs1Data p
  rs2Data := idRs2Data p
  imm := (idDecoded p).imm
  redirectTarget := idRedirectTarget p
  csrOld := idCsrOld p
  ctrl := (idDecoded p).ctrl

section wait

variable (h : Staged p) {i : PipeIn n} (hEx : p.idEx.valid = false)
  (hs : memStall p i.dmemReady = true)

include h hEx hs

/-- While MEM waits, everything but writeback and the interrupt samples stands still. -/
theorem pipeNext_wait :
    pipeNext c p i =
      { p with
        memWb := { p.memWb with valid := false }
        regs := regfileNext p.regs (regWe p) p.memWb.rd (wbData p)
        csr := p.csr.sample i.globalInterrupts } := by
  have hf : exFires p i.dmemReady = false := by simp [exFires, hs]
  have hcsr := csr_of_not_fires (c := c) hf (fun hv => by simp [hEx] at hv)
  obtain ⟨hmb, hmd⟩ := h.mul_idle hEx
  obtain ⟨hdb, hdd⟩ := h.div_idle hEx
  simp only [pipeNext] at hcsr ⊢
  simp [hcsr, ifIdNext, idExNext, exMemNext, memWbNext, hs, mulNext_idle hEx hmb hmd,
    divNext_idle hEx hdb hdd]

end wait

section flow

variable (h : Staged p) {i : PipeIn n} (hEx : p.idEx.valid = false)
  (hs : memStall p i.dmemReady = false)

include h hEx hs

/-- With EX empty and no memory wait, every stage hands on what it holds. -/
theorem pipeNext_flow :
    pipeNext c p i =
      { p with
        ifId := if i.ifAccept then ⟨true, i.ifRespPc, i.ifRespInstr⟩
          else { p.ifId with valid := false }
        idEx := idExIssue p
        exMem := { exMemNext c p i.dmemReady with valid := false }
        memWb := memWbNext p i
        regs := regfileNext p.regs (regWe p) p.memWb.rd (wbData p)
        csr := p.csr.sample i.globalInterrupts } := by
  have hf : exFires p i.dmemReady = false := by simp [exFires, hEx]
  have hr := exRedirect_of_not_fires (c := c) hf
  have hst : stallIf p = false := by rw [h.stallIf_eq, mStall_of_idEx_invalid hEx]
  have hcsr := csr_of_not_fires (c := c) hf (fun hv => by simp [hEx] at hv)
  obtain ⟨hmb, hmd⟩ := h.mul_idle hEx
  obtain ⟨hdb, hdd⟩ := h.div_idle hEx
  simp only [pipeNext] at hcsr ⊢
  simp [hcsr, ifIdNext, idExNext, idExFlushCtrl, idExCapture, idExIssue, exMemNext, hs, hr,
    hst, hEx, bubbleEx, h.loadHazardEx_eq, h.hold, mulNext_idle hEx hmb hmd,
    divNext_idle hEx hdb hdd]

end flow

section busy

variable (h : Staged p) {i : PipeIn n} (hEx : p.idEx.valid = true)
  (hm : mStall p = true)

include h hEx hm

/-- While a multicycle unit holds EX, only that unit and writeback move. -/
theorem pipeNext_busy :
    pipeNext c p i =
      { p with
        exMem := { exMemNext c p i.dmemReady with valid := false }
        memWb := { memWbNext p i with valid := false }
        mul := mulNext p i.dmemReady
        div := divNext p i.dmemReady
        regs := regfileNext p.regs (regWe p) p.memWb.rd (wbData p)
        csr := p.csr.sample i.globalInterrupts } := by
  have hs := h.memStall_eq hEx i.dmemReady
  have hf : exFires p i.dmemReady = false := by simp [exFires, hm]
  have hr := exRedirect_of_not_fires (c := c) hf
  have hplain := (h.coherent hEx).mulDiv (isMulDiv_of_mStall hm)
  have hmret : p.idEx.ctrl.isMret = false := by
    have hjump := hplain.2.2.2.2.2.2.2.1
    simp only [Ctrl.isJump, Bool.or_eq_false_iff] at hjump
    exact hjump.1.1.1
  have hcsr := csr_of_not_fires (c := c) hf (fun _ _ => hmret)
  have hst : stallIf p = true := by rw [h.stallIf_eq, hm]
  simp only [pipeNext] at hcsr ⊢
  simp [hcsr, ifIdNext, idExNext, idExFlushCtrl, idExCapture, exMemNext, memWbNext, hs, hr,
    hst, hm, bubbleEx, h.loadHazardEx_eq, h.hold, h.idEx_exMem hEx]

end busy

section leave

variable (h : Staged p) {i : PipeIn n} (hEx : p.idEx.valid = true)
  (hm : mStall p = false)

include h hEx hm

/-- When the instruction in EX leaves, EX and WB are empty after the edge. -/
theorem pipeNext_leave :
    pipeNext c p i =
      { p with
        ifId := if (exRedirect c p i.dmemReady).isNone && i.ifAccept then
            ⟨true, i.ifRespPc, i.ifRespInstr⟩
          else { p.ifId with valid := false }
        idEx := if (exRedirect c p i.dmemReady).isSome then
            { idExCapture p with valid := false, forwardASel := 0#2, forwardBSel := 0#2 }
          else { idExIssue p with valid := false }
        exMem := exMemNext c p i.dmemReady
        memWb := { memWbNext p i with valid := false }
        mul := mulNext p i.dmemReady
        div := divNext p i.dmemReady
        regs := regfileNext p.regs (regWe p) p.memWb.rd (wbData p)
        csr := csrNext p.csr (csrIn c p i) } := by
  have hs := h.memStall_eq hEx i.dmemReady
  have hst : stallIf p = false := by rw [h.stallIf_eq, hm]
  have hId := h.ifId_empty hEx
  cases hr : exRedirect c p i.dmemReady <;>
    simp [pipeNext, ifIdNext, idExNext, idExFlushCtrl, idExCapture, idExIssue, memWbNext, hs,
      hr, hst, hId, bubbleEx, h.loadHazardEx_eq, h.hold, h.idEx_exMem hEx]

end leave

/-! ## The multicycle units after an edge

A unit starts only for an instruction in EX, is reset by the instruction leaving EX, and is
never busy and done at once. So whatever is in a unit belongs to the instruction in EX. -/

theorem mulStart_eq_true : mulStart p r = true ↔
    p.idEx.valid = true ∧ p.idEx.ctrl.aluOp.isMul = true ∧ p.mul.busy = false ∧
      p.mul.done = false ∧ memStall p r = false := by
  simp [mulStart, mulIsOp, and_assoc]

theorem divStart_eq_true : divStart p r = true ↔
    p.idEx.valid = true ∧ p.idEx.ctrl.aluOp.isDiv = true ∧ p.div.busy = false ∧
      p.div.done = false ∧ memStall p r = false := by
  simp [divStart, divIsOp, and_assoc]

/-- The multiplier works after the edge only for the multiplication in EX. -/
theorem UnitsOwned.mulNext_active (h : UnitsOwned p)
    (ha : (mulNext p r).busy = true ∨ (mulNext p r).done = true) :
    p.idEx.valid = true ∧ p.idEx.ctrl.aluOp.isMul = true := by
  simp only [mulNext] at ha
  split_ifs at ha with hstart hbusy
  · obtain ⟨hEx, hop, -⟩ := mulStart_eq_true.mp hstart
    exact ⟨hEx, hop⟩
  · exact h.mulHeld (.inl hbusy)
  · obtain hb | hd := ha
    · exact absurd hb hbusy
    · exact h.mulHeld (.inr (Bool.and_eq_true_iff.mp hd).1)

/-- The divider works after the edge only for the division in EX. -/
theorem UnitsOwned.divNext_active (h : UnitsOwned p)
    (ha : (divNext p r).busy = true ∨ (divNext p r).done = true) :
    p.idEx.valid = true ∧ p.idEx.ctrl.aluOp.isDiv = true := by
  simp only [divNext] at ha
  split_ifs at ha with hstart hbusy
  · obtain ⟨hEx, hop, -⟩ := divStart_eq_true.mp hstart
    exact ⟨hEx, hop⟩
  · exact h.divHeld (.inl hbusy)
  · obtain hb | hd := ha
    · exact absurd hb hbusy
    · exact h.divHeld (.inr (Bool.and_eq_true_iff.mp hd).1)

theorem mulNext_once : ¬ ((mulNext p r).busy = true ∧ (mulNext p r).done = true) := by
  rintro ⟨hb, hd⟩
  simp only [mulNext] at hb hd
  split_ifs at hb hd with hstart hbusy
  · obtain ⟨-, -, -, hdone, -⟩ := mulStart_eq_true.mp hstart
    rw [mulBegin, hdone] at hd
    cases hd
  · cases hb
  · exact hbusy hb

theorem divBegin_once (d : DivUnit) (op : AluOp) (a b : Word) (hd : d.done = false) :
    ¬ ((divBegin d op a b).busy = true ∧ (divBegin d op a b).done = true) := by
  simp only [divBegin]
  split_ifs <;> simp [hd]

theorem divIterate_once (d : DivUnit) (hd : d.done = false) :
    ¬ ((divIterate d).busy = true ∧ (divIterate d).done = true) := by
  simp only [divIterate]
  split_ifs <;> simp [hd]

theorem divNext_once (h : ¬ (p.div.busy = true ∧ p.div.done = true)) :
    ¬ ((divNext p r).busy = true ∧ (divNext p r).done = true) := by
  simp only [divNext]
  split_ifs with hstart hbusy
  · obtain ⟨-, -, -, hdone, -⟩ := divStart_eq_true.mp hstart
    apply divBegin_once
    rw [hdone, Bool.false_and]
  · have hdone : p.div.done = false := by
      by_contra hd
      exact h ⟨hbusy, Bool.eq_true_of_not_eq_false hd⟩
    apply divIterate_once
    rw [hdone, Bool.false_and]
  · exact fun ha => hbusy ha.1

/-- An instruction that leaves EX leaves the multiplier idle. -/
theorem UnitsOwned.mul_leave (h : UnitsOwned p) (hm : mStall p = false)
    (hs : memStall p r = false) : (mulNext p r).busy = false ∧ (mulNext p r).done = false := by
  by_contra hne
  have hactive : (mulNext p r).busy = true ∨ (mulNext p r).done = true :=
    not_not.mp (mt not_active_iff.mp hne)
  obtain ⟨hEx, hop⟩ := h.mulNext_active hactive
  -- a multiplication that leaves is done
  have hd : p.mul.done = true := by
    rw [mStall, Bool.or_eq_false_iff, mulStall, mulIsOp, hEx, hop] at hm
    simpa using hm.1
  have hb : p.mul.busy = false := by
    by_contra hb
    exact h.mulOnce ⟨Bool.eq_true_of_not_eq_false hb, hd⟩
  simp [mulNext, mulStart, hd, hb, hs] at hne

/-- An instruction that leaves EX leaves the divider idle. -/
theorem UnitsOwned.div_leave (h : UnitsOwned p) (hm : mStall p = false)
    (hs : memStall p r = false) : (divNext p r).busy = false ∧ (divNext p r).done = false := by
  by_contra hne
  have hactive : (divNext p r).busy = true ∨ (divNext p r).done = true :=
    not_not.mp (mt not_active_iff.mp hne)
  obtain ⟨hEx, hop⟩ := h.divNext_active hactive
  -- a division that leaves is done
  have hd : p.div.done = true := by
    rw [mStall, Bool.or_eq_false_iff, divStall, divIsOp, hEx, hop] at hm
    simpa using hm.2
  have hb : p.div.busy = false := by
    by_contra hb
    exact h.divOnce ⟨Bool.eq_true_of_not_eq_false hb, hd⟩
  simp [divNext, divStart, hd, hb, hs] at hne

/-- EX is held when MEM waits or a multicycle unit is at work. -/
theorem idEx_held {i : PipeIn n} (h : memStall p i.dmemReady = true ∨ mStall p = true) :
    (pipeNext c p i).idEx = p.idEx := by
  change idExNext c p i.dmemReady = p.idEx
  by_cases hs : memStall p i.dmemReady = true
  · rw [idExNext, if_pos hs]
  · have hm : mStall p = true := h.resolve_left hs
    have hr : exRedirect c p i.dmemReady = none := exRedirect_of_not_fires (by simp [exFires, hm])
    have hst : stallIf p = true := by simp [stallIf, hm]
    rw [idExNext, if_neg hs, if_neg (by simp [idExFlushCtrl, hr, hm]), if_pos hst, idExCapture,
      if_pos hst]

/-- What is in IF/ID after an edge was there before it, or is the response accepted at it. -/
theorem ifId_stays_or_loads {i : PipeIn n} (hv : (pipeNext c p i).ifId.valid = true) :
    p.ifId.valid = true ∧ (pipeNext c p i).ifId = p.ifId ∨
      i.ifAccept = true ∧ (pipeNext c p i).ifId = ⟨true, i.ifRespPc, i.ifRespInstr⟩ := by
  change (ifIdNext c p i).valid = true at hv
  change _ ∧ ifIdNext c p i = _ ∨ _ ∧ ifIdNext c p i = _
  rw [ifIdNext] at hv ⊢
  split_ifs at hv ⊢ with hs hr hst ha
  · exact .inl ⟨hv, rfl⟩
  · exact .inl ⟨hv, rfl⟩
  · exact .inr ⟨ha, rfl⟩

/-- What is in ID/EX after an edge was there before it, or comes from ID. -/
theorem idEx_stays_or_issues {i : PipeIn n} (hv : (pipeNext c p i).idEx.valid = true) :
    p.idEx.valid = true ∧ (pipeNext c p i).idEx = p.idEx ∨
      p.ifId.valid = true ∧ (pipeNext c p i).idEx = idExIssue p := by
  change (idExNext c p i.dmemReady).valid = true at hv
  change _ ∧ idExNext c p i.dmemReady = _ ∨ _ ∧ idExNext c p i.dmemReady = _
  rw [idExNext] at hv ⊢
  split_ifs at hv ⊢ with hs hflush hst
  · exact .inl ⟨hv, rfl⟩
  · rw [idExCapture, if_pos hst] at hv ⊢
    exact .inl ⟨hv, rfl⟩
  · rw [idExCapture, if_neg hst]
    exact .inr ⟨hv, rfl⟩

/-- **The units keep belonging to EX**, whether the other stages are staged or not. -/
theorem UnitsOwned.next {i : PipeIn n} (h : UnitsOwned p) : UnitsOwned (pipeNext c p i) := by
  have hheld : (mStall p = false → memStall p i.dmemReady = false → False) →
      (pipeNext c p i).idEx = p.idEx := by
    intro hne
    refine idEx_held ?_
    by_contra hnot
    rw [not_or, Bool.not_eq_true, Bool.not_eq_true] at hnot
    exact hne hnot.2 hnot.1
  refine ⟨fun ha => ?_, fun ha => ?_, mulNext_once, divNext_once h.divOnce⟩
  · have hsame := hheld fun hm hs => not_active_iff.mpr (h.mul_leave hm hs) ha
    rw [hsame]
    exact h.mulNext_active ha
  · have hsame := hheld fun hm hs => not_active_iff.mpr (h.div_leave hm hs) ha
    rw [hsame]
    exact h.divNext_active ha

theorem Staged.mul_leave (h : Staged p) (hEx : p.idEx.valid = true) (hm : mStall p = false) :
    (mulNext p r).busy = false ∧ (mulNext p r).done = false :=
  h.toUnitsOwned.mul_leave hm (h.memStall_eq hEx r)

theorem Staged.div_leave (h : Staged p) (hEx : p.idEx.valid = true) (hm : mStall p = false) :
    (divNext p r).busy = false ∧ (divNext p r).done = false :=
  h.toUnitsOwned.div_leave hm (h.memStall_eq hEx r)

/-! ## The invariant is kept -/

theorem forwardSel_ne (h : p.ifId.valid = false ∨ p.idEx.valid = false) (useRs : Bool)
    (rs : BitVec 5) : forwardSel p useRs rs ≠ 0b01#2 := by
  unfold forwardSel
  split_ifs with hId hEx
  · -- the path from EX/MEM asks for both stages to be occupied
    simp only [Bool.and_eq_true] at hId hEx
    obtain h | h := h
    · exact absurd (h.symm.trans hId.1.1) Bool.false_ne_true
    · exact absurd (h.symm.trans hEx.1.1.1) Bool.false_ne_true
  · decide
  · decide
  · decide

theorem staged_reset : Staged Pipe.reset where
  ifId_idEx _ := rfl
  idEx_exMem _ := rfl
  exMem_memWb _ := rfl
  hold := rfl
  decoded hv := by cases hv
  forwardA := by decide
  forwardB := by decide
  mulHeld := by
    rintro (hv | hv)
    · cases hv
    · cases hv
  divHeld := by
    rintro (hv | hv)
    · cases hv
    · cases hv
  mulOnce hv := by cases hv.1
  divOnce hv := by cases hv.1
  csrFresh hv := by cases hv

/-- **Step lemma**: a cycle keeps the back end staged, provided IF/ID is loaded only when it
is empty. -/
theorem pipeNext_staged {i : PipeIn n} (h : Staged p)
    (hacc : i.ifAccept = true → p.ifId.valid = false) : Staged (pipeNext c p i) := by
  have hunits := h.toUnitsOwned.next (c := c) (i := i)
  cases h.phase i.dmemReady with
  | wait hEx hMem hs =>
    rw [pipeNext_wait h hEx hs]
    -- only WB moves, and it is emptied
    refine { h with exMem_memWb := fun _ => rfl, csrFresh := fun hv => ?_ }
    exact absurd (hEx.symm.trans hv) Bool.false_ne_true
  | flow hEx hs =>
    rw [pipeNext_flow h hEx hs] at hunits ⊢
    -- IF/ID was empty if a response is accepted, so only one of the two front stages fills
    refine
      { toUnitsOwned := hunits
        ifId_idEx := ?_
        idEx_exMem := fun _ => rfl
        exMem_memWb := fun hv => by cases hv
        hold := h.hold
        decoded := fun _ => ⟨p.ifId.instr, rfl, rfl⟩
        forwardA := forwardSel_ne (.inr hEx) _ _
        forwardB := forwardSel_ne (.inr hEx) _ _
        csrFresh := fun _ hip hpend => (Csr.read_sample hip hpend).symm }
    simp only [idExIssue]
    split_ifs with ha
    · exact fun _ => hacc ha
    · intro hv
      cases hv
  | busy hEx hId hMem hs hm =>
    rw [pipeNext_busy h hEx hm] at hunits ⊢
    refine
      { toUnitsOwned := hunits
        ifId_idEx := h.ifId_idEx
        idEx_exMem := fun _ => rfl
        exMem_memWb := fun _ => rfl
        hold := h.hold
        decoded := h.decoded
        forwardA := h.forwardA
        forwardB := h.forwardB
        csrFresh := ?_ }
    intro _ hip hpend
    rw [h.csrFresh hEx hip hpend, Csr.read_sample hip hpend]
  | leave hEx hId hMem hs hm =>
    -- the instruction moves on to MEM and nothing was behind it to follow
    have hidle : ¬ (pipeNext c p i).idEx.valid = true := by
      rw [pipeNext_leave h hEx hm]
      dsimp only
      split_ifs <;> exact not_false
    rw [pipeNext_leave h hEx hm] at hidle hunits ⊢
    refine
      { toUnitsOwned := hunits
        ifId_idEx := fun _ => Bool.eq_false_iff.mpr hidle
        idEx_exMem := fun hv => absurd hv hidle
        exMem_memWb := fun _ => rfl
        hold := h.hold
        decoded := fun hv => absurd hv hidle
        forwardA := ?_
        forwardB := ?_
        csrFresh := fun hv => absurd hv hidle }
    · dsimp only
      split
      · simp
      · exact forwardSel_ne (.inl hId) _ _
    · dsimp only
      split
      · simp
      · exact forwardSel_ne (.inl hId) _ _

/-- IF/ID is occupied after an edge by an instruction that waited or was just delivered. -/
theorem ifId_of_next {i : PipeIn n} (h : Staged p)
    (hv : (pipeNext c p i).ifId.valid = true) :
    (memStall p i.dmemReady = true ∧ p.ifId.valid = true) ∨
      (memStall p i.dmemReady = false ∧ i.ifAccept = true ∧
        (exRedirect c p i.dmemReady).isNone = true) := by
  cases h.phase i.dmemReady with
  | wait hEx hMem hs =>
    rw [pipeNext_wait h hEx hs] at hv
    exact .inl ⟨hs, hv⟩
  | flow hEx hs =>
    rw [pipeNext_flow h hEx hs] at hv
    have hf : exFires p i.dmemReady = false := by simp [exFires, hEx]
    rw [exRedirect_of_not_fires hf]
    cases ha : i.ifAccept with
    | true => exact .inr ⟨hs, rfl, rfl⟩
    | false => simp [ha] at hv
  | busy hEx hId hMem hs hm =>
    rw [pipeNext_busy h hEx hm] at hv
    simp [hId] at hv
  | leave hEx hId hMem hs hm =>
    rw [pipeNext_leave h hEx hm] at hv
    dsimp only at hv
    split_ifs at hv with ha
    obtain ⟨hr, ha⟩ := Bool.and_eq_true_iff.mp ha
    exact .inr ⟨hs, ha, hr⟩

/-- ID/EX is occupied after an edge by an instruction that stayed or came from ID. -/
theorem idEx_of_next {i : PipeIn n} (h : Staged p)
    (hv : (pipeNext c p i).idEx.valid = true) :
    p.idEx.valid = true ∧ mStall p = true ∨
      p.idEx.valid = false ∧ memStall p i.dmemReady = false ∧ p.ifId.valid = true := by
  cases h.phase i.dmemReady with
  | wait hEx hMem hs =>
    rw [pipeNext_wait h hEx hs] at hv
    simp [hEx] at hv
  | flow hEx hs =>
    rw [pipeNext_flow h hEx hs] at hv
    exact .inr ⟨hEx, hs, hv⟩
  | busy hEx hId hMem hs hm => exact .inl ⟨hEx, hm⟩
  | leave hEx hId hMem hs hm =>
    rw [pipeNext_leave h hEx hm] at hv
    simp only at hv
    split_ifs at hv

end RiscvV2
