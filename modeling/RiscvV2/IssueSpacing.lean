import RiscvV2.Refinement

/-!
# Any issue spacing

The shipped fetch unit never puts two instructions into adjacent stages. Here it is replaced
by any source: whenever the back end can take an instruction it may be given one, so IF/ID,
ID/EX, EX/MEM and MEM/WB can all be occupied. `Staged` is of no use then. What is shown
instead is that the operands of every instruction are those of the writes before it, whatever
stands between producer and consumer.

`IssueLog` keeps the program as the back end saw it: the instructions still waiting, those
that left EX, and the register writes in the order they were made.

This is about hardware that is there but asleep. The hazard unit, the forwarding path from
EX/MEM and the gap behind a load are never exercised by the fetch unit that the core is shipped
with, and a faster one would wake them. The result says that they would do their work.
-/

namespace RiscvV2

variable {n : ℕ} {c : Config} {p : Pipe} {r : Bool}

/-! ## The back end with any source -/

/-- The back end with an unconstrained source of instructions. -/
def backEnd (c : Config) : Clocked Pipe (PipeIn c.numExtInterrupts) where
  init p := p = Pipe.reset
  allowed _ _ := True
  next := pipeNext c

/-- The source puts an instruction into IF/ID. -/
def loads (c : Config) (p : Pipe) (i : PipeIn n) : Bool :=
  !memStall p i.dmemReady && (exRedirect c p i.dmemReady).isNone && !stallIf p && i.ifAccept

/-- The register named by a write enable and a register number: `x0` is never written. -/
def destOf (we : Bool) (rd : BitVec 5) : Option (BitVec 5) :=
  if we && rd != 0#5 then some rd else none

/-- The register an instruction writes. -/
def destination (instr : Word) : Option (BitVec 5) :=
  destOf (riscvDecode instr).ctrl.regWrite (riscvDecode instr).ctrl.rd

/-- The program of a run, oldest instruction first. -/
structure IssueLog where
  /-- instructions in IF/ID and EX -/
  waiting : List Word := []
  /-- instructions that left EX and were not trapped -/
  left : List Word := []
  /-- writes to the register file -/
  written : List RegWrite := []

/-- One cycle of the record: the instruction that fires is the oldest one waiting, and a
redirect squashes the others. -/
def issueLogNext (c : Config) (g : IssueLog) (p : Pipe) (i : PipeIn n) : IssueLog where
  waiting :=
    (if (exRedirect c p i.dmemReady).isSome then []
      else if exFires p i.dmemReady then g.waiting.tail else g.waiting) ++
      if loads c p i then [i.ifRespInstr] else []
  left :=
    if exFires p i.dmemReady && (exTrap c p i.dmemReady).isNone then
      g.left ++ g.waiting.head?.toList
    else g.left
  written := g.written ++ (wbWrite p).toList

/-- Runs of the back end with their program. -/
def issueSystem (c : Config) :
    Clocked (Clocked.Recorded Pipe IssueLog) (PipeIn c.numExtInterrupts) :=
  (backEnd c).record {} (fun _ _ _ => True) (issueLogNext c)

/-- The value of the youngest write to a register, zero if there is none. -/
def youngestWrite (ws : List RegWrite) (rs : BitVec 5) : Word :=
  match ws.reverse.find? (fun w => w.rd == rs) with
  | some w => w.data
  | none => 0#32

/-- Applying the writes in order leaves the youngest one in each register. -/
theorem youngestWrite_eq_foldl (ws : List RegWrite) :
    youngestWrite ws = ws.foldl RegWrite.apply Regs.zero := by
  induction ws using List.reverseRecOn with
  | nil => rfl
  | append_singleton ws w ih =>
    funext rs
    rw [List.foldl_append, List.foldl_cons, List.foldl_nil, ← ih, RegWrite.apply, youngestWrite,
      List.reverse_append, List.reverse_singleton, List.singleton_append, List.find?_cons]
    by_cases h : rs = w.rd
    · subst h
      simp
    · rw [if_neg h]
      have hne : (w.rd == rs) = false := by simpa using fun e => h e.symm
      rw [hne]
      rfl

/-! ## The ways a cycle can go

Without `Staged` the stages have to be followed one by one. These lemmas are about one stage
each. -/

/-- An instruction that fires without a redirect is neither trapped nor an `MRET`. -/
theorem no_redirect (hf : exFires p r = true) (hr : exRedirect c p r = none) :
    exTrap c p r = none ∧ p.idEx.ctrl.isMret = false := by
  rw [exRedirect, if_pos hf] at hr
  split_ifs at hr with htrap hmret
  all_goals exact ⟨by simpa using htrap, by simpa using hmret⟩

/-- Without a wait or a redirect EX/MEM is occupied exactly if EX was and is done. -/
theorem exMem_valid_of_no_redirect {i : PipeIn n} (hs : memStall p i.dmemReady = false)
    (hm : mStall p = false) (hr : exRedirect c p i.dmemReady = none) :
    (pipeNext c p i).exMem.valid = p.idEx.valid := by
  change (exMemNext c p i.dmemReady).valid = p.idEx.valid
  rw [exMemNext, if_neg (by simp [hs])]
  cases hEx : p.idEx.valid with
  | false => rfl
  | true =>
    obtain ⟨htrap, hmret⟩ := no_redirect (exFires_eq_true.mpr ⟨hs, hm, hEx⟩) hr
    simp [hm, htrap, hmret]

/-- A unit at work stays at work while MEM waits. -/
theorem unitsIdle_of_wait {i : PipeIn n} (hs : memStall p i.dmemReady = true)
    (h : UnitsIdle (pipeNext c p i)) : UnitsIdle p := by
  have hmul : (pipeNext c p i).mul = mulNext p i.dmemReady := rfl
  have hdiv : (pipeNext c p i).div = divNext p i.dmemReady := rfl
  obtain ⟨hmb, hmd, hdb, hdd⟩ := h
  rw [hmul] at hmb hmd
  rw [hdiv] at hdb hdd
  have hmstart : mulStart p i.dmemReady = false := by simp [mulStart, hs]
  have hdstart : divStart p i.dmemReady = false := by simp [divStart, hs]
  have hb : p.mul.busy = false := by
    by_contra hb
    rw [Bool.not_eq_false] at hb
    simp [mulNext, hmstart, hb, mulMultiply] at hmd
  have hb' : p.div.busy = false := by
    by_contra hb
    rw [Bool.not_eq_false] at hb
    have hact : (divNext p i.dmemReady).busy = true ∨ (divNext p i.dmemReady).done = true := by
      rw [divNext, if_neg (by simp [hdstart]), if_pos hb]
      exact divIterate_active hb
    rw [hdb, hdd] at hact
    simp at hact
  simp only [mulNext, hmstart, hb, hs, Bool.false_eq_true, if_false, Bool.and_true] at hmd
  simp only [divNext, hdstart, hb', hs, Bool.false_eq_true, if_false, Bool.and_true] at hdd
  exact ⟨hb, hmd, hb', hdd⟩

/-- Only a multiplication puts the multiplier to work. -/
theorem UnitsOwned.mul_idle (h : UnitsOwned p) (hop : p.idEx.ctrl.aluOp.isMul = false) :
    p.mul.busy = false ∧ p.mul.done = false := by
  refine not_active_iff.mp fun ha => ?_
  obtain ⟨-, hmul⟩ := h.mulHeld ha
  exact absurd (hop.symm.trans hmul) Bool.false_ne_true

/-- Only a division puts the divider to work. -/
theorem UnitsOwned.div_idle (h : UnitsOwned p) (hop : p.idEx.ctrl.aluOp.isDiv = false) :
    p.div.busy = false ∧ p.div.done = false := by
  refine not_active_iff.mp fun ha => ?_
  obtain ⟨-, hdiv⟩ := h.divHeld ha
  exact absurd (hop.symm.trans hdiv) Bool.false_ne_true

/-- Only a multicycle operation puts the units to work. -/
theorem UnitsOwned.idle_of_op (h : UnitsOwned p) (hop : p.idEx.ctrl.isMulDiv = false) :
    UnitsIdle p := by
  obtain ⟨hmul, hdiv⟩ := Bool.or_eq_false_iff.mp hop
  obtain ⟨hmb, hmd⟩ := h.mul_idle hmul
  obtain ⟨hdb, hdd⟩ := h.div_idle hdiv
  exact ⟨hmb, hmd, hdb, hdd⟩

/-! ## Fresh operands

The heart of the argument. Between the read in ID and the use in EX the producer moves on, and
the select captured in ID names the place where it will be. `Fresh` says what such a select
promises in each cycle until the operand is used. -/

/-- The instruction in MEM is about to write a register. -/
def PendingWrite (p : Pipe) (rs : BitVec 5) : Prop :=
  rs ≠ 0#5 ∧ p.exMem.valid = true ∧ p.exMem.regWrite = true ∧ p.exMem.rd = rs

instance (p : Pipe) (rs : BitVec 5) : Decidable (PendingWrite p rs) :=
  inferInstanceAs (Decidable (_ ∧ _))

/-- The registers that settle when MEM moves. -/
theorem settledRegs_next {i : PipeIn n} (hs : memStall p i.dmemReady = false) (rs : BitVec 5) :
    settledRegs (pipeNext c p i) rs =
      if PendingWrite p rs then wbData (pipeNext c p i) else settledRegs p rs :=
  settledRegs_of_memWb rfl rfl hs rs

/-- A forwarding path delivers the register as it is once MEM and WB have written back. -/
structure Fresh (p : Pipe) (sel : BitVec 2) (data : Word) (rs : BitVec 5) : Prop where
  value : forwardMux p sel data =
    if PendingWrite p rs then exMemForwardData p else settledRegs p rs
  /-- the value is there already, not still to be loaded -/
  computed : PendingWrite p rs → p.exMem.wbSel ≠ .load

/-- The value in MEM that can be forwarded is the one written back. -/
theorem exMemForwardData_eq {i : PipeIn n} (hs : memStall p i.dmemReady = false)
    (hsel : p.exMem.wbSel ≠ .load) : exMemForwardData p = wbData (pipeNext c p i) := by
  have hwb : (pipeNext c p i).memWb = memWbNext p i := rfl
  rw [exMemForwardData, wbData, hwb, memWbNext, if_neg (by simp [hs])]
  cases h : p.exMem.wbSel with
  | load => exact absurd h hsel
  | alu | pc4 | csr => rfl

/-- **A fresh operand that is used in a cycle in which MEM moves** is the register after the
two writebacks before it. -/
theorem Fresh.eq {i : PipeIn n} {sel : BitVec 2} {data : Word} {rs : BitVec 5}
    (h : Fresh p sel data rs) (hs : memStall p i.dmemReady = false) :
    forwardMux p sel data = settledRegs (pipeNext c p i) rs := by
  rw [settledRegs_next hs, h.value]
  refine if_ctx_congr Iff.rfl (fun hp => ?_) fun _ => rfl
  exact exMemForwardData_eq hs (h.computed hp)

/-- While MEM waits, WB writes back and its data stays on the forwarding path. -/
theorem Fresh.wait {i : PipeIn n} {sel : BitVec 2} {data : Word} {rs : BitVec 5}
    (h : Fresh p sel data rs) (hs : memStall p i.dmemReady = true) :
    Fresh (pipeNext c p i) sel data rs := by
  have hmem : (pipeNext c p i).exMem = p.exMem := if_pos hs
  have hwb : (pipeNext c p i).memWb = { p.memWb with valid := false } := if_pos hs
  have hsettled : settledRegs (pipeNext c p i) = settledRegs p :=
    settledRegs_of_memWb_invalid rfl (by rw [hwb])
  have hpend : PendingWrite (pipeNext c p i) rs ↔ PendingWrite p rs := by
    rw [PendingWrite, PendingWrite, hmem]
  have hmux : forwardMux (pipeNext c p i) sel data = forwardMux p sel data := by
    rw [forwardMux, forwardMux, exMemForwardData, exMemForwardData, wbData, wbData, hmem, hwb]
  refine ⟨?_, fun hp => ?_⟩
  · rw [hmux, h.value, hsettled, exMemForwardData, exMemForwardData, hmem]
    exact if_congr hpend.symm rfl rfl
  · rw [hmem]
    exact h.computed (hpend.mp hp)

/-- **An operand that moves from ID to EX is fresh**, whether its producer is one, two or
three instructions ahead or further. -/
theorem fresh_issue {i : PipeIn n} (hs : memStall p i.dmemReady = false)
    (hm : mStall p = false) (hr : exRedirect c p i.dmemReady = none)
    (hd : p.idEx.valid = true → p.idEx.ctrl.Coherent) (hId : p.ifId.valid = true) {useRs : Bool}
    (huse : useRs = true) {rs : BitVec 5}
    (hload : rs ≠ 0#5 → p.idEx.valid = true → p.idEx.ctrl.rd = rs →
      p.idEx.ctrl.memRead = false) :
    Fresh (pipeNext c p i) (forwardSel p useRs rs)
      (regfileRead p.regs (regWe p) p.memWb.rd (wbData p) rs) rs := by
  have hv := exMem_valid_of_no_redirect (c := c) hs hm hr
  have hmem : (pipeNext c p i).exMem = exMemNext c p i.dmemReady := rfl
  rw [exMemNext, if_neg (by simp [hs])] at hmem
  -- the producer one instruction ahead is now in MEM
  have hpend : PendingWrite (pipeNext c p i) rs ↔
      rs ≠ 0#5 ∧ p.idEx.valid = true ∧ p.idEx.ctrl.regWrite = true ∧ p.idEx.ctrl.rd = rs := by
    rw [PendingWrite, hv, hmem]
  refine ⟨?_, fun hp => ?_⟩
  · rw [settledRegs_next hs, regfileRead_eq_next]
    by_cases h1 : PendingWrite (pipeNext c p i) rs
    · obtain ⟨h0, hEx, hw, hrd⟩ := hpend.mp h1
      have hsel : forwardSel p useRs rs = 0b01#2 := by
        simp [forwardSel, hId, huse, h0, hEx, hw, hrd, hload h0 hEx hrd]
      rw [if_pos h1, hsel]
      rfl
    · have hnot : ¬(rs ≠ 0#5 ∧ p.idEx.valid = true ∧ p.idEx.ctrl.regWrite = true ∧
          p.idEx.ctrl.rd = rs) := mt hpend.mpr h1
      rw [if_neg h1]
      by_cases h2 : PendingWrite p rs
      · -- two ahead: in WB when the operand is used
        have hsel : forwardSel p useRs rs = 0b10#2 := by
          obtain ⟨h0, hv2, hw2, hrd2⟩ := h2
          have h01 : (p.idEx.valid && p.idEx.ctrl.regWrite && !p.idEx.ctrl.memRead &&
              p.idEx.ctrl.rd == rs) = false := by
            by_contra hc
            simp only [Bool.not_eq_false, Bool.and_eq_true, beq_iff_eq] at hc
            exact hnot ⟨h0, hc.1.1.1, hc.1.1.2, hc.2⟩
          simp [forwardSel, hId, huse, h0, h01, hv2, hw2, hrd2]
        rw [if_pos h2, hsel]
        rfl
      · -- further ahead: read from the register file, past its write-first bypass
        have hsel : forwardSel p useRs rs = 0b00#2 := by
          unfold forwardSel
          split_ifs with hc h01 h10
          · simp only [Bool.and_eq_true, bne_iff_ne, beq_iff_eq] at hc h01
            exact absurd ⟨hc.2, h01.1.1.1, h01.1.1.2, h01.2⟩ hnot
          · simp only [Bool.and_eq_true, bne_iff_ne, beq_iff_eq] at hc h10
            exact absurd ⟨hc.2, h10.1.1, h10.1.2, h10.2⟩ h2
          · rfl
          · rfl
        rw [if_neg h2, hsel]
        rfl
  · obtain ⟨h0, hEx, hw, hrd⟩ := hpend.mp hp
    have hread := hload h0 hEx hrd
    rw [hmem]
    intro hsel
    rw [((hd hEx).load hw).mp hsel] at hread
    cases hread

/-! ## The record and the pipeline -/

/-- The instruction waiting in IF/ID. -/
def ifIdWaiting (p : Pipe) : List Word := if p.ifId.valid then [p.ifId.instr] else []

/-- The register that the instruction in MEM will write. -/
def memDestination (p : Pipe) : Option (BitVec 5) :=
  destOf (p.exMem.valid && p.exMem.regWrite) p.exMem.rd

/-- The invariant of a run: the record accounts for every stage, and an operand that has not
been used yet is fresh. -/
structure Packed (p : Pipe) (g : IssueLog) : Prop where
  occupied : p.idEx.valid = true →
    ∃ instr, g.waiting = instr :: ifIdWaiting p ∧ p.idEx.ctrl = (riscvDecode instr).ctrl
  empty : p.idEx.valid = false → g.waiting = ifIdWaiting p
  hold : p.loadUseHoldQ = true → p.idEx.valid = false
  units : UnitsOwned p
  zero : p.regs 0#5 = 0#32
  regs : p.regs = youngestWrite g.written
  order : g.written.map RegWrite.rd ++ ((wbWrite p).map RegWrite.rd).toList ++
    (memDestination p).toList = g.left.filterMap destination
  operandA : p.idEx.valid = true → UnitsIdle p → p.idEx.ctrl.useRs1 = true →
    Fresh p p.idEx.forwardASel p.idEx.rs1Data p.idEx.ctrl.rs1
  operandB : p.idEx.valid = true → UnitsIdle p → p.idEx.ctrl.useRs2 = true →
    Fresh p p.idEx.forwardBSel p.idEx.rs2Data p.idEx.ctrl.rs2

theorem packed_reset : Packed Pipe.reset {} where
  occupied h := by cases h
  empty _ := rfl
  hold h := by cases h
  units := staged_reset.toUnitsOwned
  zero := rfl
  regs := rfl
  order := rfl
  operandA h := by cases h
  operandB h := by cases h

/-- What a cycle does with the instructions in IF/ID and EX. -/
inductive Move (c : Config) (p : Pipe) (i : PipeIn n) : Prop
  /-- MEM waits for memory -/
  | wait (hs : memStall p i.dmemReady = true)
  /-- a multicycle unit holds EX -/
  | hold (hs : memStall p i.dmemReady = false) (hm : mStall p = true)
  /-- the instruction in EX leaves it and squashes what follows -/
  | redirect (hs : memStall p i.dmemReady = false) (hm : mStall p = false)
      (hr : (exRedirect c p i.dmemReady).isSome = true)
  /-- a load leaves EX and its dependent instruction stays in IF/ID -/
  | bubble (hs : memStall p i.dmemReady = false) (hm : mStall p = false)
      (hr : exRedirect c p i.dmemReady = none) (hh : loadHazardEx p = true)
  /-- the cycle after that, with EX empty -/
  | gap (hs : memStall p i.dmemReady = false) (hm : mStall p = false)
      (hr : exRedirect c p i.dmemReady = none) (hh : loadHazardEx p = false)
      (hq : p.loadUseHoldQ = true)
  /-- every stage hands on what it holds -/
  | issue (hs : memStall p i.dmemReady = false) (hm : mStall p = false)
      (hr : exRedirect c p i.dmemReady = none) (hh : loadHazardEx p = false)
      (hq : p.loadUseHoldQ = false)

theorem move (c : Config) (p : Pipe) (i : PipeIn n) : Move c p i := by
  cases hs : memStall p i.dmemReady with
  | true => exact .wait hs
  | false =>
    cases hm : mStall p with
    | true => exact .hold hs hm
    | false =>
      cases hr : exRedirect c p i.dmemReady with
      | some target => exact .redirect hs hm (by rw [hr]; rfl)
      | none =>
        cases hh : loadHazardEx p with
        | true => exact .bubble hs hm hr hh
        | false =>
          cases hq : p.loadUseHoldQ with
          | true => exact .gap hs hm hr hh hq
          | false => exact .issue hs hm hr hh hq

/-- A load-use hazard needs a load in EX. -/
theorem loadHazardEx_ex (hh : loadHazardEx p = true) :
    p.idEx.valid = true ∧ p.idEx.ctrl.memRead = true := by
  simp only [loadHazardEx, Bool.and_eq_true] at hh
  exact ⟨hh.1.1.1.2, hh.1.1.2⟩

/-- The edge of an issue: ID/EX takes the instruction in IF/ID. -/
theorem idEx_issue {i : PipeIn n} (hs : memStall p i.dmemReady = false) (hm : mStall p = false)
    (hr : exRedirect c p i.dmemReady = none) (hh : loadHazardEx p = false)
    (hq : p.loadUseHoldQ = false) : (pipeNext c p i).idEx = idExIssue p := by
  have hst : stallIf p = false := by simp [stallIf, hm, hh, hq]
  change idExNext c p i.dmemReady = _
  rw [idExNext, if_neg (by simp [hs]), if_neg (by simp [idExFlushCtrl, hr, bubbleEx, hh]),
    if_neg (by simp [hst]), idExCapture, if_neg (by simp [hst])]
  rfl

/-- The edge of a flush: ID/EX is empty afterwards. -/
theorem idEx_flush {i : PipeIn n} (hs : memStall p i.dmemReady = false)
    (hflush : idExFlushCtrl c p i.dmemReady = true) :
    (pipeNext c p i).idEx.valid = false := by
  change (idExNext c p i.dmemReady).valid = false
  rw [idExNext, if_neg (by simp [hs]), if_pos hflush]

/-- The edge of the gap behind a load: ID/EX stays empty. -/
theorem idEx_gap {i : PipeIn n} (hs : memStall p i.dmemReady = false)
    (hr : exRedirect c p i.dmemReady = none) (hh : loadHazardEx p = false)
    (hq : p.loadUseHoldQ = true) (hEx : p.idEx.valid = false) :
    (pipeNext c p i).idEx.valid = false := by
  have hst : stallIf p = true := by simp [stallIf, hq]
  change (idExNext c p i.dmemReady).valid = false
  rw [idExNext, if_neg (by simp [hs]), if_neg (by simp [idExFlushCtrl, hr, bubbleEx, hh]),
    if_pos hst, idExCapture, if_pos hst, hEx]

/-- IF/ID stands still while anything stalls and EX does not redirect. -/
theorem ifId_stall {i : PipeIn n} (h : memStall p i.dmemReady = true ∨
    exRedirect c p i.dmemReady = none ∧ stallIf p = true) :
    (pipeNext c p i).ifId = p.ifId ∧ loads c p i = false := by
  have hnext : (pipeNext c p i).ifId = ifIdNext c p i := rfl
  rw [hnext, ifIdNext, loads]
  rcases h with hs | ⟨hr, hst⟩
  · exact ⟨if_pos hs, by simp [hs]⟩
  · refine ⟨?_, by simp [hst]⟩
    rw [hr, Option.isSome_none, if_neg Bool.false_ne_true, if_pos hst, ite_self]

/-- A write in progress names its register. -/
theorem wbWrite_rd : (wbWrite p).map RegWrite.rd = destOf (regWe p) p.memWb.rd := by
  rw [wbWrite, regWriteOf, destOf]
  split_ifs <;> rfl

/-- The instruction that moves from MEM to WB takes its register along. -/
theorem wbWrite_rd_next {i : PipeIn n} (hs : memStall p i.dmemReady = false) :
    (wbWrite (pipeNext c p i)).map RegWrite.rd = memDestination p := by
  have hnext : (pipeNext c p i).memWb = memWbNext p i := rfl
  rw [wbWrite_rd, regWe, hnext, memWbNext, if_neg (by simp [hs])]
  rfl

section step

variable {g : IssueLog} {i : PipeIn n} (h : Packed p g)

include h

theorem Packed.coherent (hEx : p.idEx.valid = true) : p.idEx.ctrl.Coherent := by
  obtain ⟨instr, -, hctrl⟩ := h.occupied hEx
  rw [hctrl]
  exact riscvDecode_coherent instr

/-- The register file after the edge holds the writes made so far. -/
theorem Packed.regs_next :
    (pipeNext c p i).regs = youngestWrite (g.written ++ (wbWrite p).toList) := by
  change settledRegs p = _
  rw [settledRegs_eq h.zero, h.regs, youngestWrite_eq_foldl, youngestWrite_eq_foldl,
    List.foldl_append]

/-- An edge that issues: the instruction in EX is off the record, and what is loaded into
IF/ID comes behind the one that moves on to EX. -/
theorem Packed.waiting_issue (hs : memStall p i.dmemReady = false) (hm : mStall p = false)
    (hr : exRedirect c p i.dmemReady = none) (hst : stallIf p = false) :
    (issueLogNext c g p i).waiting = ifIdWaiting p ++ ifIdWaiting (pipeNext c p i) := by
  have hrest : (if exFires p i.dmemReady then g.waiting.tail else g.waiting) = ifIdWaiting p := by
    cases hEx : p.idEx.valid with
    | false =>
      rw [if_neg (by simp [exFires, hEx])]
      exact h.empty hEx
    | true =>
      obtain ⟨instr, hwaiting, -⟩ := h.occupied hEx
      rw [if_pos (exFires_eq_true.mpr ⟨hs, hm, hEx⟩), hwaiting]
      rfl
  have hloaded : ifIdWaiting (pipeNext c p i) = if loads c p i then [i.ifRespInstr] else [] := by
    have hload : loads c p i = i.ifAccept := by simp [loads, hs, hr, hst]
    have hifId : (pipeNext c p i).ifId =
        if i.ifAccept then ⟨true, i.ifRespPc, i.ifRespInstr⟩
        else { p.ifId with valid := false } := by
      change ifIdNext c p i = _
      rw [ifIdNext, if_neg (by simp [hs]), if_neg (by simp [hr]), if_neg (by simp [hst])]
    rw [ifIdWaiting, hifId, hload]
    cases i.ifAccept <;> rfl
  rw [hloaded, ← hrest]
  simp [issueLogNext, hr]

/-- The step lemma for IF/ID, EX and the instructions that wait in them. -/
theorem Packed.waiting_next :
    ((pipeNext c p i).idEx.valid = true → ∃ instr,
      (issueLogNext c g p i).waiting = instr :: ifIdWaiting (pipeNext c p i) ∧
        (pipeNext c p i).idEx.ctrl = (riscvDecode instr).ctrl) ∧
    ((pipeNext c p i).idEx.valid = false →
      (issueLogNext c g p i).waiting = ifIdWaiting (pipeNext c p i)) ∧
    ((pipeNext c p i).loadUseHoldQ = true → (pipeNext c p i).idEx.valid = false) := by
  have hnotFires : exFires p i.dmemReady = false → exRedirect c p i.dmemReady = none :=
    exRedirect_of_not_fires
  cases move c p i with
  | wait hs =>
    have hf : exFires p i.dmemReady = false := by simp [exFires, hs]
    obtain ⟨hifId, hload⟩ := ifId_stall (c := c) (i := i) (.inl hs)
    have hwait : (issueLogNext c g p i).waiting = g.waiting := by
      simp [issueLogNext, hf, hnotFires hf, hload]
    have hq : (pipeNext c p i).loadUseHoldQ = p.loadUseHoldQ := if_pos hs
    rw [hwait, idEx_held (.inl hs), hq, ifIdWaiting, hifId]
    exact ⟨h.occupied, h.empty, h.hold⟩
  | hold hs hm =>
    have hf : exFires p i.dmemReady = false := by simp [exFires, hm]
    obtain ⟨hifId, hload⟩ := ifId_stall (c := c) (i := i)
      (.inr ⟨hnotFires hf, by simp [stallIf, hm]⟩)
    have hwait : (issueLogNext c g p i).waiting = g.waiting := by
      simp [issueLogNext, hf, hnotFires hf, hload]
    rw [hwait, idEx_held (.inr hm), ifIdWaiting, hifId]
    refine ⟨h.occupied, h.empty, fun hq => ?_⟩
    -- a multicycle operation is no load
    have hh : loadHazardEx p = true := by
      have hq' : (pipeNext c p i).loadUseHoldQ = _ := if_neg (by simp [hs])
      rw [hq'] at hq
      exact (Bool.and_eq_true_iff.mp hq).2
    obtain ⟨hEx, hread⟩ := loadHazardEx_ex hh
    have hplain := ((h.coherent hEx).mulDiv (isMulDiv_of_mStall hm)).2.2.2.2.2.1
    rw [Ctrl.isMem, hread] at hplain
    cases hplain
  | redirect hs hm hr =>
    have hEx' : (pipeNext c p i).idEx.valid = false :=
      idEx_flush hs (by rw [idExFlushCtrl, hr, Bool.true_or])
    have hifId : (pipeNext c p i).ifId.valid = false := by
      change (ifIdNext c p i).valid = false
      rw [ifIdNext, if_neg (by simp [hs]), if_pos hr]
    refine ⟨fun hv => ?_, fun _ => ?_, fun _ => hEx'⟩
    · rw [hEx'] at hv
      cases hv
    · have hnone : (exRedirect c p i.dmemReady).isNone = false := by
        rw [Option.isNone_eq_false_iff, hr]
      simp [issueLogNext, hr, loads, hnone, ifIdWaiting, hifId]
  | bubble hs hm hr hh =>
    obtain ⟨hEx, hread⟩ := loadHazardEx_ex hh
    obtain ⟨instr, hwaiting, -⟩ := h.occupied hEx
    have hf : exFires p i.dmemReady = true := exFires_eq_true.mpr ⟨hs, hm, hEx⟩
    obtain ⟨hifId, hload⟩ := ifId_stall (c := c) (i := i) (.inr ⟨hr, by simp [stallIf, hh]⟩)
    have hEx' : (pipeNext c p i).idEx.valid = false :=
      idEx_flush hs (by simp [idExFlushCtrl, bubbleEx, hh, hm])
    refine ⟨fun hv => ?_, fun _ => ?_, fun _ => hEx'⟩
    · rw [hEx'] at hv
      cases hv
    · simp [issueLogNext, hr, hf, hload, hwaiting, ifIdWaiting, hifId]
  | gap hs hm hr hh hq =>
    have hEx := h.hold hq
    have hf : exFires p i.dmemReady = false := by simp [exFires, hEx]
    have hst : stallIf p = true := by simp [stallIf, hq]
    obtain ⟨hifId, hload⟩ := ifId_stall (c := c) (i := i) (.inr ⟨hr, hst⟩)
    have hEx' := idEx_gap (c := c) hs hr hh hq hEx
    refine ⟨fun hv => ?_, fun _ => ?_, fun _ => hEx'⟩
    · rw [hEx'] at hv
      cases hv
    · rw [ifIdWaiting, hifId]
      simp [issueLogNext, hr, hf, hload, h.empty hEx, ifIdWaiting]
  | issue hs hm hr hh hq =>
    have hissue := idEx_issue (c := c) hs hm hr hh hq
    have hst : stallIf p = false := by simp [stallIf, hm, hh, hq]
    have hwaiting := h.waiting_issue hs hm hr hst
    have hq' : (pipeNext c p i).loadUseHoldQ = false := by
      have hq' : (pipeNext c p i).loadUseHoldQ = _ := if_neg (by simp [hs])
      rw [hq', bubbleEx, hh, Bool.and_false]
    rw [hwaiting, hissue, hq']
    refine ⟨fun hv => ⟨p.ifId.instr, ?_, rfl⟩, fun hv => ?_, fun hf => by cases hf⟩
    · have hv : p.ifId.valid = true := hv
      rw [ifIdWaiting, if_pos hv]
      rfl
    · have hv : p.ifId.valid = false := hv
      rw [ifIdWaiting, if_neg (by simp [hv])]
      rfl

/-- The step lemma for the order of the writes. -/
theorem Packed.order_next :
    (issueLogNext c g p i).written.map RegWrite.rd ++
        ((wbWrite (pipeNext c p i)).map RegWrite.rd).toList ++
        (memDestination (pipeNext c p i)).toList =
      (issueLogNext c g p i).left.filterMap destination := by
  have hwritten : (issueLogNext c g p i).written.map RegWrite.rd =
      g.written.map RegWrite.rd ++ ((wbWrite p).map RegWrite.rd).toList := by
    rw [issueLogNext, List.map_append]
    cases wbWrite p <;> rfl
  cases hs : memStall p i.dmemReady with
  | true =>
    -- WB has written, MEM stays
    have hf : exFires p i.dmemReady = false := by simp [exFires, hs]
    have hwb : wbWrite (pipeNext c p i) = none := by
      apply wbWrite_of_invalid
      change (memWbNext p i).valid = false
      rw [memWbNext, if_pos hs]
    have hmem : (pipeNext c p i).exMem = p.exMem := if_pos hs
    have hleft : (issueLogNext c g p i).left = g.left := by simp [issueLogNext, hf]
    rw [hwritten, hwb, memDestination, hmem, hleft, ← h.order]
    simp [memDestination]
  | false =>
    have hmem : (pipeNext c p i).exMem = exMemNext c p i.dmemReady := rfl
    rw [exMemNext, if_neg (by simp [hs])] at hmem
    have hleft : (issueLogNext c g p i).left.filterMap destination =
        g.left.filterMap destination ++ (memDestination (pipeNext c p i)).toList := by
      cases hf : exFires p i.dmemReady with
      | false =>
        have hempty : (p.idEx.valid && !mStall p) = false := by
          by_contra hc
          rw [Bool.not_eq_false, Bool.and_eq_true, Bool.not_eq_true'] at hc
          rw [exFires_eq_true.mpr ⟨hs, hc.2, hc.1⟩] at hf
          cases hf
        simp [issueLogNext, hf, memDestination, hmem, hempty, destOf]
      | true =>
        obtain ⟨-, hm, hEx⟩ := exFires_eq_true.mp hf
        obtain ⟨instr, hwaiting, hctrl⟩ := h.occupied hEx
        have hmret := (h.coherent hEx).mret
        cases htrap : exTrap c p i.dmemReady with
        | some t => simp [issueLogNext, hf, htrap, memDestination, hmem, destOf]
        | none =>
          -- an `MRET` leaves EX/MEM empty, but it writes no register anyway
          have hdest : memDestination (pipeNext c p i) = destination instr := by
            rw [memDestination, destination, hmem, ← hctrl]
            cases hret : p.idEx.ctrl.isMret with
            | true => simp [destOf, hmret hret]
            | false => simp [hEx, hm, htrap]
          have hleft : (issueLogNext c g p i).left = g.left ++ [instr] := by
            simp [issueLogNext, hf, htrap, hwaiting]
          rw [hdest, hleft, List.filterMap_append, List.filterMap_cons]
          cases destination instr <;> rfl
    rw [hwritten, wbWrite_rd_next hs, hleft, h.order]

/-- The step lemma for the operands: what is in EX unused after the edge was unused before it
or comes from ID. -/
theorem Packed.operands_next (hEx : (pipeNext c p i).idEx.valid = true)
    (hidle : UnitsIdle (pipeNext c p i)) :
    ((pipeNext c p i).idEx.ctrl.useRs1 = true →
      Fresh (pipeNext c p i) (pipeNext c p i).idEx.forwardASel (pipeNext c p i).idEx.rs1Data
        (pipeNext c p i).idEx.ctrl.rs1) ∧
    ((pipeNext c p i).idEx.ctrl.useRs2 = true →
      Fresh (pipeNext c p i) (pipeNext c p i).idEx.forwardBSel (pipeNext c p i).idEx.rs2Data
        (pipeNext c p i).idEx.ctrl.rs2) := by
  have hempty : (pipeNext c p i).idEx.valid = false → False := by
    intro hv
    rw [hEx] at hv
    cases hv
  obtain ⟨-, -, hhold⟩ := h.waiting_next (c := c) (i := i)
  cases move c p i with
  | wait hs =>
    have hidle' := unitsIdle_of_wait hs hidle
    rw [idEx_held (.inl hs)] at hEx ⊢
    exact ⟨fun huse => (h.operandA hEx hidle' huse).wait hs,
      fun huse => (h.operandB hEx hidle' huse).wait hs⟩
  | hold hs hm => exact absurd hidle (units_active_of_mStall hs hm rfl rfl)
  | redirect hs hm hr =>
    exact (hempty (idEx_flush hs (by rw [idExFlushCtrl, hr, Bool.true_or]))).elim
  | bubble hs hm hr hh =>
    exact (hempty (idEx_flush hs (by simp [idExFlushCtrl, bubbleEx, hh, hm]))).elim
  | gap hs hm hr hh hq => exact (hempty (idEx_gap hs hr hh hq (h.hold hq))).elim
  | issue hs hm hr hh hq =>
    have hissue := idEx_issue (c := c) hs hm hr hh hq
    rw [hissue] at hEx ⊢
    have hId : p.ifId.valid = true := hEx
    -- no hazard, so the instruction ahead is not a load of the operand
    have hnoLoad : ∀ rs : BitVec 5,
        ((idDecoded p).ctrl.useRs1 = true ∧ (idDecoded p).ctrl.rs1 = rs ∨
          (idDecoded p).ctrl.useRs2 = true ∧ (idDecoded p).ctrl.rs2 = rs) →
        rs ≠ 0#5 → p.idEx.valid = true → p.idEx.ctrl.rd = rs → p.idEx.ctrl.memRead = false := by
      rintro rs huse h0 hv rfl
      by_contra hread
      rw [Bool.not_eq_false] at hread
      have hh' : loadHazardEx p = true := by
        rcases huse with ⟨hu, hrs⟩ | ⟨hu, hrs⟩
        · simp [loadHazardEx, hId, hv, hread, h0, hu, hrs]
        · simp [loadHazardEx, hId, hv, hread, h0, hu, hrs]
      rw [hh'] at hh
      cases hh
    exact ⟨fun huse => fresh_issue hs hm hr h.coherent hId huse (hnoLoad _ (.inl ⟨huse, rfl⟩)),
      fun huse => fresh_issue hs hm hr h.coherent hId huse (hnoLoad _ (.inr ⟨huse, rfl⟩))⟩

/-- **Step lemma**: every cycle keeps the invariant. -/
theorem pipeNext_packed : Packed (pipeNext c p i) (issueLogNext c g p i) := by
  obtain ⟨hoccupied, hempty, hhold⟩ := h.waiting_next (c := c) (i := i)
  exact
    { occupied := hoccupied
      empty := hempty
      hold := hhold
      units := h.units.next
      zero := rfl
      regs := h.regs_next
      order := h.order_next
      operandA := fun hEx hidle huse => (h.operands_next hEx hidle).1 huse
      operandB := fun hEx hidle huse => (h.operands_next hEx hidle).2 huse }

end step

theorem packed_of_reachable {t : Clocked.Recorded Pipe IssueLog}
    (ht : (issueSystem c).Reachable t) : Packed t.sys t.log := by
  refine Clocked.Reachable.recorded (I := Packed) ?_ ?_ ht
  · rintro p rfl
    exact packed_reset
  · intro p g i _ _ _ h
    exact pipeNext_packed h

/-! ## The operands of an instruction -/

/-- The instruction in EX uses its operands: it leaves EX, or its multicycle unit takes
them. -/
def consumes (p : Pipe) (dmemReady : Bool) : Bool :=
  exFires p dmemReady && !p.idEx.ctrl.isMulDiv || mulStart p dmemReady || divStart p dmemReady

/-- Operands are used in a cycle in which MEM moves, and before any unit is at work. -/
theorem Packed.consumes {g : IssueLog} (h : Packed p g) (hc : consumes p r = true) :
    p.idEx.valid = true ∧ memStall p r = false ∧ UnitsIdle p := by
  simp only [RiscvV2.consumes, Bool.or_eq_true, Bool.and_eq_true, Bool.not_eq_true'] at hc
  obtain (⟨hf, hop⟩ | hstart) | hstart := hc
  · obtain ⟨hs, -, hEx⟩ := exFires_eq_true.mp hf
    exact ⟨hEx, hs, h.units.idle_of_op hop⟩
  · obtain ⟨hEx, hop, hb, hd, hs⟩ := mulStart_eq_true.mp hstart
    obtain ⟨hdb, hdd⟩ := h.units.div_idle (AluOp.isDiv_of_isMul hop)
    exact ⟨hEx, hs, hb, hd, hdb, hdd⟩
  · obtain ⟨hEx, hop, hb, hd, hs⟩ := divStart_eq_true.mp hstart
    obtain ⟨hmb, hmd⟩ := h.units.mul_idle (AluOp.isMul_of_isDiv hop)
    exact ⟨hEx, hs, hmb, hmd, hb, hd⟩

/-- **Forwarding and load-use stalls are right for any issue spacing.** When the oldest
waiting instruction uses its operands, the register writes made before, in this cycle and in
the next are those of the instructions that left EX before it, in program order, and each
operand is the youngest of them. -/
theorem operands_any_spacing (c : Config) {t : Clocked.Recorded Pipe IssueLog}
    (ht : (issueSystem c).Reachable t) (i : PipeIn c.numExtInterrupts)
    (hc : consumes t.sys i.dmemReady = true) :
    let p := t.sys
    let writes := t.log.written ++ (wbWrite p).toList ++ (wbWrite (pipeNext c p i)).toList
    (∃ instr rest, t.log.waiting = instr :: rest ∧ p.idEx.ctrl = (riscvDecode instr).ctrl) ∧
      writes.map RegWrite.rd = t.log.left.filterMap destination ∧
      (p.idEx.ctrl.useRs1 = true → exForwardAData p = youngestWrite writes p.idEx.ctrl.rs1) ∧
      (p.idEx.ctrl.useRs2 = true → exForwardBData p = youngestWrite writes p.idEx.ctrl.rs2) := by
  intro p writes
  have h := packed_of_reachable ht
  obtain ⟨hEx, hs, hidle⟩ := h.consumes hc
  obtain ⟨instr, hwaiting, hctrl⟩ := h.occupied hEx
  have hsettled : settledRegs (pipeNext c p i) = youngestWrite writes := by
    rw [settledRegs_eq rfl, h.regs_next (c := c) (i := i), youngestWrite_eq_foldl,
      youngestWrite_eq_foldl, ← List.foldl_append]
  refine ⟨⟨instr, _, hwaiting, hctrl⟩, ?_, fun huse => ?_, fun huse => ?_⟩
  · rw [← h.order, ← wbWrite_rd_next (c := c) hs, List.map_append, List.map_append]
    cases wbWrite p <;> cases wbWrite (pipeNext c p i) <;> rfl
  · rw [← hsettled]
    exact (h.operandA hEx hidle huse).eq hs
  · rw [← hsettled]
    exact (h.operandB hEx hidle huse).eq hs

/-- `addi x1, x0, 5; lw x1, 0(x0); add x2, x1, x1` without a gap, up to the cycle in which
the addition is in EX. -/
def adjacentInputs : List (PipeIn 32) :=
  let load (instr : Word) : PipeIn 32 := ⟨0, true, 0, instr, true, 7#32⟩
  let idle : PipeIn 32 := ⟨0, false, 0, 0, true, 7#32⟩
  [load 0x00500093#32, load 0x00002083#32, load 0x00108133#32, idle, idle, idle]

/-- The addition waits for the load and sees its data, not the older 5. -/
theorem operands_any_spacing_adjacent :
    exForwardAData ((issueSystem {}).after ⟨Pipe.reset, {}⟩ adjacentInputs).sys = 7#32 := by
  have h0 : (issueSystem {}).Reachable ⟨Pipe.reset, {}⟩ := .init ⟨rfl, rfl⟩
  have ht := h0.after (fun _ _ => ⟨trivial, trivial⟩) adjacentInputs
  obtain ⟨-, -, hA, -⟩ := operands_any_spacing {} ht ⟨0, false, 0, 0, true, 7#32⟩ (by decide)
  rw [hA (by decide)]
  decide

end RiscvV2
