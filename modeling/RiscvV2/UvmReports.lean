import RiscvV2.UvmTop

/-!
# The reports of the UVM top

What the verification environment sees of a run are the retirements that `cpu_top` reports, in
order. They are a function of the program: instruction after instruction, each with as many
reports as it spends cycles in EX. The last of them shows the register write, and those before
it, in cycles in which the multiplier or the divider holds EX, show none (`uvmTop_reports`).

The proof counts. Before a cycle some number of instructions has left EX, and the reports so far
are their blocks and the beginning of one more, for the cycles in which the next instruction is
being held. A cycle adds one report or none. That a block is complete in the end follows from
the liveness of the core.
-/

namespace RiscvV2

variable {c : Config} {imem : Word → Word} {x : ℕ → CpuTopIn} {t : ℕ}

/-! ## The reports of an instruction -/

/-- The register write that is shown with the next instruction. A write of `x0` is shown. -/
def Seq.shownWrite (c : Config) (imem : Word → Word) (s : Seq) : Option RegWrite :=
  let d := riscvDecode (imem s.pc)
  let result := instrResult d.ctrl s.pc d.imm (s.regs d.ctrl.rs1) (s.regs d.ctrl.rs2)
  if (instrTrap c d.ctrl s.pc result).isSome then none
  else if d.ctrl.regWrite then
    some ⟨d.ctrl.rd, instrValue d.ctrl s.pc result s.csr s.mem⟩
  else none

/-- The report of the next instruction when it leaves EX. -/
def Seq.report (c : Config) (imem : Word → Word) (s : Seq) : Retirement :=
  ⟨s.pc, imem s.pc, s.shownWrite c imem⟩

/-- The report of a cycle in which the next instruction is held in EX. -/
def Seq.heldReport (imem : Word → Word) (s : Seq) : Retirement := ⟨s.pc, imem s.pc, none⟩

/-- All reports of the next instruction. -/
def Seq.reports (c : Config) (imem : Word → Word) (s : Seq) : List Retirement :=
  List.replicate (s.exLatency imem) (s.heldReport imem) ++ [s.report c imem]

/-- But for the writes of `x0` the shown writes are the effects. -/
theorem Seq.shownWrite_filter (c : Config) (imem : Word → Word) (s : Seq) :
    (s.shownWrite c imem).toList.filter (·.rd ≠ 0#5) = (s.effect c imem).regWrite.toList := by
  simp only [Seq.shownWrite, Seq.effect, instrEffect]
  generalize instrTrap c _ _ _ = trap
  cases htrap : trap.isSome with
  | true => rfl
  | false =>
    rw [if_neg Bool.false_ne_true, if_neg Bool.false_ne_true, regWriteOf]
    cases hwrite : (riscvDecode (imem s.pc)).ctrl.regWrite with
    | false => rfl
    | true =>
      by_cases hrd : (riscvDecode (imem s.pc)).ctrl.rd = 0#5 <;> simp [hrd]

/-- The write of the instruction that leaves EX is the one shown. -/
theorem Executes.exWrite_eq {p : Pipe} {a : Seq} {readData : Word}
    (h : Executes p true (imem a.pc) a.pc (a.regs (riscvDecode (imem a.pc)).ctrl.rs1)
      (a.regs (riscvDecode (imem a.pc)).ctrl.rs2)) (hcsr : p.csr = a.csr)
    (hload : ∀ y, (a.effect cpuTopConfig imem).access = some y →
      readData = a.mem (wordIndex y.addr)) :
    exWrite p readData = a.shownWrite cpuTopConfig imem := by
  have hd := riscvDecode_coherent (imem a.pc)
  rw [exWrite, h.exTrap_eq, Seq.shownWrite, h.ctrlEq]
  simp only [Seq.effect, instrEffect] at hload
  cases htrap : instrTrap cpuTopConfig (riscvDecode (imem a.pc)).ctrl a.pc _ with
  | some trap => rfl
  | none =>
    cases hwrite : (riscvDecode (imem a.pc)).ctrl.regWrite with
    | false => rfl
    | true =>
      simp only [htrap, Option.isSome_none, Bool.false_eq_true, if_false] at hload
      have hvalue : exValue p readData = instrValue (riscvDecode (imem a.pc)).ctrl a.pc
          (instrResult (riscvDecode (imem a.pc)).ctrl a.pc (riscvDecode (imem a.pc)).imm
            (a.regs (riscvDecode (imem a.pc)).ctrl.rs1)
            (a.regs (riscvDecode (imem a.pc)).ctrl.rs2)) a.csr a.mem := by
        rw [exValue, instrValue, h.ctrlEq]
        cases hsel : (riscvDecode (imem a.pc)).ctrl.wbSel with
        | alu => exact h.exAluResult_eq (.inl ⟨hwrite, hsel⟩)
        | pc4 => rw [h.pcEq]
        | csr => rw [h.csrOldEq, hcsr]
        | load =>
          have hmem : (riscvDecode (imem a.pc)).ctrl.isMem = true := by
            rw [Ctrl.isMem, (hd.load hwrite).mp hsel, Bool.true_or]
          rw [instrAccess, if_pos hmem] at hload
          rw [h.exAluResult_eq (.inr hmem), hload _ rfl]
      rw [hvalue]
      rfl

/-- What `cpu_top` reports of a cycle in which a unit holds EX. -/
theorem reportOf_held (hEx : (pipeAt x t).idEx.valid = true) (hm : mStall (pipeAt x t) = true) :
    reportOf x t = ⟨(pipeAt x t).idEx.pc, exInstr x t, none⟩ := by
  obtain ⟨hpc4, hinstr⟩ := shadow_matches x t hEx
  have hnone : (exMemNext cpuTopConfig (pipeAt x t) true).valid = false := by
    simp [exMemNext, hm]
  rw [reportOf, hpc4, hinstr, BitVec.add_sub_cancel, hnone]
  rfl

namespace TopRun

variable {R : TopRun}

variable (R) in
/-- An instruction leaves EX in cycle `t`. -/
def departs (t : ℕ) : Prop := exFires (R.pipe t) true = true

instance : DecidablePred R.departs := fun _ => inferInstanceAs (Decidable (_ = true))

variable (R) in
/-- The sequential machine after the instructions that have left EX before cycle `t`. -/
def machineAt (t : ℕ) : Seq := R.machine (Nat.count R.departs t)

variable (R) in
/-- The reports before cycle `t`. -/
def reports (t : ℕ) : List Retirement :=
  (List.range t).filterMap fun u => retired (R.state u).dut

variable (R) in
/-- The reports of instruction number `k`. -/
def block (k : ℕ) : List Retirement := (R.machine k).reports cpuTopConfig R.program

theorem machineAt_of_not_departs (hnot : ¬ R.departs t) : R.machineAt (t + 1) = R.machineAt t := by
  rw [machineAt, machineAt, Nat.count_succ, if_neg hnot, Nat.add_zero]

theorem reports_succ (t : ℕ) : R.reports (t + 3) = R.reports (t + 2) ++
    if (R.pipe t).idEx.valid then [reportOf R.dutInput t] else [] := by
  have hretired := retired_succ_succ (x := R.dutInput) (t := t) rfl rfl
  rw [← dut_eq, ← pipe_eq] at hretired
  rw [reports, List.range_succ, List.filterMap_append, ← reports]
  congr 1
  rw [List.filterMap_cons, hretired]
  cases (R.pipe t).idEx.valid <;> rfl

theorem reports_start : R.reports 2 = [] := by
  obtain ⟨h0, h1⟩ := retired_start (x := R.dutInput)
  rw [← dut_eq] at h0 h1
  simp [reports, List.range_succ, h0, h1]

section inMemory

variable (hmemory : R.StaysInMemory)

include hmemory

theorem departs_eq : RiscvV2.departs cpuTopConfig R.hostedStart.sys R.coreInput = R.departs := by
  funext t
  rw [RiscvV2.departs, departs, coreAfter_eq hmemory, pipe]
  rfl

theorem agreesAt (t : ℕ) :
    Agrees R.program (R.state t).dut.core (R.hosted t).log (R.machineAt t) := by
  have hinit : R.hostedSystem.init R.hostedStart := ⟨⟨rfl, rfl⟩, rfl⟩
  have hagrees := agrees_stateAt hinit (hosted_run hmemory) t
  simp only [departs_eq hmemory, coreAfter_eq hmemory] at hagrees
  exact hagrees

/-- The instruction that leaves EX. -/
theorem executesAt (hf : R.departs t) :
    Executes (R.pipe t) true (R.program (R.machineAt t).pc) (R.machineAt t).pc
      ((R.machineAt t).regs (riscvDecode (R.program (R.machineAt t).pc)).ctrl.rs1)
      ((R.machineAt t).regs (riscvDecode (R.program (R.machineAt t).pc)).ctrl.rs2) := by
  obtain ⟨-, hm, hEx⟩ := exFires_eq_true.mp hf
  have hagrees := agreesAt hmemory t
  exact executes_of_leave (R.stagedAt t).pipe (R.operandsAt t) hagrees.back
    (hagrees.front.idEx hEx).1 hEx hm true

/-- **The data memory answers a load with the word of the sequential machine.** -/
theorem memReadData_eq (hf : R.departs t) {y : Access}
    (hy : ((R.machineAt t).effect cpuTopConfig R.program).access = some y) :
    (R.dutInput (t + 1)).memReadData = (R.machineAt t).mem (wordIndex y.addr) := by
  obtain ⟨hs, hm, hEx⟩ := exFires_eq_true.mp hf
  have hst : Staged (R.pipe t) := (R.stagedAt t).pipe
  have hagrees := agreesAt hmemory t
  obtain ⟨hreach, hh⟩ := hostedAt hmemory (t + 1)
  obtain ⟨-, haccess⟩ := departure_wires (c := cpuTopConfig) hagrees (R.stagedAt t)
    (R.operandsAt t) hEx hm true
  have hport : portAccess (R.pipe (t + 1)) = some y := by
    rw [portAccess_leave hs hm hEx (hst.coherent hEx)]
    · exact haccess.trans hy
    · rw [R.pipe_succ]
      rfl
  have haddr : dmemAddr (R.pipe (t + 1)) = y.addr := by
    rw [portAccess] at hport
    split at hport
    · exact congrArg Access.addr (Option.some.inj hport)
    · cases hport
  -- MEM is empty beside an instruction in EX, so the memory has not changed
  have hlog : (R.hosted (t + 1)).log.mem = (R.hosted t).log.mem := by
    change (completedAccess (R.hosted t).sys.sys.pipe true).toList.foldl DataMem.access _ = _
    rw [(hostedAt hmemory t).2.core, ← pipe, completedAccess, if_pos rfl,
      portAccess_of_exMem_invalid (hst.idEx_exMem hEx)]
    rfl
  change (R.state (t + 1)).dataMem (dataMemoryIndex (dmemAddr (R.pipe (t + 1)))) = _
  rw [haddr, ← hh.mem _ (hh.inMemory hreach hmemory hport), hlog,
    hagrees.back.mem_eq (hst.idEx_exMem hEx)]

/-- The word in EX is the instruction of the sequential machine. -/
theorem exInstr_eq (hEx : (R.pipe t).idEx.valid = true) :
    exInstr R.dutInput t = R.program (R.machineAt t).pc := by
  induction t with
  | zero => cases hEx
  | succ t ih =>
    have hagrees := agreesAt hmemory t
    rw [pipe_eq] at hEx
    obtain ⟨hidEx, hword, -⟩ | ⟨hv, hidEx, hword, -⟩ := idEx_succ hEx
    · rw [hidEx, ← pipe_eq] at hEx
      have hId : (R.pipe t).ifId.valid = true := hEx
      obtain ⟨-, hinstr, -⟩ := hagrees.front.ifId hId
      have hnot : ¬ R.departs t := fun hf => by
        obtain ⟨-, -, hv⟩ := exFires_eq_true.mp hf
        exact absurd (((R.stagedAt t).pipe.ifId_idEx hId).symm.trans hv) Bool.false_ne_true
      rw [hword, ← pipe_eq, machineAt_of_not_departs hnot]
      exact hinstr
    · have hnot : ¬ R.departs t := fun hf => by
        have hleaving : (leaving R.dutInput t).isSome = true :=
          leaving_isSome.mpr ⟨rfl, rfl, by rw [← pipe_eq]; exact hf⟩
        rw [idEx_empty_of_leaving hleaving] at hEx
        cases hEx
      rw [← pipe_eq] at hv
      rw [hword, machineAt_of_not_departs hnot]
      exact ih hv

/-- What is reported of a cycle with an instruction in EX. -/
theorem reportOf_machine (hEx : (R.pipe t).idEx.valid = true) : reportOf R.dutInput t =
    if mStall (R.pipe t) then (R.machineAt t).heldReport R.program
    else (R.machineAt t).report cpuTopConfig R.program := by
  have hst : Staged (R.pipe t) := (R.stagedAt t).pipe
  have hagrees := agreesAt hmemory t
  have hpc : (R.pipe t).idEx.pc = (R.machineAt t).pc := (hagrees.front.idEx hEx).1.pcEq
  cases hm : mStall (R.pipe t) with
  | true =>
    rw [if_pos rfl, Seq.heldReport, ← exInstr_eq hmemory hEx, ← hpc, pipe_eq]
    rw [pipe_eq] at hEx hm
    exact reportOf_held hEx hm
  | false =>
    have hf : R.departs t := exFires_eq_true.mpr ⟨hst.memStall_eq hEx true, hm, hEx⟩
    have hwrite := (executesAt hmemory hf).exWrite_eq hagrees.back.csr
      fun y hy => memReadData_eq hmemory hf hy
    have hf' : exFires (pipeAt R.dutInput t) true = true := by
      rw [← pipe_eq]
      exact hf
    rw [if_neg Bool.false_ne_true, reportOf_eq hf', ← pipe_eq, hwrite, hpc, Seq.report,
      exInstr_eq hmemory hEx]

/-- **The reports up to a cycle** are the blocks of the instructions that have left EX, and the
beginning of the next one. -/
theorem reports_shape (t : ℕ) : ∃ j,
    R.reports (t + 2) = (List.range (Nat.count R.departs t)).flatMap R.block ++
      List.replicate j ((R.machineAt t).heldReport R.program) ∧
    if (R.pipe t).idEx.valid then
      j + exRemaining (R.pipe t) = (R.machineAt t).exLatency R.program
    else j = 0 := by
  induction t with
  | zero => exact ⟨0, reports_start, rfl⟩
  | succ t ih =>
    obtain ⟨j, hreports, hcount⟩ := ih
    have hst : Staged (R.pipe t) := (R.stagedAt t).pipe
    rw [reports_succ, hreports, Nat.count_succ]
    cases hEx : (R.pipe t).idEx.valid with
    | false =>
      have hnot : ¬ R.departs t := fun hf => by
        obtain ⟨-, -, hv⟩ := exFires_eq_true.mp hf
        rw [hEx] at hv
        cases hv
      rw [hEx, if_neg Bool.false_ne_true] at hcount
      rw [hcount, if_neg Bool.false_ne_true, if_neg hnot]
      refine ⟨0, by simp, ?_⟩
      split
      next hEx' =>
        -- the instruction has just entered EX
        have hidle : UnitsIdle (R.pipe (t + 1)) := by
          rw [R.pipe_succ]
          exact unitsIdle_next hst hEx
        rw [Nat.zero_add]
        exact exRemaining_eq_exLatency (agreesAt hmemory (t + 1)) (R.stagedAt (t + 1))
          (R.operandsAt (t + 1)) hEx' hidle
      next => rfl
    | true =>
      rw [hEx, if_pos rfl] at hcount
      rw [if_pos rfl, reportOf_machine hmemory hEx]
      cases hm : mStall (R.pipe t) with
      | true =>
        have hnot : ¬ R.departs t := fun hf => by
          obtain ⟨-, hm', -⟩ := exFires_eq_true.mp hf
          rw [hm] at hm'
          cases hm'
        have hEx' : (R.pipe (t + 1)).idEx.valid = true := by
          rw [R.pipe_succ, pipeNext_busy hst hEx hm]
          exact hEx
        have hnext := exRemaining_next (c := cpuTopConfig)
          (i := pipeIn cpuTopConfig (R.state t).dut.core (R.coreInput t)) hst hEx hm
        rw [← R.pipe_succ] at hnext
        refine ⟨j + 1, ?_, ?_⟩
        · rw [if_neg hnot, machineAt_of_not_departs hnot, List.replicate_succ']
          simp
        · rw [if_pos hEx', machineAt_of_not_departs hnot]
          omega
      | false =>
        have hf : R.departs t := exFires_eq_true.mpr ⟨hst.memStall_eq hEx true, hm, hEx⟩
        have hzero := (exRemaining_eq_zero hEx).mpr hm
        have hEx' : (R.pipe (t + 1)).idEx.valid = false := by
          rw [R.pipe_succ, pipeNext_leave hst hEx hm]
          dsimp only
          split_ifs <;> rfl
        refine ⟨0, ?_, by rw [if_neg (Bool.eq_false_iff.mp hEx')]⟩
        have hj : j = (R.machineAt t).exLatency R.program := by omega
        rw [if_pos hf, List.range_succ, List.flatMap_append, hj]
        simp [block, Seq.reports, machineAt]

/-- Instructions leave EX again and again. -/
theorem departs_infinite : {t | R.departs t}.Infinite := by
  have hinit : R.hostedSystem.init R.hostedStart := ⟨⟨rfl, rfl⟩, rfl⟩
  have hrun := answering_of_run hinit (hosted_run hmemory) (hosted_fair hmemory)
  have hinf := hrun.departs_again.infinite
  rwa [departs_eq hmemory] at hinf

omit hmemory in
theorem blocks_mono {m k : ℕ} (h : m ≤ k) :
    (List.range m).flatMap R.block <+: (List.range k).flatMap R.block := by
  obtain ⟨d, rfl⟩ := Nat.exists_eq_add_of_le h
  rw [List.range_add, List.flatMap_append]
  exact List.prefix_append _ _

/-- The reports never go beyond the blocks. -/
theorem reports_within (t : ℕ) : R.reports t <+: (List.range t).flatMap R.block := by
  rcases t with _ | _ | t
  · exact List.nil_prefix
  · have h0 := (retired_start (x := R.dutInput)).1
    rw [← dut_eq] at h0
    simp [reports, h0]
  · obtain ⟨j, hreports, hcount⟩ := reports_shape hmemory t
    have hj : j ≤ (R.machineAt t).exLatency R.program := by
      split at hcount
      · omega
      · omega
    have hblock : List.replicate j ((R.machineAt t).heldReport R.program) <+:
        R.block (Nat.count R.departs t) := by
      obtain ⟨d, hd⟩ := Nat.exists_eq_add_of_le hj
      rw [block, Seq.reports, ← machineAt, hd, List.replicate_add, List.append_assoc]
      exact List.prefix_append _ _
    have hcut : (List.range (Nat.count R.departs t)).flatMap R.block ++
        List.replicate j ((R.machineAt t).heldReport R.program) <+:
          (List.range (Nat.count R.departs t + 1)).flatMap R.block := by
      rw [List.range_succ, List.flatMap_append, List.flatMap_singleton]
      exact (List.prefix_append_right_inj _).mpr hblock
    have hle : Nat.count R.departs t + 1 ≤ t + 2 := by
      have := Nat.count_le (p := R.departs) (n := t)
      omega
    rw [hreports]
    exact hcut.trans (blocks_mono hle)

/-- The reports up to a cycle and some more are those up to the end of a given block and some
more. -/
theorem reports_split (n t : ℕ) : ∃ later rs,
    R.reports t ++ later = (List.range n).flatMap R.block ++ (R.block n ++ rs) := by
  obtain ⟨later, hlater⟩ := (reports_within hmemory t).trans
    (blocks_mono (Nat.le_max_left t (n + 1)))
  obtain ⟨rs, hrs⟩ := blocks_mono (R := R) (Nat.le_max_right t (n + 1))
  rw [List.range_succ, List.flatMap_append, List.flatMap_singleton, List.append_assoc] at hrs
  exact ⟨later, rs, hlater.trans hrs.symm⟩

/-- Two cycles after an instruction has left EX its block is complete. -/
theorem reports_of_departs (hf : R.departs t) : R.reports (t + 3) =
    (List.range (Nat.count R.departs t + 1)).flatMap R.block := by
  obtain ⟨j, hreports, hcount⟩ := reports_shape hmemory (t + 1)
  have hleaving : (leaving R.dutInput t).isSome = true :=
    leaving_isSome.mpr ⟨rfl, rfl, by rw [← pipe_eq]; exact hf⟩
  have hempty := idEx_empty_of_leaving hleaving
  rw [← pipe_eq] at hempty
  rw [hempty, if_neg Bool.false_ne_true] at hcount
  rw [Nat.count_succ, if_pos hf, hcount, List.replicate_zero, List.append_nil] at hreports
  exact hreports

theorem reports_complete (k : ℕ) : ∃ t, R.reports t = (List.range k).flatMap R.block := by
  rcases k with _ | k
  · exact ⟨0, rfl⟩
  · have hinf := departs_infinite hmemory
    have hlast := reports_of_departs hmemory (Nat.nth_mem_of_infinite hinf k)
    rw [Nat.count_nth_of_infinite hinf] at hlast
    exact ⟨_, hlast⟩

end inMemory

end TopRun

/-- **What the verification environment sees is the program**, instruction after instruction.
For every memory file and every content of the data memory whose accesses stay in its range:
in every cycle the reports so far are a beginning of the blocks of the sequential machine, and
every number of blocks is reported in the end. The block of an instruction has one report for
each cycle in which the multiplier or the divider holds it in EX, without a register write, and
then the one with the pc, the word and the write of the instruction. -/
theorem uvmTop_reports (R : TopRun) (hmemory : R.StaysInMemory) :
    (∀ t, R.reports t <+: (List.range t).flatMap R.block) ∧
      ∀ k, ∃ t, R.reports t = (List.range k).flatMap R.block :=
  ⟨TopRun.reports_within hmemory, TopRun.reports_complete hmemory⟩

/-- `addi x1, x0, 7; mul x2, x1, x1; ecall`, and `j .` outside of the instruction memory, where
the trap goes. -/
def squareRun : TopRun where
  file := [0x00700093#32, 0x02108133#32, 0x00000073#32]
  file_le := by decide
  beyond _ := 0x0000006f#32
  dataMem _ := 0#32

theorem squareRun_machine (k : ℕ) : squareRun.machine (k + 3) = squareRun.machine 3 := by
  have hloop : squareRun.program (squareRun.machine 3).pc = 0x0000006f#32 := by decide
  induction k with
  | zero => rfl
  | succ k ih =>
    have hstep : squareRun.machine (k + 1 + 3) =
        seqStep cpuTopConfig squareRun.program (squareRun.machine (k + 3)) :=
      Function.iterate_succ_apply' _ _ _
    rw [hstep, ih]
    exact seqStep_selfLoop hloop

theorem squareRun_staysInMemory : squareRun.StaysInMemory := by
  intro k a ha
  have hnone : ∀ k < 4, (squareRun.machine k).accesses.map Access.addr = [] := by decide
  have haccesses : (squareRun.machine k).accesses = [] := by
    rcases Nat.lt_or_ge k 4 with hk | hk
    · exact List.map_eq_nil_iff.mp (hnone k hk)
    · obtain ⟨j, rfl⟩ := Nat.exists_eq_add_of_le' (Nat.le_of_succ_le hk)
      rw [squareRun_machine j]
      exact List.map_eq_nil_iff.mp (hnone 3 (by decide))
  rw [haccesses] at ha
  cases ha

/-- The multiplication is reported three times. -/
theorem uvmTop_reports_square : ∃ t, squareRun.reports t =
    [⟨0x80000000#32, 0x00700093#32, some ⟨1#5, 7#32⟩⟩, ⟨0x80000004#32, 0x02108133#32, none⟩,
      ⟨0x80000004#32, 0x02108133#32, none⟩,
      ⟨0x80000004#32, 0x02108133#32, some ⟨2#5, 49#32⟩⟩] := by
  obtain ⟨-, hcomplete⟩ := uvmTop_reports squareRun squareRun_staysInMemory
  obtain ⟨t, ht⟩ := hcomplete 2
  exact ⟨t, ht.trans (by decide)⟩

end RiscvV2
